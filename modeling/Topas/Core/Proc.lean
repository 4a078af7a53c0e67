import Mathlib.Algebra.Order.Ring.Int

/-!
# Programs with an event log and loops that need not end

A `Proc ε α` is a program that emits events of type `ε` and, if it ends, returns
an `α`. Loops are not required to make progress, so a program is evaluated with
a bound on the number of iterations of each loop: `run n` gives the events
emitted so far and, when the bound sufficed, the value. A larger bound only adds
to a log that was cut off (`grows`), so every program has one, possibly
infinite, behaviour:

* `Returns p l a`: the program ends with log `l` and value `a`;
* `Emits p e`: the event `e` is emitted, whether or not the program ends;
* `Halts p`: the program ends;
* `Always P p`: every emitted event satisfies `P`;
* `Does P f p Q ds a`: the program ends with value `a`, all its events satisfy
  `P` exactly when `Q` holds, and what the observer `f` sees of its log is `ds`.

`Does` is the one specification a loop-free program needs: it composes along
`>>=` (`Does.bind`), and along a loop whose states are known in advance
(`Does.loop`, `diverges`). Where the states of a loop are known up to an
invariant only, `halts_loop`, `not_halts_loop` and `always_loop` package the
inductions: a variant, an invariant of a loop that cannot end, an invariant of
the rounds.
-/
namespace Topas

variable {ε α β σ δ : Type}

/-- `y` continues what `x` shows: it repeats a finished run and extends the log
of an unfinished one. -/
def Grows (x y : List ε × Option α) : Prop :=
  match x.2 with
  | some _ => y = x
  | none => x.1 <+: y.1

theorem grows_refl (x : List ε × Option α) : Grows x x := by
  unfold Grows; split
  · rfl
  · exact List.prefix_refl _

theorem Grows.trans {x y z : List ε × Option α} (h : Grows x y) (h' : Grows y z) :
    Grows x z := by
  unfold Grows at h
  split at h
  · subst h; exact h'
  · rename_i hx
    unfold Grows at h' ⊢
    simp only [hx]
    split at h'
    · subst h'; exact h
    · exact h.trans h'

theorem Grows.isPrefix {x y : List ε × Option α} (h : Grows x y) : x.1 <+: y.1 := by
  unfold Grows at h
  split at h
  · subst h; exact List.prefix_refl _
  · exact h

theorem Grows.finished {x y : List ε × Option α} {a : α} (h : Grows x y) (hx : x.2 = some a) :
    y = x := by
  unfold Grows at h; simpa only [hx] using h

/-- Sequencing of what two programs show. -/
def bindRun (x : List ε × Option α) (f : α → List ε × Option β) : List ε × Option β :=
  match x with
  | (l, none) => (l, none)
  | (l, some a) => (l ++ (f a).1, (f a).2)

theorem bindRun_grows {x y : List ε × Option α} {f g : α → List ε × Option β}
    (h : Grows x y) (hf : ∀ a, Grows (f a) (g a)) : Grows (bindRun x f) (bindRun y g) := by
  obtain ⟨l, _ | a⟩ := x
  · obtain ⟨l', _ | b⟩ := y
    · exact h
    · exact List.IsPrefix.trans (show l <+: l' from h) (List.prefix_append _ _)
  · have hy : y = (l, some a) := h
    subst hy
    have ha := hf a
    unfold Grows at ha ⊢
    cases hb : (f a).2 with
    | some b => simp only [hb] at ha; simp only [bindRun, hb, ha]
    | none =>
      simp only [hb] at ha
      simp only [bindRun, hb]
      exact (List.prefix_append_right_inj l).mpr ha

/-- A program with an event log. -/
structure Proc (ε α : Type) where
  run : Nat → List ε × Option α
  grows : ∀ n, Grows (run n) (run (n + 1))

namespace Proc

theorem grows_le (p : Proc ε α) {n m : Nat} (h : n ≤ m) : Grows (p.run n) (p.run m) := by
  induction h with
  | refl => exact grows_refl _
  | step _ ih => exact ih.trans (p.grows _)

/-! ## Building programs -/

/-- Emits the events `l`. -/
def tell (l : List ε) : Proc ε Unit := ⟨fun _ => (l, some ()), fun _ => grows_refl _⟩

/-- A program without a defined outcome. -/
def stuck : Proc ε α := ⟨fun _ => ([], none), fun _ => List.prefix_refl _⟩

/-- Emits one event. -/
def emit (e : ε) : Proc ε Unit := tell [e]

instance : Monad (Proc ε) where
  pure a := ⟨fun _ => ([], some a), fun _ => grows_refl _⟩
  bind p f :=
    ⟨fun n => bindRun (p.run n) fun a => (f a).run n,
      fun n => bindRun_grows (p.grows n) fun a => (f a).grows n⟩

/-- At most `k` rounds of `while (c s) s = body(s)`. -/
def rounds (c : σ → Bool) (body : σ → Proc ε σ) (n : Nat) : Nat → σ → List ε × Option σ
  | 0, s => ([], if c s then none else some s)
  | k + 1, s => if c s then bindRun ((body s).run n) (rounds c body n k) else ([], some s)

theorem rounds_grows (c : σ → Bool) (body : σ → Proc ε σ) (n k : Nat) (s : σ) :
    Grows (rounds c body n k s) (rounds c body (n + 1) (k + 1) s) := by
  induction k generalizing s with
  | zero =>
    cases h : c s
    · simp [rounds, h, Grows]
    · simp [rounds, h, Grows]
  | succ k ih =>
    cases h : c s
    · simp [rounds, h, Grows]
    · rw [rounds, rounds, if_pos h, if_pos h]
      exact bindRun_grows ((body s).grows n) ih

/-- `while (c s) s = body(s)`. -/
def loop (c : σ → Bool) (body : σ → Proc ε σ) (s : σ) : Proc ε σ :=
  ⟨fun n => rounds c body n n s, fun n => rounds_grows c body n n s⟩

@[simp] theorem run_pure (a : α) (n : Nat) : (pure a : Proc ε α).run n = ([], some a) := rfl

@[simp] theorem run_tell (l : List ε) (n : Nat) : (tell l).run n = (l, some ()) := rfl

theorem run_bind (p : Proc ε α) (f : α → Proc ε β) (n : Nat) :
    (p >>= f).run n = bindRun (p.run n) fun a => (f a).run n := rfl

theorem run_loop (c : σ → Bool) (body : σ → Proc ε σ) (s : σ) (n : Nat) :
    (loop c body s).run n = rounds c body n n s := rfl

/-! ## Behaviour -/

def Returns (p : Proc ε α) (l : List ε) (a : α) : Prop := ∃ n, p.run n = (l, some a)

def Emits (p : Proc ε α) (e : ε) : Prop := ∃ n, e ∈ (p.run n).1

def Halts (p : Proc ε α) : Prop := ∃ l a, p.Returns l a

def Always (P : ε → Prop) (p : Proc ε α) : Prop := ∀ e, p.Emits e → P e

def Does (P : ε → Prop) (f : ε → List δ) (p : Proc ε α) (Q : Prop) (ds : List δ) (a : α) : Prop :=
  ∃ l, p.Returns l a ∧ ((∀ e ∈ l, P e) ↔ Q) ∧ l.flatMap f = ds

theorem Returns.le {p : Proc ε α} {l : List ε} {a : α} {n m : Nat}
    (h : p.run n = (l, some a)) (hle : n ≤ m) : p.run m = (l, some a) := by
  rw [← h]; exact (p.grows_le hle).finished (by rw [h])

/-- A program has one log and one value. -/
theorem Returns.det {p : Proc ε α} {l l' : List ε} {a a' : α} (h : p.Returns l a)
    (h' : p.Returns l' a') : l = l' ∧ a = a' := by
  obtain ⟨n, hn⟩ := h
  obtain ⟨m, hm⟩ := h'
  have h1 := Returns.le hn (Nat.le_max_left n m)
  have h2 := Returns.le hm (Nat.le_max_right n m)
  rw [h1] at h2
  simpa using h2

theorem Returns.halts {p : Proc ε α} {l : List ε} {a : α} (h : p.Returns l a) : p.Halts :=
  ⟨l, a, h⟩

/-- The events of a finished program are those of its log. -/
theorem Returns.emits_iff {p : Proc ε α} {l : List ε} {a : α} (h : p.Returns l a) {e : ε} :
    p.Emits e ↔ e ∈ l := by
  obtain ⟨n, hn⟩ := h
  refine ⟨?_, ?_⟩
  · intro ⟨m, hm⟩
    have h1 := (p.grows_le (Nat.le_max_right n m)).isPrefix.subset hm
    rwa [Returns.le hn (Nat.le_max_left n m)] at h1
  · intro he
    exact ⟨n, by rwa [hn]⟩

theorem Returns.always_iff {p : Proc ε α} {l : List ε} {a : α} {P : ε → Prop}
    (h : p.Returns l a) : p.Always P ↔ ∀ e ∈ l, P e :=
  ⟨fun hp e he => hp e (h.emits_iff.mpr he), fun hp e he => hp e (h.emits_iff.mp he)⟩

/-! ## Rules for `pure`, `tell` and `>>=` -/

@[simp] theorem returns_pure {a b : α} {l : List ε} :
    (pure a : Proc ε α).Returns l b ↔ l = [] ∧ b = a := by
  refine ⟨?_, ?_⟩
  · intro ⟨n, hn⟩
    simp only [run_pure, Prod.mk.injEq, Option.some.injEq] at hn
    exact ⟨hn.1.symm, hn.2.symm⟩
  · rintro ⟨rfl, rfl⟩
    exact ⟨0, rfl⟩

@[simp] theorem returns_tell {k l : List ε} {u : Unit} : (tell k).Returns l u ↔ l = k := by
  refine ⟨?_, ?_⟩
  · intro ⟨n, hn⟩
    simp only [run_tell, Prod.mk.injEq] at hn
    exact hn.1.symm
  · rintro rfl
    exact ⟨0, rfl⟩

@[simp] theorem returns_emit {e : ε} {l : List ε} {u : Unit} : (emit e).Returns l u ↔ l = [e] :=
  returns_tell

theorem returns_bind {p : Proc ε α} {f : α → Proc ε β} {l : List ε} {b : β} :
    (p >>= f).Returns l b ↔ ∃ l₁ a l₂, p.Returns l₁ a ∧ (f a).Returns l₂ b ∧ l = l₁ ++ l₂ := by
  refine ⟨?_, ?_⟩
  · intro ⟨n, hn⟩
    rw [run_bind] at hn
    cases hp : p.run n with
    | mk l₁ o =>
      cases o with
      | none => simp [hp, bindRun] at hn
      | some a =>
        simp only [hp, bindRun, Prod.mk.injEq] at hn
        exact ⟨l₁, a, _, ⟨n, hp⟩, ⟨n, Prod.ext rfl hn.2⟩, hn.1.symm⟩
  · rintro ⟨l₁, a, l₂, ⟨n, hn⟩, ⟨m, hm⟩, rfl⟩
    refine ⟨max n m, ?_⟩
    rw [run_bind, Returns.le hn (Nat.le_max_left n m)]
    simp only [bindRun, Returns.le hm (Nat.le_max_right n m)]

theorem Returns.bind {p : Proc ε α} {f : α → Proc ε β} {l l' : List ε} {a : α} {b : β}
    (h : p.Returns l a) (h' : (f a).Returns l' b) : (p >>= f).Returns (l ++ l') b :=
  returns_bind.mpr ⟨l, a, l', h, h', rfl⟩

/-- `Returns.bind` behind a program that emits nothing. -/
theorem Returns.then {p : Proc ε α} {f : α → Proc ε β} {l : List ε} {a : α} {b : β}
    (h : p.Returns [] a) (h' : (f a).Returns l b) : (p >>= f).Returns l b :=
  h.bind h'

/-- `Returns.bind` in front of a program that emits nothing. -/
theorem Returns.last {p : Proc ε α} {f : α → Proc ε β} {l : List ε} {a : α} {b : β}
    (h : p.Returns l a) (h' : (f a).Returns [] b) : (p >>= f).Returns l b := by
  have := h.bind h'
  rwa [List.append_nil] at this

theorem emits_bind {p : Proc ε α} {f : α → Proc ε β} {e : ε} :
    (p >>= f).Emits e ↔ p.Emits e ∨ ∃ l a, p.Returns l a ∧ (f a).Emits e := by
  refine ⟨?_, ?_⟩
  · intro ⟨n, hn⟩
    rw [run_bind] at hn
    cases hp : p.run n with
    | mk l o =>
      cases o with
      | none =>
        simp only [hp, bindRun] at hn
        exact .inl ⟨n, by rwa [hp]⟩
      | some a =>
        simp only [hp, bindRun, List.mem_append] at hn
        rcases hn with h | h
        · exact .inl ⟨n, by rwa [hp]⟩
        · exact .inr ⟨l, a, ⟨n, hp⟩, n, h⟩
  · rintro (⟨n, hn⟩ | ⟨l, a, ⟨n, hn⟩, m, hm⟩)
    · refine ⟨n, ?_⟩
      rw [run_bind]
      cases hp : p.run n with
      | mk l o =>
        rw [hp] at hn
        cases o with
        | none => exact hn
        | some a => exact List.mem_append_left _ hn
    · refine ⟨max n m, ?_⟩
      rw [run_bind, Returns.le hn (Nat.le_max_left n m)]
      exact List.mem_append_right _ (((f a).grows_le (Nat.le_max_right n m)).isPrefix.subset hm)

theorem halts_bind {p : Proc ε α} {f : α → Proc ε β} :
    (p >>= f).Halts ↔ ∃ l a, p.Returns l a ∧ (f a).Halts := by
  refine ⟨?_, ?_⟩
  · intro ⟨l, b, h⟩
    obtain ⟨l₁, a, l₂, h1, h2, -⟩ := returns_bind.mp h
    exact ⟨l₁, a, h1, h2.halts⟩
  · intro ⟨l₁, a, h1, l₂, b, h2⟩
    exact ⟨_, b, returns_bind.mpr ⟨l₁, a, l₂, h1, h2, rfl⟩⟩

theorem always_bind {p : Proc ε α} {f : α → Proc ε β} {P : ε → Prop} :
    (p >>= f).Always P ↔ p.Always P ∧ ∀ l a, p.Returns l a → (f a).Always P := by
  refine ⟨?_, ?_⟩
  · intro h
    exact ⟨fun e he => h e (emits_bind.mpr (.inl he)),
      fun l a ha e he => h e (emits_bind.mpr (.inr ⟨l, a, ha, he⟩))⟩
  · intro ⟨h1, h2⟩ e he
    rcases emits_bind.mp he with he | ⟨l, a, ha, he⟩
    · exact h1 e he
    · exact h2 l a ha e he

theorem not_halts_bind {p : Proc ε α} {f : α → Proc ε β} (h : ¬ p.Halts) : ¬ (p >>= f).Halts := by
  intro hb
  obtain ⟨l, a, hr, -⟩ := halts_bind.mp hb
  exact h hr.halts

theorem always_bind_of_not_halts {p : Proc ε α} {f : α → Proc ε β} {P : ε → Prop} (h : ¬ p.Halts) :
    (p >>= f).Always P ↔ p.Always P :=
  always_bind.trans (and_iff_left fun _ _ hr => absurd hr.halts h)

@[simp] theorem halts_pure {a : α} : (pure a : Proc ε α).Halts := ⟨[], a, by simp⟩

@[simp] theorem always_pure {a : α} {P : ε → Prop} : (pure a : Proc ε α).Always P := by
  intro e ⟨n, hn⟩; cases hn

/-! ## Programs that end -/

section Does

variable {P : ε → Prop} {f : ε → List δ} {p : Proc ε α} {Q R : Prop} {ds ds' : List δ} {a b : α}

theorem Does.halts (h : p.Does P f Q ds a) : p.Halts := by
  obtain ⟨l, hl, -⟩ := h
  exact hl.halts

theorem Does.always_iff (h : p.Does P f Q ds a) : p.Always P ↔ Q := by
  obtain ⟨l, hl, hq, -⟩ := h
  rw [hl.always_iff, hq]

theorem Does.value (h : p.Does P f Q ds a) {l : List ε} (hr : p.Returns l b) : b = a := by
  obtain ⟨l', hl, -⟩ := h
  exact (hr.det hl).2

theorem Does.congr (h : p.Does P f Q ds a) (hq : Q ↔ R) : p.Does P f R ds a := by
  obtain ⟨l, hl, hi, hd⟩ := h
  exact ⟨l, hl, hi.trans hq, hd⟩

theorem does_pure : (pure a : Proc ε α).Does P f True [] a :=
  ⟨[], by simp, by simp, rfl⟩

theorem does_tell {l : List ε} : (tell l).Does P f (∀ e ∈ l, P e) (l.flatMap f) () :=
  ⟨l, by simp, Iff.rfl, rfl⟩

theorem does_emit {e : ε} : (emit e).Does P f (P e) (f e) () :=
  ⟨[e], by simp, by simp, by simp⟩

theorem Does.bind {g : α → Proc ε β} {b : β} (h : p.Does P f Q ds a)
    (h' : (g a).Does P f R ds' b) : (p >>= g).Does P f (Q ∧ R) (ds ++ ds') b := by
  obtain ⟨l, hl, hq, rfl⟩ := h
  obtain ⟨l', hl', hq', rfl⟩ := h'
  refine ⟨l ++ l', returns_bind.mpr ⟨l, a, l', hl, hl', rfl⟩, ?_, List.flatMap_append ..⟩
  rw [← hq, ← hq']
  simp only [List.mem_append, or_imp, forall_and]

/-- `Does.bind` behind a program that the observer does not see. -/
theorem Does.then {g : α → Proc ε β} {b : β} (h : p.Does P f Q [] a)
    (h' : (g a).Does P f R ds b) : (p >>= g).Does P f (Q ∧ R) ds b :=
  h.bind h'

/-- `Does.bind` in front of a `return`. -/
theorem Does.last {g : α → Proc ε β} {b : β} (h : p.Does P f Q ds a) (hg : g a = pure b) :
    (p >>= g).Does P f Q ds b := by
  have := h.bind (g := g) (hg ▸ does_pure)
  rw [List.append_nil] at this
  exact this.congr ⟨And.left, fun hq => ⟨hq, trivial⟩⟩

/-- What is seen through a coarser observer. -/
theorem Does.observe {γ : Type} (h : p.Does P f Q ds a) (g : δ → List γ) :
    p.Does P (fun e => (f e).flatMap g) Q (ds.flatMap g) a := by
  obtain ⟨l, hl, hq, rfl⟩ := h
  exact ⟨l, hl, hq, List.flatMap_assoc.symm⟩

theorem Does.halts_bind_iff {g : α → Proc ε β} (h : p.Does P f Q ds a) :
    (p >>= g).Halts ↔ (g a).Halts := by
  rw [halts_bind]
  refine ⟨?_, ?_⟩
  · intro ⟨l, b, hr, hg⟩
    exact h.value hr ▸ hg
  · intro hg
    obtain ⟨l, hl, -⟩ := h
    exact ⟨l, a, hl, hg⟩

theorem Does.always_bind_iff {g : α → Proc ε β} (h : p.Does P f Q ds a) :
    (p >>= g).Always P ↔ Q ∧ (g a).Always P := by
  rw [always_bind, h.always_iff]
  refine and_congr_right fun _ => ⟨fun hg => ?_, fun hg l b hr => h.value hr ▸ hg⟩
  obtain ⟨l, hl, -⟩ := h
  exact hg l a hl

end Does

/-! ## Rules for loops -/

section Loop

variable {c : σ → Bool} {body : σ → Proc ε σ} {s : σ}

theorem rounds_le {n m k j : Nat} (hn : n ≤ m) (hk : k ≤ j) (s : σ) :
    Grows (rounds c body n k s) (rounds c body m j s) := by
  induction k generalizing j s with
  | zero =>
    cases j with
    | zero => exact grows_refl _
    | succ j =>
      cases h : c s
      · simp [rounds, h, Grows]
      · simp [rounds, h, Grows]
  | succ k ih =>
    obtain ⟨j, rfl⟩ : ∃ i, j = i + 1 := ⟨j - 1, by omega⟩
    cases h : c s
    · simp [rounds, h, Grows]
    · rw [rounds, rounds, if_pos h, if_pos h]
      exact bindRun_grows ((body s).grows_le hn) fun a => ih (by omega) a

theorem loop_done_run (h : c s = false) (n : Nat) : (loop c body s).run n = ([], some s) := by
  rw [run_loop]; cases n <;> simp [rounds, h]

/-- One round of a loop, bound by bound. -/
theorem loop_step_grows (h : c s = true) (n : Nat) :
    Grows ((loop c body s).run n) ((body s >>= loop c body).run n) ∧
      Grows ((body s >>= loop c body).run n) ((loop c body s).run (n + 1)) := by
  simp only [run_loop, run_bind]
  refine ⟨?_, ?_⟩
  · cases n with
    | zero => simp [rounds, h, Grows]
    | succ n =>
      rw [rounds, if_pos h]
      exact bindRun_grows (grows_refl _) fun a => rounds_le (Nat.le_refl _) (Nat.le_succ n) a
  · rw [rounds, if_pos h]
    exact bindRun_grows ((body s).grows n) fun a => rounds_le (Nat.le_succ n) (Nat.le_refl n) a

theorem returns_loop_done (h : c s = false) {l : List ε} {s' : σ} :
    (loop c body s).Returns l s' ↔ l = [] ∧ s' = s := by
  refine ⟨?_, ?_⟩
  · intro ⟨n, hn⟩
    rw [loop_done_run h] at hn
    simp only [Prod.mk.injEq, Option.some.injEq] at hn
    exact ⟨hn.1.symm, hn.2.symm⟩
  · rintro ⟨rfl, rfl⟩
    exact ⟨0, loop_done_run h 0⟩

theorem returns_loop_step (h : c s = true) {l : List ε} {s' : σ} :
    (loop c body s).Returns l s' ↔ (body s >>= loop c body).Returns l s' := by
  refine ⟨?_, ?_⟩
  · intro ⟨n, hn⟩
    refine ⟨n, ?_⟩
    rw [← hn]; exact (loop_step_grows h n).1.finished (by rw [hn])
  · intro ⟨n, hn⟩
    refine ⟨n + 1, ?_⟩
    rw [← hn]; exact (loop_step_grows h n).2.finished (by rw [hn])

theorem emits_loop_step (h : c s = true) {e : ε} :
    (loop c body s).Emits e ↔ (body s >>= loop c body).Emits e := by
  refine ⟨?_, ?_⟩
  · intro ⟨n, hn⟩
    exact ⟨n, (loop_step_grows h n).1.isPrefix.subset hn⟩
  · intro ⟨n, hn⟩
    exact ⟨n + 1, (loop_step_grows h n).2.isPrefix.subset hn⟩

theorem halts_loop_step (h : c s = true) :
    (loop c body s).Halts ↔ ∃ l s', (body s).Returns l s' ∧ (loop c body s').Halts := by
  rw [← halts_bind]
  refine ⟨?_, ?_⟩ <;> intro ⟨l, s', hr⟩
  · exact ⟨l, s', (returns_loop_step h).mp hr⟩
  · exact ⟨l, s', (returns_loop_step h).mpr hr⟩

theorem always_loop_step (h : c s = true) {P : ε → Prop} :
    (loop c body s).Always P ↔
      (body s).Always P ∧ ∀ l s', (body s).Returns l s' → (loop c body s').Always P := by
  rw [← always_bind]
  exact ⟨fun hp e he => hp e ((emits_loop_step h).mpr he),
    fun hp e he => hp e ((emits_loop_step h).mp he)⟩

/-- A loop ends when each round ends, keeps `I` and lowers the variant `μ`; the
final state satisfies `I` and fails the loop condition. -/
theorem returns_loop (I : σ → Prop) (μ : σ → Nat)
    (hb : ∀ s, I s → c s = true → ∃ l s', (body s).Returns l s' ∧ I s' ∧ μ s' < μ s)
    (h0 : I s) : ∃ l s', (loop c body s).Returns l s' ∧ I s' ∧ c s' = false := by
  generalize hm : μ s = m
  induction m using Nat.strongRecOn generalizing s with
  | _ m ih =>
    cases hc : c s with
    | false => exact ⟨[], s, (returns_loop_done hc).mpr ⟨rfl, rfl⟩, h0, hc⟩
    | true =>
      obtain ⟨l, s1, hr, h1, hlt⟩ := hb s h0 hc
      obtain ⟨l', s', hr', h', hc'⟩ := ih (μ s1) (by omega) h1 rfl
      exact ⟨l ++ l', s', (returns_loop_step hc).mpr (returns_bind.mpr ⟨l, s1, l', hr, hr', rfl⟩),
        h', hc'⟩

theorem halts_loop (I : σ → Prop) (μ : σ → Nat)
    (hb : ∀ s, I s → c s = true → ∃ l s', (body s).Returns l s' ∧ I s' ∧ μ s' < μ s)
    (h0 : I s) : (loop c body s).Halts := by
  obtain ⟨l, s', hr, -⟩ := returns_loop I μ hb h0
  exact hr.halts

/-- A loop that keeps `I` and whose condition holds under `I` does not end. -/
theorem not_halts_loop (I : σ → Prop) (hc : ∀ s, I s → c s = true)
    (hb : ∀ s l s', I s → (body s).Returns l s' → I s') (h0 : I s) : ¬ (loop c body s).Halts := by
  intro ⟨l, s', n, hn⟩
  have key : ∀ k s, I s → (rounds c body n k s).2 = none := by
    intro k
    induction k with
    | zero => intro s hs; simp [rounds, hc s hs]
    | succ k ih =>
      intro s hs
      rw [rounds, if_pos (hc s hs)]
      cases hr : (body s).run n with
      | mk l o =>
        cases o with
        | none => rfl
        | some s1 => exact ih s1 (hb s l s1 hs ⟨n, hr⟩)
  rw [run_loop] at hn
  have h1 := key n s h0
  rw [hn] at h1
  cases h1

/-- Every event of a loop satisfies `P` when every round under `I` does and
keeps `I`. -/
theorem always_loop (I : σ → Prop) {P : ε → Prop}
    (hb : ∀ s, I s → c s = true → (body s).Always P ∧ ∀ l s', (body s).Returns l s' → I s')
    (h0 : I s) : (loop c body s).Always P := by
  intro e ⟨n, hn⟩
  have key : ∀ k s, I s → ∀ e ∈ (rounds c body n k s).1, P e := by
    intro k
    induction k with
    | zero => intro s hs e he; simp [rounds] at he
    | succ k ih =>
      intro s hs e he
      cases hc : c s with
      | false => simp [rounds, hc] at he
      | true =>
        obtain ⟨h1, h2⟩ := hb s hs hc
        rw [rounds, if_pos hc] at he
        cases hr : (body s).run n with
        | mk l o =>
          rw [hr] at he
          cases o with
          | none => exact h1 e ⟨n, by rw [hr]; exact he⟩
          | some s1 =>
            rcases List.mem_append.mp he with he | he
            · exact h1 e ⟨n, by rw [hr]; exact he⟩
            · exact ih s1 (h2 l s1 ⟨n, hr⟩) e he
  exact key n s h0 e hn

/-- A loop whose rounds keep `I` ends in a state that satisfies `I`. -/
theorem Returns.loop_invariant (I : σ → Prop)
    (hb : ∀ s l s', I s → c s = true → (body s).Returns l s' → I s') (h0 : I s)
    {l : List ε} {s' : σ} (hr : (Proc.loop c body s).Returns l s') : I s' := by
  obtain ⟨n, hn⟩ := hr
  have key : ∀ k s l s', I s → rounds c body n k s = (l, some s') → I s' := by
    intro k
    induction k with
    | zero =>
      intro s l s' hs hr
      cases hc : c s <;> simp [rounds, hc] at hr
      exact hr.2 ▸ hs
    | succ k ih =>
      intro s l s' hs hr
      cases hc : c s with
      | false =>
        rw [rounds, hc] at hr
        cases hr
        exact hs
      | true =>
        rw [rounds, if_pos hc] at hr
        cases hr1 : (body s).run n with
        | mk l1 o =>
          rw [hr1] at hr
          cases o with
          | none => cases hr
          | some s1 =>
            exact ih s1 _ s' (hb s l1 s1 hs hc ⟨n, hr1⟩) (Prod.ext rfl (Prod.ext_iff.mp hr).2)
  exact key n s l s' h0 hn

/-- A loop ends where its condition fails. -/
theorem Returns.loop_ended {l : List ε} {s' : σ} (hr : (Proc.loop c body s).Returns l s') :
    c s' = false := by
  obtain ⟨n, hn⟩ := hr
  have key : ∀ k s l s', rounds c body n k s = (l, some s') → c s' = false := by
    intro k
    induction k with
    | zero =>
      intro s l s' hr
      cases hc : c s <;> simp [rounds, hc] at hr
      exact hr.2 ▸ hc
    | succ k ih =>
      intro s l s' hr
      cases hc : c s with
      | false =>
        rw [rounds, hc] at hr
        cases hr
        exact hc
      | true =>
        rw [rounds, if_pos hc] at hr
        cases hr1 : (body s).run n with
        | mk l1 o =>
          rw [hr1] at hr
          cases o with
          | none => cases hr
          | some s1 => exact ih s1 _ s' (Prod.ext rfl (Prod.ext_iff.mp hr).2)
  exact key n s l s' hn

theorem does_loop_done {P : ε → Prop} {f : ε → List δ} (h : c s = false) :
    (loop c body s).Does P f True [] s :=
  ⟨[], (returns_loop_done h).mpr ⟨rfl, rfl⟩, by simp, rfl⟩

theorem Does.loop_step {P : ε → Prop} {f : ε → List δ} {Q R : Prop} {ds ds' : List δ} {s' s'' : σ}
    (h : c s = true) (hb : (body s).Does P f Q ds s') (hl : (loop c body s').Does P f R ds' s'') :
    (loop c body s).Does P f (Q ∧ R) (ds ++ ds') s'' := by
  obtain ⟨l, hr, hq, hd⟩ := hb.bind hl
  exact ⟨l, (returns_loop_step h).mpr hr, hq, hd⟩

/-- A loop that runs through the states `t 0`, …, `t n`. -/
theorem Does.loop {P : ε → Prop} {f : ε → List δ} {t : Nat → σ} {Q : Nat → Prop}
    {ds : Nat → List δ} {n : Nat} (hc : ∀ j, j < n → c (t j) = true) (hn : c (t n) = false)
    (hb : ∀ j, j < n → (body (t j)).Does P f (Q j) (ds j) (t (j + 1))) :
    (Proc.loop c body (t 0)).Does P f (∀ j, j < n → Q j) ((List.range n).flatMap ds) (t n) := by
  induction n generalizing t Q ds with
  | zero => exact (does_loop_done hn).congr (by simp)
  | succ n ih =>
    have htail := @ih (fun j => t (j + 1)) (fun j => Q (j + 1)) (fun j => ds (j + 1))
      (fun j hj => hc (j + 1) (by omega)) hn (fun j hj => hb (j + 1) (by omega))
    rw [List.range_succ_eq_map, List.flatMap_cons, List.flatMap_map]
    refine (Does.loop_step (hc 0 (by omega)) (hb 0 (by omega)) htail).congr ⟨?_, ?_⟩
    · rintro ⟨h0, h1⟩ (_ | j) hj
      · exact h0
      · exact h1 j (by omega)
    · exact fun h => ⟨h 0 (by omega), fun j hj => h (j + 1) (by omega)⟩

/-- A loop that runs through the states `t 0`, `t 1`, … without end. -/
theorem diverges {P : ε → Prop} {f : ε → List δ} {t : Nat → σ} {Q : Nat → Prop}
    {ds : Nat → List δ} (hc : ∀ j, c (t j) = true)
    (hb : ∀ j, (body (t j)).Does P f (Q j) (ds j) (t (j + 1))) :
    ¬ (loop c body (t 0)).Halts ∧ ((loop c body (t 0)).Always P ↔ ∀ j, Q j) := by
  refine ⟨?_, ?_, ?_⟩
  · refine not_halts_loop (fun s => ∃ j, s = t j) ?_ ?_ ⟨0, rfl⟩
    · rintro s ⟨j, rfl⟩; exact hc j
    · rintro s l s' ⟨j, rfl⟩ hr; exact ⟨j + 1, (hb j).value hr⟩
  · intro h
    have hj : ∀ j, (loop c body (t j)).Always P := by
      intro j
      induction j with
      | zero => exact h
      | succ j ih =>
        obtain ⟨l, hl, -⟩ := hb j
        exact ((always_loop_step (hc j)).mp ih).2 l _ hl
    exact fun j => (hb j).always_iff.mp ((always_loop_step (hc j)).mp (hj j)).1
  · intro h
    refine always_loop (fun s => ∃ j, s = t j) ?_ ⟨0, rfl⟩
    rintro s ⟨j, rfl⟩ -
    exact ⟨(hb j).always_iff.mpr (h j), fun l s' hr => ⟨j + 1, (hb j).value hr⟩⟩

end Loop

end Proc

end Topas
