import Mathlib.Algebra.Order.Ring.Int

/-!
# Labelled transition systems

The step relations of the concurrent parts of the development (the shared
memory ring, the template buffer under a list of calls, the collector with its
detection modules) are instances of `LTS`. An invariant is shown to hold
initially and to survive one step (`Inductive`), and then holds in every
reachable state and along every run.

`restrict G` keeps the steps that satisfy a guard `G`. A statement about "every
run whose steps all meet `G`" is a statement about `Reachable (T.restrict G)`.
-/
namespace Topas

/-- A labelled transition system with initial states. -/
structure LTS (S L : Type) where
  init : S → Prop
  step : S → L → S → Prop

namespace LTS

variable {S L : Type}

/-- States reachable from an initial state. -/
inductive Reachable (T : LTS S L) : S → Prop where
  | init {s : S} : T.init s → Reachable T s
  | step {s s' : S} {l : L} : Reachable T s → T.step s l s' → Reachable T s'

/-- `Run T s ls s'`: the labels `ls`, in this order, lead from `s` to `s'`. -/
inductive Run (T : LTS S L) : S → List L → S → Prop where
  | nil (s : S) : Run T s [] s
  | cons {s s' s'' : S} {l : L} {ls : List L} :
      T.step s l s' → Run T s' ls s'' → Run T s (l :: ls) s''

/-- `I` holds initially and is preserved by every step. -/
structure Inductive (T : LTS S L) (I : S → Prop) : Prop where
  init : ∀ s, T.init s → I s
  step : ∀ s l s', I s → T.step s l s' → I s'

theorem Inductive.reachable {T : LTS S L} {I : S → Prop} (h : T.Inductive I) (s : S)
    (hr : T.Reachable s) : I s := by
  induction hr with
  | init h0 => exact h.init _ h0
  | step _ hs ih => exact h.step _ _ _ ih hs

/-- An invariant of states and of the labels that led to them. -/
theorem Run.traced {T : LTS S L} {I : List L → S → Prop}
    (h : ∀ ls s l s', I ls s → T.step s l s' → I (ls ++ [l]) s') {s s' : S} {ls pre : List L}
    (hr : T.Run s ls s') (h0 : I pre s) : I (pre ++ ls) s' := by
  induction hr generalizing pre with
  | nil => rw [List.append_nil]; exact h0
  | cons hs _ ih =>
    have := ih (h pre _ _ _ h0 hs)
    rwa [List.append_assoc] at this

theorem Run.append {T : LTS S L} {s s' s'' : S} {ls ls' : List L} (h : T.Run s ls s')
    (h' : T.Run s' ls' s'') : T.Run s (ls ++ ls') s'' := by
  induction h with
  | nil => exact h'
  | cons hs _ ih => exact .cons hs (ih h')

theorem Reachable.run {T : LTS S L} {s s' : S} {ls : List L} (h : T.Reachable s)
    (hr : T.Run s ls s') :
    T.Reachable s' := by
  induction hr with
  | nil => exact h
  | cons hs _ ih => exact ih (.step h hs)

/-- The steps of `T` that satisfy the guard `G`. -/
def restrict (T : LTS S L) (G : S → L → Prop) : LTS S L where
  init := T.init
  step s l s' := T.step s l s' ∧ G s l

theorem Reachable.of_restrict {T : LTS S L} {G : S → L → Prop} {s : S}
    (h : (T.restrict G).Reachable s) : T.Reachable s := by
  induction h with
  | init h0 => exact .init h0
  | step _ hs ih => exact .step ih hs.1

/-- A weaker guard reaches more. -/
theorem Reachable.weaken {T : LTS S L} {G G' : S → L → Prop} {s : S} (hG : ∀ s l, G s l → G' s l)
    (h : (T.restrict G).Reachable s) : (T.restrict G').Reachable s := by
  induction h with
  | init h0 => exact .init h0
  | step _ hs ih => exact .step ih ⟨hs.1, hG _ _ hs.2⟩

/-! ## Steps that are functions -/

/-- The system whose step `l` takes `s` to `f s l` where `A s l` allows it. -/
def ofFun (init : S → Prop) (A : S → L → Prop) (f : S → L → S) : LTS S L where
  init := init
  step s l s' := A s l ∧ s' = f s l

/-- The steps of a list are possible, one after the other. -/
def Permits (A : S → L → Prop) (f : S → L → S) : S → List L → Prop
  | _, [] => True
  | s, l :: ls => A s l ∧ Permits A f (f s l) ls

instance decidablePermits (A : S → L → Prop) (f : S → L → S) [∀ s, DecidablePred (A s)] :
    (s : S) → (ls : List L) → Decidable (Permits A f s ls)
  | _, [] => .isTrue trivial
  | s, l :: ls =>
    have : Decidable (Permits A f (f s l) ls) := decidablePermits A f (f s l) ls
    inferInstanceAs (Decidable (A s l ∧ Permits A f (f s l) ls))

/-- What holds of every label of the list may be asked for with each step. -/
theorem Permits.and {A : S → L → Prop} {B : L → Prop} {f : S → L → S} {s : S} {ls : List L}
    (h : Permits A f s ls) (hB : ∀ l ∈ ls, B l) : Permits (fun s l => B l ∧ A s l) f s ls := by
  induction ls generalizing s with
  | nil => trivial
  | cons l ls ih =>
    exact
      ⟨⟨hB l (List.mem_cons_self ..), h.1⟩, ih h.2 fun l' hl => hB l' (List.mem_cons_of_mem _ hl)⟩

theorem Reachable.foldl {init : S → Prop} {A : S → L → Prop} {f : S → L → S} {s : S} {ls : List L}
    (h : (ofFun init A f).Reachable s) (hp : Permits A f s ls) :
    (ofFun init A f).Reachable (ls.foldl f s) := by
  induction ls generalizing s with
  | nil => exact h
  | cons l ls ih => exact ih (.step h ⟨hp.1, rfl⟩) hp.2

theorem Reachable.foldl_restrict {init : S → Prop} {A G : S → L → Prop} {f : S → L → S} {s : S}
    {ls : List L} (h : ((ofFun init A f).restrict G).Reachable s)
    (hp : Permits (fun s l => A s l ∧ G s l) f s ls) :
    ((ofFun init A f).restrict G).Reachable (ls.foldl f s) := by
  induction ls generalizing s with
  | nil => exact h
  | cons l ls ih => exact ih (.step h ⟨⟨hp.1.1, rfl⟩, hp.1.2⟩) hp.2

/-- A run and its meaning: when a step of related states leads to related states just if it meets
`Ok`, a run stays related to the end just if all of its steps meet it. -/
theorem related_foldl_iff {S' : Type} {R : S → S' → Prop} {f : S → L → S} {g : S' → L → S'}
    {Ok : S → L → Prop} (hstep : ∀ s a, R s a → ∀ l, R (f s l) (g a l) ↔ Ok s l) {s : S} {a : S'}
    (h : R s a) (ls : List L) :
    (∀ pre, pre <+: ls → R (pre.foldl f s) (pre.foldl g a)) ↔ Permits Ok f s ls := by
  induction ls generalizing s a with
  | nil =>
    refine iff_of_true (fun pre hpre => ?_) trivial
    rw [List.prefix_nil.mp hpre]
    exact h
  | cons l ls ih =>
    constructor
    · intro hrel
      have hl : R (f s l) (g a l) := hrel [l] (List.prefix_append [l] ls)
      exact ⟨(hstep s a h l).mp hl,
        (ih hl).mp fun pre hpre => hrel (l :: pre) (List.cons_prefix_cons.mpr ⟨rfl, hpre⟩)⟩
    · rintro ⟨hok, hrest⟩ pre hpre
      obtain rfl | ⟨tail, rfl, htail⟩ := List.prefix_cons_iff.mp hpre
      · exact h
      · exact (ih ((hstep s a h l).mpr hok)).mpr hrest tail htail

/-- The system whose step `l` from `s` is `step s l`, and not possible where that is `none`. -/
def ofStep (init : S → Prop) (step : S → L → Option S) : LTS S L where
  init := init
  step s l s' := step s l = some s'

/-- Takes the steps of a list, as long as they are possible and meet the guard. -/
def exec (G : S → L → Prop) [∀ s, DecidablePred (G s)] (step : S → L → Option S) :
    S → List L → Option S
  | s, [] => some s
  | s, l :: ls => if G s l then (step s l).bind (exec G step · ls) else none

theorem Reachable.exec {init : S → Prop} {G : S → L → Prop} [∀ s, DecidablePred (G s)]
    {step : S → L → Option S} {s s' : S} {ls : List L}
    (h : ((ofStep init step).restrict G).Reachable s) (he : LTS.exec G step s ls = some s') :
    ((ofStep init step).restrict G).Reachable s' := by
  induction ls generalizing s with
  | nil => exact Option.some.inj he ▸ h
  | cons l ls ih =>
    rw [LTS.exec] at he
    split at he
    · rename_i hG
      obtain ⟨t, ht, he⟩ := Option.bind_eq_some_iff.mp he
      exact ih (.step h ⟨ht, hG⟩) he
    · cases he

end LTS

end Topas
