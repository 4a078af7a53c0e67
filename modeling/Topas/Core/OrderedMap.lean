import Mathlib.Data.List.Dedup
import Mathlib.Data.List.Induction
import Mathlib.Data.List.Nodup
import Mathlib.Logic.Function.Iterate
import Mathlib.Order.Basic
import Mathlib.Data.Int.Order.Basic

/-!
# A map that is gone through in the order of its keys

As a list of its entries, for any strict total order.

* `mem_tally`: with one update for every key of a list, each of them has one entry, which was
  updated as often as the key occurs.
* `take_spec`: taking out the entry with the greatest value `n` times gives `n` keys, of which none
  has a lesser value than a key that is left, however the entries that are equally great are
  ordered.
-/
namespace Topas.OrderedMap

variable {κ β : Type} {lt : κ → κ → Bool}

/-- What `std::map` asks of the comparison, and that only equal keys are equivalent. -/
structure Total (lt : κ → κ → Bool) : Prop where
  irrefl : ∀ a, lt a a = false
  trans : ∀ a b c, lt a b = true → lt b c = true → lt a c = true
  connected : ∀ a b, lt a b = false → lt b a = false → a = b

/-- `f(m[k])`; an entry that is not there is made with the value `default`. -/
def update (lt : κ → κ → Bool) (default : β) (f : β → β) (k : κ) : List (κ × β) → List (κ × β)
  | [] => [(k, f default)]
  | p :: m =>
    if lt k p.1 then (k, f default) :: p :: m
    else if lt p.1 k then p :: update lt default f k m
    else (p.1, f p.2) :: m

/-- `m.erase(k)`. -/
def erase (lt : κ → κ → Bool) (k : κ) (m : List (κ × β)) : List (κ × β) :=
  m.filter fun p => lt p.1 k || lt k p.1

/-- One update for each key. -/
def tally (lt : κ → κ → Bool) (default : β) (f : β → β) (ks : List κ) : List (κ × β) :=
  ks.foldl (fun m k => update lt default f k m) []

/-- In the order of the keys. -/
def Sorted (lt : κ → κ → Bool) (m : List (κ × β)) : Prop := m.Pairwise fun p q => lt p.1 q.1 = true

theorem Sorted.nodup_keys {m : List (κ × β)} (hlt : Total lt) (h : Sorted lt m) :
    (m.map Prod.fst).Nodup := by
  refine List.pairwise_map.mpr (h.imp fun {a b} hab heq => ?_)
  rw [heq, hlt.irrefl] at hab
  cases hab

section

variable {default : β} {f : β → β} {k : κ} {m : List (κ × β)}

theorem key_of_mem_update {q : κ × β} (h : q ∈ update lt default f k m) :
    q.1 = k ∨ ∃ p ∈ m, p.1 = q.1 := by
  induction m with
  | nil =>
    rw [update, List.mem_singleton] at h
    exact .inl (h ▸ rfl)
  | cons p m ih =>
    unfold update at h
    split at h
    · rcases List.mem_cons.mp h with rfl | hq
      · exact .inl rfl
      · exact .inr ⟨q, hq, rfl⟩
    split at h
    · rcases List.mem_cons.mp h with rfl | hq
      · exact .inr ⟨q, List.mem_cons_self, rfl⟩
      · exact (ih hq).imp_right fun ⟨p', hp', heq⟩ => ⟨p', List.mem_cons_of_mem _ hp', heq⟩
    · rcases List.mem_cons.mp h with rfl | hq
      · exact .inr ⟨p, List.mem_cons_self, rfl⟩
      · exact .inr ⟨q, List.mem_cons_of_mem _ hq, rfl⟩

theorem sorted_update (hlt : Total lt) (h : Sorted lt m) : Sorted lt (update lt default f k m) := by
  induction m with
  | nil => exact List.pairwise_singleton _ _
  | cons p m ih =>
    obtain ⟨hp, hm⟩ := List.pairwise_cons.mp h
    unfold update
    split
    · rename_i hkp
      refine List.pairwise_cons.mpr ⟨fun q hq => ?_, h⟩
      rcases List.mem_cons.mp hq with rfl | hq
      · exact hkp
      · exact hlt.trans _ _ _ hkp (hp q hq)
    split
    · rename_i hpk
      refine List.pairwise_cons.mpr ⟨fun q hq => ?_, ih hm⟩
      rcases key_of_mem_update hq with heq | ⟨p', hp', heq⟩
      · rwa [heq]
      · rw [← heq]
        exact hp p' hp'
    · exact List.pairwise_cons.mpr ⟨hp, hm⟩

variable [DecidableEq κ]

theorem lookup_cons_eq (p : κ × β) (m : List (κ × β)) (k : κ) :
    (p :: m).lookup k = if k = p.1 then some p.2 else m.lookup k := by
  rw [List.lookup_cons]
  by_cases hk : k = p.1
  · simp [hk]
  · simp [hk, beq_false_of_ne hk]

theorem lookup_eq_none_of_lt (hlt : Total lt) (h : ∀ q ∈ m, lt k q.1 = true) :
    m.lookup k = none := by
  rw [List.lookup_eq_none_iff]
  intro q hq
  have hkq := h q hq
  rw [bne_iff_ne]
  rintro rfl
  rw [hlt.irrefl] at hkq
  cases hkq

theorem Sorted.lookup_iff (hlt : Total lt) (h : Sorted lt m) {v : β} :
    m.lookup k = some v ↔ (k, v) ∈ m := by
  induction m with
  | nil => simp
  | cons p m ih =>
    obtain ⟨hp, hm⟩ := List.pairwise_cons.mp h
    obtain ⟨k', v'⟩ := p
    rw [lookup_cons_eq, List.mem_cons, Prod.mk.injEq]
    by_cases hk : k = k'
    · have hnot : (k, v) ∉ m := fun hmem => by
        have hlt' := hp _ hmem
        rw [hk, hlt.irrefl] at hlt'
        cases hlt'
      simp [hk, hk ▸ hnot, eq_comm]
    · simp [hk, ih hm]

theorem lookup_update (hlt : Total lt) (h : Sorted lt m) (k' : κ) :
    (update lt default f k m).lookup k' =
      if k' = k then some (f ((m.lookup k).getD default)) else m.lookup k' := by
  induction m with
  | nil => simp only [update, lookup_cons_eq, List.lookup_nil, Option.getD_none]
  | cons p m ih =>
    obtain ⟨hp, hm⟩ := List.pairwise_cons.mp h
    unfold update
    split
    · rename_i hkp
      have hnone : (p :: m).lookup k = none := lookup_eq_none_of_lt hlt fun q hq => by
        rcases List.mem_cons.mp hq with rfl | hq
        · exact hkp
        · exact hlt.trans _ _ _ hkp (hp q hq)
      rw [hnone, lookup_cons_eq, Option.getD_none]
    split
    · rename_i hpk
      have hne : k ≠ p.1 := by
        rintro rfl
        rw [hlt.irrefl] at hpk
        cases hpk
      rw [lookup_cons_eq, ih hm, lookup_cons_eq p m k, if_neg hne, lookup_cons_eq p m k']
      by_cases hk : k' = p.1
      · simp [hk, hne.symm]
      · simp [hk]
    · rename_i hkp hpk
      obtain rfl := hlt.connected k p.1 (by simpa using hkp) (by simpa using hpk)
      rw [lookup_cons_eq, lookup_cons_eq, lookup_cons_eq, if_pos rfl]
      by_cases hk : k' = p.1 <;> simp [hk]

end

/-! ## Counting -/

section

variable [DecidableEq κ] {default : β} {f : β → β}

omit [DecidableEq κ] in
theorem sorted_tally (hlt : Total lt) (ks : List κ) : Sorted lt (tally lt default f ks) := by
  induction ks using List.reverseRecOn with
  | nil => exact List.Pairwise.nil
  | append_singleton ks k ih =>
    rw [tally, List.foldl_append]
    exact sorted_update hlt ih

theorem lookup_tally (hlt : Total lt) (ks : List κ) (k : κ) :
    (tally lt default f ks).lookup k = if k ∈ ks then some (f^[ks.count k] default) else none := by
  induction ks using List.reverseRecOn generalizing k with
  | nil => rfl
  | append_singleton ks k' ih =>
    have hstep : (tally lt default f (ks ++ [k'])).lookup k =
        if k = k' then some (f (((tally lt default f ks).lookup k').getD default))
        else (tally lt default f ks).lookup k := by
      rw [tally, List.foldl_append]
      exact lookup_update hlt (sorted_tally hlt ks) k
    rw [hstep, ih, ih]
    by_cases hk : k = k'
    · obtain rfl := hk
      rw [if_pos rfl, if_pos (List.mem_append_right _ (List.mem_singleton_self k)),
        List.count_append,
        List.count_singleton_self, Function.iterate_succ_apply']
      by_cases hmem : k ∈ ks
      · rw [if_pos hmem, Option.getD_some]
      · rw [if_neg hmem, Option.getD_none, List.count_eq_zero_of_not_mem hmem,
          Function.iterate_zero, id]
    · rw [if_neg hk, List.count_append, List.count_singleton]
      simp [hk, Ne.symm hk]

theorem mem_tally (hlt : Total lt) {ks : List κ} {p : κ × β} :
    p ∈ tally lt default f ks ↔ p.1 ∈ ks ∧ p.2 = f^[ks.count p.1] default := by
  obtain ⟨k, v⟩ := p
  rw [← (sorted_tally hlt ks).lookup_iff hlt, lookup_tally hlt]
  by_cases hmem : k ∈ ks <;> simp [hmem, eq_comm]

/-- As many entries as different keys. -/
theorem length_tally (hlt : Total lt) (ks : List κ) :
    (tally lt default f ks).length = ks.dedup.length := by
  rw [← List.length_map Prod.fst]
  refine List.Perm.length_eq ((List.perm_ext_iff_of_nodup ((sorted_tally hlt ks).nodup_keys hlt)
    ks.nodup_dedup).mpr fun k => ?_)
  rw [List.mem_dedup, List.mem_map]
  refine ⟨fun ⟨p, hp, heq⟩ => heq ▸ ((mem_tally hlt).mp hp).1, fun hk => ?_⟩
  exact ⟨(k, f^[ks.count k] default), (mem_tally hlt).mpr ⟨hk, rfl⟩, rfl⟩

end

/-! ## The greatest values -/

/-- A pass that keeps the first of the greatest entries, if one is greater than where it began. -/
theorem foldl_greatest {α : Type} (w : α → ℤ) {step : α → α → α}
    (hstep : ∀ a b, step a b = if w a < w b then b else a) (l : List α) (a : α) :
    (l.foldl step a = a ∨ l.foldl step a ∈ l) ∧ w a ≤ w (l.foldl step a) ∧
      ∀ b ∈ l, w b ≤ w (l.foldl step a) := by
  induction l generalizing a with
  | nil => simp
  | cons c l ih =>
    obtain ⟨hmem, hbegin, hall⟩ := ih (step a c)
    have hle : w a ≤ w (step a c) ∧ w c ≤ w (step a c) := by
      rw [hstep]
      split <;> omega
    rw [List.foldl_cons]
    refine ⟨?_, hle.1.trans hbegin, fun b hb => ?_⟩
    · rcases hmem with heq | hmem
      · rw [heq, hstep]
        split
        · exact .inr List.mem_cons_self
        · exact .inl rfl
      · exact .inr (List.mem_cons_of_mem _ hmem)
    · rcases List.mem_cons.mp hb with rfl | hb
      · exact hle.2.trans hbegin
      · exact hall b hb

/-- What `best` finds is taken out, `n` times. -/
def take (lt : κ → κ → Bool) (best : List (κ × β) → κ) : ℕ → List (κ × β) → List κ
  | 0, _ => []
  | n + 1, m => best m :: take lt best n (erase lt (best m) m)

section

variable {m : List (κ × β)} {k : κ}

theorem mem_erase (hlt : Total lt) {p : κ × β} : p ∈ erase lt k m ↔ p ∈ m ∧ p.1 ≠ k := by
  rw [erase, List.mem_filter, Bool.or_eq_true]
  refine and_congr_right fun _ => ⟨?_, fun hne => ?_⟩
  · rintro h rfl
    simp [hlt.irrefl] at h
  · by_contra hno
    push Not at hno
    exact hne (hlt.connected _ _ (by simpa using hno.1) (by simpa using hno.2))

theorem length_erase (hlt : Total lt) (h : Sorted lt m) {v : β} (hk : (k, v) ∈ m) :
    (erase lt k m).length + 1 = m.length := by
  induction m with
  | nil => cases hk
  | cons p m ih =>
    obtain ⟨hp, hm⟩ := List.pairwise_cons.mp h
    rcases List.mem_cons.mp hk with rfl | hk
    · have hrest : erase lt k m = m := List.filter_eq_self.mpr fun q hq => by
        rw [hp q hq, Bool.or_true]
      have hfirst : erase lt k ((k, v) :: m) = erase lt k m :=
        List.filter_cons_of_neg (by simp [hlt.irrefl])
      rw [hfirst, hrest, List.length_cons]
    · have hfirst : erase lt k (p :: m) = p :: erase lt k m :=
        List.filter_cons_of_pos (by rw [hp _ hk, Bool.true_or])
      rw [hfirst, List.length_cons, List.length_cons, ih hm hk]

/-- Each time the greatest of what is left. -/
theorem take_spec (hlt : Total lt) (w : β → ℤ) {best : List (κ × β) → κ}
    (hbest : ∀ m : List (κ × β), m ≠ [] → (∀ p ∈ m, 0 < w p.2) →
      ∃ v, (best m, v) ∈ m ∧ ∀ p ∈ m, w p.2 ≤ w v)
    (n : ℕ) (hm : Sorted lt m) (hpos : ∀ p ∈ m, 0 < w p.2) (hn : n ≤ m.length) :
    let s := take lt best n m
    s.length = n ∧ s.Nodup ∧ (∀ k ∈ s, ∃ v, (k, v) ∈ m) ∧
      ∀ p ∈ m, p.1 ∈ s → ∀ q ∈ m, q.1 ∉ s → w q.2 ≤ w p.2 := by
  induction n generalizing m with
  | zero => exact ⟨rfl, List.nodup_nil, by simp [take], by simp [take]⟩
  | succ n ih =>
    obtain ⟨v, hv, hgreatest⟩ := hbest m (List.ne_nil_of_length_pos (by omega)) hpos
    have hlength := length_erase hlt hm hv
    obtain ⟨hlen, hnodup, hsub, hle⟩ := ih (m := erase lt (best m) m) (hm.filter _)
      (fun p hp => hpos p ((mem_erase hlt).mp hp).1) (by omega)
    have hnot : best m ∉ take lt best n (erase lt (best m) m) := fun hmem => by
      obtain ⟨v', hv'⟩ := hsub _ hmem
      exact ((mem_erase hlt).mp hv').2 rfl
    refine ⟨by rw [take, List.length_cons, hlen], List.nodup_cons.mpr ⟨hnot, hnodup⟩, ?_, ?_⟩
    · intro k hk
      rcases List.mem_cons.mp hk with rfl | hk
      · exact ⟨v, hv⟩
      · obtain ⟨v', hv'⟩ := hsub k hk
        exact ⟨v', ((mem_erase hlt).mp hv').1⟩
    · intro p hp hpk q hq hqk
      obtain ⟨hqbest, hqrest⟩ := not_or.mp (mt List.mem_cons.mpr hqk)
      by_cases hpbest : p.1 = best m
      · -- the first one taken is greatest of all
        have hval : p.2 = v := congrArg Prod.snd
          (List.inj_on_of_nodup_map (hm.nodup_keys hlt) hp hv hpbest)
        rw [hval]
        exact hgreatest q hq
      · refine hle p ((mem_erase hlt).mpr ⟨hp, hpbest⟩)
          ((List.mem_cons.mp hpk).resolve_left hpbest) q
          ((mem_erase hlt).mpr ⟨hq, hqbest⟩) hqrest

end

end Topas.OrderedMap
