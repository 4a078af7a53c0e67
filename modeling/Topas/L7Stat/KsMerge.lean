import Topas.Core.Ecdf
import Topas.L7Stat.KsTest

/-!
# The turns of the Kolmogorov-Smirnov test

At a common value that does not fit an `int` the merge takes the common copies one by one, and with
the last one perhaps copies of what is left of the value in an `int`.

* `Cut`: what the merge keeps where it has read both samples up to some value.
* `Cut.extend`: the next such place, with the differences compared on the way.
* `Cut.run`: the merge ends at such a place, or so that the rest makes no difference.
-/
namespace Topas.Wkp

open Ecdf
open Ranks (exists_replicate_append le_of_sorted mem_both)
open scoped Ranks

/-! ## Where it turns -/

section

variable (sample1 sample2 : List Int64)

/-- A value that both samples have and that does not fit. -/
def Wide (v : Int64) : Prop := v ∈ sample1 ∧ v ∈ sample2 ∧ truncated v ≠ v

/-- What holds of a list is decided by a run over the list, not over all of `Int64`. -/
instance decidableAll (p : Int64 → Prop) [DecidablePred p] (xs : List Int64) :
    Decidable (∀ x ∈ xs, p x) := List.decidableBAll p xs

/-- How many copies of `truncated v` the loop over `sample1` takes for copies of `v`: those that
follow, once it has taken all copies of `v`. -/
def carried (v : Int64) : Nat :=
  if sample1.count v ≤ sample2.count v ∧ v < truncated v ∧ ∀ x ∈ sample1, v < x →
    truncated v ≤ x then
    sample1.count (truncated v)
  else 0

/-- The difference after the values below `v`, and `i` and `j` copies. -/
def differenceAt (v : Int64) (i j : Nat) : ℤ :=
  sample2.length * (sample1.countP (· < v) + i : Nat) - sample1.length *
    (sample2.countP (· < v) + j : Nat)

/-- The differences in the steps at `v`, before its last common copy and after it. -/
def turns (v : Int64) : List ℤ :=
  let m := min (sample1.count v) (sample2.count v)
  [differenceAt sample1 sample2 v (m - 1) (m - 1),
    differenceAt sample1 sample2 v (m + carried sample1 sample2 v) (m + carried sample2 sample1 v)]

/-- Whether the step at some `v` passes over the values from it on. -/
def Skipped (x : Int64) : Prop :=
  ∃ v, Wide sample1 sample2 v ∧ v ≤ x ∧ x < truncated v ∧
    (0 < carried sample1 sample2 v ∨ 0 < carried sample2 sample1 v)

/-- The steps at values that do not fit lead no further from 0 than the difference gets, and do not
pass over all places where it gets furthest. -/
structure Turns : Prop where
  within : ∀ v, Wide sample1 sample2 v → ∀ z ∈ turns sample1 sample2 v,
    ∃ x ∈ sample1 ++ sample2, |z| ≤ |gap sample1 sample2 x|
  seen : ∀ x ∈ sample1 ++ sample2, Skipped sample1 sample2 x →
    (∃ y ∈ sample1 ++ sample2, ¬Skipped sample1 sample2 y ∧
      |gap sample1 sample2 x| ≤ |gap sample1 sample2 y|) ∨
    ∃ v, Wide sample1 sample2 v ∧ ∃ z ∈ turns sample1 sample2 v, |gap sample1 sample2 x| ≤ |z|

end

/-! ## What the merge keeps -/

section

variable {S₁ S₂ p₁ p₂ q₁ q₂ b₁ b₂ : List Int64} {lo hi lo' hi' : ℤ}

/-- The difference after `p₁` and `p₂`. -/
def difference (S₁ S₂ p₁ p₂ : List Int64) : ℤ := S₂.length * p₁.length - S₁.length * p₂.length

/-- The differences that the merge compares where it matters. -/
def Mark (S₁ S₂ : List Int64) (z : ℤ) : Prop :=
  (∃ x ∈ S₁ ++ S₂, ¬Skipped S₁ S₂ x ∧ gap S₁ S₂ x = z) ∨ ∃ v, Wide S₁ S₂ v ∧ z ∈ turns S₁ S₂ v

theorem countP_le_of_split {p q : List Int64} {c : Int64} (hp : ∀ x ∈ p, x ≤ c)
    (hq : ∀ y ∈ q, c < y) :
    (p ++ q).countP (· ≤ c) = p.length := by
  rw [List.countP_append, List.countP_eq_length.mpr fun x hx => decide_eq_true (hp x hx),
    List.countP_eq_zero.mpr fun y hy => by simpa using hq y hy, Nat.add_zero]

theorem countP_lt_of_split {p q : List Int64} {c : Int64} (hp : ∀ x ∈ p, x < c)
    (hq : ∀ y ∈ q, c ≤ y) :
    (p ++ q).countP (· < c) = p.length := by
  rw [List.countP_append, List.countP_eq_length.mpr fun x hx => decide_eq_true (hp x hx),
    List.countP_eq_zero.mpr fun y hy => by simpa using hq y hy, Nat.add_zero]

/-- The samples are read up to some value, and the least and the greatest difference are those of
the values read. -/
structure Cut (S₁ S₂ p₁ p₂ q₁ q₂ : List Int64) (lo hi : ℤ) : Prop where
  split₁ : S₁ = p₁ ++ q₁
  split₂ : S₂ = p₂ ++ q₂
  below : ∀ x ∈ p₁ ++ p₂, ∀ y ∈ q₁ ++ q₂, x < y
  lo_le : lo ≤ difference S₁ S₂ p₁ p₂
  le_hi : difference S₁ S₂ p₁ p₂ ≤ hi
  lo_nonpos : lo ≤ 0
  hi_nonneg : 0 ≤ hi
  lo_ge : -(S₁.length * S₂.length : ℤ) ≤ lo
  hi_le : hi ≤ S₁.length * S₂.length
  gaps : ∀ x ∈ p₁ ++ p₂, ¬Skipped S₁ S₂ x → lo ≤ gap S₁ S₂ x ∧ gap S₁ S₂ x ≤ hi
  turns : ∀ v ∈ p₁, Wide S₁ S₂ v → ∀ z ∈ turns S₁ S₂ v, lo ≤ z ∧ z ≤ hi
  passed : ∀ v ∈ p₁, Wide S₁ S₂ v → (0 < carried S₁ S₂ v ∨ 0 < carried S₂ S₁ v) →
    ∀ y ∈ q₁ ++ q₂, truncated v < y
  lo_mark : lo = 0 ∨ Mark S₁ S₂ lo
  hi_mark : hi = 0 ∨ Mark S₁ S₂ hi

theorem gap_of_split (h₁ : S₁ = p₁ ++ q₁) (h₂ : S₂ = p₂ ++ q₂) {c : Int64}
    (hp : ∀ x ∈ p₁ ++ p₂, x ≤ c)
    (hq : ∀ y ∈ q₁ ++ q₂, c < y) : gap S₁ S₂ c = difference S₁ S₂ p₁ p₂ := by
  have hc₁ : S₁.countP (· ≤ c) = p₁.length := h₁ ▸ countP_le_of_split
    (fun x hx => hp x (List.mem_append_left _ hx)) fun y hy => hq y (List.mem_append_left _ hy)
  have hc₂ : S₂.countP (· ≤ c) = p₂.length := h₂ ▸ countP_le_of_split
    (fun x hx => hp x (List.mem_append_right _ hx)) fun y hy => hq y (List.mem_append_right _ hy)
  rw [gap, hc₁, hc₂, difference]

theorem difference_append (S₁ S₂ p₁ p₂ b₁ b₂ : List Int64) :
    difference S₁ S₂ (p₁ ++ b₁) (p₂ ++ b₂) =
      difference S₁ S₂ p₁ p₂ + b₁.length * S₂.length - b₂.length * S₁.length := by
  simp only [difference, List.length_append, Nat.cast_add]
  ring

/-- The differences are at most the product of the sizes. -/
theorem abs_difference_le (h₁ : p₁ <+: S₁) (h₂ : p₂ <+: S₂) :
    |difference S₁ S₂ p₁ p₂| ≤ S₁.length * S₂.length := by
  have hl₁ : (p₁.length : ℤ) ≤ S₁.length := by exact_mod_cast h₁.length_le
  have hl₂ : (p₂.length : ℤ) ≤ S₂.length := by exact_mod_cast h₂.length_le
  have hm₁ := mul_le_mul_of_nonneg_left hl₁ (Int.natCast_nonneg S₂.length)
  have hm₂ := mul_le_mul_of_nonneg_left hl₂ (Int.natCast_nonneg S₁.length)
  have hn₁ : (0 : ℤ) ≤ S₂.length * p₁.length := by positivity
  have hn₂ : (0 : ℤ) ≤ S₁.length * p₂.length := by positivity
  rw [mul_comm (S₂.length : ℤ) S₁.length] at hm₁
  rw [difference, abs_le]
  omega

/-- Where the first sample has no more values, only steps down are left. -/
theorem difference_nonneg (h₁ : S₁ = p₁ ++ []) (h₂ : S₂ = p₂ ++ q₂) :
    0 ≤ difference S₁ S₂ p₁ p₂ := by
  have hl : (p₂.length : ℤ) ≤ S₂.length := by rw [h₂, List.length_append]; omega
  have hm := mul_le_mul_of_nonneg_left hl (Int.natCast_nonneg S₁.length)
  rw [difference, ← List.append_nil p₁, ← h₁]
  linarith

theorem difference_nonpos (h₁ : S₁ = p₁ ++ q₁) (h₂ : S₂ = p₂ ++ []) :
    difference S₁ S₂ p₁ p₂ ≤ 0 := by
  have hl : (p₁.length : ℤ) ≤ S₁.length := by rw [h₁, List.length_append]; omega
  have hm := mul_le_mul_of_nonneg_left hl (Int.natCast_nonneg S₂.length)
  rw [difference, ← List.append_nil p₂, ← h₂]
  linarith

theorem cut_start (S₁ S₂ : List Int64) : Cut S₁ S₂ [] [] S₁ S₂ 0 0 where
  split₁ := rfl
  split₂ := rfl
  below := by simp
  lo_le := by simp [difference]
  le_hi := by simp [difference]
  lo_nonpos := le_rfl
  hi_nonneg := le_rfl
  lo_ge := by have := Int.natCast_nonneg S₁.length; have := Int.natCast_nonneg S₂.length; nlinarith
  hi_le := by positivity
  gaps := by simp
  turns := by simp
  passed := by simp
  lo_mark := .inl rfl
  hi_mark := .inl rfl

namespace Cut

/-- A value that the merge gets to is not passed over. -/
theorem not_skipped (h : Cut S₁ S₂ p₁ p₂ (b₁ ++ q₁) (b₂ ++ q₂) lo hi) {c : Int64}
    (hc : c ∈ b₁ ++ b₂) (hq : ∀ y ∈ q₁ ++ q₂, c < y)
    (hb : ∀ v ∈ b₁, Wide S₁ S₂ v → (0 < carried S₁ S₂ v ∨ 0 < carried S₂ S₁ v) → truncated v ≤ c) :
    ¬Skipped S₁ S₂ c := by
  rintro ⟨v, hv, hvc, hcv, hcarried⟩
  have hmem : c ∈ (b₁ ++ q₁) ++ (b₂ ++ q₂) := mem_both.mpr (.inl hc)
  have hv₁ := hv.1
  rw [h.split₁, List.mem_append, List.mem_append] at hv₁
  rcases hv₁ with hv₁ | hv₁ | hv₁
  · exact lt_asymm hcv (h.passed v hv₁ hv hcarried c hmem)
  · exact hcv.not_ge (hb v hv₁ hv hcarried)
  · exact hvc.not_gt (hq v (List.mem_append_left _ hv₁))

/-- The merge gets to the next value where it is in step again. -/
theorem extend (h : Cut S₁ S₂ p₁ p₂ (b₁ ++ q₁) (b₂ ++ q₂) lo hi) {c : Int64} (hc : c ∈ b₁ ++ b₂)
    (hb : ∀ x ∈ b₁ ++ b₂, x ≤ c) (hq : ∀ y ∈ q₁ ++ q₂, c < y)
    (hskip : ∀ x ∈ b₁ ++ b₂, x ≠ c → Skipped S₁ S₂ x)
    (hcarried : ∀ v ∈ b₁, Wide S₁ S₂ v → (0 < carried S₁ S₂ v ∨ 0 < carried S₂ S₁ v) →
      truncated v ≤ c)
    (hturns : ∀ v ∈ b₁, Wide S₁ S₂ v → ∀ z ∈ Wkp.turns S₁ S₂ v, lo' ≤ z ∧ z ≤ hi')
    (hlo : lo' ≤ lo) (hhi : hi ≤ hi')
    (hd : lo' ≤ difference S₁ S₂ (p₁ ++ b₁) (p₂ ++ b₂) ∧
      difference S₁ S₂ (p₁ ++ b₁) (p₂ ++ b₂) ≤ hi')
    (hlo_ge : -(S₁.length * S₂.length : ℤ) ≤ lo') (hhi_le : hi' ≤ S₁.length * S₂.length)
    (hlo_mark : lo' = lo ∨ lo' = difference S₁ S₂ (p₁ ++ b₁) (p₂ ++ b₂) ∨ Mark S₁ S₂ lo')
    (hhi_mark : hi' = hi ∨ hi' = difference S₁ S₂ (p₁ ++ b₁) (p₂ ++ b₂) ∨ Mark S₁ S₂ hi') :
    Cut S₁ S₂ (p₁ ++ b₁) (p₂ ++ b₂) q₁ q₂ lo' hi' := by
  have hsplit₁ : S₁ = (p₁ ++ b₁) ++ q₁ := by rw [h.split₁, List.append_assoc]
  have hsplit₂ : S₂ = (p₂ ++ b₂) ++ q₂ := by rw [h.split₂, List.append_assoc]
  have hmem : c ∈ S₁ ++ S₂ := by
    rw [hsplit₁, hsplit₂]
    exact mem_both.mpr (.inl (mem_both.mpr (.inr hc)))
  have hpast : ∀ x ∈ p₁ ++ p₂, x < c := fun x hx => h.below x hx c (mem_both.mpr (.inl hc))
  have hle : ∀ x ∈ (p₁ ++ b₁) ++ (p₂ ++ b₂), x ≤ c := fun x hx =>
    (mem_both.mp hx).elim (fun hx => (hpast x hx).le) (hb x)
  have hgap := gap_of_split hsplit₁ hsplit₂ hle hq
  have hmark : Mark S₁ S₂ (difference S₁ S₂ (p₁ ++ b₁) (p₂ ++ b₂)) :=
    .inl ⟨c, hmem, h.not_skipped hc hq hcarried, hgap⟩
  refine
    { split₁ := hsplit₁
      split₂ := hsplit₂
      below := fun x hx y hy => (hle x hx).trans_lt (hq y hy)
      lo_le := hd.1
      le_hi := hd.2
      lo_nonpos := hlo.trans h.lo_nonpos
      hi_nonneg := h.hi_nonneg.trans hhi
      lo_ge := hlo_ge
      hi_le := hhi_le
      gaps := fun x hx hns => ?_
      turns := fun v hv hw z hz => ?_
      passed := fun v hv hw hcar y hy => ?_
      lo_mark := ?_
      hi_mark := ?_ }
  · rcases mem_both.mp hx with hx | hx
    · have hold := h.gaps x hx hns
      exact ⟨hlo.trans hold.1, hold.2.trans hhi⟩
    · obtain rfl : x = c := by_contra fun hne => hns (hskip x hx hne)
      rw [hgap]
      exact hd
  · rcases List.mem_append.mp hv with hv | hv
    · have hold := h.turns v hv hw z hz
      exact ⟨hlo.trans hold.1, hold.2.trans hhi⟩
    · exact hturns v hv hw z hz
  · rcases List.mem_append.mp hv with hv | hv
    · exact h.passed v hv hw hcar y (mem_both.mpr (.inr hy))
    · exact (hcarried v hv hw hcar).trans_lt (hq y hy)
  · rcases hlo_mark with rfl | rfl | hz
    · exact h.lo_mark
    · exact .inr hmark
    · exact .inr hz
  · rcases hhi_mark with rfl | rfl | hz
    · exact h.hi_mark
    · exact .inr hmark
    · exact .inr hz

section

variable {k : Nat} {x : Int64} {r₁ r₂ : List Int64}

theorem bounds (h : Cut S₁ S₂ p₁ p₂ q₁ q₂ lo hi) (hsize : (S₁.length * S₂.length : ℤ) < 2 ^ 31) :
    -2 ^ 31 < lo ∧ hi < 2 ^ 31 := by
  have hge := h.lo_ge
  have hle := h.hi_le
  omega

/-- A step that takes all copies of one value. -/
theorem one (h : Cut S₁ S₂ p₁ p₂ (b₁ ++ q₁) (b₂ ++ q₂) lo hi) (hx : x ∈ b₁ ++ b₂)
    (hb : ∀ y ∈ b₁ ++ b₂, y = x) (hq : ∀ y ∈ q₁ ++ q₂, x < y) (hw : ¬Wide S₁ S₂ x) :
    Cut S₁ S₂ (p₁ ++ b₁) (p₂ ++ b₂) q₁ q₂ (min lo (difference S₁ S₂ (p₁ ++ b₁) (p₂ ++ b₂)))
      (max hi (difference S₁ S₂ (p₁ ++ b₁) (p₂ ++ b₂))) := by
  have hnone : ∀ v ∈ b₁, ¬Wide S₁ S₂ v := fun v hv => by
    rw [hb v (List.mem_append_left _ hv)]
    exact hw
  have habs : |difference S₁ S₂ (p₁ ++ b₁) (p₂ ++ b₂)| ≤ S₁.length * S₂.length :=
    abs_difference_le ⟨q₁, by rw [h.split₁, List.append_assoc]⟩
      ⟨q₂, by rw [h.split₂, List.append_assoc]⟩
  rw [abs_le] at habs
  refine h.extend hx (fun y hy => (hb y hy).le) hq (fun y hy hyx => absurd (hb y hy) hyx)
    (fun v hv hw => absurd hw (hnone v hv)) (fun v hv hw => absurd hw (hnone v hv))
      (min_le_left _ _)
    (le_max_left _ _) ⟨min_le_right _ _, le_max_right _ _⟩ (le_min h.lo_ge habs.1)
      (max_le h.hi_le habs.2) ?_ ?_
  · exact (min_choice _ _).imp id .inl
  · exact (max_choice _ _).imp id .inl

/-- The merge reads all copies of a common value that fits, in one step. -/
theorem tied {j : Nat}
    (h : Cut S₁ S₂ p₁ p₂ (List.replicate (k + 1) x ++ q₁) (List.replicate (j + 1) x ++ q₂) lo hi)
    (hfits : truncated x = x) (hq₁ : ∀ y ∈ q₁, x < y) (hq₂ : ∀ y ∈ q₂, x < y)
    (hsize : (S₁.length * S₂.length : ℤ) < 2 ^ 31) (fuel : Nat) :
    let d := difference S₁ S₂ (p₁ ++ List.replicate (k + 1) x) (p₂ ++ List.replicate (j + 1) x)
    (KsState.at (List.replicate (k + 1) x ++ q₁) (List.replicate (j + 1) x ++ q₂)
      (difference S₁ S₂ p₁ p₂)
        lo hi).loop (.ofNat S₁.length) (.ofNat S₂.length) (fuel + 1) =
      (KsState.at q₁ q₂ d (min lo d) (max hi d)).loop (.ofNat S₁.length)
          (.ofNat S₂.length) fuel := by
  intro d
  have hnew :
      d = difference S₁ S₂ p₁ p₂ + (k + 1 : Nat) * S₂.length - (j + 1 : Nat) * S₁.length := by
    simpa using difference_append S₁ S₂ p₁ p₂ (List.replicate (k + 1) x) (List.replicate (j + 1) x)
  have habs : |d| ≤ S₁.length * S₂.length :=
    abs_difference_le ⟨q₁, by rw [h.split₁, List.append_assoc]⟩
      ⟨q₂, by rw [h.split₂, List.append_assoc]⟩
  have hhead : ∀ q : List Int64, (∀ y ∈ q, x < y) → q.head? ≠ some (truncated x) := fun q hq heq =>
    lt_irrefl x (hq x (List.mem_of_mem_head? (hfits ▸ heq)))
  obtain ⟨hlo31, hhi31⟩ := h.bounds hsize
  have hlo := h.lo_nonpos
  have hhi := h.hi_nonneg
  have hstep :=
    KsState.step_tie (d := difference S₁ S₂ p₁ p₂) (hhead q₁ hq₁) (hhead q₂ hq₂) (hlo.trans hhi)
    (abs_lt.mpr ⟨hlo31, by omega⟩) (abs_lt.mpr ⟨by omega, hhi31⟩) (hnew ▸ habs.trans_lt hsize)
  rw [← hnew, hfits] at hstep
  rw [List.replicate_succ, List.replicate_succ, List.cons_append, List.cons_append,
    KsState.loop_succ (List.cons_ne_nil _ _) (List.cons_ne_nil _ _), hstep]

end

end Cut

/-- What the merge ends with is a cut where one sample has no more values. -/
def Ends (S₁ S₂ : List Int64) (k : KsState) : Prop :=
  ∃ p₁ p₂ q₁ q₂ lo hi, Cut S₁ S₂ p₁ p₂ q₁ q₂ lo hi ∧ (q₁ = [] ∨ q₂ = []) ∧
    (k.it1 = [] ∨ k.it2 = []) ∧
    k.Dmin = .ofInt lo ∧ k.Dmax = .ofInt hi

/-- The merge goes on over the values that one sample is behind the other one. Where the other one
has no more values, it stops, and none of the differences that it does not see matters. -/
theorem ends_of_behind {a₁ a₂ : List Int64} {d d' : ℤ} (hd : d = difference S₁ S₂ a₁ a₂)
    (hd' : d' = difference S₁ S₂ (a₁ ++ b₁) (a₂ ++ b₂))
    (hcut : Cut S₁ S₂ (a₁ ++ b₁) (a₂ ++ b₂) q₁ q₂ (min lo d') (max hi d'))
    (hlo : lo ≤ d) (hhi : d ≤ hi) (hlo₀ : lo ≤ 0) (hhi₀ : 0 ≤ hi) (hb : b₁ = [] ∨ b₂ = [])
    (hsize : (S₁.length * S₂.length : ℤ) < 2 ^ 31)
    (ih : ∀ fuel, q₁.length + q₂.length ≤ fuel →
      Ends S₁ S₂
      ((KsState.at q₁ q₂ d' (min lo d') (max hi d')).loop (.ofNat S₁.length)
        (.ofNat S₂.length) fuel))
    {fuel : Nat} (hfuel : (b₁ ++ q₁).length + (b₂ ++ q₂).length ≤ fuel) :
    Ends S₁ S₂
    ((KsState.at (b₁ ++ q₁) (b₂ ++ q₂) d lo hi).loop (.ofNat S₁.length)
      (.ofNat S₂.length) fuel) := by
  have hnew : d' = d + b₁.length * S₂.length - b₂.length * S₁.length := by
    rw [hd', difference_append, hd]
  obtain ⟨hlo31, hhi31⟩ := hcut.bounds hsize
  have hd31 :=
    abs_lt.mp ((abs_difference_le ⟨q₁, hcut.split₁.symm⟩ ⟨q₂, hcut.split₂.symm⟩).trans_lt hsize)
  rw [← hd'] at hd31
  rcases hb with rfl | rfl
  · have hdown : (0 : ℤ) ≤ b₂.length * S₁.length := by positivity
    rw [List.length_nil, Nat.cast_zero, zero_mul, add_zero] at hnew
    have hle : d' ≤ d := by omega
    rw [List.nil_append] at hfuel ⊢
    by_cases hq : q₁ = []
    · have hnonneg : 0 ≤ d' := hd' ▸ difference_nonneg (hq ▸ hcut.split₁) hcut.split₂
      rw [min_eq_left (by omega), max_eq_left (by omega)] at hcut
      rw [KsState.loop_of_end (.inl hq)]
      exact ⟨_, _, _, _, _, _, hcut, .inl hq, .inl hq, rfl, rfl⟩
    · obtain ⟨f, rfl⟩ := Nat.exists_eq_add_of_le' (m := b₂.length) (n := fuel)
        (by rw [List.length_append] at hfuel; omega)
      rw [KsState.loop_second
        (fun y hy x hx => hcut.below y (List.mem_append_right _ (List.mem_append_right _ hy)) x
        (List.mem_append_left _ hx)) hq (by omega) hlo (by omega) (by omega), ← hnew]
      have hrest := ih f (by rw [List.length_append] at hfuel; omega)
      rwa [max_eq_left (by omega)] at hrest
  · have hup : (0 : ℤ) ≤ b₁.length * S₂.length := by positivity
    rw [List.length_nil, Nat.cast_zero, zero_mul, sub_zero] at hnew
    have hle : d ≤ d' := by omega
    rw [List.nil_append] at hfuel ⊢
    by_cases hq : q₂ = []
    · have hnonpos : d' ≤ 0 := hd' ▸ difference_nonpos hcut.split₁ (hq ▸ hcut.split₂)
      rw [min_eq_left (by omega), max_eq_left (by omega)] at hcut
      rw [KsState.loop_of_end (.inr hq)]
      exact ⟨_, _, _, _, _, _, hcut, .inr hq, .inr hq, rfl, rfl⟩
    · obtain ⟨f, rfl⟩ := Nat.exists_eq_add_of_le' (m := b₁.length) (n := fuel)
        (by rw [List.length_append] at hfuel; omega)
      rw [KsState.loop_first
        (fun x hx y hy => hcut.below x (List.mem_append_left _ (List.mem_append_right _ hx)) y
        (List.mem_append_right _ hy)) hq (by omega) hhi (by omega) (by omega), ← hnew]
      have hrest := ih f (by rw [List.length_append] at hfuel; omega)
      rwa [min_eq_left (by omega)] at hrest

theorem counts_of_split {S p r : List Int64} {x : Int64} {k : Nat}
    (hS : S = p ++ (List.replicate (k + 1) x ++ r)) (hp : ∀ y ∈ p, y < x) (hr : ∀ y ∈ r, x < y) :
      S.count x = k + 1 ∧ S.countP (· < x) = p.length := by
  refine ⟨?_, ?_⟩
  · rw [hS, List.count_append, List.count_append, List.count_replicate_self,
      List.count_eq_zero_of_not_mem fun h => lt_irrefl x (hp x h),
      List.count_eq_zero_of_not_mem fun h => lt_irrefl x (hr x h)]
    omega
  · rw [hS]
    refine countP_lt_of_split hp fun y hy => ?_
    rcases List.mem_append.mp hy with hy | hy
    · exact (List.eq_of_mem_replicate hy).ge
    · exact (hr y hy).le

/-- What the loop over one sample takes behind the last common copy of `x`. -/
theorem exists_carried {S T p r : List Int64} {x : Int64} {k j : Nat}
    (hS : S = p ++ (List.replicate (k + 1) x ++ r)) (hp : ∀ y ∈ p, y < x) (hr : ∀ y ∈ r, x < y)
    (hsorted : r.Pairwise (· ≤ ·)) (hT : T.count x = j + 1) (hx : truncated x ≠ x) :
    ∃ u, List.replicate (k - min k j) x ++ r = List.replicate (carried S T x) (truncated x) ++ u ∧
      u.head? ≠ some (truncated x) ∧
      (0 < carried S T x → x < truncated x ∧ (∀ y ∈ S, x < y → truncated x ≤ y) ∧
        ∀ y ∈ u, truncated x < y) := by
  have hcount := (counts_of_split hS hp hr).1
  have hmem : ∀ y ∈ S, x < y → y ∈ r := fun y hy hxy => by
    rw [hS, List.mem_append, List.mem_append] at hy
    rcases hy with hy | hy | hy
    · exact absurd (hp y hy) hxy.not_gt
    · exact absurd (List.eq_of_mem_replicate hy) hxy.ne'
    · exact hy
  unfold carried
  split
  next hc =>
    obtain ⟨hle, hlt, hnext⟩ := hc
    have hall : ∀ y ∈ r, truncated x ≤ y := fun y hy => hnext y
      (hS ▸ List.mem_append_right _ (List.mem_append_right _ hy)) (hr y hy)
    obtain ⟨n, u, hu, hlt'⟩ := exists_replicate_append (x := truncated x) (l := r)
      (List.pairwise_cons.mpr ⟨hall, hsorted⟩)
    have hn : S.count (truncated x) = n := by
      rw [hS, hu, List.count_append, List.count_append, List.count_append,
        List.count_replicate_self,
        List.count_eq_zero_of_not_mem fun h => lt_asymm hlt (hp _ h),
        List.count_eq_zero_of_not_mem fun h => hx (List.eq_of_mem_replicate h),
        List.count_eq_zero_of_not_mem fun h => lt_irrefl _ (hlt' _ h)]
      omega
    have hzero : k - min k j = 0 := by omega
    refine
      ⟨u, ?_, fun h => lt_irrefl _ (hlt' _ (List.mem_of_mem_head? h)), fun _ => ⟨hlt, hnext, hlt'⟩⟩
    rw [hn, hzero, hu]
    rfl
  next hc =>
    refine ⟨List.replicate (k - min k j) x ++ r, rfl, fun hhead => hc ?_,
      fun h => absurd h (lt_irrefl 0)⟩
    cases hk : k - min k j with
    | succ n =>
      rw [hk, List.replicate_succ, List.cons_append, List.head?_cons, Option.some.injEq] at hhead
      exact absurd hhead.symm hx
    | zero =>
      rw [hk, List.replicate_zero, List.nil_append] at hhead
      obtain ⟨l, rfl⟩ := List.head?_eq_some_iff.mp hhead
      exact
        ⟨by omega, hr _ List.mem_cons_self, fun y hy hxy => le_of_sorted hsorted (hmem y hy hxy)⟩

/-- A sorted list splits at every value. -/
theorem exists_split {l : List Int64} (h : l.Pairwise (· ≤ ·)) (c : Int64) :
    ∃ b q, l = b ++ q ∧ (∀ x ∈ b, x ≤ c) ∧ ∀ y ∈ q, c < y := by
  induction l with
  | nil => exact ⟨[], [], rfl, by simp, by simp⟩
  | cons x l ih =>
    by_cases hx : x ≤ c
    · obtain ⟨b, q, hl, hb, hq⟩ := ih (List.pairwise_cons.mp h).2
      exact ⟨x :: b, q, by rw [hl, List.cons_append], List.forall_mem_cons.mpr ⟨hx, hb⟩, hq⟩
    · exact ⟨[], x :: l, rfl, by simp, fun y hy => (not_le.mp hx).trans_le (le_of_sorted h hy)⟩

/-- Where the samples are in step again after the step at `x`: at `x`, or at what is carried. -/
theorem exists_in_step {x : Int64} {u₁ u₂ : List Int64} (hs₁ : u₁.Pairwise (· ≤ ·))
    (hs₂ : u₂.Pairwise (· ≤ ·)) (hcar₁ : 0 < carried S₁ S₂ x → ∀ y ∈ u₁, truncated x < y)
    (hcar₂ : 0 < carried S₂ S₁ x → ∀ y ∈ u₂, truncated x < y)
    (hnone : carried S₁ S₂ x = 0 → carried S₂ S₁ x = 0 → (∀ y ∈ u₁, x < y) ∨ ∀ y ∈ u₂, x < y) :
    ∃ c b₁ q₁ b₂ q₂, u₁ = b₁ ++ q₁ ∧ u₂ = b₂ ++ q₂ ∧ (b₁ = [] ∨ b₂ = []) ∧ (∀ y ∈ b₁ ++ b₂, y ≤ c) ∧
      (∀ y ∈ q₁ ++ q₂, c < y) ∧
      (c = x ∧ ¬(0 < carried S₁ S₂ x ∨ 0 < carried S₂ S₁ x) ∨
        c = truncated x ∧ (0 < carried S₁ S₂ x ∨ 0 < carried S₂ S₁ x)) := by
  obtain ⟨c, hc, hbehind⟩ : ∃ c, (c = x ∧ ¬(0 < carried S₁ S₂ x ∨ 0 < carried S₂ S₁ x) ∨
      c = truncated x ∧ (0 < carried S₁ S₂ x ∨ 0 < carried S₂ S₁ x)) ∧
          ((∀ y ∈ u₁, c < y) ∨ ∀ y ∈ u₂, c < y) := by
    by_cases hcar : 0 < carried S₁ S₂ x ∨ 0 < carried S₂ S₁ x
    · exact ⟨truncated x, .inr ⟨rfl, hcar⟩, hcar.imp hcar₁ hcar₂⟩
    · exact ⟨x, .inl ⟨rfl, hcar⟩, hnone (by omega) (by omega)⟩
  obtain ⟨b₁, q₁, rfl, hb₁, hq₁⟩ := exists_split hs₁ c
  obtain ⟨b₂, q₂, rfl, hb₂, hq₂⟩ := exists_split hs₂ c
  refine ⟨c, b₁, q₁, b₂, q₂, rfl, rfl, ?_, fun y hy => (List.mem_append.mp hy).elim (hb₁ y) (hb₂ y),
    fun y hy => (List.mem_append.mp hy).elim (hq₁ y) (hq₂ y), hc⟩
  have hnil : ∀ {b q : List Int64}, (∀ y ∈ b, y ≤ c) → (∀ y ∈ b ++ q, c < y) → b = [] :=
      fun hb hbq =>
    List.eq_nil_iff_forall_not_mem.mpr fun y hy =>
      (hb y hy).not_gt (hbq y (List.mem_append_left _ hy))
  exact hbehind.imp (hnil hb₁) (hnil hb₂)

/-- The step at `x`, and the values up to where the samples are in step again. -/
theorem Cut.pass {x c : Int64} {d : ℤ} (h : Cut S₁ S₂ p₁ p₂ (b₁ ++ q₁) (b₂ ++ q₂) lo hi)
    (hw : Wide S₁ S₂ x)
    (hc : c ∈ b₁ ++ b₂) (hge : ∀ y ∈ b₁ ++ b₂, x ≤ y) (hle : ∀ y ∈ b₁ ++ b₂, y ≤ c)
    (hq : ∀ y ∈ q₁ ++ q₂, c < y)
    (hcar : c = x ∧ ¬(0 < carried S₁ S₂ x ∨ 0 < carried S₂ S₁ x) ∨
      c = truncated x ∧ (0 < carried S₁ S₂ x ∨ 0 < carried S₂ S₁ x))
    (hnext₁ : 0 < carried S₁ S₂ x → ∀ y ∈ S₁, x < y → truncated x ≤ y)
    (hnext₂ : 0 < carried S₂ S₁ x → ∀ y ∈ S₂, x < y → truncated x ≤ y)
    (hd : d = difference S₁ S₂ (p₁ ++ b₁) (p₂ ++ b₂)) {B T : ℤ}
    (hturns : Wkp.turns S₁ S₂ x = [B, T])
    (hB : |B| ≤ S₁.length * S₂.length) (hT : |T| ≤ S₁.length * S₂.length) :
    Cut S₁ S₂ (p₁ ++ b₁) (p₂ ++ b₂) q₁ q₂ (min (min (min lo B) T) d)
    (max (max (max hi B) T) d) := by
  have hfits : truncated (truncated x) = truncated x := by simp [truncated]
  have heq : ∀ v ∈ b₁, Wide S₁ S₂ v → v = x := fun v hv hwv => by
    have hxv := hge v (List.mem_append_left _ hv)
    have hvc := hle v (List.mem_append_left _ hv)
    rcases hcar with ⟨rfl, -⟩ | ⟨rfl, hcar⟩
    · exact le_antisymm hvc hxv
    · by_contra hne
      have hlt := lt_of_le_of_ne hxv (Ne.symm hne)
      have hv : v = truncated x :=
        le_antisymm hvc <| hcar.elim (fun hcar => hnext₁ hcar v hwv.1 hlt)
        fun hcar => hnext₂ hcar v hwv.2.1 hlt
      exact hwv.2.2 (hv ▸ hfits)
  have hd' : |d| ≤ S₁.length * S₂.length := hd ▸
    abs_difference_le ⟨q₁, by rw [h.split₁, List.append_assoc]⟩
      ⟨q₂, by rw [h.split₂, List.append_assoc]⟩
  rw [abs_le] at hB hT hd'
  have hlo := h.lo_ge
  have hhi := h.hi_le
  have hmark : ∀ z ∈ [B, T], Mark S₁ S₂ z := fun z hz => .inr ⟨x, hw, hturns ▸ hz⟩
  refine h.extend hc hle hq (fun y hy hyc => ?_) (fun v hv hwv hcarv => ?_)
    (fun v hv hwv z hz => ?_) (by omega)
    (by omega) (hd ▸ ⟨min_le_right _ _, le_max_right _ _⟩) (by omega) (by omega) ?_ ?_
  · rcases hcar with ⟨rfl, -⟩ | ⟨rfl, hcar⟩
    · exact absurd (le_antisymm (hle y hy) (hge y hy)) hyc
    · exact ⟨x, hw, hge y hy, lt_of_le_of_ne (hle y hy) hyc, hcar⟩
  · rw [heq v hv hwv] at hcarv ⊢
    rcases hcar with ⟨-, hno⟩ | ⟨rfl, -⟩
    · exact absurd hcarv hno
    · exact le_rfl
  · rw [heq v hv hwv, hturns, List.mem_cons, List.mem_singleton] at hz
    omega
  · rw [← hd]
    obtain hm | hm | hm | hm : min (min (min lo B) T) d = lo ∨ min (min (min lo B) T) d = d ∨
        min (min (min lo B) T) d = B ∨ min (min (min lo B) T) d = T := by omega
    · exact .inl hm
    · exact .inr (.inl hm)
    · exact .inr (.inr (by rw [hm]; exact hmark B (by simp)))
    · exact .inr (.inr (by rw [hm]; exact hmark T (by simp)))
  · rw [← hd]
    obtain hm | hm | hm | hm : max (max (max hi B) T) d = hi ∨ max (max (max hi B) T) d = d ∨
        max (max (max hi B) T) d = B ∨ max (max (max hi B) T) d = T := by omega
    · exact .inl hm
    · exact .inr (.inl hm)
    · exact .inr (.inr (by rw [hm]; exact hmark B (by simp)))
    · exact .inr (.inr (by rw [hm]; exact hmark T (by simp)))

/-- The loop up to the step that takes the last common copy of `x`. -/
theorem Cut.loop_wide {x : Int64} {u₁ u₂ : List Int64} {m i j : Nat}
    (h : Cut S₁ S₂ p₁ p₂ (List.replicate m x ++ x :: (List.replicate i (truncated x) ++ u₁))
      (List.replicate m x ++ x :: (List.replicate j (truncated x) ++ u₂)) lo hi)
    (hx : truncated x ≠ x) (hu₁ : u₁.head? ≠ some (truncated x))
    (hu₂ : u₂.head? ≠ some (truncated x))
    (hsize : (S₁.length * S₂.length : ℤ) < 2 ^ 31) (fuel : Nat) :
    let a (i : Nat) := List.replicate m x ++ x :: List.replicate i (truncated x)
    let B := difference S₁ S₂ (p₁ ++ List.replicate m x) (p₂ ++ List.replicate m x)
    let T := difference S₁ S₂ (p₁ ++ a i) (p₂ ++ a j)
    (KsState.at (List.replicate m x ++ x :: (List.replicate i (truncated x) ++ u₁))
        (List.replicate m x ++ x :: (List.replicate j (truncated x) ++ u₂))
          (difference S₁ S₂ p₁ p₂) lo hi).loop
        (.ofNat S₁.length) (.ofNat S₂.length) (fuel + 1 + m) =
      (KsState.at u₁ u₂ T (min (min lo B) T) (max (max hi B) T)).loop (.ofNat S₁.length)
        (.ofNat S₂.length)
        fuel := by
  intro a B T
  obtain ⟨hlo31, hhi31⟩ := h.bounds hsize
  have hpairs : ∀ n : Nat, difference S₁ S₂ (p₁ ++ List.replicate n x) (p₂ ++ List.replicate n x) =
      difference S₁ S₂ p₁ p₂ + n * (S₂.length - S₁.length : ℤ) := fun n => by
    rw [difference_append, List.length_replicate]
    ring
  have hpair : ∀ n : Nat, n ≤ m →
      |difference S₁ S₂ p₁ p₂ + n * (S₂.length - S₁.length : ℤ)| < 2 ^ 31 := by
    intro n hn
    have hsplit : ∀ t : List Int64, List.replicate m x ++ t =
        List.replicate n x ++ (List.replicate (m - n) x ++ t) := fun t => by
      rw [← List.append_assoc, List.replicate_append_replicate, Nat.add_sub_cancel' hn]
    rw [← hpairs]
    exact (abs_difference_le ⟨_, by rw [h.split₁, hsplit, List.append_assoc]⟩
      ⟨_, by rw [h.split₂, hsplit, List.append_assoc]⟩).trans_lt hsize
  have hB := hpair m le_rfl
  rw [KsState.loop_pairs hx m h.lo_le h.le_hi hlo31 hhi31 hpair, ← hpairs]
  rw [← hpairs, abs_lt] at hB
  have hT : T = B + (i + 1 : Nat) * S₂.length - (j + 1 : Nat) * S₁.length := by
    have hl : ∀ n : Nat, ((a n).length : ℤ) = m + (n + 1 : Nat) := fun n => by simp [a]
    simp only [T, B, difference_append, hl, List.length_replicate]
    ring
  have hT31 : |T| < 2 ^ 31 :=
    (abs_difference_le ⟨u₁, by rw [h.split₁]; simp [a]⟩
      ⟨u₂, by rw [h.split₂]; simp [a]⟩).trans_lt hsize
  have hlo := h.lo_nonpos
  have hhi := h.hi_nonneg
  rw [KsState.loop_succ (List.cons_ne_nil _ _) (List.cons_ne_nil _ _),
    KsState.step_tie hu₁ hu₂ ((min_le_left _ _).trans (hlo.trans (hhi.trans (le_max_left _ _))))
      (abs_lt.mpr ⟨lt_min hlo31 hB.1, by omega⟩) (abs_lt.mpr ⟨by omega, max_lt hhi31 hB.2⟩)
        (hT ▸ hT31), ← hT]

/-- Some of the copies first. -/
theorem replicate_copies {n m : Nat} (h : m ≤ n) (x : Int64) (r : List Int64) :
    List.replicate (n + 1) x ++ r = List.replicate m x ++ x :: (List.replicate (n - m) x ++ r) := by
  rw [← List.cons_append, ← List.replicate_succ, ← List.append_assoc,
    List.replicate_append_replicate]
  congr 2
  omega

/-- What the step that takes the last common copy of `x` has taken, with the copies before. -/
theorem mem_copies {m e : Nat} {x t y : Int64}
    (h : y ∈ List.replicate m x ++ x :: List.replicate e t) :
    y = x ∨ 0 < e ∧ y = t := by
  rcases List.mem_append.mp h with h | h
  · exact .inl (List.eq_of_mem_replicate h)
  rcases List.mem_cons.mp h with rfl | h
  · exact .inl rfl
  · exact .inr ⟨Nat.pos_of_ne_zero (List.mem_replicate.mp h).1, List.eq_of_mem_replicate h⟩

theorem le_of_copies {m : Nat} {x : Int64} {l : List Int64}
    (h : (List.replicate m x ++ x :: l).Pairwise (· ≤ ·)) :
      ∀ y ∈ List.replicate m x ++ x :: l, x ≤ y := by
  intro y hy
  rcases List.mem_append.mp hy with hy | hy
  · exact (List.eq_of_mem_replicate hy).ge
  · exact le_of_sorted (List.pairwise_append.mp h).2.1 hy

theorem turns_of_counts {x : Int64} {k j : Nat}
    (h₁ : S₁.count x = k + 1 ∧ S₁.countP (· < x) = p₁.length)
    (h₂ : S₂.count x = j + 1 ∧ S₂.countP (· < x) = p₂.length) :
    Wkp.turns S₁ S₂ x =
      [difference S₁ S₂ (p₁ ++ List.replicate (min k j) x) (p₂ ++ List.replicate (min k j) x),
        difference S₁ S₂
          (p₁ ++
            (List.replicate (min k j) x ++ x :: List.replicate (carried S₁ S₂ x) (truncated x)))
          (p₂ ++ (List.replicate (min k j) x ++ x :: List.replicate (carried S₂ S₁ x)
            (truncated x)))] := by
  have hmin : min (k + 1) (j + 1) = min k j + 1 := by omega
  simp only [Wkp.turns, differenceAt, difference, h₁, h₂, hmin, List.length_append,
    List.length_replicate,
    List.length_cons, Nat.add_sub_cancel]
  push_cast
  simp only [List.cons.injEq, and_true, true_and]
  ring

/-- A cut behind the values up to where the samples are in step again. -/
theorem Cut.exists_pass {x : Int64} {m : Nat} {u₁ u₂ : List Int64} {B T : ℤ}
    (h : Cut S₁ S₂ p₁ p₂
      (List.replicate m x ++ x :: (List.replicate (carried S₁ S₂ x) (truncated x) ++ u₁))
      (List.replicate m x ++ x :: (List.replicate (carried S₂ S₁ x) (truncated x) ++ u₂)) lo hi)
    (hw : Wide S₁ S₂ x) (hs₁ : S₁.Pairwise (· ≤ ·)) (hs₂ : S₂.Pairwise (· ≤ ·))
    (hcar₁ : 0 < carried S₁ S₂ x →
      x < truncated x ∧ (∀ y ∈ S₁, x < y → truncated x ≤ y) ∧ ∀ y ∈ u₁, truncated x < y)
    (hcar₂ : 0 < carried S₂ S₁ x →
      x < truncated x ∧ (∀ y ∈ S₂, x < y → truncated x ≤ y) ∧ ∀ y ∈ u₂, truncated x < y)
    (hnone : carried S₁ S₂ x = 0 → carried S₂ S₁ x = 0 → (∀ y ∈ u₁, x < y) ∨ ∀ y ∈ u₂, x < y)
    (hturns : Wkp.turns S₁ S₂ x = [B, T]) (hB : |B| ≤ S₁.length * S₂.length)
    (hT : |T| ≤ S₁.length * S₂.length) :
    let a (i : Nat) := List.replicate m x ++ x :: List.replicate i (truncated x)
    ∃ b₁ q₁ b₂ q₂, u₁ = b₁ ++ q₁ ∧ u₂ = b₂ ++ q₂ ∧ (b₁ = [] ∨ b₂ = []) ∧
      ∀ d, d = difference S₁ S₂ (p₁ ++ a (carried S₁ S₂ x) ++ b₁)
        (p₂ ++ a (carried S₂ S₁ x) ++ b₂) →
        Cut S₁ S₂ (p₁ ++ a (carried S₁ S₂ x) ++ b₁) (p₂ ++ a (carried S₂ S₁ x) ++ b₂) q₁ q₂
          (min (min (min lo B) T) d) (max (max (max hi B) T) d) := by
  intro a
  have hrs₁ := (List.pairwise_append.mp (h.split₁ ▸ hs₁)).2.1
  have hrs₂ := (List.pairwise_append.mp (h.split₂ ▸ hs₂)).2.1
  have hsorted : ∀ {e : Nat} {u : List Int64},
      (List.replicate m x ++ x :: (List.replicate e (truncated x) ++ u)).Pairwise (· ≤ ·) →
        u.Pairwise (· ≤ ·) := fun hall =>
    (List.pairwise_append.mp (List.pairwise_cons.mp (List.pairwise_append.mp hall).2.1).2).2.1
  obtain ⟨c, b₁, q₁, b₂, q₂, rfl, rfl, hb, hle, hq, hcar⟩ :=
    exists_in_step (hsorted hrs₁) (hsorted hrs₂)
    (fun h => (hcar₁ h).2.2) (fun h => (hcar₂ h).2.2) hnone
  have hsplit : ∀ (e : Nat) (b q : List Int64),
      List.replicate m x ++ x :: (List.replicate e (truncated x) ++ (b ++ q)) = (a e ++ b) ++ q :=
    fun e b q => by simp [a]
  have hge : ∀ {e : Nat} {b q : List Int64},
      (List.replicate m x ++ x :: (List.replicate e (truncated x) ++ (b ++ q))).Pairwise (· ≤ ·) →
        ∀ y ∈ a e ++ b, x ≤ y := fun {e b q} hall y hy =>
    le_of_copies hall y (hsplit e b q ▸ List.mem_append_left q hy)
  have hxc : x ≤ c := by
    rcases hcar with ⟨rfl, -⟩ | ⟨rfl, hcar⟩
    · exact le_rfl
    · exact hcar.elim (fun h => (hcar₁ h).1.le) fun h => (hcar₂ h).1.le
  have hac : ∀ {e : Nat}, (0 < e → 0 < carried S₁ S₂ x ∨ 0 < carried S₂ S₁ x) → ∀ y ∈ a e, y ≤ c :=
    fun he y hy => by
      rcases mem_copies hy with rfl | ⟨hpos, rfl⟩
      · exact hxc
      · exact hcar.elim (fun hno => absurd (he hpos) hno.2) fun hc => hc.1.ge
  have hle₁ : ∀ y ∈ a (carried S₁ S₂ x) ++ b₁, y ≤ c := fun y hy =>
    (List.mem_append.mp hy).elim (hac .inl y) fun hy => hle y (List.mem_append_left _ hy)
  have hle₂ : ∀ y ∈ a (carried S₂ S₁ x) ++ b₂, y ≤ c := fun y hy =>
    (List.mem_append.mp hy).elim (hac .inr y) fun hy => hle y (List.mem_append_right _ hy)
  have hc : c ∈ (a (carried S₁ S₂ x) ++ b₁) ++ (a (carried S₂ S₁ x) ++ b₂) := by
    rcases hcar with ⟨rfl, -⟩ | ⟨rfl, hpos | hpos⟩
    · simp [a]
    · simp [a, hpos.ne']
    · simp [a, hpos.ne']
  rw [hsplit, hsplit] at h
  refine ⟨b₁, q₁, b₂, q₂, rfl, rfl, hb, fun d hd => ?_⟩
  rw [List.append_assoc p₁, List.append_assoc p₂] at hd ⊢
  exact h.pass hw hc (fun y hy => (List.mem_append.mp hy).elim (hge hrs₁ y) (hge hrs₂ y))
    (fun y hy => (List.mem_append.mp hy).elim (hle₁ y) (hle₂ y)) hq hcar (fun h => (hcar₁ h).2.1)
    (fun h => (hcar₂ h).2.1) hd hturns hB hT

/-- The merge comes to a value that does not fit. -/
theorem Cut.wide {x : Int64} {k j : Nat} {r₁ r₂ : List Int64}
    (h : Cut S₁ S₂ p₁ p₂ (List.replicate (k + 1) x ++ r₁) (List.replicate (j + 1) x ++ r₂) lo hi)
    (hx : truncated x ≠ x) (hr₁ : ∀ y ∈ r₁, x < y) (hr₂ : ∀ y ∈ r₂, x < y)
    (hs₁ : S₁.Pairwise (· ≤ ·))
    (hs₂ : S₂.Pairwise (· ≤ ·)) (hsize : (S₁.length * S₂.length : ℤ) < 2 ^ 31)
    (ih : ∀ p₁' p₂' q₁' q₂' lo' hi', Cut S₁ S₂ p₁' p₂' q₁' q₂' lo' hi' →
      q₁'.length + q₂'.length < (k + 1 + r₁.length) + (j + 1 + r₂.length) →
      ∀ fuel, q₁'.length + q₂'.length ≤ fuel →
        Ends S₁ S₂ ((KsState.at q₁' q₂' (difference S₁ S₂ p₁' p₂') lo' hi').loop (.ofNat S₁.length)
          (.ofNat S₂.length) fuel))
    {fuel : Nat} (hfuel : (k + 1 + r₁.length) + (j + 1 + r₂.length) ≤ fuel) :
    Ends S₁ S₂ ((KsState.at (List.replicate (k + 1) x ++ r₁) (List.replicate (j + 1) x ++ r₂)
      (difference S₁ S₂ p₁ p₂) lo hi).loop (.ofNat S₁.length) (.ofNat S₂.length) fuel) := by
  have hp : ∀ y ∈ p₁ ++ p₂, y < x := fun y hy => h.below y hy x (by simp)
  have hp₁ : ∀ y ∈ p₁, y < x := fun y hy => hp y (List.mem_append_left _ hy)
  have hp₂ : ∀ y ∈ p₂, y < x := fun y hy => hp y (List.mem_append_right _ hy)
  have hcounts₁ := counts_of_split h.split₁ hp₁ hr₁
  have hcounts₂ := counts_of_split h.split₂ hp₂ hr₂
  have hrs₁ : (List.replicate (k + 1) x ++ r₁).Pairwise (· ≤ ·) :=
    (List.pairwise_append.mp (h.split₁ ▸ hs₁)).2.1
  have hrs₂ : (List.replicate (j + 1) x ++ r₂).Pairwise (· ≤ ·) :=
    (List.pairwise_append.mp (h.split₂ ▸ hs₂)).2.1
  obtain ⟨u₁, hu₁, hhead₁, hcar₁⟩ :=
    exists_carried h.split₁ hp₁ hr₁ (List.pairwise_append.mp hrs₁).2.1 hcounts₂.1 hx
  obtain ⟨u₂, hu₂, hhead₂, hcar₂⟩ :=
    exists_carried h.split₂ hp₂ hr₂ (List.pairwise_append.mp hrs₂).2.1 hcounts₁.1 hx
  rw [min_comm j k] at hu₂
  have hlen₁ : k + 1 + r₁.length = min k j + 1 + carried S₁ S₂ x + u₁.length := by
    have hl := congrArg List.length hu₁
    simp only [List.length_append, List.length_replicate] at hl
    omega
  have hlen₂ : j + 1 + r₂.length = min k j + 1 + carried S₂ S₁ x + u₂.length := by
    have hl := congrArg List.length hu₂
    simp only [List.length_append, List.length_replicate] at hl
    omega
  have hw : Wide S₁ S₂ x := ⟨by rw [h.split₁]; simp, by rw [h.split₂]; simp, hx⟩
  have hturns := turns_of_counts hcounts₁ hcounts₂
  have hnone : carried S₁ S₂ x = 0 → carried S₂ S₁ x = 0 → (∀ y ∈ u₁, x < y) ∨ ∀ y ∈ u₂, x < y := by
    intro h₁ h₂
    rw [h₁, List.replicate_zero, List.nil_append] at hu₁
    rw [h₂, List.replicate_zero, List.nil_append] at hu₂
    rcases le_total k j with hkj | hkj
    · rw [min_eq_left hkj, Nat.sub_self] at hu₁
      exact .inl (hu₁ ▸ hr₁)
    · rw [min_eq_right hkj, Nat.sub_self] at hu₂
      exact .inr (hu₂ ▸ hr₂)
  rw [replicate_copies (min_le_left k j), hu₁] at h ⊢
  rw [replicate_copies (min_le_right k j), hu₂] at h ⊢
  generalize min k j = m at *
  obtain ⟨f, rfl⟩ : ∃ f, fuel = f + 1 + m := ⟨fuel - (1 + m), by omega⟩
  rw [h.loop_wide hx hhead₁ hhead₂ hsize]
  have hpre₁ :
      p₁ ++ (List.replicate m x ++ x :: List.replicate (carried S₁ S₂ x) (truncated x)) <+: S₁ :=
    ⟨u₁, by rw [List.append_assoc, List.append_assoc, List.cons_append]; exact h.split₁.symm⟩
  have hpre₂ :
      p₂ ++ (List.replicate m x ++ x :: List.replicate (carried S₂ S₁ x) (truncated x)) <+: S₂ :=
    ⟨u₂, by rw [List.append_assoc, List.append_assoc, List.cons_append]; exact h.split₂.symm⟩
  have hB :=
    abs_difference_le
      ((List.prefix_append_right_inj p₁).mpr (List.prefix_append _ _) |>.trans hpre₁)
    ((List.prefix_append_right_inj p₂).mpr (List.prefix_append _ _) |>.trans hpre₂)
  have hT := abs_difference_le hpre₁ hpre₂
  obtain ⟨b₁, q₁, b₂, q₂, rfl, rfl, hb, hpass⟩ :=
    h.exists_pass hw hs₁ hs₂ hcar₁ hcar₂ hnone hturns hB hT
  have hcut := hpass _ rfl
  have hlo := h.lo_nonpos
  have hhi := h.hi_nonneg
  refine ends_of_behind rfl rfl hcut (min_le_right _ _) (le_max_right _ _) (by omega)
    (by omega) hb hsize ?_ ?_
  · refine ih _ _ _ _ _ _ hcut ?_
    simp only [List.length_append] at hlen₁ hlen₂
    omega
  · omega

/-- The merge comes to a value of one sample alone. -/
theorem Cut.ends_of_one {x : Int64} (h : Cut S₁ S₂ p₁ p₂ (b₁ ++ q₁) (b₂ ++ q₂) lo hi)
    (hb : b₁ = [] ∨ b₂ = [])
    (hx : x ∈ b₁ ++ b₂) (heq : ∀ y ∈ b₁ ++ b₂, y = x) (hq : ∀ y ∈ q₁ ++ q₂, x < y)
    (hw : ¬Wide S₁ S₂ x) (hsize : (S₁.length * S₂.length : ℤ) < 2 ^ 31)
    (ih : ∀ lo' hi', Cut S₁ S₂ (p₁ ++ b₁) (p₂ ++ b₂) q₁ q₂ lo' hi' →
      ∀ fuel, q₁.length + q₂.length ≤ fuel →
      Ends S₁ S₂
      ((KsState.at q₁ q₂ (difference S₁ S₂ (p₁ ++ b₁) (p₂ ++ b₂)) lo' hi').loop (.ofNat S₁.length)
        (.ofNat S₂.length) fuel))
    {fuel : Nat} (hfuel : (b₁ ++ q₁).length + (b₂ ++ q₂).length ≤ fuel) :
    Ends S₁ S₂
    ((KsState.at (b₁ ++ q₁) (b₂ ++ q₂) (difference S₁ S₂ p₁ p₂) lo hi).loop (.ofNat S₁.length)
      (.ofNat S₂.length) fuel) :=
  ends_of_behind rfl rfl (h.one hx heq hq hw) h.lo_le h.le_hi h.lo_nonpos h.hi_nonneg hb hsize
    (ih _ _ (h.one hx heq hq hw)) hfuel

/-- From a cut the merge runs to its end. -/
theorem Cut.run (h : Cut S₁ S₂ p₁ p₂ q₁ q₂ lo hi) (hs₁ : S₁.Pairwise (· ≤ ·))
    (hs₂ : S₂.Pairwise (· ≤ ·)) (hsize : (S₁.length * S₂.length : ℤ) < 2 ^ 31) {fuel : Nat}
    (hfuel : q₁.length + q₂.length ≤ fuel) :
    Ends S₁ S₂
    ((KsState.at q₁ q₂ (difference S₁ S₂ p₁ p₂) lo hi).loop (.ofNat S₁.length) (.ofNat S₂.length)
      fuel) := by
  induction hn : q₁.length +
    q₂.length using Nat.strong_induction_on generalizing p₁ p₂ q₁ q₂ lo hi fuel with
  | _ n ih =>
  by_cases hend : q₁ = [] ∨ q₂ = []
  · rw [KsState.loop_of_end hend]
    exact ⟨_, _, _, _, _, _, h, hend, hend, rfl, rfl⟩
  obtain ⟨hne₁, hne₂⟩ := not_or.mp hend
  obtain ⟨x, l₁, rfl⟩ := List.exists_cons_of_ne_nil hne₁
  obtain ⟨y, l₂, rfl⟩ := List.exists_cons_of_ne_nil hne₂
  have hx : (x :: l₁).Pairwise (· ≤ ·) := (List.pairwise_append.mp (h.split₁ ▸ hs₁)).2.1
  have hy : (y :: l₂).Pairwise (· ≤ ·) := (List.pairwise_append.mp (h.split₂ ▸ hs₂)).2.1
  have hpast : ∀ z ∈ p₁ ++ p₂, z < x ∧ z < y := fun z hz =>
    ⟨h.below z hz x (by simp), h.below z hz y (by simp)⟩
  obtain ⟨k, r₁, rfl, hr₁⟩ := exists_replicate_append hx
  obtain ⟨j, r₂, rfl, hr₂⟩ := exists_replicate_append hy
  rcases lt_trichotomy x y with hxy | rfl | hxy
  · have hq : ∀ z ∈ y :: (List.replicate j y ++ r₂), x < z :=
      fun z hz => hxy.trans_le (le_of_sorted hy hz)
    have hw : ¬Wide S₁ S₂ x := fun hw => by
      rcases List.mem_append.mp (h.split₂ ▸ hw.2.1) with hz | hz
      · exact lt_irrefl x (hpast x (List.mem_append_right _ hz)).1
      · exact lt_irrefl x (hq x hz)
    have hcut : Cut S₁ S₂ p₁ p₂ (List.replicate (k + 1) x ++ r₁)
      ([] ++ y :: (List.replicate j y ++ r₂)) lo hi := h
    refine hcut.ends_of_one (.inr rfl) (x := x) (by simp [List.replicate_succ]) (fun z hz => ?_)
      (fun z hz => (List.mem_append.mp hz).elim (hr₁ z) (hq z)) hw hsize
      (fun lo' hi' hnext f hf => ih _ ?_ hnext hf rfl) (hn ▸ hfuel)
    · exact List.eq_of_mem_replicate (List.append_nil (List.replicate (k + 1) x) ▸ hz)
    · simp only [List.length_cons, List.length_append, List.length_replicate] at hn ⊢
      omega
  · have hcut :
      Cut S₁ S₂ p₁ p₂ (List.replicate (k + 1) x ++ r₁) (List.replicate (j + 1) x ++ r₂) lo hi := h
    have hlen : (k + 1 + r₁.length) + (j + 1 + r₂.length) = n := by
      simp only [List.length_cons, List.length_append, List.length_replicate] at hn
      omega
    by_cases hfits : truncated x = x
    · have hw : ¬Wide S₁ S₂ x := fun hw => hw.2.2 hfits
      obtain ⟨f, rfl⟩ : ∃ f, fuel = f + 1 := ⟨fuel - 1, by omega⟩
      have hloop := hcut.tied hfits hr₁ hr₂ hsize f
      have hnext := hcut.one (x := x) (by simp [List.replicate_succ]) (fun z hz => ?_)
        (fun z hz => (List.mem_append.mp hz).elim (hr₁ z) (hr₂ z)) hw
      · have hrest := ih (r₁.length + r₂.length) (by omega) hnext
          (Nat.le_of_succ_le_succ (by omega : r₁.length + r₂.length + 1 ≤ f + 1)) rfl
        rw [← hloop] at hrest
        exact hrest
      · exact (List.mem_append.mp hz).elim List.eq_of_mem_replicate List.eq_of_mem_replicate
    · exact hcut.wide hfits hr₁ hr₂ hs₁ hs₂ hsize
        (fun _ _ _ _ _ _ hnext hlt f hf => ih _ (hlen ▸ hlt) hnext hf rfl) (by omega)
  · have hq : ∀ z ∈ x :: (List.replicate k x ++ r₁), y < z :=
      fun z hz => hxy.trans_le (le_of_sorted hx hz)
    have hw : ¬Wide S₁ S₂ y := fun hw => by
      rcases List.mem_append.mp (h.split₁ ▸ hw.1) with hz | hz
      · exact lt_irrefl y (hpast y (List.mem_append_left _ hz)).2
      · exact lt_irrefl y (hq y hz)
    have hcut : Cut S₁ S₂ p₁ p₂ ([] ++ x :: (List.replicate k x ++ r₁))
      (List.replicate (j + 1) y ++ r₂) lo hi := h
    refine hcut.ends_of_one (.inl rfl) (x := y) (by simp [List.replicate_succ]) (fun z hz => ?_)
      (fun z hz => (List.mem_append.mp hz).elim (hq z) (hr₂ z)) hw hsize
      (fun lo' hi' hnext f hf => ih _ ?_ hnext hf rfl) (hn ▸ hfuel)
    · exact List.eq_of_mem_replicate (List.nil_append (List.replicate (j + 1) y) ▸ hz)
    · simp only [List.length_cons, List.length_append, List.length_replicate] at hn ⊢
      omega

end

end Topas.Wkp
