import Mathlib.Algebra.Field.Rat
import Mathlib.Algebra.Order.Group.Abs
import Mathlib.Data.List.Sort
import Mathlib.Tactic.Linarith
import Mathlib.Tactic.Positivity
import Mathlib.Tactic.Ring
import Topas.Core.Ranks

/-!
# The Kolmogorov-Smirnov test

`ks_test` merges the two sorted samples, and keeps the least and the greatest difference of their
empirical distribution functions, in steps of one over the product of the sizes. It takes all copies
of a value that both samples have in one step, but holds that value in an `int`.

* `KsState.step_tie`: a step at a tie takes a copy in each sample, and what follows of the value
  that the `int` holds.
* `KsState.loop_first`, `loop_second`, `loop_pairs`: several turns of the loop, with whole numbers
  for the differences as long as these fit.
-/
namespace Topas.Wkp

open Ranks (exists_replicate_append le_of_sorted)
open scoped Ranks

/-! ## The merge -/

/-- `int += unsigned` goes through `unsigned`. -/
def plusUnsigned (D : Int32) (n : UInt32) : Int32 := (D.toUInt32 + n).toInt32

def minusUnsigned (D : Int32) (n : UInt32) : Int32 := (D.toUInt32 - n).toInt32

structure KsState where
  it1 : List Int64
  it2 : List Int64
  D : Int32
  Dmin : Int32
  Dmax : Int32

/-- The value that `s = *it1` leaves of `x` for the comparisons. -/
def truncated (x : Int64) : Int64 := x.toInt32.toInt64

/-- The `do … while` loop over one sample; what is read behind the last element plays no part.
mirrors detectionmodules/statmodules/wkp-module/ks-test.cpp:376-387 -/
def steps (s : Int64) (move : Int32 → Int32) (D : Int32) : List Int64 → Int32 × List Int64
  | [] => (D, [])
  | _ :: it => if it.head? = some s then steps s move (move D) it else (move D, it)

/-- mirrors detectionmodules/statmodules/wkp-module/ks-test.cpp:365-419 -/
def KsState.step (n1 n2 : UInt32) (k : KsState) : KsState :=
  match k.it1, k.it2 with
  | x :: it1, y :: it2 =>
    if x = y then
      let in1 := steps (truncated x) (plusUnsigned · n2) k.D (x :: it1)
      let in2 := steps (truncated x) (minusUnsigned · n1) in1.1 (y :: it2)
      let D := in2.1
      { it1 := in1.2
        it2 := in2.2
        D := D
        Dmin := if k.Dmax < D then k.Dmin else if D < k.Dmin then D else k.Dmin
        Dmax := if k.Dmax < D then D else k.Dmax }
    else if x < y then
      let D := plusUnsigned k.D n2
      { k with it1 := it1, D := D, Dmax := if k.Dmax < D then D else k.Dmax }
    else
      let D := minusUnsigned k.D n1
      { k with it2 := it2, D := D, Dmin := if D < k.Dmin then D else k.Dmin }
  | _, _ => k

/-- The `while` loop, at most `fuel` times.
mirrors detectionmodules/statmodules/wkp-module/ks-test.cpp:363-422 -/
def KsState.loop (n1 n2 : UInt32) : Nat → KsState → KsState
  | 0, k => k
  | fuel + 1, k => if k.it1 ≠ [] ∧ k.it2 ≠ [] then loop n1 n2 fuel (k.step n1 n2) else k

def ksMerge (sample1 sample2 : List Int64) : KsState :=
  let start : KsState :=
    { it1 := sample1.insertionSort (· ≤ ·), it2 := sample2.insertionSort (· ≤ ·), D := 0,
      Dmin := 0, Dmax := 0 }
  start.loop (.ofNat sample1.length) (.ofNat sample2.length) (sample1.length + sample2.length)

/-- mirrors detectionmodules/statmodules/wkp-module/ks-test.cpp:427-430 -/
def ksD (sample1 sample2 : List Int64) : Int32 :=
  let k := ksMerge sample1 sample2
  if k.Dmax < -k.Dmin then -k.Dmin else k.Dmax

/-- The statistic.
mirrors detectionmodules/statmodules/wkp-module/ks-test.cpp:433 -/
def ksStatistic (sample1 sample2 : List Int64) : ℚ :=
  (ksD sample1 sample2).toInt / (UInt32.ofNat sample1.length * .ofNat sample2.length).toNat

theorem KsState.step_Dmax (n1 n2 : UInt32) {k : KsState} (h : 0 ≤ k.Dmax) :
    0 ≤ (k.step n1 n2).Dmax := by
  have hmax : ∀ D : Int32, 0 ≤ if k.Dmax < D then D else k.Dmax := by
    intro D
    split
    next hlt => exact Int32.le_trans h (Int32.le_of_lt hlt)
    next => exact h
  unfold KsState.step
  split
  · split
    · exact hmax _
    · split
      · exact hmax _
      · exact h
  · exact h

theorem KsState.loop_Dmax (n1 n2 : UInt32) (fuel : Nat) {k : KsState} (h : 0 ≤ k.Dmax) :
    0 ≤ (k.loop n1 n2 fuel).Dmax := by
  induction fuel generalizing k with
  | zero => exact h
  | succ fuel ih =>
    rw [KsState.loop]
    split
    · exact ih (step_Dmax n1 n2 h)
    · exact h

/-- `Dmax` is never negative, also where the differences wrap around. -/
theorem ksStatistic_nonneg (sample1 sample2 : List Int64) : 0 ≤ ksStatistic sample1 sample2 := by
  have hmax : 0 ≤ (ksMerge sample1 sample2).Dmax := KsState.loop_Dmax _ _ _ (Int32.le_refl 0)
  have hD : 0 ≤ ksD sample1 sample2 := by
    unfold ksD
    dsimp only
    split
    next hlt => exact Int32.le_trans hmax (Int32.le_of_lt hlt)
    next => exact hmax
  have hInt : 0 ≤ (ksD sample1 sample2).toInt := Int32.le_iff_toInt_le.mp hD
  exact div_nonneg (by exact_mod_cast hInt) (by exact_mod_cast Nat.zero_le _)

/-- The p-value, with the distribution function `K`.
mirrors detectionmodules/statmodules/wkp-module/ks-test.cpp:316-438 -/
def ksTest (K : UInt32 → ℚ → ℚ) (sample1 sample2 : List Int64) : ℚ :=
  let n1 := UInt32.ofNat sample1.length
  let n2 := UInt32.ofNat sample2.length
  let nApprox := UInt32.ofNat (((n1 * n2).toNat : ℚ) / (n1 + n2).toNat).ceil.toNat
  1 - K nApprox (ksStatistic sample1 sample2)

/-! ## The loop on whole numbers -/

theorem plusUnsigned_ofInt (z : ℤ) (n : Nat) :
    plusUnsigned (.ofInt z) (.ofNat n) = .ofInt (z + n) := by
  rw [plusUnsigned, UInt32.toInt32_add, Int32.toInt32_toUInt32, UInt32.toInt32_ofNat',
    Int32.ofInt_add,
    Int32.ofInt_eq_ofNat]

theorem minusUnsigned_ofInt (z : ℤ) (n : Nat) :
    minusUnsigned (.ofInt z) (.ofNat n) = .ofInt (z - n) := by
  rw [minusUnsigned, UInt32.toInt32_sub, Int32.toInt32_toUInt32, UInt32.toInt32_ofNat',
    Int32.ofInt_sub,
    Int32.ofInt_eq_ofNat]

theorem steps_replicate (s : Int64) (move : Int32 → Int32) {rest : List Int64}
    (hrest : rest.head? ≠ some s) (k : Nat) (D : Int32) (x : Int64) :
    steps s move D (x :: (List.replicate k s ++ rest)) = (move^[k + 1] D, rest) := by
  induction k generalizing D x with
  | zero => simp [steps, hrest]
  | succ k ih =>
    rw [List.replicate_succ, List.cons_append, steps, List.head?_cons, if_pos rfl, ih,
      Function.iterate_succ_apply move (k + 1)]

theorem plusUnsigned_iterate (n k : Nat) (z : ℤ) :
    (plusUnsigned · (.ofNat n))^[k] (.ofInt z) = .ofInt (z + k * n) := by
  induction k generalizing z with
  | zero => simp
  | succ k ih =>
    rw [Function.iterate_succ_apply, plusUnsigned_ofInt, ih]
    congr 1
    push_cast
    ring

theorem minusUnsigned_iterate (n k : Nat) (z : ℤ) :
    (minusUnsigned · (.ofNat n))^[k] (.ofInt z) = .ofInt (z - k * n) := by
  induction k generalizing z with
  | zero => simp
  | succ k ih =>
    rw [Function.iterate_succ_apply, minusUnsigned_ofInt, ih]
    congr 1
    push_cast
    ring

theorem ofInt_lt {a b : ℤ} (ha : |a| < 2 ^ 31) (hb : |b| < 2 ^ 31) :
    Int32.ofInt a < Int32.ofInt b ↔ a < b := by
  rw [abs_lt] at ha hb
  rw [Int32.lt_iff_toInt_lt, Int32.toInt_ofInt_of_le (by omega) ha.2,
    Int32.toInt_ofInt_of_le (by omega) hb.2]

theorem max_ofInt {a b : ℤ} (ha : |a| < 2 ^ 31) (hb : |b| < 2 ^ 31) :
    (if Int32.ofInt a < .ofInt b then Int32.ofInt b else .ofInt a) = .ofInt (max a b) := by
  simp only [ofInt_lt ha hb]
  split
  · rw [max_eq_right (by omega)]
  · rw [max_eq_left (by omega)]

theorem min_ofInt {a b : ℤ} (ha : |a| < 2 ^ 31) (hb : |b| < 2 ^ 31) :
    (if Int32.ofInt b < .ofInt a then Int32.ofInt b else .ofInt a) = .ofInt (min a b) := by
  simp only [ofInt_lt hb ha]
  split
  · rw [min_eq_right (by omega)]
  · rw [min_eq_left (by omega)]

/-- The state with whole numbers for the differences. -/
def KsState.at (it1 it2 : List Int64) (d lo hi : ℤ) : KsState :=
    ⟨it1, it2, .ofInt d, .ofInt lo, .ofInt hi⟩

namespace KsState

variable {n1 n2 : Nat} {x y : Int64} {it1 it2 : List Int64} {d lo hi : ℤ}

theorem step_first (hxy : x < y) (hhi : |hi| < 2 ^ 31) (hd : |d + n2| < 2 ^ 31) :
    (KsState.at (x :: it1) (y :: it2) d lo hi).step (.ofNat n1) (.ofNat n2) =
      KsState.at it1 (y :: it2) (d + n2) lo (max hi (d + n2)) := by
  simp only [KsState.at, step, if_neg hxy.ne, if_pos hxy, plusUnsigned_ofInt, max_ofInt hhi hd]

theorem step_second (hxy : y < x) (hlo : |lo| < 2 ^ 31) (hd : |d - n1| < 2 ^ 31) :
    (KsState.at (x :: it1) (y :: it2) d lo hi).step (.ofNat n1) (.ofNat n2) =
      KsState.at (x :: it1) it2 (d - n1) (min lo (d - n1)) hi := by
  simp only [KsState.at, step, if_neg hxy.ne', if_neg hxy.not_gt, minusUnsigned_ofInt,
    min_ofInt hlo hd]

/-- A step at a tie takes a copy in each sample and what follows of `truncated x`. -/
theorem step_tie {i j : Nat} (h₁ : it1.head? ≠ some (truncated x))
    (h₂ : it2.head? ≠ some (truncated x))
    (hle : lo ≤ hi) (hlo : |lo| < 2 ^ 31) (hhi : |hi| < 2 ^ 31)
    (hd : |d + (i + 1 : Nat) * n2 - (j + 1 : Nat) * n1| < 2 ^ 31) :
    (KsState.at (x :: (List.replicate i (truncated x) ++ it1))
      (x :: (List.replicate j (truncated x) ++ it2))
        d lo hi).step (.ofNat n1) (.ofNat n2) =
      KsState.at it1 it2 (d + (i + 1 : Nat) * n2 - (j + 1 : Nat) * n1)
        (min lo (d + (i + 1 : Nat) * n2 - (j + 1 : Nat) * n1))
        (max hi (d + (i + 1 : Nat) * n2 - (j + 1 : Nat) * n1)) := by
  simp only [KsState.at, step, if_true, steps_replicate (truncated x) _ h₁,
    steps_replicate (truncated x) _ h₂, plusUnsigned_iterate, minusUnsigned_iterate,
      ← max_ofInt hhi hd,
    ← min_ofInt hlo hd, ofInt_lt hhi hd, ofInt_lt hd hlo]
  congr 1
  split
  · rw [if_neg (by omega)]
  · rfl

theorem loop_succ (h₁ : it1 ≠ []) (h₂ : it2 ≠ []) (fuel : Nat) :
    (KsState.at it1 it2 d lo hi).loop (.ofNat n1) (.ofNat n2) (fuel + 1) =
      ((KsState.at it1 it2 d lo hi).step (.ofNat n1) (.ofNat n2)).loop (.ofNat n1)
      (.ofNat n2) fuel := by
  rw [loop, if_pos ⟨h₁, h₂⟩]

theorem loop_of_end (h : it1 = [] ∨ it2 = []) (fuel : Nat) :
    (KsState.at it1 it2 d lo hi).loop (.ofNat n1)
    (.ofNat n2) fuel = KsState.at it1 it2 d lo hi := by
  cases fuel with
  | zero => rfl
  | succ fuel =>
    rw [loop, if_neg]
    rintro ⟨h₁, h₂⟩
    exact h.elim h₁ h₂

end KsState

/-! ### Several turns of the loop -/

namespace KsState

variable {n1 n2 : Nat} {x : Int64} {it1 it2 : List Int64} {d lo hi : ℤ}

/-- Values of the first sample that are below the second one's. -/
theorem loop_first {b : List Int64} (hb : ∀ x ∈ b, ∀ y ∈ it2, x < y) (h₂ : it2 ≠ [])
    (hlo : -2 ^ 31 < d)
    (hd : d ≤ hi) (hhi : hi < 2 ^ 31) (hend : d + b.length * n2 < 2 ^ 31) (fuel : Nat) :
    (KsState.at (b ++ it1) it2 d lo hi).loop (.ofNat n1) (.ofNat n2) (fuel + b.length) =
      (KsState.at it1 it2 (d + b.length * n2) lo (max hi (d + b.length * n2))).loop
      (.ofNat n1) (.ofNat n2)
        fuel := by
  induction b generalizing d hi with
  | nil => simp [max_eq_left hd]
  | cons x b ih =>
    obtain ⟨y, l₂, rfl⟩ := List.exists_cons_of_ne_nil h₂
    have hxy : x < y := hb x List.mem_cons_self y List.mem_cons_self
    rw [List.length_cons] at hend ⊢
    push_cast at hend ⊢
    have hn : (0 : ℤ) ≤ n2 := Int.natCast_nonneg n2
    have hrest : (0 : ℤ) ≤ b.length * n2 := by positivity
    rw [List.cons_append, ← Nat.add_assoc, loop_succ (List.cons_ne_nil _ _) h₂,
      step_first hxy (abs_lt.mpr (by omega)) (abs_lt.mpr ⟨by omega, by linarith⟩),
      ih (fun z hz => hb z (List.mem_cons_of_mem x hz)) (by omega) (le_max_right _ _)
        (max_lt hhi (by linarith)) (by linarith)]
    have hsum : d + n2 + b.length * n2 = d + (b.length + 1) * n2 := by ring
    rw [hsum, max_assoc, max_eq_right (a := d + n2) (by linarith)]

theorem loop_second {b : List Int64} (hb : ∀ y ∈ b, ∀ x ∈ it1, y < x) (h₁ : it1 ≠ [])
    (hhi : d < 2 ^ 31)
    (hd : lo ≤ d) (hlo : -2 ^ 31 < lo) (hend : -2 ^ 31 < d - b.length * n1) (fuel : Nat) :
    (KsState.at it1 (b ++ it2) d lo hi).loop (.ofNat n1) (.ofNat n2) (fuel + b.length) =
      (KsState.at it1 it2 (d - b.length * n1) (min lo (d - b.length * n1)) hi).loop
      (.ofNat n1) (.ofNat n2)
        fuel := by
  induction b generalizing d lo with
  | nil => simp [min_eq_left hd]
  | cons y b ih =>
    obtain ⟨x, l₁, rfl⟩ := List.exists_cons_of_ne_nil h₁
    have hxy : y < x := hb y List.mem_cons_self x List.mem_cons_self
    rw [List.length_cons] at hend ⊢
    push_cast at hend ⊢
    have hn : (0 : ℤ) ≤ n1 := Int.natCast_nonneg n1
    have hrest : (0 : ℤ) ≤ b.length * n1 := by positivity
    rw [List.cons_append, ← Nat.add_assoc, loop_succ h₁ (List.cons_ne_nil _ _),
      step_second hxy (abs_lt.mpr (by omega)) (abs_lt.mpr ⟨by linarith, by omega⟩),
      ih (fun z hz => hb z (List.mem_cons_of_mem y hz)) (by omega) (min_le_right _ _)
        (lt_min hlo (by linarith)) (by linarith)]
    have hsum : d - n1 - b.length * n1 = d - (b.length + 1) * n1 := by ring
    rw [hsum, min_assoc, min_eq_right (a := d - n1) (by linarith)]

/-- A step between two ends of a line is not less than both. -/
theorem min_line {lo d s : ℤ} (h : lo ≤ d) (m : Nat) :
    min (min lo (d + s)) (d + s + m * s) = min lo (d + s + m * s) := by
  rcases le_total 0 s with hs | hs
  · rw [min_eq_left (by omega : lo ≤ d + s)]
  · have hm : m * s ≤ 0 := mul_nonpos_of_nonneg_of_nonpos (Int.natCast_nonneg m) hs
    rw [min_assoc, min_eq_right (by omega : d + s + m * s ≤ d + s)]

theorem max_line {hi d s : ℤ} (h : d ≤ hi) (m : Nat) :
    max (max hi (d + s)) (d + s + m * s) = max hi (d + s + m * s) := by
  rcases le_total 0 s with hs | hs
  · have hm : 0 ≤ m * s := mul_nonneg (Int.natCast_nonneg m) hs
    rw [max_assoc, max_eq_right (by omega : d + s ≤ d + s + m * s)]
  · rw [max_eq_left (by omega : d + s ≤ hi)]

/-- Common copies of a value that does not fit are taken one by one. -/
theorem loop_pairs (hx : truncated x ≠ x) (m : Nat) (hle : lo ≤ d) (hge : d ≤ hi)
    (hlo : -2 ^ 31 < lo)
    (hhi : hi < 2 ^ 31) (hends : ∀ i : Nat, i ≤ m → |d + i * (n2 - n1 : ℤ)| < 2 ^ 31) (fuel : Nat) :
    (KsState.at (List.replicate m x ++ x :: it1) (List.replicate m x ++ x :: it2) d lo hi).loop
        (.ofNat n1) (.ofNat n2) (fuel + m) =
      (KsState.at (x :: it1) (x :: it2) (d + m * (n2 - n1 : ℤ)) (min lo (d + m * (n2 - n1 : ℤ)))
        (max hi (d + m * (n2 - n1 : ℤ)))).loop (.ofNat n1) (.ofNat n2) fuel := by
  induction m generalizing d lo hi with
  | zero => simp [min_eq_left hle, max_eq_left hge]
  | succ m ih =>
    have hhead : ∀ it : List Int64, (List.replicate m x ++ x :: it).head? ≠ some (truncated x) :=
        fun it => by
      cases m <;> simpa [List.replicate_succ] using hx.symm
    have hone : d + ((0 + 1 : Nat) : ℤ) * n2 - ((0 + 1 : Nat) : ℤ) * n1 = d + (n2 - n1) := by
      push_cast
      ring
    have hd := hends 1 (by omega)
    rw [Nat.cast_one, one_mul] at hd
    have hstep := step_tie (hhead it1) (hhead it2) (hle.trans hge) (abs_lt.mpr (by omega))
      (abs_lt.mpr (by omega)) (hone.symm ▸ hd)
    rw [hone] at hstep
    simp only [List.replicate_zero, List.nil_append] at hstep
    have hsum : ∀ i : Nat, d + ((i + 1 : Nat) : ℤ) * (n2 - n1 : ℤ) = d + (n2 - n1 : ℤ) + i *
        (n2 - n1 : ℤ) :=
      fun i => by
        push_cast
        ring
    rw [abs_lt] at hd
    rw [List.replicate_succ, List.cons_append, List.cons_append, ← Nat.add_assoc,
      loop_succ (List.cons_ne_nil _ _) (List.cons_ne_nil _ _), hstep,
      ih (min_le_right _ _) (le_max_right _ _) (lt_min hlo hd.1) (max_lt hhi hd.2), hsum,
        min_line hle,
      max_line hge]
    intro i him
    rw [← hsum]
    exact hends (i + 1) (by omega)

end KsState

end Topas.Wkp
