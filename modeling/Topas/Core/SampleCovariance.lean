import Mathlib.Algebra.Order.BigOperators.Group.List
import Mathlib.Tactic.Linarith
import Mathlib.Tactic.Positivity
import Topas.Core.SampleMoments

/-!
# Sample covariance

Of pairs of numbers. `covariance_eq` is the form with the sums alone; the covariance of a sample
with itself is its variance, which is 0 only where all numbers are the same.
-/
namespace Topas.SampleMoments

variable {F : Type} [Field F]

/-- The unbiased sample covariance. -/
def covariance (ps : List (F × F)) : F :=
  (ps.map fun p => (p.1 - mean (ps.map Prod.fst)) * (p.2 - mean (ps.map Prod.snd))).sum /
    (ps.length - 1)

/-- The products of the deviations from any two numbers. -/
theorem sum_mul_sub (m n : F) (ps : List (F × F)) :
    (ps.map fun p => (p.1 - m) * (p.2 - n)).sum =
      (ps.map fun p => p.1 * p.2).sum - n * (ps.map Prod.fst).sum - m * (ps.map Prod.snd).sum +
        ps.length * (m * n) := by
  induction ps with
  | nil => simp
  | cons p ps ih =>
    simp only [List.map_cons, List.sum_cons, ih, List.length_cons, Nat.cast_add, Nat.cast_one]
    ring

theorem covariance_eq [CharZero F] {ps : List (F × F)} (h : ps ≠ []) :
    covariance ps = ((ps.map fun p => p.1 * p.2).sum -
      (ps.map Prod.fst).sum * (ps.map Prod.snd).sum / ps.length) / (ps.length - 1) := by
  have hlen : (ps.length : F) ≠ 0 := Nat.cast_ne_zero.mpr (List.length_pos_iff.mpr h).ne'
  rw [covariance, sum_mul_sub, mean, mean, List.length_map, List.length_map]
  congr 1
  field_simp
  ring

section

variable [LinearOrder F] [IsStrictOrderedRing F]

/-- With itself. -/
theorem covariance_self_nonneg {xs : List F} (h : 1 ≤ xs.length) :
    0 ≤ covariance (xs.map fun x => (x, x)) := by
  refine div_nonneg (List.sum_nonneg fun y hy => ?_) ?_
  · obtain ⟨p, hp, rfl⟩ := List.mem_map.mp hy
    obtain ⟨x, -, rfl⟩ := List.mem_map.mp hp
    simpa [Function.comp_def] using mul_self_nonneg _
  · have hone : (1 : F) ≤ xs.length := by exact_mod_cast h
    simpa using hone

theorem eq_of_covariance_self {xs : List F} (h : 2 ≤ xs.length)
    (hzero : covariance (xs.map fun x => (x, x)) = 0) : ∀ x ∈ xs, x = mean xs := by
  intro x hx
  have hlen : (xs.length : F) - 1 ≠ 0 := by
    have htwo : (2 : F) ≤ xs.length := by exact_mod_cast h
    linarith
  simp only [covariance, List.map_map, List.length_map, Function.comp_def, List.map_id'] at hzero
  have hsum := (div_eq_zero_iff.mp hzero).resolve_right hlen
  have hdev : (x - mean xs) * (x - mean xs) = 0 := by
    refine List.all_zero_of_le_zero_le_of_sum_eq_zero (fun y hy => ?_) hsum
      (List.mem_map.mpr ⟨x, hx, rfl⟩)
    obtain ⟨z, -, rfl⟩ := List.mem_map.mp hy
    exact mul_self_nonneg _
  exact sub_eq_zero.mp (mul_self_eq_zero.mp hdev)

end

end Topas.SampleMoments
