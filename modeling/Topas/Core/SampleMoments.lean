import Mathlib.Algebra.BigOperators.Group.List.Basic
import Mathlib.Algebra.CharZero.Defs
import Mathlib.Tactic.FieldSimp
import Mathlib.Tactic.Ring

/-!
# Sample mean and variance

Over a field of characteristic 0. `variance_eq` is the variance from the sum and the sum of squares
alone.
-/
namespace Topas.SampleMoments

variable {F : Type} [Field F]

def mean (xs : List F) : F := xs.sum / xs.length

/-- The unbiased sample variance. -/
def variance (xs : List F) : F := (xs.map fun x => (x - mean xs) ^ 2).sum / (xs.length - 1)

def sumSquares (xs : List F) : F := (xs.map fun x => x * x).sum

@[simp] theorem sumSquares_nil : sumSquares ([] : List F) = 0 := rfl

@[simp] theorem sumSquares_cons (x : F) (xs : List F) :
    sumSquares (x :: xs) = x * x + sumSquares xs := by
  simp [sumSquares]

/-- The squared deviations from any number. -/
theorem sum_sq_sub (m : F) (xs : List F) :
    (xs.map fun x => (x - m) ^ 2).sum = sumSquares xs - 2 * m * xs.sum + xs.length * m ^ 2 := by
  induction xs with
  | nil => simp
  | cons x xs ih =>
    simp only [List.map_cons, List.sum_cons, ih, sumSquares_cons, List.length_cons, Nat.cast_add,
      Nat.cast_one]
    ring

theorem variance_eq [CharZero F] {xs : List F} (h : xs ≠ []) :
    variance xs = (sumSquares xs - xs.sum ^ 2 / xs.length) / (xs.length - 1) := by
  have hlen : (xs.length : F) ≠ 0 := Nat.cast_ne_zero.mpr (List.length_pos_iff.mpr h).ne'
  have hdev : (xs.map fun x => (x - mean xs) ^ 2).sum = sumSquares xs - xs.sum ^ 2 / xs.length := by
    rw [sum_sq_sub, mean]
    field_simp
    ring
  rw [variance, hdev]

end Topas.SampleMoments
