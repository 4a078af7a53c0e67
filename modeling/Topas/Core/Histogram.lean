import Mathlib.Algebra.Order.Ring.Int
import Mathlib.Data.List.Basic
import Mathlib.Order.Defs.LinearOrder

/-!
# Histograms

A sample is cut into consecutive intervals, each up to and with a cut; the last interval has all
values above the cuts.

* `histogram_split`: cutting between two parts of a sample.
* `sum_histogram`: every element is counted once.
-/
namespace Topas.Histogram

variable {α : Type} [LinearOrder α]

def histogram : List α → List α → List Nat
  | [], s => [s.length]
  | c :: cuts, s => s.countP (· ≤ c) :: histogram cuts (s.filter (c < ·))

@[simp] theorem histogram_nil (s : List α) : histogram [] s = [s.length] := rfl

theorem histogram_split {p q cuts : List α} {c : α} (hp : ∀ x ∈ p, x ≤ c) (hq : ∀ y ∈ q, c < y) :
    histogram (c :: cuts) (p ++ q) = p.length :: histogram cuts q := by
  have hcount : (p ++ q).countP (· ≤ c) = p.length := by
    rw [List.countP_append, List.countP_eq_length.mpr fun x hx => decide_eq_true (hp x hx),
      List.countP_eq_zero.mpr fun y hy => by simpa using hq y hy, Nat.add_zero]
  have hfilter : (p ++ q).filter (c < ·) = q := by
    rw [List.filter_append, List.filter_eq_nil_iff.mpr fun x hx => by simpa using hp x hx,
      List.filter_eq_self.mpr fun y hy => decide_eq_true (hq y hy), List.nil_append]
  rw [histogram, hcount, hfilter]

@[simp] theorem length_histogram (cuts s : List α) :
    (histogram cuts s).length = cuts.length + 1 := by
  induction cuts generalizing s with
  | nil => rfl
  | cons c cuts ih => rw [histogram, List.length_cons, ih, List.length_cons]

@[simp] theorem sum_histogram (cuts s : List α) : (histogram cuts s).sum = s.length := by
  induction cuts generalizing s with
  | nil => simp
  | cons c cuts ih =>
    have hnot : (fun x => decide ¬decide (x ≤ c) = true) = fun x => decide (c < x) := by
      funext x
      simp
    rw [histogram, List.sum_cons, ih, ← List.countP_eq_length_filter,
      List.length_eq_countP_add_countP (fun x => decide (x ≤ c)) (l := s), hnot]

theorem histogram_perm {s t : List α} (h : s.Perm t) (cuts : List α) :
    histogram cuts s = histogram cuts t := by
  induction cuts generalizing s t with
  | nil => rw [histogram_nil, histogram_nil, h.length_eq]
  | cons c cuts ih => rw [histogram, histogram, h.countP_eq, ih (h.filter _)]

end Topas.Histogram
