import Mathlib.Algebra.Order.Field.Basic
import Mathlib.Algebra.Order.Ring.Abs
import Mathlib.Data.Finset.Max
import Mathlib.Data.Rat.Cast.Order
import Mathlib.Order.Bounds.Basic
import Mathlib.Tactic.FieldSimp
import Mathlib.Tactic.Positivity
import Mathlib.Tactic.Ring

/-!
# Empirical distribution functions

Of two samples of any linear order. `gap` is the difference of the two functions in steps of one
over the product of the sizes.

* `isLUB_iff`: the supremum of the difference is its greatest value at an element of the samples.
* `gap_map`: the gaps of the samples are those of their images under an embedding.
-/
namespace Topas.Ecdf

variable {α β : Type} [LinearOrder α] [LinearOrder β]

def ecdf (s : List α) (x : α) : ℚ := s.countP (· ≤ x) / s.length

def gap (s t : List α) (x : α) : ℤ := t.length * s.countP (· ≤ x) - s.length * t.countP (· ≤ x)

variable {s t : List α}

theorem gap_map {f : α → β} (hf : StrictMono f) (x : α) :
    gap (s.map f) (t.map f) (f x) = gap s t x := by
  have hcount : ∀ l : List α, (l.map f).countP (· ≤ f x) = l.countP (· ≤ x) := fun l => by
    rw [List.countP_map]
    exact List.countP_congr fun y _ => by simp [hf.le_iff_le]
  rw [gap, gap, hcount, hcount, List.length_map, List.length_map]

theorem gap_perm {s' t' : List α} (hs : s.Perm s') (ht : t.Perm t') : gap s t = gap s' t' := by
  funext x
  rw [gap, gap, hs.countP_eq, ht.countP_eq, hs.length_eq, ht.length_eq]

theorem abs_ecdf_sub (hs : s ≠ []) (ht : t ≠ []) (x : α) :
    |ecdf s x - ecdf t x| = |gap s t x| / (s.length * t.length) := by
  have hs : (0 : ℚ) < s.length := by exact_mod_cast List.length_pos_iff.mpr hs
  have ht : (0 : ℚ) < t.length := by exact_mod_cast List.length_pos_iff.mpr ht
  have hdiv : ecdf s x - ecdf t x = gap s t x / (s.length * t.length) := by
    rw [ecdf, ecdf, gap]
    push_cast
    field_simp
  rw [hdiv, abs_div, abs_of_pos (mul_pos hs ht), Int.cast_abs]

/-- Above all elements both functions are 1. -/
theorem gap_of_le {x : α} (hs : ∀ y ∈ s, y ≤ x) (ht : ∀ y ∈ t, y ≤ x) : gap s t x = 0 := by
  have hcs : s.countP (· ≤ x) = s.length :=
    List.countP_eq_length.mpr fun y hy => decide_eq_true (hs y hy)
  have hct : t.countP (· ≤ x) = t.length :=
    List.countP_eq_length.mpr fun y hy => decide_eq_true (ht y hy)
  rw [gap, hcs, hct]
  ring

theorem exists_greatest {l : List α} (h : l ≠ []) : ∃ x ∈ l, ∀ y ∈ l, y ≤ x := by
  obtain ⟨x, hx, hmax⟩ := l.toFinset.exists_max_image id
    (List.toFinset_nonempty_iff l |>.mpr h)
  exact ⟨x, List.mem_toFinset.mp hx, fun y hy => hmax y (List.mem_toFinset.mpr hy)⟩

/-- Between the elements nothing changes. -/
theorem exists_gap_eq (hs : s ≠ []) (x : α) : ∃ v ∈ s ++ t, gap s t x = gap s t v := by
  by_cases hbelow : (s ++ t).filter (· ≤ x) = []
  · have hnone : ∀ l ⊆ s ++ t, l.countP (· ≤ x) = 0 := fun l hl => by
      rw [List.countP_eq_zero]
      exact fun y hy => List.filter_eq_nil_iff.mp hbelow y (hl hy)
    obtain ⟨v, hv, hmax⟩ := exists_greatest (l := s ++ t) (by simp [hs])
    refine ⟨v, hv, ?_⟩
    rw [gap_of_le (fun y hy => hmax y (List.mem_append_left t hy))
      fun y hy => hmax y (List.mem_append_right s hy), gap, hnone s (List.subset_append_left s t),
      hnone t (List.subset_append_right s t)]
    simp
  · obtain ⟨v, hv, hmax⟩ := exists_greatest hbelow
    have hvx : v ≤ x := by simpa using (List.mem_filter.mp hv).2
    have hcount : ∀ l ⊆ s ++ t, l.countP (· ≤ x) = l.countP (· ≤ v) := fun l hl =>
      List.countP_congr fun y hy => by
        rw [decide_eq_true_eq, decide_eq_true_eq]
        exact
          ⟨fun h => hmax y (List.mem_filter.mpr ⟨hl hy, decide_eq_true h⟩), fun h => h.trans hvx⟩
    refine ⟨v, (List.mem_filter.mp hv).1, ?_⟩
    rw [gap, gap, hcount s (List.subset_append_left s t), hcount t (List.subset_append_right s t)]

theorem isLUB_iff (hs : s ≠ []) (ht : t ≠ []) {d : ℚ} :
    IsLUB (Set.range fun x => |ecdf s x - ecdf t x|) d ↔
      (∀ x ∈ s ++ t, (|gap s t x| : ℚ) ≤ s.length * t.length * d) ∧
        ∃ x ∈ s ++ t, (|gap s t x| : ℚ) = s.length * t.length * d := by
  have hpos : (0 : ℚ) < s.length * t.length := by
    have hs := List.length_pos_iff.mpr hs
    have ht := List.length_pos_iff.mpr ht
    positivity
  have hle : ∀ x, |ecdf s x - ecdf t x| ≤ d ↔ (|gap s t x| : ℚ) ≤ s.length * t.length * d :=
      fun x => by
    rw [abs_ecdf_sub hs ht, div_le_iff₀' hpos, Int.cast_abs]
  constructor
  · intro h
    refine ⟨fun x _ => (hle x).mp (h.1 ⟨x, rfl⟩), ?_⟩
    obtain ⟨v, hv, hmax⟩ := (s ++ t).toFinset.exists_max_image (fun x => |gap s t x|)
      ((List.toFinset_nonempty_iff _).mpr (by simp [hs]))
    refine ⟨v, List.mem_toFinset.mp hv, le_antisymm ((hle v).mp (h.1 ⟨v, rfl⟩)) ?_⟩
    have hleast : d ≤ |gap s t v| / (s.length * t.length) := h.2 fun y ⟨x, hx⟩ => by
      obtain ⟨w, hw, heq⟩ := exists_gap_eq (t := t) hs x
      rw [← hx]
      show |ecdf s x - ecdf t x| ≤ _
      rw [abs_ecdf_sub hs ht, heq]
      exact div_le_div_of_nonneg_right (Int.cast_le.mpr (hmax w (List.mem_toFinset.mpr hw))) hpos.le
    rw [le_div_iff₀' hpos, Int.cast_abs] at hleast
    exact hleast
  · rintro ⟨hbound, v, hv, heq⟩
    refine ⟨?_, fun b hb => ?_⟩
    · rintro _ ⟨x, rfl⟩
      obtain ⟨w, hw, hgap⟩ := exists_gap_eq (t := t) hs x
      refine (hle x).mpr ?_
      rw [hgap]
      exact hbound w hw
    · have hvb : |ecdf s v - ecdf t v| ≤ b := hb ⟨v, rfl⟩
      rw [abs_ecdf_sub hs ht, Int.cast_abs, heq, mul_div_cancel_left₀ d hpos.ne'] at hvb
      exact hvb

end Topas.Ecdf
