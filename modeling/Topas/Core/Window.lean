import Mathlib.Data.List.DropRight

/-!
# Two windows on one stream

The newest values of a stream go through two lists: the first values fill `old`, the next ones
`new`, and from then on each value moves the oldest one of `new` into `old` and the oldest one of
`old` out. A value may come while `old` is frozen; what leaves `new` is then lost.

* `Holds.push`: how long the lists are, what is in `new`, and in which order `old` is.
* `Exact.push`: what is in `old` as long as no value was lost.
-/
namespace Topas.Window

variable {α : Type}

structure Windows (α : Type) where
  old : List α
  new : List α
  deriving DecidableEq, Repr

/-- The next value, where the windows have the sizes `m` and `n`. -/
def Windows.push (m n : Nat) (frozen : Bool) (w : Windows α) (v : α) : Windows α :=
  if w.old.length ≠ m then { w with old := w.old ++ [v] }
  else if w.new.length ≠ n then { w with new := w.new ++ [v] }
  else if frozen then { w with new := w.new.tail ++ [v] }
  else ⟨w.old.tail ++ w.new.head?.toList, w.new.tail ++ [v]⟩

/-- What the windows on the stream `vs` hold. -/
structure Holds (m n : Nat) (vs : List α) (w : Windows α) : Prop where
  length_old : w.old.length = min m vs.length
  new : w.new = vs.rtake (min n (vs.length - m))
  old : w.old.Sublist (vs.rdrop w.new.length)

/-- `old` is where `new` begins. -/
def Exact (m : Nat) (vs : List α) (w : Windows α) : Prop :=
  w.old = (vs.rdrop w.new.length).rtake m

theorem length_rtake (l : List α) (n : Nat) : (l.rtake n).length = min n l.length := by
  simp [List.rtake]
  omega

theorem rdrop_append_rtake (l : List α) (n : Nat) : l.rdrop n ++ l.rtake n = l :=
    List.take_append_drop _ _

/-- The value that leaves a window of full size is the one that the rest of the stream ends in. -/
theorem rdrop_eq_concat {vs : List α} {n : Nat} {x : α} {xs : List α}
    (h : vs.rtake (n + 1) = x :: xs)
    (hn : n + 1 ≤ vs.length) : vs.rdrop n = vs.rdrop (n + 1) ++ [x] ∧ vs.rtake n = xs := by
  have hsplit := rdrop_append_rtake vs (n + 1)
  rw [h] at hsplit
  have hlen : xs.length = n := by
    have := congrArg List.length h
    rw [length_rtake] at this
    simp only [List.length_cons] at this
    omega
  have hvs : vs = (vs.rdrop (n + 1) ++ [x]) ++ xs := by simpa using hsplit.symm
  have htake : ∀ a b : List α, b.length = n → (a ++ b).rdrop n = a ∧ (a ++ b).rtake n = b := by
    rintro a b rfl
    simp [List.rdrop, List.rtake]
  have := htake (vs.rdrop (n + 1) ++ [x]) xs hlen
  rw [← hvs] at this
  exact this

theorem holds_nil (m n : Nat) : Holds m n ([] : List α) ⟨[], []⟩ :=
  ⟨by simp, by simp, by simp⟩

theorem exact_nil (m : Nat) : Exact m ([] : List α) ⟨[], []⟩ := by simp [Exact]

namespace Holds

variable {m n : Nat} {vs : List α} {w : Windows α}

theorem length_new (h : Holds m n vs w) : w.new.length = min n (vs.length - m) := by
  rw [h.new, length_rtake]
  omega

theorem length_old_le (h : Holds m n vs w) : w.old.length ≤ m := by
  rw [h.length_old]
  exact Nat.min_le_left _ _

theorem length_new_le (h : Holds m n vs w) : w.new.length ≤ n := by
  rw [h.length_new]
  exact Nat.min_le_left _ _

theorem old_full (h : Holds m n vs w) (hnew : w.new ≠ []) : w.old.length = m := by
  have := List.length_pos_iff.mpr hnew
  rw [h.length_new] at this
  rw [h.length_old]
  omega

/-- Where both windows are full, their values are the last ones of the stream, and `x` leaves `new`.
-/
theorem leaving (h : Holds m n vs w) (hn : 1 ≤ n) (hold : w.old.length = m)
    (hnew : w.new.length = n) :
    ∃ x xs, w.new = x :: xs ∧ xs.length + 1 = n ∧ vs.rtake xs.length = xs ∧
      vs.rdrop xs.length = vs.rdrop n ++ [x] := by
  have hlen_old := h.length_old
  have hlen_new := h.length_new
  cases hw : w.new with
  | nil =>
    rw [hw, List.length_nil] at hnew
    omega
  | cons x xs =>
    rw [hw, List.length_cons] at hnew hlen_new
    have hnew_eq := h.new
    rw [hw, show min n (vs.length - m) = xs.length + 1 by omega] at hnew_eq
    obtain ⟨hdrop, htake⟩ := rdrop_eq_concat hnew_eq.symm (by omega)
    rw [hnew] at hdrop
    exact ⟨x, xs, rfl, hnew, htake, hdrop⟩

/-- The value fills `old`. -/
theorem push_old (h : Holds m n vs w) (hold : w.old.length ≠ m) (v : α) :
    Holds m n (vs ++ [v]) { w with old := w.old ++ [v] } := by
  have hlen_old := h.length_old
  have hempty : w.new = [] := List.eq_nil_of_length_eq_zero (by rw [h.length_new]; omega)
  have hsub := h.old
  refine ⟨?_, ?_, ?_⟩
  · simp only [List.length_append, List.length_singleton]
    omega
  · have hzero : min n ((vs ++ [v]).length - m) = 0 := by
      simp only [List.length_append, List.length_singleton]
      omega
    rw [hzero, List.rtake_zero]
    exact hempty
  · simp only [hempty, List.length_nil, List.rdrop_zero] at hsub ⊢
    exact hsub.append (List.Sublist.refl _)

/-- The value fills `new`. -/
theorem push_new (h : Holds m n vs w) (hold : w.old.length = m) (hnew : w.new.length ≠ n) (v : α) :
    Holds m n (vs ++ [v]) { w with new := w.new ++ [v] } := by
  have hlen_old := h.length_old
  have hlen_new := h.length_new
  refine ⟨?_, ?_, ?_⟩
  · simp only [List.length_append, List.length_singleton]
    omega
  · have hnext : min n ((vs ++ [v]).length - m) = min n (vs.length - m) + 1 := by
      simp only [List.length_append, List.length_singleton]
      omega
    rw [hnext, List.rtake_concat_succ, ← h.new]
  · simp only [List.length_append, List.length_singleton, List.rdrop_concat_succ]
    exact h.old

/-- The value moves both windows on, or `new` alone. -/
theorem push_full (h : Holds m n vs w) (hm : 1 ≤ m) (hn : 1 ≤ n) (hold : w.old.length = m)
    (hnew : w.new.length = n) (v : α) :
    Holds m n (vs ++ [v]) { w with new := w.new.tail ++ [v] } ∧
      Holds m n (vs ++ [v]) ⟨w.old.tail ++ w.new.head?.toList, w.new.tail ++ [v]⟩ := by
  obtain ⟨x, xs, hw, hlen, htake, hdrop⟩ := h.leaving hn hold hnew
  have hlen_old := h.length_old
  have hlen_new := h.length_new
  have hnew' : xs ++ [v] = (vs ++ [v]).rtake (min n ((vs ++ [v]).length - m)) := by
    have hmin : min n ((vs ++ [v]).length - m) = xs.length + 1 := by
      simp only [List.length_append, List.length_singleton]
      omega
    rw [hmin, List.rtake_concat_succ, htake]
  have hsub : w.old.Sublist (vs.rdrop n) := by
    rw [← hnew]
    exact h.old
  have hdrop' : (vs ++ [v]).rdrop (xs ++ [v]).length = vs.rdrop n ++ [x] := by
    simp [List.rdrop_concat_succ, hdrop]
  simp only [hw, List.tail_cons, List.head?_cons, Option.toList_some]
  refine ⟨⟨?_, hnew', ?_⟩, ?_, hnew', ?_⟩
  · simp only [List.length_append, List.length_singleton]
    omega
  · rw [hdrop']
    exact hsub.trans (List.sublist_append_left _ _)
  · simp only [List.length_append, List.length_tail, List.length_singleton]
    omega
  · rw [hdrop']
    exact ((List.tail_sublist _).trans hsub).append (List.Sublist.refl _)

theorem push (h : Holds m n vs w) (hm : 1 ≤ m) (hn : 1 ≤ n) (frozen : Bool) (v : α) :
    Holds m n (vs ++ [v]) (w.push m n frozen v) := by
  unfold Windows.push
  split
  · exact h.push_old ‹_› v
  · rename_i hold
    split
    · exact h.push_new (not_not.mp hold) ‹_› v
    · rename_i hnew
      obtain ⟨hfrozen, hmoved⟩ := h.push_full hm hn (not_not.mp hold) (not_not.mp hnew) v
      split
      · exact hfrozen
      · exact hmoved

end Holds

/-- Whether a value that comes is lost. -/
def Windows.loses (m n : Nat) (frozen : Bool) (w : Windows α) : Bool :=
  w.old.length = m && w.new.length = n && frozen

theorem tail_rtake {l : List α} {m : Nat} (hm : m + 1 ≤ l.length) :
    (l.rtake (m + 1)).tail = l.rtake m := by
  cases hl : l.rtake (m + 1) with
  | nil =>
    have := congrArg List.length hl
    rw [length_rtake, List.length_nil] at this
    omega
  | cons x xs => exact (rdrop_eq_concat hl hm).2.symm

theorem Exact.push {m n : Nat} {vs : List α} {w : Windows α} (hw : Holds m n vs w)
    (h : Exact m vs w)
    (hm : 1 ≤ m) (hn : 1 ≤ n) {frozen : Bool} (hlost : w.loses m n frozen = false) (v : α) :
    Exact m (vs ++ [v]) (w.push m n frozen v) := by
  have hlen_old := hw.length_old
  have hlen_new := hw.length_new
  unfold Exact at h ⊢
  unfold Windows.push
  split
  · rename_i hold
    have hempty : w.new = [] := List.eq_nil_of_length_eq_zero (by omega)
    simp only [hempty, List.length_nil, List.rdrop_zero] at h ⊢
    obtain ⟨k, rfl⟩ : ∃ k, m = k + 1 := ⟨m - 1, by omega⟩
    have hall : ∀ j, vs.length ≤ j → vs.rtake j = vs := by
      intro j hj
      simp [List.rtake, Nat.sub_eq_zero_of_le hj]
    rw [List.rtake_concat_succ, h, hall _ (by omega), hall _ (by omega)]
  · rename_i hold
    split
    · simpa [List.rdrop_concat_succ] using h
    · rename_i hnew
      obtain ⟨x, xs, hx, hlen, htake, hdrop⟩ := hw.leaving hn (not_not.mp hold) (not_not.mp hnew)
      have hfrozen : frozen = false :=
        by simpa [Windows.loses, not_not.mp hold, not_not.mp hnew] using hlost
      obtain ⟨k, rfl⟩ : ∃ k, m = k + 1 := ⟨m - 1, by omega⟩
      rw [if_neg (by simp [hfrozen])]
      rw [not_not.mp hnew] at h
      have hlong : k + 1 ≤ (vs.rdrop n).length := by
        simp only [List.rdrop, List.length_take]
        omega
      simp [hx, List.rdrop_concat_succ, hdrop, List.rtake_concat_succ, h, tail_rtake hlong]

end Topas.Window
