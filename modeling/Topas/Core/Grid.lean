import Mathlib.Data.List.FinRange
import Mathlib.Data.List.ProdSigma
import Mathlib.Data.Fin.Basic
import Mathlib.Order.Basic

/-!
# Loops over the entries of a square matrix

A matrix is a function of two indices, and a double loop a fold over the list of its index pairs.

* `foldl_set`: a loop that makes every entry from its own old value, once.
* `foldl_setBoth`: a loop over one triangle of a symmetric matrix that writes every value twice, to
  the entry and to its mirror image.
-/
namespace Topas.Grid

variable {ι α : Type} [DecidableEq ι]

/-- The matrix with another entry at `i`, `j`. -/
def set (M : ι → ι → α) (i j : ι) (x : α) : ι → ι → α :=
    fun a b => if a = i ∧ b = j then x else M a b

/-- The same value at `j`, `i`. -/
def setBoth (M : ι → ι → α) (i j : ι) (x : α) : ι → ι → α := set (set M i j x) j i x

/-- The index pairs of `for i < m, for j < m`. -/
def square (m : ℕ) : List (Fin m × Fin m) := List.finRange m ×ˢ List.finRange m

/-- The index pairs of `for i < m, for j ≤ i`. -/
def triangle (m : ℕ) : List (Fin m × Fin m) := (square m).filter fun p => p.2 ≤ p.1

@[simp] theorem mem_square {m : ℕ} (p : Fin m × Fin m) : p ∈ square m :=
  List.mem_product.mpr ⟨List.mem_finRange _, List.mem_finRange _⟩

theorem nodup_square (m : ℕ) : (square m).Nodup :=
    (List.nodup_finRange m).product (List.nodup_finRange m)

theorem mem_triangle {m : ℕ} {p : Fin m × Fin m} : p ∈ triangle m ↔ p.2 ≤ p.1 := by
  simp [triangle]

theorem nodup_triangle (m : ℕ) : (triangle m).Nodup := (nodup_square m).filter _

theorem setBoth_apply (M : ι → ι → α) (i j : ι) (x : α) (a b : ι) :
    setBoth M i j x a b = if (a = i ∧ b = j) ∨ (a = j ∧ b = i) then x else M a b := by
  unfold setBoth set
  by_cases hmirror : a = j ∧ b = i
  · rw [if_pos hmirror, if_pos (.inr hmirror)]
  · rw [if_neg hmirror]
    exact if_congr (by simp [hmirror]) rfl rfl

theorem foldl_set (f : ι → ι → α → α) {L : List (ι × ι)} (hL : L.Nodup) (M : ι → ι → α) (a b : ι) :
    L.foldl (fun M p => set M p.1 p.2 (f p.1 p.2 (M p.1 p.2))) M a b =
      if (a, b) ∈ L then f a b (M a b) else M a b := by
  induction L generalizing M with
  | nil => rfl
  | cons p L ih =>
    obtain ⟨i, j⟩ := p
    obtain ⟨hp, hL⟩ := List.nodup_cons.mp hL
    rw [List.foldl_cons, ih hL]
    by_cases heq : a = i ∧ b = j
    · obtain ⟨rfl, rfl⟩ := heq
      simp [hp, set]
    · simp [set, heq]

section

variable [LinearOrder ι]

/-- The entries below the diagonal are written where the loop comes to them, and those above with
them. -/
theorem foldl_setBoth (f : ι → ι → α → α) {L : List (ι × ι)} (hL : L.Nodup)
    (hlower : ∀ p ∈ L, p.2 ≤ p.1)
    {M : ι → ι → α} (hM : ∀ a b, M a b = M b a) {a b : ι} (hab : b ≤ a) :
    let N := L.foldl (fun M p => setBoth M p.1 p.2 (f p.1 p.2 (M p.1 p.2))) M
    (N a b = if (a, b) ∈ L then f a b (M a b) else M a b) ∧ N b a = N a b := by
  induction L generalizing M with
  | nil => exact ⟨rfl, hM b a⟩
  | cons p L ih =>
    obtain ⟨i, j⟩ := p
    obtain ⟨hp, hL⟩ := List.nodup_cons.mp hL
    have hji : j ≤ i := hlower (i, j) List.mem_cons_self
    have hsymm : ∀ c d, setBoth M i j (f i j (M i j)) c d = setBoth M i j (f i j (M i j)) d c := by
      intro c d
      rw [setBoth_apply, setBoth_apply, hM c d]
      exact if_congr (by tauto) rfl rfl
    obtain ⟨hlow, hmirror⟩ := ih hL (fun p hp => hlower p (List.mem_cons_of_mem _ hp)) hsymm
    refine ⟨?_, hmirror⟩
    rw [List.foldl_cons, hlow, setBoth_apply]
    by_cases heq : a = i ∧ b = j
    · obtain ⟨rfl, rfl⟩ := heq
      simp [hp]
    · -- the mirror image of a lower entry is lower only on the diagonal
      have hnot : ¬ ((a = i ∧ b = j) ∨ (a = j ∧ b = i)) := by
        rintro (h | ⟨rfl, rfl⟩)
        · exact heq h
        · exact heq ⟨le_antisymm hji hab, le_antisymm hab hji⟩
      rw [if_neg hnot]
      simp [heq]

end

end Topas.Grid
