import Mathlib.Data.List.Infix

/-!
# The first occurrence of a pattern

`infixIdx pat s` is where `pat` begins first in `s`. An element that `pat` does not have separates
a text for the search: an occurrence is on one side of it or on the other (`infixIdx_append_cons`).
-/
namespace Topas

variable {α : Type}

/-- A prefix of two parts with an element between them that it does not have is one of the first
part. -/
theorem prefix_of_prefix_append_cons {pat u v : List α} {c : α} (hc : c ∉ pat)
    (h : pat <+: u ++ c :: v) :
    pat <+: u := by
  have hu : u <+: u ++ c :: v := List.prefix_append u _
  have huc : u ++ [c] <+: u ++ c :: v := ⟨v, by simp⟩
  rcases Nat.lt_or_ge u.length pat.length with hlt | hle
  · have hsub : u ++ [c] <+: pat := List.prefix_of_prefix_length_le huc h (by
      rw [List.length_append]
      exact hlt)
    exact absurd (hsub.subset (List.mem_append_right _ (List.mem_singleton_self c))) hc
  · exact List.prefix_of_prefix_length_le h hu hle

/-- A text that lacks an element of the pattern has no occurrence of it. -/
theorem not_infix_of_mem {pat u : List α} {c : α} (hc : c ∈ pat) (hu : c ∉ u) : ¬ pat <:+: u :=
  fun h => hu (h.subset hc)

variable [DecidableEq α]

def infixIdx (pat : List α) : List α → Option Nat
  | [] => if pat = [] then some 0 else none
  | a :: s => if pat <+: a :: s then some 0 else (infixIdx pat s).map (· + 1)

theorem infixIdx_cons_of_ne {pat s : List α} {a : α} (h : ¬ pat <+: a :: s) :
    infixIdx pat (a :: s) = (infixIdx pat s).map (· + 1) :=
  if_neg h

/-- A part without an occurrence, up to an element that the pattern does not have, is passed over.
-/
theorem infixIdx_append_cons {pat u : List α} (v : List α) {c : α} (hc : c ∉ pat)
    (hu : ¬ pat <:+: u) :
    infixIdx pat (u ++ c :: v) = (infixIdx pat v).map (u.length + 1 + ·) := by
  induction u with
  | nil =>
    have hne : ¬ pat <+: c :: v := fun h => hu (prefix_of_prefix_append_cons hc h).isInfix
    rw [List.nil_append, infixIdx_cons_of_ne hne]
    exact congrArg (Option.map · _) (funext fun i => by simp [Nat.add_comm])
  | cons a u ih =>
    have hne : ¬ pat <+: a :: u ++ c :: v := fun h => hu (prefix_of_prefix_append_cons hc h).isInfix
    have hrest : ¬ pat <:+: u := fun h => hu (h.trans (List.infix_cons (List.infix_refl u)))
    rw [List.cons_append] at hne ⊢
    rw [infixIdx_cons_of_ne hne, ih hrest, Option.map_map]
    exact congrArg (Option.map · _) (funext fun i => by simp; omega)

end Topas
