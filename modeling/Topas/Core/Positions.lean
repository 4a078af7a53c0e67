import Topas.Core.Search
import Topas.Core.Text

/-!
# Positions that are kept in an `unsigned`

`find` gives a `size_t`. What an `unsigned` keeps of it is the same position where the two types are
the same (`Widths.toUnsigned_eq`), and is never `npos` where `size_t` is the wider one
(`Widths.toUnsigned_ne_npos`), as it is on a `Platform`.
-/
namespace Topas

/-- The bits of `unsigned` and `size_t`, which may be the same type. -/
structure Widths where
  unsigned : Nat
  sizeT : Nat
  le : unsigned ≤ sizeT

namespace Widths

def ilp32 : Widths := ⟨32, 32, Nat.le_refl 32⟩

def lp64 : Widths := ⟨32, 64, by decide⟩

variable (W : Widths)

/-- `std::string::npos`. -/
def npos : Nat := 2 ^ W.sizeT - 1

/-- `str.find(c, pos)`. -/
def find (str : List Char) (c : Char) (pos : Nat) : Nat :=
  match (str.drop pos).findIdx? (· = c) with
  | some i => pos + i
  | none => W.npos

/-- `str.find(pat, pos)` for a string. -/
def findText (str pat : List Char) (pos : Nat) : Nat :=
  match infixIdx pat (str.drop pos) with
  | some i => pos + i
  | none => W.npos

/-- What an `unsigned` keeps of a number. -/
def toUnsigned (n : Nat) : Nat := n % 2 ^ W.unsigned

/-- `a - b` of two `unsigned`s. -/
def sub (a b : Nat) : Nat := W.toUnsigned (a + 2 ^ W.unsigned - b)

theorem find_append (p a b : List Char) {c : Char} (h : c ∉ a) :
    W.find (p ++ (a ++ c :: b)) c p.length = p.length + a.length := by
  unfold find
  rw [List.drop_left, Text.findIdx?_append_cons b h]

theorem find_none (p a : List Char) {c : Char} (h : c ∉ a) :
    W.find (p ++ a) c p.length = W.npos := by
  unfold find
  rw [List.drop_left, Text.findIdx?_of_not_mem h]

theorem toUnsigned_lt (n : Nat) : W.toUnsigned n < 2 ^ W.unsigned :=
    Nat.mod_lt _ (Nat.two_pow_pos _)

/-- A narrower type has no `npos`. -/
theorem toUnsigned_ne_npos (h : W.unsigned < W.sizeT) (n : Nat) : W.toUnsigned n ≠ W.npos := by
  have hlt := W.toUnsigned_lt n
  have hpow : 2 ^ (W.unsigned + 1) ≤ 2 ^ W.sizeT := Nat.pow_le_pow_right (by decide) h
  rw [Nat.pow_succ] at hpow
  unfold npos
  omega

/-- It is the greatest `unsigned` that `npos` becomes. -/
theorem toUnsigned_npos : W.toUnsigned W.npos = 2 ^ W.unsigned - 1 := by
  have hpow : 2 ^ W.sizeT = 2 ^ W.unsigned * 2 ^ (W.sizeT - W.unsigned) := by
    rw [← Nat.pow_add, Nat.add_sub_cancel' W.le]
  unfold toUnsigned npos
  rw [hpow]
  rw [Nat.mul_sub_mod (Nat.mul_pos (Nat.two_pow_pos _) (Nat.two_pow_pos _)), Nat.zero_mod]

theorem toUnsigned_eq {n : Nat} (h : W.unsigned = W.sizeT) (hn : n ≤ W.npos) :
    W.toUnsigned n = n := by
  have hpos : 0 < 2 ^ W.sizeT := Nat.two_pow_pos _
  unfold npos at hn
  unfold toUnsigned
  rw [h]
  exact Nat.mod_eq_of_lt (by omega)

end Widths

/-- Where `size_t` is the wider type. -/
structure Platform extends Widths where
  wider : unsigned < sizeT

namespace Platform

def lp64 : Platform := ⟨.lp64, by decide⟩

variable (P : Platform)

/-- No `unsigned` is `npos`. -/
theorem toUnsigned_ne_npos (n : Nat) : P.toUnsigned n ≠ P.npos :=
    P.toWidths.toUnsigned_ne_npos P.wider n

end Platform

end Topas
