import Mathlib.Algebra.Order.Ring.Int

/-!
# Byte memory

A `Mem` is what a pointer into a buffer sees: address 0 is where the pointer
points, and the bytes behind the end of the buffer are whatever the memory holds
there. Reads of 16 and 32 bit words come in network order (`be16`, `be32`, what
`ntohs(*(uint16_t*)p)` yields) and in the order of a little-endian host (`le16`,
what `*(uint16_t*)p` yields).

`Holds m a bs` says that the bytes `bs` lie at address `a`; encoders produce
lists, and `Holds` carries them into memory.
-/
namespace Topas

abbrev Mem := Nat → UInt8

namespace Mem

def be16 (m : Mem) (a : Nat) : Nat := (m a).toNat * 256 + (m (a + 1)).toNat

def le16 (m : Mem) (a : Nat) : Nat := (m a).toNat + (m (a + 1)).toNat * 256

def be32 (m : Mem) (a : Nat) : Nat := be16 m a * 65536 + be16 m (a + 2)

/-- The `n` bytes from address `a` on. -/
def slice (m : Mem) (a : Nat) : Nat → List UInt8
  | 0 => []
  | n + 1 => m a :: slice m (a + 1) n

/-- The bytes `bs` lie at address `a`. -/
def Holds (m : Mem) (a : Nat) (bs : List UInt8) : Prop := slice m a bs.length = bs

/-- A memory that holds `bs` at address 0, and `beyond` behind it. -/
def ofList (bs : List UInt8) (beyond : Nat → UInt8) : Mem := fun i => bs.getD i (beyond i)

/-- `memcpy(m + a, bs, bs.length)`. -/
def store (m : Mem) (a : Nat) (bs : List UInt8) : Mem :=
  fun i => if a ≤ i then bs.getD (i - a) (m i) else m i

theorem be16_lt (m : Mem) (a : Nat) : be16 m a < 65536 := by
  have h1 := (m a).toNat_lt
  have h2 := (m (a + 1)).toNat_lt
  unfold be16; omega

/-! ## Slices -/

@[simp] theorem length_slice (m : Mem) (a n : Nat) : (slice m a n).length = n := by
  induction n generalizing a with
  | zero => rfl
  | succ n ih => simp [slice, ih]

theorem slice_add (m : Mem) (a n k : Nat) :
    slice m a (n + k) = slice m a n ++ slice m (a + n) k := by
  induction n generalizing a with
  | zero => simp [slice]
  | succ n ih =>
    rw [show n + 1 + k = n + k + 1 by omega, slice, slice, ih,
      show a + 1 + n = a + (n + 1) by omega]
    rfl

theorem getElem_slice (m : Mem) (a n i : Nat) (h : i < (slice m a n).length) :
    (slice m a n)[i] = m (a + i) := by
  induction n generalizing a i with
  | zero => simp [slice] at h
  | succ n ih =>
    cases i with
    | zero => rfl
    | succ i =>
      simp only [slice, List.getElem_cons_succ]
      rw [ih (a + 1) i (by simpa [slice] using h)]
      congr 1; omega

/-- Memories that agree on a range have the same slice there. -/
theorem slice_congr {m m' : Mem} {a n : Nat} (h : ∀ i, a ≤ i → i < a + n → m i = m' i) :
    slice m a n = slice m' a n := by
  induction n generalizing a with
  | zero => rfl
  | succ n ih =>
    rw [slice, slice, h a (Nat.le_refl _) (by omega),
      ih fun i h1 h2 => h i (by omega) (by omega)]

/-! ## Bytes in memory -/

@[simp] theorem holds_nil (m : Mem) (a : Nat) : Holds m a [] := rfl

theorem holds_append {m : Mem} {a : Nat} {xs ys : List UInt8} :
    Holds m a (xs ++ ys) ↔ Holds m a xs ∧ Holds m (a + xs.length) ys := by
  unfold Holds
  rw [List.length_append, slice_add]
  refine ⟨?_, ?_⟩
  · intro h
    exact List.append_inj h (length_slice m a _)
  · intro ⟨h1, h2⟩
    rw [h1, h2]

theorem holds_cons {m : Mem} {a : Nat} {x : UInt8} {xs : List UInt8} :
    Holds m a (x :: xs) ↔ m a = x ∧ Holds m (a + 1) xs := by
  simp [Holds, slice]

theorem Holds.apply {m : Mem} {a : Nat} {bs : List UInt8} (h : Holds m a bs) {i : Nat}
    (hi : i < bs.length) : m (a + i) = bs[i] := by
  have h1 := getElem_slice m a bs.length i (by simpa using hi)
  unfold Holds at h
  rw [← h1]; congr 1

theorem Holds.congr {m m' : Mem} {a : Nat} {bs : List UInt8} (h : Holds m a bs)
    (hm : ∀ i, a ≤ i → i < a + bs.length → m i = m' i) : Holds m' a bs := by
  unfold Holds at h ⊢
  rw [← slice_congr hm]; exact h

theorem holds_ofList (bs : List UInt8) (beyond : Nat → UInt8) : Holds (ofList bs beyond) 0 bs := by
  apply List.ext_getElem
  · simp
  · intro i h1 h2
    rw [getElem_slice]
    simp only [ofList, Nat.zero_add, List.getD_eq_getElem?_getD, List.getElem?_eq_getElem h2,
      Option.getD_some]

theorem holds_store (m : Mem) (a : Nat) (bs : List UInt8) : Holds (store m a bs) a bs := by
  apply List.ext_getElem
  · simp
  · intro i h1 h2
    rw [getElem_slice]
    simp only [store, Nat.le_add_right, if_true, Nat.add_sub_cancel_left,
      List.getD_eq_getElem?_getD, List.getElem?_eq_getElem h2, Option.getD_some]

/-- A store changes only the bytes it writes. -/
theorem store_other {m : Mem} {a i : Nat} {bs : List UInt8} (h : i < a ∨ a + bs.length ≤ i) :
    store m a bs i = m i := by
  unfold store
  split
  · rw [List.getD_eq_getElem?_getD, List.getElem?_eq_none (by omega), Option.getD_none]
  · rfl

/-! ## Words -/

def enc16 (n : Nat) : List UInt8 := [UInt8.ofNat (n / 256), UInt8.ofNat n]

def encLe16 (n : Nat) : List UInt8 := [UInt8.ofNat n, UInt8.ofNat (n / 256)]

def enc32 (n : Nat) : List UInt8 := enc16 (n / 65536) ++ enc16 (n % 65536)

@[simp] theorem length_enc16 (n : Nat) : (enc16 n).length = 2 := rfl

@[simp] theorem length_encLe16 (n : Nat) : (encLe16 n).length = 2 := rfl

@[simp] theorem length_enc32 (n : Nat) : (enc32 n).length = 4 := rfl

theorem be16_of_holds {m : Mem} {a n : Nat} (h : Holds m a (enc16 n)) (hn : n < 65536) :
    be16 m a = n := by
  simp only [enc16, holds_cons, holds_nil, and_true] at h
  rw [be16, h.1, h.2]
  simp only [UInt8.toNat_ofNat', Nat.reducePow]; omega

theorem le16_of_holds {m : Mem} {a n : Nat} (h : Holds m a (encLe16 n)) (hn : n < 65536) :
    le16 m a = n := by
  simp only [encLe16, holds_cons, holds_nil, and_true] at h
  rw [le16, h.1, h.2]
  simp only [UInt8.toNat_ofNat', Nat.reducePow]; omega

theorem be32_of_holds {m : Mem} {a n : Nat} (h : Holds m a (enc32 n)) (hn : n < 65536 * 65536) :
    be32 m a = n := by
  simp only [enc32, holds_append, length_enc16] at h
  rw [be32, be16_of_holds h.1 (by omega), be16_of_holds h.2 (by omega)]
  omega

end Mem

end Topas
