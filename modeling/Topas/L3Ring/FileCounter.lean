/-!
# File counters

The collector numbers its packets with `shared::FileCounter`s, which count modulo
`MAX_FILES`, and tells the detection modules two of them, `from` and `to`.
`FileCounter.ofNat n` is the counter of the packet that arrived as number `n`.
-/
namespace Topas

/-- mirrors commonutils/global.h:43 -/
def MAX_FILES : Nat := 100000

/-- "Encapsulates an unsigned integer and ensures, that the integer is always in
range".
mirrors commonutils/sharedobj.h:30-67 -/
@[ext] structure FileCounter where
  i : Nat
  lt : i < MAX_FILES
  deriving DecidableEq, Repr

namespace FileCounter

/-- The counter after `n` increments. -/
def ofNat (n : Nat) : FileCounter := ⟨n % MAX_FILES, Nat.mod_lt _ (by decide)⟩

/-- `operator++`
mirrors commonutils/sharedobj.cpp:96-101 -/
def incr (c : FileCounter) : FileCounter :=
  if h : c.i + 1 = MAX_FILES then ⟨0, by decide⟩ else ⟨c.i + 1, Nat.lt_of_le_of_ne c.lt h⟩

/-- `operator-`, as an `unsigned`.
mirrors commonutils/sharedobj.cpp:148-153 -/
def sub (c rhs : FileCounter) : Nat :=
  if rhs.i ≤ c.i then c.i - rhs.i else MAX_FILES - (rhs.i - c.i)

theorem incr_ofNat (n : Nat) : (ofNat n).incr = ofNat (n + 1) := by
  ext
  unfold incr
  by_cases h : (ofNat n).i + 1 = MAX_FILES
  · rw [dif_pos h]
    have h' : n % 100000 + 1 = 100000 := h
    show 0 = (n + 1) % 100000
    omega
  · rw [dif_neg h]
    have h' : ¬ n % 100000 + 1 = 100000 := h
    show n % 100000 + 1 = (n + 1) % 100000
    omega

theorem sub_ofNat (n k : Nat) : (ofNat (n + k)).sub (ofNat n) = k % MAX_FILES := by
  show (if n % 100000 ≤ (n + k) % 100000 then (n + k) % 100000 - n % 100000
    else 100000 - (n % 100000 - (n + k) % 100000)) = k % 100000
  by_cases h : n % 100000 ≤ (n + k) % 100000
  · rw [if_pos h]; omega
  · rw [if_neg h]; omega

/-- Only equal counters have no difference. -/
theorem sub_eq_zero {c rhs : FileCounter} : c.sub rhs = 0 ↔ rhs = c := by
  have h1 := c.lt
  have h2 := rhs.lt
  rw [FileCounter.ext_iff]
  unfold sub
  by_cases h : rhs.i ≤ c.i
  · rw [if_pos h]; omega
  · rw [if_neg h]; omega

theorem ofNat_add_ne {n k : Nat} (h0 : 0 < k) (hlt : k < MAX_FILES) : ofNat n ≠ ofNat (n + k) := by
  intro h
  have h' := congrArg FileCounter.i h
  simp only [ofNat, MAX_FILES] at *
  omega

/-- What `operator-` has taken away. -/
theorem ofNat_add_sub (c : FileCounter) (n : Nat) : ofNat (n + c.sub (ofNat n)) = c := by
  have hc : c.i < 100000 := c.lt
  ext
  show
    (n + if n % 100000 ≤ c.i then c.i - n % 100000 else 100000 - (n % 100000 - c.i)) % 100000 = c.i
  by_cases h : n % 100000 ≤ c.i
  · rw [if_pos h]; omega
  · rw [if_neg h]; omega

/-- Counters that lie less than a round apart tell the packets apart. -/
theorem ofNat_add_mod (n k : Nat) : ofNat (n + k % MAX_FILES) = ofNat (n + k) := by
  ext
  simp only [ofNat, Nat.add_mod_mod]

end FileCounter

end Topas
