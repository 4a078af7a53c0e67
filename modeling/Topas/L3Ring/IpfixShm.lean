import Topas.Core.Bytes

/-!
# The shared-memory packet storage

`IpfixShm` of `commonutils/packetstats.cpp`: the collector writes packets into a
block of shared memory, a detection module reads them there. Its members are
static, so the collector and every module have their own copy of them; only the
bytes are shared. Positions are offsets from `startLocation`, `mem` is the memory
from there on. `touched` lists the accesses, as offset and length.

A packet is stored as its length, in host order, and its bytes. `Laid m p xs q`
says that the packets `xs` lie one behind the other from `p` to `q`.
-/
namespace Topas

open Mem

/-- The static members, in one process.
mirrors commonutils/packetstats.h:121-149 -/
structure IpfixShm where
  allocated : Bool
  writePosition : Nat
  readPosition : Nat
  packetSize : Nat
  size : Nat
  writeBeforeRead : Bool
  deriving DecidableEq, Repr

/-- `accepted` is whether the instance, not `NULL`, is returned. -/
structure Wrote where
  accepted : Bool
  shm : IpfixShm
  mem : Mem
  touched : List (Nat × Nat)

namespace IpfixShm

/-- `setShmPointer` and `setShmSize` in a process that has not used the class.
mirrors commonutils/packetstats.cpp:73-80,173-181 -/
def attach (size : Nat) : IpfixShm := ⟨true, 0, 0, 0, size, false⟩

/-- The second check for space, and the copy.
mirrors commonutils/packetstats.cpp:124-137 -/
def put (s : IpfixShm) (m : Mem) (data : List UInt8) (touched : List (Nat × Nat)) : Wrote :=
  if s.writeBeforeRead = true ∧ s.readPosition < s.writePosition + data.length + 2 then
    ⟨false, s, m, touched⟩
  else
    ⟨true, { s with writePosition := s.writePosition + (2 + data.length) },
      store (store m s.writePosition (encLe16 data.length)) (s.writePosition + 2) data,
      touched ++ [(s.writePosition, 2), (s.writePosition + 2, data.length)]⟩

/-- mirrors commonutils/packetstats.cpp:86-138 -/
def writePacket (s : IpfixShm) (m : Mem) (data : List UInt8) : Wrote :=
  if data.length = 0 then ⟨false, s, m, []⟩
  else if s.allocated = false then ⟨false, s, m, []⟩
  else if s.size < data.length then ⟨false, s, m, []⟩
  else if s.size ≤ s.writePosition + data.length + 2 then
    let tail := s.size - s.writePosition
    let m := store m s.writePosition (List.replicate tail 0)
    if s.writePosition ≤ s.readPosition then ⟨false, s, m, [(s.writePosition, tail)]⟩
    else
      put { s with writeBeforeRead := true, writePosition := 0 } m data [(s.writePosition, tail)]
  else put s m data []

/-- The first part of `readPacket`. The length of the rest of the block is compared
as a `size_t`.
mirrors commonutils/packetstats.cpp:141-148 -/
def advance (s : IpfixShm) : IpfixShm :=
  let next := s.readPosition + s.packetSize
  if next ≤ s.size ∧ s.size < next + 2 then
    { s with readPosition := 0, writeBeforeRead := false }
  else { s with readPosition := next }

/-- The packet is the `packetSize` bytes at `readPosition` afterwards.
mirrors commonutils/packetstats.cpp:140-166 -/
def readPacket (s : IpfixShm) (m : Mem) : IpfixShm × List (Nat × Nat) :=
  let s := s.advance
  let packetSize := le16 m s.readPosition
  if packetSize = 0 then
    ({ s with writeBeforeRead := false, packetSize := le16 m 0, readPosition := 2 },
      [(s.readPosition, 2), (0, 2)])
  else
    ({ s with packetSize := packetSize, readPosition := s.readPosition + 2 },
      [(s.readPosition, 2)])

/-- The collector throws the oldest packet away.
mirrors commonutils/packetstats.cpp:168-171 -/
def proceedOnePacket (s : IpfixShm) (m : Mem) : IpfixShm × List (Nat × Nat) := s.readPacket m

/-- The packet that was read last. -/
def packet (s : IpfixShm) (m : Mem) : List UInt8 := slice m s.readPosition s.packetSize

/-- Where the next packet is expected. -/
def next (s : IpfixShm) : Nat := s.readPosition + s.packetSize

end IpfixShm

/-! ## Stored packets -/

/-- A packet and the offset at which it is stored. -/
abbrev Packet := Nat × List UInt8

/-- Where the packet ends. -/
def Packet.stop (p : Packet) : Nat := p.1 + (2 + p.2.length)

/-- The packet stands in memory, with its length in front. -/
def Stored (m : Mem) (p : Packet) : Prop :=
  1 ≤ p.2.length ∧ p.2.length < 65536 ∧ Holds m p.1 (encLe16 p.2.length ++ p.2)

def Laid (m : Mem) : Nat → List Packet → Nat → Prop
  | p, [], q => p = q
  | p, x :: xs, q => x.1 = p ∧ Stored m x ∧ Laid m x.stop xs q

/-- All bytes from `a` to `size` are zero. -/
def Zeroed (m : Mem) (a size : Nat) : Prop := ∀ i, a ≤ i → i < size → m i = 0

section Layout

variable {m m' : Mem} {p q r : Nat} {x : Packet} {xs ys : List Packet}

theorem Stored.congr (h : Stored m x) (hm : ∀ i, x.1 ≤ i → i < x.stop → m i = m' i) :
    Stored m' x := by
  obtain ⟨h1, h2, h3⟩ := h
  refine ⟨h1, h2, h3.congr fun i hi hi' => hm i hi ?_⟩
  simp only [List.length_append, length_encLe16] at hi'
  unfold Packet.stop; omega

/-- The length in front of a packet. -/
theorem Stored.le16 (h : Stored m x) : le16 m x.1 = x.2.length :=
  le16_of_holds (holds_append.mp h.2.2).1 h.2.1

theorem Stored.bytes (h : Stored m x) : slice m (x.1 + 2) x.2.length = x.2 :=
  (holds_append.mp h.2.2).2

theorem laid_append : Laid m p (xs ++ ys) q ↔ ∃ r, Laid m p xs r ∧ Laid m r ys q := by
  induction xs generalizing p with
  | nil =>
    refine ⟨fun h => ⟨p, rfl, h⟩, ?_⟩
    rintro ⟨r, rfl, h⟩
    exact h
  | cons x xs ih =>
    refine ⟨?_, ?_⟩
    · intro ⟨hx, hs, h⟩
      obtain ⟨r, h1, h2⟩ := ih.mp h
      exact ⟨r, ⟨hx, hs, h1⟩, h2⟩
    · intro ⟨r, ⟨hx, hs, h1⟩, h2⟩
      exact ⟨hx, hs, ih.mpr ⟨r, h1, h2⟩⟩

theorem Laid.le (h : Laid m p xs q) : p ≤ q := by
  induction xs generalizing p with
  | nil => exact Nat.le_of_eq h
  | cons x xs ih =>
    obtain ⟨hx, -, h⟩ := h
    have := ih h
    unfold Packet.stop at this; omega

theorem Laid.mem (h : Laid m p xs q) (hx : x ∈ xs) : p ≤ x.1 ∧ x.stop ≤ q ∧ Stored m x := by
  induction xs generalizing p with
  | nil => cases hx
  | cons y ys ih =>
    obtain ⟨hy, hs, h⟩ := h
    rcases List.mem_cons.mp hx with rfl | hx
    · exact ⟨Nat.le_of_eq hy.symm, h.le, hs⟩
    · obtain ⟨h1, h2, h3⟩ := ih h hx
      unfold Packet.stop at h1
      exact ⟨by omega, h2, h3⟩

theorem Laid.congr (h : Laid m p xs q) (hm : ∀ i, p ≤ i → i < q → m i = m' i) : Laid m' p xs q := by
  induction xs generalizing p with
  | nil => exact h
  | cons x xs ih =>
    obtain ⟨hx, hs, h⟩ := h
    have hle := h.le
    refine
      ⟨hx, hs.congr fun i hi hi' => hm i (by omega) (by omega), ih h fun i hi hi' => hm i ?_ hi'⟩
    unfold Packet.stop at hi; omega

/-- What lies ahead tells where it starts. -/
theorem Laid.start (h : Laid m p xs r) (h' : Laid m q xs r) : p = q := by
  cases xs with
  | nil => exact Eq.trans h (Eq.symm h')
  | cons x xs => exact h.1.symm.trans h'.1

/-- A reader of fewer packets stands further ahead. -/
theorem Laid.le_start (h : Laid m p xs r) (h' : Laid m q ys r) (hs : ys <:+ xs) : p ≤ q := by
  obtain ⟨zs, rfl⟩ := hs
  obtain ⟨q', h1, h2⟩ := laid_append.mp h
  rw [h'.start h2]
  exact h1.le

theorem Laid.concat (h : Laid m p xs q) (hx : Stored m x) (hq : x.1 = q) :
    Laid m p (xs ++ [x]) x.stop :=
  laid_append.mpr ⟨q, h, hq, hx, rfl⟩

end Layout

/-! ## What the functions do -/

section Spec

variable {s : IpfixShm} {m : Mem} {data : List UInt8} {x : Packet}

/-- A reader that has just read the packet `x`. -/
def IpfixShm.onto (s : IpfixShm) (x : Packet) : IpfixShm :=
  { s with readPosition := x.1 + 2, packetSize := x.2.length }

theorem IpfixShm.next_onto : (s.onto x).next = x.stop := by
  unfold IpfixShm.onto IpfixShm.next Packet.stop; simp only; omega

/-- The memory after the rest of the block was zeroed. -/
def IpfixShm.zeroTail (s : IpfixShm) (m : Mem) : Mem :=
  store m s.writePosition (List.replicate (s.size - s.writePosition) 0)

/-- The memory after a packet was copied to offset `a`. -/
def copied (m : Mem) (a : Nat) (data : List UInt8) : Mem :=
  store (store m a (encLe16 data.length)) (a + 2) data

/-- The packet could be stored in an empty block. -/
def IpfixShm.Takes (s : IpfixShm) (data : List UInt8) : Prop :=
  1 ≤ data.length ∧ s.allocated = true ∧ data.length ≤ s.size

instance : Decidable (s.Takes data) :=
  inferInstanceAs (Decidable (1 ≤ data.length ∧ s.allocated = true ∧ data.length ≤ s.size))

/-- The ways a call of `writePacket` can go. -/
inductive WriteOutcome (s : IpfixShm) (m : Mem) (data : List UInt8) : Wrote → Prop
  | refused : ¬ s.Takes data → WriteOutcome s m data ⟨false, s, m, []⟩
  | full : s.Takes data → s.writePosition + data.length + 2 < s.size →
      s.writeBeforeRead = true → s.readPosition < s.writePosition + data.length + 2 →
      WriteOutcome s m data ⟨false, s, m, []⟩
  | stored : s.Takes data → s.writePosition + data.length + 2 < s.size →
      (s.writeBeforeRead = true → s.writePosition + data.length + 2 ≤ s.readPosition) →
      WriteOutcome s m data ⟨true, { s with writePosition := s.writePosition + (2 + data.length) },
        copied m s.writePosition data,
        [(s.writePosition, 2), (s.writePosition + 2, data.length)]⟩
  | trashed : s.Takes data → s.size ≤ s.writePosition + data.length + 2 →
      s.writePosition ≤ s.readPosition →
      WriteOutcome s m data
        ⟨false, s, s.zeroTail m, [(s.writePosition, s.size - s.writePosition)]⟩
  | stranded : s.Takes data → s.size ≤ s.writePosition + data.length + 2 →
      s.readPosition < s.writePosition → s.readPosition < data.length + 2 →
      WriteOutcome s m data ⟨false, { s with writeBeforeRead := true, writePosition := 0 },
        s.zeroTail m, [(s.writePosition, s.size - s.writePosition)]⟩
  | wrapped : s.Takes data → s.size ≤ s.writePosition + data.length + 2 →
      s.readPosition < s.writePosition → data.length + 2 ≤ s.readPosition →
      WriteOutcome s m data
        ⟨true, { s with writeBeforeRead := true, writePosition := 2 + data.length },
          copied (s.zeroTail m) 0 data,
          [(s.writePosition, s.size - s.writePosition), (0, 2), (2, data.length)]⟩

theorem writePacket_outcome : WriteOutcome s m data (s.writePacket m data) := by
  unfold IpfixShm.writePacket
  by_cases h1 : data.length = 0
  · rw [if_pos h1]; exact .refused fun h => by have := h.1; omega
  rw [if_neg h1]
  by_cases h2 : s.allocated = false
  · rw [if_pos h2]; exact .refused fun h => by rw [h.2.1] at h2; cases h2
  rw [if_neg h2]
  by_cases h3 : s.size < data.length
  · rw [if_pos h3]; exact .refused fun h => by have := h.2.2; omega
  rw [if_neg h3]
  have htakes : s.Takes data := ⟨by omega, by simpa using h2, by omega⟩
  unfold IpfixShm.put
  by_cases h4 : s.size ≤ s.writePosition + data.length + 2
  · rw [if_pos h4]
    by_cases h5 : s.writePosition ≤ s.readPosition
    · simp only [if_pos h5]
      exact .trashed htakes h4 h5
    · simp only [if_neg h5, Nat.zero_add, true_and]
      by_cases h6 : s.readPosition < data.length + 2
      · rw [if_pos h6]; exact .stranded htakes h4 (by omega) h6
      · rw [if_neg h6]; exact .wrapped htakes h4 (by omega) (by omega)
  · rw [if_neg h4]
    by_cases h5 : s.writeBeforeRead = true ∧ s.readPosition < s.writePosition + data.length + 2
    · rw [if_pos h5]; exact .full htakes (by omega) h5.1 h5.2
    · rw [if_neg h5]
      exact .stored htakes (by omega) fun hf => Nat.le_of_not_lt fun h => h5 ⟨hf, h⟩

/-- What is stored at the write position. -/
theorem stored_copied {a : Nat} (h1 : 1 ≤ data.length) (h2 : data.length < 65536) :
    Stored (copied m a data) (a, data) := by
  refine ⟨h1, h2, holds_append.mpr ⟨?_, holds_store _ _ _⟩⟩
  refine (holds_store m a (encLe16 data.length)).congr fun i hi hi' => ?_
  rw [length_encLe16] at hi'
  exact (store_other (.inl (by omega))).symm

theorem copied_other {a i : Nat} (h : i < a ∨ a + (2 + data.length) ≤ i) :
    copied m a data i = m i := by
  rw [copied, store_other (by omega), store_other (by rw [length_encLe16]; omega)]

theorem zeroed_zeroTail : Zeroed (s.zeroTail m) s.writePosition s.size := by
  intro i hi hi'
  have hlt : i - s.writePosition <
      (List.replicate (s.size - s.writePosition) (0 : UInt8)).length := by
    rw [List.length_replicate]; omega
  have := (holds_store m s.writePosition
    (List.replicate (s.size - s.writePosition) 0)).apply hlt
  rw [List.getElem_replicate, Nat.add_sub_cancel' hi] at this
  exact this

theorem zeroTail_other {i : Nat} (h : i < s.writePosition) : s.zeroTail m i = m i :=
  store_other (.inl h)

/-- The next packet stands where it is expected. -/
theorem readPacket_here (hx : Stored m x) (hnext : s.next = x.1) (hsize : x.stop ≤ s.size) :
    s.readPacket m = (s.onto x, [(x.1, 2)]) := by
  have hlen := hx.1
  have hadv : s.advance = { s with readPosition := x.1 } := by
    unfold IpfixShm.advance
    rw [if_neg, ← hnext]
    · rfl
    · unfold Packet.stop at hsize
      unfold IpfixShm.next at hnext
      omega
  unfold IpfixShm.readPacket
  simp only [hadv, hx.le16]
  rw [if_neg (by omega)]
  rfl

/-- The next packet stands at the beginning: too little or nothing is left. -/
theorem readPacket_wrap (hx : Stored m x) (h0 : x.1 = 0) (hsize : x.stop ≤ s.size)
    (hnext : s.next ≤ s.size) (hz : Zeroed m s.next s.size) :
    ∃ touched, s.readPacket m = ({ s.onto x with writeBeforeRead := false }, touched) ∧
      ∀ t ∈ touched, t.1 + t.2 ≤ s.size := by
  have hlen := hx.1
  have hle := hx.le16
  rw [h0] at hle
  unfold Packet.stop at hsize
  by_cases hshort : s.size < s.next + 2
  · have hadv : s.advance = { s with readPosition := 0, writeBeforeRead := false } :=
      if_pos ⟨hnext, hshort⟩
    refine ⟨[(0, 2)], ?_, fun t ht => ?_⟩
    · unfold IpfixShm.readPacket IpfixShm.onto
      simp only [hadv, hle, h0]
      rw [if_neg (by omega)]
    · rw [List.mem_singleton] at ht
      subst ht
      simp only; omega
  · have hadv : s.advance = { s with readPosition := s.next } := if_neg fun h => hshort h.2
    have hzero : le16 m s.next = 0 := by
      unfold le16
      rw [hz _ (Nat.le_refl _) (by omega), hz _ (by omega) (by omega)]
      rfl
    refine ⟨[(s.next, 2), (0, 2)], ?_, fun t ht => ?_⟩
    · unfold IpfixShm.readPacket IpfixShm.onto
      simp only [hadv, hzero, if_true, hle, h0]
    · simp only [List.mem_cons, List.not_mem_nil, or_false] at ht
      rcases ht with rfl | rfl <;> simp only <;> omega

end Spec

end Topas
