import Mathlib.Algebra.Order.Ring.Int

/-!
# The Bloom filter

`countmodule/bloomfilter.cpp`. A key sets one bit for each hash function, and tests
positive when all of its bits are set.

A bit map of `size` bits has `(size + 7) / 8` octets, in 32-bit arithmetic: none, when
`size` is within 7 of 2^32. An access outside of the allocated octets is `none`, and so
is the remainder of a division by 0, which is what a filter of size 0 computes.

* `test_eq`, `insert_spec`, `testBeforeInsert_eq`: in a filter that works, `test` reads
  the key's bits, `insert` sets them, and `testBeforeInsert` does both.
* `works_init`: a filter of a positive size works unless the size is within 7 of 2^32.
-/
namespace Topas

/-! ## Bit maps -/

/-- mirrors detectionmodules/countmodule/bloomfilter.cpp:21-31 -/
def bitmask : List UInt8 := [0x01, 0x02, 0x04, 0x08, 0x10, 0x20, 0x40, 0x80]

/-- `bitmap` is the allocated memory. -/
structure Bitmap where
  bitmap : List UInt8
  lenBits : UInt32
  lenOctets : UInt32
  length_bitmap : bitmap.length = lenOctets.toNat
  deriving DecidableEq, Repr

namespace Bitmap

/-- mirrors detectionmodules/countmodule/bloomfilter.cpp:33-40 -/
def resize (size : UInt32) : Bitmap where
  bitmap := List.replicate ((size + 7) / 8).toNat 0
  lenBits := size
  lenOctets := (size + 7) / 8
  length_bitmap := List.length_replicate

/-- mirrors detectionmodules/countmodule/bloomfilter.cpp:42-45 -/
def clear (b : Bitmap) : Bitmap :=
  { b with bitmap := List.replicate b.lenOctets.toNat 0, length_bitmap := List.length_replicate }

/-- mirrors detectionmodules/countmodule/bloomfilter.cpp:47-51 -/
def set (b : Bitmap) (index : UInt32) : Option Bitmap :=
  if index < b.lenBits then do
    let octet ← b.bitmap[index.toNat / 8]?
    some { b with
      bitmap := b.bitmap.set (index.toNat / 8) (octet ||| bitmask.getD (index.toNat % 8) 0)
      length_bitmap := List.length_set.trans b.length_bitmap }
  else some b

/-- mirrors detectionmodules/countmodule/bloomfilter.cpp:53-59 -/
def test (b : Bitmap) (index : UInt32) : Option Bool :=
  if index < b.lenBits then do
    let octet ← b.bitmap[index.toNat / 8]?
    some (octet &&& bitmask.getD (index.toNat % 8) 0 != 0)
  else some false

/-- Bit number `n`. -/
def bit (b : Bitmap) (n : Nat) : Bool := b.bitmap.getD (n / 8) 0 &&& bitmask.getD (n % 8) 0 != 0

/-- There is memory for all bits. -/
def Sized (b : Bitmap) : Prop := b.lenBits.toNat ≤ 8 * b.bitmap.length

instance (b : Bitmap) : Decidable b.Sized := inferInstanceAs (Decidable (_ ≤ _))

variable {b : Bitmap} {index : UInt32}

theorem bitmask_and {i j : Nat} (hi : i < 8) (hj : j < 8) :
    bitmask.getD i 0 &&& bitmask.getD j 0 = if i = j then bitmask.getD j 0 else 0 := by
  have h : ∀ i j : Fin 8,
      bitmask.getD i 0 &&& bitmask.getD j 0 = if i = j then bitmask.getD j 0 else 0 := by
    decide
  simpa [Fin.ext_iff] using h ⟨i, hi⟩ ⟨j, hj⟩

theorem bitmask_ne_zero {i : Nat} (hi : i < 8) : bitmask.getD i 0 ≠ 0 := by
  have h : ∀ i : Fin 8, bitmask.getD i 0 ≠ 0 := by decide
  exact h ⟨i, hi⟩

/-- What setting one bit of an octet does to the others. -/
theorem or_bitmask {octet : UInt8} {i j : Nat} (hi : i < 8) (hj : j < 8) :
    ((octet ||| bitmask.getD i 0) &&& bitmask.getD j 0 != 0) =
      (decide (i = j) || (octet &&& bitmask.getD j 0 != 0)) := by
  have hdistrib (x y z : UInt8) : (x ||| y) &&& z = (x &&& z) ||| (y &&& z) :=
    UInt8.eq_of_toBitVec_eq BitVec.and_or_distrib_right
  rw [hdistrib, bitmask_and hi hj]
  by_cases h : i = j
  · simpa [h] using fun _ => bitmask_ne_zero hj
  · simp [h]

theorem octet_lt (h : b.Sized) (hlt : index < b.lenBits) : index.toNat / 8 < b.bitmap.length := by
  have hlt : index.toNat < b.lenBits.toNat := hlt
  unfold Sized at h
  omega

theorem test_eq (h : b.Sized) (hlt : index < b.lenBits) :
    b.test index = some (b.bit index.toNat) := by
  have ho := octet_lt h hlt
  simp [test, hlt, bit, List.getElem?_eq_getElem ho]

theorem set_spec (h : b.Sized) (hlt : index < b.lenBits) :
    ∃ b', b.set index = some b' ∧ b'.lenBits = b.lenBits ∧ b'.Sized ∧
      ∀ n, b'.bit n = (decide (n = index.toNat) || b.bit n) := by
  have ho := octet_lt h hlt
  have hset : b.set index = some { b with
      bitmap := b.bitmap.set (index.toNat / 8)
        (b.bitmap[index.toNat / 8] ||| bitmask.getD (index.toNat % 8) 0)
      length_bitmap := List.length_set.trans b.length_bitmap } := by
    simp [set, hlt, List.getElem?_eq_getElem ho]
  refine ⟨_, hset, rfl, ?_, fun n => ?_⟩
  · simpa [Sized] using h
  · simp only [bit, List.getD_eq_getElem?_getD (l := List.set _ _ _), List.getElem?_set]
    by_cases hn : index.toNat / 8 = n / 8
    · have hget : b.bitmap.getD (n / 8) 0 = b.bitmap[index.toNat / 8] := by simp [← hn, ho]
      rw [if_pos hn, if_pos ho, Option.getD_some, or_bitmask (Nat.mod_lt _ (by decide))
        (Nat.mod_lt _ (by decide)), hget]
      congr 1
      exact decide_eq_decide.mpr ⟨by omega, by omega⟩
    · have hne : n ≠ index.toNat := fun h => hn (h ▸ rfl)
      simp [hn, hne]

@[simp] theorem bit_clear (b : Bitmap) (n : Nat) : b.clear.bit n = false := by
  simp [bit, clear, List.getD_eq_getElem?_getD, List.getElem?_replicate]
  split <;> simp

@[simp] theorem sized_clear : b.clear.Sized ↔ b.Sized := by
  simp [Sized, clear, b.length_bitmap]

@[simp] theorem lenBits_clear : b.clear.lenBits = b.lenBits := rfl

/-- 32-bit arithmetic loses the octets when the size is within 7 of 2^32. -/
theorem sized_resize {size : UInt32} (hpos : 0 < size) :
    (resize size).Sized ↔ size.toNat + 7 < 2 ^ 32 := by
  have hpos : 0 < size.toNat := hpos
  have hlt := size.toNat_lt
  simp only [Sized, resize, List.length_replicate, UInt32.toNat_div, UInt32.toNat_add]
  simp
  omega

theorem resize_empty {size : UInt32} (h : ¬ size.toNat + 7 < 2 ^ 32) :
    (resize size).bitmap = [] := by
  have hlt := size.toNat_lt
  have h0 : ((size + 7) / 8).toNat = 0 := by
    simp only [UInt32.toNat_div, UInt32.toNat_add]
    simp
    omega
  exact List.eq_nil_of_length_eq_zero ((resize size).length_bitmap.trans h0)

end Bitmap

/-! ## Hash functions -/

/-- `random seed i` is what call number `i` of `gsl_rng_get` returns after `gsl_rng_set` with
`seed`, as a `uint32_t`. -/
abbrev Rng := UInt32 → Nat → UInt32

namespace HashFunctions

/-- The loop, from octet `i` on. -/
def hashLoop (random : Nat → UInt32) (i : Nat) (result : UInt32) : List UInt8 → UInt32
  | [] => result
  | x :: input => hashLoop random (i + 1) (random i * result + x.toUInt32) input

/-- mirrors detectionmodules/countmodule/bloomfilter.cpp:90-100 -/
def hashU (random : Rng) (input : List UInt8) (max seed : UInt32) : Option UInt32 :=
  if max = 0 then none else some (hashLoop (random seed) 0 0 input % max)

/-- The number of the bit for `seed`. -/
def bitOf (random : Rng) (input : List UInt8) (max seed : UInt32) : Nat :=
  (hashLoop (random seed) 0 0 input % max).toNat

theorem hashU_spec {random : Rng} {input : List UInt8} {max seed : UInt32} (hpos : 0 < max) :
    ∃ index, hashU random input max seed = some index ∧ index < max ∧
      index.toNat = bitOf random input max seed := by
  exact ⟨_, if_neg (UInt32.pos_iff_ne_zero.mp hpos), UInt32.mod_lt _ hpos, rfl⟩

end HashFunctions

/-! ## The filter -/

/-- `hfList` are the seeds; `hf_number` is their number. -/
structure BloomFilter where
  filter : Bitmap
  filterSize : UInt32
  hfList : List UInt32
  deriving DecidableEq, Repr

namespace BloomFilter

open HashFunctions

/-- `seeds` are what `rand` returns, once for each hash function.
mirrors detectionmodules/countmodule/bloomfilter.cpp:115-121 -/
def init (size : UInt32) (seeds : List UInt32) : BloomFilter := ⟨.resize size, size, seeds⟩

/-- mirrors detectionmodules/countmodule/bloomfilter.cpp:123-126 -/
def clear (bf : BloomFilter) : BloomFilter := { bf with filter := bf.filter.clear }

section Loops

variable (random : Rng) (input : List UInt8) (filterSize : UInt32)

def insertLoop (filter : Bitmap) : List UInt32 → Option Bitmap
  | [] => some filter
  | seed :: seeds => do
    let index ← hashU random input filterSize seed
    let filter ← filter.set index
    insertLoop filter seeds

def testLoop (filter : Bitmap) : List UInt32 → Option Bool
  | [] => some true
  | seed :: seeds => do
    let index ← hashU random input filterSize seed
    let set ← filter.test index
    if set = false then some false else testLoop filter seeds

def testBeforeInsertLoop (result : Bool) (filter : Bitmap) : List UInt32 → Option (Bool × Bitmap)
  | [] => some (result, filter)
  | seed :: seeds => do
    let index ← hashU random input filterSize seed
    let set ← filter.test index
    let filter ← filter.set index
    testBeforeInsertLoop (if set = false then false else result) filter seeds

end Loops

/-- mirrors detectionmodules/countmodule/bloomfilter.cpp:128-133 -/
def insert (random : Rng) (bf : BloomFilter) (input : List UInt8) : Option BloomFilter := do
  let filter ← insertLoop random input bf.filterSize bf.filter bf.hfList
  some { bf with filter := filter }

/-- mirrors detectionmodules/countmodule/bloomfilter.cpp:135-142 -/
def test (random : Rng) (bf : BloomFilter) (input : List UInt8) : Option Bool :=
  testLoop random input bf.filterSize bf.filter bf.hfList

/-- mirrors detectionmodules/countmodule/bloomfilter.cpp:144-155 -/
def testBeforeInsert (random : Rng) (bf : BloomFilter) (input : List UInt8) :
    Option (Bool × BloomFilter) := do
  let (result, filter) ← testBeforeInsertLoop random input bf.filterSize true bf.filter bf.hfList
  some (result, { bf with filter := filter })

/-- The answers to keys that come one after the other. -/
def testAll (random : Rng) (bf : BloomFilter) : List (List UInt8) → Option (List Bool × BloomFilter)
  | [] => some ([], bf)
  | input :: inputs => do
    let (known, bf) ← bf.testBeforeInsert random input
    let (answers, bf) ← bf.testAll random inputs
    some (known :: answers, bf)

/-- The filter has a size, and memory for it; or no use for them. -/
def Works (bf : BloomFilter) : Prop :=
  bf.hfList ≠ [] → 0 < bf.filterSize ∧ bf.filter.lenBits = bf.filterSize ∧ bf.filter.Sized

/-- The bits of a key. -/
def bits (random : Rng) (bf : BloomFilter) (input : List UInt8) : List Nat :=
  bf.hfList.map (bitOf random input bf.filterSize)

section Specs

variable {random : Rng} {input : List UInt8} {size : UInt32} {b : Bitmap} {bf : BloomFilter}

theorem testLoop_eq (hpos : 0 < size) (hlen : b.lenBits = size) (hb : b.Sized)
    (seeds : List UInt32) :
    testLoop random input size b seeds =
      some ((seeds.map (bitOf random input size)).all b.bit) := by
  induction seeds with
  | nil => rfl
  | cons seed seeds ih =>
    obtain ⟨index, hhash, hlt, hbit⟩ := @hashU_spec random input size seed hpos
    have htest := Bitmap.test_eq hb (hlen ▸ hlt)
    simp only [testLoop, hhash, htest, Option.bind_eq_bind, Option.bind_some, ih, List.map_cons,
      List.all_cons, hbit]
    cases b.bit (bitOf random input size seed) <;> rfl

theorem insertLoop_spec (hpos : 0 < size) (hlen : b.lenBits = size) (hb : b.Sized)
    (seeds : List UInt32) :
    ∃ b', insertLoop random input size b seeds = some b' ∧ b'.lenBits = size ∧ b'.Sized ∧
      ∀ n, b'.bit n = (decide (n ∈ seeds.map (bitOf random input size)) || b.bit n) := by
  induction seeds generalizing b with
  | nil => exact ⟨b, rfl, hlen, hb, fun n => by simp⟩
  | cons seed seeds ih =>
    obtain ⟨index, hhash, hlt, hbit⟩ := @hashU_spec random input size seed hpos
    obtain ⟨b1, hset, hlen1, hb1, hbits1⟩ := Bitmap.set_spec hb (hlen ▸ hlt)
    obtain ⟨b', hloop, hlen', hb', hbits⟩ := ih (hlen1.trans hlen) hb1
    refine ⟨b', ?_, hlen', hb', fun n => ?_⟩
    · simp [insertLoop, hhash, hset, hloop]
    · rw [hbits, hbits1, hbit]
      by_cases hn : n = bitOf random input size seed <;> simp [hn]

/-- A bit that was set for an earlier seed makes no difference: it was tested then. -/
theorem testBeforeInsertLoop_eq (hpos : 0 < size) (hlen : b.lenBits = size) (hb : b.Sized)
    (result : Bool) (seeds : List UInt32) :
    testBeforeInsertLoop random input size result b seeds =
      (insertLoop random input size b seeds).map
        ((result && (seeds.map (bitOf random input size)).all b.bit), ·) := by
  induction seeds generalizing b result with
  | nil => simp [testBeforeInsertLoop, insertLoop]
  | cons seed seeds ih =>
    obtain ⟨index, hhash, hlt, hbit⟩ := @hashU_spec random input size seed hpos
    obtain ⟨b1, hset, hlen1, hb1, hbits1⟩ := Bitmap.set_spec hb (hlen ▸ hlt)
    have htest := Bitmap.test_eq hb (hlen ▸ hlt)
    simp only [testBeforeInsertLoop, insertLoop, hhash, hset, htest, Option.bind_eq_bind,
      Option.bind_some, ih (hlen1.trans hlen) hb1, List.map_cons, List.all_cons]
    congr 1
    funext b'
    congr 1
    rw [hbit] at hbits1 ⊢
    cases h : b.bit (bitOf random input size seed) with
    | false => simp
    | true =>
      have hsame : b1.bit = b.bit := by
        funext n
        rw [hbits1]
        by_cases hn : n = bitOf random input size seed <;> simp [hn, h]
      simp [hsame]

theorem test_eq (h : bf.Works) :
    bf.test random input = some ((bf.bits random input).all bf.filter.bit) := by
  by_cases hne : bf.hfList = []
  · simp [test, bits, hne, testLoop]
  · obtain ⟨hpos, hlen, hb⟩ := h hne
    exact testLoop_eq hpos hlen hb bf.hfList

theorem insert_spec (h : bf.Works) :
    ∃ bf', bf.insert random input = some bf' ∧ bf'.Works ∧ bf'.filterSize = bf.filterSize ∧
      bf'.hfList = bf.hfList ∧
      ∀ n, bf'.filter.bit n = (decide (n ∈ bf.bits random input) || bf.filter.bit n) := by
  by_cases hne : bf.hfList = []
  · refine ⟨bf, ?_, h, rfl, rfl, fun n => by simp [bits, hne]⟩
    cases bf
    simp_all [insert, insertLoop]
  · obtain ⟨hpos, hlen, hb⟩ := h hne
    obtain ⟨b', hloop, hlen', hb', hbits⟩ :=
      @insertLoop_spec random input _ _ hpos hlen hb bf.hfList
    exact ⟨{ bf with filter := b' }, by simp [insert, hloop], fun _ => ⟨hpos, hlen', hb'⟩,
      rfl, rfl, hbits⟩

/-- `testBeforeInsert` answers like `test`, and leaves what `insert` leaves. -/
theorem testBeforeInsert_eq (h : bf.Works) :
    bf.testBeforeInsert random input =
      (bf.insert random input).map ((bf.bits random input).all bf.filter.bit, ·) := by
  by_cases hne : bf.hfList = []
  · simp [testBeforeInsert, testBeforeInsertLoop, insert, insertLoop, bits, hne]
  · obtain ⟨hpos, hlen, hb⟩ := h hne
    obtain ⟨b', hloop, -⟩ := @insertLoop_spec random input _ _ hpos hlen hb bf.hfList
    simp [testBeforeInsert, insert, testBeforeInsertLoop_eq hpos hlen hb, hloop, bits]

theorem testBeforeInsert_spec (h : bf.Works) :
    ∃ bf', bf.testBeforeInsert random input = some ((bf.bits random input).all bf.filter.bit, bf') ∧
      bf'.Works ∧ bf'.filterSize = bf.filterSize ∧ bf'.hfList = bf.hfList ∧
      ∀ n, bf'.filter.bit n = (decide (n ∈ bf.bits random input) || bf.filter.bit n) := by
  obtain ⟨bf', hinsert, hrest⟩ := @insert_spec random input bf h
  exact ⟨bf', by rw [testBeforeInsert_eq h, hinsert, Option.map_some], hrest⟩

theorem lt_of_mem_bits (h : bf.Works) {n : Nat} (hn : n ∈ bf.bits random input) :
    n < bf.filterSize.toNat := by
  obtain ⟨seed, hseed, rfl⟩ := List.mem_map.mp hn
  have hpos := (h (List.ne_nil_of_mem hseed)).1
  obtain ⟨index, -, hlt, heq⟩ := @hashU_spec random input bf.filterSize seed hpos
  exact heq ▸ hlt

/-- Without a size or without memory, the first hash function is the end. -/
theorem testBeforeInsert_none (hne : bf.hfList ≠ [])
    (h : bf.filterSize = 0 ∨ (bf.filter.lenBits = bf.filterSize ∧ bf.filter.bitmap = [])) :
    bf.testBeforeInsert random input = none := by
  obtain ⟨seed, seeds, hseeds⟩ := List.exists_cons_of_ne_nil hne
  have hloop : testBeforeInsertLoop random input bf.filterSize true bf.filter bf.hfList = none := by
    rw [hseeds, testBeforeInsertLoop]
    by_cases h0 : bf.filterSize = 0
    · simp [hashU, h0]
    · obtain ⟨hlen, hempty⟩ := h.resolve_left h0
      have hpos : 0 < bf.filterSize := UInt32.pos_iff_ne_zero.mpr h0
      obtain ⟨index, hhash, hlt, -⟩ := @hashU_spec random input bf.filterSize seed hpos
      simp [hhash, Bitmap.test, hlen, hlt, hempty]
  simp [testBeforeInsert, hloop]

theorem length_testAll {inputs : List (List UInt8)} {answers : List Bool} {bf' : BloomFilter}
    (h : bf.testAll random inputs = some (answers, bf')) : answers.length = inputs.length := by
  induction inputs generalizing bf answers with
  | nil => cases h; rfl
  | cons input inputs ih =>
    obtain ⟨⟨known, bf1⟩, -, h⟩ := Option.bind_eq_some_iff.mp h
    obtain ⟨⟨answers1, bf2⟩, hall, h⟩ := Option.bind_eq_some_iff.mp h
    cases h
    rw [List.length_cons, List.length_cons, ih hall]

theorem works_clear : bf.clear.Works ↔ bf.Works := by
  simp [Works, clear]

/-- With hash functions, a filter of a positive size works unless its size is within 7 of 2^32. -/
theorem works_init {seeds : List UInt32} (hpos : 0 < size) :
    (init size seeds).Works ↔ (seeds ≠ [] → size.toNat + 7 < 2 ^ 32) := by
  rw [← Bitmap.sized_resize hpos]
  simp [Works, init, hpos, Bitmap.resize]

end Specs

end BloomFilter

end Topas
