import Topas.L6Count.BloomFilter

/-!
# Histories of a Bloom filter

What holds of a filter after any sequence of calls of `insert`, `testBeforeInsert` and `clear`.

* `Represents`: the bits that are set are those of the keys that were inserted since the last
  `clear`.
* `serves_iff`: the filter does what its comments say, for every history and every key, exactly if
  it has no hash functions or memory for its bits.
-/
namespace Topas.BloomFilter

open HashFunctions

/-- What `hashU` reads of a key: it takes the length as a `uint16_t`. -/
def hashed (input : List UInt8) : List UInt8 := input.take (input.length % 65536)

inductive FilterOp where
  | insert (input : List UInt8)
  | testBeforeInsert (input : List UInt8)
  | clear
  deriving DecidableEq, Repr

/-- The filter after a call; the answer of `testBeforeInsert` is dropped. -/
def FilterOp.apply (random : Rng) (bf : BloomFilter) : FilterOp → Option BloomFilter
  | insert input => bf.insert random (hashed input)
  | testBeforeInsert input => (bf.testBeforeInsert random (hashed input)).map Prod.snd
  | clear => some bf.clear

/-- The filter after some calls, `none` where one of them leaves the filter's memory. -/
def runOps (random : Rng) (bf : BloomFilter) : List FilterOp → Option BloomFilter
  | [] => some bf
  | op :: ops => do
    let bf ← op.apply random bf
    runOps random bf ops

/-- The keys that were inserted since the last `clear`, if `keys` were before. -/
def inserted (keys : List (List UInt8)) : List FilterOp → List (List UInt8)
  | [] => keys
  | .insert input :: ops => inserted (keys ++ [input]) ops
  | .testBeforeInsert input :: ops => inserted (keys ++ [input]) ops
  | .clear :: ops => inserted [] ops

/-- A filter that works, and whose bits are those of `keys`. -/
structure Represents (random : Rng) (size : UInt32) (seeds : List UInt32) (keys : List (List UInt8))
    (bf : BloomFilter) : Prop where
  works : bf.Works
  filterSize : bf.filterSize = size
  hfList : bf.hfList = seeds
  bit : ∀ n, bf.filter.bit n = true ↔ ∃ input ∈ keys, n ∈ bf.bits random (hashed input)

section Represents

variable {random : Rng} {size : UInt32} {seeds : List UInt32} {keys : List (List UInt8)}
  {bf bf' : BloomFilter}

theorem represents_init (hpos : 0 < size) (h : seeds ≠ [] → size.toNat + 7 < 2 ^ 32) :
    (init size seeds).Represents random size seeds [] := by
  refine ⟨(works_init hpos).mpr h, rfl, rfl, fun n => ?_⟩
  have hzero : (init size seeds).filter = (init size seeds).filter.clear := by
    simp [init, Bitmap.clear, Bitmap.resize]
  rw [hzero, Bitmap.bit_clear]
  simp

theorem Represents.insert (h : bf.Represents random size seeds keys) (input : List UInt8) :
    ∃ bf', bf.insert random (hashed input) = some bf' ∧
      bf'.Represents random size seeds (keys ++ [input]) := by
  obtain ⟨bf', hinsert, hworks, hsize, hlist, hbits⟩ :=
    @insert_spec random (hashed input) bf h.works
  have hsame : ∀ input, bf'.bits random input = bf.bits random input := fun input => by
    rw [bits, bits, hsize, hlist]
  refine ⟨bf', hinsert, hworks, hsize.trans h.filterSize, hlist.trans h.hfList, fun n => ?_⟩
  rw [hbits, Bool.or_eq_true, decide_eq_true_eq, h.bit]
  simp only [hsame, List.mem_append, List.mem_singleton, or_and_right, exists_or, exists_eq_left]
  exact or_comm

theorem Represents.clear (h : bf.Represents random size seeds keys) :
    bf.clear.Represents random size seeds [] := by
  refine ⟨works_clear.mpr h.works, h.filterSize, h.hfList, fun n => ?_⟩
  show bf.filter.clear.bit n = true ↔ _
  simp

theorem Represents.apply (h : bf.Represents random size seeds keys) (op : FilterOp) :
    ∃ bf', op.apply random bf = some bf' ∧
    bf'.Represents random size seeds (inserted keys [op]) := by
  cases op with
  | insert input => exact h.insert input
  | testBeforeInsert input =>
    obtain ⟨bf', hinsert, h'⟩ := h.insert input
    refine ⟨bf', ?_, h'⟩
    rw [FilterOp.apply, testBeforeInsert_eq h.works, hinsert]
    rfl
  | clear => exact ⟨bf.clear, rfl, h.clear⟩

theorem inserted_cons (op : FilterOp) (ops : List FilterOp) :
    inserted keys (op :: ops) = inserted (inserted keys [op]) ops := by
  cases op <;> rfl

/-- After any calls, the bits are those of the keys since the last `clear`. -/
theorem Represents.run (h : bf.Represents random size seeds keys) (ops : List FilterOp) :
    ∃ bf', bf.runOps random ops = some bf' ∧
    bf'.Represents random size seeds (inserted keys ops) := by
  induction ops generalizing bf keys with
  | nil => exact ⟨bf, rfl, h⟩
  | cons op ops ih =>
    obtain ⟨bf1, happly, h1⟩ := h.apply op
    obtain ⟨bf', hrun, h'⟩ := ih h1
    refine ⟨bf', ?_, inserted_cons op ops ▸ h'⟩
    simp only [runOps, happly, Option.bind_eq_bind, Option.bind_some, hrun]

/-- Every key that was inserted tests positive. -/
theorem Represents.test (h : bf.Represents random size seeds keys) {input : List UInt8}
    (hin : input ∈ keys) : bf.test random (hashed input) = some true := by
  rw [test_eq h.works]
  simp only [Option.some.injEq, List.all_eq_true]
  exact fun n hn => (h.bit n).mpr ⟨input, hin, hn⟩

end Represents

/-! ## A filter without memory -/

/-- The filter has a size and hash functions, and not one octet. -/
structure Bare (bf : BloomFilter) : Prop where
  pos : 0 < bf.filterSize
  hfList : bf.hfList ≠ []
  lenBits : bf.filter.lenBits = bf.filterSize
  bitmap : bf.filter.bitmap = []

section Bare

variable {random : Rng} {size : UInt32} {seeds : List UInt32} {bf bf' : BloomFilter}

theorem bare_init (hpos : 0 < size) (hseeds : seeds ≠ []) (h : ¬ size.toNat + 7 < 2 ^ 32) :
    (init size seeds).Bare := ⟨hpos, hseeds, rfl, Bitmap.resize_empty h⟩

theorem Bare.testBeforeInsert (h : bf.Bare) (input : List UInt8) :
    bf.testBeforeInsert random input = none :=
  testBeforeInsert_none h.hfList (.inr ⟨h.lenBits, h.bitmap⟩)

theorem Bare.insert (h : bf.Bare) (input : List UInt8) : bf.insert random input = none := by
  obtain ⟨seed, seeds, hseeds⟩ := List.exists_cons_of_ne_nil h.hfList
  obtain ⟨index, hhash, hlt, -⟩ := @hashU_spec random input bf.filterSize seed h.pos
  have hlen := h.lenBits
  have hempty := h.bitmap
  simp [BloomFilter.insert, hseeds, insertLoop, hhash, Bitmap.set, hlen, hlt, hempty]

theorem Bare.clear (h : bf.Bare) : bf.clear.Bare := by
  refine ⟨h.pos, h.hfList, h.lenBits, ?_⟩
  have hlen := bf.filter.length_bitmap
  rw [h.bitmap] at hlen
  exact (List.replicate_eq_nil_iff _).mpr hlen.symm

/-- Nothing but `clear` comes back. -/
theorem Bare.run (h : bf.Bare) {ops : List FilterOp} (hr : bf.runOps random ops = some bf') :
    bf'.Bare := by
  induction ops generalizing bf with
  | nil => exact Option.some.inj hr ▸ h
  | cons op ops ih =>
    obtain ⟨bf1, happly, hr⟩ := Option.bind_eq_some_iff.mp hr
    cases op with
    | insert input =>
      rw [FilterOp.apply, h.insert] at happly
      cases happly
    | testBeforeInsert input =>
      rw [FilterOp.apply, h.testBeforeInsert] at happly
      cases happly
    | clear =>
      cases happly
      exact ih h.clear hr

end Bare

/-! ## The result -/

/-- After the calls `ops`: `testBeforeInsert` answers what `test` would have answered, and leaves
what `insert` would have left; every key inserted since the last `clear` tests positive; and every
index is below the size. -/
def Serves (random : Rng) (size : UInt32) (seeds : List UInt32) (ops : List FilterOp)
    (input : List UInt8) : Prop :=
  ∃ bf answer bf', (init size seeds).runOps random ops = some bf ∧
    bf.test random (hashed input) = some answer ∧ bf.insert random (hashed input) = some bf' ∧
    bf.testBeforeInsert random (hashed input) = some (answer, bf') ∧
    (∀ key ∈ inserted [] ops, bf.test random (hashed key) = some true) ∧
    ∀ seed ∈ seeds, ∃ index, hashU random (hashed input) size seed = some index ∧ index < size

/-- The filter serves exactly if there are no hash functions, or the size is at most 2^32 - 8. -/
theorem serves_iff {size : UInt32} (hpos : 0 < size) (random : Rng) (seeds : List UInt32)
    (ops : List FilterOp) (input : List UInt8) :
    Serves random size seeds ops input ↔ seeds = [] ∨ size.toNat ≤ 2 ^ 32 - 8 := by
  refine ⟨fun h => ?_, fun h => ?_⟩
  · by_cases hseeds : seeds = []
    · exact .inl hseeds
    · obtain ⟨bf, answer, bf', hrun, -, -, htest, -⟩ := h
      refine .inr (Classical.byContradiction fun hsize => ?_)
      have hbare := (bare_init hpos hseeds (by omega)).run hrun
      rw [hbare.testBeforeInsert] at htest
      cases htest
  · have hwork : seeds ≠ [] → size.toNat + 7 < 2 ^ 32 := fun hne => by
      have := h.resolve_left hne
      omega
    obtain ⟨bf, hrun, hbf⟩ := (@represents_init random size seeds hpos hwork).run ops
    obtain ⟨bf', hinsert, -⟩ := hbf.insert input
    refine ⟨bf, _, bf', hrun, test_eq hbf.works, hinsert, ?_, fun key hkey => hbf.test hkey,
      fun seed _ => ?_⟩
    · rw [testBeforeInsert_eq hbf.works, hinsert]
      rfl
    · obtain ⟨index, hhash, hlt, -⟩ := @hashU_spec random (hashed input) size seed hpos
      exact ⟨index, hhash, hlt⟩

/-- Three hash functions with one index. -/
theorem serves_iff_coinciding :
    Serves (fun _ _ => 3) 16 [1, 1, 1] [.insert [4], .clear, .testBeforeInsert [5]] [6] :=
  (serves_iff (by decide) _ _ _ _).mpr (.inr (by decide))

/-- **Counterexample**: a filter of 2^32 - 1 bits; the first test is outside of its memory. -/
theorem serves_not :
    (init 4294967295 [1]).test (fun _ _ => 3) (hashed [6]) = none ∧
      ¬ ∀ (size : UInt32) (seeds : List UInt32), 0 < size →
      Serves (fun _ _ => 3) size seeds [] [6] := by
  have hbare : (init 4294967295 [1]).Bare := bare_init (by decide) (by decide) (by decide)
  refine ⟨by decide, fun hall => ?_⟩
  obtain ⟨bf, answer, bf', hrun, -, -, htest, -⟩ := hall 4294967295 [1] (by decide)
  rw [(hbare.run hrun).testBeforeInsert] at htest
  cases htest

end Topas.BloomFilter
