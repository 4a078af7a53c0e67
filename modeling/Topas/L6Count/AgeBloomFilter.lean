import Topas.L6Count.Insertions

/-!
# The Bloom filter that remembers times

`countmodule/agebloomfilter.cpp`. A key sets one cell for each hash function to the time of the
call, and the time of a key is the cell that is furthest back. A time is a `uint16_t`, and 0 is
that of a cell that was never set.

* `Dated`: every cell holds the latest time of the calls that set it.
* `getAndSetLastTime_eq`: in every state the setting call answers what `getLastTime` would have
  answered before it.
* `dates_iff`: the answer is at or after the key's last time exactly if the key was never set, or
  one of its cells was not set at the time of the question. Else the answer is 0.
-/
namespace Topas

/-- `array` is the allocated memory. -/
structure AgeArray where
  array : List UInt16
  arraySize : UInt32
  length_array : array.length = arraySize.toNat
  deriving DecidableEq, Repr

namespace AgeArray

/-- mirrors detectionmodules/countmodule/agebloomfilter.cpp:21-27 -/
def resize (size : UInt32) : AgeArray where
  array := List.replicate size.toNat 0
  arraySize := size
  length_array := List.length_replicate

/-- mirrors detectionmodules/countmodule/agebloomfilter.cpp:29-32 -/
def clear (a : AgeArray) : AgeArray :=
  { a with array := List.replicate a.arraySize.toNat 0, length_array := List.length_replicate }

/-- mirrors detectionmodules/countmodule/agebloomfilter.cpp:43-49 -/
def get (a : AgeArray) (index : UInt32) : UInt16 :=
  if index < a.arraySize then a.array.getD index.toNat 0 else 0

/-- Only the read checks the index: `none` is a write outside of the memory.
mirrors detectionmodules/countmodule/agebloomfilter.cpp:34-41 -/
def getAndSet (a : AgeArray) (index : UInt32) (time : UInt16) : Option (UInt16 × AgeArray) :=
  if index.toNat < a.array.length then
    some (a.get index, { a with
      array := a.array.set index.toNat time
      length_array := List.length_set.trans a.length_array })
  else none

/-- Cell number `n`. -/
def cell (a : AgeArray) (n : Nat) : UInt16 := a.array.getD n 0

variable {a : AgeArray} {index : UInt32} {time : UInt16}

@[simp] theorem cell_resize (size : UInt32) (n : Nat) : (resize size).cell n = 0 := by
  simp [cell, resize, List.getD_eq_getElem?_getD, List.getElem?_replicate]
  split <;> simp

@[simp] theorem cell_clear (a : AgeArray) (n : Nat) : a.clear.cell n = 0 :=
    cell_resize a.arraySize n

theorem get_eq (h : index < a.arraySize) : a.get index = a.cell index.toNat := if_pos h

theorem getAndSet_spec (h : index < a.arraySize) (time : UInt16) :
    ∃ a', a.getAndSet index time = some (a.cell index.toNat, a') ∧ a'.arraySize = a.arraySize ∧
      ∀ n, a'.cell n = if n = index.toNat then time else a.cell n := by
  have hlt : index.toNat < a.array.length := a.length_array ▸ h
  have hset : a.getAndSet index time = some (a.cell index.toNat, { a with
      array := a.array.set index.toNat time
      length_array := List.length_set.trans a.length_array }) := by
    rw [getAndSet, if_pos hlt, get_eq h]
  refine ⟨_, hset, rfl, fun n => ?_⟩
  by_cases hn : n = index.toNat
  · simp [cell, hn, List.getD_eq_getElem?_getD, hlt]
  · simp [cell, hn, List.getD_eq_getElem?_getD, List.getElem?_set_ne (Ne.symm hn)]

end AgeArray

/-- `hfList` are the seeds; `hf_number` is their number. -/
structure AgeBloomFilter where
  filter : AgeArray
  filterSize : UInt32
  hfList : List UInt32
  deriving DecidableEq, Repr

namespace AgeBloomFilter

open HashFunctions
open BloomFilter (hashed)

/-- `seeds` are what `rand` returns, once for each hash function.
mirrors detectionmodules/countmodule/agebloomfilter.cpp:61-67 -/
def init (size : UInt32) (seeds : List UInt32) : AgeBloomFilter := ⟨.resize size, size, seeds⟩

/-- mirrors detectionmodules/countmodule/agebloomfilter.cpp:69-72 -/
def clear (bf : AgeBloomFilter) : AgeBloomFilter := { bf with filter := bf.filter.clear }

/-- `ret` and `maxdiff` after a cell with the value `current`. -/
def further (time : UInt16) (best : UInt16 × UInt16) (current : UInt16) : UInt16 × UInt16 :=
  if time - current > best.2 then (current, time - current) else best

section Loops

variable (random : Rng) (input : List UInt8) (filterSize : UInt32) (time : UInt16)

def getLoop (filter : AgeArray) (best : UInt16 × UInt16) : List UInt32 → Option UInt16
  | [] => some best.1
  | seed :: seeds => do
    let index ← hashU random input filterSize seed
    getLoop filter (further time best (filter.get index)) seeds

def getAndSetLoop (filter : AgeArray) (best : UInt16 × UInt16) :
    List UInt32 → Option (UInt16 × AgeArray)
  | [] => some (best.1, filter)
  | seed :: seeds => do
    let index ← hashU random input filterSize seed
    let (current, filter) ← filter.getAndSet index time
    getAndSetLoop filter (further time best current) seeds

end Loops

/-- mirrors detectionmodules/countmodule/agebloomfilter.cpp:74-89 -/
def getLastTime (random : Rng) (bf : AgeBloomFilter) (input : List UInt8) (time : UInt16) :
    Option UInt16 :=
  getLoop random input bf.filterSize time bf.filter (0, 0) bf.hfList

/-- mirrors detectionmodules/countmodule/agebloomfilter.cpp:91-106 -/
def getAndSetLastTime (random : Rng) (bf : AgeBloomFilter) (input : List UInt8) (time : UInt16) :
    Option (UInt16 × AgeBloomFilter) := do
  let (ret, filter) ← getAndSetLoop random input bf.filterSize time bf.filter (0, 0) bf.hfList
  some (ret, { bf with filter := filter })

/-! ## The cell that is furthest back -/

section Further

variable {time current : UInt16} {best : UInt16 × UInt16} {cells : List UInt16}

/-- A cell that holds the time of the call changes nothing. -/
@[simp] theorem further_self (time : UInt16) (best : UInt16 × UInt16) :
    further time best time = best := by
  simp [further]

theorem further_le (time : UInt16) (best : UInt16 × UInt16) (current : UInt16) :
    best.2 ≤ (further time best current).2 ∧ time - current ≤ (further time best current).2 := by
  unfold further
  split <;> rename_i h
  · exact ⟨UInt16.le_of_lt h, UInt16.le_refl _⟩
  · exact ⟨UInt16.le_refl _, UInt16.not_lt.mp h⟩

/-- A cell that is not further back than the one found. -/
theorem further_of_le (h : time - current ≤ best.2) : further time best current = best :=
  if_neg (UInt16.not_lt.mpr h)

theorem le_foldl_further (time : UInt16) (cells : List UInt16) (best : UInt16 × UInt16) :
    best.2 ≤ (cells.foldl (further time) best).2 ∧
      ∀ current ∈ cells, time - current ≤ (cells.foldl (further time) best).2 := by
  induction cells generalizing best with
  | nil => simp
  | cons c cells ih =>
    obtain ⟨hbest, hc⟩ := further_le time best c
    obtain ⟨hle, hcells⟩ := ih (further time best c)
    simp only [List.foldl_cons, List.mem_cons, forall_eq_or_imp]
    exact ⟨UInt16.le_trans hbest hle, UInt16.le_trans hc hle, hcells⟩

/-- What is found is one of the cells, unless it is what one started with. -/
theorem foldl_further_mem (time : UInt16) (cells : List UInt16) (best : UInt16 × UInt16) :
    cells.foldl (further time) best = best ∨ (cells.foldl (further time) best).1 ∈ cells := by
  induction cells generalizing best with
  | nil => exact .inl rfl
  | cons c cells ih =>
    rw [List.foldl_cons]
    rcases ih (further time best c) with h | hmem
    · rw [h]
      unfold further
      split
      · exact .inr List.mem_cons_self
      · exact .inl rfl
    · exact .inr (List.mem_cons_of_mem c hmem)

/-- Where every cell holds the time of the call, the answer is 0. -/
theorem foldl_further_eq_zero (h : ∀ c ∈ cells, c = time) :
    cells.foldl (further time) (0, 0) = (0, 0) := by
  induction cells with
  | nil => rfl
  | cons c cells ih =>
    simp only [List.mem_cons, forall_eq_or_imp] at h
    rw [List.foldl_cons, h.1, further_self, ih h.2]

theorem foldl_further_mem_of_ne (hmem : current ∈ cells) (hne : current ≠ time) :
    (cells.foldl (further time) (0, 0)).1 ∈ cells := by
  rcases foldl_further_mem time cells (0, 0) with h | h
  · have hle := (le_foldl_further time cells (0, 0)).2 current hmem
    rw [h] at hle
    have hzero : time - current = 0 := UInt16.le_zero_iff.mp hle
    exact absurd (by simpa using (UInt16.sub_eq_iff_eq_add.mp hzero).symm) hne
  · exact h

/-- Cells that were seen may be set to the time of the call while the others are still read. -/
theorem foldl_further_set {cell cell' : Nat → UInt16} {ns : List Nat} {best : UInt16 × UInt16}
    (h : ∀ n, cell' n = cell n ∨ cell' n = time ∧ time - cell n ≤ best.2) :
    (ns.map cell').foldl (further time) best = (ns.map cell).foldl (further time) best := by
  induction ns generalizing best with
  | nil => rfl
  | cons n ns ih =>
    have hnext : further time best (cell' n) = further time best (cell n) := by
      rcases h n with heq | ⟨heq, hle⟩
      · rw [heq]
      · rw [heq, further_self, further_of_le hle]
    simp only [List.map_cons, List.foldl_cons, hnext]
    refine ih fun m => (h m).imp_right fun ⟨heq, hle⟩ => ⟨heq, ?_⟩
    exact UInt16.le_trans hle (further_le time best (cell n)).1

end Further

/-! ## One call -/

/-- The cells of a key. -/
def bits (random : Rng) (bf : AgeBloomFilter) (input : List UInt8) : List Nat :=
  bf.hfList.map (bitOf random input bf.filterSize)

/-- The filter has a size, and as many cells. -/
structure Works (bf : AgeBloomFilter) : Prop where
  pos : 0 < bf.filterSize
  arraySize : bf.filter.arraySize = bf.filterSize

section Calls

variable {random : Rng} {input : List UInt8} {filterSize : UInt32} {time : UInt16}

theorem getLoop_eq (hpos : 0 < filterSize) {filter : AgeArray}
    (hsize : filter.arraySize = filterSize) (best : UInt16 × UInt16) (seeds : List UInt32) :
    getLoop random input filterSize time filter best seeds = some
      (((seeds.map (bitOf random input filterSize)).map filter.cell).foldl
        (further time) best).1 := by
  induction seeds generalizing best with
  | nil => rfl
  | cons seed seeds ih =>
    obtain ⟨index, hhash, hlt, hbit⟩ := @hashU_spec random input filterSize seed hpos
    have hget : filter.get index = filter.cell (bitOf random input filterSize seed) :=
      hbit ▸ AgeArray.get_eq (hsize ▸ hlt)
    simp [getLoop, hhash, hget, ih]

/-- The cells that the loop has set are not further back than those it has seen. -/
theorem getAndSetLoop_eq (random : Rng) (input : List UInt8) (time : UInt16) (hpos : 0 < filterSize)
    (seeds : List UInt32) {filter : AgeArray} (hsize : filter.arraySize = filterSize)
    (best : UInt16 × UInt16) :
    ∃ filter', getAndSetLoop random input filterSize time filter best seeds = some
        ((((seeds.map (bitOf random input filterSize)).map filter.cell).foldl
          (further time) best).1,
          filter') ∧
      filter'.arraySize = filterSize ∧
      ∀ n, filter'.cell n =
        if n ∈ seeds.map (bitOf random input filterSize) then time else filter.cell n := by
  induction seeds generalizing filter best with
  | nil => exact ⟨filter, rfl, hsize, fun n => by simp⟩
  | cons seed seeds ih =>
    obtain ⟨index, hhash, hlt, hbit⟩ := @hashU_spec random input filterSize seed hpos
    obtain ⟨filter1, hset, hsize1, hcell1⟩ := AgeArray.getAndSet_spec (hsize ▸ hlt) time
    obtain ⟨filter', hloop, hsize', hcell'⟩ :=
      ih (hsize1.trans hsize) (further time best (filter.cell index.toNat))
    have hseen : ∀ n, filter1.cell n = filter.cell n ∨ filter1.cell n = time ∧
        time - filter.cell n ≤ (further time best (filter.cell index.toNat)).2 := fun n => by
      rw [hcell1]
      by_cases hn : n = index.toNat
      · exact .inr ⟨if_pos hn, hn ▸ (further_le time best (filter.cell n)).2⟩
      · exact .inl (if_neg hn)
    refine ⟨filter', ?_, hsize', fun n => ?_⟩
    · rw [foldl_further_set hseen, hbit] at hloop
      simp [getAndSetLoop, hhash, hset, hbit, hloop]
    · rw [hcell', hcell1, hbit]
      by_cases hn : n = bitOf random input filterSize seed <;> simp [hn]

theorem getLastTime_eq {bf : AgeBloomFilter} (h : bf.Works) :
    bf.getLastTime random input time = some
      (((bf.bits random input).map bf.filter.cell).foldl (further time) (0, 0)).1 :=
  getLoop_eq h.pos h.arraySize (0, 0) bf.hfList

/-- The call that sets a key answers what `getLastTime` would have answered before it. -/
theorem getAndSetLastTime_eq (random : Rng) (input : List UInt8) (time : UInt16)
    {bf : AgeBloomFilter} (h : bf.Works) :
    ∃ ret bf', bf.getLastTime random input time = some ret ∧
      bf.getAndSetLastTime random input time = some (ret, bf') ∧ bf'.Works ∧
      bf'.filterSize = bf.filterSize ∧ bf'.hfList = bf.hfList ∧
      ∀ n, bf'.filter.cell n = if n ∈ bf.bits random input then time else bf.filter.cell n := by
  obtain ⟨filter, hloop, hsize, hcell⟩ :=
    getAndSetLoop_eq random input time h.pos bf.hfList h.arraySize (0, 0)
  refine ⟨_, { bf with filter := filter }, getLastTime_eq h, ?_, ⟨h.pos, hsize⟩, rfl, rfl, hcell⟩
  simp [getAndSetLastTime, hloop, bits]

end Calls

/-! ## Histories -/

/-- The filter after some calls of `getAndSetLastTime`, each with a key and a time. -/
def runSets (random : Rng) (bf : AgeBloomFilter) :
    List (List UInt8 × UInt16) → Option AgeBloomFilter
  | [] => some bf
  | (input, time) :: calls => do
    let (_, bf) ← bf.getAndSetLastTime random (hashed input) time
    runSets random bf calls

/-- The time of the last call that set `input`, 0 if there is none. -/
def lastTime (calls : List (List UInt8 × UInt16)) (input : List UInt8) : UInt16 :=
  (((calls.filter (·.1 = input)).getLast?).map Prod.snd).getD 0

/-- The calls set the times in order, and none before 1. -/
structure InOrder (calls : List (List UInt8 × UInt16)) : Prop where
  pos : ∀ call ∈ calls, 0 < call.2
  le : calls.Pairwise fun earlier later => earlier.2 ≤ later.2

/-- A filter that works, in which every cell holds the latest time of the calls that set it. -/
structure Dated (random : Rng) (size : UInt32) (seeds : List UInt32)
    (calls : List (List UInt8 × UInt16)) (bf : AgeBloomFilter) : Prop where
  works : bf.Works
  filterSize : bf.filterSize = size
  hfList : bf.hfList = seeds
  le : ∀ call ∈ calls, ∀ n ∈ bf.bits random (hashed call.1), call.2 ≤ bf.filter.cell n
  attained : ∀ n, bf.filter.cell n = 0 ∨
    ∃ call ∈ calls, n ∈ bf.bits random (hashed call.1) ∧ call.2 = bf.filter.cell n

section Histories

variable {random : Rng} {size : UInt32} {seeds : List UInt32} {calls : List (List UInt8 × UInt16)}
  {bf : AgeBloomFilter} {input : List UInt8} {time : UInt16}

theorem dated_init (hpos : 0 < size) : (init size seeds).Dated random size seeds [] where
  works := ⟨hpos, rfl⟩
  filterSize := rfl
  hfList := rfl
  le := by simp
  attained n := .inl (AgeArray.cell_resize size n)

theorem Dated.clear (h : bf.Dated random size seeds calls) :
    bf.clear.Dated random size seeds [] where
  works := ⟨h.works.pos, h.works.arraySize⟩
  filterSize := h.filterSize
  hfList := h.hfList
  le := by simp
  attained n := .inl (AgeArray.cell_clear bf.filter n)

theorem Dated.set (h : bf.Dated random size seeds calls) (hlast : ∀ call ∈ calls, call.2 ≤ time)
    (input : List UInt8) :
    ∃ ret bf', bf.getAndSetLastTime random (hashed input) time = some (ret, bf') ∧
      bf'.Dated random size seeds (calls ++ [(input, time)]) := by
  obtain ⟨ret, bf', -, hset, hworks, hsize, hlist, hcell⟩ :=
    getAndSetLastTime_eq random (hashed input) time h.works
  have hbits : ∀ input, bf'.bits random input = bf.bits random input := fun input => by
    rw [bits, bits, hsize, hlist]
  refine ⟨ret, bf', hset, hworks, hsize.trans h.filterSize, hlist.trans h.hfList, ?_, fun n => ?_⟩
  · intro call hcall n hn
    rw [hbits] at hn
    rw [hcell]
    rcases List.mem_append.mp hcall with hold | hnew
    · split
      · exact hlast call hold
      · exact h.le call hold n hn
    · obtain rfl : call = (input, time) := by simpa using hnew
      rw [if_pos hn]
      exact UInt16.le_refl _
  · rw [hcell]
    by_cases hn : n ∈ bf.bits random (hashed input)
    · exact .inr ⟨(input, time), by simp, hbits _ ▸ hn, (if_pos hn).symm⟩
    · rw [if_neg hn]
      refine (h.attained n).imp_right fun ⟨call, hcall, hset, heq⟩ => ?_
      exact ⟨call, List.mem_append_left _ hcall, hbits _ ▸ hset, heq⟩

/-- After calls in order, every cell holds the latest time of the calls that set it. -/
theorem Dated.run {more : List (List UInt8 × UInt16)} (h : bf.Dated random size seeds calls)
    (ho : InOrder (calls ++ more)) :
    ∃ bf', bf.runSets random more = some bf' ∧ bf'.Dated random size seeds (calls ++ more) := by
  induction more generalizing bf calls with
  | nil => exact ⟨bf, rfl, by simpa using h⟩
  | cons call more ih =>
    obtain ⟨input, time⟩ := call
    have hlast : ∀ call ∈ calls, call.2 ≤ time := fun call hcall =>
      (List.pairwise_append.mp ho.le).2.2 call hcall _ List.mem_cons_self
    obtain ⟨ret, bf1, hset, h1⟩ := h.set hlast input
    have happend : calls ++ (input, time) :: more = calls ++ [(input, time)] ++ more := by simp
    rw [happend] at ho ⊢
    obtain ⟨bf', hrun, h'⟩ := ih h1 ho
    exact ⟨bf', by simp [runSets, hset, hrun], h'⟩

theorem lastTime_of_not_mem (h : ∀ call ∈ calls, call.1 ≠ input) : lastTime calls input = 0 := by
  have hnone : calls.filter (·.1 = input) = [] :=
    List.filter_eq_nil_iff.mpr fun call hcall => by simpa using h call hcall
  simp [lastTime, hnone]

theorem lastTime_mem (h : ∃ call ∈ calls, call.1 = input) :
    (input, lastTime calls input) ∈ calls := by
  obtain ⟨call, hcall, hinput⟩ := h
  cases hlast : (calls.filter (·.1 = input)).getLast? with
  | none =>
    have hin : call ∈ calls.filter (·.1 = input) :=
      List.mem_filter.mpr ⟨hcall, by simpa using hinput⟩
    simp [List.getLast?_eq_none_iff.mp hlast] at hin
  | some last =>
    obtain ⟨hin, heq⟩ := List.mem_filter.mp (List.mem_of_getLast? hlast)
    obtain rfl : last.1 = input := by simpa using heq
    have htime : lastTime calls last.1 = last.2 :=
      by rw [lastTime, hlast, Option.map_some, Option.getD_some]
    rw [htime]
    exact hin

end Histories

/-! ## The result -/

/-- After the calls: the time that `getLastTime` answers is not before the last one that the key was
set at, and `getAndSetLastTime` answers the same. -/
def Dates (random : Rng) (size : UInt32) (seeds : List UInt32) (calls : List (List UInt8 × UInt16))
    (input : List UInt8) (time : UInt16) : Prop :=
  ∃ bf ret bf', (init size seeds).runSets random calls = some bf ∧
    bf.getLastTime random (hashed input) time = some ret ∧ lastTime calls input ≤ ret ∧
    bf.getAndSetLastTime random (hashed input) time = some (ret, bf')

/-- The cells of a key. -/
abbrev cellsOf (random : Rng) (size : UInt32) (seeds : List UInt32) (input : List UInt8) :
    List Nat :=
  seeds.map (bitOf random (hashed input) size)

section Dates

variable {random : Rng} {size : UInt32} {seeds : List UInt32} {calls : List (List UInt8 × UInt16)}
  {bf : AgeBloomFilter} {input : List UInt8} {time : UInt16}

theorem Dated.bits_eq (h : bf.Dated random size seeds calls) (input : List UInt8) :
    bf.bits random (hashed input) = cellsOf random size seeds input := by
  rw [bits, h.filterSize, h.hfList]

/-- A cell holds the time of the question exactly if a call set it at that time. -/
theorem Dated.cell_eq_time (h : bf.Dated random size seeds calls) (hpos : 0 < time)
    (hlast : ∀ call ∈ calls, call.2 ≤ time) (n : Nat) :
    bf.filter.cell n = time ↔ ∃ call ∈ calls, call.2 = time ∧
    n ∈ cellsOf random size seeds call.1 := by
  refine ⟨fun heq => ?_, fun ⟨call, hcall, htime, hn⟩ => ?_⟩
  · rcases h.attained n with hzero | ⟨call, hcall, hn, hset⟩
    · exact absurd (heq.symm.trans hzero ▸ hpos) (UInt16.lt_irrefl 0)
    · exact ⟨call, hcall, hset.trans heq, h.bits_eq call.1 ▸ hn⟩
  · refine UInt16.le_antisymm ?_ (htime ▸ h.le call hcall n ((h.bits_eq call.1).symm ▸ hn))
    rcases h.attained n with hzero | ⟨other, hother, -, hset⟩
    · exact hzero ▸ UInt16.zero_le
    · exact hset ▸ hlast other hother

/-- All cells of a key are at or after its last time. -/
theorem Dated.lastTime_le (h : bf.Dated random size seeds calls)
    (hset : ∃ call ∈ calls, call.1 = input) {c : UInt16}
    (hc : c ∈ (bf.bits random (hashed input)).map bf.filter.cell) : lastTime calls input ≤ c := by
  obtain ⟨n, hn, rfl⟩ := List.mem_map.mp hc
  exact h.le _ (lastTime_mem hset) n hn

/-- For a key that was set, the answer is right exactly if one of its cells was not set now. -/
theorem Dated.lastTime_le_iff (h : bf.Dated random size seeds calls) (ho : InOrder calls)
    (hlast : ∀ call ∈ calls, call.2 ≤ time) (hset : ∃ call ∈ calls, call.1 = input) :
    lastTime calls input ≤
        (((bf.bits random (hashed input)).map bf.filter.cell).foldl (further time) (0, 0)).1 ↔
      ∃ n ∈ cellsOf random size seeds input,
        ∀ call ∈ calls, call.2 = time → n ∉ cellsOf random size seeds call.1 := by
  have hpos : 0 < lastTime calls input := ho.pos _ (lastTime_mem hset)
  have htime : 0 < time := UInt16.lt_of_lt_of_le hpos (hlast _ (lastTime_mem hset))
  refine ⟨fun hle => Classical.byContradiction fun hall => ?_, fun ⟨n, hn, hnot⟩ => ?_⟩
  · have hcells : ∀ c ∈ (bf.bits random (hashed input)).map bf.filter.cell, c = time :=
        fun c hc => by
      obtain ⟨n, hn, rfl⟩ := List.mem_map.mp hc
      rw [h.bits_eq] at hn
      refine (h.cell_eq_time htime hlast n).mpr
        (Classical.byContradiction fun hno => hall ⟨n, hn, ?_⟩)
      exact fun call hcall heq hmem => hno ⟨call, hcall, heq, hmem⟩
    rw [foldl_further_eq_zero hcells] at hle
    exact absurd (UInt16.lt_of_lt_of_le hpos hle) (UInt16.lt_irrefl 0)
  · have hne : bf.filter.cell n ≠ time := fun heq => by
      obtain ⟨call, hcall, heq, hmem⟩ := (h.cell_eq_time htime hlast n).mp heq
      exact hnot call hcall heq hmem
    rw [← h.bits_eq] at hn
    exact h.lastTime_le hset (foldl_further_mem_of_ne (List.mem_map_of_mem hn) hne)

end Dates

/-- The answers are right exactly if the key was never set, or one of its cells was not set at the
time of the question. -/
theorem dates_iff {size : UInt32} (hsize : 0 < size) (random : Rng) (seeds : List UInt32)
    {calls : List (List UInt8 × UInt16)} (ho : InOrder calls) (input : List UInt8) {time : UInt16}
    (hlast : ∀ call ∈ calls, call.2 ≤ time) :
    Dates random size seeds calls input time ↔
      (∀ call ∈ calls, call.1 ≠ input) ∨
        ∃ n ∈ cellsOf random size seeds input,
          ∀ call ∈ calls, call.2 = time → n ∉ cellsOf random size seeds call.1 := by
  obtain ⟨bf, hrun, h⟩ := (@dated_init random size seeds hsize).run (by simpa using ho)
  rw [List.nil_append] at h
  obtain ⟨ret, bf', hget, hset, -⟩ :=
    getAndSetLastTime_eq random (hashed input) time h.works
  have hdates : Dates random size seeds calls input time ↔ lastTime calls input ≤ ret := by
    refine ⟨fun ⟨bf1, ret1, _, hrun1, hget1, hle, _⟩ => ?_,
      fun hle => ⟨bf, ret, bf', hrun, hget, hle, hset⟩⟩
    obtain rfl : bf = bf1 := Option.some.inj (hrun.symm.trans hrun1)
    exact Option.some.inj (hget.symm.trans hget1) ▸ hle
  have hret := Option.some.inj (hget.symm.trans (getLastTime_eq h.works))
  rw [hdates, hret]
  by_cases hkey : ∀ call ∈ calls, call.1 ≠ input
  · exact ⟨fun _ => .inl hkey, fun _ => by simp [lastTime_of_not_mem hkey]⟩
  · rw [h.lastTime_le_iff ho hlast (by simpa using hkey)]
    simp only [hkey, false_or]

/-- A key with two cells, of which another key has set one at the time of the question. -/
theorem dates_iff_shared :
    Dates (fun seed i => seed * i.toUInt32 + 1) 8 [0, 5]
    [([2, 1], 3), ([1], 7), ([3], 7)] [2, 1] 7 :=
  (dates_iff (by decide) _ _ ⟨by decide, by decide⟩ _ (by decide)).mpr
    (.inr ⟨5, by decide, by decide⟩)

/-- **Counterexample**: the key was set at the time of the question, and the answer is "never". -/
theorem dates_not : ¬ ∀ (size : UInt32) (seeds : List UInt32) (calls : List (List UInt8 × UInt16)),
    0 < size → seeds ≠ [] → InOrder calls → (∀ call ∈ calls, call.2 ≤ 5) →
    Dates (fun _ _ => 1) size seeds calls [4] 5 := by
  intro hall
  obtain ⟨bf, ret, -, hrun, hget, hle, -⟩ :=
    hall 8 [1] [([4], 5)] (by decide) (by simp) ⟨by decide, by simp⟩ (by simp)
  obtain rfl : (⟨⟨[0, 0, 0, 0, 5, 0, 0, 0], 8, rfl⟩, 8, [1]⟩ : AgeBloomFilter) = bf :=
    Option.some.inj hrun
  obtain rfl : 0 = ret := Option.some.inj hget
  exact absurd hle (by decide)

end AgeBloomFilter

end Topas
