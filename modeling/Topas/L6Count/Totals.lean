import Mathlib.Data.Finset.Card
import Topas.L6Count.CountStore

/-!
# Octets and packets

What a record says is what its last well-formed field of each kind says (`DataRecord.srcIp`
and the others), wherever that stands among the other fields.

* `Read.foldl`: after any fields, the store's members hold what the record says.
* `run_eq_tally`: the Bloom filter decides whether a run comes to its end, and its answers
  are all that the tables see of it.
* `tally_totals`: whatever the answers, every enabled table has the sums of the octets and
  packets of the records of each key, as long as it has room for the keys.
-/
namespace Topas

open IpfixTypeId

/-! ## What a record says -/

/-- The first four octets; a fifth is a netmask. -/
@[simp] def address? : List UInt8 → Option IpAddress
  | a :: b :: c :: d :: _ => some ⟨a, b, c, d⟩
  | _ => none

@[simp] def port? : List UInt8 → Option (UInt8 × UInt8)
  | [a, b] => some (a, b)
  | _ => none

@[simp] def protocol? : List UInt8 → Option UInt8
  | [a] => some a
  | _ => none

/-- A counter of another size than these is taken for the largest number. -/
def countOf (data : List UInt8) : Nat :=
  if data.length ∈ [1, 2, 4, 8] then ofOctets data else 2 ^ 64 - 1

/-- Protocol and port share a word. -/
def protoPort (proto : UInt8) (port : UInt8 × UInt8) : UInt32 :=
  UInt32.ofNat (proto.toNat * 65536 + ntohs port.1 port.2)

/-- What a field says when it has this id and is well-formed. -/
def DataField.value {β : Type} (f : DataField) (id : Int) (read : List UInt8 → Option β) :
    Option β :=
  if f.id = id then read f.fieldData else none

namespace DataRecord

variable {β : Type}

/-- What the last well-formed field with this id says. -/
def last (r : DataRecord) (id : Int) (read : List UInt8 → Option β) : Option β :=
  (r.filterMap (·.value id read)).getLast?

/-- The 5-tuple. -/
def flowKey (r : DataRecord) : QuintupleKey where
  srcIp := (r.last sourceIPv4Address address?).getD ⟨0, 0, 0, 0⟩
  dstIp := (r.last destinationIPv4Address address?).getD ⟨0, 0, 0, 0⟩
  proto := (r.last protocolIdentifier protocol?).getD 0
  srcPort := (r.last sourceTransportPort port?).getD (0, 0)
  dstPort := (r.last destinationTransportPort port?).getD (0, 0)

def srcIp (r : DataRecord) : IpAddress := r.flowKey.srcIp

def dstIp (r : DataRecord) : IpAddress := r.flowKey.dstIp

def srcPort (r : DataRecord) : UInt32 := protoPort r.flowKey.proto r.flowKey.srcPort

def dstPort (r : DataRecord) : UInt32 := protoPort r.flowKey.proto r.flowKey.dstPort

def octets (r : DataRecord) : Nat := ((r.last octetDeltaCount some).map countOf).getD 0

def packets (r : DataRecord) : Nat := ((r.last packetDeltaCount some).map countOf).getD 0

variable {r r' : DataRecord} {f : DataField} {id : Int} {read : List UInt8 → Option β}

theorem last_append (r : DataRecord) (f : DataField) (id : Int) (read : List UInt8 → Option β) :
    last (r ++ [f]) id read = (f.value id read).or (r.last id read) := by
  unfold last
  rw [List.filterMap_append, List.getLast?_append]
  cases h : f.value id read <;> simp [h]

/-- The order of fields with different ids makes no difference. -/
theorem last_perm (hp : r.Perm r') (hid : (r.map (·.id)).Nodup) :
    r.last id read = r'.last id read := by
  have hperm := hp.filterMap (·.value id read)
  have hle : (r.filterMap (·.value id read)).length ≤ 1 := by
    clear hperm hp
    induction r with
    | nil => simp
    | cons f r ih =>
      rw [List.map_cons, List.nodup_cons] at hid
      by_cases hf : f.id = id
      · have hnone : r.filterMap (·.value id read) = [] := by
          refine List.filterMap_eq_nil_iff.mpr fun g hg => if_neg fun h => hid.1 ?_
          exact List.mem_map.mpr ⟨g, hg, h.trans hf.symm⟩
        rw [List.filterMap_cons, hnone]
        cases f.value id read <;> simp
      · have hvalue : f.value id read = none := if_neg hf
        rw [List.filterMap_cons, hvalue]
        exact ih hid.2
  unfold last
  match h : r.filterMap (·.value id read) with
  | [] => rw [h] at hperm; rw [h, hperm.nil_eq]
  | [x] => rw [h] at hperm; rw [h, List.singleton_perm.mp hperm]
  | _ :: _ :: _ => rw [h] at hle; simp at hle

/-- The same 5-tuple and the same counts. -/
theorem values_perm (hp : r.Perm r') (hid : (r.map (·.id)).Nodup) :
    r.flowKey = r'.flowKey ∧ r.octets = r'.octets ∧ r.packets = r'.packets := by
  simp only [flowKey, octets, packets, last_perm hp hid, and_self]

end DataRecord

/-! ## Reading a record -/

theorem ofNat_countOf (data : List UInt8) : UInt64.ofNat (countOf data) = fieldToInt data := by
  unfold countOf
  split
  · rename_i h
    rw [← fieldToInt_eq h, UInt64.ofNat_toNat]
  · rename_i h
    unfold fieldToInt
    split <;> first | (exfalso; simp at h; done) | rfl

theorem and_high (n : Nat) : n &&& 0xFFFF0000 = n / 65536 % 65536 * 65536 := by
  apply Nat.eq_of_testBit_eq
  intro i
  rw [Nat.testBit_and, show (0xFFFF0000 : Nat) = 2 ^ 16 * (2 ^ 16 - 1) by decide,
    Nat.mul_comm _ 65536,
    show (65536 : Nat) = 2 ^ 16 by decide, Nat.testBit_two_pow_mul, Nat.testBit_two_pow_mul,
    Nat.testBit_mod_two_pow, Nat.testBit_div_two_pow, Nat.testBit_two_pow_sub_one]
  by_cases hi : 16 ≤ i
  · simp [hi, show i - 16 + 16 = i by omega, Bool.and_comm]
  · simp [hi]

theorem toNat_protoPort (proto : UInt8) (port : UInt8 × UInt8) :
    (protoPort proto port).toNat = proto.toNat * 65536 + ntohs port.1 port.2 := by
  have h1 := proto.toNat_lt
  have h2 := ntohs_lt port.1 port.2
  rw [protoPort, UInt32.toNat_ofNat']
  omega

/-- Writing the port keeps the protocol. -/
theorem protoPort_port (proto a b : UInt8) (port : UInt8 × UInt8) :
    (protoPort proto port &&& 0xFFFF0000) + UInt32.ofNat (ntohs a b) = protoPort proto (a, b) := by
  have h1 := proto.toNat_lt
  have h2 := ntohs_lt port.1 port.2
  have h3 := ntohs_lt a b
  apply UInt32.toNat_inj.mp
  rw [UInt32.toNat_add, UInt32.toNat_and, toNat_protoPort, toNat_protoPort, UInt32.toNat_ofNat',
    show UInt32.toNat 0xFFFF0000 = 0xFFFF0000 from rfl, and_high]
  simp only
  omega

/-- Writing the protocol keeps the port. -/
theorem protoPort_proto (a proto : UInt8) (port : UInt8 × UInt8) :
    (protoPort proto port &&& (0x0000FFFF : UInt32)) + (a.toUInt32 <<< 16) = protoPort a port := by
  have h1 := proto.toNat_lt
  have h2 := ntohs_lt port.1 port.2
  have h3 := a.toNat_lt
  apply UInt32.toNat_inj.mp
  rw [UInt32.toNat_add, UInt32.toNat_and, toNat_protoPort, toNat_protoPort, UInt32.toNat_shiftLeft,
    show UInt32.toNat 0x0000FFFF = 2 ^ 16 - 1 from rfl, Nat.and_two_pow_sub_one_eq_mod,
      Nat.shiftLeft_eq]
  simp
  omega

/-- What a protocol and a port do to the word that they share. -/
def writePort (word : UInt32) (proto : Option UInt8) (port : Option (UInt8 × UInt8)) : UInt32 :=
  let word :=
    match port with
    | some (a, b) => (word &&& 0xFFFF0000) + UInt32.ofNat (ntohs a b)
    | none => word
  match proto with
  | some a => (word &&& (0x0000FFFF : UInt32)) + (a.toUInt32 <<< 16)
  | none => word

theorem writePort_protoPort (p : UInt8) (q : UInt8 × UInt8) (proto : Option UInt8)
    (port : Option (UInt8 × UInt8)) :
    writePort (protoPort p q) proto port = protoPort (proto.getD p) (port.getD q) := by
  cases proto <;> cases port <;> simp only [writePort, protoPort_port, protoPort_proto, Option.getD]

namespace CountStore

theorem addFieldData_eq (s : CountStore) (f : DataField) :
    s.addFieldData f = { s with
      srcIp := (f.value sourceIPv4Address address?).getD s.srcIp
      dstIp := (f.value destinationIPv4Address address?).getD s.dstIp
      srcPort :=
        writePort s.srcPort (f.value protocolIdentifier protocol?)
          (f.value sourceTransportPort port?)
      dstPort :=
        writePort s.dstPort (f.value protocolIdentifier protocol?)
          (f.value destinationTransportPort port?)
      octets := ((f.value octetDeltaCount some).map fieldToInt).getD s.octets
      packets := ((f.value packetDeltaCount some).map fieldToInt).getD s.packets
      flowKey := {
        srcIp := (f.value sourceIPv4Address address?).getD s.flowKey.srcIp
        dstIp := (f.value destinationIPv4Address address?).getD s.flowKey.dstIp
        proto := (f.value protocolIdentifier protocol?).getD s.flowKey.proto
        srcPort := (f.value sourceTransportPort port?).getD s.flowKey.srcPort
        dstPort := (f.value destinationTransportPort port?).getD s.flowKey.dstPort } } := by
  unfold addFieldData
  -- one case for each id and each form of the data
  repeat' split
  all_goals simp_all [DataField.value, writePort]

/-- `s`, which was `s₀` when the record began, has read `r`. -/
structure Read (s₀ s : CountStore) (r : DataRecord) : Prop where
  flowKey : s.flowKey = r.flowKey
  srcIp : s.srcIp = r.srcIp
  dstIp : s.dstIp = r.dstIp
  srcPort : s.srcPort = r.srcPort
  dstPort : s.dstPort = r.dstPort
  octets : s.octets = UInt64.ofNat r.octets
  packets : s.packets = UInt64.ofNat r.packets
  recordStarted : s.recordStarted = true
  srcIpCounts : s.srcIpCounts = s₀.srcIpCounts
  dstIpCounts : s.dstIpCounts = s₀.dstIpCounts
  srcPortCounts : s.srcPortCounts = s₀.srcPortCounts
  dstPortCounts : s.dstPortCounts = s₀.dstPortCounts

/-- The store after `recordStart`. -/
def begun (s : CountStore) : CountStore :=
  { s with
    flowKey := .reset
    recordStarted := true
    srcIp := ⟨0, 0, 0, 0⟩
    dstIp := ⟨0, 0, 0, 0⟩
    srcPort := 0
    dstPort := 0
    packets := 0
    octets := 0 }

section Read

variable {s₀ s : CountStore} {r : DataRecord}

theorem read_begun (s : CountStore) : Read s s.begun [] := by
  constructor <;> rfl

theorem Read.addFieldData (h : Read s₀ s r) (f : DataField) :
    Read s₀ (s.addFieldData f) (r ++ [f]) := by
  have hcount (id : Int) (n : UInt64)
      (hn : n = UInt64.ofNat (((r.last id some).map countOf).getD 0)) :
      ((f.value id some).map fieldToInt).getD n =
        UInt64.ofNat (((DataRecord.last (r ++ [f]) id some).map countOf).getD 0) := by
    rw [DataRecord.last_append]
    cases f.value id some with
    | none => exact hn
    | some data => exact (ofNat_countOf data).symm
  rw [addFieldData_eq]
  constructor
  · simp [h.flowKey, DataRecord.flowKey, DataRecord.last_append]
  · simp [h.srcIp, DataRecord.srcIp, DataRecord.flowKey, DataRecord.last_append]
  · simp [h.dstIp, DataRecord.dstIp, DataRecord.flowKey, DataRecord.last_append]
  · simp [h.srcPort, DataRecord.srcPort, DataRecord.flowKey, DataRecord.last_append,
      writePort_protoPort]
  · simp [h.dstPort, DataRecord.dstPort, DataRecord.flowKey, DataRecord.last_append,
      writePort_protoPort]
  · exact hcount _ _ h.octets
  · exact hcount _ _ h.packets
  · exact h.recordStarted
  · exact h.srcIpCounts
  · exact h.dstIpCounts
  · exact h.srcPortCounts
  · exact h.dstPortCounts

theorem read_foldl (s : CountStore) (r : DataRecord) : Read s (r.foldl addFieldData s.begun) r := by
  suffices h : ∀ (r₀ : DataRecord) (s' : CountStore), Read s s' r₀ →
      Read s (r.foldl addFieldData s') (r₀ ++ r) from h [] _ (read_begun s)
  induction r with
  | nil => intro r₀ s' h; simpa using h
  | cons f r ih => intro r₀ s' h; simpa using ih _ _ (h.addFieldData f)

end Read

/-! ## The run, apart from the filter -/

/-- What a record does to the store, `known` being what the filter answers. -/
def count (cfg : CountConfig) (s : CountStore) (r : DataRecord) (known : Bool) : CountStore :=
  (r.foldl addFieldData s.begun).updateTables cfg
    ((r.foldl addFieldData s.begun).newFlowKey cfg known)

/-- The store after these records and answers. -/
def tally (cfg : CountConfig) (l : List (DataRecord × Bool)) : CountStore :=
  l.foldl (fun s e => s.count cfg e.1 e.2) init

/-- Whether the flow of `r` counts as new. -/
def new (cfg : CountConfig) (s : CountStore) (r : DataRecord) (known : Bool) : Bool :=
  !known || (cfg.countPerSrcIp && (s.srcIpCounts.find r.srcIp).isNone) ||
    (cfg.countPerDstIp && (s.dstIpCounts.find r.dstIp).isNone) ||
    (cfg.countPerSrcPort && (s.srcPortCounts.find r.srcPort).isNone) ||
    (cfg.countPerDstPort && (s.dstPortCounts.find r.dstPort).isNone)

section Count

variable {cfg : CountConfig} {random : Rng} {bf : BloomFilter} {s : CountStore} {r : DataRecord}
  {known : Bool}

theorem newFlowKey_eq :
    (r.foldl addFieldData s.begun).newFlowKey cfg known = s.new cfg r known := by
  have h := read_foldl s r
  simp only [newFlowKey, new, h.srcIp, h.dstIp, h.srcPort, h.dstPort, h.srcIpCounts, h.dstIpCounts,
    h.srcPortCounts, h.dstPortCounts]

/-- A table gets a record, if it is enabled. -/
def CountMap.counted {κ : Type} [DecidableEq κ] (m : CountMap κ) (enabled : Bool) (maxSize : Nat)
    (zero key : κ) (r : DataRecord) (new : Bool) : CountMap κ :=
  if enabled then m.update maxSize zero key (UInt64.ofNat r.octets)
    (UInt64.ofNat r.packets) new else m

@[simp] theorem recordStarted_count : (s.count cfg r known).recordStarted = false := rfl

theorem srcIpCounts_count : (s.count cfg r known).srcIpCounts =
    CountMap.counted s.srcIpCounts cfg.countPerSrcIp cfg.ipMaxSize ⟨0, 0, 0, 0⟩ r.srcIp r
      (s.new cfg r known) := by
  have h := read_foldl s r
  simp only [count, updateTables, newFlowKey_eq, updateIpCountMap, CountMap.counted,
    h.srcIp, h.octets,
    h.packets, h.srcIpCounts]

theorem dstIpCounts_count : (s.count cfg r known).dstIpCounts =
    CountMap.counted s.dstIpCounts cfg.countPerDstIp cfg.ipMaxSize ⟨0, 0, 0, 0⟩ r.dstIp r
      (s.new cfg r known) := by
  have h := read_foldl s r
  simp only [count, updateTables, newFlowKey_eq, updateIpCountMap, CountMap.counted,
    h.dstIp, h.octets,
    h.packets, h.dstIpCounts]

theorem srcPortCounts_count : (s.count cfg r known).srcPortCounts =
    CountMap.counted s.srcPortCounts cfg.countPerSrcPort cfg.portMaxSize 0 r.srcPort r
      (s.new cfg r known) := by
  have h := read_foldl s r
  simp only [count, updateTables, newFlowKey_eq, updatePortCountMap, CountMap.counted,
    h.srcPort, h.octets,
    h.packets, h.srcPortCounts]

theorem dstPortCounts_count : (s.count cfg r known).dstPortCounts =
    CountMap.counted s.dstPortCounts cfg.countPerDstPort cfg.portMaxSize 0 r.dstPort r
      (s.new cfg r known) := by
  have h := read_foldl s r
  simp only [count, updateTables, newFlowKey_eq, updatePortCountMap, CountMap.counted,
    h.dstPort, h.octets,
    h.packets, h.dstPortCounts]

/-- Between two records the filter decides whether there is a next state, and its answer which. -/
theorem record_eq (h : s.recordStarted = false) :
    s.record cfg random bf r =
      (bf.testBeforeInsert random r.flowKey.data).map fun (known, bf) =>
      (bf, s.count cfg r known) := by
  have hread := read_foldl s r
  have hstart : s.recordStart = some s.begun := by simp [recordStart, h, begun]
  simp only [record, hstart, Option.bind_eq_bind, Option.bind_some, recordEnd,
    hread.recordStarted, if_true,
    hread.flowKey]
  cases bf.testBeforeInsert random r.flowKey.data <;> rfl

end Count

/-! ## The sums -/

section Tallied

variable {κ : Type} [DecidableEq κ]

/-- Those of the records that have this key; each with whether its flow counted as new. -/
def ofKey (key : DataRecord → κ) (k : κ) (l : List (DataRecord × Bool)) :
    List (DataRecord × Bool) :=
  l.filter fun e => key e.1 = k

/-- The entry for these records. -/
def entry (l : List (DataRecord × Bool)) : Option Counters :=
  if l = [] then none
  else some ⟨UInt64.ofNat (l.map (·.1.octets)).sum, UInt64.ofNat (l.map (·.1.packets)).sum,
    UInt64.ofNat (l.countP (·.2))⟩

/-- The table has an entry for each key, and a key's first flow is new. -/
structure Tallied (m : CountMap κ) (key : DataRecord → κ) (l : List (DataRecord × Bool)) :
    Prop where
  find : ∀ k, m.find k = entry (ofKey key k l)
  first : ∀ k, ofKey key k l ≠ [] → 0 < (ofKey key k l).countP (·.2)

variable {m : CountMap κ} {key : DataRecord → κ} {l : List (DataRecord × Bool)} {r : DataRecord}
  {new : Bool} {k : κ}

theorem ofKey_append :
    ofKey key k (l ++ [(r, new)]) = ofKey key k l ++ if key r = k then [(r, new)] else [] := by
  simp [ofKey, List.filter_cons]

theorem entry_append (l : List (DataRecord × Bool)) (r : DataRecord) (new : Bool)
    (hnew : l = [] → new = true) :
    entry (l ++ [(r, new)]) =
      some (CountMap.updated (UInt64.ofNat r.octets) (UInt64.ofNat r.packets) new (entry l)) := by
  by_cases hl : l = []
  · simp [hl, entry, hnew hl, CountMap.updated]
  · cases new <;> simp [entry, hl, CountMap.updated, Counters.update, UInt64.ofNat_add]

theorem tallied_empty (key : DataRecord → κ) : Tallied ∅ key [] :=
  ⟨fun _ => rfl, fun _ h => absurd rfl h⟩

theorem Tallied.find_eq_none (h : Tallied m key l) : m.find k = none ↔ ofKey key k l = [] := by
  rw [h.find, entry]
  split <;> simp [*]

theorem Tallied.mem_keys (h : Tallied m key l) : k ∈ m.keys ↔ ∃ e ∈ l, key e.1 = k := by
  have hnone := h.find_eq_none (k := k)
  rw [CountMap.find_eq_none, ofKey, List.filter_eq_nil_iff] at hnone
  refine ⟨fun hk => ?_, fun ⟨e, he, hek⟩ => ?_⟩
  · by_contra hno
    exact hnone.mpr (fun e he hek => hno ⟨e, he, of_decide_eq_true hek⟩) hk
  · by_contra hk
    exact hnone.mp hk e he (decide_eq_true hek)

/-- A table that will not get too many keys has room for the next one. -/
theorem Tallied.room (h : Tallied m key l) {records : List DataRecord} {maxSize : Nat}
    (hl : ∀ e ∈ l, e.1 ∈ records) (hr : r ∈ records)
    (hfits : (records.map key).toFinset.card < maxSize) (hnone : m.find (key r) = none) :
    m.keys.length < maxSize - 1 := by
  have hnodup : (key r :: m.keys).Nodup :=
    List.nodup_cons.mpr ⟨CountMap.find_eq_none.mp hnone, m.keys_nodup⟩
  have hsub : (key r :: m.keys).toFinset ⊆ (records.map key).toFinset := by
    intro k hk
    rw [List.mem_toFinset, List.mem_cons] at hk
    rw [List.mem_toFinset, List.mem_map]
    rcases hk with rfl | hk
    · exact ⟨r, hr, rfl⟩
    · obtain ⟨e, he, rfl⟩ := h.mem_keys.mp hk
      exact ⟨e.1, hl e he, rfl⟩
  have hle := Finset.card_le_card hsub
  rw [List.toFinset_card_of_nodup hnodup, List.length_cons] at hle
  omega

theorem Tallied.update (h : Tallied m key l) {maxSize : Nat} {zero : κ}
    (hroom : m.find (key r) = none → m.keys.length < maxSize - 1)
    (hnew : m.find (key r) = none → new = true) :
    Tallied (m.update maxSize zero (key r) (UInt64.ofNat r.octets) (UInt64.ofNat r.packets) new) key
      (l ++ [(r, new)]) := by
  have hempty (hl : ofKey key (key r) l = []) : new = true := hnew (h.find_eq_none.mpr hl)
  refine ⟨fun k => ?_, fun k hne => ?_⟩
  · rw [CountMap.find_update hroom, ofKey_append]
    by_cases hk : k = key r
    · subst hk
      rw [if_pos rfl, if_pos rfl, entry_append _ r new hempty, h.find]
    · rw [if_neg hk, if_neg fun h => hk h.symm, List.append_nil, h.find]
  · rw [ofKey_append] at hne ⊢
    rw [List.countP_append]
    by_cases hl : ofKey key k l = []
    · by_cases hk : key r = k
      · subst hk
        simp [hempty hl]
      · simp [hl, hk] at hne
    · have := h.first k hl
      omega

/-- An enabled table with room counts a record. -/
theorem Tallied.counted (h : Tallied m key l) {enabled : Bool} (he : enabled = true)
    {records : List DataRecord} {maxSize : Nat} {zero : κ} (hl : ∀ e ∈ l, e.1 ∈ records)
    (hr : r ∈ records) (hfits : (records.map key).toFinset.card < maxSize)
    (hnew : m.find (key r) = none → new = true) :
    Tallied (CountMap.counted m enabled maxSize zero (key r) r new) key (l ++ [(r, new)]) := by
  rw [CountMap.counted, if_pos he]
  exact h.update (h.room hl hr hfits) hnew

end Tallied

/-- Every enabled table has room for the keys of these records. -/
structure Fits (cfg : CountConfig) (records : List DataRecord) : Prop where
  srcIp : cfg.countPerSrcIp = true → (records.map DataRecord.srcIp).toFinset.card < cfg.ipMaxSize
  dstIp : cfg.countPerDstIp = true → (records.map DataRecord.dstIp).toFinset.card < cfg.ipMaxSize
  srcPort : cfg.countPerSrcPort = true →
    (records.map DataRecord.srcPort).toFinset.card < cfg.portMaxSize
  dstPort : cfg.countPerDstPort = true →
    (records.map DataRecord.dstPort).toFinset.card < cfg.portMaxSize

/-- The store has counted these records in every enabled table. -/
structure Counted (cfg : CountConfig) (s : CountStore) (l : List (DataRecord × Bool)) : Prop where
  recordStarted : s.recordStarted = false
  srcIp : cfg.countPerSrcIp = true → Tallied s.srcIpCounts DataRecord.srcIp l
  dstIp : cfg.countPerDstIp = true → Tallied s.dstIpCounts DataRecord.dstIp l
  srcPort : cfg.countPerSrcPort = true → Tallied s.srcPortCounts DataRecord.srcPort l
  dstPort : cfg.countPerDstPort = true → Tallied s.dstPortCounts DataRecord.dstPort l

section Counted

variable {cfg : CountConfig} {random : Rng} {bf : BloomFilter} {s : CountStore}
  {l : List (DataRecord × Bool)} {r : DataRecord} {known : Bool} {records : List DataRecord}

theorem counted_init (cfg : CountConfig) : Counted cfg init [] :=
  ⟨rfl, fun _ => tallied_empty _, fun _ => tallied_empty _, fun _ => tallied_empty _,
    fun _ => tallied_empty _⟩

theorem Counted.count (h : Counted cfg s l) (hfits : Fits cfg records) (hl : ∀ e ∈ l, e.1 ∈ records)
    (hr : r ∈ records) (known : Bool) :
    Counted cfg (s.count cfg r known) (l ++ [(r, s.new cfg r known)]) := by
  refine ⟨rfl, fun he => ?_, fun he => ?_, fun he => ?_, fun he => ?_⟩
  · rw [srcIpCounts_count]
    exact (h.srcIp he).counted he hl hr (hfits.srcIp he) fun hnone => by
      simp [CountStore.new, he, hnone]
  · rw [dstIpCounts_count]
    exact (h.dstIp he).counted he hl hr (hfits.dstIp he) fun hnone => by
      simp [CountStore.new, he, hnone]
  · rw [srcPortCounts_count]
    exact (h.srcPort he).counted he hl hr (hfits.srcPort he) fun hnone => by
      simp [CountStore.new, he, hnone]
  · rw [dstPortCounts_count]
    exact (h.dstPort he).counted he hl hr (hfits.dstPort he) fun hnone => by
      simp [CountStore.new, he, hnone]

/-- The records of a run are counted, some of their flows as new. -/
theorem counted_tally (hfits : Fits cfg records) (hl : ∀ e ∈ l, e.1 ∈ records) :
    ∃ news, news.map (·.1) = l.map (·.1) ∧ Counted cfg (tally cfg l) news := by
  induction l using List.reverseRecOn with
  | nil => exact ⟨[], rfl, counted_init cfg⟩
  | append_singleton l e ih =>
    obtain ⟨news, hnews, h⟩ := ih fun e he => hl e (List.mem_append_left _ he)
    have hmem : ∀ e ∈ news, e.1 ∈ records := by
      intro n hn
      have hfst := List.mem_map_of_mem (f := Prod.fst) hn
      rw [hnews] at hfst
      obtain ⟨e, he, heq⟩ := List.mem_map.mp hfst
      rw [← heq]
      exact hl e (List.mem_append_left _ he)
    refine ⟨_, ?_, by
      rw [tally, List.foldl_append]
      exact h.count hfits hmem (hl e (List.mem_append_right _ (List.mem_singleton_self e))) e.2⟩
    simp [hnews]

/-- The filter decides whether the run comes to its end; the store sees its answers. -/
theorem run_eq_tally (cfg : CountConfig) (random : Rng) (bf : BloomFilter)
    (records : List DataRecord) :
    run cfg random bf records =
      (bf.clear.testAll random (records.map (·.flowKey.data))).map fun (answers, bf) =>
        (bf, tally cfg (records.zip answers)) := by
  suffices h : ∀ (bf : BloomFilter) (s : CountStore), s.recordStarted = false →
      records.foldlM (fun p r => p.2.record cfg random p.1 r) (bf, s) =
        (bf.testAll random (records.map (·.flowKey.data))).map fun (answers, bf) =>
          (bf, (records.zip answers).foldl (fun s e => s.count cfg e.1 e.2) s) from
            h bf.clear init rfl
  induction records with
  | nil => intro bf s _; rfl
  | cons r records ih =>
    intro bf s h
    simp only [List.foldlM_cons, record_eq h, List.map_cons, BloomFilter.testAll,
      Option.bind_eq_bind]
    cases bf.testBeforeInsert random r.flowKey.data with
    | none => rfl
    | some p =>
      simp only [Option.map_some, Option.bind_some, ih _ _ recordStarted_count]
      cases p.2.testAll random (records.map (·.flowKey.data)) <;> rfl

end Counted

/-- An entry for the key of each record and no other, with the octets and packets of the records
of that key. -/
def Totals {κ : Type} [DecidableEq κ] (m : CountMap κ) (key : DataRecord → κ)
    (records : List DataRecord) : Prop :=
  ∀ k, ((∃ r ∈ records, key r = k) ↔ ∃ c, m.find k = some c) ∧ ∀ c, m.find k = some c →
    c.octetCount.toNat = ((records.filter (key · = k)).map DataRecord.octets).sum % 2 ^ 64 ∧
    c.packetCount.toNat = ((records.filter (key · = k)).map DataRecord.packets).sum % 2 ^ 64

/-- So in every enabled table. -/
structure TotalsOf (cfg : CountConfig) (s : CountStore) (records : List DataRecord) : Prop where
  srcIp : cfg.countPerSrcIp = true → Totals s.srcIpCounts DataRecord.srcIp records
  dstIp : cfg.countPerDstIp = true → Totals s.dstIpCounts DataRecord.dstIp records
  srcPort : cfg.countPerSrcPort = true → Totals s.srcPortCounts DataRecord.srcPort records
  dstPort : cfg.countPerDstPort = true → Totals s.dstPortCounts DataRecord.dstPort records

theorem Tallied.totals {κ : Type} [DecidableEq κ] {m : CountMap κ} {key : DataRecord → κ}
    {l : List (DataRecord × Bool)} (h : Tallied m key l) : Totals m key (l.map (·.1)) := by
  intro k
  have hfilter : (l.map (·.1)).filter (key · = k) = (ofKey key k l).map (·.1) := by
    simp [ofKey, List.filter_map, Function.comp_def]
  have hempty : ofKey key k l = [] ↔ ¬ ∃ r ∈ l.map (·.1), key r = k := by
    rw [← List.map_eq_nil_iff (f := (·.1)), ← hfilter, List.filter_eq_nil_iff]
    simp
  rw [h.find, entry, hfilter]
  by_cases hk : ofKey key k l = []
  · have hno := hempty.mp hk
    rw [if_pos hk]
    exact ⟨⟨fun hr => absurd hr hno, fun ⟨_, hc⟩ => nomatch hc⟩, fun _ hc => nomatch hc⟩
  · refine ⟨⟨fun _ => ⟨_, if_neg hk⟩, fun _ => ?_⟩, fun c hc => ?_⟩
    · by_contra hno
      exact hk (hempty.mpr hno)
    · rw [if_neg hk] at hc
      cases hc
      simp [List.map_map, Function.comp_def]

/-- Whatever the filter answers, the enabled tables have the sums; and it is the filter alone that
can keep a run from its end. -/
theorem tally_totals {cfg : CountConfig} {records : List DataRecord} (hfits : Fits cfg records) :
    (∀ answers : List Bool, answers.length = records.length →
      TotalsOf cfg (tally cfg (records.zip answers)) records) ∧
    ∀ random bf,
      (run cfg random bf records).isSome =
        (bf.clear.testAll random (records.map (·.flowKey.data))).isSome ∧
      ∀ bf' s, run cfg random bf records = some (bf', s) → TotalsOf cfg s records := by
  have htotals (answers : List Bool) (hlen : answers.length = records.length) :
      TotalsOf cfg (tally cfg (records.zip answers)) records := by
    have hl : ∀ e ∈ records.zip answers, e.1 ∈ records := fun e he => (List.of_mem_zip he).1
    obtain ⟨news, hnews, h⟩ := counted_tally hfits hl
    rw [List.map_fst_zip (Nat.le_of_eq hlen.symm)] at hnews
    subst hnews
    exact ⟨fun he => (h.srcIp he).totals, fun he => (h.dstIp he).totals,
      fun he => (h.srcPort he).totals,
      fun he => (h.dstPort he).totals⟩
  refine ⟨htotals, fun random bf => ⟨?_, fun bf' s hrun => ?_⟩⟩
  · rw [run_eq_tally, Option.isSome_map]
  · rw [run_eq_tally] at hrun
    obtain ⟨⟨answers, bf''⟩, hall, hs⟩ := Option.map_eq_some_iff.mp hrun
    cases hs
    exact htotals answers (by rw [BloomFilter.length_testAll hall, List.length_map])

/-- All tables, and room for 99 keys in each. -/
def allTables : CountConfig := ⟨true, true, true, true, 100, 100⟩

/-- A UDP record from 10.0.0.1, whose protocol comes last. -/
def udpRecord (port : UInt8) (octets : List UInt8) : DataRecord :=
  [⟨sourceTransportPort, [0, port], 0⟩, ⟨octetDeltaCount, octets, 0⟩,
    ⟨sourceIPv4Address, [10, 0, 0, 1], 0⟩,
    ⟨packetDeltaCount, [1], 0⟩, ⟨protocolIdentifier, [17], 0⟩]

theorem tally_totals_threeRecords :
    let records := [udpRecord 53 [1, 0], udpRecord 53 [0, 0, 0, 5], udpRecord 123 [7]]
    let s := tally allTables (records.zip [false, true, false])
    TotalsOf allTables s records ∧ s.srcIpCounts.find ⟨10, 0, 0, 1⟩ = some ⟨268, 3, 2⟩ ∧
      s.srcPortCounts.find (17 * 65536 + 53) = some ⟨261, 2, 1⟩ :=
  ⟨(tally_totals ⟨fun _ => by decide, fun _ => by decide, fun _ => by decide, fun _ => by decide⟩).1
    _ rfl,
    by decide, by decide⟩

end CountStore

end Topas
