import Mathlib.Data.List.AList
import Topas.L6Count.BloomFilter

/-!
# The store of the count module

`countmodule/countstore.cpp`. A record is handed over field by field between
`recordStart` and `recordEnd`, which adds it to the tables that are enabled: octets and
packets in any case, a flow when the Bloom filter does not know the 5-tuple, or a table
does not know its key.

* `run_eq_tally`: the filter decides whether a run comes to its end, and by its answers
  what is counted; `tally` is the rest of the run.
* `Read.addFieldData`: after any fields, the record's members hold what the last
  well-formed field of each kind says (`DataRecord.srcIp` and the others), in whatever order
  the fields came.

A field comes with as many octets as `fieldDataLength` says. The enterprise number is not
looked at, and neither is the fifth octet of an address.
-/
namespace Topas

/-! ## Fields -/

/-- The arguments of `addFieldData`. -/
structure DataField where
  id : Int
  fieldData : List UInt8
  eid : Nat
  deriving DecidableEq, Repr

/-- What is handed over between `recordStart` and `recordEnd`. -/
abbrev DataRecord := List DataField

/-! mirrors concentrator/ipfix.h:32-99 -/

namespace IpfixTypeId

@[simp] def octetDeltaCount : Int := 1
@[simp] def packetDeltaCount : Int := 2
@[simp] def protocolIdentifier : Int := 4
@[simp] def sourceTransportPort : Int := 7
@[simp] def sourceIPv4Address : Int := 8
@[simp] def destinationTransportPort : Int := 11
@[simp] def destinationIPv4Address : Int := 12

end IpfixTypeId

/-- `ntohs` of the two octets at a pointer, and `ntohl` of four. -/
def ntohs (a b : UInt8) : Nat := a.toNat * 256 + b.toNat

def ntohl (a b c d : UInt8) : Nat := ntohs a b * 65536 + ntohs c d

/-- mirrors concentrator/common.c:37-49 -/
def ntohll (word0 word1 : Nat) : UInt64 :=
    (UInt64.ofNat word0 <<< 32) ^^^ (UInt64.ofNat word1 <<< 0)

/-- mirrors detectionmodules/detectionbase/datastore.cpp:21-35 -/
def fieldToInt : List UInt8 → UInt64
  | [a] => a.toUInt64
  | [a, b] => UInt64.ofNat (ntohs a b)
  | [a, b, c, d] => UInt64.ofNat (ntohl a b c d)
  | [a, b, c, d, e, f, g, h] => ntohll (ntohl a b c d) (ntohl e f g h)
  | _ => -1

/-- The number with these digits to the base 256. -/
def ofOctets (l : List UInt8) : Nat := l.foldl (fun n x => 256 * n + x.toNat) 0

theorem ntohs_lt (a b : UInt8) : ntohs a b < 65536 := by
  have ha := a.toNat_lt
  have hb := b.toNat_lt
  unfold ntohs
  omega

theorem ntohl_lt (a b c d : UInt8) : ntohl a b c d < 2 ^ 32 := by
  have h1 := ntohs_lt a b
  have h2 := ntohs_lt c d
  unfold ntohl
  omega

theorem xor_eq_add {a b : Nat} (hb : b < 2 ^ 32) : a * 2 ^ 32 ^^^ b = a * 2 ^ 32 + b := by
  apply Nat.eq_of_testBit_eq
  intro i
  rw [Nat.mul_comm, Nat.testBit_xor, Nat.testBit_two_pow_mul_add a hb, Nat.testBit_two_pow_mul]
  by_cases hi : i < 32
  · simp [hi, Nat.not_le.mpr hi]
  · have hbit : b.testBit i = false :=
      Nat.testBit_lt_two_pow (Nat.lt_of_lt_of_le hb (Nat.pow_le_pow_right (by decide) (by omega)))
    simp [hi, hbit, Nat.le_of_not_lt hi]

theorem toNat_ntohll {word0 word1 : Nat} (h0 : word0 < 2 ^ 32) (h1 : word1 < 2 ^ 32) :
    (ntohll word0 word1).toNat = word0 * 2 ^ 32 + word1 := by
  have hw1 : word1 % 2 ^ 64 = word1 := Nat.mod_eq_of_lt (by omega)
  have hlt : word0 * 2 ^ 32 % 2 ^ 64 = word0 * 2 ^ 32 := Nat.mod_eq_of_lt (by omega)
  have hshift : (UInt64.ofNat word0 <<< 32).toNat = word0 * 2 ^ 32 := by
    simpa [Nat.shiftLeft_eq] using hlt
  have hzero : (UInt64.ofNat word1 <<< 0).toNat = word1 := by simpa using hw1
  rw [ntohll, UInt64.toNat_xor, hshift, hzero, xor_eq_add h1]

/-- Counters of these sizes are read in network order. -/
theorem fieldToInt_eq {data : List UInt8} (h : data.length ∈ [1, 2, 4, 8]) :
    (fieldToInt data).toNat = ofOctets data := by
  match data, h with
  | [a], _ => simp [fieldToInt, ofOctets]
  | [a, b], _ =>
    have := ntohs_lt a b
    simp [fieldToInt, ofOctets, ntohs] at this ⊢
    omega
  | [a, b, c, d], _ =>
    have := ntohl_lt a b c d
    simp [fieldToInt, ofOctets, ntohl, ntohs] at this ⊢
    omega
  | [a, b, c, d, e, f, g, h], _ =>
    rw [fieldToInt, toNat_ntohll (ntohl_lt a b c d) (ntohl_lt e f g h)]
    simp [ofOctets, ntohl, ntohs]
    omega

/-! ## Keys and tables -/

/-- mirrors detectionmodules/detectionbase/ipaddress.h:99-110 -/
structure IpAddress where
  a : UInt8
  b : UInt8
  c : UInt8
  d : UInt8
  deriving DecidableEq, Repr

/-- The members of a `Quintuple`, as the octets that they have in memory. -/
structure QuintupleKey where
  srcIp : IpAddress
  dstIp : IpAddress
  proto : UInt8
  srcPort : UInt8 × UInt8
  dstPort : UInt8 × UInt8
  deriving DecidableEq, Repr

namespace QuintupleKey

def reset : QuintupleKey := ⟨⟨0, 0, 0, 0⟩, ⟨0, 0, 0, 0⟩, 0, (0, 0), (0, 0)⟩

/-- One octet of padding follows `proto`, and one is left over.
mirrors detectionmodules/countmodule/bloomfilter.h:75-99 -/
def data (k : QuintupleKey) : List UInt8 :=
  [k.srcIp.a, k.srcIp.b, k.srcIp.c, k.srcIp.d, k.dstIp.a, k.dstIp.b, k.dstIp.c,
    k.dstIp.d, k.proto, 0,
    k.srcPort.1, k.srcPort.2, k.dstPort.1, k.dstPort.2, 0]

end QuintupleKey

/-- mirrors detectionmodules/countmodule/countstore.h:32-47 -/
structure Counters where
  octetCount : UInt64
  packetCount : UInt64
  flowCount : UInt64
  deriving DecidableEq, Repr

def Counters.update (c : Counters) (octets packets flows : UInt64) : Counters :=
  ⟨c.octetCount + octets, c.packetCount + packets, c.flowCount + flows⟩

/-- A `std::map`. -/
abbrev CountMap (κ : Type) := AList fun _ : κ => Counters

namespace CountMap

variable {κ : Type} [DecidableEq κ]

def find (countmap : CountMap κ) (key : κ) : Option Counters := countmap.lookup key

/-- What the two functions below do with a table. A full table counts under `zero` what it has no
entry for; `maxSize` is what the map's `max_size` returns. -/
def update (countmap : CountMap κ) (maxSize : Nat) (zero key : κ) (octets packets : UInt64)
    (newFlowKey : Bool) : CountMap κ :=
  match countmap.find key with
  | some c => countmap.insert key (c.update octets packets (if newFlowKey then 1 else 0))
  | none =>
    if countmap.keys.length < maxSize - 1 then countmap.insert key ⟨octets, packets, 1⟩
    else
      match countmap.find zero with
      | some c => countmap.insert zero (c.update octets packets (if newFlowKey then 1 else 0))
      | none => countmap.insert zero ⟨octets, packets, 1⟩

@[simp] theorem find_empty (key : κ) : find ∅ key = none := rfl

theorem find_insert (countmap : CountMap κ) (key k : κ) (c : Counters) :
    find (countmap.insert key c) k = if k = key then some c else countmap.find k := by
  split
  · rename_i h
    rw [h]
    exact AList.lookup_insert countmap
  · rename_i h
    exact AList.lookup_insert_ne h

theorem find_eq_none {countmap : CountMap κ} {key : κ} :
    countmap.find key = none ↔ key ∉ countmap.keys :=
  AList.lookup_eq_none

/-- What an update makes of an entry, or of no entry. -/
def updated (octets packets : UInt64) (newFlowKey : Bool) : Option Counters → Counters
  | some c => c.update octets packets (if newFlowKey then 1 else 0)
  | none => ⟨octets, packets, 1⟩

/-- An update of a table that has the key, or room for it. -/
theorem find_update {countmap : CountMap κ} {maxSize : Nat} {zero key : κ} {octets packets : UInt64}
    {newFlowKey : Bool} (hroom : countmap.find key = none → countmap.keys.length < maxSize - 1)
    (k : κ) :
    (countmap.update maxSize zero key octets packets newFlowKey).find k =
      if k = key then some (updated octets packets newFlowKey (countmap.find key))
      else countmap.find k := by
  unfold update
  split
  · rename_i h
    rw [find_insert, h, updated]
  · rename_i h
    rw [if_pos (hroom h), find_insert, h, updated]

/-- The table grows by a key that it did not have. -/
theorem length_update {countmap : CountMap κ} {maxSize : Nat} {zero key : κ}
    {octets packets : UInt64}
    {newFlowKey : Bool} (hroom : countmap.find key = none → countmap.keys.length < maxSize - 1) :
    (countmap.update maxSize zero key octets packets newFlowKey).keys.length =
      countmap.keys.length + (if (countmap.find key).isNone then 1 else 0) := by
  unfold update
  split
  · rename_i c h
    have hmem : key ∈ countmap.keys := by
      by_contra hn
      rw [find_eq_none.mpr hn] at h
      cases h
    have hpos := List.length_pos_of_mem hmem
    rw [AList.keys_insert, List.length_cons, List.length_erase_of_mem hmem, h]
    simp
    omega
  · rename_i h
    rw [if_pos (hroom h), AList.keys_insert, List.length_cons,
      List.erase_of_not_mem (find_eq_none.mp h), h]
    simp

end CountMap

/-! ## The store -/

/-- The static members, and `max_size` of the two kinds of maps. -/
structure CountConfig where
  countPerSrcIp : Bool
  countPerDstIp : Bool
  countPerSrcPort : Bool
  countPerDstPort : Bool
  ipMaxSize : Nat
  portMaxSize : Nat

structure CountStore where
  srcIpCounts : CountMap IpAddress
  dstIpCounts : CountMap IpAddress
  srcPortCounts : CountMap UInt32
  dstPortCounts : CountMap UInt32
  srcIp : IpAddress
  dstIp : IpAddress
  srcPort : UInt32
  dstPort : UInt32
  octets : UInt64
  packets : UInt64
  flowKey : QuintupleKey
  recordStarted : Bool

namespace CountStore

open IpfixTypeId

/-- The members that a record is read into are whatever they are until `recordStart`.
mirrors detectionmodules/countmodule/countstore.h:58-61 -/
def init : CountStore :=
  ⟨∅, ∅, ∅, ∅, ⟨0, 0, 0, 0⟩, ⟨0, 0, 0, 0⟩, 0, 0, 0, 0, .reset, false⟩

/-- mirrors detectionmodules/countmodule/countstore.cpp:32-101 -/
def addFieldData (s : CountStore) (f : DataField) : CountStore :=
  if f.id = sourceIPv4Address then
    match f.fieldData with
    | a :: b :: c :: d :: _ =>
      { s with srcIp := ⟨a, b, c, d⟩, flowKey := { s.flowKey with srcIp := ⟨a, b, c, d⟩ } }
    | _ => s
  else if f.id = destinationIPv4Address then
    match f.fieldData with
    | a :: b :: c :: d :: _ =>
      { s with dstIp := ⟨a, b, c, d⟩, flowKey := { s.flowKey with dstIp := ⟨a, b, c, d⟩ } }
    | _ => s
  else if f.id = sourceTransportPort then
    match f.fieldData with
    | [a, b] =>
      { s with
        srcPort := (s.srcPort &&& 0xFFFF0000) + UInt32.ofNat (ntohs a b)
        flowKey := { s.flowKey with srcPort := (a, b) } }
    | _ => s
  else if f.id = destinationTransportPort then
    match f.fieldData with
    | [a, b] =>
      { s with
        dstPort := (s.dstPort &&& 0xFFFF0000) + UInt32.ofNat (ntohs a b)
        flowKey := { s.flowKey with dstPort := (a, b) } }
    | _ => s
  else if f.id = protocolIdentifier then
    match f.fieldData with
    | [a] =>
      { s with
        srcPort := (s.srcPort &&& (0x0000FFFF : UInt32)) + (a.toUInt32 <<< 16)
        dstPort := (s.dstPort &&& (0x0000FFFF : UInt32)) + (a.toUInt32 <<< 16)
        flowKey := { s.flowKey with proto := a } }
    | _ => s
  else if f.id = octetDeltaCount then { s with octets := fieldToInt f.fieldData }
  else if f.id = packetDeltaCount then { s with packets := fieldToInt f.fieldData }
  else s

/-- mirrors detectionmodules/countmodule/countstore.cpp:104-116 -/
def recordStart (s : CountStore) : Option CountStore :=
  if s.recordStarted then none
  else some { s with
    flowKey := .reset
    recordStarted := true
    srcIp := ⟨0, 0, 0, 0⟩
    dstIp := ⟨0, 0, 0, 0⟩
    srcPort := 0
    dstPort := 0
    packets := 0
    octets := 0 }

/-- mirrors detectionmodules/countmodule/countstore.cpp:194-233 -/
def updateIpCountMap (cfg : CountConfig) (s : CountStore) (countmap : CountMap IpAddress)
    (addr : IpAddress) (newFlowKey : Bool) : CountMap IpAddress :=
  countmap.update cfg.ipMaxSize ⟨0, 0, 0, 0⟩ addr s.octets s.packets newFlowKey

/-- mirrors detectionmodules/countmodule/countstore.cpp:235-274 -/
def updatePortCountMap (cfg : CountConfig) (s : CountStore) (countmap : CountMap UInt32)
    (port : UInt32) (newFlowKey : Bool) : CountMap UInt32 :=
  countmap.update cfg.portMaxSize 0 port s.octets s.packets newFlowKey

/-- Whether the flow is new, `known` being what `testBeforeInsert` answers.
mirrors detectionmodules/countmodule/countstore.cpp:122-152 -/
def newFlowKey (cfg : CountConfig) (known : Bool) (s : CountStore) : Bool :=
  !known || (cfg.countPerSrcIp && (s.srcIpCounts.find s.srcIp).isNone) ||
    (cfg.countPerDstIp && (s.dstIpCounts.find s.dstIp).isNone) ||
    (cfg.countPerSrcPort && (s.srcPortCounts.find s.srcPort).isNone) ||
    (cfg.countPerDstPort && (s.dstPortCounts.find s.dstPort).isNone)

/-- mirrors detectionmodules/countmodule/countstore.cpp:162-192 -/
def updateTables (cfg : CountConfig) (s : CountStore) (new : Bool) : CountStore :=
  { s with
    srcIpCounts :=
      if cfg.countPerSrcIp then s.updateIpCountMap cfg s.srcIpCounts s.srcIp new else s.srcIpCounts
    dstIpCounts :=
      if cfg.countPerDstIp then s.updateIpCountMap cfg s.dstIpCounts s.dstIp new else s.dstIpCounts
    srcPortCounts :=
      if cfg.countPerSrcPort then s.updatePortCountMap cfg s.srcPortCounts s.srcPort new else
        s.srcPortCounts
    dstPortCounts :=
      if cfg.countPerDstPort then s.updatePortCountMap cfg s.dstPortCounts s.dstPort new else
        s.dstPortCounts
    recordStarted := false }

/-- `bfilter` is shared by all stores. -/
def recordEnd (cfg : CountConfig) (random : Rng) (bfilter : BloomFilter) (s : CountStore) :
    Option (BloomFilter × CountStore) :=
  if s.recordStarted then do
    let (known, bfilter) ← bfilter.testBeforeInsert random s.flowKey.data
    some (bfilter, s.updateTables cfg (s.newFlowKey cfg known))
  else none

/-- One record, from `recordStart` to `recordEnd`. -/
def record (cfg : CountConfig) (random : Rng) (bfilter : BloomFilter) (s : CountStore)
    (r : DataRecord) :
    Option (BloomFilter × CountStore) := do
  let s ← s.recordStart
  (r.foldl addFieldData s).recordEnd cfg random bfilter

/-- An interval: a new store, whose constructor clears the filter, and the records. -/
def run (cfg : CountConfig) (random : Rng) (bfilter : BloomFilter) (records : List DataRecord) :
    Option (BloomFilter × CountStore) :=
  records.foldlM (fun (bfilter, s) r => s.record cfg random bfilter r) (bfilter.clear, init)

end CountStore

end Topas
