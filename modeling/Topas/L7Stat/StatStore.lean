import Mathlib.Data.UInt
import Topas.Core.Ledger
import Topas.L7Stat.Metrics

/-!
# The storage of the statistical module

`statmodules/wkp-module/stat-store.cpp`: of every record the store takes two end points,
source and destination, and adds the record's packets and bytes to the entries of both in the
interval's map. An end point gets an entry only if it is on `endPointList`. That list is
static: it outlives the store, which is made anew for every interval, and nothing is ever
removed from it.

`StatStore.addFieldData_eq` says what a field does: it sets the member of its kind, or nothing.
`interval_ledger` makes a store a `Ledger` whose accounts are the end points: a record is a
posting to its source and one to its destination.
-/
namespace Topas

/-! ## Addresses -/

/-- For the literals of netmasks. -/
instance neZeroNetmask : NeZero 33 := ⟨by decide⟩

/-- The string that `remanent_mask` picks, read as a number.
mirrors detectionmodules/detectionbase/ipaddress.cpp:119-156 -/
def netmasks : List UInt32 :=
  [0x00000000, 0x80000000, 0xC0000000, 0xE0000000, 0xF0000000, 0xF8000000, 0xFC000000, 0xFE000000,
    0xFF000000, 0xFF800000, 0xFFC00000, 0xFFE00000, 0xFFF00000, 0xFFF80000, 0xFFFC0000, 0xFFFE0000,
    0xFFFF0000, 0xFFFF8000, 0xFFFFC000, 0xFFFFE000, 0xFFFFF000, 0xFFFFF800, 0xFFFFFC00, 0xFFFFFE00,
    0xFFFFFF00, 0xFFFFFF80, 0xFFFFFFC0, 0xFFFFFFE0, 0xFFFFFFF0, 0xFFFFFFF8, 0xFFFFFFFC, 0xFFFFFFFE,
    0xFFFFFFFF]

/-- mirrors detectionmodules/detectionbase/ipaddress.cpp:119-167 -/
def IpAddress.remanentMask (ip : IpAddress) (nmask : Fin 33) : IpAddress :=
  let mask := netmasks.getD nmask 0
  ⟨ip.a &&& (mask >>> 24).toUInt8, ip.b &&& (mask >>> 16).toUInt8, ip.c &&& (mask >>> 8).toUInt8,
    ip.d &&& mask.toUInt8⟩

namespace Wkp

/-! ## End points and filters -/

namespace EndPoint

/-- `EndPoint(IpAddress(0,0,0,0),0,0)`. -/
def zero : EndPoint := ⟨⟨0, 0, 0, 0⟩, 0, 0⟩

def applyNetmask (e : EndPoint) (n : Fin 33) : EndPoint :=
    { e with ipAddr := e.ipAddr.remanentMask n }

end EndPoint

/-- `setNetmask`, `fromString` and the constructor leave `nmask` between 0 and 32.
mirrors detectionmodules/statmodules/wkp-module/shared.h:135-171 -/
structure FilterEndPoint extends EndPoint where
  nmask : Fin 33
  deriving DecidableEq, Repr

/-- mirrors detectionmodules/statmodules/wkp-module/shared.cpp:106-120 -/
def FilterEndPoint.matchesWithEndPoint (f : FilterEndPoint) (ep : EndPoint) (netmask : Fin 33) :
    Bool :=
  let tmp := if f.nmask < netmask ∧ 0 < f.nmask ∧ f.nmask < 32 then ep.applyNetmask f.nmask else ep
  (tmp.ipAddr = f.ipAddr || f.nmask = 0) && (tmp.portNr = f.portNr || f.portNr = -1) &&
    (tmp.protocolID = f.protocolID || f.protocolID = -1)

/-- The static members that `Stat::init` sets; it refuses a `netmask` that is not between 0 and
32. -/
structure StoreConfig where
  netmask : Fin 33
  ipMonitoring : Bool
  portMonitoring : Bool
  protocolMonitoring : Bool
  endPointListMaxSize : Int32
  monitorEveryEndPoint : Bool
  endPointFilter : List FilterEndPoint

namespace StoreConfig

/-- mirrors detectionmodules/statmodules/wkp-module/stat-store.cpp:359-370 -/
def monitorEndPoint (cfg : StoreConfig) (ep : EndPoint) : Bool :=
  cfg.endPointFilter.any (·.matchesWithEndPoint ep cfg.netmask)

/-- The filter of `recordEnd` and of `operator>>`. -/
def monitors (cfg : StoreConfig) (ep : EndPoint) : Bool :=
    cfg.monitorEndPoint ep || cfg.monitorEveryEndPoint

/-- The `int`, converted to the type of `size()` for the comparison. -/
def maxSize (cfg : StoreConfig) : Nat := cfg.endPointListMaxSize.toInt64.toUInt64.toNat

end StoreConfig

/-! ## The store -/

namespace Info

variable (packets bytes : UInt64)

/-- What `recordEnd` adds to the entry of a source, and the entry of a source that it lists. -/
def send (it : Info) : Info :=
  { it with
    packetsOut := it.packetsOut + packets
    bytesOut := it.bytesOut + bytes
    recordsOut := it.recordsOut + 1 }

def sent : Info := ⟨0, packets, 0, bytes, 0, 1⟩

/-- The same for a destination. -/
def receive (it : Info) : Info :=
  { it with
    packetsIn := it.packetsIn + packets
    bytesIn := it.bytesIn + bytes
    recordsIn := it.recordsIn + 1 }

def received : Info := ⟨packets, 0, bytes, 0, 1, 0⟩

end Info

/-- mirrors detectionmodules/statmodules/wkp-module/stat-store.h:38-128 -/
structure StatStore where
  packetNb : UInt64
  byteNb : UInt64
  eSource : EndPoint
  eDest : EndPoint
  data : Interval
  /-- A static member, which a new store finds as the one before left it. -/
  endPointList : List EndPoint

/-- What a store is handed of a record, and what `beginMonitoring` is then. -/
structure StatRecord where
  beginMonitoring : Bool
  fields : DataRecord

namespace StatStore

open IpfixTypeId

def new (endPointList : List EndPoint) : StatStore := ⟨0, 0, .zero, .zero, ∅, endPointList⟩

/-- mirrors detectionmodules/statmodules/wkp-module/stat-store.cpp:45-55 -/
def recordStart (s : StatStore) (beginMonitoring : Bool) : Option StatStore :=
  if beginMonitoring then some
    { s with packetNb := 0, byteNb := 0, eSource := .zero, eDest := .zero }
  else none

/-- A field of another length is skipped, and the record goes on.
mirrors detectionmodules/statmodules/wkp-module/stat-store.cpp:57-171 -/
def addFieldData (cfg : StoreConfig) (s : StatStore) (f : DataField) : StatStore :=
  if f.id = protocolIdentifier then
    match f.fieldData with
    | [p] =>
      { s with
        eSource := { s.eSource with protocolID := p.toUInt32.toInt32 }
        eDest := { s.eDest with protocolID := p.toUInt32.toInt32 } }
    | _ => s
  else if f.id = sourceIPv4Address then
    match f.fieldData with
    | [a, b, c, d] =>
      { s with eSource :=
        { s.eSource with ipAddr := IpAddress.remanentMask ⟨a, b, c, d⟩ cfg.netmask } }
    | _ => s
  else if f.id = destinationIPv4Address then
    match f.fieldData with
    | [a, b, c, d] =>
      { s with eDest := { s.eDest with ipAddr := IpAddress.remanentMask ⟨a, b, c, d⟩ cfg.netmask } }
    | _ => s
  else if f.id = sourceTransportPort then
    if f.fieldData.length = 2 ∨ f.fieldData.length = 1 then
      { s with eSource := { s.eSource with portNr := (fieldToInt f.fieldData).toUInt32.toInt32 } }
    else s
  else if f.id = destinationTransportPort then
    if f.fieldData.length = 2 ∨ f.fieldData.length = 1 then
      { s with eDest := { s.eDest with portNr := (fieldToInt f.fieldData).toUInt32.toInt32 } }
    else s
  else if f.id = packetDeltaCount then
    match f.fieldData with
    | [a, b, c, d, e, f, g, h] => { s with packetNb := ntohll (ntohl a b c d) (ntohl e f g h) }
    | _ => s
  else if f.id = octetDeltaCount then
    match f.fieldData with
    | [a, b, c, d, e, f, g, h] => { s with byteNb := ntohll (ntohl a b c d) (ntohl e f g h) }
    | _ => s
  else s

/-- What `recordEnd` and `operator>>` do with an end point: `add` is what they do to an entry,
`newinfo` the entry of an end point that comes on the list. `Data[e]` makes an entry of zeros,
`Data.insert` leaves one that exists. -/
def account (cfg : StoreConfig) (s : StatStore) (e : EndPoint) (add : Info → Info)
    (newinfo : Info) :
    StatStore :=
  if cfg.monitors e then
    if e ∈ s.endPointList then
      match s.data.lookup e with
      | some info => { s with data := s.data.insert e (add info) }
      | none => { s with data := s.data.insert e (add .zero) }
    else if s.endPointList.length < cfg.maxSize then
      { s with
        data := if (s.data.lookup e).isSome then s.data else s.data.insert e newinfo
        endPointList := s.endPointList ++ [e] }
    else s
  else s

/-- The two halves are those of the source and of the destination.
mirrors detectionmodules/statmodules/wkp-module/stat-store.cpp:177-264 -/
def recordEnd (cfg : StoreConfig) (s : StatStore) : StatStore :=
  let s := s.account cfg s.eSource (.send s.packetNb s.byteNb) (.sent s.packetNb s.byteNb)
  s.account cfg s.eDest (.receive s.packetNb s.byteNb) (.received s.packetNb s.byteNb)

/-- The callbacks for one record. -/
def record (cfg : StoreConfig) (s : StatStore) (r : StatRecord) : StatStore :=
  match s.recordStart r.beginMonitoring with
  | none => s
  | some s => (r.fields.foldl (addFieldData cfg) s).recordEnd cfg

/-- The store of an interval, which finds the list `endPointList`. -/
def interval (cfg : StoreConfig) (endPointList : List EndPoint) (records : List StatRecord) :
    StatStore :=
  records.foldl (record cfg) (.new endPointList)

/-- The list after some intervals. -/
def listAfter (cfg : StoreConfig) (intervals : List (List StatRecord)) : List EndPoint :=
  intervals.foldl (fun list records => (interval cfg list records).endPointList) []

end StatStore

/-! ## What a field says -/

section Kinds

open IpfixTypeId

/-- What a field says about a part of an end point, if it is of this kind and can be used. -/
def addressOf (id : Int) (f : DataField) : Option IpAddress :=
  match f.fieldData with
  | [a, b, c, d] => if f.id = id then some ⟨a, b, c, d⟩ else none
  | _ => none

def portOf (id : Int) (f : DataField) : Option Int32 :=
  if f.id = id ∧ (f.fieldData.length = 2 ∨ f.fieldData.length = 1) then
    some (fieldToInt f.fieldData).toUInt32.toInt32
  else none

def protocolOf (f : DataField) : Option Int32 :=
  match f.fieldData with
  | [p] => if f.id = protocolIdentifier then some p.toUInt32.toInt32 else none
  | _ => none

def counterOf (id : Int) (f : DataField) : Option UInt64 :=
  match f.fieldData with
  | [a, b, c, d, e, g, h, i] =>
    if f.id = id then some (ntohll (ntohl a b c d) (ntohl e g h i)) else none
  | _ => none

variable {id : Int} {f : DataField}

theorem addressOf_of_ne (h : f.id ≠ id) : addressOf id f = none := by
  unfold addressOf
  split
  · exact if_neg h
  · rfl

theorem portOf_of_ne (h : f.id ≠ id) : portOf id f = none := if_neg fun hp => h hp.1

theorem protocolOf_of_ne (h : f.id ≠ protocolIdentifier) : protocolOf f = none := by
  unfold protocolOf
  split
  · exact if_neg h
  · rfl

theorem counterOf_of_ne (h : f.id ≠ id) : counterOf id f = none := by
  unfold counterOf
  split
  · exact if_neg h
  · rfl

/-- An end point with the parts that the field gives. -/
def EndPoint.read (cfg : StoreConfig) (address port : Int) (e : EndPoint) (f : DataField) :
    EndPoint :=
  ⟨((addressOf address f).map (·.remanentMask cfg.netmask)).getD e.ipAddr,
    (portOf port f).getD e.portNr,
    (protocolOf f).getD e.protocolID⟩

/-- Every member is set by the fields of its own kinds. -/
theorem StatStore.addFieldData_eq (cfg : StoreConfig) (s : StatStore) (f : DataField) :
    s.addFieldData cfg f = { s with
      packetNb := (counterOf packetDeltaCount f).getD s.packetNb
      byteNb := (counterOf octetDeltaCount f).getD s.byteNb
      eSource := s.eSource.read cfg sourceIPv4Address sourceTransportPort f
      eDest := s.eDest.read cfg destinationIPv4Address destinationTransportPort f } := by
  unfold addFieldData EndPoint.read
  -- One branch a kind, of the protocol, the addresses, the ports and the counters; of the other
  -- kinds the field says nothing.
  split
  · rename_i hid
    simp (disch := rw [hid]; decide) only [addressOf_of_ne, portOf_of_ne, counterOf_of_ne,
      Option.map_none,
      Option.getD_none]
    unfold protocolOf
    split <;> simp [*]
  iterate 2
    split
    · rename_i hid
      simp (disch := rw [hid]; decide) only [addressOf_of_ne, portOf_of_ne, protocolOf_of_ne,
        counterOf_of_ne,
        Option.map_none, Option.getD_none]
      unfold addressOf
      split <;> simp [*]
  iterate 2
    split
    · rename_i hid
      simp (disch := rw [hid]; decide) only [addressOf_of_ne, portOf_of_ne, protocolOf_of_ne,
        counterOf_of_ne,
        Option.map_none, Option.getD_none]
      unfold portOf
      split <;> simp [*]
  iterate 2
    split
    · rename_i hid
      simp (disch := rw [hid]; decide) only [addressOf_of_ne, portOf_of_ne, protocolOf_of_ne,
        counterOf_of_ne,
        Option.map_none, Option.getD_none]
      unfold counterOf
      split <;> simp [*]
  · rename_i h1 h2 h3 h4 h5 h6 h7
    simp only [addressOf_of_ne h2, addressOf_of_ne h3, portOf_of_ne h4, portOf_of_ne h5,
      protocolOf_of_ne h1,
      counterOf_of_ne h6, counterOf_of_ne h7, Option.map_none, Option.getD_none]

end Kinds

/-! ## What is counted -/

/-- What a store has of a record at its end. -/
structure Observation where
  source : EndPoint
  dest : EndPoint
  packets : UInt64
  bytes : UInt64
  deriving DecidableEq, Repr

/-- The members that a record is read into. -/
def StatStore.observation (s : StatStore) : Observation :=
    ⟨s.eSource, s.eDest, s.packetNb, s.byteNb⟩

/-- A record that is taken, if the store's list is of no account. -/
def StatRecord.observe (cfg : StoreConfig) (r : StatRecord) : Option Observation :=
  if r.beginMonitoring then some (r.fields.foldl (StatStore.addFieldData cfg) (.new [])).observation
  else none

/-- The six counters of an end point after these records, modulo 2^64. -/
structure Tally (os : List Observation) (e : EndPoint) (info : Info) : Prop where
  packetsIn : info.packetsIn.toNat = ((os.filter (·.dest = e)).map (·.packets.toNat)).sum % 2 ^ 64
  packetsOut : info.packetsOut.toNat =
    ((os.filter (·.source = e)).map (·.packets.toNat)).sum % 2 ^ 64
  bytesIn : info.bytesIn.toNat = ((os.filter (·.dest = e)).map (·.bytes.toNat)).sum % 2 ^ 64
  bytesOut : info.bytesOut.toNat = ((os.filter (·.source = e)).map (·.bytes.toNat)).sum % 2 ^ 64
  recordsIn : info.recordsIn.toNat = (os.filter (·.dest = e)).length % 2 ^ 64
  recordsOut : info.recordsOut.toNat = (os.filter (·.source = e)).length % 2 ^ 64

/-! ## The store as a ledger -/

namespace Info

instance : Zero Info := ⟨zero⟩

instance : Add Info where
  add i j := ⟨i.packetsIn + j.packetsIn, i.packetsOut + j.packetsOut, i.bytesIn + j.bytesIn,
    i.bytesOut + j.bytesOut, i.recordsIn + j.recordsIn, i.recordsOut + j.recordsOut⟩

theorem zero_eq : zero = 0 := rfl

theorem zero_def : (0 : Info) = ⟨0, 0, 0, 0, 0, 0⟩ := rfl

theorem add_def (i j : Info) : i + j = ⟨i.packetsIn + j.packetsIn, i.packetsOut + j.packetsOut,
    i.bytesIn + j.bytesIn, i.bytesOut + j.bytesOut, i.recordsIn + j.recordsIn,
    i.recordsOut + j.recordsOut⟩ := rfl

instance : AddCommMonoid Info where
  add_assoc i j k := by simp [add_def, UInt64.add_assoc]
  zero_add i := by simp [add_def, zero_def]
  add_zero i := by simp [add_def, zero_def]
  add_comm i j := by simp [add_def, UInt64.add_comm]
  nsmul := nsmulRec

theorem send_eq (packets bytes : UInt64) (i : Info) :
    i.send packets bytes = i + sent packets bytes := by
  simp [send, sent, add_def]

theorem receive_eq (packets bytes : UInt64) (i : Info) :
    i.receive packets bytes = i + received packets bytes := by
  simp [receive, received, add_def]

end Info

/-- What a record counts for its source and for its destination. -/
def Observation.postings (o : Observation) : List (EndPoint × Info) :=
  [(o.source, .sent o.packets o.bytes), (o.dest, .received o.packets o.bytes)]

namespace StatStore

def ledger (s : StatStore) : Ledger EndPoint Info := ⟨s.endPointList, s.data⟩

variable {cfg : StoreConfig} {s : StatStore} {ps : List (EndPoint × Info)}

/-- As long as all entries are of listed end points, `account` is a posting. -/
theorem account_ledger (cfg : StoreConfig) (hkeys : ∀ e ∈ s.data.keys, e ∈ s.endPointList)
    (e : EndPoint) {add : Info → Info} {newinfo : Info} (hadd : ∀ i, add i = i + newinfo) :
    (s.account cfg e add newinfo).ledger = s.ledger.post cfg.monitors cfg.maxSize (e, newinfo) := by
  unfold account Ledger.post
  by_cases hmon : cfg.monitors e = true
  · rw [if_pos hmon, if_pos hmon]
    by_cases hlisted : e ∈ s.endPointList
    · rw [if_pos hlisted, if_pos (show e ∈ s.ledger.listed from hlisted)]
      cases hlookup : s.data.lookup e with
      | some info => simp [ledger, hlookup, hadd]
      | none => simp [ledger, hlookup, hadd, Info.zero_eq]
    · rw [if_neg hlisted, if_neg (show e ∉ s.ledger.listed from hlisted)]
      have hnone : s.data.lookup e = none :=
        AList.lookup_eq_none.mpr fun hmem => hlisted (hkeys e hmem)
      by_cases hroom : s.endPointList.length < cfg.maxSize
      · simp [ledger, hroom, hnone]
      · simp [ledger, hroom]
  · rw [if_neg hmon, if_neg hmon]

/-- The end points and the numbers of a record are none of `account`'s business. -/
theorem observation_account (cfg : StoreConfig) (s : StatStore) (e : EndPoint) (add : Info → Info)
    (newinfo : Info) :
    (s.account cfg e add newinfo).observation = s.observation := by
  unfold account
  repeat' split
  all_goals rfl

theorem recordEnd_ledger (h : Ledger.Balanced cfg.monitors cfg.maxSize s.ledger ps) :
    (s.recordEnd cfg).ledger = s.ledger.run cfg.monitors cfg.maxSize s.observation.postings := by
  have hout := account_ledger cfg h.keys s.eSource (Info.send_eq s.packetNb s.byteNb)
  have hobs :=
    s.observation_account cfg s.eSource (.send s.packetNb s.byteNb) (.sent s.packetNb s.byteNb)
  have hnext := h.post (s.eSource, Info.sent s.packetNb s.byteNb)
  rw [← hout] at hnext
  unfold recordEnd
  extract_lets t
  -- the second half still finds the record
  have hdest : t.eDest = s.eDest := congrArg Observation.dest hobs
  have hpackets : t.packetNb = s.packetNb := congrArg Observation.packets hobs
  have hbytes : t.byteNb = s.byteNb := congrArg Observation.bytes hobs
  rw [account_ledger cfg hnext.keys t.eDest (Info.receive_eq t.packetNb t.byteNb), hdest,
    hpackets, hbytes,
    hout]
  rfl

/-- Reading a field does not touch what is counted, and does not look at it. -/
theorem addFieldData_congr (cfg : StoreConfig) (s t : StatStore) (f : DataField)
    (h : s.observation = t.observation) :
    (s.addFieldData cfg f).observation = (t.addFieldData cfg f).observation ∧
      (s.addFieldData cfg f).ledger = s.ledger := by
  simp only [observation, Observation.mk.injEq] at h
  obtain ⟨h1, h2, h3, h4⟩ := h
  rw [addFieldData_eq, addFieldData_eq]
  exact ⟨by simp only [observation, h1, h2, h3, h4], rfl⟩

theorem foldl_addFieldData (cfg : StoreConfig) (fields : DataRecord) (s t : StatStore)
    (h : s.observation = t.observation) :
    (fields.foldl (addFieldData cfg) s).observation =
      (fields.foldl (addFieldData cfg) t).observation ∧
      (fields.foldl (addFieldData cfg) s).ledger = s.ledger := by
  induction fields generalizing s t with
  | nil => exact ⟨h, rfl⟩
  | cons f fields ih =>
    obtain ⟨hobs, hledger⟩ := addFieldData_congr cfg s t f h
    obtain ⟨hobs', hledger'⟩ := ih _ _ hobs
    exact ⟨hobs', hledger'.trans hledger⟩

theorem record_ledger (h : Ledger.Balanced cfg.monitors cfg.maxSize s.ledger ps) (r : StatRecord) :
    (s.record cfg r).ledger =
      s.ledger.run cfg.monitors cfg.maxSize
      ((r.observe cfg).toList.flatMap Observation.postings) := by
  unfold record recordStart StatRecord.observe
  cases r.beginMonitoring with
  | false => rfl
  | true =>
    obtain ⟨t, ht⟩ : ∃ t : StatStore,
        t = { s with packetNb := 0, byteNb := 0, eSource := .zero, eDest := .zero } :=
      ⟨_, rfl⟩
    have hstart : t.observation = (new []).observation := by rw [ht]; rfl
    obtain ⟨hobs, hledger⟩ := foldl_addFieldData cfg r.fields t (new []) hstart
    have hledger : (r.fields.foldl (addFieldData cfg) t).ledger = s.ledger :=
      by rw [hledger, ht]; rfl
    have hend := recordEnd_ledger (hledger ▸ h)
    rw [hobs, hledger] at hend
    simpa [← ht] using hend

/-- The records of an interval post what is taken of them. -/
theorem records_ledger (h : Ledger.Balanced cfg.monitors cfg.maxSize s.ledger ps)
    (records : List StatRecord) :
    (records.foldl (record cfg) s).ledger = s.ledger.run cfg.monitors cfg.maxSize
      ((records.filterMap (·.observe cfg)).flatMap Observation.postings) := by
  induction records generalizing s ps with
  | nil => rfl
  | cons r records ih =>
    have hnext := h.run ((r.observe cfg).toList.flatMap Observation.postings)
    rw [← record_ledger h r] at hnext
    rw [List.foldl_cons, ih hnext, record_ledger h r, Ledger.run, Ledger.run, ← List.foldl_append]
    cases hr : r.observe cfg <;> simp [Ledger.run, hr]

/-- What may be on the list when an interval begins. -/
abbrev ListSound (cfg : StoreConfig) (endPointList : List EndPoint) : Prop :=
  Ledger.Admissible cfg.monitors cfg.maxSize endPointList

theorem interval_ledger {endPointList : List EndPoint} (h : ListSound cfg endPointList)
    (records : List StatRecord) :
    (interval cfg endPointList records).ledger =
      (Ledger.new endPointList).run cfg.monitors cfg.maxSize
      ((records.filterMap (·.observe cfg)).flatMap Observation.postings) :=
  records_ledger (s := new endPointList) h.new records

theorem interval_balanced {endPointList : List EndPoint} (h : ListSound cfg endPointList)
    (records : List StatRecord) :
    Ledger.Balanced cfg.monitors cfg.maxSize (interval cfg endPointList records).ledger
      ((records.filterMap (·.observe cfg)).flatMap Observation.postings) := by
  rw [interval_ledger h]
  exact h.run _

theorem listSound_listAfter (cfg : StoreConfig) (intervals : List (List StatRecord)) :
    ListSound cfg (listAfter cfg intervals) := by
  induction intervals using List.reverseRecOn with
  | nil => exact ⟨List.nodup_nil, Nat.zero_le _, by simp [listAfter]⟩
  | append_singleton intervals records ih =>
    have h := interval_balanced ih records
    unfold listAfter at h ⊢
    rw [List.foldl_append]
    exact h.toAdmissible

end StatStore

/-- The total of the postings that a list of records makes to an end point. -/
theorem tally_amounts (os : List Observation) (e : EndPoint) :
    Tally os e (Ledger.amounts (os.flatMap Observation.postings) e).sum := by
  induction os with
  | nil => constructor <;> rfl
  | cons o os ih =>
    obtain ⟨h1, h2, h3, h4, h5, h6⟩ := ih
    rw [List.flatMap_cons, Ledger.amounts_append, List.sum_append]
    generalize (Ledger.amounts (os.flatMap Observation.postings) e).sum = info at *
    by_cases hs : o.source = e <;> by_cases hd : o.dest = e <;> constructor <;>
      simp [Ledger.amounts, Observation.postings, hs, hd, Info.sent, Info.received, Info.add_def,
        Info.zero_def, h1, h2, h3, h4, h5, h6, UInt64.toNat_add, Nat.add_comm]

theorem StoreConfig.maxSize_eq {cfg : StoreConfig} (h : 0 ≤ cfg.endPointListMaxSize.toInt) :
    (cfg.maxSize : Int) = cfg.endPointListMaxSize.toInt := by
  have h64 : cfg.endPointListMaxSize.toInt64.toInt = cfg.endPointListMaxSize.toInt :=
    Int32.toInt_toInt64 _
  rw [← h64] at h ⊢
  unfold maxSize
  rw [← Int64.toNat_toBitVec]
  rw [← Int64.toInt_toBitVec] at h ⊢
  generalize cfg.endPointListMaxSize.toInt64.toBitVec = x at h ⊢
  rw [BitVec.toInt_eq_toNat_cond] at h ⊢
  have := x.isLt
  split at h
  · rename_i hlt
    rw [if_pos hlt]
  · omega

/-- The keys of the interval's map are on the list, the list has no duplicates and is no longer
than it may be, and the counters of every end point on it are those of all the records of the
interval in which it is destination or source. -/
theorem store_accounts (cfg : StoreConfig) (hmax : 0 ≤ cfg.endPointListMaxSize.toInt)
    (before : List (List StatRecord)) (records : List StatRecord) :
    let s := StatStore.interval cfg (StatStore.listAfter cfg before) records
    (∀ e ∈ s.data.keys, e ∈ s.endPointList) ∧ s.endPointList.Nodup ∧
      (s.endPointList.length : Int) ≤ cfg.endPointListMaxSize.toInt ∧
      ∀ e ∈ s.endPointList, cfg.monitors e = true →
        Tally (records.filterMap (·.observe cfg)) e ((s.data.lookup e).getD .zero) := by
  intro s
  have h := StatStore.interval_balanced (StatStore.listSound_listAfter cfg before) records
  refine ⟨h.keys, h.nodup, ?_, ?_⟩
  · rw [← StoreConfig.maxSize_eq hmax]
    exact_mod_cast h.room
  · intro e he _
    have hlookup : s.data.lookup e = _ := h.lookup e he
    rw [hlookup, Info.zero_eq, Ledger.total_getD]
    exact tally_amounts _ e

/-- One end point at most, whole networks as end points. -/
def oneNetwork : StoreConfig :=
  { netmask := 24
    ipMonitoring := true
    portMonitoring := false
    protocolMonitoring := false
    endPointListMaxSize := 1
    monitorEveryEndPoint := true
    endPointFilter := [] }

/-- A record of a flow between two hosts. -/
def flowRecord (source dest : IpAddress) (octets : UInt8) : StatRecord :=
  { beginMonitoring := true
    fields :=
      [⟨IpfixTypeId.sourceIPv4Address, [source.a, source.b, source.c, source.d], 0⟩,
        ⟨IpfixTypeId.destinationIPv4Address, [dest.a, dest.b, dest.c, dest.d], 0⟩,
        ⟨IpfixTypeId.octetDeltaCount, [0, 0, 0, 0, 0, 0, 0, octets], 0⟩] }

/-- A flow within the listed network, and one to a network for which there is no room. -/
theorem store_accounts_network :
    let s := StatStore.interval oneNetwork [] [flowRecord ⟨10, 0, 0, 1⟩ ⟨10, 0, 0, 2⟩ 40,
      flowRecord ⟨10, 0, 0, 3⟩ ⟨10, 0, 1, 1⟩ 5]
    s.endPointList = [⟨⟨10, 0, 0, 0⟩, 0, 0⟩] ∧
      s.data.lookup ⟨⟨10, 0, 0, 0⟩, 0, 0⟩ = some ⟨0, 0, 40, 45, 1, 2⟩ ∧
      s.data.lookup ⟨⟨10, 0, 1, 0⟩, 0, 0⟩ = none ∧
      ∀ e ∈ s.endPointList, oneNetwork.monitors e = true →
        Tally
          ([flowRecord ⟨10, 0, 0, 1⟩ ⟨10, 0, 0, 2⟩ 40,
            flowRecord ⟨10, 0, 0, 3⟩ ⟨10, 0, 1, 1⟩ 5].filterMap
          (·.observe oneNetwork)) e ((s.data.lookup e).getD .zero) := by
  intro s
  exact ⟨by decide, by decide, by decide, (store_accounts oneNetwork (by decide) [] _).2.2.2⟩

end Wkp

end Topas
