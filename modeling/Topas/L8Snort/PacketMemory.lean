import Topas.Core.Bytes
import Topas.L8Snort.SnortStore

/-!
# The packet as it lies in memory

`snortstore.cpp` copies every field to the address of a member, as many octets as the field has, so
that a long one runs over the members behind. Here the packet is the octets of the object, laid out
as `pcappacket.h` declares it, and a copy may reach any of them; one that reaches the pointers of
the sections, which are last, is not followed.

* `law_iff`: every record of a template gives every attribute the octets of its own last field, and
  changes nothing else, exactly where the template fits the members and has no UDP or TCP
  destination port.
The layout is that of a host that aligns an integer to its size and is little-endian; up to the
pointers it is the same with pointers of 32 and of 64 bits.
-/
namespace Topas.Snort

/-- The members that a field is copied to.
mirrors detectionmodules/snortmodule/pcappacket.h:55-128 -/
inductive Member
  | hdrDestPort | hdrSrcPort
  | dscp | packetLength | identification | ttl | protocol | srcAddr | destAddr
  | seqNum | ackNum | flags | window | urg
  deriving DecidableEq

namespace Member

/-- The two flags come first, `HDR_IP` is at 16, `HDR_UDP` at 36 and `HDR_TCP` at 44. -/
@[simp] def offset : Member → Nat
  | hdrDestPort => 2
  | hdrSrcPort => 4
  | dscp => 17
  | packetLength => 18
  | identification => 20
  | ttl => 24
  | protocol => 25
  | srcAddr => 28
  | destAddr => 32
  | seqNum => 48
  | ackNum => 52
  | flags => 57
  | window => 58
  | urg => 62

@[simp] def size : Member → Nat
  | hdrDestPort | hdrSrcPort | packetLength | identification | window | urg => 2
  | dscp | ttl | protocol | flags => 1
  | srcAddr | destAddr | seqNum | ackNum => 4

def Contains (m : Member) (i : Nat) : Prop := m.offset ≤ i ∧ i < m.offset + m.size

/-- How many octets there are up to the next attribute; `ts_sec` is aligned. -/
@[simp] def room : Member → Nat
  | hdrSrcPort => 4
  | m => m.size

theorem size_le_room (m : Member) : m.size ≤ m.room := by
  cases m <;> decide

end Member

/-- Where `ts_sec` and `ts_usec` are; each has four octets. -/
def tsSec : Nat := 8

def tsUsec : Nat := 12

/-- Where the pointers begin. -/
def sectionPointers : Nat := 64

structure PacketMemory where
  mem : Mem
  /-- What `iphps_p` points to. -/
  iphps : List UInt8
  /-- What `ippps_p` points to. -/
  ippps : List UInt8

/-- A `uint32_t` in memory. -/
def le32 (n : UInt32) : List UInt8 := Mem.encLe16 (n.toNat % 65536) ++ Mem.encLe16 (n.toNat / 65536)

@[simp] theorem length_le32 (n : UInt32) : (le32 n).length = 4 := rfl

namespace PacketMemory

/-- `new PcapPacket` on a heap; the ports keep what is there.
mirrors detectionmodules/snortmodule/pcappacket.cpp:39, snortstore.cpp:147-153 -/
def new (heap : Mem) (now : UInt32) : PacketMemory where
  mem :=
    let packet := (heap.store 0 [0, 0]).store 8 (le32 now ++ le32 0)
    let packet := packet.store 16 (0x45 :: List.replicate 19 0)
    (packet.store 36 [0, 0, 0, 0, 12, 0, 0, 0]).store 48
      (List.replicate 8 0 ++ 0x50 :: List.replicate 7 0)
  iphps := []
  ippps := []

/-- `bcopy` to a member; `none` where it runs into the pointers. -/
def copy (p : PacketMemory) (m : Member) (data : List UInt8) : Option PacketMemory :=
  if m.offset + data.length ≤ sectionPointers then some { p with mem := p.mem.store m.offset data }
  else none

/-- A number is assigned to one of the timestamps. -/
def assign (p : PacketMemory) (offset : Nat) (n : UInt32) : PacketMemory :=
  { p with mem := p.mem.store offset (le32 n) }

/-- `packet->hdr_udp=true` -/
def markUdp (p : PacketMemory) : PacketMemory := { p with mem := p.mem.store 0 [1] }

/-- `packet->hdr_tcp=true` -/
def markTcp (p : PacketMemory) : PacketMemory := { p with mem := p.mem.store 1 [1] }

/-- mirrors detectionmodules/snortmodule/snortstore.cpp:132-136 -/
def setMilliSeconds (p : PacketMemory) (mstime : UInt64) : PacketMemory :=
  let sec := (mstime / 1000).toUInt32
  (p.assign tsSec sec).assign tsUsec ((mstime - (sec * 1000).toUInt64) * 1000).toUInt32

/-- mirrors detectionmodules/snortmodule/snortstore.cpp:43-145 -/
def addFieldData (p : PacketMemory) (f : DataField) : Option PacketMemory :=
  if f.id = Topas.IpfixTypeId.sourceIPv4Address then p.copy .srcAddr f.fieldData
  else if f.id = Topas.IpfixTypeId.destinationIPv4Address then p.copy .destAddr f.fieldData
  else if f.id = IpfixTypeId.classOfServiceIPv4 then p.copy .dscp f.fieldData
  else if f.id = IpfixTypeId.identificationV4 then p.copy .identification f.fieldData
  else if f.id = IpfixTypeId.ipTimeToLive then p.copy .ttl f.fieldData
  else if f.id = IpfixTypeId.totalLengthIPv4 then p.copy .packetLength f.fieldData
  else if f.id = Topas.IpfixTypeId.protocolIdentifier then p.copy .protocol f.fieldData
  else if f.id = Topas.IpfixTypeId.destinationTransportPort then p.copy .hdrDestPort f.fieldData
  else if f.id = Topas.IpfixTypeId.sourceTransportPort then p.copy .hdrSrcPort f.fieldData
  else if f.id = IpfixTypeId.tcpControlBits then p.markTcp.copy .flags f.fieldData
  else if f.id = IpfixTypeId.tcpSequenceNumber then p.markTcp.copy .seqNum f.fieldData
  else if f.id = IpfixTypeId.tcpAcknowledgementNumber then p.markTcp.copy .ackNum f.fieldData
  else if f.id = IpfixTypeId.tcpWindowSize then p.markTcp.copy .window f.fieldData
  else if f.id = 187 then p.markTcp.copy .urg f.fieldData
  else if f.id = IpfixTypeId.tcpSourcePort then p.markTcp.copy .hdrSrcPort f.fieldData
  else if f.id = IpfixTypeId.tcpDestinationPort then p.markTcp.copy .hdrSrcPort f.fieldData
  else if f.id = IpfixTypeId.udpSourcePort then p.markUdp.copy .hdrSrcPort f.fieldData
  else if f.id = IpfixTypeId.udpDestinationPort then p.markUdp.copy .hdrSrcPort f.fieldData
  else if f.id = 313 then some { p with iphps := f.fieldData }
  else if f.id = 314 then some { p with ippps := f.fieldData }
  else if f.id = IpfixTypeId.flowStartSeconds then
    some (p.assign tsSec (fieldToInt f.fieldData).toUInt32)
  else if f.id = IpfixTypeId.flowStartMilliSeconds then some
    (p.setMilliSeconds (fieldToInt f.fieldData))
  else if f.id = IpfixTypeId.flowStartMicroSeconds then
    some (p.assign tsUsec (fieldToInt f.fieldData).toUInt32)
  else some p

/-- The fields of a record, one after the other. -/
def addFields : PacketMemory → DataRecord → Option PacketMemory
  | p, [] => some p
  | p, f :: fs => (p.addFieldData f).bind (addFields · fs)

end PacketMemory

/-! ## What a field is for -/

inductive Attribute
  | member (m : Member)
  | iphps
  | ippps
  deriving DecidableEq

/-- The attribute that an IPFIX field describes. -/
def attributeOf (id : Int) : Option Attribute :=
  if id = Topas.IpfixTypeId.sourceIPv4Address then some (.member .srcAddr)
  else if id = Topas.IpfixTypeId.destinationIPv4Address then some (.member .destAddr)
  else if id = IpfixTypeId.classOfServiceIPv4 then some (.member .dscp)
  else if id = IpfixTypeId.identificationV4 then some (.member .identification)
  else if id = IpfixTypeId.ipTimeToLive then some (.member .ttl)
  else if id = IpfixTypeId.totalLengthIPv4 then some (.member .packetLength)
  else if id = Topas.IpfixTypeId.protocolIdentifier then some (.member .protocol)
  else if id = Topas.IpfixTypeId.destinationTransportPort then some (.member .hdrDestPort)
  else if id = Topas.IpfixTypeId.sourceTransportPort then some (.member .hdrSrcPort)
  else if id = IpfixTypeId.tcpControlBits then some (.member .flags)
  else if id = IpfixTypeId.tcpSequenceNumber then some (.member .seqNum)
  else if id = IpfixTypeId.tcpAcknowledgementNumber then some (.member .ackNum)
  else if id = IpfixTypeId.tcpWindowSize then some (.member .window)
  else if id = 187 then some (.member .urg)
  else if id = IpfixTypeId.tcpSourcePort then some (.member .hdrSrcPort)
  else if id = IpfixTypeId.tcpDestinationPort then some (.member .hdrDestPort)
  else if id = IpfixTypeId.udpSourcePort then some (.member .hdrSrcPort)
  else if id = IpfixTypeId.udpDestinationPort then some (.member .hdrDestPort)
  else if id = 313 then some .iphps
  else if id = 314 then some .ippps
  else none

/-- The timestamps that a field describes. -/
def timestamps (id : Int) : List Nat :=
  if id = IpfixTypeId.flowStartSeconds then [tsSec]
  else if id = IpfixTypeId.flowStartMilliSeconds then [tsSec, tsUsec]
  else if id = IpfixTypeId.flowStartMicroSeconds then [tsUsec]
  else []

/-- The destination ports of UDP and of TCP. -/
def TransportDestPort (id : Int) : Prop :=
  id = IpfixTypeId.udpDestinationPort ∨ id = IpfixTypeId.tcpDestinationPort

namespace PacketMemory

def get (p : PacketMemory) : Attribute → List UInt8
  | .member m => p.mem.slice m.offset m.size
  | .iphps => p.iphps
  | .ippps => p.ippps

/-- The octets of the packet without the flags and the padding behind the source port. -/
def InAttribute (i : Nat) : Prop := 2 ≤ i ∧ i < sectionPointers ∧ ¬ (6 ≤ i ∧ i < 8)

/-- Nothing but what the field is for is changed, the flags apart. -/
structure Frame (id : Int) (p q : PacketMemory) : Prop where
  octets : ∀ i, InAttribute i → (∀ m, attributeOf id = some (.member m) → ¬ m.Contains i) →
    (∀ t ∈ timestamps id, ¬ (t ≤ i ∧ i < t + 4)) → q.mem i = p.mem i
  iphps : attributeOf id ≠ some .iphps → q.iphps = p.iphps
  ippps : attributeOf id ≠ some .ippps → q.ippps = p.ippps

end PacketMemory

/-- Every field of the record changes only what it is for, and an attribute has the octets of the
last field for it in the end. -/
structure Law (start : PacketMemory) (r : DataRecord) : Prop where
  frame : ∀ pre f post, r = pre ++ f :: post →
    ∃ p q, start.addFields pre = some p ∧ p.addFieldData f = some q ∧ PacketMemory.Frame f.id p q
  value : ∀ pre f post a, r = pre ++ f :: post → attributeOf f.id = some a →
    (∀ g ∈ post, attributeOf g.id ≠ some a) → ∃ q, start.addFields r = some q ∧
      q.get a = f.fieldData

/-- Identifiers and lengths, as a template gives them. -/
abbrev RecordShape := List (Int × Nat)

def shape (r : DataRecord) : RecordShape := r.map fun f => (f.id, f.fieldData.length)

/-- The template fits the members. -/
structure Fits (t : RecordShape) : Prop where
  room : ∀ x ∈ t, ∀ m, attributeOf x.1 = some (.member m) → x.2 ≤ m.room
  destPort : ∀ x ∈ t, TransportDestPort x.1 → x.2 = 0
  size : ∀ pre x post m, t = pre ++ x :: post → attributeOf x.1 = some (.member m) →
    (∀ y ∈ post, attributeOf y.1 ≠ some (.member m)) → x.2 = m.size

namespace PacketMemory

/-! ## One field -/

/-- The member that the code copies a field to. -/
def target (id : Int) : Option Member :=
  if id = IpfixTypeId.udpDestinationPort ∨ id = IpfixTypeId.tcpDestinationPort then some .hdrSrcPort
  else
    match attributeOf id with
    | some (.member m) => some m
    | _ => none

/-- The flags are all that two packets may differ in. -/
structure SameMembers (p p' : PacketMemory) : Prop where
  mem : ∀ i, 2 ≤ i → p'.mem i = p.mem i
  iphps : p'.iphps = p.iphps
  ippps : p'.ippps = p.ippps

theorem sameMembers_refl (p : PacketMemory) : SameMembers p p := ⟨fun _ _ => rfl, rfl, rfl⟩

theorem sameMembers_markTcp (p : PacketMemory) : SameMembers p p.markTcp :=
  ⟨fun _ hi => Mem.store_other (Or.inr hi), rfl, rfl⟩

theorem sameMembers_markUdp (p : PacketMemory) : SameMembers p p.markUdp := by
  refine ⟨fun i hi => ?_, rfl, rfl⟩
  have hlt : 0 + [(1 : UInt8)].length ≤ i := Nat.le_of_succ_le hi
  exact Mem.store_other (Or.inr hlt)

/-- What a timestamp does not contain, its assignment leaves alone. -/
theorem mem_assign (p : PacketMemory) {t : Nat} (n : UInt32) {i : Nat}
    (hi : ¬ (t ≤ i ∧ i < t + 4)) :
    (p.assign t n).mem i = p.mem i := by
  refine Mem.store_other ?_
  rw [length_le32]
  omega

/-- A field is copied to the member `target` says, or goes where no other attribute is. -/
inductive Outcome (p : PacketMemory) (f : DataField) : Option PacketMemory → Prop
  | copied {m : Member} {p' : PacketMemory} : target f.id = some m → SameMembers p p' →
      Outcome p f (p'.copy m f.fieldData)
  | other {q : PacketMemory} : target f.id = none → Frame f.id p q →
      (∀ a, attributeOf f.id = some a → q.get a = f.fieldData) → Outcome p f (some q)

theorem Outcome.ite {p p' : PacketMemory} {f : DataField} {id : Int} {m : Member}
    {rest : Option PacketMemory} (htarget : target id = some m) (hsame : SameMembers p p')
    (h : f.id ≠ id → Outcome p f rest) :
    Outcome p f (if f.id = id then p'.copy m f.fieldData else rest) := by
  split
  · rename_i hid
    exact .copied (hid ▸ htarget) hsame
  · rename_i hid
    exact h hid

/-- A timestamp is the only thing that its assignment changes. -/
theorem outcome_times {p q : PacketMemory} {f : DataField} (htarget : target f.id = none)
    (hattribute : attributeOf f.id = none) (hiphps : q.iphps = p.iphps) (hippps : q.ippps = p.ippps)
    (hmem : ∀ i, (∀ t ∈ timestamps f.id, ¬ (t ≤ i ∧ i < t + 4)) → q.mem i = p.mem i) :
    Outcome p f (some q) := by
  refine .other htarget ⟨fun i _ _ hi => hmem i hi, fun _ => hiphps, fun _ => hippps⟩ ?_
  rw [hattribute]
  rintro a ⟨⟩

theorem addFieldData_outcome (p : PacketMemory) (f : DataField) :
    Outcome p f (p.addFieldData f) := by
  unfold addFieldData
  refine .ite rfl (sameMembers_refl p) fun _ => ?_
  refine .ite rfl (sameMembers_refl p) fun _ => ?_
  refine .ite rfl (sameMembers_refl p) fun _ => ?_
  refine .ite rfl (sameMembers_refl p) fun _ => ?_
  refine .ite rfl (sameMembers_refl p) fun _ => ?_
  refine .ite rfl (sameMembers_refl p) fun _ => ?_
  refine .ite rfl (sameMembers_refl p) fun _ => ?_
  refine .ite rfl (sameMembers_refl p) fun _ => ?_
  refine .ite rfl (sameMembers_refl p) fun _ => ?_
  refine .ite rfl (sameMembers_markTcp p) fun _ => ?_
  refine .ite rfl (sameMembers_markTcp p) fun _ => ?_
  refine .ite rfl (sameMembers_markTcp p) fun _ => ?_
  refine .ite rfl (sameMembers_markTcp p) fun _ => ?_
  refine .ite rfl (sameMembers_markTcp p) fun _ => ?_
  refine .ite rfl (sameMembers_markTcp p) fun _ => ?_
  refine .ite rfl (sameMembers_markTcp p) fun _ => ?_
  refine .ite rfl (sameMembers_markUdp p) fun _ => ?_
  refine .ite rfl (sameMembers_markUdp p) fun _ => ?_
  refine iteInduction (fun h => ?_) fun _ => ?_
  · refine .other (by rw [h]; rfl) ⟨fun _ _ _ _ => rfl, ?_, fun _ => rfl⟩ ?_
    · rw [h]
      exact absurd rfl
    · rw [h]
      rintro a ⟨⟩
      rfl
  refine iteInduction (fun h => ?_) fun _ => ?_
  · refine .other (by rw [h]; rfl) ⟨fun _ _ _ _ => rfl, fun _ => rfl, ?_⟩ ?_
    · rw [h]
      exact absurd rfl
    · rw [h]
      rintro a ⟨⟩
      rfl
  refine iteInduction (fun h => ?_) fun _ => ?_
  · refine outcome_times (by rw [h]; rfl) (by rw [h]; rfl) rfl rfl ?_
    rw [h]
    exact fun i hi => mem_assign p _ (hi _ (List.mem_singleton_self _))
  refine iteInduction (fun h => ?_) fun _ => ?_
  · refine outcome_times (by rw [h]; rfl) (by rw [h]; rfl) rfl rfl ?_
    rw [h]
    intro i hi
    exact (mem_assign _ _ (hi tsUsec (List.mem_cons_of_mem _ (List.mem_singleton_self _)))).trans
      (mem_assign p _ (hi tsSec List.mem_cons_self))
  refine iteInduction (fun h => ?_) fun _ => ?_
  · refine outcome_times (by rw [h]; rfl) (by rw [h]; rfl) rfl rfl ?_
    rw [h]
    exact fun i hi => mem_assign p _ (hi _ (List.mem_singleton_self _))
  have hattribute : attributeOf f.id = none := by
    unfold attributeOf
    simp only [*, if_false]
  refine outcome_times ?_ hattribute rfl rfl fun _ _ => rfl
  unfold target
  rw [if_neg (by simp only [*, or_self, not_false_eq_true]), hattribute]

theorem target_transportDestPort {id : Int} (h : TransportDestPort id) :
    target id = some .hdrSrcPort :=
  if_pos h

theorem target_member {id : Int} {m : Member} (h : attributeOf id = some (.member m))
    (hport : ¬ TransportDestPort id) : target id = some m := by
  refine (if_neg hport).trans ?_
  rw [h]

theorem attributeOf_transportDestPort {id : Int} (h : TransportDestPort id) :
    attributeOf id = some (.member .hdrDestPort) := by
  rcases h with rfl | rfl
  · rfl
  · rfl

/-- A field that is copied is one for a member. -/
theorem attributeOf_target {id : Int} {m : Member} (h : target id = some m) :
    (TransportDestPort id ∧ m = .hdrSrcPort) ∨
      (¬ TransportDestPort id ∧ attributeOf id = some (.member m)) := by
  unfold target at h
  split at h
  · rename_i hport
    exact Or.inl ⟨hport, (Option.some.inj h).symm⟩
  · rename_i hport
    split at h
    · rename_i m' hattribute
      obtain rfl : m' = m := Option.some.inj h
      exact Or.inr ⟨hport, hattribute⟩
    · cases h

theorem timestamps_of_target {id : Int} {m : Member} (h : target id = some m) :
    timestamps id = [] := by
  unfold timestamps
  split
  · subst id
    cases h
  split
  · subst id
    cases h
  split
  · subst id
    cases h
  · rfl

/-! ## Records that fit -/

/-- What a template asks of one of its fields. -/
structure FieldFits (id : Int) (length : Nat) : Prop where
  room : ∀ m, attributeOf id = some (.member m) → length ≤ m.room
  destPort : TransportDestPort id → length = 0

/-- Behind a member with all of its room there is another attribute, or the pointers. -/
theorem room_le (m : Member) : m.offset + m.room ≤ sectionPointers := by
  cases m <;> decide

/-- A copy into the room of the own member. -/
theorem frame_copy {id : Int} {p p' : PacketMemory} {m : Member} {data : List UInt8}
    (hsame : SameMembers p p')
    (hown : ∀ i, InAttribute i → m.offset ≤ i → i < m.offset + data.length →
      ∃ m', attributeOf id = some (.member m') ∧ m'.Contains i) :
    Frame id p { p' with mem := p'.mem.store m.offset data } := by
  refine ⟨?_, fun _ => hsame.iphps, fun _ => hsame.ippps⟩
  intro i hi hattribute _
  have hout : i < m.offset ∨ m.offset + data.length ≤ i := by
    refine Decidable.byContradiction fun hin => ?_
    obtain ⟨m', hm', hcontains⟩ := hown i hi (by omega) (by omega)
    exact hattribute m' hm' hcontains
  exact (Mem.store_other hout).trans (hsame.mem i hi.1)

theorem inAttribute_room {m : Member} (h : m.offset + m.room < sectionPointers) :
    InAttribute (m.offset + m.room) := by
  unfold InAttribute
  cases m <;> simp only [Member.offset, Member.size, Member.room, sectionPointers] at * <;> omega

/-- The padding is all that a member's room has beyond the member. -/
theorem contains_of_room {m : Member} {i : Nat} (hi : InAttribute i) (h0 : m.offset ≤ i)
    (h : i < m.offset + m.room) : m.Contains i := by
  unfold InAttribute at hi
  unfold Member.Contains
  cases m <;> simp only [Member.offset, Member.size, Member.room] at h0 h ⊢ <;> omega

/-- A field that fits is stored, changes only what it is for, and a member of its length has its
octets. -/
theorem addFieldData_of_fits (p : PacketMemory) (f : DataField)
    (h : FieldFits f.id f.fieldData.length) :
    ∃ q, p.addFieldData f = some q ∧ Frame f.id p q ∧
      ∀ a, attributeOf f.id = some a → (∀ m, a = .member m → f.fieldData.length = m.size) →
        q.get a = f.fieldData := by
  have houtcome := addFieldData_outcome p f
  generalize p.addFieldData f = o at houtcome
  cases houtcome with
  | other _ hframe hvalue => exact ⟨_, rfl, hframe, fun a ha _ => hvalue a ha⟩
  | @copied m p' htarget hsame =>
    rcases attributeOf_target htarget with ⟨hport, rfl⟩ | ⟨hport, hattribute⟩
    · have h0 : f.fieldData.length = 0 := h.destPort hport
      refine ⟨_, if_pos (by rw [h0]; decide), frame_copy hsame ?_, ?_⟩
      · omega
      · intro a ha hsize
        rw [attributeOf_transportDestPort hport] at ha
        have hlength := hsize .hdrDestPort (Option.some.inj ha).symm
        rw [h0] at hlength
        cases hlength
    · have hroom := h.room m hattribute
      have hpointers := room_le m
      refine ⟨_, if_pos (by omega), frame_copy hsame ?_, ?_⟩
      · intro i hi h0 hlt
        exact ⟨m, hattribute, contains_of_room hi h0 (by omega)⟩
      · intro a ha hsize
        obtain rfl : Attribute.member m = a := Option.some.inj (hattribute.symm.trans ha)
        have hholds := Mem.holds_store p'.mem m.offset f.fieldData
        rw [Mem.Holds, hsize m rfl] at hholds
        exact hholds

theorem inAttribute_of_contains {m : Member} {i : Nat} (h : m.Contains i) :
    InAttribute i ∧ (i < tsSec ∨ tsUsec + 4 ≤ i) := by
  obtain ⟨h0, h1⟩ := h
  unfold InAttribute
  cases m <;> simp only [Member.offset, Member.size, sectionPointers, tsSec, tsUsec] at * <;> omega

theorem timestamps_subset {id : Int} : ∀ t ∈ timestamps id, tsSec ≤ t ∧ t ≤ tsUsec := by
  unfold timestamps
  repeat' split
  all_goals simp [tsSec, tsUsec]

/-- No two members share an octet. -/
theorem eq_of_contains {m m' : Member} {i : Nat} (h : m.Contains i) (h' : m'.Contains i) :
    m = m' := by
  obtain ⟨h0, h1⟩ := h
  obtain ⟨h0', h1'⟩ := h'
  cases m <;> cases m' <;> first | rfl | (simp only [Member.offset, Member.size] at *; omega)

/-- What a field is not for, it leaves alone. -/
theorem get_of_frame {id : Int} {p q : PacketMemory} {a : Attribute} (h : Frame id p q)
    (ha : attributeOf id ≠ some a) : q.get a = p.get a := by
  cases a with
  | iphps => exact h.iphps ha
  | ippps => exact h.ippps ha
  | member m =>
    refine Mem.slice_congr fun i h0 h1 => ?_
    have hin : m.Contains i := ⟨h0, h1⟩
    obtain ⟨hi, htime⟩ := inAttribute_of_contains hin
    refine h.octets i hi ?_ ?_
    · intro m' hm' hin'
      rw [eq_of_contains hin' hin] at hm'
      exact ha hm'
    · intro t ht
      have hts := timestamps_subset t ht
      omega

theorem addFields_append (p : PacketMemory) (r r' : DataRecord) :
    p.addFields (r ++ r') = (p.addFields r).bind (addFields · r') := by
  induction r generalizing p with
  | nil => rfl
  | cons f fs ih =>
    simp only [List.cons_append, addFields, ih, Option.bind_assoc]

/-- A record of fields that fit. -/
theorem addFields_of_fits {r : DataRecord} (h : ∀ f ∈ r, FieldFits f.id f.fieldData.length)
    (p : PacketMemory) :
    ∃ q, p.addFields r = some q ∧
      ∀ a, (∀ f ∈ r, attributeOf f.id ≠ some a) → q.get a = p.get a := by
  induction r generalizing p with
  | nil => exact ⟨p, rfl, fun _ _ => rfl⟩
  | cons f fs ih =>
    obtain ⟨p', hp', hframe, _⟩ := addFieldData_of_fits p f (h f List.mem_cons_self)
    obtain ⟨q, hq, hkeep⟩ := ih (fun g hg => h g (List.mem_cons_of_mem _ hg)) p'
    refine ⟨q, ?_, ?_⟩
    · rw [addFields, hp', Option.bind_some, hq]
    · intro a ha
      rw [hkeep a fun g hg => ha g (List.mem_cons_of_mem _ hg)]
      exact get_of_frame hframe (ha f List.mem_cons_self)

end PacketMemory

theorem shape_append_cons (pre post : DataRecord) (f : DataField) :
    shape (pre ++ f :: post) = shape pre ++ (f.id, f.fieldData.length) :: shape post := by
  simp only [shape, List.map_append, List.map_cons]

theorem fieldFits_of_fits {t : RecordShape} (h : Fits t) {x : Int × Nat} (hx : x ∈ t) :
    PacketMemory.FieldFits x.1 x.2 :=
  ⟨h.room x hx, h.destPort x hx⟩

theorem law_of_fits {r : DataRecord} (h : Fits (shape r)) (start : PacketMemory) : Law start r := by
  have hfits : ∀ f ∈ r, PacketMemory.FieldFits f.id f.fieldData.length :=
    fun f hf => fieldFits_of_fits h (List.mem_map_of_mem hf)
  refine ⟨?_, ?_⟩
  · rintro pre f post rfl
    obtain ⟨p, hp, _⟩ := PacketMemory.addFields_of_fits
      (fun g hg => hfits g (List.mem_append_left _ hg)) start
    obtain ⟨q, hq, hframe, _⟩ := PacketMemory.addFieldData_of_fits p f
      (hfits f (List.mem_append_right _ List.mem_cons_self))
    exact ⟨p, q, hp, hq, hframe⟩
  · rintro pre f post a rfl ha hlast
    obtain ⟨p, hp, _⟩ := PacketMemory.addFields_of_fits
      (fun g hg => hfits g (List.mem_append_left _ hg)) start
    obtain ⟨p', hp', _, hvalue⟩ := PacketMemory.addFieldData_of_fits p f
      (hfits f (List.mem_append_right _ List.mem_cons_self))
    obtain ⟨q, hq, hkeep⟩ := PacketMemory.addFields_of_fits
      (fun g hg => hfits g (List.mem_append_right _ (List.mem_cons_of_mem _ hg))) p'
    refine ⟨q, ?_, ?_⟩
    · rw [PacketMemory.addFields_append, hp, Option.bind_some, PacketMemory.addFields, hp',
        Option.bind_some, hq]
    · rw [hkeep a hlast]
      refine hvalue a ha ?_
      rintro m rfl
      refine h.size (shape pre) _ (shape post) m (shape_append_cons pre post f) ha ?_
      intro y hy
      obtain ⟨g, hg, rfl⟩ := List.mem_map.mp hy
      exact hlast g hg

/-! ## Records that do not -/

/-- A field of zeros. -/
def zeroField (x : Int × Nat) : DataField := ⟨x.1, List.replicate x.2 0, 0⟩

theorem shape_zeroField (t : RecordShape) : shape (t.map zeroField) = t := by
  simp [shape, zeroField, Function.comp_def]

namespace PacketMemory

/-- A field whose octets are not those at its target. -/
def differingField (p : PacketMemory) (m : Member) (x : Int × Nat) : DataField :=
  ⟨x.1, (p.mem.slice m.offset x.2).map (· + 1), 0⟩

@[simp] theorem length_differingField (p : PacketMemory) (m : Member) (x : Int × Nat) :
    (p.differingField m x).fieldData.length = x.2 := by
  simp [differingField]

theorem getElem?_differingField (p : PacketMemory) (m : Member) (x : Int × Nat) {k : Nat}
    (hk : k < x.2) :
    (p.differingField m x).fieldData[k]? = some (p.mem (m.offset + k) + 1) := by
  have hlt : k < (p.mem.slice m.offset x.2).length := by simpa using hk
  rw [differingField, List.getElem?_map, List.getElem?_eq_getElem hlt, Mem.getElem_slice]
  rfl

theorem add_one_ne (b : UInt8) : b + 1 ≠ b := by
  simp

theorem store_at (mem : Mem) (a : Nat) (bs : List UInt8) (k : Nat) {b : UInt8}
    (h : bs[k]? = some b) :
    mem.store a bs (a + k) = b := by
  simp [Mem.store, h]

/-- Where such a field keeps to what it is for, it ends before the pointers, and every octet that it
is copied to belongs to its own member. -/
theorem contains_of_frame {p q : PacketMemory} {m : Member} {x : Int × Nat}
    (htarget : target x.1 = some m)
    (hq : p.addFieldData (p.differingField m x) = some q) (hframe : Frame x.1 p q) :
    (m.offset + x.2 ≤ sectionPointers) ∧ ∀ k < x.2, InAttribute (m.offset + k) →
      ∃ m', attributeOf x.1 = some (.member m') ∧ m'.Contains (m.offset + k) := by
  have houtcome := addFieldData_outcome p (p.differingField m x)
  rw [hq] at houtcome
  generalize ho : some q = o at houtcome
  cases houtcome with
  | other hnone => exact absurd (htarget.symm.trans hnone) (by simp)
  | @copied m' p' hm' hsame =>
    obtain rfl : m = m' := Option.some.inj (htarget.symm.trans hm')
    unfold copy at ho
    split at ho
    · rename_i hle
      rw [length_differingField] at hle
      refine ⟨hle, fun k hk hi => Classical.byContradiction fun hno => ?_⟩
      have hkept := hframe.octets _ hi (fun m' hm' hin => hno ⟨m', hm', hin⟩)
        (by rw [timestamps_of_target htarget]; exact fun _ ht => absurd ht List.not_mem_nil)
      rw [Option.some.inj ho] at hkept
      exact add_one_ne _ ((store_at _ _ _ _ (getElem?_differingField p m x hk)).symm.trans hkept)
    · cases ho

end PacketMemory

/-- What follows for one of the fields where the law holds for all values. -/
theorem contains_of_law {t : RecordShape} (h : ∀ heap now r, shape r = t → Law (.new heap now) r)
    {pre post : RecordShape} {x : Int × Nat} (ht : t = pre ++ x :: post) {m : Member}
    (htarget : PacketMemory.target x.1 = some m) :
    m.offset + x.2 ≤ sectionPointers ∧ ∀ k < x.2, PacketMemory.InAttribute (m.offset + k) →
      ∃ m', attributeOf x.1 = some (.member m') ∧ m'.Contains (m.offset + k) := by
  have hlaw : ∀ f : DataField, f.id = x.1 → f.fieldData.length = x.2 →
      Law (.new (fun _ => 0) 0) (pre.map zeroField ++ f :: post.map zeroField) := by
    intro f hid hlength
    refine h _ _ _ ?_
    rw [shape_append_cons, shape_zeroField, shape_zeroField, hid, hlength, ht]
  -- the octets depend on the packet that they come to, which is the one that zeros lead to
  obtain ⟨p, _, hp, _⟩ := (hlaw (zeroField x) rfl List.length_replicate).frame _ _ _ rfl
  obtain ⟨p', q, hp', hq, hframe⟩ := (hlaw (p.differingField m x) rfl (by simp)).frame _ _ _ rfl
  obtain rfl : p = p' := Option.some.inj (hp.symm.trans hp')
  exact PacketMemory.contains_of_frame htarget hq hframe

theorem fits_of_law {t : RecordShape} (h : ∀ heap now r, shape r = t → Law (.new heap now) r) :
    Fits t := by
  have hport : ∀ x ∈ t, TransportDestPort x.1 → x.2 = 0 := by
    intro x hx hport
    obtain ⟨pre, post, ht⟩ := List.append_of_mem hx
    obtain ⟨_, hown⟩ := contains_of_law h ht (PacketMemory.target_transportDestPort hport)
    refine Decidable.byContradiction fun hne => ?_
    obtain ⟨m', hm', hin⟩ := hown 0 (by omega) (by unfold PacketMemory.InAttribute; decide)
    rw [PacketMemory.attributeOf_transportDestPort hport] at hm'
    obtain rfl : Member.hdrDestPort = m' := by injection Option.some.inj hm'
    exact absurd hin.2 (by decide)
  refine ⟨?_, hport, ?_⟩
  · intro x hx m hm
    by_cases hdest : TransportDestPort x.1
    · rw [hport x hx hdest]
      exact Nat.zero_le _
    obtain ⟨pre, post, ht⟩ := List.append_of_mem hx
    obtain ⟨hle, hown⟩ := contains_of_law h ht (PacketMemory.target_member hm hdest)
    refine Nat.le_of_not_lt fun hlt => ?_
    obtain ⟨m', hm', hin⟩ := hown m.room hlt (PacketMemory.inAttribute_room (by omega))
    obtain rfl : m = m' := by injection Option.some.inj (hm.symm.trans hm')
    have hroom := m.size_le_room
    exact absurd hin.2 (by omega)
  · intro pre x post m ht hm hlast
    have hlaw := h (fun _ => 0) 0 (t.map zeroField) (shape_zeroField t)
    subst ht
    rw [List.map_append, List.map_cons] at hlaw
    obtain ⟨q, _, hq⟩ := hlaw.value _ _ _ _ rfl hm fun g hg => by
      obtain ⟨y, hy, rfl⟩ := List.mem_map.mp hg
      exact hlast y hy
    have hlength := congrArg List.length hq
    simpa [PacketMemory.get, zeroField] using hlength.symm

/-- A record is taken over as it is, for all values of its fields and whatever the heap held,
exactly where its template fits. -/
theorem law_iff (t : RecordShape) :
    (∀ heap now r, shape r = t → Law (.new heap now) r) ↔ Fits t :=
  ⟨fits_of_law, fun h _ _ _ hr => law_of_fits (hr ▸ h) _⟩

/-- A TCP destination port. -/
def tcpDestinationRecord : DataRecord := [⟨IpfixTypeId.tcpDestinationPort, [0, 80], 0⟩]

/-- **Counterexample**: the source port is 80 after it, and the destination port is what the heap
held. -/
theorem tcpDestinationPort_moved :
    (∃ q, (PacketMemory.new (fun _ => 0) 0).addFields tcpDestinationRecord = some q ∧
      q.get (.member .hdrSrcPort) = [0, 80] ∧ q.get (.member .hdrDestPort) = [0, 0]) ∧
    ¬ ∀ heap now r, Law (.new heap now) r := by
  refine ⟨⟨_, rfl, rfl, rfl⟩, ?_⟩
  intro h
  obtain ⟨q, hq, hvalue⟩ := (h (fun _ => 0) 0 tcpDestinationRecord).value [] _ [] _ rfl rfl
    fun g hg => absurd hg List.not_mem_nil
  obtain rfl := Option.some.inj hq
  exact absurd (congrArg (·[1]?) hvalue) (by decide)

end Topas.Snort
