import Topas.L8Snort.PacketMemory

/-!
# The whole packet object

`PacketMemory` ends where the pointers of the sections begin. Here the packet is all octets of the
object, with the pointers and the sizes, and a copy is followed wherever it gets: a field of 30
octets for the urgent pointer leaves both sections with other addresses and sizes. `packet` is what
`pcapwriter.cpp` finds in the members then.

* `represents_addFieldData`: a field that `PacketMemory` can follow does to the object what it does
  there.
* `sections_addFields`: so after a record of such fields the sizes of the sections are those of
  their buffers.

Behind the headers the layout is the one with pointers of 64 bits.
-/
namespace Topas.Snort

/-! ## Numbers in the order of the host -/

def readLe32 (a b c d : UInt8) : UInt32 :=
  .ofNat (a.toNat + 256 * b.toNat + 256 ^ 2 * c.toNat + 256 ^ 3 * d.toNat)

def load32 (mem : Mem) (a : Nat) : UInt32 :=
  readLe32 (mem a) (mem (a + 1)) (mem (a + 2)) (mem (a + 3))

theorem exists_le32 (n : UInt32) : ∃ a b c d, le32 n = [a, b, c, d] ∧ readLe32 a b c d = n := by
  have hlt := n.toNat_lt
  refine ⟨_, _, _, _, rfl, UInt32.toNat_inj.mp ?_⟩
  simp only [readLe32, UInt8.toNat_ofNat', UInt32.toNat_ofNat']
  omega

theorem load32_of_holds {mem : Mem} {a : Nat} {n : UInt32} (h : mem.Holds a (le32 n)) :
    load32 mem a = n := by
  obtain ⟨b₀, b₁, b₂, b₃, hle, hread⟩ := exists_le32 n
  rw [hle] at h
  simp only [Mem.holds_cons] at h
  obtain ⟨h0, h1, h2, h3, -⟩ := h
  rw [load32, h0, h1, h2, h3, hread]

theorem load32_congr {mem mem' : Mem} {a : Nat} (h : ∀ i, a ≤ i → i < a + 4 → mem' i = mem i) :
    load32 mem' a = load32 mem a := by
  simp only [load32, h a (by omega) (by omega), h (a + 1) (by omega) (by omega),
    h (a + 2) (by omega) (by omega), h (a + 3) (by omega) (by omega)]

theorem toInt_toInt32 {n : Nat} (h : n < 2 ^ 31) : (UInt32.ofNat n).toInt32.toInt = n := by
  have hnat : (UInt32.ofNat n).toBitVec.toNat = n := by
    rw [UInt32.toNat_toBitVec, UInt32.toNat_ofNat']
    omega
  change (UInt32.ofNat n).toBitVec.toInt = n
  rw [BitVec.toInt_eq_toNat_of_lt (by rw [hnat]; omega), hnat]

/-! ## The object -/

/-- An address, as it lies in memory. -/
abbrev Pointer := { l : List UInt8 // l.length = 8 }

def iphpsPointer : Nat := 64

def iphpsSizeAt : Nat := 72

def ipppsPointer : Nat := 80

def ipppsSizeAt : Nat := 88

structure PacketObject where
  /-- The octets of the object, and of what lies behind it. -/
  mem : Mem
  /-- What an address leads to. -/
  heap : Pointer → List UInt8

/-- The address that stands somewhere. -/
def loadPointer (mem : Mem) (a : Nat) : Pointer := ⟨mem.slice a 8, Mem.length_slice mem a 8⟩

namespace PacketObject

/-- mirrors detectionmodules/snortmodule/pcappacket.cpp:39, snortstore.cpp:147-153 -/
def new (mem : Mem) (heap : Pointer → List UInt8) (now : UInt32) : PacketObject where
  mem := ((PacketMemory.new mem now).mem.store iphpsPointer (.replicate 12 0)).store ipppsPointer
    (.replicate 12 0)
  heap := heap

/-- `bcopy` to a member, over all that is behind it. -/
def copy (o : PacketObject) (m : Member) (data : List UInt8) : PacketObject :=
  { o with mem := o.mem.store m.offset data }

/-- A number is assigned to one of the timestamps. -/
def assign (o : PacketObject) (offset : Nat) (n : UInt32) : PacketObject :=
  { o with mem := o.mem.store offset (le32 n) }

/-- `packet->hdr_udp=true` -/
def markUdp (o : PacketObject) : PacketObject := { o with mem := o.mem.store 0 [1] }

/-- `packet->hdr_tcp=true` -/
def markTcp (o : PacketObject) : PacketObject := { o with mem := o.mem.store 1 [1] }

/-- `packet->ts_sec*1000` is computed in 32 bits.
mirrors detectionmodules/snortmodule/snortstore.cpp:132-136 -/
def setMilliSeconds (o : PacketObject) (mstime : UInt64) : PacketObject :=
  let sec := (mstime / 1000).toUInt32
  (o.assign tsSec sec).assign tsUsec ((mstime - (sec * 1000).toUInt64) * 1000).toUInt32

/-- The field is copied to a buffer that `new char[fieldDataLength]` gave; the buffer before it is
lost. -/
def setSection (o : PacketObject) (pointerAt sizeAt : Nat) (buffer : Pointer) (data : List UInt8) :
    PacketObject where
  mem := (o.mem.store pointerAt buffer.val).store sizeAt (le32 (.ofNat data.length))
  heap a := if a = buffer then data else o.heap a

/-- Both TCP ports and both UDP ports go to the source port.
mirrors detectionmodules/snortmodule/snortstore.cpp:43-145 -/
def addFieldData (o : PacketObject) (buffer : Pointer) (f : DataField) : PacketObject :=
  if f.id = Topas.IpfixTypeId.sourceIPv4Address then o.copy .srcAddr f.fieldData
  else if f.id = Topas.IpfixTypeId.destinationIPv4Address then o.copy .destAddr f.fieldData
  else if f.id = IpfixTypeId.classOfServiceIPv4 then o.copy .dscp f.fieldData
  else if f.id = IpfixTypeId.identificationV4 then o.copy .identification f.fieldData
  else if f.id = IpfixTypeId.ipTimeToLive then o.copy .ttl f.fieldData
  else if f.id = IpfixTypeId.totalLengthIPv4 then o.copy .packetLength f.fieldData
  else if f.id = Topas.IpfixTypeId.protocolIdentifier then o.copy .protocol f.fieldData
  else if f.id = Topas.IpfixTypeId.destinationTransportPort then o.copy .hdrDestPort f.fieldData
  else if f.id = Topas.IpfixTypeId.sourceTransportPort then o.copy .hdrSrcPort f.fieldData
  else if f.id = IpfixTypeId.tcpControlBits then o.markTcp.copy .flags f.fieldData
  else if f.id = IpfixTypeId.tcpSequenceNumber then o.markTcp.copy .seqNum f.fieldData
  else if f.id = IpfixTypeId.tcpAcknowledgementNumber then o.markTcp.copy .ackNum f.fieldData
  else if f.id = IpfixTypeId.tcpWindowSize then o.markTcp.copy .window f.fieldData
  else if f.id = 187 then o.markTcp.copy .urg f.fieldData
  else if f.id = IpfixTypeId.tcpSourcePort then o.markTcp.copy .hdrSrcPort f.fieldData
  else if f.id = IpfixTypeId.tcpDestinationPort then o.markTcp.copy .hdrSrcPort f.fieldData
  else if f.id = IpfixTypeId.udpSourcePort then o.markUdp.copy .hdrSrcPort f.fieldData
  else if f.id = IpfixTypeId.udpDestinationPort then o.markUdp.copy .hdrSrcPort f.fieldData
  else if f.id = 313 then o.setSection iphpsPointer iphpsSizeAt buffer f.fieldData
  else if f.id = 314 then o.setSection ipppsPointer ipppsSizeAt buffer f.fieldData
  else if f.id = IpfixTypeId.flowStartSeconds then
    o.assign tsSec (fieldToInt f.fieldData).toUInt32
  else if f.id = IpfixTypeId.flowStartMilliSeconds then o.setMilliSeconds (fieldToInt f.fieldData)
  else if f.id = IpfixTypeId.flowStartMicroSeconds then
    o.assign tsUsec (fieldToInt f.fieldData).toUInt32
  else o

/-- The fields of a record, each with the buffer that it would get. -/
def addFields (o : PacketObject) (r : List (DataField × Pointer)) : PacketObject :=
  r.foldl (fun o f => o.addFieldData f.2 f.1) o

/-- What the members hold. -/
def packet (o : PacketObject) : PcapPacket where
  hdrUdp := o.mem 0 != 0
  hdrTcp := o.mem 1 != 0
  hdrDestPort i := o.mem (2 + i)
  hdrSrcPort i := o.mem (4 + i)
  tsSec := load32 o.mem tsSec
  tsUsec := load32 o.mem tsUsec
  hdrIp i := o.mem (16 + i)
  headerUdp i := o.mem (36 + i)
  headerTcp i := o.mem (44 + i)
  iphps := o.heap (loadPointer o.mem iphpsPointer)
  iphpsSize := (load32 o.mem iphpsSizeAt).toInt32
  ippps := o.heap (loadPointer o.mem ipppsPointer)
  ipppsSize := (load32 o.mem ipppsSizeAt).toInt32

/-! ## As far as `PacketMemory` follows -/

/-- A section is the buffer that was filled last, with its size. -/
def Holds (data : List UInt8) (size : Int32) (buffer : List UInt8) : Prop :=
  size.toInt = buffer.length ∧ (buffer ≠ [] → data = buffer)

/-- The headers are the same, and the sections are there. -/
structure Represents (m : PacketMemory) (o : PacketObject) : Prop where
  headers : ∀ i, i < sectionPointers → o.mem i = m.mem i
  iphps : Holds o.packet.iphps o.packet.iphpsSize m.iphps
  ippps : Holds o.packet.ippps o.packet.ipppsSize m.ippps

section Represents

variable {m : PacketMemory} {o : PacketObject}

/-- What is stored in front of the pointers leaves the sections alone. -/
theorem Represents.store (h : Represents m o) {a : Nat} {data : List UInt8}
    (hfit : a + data.length ≤ sectionPointers) :
    Represents { m with mem := m.mem.store a data } { o with mem := o.mem.store a data } := by
  have hbehind : ∀ i, sectionPointers ≤ i → o.mem.store a data i = o.mem i :=
    fun i hi => Mem.store_other (Or.inr (Nat.le_trans hfit hi))
  have hpointer : ∀ b, sectionPointers ≤ b →
      loadPointer (o.mem.store a data) b = loadPointer o.mem b :=
    fun b hb => Subtype.ext (Mem.slice_congr fun i hi _ => hbehind i (Nat.le_trans hb hi))
  have hload : ∀ b, sectionPointers ≤ b → load32 (o.mem.store a data) b = load32 o.mem b :=
    fun b hb => load32_congr fun i hi _ => hbehind i (Nat.le_trans hb hi)
  refine ⟨fun i hi => ?_, ?_, ?_⟩
  · simp only [Mem.store, h.headers i hi]
  · simp only [packet, hpointer _ (by decide : sectionPointers ≤ iphpsPointer),
      hload _ (by decide : sectionPointers ≤ iphpsSizeAt)]
    exact h.iphps
  · simp only [packet, hpointer _ (by decide : sectionPointers ≤ ipppsPointer),
      hload _ (by decide : sectionPointers ≤ ipppsSizeAt)]
    exact h.ippps

/-- The address and the size of a section, and what the rest of the memory is like. -/
theorem setSection_spec (o : PacketObject) {pointerAt sizeAt : Nat} (buffer : Pointer)
    (data : List UInt8) (hapart : pointerAt + 8 ≤ sizeAt) :
    loadPointer (o.setSection pointerAt sizeAt buffer data).mem pointerAt = buffer ∧
      load32 (o.setSection pointerAt sizeAt buffer data).mem sizeAt = .ofNat data.length ∧
      ∀ i, i < pointerAt ∨ sizeAt + 4 ≤ i →
        (o.setSection pointerAt sizeAt buffer data).mem i = o.mem i := by
  have hlen := buffer.property
  refine ⟨Subtype.ext ?_, load32_of_holds (Mem.holds_store _ _ _), fun i hi => ?_⟩
  · have hholds := Mem.holds_store o.mem pointerAt buffer.val
    rw [Mem.Holds, hlen] at hholds
    rw [← hholds]
    exact Mem.slice_congr fun i _ hi => Mem.store_other (Or.inl (by omega))
  · refine (Mem.store_other ?_).trans (Mem.store_other ?_)
    · rw [length_le32]
      omega
    · omega

/-- `new` gives no address that one of the pointers holds. -/
def Fresh (o : PacketObject) (buffer : Pointer) : Prop :=
  buffer ≠ loadPointer o.mem iphpsPointer ∧ buffer ≠ loadPointer o.mem ipppsPointer

theorem Represents.setIphps (h : Represents m o) {buffer : Pointer} {data : List UInt8}
    (hfresh : o.Fresh buffer) (hdata : data.length < 2 ^ 31) :
    Represents { m with iphps := data } (o.setSection iphpsPointer iphpsSizeAt buffer data) := by
  obtain ⟨hpointer, hsize, hrest⟩ :=
    o.setSection_spec buffer data (by decide : iphpsPointer + 8 ≤ iphpsSizeAt)
  refine ⟨fun i hi => (hrest i (Or.inl hi)).trans (h.headers i hi), ?_, ?_⟩
  · simp only [packet, hpointer, hsize]
    exact ⟨toInt_toInt32 hdata, fun _ => if_pos rfl⟩
  · have hother : loadPointer (o.setSection iphpsPointer iphpsSizeAt buffer data).mem ipppsPointer =
        loadPointer o.mem ipppsPointer :=
      Subtype.ext (Mem.slice_congr fun i hi _ => hrest i (Or.inr (Nat.le_trans (by decide) hi)))
    have hload : load32 (o.setSection iphpsPointer iphpsSizeAt buffer data).mem ipppsSizeAt =
        load32 o.mem ipppsSizeAt :=
      load32_congr fun i hi _ => hrest i (Or.inr (Nat.le_trans (by decide) hi))
    have hheap :
      (o.setSection iphpsPointer iphpsSizeAt buffer data).heap (loadPointer o.mem ipppsPointer) =
        o.heap (loadPointer o.mem ipppsPointer) := if_neg (Ne.symm hfresh.2)
    simp only [packet, hother, hload, hheap]
    exact h.ippps

theorem Represents.setIppps (h : Represents m o) {buffer : Pointer} {data : List UInt8}
    (hfresh : o.Fresh buffer) (hdata : data.length < 2 ^ 31) :
    Represents { m with ippps := data } (o.setSection ipppsPointer ipppsSizeAt buffer data) := by
  obtain ⟨hpointer, hsize, hrest⟩ :=
    o.setSection_spec buffer data (by decide : ipppsPointer + 8 ≤ ipppsSizeAt)
  refine
    ⟨fun i hi => (hrest i (Or.inl (Nat.lt_trans hi (by decide)))).trans (h.headers i hi), ?_, ?_⟩
  · have hother : loadPointer (o.setSection ipppsPointer ipppsSizeAt buffer data).mem iphpsPointer =
        loadPointer o.mem iphpsPointer :=
      Subtype.ext
        (Mem.slice_congr fun i _ hi => hrest i (Or.inl (Nat.lt_of_lt_of_le hi (by decide))))
    have hload : load32 (o.setSection ipppsPointer ipppsSizeAt buffer data).mem iphpsSizeAt =
        load32 o.mem iphpsSizeAt :=
      load32_congr fun i _ hi => hrest i (Or.inl (Nat.lt_of_lt_of_le hi (by decide)))
    have hheap :
      (o.setSection ipppsPointer ipppsSizeAt buffer data).heap (loadPointer o.mem iphpsPointer) =
        o.heap (loadPointer o.mem iphpsPointer) := if_neg (Ne.symm hfresh.1)
    simp only [packet, hother, hload, hheap]
    exact h.iphps
  · simp only [packet, hpointer, hsize]
    exact ⟨toInt_toInt32 hdata, fun _ => if_pos rfl⟩

/-- Where `PacketMemory` goes on, the object goes along. -/
def Follows (m : Option PacketMemory) (o : PacketObject) : Prop := ∀ q, m = some q → Represents q o

theorem Represents.follows_copy (h : Represents m o) (member : Member) (data : List UInt8) :
    Follows (m.copy member data) (o.copy member data) := by
  intro q hq
  unfold PacketMemory.copy at hq
  split at hq
  · cases hq
    exact h.store ‹_›
  · cases hq

theorem Follows.ite {c : Prop} [Decidable c] {a b : Option PacketMemory} {x y : PacketObject}
    (h : Follows a x) (h' : Follows b y) : Follows (if c then a else b) (if c then x else y) := by
  split
  · exact h
  · exact h'

theorem Represents.follows (h : Represents m o) : Follows (some m) o := by
  rintro q ⟨⟩
  exact h

theorem Represents.markTcp (h : Represents m o) : Represents m.markTcp o.markTcp :=
    h.store (by decide)

theorem Represents.markUdp (h : Represents m o) : Represents m.markUdp o.markUdp :=
    h.store (by decide)

theorem Represents.assignSec (h : Represents m o) (n : UInt32) :
    Represents (m.assign tsSec n) (o.assign tsSec n) :=
  h.store (by rw [length_le32]; decide)

theorem Represents.assignUsec (h : Represents m o) (n : UInt32) :
    Represents (m.assign tsUsec n) (o.assign tsUsec n) :=
  h.store (by rw [length_le32]; decide)

/-- A field that is not copied into the pointers does to the object what it does to the octets in
front of them. -/
theorem represents_addFieldData (h : Represents m o) {buffer : Pointer} (hfresh : o.Fresh buffer)
    {f : DataField} (hf : f.fieldData.length < 2 ^ 31) :
    Follows (m.addFieldData f) (o.addFieldData buffer f) := by
  unfold PacketMemory.addFieldData addFieldData
  iterate 9 refine .ite (h.follows_copy _ _) ?_
  iterate 7 refine .ite (h.markTcp.follows_copy _ _) ?_
  iterate 2 refine .ite (h.markUdp.follows_copy _ _) ?_
  refine .ite (h.setIphps hfresh hf).follows ?_
  refine .ite (h.setIppps hfresh hf).follows ?_
  refine .ite (h.assignSec _).follows ?_
  refine .ite ((h.assignSec _).assignUsec _).follows ?_
  exact .ite (h.assignUsec _).follows h.follows

/-- The buffers of a record are new, each when it is filled. -/
def FreshAlong : PacketObject → List (DataField × Pointer) → Prop
  | _, [] => True
  | o, f :: fs => o.Fresh f.2 ∧ FreshAlong (o.addFieldData f.2 f.1) fs

/-- The same for a record. -/
theorem represents_addFields {r : List (DataField × Pointer)} (h : Represents m o)
    (hfresh : o.FreshAlong r) (hr : ∀ f ∈ r, f.1.fieldData.length < 2 ^ 31) :
    Follows (m.addFields (r.map Prod.fst)) (o.addFields r) := by
  induction r generalizing m o with
  | nil => exact h.follows
  | cons f fs ih =>
    obtain ⟨hf, hfs⟩ := hfresh
    intro q hq
    rw [List.map_cons, PacketMemory.addFields, Option.bind_eq_some_iff] at hq
    obtain ⟨m', hm', hq⟩ := hq
    have hstep := represents_addFieldData h hf (hr f List.mem_cons_self) m' hm'
    exact ih hstep hfs (fun g hg => hr g (List.mem_cons_of_mem f hg)) q hq

theorem represents_new (mem : Mem) (heap : Pointer → List UInt8) (now : UInt32) :
    Represents (PacketMemory.new mem now) (new mem heap now) := by
  have hzero : ∀ (mem : Mem) (a : Nat), load32 (mem.store a (.replicate 12 0)) (a + 8) = 0 := by
    intro mem a
    have hmem : ∀ i, i < 12 → mem.store a (.replicate 12 0) (a + i) = 0 := by
      intro i hi
      rw [Mem.store, if_pos (Nat.le_add_right a i), Nat.add_sub_cancel_left,
        List.getD_eq_getElem?_getD, List.getElem?_replicate, if_pos hi, Option.getD_some]
    have h8 := hmem 8 (by decide)
    have h9 := hmem 9 (by decide)
    have h10 := hmem 10 (by decide)
    have h11 := hmem 11 (by decide)
    simp only [load32, Nat.add_assoc, Nat.reduceAdd, h8, h9, h10, h11]
    rfl
  refine ⟨fun i hi => ?_, ?_, ?_⟩
  · exact (Mem.store_other (Or.inl (Nat.lt_trans hi (by decide)))).trans
      (Mem.store_other (Or.inl hi))
  · refine ⟨?_, fun h => absurd rfl h⟩
    have hload : load32 (new mem heap now).mem iphpsSizeAt = 0 :=
      (load32_congr fun i _ hi => Mem.store_other
        (Or.inl (Nat.lt_of_lt_of_le hi (by decide)))).trans
        (hzero _ iphpsPointer)
    simp only [packet, hload]
    rfl
  · refine ⟨?_, fun h => absurd rfl h⟩
    have hload : load32 (new mem heap now).mem ipppsSizeAt = 0 := hzero _ ipppsPointer
    simp only [packet, hload]
    rfl

/-- After a record whose fields end in front of the pointers, each section is the buffer that its
last field was copied to. -/
theorem sections_addFields {mem : Mem} {heap : Pointer → List UInt8} {now : UInt32}
    {r : List (DataField × Pointer)} {q : PacketMemory} (hfresh : (new mem heap now).FreshAlong r)
    (hr : ∀ f ∈ r, f.1.fieldData.length < 2 ^ 31)
    (hq : (PacketMemory.new mem now).addFields (r.map Prod.fst) = some q) :
    Holds ((new mem heap now).addFields r).packet.iphps
    ((new mem heap now).addFields r).packet.iphpsSize
        q.iphps ∧
      Holds ((new mem heap now).addFields r).packet.ippps
        ((new mem heap now).addFields r).packet.ipppsSize q.ippps :=
  have h := represents_addFields (represents_new mem heap now) hfresh hr q hq
  ⟨h.iphps, h.ippps⟩

end Represents

end PacketObject

end Topas.Snort
