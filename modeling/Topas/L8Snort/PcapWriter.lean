import Topas.L8Snort.PacketObject

/-!
# The packets in the pcap stream

`snortmodule/pcapwriter.cpp`: the packet of a record is written behind a pcap record header that
says how many octets follow. The number is computed first, from the IP length that the record
gives or from what there is; then the headers, a section and the padding are written, each with its
own size. Lengths and sizes are of type `int`, and the members may have any values: overlong fields
run over the sizes of the sections (`PacketObject`).

* `framed_iff`: the number of octets is the announced one exactly where there is a header section,
  or no section of negative size and an IP length, if the record gives one, that is not shorter than
  the IP header.
* `starts_of_framed`: a reader of a stream of such packets finds every record header.
-/
namespace Topas.Snort

/-- `fwrite(p, size, 1, file)`, for the octets `data` at `p`. -/
structure Fwrite where
  data : List UInt8
  size : UInt64

namespace Fwrite

/-- A whole struct. -/
def struct {n : Nat} (member : Octets n) : Fwrite := ⟨List.ofFn member, UInt64.ofNat n⟩

/-- An `int` becomes a `size_t`. -/
def part (data : List UInt8) (size : Int) : Fwrite := ⟨data, UInt64.ofInt size⟩

end Fwrite

/-- A pcap record header and what is written behind it.
mirrors detectionmodules/snortmodule/pcapwriter.h:99-104 -/
structure PcapRecord where
  tsSec : UInt32
  tsUsec : UInt32
  inclLen : UInt32
  origLen : UInt32
  body : List Fwrite

/-- The settings `calc_thcs` and `calc_iphcs`. -/
structure PcapWriter where
  calcThcs : Bool
  calcIphcs : Bool

/-- Carries are added until there are none. -/
def foldCarries (sum : Nat) : Nat :=
  if sum < 65536 then sum else foldCarries (sum % 65536 + sum / 65536)
termination_by sum
decreasing_by omega

/-- The sum of the 16-bit words, the last one of a single octet. -/
def sumWords : List UInt8 → Nat
  | a :: b :: rest => ntohs a b + sumWords rest
  | [a] => ntohs a 0
  | [] => 0

/-- `ntohs` of the checksum.
mirrors detectionmodules/snortmodule/pcapwriter.cpp:33-55 -/
def inChecksum (buf : List UInt8) : Nat := 65535 - foldCarries (sumWords buf)

/-- A checksum from those of the pseudo header and of the transport header; 0 says that there is
none. -/
def transportChecksum (pseudoHeader header : List UInt8) : Nat :=
  let u := inChecksum pseudoHeader + inChecksum header
  let checksum := (u % 65536 + u / 65536) % 65536
  if checksum = 0 then 1 else checksum

/-- An `int`, where sums wrap. -/
def int (n : Int) : Int := (n + 2147483648) % 4294967296 - 2147483648

namespace PcapPacket

def setPacketLength (p : PcapPacket) (length : Int) : PcapPacket :=
  { p with hdrIp := setOctets p.hdrIp 2 (htons (length % 65536).toNat) }

/-- The octets behind the IP header, without a length and a header section to tell.
mirrors detectionmodules/snortmodule/pcapwriter.cpp:180-196 -/
def payloadLength (p : PcapPacket) : Int × PcapPacket :=
  if 0 < p.ipppsSize.toInt then (p.ipppsSize.toInt, p)
  else if p.hdrTcp then (20, p)
  else if p.hdrUdp then (8, p)
  else if p.protocol = 6 then (20, { p with hdrTcp := true })
  else if p.protocol = 17 then (8, { p with hdrUdp := true })
  else (0, p)

/-- The length of the IP packet. Where the record does not give it, it becomes the one of the
header.
mirrors detectionmodules/snortmodule/pcapwriter.cpp:174-200 -/
def ipLength (p : PcapPacket) : Int × PcapPacket :=
  if p.packetLength ≠ 0 then (p.packetLength, p)
  else if 0 < p.iphpsSize.toInt then (p.iphpsSize.toInt, p)
  else
    let (length, p) := p.payloadLength
    (int (length + 20), p.setPacketLength (int (length + 20)))

/-! The checksums lie inside of their headers. -/

theorem ipChecksum_lt : 10 + 1 < 20 := by decide

theorem udpChecksum_lt : 6 + 1 < 8 := by decide

theorem tcpChecksum_lt : 16 + 1 < 20 := by decide

/-- The IP header, with its checksum if that is wanted and not given. -/
def finishIp (w : PcapWriter) (p : PcapPacket) : Octets 20 :=
  if w.calcIphcs && word p.hdrIp 10 ipChecksum_lt = 0 then
    setOctets p.hdrIp 10 (htons (inChecksum (List.ofFn p.hdrIp)))
  else p.hdrIp

/-- Source, destination, a zero, the protocol and the length. -/
def pseudoHeader (hdrIp : Octets 20) (length : Nat) : List UInt8 :=
  (List.ofFn hdrIp).drop 12 ++ [0, hdrIp 9] ++ htons length

/-- The header with the ports at its start. -/
def setPorts {n : Nat} (p : PcapPacket) (header : Octets n) : Octets n :=
  setOctets header 0 (List.ofFn p.hdrSrcPort ++ List.ofFn p.hdrDestPort)

/-- mirrors detectionmodules/snortmodule/pcapwriter.cpp:251-275 -/
def finishUdp (w : PcapWriter) (p : PcapPacket) (hdrIp : Octets 20) (length : Nat) : Octets 8 :=
  let header := setOctets (p.setPorts p.headerUdp) 4 (htons length)
  if w.calcThcs && word header 6 udpChecksum_lt = 0 then
    setOctets header 6 (htons (transportChecksum (pseudoHeader hdrIp length) (List.ofFn header)))
  else header

/-- mirrors detectionmodules/snortmodule/pcapwriter.cpp:279-301 -/
def finishTcp (w : PcapWriter) (p : PcapPacket) (hdrIp : Octets 20) (length : Nat) : Octets 20 :=
  let header := p.setPorts p.headerTcp
  if w.calcThcs && word header 16 tcpChecksum_lt = 0 then
    setOctets header 16 (htons (transportChecksum (pseudoHeader hdrIp length) (List.ofFn header)))
  else header

end PcapPacket

/-- `char padding[PADDING]` -/
def PADDING : Nat := 2048

/-- mirrors detectionmodules/snortmodule/pcapwriter.cpp:365-374 -/
def padding (paddingLength : Int) : List Fwrite :=
  if paddingLength ≤ 0 then []
  else if (PADDING : Int) < paddingLength then
    .part (.replicate PADDING 0) PADDING :: padding (paddingLength - PADDING)
  else [.part (.replicate PADDING 0) paddingLength]
termination_by paddingLength.toNat
decreasing_by
  have hpad : PADDING = 2048 := rfl
  omega

/-- A section is cut off where the IP packet ends, and `written` octets of that are written already.
-/
def writeSection (data : List UInt8) (dataSize ipLength written : Int) : Fwrite × Int :=
  let size := if ipLength ≤ int (dataSize + written) then int (ipLength - written) else dataSize
  (.part data size, int (written + size))

/-- What stands between the Ethernet header and the padding, and how many octets of the IP packet
that is.
mirrors detectionmodules/snortmodule/pcapwriter.cpp:237-362 -/
def writeIp (w : PcapWriter) (p : PcapPacket) (ipLength : Int) : List Fwrite × Int :=
  if p.iphpsSize.toInt = 0 then
    let hdrIp := p.finishIp w
    let written : Int := 20
    if p.ipppsSize.toInt = 0 then
      if p.hdrUdp && decide (28 ≤ ipLength) then
        ([.struct hdrIp, .struct (p.finishUdp w hdrIp (ipLength - written).toNat)], written + 8)
      else if p.hdrTcp && decide (40 ≤ ipLength) then
        ([.struct hdrIp, .struct (p.finishTcp w hdrIp (ipLength - written).toNat)], written + 20)
      else ([.struct hdrIp], written)
    else
      let (payload, written) := writeSection p.ippps p.ipppsSize.toInt ipLength written
      ([.struct hdrIp, payload], written)
  else
    let (packet, written) := writeSection p.iphps p.iphpsSize.toInt ipLength 0
    ([packet], written)

/-- The dummy addresses, and the type of IPv4.
mirrors detectionmodules/snortmodule/pcappacket.cpp:46-49 -/
def hdrEthernet : Octets 14 := fun i =>
    if i < 6 then 2 else if i < 12 then 1 else if i = 12 then 8 else 0

/-- mirrors detectionmodules/snortmodule/pcapwriter.cpp:162-381 -/
def writepacket (w : PcapWriter) (p : PcapPacket) : PcapRecord :=
  let (ipLength, p) := p.ipLength
  let length := UInt32.ofInt (ipLength + 14)
  let (ip, written) := writeIp w p ipLength
  ⟨p.tsSec, p.tsUsec, length, length, .struct hdrEthernet :: ip ++ padding
    (int (ipLength - written))⟩

/-- The octets behind the record header. -/
def PcapRecord.emitted (r : PcapRecord) : Nat := (r.body.map (·.size.toNat)).sum

def PcapRecord.Framed (r : PcapRecord) : Prop := r.emitted = r.inclLen.toNat

/-- The stream of a sequence of packets. -/
def stream (w : PcapWriter) (packets : List PcapPacket) : List PcapRecord :=
    packets.map (writepacket w)

/-! ## What is emitted -/

/-- The octets of some writes. -/
def octets (ws : List Fwrite) : Nat := (ws.map (·.size.toNat)).sum

@[simp] theorem octets_nil : octets [] = 0 := rfl

@[simp] theorem octets_cons (f : Fwrite) (ws : List Fwrite) :
    octets (f :: ws) = f.size.toNat + octets ws := by
  simp [octets]

@[simp] theorem octets_append (ws ws' : List Fwrite) :
    octets (ws ++ ws') = octets ws + octets ws' := by
  simp [octets]

@[simp] theorem size_struct {n : Nat} (member : Octets n) :
    (Fwrite.struct member).size = UInt64.ofNat n := rfl

/-- A size that is negative becomes one of more than `2 ^ 63`. -/
theorem size_part {data : List UInt8} {size : Int} :
    ((Fwrite.part data size).size.toNat : Int) = size % 18446744073709551616 := by
  simp only [Fwrite.part, UInt64.ofInt, UInt64.toNat_ofNat']
  omega

theorem octets_padding {n : Int} (h : n < 2 ^ 64) : (octets (padding n) : Int) = max 0 n := by
  induction n using padding.induct with
  | case1 n hn =>
    rw [padding, if_pos hn]
    simp
    omega
  | case2 n hn hlong ih =>
    have hpad : PADDING = 2048 := rfl
    rw [padding, if_neg hn, if_pos hlong, octets_cons]
    have hsize := @size_part (.replicate PADDING 0) PADDING
    have hrest := ih (by omega)
    omega
  | case3 n hn hlong =>
    rw [padding, if_neg hn, if_neg hlong]
    have hsize := @size_part (.replicate PADDING 0) n
    simp only [octets_cons, octets_nil, Nat.add_zero]
    omega

theorem int_lt (n : Int) : -2147483648 ≤ int n ∧ int n < 2147483648 := by
  unfold int
  omega

/-! ## The octets themselves -/

/-- What a write puts into the stream. -/
def Fwrite.octets (f : Fwrite) : List UInt8 := f.data.take f.size.toNat

theorem octets_struct {n : Nat} (member : Octets n) (h : n < 2 ^ 64) :
    (Fwrite.struct member).octets = List.ofFn member := by
  rw [Fwrite.octets, size_struct, UInt64.toNat_ofNat_of_lt' h]
  exact List.take_of_length_le (by simp [Fwrite.struct])

theorem octets_part {data : List UInt8} {size : Int} (h0 : 0 ≤ size) (h : size < 2 ^ 64) :
    (Fwrite.part data size).octets = data.take size.toNat := by
  have hsize := @size_part data size
  rw [Fwrite.octets, show (Fwrite.part data size).size.toNat = size.toNat by omega]
  rfl

/-- The padding is zeros, as many as are missing. -/
theorem padding_octets {n : Int} (h : n < 2 ^ 64) :
    (padding n).flatMap Fwrite.octets = List.replicate n.toNat 0 := by
  have hpad : PADDING = 2048 := rfl
  induction n using padding.induct with
  | case1 n hn =>
    rw [padding, if_pos hn, Int.toNat_of_nonpos hn]
    rfl
  | case2 n hn hlong ih =>
    rw [padding, if_neg hn, if_pos hlong, List.flatMap_cons, ih (by omega),
      octets_part (by omega) (by omega), List.take_replicate, List.replicate_append_replicate]
    congr 1
    omega
  | case3 n hn hlong =>
    rw [padding, if_neg hn, if_neg hlong, List.flatMap_singleton, octets_part (by omega) h,
      List.take_replicate]
    congr 1
    omega

section Packet

variable {w : PcapWriter} {p : PcapPacket} {ipLength : Int}

/-- The lengths that a packet comes with: a header section; or none, no payload section of negative
size, and no length for the header to say, or one that the IP header does not exceed. The last sum
is that of two `int`. -/
def PcapPacket.Fits (p : PcapPacket) : Prop :=
  0 < p.iphpsSize.toInt ∨
    (p.iphpsSize.toInt = 0 ∧ 0 ≤ p.ipppsSize.toInt ∧
      (p.packetLength = 0 ∨ (20 ≤ p.packetLength ∧ p.ipppsSize.toInt + 20 < 2147483648)))

/-- Where the length comes from. -/
theorem ipLength_cases (p : PcapPacket) :
    (p.packetLength ≠ 0 ∧ p.ipLength.1 = p.packetLength) ∨
    (p.packetLength = 0 ∧ 0 < p.iphpsSize.toInt ∧ p.ipLength.1 = p.iphpsSize.toInt) ∨
    (p.packetLength = 0 ∧ p.iphpsSize.toInt ≤ 0 ∧ 0 < p.ipppsSize.toInt ∧
      p.ipLength.1 = int (p.ipppsSize.toInt + 20)) ∨
    (p.packetLength = 0 ∧ p.iphpsSize.toInt ≤ 0 ∧ p.ipppsSize.toInt ≤ 0 ∧ 20 ≤ p.ipLength.1 ∧
      p.ipLength.1 ≤ 40) := by
  unfold PcapPacket.ipLength
  split
  · exact .inl ⟨‹_›, rfl⟩
  rename_i hlength
  split
  · exact .inr (.inl ⟨not_not.mp hlength, ‹_›, rfl⟩)
  rename_i hiphps
  refine .inr (.inr ?_)
  by_cases hippps : 0 < p.ipppsSize.toInt
  · refine .inl ⟨not_not.mp hlength, by omega, hippps, ?_⟩
    simp only [PcapPacket.payloadLength, if_pos hippps]
  · refine .inr ⟨not_not.mp hlength, by omega, by omega, ?_⟩
    have hint : ∀ n : Int, 0 ≤ n → n ≤ 20 → 20 ≤ int (n + 20) ∧ int (n + 20) ≤ 40 := by
      intro n hn hn'
      unfold int
      omega
    simp only [PcapPacket.payloadLength, if_neg hippps]
    repeat' split
    all_goals exact hint _ (by simp) (by simp)

theorem sizes_ipLength (p : PcapPacket) :
    p.ipLength.2.iphpsSize = p.iphpsSize ∧ p.ipLength.2.ipppsSize = p.ipppsSize := by
  have hpayload : p.payloadLength.2.iphpsSize = p.iphpsSize ∧
      p.payloadLength.2.ipppsSize = p.ipppsSize := by
    unfold PcapPacket.payloadLength
    repeat' split
    all_goals exact ⟨rfl, rfl⟩
  unfold PcapPacket.ipLength
  split
  · exact ⟨rfl, rfl⟩
  split
  · exact ⟨rfl, rfl⟩
  · exact hpayload

/-- What is written of the IP packet and behind it. -/
def ipOctets (w : PcapWriter) (p : PcapPacket) (ipLength : Int) : Nat :=
  octets (writeIp w p ipLength).1 + octets (padding (int (ipLength - (writeIp w p ipLength).2)))

theorem emitted_eq (w : PcapWriter) (p : PcapPacket) :
    (writepacket w p).emitted = 14 + ipOctets w p.ipLength.2 p.ipLength.1 := by
  have h := octets_append (.struct hdrEthernet :: (writeIp w p.ipLength.2 p.ipLength.1).1)
    (padding (int (p.ipLength.1 - (writeIp w p.ipLength.2 p.ipLength.1).2)))
  rw [octets_cons, size_struct, Nat.add_assoc] at h
  exact h

theorem octets_padding_int (n : Int) : (octets (padding (int n)) : Int) = max 0 (int n) := by
  have h := (int_lt n).2
  exact octets_padding (by omega)

/-- A section, with the padding behind it. -/
theorem writeSection_octets (data : List UInt8) (dataSize ipLength written : Int) :
    ∃ size,
    size = (if ipLength ≤ int (dataSize + written) then int (ipLength - written) else dataSize) ∧
      ((writeSection data dataSize ipLength written).1.size.toNat : Int) =
        size % 18446744073709551616 ∧
      (octets (padding (int (ipLength - (writeSection data dataSize ipLength written).2))) : Int) =
        max 0 (int (ipLength - int (written + size))) :=
  ⟨_, rfl, size_part, octets_padding_int _⟩

/-- Without sections. -/
theorem ipOctets_headers (hiphps : p.iphpsSize.toInt = 0) (hippps : p.ipppsSize.toInt = 0)
    (h0 : 0 ≤ ipLength) (hlt : ipLength < 65536) :
    (ipOctets w p ipLength : Int) = max 20 ipLength := by
  unfold ipOctets writeIp
  rw [if_pos hiphps]
  dsimp only
  rw [if_pos hippps]
  have hpadding : ∀ k : Int, 0 ≤ k → k ≤ 40 →
      (octets (padding (int (ipLength - k))) : Int) = max 0 (ipLength - k) := by
    intro k hk hk'
    rw [octets_padding_int]
    unfold int
    omega
  have hip : (UInt64.ofNat 20).toNat = 20 := rfl
  have hudp : (UInt64.ofNat 8).toNat = 8 := rfl
  split
  · rename_i hlong
    simp only [Bool.and_eq_true, decide_eq_true_eq] at hlong
    have h28 := hpadding (20 + 8) (by decide) (by decide)
    simp only [octets_cons, octets_nil, size_struct, Nat.cast_add, h28, hip, hudp]
    omega
  split
  · rename_i hlong
    simp only [Bool.and_eq_true, decide_eq_true_eq] at hlong
    have h40 := hpadding (20 + 20) (by decide) (by decide)
    simp only [octets_cons, octets_nil, size_struct, Nat.cast_add, h40, hip]
    omega
  · have h20 := hpadding 20 (by decide) (by decide)
    simp only [octets_cons, octets_nil, size_struct, Nat.cast_add, h20, hip]
    omega

/-- With a payload section. -/
theorem ipOctets_ippps (hiphps : p.iphpsSize.toInt = 0) (hippps : p.ipppsSize.toInt ≠ 0) :
    ∃ size, size = (if ipLength ≤ int (p.ipppsSize.toInt + 20) then int (ipLength - 20)
        else p.ipppsSize.toInt) ∧
      (ipOctets w p ipLength : Int) =
        20 + size % 18446744073709551616 + max 0 (int (ipLength - int (20 + size))) := by
  obtain ⟨size, hsize, hoctets, hpadding⟩ :=
    writeSection_octets p.ippps p.ipppsSize.toInt ipLength 20
  refine ⟨size, hsize, ?_⟩
  unfold ipOctets writeIp
  rw [if_pos hiphps]
  dsimp only
  rw [if_neg hippps, Nat.cast_add, hpadding]
  simp only [octets_cons, octets_nil, size_struct, Nat.cast_add, hoctets]
  simp

/-- With a header section. -/
theorem ipOctets_iphps (hiphps : p.iphpsSize.toInt ≠ 0) :
    ∃ size, size = (if ipLength ≤ int (p.iphpsSize.toInt + 0) then int (ipLength - 0)
        else p.iphpsSize.toInt) ∧
      (ipOctets w p ipLength : Int) =
        size % 18446744073709551616 + max 0 (int (ipLength - int (0 + size))) := by
  obtain ⟨size, hsize, hoctets, hpadding⟩ :=
    writeSection_octets p.iphps p.iphpsSize.toInt ipLength 0
  refine ⟨size, hsize, ?_⟩
  unfold ipOctets writeIp
  rw [if_neg hiphps]
  dsimp only
  rw [Nat.cast_add, hpadding]
  simp only [octets_cons, octets_nil, hoctets, Nat.cast_add, Nat.cast_zero, Int.add_zero]

/-- The octets of the IP packet are as many as its length says, up to a multiple of `2 ^ 32`,
exactly for the packets that fit. -/
theorem ipOctets_iff (w : PcapWriter) (p : PcapPacket) :
    (14 + ipOctets w p.ipLength.2 p.ipLength.1 : Int) = (p.ipLength.1 + 14) % 4294967296 ↔
    p.Fits := by
  have hlength : p.packetLength < 65536 := ntohs_lt _ _
  have hcases := ipLength_cases p
  obtain ⟨hiphpsSize, hipppsSize⟩ := sizes_ipLength p
  have hiphps := p.iphpsSize.toInt_lt
  have hiphps' := p.iphpsSize.le_toInt
  have hippps := p.ipppsSize.toInt_lt
  have hippps' := p.ipppsSize.le_toInt
  unfold PcapPacket.Fits
  by_cases h : p.iphpsSize.toInt = 0
  · by_cases h' : p.ipppsSize.toInt = 0
    · have hoctets := @ipOctets_headers w p.ipLength.2 p.ipLength.1 (by rw [hiphpsSize, h])
        (by rw [hipppsSize, h']) (by omega) (by omega)
      omega
    · obtain ⟨size, hsize, hoctets⟩ := @ipOctets_ippps w p.ipLength.2 p.ipLength.1
        (by rw [hiphpsSize, h]) (by rwa [hipppsSize])
      rw [hipppsSize] at hsize
      unfold int at *
      omega
  · obtain ⟨size, hsize, hoctets⟩ :=
      @ipOctets_iphps w p.ipLength.2 p.ipLength.1 (by rwa [hiphpsSize])
    rw [hiphpsSize] at hsize
    unfold int at *
    omega

/-- One packet. -/
theorem writepacket_framed_iff (w : PcapWriter) (p : PcapPacket) :
    (writepacket w p).Framed ↔ p.Fits := by
  rw [← ipOctets_iff w p, PcapRecord.Framed, emitted_eq]
  have hincl : ((writepacket w p).inclLen.toNat : Int) = (p.ipLength.1 + 14) % 4294967296 := by
    simp only [writepacket, UInt32.ofInt, UInt32.toNat_ofNat']
    omega
  omega

end Packet

/-! ## Streams -/

/-- Where the record headers stand when the one at `pos` is followed by these records, and where the
last one ends. -/
def starts (lengthOf : PcapRecord → Nat) : Nat → List PcapRecord → List Nat
  | pos, [] => [pos]
  | pos, r :: rs => pos :: starts lengthOf (pos + 16 + lengthOf r) rs

/-- Where a reader looks for them. -/
def readerStarts : Nat → List PcapRecord → List Nat := starts (·.inclLen.toNat)

/-- Where they were written. -/
def writerStarts : Nat → List PcapRecord → List Nat := starts PcapRecord.emitted

theorem starts_of_framed {rs : List PcapRecord} (h : ∀ r ∈ rs, r.Framed) (pos : Nat) :
    readerStarts pos rs = writerStarts pos rs := by
  induction rs generalizing pos with
  | nil => rfl
  | cons r rs ih =>
    have hr : r.emitted = r.inclLen.toNat := h r List.mem_cons_self
    simp only [readerStarts, writerStarts, starts, hr]
    exact congrArg (pos :: ·) (ih (fun r hr => h r (List.mem_cons_of_mem _ hr)) _)

/-- `sizeof(struct pcap_hdr)` -/
def fileHeaderSize : Nat := 24

/-- Where the fields of the record end in front of the pointers of the packet, what counts is the
header section and the length. -/
theorem fits_addFields_iff {mem : Mem} {heap : Pointer → List UInt8} {now : UInt32}
    {r : List (DataField × Pointer)} {q : PacketMemory}
    (hfresh : (PacketObject.new mem heap now).FreshAlong r)
    (hr : ∀ f ∈ r, f.1.fieldData.length < 65536)
    (hq : (PacketMemory.new mem now).addFields (r.map Prod.fst) = some q)
    (hlength : q.ippps.length < 65536) :
    ((PacketObject.new mem heap now).addFields r).packet.Fits ↔
      q.iphps ≠ [] ∨ ((PacketObject.new mem heap now).addFields r).packet.packetLength = 0 ∨
        20 ≤ ((PacketObject.new mem heap now).addFields r).packet.packetLength := by
  obtain ⟨⟨hiphps, -⟩, hippps, -⟩ := PacketObject.sections_addFields hfresh
    (fun f hf => Nat.lt_trans (hr f hf) (by decide)) hq
  rw [PcapPacket.Fits, hiphps, hippps, Ne, ← List.length_eq_zero_iff]
  omega

/-- Memory of zeros, where no address leads anywhere. -/
def blank : PacketObject := .new (fun _ => 0) (fun _ => []) 0

/-- Where a buffer may be. -/
def sampleBuffer (n : UInt8) : Pointer := ⟨[n, 0, 0, 0, 0, 0, 0, 1], rfl⟩

/-- The packet of a record on such memory. -/
def blankPacket (r : DataRecord) : PcapPacket :=
    (blank.addFields (r.map (·, sampleBuffer 0))).packet

/-- A record that gives nothing but the length of the IP packet. -/
def shortRecord : DataRecord := [⟨IpfixTypeId.totalLengthIPv4, [0, 10], 0⟩]

/-- An urgent pointer of 30 octets: the size of the header section becomes 0, that of the payload
section -5. -/
def overlongRecord : DataRecord :=
  [⟨IpfixTypeId.totalLengthIPv4, [0, 100], 0⟩,
    ⟨187, .replicate 26 0 ++ [0xfb, 0xff, 0xff, 0xff], 0⟩]

end Topas.Snort
