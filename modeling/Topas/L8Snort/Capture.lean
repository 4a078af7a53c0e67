import Topas.L8Snort.PcapWriter

/-!
# The octets of the pcap stream

What snort reads from the pipe: the file header, the packet of `writedummypacket`, and the packets
of the records, octet for octet. The host is little-endian, so are the numbers in the stream.

`readCapture` is a reader of such streams: it checks the file header, and takes from each record
header how many octets follow, up to the limit in the file header.

* `capture_read`: whatever packets are written, if their lengths fit (`PcapPacket.Fits`) and their
  sections are there (`PcapPacket.Whole`) the reader gets all of them and nothing else, with their
  time stamps; each is an Ethernet frame around the IP packet, which is cut off or filled up with
  zeros to the length that its header says.
-/
namespace Topas.Snort

/-! ## Numbers -/

def readLe16 (a b : UInt8) : UInt16 := .ofNat (a.toNat + 256 * b.toNat)

/-! ## The writer -/

/-- mirrors detectionmodules/snortmodule/pcapwriter.h:99-104 -/
def PcapRecord.octets (r : PcapRecord) : List UInt8 :=
  le32 r.tsSec ++ le32 r.tsUsec ++ le32 r.inclLen ++ le32 r.origLen ++ r.body.flatMap Fwrite.octets

def PCAP_MAGIC : UInt32 := 0xa1b2c3d4

/-- mirrors detectionmodules/snortmodule/pcapwriter.cpp:383, 412-423 -/
def writefileheader : List UInt8 :=
  le32 PCAP_MAGIC ++ Mem.encLe16 2 ++ Mem.encLe16 4 ++ le32 0 ++ le32 0 ++ le32 102400 ++ le32 1

/-- The members that are set to numbers are so in the order of the host. The TCP ports are not
initialized.
mirrors detectionmodules/snortmodule/pcapwriter.cpp:398-410, pcappacket.cpp:39 -/
def dummyPacket (tcpPorts : List UInt8) : PcapPacket :=
  let dpacket : PcapPacket := .new (setOctets (fun _ => 0) 0 (Mem.encLe16 666))
    (setOctets (fun _ => 0) 0 (Mem.encLe16 555)) tcpPorts
  { dpacket with
    hdrIp := setOctets (setOctets dpacket.hdrIp 12 (le32 16777343)) 16 (le32 16777343)
    hdrTcp := true
    headerTcp := setOctets dpacket.headerTcp 14 (Mem.encLe16 80) }

/-- All that is written, from `init` on.
mirrors detectionmodules/snortmodule/snortmodule.cpp:173-174, 409 -/
def capture (w : PcapWriter) (tcpPorts : List UInt8) (packets : List PcapPacket) : List UInt8 :=
  writefileheader ++ (stream w (dummyPacket tcpPorts :: packets)).flatMap PcapRecord.octets

/-! ## A reader -/

/-- A packet of the stream. -/
structure Captured where
  tsSec : UInt32
  tsUsec : UInt32
  origLen : UInt32
  octets : List UInt8
  deriving DecidableEq

/-- The records up to the end of the stream, `none` where it ends inside of one or one is too long.
-/
def readRecords (snaplen : UInt32) : Nat → List UInt8 → Option (List Captured)
  | _, [] => some []
  | fuel + 1, s0 :: s1 :: s2 :: s3 :: u0 :: u1 :: u2 :: u3 :: i0 :: i1 :: i2 :: i3 ::
      o0 :: o1 :: o2 ::
      o3 :: rest =>
    let inclLen := readLe32 i0 i1 i2 i3
    if inclLen ≤ snaplen ∧ inclLen.toNat ≤ rest.length then do
      let records ← readRecords snaplen fuel (rest.drop inclLen.toNat)
      some (⟨readLe32 s0 s1 s2 s3, readLe32 u0 u1 u2 u3, readLe32 o0 o1 o2 o3,
        rest.take inclLen.toNat⟩ :: records)
    else none
  | _, _ => none

def readCapture : List UInt8 → Option (List Captured)
  | m0 :: m1 :: m2 :: m3 :: a0 :: a1 :: i0 :: i1 :: _ :: _ :: _ :: _ :: _ :: _ :: _ :: _ ::
      l0 :: l1 :: l2 :: l3 :: _ :: _ :: _ :: _ :: rest =>
    if readLe32 m0 m1 m2 m3 = PCAP_MAGIC ∧ readLe16 a0 a1 = 2 ∧ readLe16 i0 i1 = 4 then
      readRecords (readLe32 l0 l1 l2 l3) rest.length rest
    else none
  | _ => none

/-! ## What a packet should become -/

/-- The sections are there, with the size of a field. -/
structure PcapPacket.Whole (p : PcapPacket) : Prop where
  iphps : p.iphpsSize.toInt = p.iphps.length
  ippps : p.ipppsSize.toInt = p.ippps.length
  iphps_lt : p.iphps.length < 65536
  ippps_lt : p.ippps.length < 65536

/-- The IP packet that there is, up to its length `ipLength`. -/
def ipContent (w : PcapWriter) (p : PcapPacket) (ipLength : Nat) : List UInt8 :=
  if p.iphps.length = 0 then
    List.ofFn (p.finishIp w) ++
      if p.ippps.length = 0 then
        if p.hdrUdp && decide (28 ≤ ipLength) then
          List.ofFn (p.finishUdp w (p.finishIp w) (ipLength - 20))
        else if p.hdrTcp && decide (40 ≤ ipLength) then
          List.ofFn (p.finishTcp w (p.finishIp w) (ipLength - 20))
        else []
      else p.ippps
  else p.iphps

/-- Cut off, or filled up with zeros. -/
def fitTo (n : Nat) (data : List UInt8) : List UInt8 :=
  data.take n ++ List.replicate (n - data.length) 0

def frame (w : PcapWriter) (p : PcapPacket) : List UInt8 :=
  List.ofFn hdrEthernet ++ fitTo p.ipLength.1.toNat (ipContent w p.ipLength.2 p.ipLength.1.toNat)

def captured (w : PcapWriter) (p : PcapPacket) : Captured :=
  ⟨p.tsSec, p.tsUsec, .ofNat (frame w p).length, frame w p⟩

/-! ## Records are read back -/

/-- A record whose octets are as many as it says. -/
theorem readRecords_cons {r : PcapRecord} {snaplen : UInt32} (hsnap : r.inclLen ≤ snaplen)
    (hlen : (r.body.flatMap Fwrite.octets).length = r.inclLen.toNat) (fuel : Nat)
    (rest : List UInt8) :
    readRecords snaplen (fuel + 1) (r.octets ++ rest) =
      (readRecords snaplen fuel rest).map
        (⟨r.tsSec, r.tsUsec, r.origLen, r.body.flatMap Fwrite.octets⟩ :: ·) := by
  obtain ⟨_, _, _, _, hsec, hreadSec⟩ := exists_le32 r.tsSec
  obtain ⟨_, _, _, _, husec, hreadUsec⟩ := exists_le32 r.tsUsec
  obtain ⟨_, _, _, _, hincl, hreadIncl⟩ := exists_le32 r.inclLen
  obtain ⟨_, _, _, _, horig, hreadOrig⟩ := exists_le32 r.origLen
  simp only [PcapRecord.octets, hsec, husec, hincl, horig, List.cons_append, List.nil_append,
    readRecords,
    hreadSec, hreadUsec, hreadIncl, hreadOrig]
  rw [if_pos ⟨hsnap, by rw [List.length_append, hlen]; exact Nat.le_add_right _ _⟩, ← hlen,
    List.drop_left,
    List.take_left]
  cases readRecords snaplen fuel rest <;> rfl

/-! ## The frames -/

theorem length_fitTo (n : Nat) (data : List UInt8) : (fitTo n data).length = n := by
  rw [fitTo, List.length_append, List.length_take, List.length_replicate]
  omega

/-- A section is cut off where the IP packet ends. -/
theorem octets_writeSection (data : List UInt8) {ipLength written : Nat}
    (hdata : data.length < 65536) (h : written ≤ ipLength) (hlt : ipLength < 65556) :
    (writeSection data data.length ipLength written).1.octets = data.take (ipLength - written) ∧
      (writeSection data data.length ipLength written).2 =
        written + (data.take (ipLength - written)).length := by
  have hint : ∀ n : Int, 0 ≤ n → n < 200000 → int n = n := by
    intro n hn hn'
    unfold int
    omega
  have htotal := hint (data.length + written) (by omega) (by omega)
  have hrest := hint (ipLength - written) (by omega) (by omega)
  unfold writeSection
  rw [htotal, hrest]
  dsimp only
  split
  · rename_i hlong
    rw [octets_part (by omega) (by omega), List.length_take, hint _ (by omega) (by omega),
      show (ipLength - written : Int).toNat = ipLength - written by omega]
    exact ⟨rfl, by omega⟩
  · rename_i hshort
    rw [octets_part (by omega) (by omega), hint _ (by omega) (by omega), Int.toNat_natCast,
      List.take_length, List.take_of_length_le (by omega)]
    exact ⟨rfl, rfl⟩

/-- What stands between the Ethernet header and the padding is what there is of the IP packet, as
much of it as it is to be long. -/
theorem writeIp_octets {w : PcapWriter} {p : PcapPacket} {ipLength : Nat} (hp : p.Whole)
    (h : 0 < p.iphps.length ∨ 20 ≤ ipLength) (hlt : ipLength < 65556) :
    (writeIp w p ipLength).1.flatMap Fwrite.octets = (ipContent w p ipLength).take ipLength ∧
      (writeIp w p ipLength).2 = ((ipContent w p ipLength).take ipLength).length := by
  have hheader : (Fwrite.struct (p.finishIp w)).octets = List.ofFn (p.finishIp w) :=
    octets_struct _ (by decide)
  unfold writeIp ipContent
  rw [hp.iphps, hp.ippps]
  simp only [Int.natCast_eq_zero]
  split
  · rename_i hiphps
    have h20 : 20 ≤ ipLength := h.resolve_left (by omega)
    have hsub : ((ipLength : Int) - 20).toNat = ipLength - 20 := by omega
    have htake : ∀ data : List UInt8, (List.ofFn (p.finishIp w) ++ data).take ipLength =
        List.ofFn (p.finishIp w) ++ data.take (ipLength - 20) := by
      intro data
      rw [List.take_append, List.length_ofFn, List.take_of_length_le (by simpa using h20)]
    have h28 : decide ((28 : Int) ≤ (ipLength : Int)) = decide (28 ≤ ipLength) :=
      decide_eq_decide.mpr (by omega)
    have h40 : decide ((40 : Int) ≤ (ipLength : Int)) = decide (40 ≤ ipLength) :=
      decide_eq_decide.mpr (by omega)
    rw [htake, h28, h40]
    split
    · by_cases hudp : (p.hdrUdp && decide (28 ≤ ipLength)) = true
      · have hfit : 28 ≤ ipLength := of_decide_eq_true (Bool.and_eq_true_iff.mp hudp).2
        rw [if_pos hudp, if_pos hudp, hsub, List.take_of_length_le
          (by rw [List.length_ofFn]; omega)]
        simp only [List.flatMap_cons, List.flatMap_nil, hheader,
          octets_struct _ (show 8 < 2 ^ 64 by decide)]
        simp
      rw [if_neg hudp, if_neg hudp]
      by_cases htcp : (p.hdrTcp && decide (40 ≤ ipLength)) = true
      · have hfit : 40 ≤ ipLength := of_decide_eq_true (Bool.and_eq_true_iff.mp htcp).2
        rw [if_pos htcp, if_pos htcp, hsub, List.take_of_length_le
          (by rw [List.length_ofFn]; omega)]
        simp only [List.flatMap_cons, List.flatMap_nil, hheader,
          octets_struct _ (show 20 < 2 ^ 64 by decide)]
        simp
      · rw [if_neg htcp, if_neg htcp]
        simp [hheader]
    · obtain ⟨hoctets, hwritten⟩ := octets_writeSection p.ippps hp.ippps_lt h20 hlt
      simp only [List.flatMap_cons, List.flatMap_nil, hheader, List.append_nil, List.length_append,
        List.length_ofFn]
      exact ⟨by rw [← hoctets]; rfl,
        by rw [show (20 : Int) = ((20 : Nat) : Int) from rfl, hwritten]; simp⟩
  · obtain ⟨hoctets, hwritten⟩ := octets_writeSection p.iphps hp.iphps_lt (Nat.zero_le ipLength) hlt
    simp only [List.flatMap_singleton]
    exact ⟨hoctets, by rw [show (0 : Int) = ((0 : Nat) : Int) from rfl, hwritten]; simp⟩

theorem tsSec_payloadLength (p : PcapPacket) :
    p.payloadLength.2.tsSec = p.tsSec ∧ p.payloadLength.2.tsUsec = p.tsUsec := by
  unfold PcapPacket.payloadLength
  repeat' split
  all_goals exact ⟨rfl, rfl⟩

theorem tsSec_ipLength (p : PcapPacket) :
    p.ipLength.2.tsSec = p.tsSec ∧ p.ipLength.2.tsUsec = p.tsUsec := by
  unfold PcapPacket.ipLength
  split
  · exact ⟨rfl, rfl⟩
  split
  · exact ⟨rfl, rfl⟩
  · exact tsSec_payloadLength p

/-- The sections are left as they are. -/
theorem whole_ipLength {p : PcapPacket} (hp : p.Whole) :
    p.ipLength.2.Whole ∧ p.ipLength.2.iphps = p.iphps := by
  have hpayload : p.payloadLength.2.Whole ∧ p.payloadLength.2.iphps = p.iphps := by
    unfold PcapPacket.payloadLength
    repeat' split
    all_goals exact ⟨⟨hp.iphps, hp.ippps, hp.iphps_lt, hp.ippps_lt⟩, rfl⟩
  unfold PcapPacket.ipLength
  split
  · exact ⟨hp, rfl⟩
  split
  · exact ⟨hp, rfl⟩
  · obtain ⟨⟨h1, h2, h3, h4⟩, h5⟩ := hpayload
    exact ⟨⟨h1, h2, h3, h4⟩, h5⟩

/-- The length is one of 16 bits, or what a section needs. -/
theorem ipLength_whole {p : PcapPacket} (hp : p.Whole) :
    0 ≤ p.ipLength.1 ∧ p.ipLength.1 < 65556 := by
  have hlength : p.packetLength < 65536 := ntohs_lt _ _
  obtain ⟨hiphps, hippps, hiphps_lt, hippps_lt⟩ := hp
  rcases ipLength_cases p with ⟨-, h⟩ | ⟨-, -, h⟩ | ⟨-, -, -, h⟩ | ⟨-, -, -, h, h'⟩
  · omega
  · omega
  · rw [h]
    unfold int
    omega
  · omega

theorem length_frame (w : PcapWriter) (p : PcapPacket) :
    (frame w p).length = p.ipLength.1.toNat + 14 := by
  rw [frame, List.length_append, List.length_ofFn, length_fitTo, Nat.add_comm]

theorem inclLen_writepacket (w : PcapWriter) {p : PcapPacket} (hp : p.Whole) :
    (writepacket w p).inclLen.toNat = p.ipLength.1.toNat + 14 := by
  obtain ⟨h0, hlt⟩ := ipLength_whole hp
  simp only [writepacket, UInt32.ofInt, UInt32.toNat_ofNat']
  omega

/-- Where there is no header section, the length covers the IP header. -/
theorem header_of_fits {p : PcapPacket} (hp : p.Whole) (h : p.Fits) :
    0 < p.ipLength.2.iphps.length ∨ 20 ≤ p.ipLength.1.toNat := by
  have hcases := ipLength_cases p
  obtain ⟨hiphps, hippps, hiphps_lt, hippps_lt⟩ := id hp
  rw [(whole_ipLength hp).2]
  unfold PcapPacket.Fits at h
  unfold int at hcases
  omega

/-- What is written behind a record header is the frame. -/
theorem body_writepacket (w : PcapWriter) {p : PcapPacket} (hp : p.Whole) (h : p.Fits) :
    (writepacket w p).body.flatMap Fwrite.octets = frame w p := by
  obtain ⟨h0, hlt⟩ := ipLength_whole hp
  obtain ⟨n, hn⟩ : ∃ n : Nat, p.ipLength.1 = n := ⟨p.ipLength.1.toNat, by omega⟩
  have hheader := header_of_fits hp h
  rw [hn, Int.toNat_natCast] at hheader
  obtain ⟨hip, hwritten⟩ :=
    @writeIp_octets w p.ipLength.2 n (whole_ipLength hp).1 hheader (by omega)
  have hlength : ((ipContent w p.ipLength.2 n).take n).length ≤ n := by
    rw [List.length_take]
    exact Nat.min_le_left _ _
  have hint : int (n - ((ipContent w p.ipLength.2 n).take n).length : Int) =
      (n - ((ipContent w p.ipLength.2 n).take n).length : Int) := by
    unfold int
    omega
  simp only [writepacket, List.cons_append, List.flatMap_cons, List.flatMap_append]
  rw [octets_struct hdrEthernet (by decide), hn, hip, hwritten, hint,
    padding_octets (by omega), frame,
    fitTo, hn, Int.toNat_natCast]
  congr 3
  rw [List.length_take]
  omega

/-! ## The stream is read back -/

theorem readRecords_stream (w : PcapWriter) {packets : List PcapPacket}
    (h : ∀ p ∈ packets, p.Whole ∧ p.Fits) {fuel : Nat} (hfuel : packets.length ≤ fuel) :
    readRecords 102400 fuel ((stream w packets).flatMap PcapRecord.octets) =
      some (packets.map (captured w)) := by
  induction packets generalizing fuel with
  | nil =>
    cases fuel <;> rfl
  | cons p packets ih =>
    obtain ⟨fuel, rfl⟩ : ∃ fuel', fuel = fuel' + 1 :=
      ⟨fuel - 1, by rw [List.length_cons] at hfuel; omega⟩
    obtain ⟨hp, hfits⟩ := h p List.mem_cons_self
    obtain ⟨h0, hlt⟩ := ipLength_whole hp
    have hincl := inclLen_writepacket w hp
    have hbody := body_writepacket w hp hfits
    have hsnap : (writepacket w p).inclLen ≤ 102400 := by
      rw [UInt32.le_iff_toNat_le, hincl]
      have hnat : (102400 : UInt32).toNat = 102400 := rfl
      omega
    have hrest := ih (fun p hp => h p (List.mem_cons_of_mem _ hp)) (Nat.le_of_succ_le_succ hfuel)
    rw [stream, List.map_cons, List.flatMap_cons,
      readRecords_cons hsnap (by rw [hbody, length_frame, hincl]), ← stream, hrest, hbody]
    have horig : (writepacket w p).origLen = .ofNat (frame w p).length := by
      rw [length_frame, ← hincl, UInt32.ofNat_toNat]
      rfl
    simp only [Option.map_some, List.map_cons, captured, horig, ← (tsSec_ipLength p).1,
      ← (tsSec_ipLength p).2]
    rfl

theorem dummyPacket_fits (tcpPorts : List UInt8) :
    (dummyPacket tcpPorts).Whole ∧ (dummyPacket tcpPorts).Fits := by
  have h2 : (dummyPacket tcpPorts).hdrIp 2 = 0 := rfl
  have h3 : (dummyPacket tcpPorts).hdrIp 3 = 0 := rfl
  have hlength : (dummyPacket tcpPorts).packetLength = 0 := congrArg₂ ntohs h2 h3
  exact
    ⟨⟨rfl, rfl, Nat.zero_lt_succ _, Nat.zero_lt_succ _⟩, .inr ⟨rfl, Int.le_refl 0, .inl hlength⟩⟩

theorem length_le_flatMap_octets (rs : List PcapRecord) :
    rs.length ≤ (rs.flatMap PcapRecord.octets).length := by
  induction rs with
  | nil => exact Nat.le_refl 0
  | cons r rs ih =>
    rw [List.flatMap_cons, List.length_append, List.length_cons, PcapRecord.octets]
    simp only [List.length_append, length_le32]
    omega

/-- Whatever packets are written, if their sections are there and their lengths fit: the reader
accepts the stream, and gets the packet of `writedummypacket` and all of them, in their order, each
as its frame. -/
theorem capture_read (w : PcapWriter) (tcpPorts : List UInt8) {packets : List PcapPacket}
    (h : ∀ p ∈ packets, p.Whole ∧ p.Fits) :
    readCapture (capture w tcpPorts packets) =
      some ((dummyPacket tcpPorts :: packets).map (captured w)) := by
  have hlen := length_le_flatMap_octets (stream w (dummyPacket tcpPorts :: packets))
  rw [stream, List.length_map, ← stream] at hlen
  have hread := readRecords_stream w (List.forall_mem_cons.mpr ⟨dummyPacket_fits tcpPorts, h⟩) hlen
  rw [capture, ← hread]
  rfl

/-- A record with a payload section, which the IP packet is longer than. -/
def payloadRecord : DataRecord :=
  [⟨IpfixTypeId.totalLengthIPv4, [0, 30], 0⟩, ⟨314, [1, 2, 3], 0⟩]

theorem capture_read_payload :
    ((blankPacket payloadRecord).Whole ∧ (blankPacket payloadRecord).Fits) ∧
      readCapture (capture ⟨true, true⟩ [0, 0, 0, 0] [blankPacket payloadRecord]) =
        some
        ([dummyPacket [0, 0, 0, 0], blankPacket payloadRecord].map (captured ⟨true, true⟩)) := by
  have hwhole : (blankPacket payloadRecord).Whole := ⟨by decide, by decide, by decide, by decide⟩
  have hfits : (blankPacket payloadRecord).Fits := by
    unfold PcapPacket.Fits
    decide
  exact ⟨⟨hwhole, hfits⟩,
    capture_read _ _ fun _ hp => List.mem_singleton.mp hp ▸ ⟨hwhole, hfits⟩⟩

end Topas.Snort
