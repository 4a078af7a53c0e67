import Topas.L8Snort.PcapWriter

/-!
# Transport checksums

A receiver adds the words of the pseudo header, of the transport header with its checksum and of
what follows, and takes the packet when the sum is all ones. `pcapwriter.cpp` makes the checksum
from two sums that are complemented apart, and writes 1 where it comes out as 0, which stands for no
checksum.

* `transportChecksum_verifies_iff`: the checksum is right unless both sums are all ones already;
  these are the ones for which it comes out as 0.
* `checksum_verifies_iff`: so are the packets that are written, with padding of any length. A record
  can fill the checksum member with an overlong field; then it is not calculated.
-/
namespace Topas.Snort

/-! ## Sums of words -/

/-- The folded sum is all ones. -/
def AllOnes (sum : Nat) : Prop := 0 < sum ∧ 65535 ∣ sum

theorem foldCarries_lt (sum : Nat) : foldCarries sum < 65536 := by
  induction sum using foldCarries.induct with
  | case1 sum h => rwa [foldCarries, if_pos h]
  | case2 sum h ih => rwa [foldCarries, if_neg h]

/-- A carry is worth as much as the end around which it is added. -/
theorem foldCarries_mod (sum : Nat) : foldCarries sum % 65535 = sum % 65535 := by
  induction sum using foldCarries.induct with
  | case1 sum h => rw [foldCarries, if_pos h]
  | case2 sum h ih =>
    rw [foldCarries, if_neg h, ih]
    omega

theorem foldCarries_eq_zero {sum : Nat} : foldCarries sum = 0 ↔ sum = 0 := by
  induction sum using foldCarries.induct with
  | case1 sum h => rw [foldCarries, if_pos h]
  | case2 sum h ih =>
    rw [foldCarries, if_neg h, ih]
    omega

theorem foldCarries_eq_ones {sum : Nat} : foldCarries sum = 65535 ↔ AllOnes sum := by
  have hlt := foldCarries_lt sum
  have hmod := foldCarries_mod sum
  have hzero := @foldCarries_eq_zero sum
  unfold AllOnes
  omega

theorem sumWords_append {xs : List UInt8} (ys : List UInt8) (h : xs.length % 2 = 0) :
    sumWords (xs ++ ys) = sumWords xs + sumWords ys := by
  induction xs using sumWords.induct with
  | case1 a b rest ih =>
    have hrest : rest.length % 2 = 0 := by
      simp only [List.length_cons] at h
      omega
    simp only [List.cons_append, sumWords, ih hrest]
    omega
  | case2 a => cases h
  | case3 => simp [sumWords]

theorem sumWords_replicate (n : Nat) : sumWords (List.replicate n 0) = 0 := by
  induction n using Nat.strongRecOn with
  | ind n ih =>
    match n with
    | 0 => rfl
    | 1 => rfl
    | n + 2 =>
      simp only [List.replicate_succ, sumWords, ih n (by omega)]
      rfl

theorem sumWords_htons {n : Nat} (h : n < 65536) : sumWords (htons n) = n := by
  simp only [htons, sumWords, ntohs, UInt8.toNat_ofNat']
  omega

/-! ## The checksum -/

/-- One carry at most is left to be added. -/
theorem fold_complements {u : Nat} (h : u ≤ 131070) :
    (u % 65536 + u / 65536) % 65536 = if u < 65536 then u else u - 65535 := by
  split
  · omega
  · omega

/-- What it adds to the folded sums; 1 stands where it would be 0. -/
theorem transportChecksum_cases (pseudoHeader header : List UInt8) :
    (foldCarries (sumWords pseudoHeader) = 65535 ∧ foldCarries (sumWords header) = 65535 ∧
        transportChecksum pseudoHeader header = 1) ∨
      (¬ (foldCarries (sumWords pseudoHeader) = 65535 ∧ foldCarries (sumWords header) = 65535) ∧
        0 < transportChecksum pseudoHeader header ∧
        (foldCarries (sumWords pseudoHeader) + foldCarries (sumWords header) +
          transportChecksum pseudoHeader header) % 65535 = 0) := by
  have hlt := foldCarries_lt (sumWords pseudoHeader)
  have hlt' := foldCarries_lt (sumWords header)
  obtain ⟨u, hu⟩ : ∃ u, u = inChecksum pseudoHeader + inChecksum header := ⟨_, rfl⟩
  have hchecksum : transportChecksum pseudoHeader header =
      if (u % 65536 + u / 65536) % 65536 = 0 then 1 else (u % 65536 + u / 65536) % 65536 := by
    rw [hu]
    rfl
  unfold inChecksum at hu
  rw [fold_complements (by omega)] at hchecksum
  split at hchecksum <;> split at hchecksum <;> omega

/-- The two sums together with the checksum made from them. -/
theorem transportChecksum_verifies_iff (pseudoHeader header : List UInt8) :
    AllOnes (sumWords pseudoHeader + sumWords header + transportChecksum pseudoHeader header) ↔
      ¬ (AllOnes (sumWords pseudoHeader) ∧ AllOnes (sumWords header)) := by
  rw [← @foldCarries_eq_ones (sumWords pseudoHeader), ← @foldCarries_eq_ones (sumWords header)]
  have hmod := foldCarries_mod (sumWords pseudoHeader)
  have hmod' := foldCarries_mod (sumWords header)
  unfold AllOnes
  rcases transportChecksum_cases pseudoHeader header with ⟨ha, hb, hc⟩ | ⟨hno, hpos, hsum⟩
  · omega
  · omega

theorem transportChecksum_lt (pseudoHeader header : List UInt8) :
    transportChecksum pseudoHeader header < 65536 := by
  unfold transportChecksum
  dsimp only
  split
  · omega
  · omega

/-! ## The members that are summed -/

/-- A copy leaves the words beside it. -/
theorem word_setOctets_other {n : Nat} {member : Octets n} {offset : Nat}
    {data : List UInt8} {i : Nat} (hi : i + 1 < n) (h : i + 1 < offset ∨ offset + data.length ≤ i) :
    word (setOctets member offset data) i hi = word member i hi := by
  have hkept : ∀ j : Fin n, (j : Nat) < offset ∨ offset + data.length ≤ j →
      setOctets member offset data j = member j := by
    intro j hj
    unfold setOctets
    split
    · rfl
    · rw [List.getElem?_eq_none (by omega), Option.getD_none]
  unfold word
  rw [hkept _ (by simp only; omega), hkept _ (by simp only; omega)]

theorem word_setOctets_htons {n : Nat} (member : Octets n) {offset c : Nat} (hc : c < 65536)
    (h : offset + 1 < n) : word (setOctets member offset (htons c)) offset h = c := by
  simp only [word, setOctets, Nat.lt_irrefl, if_false, Nat.sub_self, Nat.not_succ_lt_self, htons,
    Nat.add_sub_cancel_left, ntohs, List.getElem?_cons_zero, List.getElem?_cons_succ,
      Option.getD_some,
    UInt8.toNat_ofNat']
  omega

/-- A word is written. -/
theorem word_setOctets_beside {n : Nat} (member : Octets n) {offset i : Nat} (c : Nat)
    (hi : i + 1 < n) (h : i + 1 < offset ∨ offset + 2 ≤ i) :
    word (setOctets member offset (htons c)) i hi = word member i hi :=
  word_setOctets_other hi h

theorem sumWords_udp (member : Octets 8) :
    sumWords (List.ofFn member) = word member 0 (by decide) + word member 2 (by decide) +
      word member 4 (by decide) + word member 6 (by decide) := by
  simp [List.ofFn_succ, sumWords, word, Nat.add_assoc]

theorem sumWords_tcp (member : Octets 20) :
    sumWords (List.ofFn member) = word member 0 (by decide) + word member 2 (by decide) +
      word member 4 (by decide) + word member 6 (by decide) + word member 8 (by decide) +
      word member 10 (by decide) + word member 12 (by decide) + word member 14 (by decide) +
      word member 16 (by decide) + word member 18 (by decide) := by
  simp [List.ofFn_succ, sumWords, word, Nat.add_assoc]

/-- A checksum in a header without one is one more word. -/
theorem sumWords_checksum_udp {header : Octets 8} {c : Nat} (h : word header 6 (by decide) = 0)
    (hc : c < 65536) :
    sumWords (List.ofFn (setOctets header 6 (htons c))) = sumWords (List.ofFn header) + c := by
  rw [sumWords_udp, sumWords_udp, h, word_setOctets_htons _ hc,
    word_setOctets_beside _ _ _ (by decide),
    word_setOctets_beside _ _ _ (by decide), word_setOctets_beside _ _ _ (by decide)]
  omega

theorem sumWords_checksum_tcp {header : Octets 20} {c : Nat} (h : word header 16 (by decide) = 0)
    (hc : c < 65536) :
    sumWords (List.ofFn (setOctets header 16 (htons c))) = sumWords (List.ofFn header) + c := by
  rw [sumWords_tcp, sumWords_tcp, h, word_setOctets_htons _ hc]
  repeat rw [word_setOctets_beside _ _ _ (by decide)]
  omega

/-! ## What is written -/

/-- The IP packet of a record, behind the Ethernet header. -/
def PcapRecord.packet (r : PcapRecord) : List UInt8 := (r.body.flatMap Fwrite.octets).drop 14

/-- The sum over an IP packet with a header of 20 octets, as a receiver forms it. -/
def receiverSum (packet : List UInt8) : Nat :=
  sumWords ((packet.take 20).drop 12 ++ [0, packet.getD 9 0] ++ htons (packet.length - 20) ++
    packet.drop 20)

/-- The receiver takes the packet. -/
def Verifies (packet : List UInt8) : Prop := foldCarries (receiverSum packet) = 65535

inductive Transport
  | udp
  | tcp
  deriving DecidableEq

/-- The size of the transport header. -/
def Transport.size : Transport → Nat
  | udp => 8
  | tcp => 20

namespace PcapPacket

/-- The transport header that `writeIp` makes up.
mirrors detectionmodules/snortmodule/pcapwriter.cpp:237-279 -/
def assembled (p : PcapPacket) : Option Transport :=
  let (ipLength, p) := p.ipLength
  if p.iphpsSize.toInt = 0 ∧ p.ipppsSize.toInt = 0 then
    if p.hdrUdp && decide (28 ≤ ipLength) then some .udp
    else if p.hdrTcp && decide (40 ≤ ipLength) then some .tcp
    else none
  else none

/-- The octets behind the IP header. -/
def transportLength (p : PcapPacket) : Nat := (p.ipLength.1 - 20).toNat

/-- The header with its checksum. -/
def finishTransport (w : PcapWriter) (p : PcapPacket) (hdrIp : Octets 20) (length : Nat) :
    Transport → List UInt8
  | .udp => List.ofFn (p.finishUdp w hdrIp length)
  | .tcp => List.ofFn (p.finishTcp w hdrIp length)

end PcapPacket

theorem writeIp_of_assembled (w : PcapWriter) {p : PcapPacket} {t : Transport}
    (h : p.assembled = some t) :
    ((writeIp w p.ipLength.2 p.ipLength.1).1.flatMap Fwrite.octets =
        List.ofFn (p.ipLength.2.finishIp w) ++
          p.ipLength.2.finishTransport w (p.ipLength.2.finishIp w) p.transportLength t) ∧
      (writeIp w p.ipLength.2 p.ipLength.1).2 = 20 + t.size ∧
      (20 + t.size : Int) ≤ p.ipLength.1 := by
  unfold PcapPacket.assembled at h
  dsimp only at h
  split at h
  · rename_i hsections
    unfold writeIp
    rw [if_pos hsections.1]
    dsimp only
    rw [if_pos hsections.2]
    split at h
    · rename_i hudp
      obtain rfl := Option.some.inj h
      rw [if_pos hudp]
      simp only [List.flatMap_cons, List.flatMap_nil, List.append_nil]
      rw [octets_struct _ (by decide), octets_struct _ (by decide)]
      exact ⟨rfl, rfl, of_decide_eq_true (Bool.and_eq_true_iff.mp hudp).2⟩
    · rename_i hudp
      split at h
      · rename_i htcp
        obtain rfl := Option.some.inj h
        rw [if_neg hudp, if_pos htcp]
        simp only [List.flatMap_cons, List.flatMap_nil, List.append_nil]
        rw [octets_struct _ (by decide), octets_struct _ (by decide)]
        exact ⟨rfl, rfl, of_decide_eq_true (Bool.and_eq_true_iff.mp htcp).2⟩
      · cases h
  · cases h

/-- Without sections the length is one of 16 bits. -/
theorem ipLength_of_assembled {p : PcapPacket} {t : Transport} (h : p.assembled = some t) :
    p.ipLength.1 < 65536 := by
  have hlength : p.packetLength < 65536 := ntohs_lt _ _
  have hcases := ipLength_cases p
  obtain ⟨hiphps, hippps⟩ := sizes_ipLength p
  unfold PcapPacket.assembled at h
  dsimp only at h
  split at h
  · rename_i hsections
    rw [hiphps, hippps] at hsections
    omega
  · cases h

/-- The IP header, the transport header and zeros. -/
theorem packet_of_assembled (w : PcapWriter) {p : PcapPacket} {t : Transport}
    (h : p.assembled = some t) :
    (writepacket w p).packet =
      List.ofFn (p.ipLength.2.finishIp w) ++
        (p.ipLength.2.finishTransport w (p.ipLength.2.finishIp w) p.transportLength t ++
          List.replicate (p.transportLength - t.size) 0) := by
  obtain ⟨hwritten, hoctets, hle⟩ := writeIp_of_assembled w h
  have hlt := ipLength_of_assembled h
  have hint : int (p.ipLength.1 - (writeIp w p.ipLength.2 p.ipLength.1).2) =
      ((p.transportLength - t.size : Nat) : Int) := by
    rw [hoctets, PcapPacket.transportLength]
    unfold int
    omega
  have hpad := @padding_octets ((p.transportLength - t.size : Nat) : Int)
    (by rw [PcapPacket.transportLength]; omega)
  have hbody : (writepacket w p).body.flatMap Fwrite.octets =
      (Fwrite.struct hdrEthernet).octets ++
        ((writeIp w p.ipLength.2 p.ipLength.1).1.flatMap Fwrite.octets ++
          (padding (int (p.ipLength.1 - (writeIp w p.ipLength.2 p.ipLength.1).2))).flatMap
            Fwrite.octets) := by
    simp only [writepacket, List.cons_append, List.flatMap_cons, List.flatMap_append]
  rw [PcapRecord.packet, hbody, List.drop_left' (by rw [octets_struct _ (by decide)]; simp),
    hwritten,
    hint, hpad, Int.toNat_natCast, List.append_assoc]

@[simp] theorem length_finishTransport (w : PcapWriter) (p : PcapPacket) (hdrIp : Octets 20)
    (length : Nat) (t : Transport) : (p.finishTransport w hdrIp length t).length = t.size := by
  cases t <;> simp [PcapPacket.finishTransport, Transport.size]

/-- What a receiver adds up: the pseudo header, and the transport header with its checksum. -/
theorem receiverSum_of_assembled (w : PcapWriter) {p : PcapPacket} {t : Transport}
    (h : p.assembled = some t) :
    receiverSum (writepacket w p).packet =
      sumWords (PcapPacket.pseudoHeader (p.ipLength.2.finishIp w) p.transportLength) +
        sumWords
        (p.ipLength.2.finishTransport w (p.ipLength.2.finishIp w) p.transportLength t) := by
  obtain ⟨_, _, hle⟩ := writeIp_of_assembled w h
  rw [packet_of_assembled w h]
  have hsize : t.size ≤ p.transportLength := by
    rw [PcapPacket.transportLength]
    omega
  generalize p.ipLength.2.finishIp w = hdrIp at *
  generalize p.transportLength = length at *
  have hlen : (List.ofFn hdrIp).length = 20 := List.length_ofFn
  have hnine : ∀ l, (List.ofFn hdrIp ++ l).getD 9 0 = hdrIp 9 := by
    intro l
    rw [List.getD_eq_getElem?_getD, List.getElem?_append_left (by rw [hlen]; decide)]
    simp
  have heven : (PcapPacket.pseudoHeader hdrIp length).length % 2 = 0 := by
    simp [PcapPacket.pseudoHeader, htons]
  have heven' : (p.ipLength.2.finishTransport w hdrIp length t).length % 2 = 0 := by
    rw [length_finishTransport]
    cases t <;> rfl
  have hrest : (List.ofFn hdrIp ++ (p.ipLength.2.finishTransport w hdrIp length t ++
      List.replicate (length - t.size) 0)).length - 20 = length := by
    simp only [List.length_append, hlen, length_finishTransport, List.length_replicate]
    omega
  rw [receiverSum, hnine, hrest, List.take_left' hlen, List.drop_left' hlen]
  refine (sumWords_append _ heven).trans ?_
  rw [sumWords_append _ heven', sumWords_replicate, Nat.add_zero]

/-! ## The sums of a packet -/

namespace PcapPacket

/-- The words of the pseudo header: the addresses, the protocol and the length. -/
def pseudoSum (p : PcapPacket) (length : Nat) : Nat :=
  word p.hdrIp 12 (by decide) + word p.hdrIp 14 (by decide) + word p.hdrIp 16 (by decide) +
    word p.hdrIp 18 (by decide) + p.protocol.toNat + length

def portSum (p : PcapPacket) : Nat :=
    word p.hdrSrcPort 0 (by decide) + word p.hdrDestPort 0 (by decide)

/-- The words of the transport header, without the checksum. -/
def transportSum (p : PcapPacket) (length : Nat) : Transport → Nat
  | .udp => p.portSum + length
  | .tcp =>
    p.portSum + word p.headerTcp 4 (by decide) + word p.headerTcp 6 (by decide) +
      word p.headerTcp 8 (by decide) + word p.headerTcp 10 (by decide) + word p.headerTcp 12
        (by decide) +
      word p.headerTcp 14 (by decide) + word p.headerTcp 18 (by decide)

/-- The checksum that the transport header has already. -/
def givenChecksum (p : PcapPacket) : Transport → Nat
  | .udp => word p.headerUdp 6 udpChecksum_lt
  | .tcp => word p.headerTcp 16 tcpChecksum_lt

end PcapPacket

theorem sumWords_pseudoHeader (p : PcapPacket) (w : PcapWriter) {length : Nat}
    (h : length < 65536) :
    sumWords (PcapPacket.pseudoHeader (p.finishIp w) length) = p.pseudoSum length := by
  have hfinish : ∀ i : Fin 20, (i : Nat) = 9 ∨ 12 ≤ (i : Nat) → p.finishIp w i = p.hdrIp i := by
    intro i hi
    unfold PcapPacket.finishIp
    split
    · unfold setOctets
      split
      · rfl
      · rw [List.getElem?_eq_none (by simp only [htons, List.length_cons, List.length_nil]; omega),
          Option.getD_none]
    · rfl
  have haddresses : sumWords ((List.ofFn (p.finishIp w)).drop 12) =
      word p.hdrIp 12 (by decide) + word p.hdrIp 14 (by decide) + word p.hdrIp 16 (by decide) +
        word p.hdrIp 18 (by decide) := by
    simp [List.ofFn_succ, sumWords, word, Nat.add_assoc, hfinish]
  have hprotocol : p.finishIp w 9 = p.protocol := hfinish 9 (Or.inl rfl)
  rw [PcapPacket.pseudoHeader, sumWords_append _ (by simp), sumWords_append _ (by simp), haddresses,
    hprotocol, sumWords_htons h]
  simp [sumWords, ntohs, PcapPacket.pseudoSum]

section Ports

variable {n : Nat} (p : PcapPacket) (header : Octets n)

theorem word_setPorts_src (h : 1 < n) :
    word (p.setPorts header) 0 h = word p.hdrSrcPort 0 (by decide) := by
  simp [word, PcapPacket.setPorts, setOctets, List.ofFn_succ]

theorem word_setPorts_dest (h : 3 < n) :
    word (p.setPorts header) 2 h = word p.hdrDestPort 0 (by decide) := by
  simp [word, PcapPacket.setPorts, setOctets, List.ofFn_succ]

theorem word_setPorts_other {i : Nat} (hi : i + 1 < n) (h : 4 ≤ i) :
    word (p.setPorts header) i hi = word header i hi :=
  word_setOctets_other hi (Or.inr (by simpa using h))

end Ports

section Finished

variable {w : PcapWriter} {p : PcapPacket} {length : Nat}

/-- The transport header before its checksum is looked at. -/
def PcapPacket.transportHeader (p : PcapPacket) (length : Nat) : Transport → List UInt8
  | .udp => List.ofFn (setOctets (p.setPorts p.headerUdp) 4 (htons length))
  | .tcp => List.ofFn (p.setPorts p.headerTcp)

/-- Its words, and the checksum that it has. -/
theorem sumWords_transportHeader (t : Transport) (h : length < 65536) :
    sumWords (p.transportHeader length t) = p.transportSum length t + p.givenChecksum t := by
  cases t with
  | udp =>
    rw [PcapPacket.transportHeader, sumWords_udp, word_setOctets_htons _ h,
      word_setOctets_beside _ _ _ (by decide), word_setPorts_src,
      word_setOctets_beside _ _ _ (by decide), word_setPorts_dest,
      word_setOctets_beside _ _ _ (by decide), word_setPorts_other _ _ _ (by decide)]
    rfl
  | tcp =>
    rw [PcapPacket.transportHeader, sumWords_tcp, word_setPorts_src, word_setPorts_dest]
    repeat rw [word_setPorts_other _ _ _ (by decide)]
    simp only [PcapPacket.transportSum, PcapPacket.portSum, PcapPacket.givenChecksum]
    omega

/-- A checksum that the header has already is left there. -/
theorem finishTransport_given {t : Transport} (hdrIp : Octets 20) (hgiven : p.givenChecksum t ≠ 0) :
    p.finishTransport w hdrIp length t = p.transportHeader length t := by
  cases t with
  | udp =>
    have hword : word (setOctets (p.setPorts p.headerUdp) 4 (htons length)) 6 (by decide) ≠ 0 := by
      rw [word_setOctets_beside _ _ _ (by decide), word_setPorts_other _ _ _ (by decide)]
      exact hgiven
    exact congrArg List.ofFn (if_neg (by simp [hword]))
  | tcp =>
    have hword : word (p.setPorts p.headerTcp) 16 (by decide) ≠ 0 := by
      rw [word_setPorts_other _ _ _ (by decide)]
      exact hgiven
    exact congrArg List.ofFn (if_neg (by simp [hword]))

/-- Where there is none, the header adds up to what it does without, and the checksum. -/
theorem sumWords_finishTransport {t : Transport} (hdrIp : Octets 20) (hcalc : w.calcThcs = true)
    (hnone : p.givenChecksum t = 0) :
    sumWords (p.finishTransport w hdrIp length t) = sumWords (p.transportHeader length t) +
      transportChecksum (PcapPacket.pseudoHeader hdrIp length) (p.transportHeader length t) := by
  cases t with
  | udp =>
    have hzero : word (setOctets (p.setPorts p.headerUdp) 4 (htons length)) 6 (by decide) = 0 := by
      rw [word_setOctets_beside _ _ _ (by decide), word_setPorts_other _ _ _ (by decide)]
      exact hnone
    refine (congrArg (sumWords <| List.ofFn ·) (if_pos (by simp [hcalc, hzero]))).trans ?_
    rw [PcapPacket.transportHeader]
    generalize setOctets (p.setPorts p.headerUdp) 4 (htons length) = header at hzero
    exact sumWords_checksum_udp hzero (transportChecksum_lt _ _)
  | tcp =>
    have hzero : word (p.setPorts p.headerTcp) 16 (by decide) = 0 := by
      rw [word_setPorts_other _ _ _ (by decide)]
      exact hnone
    refine (congrArg (sumWords <| List.ofFn ·) (if_pos (by simp [hcalc, hzero]))).trans ?_
    rw [PcapPacket.transportHeader]
    generalize p.setPorts p.headerTcp = header at hzero
    exact sumWords_checksum_tcp hzero (transportChecksum_lt _ _)

end Finished

/-- The length and the flags are all that is filled in before. -/
theorem sums_ipLength (p : PcapPacket) (length : Nat) (t : Transport) :
    p.ipLength.2.pseudoSum length = p.pseudoSum length ∧
      p.ipLength.2.transportSum length t = p.transportSum length t ∧
      p.ipLength.2.givenChecksum t = p.givenChecksum t := by
  have hpayload : p.payloadLength.2.hdrIp = p.hdrIp ∧ p.payloadLength.2.hdrSrcPort = p.hdrSrcPort ∧
      p.payloadLength.2.hdrDestPort = p.hdrDestPort ∧ p.payloadLength.2.headerUdp = p.headerUdp ∧
      p.payloadLength.2.headerTcp = p.headerTcp := by
    unfold PcapPacket.payloadLength
    repeat' split
    all_goals exact ⟨rfl, rfl, rfl, rfl, rfl⟩
  unfold PcapPacket.ipLength
  split
  · exact ⟨rfl, rfl, rfl⟩
  split
  · exact ⟨rfl, rfl, rfl⟩
  · obtain ⟨hip, hsrc, hdest, hudp, htcp⟩ := hpayload
    dsimp only
    generalize p.payloadLength.1 + 20 = total
    generalize p.payloadLength.2 = q at *
    have hset : (q.setPacketLength total).pseudoSum length = q.pseudoSum length := by
      have hprotocol : (q.setPacketLength total).protocol = q.protocol := rfl
      have hword : ∀ i (hi : i + 1 < 20), 4 ≤ i →
          word (q.setPacketLength total).hdrIp i hi = word q.hdrIp i hi :=
        fun i hi h => word_setOctets_beside _ _ hi (Or.inr h)
      simp only [PcapPacket.pseudoSum, hprotocol, hword _ _ (by decide : 4 ≤ 12),
        hword _ _ (by decide : 4 ≤ 14),
        hword _ _ (by decide : 4 ≤ 16), hword _ _ (by decide : 4 ≤ 18)]
    refine ⟨hset.trans ?_, ?_, ?_⟩
    · simp only [PcapPacket.pseudoSum, PcapPacket.protocol, hip]
    · cases t <;>
        simp only [PcapPacket.transportSum, PcapPacket.portSum, PcapPacket.setPacketLength,
          hsrc, hdest, htcp]
    · cases t <;>
        simp only [PcapPacket.givenChecksum, PcapPacket.setPacketLength, hudp, htcp]

/-- The checksum that the packet gets will be right: the words of the pseudo header and those of the
transport header do not both add up to all ones already; or the header has a checksum that is right.
-/
def PcapPacket.Sound (p : PcapPacket) (t : Transport) : Prop :=
  if p.givenChecksum t = 0 then
    ¬ (AllOnes (p.pseudoSum p.transportLength) ∧ AllOnes (p.transportSum p.transportLength t))
  else AllOnes
    (p.pseudoSum p.transportLength + p.transportSum p.transportLength t + p.givenChecksum t)

theorem allOnes_receiverSum {w : PcapWriter} {p : PcapPacket} {t : Transport}
    (h : p.assembled = some t) (hcalc : w.calcThcs = true) :
    AllOnes (receiverSum (writepacket w p).packet) ↔ p.Sound t := by
  have hlt := ipLength_of_assembled h
  have hlength : p.transportLength < 65536 := by
    rw [PcapPacket.transportLength]
    omega
  obtain ⟨hpseudo, htransport, hgiven⟩ := sums_ipLength p p.transportLength t
  have hheader := @sumWords_transportHeader p.ipLength.2 p.transportLength t hlength
  rw [htransport, hgiven] at hheader
  rw [receiverSum_of_assembled w h, PcapPacket.Sound]
  split
  · rename_i hnone
    rw [sumWords_finishTransport _ hcalc (hgiven.trans hnone), ← Nat.add_assoc,
      transportChecksum_verifies_iff, hheader, hnone, Nat.add_zero,
      sumWords_pseudoHeader _ _ hlength, hpseudo]
  · rename_i hsome
    rw [finishTransport_given _ (by rwa [hgiven]), hheader,
      sumWords_pseudoHeader _ _ hlength, hpseudo,
      Nat.add_assoc]

/-- A packet that is written with a checksum is taken by the receiver exactly where its words say
so. -/
theorem checksum_verifies_iff (w : PcapWriter) (p : PcapPacket) (t : Transport)
    (h : p.assembled = some t) (hcalc : w.calcThcs = true) :
    Verifies (writepacket w p).packet ↔ p.Sound t :=
  foldCarries_eq_ones.trans (allOnes_receiverSum h hcalc)

/-- A datagram from 10.0.0.1, port 53, to 192.168.53.61, port 65474, without payload. -/
def onesRecord : DataRecord :=
  [⟨Topas.IpfixTypeId.sourceIPv4Address, [10, 0, 0, 1], 0⟩,
    ⟨Topas.IpfixTypeId.destinationIPv4Address, [192, 168, 53, 61], 0⟩,
    ⟨Topas.IpfixTypeId.protocolIdentifier, [17], 0⟩,
    ⟨Topas.IpfixTypeId.sourceTransportPort, [0, 53], 0⟩,
    ⟨Topas.IpfixTypeId.destinationTransportPort, [255, 194], 0⟩]

/-- A segment whose window has four octets: the last two are its checksum then. -/
def windowRecord : DataRecord :=
  [⟨Topas.IpfixTypeId.protocolIdentifier, [6], 0⟩,
    ⟨IpfixTypeId.tcpWindowSize, [0, 80, 0x12, 0x34], 0⟩]

theorem checksum_verifies_iff_ones :
    Verifies (writepacket ⟨true, false⟩ (blankPacket onesRecord)).packet ↔
      (blankPacket onesRecord).Sound .udp :=
  checksum_verifies_iff ⟨true, false⟩ (blankPacket onesRecord) .udp (by decide) rfl

/-- **Counterexample**: both sums of the datagram are 65535, its checksum comes out as 0, and with
the 1 that is written in its place the receiver does not take it. The segment goes out with the
checksum 0x1234, which is not its own. -/
theorem ones_not_verified :
    (blankPacket onesRecord).pseudoSum 8 = 65535 ∧
      (blankPacket onesRecord).transportSum 8 .udp = 65535 ∧
      ¬ Verifies (writepacket ⟨true, false⟩ (blankPacket onesRecord)).packet ∧
      (blankPacket windowRecord).givenChecksum .tcp = 0x1234 ∧
      ¬ Verifies (writepacket ⟨true, false⟩ (blankPacket windowRecord)).packet ∧
      ¬ ∀ (w : PcapWriter) (p : PcapPacket) (t : Transport), p.assembled = some t →
        w.calcThcs = true → Verifies (writepacket w p).packet := by
  have hpseudo : (blankPacket onesRecord).pseudoSum 8 = 65535 := by decide
  have htransport : (blankPacket onesRecord).transportSum 8 .udp = 65535 := by decide
  have hassembled : (blankPacket onesRecord).assembled = some .udp := by decide
  have hnone : (blankPacket onesRecord).givenChecksum .udp = 0 := by decide
  have hlength : (blankPacket onesRecord).transportLength = 8 := by decide
  have hno : ¬ Verifies (writepacket ⟨true, false⟩ (blankPacket onesRecord)).packet := by
    rw [Verifies, foldCarries_eq_ones, allOnes_receiverSum hassembled rfl, PcapPacket.Sound,
      if_pos hnone,
      hlength, hpseudo, htransport]
    exact fun h => h ⟨⟨by decide, by decide⟩, by decide, by decide⟩
  have hgiven : (blankPacket windowRecord).givenChecksum .tcp = 0x1234 := by decide
  have hwindow : (blankPacket windowRecord).assembled = some .tcp := by decide
  have hsum : (blankPacket windowRecord).pseudoSum (blankPacket windowRecord).transportLength +
      (blankPacket windowRecord).transportSum (blankPacket windowRecord).transportLength .tcp +
        0x1234 = 25246 := by decide
  have hwrong : ¬ Verifies (writepacket ⟨true, false⟩ (blankPacket windowRecord)).packet := by
    rw [Verifies, foldCarries_eq_ones, allOnes_receiverSum hwindow rfl, PcapPacket.Sound,
      if_neg (by rw [hgiven]; decide), hgiven, hsum]
    exact fun h => absurd h.2 (by decide)
  exact ⟨hpseudo, htransport, hno, hgiven, hwrong, fun hall => hno (hall _ _ _ hassembled rfl)⟩

end Topas.Snort
