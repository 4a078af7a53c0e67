import Topas.L6Count.CountStore

/-!
# The packet that a record describes

`snortmodule/pcappacket.h`: the members of a packet and their values. How a record fills them,
octet by octet, is in `PacketObject`; what is made of them is in `PcapWriter`.
-/
namespace Topas.Snort

/-! mirrors concentrator/ipfix.h:42-123 -/

namespace IpfixTypeId

@[simp] def classOfServiceIPv4 : Int := 5
@[simp] def tcpControlBits : Int := 6
@[simp] def identificationV4 : Int := 54
@[simp] def flowStartSeconds : Int := 150
@[simp] def flowStartMilliSeconds : Int := 152
@[simp] def flowStartMicroSeconds : Int := 154
@[simp] def udpSourcePort : Int := 180
@[simp] def udpDestinationPort : Int := 181
@[simp] def tcpSourcePort : Int := 182
@[simp] def tcpDestinationPort : Int := 183
@[simp] def tcpSequenceNumber : Int := 184
@[simp] def tcpAcknowledgementNumber : Int := 185
@[simp] def tcpWindowSize : Int := 186
@[simp] def totalLengthIPv4 : Int := 190
@[simp] def ipTimeToLive : Int := 192

end IpfixTypeId

/-- The octets of a member in memory. -/
abbrev Octets (n : Nat) := Fin n → UInt8

/-- For the literals of places in an IP header. -/
instance neZeroIpHeader : NeZero 20 := ⟨by decide⟩

/-- Octets are put into a member, `offset` octets from its start. -/
def setOctets {n : Nat} (member : Octets n) (offset : Nat) (data : List UInt8) :
    Octets n := fun i =>
  if (i : Nat) < offset then member i else (data[(i : Nat) - offset]?).getD (member i)

/-- A `uint16_t` in network order. -/
def word {n : Nat} (member : Octets n) (i : Nat) (h : i + 1 < n) : Nat :=
  ntohs (member ⟨i, by omega⟩) (member ⟨i + 1, h⟩)

/-- `htons` of a number, cut to 16 bits. -/
def htons (n : Nat) : List UInt8 := [UInt8.ofNat (n / 256), UInt8.ofNat n]

/-- The values of the members. The sizes of the sections are members of their own, whatever the
pointers lead to.
mirrors detectionmodules/snortmodule/pcappacket.h:47-141 -/
structure PcapPacket where
  hdrUdp : Bool
  hdrTcp : Bool
  hdrDestPort : Octets 2
  hdrSrcPort : Octets 2
  tsSec : UInt32
  tsUsec : UInt32
  hdrIp : Octets 20
  headerUdp : Octets 8
  headerTcp : Octets 20
  /-- What `iphps_p` points to. -/
  iphps : List UInt8
  iphpsSize : Int32
  /-- What `ippps_p` points to. -/
  ippps : List UInt8
  ipppsSize : Int32

namespace PcapPacket

def packetLength (p : PcapPacket) : Nat := word p.hdrIp 2 (by decide)

def protocol (p : PcapPacket) : UInt8 := p.hdrIp 9

/-- `new PcapPacket`; the ports are not initialized.
mirrors detectionmodules/snortmodule/pcappacket.cpp:39 -/
def new (destPort srcPort : Octets 2) (tcpPorts : List UInt8) : PcapPacket where
  hdrUdp := false
  hdrTcp := false
  hdrDestPort := destPort
  hdrSrcPort := srcPort
  tsSec := 0
  tsUsec := 0
  hdrIp i := if i = 0 then 0x45 else 0
  headerUdp i := if i = 4 then 12 else 0
  headerTcp := setOctets (fun i => if i = 12 then 0x50 else 0) 0 (tcpPorts.take 4)
  iphps := []
  iphpsSize := 0
  ippps := []
  ipppsSize := 0

end PcapPacket

end Topas.Snort
