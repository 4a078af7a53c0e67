import Mathlib.Data.BitVec
import Topas.L7Stat.OfflineFile

/-!
# The lines of the filter file

A line of the file that `endpoints_to_monitor` names is `ip/netmask:port|protocol`.
`FilterEndPoint::fromString` masks the address when it reads such a line, but only with a netmask
between 0 and 32, and `matchesWithEndPoint` masks the end point, but only with a netmask smaller
than the global one.

* `remanentMask_eq_iff`: two addresses are equal under a netmask if they agree in that many bits.
* `matches_line`: the filter of a line matches as the line says, whatever the two netmasks are.
* `text_iff`: which filters match as before when they have been written and read back.
-/
namespace Topas

open Text

/-! ## The bits of an address -/

namespace IpAddress

def toBitVec (ip : IpAddress) : BitVec (8 + 8 + 8 + 8) :=
  ip.a.toBitVec ++ ip.b.toBitVec ++ ip.c.toBitVec ++ ip.d.toBitVec

/-- The bits of an address, the first one first. -/
def bit (ip : IpAddress) (i : Nat) : Bool := ip.toBitVec.getMsbD i

/-- Two addresses agree in their first `n` bits. -/
def Agree (n : Nat) (ip ip' : IpAddress) : Prop := ∀ i < n, ip.bit i = ip'.bit i

/-- What a netmask leaves of the address of ones. -/
def netmask (n : Fin 33) : IpAddress := IpAddress.remanentMask ⟨255, 255, 255, 255⟩ n

theorem append_inj {m n : Nat} {x x' : BitVec m} {y y' : BitVec n} (h : x ++ y = x' ++ y') :
    x = x' ∧ y = y' := by
  have hx := congrArg (BitVec.extractLsb' n m) h
  have hy := congrArg (BitVec.extractLsb' 0 n) h
  rw [BitVec.extractLsb'_append_eq_left, BitVec.extractLsb'_append_eq_left] at hx
  rw [BitVec.extractLsb'_append_eq_right, BitVec.extractLsb'_append_eq_right] at hy
  exact ⟨hx, hy⟩

variable {ip ip' : IpAddress}

theorem toBitVec_inj : ip.toBitVec = ip'.toBitVec ↔ ip = ip' := by
  constructor
  · intro h
    obtain ⟨h, hd⟩ := append_inj h
    obtain ⟨h, hc⟩ := append_inj h
    obtain ⟨ha, hb⟩ := append_inj h
    cases ip
    cases ip'
    exact (IpAddress.mk.injEq ..).mpr ⟨UInt8.toBitVec_inj.mp ha, UInt8.toBitVec_inj.mp hb,
      UInt8.toBitVec_inj.mp hc, UInt8.toBitVec_inj.mp hd⟩
  · rintro rfl
    rfl

theorem toBitVec_remanentMask (ip : IpAddress) (n : Fin 33) :
    (ip.remanentMask n).toBitVec = ip.toBitVec &&& (netmask n).toBitVec := by
  have hand : ∀ x : UInt8, 255 &&& x = x := fun x => UInt8.and_comm .. ▸ UInt8.and_neg_one
  simp only [toBitVec, netmask, remanentMask, BitVec.and_append, UInt8.toBitVec_and, hand]

theorem bit_netmask (n : Fin 33) (i : Fin 32) : (netmask n).bit i = decide (i.val < n.val) := by
  revert n i
  decide +kernel

theorem bit_remanentMask (n : Fin 33) {i : Nat} (hi : i < 32) :
    (ip.remanentMask n).bit i = (ip.bit i && decide (i < n.val)) := by
  rw [bit, toBitVec_remanentMask, BitVec.getMsbD_and]
  exact congrArg _ (bit_netmask n ⟨i, hi⟩)

theorem eq_iff_agree : ip = ip' ↔ Agree 32 ip ip' := by
  rw [← toBitVec_inj]
  exact ⟨fun h i _ => congrArg (BitVec.getMsbD · i) h, BitVec.eq_of_getMsbD_eq⟩

theorem remanentMask_eq_iff (n : Fin 33) :
    ip.remanentMask n = ip'.remanentMask n ↔ Agree n.val ip ip' := by
  rw [eq_iff_agree]
  constructor
  · intro h i hi
    have := h i (by omega)
    simpa [bit_remanentMask n (show i < 32 by omega), hi] using this
  · intro h i hi
    rw [bit_remanentMask n hi, bit_remanentMask n hi]
    by_cases hin : i < n.val
    · rw [h i hin]
    · simp [hin]

theorem remanentMask_remanentMask (ip : IpAddress) {m n : Fin 33} (h : m ≤ n) :
    (ip.remanentMask m).remanentMask n = ip.remanentMask m := by
  rw [eq_iff_agree]
  intro i hi
  rw [bit_remanentMask n hi, bit_remanentMask m hi]
  by_cases him : i < m.val
  · simp [him, show i < n.val from Nat.lt_of_lt_of_le him h]
  · simp [him]

end IpAddress

namespace Wkp

/-! ## Reading a line -/

namespace FilterEndPoint

/-- The constructor. -/
def new : FilterEndPoint := ⟨EndPoint.zero, 32⟩

/-- An octet is kept as the byte that every copy of an end point has; `none` where a part lies
outside of the string.
mirrors detectionmodules/statmodules/wkp-module/shared.cpp:67-102 -/
def fromString (f : FilterEndPoint) (fepstr : List Char) (withNetmask : Bool) :
    Option FilterEndPoint :=
  if withNetmask then do
    let h := find fepstr '/' 0
    let ipstr ← substr fepstr 0 h
    let i := find fepstr ':' h
    let netmaskstr ← substr fepstr (next h) (diff (diff i h) 1)
    let j := find fepstr '|' i
    let portstr ← substr fepstr (next i) (diff (diff j i) 1)
    let k := find fepstr '_' j
    let protostr ← substr fepstr (next j) (diff (diff k j) 1)
    let ipAddr ← f.ipAddr.fromString ipstr
    let n := (atoi netmaskstr).toInt
    let (ipAddr, nmask) : IpAddress × Fin 33 :=
      if hn : 0 < n ∧ n < 32 then
        (ipAddr.remanentMask ⟨n.toNat, by omega⟩, ⟨n.toNat, by omega⟩)
      else if n = 0 then (ipAddr, 0)
      else if n < 0 ∨ 32 < n then (ipAddr, 32)
      else (ipAddr, f.nmask)
    some ⟨⟨ipAddr, atoi portstr, atoi protostr⟩, nmask⟩
  else do
    let ep ← f.toEndPoint.assign fepstr
    some ⟨ep, 32⟩

/-- mirrors detectionmodules/statmodules/wkp-module/shared.cpp:122-126 -/
def text (f : FilterEndPoint) : List Char :=
  f.ipAddr.text ++ '/' :: (dec f.nmask.val ++ ':' :: (decInt f.portNr.toInt ++
    '|' :: dec f.protocolID.toUInt32.toUInt16.toNat))

/-- A line of the file, as a user writes it. -/
def line (ip : IpAddress) (nm : Fin 33) (port protocol : Int32) : List Char :=
  ip.text ++ '/' :: (dec nm.val ++ ':' :: (decInt port.toInt ++ '|' :: decInt protocol.toInt))

/-- What the parser keeps of an address with its netmask. -/
def kept (ip : IpAddress) (nm : Fin 33) : IpAddress := if nm = 0 then ip else ip.remanentMask nm

/-- The parts of a line are found at its separators. -/
theorem fromString_parts (ip : IpAddress) (nm : Fin 33) {port protocol : List Char}
    (hport : '|' ∉ port) (hprotocol : '_' ∉ protocol)
    (hlen : port.length ≤ 11 ∧ protocol.length ≤ 11) :
    new.fromString (ip.text ++ '/' :: (dec nm.val ++ ':' :: (port ++ '|' :: protocol))) true =
      some ⟨⟨kept ip nm, atoi port, atoi protocol⟩, nm⟩ := by
  have hip := ip.length_text_le
  have hnm : (dec nm.val).length ≤ 2 := length_dec_le (by omega) (by omega)
  generalize hs : ip.text ++ '/' :: (dec nm.val ++ ':' :: (port ++ '|' :: protocol)) = s
  -- the same text, divided before each of the other separators
  have hs₁ : (ip.text ++ '/' :: dec nm.val) ++ (':' :: port ++ '|' :: protocol) = s :=
    by simp [← hs]
  have hs₂ : (ip.text ++ '/' :: dec nm.val ++ ':' :: port) ++ '|' :: protocol = s := by simp [← hs]
  have hh : find s '/' 0 = ip.text.length := by
    have := find_append [] _ (dec nm.val ++ ':' :: (port ++ '|' :: protocol))
      (ip.not_mem_text (c := '/') rfl (by simp))
    rw [List.length_nil, Nat.zero_add] at this
    exact hs ▸ this
  have hi : find s ':' ip.text.length = (ip.text ++ '/' :: dec nm.val).length := by
    rw [List.length_append]
    exact hs ▸ find_append _ ('/' :: _) _ (by simp [not_mem_dec])
  have hj : find s '|' (ip.text ++ '/' :: dec nm.val).length =
      (ip.text ++ '/' :: dec nm.val ++ ':' :: port).length := by
    rw [@List.length_append _ _ (':' :: port)]
    exact hs₁ ▸ find_append _ (':' :: _) _ (by simp [hport])
  have hk : find s '_' (ip.text ++ '/' :: dec nm.val ++ ':' :: port).length = npos :=
    hs₂ ▸ find_none _ _ (by simp [hprotocol])
  have hipstr : substr s 0 ip.text.length = some ip.text := hs ▸ substr_append [] _ _
  have hnetmaskstr : substr s (next ip.text.length)
      (diff (diff (ip.text ++ '/' :: dec nm.val).length ip.text.length) 1) = some (dec nm.val) := by
    rw [List.length_append]
    exact hs ▸ substr_between _ _ _ '/' (by omega) (by omega)
  have hportstr : substr s (next (ip.text ++ '/' :: dec nm.val).length)
      (diff (diff (ip.text ++ '/' :: dec nm.val ++ ':' :: port).length
        (ip.text ++ '/' :: dec nm.val).length) 1) = some port := by
    rw [@List.length_append _ _ (':' :: port)]
    exact hs₁ ▸ substr_between _ _ _ ':' (by simp; omega) (by omega)
  have hprotostr : substr s (next (ip.text ++ '/' :: dec nm.val ++ ':' :: port).length)
      (diff (diff npos (ip.text ++ '/' :: dec nm.val ++ ':' :: port).length) 1) = some protocol :=
    hs₂ ▸ substr_rest _ _ '|' (by simp [npos]; omega)
  have hn : (atoi (dec nm.val)).toInt = nm.val := by
    rw [atoi_dec (by omega), Int32.toInt_ofNat_of_lt (by omega)]
  rw [fromString, if_pos rfl]
  simp only [hh, hi, hj, hk, hipstr, hnetmaskstr, hportstr, hprotostr, IpAddress.fromString_text,
    Option.bind_eq_bind, Option.bind_some, hn, Int.toNat_natCast]
  by_cases h0 : nm = 0
  · subst h0
    simp [kept]
  · have hpos : 0 < nm.val := Nat.pos_of_ne_zero fun h => h0 (Fin.ext h)
    rcases Nat.lt_or_ge nm.val 32 with h32 | h32
    · rw [dif_pos (by omega)]
      simp [kept, h0]
    · have : nm = 32 := Fin.ext (by have := nm.isLt; show nm.val = 32; omega)
      subst this
      simp [kept, remanentMask_all, new]

theorem fromString_line (ip : IpAddress) (nm : Fin 33) (port protocol : Int32) :
    new.fromString (line ip nm port protocol) true = some ⟨⟨kept ip nm, port, protocol⟩, nm⟩ := by
  have := fromString_parts ip nm (not_mem_decInt (c := '|') (i := port.toInt) rfl (by simp))
    (not_mem_decInt (c := '_') (i := protocol.toInt) rfl (by simp))
    ⟨length_decInt_le port, length_decInt_le protocol⟩
  rwa [atoi_decInt, atoi_decInt] at this

/-! ## What a filter matches -/

/-- Masking at the match changes nothing but what the filter's netmask is there for: the global one
has already taken the bits beyond it. -/
theorem masked (e : EndPoint) {nm : Fin 33} (h : nm ≠ 0) (g : Fin 33) :
    (if nm < g ∧ 0 < nm ∧ nm < 32 then (e.applyNetmask g).applyNetmask nm else e.applyNetmask g) =
      (e.applyNetmask g).applyNetmask nm := by
  split
  · rfl
  · rename_i hnot
    have hpos : 0 < nm := Fin.pos_of_ne_zero h
    have hid : (e.ipAddr.remanentMask g).remanentMask nm = e.ipAddr.remanentMask g := by
      rcases Nat.lt_or_ge nm.val g.val with hlt | hge
      · have h32 : nm = 32 := by
          by_contra hne
          exact hnot ⟨hlt, hpos, Fin.lt_last_iff_ne_last.mpr hne⟩
        rw [h32, remanentMask_all]
      · exact IpAddress.remanentMask_remanentMask _ hge
    exact (congrArg (fun ip => ({ e with ipAddr := ip } : EndPoint)) hid).symm

/-- Masking at the match and masking of what was read come to the same. -/
theorem matches_kept (ip : IpAddress) (nm g : Fin 33) (port protocol : Int32) (e : EndPoint) :
    matchesWithEndPoint ⟨⟨kept ip nm, port, protocol⟩, nm⟩ (e.applyNetmask g) g = true ↔
      (nm = 0 ∨ IpAddress.Agree nm.val (e.ipAddr.remanentMask g) ip) ∧
      (e.portNr = port ∨ port = -1) ∧
        (e.protocolID = protocol ∨ protocol = -1) := by
  by_cases h0 : nm = 0
  · subst h0
    simp [matchesWithEndPoint, EndPoint.applyNetmask]
  · have hkept : kept ip nm = ip.remanentMask nm := if_neg h0
    have htmp := masked e h0 g
    simp only [matchesWithEndPoint, htmp, hkept, h0, decide_false, Bool.or_false, false_or,
      Bool.and_eq_true,
      Bool.or_eq_true, decide_eq_true_eq, and_assoc]
    rw [← IpAddress.remanentMask_eq_iff]
    rfl

/-- A line of the file gives the filter that it describes, under every global netmask. -/
theorem matches_line (ip : IpAddress) (nm : Fin 33) (port protocol : Int32) :
    ∃ f, FilterEndPoint.new.fromString (line ip nm port protocol) true = some f ∧
      ∀ (e : EndPoint) (g : Fin 33), f.matchesWithEndPoint (e.applyNetmask g) g = true ↔
        (nm = 0 ∨ IpAddress.Agree nm.val (e.ipAddr.remanentMask g) ip) ∧
        (e.portNr = port ∨ port = -1) ∧
          (e.protocolID = protocol ∨ protocol = -1) :=
  ⟨_, fromString_line ip nm port protocol, fun e g => matches_kept ip nm g port protocol e⟩

/-! ## Writing and reading a filter -/

/-- The address has no bits beyond the netmask, or none of its bits count. -/
def Masked (f : FilterEndPoint) : Prop := f.nmask = 0 ∨ f.ipAddr.remanentMask f.nmask = f.ipAddr

/-- What is read of a filter that has been written matches the same end points. -/
def ReadBack (f : FilterEndPoint) : Prop :=
  ∃ f', FilterEndPoint.new.fromString f.text true = some f' ∧
    ∀ (ep : EndPoint) (g : Fin 33), f'.matchesWithEndPoint ep g = f.matchesWithEndPoint ep g

theorem fromString_text (f : FilterEndPoint) :
    new.fromString f.text true =
      some ⟨⟨kept f.ipAddr f.nmask, f.portNr, .ofNat f.protocolID.toUInt32.toUInt16.toNat⟩,
        f.nmask⟩ := by
  have hlt := f.protocolID.toUInt32.toUInt16.toNat_lt
  have := fromString_parts f.ipAddr f.nmask
    (not_mem_decInt (c := '|') (i := f.portNr.toInt) rfl (by simp))
    (not_mem_dec (c := '_') (n := f.protocolID.toUInt32.toUInt16.toNat) rfl)
    ⟨length_decInt_le f.portNr, length_dec_le (by omega) (by omega)⟩
  rwa [atoi_decInt, atoi_dec (by omega)] at this

/-- Under the netmask 0 no end point is masked. -/
theorem matches_zero (f : FilterEndPoint) (ep : EndPoint) : f.matchesWithEndPoint ep 0 = true ↔
    (ep.ipAddr = f.ipAddr ∨ f.nmask = 0) ∧ (ep.portNr = f.portNr ∨ f.portNr = -1) ∧
      (ep.protocolID = f.protocolID ∨ f.protocolID = -1) := by
  simp [matchesWithEndPoint, and_assoc]

/-- The protocol is written as an unsigned number of 16 bits. -/
theorem written_protocol_iff (p : Int32) :
    Int32.ofNat p.toUInt32.toUInt16.toNat = p ↔ 0 ≤ p.toInt ∧ p.toInt ≤ 65535 := by
  have hlt := p.toUInt32.toUInt16.toNat_lt
  constructor
  · intro h
    rw [← h, Int32.toInt_ofNat_of_lt (by omega)]
    omega
  · rintro ⟨hpos, hle⟩
    have h32 : p.toUInt32.toNat = p.toInt.toNat :=
      Int32.toNat_toUInt32_of_le (Int32.le_iff_toInt_le.mpr hpos)
    rw [UInt32.toNat_toUInt16, h32, Nat.mod_eq_of_lt (by omega), ofNat_toNat hpos]

/-- The wildcard of the protocol is written as 65535, which is not read as one. -/
theorem text_iff (f : FilterEndPoint) :
    f.ReadBack ↔ (0 ≤ f.protocolID.toInt ∧ f.protocolID.toInt ≤ 65535) ∧ f.Masked := by
  constructor
  · rintro ⟨f', hread, hsame⟩
    rw [fromString_text] at hread
    cases hread
    -- the end point that the filter was made for, with a protocol that it matches
    let p := if f.protocolID = -1 then 0 else f.protocolID
    have hp : p = f.protocolID ∨ f.protocolID = -1 := by
      by_cases h : f.protocolID = -1
      · exact .inr h
      · exact .inl (if_neg h)
    have hmatch : f.matchesWithEndPoint ⟨f.ipAddr, f.portNr, p⟩ 0 = true :=
      (matches_zero _ _).mpr ⟨.inl rfl, .inl rfl, hp⟩
    rw [← hsame, matches_zero] at hmatch
    obtain ⟨hip, -, hprotocol⟩ := hmatch
    constructor
    · have hlt := f.protocolID.toUInt32.toUInt16.toNat_lt
      have hne : Int32.ofNat f.protocolID.toUInt32.toUInt16.toNat ≠ -1 := by
        intro h
        have := congrArg Int32.toInt h
        rw [Int32.toInt_ofNat_of_lt (by omega)] at this
        simp at this
        omega
      have heq : p = .ofNat f.protocolID.toUInt32.toUInt16.toNat := hprotocol.resolve_right hne
      by_cases hwild : f.protocolID = -1
      · simp only [p, hwild, if_true] at heq
        exact absurd heq (by decide)
      · rw [← written_protocol_iff, ← heq]
        exact if_neg hwild
    · by_cases h0 : f.nmask = 0
      · exact .inl h0
      · have := hip.resolve_right h0
        rw [kept, if_neg h0] at this
        exact .inr this.symm
  · rintro ⟨hprotocol, hmasked⟩
    refine ⟨f, ?_, fun _ _ => rfl⟩
    have hkept : kept f.ipAddr f.nmask = f.ipAddr := by
      unfold kept
      split
      · rfl
      · rename_i h0
        exact hmasked.resolve_left h0
    rw [fromString_text, hkept, (written_protocol_iff _).mpr hprotocol]

/-- `10.0.0.1/32:80|-1`, which is written as `10.0.0.1/32:80|65535`. -/
def anyProtocol : FilterEndPoint := ⟨⟨⟨10, 0, 0, 1⟩, 80, -1⟩, 32⟩

/-- What is read back does not match the TCP end point that the filter was made for. -/
theorem anyProtocol_not_readBack : ¬ anyProtocol.ReadBack := by
  rintro ⟨f', hread, hsame⟩
  rw [fromString_text] at hread
  cases hread
  exact absurd (hsame ⟨⟨10, 0, 0, 1⟩, 80, 6⟩ 32) (by decide)

end FilterEndPoint

end Wkp

end Topas
