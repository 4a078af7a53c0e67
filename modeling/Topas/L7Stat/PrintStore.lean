import Mathlib.Data.List.Induction
import Mathlib.Tactic.Ring
import Topas.L6Count.CountStore

/-!
# The store of the print module

`print-module/print-store.cpp`. A record is handed over as to the other stores, but its numbers are
not read by `fieldToInt`: the branch for a field casts the octet that the pointer is at, and brings
what the cast gives from network to host order. On a little-endian host the octet becomes the first
of the number, on a big-endian host it stays the last.

* `value_afterFields`: a member holds what has been made of the last field of its kind and length.
* `stored_iff`: that is the number in the field unless another octet counts; on a little-endian
  host, these are the octets behind the first.
-/
namespace Topas

namespace IpfixTypeId

@[simp] def flowStartSeconds : Int := 150
@[simp] def flowEndSeconds : Int := 151

end IpfixTypeId

/-! ## Numbers that are cast from an octet -/

inductive ByteOrder where
  | littleEndian
  | bigEndian
  deriving DecidableEq, Repr

namespace ByteOrder

/-- `ntohs(uint16_t(b))`. -/
def ntohs16 : ByteOrder → UInt8 → UInt16
  | littleEndian, b => .ofNat (ntohs b 0)
  | bigEndian, b => .ofNat (ntohs 0 b)

/-- `ntohl(uint32_t(b))`. -/
def ntohl32 : ByteOrder → UInt8 → UInt32
  | littleEndian, b => .ofNat (ntohl b 0 0 0)
  | bigEndian, b => .ofNat (ntohl 0 0 0 b)

/-- `ntohll(uint64_t(b))`. -/
def ntohll64 : ByteOrder → UInt8 → UInt64
  | littleEndian, b => ntohll (ntohl b 0 0 0) (ntohl 0 0 0 0)
  | bigEndian, b => ntohll (ntohl 0 0 0 0) (ntohl 0 0 0 b)

/-- The number that is made of the first octet, in the place of as many as the field has. -/
def ofFirst : ByteOrder → List UInt8 → Nat
  | littleEndian, b :: rest => b.toNat * 256 ^ rest.length
  | bigEndian, b :: _ => b.toNat
  | _, [] => 0

/-- No octet counts but the one that is looked at. -/
def Exact : ByteOrder → List UInt8 → Prop
  | littleEndian, data => ∀ x ∈ data.tail, x = 0
  | bigEndian, data => data.length = 1 ∨ ∀ x ∈ data, x = 0

instance (host : ByteOrder) (data : List UInt8) : Decidable (host.Exact data) :=
  match host with
  | littleEndian => inferInstanceAs (Decidable (∀ x ∈ data.tail, x = 0))
  | bigEndian => inferInstanceAs (Decidable (data.length = 1 ∨ ∀ x ∈ data, x = 0))

end ByteOrder

theorem foldl_octets (l : List UInt8) (n : Nat) :
    l.foldl (fun n x => 256 * n + x.toNat) n = n * 256 ^ l.length + ofOctets l := by
  induction l generalizing n with
  | nil => simp [ofOctets]
  | cons b l ih =>
    have hl : ofOctets (b :: l) = (256 * 0 + b.toNat) * 256 ^ l.length + ofOctets l := ih _
    rw [List.foldl_cons, ih, hl, List.length_cons, Nat.pow_succ]
    ring

theorem ofOctets_cons (b : UInt8) (l : List UInt8) :
    ofOctets (b :: l) = b.toNat * 256 ^ l.length + ofOctets l :=
  (foldl_octets l (256 * 0 + b.toNat)).trans (by rw [Nat.mul_zero, Nat.zero_add])

theorem ofOctets_eq_zero {l : List UInt8} : ofOctets l = 0 ↔ ∀ x ∈ l, x = 0 := by
  induction l with
  | nil => simp [ofOctets]
  | cons b l ih =>
    rw [ofOctets_cons, Nat.add_eq_zero_iff, ih, List.forall_mem_cons, Nat.mul_eq_zero,
      or_iff_left (Nat.pos_iff_ne_zero.mp (Nat.pow_pos (by decide))), ← UInt8.toNat_inj]
    rfl

namespace ByteOrder

variable (host : ByteOrder)

theorem ofFirst_singleton (b : UInt8) : host.ofFirst [b] = b.toNat := by
  cases host <;> simp [ofFirst]

theorem toNat_ntohs16 (b x : UInt8) : (host.ntohs16 b).toNat = host.ofFirst [b, x] := by
  have hb := b.toNat_lt
  cases host with
  | littleEndian =>
    simp [ntohs16, ofFirst, ntohs]
    omega
  | bigEndian => simp [ntohs16, ofFirst, ntohs]

theorem toNat_ntohl32 (b x y z : UInt8) : (host.ntohl32 b).toNat = host.ofFirst [b, x, y, z] := by
  have hb := b.toNat_lt
  cases host with
  | littleEndian =>
    simp [ntohl32, ofFirst, ntohl, ntohs]
    omega
  | bigEndian => simp [ntohl32, ofFirst, ntohl, ntohs]

theorem toNat_ntohll64 (b : UInt8) (rest : List UInt8) (h : rest.length = 7) :
    (host.ntohll64 b).toNat = host.ofFirst (b :: rest) := by
  cases host with
  | littleEndian =>
    rw [ntohll64, toNat_ntohll (ntohl_lt b 0 0 0) (ntohl_lt 0 0 0 0), ofFirst, h]
    simp [ntohl, ntohs]
    omega
  | bigEndian =>
    rw [ntohll64, toNat_ntohll (ntohl_lt 0 0 0 0) (ntohl_lt 0 0 0 b), ofFirst]
    simp [ntohl, ntohs]

/-- The first octet alone gives the number of the field exactly if no other counts. -/
theorem ofFirst_eq_iff {data : List UInt8} (h : data ≠ []) :
    host.ofFirst data = ofOctets data ↔ host.Exact data := by
  obtain ⟨b, rest, rfl⟩ := List.exists_cons_of_ne_nil h
  rw [ofOctets_cons]
  cases host with
  | littleEndian =>
    simp only [ofFirst, Exact, List.tail_cons, ← ofOctets_eq_zero]
    omega
  | bigEndian =>
    have hzero := @ofOctets_eq_zero (b :: rest)
    rw [ofOctets_cons] at hzero
    simp only [ofFirst, Exact, ← hzero, List.length_cons]
    by_cases hrest : rest = []
    · simp [hrest, ofOctets]
    · have hpos := List.length_pos_of_ne_nil hrest
      have hpow : 256 ^ 1 ≤ 256 ^ rest.length := Nat.pow_le_pow_right (by decide) hpos
      have hmul : b.toNat * 256 ^ 1 ≤ b.toNat * 256 ^ rest.length := Nat.mul_le_mul_left _ hpow
      omega

end ByteOrder

/-! ## The store -/

/-- mirrors detectionmodules/statmodules/print-module/print-store.h:28-67 -/
structure PrintStore where
  flowStart : UInt32
  flowEnd : UInt32
  sourceAddress : IpAddress
  destinationAddress : IpAddress
  protocol : UInt16
  sourcePort : UInt16
  destinationPort : UInt16
  nbPackets : UInt64
  nbBytes : UInt64
  recordNumber : UInt32
  recordStarted : Bool
  /-- What has been written to `std::cerr`. -/
  cerr : List String
  deriving DecidableEq, Repr

namespace PrintStore

open IpfixTypeId

/-- mirrors detectionmodules/statmodules/print-module/print-store.cpp:23-33 -/
def new : PrintStore := ⟨0, 0, ⟨0, 0, 0, 0⟩, ⟨0, 0, 0, 0⟩, 0, 0, 0, 0, 0, 0, false, []⟩

def print (s : PrintStore) (text : String) : PrintStore := { s with cerr := s.cerr ++ [text] }

/-- mirrors detectionmodules/statmodules/print-module/print-store.cpp:35-42 -/
def recordStart (s : PrintStore) : PrintStore :=
  let s :=
    if s.recordStarted then
      s.print "PrintStore::recordStart() was called while having a started record!\n"
    else s
  { s with recordNumber := s.recordNumber + 1, recordStarted := true }

/-- What is said of a field of another length. -/
def invalid (s : PrintStore) (what : String) : PrintStore :=
  s.print ("Error! Got invalid IPFIX field data (" ++ what ++ ")! Skipping record.\n")

/-- mirrors detectionmodules/statmodules/print-module/print-store.cpp:45-185 -/
def addFieldData (host : ByteOrder) (s : PrintStore) (f : DataField) : PrintStore :=
  if f.id = flowStartSeconds then
    match f.fieldData with
    | [b, _, _, _] => { s with flowStart := host.ntohl32 b }
    | _ => s.invalid "flow start"
  else if f.id = flowEndSeconds then
    match f.fieldData with
    | [b, _, _, _] => { s with flowEnd := host.ntohl32 b }
    | _ => s.invalid "flow end"
  else if f.id = protocolIdentifier then
    match f.fieldData with
    | [b] => { s with protocol := b.toUInt16 }
    | _ => s.invalid "protocol"
  else if f.id = sourceIPv4Address then
    match f.fieldData with
    | [a, b, c, d] => { s with sourceAddress := ⟨a, b, c, d⟩ }
    | _ => s.invalid "source IP"
  else if f.id = destinationIPv4Address then
    match f.fieldData with
    | [a, b, c, d] => { s with destinationAddress := ⟨a, b, c, d⟩ }
    | _ => s.invalid "destination IP"
  else if f.id = sourceTransportPort then
    match f.fieldData with
    | [b, _] => { s with sourcePort := host.ntohs16 b }
    | [b] => { s with sourcePort := b.toUInt16 }
    | _ => s.invalid "source port"
  else if f.id = destinationTransportPort then
    match f.fieldData with
    | [b, _] => { s with destinationPort := host.ntohs16 b }
    | [b] => { s with destinationPort := b.toUInt16 }
    | _ => s.invalid "destination port"
  else if f.id = packetDeltaCount then
    match f.fieldData with
    | [b, _, _, _, _, _, _, _] => { s with nbPackets := host.ntohll64 b }
    | _ => s.invalid "#packets"
  else if f.id = octetDeltaCount then
    match f.fieldData with
    | [b, _, _, _, _, _, _, _] => { s with nbBytes := host.ntohll64 b }
    | _ => s.invalid "#bytes"
  else s.print "Warning! Got unknown record in StatStore::addFieldData(...)!\n"

/-- mirrors detectionmodules/statmodules/print-module/print-store.cpp:187-197 -/
def recordEnd (s : PrintStore) : PrintStore :=
  let s :=
    if !s.recordStarted then
      s.print "PrintStore::recordEnd() was called before starting a record!\n"
    else s
  if 1 < s.recordNumber then s.print "PrintStore object has more than one record!\n" else s

/-- A new store after some fields of its record. -/
def afterFields (host : ByteOrder) (fields : DataRecord) : PrintStore :=
  fields.foldl (addFieldData host) new.recordStart

/-- A new store after its record. -/
def record (host : ByteOrder) (r : DataRecord) : PrintStore := (afterFields host r).recordEnd

/-! ## The numbers of a record -/

/-- The members that are numbers. -/
inductive Number where
  | flowStart
  | flowEnd
  | protocol
  | sourcePort
  | destinationPort
  | packets
  | octets
  deriving DecidableEq, Repr

namespace Number

@[simp] def typeId : Number → Int
  | flowStart => flowStartSeconds
  | flowEnd => flowEndSeconds
  | protocol => protocolIdentifier
  | sourcePort => sourceTransportPort
  | destinationPort => destinationTransportPort
  | packets => packetDeltaCount
  | octets => octetDeltaCount

/-- The lengths that a field may have. -/
@[simp] def lengths : Number → List Nat
  | flowStart | flowEnd => [4]
  | protocol => [1]
  | sourcePort | destinationPort => [2, 1]
  | packets | octets => [8]

/-- The field has the number. -/
def In (n : Number) (f : DataField) : Prop := f.id = n.typeId ∧ f.fieldData.length ∈ n.lengths

instance (n : Number) (f : DataField) : Decidable (n.In f) :=
  inferInstanceAs (Decidable (f.id = n.typeId ∧ f.fieldData.length ∈ n.lengths))

/-- The last field of a record that has the number. -/
def last (n : Number) (r : DataRecord) : Option DataField :=
    r.reverse.find? fun f => decide (n.In f)

end Number

/-- What is stored for a number. -/
def value (s : PrintStore) : Number → Nat
  | .flowStart => s.flowStart.toNat
  | .flowEnd => s.flowEnd.toNat
  | .protocol => s.protocol.toNat
  | .sourcePort => s.sourcePort.toNat
  | .destinationPort => s.destinationPort.toNat
  | .packets => s.nbPackets.toNat
  | .octets => s.nbBytes.toNat

@[simp] theorem value_print (s : PrintStore) (text : String) (n : Number) :
    (s.print text).value n = s.value n := by
  cases n <;> rfl

@[simp] theorem value_invalid (s : PrintStore) (what : String) (n : Number) :
    (s.invalid what).value n = s.value n :=
  s.value_print _ n

/-! A field that no branch takes is of another length. -/

theorem length_ne_one {data : List UInt8} (h : ∀ b, data = [b] → False) : data.length ≠ 1 := by
  intro hlen
  obtain ⟨b, hb⟩ := List.length_eq_one_iff.mp hlen
  exact h b hb

theorem length_ne_two {data : List UInt8} (h : ∀ b x, data = [b, x] → False) : data.length ≠ 2 := by
  intro hlen
  obtain ⟨b, x, hb⟩ := List.length_eq_two.mp hlen
  exact h b x hb

theorem length_ne_four {data : List UInt8} (h : ∀ b x y z, data = [b, x, y, z] → False) :
    data.length ≠ 4 := by
  intro hlen
  match data, hlen with
  | [b, x, y, z], _ => exact h b x y z rfl

theorem length_ne_eight {data : List UInt8}
    (h : ∀ b b1 b2 b3 b4 b5 b6 b7, data = [b, b1, b2, b3, b4, b5, b6, b7] → False) :
    data.length ≠ 8 := by
  intro hlen
  match data, hlen with
  | [b, b1, b2, b3, b4, b5, b6, b7], _ => exact h b b1 b2 b3 b4 b5 b6 b7 rfl

theorem Number.typeId_inj {m n : Number} (h : m.typeId = n.typeId) : m = n := by
  cases m <;> cases n <;> first | rfl | exact absurd h (by simp)

/-- What a field does to the numbers: one that it has becomes what its first octet gives, and the
others stay. -/
def Sets (host : ByteOrder) (f : DataField) (s s' : PrintStore) : Prop :=
  ∀ n : Number, s'.value n = if n.In f then host.ofFirst f.fieldData else s.value n

section Branches

variable {host : ByteOrder} {s s' : PrintStore} {f : DataField} {m : Number}

theorem sets_number (hid : f.id = m.typeId) (hlength : f.fieldData.length ∈ m.lengths)
    (hset : s'.value m = host.ofFirst f.fieldData) (hother : ∀ n ≠ m, s'.value n = s.value n) :
    Sets host f s s' := by
  intro n
  by_cases hn : n = m
  · rw [hn, if_pos ⟨hid, hlength⟩, hset]
  · rw [if_neg fun hin => hn (Number.typeId_inj (hin.1.symm.trans hid)), hother n hn]

theorem sets_invalid (hid : f.id = m.typeId) (hlength : f.fieldData.length ∉ m.lengths)
    (what : String) :
    Sets host f s (s.invalid what) := by
  intro n
  have hin : ¬ n.In f := by
    rintro ⟨hn, hmem⟩
    rw [Number.typeId_inj (hn.symm.trans hid)] at hmem
    exact hlength hmem
  rw [if_neg hin, value_invalid]

theorem sets_other (hid : ∀ m : Number, f.id ≠ m.typeId) (hother : ∀ n, s'.value n = s.value n) :
    Sets host f s s' := by
  intro n
  rw [if_neg fun hin => hid n hin.1, hother]

/-! The branches for one kind of number. -/

theorem sets_four (hid : f.id = m.typeId) (hlengths : m.lengths = [4]) (set : UInt32 → PrintStore)
    (hset : ∀ x, (set x).value m = x.toNat) (hother : ∀ x, ∀ n ≠ m, (set x).value n = s.value n)
    (what : String) :
    Sets host f s (match f.fieldData with
      | [b, _, _, _] => set (host.ntohl32 b)
      | _ => s.invalid what) := by
  split
  · rename_i b x y z hdata
    refine sets_number hid (by rw [hlengths, hdata]; simp) ?_ (hother _)
    rw [hset, hdata]
    exact host.toNat_ntohl32 b x y z
  · rename_i hdata
    exact sets_invalid hid (by rw [hlengths]; simp [length_ne_four hdata]) what

theorem sets_port (hid : f.id = m.typeId) (hlengths : m.lengths = [2, 1])
    (set : UInt16 → PrintStore)
    (hset : ∀ x, (set x).value m = x.toNat) (hother : ∀ x, ∀ n ≠ m, (set x).value n = s.value n)
    (what : String) :
    Sets host f s (match f.fieldData with
      | [b, _] => set (host.ntohs16 b)
      | [b] => set b.toUInt16
      | _ => s.invalid what) := by
  split
  · rename_i b x hdata
    refine sets_number hid (by rw [hlengths, hdata]; simp) ?_ (hother _)
    rw [hset, hdata]
    exact host.toNat_ntohs16 b x
  · rename_i b hdata
    refine sets_number hid (by rw [hlengths, hdata]; simp) ?_ (hother _)
    rw [hset, hdata]
    exact (host.ofFirst_singleton b).symm
  · rename_i htwo hone
    exact sets_invalid hid (by rw [hlengths]; simp [length_ne_two htwo, length_ne_one hone]) what

theorem sets_eight (hid : f.id = m.typeId) (hlengths : m.lengths = [8]) (set : UInt64 → PrintStore)
    (hset : ∀ x, (set x).value m = x.toNat) (hother : ∀ x, ∀ n ≠ m, (set x).value n = s.value n)
    (what : String) :
    Sets host f s (match f.fieldData with
      | [b, _, _, _, _, _, _, _] => set (host.ntohll64 b)
      | _ => s.invalid what) := by
  split
  · rename_i b b1 b2 b3 b4 b5 b6 b7 hdata
    refine sets_number hid (by rw [hlengths, hdata]; simp) ?_ (hother _)
    rw [hset, hdata]
    exact host.toNat_ntohll64 b [b1, b2, b3, b4, b5, b6, b7] rfl
  · rename_i hdata
    exact sets_invalid hid (by rw [hlengths]; simp [length_ne_eight hdata]) what

theorem typeId_ne_address (hid : f.id = sourceIPv4Address ∨ f.id = destinationIPv4Address)
    (m : Number) :
    f.id ≠ m.typeId := by
  rcases hid with hid | hid <;> rw [hid] <;> cases m <;> simp

end Branches

theorem addFieldData_sets (host : ByteOrder) (s : PrintStore) (f : DataField) :
    Sets host f s (s.addFieldData host f) := by
  unfold addFieldData
  refine iteInduction (fun hid => ?_) fun h1 => ?_
  · refine sets_four (m := .flowStart) hid rfl ({ s with flowStart := · }) (fun _ => rfl)
      (fun x n hn => ?_) _
    cases n <;> first | rfl | exact absurd rfl hn
  refine iteInduction (fun hid => ?_) fun h2 => ?_
  · refine sets_four (m := .flowEnd) hid rfl ({ s with flowEnd := · }) (fun _ => rfl)
      (fun x n hn => ?_) _
    cases n <;> first | rfl | exact absurd rfl hn
  refine iteInduction (fun hid => ?_) fun h3 => ?_
  · split
    · rename_i b hdata
      refine sets_number (m := .protocol) hid (by simp [hdata]) ?_ (fun n hn => ?_)
      · exact hdata ▸ (host.ofFirst_singleton b).symm
      · cases n <;> first | rfl | exact absurd rfl hn
    · rename_i hdata
      exact sets_invalid (m := .protocol) hid (by simp [length_ne_one hdata]) _
  refine iteInduction (fun hid => ?_) fun h4 => ?_
  · split
    · exact sets_other (typeId_ne_address (.inl hid)) fun n => by cases n <;> rfl
    · exact sets_other (typeId_ne_address (.inl hid)) (s.value_invalid _)
  refine iteInduction (fun hid => ?_) fun h5 => ?_
  · split
    · exact sets_other (typeId_ne_address (.inr hid)) fun n => by cases n <;> rfl
    · exact sets_other (typeId_ne_address (.inr hid)) (s.value_invalid _)
  refine iteInduction (fun hid => ?_) fun h6 => ?_
  · refine sets_port (m := .sourcePort) hid rfl ({ s with sourcePort := · }) (fun _ => rfl)
      (fun x n hn => ?_) _
    cases n <;> first | rfl | exact absurd rfl hn
  refine iteInduction (fun hid => ?_) fun h7 => ?_
  · refine sets_port (m := .destinationPort) hid rfl ({ s with destinationPort := · })
      (fun _ => rfl)
      (fun x n hn => ?_) _
    cases n <;> first | rfl | exact absurd rfl hn
  refine iteInduction (fun hid => ?_) fun h8 => ?_
  · refine sets_eight (m := .packets) hid rfl ({ s with nbPackets := · }) (fun _ => rfl)
      (fun x n hn => ?_) _
    cases n <;> first | rfl | exact absurd rfl hn
  refine iteInduction (fun hid => ?_) fun h9 => ?_
  · refine sets_eight (m := .octets) hid rfl ({ s with nbBytes := · }) (fun _ => rfl)
      (fun x n hn => ?_) _
    cases n <;> first | rfl | exact absurd rfl hn
  refine sets_other (fun m => ?_) (s.value_print _)
  cases m <;> assumption

theorem Number.last_concat (n : Number) (fields : DataRecord) (f : DataField) :
    n.last (fields ++ [f]) = if n.In f then some f else n.last fields := by
  unfold Number.last
  rw [List.reverse_append, List.reverse_singleton, List.singleton_append, List.find?_cons]
  by_cases hin : n.In f
  · simp [hin]
  · simp [hin]

/-- After any fields, a member is what has been made of the last one that has its number. -/
theorem value_afterFields (host : ByteOrder) (fields : DataRecord) (n : Number) :
    (afterFields host fields).value n =
      ((n.last fields).map fun f => host.ofFirst f.fieldData).getD 0 := by
  unfold afterFields
  induction fields using List.reverseRecOn with
  | nil => cases n <;> rfl
  | append_singleton fields f ih =>
    rw [List.foldl_append, List.foldl_cons, List.foldl_nil, addFieldData_sets, Number.last_concat]
    by_cases hin : n.In f
    · rw [if_pos hin, if_pos hin]
      rfl
    · rw [if_neg hin, if_neg hin, ih]

/-- The end of the record leaves the members. -/
theorem value_record (host : ByteOrder) (r : DataRecord) (n : Number) :
    (record host r).value n = (afterFields host r).value n := by
  have hite (s : PrintStore) (text : String) (P : Prop) [Decidable P] :
      (if P then s.print text else s).value n = s.value n := by
    split
    · exact s.value_print text n
    · rfl
  unfold record recordEnd
  simp only [hite]

theorem Number.In.length_mem {n : Number} {f : DataField} (h : n.In f) :
    f.fieldData.length ∈ [1, 2, 4, 8] := by
  have hlengths := h.2
  simp only [List.mem_cons, List.not_mem_nil, or_false]
  cases n <;> simp at hlengths <;> omega

/-- Every number of a record is stored as `fieldToInt` reads it exactly if the octets behind its
first are zero, and on a big-endian host the first as well unless it is the only one. -/
theorem stored_iff (host : ByteOrder) (r : DataRecord) :
    (∀ fields f, fields ++ [f] <+: r → ∀ n : Number, n.In f →
        (afterFields host (fields ++ [f])).value n = (fieldToInt f.fieldData).toNat) ↔
      ∀ f ∈ r, (∃ n : Number, n.In f) → host.Exact f.fieldData := by
  have hstored : ∀ fields f, ∀ n : Number, n.In f →
      ((afterFields host (fields ++ [f])).value n = (fieldToInt f.fieldData).toNat ↔
        host.Exact f.fieldData) := by
    intro fields f n hin
    have hne : f.fieldData ≠ [] := by
      intro hnil
      have := hin.length_mem
      simp [hnil] at this
    rw [value_afterFields, Number.last_concat, if_pos hin, fieldToInt_eq hin.length_mem,
      ← host.ofFirst_eq_iff hne]
    rfl
  refine ⟨?_, ?_⟩
  · rintro h f hmem ⟨n, hin⟩
    obtain ⟨fields, rest, rfl⟩ := List.append_of_mem hmem
    exact (hstored fields f n hin).mp (h fields f ⟨rest, by simp⟩ n hin)
  · intro h fields f hprefix n hin
    have hmem : f ∈ r := hprefix.subset (List.mem_append_right _ (List.mem_singleton_self f))
    exact (hstored fields f n hin).mpr (h f hmem ⟨n, hin⟩)

/-- **Counterexample**: a flow that starts at 0x12345678 is printed with 0x12000000, or 0x12. -/
theorem flowStart_not_stored :
    (record .littleEndian [⟨150, [0x12, 0x34, 0x56, 0x78], 0⟩]).flowStart = 0x12000000 ∧
      (record .bigEndian [⟨150, [0x12, 0x34, 0x56, 0x78], 0⟩]).flowStart = 0x12 ∧
      fieldToInt [0x12, 0x34, 0x56, 0x78] = 0x12345678 ∧
      ∀ host, ¬ ∀ (r : DataRecord) (fields : DataRecord) (f : DataField), fields ++ [f] <+: r →
        ∀ n : Number, n.In f →
          (afterFields host (fields ++ [f])).value n = (fieldToInt f.fieldData).toNat := by
  refine ⟨rfl, rfl, rfl, fun host hall => ?_⟩
  have h := hall [⟨150, [0x12, 0x34, 0x56, 0x78], 0⟩] [] ⟨150, [0x12, 0x34, 0x56, 0x78], 0⟩
    (List.prefix_refl _) .flowStart (by decide)
  cases host <;> exact absurd h (by decide)

end PrintStore

end Topas
