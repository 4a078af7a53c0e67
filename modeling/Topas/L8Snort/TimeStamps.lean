import Topas.L8Snort.PcapWriter

/-!
# The time stamp of a packet

`SnortStore::addFieldData` splits a time in milliseconds into seconds and microseconds.
`ts_sec*1000` is computed in 32 bits and wraps for every time after 1970-02-19; the difference to
the milliseconds is therefore off by a multiple of `2^32`, and the conversion of its thousandfold
to 32 bits drops that multiple.

* `addFieldData_flowStartMilliSeconds`: the two members together are the time.
* `micros_addFields`: the packet of a record has the time of the last such field, when no port field
  behind it is so long that it runs over the time.
-/
namespace Topas.Snort

/-! ## The split -/

theorem toNat_tsSec {m : UInt64} (h : m.toNat / 1000 < 2 ^ 32) :
    (m / 1000).toUInt32.toNat = m.toNat / 1000 := by
  rw [UInt64.toNat_toUInt32, UInt64.toNat_div]
  exact Nat.mod_eq_of_lt h

/-- The subtraction leaves the milliseconds and what the 32-bit product lost. -/
theorem toNat_rest {m : UInt64} (h : m.toNat / 1000 < 2 ^ 32) :
    (m - ((m / 1000).toUInt32 * 1000).toUInt64).toNat =
      m.toNat % 1000 + 2 ^ 32 * (m.toNat / 1000 * 1000 / 2 ^ 32) := by
  have hsec : ((m / 1000).toUInt32 * 1000).toUInt64.toNat = m.toNat / 1000 * 1000 % 2 ^ 32 := by
    rw [UInt32.toNat_toUInt64, UInt32.toNat_mul, toNat_tsSec h]
    rfl
  have hle : ((m / 1000).toUInt32 * 1000).toUInt64 ≤ m := by
    rw [UInt64.le_iff_toNat_le, hsec]
    omega
  rw [UInt64.toNat_sub_of_le _ _ hle, hsec]
  omega

/-- The microseconds are those of the milliseconds that are left. -/
theorem toNat_tsUsec {m : UInt64} (h : m.toNat / 1000 < 2 ^ 32) :
    ((m - ((m / 1000).toUInt32 * 1000).toUInt64) * 1000).toUInt32.toNat =
      m.toNat % 1000 * 1000 := by
  have hrest := toNat_rest h
  have hmod : m.toNat % 1000 < 1000 := Nat.mod_lt _ (by omega)
  have hthousand : (1000 : UInt64).toNat = 1000 := rfl
  rw [UInt64.toNat_toUInt32, UInt64.toNat_mul, hrest, hthousand]
  omega

/-- The time in microseconds. -/
def PcapPacket.micros (p : PcapPacket) : Nat := p.tsSec.toNat * 1000000 + p.tsUsec.toNat

namespace PacketObject

/-- The two members are apart. -/
theorem times_setMilliSeconds (o : PacketObject) (m : UInt64) :
    (o.setMilliSeconds m).packet.tsSec = (m / 1000).toUInt32 ∧
      (o.setMilliSeconds m).packet.tsUsec =
        ((m - ((m / 1000).toUInt32 * 1000).toUInt64) * 1000).toUInt32 := by
  refine ⟨?_, load32_of_holds (Mem.holds_store _ _ _)⟩
  refine Eq.trans (load32_congr fun i _ hi => ?_) (load32_of_holds (Mem.holds_store o.mem tsSec _))
  exact Mem.store_other (Or.inl hi)

theorem micros_setMilliSeconds (o : PacketObject) {m : UInt64} (h : m.toNat / 1000 < 2 ^ 32) :
    (o.setMilliSeconds m).packet.micros = m.toNat * 1000 ∧
      (o.setMilliSeconds m).packet.tsUsec.toNat < 1000000 := by
  obtain ⟨hsec, husec⟩ := o.times_setMilliSeconds m
  have hmod : m.toNat % 1000 < 1000 := Nat.mod_lt _ (by omega)
  rw [PcapPacket.micros, hsec, husec, toNat_tsSec h, toNat_tsUsec h]
  omega

theorem addFieldData_setMilliSeconds (o : PacketObject) (buffer : Pointer) {f : DataField}
    (hid : f.id = IpfixTypeId.flowStartMilliSeconds) :
    o.addFieldData buffer f = o.setMilliSeconds (fieldToInt f.fieldData) := by
  simp [addFieldData, hid]

theorem toNat_fieldToInt_eight {data : List UInt8} (h : data.length = 8) :
    (fieldToInt data).toNat = ofOctets data :=
  fieldToInt_eq (by simp [h])

/-- An 8-octet `flowStartMilliSeconds` whose seconds fit into 32 bits: the stored time is the time
of the field. -/
theorem addFieldData_flowStartMilliSeconds (o : PacketObject) (buffer : Pointer) (f : DataField)
    (hid : f.id = IpfixTypeId.flowStartMilliSeconds) (hlen : f.fieldData.length = 8)
    (h : ofOctets f.fieldData / 1000 < 2 ^ 32) :
    (o.addFieldData buffer f).packet.tsSec.toNat * 10 ^ 6 +
          (o.addFieldData buffer f).packet.tsUsec.toNat =
        ofOctets f.fieldData * 1000 ∧
      (o.addFieldData buffer f).packet.tsUsec.toNat < 10 ^ 6 := by
  rw [← toNat_fieldToInt_eight hlen] at h ⊢
  rw [addFieldData_setMilliSeconds o buffer hid]
  exact micros_setMilliSeconds o h

/-- A time in 2008: the product is off by 282 multiples of `2^32`. -/
def start2008 : DataField :=
  ⟨IpfixTypeId.flowStartMilliSeconds, [0, 0, 1, 0x1a, 0x05, 0xb2, 0xa4, 0x7b], 0⟩

/-- 1211276371 seconds and 67 milliseconds -/
theorem addFieldData_start2008 :
    ((blank.addFieldData (sampleBuffer 0) start2008).packet.tsSec.toNat * 10 ^ 6 +
          (blank.addFieldData (sampleBuffer 0) start2008).packet.tsUsec.toNat =
        1211276371067 * 1000 ∧
      (blank.addFieldData (sampleBuffer 0) start2008).packet.tsUsec.toNat < 10 ^ 6) ∧
    (blank.addFieldData (sampleBuffer 0) start2008).packet.tsSec = 1211276371 :=
  ⟨addFieldData_flowStartMilliSeconds blank (sampleBuffer 0) start2008 rfl rfl (by decide), rfl⟩

/-! ## Records -/

/-- The fields that set the time. -/
def timeIds : List Int :=
  [IpfixTypeId.flowStartSeconds, IpfixTypeId.flowStartMilliSeconds,
    IpfixTypeId.flowStartMicroSeconds]

/-- Fields that leave the time alone: it stands behind the ports. -/
def Beside (f : DataField) : Prop :=
  f.id ∉ timeIds ∧ ∀ m, PacketMemory.target f.id = some m → m.offset < tsSec →
    m.offset + f.fieldData.length ≤ tsSec

/-- The octets of the time are the same. -/
def SameTime (o o' : PacketObject) : Prop := ∀ i, tsSec ≤ i → i < tsUsec + 4 → o'.mem i = o.mem i

theorem micros_congr {o o' : PacketObject} (h : SameTime o o') :
    o'.packet.micros = o.packet.micros := by
  have hsec : o'.packet.tsSec = o.packet.tsSec :=
    load32_congr fun i hi hi' => h i hi (Nat.lt_of_lt_of_le hi' (by decide))
  have husec : o'.packet.tsUsec = o.packet.tsUsec :=
    load32_congr fun i hi hi' => h i (Nat.le_trans (by decide) hi) hi'
  rw [PcapPacket.micros, hsec, husec, PcapPacket.micros]

theorem sameTime_copy {o o' : PacketObject} (h : SameTime o o') {m : Member} {data : List UInt8}
    (hbeside : m.offset < tsSec → m.offset + data.length ≤ tsSec) :
      SameTime o (o'.copy m data) := by
  intro i hi hi'
  refine (Mem.store_other ?_).trans (h i hi hi')
  have hapart : m.offset < tsSec ∨ tsUsec + 4 ≤ m.offset := by
    cases m <;> decide
  omega

theorem sameTime_setSection {o : PacketObject} {pointerAt sizeAt : Nat} (buffer : Pointer)
    (data : List UInt8) (hpointer : tsUsec + 4 ≤ pointerAt) (hsize : tsUsec + 4 ≤ sizeAt) :
    SameTime o (o.setSection pointerAt sizeAt buffer data) :=
  fun _ _ hi => (Mem.store_other (Or.inl (Nat.lt_of_lt_of_le hi hsize))).trans
    (Mem.store_other (Or.inl (Nat.lt_of_lt_of_le hi hpointer)))

/-- The other fields leave the time as it is. -/
theorem sameTime_addFieldData (o : PacketObject) (buffer : Pointer) {f : DataField} (h : Beside f) :
    SameTime o (o.addFieldData buffer f) := by
  have hrefl : SameTime o o := fun _ _ _ => rfl
  have hudp : SameTime o o.markUdp := fun i hi _ =>
    Mem.store_other (a := 0) (.inr (Nat.le_trans (by decide : 1 ≤ tsSec) hi))
  have htcp : SameTime o o.markTcp := fun i hi _ =>
    Mem.store_other (a := 1) (.inr (Nat.le_trans (by decide : 2 ≤ tsSec) hi))
  obtain ⟨htimes, hbeside⟩ := h
  simp only [timeIds, List.mem_cons, List.not_mem_nil, or_false, not_or] at htimes
  obtain ⟨hseconds, hmillis, hmicros⟩ := htimes
  have hcopy : ∀ {id : Int} {m : Member} {o' : PacketObject}, PacketMemory.target id = some m →
      SameTime o o' → f.id = id → SameTime o (o'.copy m f.fieldData) :=
    fun htarget hsame hid => sameTime_copy hsame (hbeside _ (hid ▸ htarget))
  unfold addFieldData
  iterate 9 refine iteInduction (hcopy rfl hrefl) fun _ => ?_
  iterate 7 refine iteInduction (hcopy rfl htcp) fun _ => ?_
  iterate 2 refine iteInduction (hcopy rfl hudp) fun _ => ?_
  refine iteInduction (fun _ => sameTime_setSection _ _ (by decide) (by decide)) fun _ => ?_
  refine iteInduction (fun _ => sameTime_setSection _ _ (by decide) (by decide)) fun _ => ?_
  rw [if_neg hseconds, if_neg hmillis, if_neg hmicros]
  exact hrefl

theorem sameTime_addFields {fs : List (DataField × Pointer)} (h : ∀ g ∈ fs, Beside g.1)
    (o : PacketObject) : SameTime o (o.addFields fs) := by
  induction fs generalizing o with
  | nil => exact fun _ _ _ => rfl
  | cons g fs ih =>
    intro i hi hi'
    have hrest :=
      ih (fun g' hg' => h g' (List.mem_cons_of_mem _ hg')) (o.addFieldData g.2 g.1) i hi hi'
    exact hrest.trans (sameTime_addFieldData o g.2 (h g List.mem_cons_self) i hi hi')

/-- The packet of a record has the time of the last field that sets it, when that is one in
milliseconds. -/
theorem micros_addFields (o : PacketObject) (before after : List (DataField × Pointer))
    (f : DataField) (buffer : Pointer) (hid : f.id = IpfixTypeId.flowStartMilliSeconds)
    (hafter : ∀ g ∈ after, Beside g.1) (hlen : f.fieldData.length = 8)
    (h : ofOctets f.fieldData / 1000 < 2 ^ 32) :
    (o.addFields (before ++ (f, buffer) :: after)).packet.micros = ofOctets f.fieldData * 1000 := by
  rw [addFields, List.foldl_append, List.foldl_cons, ← addFields, ← addFields,
    micros_congr (sameTime_addFields hafter _), addFieldData_setMilliSeconds _ _ hid]
  rw [← toNat_fieldToInt_eight hlen] at h ⊢
  exact (micros_setMilliSeconds _ h).1

end PacketObject

end Topas.Snort
