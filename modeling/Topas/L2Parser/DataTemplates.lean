import Topas.L2Parser.Deliveries
import Topas.L2Parser.FieldArrays

/-!
# Data templates and their records

`processDataTemplateSet` and the part of `processDataSet` for its records
(`concentrator/rcvIpfix.c:311-413`, `:563-611`) against what an exporter sends. The fixed values of
a data template stand behind its field specifiers, in one block.

* The array of the fixed values is allocated with the number of the other fields.
* The loop over the block counts the values without their length prefixes: behind a value of
  varying length it is too short by the prefix, and so is the copy of the block.
* Records are taken while any byte is left, and their length prefixes of two bytes are not
  converted to host order, as with options templates.

`dataTemplate_decoded_iff` says which data templates and data sets are decoded in spite of them.
-/
namespace Topas

open Mem Proc Layout

/-- With the set and template headers, a data template fits a set. -/
structure DataTemplate where
  id : Nat
  preceding : Nat
  fields : List Field
  data : List Field
  values : List Value
  id_lt : id < 65536
  preceding_lt : preceding < 65536
  fields_pos : 0 < fields.length
  valuesFit : ValuesFit data values
  length_lt : 12 + ((fields.flatMap Field.encode).length + ((data.flatMap Field.encode).length +
    (encodeValues data values).length)) < 65536

def DataTemplate.encode (t : DataTemplate) : List UInt8 :=
  enc16 t.id ++ enc16 t.fields.length ++ enc16 t.data.length ++ enc16 t.preceding ++
    (t.fields.flatMap Field.encode ++ (t.data.flatMap Field.encode ++ encodeValues t.data t.values))

/-- A fixed value with its field. -/
structure FixedValue where
  id : Nat
  eid : Nat
  length : Nat
  bytes : List UInt8
  deriving DecidableEq, Repr

/-- The fixed values that were sent. -/
def fixedValues : List Field → List Value → List FixedValue
  | f :: fs, v :: vs => ⟨f.id, f.eid, v.bytes.length, v.bytes⟩ :: fixedValues fs vs
  | _, _ => []

/-- The fixed value of a stored field in the block `data`. -/
def FieldInfo.fixed (data : List UInt8) (fi : FieldInfo) : FixedValue :=
  ⟨fi.type.id, fi.type.eid, fi.type.length, (data.drop fi.offset).take fi.type.length⟩

/-- The fixed values that the stored field infos and data block give. -/
def DataTemplateInfo.fixedValues (ti : DataTemplateInfo) : List FixedValue :=
  ti.dataInfo.map (FieldInfo.fixed ti.data)

/-! ## The block of fixed values -/

section Block

variable {m : Mem} {start : Nat}

theorem drop_take_slice {a n i k : Nat} (h : i + k ≤ n) :
    ((slice m a n).drop i).take k = slice m (a + i) k := by
  have hn :
      slice m a n = slice m a i ++ (slice m (a + i) k ++ slice m (a + (i + k)) (n - (i + k))) := by
    rw [← Nat.add_assoc, ← slice_add, ← slice_add]
    congr 1
    omega
  rw [hn, List.drop_left' (length_slice ..), List.take_left' (length_slice ..)]

/-- The stored infos of the specifiers of fixed values, before the block is looked at. -/
def Specified : List FieldInfo → List Field → Prop
  | [], [] => True
  | fi :: fis, f :: fs =>
    fi.type.id = f.id ∧ fi.type.eid = f.eid ∧ fi.type.length = f.length ∧ Specified fis fs
  | _, _ => False

/-- The length of the block is what the stored lengths add up to. -/
theorem blockLength_eq (m : Mem) (start len : Nat) (fis : List FieldInfo) :
    blockLength m start (fis.map (·.type.length)) len =
      len + ((locatedData m start fis len).map (·.type.length)).sum := by
  induction fis generalizing len with
  | nil => rfl
  | cons fi fis ih =>
    rw [List.map_cons, blockLength, ih, locatedData, List.map_cons, List.sum_cons, Nat.add_assoc]

theorem blockLength_fixed {ls : List Nat} (h : 65535 ∉ ls) {len : Nat} :
    blockLength m start ls len = len + ls.sum := by
  induction ls generalizing len with
  | nil => rfl
  | cons l ls ih =>
    simp only [List.mem_cons, not_or] at h
    rw [blockLength, ih h.2, blockPart, if_neg (fun e => h.1 e.symm), List.sum_cons, Nat.add_assoc]

/-- Values of fixed length are found. -/
theorem fixed_locatedData {fis : List FieldInfo} {fs : List Field} {vs : List Value}
    {len total : Nat} (h : Holds m (start + len) (encodeValues fs vs)) (hfit : ValuesFit fs vs)
    (hs : Specified fis fs)
    (hfix : 65535 ∉ fs.map Field.length) (hle : len + (encodeValues fs vs).length ≤ total)
    (hlt : total < 65536) :
    (locatedData m start fis len).map (FieldInfo.fixed (slice m start total)) =
      fixedValues fs vs := by
  induction fs generalizing fis vs len with
  | nil =>
    cases fis with
    | cons fi fis => exact hs.elim
    | nil => cases vs <;> rfl
  | cons f fs ih =>
    cases fis with
    | nil => exact hs.elim
    | cons fi fis =>
      cases vs with
      | nil => exact hfit.elim
      | cons v vs =>
        obtain ⟨hid, heid, hlen, hs⟩ := hs
        obtain ⟨hfit1, hfit⟩ := hfit
        simp only [List.map_cons, List.mem_cons, not_or] at hfix
        have hvar : f.isVariable = false := beq_eq_false_iff_ne.mpr fun e => hfix.1 e.symm
        unfold Value.Fits at hfit1
        rw [hvar, if_neg Bool.false_ne_true] at hfit1
        rw [← hfit1] at hlen hfix
        have hne : v.bytes.length ≠ 65535 := fun e => hfix.1 e.symm
        have henc : v.encode f = v.bytes := by
          rw [Value.encode, hvar, if_neg Bool.false_ne_true, List.nil_append]
        rw [encodeValues, henc, List.length_append] at hle
        rw [encodeValues, henc, holds_append, Nat.add_assoc] at h
        have hbytes : ((slice m start total).drop len).take v.bytes.length = v.bytes := by
          rw [drop_take_slice (by omega)]
          exact h.1
        rw [locatedData, List.map_cons, fixedValues]
        simp only [blockPart, FieldInfo.fixed, hid, heid, hlen, if_neg hne]
        rw [Nat.mod_eq_of_lt (by omega), hbytes, ih h.2 hfit hs hfix.2 (by omega)]

theorem lengths_fixedValues {fs : List Field} {vs : List Value} (h : ValuesFit fs vs) :
    (fixedValues fs vs).map FixedValue.length = vs.map (·.bytes.length) := by
  induction fs generalizing vs with
  | nil =>
    cases vs with
    | nil => rfl
    | cons v vs => exact h.elim
  | cons f fs ih =>
    cases vs with
    | nil => rfl
    | cons v vs => rw [fixedValues, List.map_cons, List.map_cons, ih h.2]

/-- Values together are shorter than their encoding by the length prefixes. -/
theorem lengths_lt_encodeValues {fs : List Field} {vs : List Value} (h : ValuesFit fs vs) :
    (vs.map (·.bytes.length)).sum ≤ (encodeValues fs vs).length ∧
      (65535 ∈ fs.map Field.length →
        (vs.map (·.bytes.length)).sum < (encodeValues fs vs).length) := by
  induction fs generalizing vs with
  | nil =>
    cases vs with
    | nil => exact ⟨Nat.le_refl _, fun hm => nomatch hm⟩
    | cons v vs => exact h.elim
  | cons f fs ih =>
    cases vs with
    | nil => exact h.elim
    | cons v vs =>
      obtain ⟨hle, hlt⟩ := ih h.2
      have hsize := Value.length_encode f v
      simp only [List.map_cons, List.sum_cons, encodeValues, List.length_append]
      refine ⟨by omega, fun hm => ?_⟩
      rcases List.mem_cons.mp hm with hf | hm
      · have hvar : f.isVariable = true := beq_iff_eq.mpr hf.symm
        have hhead : 1 ≤ v.head f := by
          rw [Value.head, if_pos hvar]; split <;> decide
        omega
      · have := hlt hm
        omega

end Block

/-! ## The template -/

section Template

variable {E : Env} {sid set th a : Nat} {t : DataTemplate}

theorem count_le_length (fs : List Field) : 4 * fs.length ≤ (fs.flatMap Field.encode).length := by
  induction fs with
  | nil => exact Nat.le_refl 0
  | cons f fs ih =>
    have hf : 4 ≤ f.encode.length := by
      simp only [Field.encode, List.length_append, length_enc16]; omega
    rw [List.flatMap_cons, List.length_append, List.length_cons]
    omega

theorem specified_at {fs : List Field} (h : Holds E.mem a (fs.flatMap Field.encode)) (no o : Nat) :
    Specified (fieldsAt E.mem (dataAt E) fs.length no a o) fs := by
  induction fs generalizing a no o with
  | nil => trivial
  | cons f fs ih =>
    rw [List.flatMap_cons, holds_append] at h
    obtain ⟨hid, hlength, hend, heid⟩ := field_at h.1
    rw [List.length_cons, fieldsAt, hend]
    exact ⟨hid, heid, hlength, ih h.2 _ _⟩

theorem DataTemplate.length_encode (t : DataTemplate) :
    t.encode.length = 8 + ((t.fields.flatMap Field.encode).length +
      ((t.data.flatMap Field.encode).length + (encodeValues t.data t.values).length)) := by
  simp only [DataTemplate.encode, List.length_append, length_enc16]

/-- The header, the specifiers and the block of a data template. -/
theorem dataTemplate_at (h : Holds E.mem th t.encode) :
    be16 E.mem th = t.id ∧ be16 E.mem (th + 2) = t.fields.length ∧
    be16 E.mem (th + 4) = t.data.length ∧ Holds E.mem (th + 8) (t.fields.flatMap Field.encode) ∧
    Holds E.mem (specsEnd E.mem t.fields.length (th + 8)) (t.data.flatMap Field.encode) ∧
    Holds E.mem (dataStart E.mem th) (encodeValues t.data t.values) ∧
    dataStart E.mem th =
      th +
        (8 + ((t.fields.flatMap Field.encode).length + (t.data.flatMap Field.encode).length)) := by
  have hlt := t.length_lt
  have hfields := count_le_length t.fields
  have hdata := count_le_length t.data
  unfold DataTemplate.encode at h
  simp only [holds_append, List.length_append, length_enc16, Nat.reduceAdd] at h
  obtain ⟨⟨⟨⟨h1, h2⟩, h3⟩, -⟩, h5, h6, h7⟩ := h
  have hcount := be16_of_holds h2 (by omega)
  have hcount' := be16_of_holds h3 (by omega)
  have hend := (fields_at h5 0 0).1
  have hend' := (fields_at h6 0 0).1
  rw [← hend] at h6 hend'
  have hstart : dataStart E.mem th =
      th +
          (8 +
              ((t.fields.flatMap Field.encode).length + (t.data.flatMap Field.encode).length)) := by
    rw [dataStart, hcount, hcount', hend', hend]
    omega
  refine ⟨be16_of_holds h1 t.id_lt, hcount, hcount', h5, h6, ?_, hstart⟩
  rw [hstart, show th + (8 + ((t.fields.flatMap Field.encode).length +
    (t.data.flatMap Field.encode).length)) = th + 8 + (t.fields.flatMap Field.encode).length +
    (t.data.flatMap Field.encode).length by omega]
  exact h7

/-- What is buffered for a data template. -/
theorem entered_dataTemplate (h : Holds E.mem th t.encode) :
    Entered (entryAt E sid set th .dataTemplate) .dataTemplate t.id [] t.fields := by
  obtain ⟨hid, hcount, -, hfields, -⟩ := dataTemplate_at h
  obtain ⟨-, hl, hdesc, -⟩ := fields_at hfields 0 0
  have hlens : lengthsAt E.mem th .dataTemplate = ([] ++ t.fields).map Field.length := by
    rw [lengthsAt, hcount, hl, List.nil_append]
  have hregular : (entryAt E sid set th .dataTemplate).info.regular =
      offsetsFor (t.fields.map Field.length)
          (fieldsAt E.mem (fieldAt E) t.fields.length 0 (th + 8) 0) := by
    simp only [entryAt, infoAt, Info.regular, dataTemplateInfoAt, hcount, hl]
  refine ⟨?_, ⟨rfl, hid, trivial, ?_⟩, fun hlt => ?_⟩
  · rw [← hlens]
    exact recordLength_templateAt
  · rw [hregular]
    exact describes_offsetsFor hdesc
  · rw [← hlens]
    have hfix : 65535 ∉ lengthsAt E.mem th .dataTemplate :=
      not_mem_of_storedLength (@recordLength_entryAt E .dataTemplate sid set th ▸ hlt)
    exact (fields_infoAt hfix).1

/-- The fixed values are stored and the template's end is found exactly when none of them varies. -/
theorem fixedValues_iff (h : Holds E.mem th t.encode) :
    ((dataTemplateInfoAt E th).fixedValues = fixedValues t.data t.values ∧
      templateEnd E.mem th .dataTemplate = th + t.encode.length) ↔
        65535 ∉ t.data.map Field.length := by
  have hlt := t.length_lt
  have hpos := t.fields_pos
  obtain ⟨-, hcount, hcount', -, hspecs, hblock, hstart⟩ := dataTemplate_at h
  obtain ⟨-, hlens, -, -⟩ := fields_at hspecs 0 0
  have hspecified := specified_at hspecs 0 0
  have hlengths :
    (fieldsAt E.mem (dataAt E) t.data.length 0 (specsEnd E.mem t.fields.length (th + 8)) 0).map
      (·.type.length) = dataLengths E.mem th := by
    rw [lengths_fieldsAt (fun _ _ _ => rfl), dataLengths, hcount, hcount']
  have hlength := blockLength_eq E.mem (dataStart E.mem th) 0
    (fieldsAt E.mem (dataAt E) t.data.length 0 (specsEnd E.mem t.fields.length (th + 8)) 0)
  rw [hlengths, Nat.zero_add] at hlength
  have hend : templateEnd E.mem th .dataTemplate =
      dataStart E.mem th + blockLength E.mem (dataStart E.mem th) (dataLengths E.mem th) 0 := by
    rw [templateEnd, if_neg (by omega)]
  have hinfo : (dataTemplateInfoAt E th).fixedValues =
      (locatedData E.mem (dataStart E.mem th) (fieldsAt E.mem (dataAt E) t.data.length 0
        (specsEnd E.mem t.fields.length (th + 8)) 0) 0).map
          (FieldInfo.fixed (slice E.mem (dataStart E.mem th)
          (blockLength E.mem (dataStart E.mem th) (dataLengths E.mem th) 0))) := by
    simp only [DataTemplateInfo.fixedValues, dataTemplateInfoAt, hcount, hcount']
  rw [hend, hinfo, t.length_encode, hstart]
  rw [hstart] at hlength hblock
  refine ⟨?_, ?_⟩
  · rintro ⟨hvalues, hnext⟩ hvar
    -- the stored lengths are the lengths of the values, so the block ends too early
    have hsum := congrArg (List.map FixedValue.length) hvalues
    rw [lengths_fixedValues t.valuesFit, List.map_map] at hsum
    have := (lengths_lt_encodeValues t.valuesFit).2 hvar
    rw [show FixedValue.length ∘ FieldInfo.fixed _ = (·.type.length) from rfl] at hsum
    rw [hsum] at hlength
    omega
  · intro hfix
    have hsum : blockLength E.mem (th + (8 + ((t.fields.flatMap Field.encode).length +
        (t.data.flatMap Field.encode).length))) (dataLengths E.mem th) 0 =
        (encodeValues t.data t.values).length := by
      rw [fixed_encodeValues t.valuesFit hfix, dataLengths, hcount, hcount', hlens,
        blockLength_fixed hfix, Nat.zero_add]
    refine ⟨?_, by omega⟩
    rw [hsum]
    exact fixed_locatedData hblock t.valuesFit hspecified hfix (by omega) (by omega)

end Template

/-- The data template and the data set are decoded as the template says. -/
structure DataTemplateDecoded (t : DataTemplate) (l : List Event) (s : Nat × TemplateBuffer)
    (sid th : Nat)
    (E : Env) (n set : Nat) (tb : TemplateBuffer) (ds : DataSet t.id [] t.fields) : Prop where
  inArray : ∀ e ∈ l, e.InArray
  fixedValues : ∃ bt ti, s.2.find (sid, t.id) = some bt ∧ bt.info = .dataTemplateInfo ti ∧
    ti.fixedValues = Topas.fixedValues t.data t.values
  next : s.1 = th + t.encode.length
  delivers : Delivers E n sid set tb .dataTemplate ds

section Decoded

variable {E E' : Env} {n sid set th set' : Nat} {ci : CallbackInfo} {tb₀ tb : TemplateBuffer}
  {l : List Event} {s : Nat × TemplateBuffer} {ops : List SetStep} {t : DataTemplate}

theorem dataArrays_iff (hth : Holds E.mem th t.encode)
    (hstep : (Rcv.dataTemplateStep E sid set th tb₀).Returns l s) :
    (∀ e ∈ l, e.InArray) ↔ t.data.length ≤ t.fields.length := by
  have hpos := t.fields_pos
  obtain ⟨-, hcount, hcount', -⟩ := dataTemplate_at hth
  obtain ⟨a, hstores⟩ := @stores_dataTemplateStep E tb₀ sid set th (by omega)
  rw [← hstep.always_iff, hstores.always_iff, hcount, hcount']

theorem find_dataTemplateStep (hset : set ≤ th) (hth : Holds E.mem th t.encode)
    (hstep : (Rcv.dataTemplateStep E sid set th tb₀).Returns l s) :
    s.2.find (sid, t.id) = some (entryAt E sid set th .dataTemplate) := by
  have hpos := t.fields_pos
  obtain ⟨hid, hcount, -⟩ := dataTemplate_at hth
  rw [← hid]
  exact find_of_stepOf (k := .dataTemplate) hset (by omega) hstep

/-- The fixed values, and where the next template is looked for. -/
theorem dataBlock_iff (hset : set ≤ th) (hth : Holds E.mem th t.encode)
    (hstep : (Rcv.dataTemplateStep E sid set th tb₀).Returns l s) :
    ((∃ bt ti, s.2.find (sid, t.id) = some bt ∧ bt.info = .dataTemplateInfo ti ∧
        ti.fixedValues = fixedValues t.data t.values) ∧ s.1 = th + t.encode.length) ↔
      65535 ∉ t.data.map Field.length := by
  have hfind := find_dataTemplateStep hset hth hstep
  rw [← fixedValues_iff hth, (template_returns (k := .dataTemplate) (x := s.1) hset hstep).1]
  refine and_congr_left fun _ => ⟨?_, fun hv => ⟨_, _, hfind, rfl, hv⟩⟩
  rintro ⟨bt, ti, hbt, hti, hv⟩
  rw [hfind, Option.some.injEq] at hbt
  subst hbt
  cases hti
  exact hv

theorem dataDelivers_iff (ds : DataSet t.id [] t.fields) (hsound : tb₀.Sound) (hset : set ≤ th)
    (htag : be16 E.mem set = IPFIX_SetId_DataTemplate) (hth : Holds E.mem th t.encode)
    (hstep : (Rcv.dataTemplateStep E sid set th tb₀).Returns l s)
    (hrun : setSteps.Run s.2 ops tb) (hops : ∀ op ∈ ops, ¬ op.Renews (sid, t.id))
    (hds : Holds E'.mem set' ds.encode) (hn : E'.parser.callbackInfo[n]? = some ci)
    (hci : ci.dataDataRecordCallbackFunction = true) :
    Delivers E' n sid set' tb .dataTemplate ds ↔
      ds.padding = [] ∧ ∀ r ∈ ds.records, Legible t.fields r.fieldValues := by
  obtain ⟨hid, hcount, -⟩ := dataTemplate_at hth
  have hentered := @entered_dataTemplate E sid set th t hth
  have hpos := t.fields_pos
  have hfound :=
    delivers_inForce (n := n) (k := .dataTemplate) (by decide) hsound hset htag (by omega) hid
    hentered hstep hrun hops ds hds hn
    fun info hinfo length data => by cases info <;> first | exact hci | cases hinfo
  have hscopes : (entryAt E sid set th .dataTemplate).info.scopes.map (·.type.eid) =
      ([] : List Field).map Field.eid := rfl
  rw [hfound]
  refine and_congr_right fun _ => forall₂_congr fun r _ => ?_
  refine ⟨?_, fun hl => ⟨hscopes, .inr ⟨rfl, hl⟩⟩⟩
  rintro ⟨-, hfix | ⟨-, hl⟩⟩
  · exact legible_of_fixed hfix r.fieldValues
  · exact hl

/-- A data template, processed in any buffer, and a data set of it while the template is in force:
they are decoded exactly when there are at most as many fixed values as fields, no fixed value has
varying length, there is no padding, and the length prefixes of the records read the same in
either byte order. -/
theorem dataTemplate_decoded_iff (t : DataTemplate) (ds : DataSet t.id [] t.fields)
    (hreach : setSteps.Reachable tb₀) (hset : set ≤ th)
    (htag : be16 E.mem set = IPFIX_SetId_DataTemplate) (hth : Holds E.mem th t.encode)
    (hstep : (Rcv.dataTemplateStep E sid set th tb₀).Returns l s)
    (hrun : setSteps.Run s.2 ops tb) (hops : ∀ op ∈ ops, ¬ op.Renews (sid, t.id))
    (hds : Holds E'.mem set' ds.encode) (hn : E'.parser.callbackInfo[n]? = some ci)
    (hci : ci.dataDataRecordCallbackFunction = true) :
    DataTemplateDecoded t l s sid th E' n set' tb ds ↔
      t.data.length ≤ t.fields.length ∧ 65535 ∉ t.data.map Field.length ∧
      ds.padding = [] ∧ ∀ r ∈ ds.records, Legible t.fields r.fieldValues := by
  rw [← dataArrays_iff hth hstep, ← dataBlock_iff hset hth hstep,
    ← dataDelivers_iff (n := n) ds (sound_setSteps hreach) hset htag hth hstep hrun hops hds hn hci]
  refine ⟨?_, ?_⟩
  · intro h
    exact ⟨h.inArray, ⟨h.fixedValues, h.next⟩, h.delivers⟩
  · rintro ⟨hin, ⟨hvalues, hnext⟩, hdel⟩
    exact ⟨hin, hvalues, hnext, hdel⟩

end Decoded

/-! ### Fixed addresses -/

/-- The set with the template, in an environment. -/
abbrev DataTemplate.env (t : DataTemplate) : Env :=
  envOf (templateSet IPFIX_SetId_DataTemplate t.encode)

/-- The protocol, one byte. -/
def protocolField : Field := .ofWords 4 1 0

/-- A record with the protocol 6. -/
def protocolSet : DataSet 256 [] [protocolField] where
  records := [⟨[], [⟨[6], false⟩], trivial, ⟨rfl, trivial⟩⟩]
  padding := []
  padding_lt := by decide
  length_lt := by decide

/-- Flows from the address 10.0.0.1. -/
def fixedAddress : DataTemplate where
  id := 256
  preceding := 0
  fields := [protocolField]
  data := [.ofWords 8 4 0]
  values := [⟨[10, 0, 0, 1], false⟩]
  id_lt := leastId_lt
  preceding_lt := by decide
  fields_pos := by decide
  valuesFit := ⟨rfl, trivial⟩
  length_lt := by decide

/-- Flows between two addresses: two fixed values, and one field. -/
def fixedAddresses : DataTemplate where
  id := 256
  preceding := 0
  fields := [protocolField]
  data := [.ofWords 8 4 0, .ofWords 12 4 0]
  values := [⟨[10, 0, 0, 1], false⟩, ⟨[10, 0, 0, 2], false⟩]
  id_lt := leastId_lt
  preceding_lt := by decide
  fields_pos := by decide
  valuesFit := ⟨rfl, rfl, trivial⟩
  length_lt := by decide

/-- Flows through the interface "A", a name of varying length. -/
def fixedName : DataTemplate where
  id := 256
  preceding := 0
  fields := [protocolField]
  data := [.ofWords 82 65535 0]
  values := [⟨[65], false⟩]
  id_lt := leastId_lt
  preceding_lt := by decide
  fields_pos := by decide
  valuesFit := ⟨by unfold Value.Fits; decide, trivial⟩
  length_lt := by decide

theorem dataTemplate_decoded_address :
    ∃ l s, (Rcv.dataTemplateStep fixedAddress.env 1 0 4 []).Returns l s ∧
      DataTemplateDecoded fixedAddress l s 1 4 (envOf protocolSet.encode) 0 0 s.2 protocolSet := by
  obtain ⟨l, s, hl⟩ := returns_stepOf fixedAddress.env .dataTemplate 1 []
  obtain ⟨htag, hth⟩ := holds_templateSet IPFIX_SetId_DataTemplate (by decide) fixedAddress.encode
  refine
    ⟨l, s, hl,
      (dataTemplate_decoded_iff fixedAddress protocolSet (.init rfl) (Nat.zero_le 4) htag hth hl
    (.nil _) (fun _ hop => nomatch hop) (holds_ofList _ _) rfl rfl).mpr ?_⟩
  refine ⟨by decide, by decide, rfl, fun r _ => legible_of_fixed (by decide) r.fieldValues⟩

/-- **Counterexample**: with two fixed values and one field, the second value is written behind the
array; behind a fixed value of varying length, the next template is looked for a byte too early. -/
theorem dataTemplate_not_decoded :
    (∀ l s, (Rcv.dataTemplateStep fixedAddresses.env 1 0 4 []).Returns l s → ¬ ∀ e ∈ l, e.InArray) ∧
    ¬ ∀ (E E' : Env) (n sid set th set' : Nat) (ci : CallbackInfo) (tb₀ tb : TemplateBuffer)
    (l : List Event)
      (s : Nat × TemplateBuffer) (ops : List SetStep) (t : DataTemplate)
      (ds : DataSet t.id [] t.fields),
      setSteps.Reachable tb₀ → set ≤ th → be16 E.mem set = IPFIX_SetId_DataTemplate →
      Holds E.mem th t.encode → (Rcv.dataTemplateStep E sid set th tb₀).Returns l s →
      setSteps.Run s.2 ops tb → (∀ op ∈ ops, ¬ op.Renews (sid, t.id)) →
      Holds E'.mem set' ds.encode →
      E'.parser.callbackInfo[n]? = some ci → ci.dataDataRecordCallbackFunction = true →
      DataTemplateDecoded t l s sid th E' n set' tb ds := by
  refine ⟨?_, ?_⟩
  · intro l s hl hin
    obtain ⟨-, hth⟩ := holds_templateSet IPFIX_SetId_DataTemplate (by decide) fixedAddresses.encode
    exact absurd ((dataArrays_iff hth hl).mp hin) (by decide)
  · intro hall
    obtain ⟨l, s, hl⟩ := returns_stepOf fixedName.env .dataTemplate 1 []
    obtain ⟨htag, hth⟩ := holds_templateSet IPFIX_SetId_DataTemplate (by decide) fixedName.encode
    have hds : Holds (envOf protocolSet.encode).mem 0 protocolSet.encode := holds_ofList _ _
    have h :=
      hall _ _ 0 _ _ _ _ _ _ _ _ _ _ fixedName protocolSet (.init rfl) (Nat.zero_le 4) htag hth hl
      (.nil _) (fun _ hop => nomatch hop) hds rfl rfl
    exact absurd ((dataBlock_iff (Nat.zero_le 4) hth hl).mp ⟨h.fixedValues, h.next⟩) (by decide)

end Topas
