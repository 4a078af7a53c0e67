import Topas.L2Parser.InForce
import Topas.L2Parser.Decode
import Topas.L2Parser.Offsets

/-!
# Records of options templates and data templates

A `DataSet` is what an exporter sends for a template with scopes and fields (data templates have
no scopes), a `Delivery` what a record callback is handed: each field with its ids, its offset and
its length. `Serves` relates a stored template to the one that was sent.

The two kinds share their record loops: no test for a full record, and length prefixes of two
bytes in the order of the host. `delivers_iff` is when the records of a data set are handed out,
each once and all as they were sent.
-/
namespace Topas

open Mem Proc Layout

/-! ## What a record callback is handed -/

/-- A field of a record. -/
structure Place where
  id : Nat
  eid : Nat
  offset : Nat
  length : Nat
  deriving DecidableEq, Repr

def FieldInfo.place (fi : FieldInfo) : Place := ⟨fi.type.id, fi.type.eid, fi.offset, fi.type.length⟩

structure Delivery where
  kind : Kind
  sourceID : Nat
  templateID : Nat
  scopes : List Place
  fields : List Place
  length : Nat
  data : Nat
  deriving DecidableEq, Repr

namespace Info

def templateID : Info → Nat
  | .templateInfo ti => ti.templateId
  | .optionsTemplateInfo ti => ti.templateId
  | .dataTemplateInfo ti => ti.id

def scopes : Info → List FieldInfo
  | .optionsTemplateInfo ti => ti.scopeInfo
  | _ => []

/-- The fields that are no scopes. -/
def regular : Info → List FieldInfo
  | .templateInfo ti => ti.fieldInfo
  | .optionsTemplateInfo ti => ti.fieldInfo
  | .dataTemplateInfo ti => ti.fieldInfo

def delivery (sid : Nat) (info : Info) (length data : Nat) : Delivery :=
  ⟨info.kind, sid, info.templateID, info.scopes.map FieldInfo.place,
    info.regular.map FieldInfo.place,
    length, data⟩

end Info

def Call.delivery (sid : Nat) : Call → List Delivery
  | .dataRecord ti length data => [(Info.templateInfo ti).delivery sid length data]
  | .optionsRecord ti length data => [(Info.optionsTemplateInfo ti).delivery sid length data]
  | .dataDataRecord ti length data => [(Info.dataTemplateInfo ti).delivery sid length data]
  | _ => []

/-- The records that callback set number `n` is handed. -/
def Event.delivered (n : Nat) : Event → List Delivery := Event.viewed Call.delivery n

theorem delivery_recordCall {info : Info} {sid length data : Nat} :
    (info.recordCall length data).delivery sid = [info.delivery sid length data] := by
  cases info <;> rfl

/-! ## What is sent -/

/-- The bytes in front of a value. -/
def Value.head (f : Field) (v : Value) : Nat :=
  if f.isVariable then if v.long then 3 else 1 else 0

theorem Value.length_encode (f : Field) (v : Value) :
    (v.encode f).length = v.head f + v.bytes.length := by
  unfold Value.encode Value.head
  split
  · split <;> simp only [List.length_append, List.length_cons, List.length_nil, length_enc16]
  · simp

/-- The fields of a record with these values, the first `offset` bytes into it. -/
def places : List Field → List Value → Nat → List Place
  | f :: fs, v :: vs, offset =>
    ⟨f.id, f.eid, offset + v.head f, v.bytes.length⟩ :: places fs vs (offset + (v.encode f).length)
  | _, _, _ => []

/-- A record of a template with these scopes and fields. -/
structure ScopedRecord (scopes fields : List Field) where
  scopeValues : List Value
  fieldValues : List Value
  scopesFit : ValuesFit scopes scopeValues
  fieldsFit : ValuesFit fields fieldValues

namespace ScopedRecord

variable {scopes fields : List Field} (r : ScopedRecord scopes fields)

def encode : List UInt8 := encodeValues scopes r.scopeValues ++ encodeValues fields r.fieldValues

/-- What the callback is to be handed for the record at `data`. -/
def delivery (k : Kind) (sid id data : Nat) : Delivery :=
  ⟨k, sid, id, places scopes r.scopeValues 0,
    places fields r.fieldValues (encodeValues scopes r.scopeValues).length, r.encode.length, data⟩

end ScopedRecord

/-- A value of varying length has at least its length prefix. -/
def Field.least (f : Field) : Nat := if f.isVariable then 1 else f.length

/-- A data set for the template `id`; padding is shorter than any record. -/
structure DataSet (id : Nat) (scopes fields : List Field) where
  records : List (ScopedRecord scopes fields)
  padding : List UInt8
  padding_lt : padding.length < ((scopes ++ fields).map Field.least).sum
  length_lt : 4 + (records.flatMap ScopedRecord.encode ++ padding).length < 65536

namespace DataSet

variable {id : Nat} {scopes fields : List Field} (ds : DataSet id scopes fields)

def content : List UInt8 := ds.records.flatMap ScopedRecord.encode ++ ds.padding

def encode : List UInt8 := enc16 id ++ enc16 (4 + ds.content.length) ++ ds.content

end DataSet

/-- The records one behind the other from `data` on. -/
def deliveries {scopes fields : List Field} (k : Kind) (sid id : Nat) :
    List (ScopedRecord scopes fields) → Nat → List Delivery
  | [], _ => []
  | r :: rs, data => r.delivery k sid id data :: deliveries k sid id rs (data + r.encode.length)

/-- Callback set number `n` is handed the records of the data set at `set`, and nothing else. -/
def Delivers (E : Env) (n sid set : Nat) (tb : TemplateBuffer) (k : Kind) {id : Nat}
    {scopes fields : List Field} (ds : DataSet id scopes fields) : Prop :=
  ∃ l tb', (Rcv.processDataSet E sid set tb).Returns l tb' ∧
    l.flatMap (Event.delivered n) = deliveries k sid id ds.records (set + 4)

/-- Length prefixes of two bytes that read the same in either order. -/
def Legible : List Field → List Value → Prop
  | f :: fs, v :: vs =>
    (f.isVariable = true → v.long = true → v.bytes.length / 256 = v.bytes.length % 256) ∧
      Legible fs vs
  | _, _ => True

theorem legible_of_fixed {fs : List Field} (h : 65535 ∉ fs.map Field.length) (vs : List Value) :
    Legible fs vs := by
  induction fs generalizing vs with
  | nil => trivial
  | cons f fs ih =>
    cases vs with
    | nil => trivial
    | cons v vs =>
      simp only [List.map_cons, List.mem_cons, not_or] at h
      refine ⟨fun hv => absurd (beq_iff_eq.mp hv).symm h.1, ih h.2 vs⟩

theorem least_le_encodeValues {fs : List Field} {vs : List Value} (h : ValuesFit fs vs) :
    (fs.map Field.least).sum ≤ (encodeValues fs vs).length := by
  induction fs generalizing vs with
  | nil => exact Nat.zero_le _
  | cons f fs ih =>
    cases vs with
    | nil => exact h.elim
    | cons v vs =>
      obtain ⟨hfit, hrest⟩ := h
      have hle := ih hrest
      have hhead : f.least ≤ (v.encode f).length := by
        rw [Value.length_encode]
        unfold Field.least Value.head
        unfold Value.Fits at hfit
        cases hv : f.isVariable
        · simp only [hv, Bool.false_eq_true, if_false] at hfit ⊢; omega
        · simp only [if_true]; split <;> omega
      rw [encodeValues, List.map_cons, List.sum_cons, List.length_append]
      omega

theorem fixed_encodeValues {fs : List Field} {vs : List Value} (h : ValuesFit fs vs)
    (hfix : 65535 ∉ fs.map Field.length) :
    (encodeValues fs vs).length = (fs.map Field.length).sum := by
  induction fs generalizing vs with
  | nil => cases vs <;> rfl
  | cons f fs ih =>
    cases vs with
    | nil => exact h.elim
    | cons v vs =>
      obtain ⟨hfit, hrest⟩ := h
      simp only [List.map_cons, List.mem_cons, not_or] at hfix
      have hvar : f.isVariable = false := beq_eq_false_iff_ne.mpr fun e => hfix.1 e.symm
      unfold Value.Fits at hfit
      rw [hvar, if_neg Bool.false_ne_true] at hfit
      rw [encodeValues, List.length_append, ih hrest hfix.2, Value.length_encode, Value.head, hvar,
        if_neg Bool.false_ne_true, hfit, List.map_cons, List.sum_cons, Nat.zero_add]

theorem ScopedRecord.least_le {scopes fields : List Field} (r : ScopedRecord scopes fields) :
    ((scopes ++ fields).map Field.least).sum ≤ r.encode.length := by
  have h1 := least_le_encodeValues r.scopesFit
  have h2 := least_le_encodeValues r.fieldsFit
  rw [ScopedRecord.encode, List.map_append, List.sum_append, List.length_append]
  omega

/-! ## The stored template -/

/-- The infos of scopes; an enterprise id may be missing. -/
def DescribesScopes : List FieldInfo → List Field → Prop
  | [], [] => True
  | fi :: fis, f :: fs =>
    fi.type.id = f.id ∧ fi.type.isVariableLength = f.isVariable ∧
      (f.isVariable = true → fi.type.length = 65535) ∧ DescribesScopes fis fs
  | _, _ => False

theorem describesScopes_offsetsFor {ls : List Nat} {fis : List FieldInfo} {fs : List Field}
    (h : DescribesScopes fis fs) : DescribesScopes (offsetsFor ls fis) fs := by
  unfold offsetsFor
  split
  · induction fis generalizing fs with
    | nil => exact h
    | cons fi fis ih =>
      cases fs with
      | nil => exact h
      | cons f fs => exact ⟨h.1, h.2.1, h.2.2.1, ih h.2.2.2⟩
  · exact h

/-- The stored template has these scopes and fields. -/
structure Info.Serves (info : Info) (k : Kind) (id : Nat) (scopes fields : List Field) : Prop where
  kind : info.kind = k
  templateID : info.templateID = id
  scopes : DescribesScopes info.scopes scopes
  fields : Describes info.regular fields

section Locate

variable {m : Mem} {k : Kind} {record : Nat}

theorem describes_located {fis : List FieldInfo} {fs : List Field} (h : Describes fis fs)
    (rl : Nat) :
    Describes (located m k (·.type.isVariableLength) record fis rl).1 fs := by
  induction fis generalizing fs rl with
  | nil => exact h
  | cons fi fis ih =>
    cases fs with
    | nil => exact h
    | cons f fs =>
      obtain ⟨hid, heid, hvar, hlen, hrest⟩ := h
      refine ⟨hid, heid, hvar, fun hv => ?_, ih hrest _⟩
      simp only [valueLength, hvar, hv, Bool.false_eq_true, if_false]
      exact hlen hv

/-- Scopes of varying length keep the length 65535. -/
theorem describesScopes_located {fis : List FieldInfo} {fs : List Field}
    (h : DescribesScopes fis fs)
    (rl : Nat) : DescribesScopes (located m k (!·.type.isVariableLength) record fis rl).1 fs := by
  induction fis generalizing fs rl with
  | nil => exact h
  | cons fi fis ih =>
    cases fs with
    | nil => exact h
    | cons f fs =>
      obtain ⟨hid, hvar, hlen, hrest⟩ := h
      refine ⟨hid, hvar, fun hv => ?_, ih hrest _⟩
      simp only [valueLength, hvar, hv, Bool.not_true, Bool.false_eq_true, if_false]
      exact hlen hv

theorem map_eid_located {prefixed : FieldInfo → Bool} {fis : List FieldInfo} {rl : Nat} :
    (located m k prefixed record fis rl).1.map (·.type.eid) = fis.map (·.type.eid) := by
  induction fis generalizing rl with
  | nil => rfl
  | cons fi fis ih => rw [located, List.map_cons, List.map_cons, ih]

namespace Info

variable {info : Info} {id : Nat} {scopes fields : List Field}

theorem scopes_locate (info : Info) (a : Nat) :
    (info.locate m a).1.scopes =
      (located m info.kind (!·.type.isVariableLength) a info.scopes 0).1 := by
  cases info <;> rfl

theorem regular_locate (info : Info) (a : Nat) :
    ((info.locate m a).1.regular, (info.locate m a).2) =
      located m info.kind (·.type.isVariableLength) a info.regular
        (located m info.kind (!·.type.isVariableLength) a info.scopes 0).2 := by
  cases info <;> rfl

theorem serves_locate (h : info.Serves k id scopes fields) (m : Mem) (a : Nat) :
    (info.locate m a).1.Serves k id scopes fields := by
  refine ⟨(kind_locate info a).trans h.kind, ?_, ?_, ?_⟩
  · rw [← h.templateID]; cases info <;> rfl
  · rw [scopes_locate]
    exact describesScopes_located h.scopes 0
  · rw [show (info.locate m a).1.regular = _ from congrArg Prod.fst (regular_locate info a)]
    exact describes_located h.fields _

theorem map_eid_locate (info : Info) (m : Mem) (a : Nat) :
    (info.locate m a).1.scopes.map (·.type.eid) = info.scopes.map (·.type.eid) := by
  rw [scopes_locate, map_eid_located]

end Info

end Locate

/-! ## Records of varying length -/

section Varying

variable {m : Mem} {k : Kind} {record : Nat}

theorem read16_of_ne (hk : k ≠ .template) (a : Nat) : read16 k m a = le16 m a := by
  cases k with
  | template => exact absurd rfl hk
  | optionsTemplate => rfl
  | dataTemplate => rfl

theorem le16_of_enc16 {a n : Nat} (h : Holds m a (enc16 n)) (hn : n < 65536) :
    le16 m a = n / 256 + n % 256 * 256 := by
  simp only [enc16, holds_cons, holds_nil, and_true] at h
  rw [le16, h.1, h.2]
  simp only [UInt8.toNat_ofNat', Nat.reducePow]; omega

/-- A value starts where it was put, and has its length when the prefix is legible. -/
theorem valueAt_iff (hk : k ≠ .template) {fi : FieldInfo} {f : Field} {v : Value} {rl : Nat}
    (h : Holds m (record + rl) (v.encode f)) (hfit : v.Fits f)
    (hvar : fi.type.isVariableLength = f.isVariable)
    (hlen : f.isVariable = false → fi.type.length = f.length) :
    valueStart m (·.type.isVariableLength) record fi rl = rl + v.head f ∧
    (valueLength m k (·.type.isVariableLength) record fi rl = v.bytes.length ↔
      (f.isVariable = true → v.long = true → v.bytes.length / 256 = v.bytes.length % 256)) := by
  unfold valueLength valueStart Value.head
  unfold Value.encode at h
  unfold Value.Fits at hfit
  simp only [hvar]
  cases hv : f.isVariable
  · simp only [hv, Bool.false_eq_true, if_false] at hfit ⊢
    refine ⟨rfl, iff_of_true ?_ fun hno => nomatch hno⟩
    rw [hlen hv, hfit]
  · simp only [hv, if_true] at h hfit ⊢
    unfold prefixLength prefixSize
    cases hlong : v.long
    · simp only [hlong, Bool.false_eq_true, if_false, List.cons_append, List.nil_append, holds_cons]
        at h hfit ⊢
      have hbyte : (m (record + rl)).toNat = v.bytes.length := by
        rw [h.1, UInt8.toNat_ofNat']; omega
      have hne : v.bytes.length ≠ 255 := by omega
      rw [hbyte, if_neg hne, if_neg hne]
      exact ⟨rfl, iff_of_true rfl fun _ hno => nomatch hno⟩
    · simp only [hlong, if_true, List.cons_append, holds_cons, holds_append,
        length_enc16] at h hfit ⊢
      have hbyte : (m (record + rl)).toNat = 255 := by rw [h.1]; rfl
      rw [hbyte, if_pos rfl, if_pos rfl, read16_of_ne hk, le16_of_enc16 h.2.1 hfit]
      refine ⟨rfl, ?_⟩
      simp only [true_imp_iff]
      omega

/-- The fields of a record are found exactly when their length prefixes are legible. -/
theorem places_located_iff (hk : k ≠ .template) {fis : List FieldInfo} {fs : List Field}
    {vs : List Value} {rl : Nat} (h : Holds m (record + rl) (encodeValues fs vs))
    (hfit : ValuesFit fs vs)
    (hd : Describes fis fs) (hlt : rl + (encodeValues fs vs).length < 65536) :
    ((located m k (·.type.isVariableLength) record fis rl).1.map FieldInfo.place = places fs vs rl ↔
      Legible fs vs) ∧
    (Legible fs vs → (located m k (·.type.isVariableLength) record fis rl).2 =
      rl + (encodeValues fs vs).length) := by
  induction fis, fs, vs, hd, hfit using describes_induction generalizing rl with
  | nil => exact ⟨iff_of_true rfl trivial, fun _ => rfl⟩
  | cons fi fis f fs v vs hd hfit ih =>
    obtain ⟨hid, heid, hvar, hlen, -⟩ := hd
    obtain ⟨hfit1, -⟩ := hfit
    rw [encodeValues, List.length_append] at hlt
    rw [encodeValues, holds_append, Nat.add_assoc] at h
    obtain ⟨hstart, hlength⟩ := valueAt_iff hk h.1 hfit1 hvar hlen
    have hsize := Value.length_encode f v
    have hoff : (rl + v.head f) % 65536 = rl + v.head f := Nat.mod_eq_of_lt (by omega)
    obtain ⟨hplaces, hend⟩ := @ih (rl + (v.encode f).length) h.2 (by omega)
    have hhead : (valueStart m (·.type.isVariableLength) record fi rl +
        valueLength m k (·.type.isVariableLength) record fi rl = rl + (v.encode f).length) ↔
        valueLength m k (·.type.isVariableLength) record fi rl = v.bytes.length := by
      rw [hstart, hsize]; omega
    rw [located, places, encodeValues, Legible, ← hlength]
    refine ⟨?_, ?_⟩
    · rw [List.map_cons, List.cons.injEq]
      simp only [FieldInfo.place, Place.mk.injEq, hid, heid, hstart, hoff, true_and]
      refine and_congr_right fun hl => ?_
      rw [← hstart, hhead.mpr hl]
      exact hplaces
    · intro hlegible
      obtain ⟨hl, hrest⟩ := hlegible
      simp only
      rw [hhead.mpr hl, hend hrest, List.length_append, Nat.add_assoc]

/-- A scope is not found in a record of varying length. -/
theorem places_scopes_ne {fis : List FieldInfo} {fs : List Field} {vs : List Value}
    (hfit : ValuesFit fs vs) (hd : DescribesScopes fis fs)
    (hlt : (encodeValues fs vs).length < 65535) (hne : fs ≠ []) :
    (located m k (!·.type.isVariableLength) record fis 0).1.map FieldInfo.place ≠
      places fs vs 0 := by
  cases fs with
  | nil => exact absurd rfl hne
  | cons f fs =>
    cases fis with
    | nil => exact hd.elim
    | cons fi fis =>
      cases vs with
      | nil => exact hfit.elim
      | cons v vs =>
        obtain ⟨-, hvar, hlen, -⟩ := hd
        have hsize := Value.length_encode f v
        rw [encodeValues, List.length_append] at hlt
        rw [located, places, List.map_cons]
        intro heq
        have hp := List.head_eq_of_cons_eq heq
        simp only [FieldInfo.place, Place.mk.injEq] at hp
        obtain ⟨-, -, hoffset, hlength⟩ := hp
        cases hv : f.isVariable
        · -- a fixed scope is looked for behind a length prefix
          simp only [valueStart, Value.head, hvar, hv, Bool.not_false, if_true, Bool.false_eq_true,
            if_false, prefixSize] at hoffset
          split at hoffset <;> omega
        · -- a varying one is taken to have 65535 bytes
          simp only [valueLength, hvar, hv, Bool.not_true, Bool.false_eq_true, if_false,
            hlen hv] at hlength
          omega

end Varying

/-! ## Records of fixed length -/

section Fixed

theorem map_id_of_describes {fis : List FieldInfo} {fs : List Field} (h : Describes fis fs) :
    fis.map (·.type.id) = fs.map Field.id ∧ fis.map (·.type.eid) = fs.map Field.eid := by
  induction fis generalizing fs with
  | nil =>
    cases fs with
    | nil => exact ⟨rfl, rfl⟩
    | cons f fs => exact h.elim
  | cons fi fis ih =>
    cases fs with
    | nil => exact h.elim
    | cons f fs =>
      obtain ⟨hid, heid, -, -, hrest⟩ := h
      simp only [List.map_cons, hid, heid, ih hrest, and_self]

theorem map_id_of_describesScopes {fis : List FieldInfo} {fs : List Field}
    (h : DescribesScopes fis fs) :
    fis.map (·.type.id) = fs.map Field.id := by
  induction fis generalizing fs with
  | nil =>
    cases fs with
    | nil => rfl
    | cons f fs => exact h.elim
  | cons fi fis ih =>
    cases fs with
    | nil => exact h.elim
    | cons f fs =>
      obtain ⟨hid, -, -, hrest⟩ := h
      simp only [List.map_cons, hid, ih hrest]

/-- Fields that are placed one behind the other are found, up to their enterprise ids. -/
theorem places_placed_iff {fis : List FieldInfo} {fs : List Field} {vs : List Value} {o : Nat}
    (hids : fis.map (·.type.id) = fs.map Field.id)
    (hlens : fis.map (·.type.length) = fs.map Field.length) (hp : Placed o fis)
    (hfit : ValuesFit fs vs) (hfix : 65535 ∉ fs.map Field.length)
    (hlt : o + (fs.map Field.length).sum < 65536) :
    fis.map FieldInfo.place = places fs vs o ↔ fis.map (·.type.eid) = fs.map Field.eid := by
  induction fs generalizing fis vs o with
  | nil =>
    rw [List.map_nil, List.map_eq_nil_iff] at hids
    subst hids
    cases vs <;> exact iff_of_true rfl rfl
  | cons f fs ih =>
    cases fis with
    | nil => cases hids
    | cons fi fis =>
      cases vs with
      | nil => exact hfit.elim
      | cons v vs =>
        simp only [List.map_cons, List.cons.injEq] at hids hlens
        simp only [List.map_cons, List.mem_cons, not_or] at hfix
        obtain ⟨hfit1, hfit⟩ := hfit
        obtain ⟨hoff, hp⟩ := hp
        have hvar : f.isVariable = false := beq_eq_false_iff_ne.mpr fun e => hfix.1 e.symm
        unfold Value.Fits at hfit1
        rw [hvar, if_neg Bool.false_ne_true] at hfit1
        rw [List.map_cons, List.sum_cons] at hlt
        have hsize : (v.encode f).length = f.length := by
          rw [Value.length_encode, Value.head, hvar, if_neg Bool.false_ne_true, hfit1, Nat.zero_add]
        rw [hlens.1] at hp
        rw [Nat.mod_eq_of_lt (by omega)] at hoff
        have htail := @ih fis vs (o + f.length) hids.2 hlens.2 hp hfit hfix.2 (by omega)
        rw [places, List.map_cons, List.map_cons, List.map_cons, List.cons.injEq,
          List.cons.injEq, hsize,
          htail]
        simp only [FieldInfo.place, Place.mk.injEq, hids.1, hlens.1, hoff, hfit1, Value.head, hvar,
          Bool.false_eq_true, if_false, Nat.add_zero, true_and, and_true]

end Fixed

/-! ## A data set -/

section DataSet

variable {E : Env} {n sid set id : Nat} {ci : CallbackInfo} {tb : TemplateBuffer}
    {bt : BufferedTemplate}
  {k : Kind} {scopes fields : List Field}

/-- The entry of a template that was sent. -/
structure Entered (bt : BufferedTemplate) (k : Kind) (id : Nat) (scopes fields : List Field) :
    Prop where
  recordLength : bt.recordLength = storedLength ((scopes ++ fields).map Field.length)
  serves : bt.info.Serves k id scopes fields
  lengths : bt.recordLength < 65535 →
    bt.info.fields.map (·.type.length) = (scopes ++ fields).map Field.length

theorem Info.fields_eq (info : Info) : info.fields = info.scopes ++ info.regular := by
  cases info <;> rfl

/-- The template as record number `j` finds it. -/
structure Reaches (bt : BufferedTemplate) (k : Kind) (id : Nat) (scopes fields : List Field)
    (info : Info) : Prop where
  serves : info.Serves k id scopes fields
  eids : info.scopes.map (·.type.eid) = bt.info.scopes.map (·.type.eid)

theorem reaches_recordInfo (hs : Entered bt k id scopes fields) (set : Nat) (m : Mem) (j : Nat) :
    Reaches bt k id scopes fields (recordInfo bt set m j) :=
  (relocated_recordInfo .refl m j).keeps (P := Reaches bt k id scopes fields)
    (fun m a i h => ⟨Info.serves_locate h.serves m a, (Info.map_eid_locate i m a).trans h.eids⟩)
    ⟨hs.serves, rfl⟩

/-- The record is handed out as it was sent. -/
def ScopedRecord.Found (r : ScopedRecord scopes fields) (eids : Prop) : Prop :=
  eids ∧ (65535 ∉ (scopes ++ fields).map Field.length ∨ scopes = [] ∧ Legible fields r.fieldValues)

/-- What the callbacks for record number `j` are handed. -/
def deliveryAt (bt : BufferedTemplate) (sid set : Nat) (m : Mem) (j : Nat) : Delivery :=
  (recordInfo bt set m (j + 1)).delivery sid (recordLengthAt bt set m j)
    (recordAt m bt.layout set j)

theorem record_fixed_iff (E : Env) (sid set : Nat) (hb : bt.Sound)
    (hs : Entered bt k id scopes fields)
    (r : ScopedRecord scopes fields) (hlt : r.encode.length < 65532)
    (hfix : 65535 ∉ (scopes ++ fields).map Field.length) (j : Nat) :
    (deliveryAt bt sid set E.mem j = r.delivery k sid id (recordAt E.mem bt.layout set j) ↔
      bt.info.scopes.map (·.type.eid) = scopes.map Field.eid) ∧
    recordAt E.mem bt.layout set (j + 1) = recordAt E.mem bt.layout set j + r.encode.length := by
  have hlay : bt.layout.recordLength = bt.recordLength := rfl
  have hfix' := hfix
  rw [List.map_append, List.mem_append, not_or] at hfix'
  have hscopes := fixed_encodeValues r.scopesFit hfix'.1
  have hfields := fixed_encodeValues r.fieldsFit hfix'.2
  have hsize : r.encode.length = (scopes.map Field.length).sum + (fields.map Field.length).sum := by
    rw [ScopedRecord.encode, List.length_append, hscopes, hfields]
  have hrl : bt.recordLength = r.encode.length := by
    rw [hs.recordLength, storedLength, if_neg hfix, List.map_append, List.sum_append, ← hsize]
    exact Nat.mod_eq_of_lt (by omega)
  have hrl' : bt.recordLength < 65535 := by omega
  have hlens := hs.lengths hrl'
  have hplaced := hb.placed hrl'
  rw [Info.fields_eq, List.map_append, List.map_append] at hlens
  rw [Info.fields_eq, placed_append] at hplaced
  have hids := map_id_of_describesScopes hs.serves.scopes
  obtain ⟨hids', heids'⟩ := map_id_of_describes hs.serves.fields
  obtain ⟨hl1, hl2⟩ := List.append_inj hlens (by simpa using congrArg List.length hids)
  rw [hl1, Nat.zero_add] at hplaced
  refine ⟨?_, by rw [recordAt, next, if_pos (by omega), hlay, hrl]⟩
  have h1 := places_placed_iff hids hl1 hplaced.1 r.scopesFit hfix'.1 (by omega)
  have h2 := (places_placed_iff hids' hl2 hplaced.2 r.fieldsFit hfix'.2 (by omega)).mpr heids'
  unfold deliveryAt ScopedRecord.delivery Info.delivery
  rw [recordInfo, if_pos hrl', recordLengthAt, if_pos hrl', Delivery.mk.injEq, h1, h2, hscopes]
  simp only [hs.serves.kind, hs.serves.templateID, hrl, and_true, true_and]

theorem record_varying_iff (sid : Nat) (hk : k ≠ .template) (hs : Entered bt k id scopes fields)
    (r : ScopedRecord scopes fields) {j : Nat}
    (h : Holds E.mem (recordAt E.mem bt.layout set j) r.encode)
    (hlt : r.encode.length < 65532) (hvar : 65535 ∈ (scopes ++ fields).map Field.length) :
    (deliveryAt bt sid set E.mem j = r.delivery k sid id (recordAt E.mem bt.layout set j) ↔
      scopes = [] ∧ Legible fields r.fieldValues) ∧
    (scopes = [] ∧ Legible fields r.fieldValues →
      recordAt E.mem bt.layout set (j + 1) = recordAt E.mem bt.layout set j + r.encode.length) := by
  have hlay : bt.layout.recordLength = bt.recordLength := rfl
  have hrl : bt.recordLength = 65535 := by rw [hs.recordLength, storedLength, if_pos hvar]
  have hj := (reaches_recordInfo hs set E.mem j).serves
  have hnext : recordAt E.mem bt.layout set (j + 1) = recordAt E.mem bt.layout set j +
      ((recordInfo bt set E.mem j).locate E.mem (recordAt E.mem bt.layout set j)).2 := by
    rw [recordAt, next, if_neg (by omega), size_recordInfo hrl]
  have hregular := Info.regular_locate (m := E.mem) (recordInfo bt set E.mem j)
    (recordAt E.mem bt.layout set j)
  rw [hj.kind] at hregular
  have hlength : r.encode.length =
      (encodeValues scopes r.scopeValues).length + (encodeValues fields r.fieldValues).length := by
    rw [ScopedRecord.encode, List.length_append]
  by_cases hsc : scopes = []
  · subst hsc
    have hnone : (recordInfo bt set E.mem j).scopes = [] := by
      have := hj.scopes
      cases hi : (recordInfo bt set E.mem j).scopes with
      | nil => rfl
      | cons fi fis => rw [hi] at this; exact this.elim
    have henc : r.encode = encodeValues fields r.fieldValues := rfl
    rw [henc] at h hlt
    obtain ⟨hplaces, hend⟩ :=
      @places_located_iff E.mem k _ hk _ _ _ 0 h r.fieldsFit hj.fields (by omega)
    rw [hnone] at hregular
    replace hregular : _ = located E.mem k (·.type.isVariableLength)
      (recordAt E.mem bt.layout set j)
      (recordInfo bt set E.mem j).regular 0 := hregular
    rw [← hregular, Nat.zero_add] at hend
    rw [← hregular] at hplaces
    refine ⟨?_, fun hl => by rw [hnext, hend hl.2, henc]⟩
    unfold deliveryAt ScopedRecord.delivery Info.delivery
    rw [recordInfo, if_neg (by omega), recordLengthAt, if_neg (by omega), Delivery.mk.injEq,
      Info.scopes_locate, hnone, Info.kind_locate, hj.kind, (Info.serves_locate hj _ _).templateID]
    refine ⟨fun hd => ⟨rfl, hplaces.mp hd.2.2.2.2.1⟩, fun hl => ?_⟩
    refine ⟨rfl, rfl, rfl, rfl, hplaces.mpr hl.2, ?_, rfl⟩
    rw [hend hl.2, henc]
    exact Nat.mod_eq_of_lt (by omega)
  · refine ⟨iff_of_false ?_ (fun hl => hsc hl.1), fun hl => absurd hl.1 hsc⟩
    unfold deliveryAt ScopedRecord.delivery Info.delivery
    rw [recordInfo, if_neg (by omega), Delivery.mk.injEq, Info.scopes_locate]
    intro hd
    exact places_scopes_ne r.scopesFit hj.scopes (by omega) hsc hd.2.2.2.1

theorem record_iff (sid : Nat) (hk : k ≠ .template) (hb : bt.Sound)
    (hs : Entered bt k id scopes fields) (r : ScopedRecord scopes fields) {j : Nat}
    (h : Holds E.mem (recordAt E.mem bt.layout set j) r.encode) (hlt : r.encode.length < 65532) :
    (deliveryAt bt sid set E.mem j = r.delivery k sid id (recordAt E.mem bt.layout set j) ↔
      r.Found (bt.info.scopes.map (·.type.eid) = scopes.map Field.eid)) ∧
    (r.Found (bt.info.scopes.map (·.type.eid) = scopes.map Field.eid) →
      recordAt E.mem bt.layout set (j + 1) = recordAt E.mem bt.layout set j + r.encode.length) := by
  unfold ScopedRecord.Found
  by_cases hvar : 65535 ∈ (scopes ++ fields).map Field.length
  · obtain ⟨h1, h2⟩ := record_varying_iff sid hk hs r h hlt hvar
    simp only [hvar, not_true, false_or]
    refine ⟨h1.trans ⟨fun hl => ⟨?_, hl⟩, And.right⟩, fun hf => h2 hf.2⟩
    -- without scopes there are no enterprise ids of scopes
    have hscopes := hs.serves.scopes
    rw [hl.1] at hscopes ⊢
    cases hi : bt.info.scopes with
    | nil => rfl
    | cons fi fis => rw [hi] at hscopes; exact hscopes.elim
  · obtain ⟨h1, h2⟩ := record_fixed_iff E sid set hb hs r hlt hvar j
    simp only [hvar, not_false_eq_true, true_or, and_true]
    exact ⟨h1, fun _ => h2⟩

/-- Records from number `j` on: those of the loop against those that were sent. -/
theorem records_iff (sid : Nat) (hk : k ≠ .template) (hb : bt.Sound)
    (hs : Entered bt k id scopes fields)
    (hleast : 0 < ((scopes ++ fields).map Field.least).sum) (rs : List (ScopedRecord scopes fields))
    (X pad j c : Nat)
    (h : Holds E.mem (recordAt E.mem bt.layout set j) (rs.flatMap ScopedRecord.encode))
    (hX : recordAt E.mem bt.layout set j + (rs.flatMap ScopedRecord.encode).length + pad = X)
    (hlt : (rs.flatMap ScopedRecord.encode).length < 65532)
    (hmore : ∀ i, i < c → recordAt E.mem bt.layout set (j + i) < X)
    (hdone : X ≤ recordAt E.mem bt.layout set (j + c)) :
    ((List.range c).map fun i => deliveryAt bt sid set E.mem (j + i)) =
        deliveries k sid id rs (recordAt E.mem bt.layout set j) ↔
      pad = 0 ∧ ∀ r ∈ rs, r.Found (bt.info.scopes.map (·.type.eid) = scopes.map Field.eid) := by
  induction rs generalizing j c with
  | nil =>
    simp only [deliveries, List.map_eq_nil_iff, List.range_eq_nil, List.not_mem_nil, false_imp_iff,
      implies_true, and_true]
    simp only [List.flatMap_nil, List.length_nil] at hX
    refine ⟨?_, ?_⟩
    · rintro rfl
      rw [Nat.add_zero] at hdone
      omega
    · intro hpad
      refine Classical.byContradiction fun hc => ?_
      have := hmore 0 (Nat.pos_of_ne_zero hc)
      rw [Nat.add_zero] at this
      omega
  | cons r rs ih =>
    rw [List.flatMap_cons, holds_append] at h
    rw [List.flatMap_cons, List.length_append] at hX hlt
    have hpos := r.least_le
    cases c with
    | zero => rw [Nat.add_zero] at hdone; omega
    | succ c =>
      obtain ⟨hhead, hnext⟩ := record_iff sid hk hb hs r h.1 (by omega)
      have hstep : ∀ i, j + (i + 1) = j + 1 + i := fun i => by omega
      have htail : (List.range c).map ((fun i => deliveryAt bt sid set E.mem (j + i)) ∘ Nat.succ) =
          (List.range c).map fun i => deliveryAt bt sid set E.mem (j + 1 + i) :=
        List.map_congr_left fun i _ => congrArg _ (hstep i)
      rw [List.range_succ_eq_map, List.map_cons, List.map_map, htail, deliveries, List.cons.injEq,
        Nat.add_zero, hhead, List.forall_mem_cons]
      by_cases hf : r.Found (bt.info.scopes.map (·.type.eid) = scopes.map Field.eid)
      · have hn := hnext hf
        rw [← hn] at h ⊢
        simp only [hf, true_and]
        refine ih _ _ h.2 (by omega) (by omega) (fun i hi => ?_) ?_
        · rw [← hstep]; exact hmore (i + 1) (by omega)
        · rw [← hstep]; exact hdone
      · simp only [hf, false_and, and_false]

/-- The fields of a record have together a multiple of 65536 bytes, so there is only padding. -/
theorem padding_ne_nil (ds : DataSet id scopes fields) (hs : Entered bt k id scopes fields)
    (hrl : bt.recordLength = 0) (hcontent : ds.content.length ≠ 0) : ds.padding ≠ [] := by
  intro hpad
  have hlen :
      ds.content.length = (ds.records.flatMap ScopedRecord.encode).length + ds.padding.length :=
    List.length_append
  have hsize : 4 + ds.content.length < 65536 := ds.length_lt
  cases hrs : ds.records with
  | nil => exact hcontent (by rw [hlen, hrs, hpad]; rfl)
  | cons r rs =>
    have hfix : 65535 ∉ (scopes ++ fields).map Field.length :=
      not_mem_of_storedLength (by rw [← hs.recordLength]; omega)
    have hfix' := hfix
    rw [List.map_append, List.mem_append, not_or] at hfix'
    have hencode : r.encode.length = ((scopes ++ fields).map Field.length).sum := by
      rw [ScopedRecord.encode, List.length_append, fixed_encodeValues r.scopesFit hfix'.1,
        fixed_encodeValues r.fieldsFit hfix'.2, List.map_append, List.sum_append]
    have hrl' := hs.recordLength
    rw [storedLength, if_neg hfix, hrl, ← hencode] at hrl'
    have hleast := r.least_le
    have hpadlt := ds.padding_lt
    rw [hrs, List.flatMap_cons, List.length_append] at hlen
    omega

/-- A data set is handed out as it was sent exactly when it has no padding and all its records are.
-/
theorem delivers_iff (hk : k ≠ .template) (htb : tb.Sound) (hid : id < 65536)
    (hfind : tb.find (sid, id) = some bt) (hs : Entered bt k id scopes fields)
    (ds : DataSet id scopes fields) (hds : Holds E.mem set ds.encode)
    (hn : E.parser.callbackInfo[n]? = some ci)
    (hci : ∀ info : Info, info.kind = k →
      ∀ length data, ci.has (info.recordCall length data) = true) :
    Delivers E n sid set tb k ds ↔
      ds.padding = [] ∧
        ∀ r ∈ ds.records, r.Found (bt.info.scopes.map (·.type.eid) = scopes.map Field.eid) := by
  have hb := htb.entry bt (TemplateBuffer.find_mem hfind)
  have hcontent : ds.content.length =
      (ds.records.flatMap ScopedRecord.encode).length + ds.padding.length := List.length_append
  have hsize : 4 + ds.content.length < 65536 := ds.length_lt
  unfold DataSet.encode at hds
  rw [List.append_assoc, holds_append, holds_append] at hds
  obtain ⟨h1, h2, h3⟩ := hds
  simp only [length_enc16] at h2 h3
  have hsetid := be16_of_holds h1 hid
  have hlength := be16_of_holds h2 hsize
  rw [Nat.add_assoc, DataSet.content, holds_append] at h3
  have hX : recordX E.mem set =
      set + 4 + (ds.records.flatMap ScopedRecord.encode).length + ds.padding.length := by
    rw [recordX, Rcv.dataLength, hlength]; omega
  have hmore : ∀ a, bt.layout.more (recordX E.mem set) a = decide (a < recordX E.mem set) := by
    intro a
    have hkind : bt.layout.kind = k := hs.serves.kind
    unfold more
    rw [hkind]
    cases k with
    | template => exact absurd rfl hk
    | optionsTemplate => rfl
    | dataTemplate => rfl
  rw [← hsetid] at hfind
  by_cases hst : bt.layout.Stalls (be16 E.mem (set + 2))
  · have hrl : bt.recordLength = 0 := hst.1
    have hdata : Rcv.dataLength (be16 E.mem (set + 2)) ≠ 0 :=
      hst.2.resolve_left fun h => hk (hs.serves.kind.symm.trans h)
    refine iff_of_false ?_ ?_
    · rintro ⟨l, tb', hr, -⟩
      exact (@stalls_known E 0 sid set tb bt htb hfind hst).1 hr.halts
    · rintro ⟨hpad, -⟩
      refine padding_ne_nil ds hs hrl (fun hnone => ?_) hpad
      rw [hlength, Rcv.dataLength, hnone] at hdata
      exact hdata rfl
  · obtain ⟨c, hcount, hdone⟩ := @exists_records bt set E.mem hb _ hst
    have hr := (@runs_known E 0 sid set tb bt htb hfind c hcount hdone).observe (Event.delivered n)
    simp only [Event.delivered, viewed_seen] at hr
    obtain ⟨l, hl, -, hobs⟩ := hr
    have hseen : l.flatMap (Event.delivered n) =
        (List.range c).map fun i => deliveryAt bt sid set E.mem (0 + i) := by
      refine hobs.trans ?_
      rw [List.flatMap_assoc, List.map_eq_flatMap]
      refine congrArg (List.flatMap · _) (funext fun j => ?_)
      rw [callAt,
        viewed_calls hn (hci _ ((kind_recordInfo E.mem (j + 1)).trans hs.serves.kind) _ _),
        delivery_recordCall, Nat.zero_add]
      rfl
    have hiff := records_iff sid hk hb hs (by have := ds.padding_lt; omega) ds.records
      (recordX E.mem set) ds.padding.length 0 c h3.1 (by rw [hX, recordAt])
      (by omega) (fun i hi => by
        have := hcount i hi
        rw [← recordX, hmore, decide_eq_true_iff] at this
        rwa [Nat.zero_add])
      (by
        rw [← recordX, hmore, decide_eq_false_iff_not] at hdone
        rw [Nat.zero_add]; omega)
    rw [← List.length_eq_zero_iff, ← hiff]
    refine ⟨?_, ?_⟩
    · rintro ⟨l', tb', hr', heq⟩
      rw [(hr'.det hl).1, hseen] at heq
      exact heq
    · exact fun heq => ⟨l, _, hl, hseen.trans heq⟩

end DataSet

/-! ## Later data sets -/

/-- An entry still serves its template after data sets. -/
theorem Entered.kept {bt bt' : BufferedTemplate} {k : Kind} {id : Nat} {scopes fields : List Field}
    (hs : Entered bt k id scopes fields) (hk : Kept bt bt') :
    Entered bt' k id scopes fields ∧
      bt'.info.scopes.map (·.type.eid) = bt.info.scopes.map (·.type.eid) := by
  have hrl : bt'.recordLength = bt.recordLength := by rw [hk.rest]
  obtain ⟨hserves, heids⟩ := hk.relocated.keeps (P := Reaches bt k id scopes fields)
    (fun m a i h => ⟨Info.serves_locate h.serves m a, (Info.map_eid_locate i m a).trans h.eids⟩)
    ⟨hs.serves, rfl⟩
  refine ⟨⟨hrl.trans hs.recordLength, hserves, fun hlt => ?_⟩, heids⟩
  rw [hrl] at hlt
  rw [hk.fixed hlt]
  exact hs.lengths hlt

/-- A data set of a template that was processed before and that no step renewed since. -/
theorem delivers_inForce {E E' : Env} {n sid set th set' id : Nat} {k : Kind} {ci : CallbackInfo}
    {tb₀ tb : TemplateBuffer} {l : List Event} {s : Nat × TemplateBuffer} {ops : List SetStep}
    {scopes fields : List Field} (hk : k ≠ .template) (hsound : tb₀.Sound) (hset : set ≤ th)
    (htag : TagFor k (be16 E.mem set)) (hcount : be16 E.mem (th + 2) ≠ 0) (hid : be16 E.mem th = id)
    (hs : Entered (entryAt E sid set th k) k id scopes fields)
    (hstep : (Rcv.stepOf E k sid set th tb₀).Returns l s) (hrun : setSteps.Run s.2 ops tb)
    (hops : ∀ op ∈ ops, ¬ op.Renews (sid, id)) (ds : DataSet id scopes fields)
    (hds : Holds E'.mem set' ds.encode) (hn : E'.parser.callbackInfo[n]? = some ci)
    (hci : ∀ info : Info, info.kind = k →
      ∀ length data, ci.has (info.recordCall length data) = true) :
    Delivers E' n sid set' tb k ds ↔
      ds.padding = [] ∧ ∀ r ∈ ds.records,
        r.Found ((entryAt E sid set th k).info.scopes.map (·.type.eid) = scopes.map Field.eid) := by
  have hfind : s.2.find (sid, id) = some (entryAt E sid set th k) := by
    rw [← hid]
    exact find_of_stepOf hset hcount hstep
  have hsound' : s.2.Sound := by
    rw [(template_returns (x := s.1) hset hstep).2]
    exact sound_afterTemplate hsound htag
  obtain ⟨bt, hbt, hkept⟩ := find_run hrun hsound' hops hfind (.refl _)
  obtain ⟨hs', heids⟩ := hs.kept hkept
  rw [← heids]
  exact delivers_iff hk (sound_run hrun hsound') (hid ▸ be16_lt _ _) hbt hs' ds hds hn hci

/-! ## A set with one template -/

def templateSet (setID : Nat) (template : List UInt8) : List UInt8 :=
  enc16 setID ++ enc16 (4 + template.length) ++ template

theorem holds_templateSet (setID : Nat) (hid : setID < 65536) (template : List UInt8) :
    be16 (envOf (templateSet setID template)).mem 0 = setID ∧
      Holds (envOf (templateSet setID template)).mem 4 template := by
  have h := holds_ofList (templateSet setID template) fun _ => 0
  unfold templateSet at h
  rw [holds_append, holds_append] at h
  exact ⟨be16_of_holds h.1.1 hid, h.2⟩

theorem returns_stepOf (E : Env) (k : Kind) (sid : Nat) (tb : TemplateBuffer) :
    ∃ l s, (Rcv.stepOf E k sid 0 4 tb).Returns l s := by
  obtain ⟨l, hl, -⟩ := @runs_stepOf E 0 k tb sid 0 4 (Nat.zero_le 4)
  exact ⟨l, _, hl⟩

end Topas
