import Topas.L2Parser.Known

/-!
# What the data set processor does

`Info.locate` is one record of varying length as a function of the bytes of the
message: the template with the offsets and lengths of this record, and the
length of the record. `recordInfo` iterates it over the records of a set, since
each record overwrites the offsets and lengths of the one before it.

* `runs_processRecords`: a record loop that ends hands the records
  `recordAt 0`, …, `recordAt (n - 1)` to the callbacks;
* `diverges_processRecords`: a loop over records of stored length 0 does not end;
* `exists_records`: the loop ends unless `Layout.Stalls`.
-/
namespace Topas

open Mem Proc Layout

/-! ## One record of varying length -/

section Locate

variable (m : Mem) (k : Kind) (prefixed : FieldInfo → Bool) (record : Nat)

/-- Size and value of the length prefix at `a`. -/
def prefixSize (a : Nat) : Nat := if (m a).toNat = 255 then 3 else 1

def prefixLength (a : Nat) : Nat := if (m a).toNat = 255 then read16 k m (a + 1) else (m a).toNat

/-- Where the value of a field starts, and its length. -/
def valueStart (fi : FieldInfo) (rl : Nat) : Nat :=
  if prefixed fi then rl + prefixSize m (record + rl) else rl

def valueLength (fi : FieldInfo) (rl : Nat) : Nat :=
  if prefixed fi then prefixLength m k (record + rl) else fi.type.length

/-- The fields of the record at `record` with their offsets and lengths, and
where they end, when the first starts `rl` bytes into the record. -/
def located : List FieldInfo → Nat → List FieldInfo × Nat
  | [], rl => ([], rl)
  | fi :: fis, rl =>
    let start := valueStart m prefixed record fi rl
    let length := valueLength m k prefixed record fi rl
    let r := located fis (start + length)
    ({ fi with type.length := length, offset := start % 65536 } :: r.1, r.2)

/-- The length prefixes of the record lie inside `[0, length)`. -/
def PrefixesInside (length : Nat) : List FieldInfo → Nat → Prop
  | [], _ => True
  | fi :: fis, rl =>
    (prefixed fi = true → record + rl + prefixSize m (record + rl) ≤ length) ∧
      PrefixesInside length fis
        (valueStart m prefixed record fi rl + valueLength m k prefixed record fi rl)

/-- How a field lies in the record. -/
def partOf (fi : FieldInfo) : Option Nat := if prefixed fi then none else some fi.type.length

variable {m k prefixed record} {E : Env} {length : Nat}

theorem runs_lengthPrefix {read16 : Nat → Proc Event Nat} {rl : Nat}
    (hr : ∀ a, Runs length (read16 a) (a + 2 ≤ length) [] (Layout.read16 k E.mem a)) :
    Runs length (Rcv.lengthPrefix E read16 record rl)
      (record + rl + prefixSize E.mem (record + rl) ≤ length) []
      (prefixLength E.mem k (record + rl), rl + prefixSize E.mem (record + rl)) := by
  unfold prefixLength prefixSize
  by_cases h : (E.mem (record + rl)).toNat = 255
  · simp only [h, if_true]
    apply Does.congr
    · apply Does.then runs_host8
      rw [if_pos h]
      exact Does.last (hr _) rfl
    · omega
  · simp only [h, if_false]
    apply Does.congr
    · apply Does.then runs_host8
      rw [if_neg h]
      exact does_pure
    · exact and_iff_left trivial

theorem runs_locateFields {read16 : Nat → Proc Event Nat} {fis : List FieldInfo} {rl : Nat}
    (hr : ∀ a, Runs length (read16 a) (a + 2 ≤ length) [] (Layout.read16 k E.mem a)) :
    Runs length (Rcv.locateFields E read16 prefixed record fis rl)
      (PrefixesInside E.mem k prefixed record length fis rl) []
      (located E.mem k prefixed record fis rl) := by
  induction fis generalizing rl with
  | nil => exact does_pure
  | cons fi fis ih =>
    have hfield : Runs length (Rcv.locateField E read16 prefixed record fi rl)
        (prefixed fi = true → record + rl + prefixSize E.mem (record + rl) ≤ length) []
        (valueLength E.mem k prefixed record fi rl, valueStart E.mem prefixed record fi rl) := by
      unfold Rcv.locateField valueLength valueStart
      cases h : prefixed fi
      · exact does_pure.congr (by simp)
      · exact (runs_lengthPrefix hr).congr (by simp)
    exact Does.then hfield (Does.last ih rfl)

theorem located_size {fis : List FieldInfo} {rl : Nat} :
    (located m k prefixed record fis rl).2 =
      rl + partsSize m k (record + rl) (fis.map (partOf prefixed)) := by
  induction fis generalizing rl with
  | nil => rfl
  | cons fi fis ih =>
    have hpart : valueStart m prefixed record fi rl + valueLength m k prefixed record fi rl =
        rl + partSize m k (record + rl) (partOf prefixed fi) := by
      unfold valueStart valueLength partOf prefixSize prefixLength
      cases prefixed fi
      · rfl
      · simp only [if_true, partSize]; split <;> omega
    rw [located, ih, hpart, List.map_cons, partsSize, ← Nat.add_assoc record, Nat.add_assoc rl]

theorem length_located {fis : List FieldInfo} {rl : Nat} :
    (located m k prefixed record fis rl).1.length = fis.length := by
  induction fis generalizing rl with
  | nil => rfl
  | cons fi fis ih => rw [located, List.length_cons, List.length_cons, ih]

theorem le_located {fis : List FieldInfo} {rl : Nat} :
    rl ≤ (located m k prefixed record fis rl).2 := by
  rw [located_size]; exact Nat.le_add_right _ _

theorem map_partOf_located {fis : List FieldInfo} {rl : Nat}
    (hp : ∀ fi l o, prefixed { fi with type.length := l, offset := o } = prefixed fi) :
    (located m k prefixed record fis rl).1.map (partOf prefixed) = fis.map (partOf prefixed) := by
  induction fis generalizing rl with
  | nil => rfl
  | cons fi fis ih =>
    rw [located, List.map_cons, List.map_cons, ih]
    congr 1
    unfold partOf valueLength
    rw [hp]
    split <;> rfl

theorem fieldsWithin_cons {length a : Nat} {fi : FieldInfo} {fis : List FieldInfo} :
    FieldsWithin length a (fi :: fis) ↔
      Within length (a + fi.offset) fi.type.length ∧ FieldsWithin length a fis := by
  simp only [FieldsWithin, List.mem_cons, forall_eq_or_imp]

theorem fieldsWithin_append {length a : Nat} {xs ys : List FieldInfo} :
    FieldsWithin length a (xs ++ ys) ↔ FieldsWithin length a xs ∧ FieldsWithin length a ys := by
  simp only [FieldsWithin, List.mem_append, or_imp, forall_and]

/-- The prefixes and values of a record lie inside exactly when the record does. -/
theorem located_inside (hlen : length < 65536) {fis : List FieldInfo} {rl : Nat}
    (h : record + rl ≤ length) :
    (PrefixesInside m k prefixed record length fis rl ∧
      FieldsWithin length record (located m k prefixed record fis rl).1) ↔
      record + (located m k prefixed record fis rl).2 ≤ length := by
  induction fis generalizing rl with
  | nil => exact ⟨fun _ => h, fun _ => ⟨trivial, fun _ hm => nomatch hm⟩⟩
  | cons fi fis ih =>
    have hle := @le_located m k prefixed record fis
      (valueStart m prefixed record fi rl + valueLength m k prefixed record fi rl)
    have hstart : (prefixed fi = true → record + rl + prefixSize m (record + rl) ≤ length) ↔
        record + valueStart m prefixed record fi rl ≤ length := by
      unfold valueStart
      cases prefixed fi
      · simpa using h
      · simp [Nat.add_assoc]
    rw [located, PrefixesInside, fieldsWithin_cons, hstart, within_iff]
    simp only
    refine ⟨?_, ?_⟩
    · intro ⟨⟨h1, h2⟩, h3, h4⟩
      rw [Nat.mod_eq_of_lt (by omega)] at h3
      exact (ih (by omega)).mp ⟨h2, h4⟩
    · intro h1
      obtain ⟨h2, h4⟩ := (ih (by omega)).mpr h1
      rw [Nat.mod_eq_of_lt (by omega)]
      exact ⟨⟨by omega, h2⟩, .inr (by omega), h4⟩

end Locate

/-! ## One record of a template -/

namespace Info

variable (m : Mem)

/-- The template with the offsets and lengths of the record of varying length at
`a`, and the length of that record. -/
def locate : Info → Nat → Info × Nat
  | .templateInfo ti, a =>
    let r := located m .template (·.type.isVariableLength) a ti.fieldInfo 0
    (.templateInfo { ti with fieldInfo := r.1 }, r.2)
  | .optionsTemplateInfo ti, a =>
    let s := located m .optionsTemplate (!·.type.isVariableLength) a ti.scopeInfo 0
    let r := located m .optionsTemplate (·.type.isVariableLength) a ti.fieldInfo s.2
    (.optionsTemplateInfo { ti with scopeInfo := s.1, fieldInfo := r.1 }, r.2)
  | .dataTemplateInfo ti, a =>
    let r := located m .dataTemplate (·.type.isVariableLength) a ti.fieldInfo 0
    (.dataTemplateInfo { ti with fieldInfo := r.1 }, r.2)

/-- The length prefixes of the record at `a` lie inside `[0, length)`. -/
def PrefixesInside (length : Nat) : Info → Nat → Prop
  | .templateInfo ti, a =>
    Topas.PrefixesInside m .template (·.type.isVariableLength) a length ti.fieldInfo 0
  | .optionsTemplateInfo ti, a =>
    Topas.PrefixesInside m .optionsTemplate (!·.type.isVariableLength) a length ti.scopeInfo 0 ∧
      Topas.PrefixesInside m .optionsTemplate (·.type.isVariableLength) a length ti.fieldInfo
        (located m .optionsTemplate (!·.type.isVariableLength) a ti.scopeInfo 0).2
  | .dataTemplateInfo ti, a =>
    Topas.PrefixesInside m .dataTemplate (·.type.isVariableLength) a length ti.fieldInfo 0

/-- The data callback for a record of `n` bytes at `a`. -/
def recordCall : Info → Nat → Nat → Call
  | .templateInfo ti => .dataRecord ti
  | .optionsTemplateInfo ti => .optionsRecord ti
  | .dataTemplateInfo ti => .dataDataRecord ti

variable {m}

theorem kind_locate (info : Info) (a : Nat) : (info.locate m a).1.kind = info.kind := by
  cases info <;> rfl

theorem counted_locate {info : Info} {a : Nat} (h : info.Counted) :
    (info.locate m a).1.Counted := by
  cases info with
  | templateInfo ti => exact length_located.trans h
  | dataTemplateInfo ti => exact ⟨length_located.trans h.1, h.2⟩
  | optionsTemplateInfo ti => exact ⟨length_located.trans h.1, length_located.trans h.2⟩

theorem part_eq_partOf : FieldInfo.part = partOf (·.type.isVariableLength) := rfl

theorem scopePart_eq_partOf : FieldInfo.scopePart 65535 = partOf (!·.type.isVariableLength) := by
  funext fi
  cases h : fi.type.isVariableLength <;> simp [FieldInfo.scopePart, partOf, h]

theorem parts_locate (info : Info) (a : Nat) :
    (info.locate m a).1.parts 65535 = info.parts 65535 := by
  cases info with
  | templateInfo ti => exact map_partOf_located fun _ _ _ => rfl
  | dataTemplateInfo ti => exact map_partOf_located fun _ _ _ => rfl
  | optionsTemplateInfo ti =>
    simp only [parts, locate, part_eq_partOf, scopePart_eq_partOf]
    exact congr (congrArg _ (map_partOf_located fun _ _ _ => rfl))
      (map_partOf_located fun _ _ _ => rfl)

theorem partsSize_append {k : Kind} {a : Nat} {ps qs : List (Option Nat)} :
    partsSize m k a (ps ++ qs) = partsSize m k a ps + partsSize m k
    (a + partsSize m k a ps) qs := by
  induction ps generalizing a with
  | nil => simp [partsSize]
  | cons p ps ih =>
    rw [List.cons_append, partsSize, ih, partsSize]
    simp only [Nat.add_assoc]

theorem size_locate (info : Info) (a : Nat) :
    (info.locate m a).2 = partsSize m info.kind a (info.parts 65535) := by
  cases info with
  | templateInfo ti => simp only [locate, located_size, Nat.zero_add, parts, kind, part_eq_partOf,
      Nat.add_zero]
  | dataTemplateInfo ti => simp only [locate, located_size, Nat.zero_add, parts, kind,
      part_eq_partOf, Nat.add_zero]
  | optionsTemplateInfo ti => simp only [locate, located_size, Nat.zero_add, parts, kind,
      part_eq_partOf, scopePart_eq_partOf, partsSize_append, Nat.add_zero]

theorem locate_inside {length : Nat} (hlen : length < 65536) {info : Info} {a : Nat}
    (h : a ≤ length) :
    (info.PrefixesInside m length a ∧ FieldsWithin length a (info.locate m a).1.fields) ↔
      a + (info.locate m a).2 ≤ length := by
  cases info with
  | templateInfo ti => exact located_inside hlen (by omega)
  | dataTemplateInfo ti => exact located_inside hlen (by omega)
  | optionsTemplateInfo ti =>
    simp only [PrefixesInside, locate, fields, fieldsWithin_append]
    have hs := @located_inside m .optionsTemplate (!·.type.isVariableLength) a length hlen
      ti.scopeInfo 0 h
    have hle := @le_located m .optionsTemplate (·.type.isVariableLength) a ti.fieldInfo
      (located m .optionsTemplate (!·.type.isVariableLength) a ti.scopeInfo 0).2
    refine ⟨?_, ?_⟩
    · intro hinside
      obtain ⟨⟨h1, h2⟩, h3, h4⟩ := hinside
      exact (located_inside hlen (hs.mp ⟨h1, h3⟩)).mp ⟨h2, h4⟩
    · intro h1
      obtain ⟨h2, h3⟩ := hs.mpr (by omega)
      obtain ⟨h4, h5⟩ := (located_inside hlen (by omega)).mpr h1
      exact ⟨⟨h2, h4⟩, h3, h5⟩

end Info

/-- The fields of a record of fixed length lie inside exactly when the record does. -/
theorem placed_inside {length a : Nat} (hlen : length < 65536) {fis : List FieldInfo} {o : Nat}
    (hp : Placed o fis) (h : a + o ≤ length) :
    FieldsWithin length a fis ↔ a + o + (fis.map (·.type.length)).sum ≤ length := by
  induction fis generalizing o with
  | nil => exact ⟨fun _ => h, fun _ _ hm => nomatch hm⟩
  | cons fi fis ih =>
    obtain ⟨h1, h2⟩ := hp
    rw [fieldsWithin_cons, within_iff, h1, Nat.mod_eq_of_lt (by omega), List.map_cons,
      List.sum_cons]
    refine ⟨?_, ?_⟩
    · intro ⟨h3, h4⟩
      have := (ih h2 (by omega)).mp h4
      omega
    · intro h3
      exact ⟨.inr (by omega), (ih h2 (by omega)).mpr (by omega)⟩

theorem call_inside {length n a : Nat} {info : Info} :
    (info.recordCall n a).Inside length ↔ Within length a n ∧
    FieldsWithin length a info.fields := by
  cases info <;> rfl

/-! ## The records of a data set -/

section Records

variable (E : Env) (sid : Nat) (bt : BufferedTemplate) (set : Nat)

/-- The template when record number `j` of the set is reached. -/
def recordInfo (m : Mem) : Nat → Info
  | 0 => bt.info
  | j + 1 =>
    if bt.recordLength < 65535 then bt.info
    else ((recordInfo m j).locate m (recordAt m bt.layout set j)).1

/-- The length that the callbacks for record number `j` are handed. -/
def recordLengthAt (m : Mem) (j : Nat) : Nat :=
  if bt.recordLength < 65535 then bt.recordLength
  else ((recordInfo bt set m j).locate m (recordAt m bt.layout set j)).2 % 65536

/-- The data callback for record number `j`. -/
def callAt (m : Mem) (j : Nat) : Call :=
  (recordInfo bt set m (j + 1)).recordCall (recordLengthAt bt set m j) (recordAt m bt.layout set j)

/-- Record number `j` is read and handed out inside `[0, length)`. -/
def RecordInside (length j : Nat) : Prop :=
  (65535 ≤ bt.recordLength →
    (recordInfo bt set E.mem j).PrefixesInside E.mem length (recordAt E.mem bt.layout set j)) ∧
  (E.parser.fired sid (callAt bt set E.mem j) ≠ [] → (callAt bt set E.mem j).Inside length)

/-- The template buffer after `n` records. -/
def afterRecords (tb : TemplateBuffer) (n : Nat) : TemplateBuffer :=
  if bt.recordLength < 65535 then tb else tb.setInfo bt.key (recordInfo bt set E.mem n)

variable {E sid bt set} {length : Nat}

theorem kind_recordInfo (m : Mem) (j : Nat) : (recordInfo bt set m j).kind = bt.info.kind := by
  induction j with
  | zero => rfl
  | succ j ih =>
    rw [recordInfo]
    split
    · rfl
    · rw [Info.kind_locate, ih]

theorem counted_recordInfo (h : bt.info.Counted) (m : Mem) (j : Nat) :
    (recordInfo bt set m j).Counted := by
  induction j with
  | zero => exact h
  | succ j ih =>
    rw [recordInfo]
    split
    · exact h
    · exact Info.counted_locate ih

theorem parts_recordInfo (hrl : bt.recordLength = 65535) (m : Mem) (j : Nat) :
    (recordInfo bt set m j).parts 65535 = bt.info.parts 65535 := by
  induction j with
  | zero => rfl
  | succ j ih => rw [recordInfo, if_neg (by omega), Info.parts_locate, ih]

theorem size_recordInfo (hrl : bt.recordLength = 65535) (m : Mem) (j a : Nat) :
    ((recordInfo bt set m j).locate m a).2 = bt.layout.size m a := by
  rw [Info.size_locate, kind_recordInfo, parts_recordInfo hrl, size]
  simp only [BufferedTemplate.layout, hrl]

/-- One round of the loop over records of fixed length. -/
theorem runs_fixedRound (hrl : bt.recordLength < 65535) (j : Nat) :
    Runs length (do
        E.parser.invoke sid
          (bt.info.recordCall bt.recordLength (recordAt E.mem bt.layout set j))
        pure (recordAt E.mem bt.layout set j + bt.recordLength))
      (RecordInside E sid bt set length j) (E.parser.calls sid (callAt bt set E.mem j))
      (recordAt E.mem bt.layout set (j + 1)) := by
  have hnext : recordAt E.mem bt.layout set (j + 1) =
      recordAt E.mem bt.layout set j + bt.recordLength := by
    rw [recordAt, next, if_pos (by exact hrl)]; rfl
  have hcallAt : callAt bt set E.mem j =
      bt.info.recordCall bt.recordLength (recordAt E.mem bt.layout set j) := by
    rw [callAt, recordInfo, if_pos hrl, recordLengthAt, if_pos hrl]
  unfold RecordInside
  rw [hnext, hcallAt]
  refine Does.congr (Does.last runs_invoke rfl) ⟨fun h => ⟨fun h' => by omega, h⟩, And.right⟩

/-- A sequence that meets a test has a first element that does. -/
theorem exists_first {σ : Type} {c : σ → Bool} {t : Nat → σ} {n : Nat} (h : c (t n) = false) :
    ∃ k, (∀ j, j < k → c (t j) = true) ∧ c (t k) = false := by
  induction n generalizing t with
  | zero => exact ⟨0, fun j hj => absurd hj (Nat.not_lt_zero j), h⟩
  | succ n ih =>
    cases h0 : c (t 0) with
    | false => exact ⟨0, fun j hj => absurd hj (Nat.not_lt_zero j), h0⟩
    | true =>
      obtain ⟨k, hk, hc⟩ := @ih (fun j => t (j + 1)) h
      refine ⟨k + 1, ?_, hc⟩
      rintro (_ | j) hj
      · exact h0
      · exact hk j (by omega)

/-- The templates along the records of varying length at `addr 0`, `addr 1`, … -/
def templateSeq {τ : Type} (locate : Nat → τ → τ × Nat) (addr : Nat → Nat) (ti : τ) : Nat → τ
  | 0 => ti
  | j + 1 => (locate (addr j) (templateSeq locate addr ti j)).1

theorem runs_forVarying {τ : Type} {inj : τ → Info} {locate : Nat → τ → Proc Event (τ × Nat)}
    {call : τ → Nat → Nat → Call} {locv : Nat → τ → τ × Nat} {ti : τ} {n : Nat} (more : Nat → Bool)
    (hloc : ∀ a ti, Runs length (locate a ti) ((inj ti).PrefixesInside E.mem length a) []
      (locv a ti))
    (hinj : ∀ a ti, (inj ti).locate E.mem a = (inj (locv a ti).1, (locv a ti).2))
    (hcall : ∀ ti, (inj ti).recordCall = call ti) (hti : inj ti = bt.info)
    (hrl : bt.recordLength = 65535)
    (hmore : ∀ j, j < n → more (recordAt E.mem bt.layout set j) = true)
    (hn : more (recordAt E.mem bt.layout set n) = false) :
    ∃ ti', inj ti' = recordInfo bt set E.mem n ∧
      Runs length (Rcv.forVarying E sid locate call more (set + 4) ti)
        (∀ j, j < n → RecordInside E sid bt set length j)
        ((List.range n).flatMap fun j => E.parser.calls sid (callAt bt set E.mem j))
        (recordAt E.mem bt.layout set n, ti') := by
  have hseq : ∀ j, inj (templateSeq locv (recordAt E.mem bt.layout set) ti j) =
      recordInfo bt set E.mem j := by
    intro j
    induction j with
    | zero => exact hti
    | succ j ih => rw [recordInfo, if_neg (by omega), ← ih, hinj, templateSeq]
  refine ⟨_, hseq n, ?_⟩
  refine Does.loop
    (t := fun j =>
      (recordAt E.mem bt.layout set j, templateSeq locv (recordAt E.mem bt.layout set) ti j))
    hmore hn ?_
  intro j _
  have hstep : (locv (recordAt E.mem bt.layout set j)
      (templateSeq locv (recordAt E.mem bt.layout set) ti j)).2 =
      ((recordInfo bt set E.mem j).locate E.mem (recordAt E.mem bt.layout set j)).2 := by
    rw [← hseq, hinj]
  have hnext : recordAt E.mem bt.layout set (j + 1) =
      recordAt E.mem bt.layout set j + (locv (recordAt E.mem bt.layout set j)
        (templateSeq locv (recordAt E.mem bt.layout set) ti j)).2 := by
    rw [hstep, size_recordInfo hrl, recordAt, next,
      if_neg (by simp only [BufferedTemplate.layout]; omega)]
  have hcallAt :
    callAt bt set E.mem j = call (templateSeq locv (recordAt E.mem bt.layout set) ti (j + 1))
      ((locv (recordAt E.mem bt.layout set j)
        (templateSeq locv (recordAt E.mem bt.layout set) ti j)).2 % 65536)
      (recordAt E.mem bt.layout set j) := by
    rw [callAt, ← hseq, hcall, recordLengthAt, if_neg (by omega), hstep]
  unfold RecordInside
  rw [hcallAt, hnext, ← hseq j]
  refine Does.congr (Does.then (hloc _ _) (Does.last runs_invoke rfl)) ?_
  simp only [hrl, Nat.le_refl, true_imp_iff]
  exact Iff.rfl

section Whole

variable {tb : TemplateBuffer} {recordX n : Nat}

theorem more_layout : bt.layout.more recordX =
    match bt.info with
    | .templateInfo _ =>
      if bt.recordLength < 65535 then fun a => decide (a + bt.recordLength < recordX + 1)
      else fun a => decide (a + 3 < recordX)
    | .optionsTemplateInfo _ => fun a => decide (a < recordX)
    | .dataTemplateInfo _ => fun a => decide (a < recordX) := by
  funext a
  unfold more BufferedTemplate.layout
  cases bt.info with
  | templateInfo ti => simp only [Info.kind]; split <;> rfl
  | optionsTemplateInfo ti => rfl
  | dataTemplateInfo ti => rfl

theorem processRecords_fixed (hb : bt.Sound) (hrl : bt.recordLength < 65535) {record : Nat} :
    Rcv.processRecords E sid bt record recordX tb = (do
      let _ ← Rcv.forFixed E sid bt.recordLength (bt.info.recordCall bt.recordLength)
        (bt.layout.more recordX) record
      pure tb) := by
  have ht := hb.tagged
  unfold BufferedTemplate.Tagged at ht
  rw [more_layout]
  unfold Rcv.processRecords
  cases hi : bt.info with
  | templateInfo ti => simp only [hi] at ht; simp only [if_pos ht, if_pos hrl]; rfl
  | optionsTemplateInfo ti => simp only [hi] at ht; simp only [if_pos ht, if_pos hrl]; rfl
  | dataTemplateInfo ti => simp only [hi] at ht; simp only [if_pos ht, if_pos hrl]; rfl

theorem runs_varying (hb : bt.Sound) (hrl : bt.recordLength = 65535)
    (hmore : ∀ j, j < n → bt.layout.more recordX (recordAt E.mem bt.layout set j) = true)
    (hn : bt.layout.more recordX (recordAt E.mem bt.layout set n) = false) :
    Runs length (Rcv.processRecords E sid bt (set + 4) recordX tb)
      (∀ j, j < n → RecordInside E sid bt set length j)
      ((List.range n).flatMap fun j => E.parser.calls sid (callAt bt set E.mem j))
      (tb.setInfo bt.key (recordInfo bt set E.mem n)) := by
  have hrl' : ¬ bt.recordLength < 65535 := by omega
  have ht := hb.tagged
  unfold BufferedTemplate.Tagged at ht
  simp only [more_layout] at hmore hn
  unfold Rcv.processRecords
  cases hi : bt.info with
  | templateInfo ti =>
    simp only [hi, if_neg hrl'] at ht hmore hn
    simp only [if_pos ht, if_neg hrl']
    obtain ⟨ti', h', hr⟩ := runs_forVarying (fun a => decide (a + 3 < recordX))
      (fun a ti => (Does.last (runs_locateFields fun _ => runs_ntohs) rfl :
        Runs length (Rcv.locateTemplate E a ti) _ [] _))
      (fun _ _ => rfl)
        (fun ti => (rfl : (Info.templateInfo ti).recordCall = _)) hi.symm hrl hmore hn
    rw [← h']
    exact Does.last hr rfl
  | optionsTemplateInfo ti =>
    simp only [hi] at ht hmore hn
    simp only [if_pos ht, if_neg hrl']
    obtain ⟨ti', h', hr⟩ := runs_forVarying (fun a => decide (a < recordX))
      (fun a ti => (Does.then (runs_locateFields fun _ => runs_host16)
        (Does.last (runs_locateFields fun _ => runs_host16) rfl) :
        Runs length (Rcv.locateOptions E a ti) _ [] _))
      (fun _ _ => rfl) (fun ti => (rfl : (Info.optionsTemplateInfo ti).recordCall = _)) hi.symm hrl
      hmore hn
    rw [← h']
    exact Does.last hr rfl
  | dataTemplateInfo ti =>
    simp only [hi] at ht hmore hn
    simp only [if_pos ht, if_neg hrl']
    obtain ⟨ti', h', hr⟩ := runs_forVarying (fun a => decide (a < recordX))
      (fun a ti => (Does.last (runs_locateFields fun _ => runs_host16) rfl :
        Runs length (Rcv.locateDataTemplate E a ti) _ [] _))
      (fun _ _ => rfl) (fun ti => (rfl : (Info.dataTemplateInfo ti).recordCall = _)) hi.symm hrl
      hmore hn
    rw [← h']
    exact Does.last hr rfl

/-- The records of a data set whose record loop ends. -/
theorem runs_processRecords (hb : bt.Sound)
    (hmore : ∀ j, j < n → bt.layout.more recordX (recordAt E.mem bt.layout set j) = true)
    (hn : bt.layout.more recordX (recordAt E.mem bt.layout set n) = false) :
    Runs length (Rcv.processRecords E sid bt (set + 4) recordX tb)
      (∀ j, j < n → RecordInside E sid bt set length j)
      ((List.range n).flatMap fun j => E.parser.calls sid (callAt bt set E.mem j))
      (afterRecords E bt set tb n) := by
  unfold afterRecords
  by_cases hrl : bt.recordLength < 65535
  · rw [processRecords_fixed hb hrl, if_pos hrl]
    exact Does.last (Does.loop (t := recordAt E.mem bt.layout set) hmore hn
      fun j _ => runs_fixedRound hrl j) rfl
  · rw [if_neg hrl]
    exact runs_varying hb (by have := hb.recordLength_le; omega) hmore hn

/-- A record loop over fixed length that never meets its end. -/
theorem diverges_processRecords (hb : bt.Sound) (hrl : bt.recordLength < 65535)
    (hmore : ∀ j, bt.layout.more recordX (recordAt E.mem bt.layout set j) = true) :
    ¬ (Rcv.processRecords E sid bt (set + 4) recordX tb).Halts ∧
      ((Rcv.processRecords E sid bt (set + 4) recordX tb).Always (Event.Inside length) ↔
        ∀ j, RecordInside E sid bt set length j) := by
  obtain ⟨h1, h2⟩ : ¬ (Rcv.forFixed E sid bt.recordLength (bt.info.recordCall bt.recordLength)
        (bt.layout.more recordX) (set + 4)).Halts ∧
      ((Rcv.forFixed E sid bt.recordLength (bt.info.recordCall bt.recordLength)
        (bt.layout.more recordX) (set + 4)).Always (Event.Inside length) ↔
        ∀ j, RecordInside E sid bt set length j) :=
    diverges hmore fun j => runs_fixedRound hrl j
  rw [processRecords_fixed hb hrl, always_bind_of_not_halts h1]
  exact ⟨not_halts_bind h1, h2⟩

end Whole

/-! ## Whether the record loop ends -/

theorem le_recordAt (m : Mem) (hb : bt.Sound) (h0 : bt.recordLength ≠ 0) (j : Nat) :
    set + 4 + j ≤ recordAt m bt.layout set j := by
  induction j with
  | zero => exact Nat.le_refl _
  | succ j ih =>
    rw [recordAt, next]
    have hrl : bt.layout.recordLength = bt.recordLength := rfl
    split
    · omega
    · have := hb.moves (by have := hb.recordLength_le; omega) m (recordAt m bt.layout set j)
      omega

theorem recordAt_stuck (m : Mem) (h0 : bt.recordLength = 0) (j : Nat) :
    recordAt m bt.layout set j = set + 4 := by
  induction j with
  | zero => rfl
  | succ j ih =>
    rw [recordAt, next, ih, if_pos (by simp only [BufferedTemplate.layout]; omega)]
    simp only [BufferedTemplate.layout]; omega

/-- No record is taken at or behind the end of the data, unless its length is 0. -/
theorem not_more {L : Layout} {recordX a : Nat} (h : recordX ≤ a) (h0 : L.recordLength ≠ 0) :
    L.more recordX a = false := by
  unfold more
  split
  · split <;> simp only [decide_eq_false_iff_not] <;> omega
  · simp only [decide_eq_false_iff_not]; omega

theorem stalls_more (m : Mem) {setLength : Nat} (h : bt.layout.Stalls setLength) (j : Nat) :
    bt.layout.more (set + 4 + Rcv.dataLength setLength) (recordAt m bt.layout set j) = true := by
  obtain ⟨h0, hk⟩ := h
  rw [recordAt_stuck m h0]
  unfold more
  split
  · rw [if_pos (by omega)]
    simp only [decide_eq_true_eq]; omega
  · rename_i hk'
    have := hk.resolve_left fun e => hk' e
    simp only [decide_eq_true_eq]; omega

theorem exists_records (m : Mem) (hb : bt.Sound) {setLength : Nat}
    (h : ¬ bt.layout.Stalls setLength) :
    ∃ n, (∀ j, j < n →
        bt.layout.more (set + 4 + Rcv.dataLength setLength) (recordAt m bt.layout set j) = true) ∧
      bt.layout.more (set + 4 + Rcv.dataLength setLength) (recordAt m bt.layout set n) = false := by
  by_cases h0 : bt.recordLength = 0
  · have hk : bt.layout.kind ≠ .template ∧ Rcv.dataLength setLength = 0 := by
      refine ⟨fun hk => h ⟨h0, .inl hk⟩, Classical.byContradiction fun hd => h ⟨h0, .inr hd⟩⟩
    refine ⟨0, fun j hj => absurd hj (Nat.not_lt_zero j), ?_⟩
    unfold more
    split
    · exact absurd ‹_› hk.1
    · simp only [recordAt, hk.2, decide_eq_false_iff_not]; omega
  · exact exists_first (not_more (le_recordAt m hb h0 (Rcv.dataLength setLength)) h0)

/-! ## The buffer behind a data set -/

theorem afterRecords_spec {tb : TemplateBuffer} (h : tb.Sound) (hf : tb.find bt.key = some bt)
    (n : Nat) :
    TemplateBuffer.Sound (afterRecords E bt set tb n) ∧
      (afterRecords E bt set tb n).table = tb.table := by
  have hb := h.entry bt (TemplateBuffer.find_mem hf)
  unfold afterRecords
  by_cases hrl : bt.recordLength < 65535
  · rw [if_pos hrl]; exact ⟨h, rfl⟩
  · have hrl' : bt.recordLength = 65535 := by have := hb.recordLength_le; omega
    have hlay : ({ bt with info := recordInfo bt set E.mem n } : BufferedTemplate).layout =
        bt.layout := by
      simp only [BufferedTemplate.layout, kind_recordInfo, hrl', parts_recordInfo hrl']
    rw [if_neg hrl]
    refine ⟨⟨TemplateBuffer.keyed_setInfo h.keyed, ?_⟩, ?_⟩
    · intro b hmem
      rcases TemplateBuffer.mem_setInfo hmem with hmem | ⟨b', hb', rfl⟩
      · exact h.entry b hmem
      · rw [hf] at hb'
        cases hb'
        have hno : ¬ bt.recordLength < 65535 := hrl
        refine ⟨?_, counted_recordInfo hb.counted _ _, hb.expires, hb.recordLength_le,
          fun h => absurd h hno, fun h => absurd h hno,
          fun h => absurd h hno, fun h => hlay ▸ hb.moves h⟩
        have hk := @kind_recordInfo bt set E.mem n
        have ht := hb.tagged
        unfold BufferedTemplate.Tagged at ht ⊢
        revert hk ht
        cases recordInfo bt set E.mem n <;> cases bt.info <;> simp [Info.kind]
    · funext key
      simp only [TemplateBuffer.table, TemplateBuffer.find_setInfo]
      split
      · rename_i hk
        rw [hk, hf, Option.map_some, Option.map_some, Option.map_some, hlay]
      · rfl

end Records

end Topas
