import Topas.L2Parser.Termination

/-!
# Offsets and record lengths

`recordLength` and `offset` are `uint16_t`s: running sums of the field lengths modulo 2^16. The
record length 65535 marks a template with a field of varying length, and the offset 65535 one that
is not known.

* `template_measured_iff`: the stored numbers are the sums, and the loop that is chosen for the
  records is the right one, exactly for templates with a varying field and for those whose
  lengths add up to less than 65535.
* `processRecords_recordLoop`: what the choice of the loop is.
-/
namespace Topas

open Mem Proc Layout

/-- The two loops over the records of a data set. -/
inductive RecordLoop where
  | fixed
  | varying
  deriving DecidableEq, Repr

/-- `bt->recordLength < 65535`.
mirrors concentrator/rcvIpfix.c:440, 503, 569 -/
def BufferedTemplate.recordLoop (bt : BufferedTemplate) : RecordLoop :=
  if bt.recordLength < 65535 then .fixed else .varying

/-- The number of bytes in front of each field, the number of bytes of a record, and the loop for
fields of the given lengths. -/
structure BufferedTemplate.Measured (bt : BufferedTemplate) (lengths : List Nat) : Prop where
  offset : 65535 ∉ lengths → ∀ i (h : i < bt.info.fields.length),
    (bt.info.fields.get ⟨i, h⟩).offset = (lengths.take i).sum
  recordLength : 65535 ∉ lengths → bt.recordLength = lengths.sum
  loop : bt.recordLoop = .varying ↔ 65535 ∈ lengths

/-- The loops over records whose fields have stored offsets. -/
def Rcv.fixedRecords (E : Env) (sourceId : Nat) (bt : BufferedTemplate) (record recordX : Nat)
    (tb : TemplateBuffer) : Proc Event TemplateBuffer := do
  let _ ← forFixed E sourceId bt.recordLength (bt.info.recordCall bt.recordLength)
    (bt.layout.more recordX) record
  pure tb

/-- The loops that look for the fields of each record. -/
def Rcv.varyingRecords (E : Env) (sourceId : Nat) (bt : BufferedTemplate) (record recordX : Nat)
    (tb : TemplateBuffer) : Proc Event TemplateBuffer :=
  match bt.info with
  | .templateInfo ti => do
    let (_, ti) ← forVarying E sourceId (locateTemplate E) .dataRecord
      (bt.layout.more recordX) record ti
    pure (tb.setInfo bt.key (.templateInfo ti))
  | .optionsTemplateInfo ti => do
    let (_, ti) ← forVarying E sourceId (locateOptions E) .optionsRecord
      (bt.layout.more recordX) record ti
    pure (tb.setInfo bt.key (.optionsTemplateInfo ti))
  | .dataTemplateInfo ti => do
    let (_, ti) ← forVarying E sourceId (locateDataTemplate E) .dataDataRecord
      (bt.layout.more recordX)
      record ti
    pure (tb.setInfo bt.key (.dataTemplateInfo ti))

/-- Which records are taken is decided by the stored length alone. -/
theorem processRecords_recordLoop {E : Env} {sid record recordX : Nat} {bt : BufferedTemplate}
    {tb : TemplateBuffer} (ht : bt.Tagged) :
    Rcv.processRecords E sid bt record recordX tb =
      match bt.recordLoop with
      | .fixed => Rcv.fixedRecords E sid bt record recordX tb
      | .varying => Rcv.varyingRecords E sid bt record recordX tb := by
  unfold BufferedTemplate.Tagged at ht
  unfold BufferedTemplate.recordLoop Rcv.processRecords Rcv.fixedRecords Rcv.varyingRecords
  rw [more_layout]
  by_cases hrl : bt.recordLength < 65535
  · rw [if_pos hrl]
    cases hi : bt.info with
    | templateInfo ti => simp only [hi] at ht; simp only [if_pos ht, if_pos hrl]; rfl
    | optionsTemplateInfo ti => simp only [hi] at ht; simp only [if_pos ht, if_pos hrl]; rfl
    | dataTemplateInfo ti => simp only [hi] at ht; simp only [if_pos ht, if_pos hrl]; rfl
  · rw [if_neg hrl]
    cases hi : bt.info with
    | templateInfo ti => simp only [hi] at ht; simp only [if_pos ht, if_neg hrl]
    | optionsTemplateInfo ti => simp only [hi] at ht; simp only [if_pos ht, if_neg hrl]
    | dataTemplateInfo ti => simp only [hi] at ht; simp only [if_pos ht, if_neg hrl]

theorem take_sum_le (ls : List Nat) (i : Nat) : (ls.take i).sum ≤ ls.sum := by
  have h := congrArg List.sum (List.take_append_drop i ls)
  rw [List.sum_append] at h
  omega

/-- The offset of a field that lies where the ones before it end. -/
theorem offset_of_placed {fis : List FieldInfo} {o : Nat} (h : Placed o fis) {i : Nat}
    (hi : i < fis.length) :
    (fis.get ⟨i, hi⟩).offset = (o + ((fis.map (·.type.length)).take i).sum) % 65536 := by
  induction fis generalizing o i with
  | nil => exact absurd hi (Nat.not_lt_zero i)
  | cons fi fis ih =>
    obtain ⟨hoff, hrest⟩ := h
    cases i with
    | zero => simpa using hoff
    | succ i =>
      rw [List.length_cons] at hi
      have := ih hrest (Nat.lt_of_succ_lt_succ hi)
      simpa [Nat.add_assoc] using this

section Entry

variable {E : Env} {k : Kind} {sid set th : Nat}

theorem recordLength_entryAt :
    (entryAt E sid set th k).recordLength = storedLength (lengthsAt E.mem th k) :=
  recordLength_templateAt

theorem recordLoop_entryAt :
    (entryAt E sid set th k).recordLoop = .varying ↔
      65535 ∈ lengthsAt E.mem th k ∨ (lengthsAt E.mem th k).sum % 65536 = 65535 := by
  unfold BufferedTemplate.recordLoop
  rw [recordLength_entryAt, storedLength]
  by_cases hm : 65535 ∈ lengthsAt E.mem th k
  · simp [hm]
  · simp only [hm, if_false, false_or, ite_eq_right_iff, reduceCtorEq, imp_false]
    omega

theorem measured_entryAt_iff :
    (entryAt E sid set th k).Measured (lengthsAt E.mem th k) ↔
      65535 ∈ lengthsAt E.mem th k ∨ (lengthsAt E.mem th k).sum < 65535 := by
  refine ⟨?_, ?_⟩
  · intro ⟨_, hlength, hloop⟩
    by_cases hm : 65535 ∈ lengthsAt E.mem th k
    · exact .inl hm
    · -- a sum from 65536 on is not stored, and 65535 is taken for the marker
      have hsum := hlength hm
      rw [recordLength_entryAt, storedLength, if_neg hm] at hsum
      have hno : ¬ (lengthsAt E.mem th k).sum % 65536 = 65535 :=
        fun h => hm (hloop.mp (recordLoop_entryAt.mpr (.inr h)))
      exact .inr (by omega)
  · intro h
    refine ⟨?_, ?_, ?_⟩
    · intro hm i hi
      have hlt := h.resolve_left hm
      obtain ⟨hlengths, hplaced⟩ := fields_infoAt hm
      have := offset_of_placed hplaced hi
      rw [hlengths, Nat.zero_add, Nat.mod_eq_of_lt] at this
      · exact this
      · have := take_sum_le (lengthsAt E.mem th k) i
        omega
    · intro hm
      have hlt := h.resolve_left hm
      rw [recordLength_entryAt, storedLength, if_neg hm, Nat.mod_eq_of_lt (by omega)]
    · rw [recordLoop_entryAt]
      refine ⟨fun hv => hv.elim id fun hsum => ?_, .inl⟩
      rcases h with h | h
      · exact h
      · omega

/-- What a template processor buffers for the template at `th`. -/
theorem find_of_stepOf {tb : TemplateBuffer} {l : List Event} {s : Nat × TemplateBuffer}
    (hset : set ≤ th)
    (hcount : be16 E.mem (th + 2) ≠ 0) (hstep : (Rcv.stepOf E k sid set th tb).Returns l s) :
    s.2.find (sid, be16 E.mem th) = some (entryAt E sid set th k) := by
  rw [(@runs_stepOf E 0 k tb sid set th hset).value hstep, afterTemplate, if_neg hcount,
    TemplateBuffer.find_cons]
  exact if_pos rfl

/-- The template that a processor buffers, for every template with fields. -/
theorem template_measured_iff {tb : TemplateBuffer} {l : List Event} {s : Nat × TemplateBuffer}
    {bt : BufferedTemplate} (hset : set ≤ th) (hcount : be16 E.mem (th + 2) ≠ 0)
    (hstep : (Rcv.stepOf E k sid set th tb).Returns l s)
    (hfind : s.2.find (sid, be16 E.mem th) = some bt) :
    bt.Measured (lengthsAt E.mem th k) ↔
      65535 ∈ lengthsAt E.mem th k ∨ (lengthsAt E.mem th k).sum < 65535 := by
  rw [find_of_stepOf hset hcount hstep, Option.some.injEq] at hfind
  rw [← hfind]
  exact measured_entryAt_iff

end Entry

/-! ### Templates -/

/-- A template set with one template of two fields, of the lengths `m` and `n`. -/
def twoFields (m n : Nat) : List UInt8 :=
  enc16 2 ++ enc16 16 ++ enc16 256 ++ enc16 2 ++ enc16 1 ++ enc16 m ++ enc16 2 ++ enc16 n

theorem buffered_twoFields (m n : Nat) (h : be16 (envOf (twoFields m n)).mem 6 = 2) :
    ∃ l s, (Rcv.stepOf (envOf (twoFields m n)) .template 1 0 4 []).Returns l s ∧
      s.2.find (1, be16 (envOf (twoFields m n)).mem 4) =
        some (entryAt (envOf (twoFields m n)) 1 0 4 .template) := by
  obtain ⟨l, hl, -, -⟩ := @runs_stepOf (envOf (twoFields m n)) 0 .template [] 1 0 4
    (Nat.zero_le 4)
  exact ⟨l, _, hl, find_of_stepOf (Nat.zero_le 4) (by rw [h]; decide) hl⟩

/-- Records of 65534 bytes are the longest that are measured. -/
theorem template_measured_longest :
    ∃ l s bt, (Rcv.stepOf (envOf (twoFields 65530 4)) .template 1 0 4 []).Returns l s ∧
      s.2.find (1, 256) = some bt ∧ bt.Measured [65530, 4] := by
  obtain ⟨l, s, hl, hf⟩ := buffered_twoFields 65530 4 (by decide)
  exact ⟨l, s, _, hl, hf, (template_measured_iff (Nat.zero_le 4) (by decide) hl hf).mpr
    (.inr (by decide))⟩

/-- **Counterexample**: two fields of 65534 bytes and of one are taken for fields of varying length,
and two of 65534 and of two bytes for a record of none. -/
theorem template_not_measured :
    (entryAt (envOf (twoFields 65534 1)) 1 0 4 .template).recordLoop = .varying ∧
      (entryAt (envOf (twoFields 65534 2)) 1 0 4 .template).recordLength = 0 ∧
      ¬ ∀ (E : Env) (k : Kind) (sid set th : Nat) (tb : TemplateBuffer) (l : List Event)
        (s : Nat × TemplateBuffer) (bt : BufferedTemplate), set ≤ th → be16 E.mem (th + 2) ≠ 0 →
        (Rcv.stepOf E k sid set th tb).Returns l s → s.2.find (sid, be16 E.mem th) = some bt →
        bt.Measured (lengthsAt E.mem th k) := by
  refine ⟨by decide, by decide, ?_⟩
  intro hall
  obtain ⟨l, s, hl, hf⟩ := buffered_twoFields 65534 1 (by decide)
  have h := hall _ _ _ _ _ _ _ _ _ (Nat.zero_le 4) (by decide) hl hf
  exact absurd (h.loop.mp (by decide)) (by decide)

end Topas
