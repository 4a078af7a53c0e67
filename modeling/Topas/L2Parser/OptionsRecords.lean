import Topas.L2Parser.Deliveries
import Topas.L2Parser.FieldArrays

/-!
# Options templates and their records

`processOptionsTemplateSet` and the part of `processDataSet` for its records
(`concentrator/rcvIpfix.c:222-309`, `:496-561`) against what an exporter sends. They differ from the
code for templates in four places:

* the loop over the scopes clears `fieldInfo[scopeNo].type.eid` in place of the scope's own;
* in records of varying length, the test for the scopes is inverted;
* length prefixes of two bytes are not converted to host order;
* a record is taken while any byte is left, not while a full record is.

`options_decoded_iff` says which templates and data sets are decoded in spite of them.
-/
namespace Topas

open Mem Proc Layout

/-- At least one field, and the scopes are the first of them. -/
structure OptionsTemplate where
  id : Nat
  scopes : List Field
  fields : List Field
  id_lt : id < 65536
  count_pos : 0 < scopes.length + fields.length
  count_lt : scopes.length + fields.length < 65536

def OptionsTemplate.encode (t : OptionsTemplate) : List UInt8 :=
  enc16 t.id ++ enc16 (t.scopes.length + t.fields.length) ++ enc16 t.scopes.length ++
    (t.scopes.flatMap Field.encode ++ t.fields.flatMap Field.encode)

section Scopes

variable {E : Env} {a : Nat}

/-- The infos of scopes; without an enterprise number, the enterprise id is what the fresh memory
holds. -/
theorem scopes_at {fs : List Field} (h : Holds E.mem a (fs.flatMap Field.encode)) (no o : Nat) :
    DescribesScopes (fieldsAt E.mem (scopeAt E) fs.length no a o) fs ∧
    ((fieldsAt E.mem (scopeAt E) fs.length no a o).map (·.type.eid) = fs.map Field.eid ↔
      ∀ x ∈ fs.zipIdx no, Rcv.isEnterprise x.1.id = false → (E.fresh x.2).type.eid = 0) := by
  induction fs generalizing a no o with
  | nil => exact ⟨trivial, iff_of_true rfl fun _ hx => nomatch hx⟩
  | cons f fs ih =>
    rw [List.flatMap_cons, holds_append] at h
    obtain ⟨hid, hlength, hend, heid⟩ := field_at h.1
    obtain ⟨hscopes, heids⟩ := ih h.2 (no + 1) ((o + f.length) % 65536)
    rw [List.length_cons, fieldsAt, hend, hlength]
    refine ⟨⟨hid, ?_, fun hv => ?_, hscopes⟩, ?_⟩
    · simp only [scopeAt, hlength, Field.isVariable]
    · simp only [scopeAt, hlength]
      exact beq_iff_eq.mp hv
    · rw [List.map_cons, List.map_cons, List.cons.injEq, heids, List.zipIdx_cons,
        List.forall_mem_cons]
      refine and_congr_left fun _ => ?_
      unfold eidAt at heid
      simp only [scopeAt, eidAt]
      rw [hid] at heid ⊢
      cases he : Rcv.isEnterprise f.id
      · simp only [Bool.false_eq_true, if_false, true_imp_iff]
        rw [f.eid_eq he]
      · rw [he, if_pos rfl] at heid
        simp only [heid, if_true, Bool.true_eq_false, false_imp_iff]

theorem allSpecs_scopes {fs : List Field} {scopeCount fieldCount no : Nat}
    (h : Holds E.mem a (fs.flatMap Field.encode)) (hno : no + fs.length ≤ scopeCount) :
    AllSpecs E.mem (fun no a => no < scopeCount ∧
      (Rcv.isEnterprise (be16 E.mem a) = false → no < fieldCount)) fs.length no a ↔
      ∀ x ∈ fs.zipIdx no, Rcv.isEnterprise x.1.id = false → x.2 < fieldCount := by
  induction fs generalizing a no with
  | nil => exact iff_of_true trivial fun _ hx => nomatch hx
  | cons f fs ih =>
    rw [List.flatMap_cons, holds_append] at h
    rw [List.length_cons] at hno
    obtain ⟨hid, -, hend, -⟩ := field_at h.1
    rw [List.length_cons, AllSpecs, hend, ih h.2 (by omega), hid, List.zipIdx_cons,
      List.forall_mem_cons]
    refine and_congr_left fun _ => and_iff_right ?_
    omega

end Scopes

section Options

variable {E : Env} {sid set th : Nat} {t : OptionsTemplate}

/-- The header and the specifiers of an options template. -/
theorem optionsTemplate_at (h : Holds E.mem th t.encode) :
    be16 E.mem th = t.id ∧ be16 E.mem (th + 2) = t.scopes.length + t.fields.length ∧
    optionCounts E.mem th = (t.scopes.length, t.fields.length) ∧
    Holds E.mem (th + 6) (t.scopes.flatMap Field.encode) ∧
    Holds E.mem (specsEnd E.mem t.scopes.length (th + 6)) (t.fields.flatMap Field.encode) := by
  have hcount := t.count_lt
  unfold OptionsTemplate.encode at h
  rw [holds_append, holds_append, holds_append, holds_append] at h
  obtain ⟨⟨⟨h1, h2⟩, h3⟩, h4, h5⟩ := h
  simp only [List.length_append, length_enc16, Nat.reduceAdd] at h2 h3 h4 h5
  have htotal := be16_of_holds h2 hcount
  have hscopes := be16_of_holds h3 (by omega)
  refine ⟨be16_of_holds h1 t.id_lt, htotal, ?_, h4, ?_⟩
  · rw [optionCounts, hscopes, htotal, Prod.mk.injEq]
    exact ⟨rfl, by omega⟩
  · rw [(fields_at h4 0 0).1]
    exact h5

/-- What is buffered for an options template. -/
theorem entered_optionsTemplate (h : Holds E.mem th t.encode) :
    Entered (entryAt E sid set th .optionsTemplate) .optionsTemplate t.id t.scopes t.fields ∧
    ((entryAt E sid set th .optionsTemplate).info.scopes.map (·.type.eid) = t.scopes.map Field.eid ↔
      ∀ x ∈ t.scopes.zipIdx, Rcv.isEnterprise x.1.id = false → (E.fresh x.2).type.eid = 0) := by
  obtain ⟨hid, htotal, hcounts, hscopes, hfields⟩ := optionsTemplate_at h
  obtain ⟨-, hl1, -, -⟩ := fields_at hscopes 0 0
  obtain ⟨-, hl2, hdesc, -⟩ := fields_at hfields 0 ((t.scopes.map Field.length).sum % 65536)
  obtain ⟨hdesc', heids⟩ := scopes_at hscopes 0 0
  have hlens : lengthsAt E.mem th .optionsTemplate = (t.scopes ++ t.fields).map Field.length := by
    rw [lengthsAt, hcounts, hl1, hl2, List.map_append]
  have hinfo : (entryAt E sid set th .optionsTemplate).info = .optionsTemplateInfo
      ⟨t.id, t.scopes.length,
        offsetsFor (t.scopes.map Field.length ++ t.fields.map Field.length)
          (fieldsAt E.mem (scopeAt E) t.scopes.length 0 (th + 6) 0),
        t.fields.length,
        offsetsFor (t.scopes.map Field.length ++ t.fields.map Field.length)
          (fieldsAt E.mem (fieldAt E) t.fields.length 0 (specsEnd E.mem t.scopes.length (th + 6))
            ((t.scopes.map Field.length).sum % 65536))⟩ := by
    simp only [entryAt, infoAt, optionsTemplateInfoAt, hcounts, hid, hl1, hl2]
  refine ⟨⟨?_, ⟨rfl, hid, ?_, ?_⟩, fun hlt => ?_⟩, ?_⟩
  · rw [← hlens]
    exact recordLength_templateAt
  · rw [hinfo]
    exact describesScopes_offsetsFor hdesc'
  · rw [hinfo]
    exact describes_offsetsFor hdesc
  · rw [← hlens]
    have hfix : 65535 ∉ lengthsAt E.mem th .optionsTemplate :=
      not_mem_of_storedLength (@recordLength_entryAt E .optionsTemplate sid set th ▸ hlt)
    exact (fields_infoAt hfix).1
  · rw [hinfo, ← heids]
    exact Iff.of_eq (congrArg (· = _) (map_offsetsFor fun _ _ => rfl))

end Options

/-- The options template and the data set are decoded as the template says: no write outside an
array of field infos, what follows of which is not defined, and the records are handed out. -/
structure OptionsDecoded (l : List Event) (E : Env) (n sid set : Nat)
    (tb : TemplateBuffer) {id : Nat}
    {scopes fields : List Field} (ds : DataSet id scopes fields) : Prop where
  inArray : ∀ e ∈ l, e.InArray
  delivers : Delivers E n sid set tb .optionsTemplate ds

section Decoded

variable {E E' : Env} {n sid set th set' : Nat} {ci : CallbackInfo} {tb₀ tb : TemplateBuffer}
  {l : List Event} {s : Nat × TemplateBuffer} {ops : List SetStep}

theorem optionsArrays_iff {t : OptionsTemplate} (hth : Holds E.mem th t.encode)
    (hstep : (Rcv.optionsTemplateStep E sid set th tb₀).Returns l s) :
    (∀ e ∈ l, e.InArray) ↔
      ∀ x ∈ t.scopes.zipIdx, Rcv.isEnterprise x.1.id = false → x.2 < t.fields.length := by
  obtain ⟨-, htotal, hcounts, hscopes, -⟩ := optionsTemplate_at hth
  have hpos := t.count_pos
  obtain ⟨a, hstores⟩ := @stores_optionsTemplateStep E tb₀ sid set th (by omega)
  rw [hcounts] at hstores
  rw [← hstep.always_iff, hstores.always_iff,
    allSpecs_scopes hscopes (Nat.le_of_eq (Nat.zero_add _))]

theorem optionsDelivers_iff {t : OptionsTemplate} (ds : DataSet t.id t.scopes t.fields)
    (hsound : tb₀.Sound) (hset : set ≤ th) (htag : be16 E.mem set = IPFIX_SetId_OptionsTemplate)
    (hth : Holds E.mem th t.encode) (hstep : (Rcv.optionsTemplateStep E sid set th tb₀).Returns l s)
    (hrun : setSteps.Run s.2 ops tb) (hops : ∀ op ∈ ops, ¬ op.Renews (sid, t.id))
    (hds : Holds E'.mem set' ds.encode) (hn : E'.parser.callbackInfo[n]? = some ci)
    (hci : ci.optionsRecordCallbackFunction = true) :
    Delivers E' n sid set' tb .optionsTemplate ds ↔
      ds.padding = [] ∧ ∀ r ∈ ds.records,
        (∀ x ∈ t.scopes.zipIdx, Rcv.isEnterprise x.1.id = false → (E.fresh x.2).type.eid = 0) ∧
        (65535 ∉ (t.scopes ++ t.fields).map Field.length ∨
          t.scopes = [] ∧ Legible t.fields r.fieldValues) := by
  obtain ⟨hid, htotal, -⟩ := optionsTemplate_at hth
  obtain ⟨hentered, heids⟩ := @entered_optionsTemplate E sid set th t hth
  have hpos := t.count_pos
  have hfound :=
    delivers_inForce (n := n) (k := .optionsTemplate) (by decide) hsound hset htag (by omega) hid
    hentered hstep hrun hops ds hds hn
    fun info hinfo length data => by cases info <;> first | exact hci | cases hinfo
  simp only [ScopedRecord.Found, heids] at hfound
  exact hfound

/-- An options template, processed in any buffer, and a data set of it while the template is in
force: they are decoded exactly when each scope without an enterprise number has a field of the
same number and got memory with enterprise id 0, there is no padding, and no field varies, or
there are no scopes and the length prefixes read the same in either byte order. -/
theorem options_decoded_iff (t : OptionsTemplate) (ds : DataSet t.id t.scopes t.fields)
    (hreach : setSteps.Reachable tb₀) (hset : set ≤ th)
    (htag : be16 E.mem set = IPFIX_SetId_OptionsTemplate) (hth : Holds E.mem th t.encode)
    (hstep : (Rcv.optionsTemplateStep E sid set th tb₀).Returns l s)
    (hrun : setSteps.Run s.2 ops tb) (hops : ∀ op ∈ ops, ¬ op.Renews (sid, t.id))
    (hds : Holds E'.mem set' ds.encode) (hn : E'.parser.callbackInfo[n]? = some ci)
    (hci : ci.optionsRecordCallbackFunction = true) :
    OptionsDecoded l E' n sid set' tb ds ↔
      (∀ x ∈ t.scopes.zipIdx, Rcv.isEnterprise x.1.id = false → x.2 < t.fields.length) ∧
      ds.padding = [] ∧ ∀ r ∈ ds.records,
        (∀ x ∈ t.scopes.zipIdx, Rcv.isEnterprise x.1.id = false → (E.fresh x.2).type.eid = 0) ∧
        (65535 ∉ (t.scopes ++ t.fields).map Field.length ∨
          t.scopes = [] ∧ Legible t.fields r.fieldValues) := by
  have harrays := optionsArrays_iff hth hstep
  have hdelivers :=
    optionsDelivers_iff (n := n) ds (sound_setSteps hreach) hset htag hth hstep hrun hops
    hds hn hci
  rw [← harrays, ← hdelivers]
  exact ⟨fun h => ⟨h.1, h.2⟩, fun h => ⟨h.1, h.2⟩⟩

end Decoded

/-! ### Interfaces -/

/-- The set with the template, in an environment. -/
abbrev OptionsTemplate.env (t : OptionsTemplate) : Env :=
  envOf (templateSet IPFIX_SetId_OptionsTemplate t.encode)

/-- The number of an interface, with an enterprise number, as the scope, and a counter of one byte.
-/
def interfaceCounter : OptionsTemplate where
  id := 256
  scopes := [.ofWords 0x8001 1 7]
  fields := [.ofWords 2 1 0]
  id_lt := leastId_lt
  count_pos := by decide
  count_lt := by decide

/-- Interface 5 with the counter 17. -/
def counterSet (padding : List UInt8) (h : padding.length < 2) :
    DataSet interfaceCounter.id interfaceCounter.scopes interfaceCounter.fields where
  records := [⟨[⟨[5], false⟩], [⟨[17], false⟩], ⟨rfl, trivial⟩, ⟨rfl, trivial⟩⟩]
  padding := padding
  padding_lt := h
  length_lt := by
    rw [List.length_append]
    exact Nat.lt_trans (Nat.add_lt_add_left (Nat.add_lt_add_left h 2) 4) (by decide)

/-- The same scope, and a name of varying length. -/
def interfaceName : OptionsTemplate where
  id := 256
  scopes := interfaceCounter.scopes
  fields := [.ofWords 2 65535 0]
  id_lt := leastId_lt
  count_pos := by decide
  count_lt := by decide

/-- Interface 5 with the name "A". -/
def nameSet : DataSet interfaceName.id interfaceName.scopes interfaceName.fields where
  records :=
    [⟨[⟨[5], false⟩], [⟨[65], false⟩], ⟨rfl, trivial⟩, ⟨by unfold Value.Fits; decide, trivial⟩⟩]
  padding := []
  padding_lt := by decide
  length_lt := by decide

/-- One scope with an enterprise number and one field, both of fixed length. -/
theorem options_decoded_counter :
    ∃ l s, (Rcv.optionsTemplateStep interfaceCounter.env 1 0 4 []).Returns l s ∧
      OptionsDecoded l (envOf (counterSet [] (by decide)).encode) 0 1 0 s.2
      (counterSet [] (by decide)) := by
  obtain ⟨l, s, hl⟩ := returns_stepOf interfaceCounter.env .optionsTemplate 1 []
  obtain ⟨htag, hth⟩ :=
    holds_templateSet IPFIX_SetId_OptionsTemplate (by decide) interfaceCounter.encode
  refine ⟨l, s, hl, (options_decoded_iff interfaceCounter (counterSet [] (by decide))
    (.init rfl) (Nat.zero_le 4) htag hth hl (.nil _) (fun _ hop => nomatch hop) (holds_ofList _ _)
    rfl rfl).mpr ?_⟩
  exact ⟨by decide, rfl, fun r _ => ⟨by decide, .inl (by decide)⟩⟩

/-- **Counterexample**: a byte of padding behind a record of two bytes is handed out as a record,
and the scope in front of a name of varying length is not found. -/
theorem options_not_decoded :
    (∀ l s, (Rcv.optionsTemplateStep interfaceCounter.env 1 0 4 []).Returns l s →
      ¬ OptionsDecoded l (envOf (counterSet [0] (by decide)).encode) 0 1 0 s.2
      (counterSet [0] (by decide))) ∧
    ¬ ∀ (E E' : Env) (n sid set th set' : Nat) (ci : CallbackInfo) (tb₀ tb : TemplateBuffer)
    (l : List Event)
      (s : Nat × TemplateBuffer) (ops : List SetStep) (t : OptionsTemplate)
      (ds : DataSet t.id t.scopes t.fields), setSteps.Reachable tb₀ → set ≤ th →
      be16 E.mem set = IPFIX_SetId_OptionsTemplate → Holds E.mem th t.encode →
      (Rcv.optionsTemplateStep E sid set th tb₀).Returns l s → setSteps.Run s.2 ops tb →
      (∀ op ∈ ops, ¬ op.Renews (sid, t.id)) → Holds E'.mem set' ds.encode →
      E'.parser.callbackInfo[n]? = some ci → ci.optionsRecordCallbackFunction = true →
      OptionsDecoded l E' n sid set' tb ds := by
  refine ⟨?_, ?_⟩
  · intro l s hl h
    obtain ⟨htag, hth⟩ :=
      holds_templateSet IPFIX_SetId_OptionsTemplate (by decide) interfaceCounter.encode
    have hiff :=
      (optionsDelivers_iff (counterSet [0] (by decide)) sound_nil (Nat.zero_le 4) htag hth hl
      (.nil _) (fun _ hop => nomatch hop) (holds_ofList _ _) rfl rfl).mp h.delivers
    exact absurd hiff.1 (by decide)
  · intro hall
    obtain ⟨l, s, hl⟩ := returns_stepOf interfaceName.env .optionsTemplate 1 []
    obtain ⟨htag, hth⟩ :=
      holds_templateSet IPFIX_SetId_OptionsTemplate (by decide) interfaceName.encode
    have hds : Holds (envOf nameSet.encode).mem 0 nameSet.encode := holds_ofList _ _
    have h :=
      hall _ _ 0 _ _ _ _ _ _ _ _ _ _ _ nameSet (.init rfl) (Nat.zero_le 4) htag hth hl (.nil _)
      (fun _ hop => nomatch hop) hds rfl rfl
    have hiff := (optionsDelivers_iff nameSet sound_nil (Nat.zero_le 4) htag hth hl (.nil _)
      (fun _ hop => nomatch hop) hds rfl rfl).mp h.delivers
    rcases (hiff.2 _ List.mem_cons_self).2 with hfix | ⟨hscopes, -⟩
    · exact absurd hfix (by decide)
    · exact absurd hscopes (by decide)

end Topas
