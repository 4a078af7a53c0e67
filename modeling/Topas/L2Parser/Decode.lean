import Topas.L2Parser.Packets
import Topas.L2Parser.Encode

/-!
# Decoding templates and records

The parser against the encoder, piece by piece: field specifiers, template sets,
records, data sets. `Tracks K tb` relates what the exporter believes to be known
to the template buffer; every piece keeps it, and what a set of callbacks sees
of the piece is what was encoded.
-/
namespace Topas

open Mem Proc Layout

/-! ## What is seen -/

/-- The view of a callback: field lists, and the field slices in the memory `m`
at the time of the call. -/
def Call.seen (m : Mem) (sid : Nat) : Call → List Seen
  | .template ti =>
    [.template sid ti.templateId
      (ti.fieldInfo.map fun fi => (fi.type.id, fi.type.eid, fi.type.length))]
  | .dataRecord ti _ a =>
    [.record sid ti.templateId (ti.fieldInfo.map fun fi => (fi.type.id, fi.type.eid))
      (ti.fieldInfo.map fun fi => slice m (a + fi.offset) fi.type.length)]
  | _ => []

/-- What callback set number `n` sees of its calls through `g`. -/
def Event.viewed {β : Type} (g : Nat → Call → List β) (n : Nat) : Event → List β
  | .call f => if f.n = n then g f.sourceID f.call else []
  | _ => []

/-- The view of callback set number `n`. -/
def Event.observed (m : Mem) (n : Nat) : Event → List Seen
  | .call f => if f.n = n then f.call.seen m f.sourceID else []
  | _ => []

section Viewed

variable {β : Type} {g : Nat → Call → List β} {n : Nat} {P : IpfixParser}
    {ci : CallbackInfo} {sid : Nat}
  {c : Call}

/-- The calls of one loop over callback sets whose first has the number `k`. -/
def callsFrom (sid : Nat) (c : Call) (l : List CallbackInfo) (k : Nat) : List Event :=
  ((l.zipIdx k).filterMap fun (ci, i) =>
    if ci.has c then some (Fired.mk i ci.handle sid c) else none).map Event.call

theorem callsFrom_cons {l : List CallbackInfo} {k : Nat} :
    callsFrom sid c (ci :: l) k =
      (if ci.has c then [.call ⟨k, ci.handle, sid, c⟩] else []) ++ callsFrom sid c l (k + 1) := by
  unfold callsFrom
  cases h : ci.has c <;> simp [h]

theorem viewed_callsFrom_lt {l : List CallbackInfo} {k : Nat} (h : n < k) :
    (callsFrom sid c l k).flatMap (Event.viewed g n) = [] := by
  induction l generalizing k with
  | nil => rfl
  | cons ci l ih =>
    rw [callsFrom_cons, List.flatMap_append, ih (by omega), List.append_nil]
    split
    · exact congrArg (· ++ []) (if_neg (by simp only; omega))
    · rfl

theorem viewed_callsFrom {l : List CallbackInfo} {k : Nat} (h : l[n]? = some ci)
    (hc : ci.has c = true) :
    (callsFrom sid c l k).flatMap (Event.viewed g (n + k)) = g sid c := by
  induction l generalizing n k with
  | nil => simp at h
  | cons ci' l ih =>
    rw [callsFrom_cons, List.flatMap_append]
    cases n with
    | zero =>
      rw [List.getElem?_cons_zero, Option.some.injEq] at h
      rw [viewed_callsFrom_lt (by omega), h, if_pos hc]
      simp [Event.viewed]
    | succ n =>
      rw [List.getElem?_cons_succ] at h
      have hhead : (if ci'.has c then [Event.call ⟨k, ci'.handle, sid, c⟩] else []).flatMap
          (Event.viewed g (n + 1 + k)) = [] := by
        split
        · exact congrArg (· ++ []) (if_neg (by simp only; omega))
        · rfl
      rw [hhead, List.nil_append, show n + 1 + k = n + (k + 1) by omega]
      exact ih h

theorem viewed_calls (h : P.callbackInfo[n]? = some ci) (hc : ci.has c = true) :
    (P.calls sid c).flatMap (Event.viewed g n) = g sid c :=
  viewed_callsFrom (k := 0) h hc

/-- What the callbacks of `Runs` look like to callback set number `n`. -/
theorem viewed_seen (e : Event) : e.seen.flatMap (Event.viewed g n) = e.viewed g n := by
  cases e with
  | call f => rw [Event.seen, List.flatMap_cons, List.flatMap_nil, List.append_nil]
  | _ => rfl

end Viewed

section Observed

variable {m : Mem} {n : Nat} {P : IpfixParser} {ci : CallbackInfo} {sid : Nat} {c : Call}

theorem observed_eq : Event.observed m n = Event.viewed (fun sid c => c.seen m sid) n := by
  funext e; cases e <;> rfl

theorem observed_calls (h : P.callbackInfo[n]? = some ci) (hc : ci.has c = true) :
    (P.calls sid c).flatMap (Event.observed m n) = c.seen m sid := by
  rw [observed_eq, viewed_calls h hc]

theorem observed_unseen (h : c.seen m sid = []) :
    (P.calls sid c).flatMap (Event.observed m n) = [] := by
  rw [List.flatMap_eq_nil_iff]
  intro e he
  obtain ⟨f, hf, rfl⟩ := List.mem_map.mp he
  obtain ⟨ci, -, -, hf⟩ := IpfixParser.mem_fired.mp hf
  rw [hf]
  simp only [Event.observed, h, ite_self]

/-- Destruction is not a template or a record. -/
theorem observed_lost {tb : TemplateBuffer} {k : Nat × Nat} :
    (P.lost tb k).flatMap (Event.observed m n) = [] := by
  unfold IpfixParser.lost
  split
  · rfl
  · rename_i bt _
    unfold IpfixParser.destroyed
    split
    · rename_i c hc
      apply observed_unseen
      unfold BufferedTemplate.destruction at hc
      split at hc <;> split at hc <;> simp only [Option.some.injEq, reduceCtorEq] at hc <;>
        subst hc <;> rfl
    · rfl

end Observed

/-! ## Field specifiers -/

/-- The field infos of a template's fields. -/
def Describes : List FieldInfo → List Field → Prop
  | [], [] => True
  | fi :: fis, f :: fs =>
    fi.type.id = f.id ∧ fi.type.eid = f.eid ∧ fi.type.isVariableLength = f.isVariable ∧
      (f.isVariable = false → fi.type.length = f.length) ∧ Describes fis fs
  | _, _ => False

section Fields

variable {E : Env} {m : Mem} {a : Nat}

theorem field_at {f : Field} (h : Holds m a f.encode) :
    be16 m a = f.id ∧ be16 m (a + 2) = f.length ∧ specEnd m a = a + f.encode.length ∧
      eidAt m a 0 = f.eid := by
  unfold Field.encode at h
  rw [List.append_assoc, holds_append, holds_append] at h
  obtain ⟨h1, h2, h3⟩ := h
  simp only [length_enc16] at h2 h3
  have hid := be16_of_holds h1 f.id_lt
  refine ⟨hid, be16_of_holds h2 f.length_lt, ?_, ?_⟩
  · unfold specEnd Field.encode
    rw [hid]
    split <;> simp
  · unfold eidAt
    rw [hid]
    cases he : Rcv.isEnterprise f.id
    · exact (f.eid_eq he).symm
    · rw [he] at h3
      exact be32_of_holds h3 f.eid_lt

theorem fields_at {fs : List Field} (h : Holds E.mem a (fs.flatMap Field.encode)) (no o : Nat) :
    specsEnd E.mem fs.length a = a + (fs.flatMap Field.encode).length ∧
    specLengths E.mem fs.length a = fs.map Field.length ∧
    Describes (fieldsAt E.mem (fieldAt E) fs.length no a o) fs ∧
    (fieldsAt E.mem (fieldAt E) fs.length no a o).map
      (fun fi => (fi.type.id, fi.type.eid, fi.type.length)) =
        fs.map fun f => (f.id, f.eid, f.length) := by
  induction fs generalizing a no o with
  | nil => exact ⟨rfl, rfl, trivial, rfl⟩
  | cons f fs ih =>
    rw [List.flatMap_cons, holds_append] at h
    obtain ⟨h1, h2, h3, h4⟩ := field_at h.1
    obtain ⟨i1, i2, i3, i4⟩ := ih h.2 (no + 1) ((o + f.length) % 65536)
    rw [List.length_cons, specsEnd, specLengths, fieldsAt, h3, h2, i1, i2, List.flatMap_cons,
      List.length_append, List.map_cons, List.map_cons, List.map_cons, i4]
    refine ⟨by omega, rfl, ⟨h1, h4, ?_, fun _ => h2, i3⟩, ?_⟩
    · simp only [fieldAt, h2, Field.isVariable]
    · simp only [fieldAt, h1, h2, h4]

end Fields

/-! ## Templates -/

def Info.IsFor (t : Template) (info : Info) : Prop :=
  ∃ ti, info = .templateInfo ti ∧ ti.templateId = t.id ∧ Describes ti.fieldInfo t.fields

/-- The entry of an announced template. -/
structure Stands (t : Template) (bt : BufferedTemplate) : Prop where
  recordLength : bt.recordLength = if t.isVariable then 65535 else t.total
  info : bt.info.IsFor t

/-- The template buffer holds what the exporter believes to be known. -/
structure Tracks (K : Known) (tb : TemplateBuffer) : Prop where
  sound : tb.Sound
  unknown : ∀ key, K key = none → tb.find key = none
  known : ∀ key t, K key = some t → ∃ bt, tb.find key = some bt ∧ Stands t bt

section Templates

variable {E : Env} {n sid set th : Nat} {ci : CallbackInfo} {v : Version} {K : Known}
  {tb : TemplateBuffer}

theorem describes_offsetsFor {ls : List Nat} {fis : List FieldInfo} {fs : List Field}
    (h : Describes fis fs) : Describes (offsetsFor ls fis) fs := by
  unfold offsetsFor
  split
  · induction fis generalizing fs with
    | nil => exact h
    | cons fi fis ih =>
      cases fs with
      | nil => exact h
      | cons f fs => exact ⟨h.1, h.2.1, h.2.2.1, h.2.2.2.1, ih h.2.2.2.2⟩
  · exact h

theorem storedLength_fields (t : Template) :
    storedLength (t.fields.map Field.length) = if t.isVariable then 65535 else t.total := by
  have hmem : 65535 ∈ t.fields.map Field.length ↔ t.isVariable = true := by
    simp only [Template.isVariable, List.any_eq_true, List.mem_map, Field.isVariable, beq_iff_eq]
  unfold storedLength
  by_cases h : t.isVariable = true
  · rw [if_pos (hmem.mpr h), if_pos h]
  · have htot := t.total_lt (by simpa [Template.isVariable] using h)
    rw [if_neg (fun hm => h (hmem.mp hm)), if_neg h]
    exact Nat.mod_eq_of_lt (by omega)

theorem template_at (sid set : Nat) {t : Template} (h : Holds E.mem th t.encode) :
    be16 E.mem th = t.id ∧ be16 E.mem (th + 2) = t.fields.length ∧
    templateEnd E.mem th .template = th + t.encode.length ∧
    Stands t (entryAt E sid set th .template) ∧
    (infoAt E th .template).announcement.seen E.mem sid = [t.seen sid] := by
  unfold Template.encode at h ⊢
  rw [List.append_assoc, holds_append, holds_append] at h
  obtain ⟨h1, h2, h3⟩ := h
  simp only [length_enc16] at h2 h3
  have hid := be16_of_holds h1 t.id_lt
  have hcount := be16_of_holds h2 t.fields_lt
  obtain ⟨i1, i2, i3, i4⟩ := fields_at h3 0 0
  rw [Nat.add_assoc] at i1 i2 i3 i4
  refine ⟨hid, hcount, ?_, ⟨?_, ?_⟩, ?_⟩
  · rw [templateEnd, hcount, i1]
    simp only [List.length_append, length_enc16]; omega
  · rw [← storedLength_fields, ← i2, ← hcount]; rfl
  · refine ⟨templateInfoAt E th, rfl, hid, ?_⟩
    simp only [templateInfoAt, hcount]
    exact describes_offsetsFor i3
  · have hmap := @map_offsetsFor _ (specLengths E.mem t.fields.length (th + 4))
      (fieldsAt E.mem (fieldAt E) t.fields.length 0 (th + 4) 0)
      (fun fi => (fi.type.id, fi.type.eid, fi.type.length)) fun _ _ => rfl
    simp only [infoAt, Info.announcement, Call.seen, templateInfoAt, hcount, hid]
    rw [hmap, i4]; rfl

theorem withdrawal_at {id : Nat} {hid : id < 65536}
    (h : Holds E.mem th (Entry.withdraw id hid).encode) :
    be16 E.mem th = id ∧ be16 E.mem (th + 2) = 0 := by
  rw [Entry.encode, holds_append] at h
  exact ⟨be16_of_holds h.1 hid, be16_of_holds h.2 (by decide)⟩

/-- One entry of a template set. -/
theorem entry_at {e : Entry} (h : Holds E.mem th e.encode) (hv : be16 E.mem set = v.templateSetID)
    (ht : Tracks K tb) (hn : E.parser.callbackInfo[n]? = some ci)
    (hci : ci.templateCallbackFunction = true) :
    templateEnd E.mem th .template = th + e.encode.length ∧
    Tracks (K.entry sid e) (afterTemplate E .template sid set tb th) ∧
    (templateSeen E .template sid tb th).flatMap (Event.observed E.mem n) = e.announced sid := by
  have htag : TagFor .template (be16 E.mem set) := by
    rw [hv]
    cases v with
    | ipfix => exact .inl rfl
    | netflowV9 => exact .inr rfl
  have hid : be16 E.mem th = e.id := by
    cases e with
    | announce t => exact (template_at sid set h).1
    | withdraw id hid => exact (withdrawal_at h).1
  refine ⟨?_, ⟨sound_afterTemplate ht.sound htag, ?_, ?_⟩, ?_⟩
  · cases e with
    | announce t => exact (template_at sid set h).2.2.1
    | withdraw id hid =>
      rw [templateEnd, (withdrawal_at h).2]; rfl
  · intro key hK
    rw [find_afterTemplate ht.sound.keyed, hid]
    unfold Known.entry at hK
    split
    · rename_i hkey
      rw [if_pos hkey] at hK
      cases e with
      | announce t => cases hK
      | withdraw id hid => rw [if_pos (withdrawal_at h).2]
    · rename_i hkey
      rw [if_neg hkey] at hK
      exact ht.unknown key hK
  · intro key t' hK
    rw [find_afterTemplate ht.sound.keyed, hid]
    unfold Known.entry at hK
    split
    · rename_i hkey
      rw [if_pos hkey] at hK
      cases e with
      | withdraw id hid => cases hK
      | announce t =>
        cases hK
        have htpl := template_at sid set h
        rw [if_neg (by rw [htpl.2.1]; have := t'.fields_pos; omega)]
        exact ⟨_, rfl, htpl.2.2.2.1⟩
    · rename_i hkey
      rw [if_neg hkey] at hK
      exact ht.known key t' hK
  · rw [templateSeen, List.flatMap_append, observed_lost, List.nil_append]
    cases e with
    | withdraw id hid => rw [if_pos (withdrawal_at h).2]; rfl
    | announce t =>
      have htpl := template_at sid set h
      have hc : ci.has (infoAt E th .template).announcement = true := hci
      rw [if_neg (by rw [htpl.2.1]; have := t.fields_pos; omega), observed_calls hn hc]
      exact htpl.2.2.2.2

theorem le_length_encode (e : Entry) : 4 ≤ e.encode.length := by
  cases e with
  | announce t => simp only [Entry.encode, Template.encode, List.length_append, length_enc16]; omega
  | withdraw id hid => simp [Entry.encode]

/-- The entries of a template set, with at most 3 bytes behind them. -/
theorem entries_at {es : List Entry} {endOfSet : Nat} (h : Holds E.mem th (es.flatMap Entry.encode))
    (hlt : th + (es.flatMap Entry.encode).length ≤ endOfSet)
    (hpad : endOfSet ≤ th + (es.flatMap Entry.encode).length + 3)
    (hv : be16 E.mem set = v.templateSetID) (ht : Tracks K tb)
    (hn : E.parser.callbackInfo[n]? = some ci) (hci : ci.templateCallbackFunction = true) :
    Tracks (es.foldl (Known.entry sid) K)
      ((templateStarts E.mem .template endOfSet th).foldl (afterTemplate E .template sid set) tb) ∧
    (templatesSeen E .template sid set (templateStarts E.mem .template endOfSet th) tb).flatMap
      (Event.observed E.mem n) = es.flatMap (Entry.announced sid) := by
  induction es generalizing th K tb with
  | nil =>
    simp only [List.flatMap_nil, List.length_nil] at hlt hpad
    rw [templateStarts, if_neg (by omega)]
    exact ⟨ht, rfl⟩
  | cons e es ih =>
    rw [List.flatMap_cons, holds_append] at h
    rw [List.flatMap_cons, List.length_append] at hlt hpad
    obtain ⟨h1, h2, h3⟩ := entry_at h.1 hv ht hn hci
    have hlen := le_length_encode e
    obtain ⟨i1, i2⟩ := ih h.2 (by omega) (by omega) h2
    rw [templateStarts, if_pos (by omega), h1, List.foldl_cons, List.foldl_cons, templatesSeen,
      List.flatMap_append, h3, i2, List.flatMap_cons]
    exact ⟨i1, rfl⟩

end Templates

/-! ## Records -/

section Records

variable {m : Mem} {record : Nat}

/-- A field of varying length is found behind its prefix, any other where it stands. -/
theorem value_at {fi : FieldInfo} {f : Field} {v : Value} {rl : Nat}
    (h : Holds m (record + rl) (v.encode f)) (hfit : v.Fits f)
    (hvar : fi.type.isVariableLength = f.isVariable)
    (hlen : f.isVariable = false → fi.type.length = f.length) :
    valueLength m .template (·.type.isVariableLength) record fi rl = v.bytes.length ∧
    valueStart m (·.type.isVariableLength) record fi rl + v.bytes.length =
      rl + (v.encode f).length ∧
    Holds m (record + valueStart m (·.type.isVariableLength) record fi rl) v.bytes := by
  unfold valueLength valueStart
  unfold Value.encode at h ⊢
  unfold Value.Fits at hfit
  simp only [hvar]
  cases hv : f.isVariable
  · simp only [hv, Bool.false_eq_true, if_false, List.nil_append] at h hfit ⊢
    exact ⟨by rw [hlen hv, hfit], trivial, h⟩
  · simp only [hv, if_true] at h hfit ⊢
    unfold prefixLength prefixSize
    cases hlong : v.long
    · simp only [hlong, Bool.false_eq_true, if_false, List.cons_append, List.nil_append, holds_cons]
        at h hfit ⊢
      have hbyte : (m (record + rl)).toNat = v.bytes.length := by
        rw [h.1, UInt8.toNat_ofNat']; omega
      have hne : v.bytes.length ≠ 255 := by omega
      simp only [hbyte, if_neg hne, List.length_cons]
      exact ⟨trivial, by omega, by rw [← Nat.add_assoc]; exact h.2⟩
    · simp only [hlong, if_true, List.cons_append, holds_cons, holds_append,
        length_enc16] at h hfit ⊢
      have hbyte : (m (record + rl)).toNat = 255 := by rw [h.1]; rfl
      have hword := be16_of_holds h.2.1 hfit
      simp only [hbyte, if_true, read16, hword, List.length_cons, List.length_append, length_enc16]
      exact ⟨trivial, by omega, by rw [← Nat.add_assoc]; exact h.2.2⟩

/-- The fields of a record have these values. -/
def Carries (m : Mem) (record : Nat) (fis : List FieldInfo) (vs : List Value) : Prop :=
  fis.map (fun fi => slice m (record + fi.offset) fi.type.length) = vs.map Value.bytes

/-- The infos, the fields and the values of a record are gone through together. -/
@[elab_as_elim]
theorem describes_induction
    {motive : ∀ (fis : List FieldInfo) (fs : List Field) (vs : List Value),
      Describes fis fs → ValuesFit fs vs → Prop}
    (nil : motive [] [] [] trivial trivial)
    (cons : ∀ (fi : FieldInfo) (fis : List FieldInfo) (f : Field) (fs : List Field) (v : Value)
      (vs : List Value) (hd : Describes (fi :: fis) (f :: fs))
      (hfit : ValuesFit (f :: fs) (v :: vs)),
      motive fis fs vs hd.2.2.2.2 hfit.2 → motive (fi :: fis) (f :: fs) (v :: vs) hd hfit)
    (fis : List FieldInfo) (fs : List Field) (vs : List Value) (hd : Describes fis fs)
    (hfit : ValuesFit fs vs) : motive fis fs vs hd hfit := by
  induction fs generalizing fis vs with
  | nil =>
    cases fis with
    | cons fi fis => exact hd.elim
    | nil =>
      cases vs with
      | cons v vs => exact hfit.elim
      | nil => exact nil
  | cons f fs ih =>
    cases fis with
    | nil => exact hd.elim
    | cons fi fis =>
      cases vs with
      | nil => exact hfit.elim
      | cons v vs => exact cons fi fis f fs v vs hd hfit (ih fis vs hd.2.2.2.2 hfit.2)

/-- A record of a template with varying fields. -/
theorem located_at {fs : List Field} {vs : List Value} {fis : List FieldInfo} {rl : Nat}
    (h : Holds m (record + rl) (encodeValues fs vs)) (hfit : ValuesFit fs vs)
    (hd : Describes fis fs) (hlt : rl + (encodeValues fs vs).length < 65536) :
    (located m .template (·.type.isVariableLength) record fis rl).2 =
      rl + (encodeValues fs vs).length ∧
    Carries m record (located m .template (·.type.isVariableLength) record fis rl).1 vs ∧
    Describes (located m .template (·.type.isVariableLength) record fis rl).1 fs := by
  induction fis, fs, vs, hd, hfit using describes_induction generalizing rl with
  | nil => exact ⟨rfl, rfl, trivial⟩
  | cons fi fis f fs v vs hd hfit ih =>
    obtain ⟨hid, heid, hvar, hlen, -⟩ := hd
    obtain ⟨hfit1, -⟩ := hfit
    rw [encodeValues, List.length_append] at hlt
    rw [encodeValues, holds_append] at h
    obtain ⟨h1, h2, h3⟩ := value_at h.1 hfit1 hvar hlen
    rw [Nat.add_assoc, ← h2] at h
    obtain ⟨i1, i2, i3⟩ := ih h.2 (by omega)
    rw [located, h1, encodeValues, List.length_append]
    refine ⟨by rw [i1]; omega, ?_, hid, heid, hvar, ?_, i3⟩
    · unfold Carries at i2 ⊢
      rw [List.map_cons, List.map_cons, i2, Nat.mod_eq_of_lt (by omega)]
      exact congrArg (· :: _) h3
    · intro hv
      unfold Value.Fits at hfit1
      rwa [hv, if_neg Bool.false_ne_true] at hfit1

/-- A record of a template of fixed length. -/
theorem placed_at {fs : List Field} {vs : List Value} {fis : List FieldInfo} {o : Nat}
    (h : Holds m (record + o) (encodeValues fs vs)) (hfit : ValuesFit fs vs)
    (hd : Describes fis fs) (hp : Placed o fis) (hfix : fs.any Field.isVariable = false)
    (hlt : o + (fs.map Field.length).sum < 65536) :
    (encodeValues fs vs).length = (fs.map Field.length).sum ∧ Carries m record fis vs := by
  induction fis, fs, vs, hd, hfit using describes_induction generalizing o with
  | nil => exact ⟨rfl, rfl⟩
  | cons fi fis f fs v vs hd hfit ih =>
    obtain ⟨-, -, -, hlen, -⟩ := hd
    obtain ⟨hfit1, -⟩ := hfit
    obtain ⟨ho, hp⟩ := hp
    rw [List.any_cons, Bool.or_eq_false_iff] at hfix
    rw [List.map_cons, List.sum_cons] at hlt
    have henc : v.encode f = v.bytes := by
      rw [Value.encode, hfix.1, if_neg Bool.false_ne_true, List.nil_append]
    have hbytes : v.bytes.length = f.length := by
      unfold Value.Fits at hfit1
      rwa [hfix.1, if_neg Bool.false_ne_true] at hfit1
    have hfi := hlen hfix.1
    rw [encodeValues, henc, holds_append, hbytes, Nat.add_assoc] at h
    rw [hfi] at hp
    obtain ⟨i1, i2⟩ := ih h.2 hp hfix.2 (by omega)
    rw [encodeValues, henc, List.length_append, i1, hbytes, List.map_cons, List.sum_cons]
    refine ⟨rfl, ?_⟩
    unfold Carries at i2 ⊢
    rw [List.map_cons, List.map_cons, i2, ho, Nat.mod_eq_of_lt (by omega), hfi, ← hbytes]
    exact congrArg (· :: _) h.1

/-- A callback for a record that carries the values. -/
theorem seen_dataRecord {t : Template} {r : Record t} {ti : TemplateInfo} {n a sid : Nat}
    (hid : ti.templateId = t.id) (hd : Describes ti.fieldInfo t.fields)
    (hc : Carries m a ti.fieldInfo r.values) :
    (Call.dataRecord ti n a).seen m sid = [r.seen sid] := by
  have hmap : ∀ {fis : List FieldInfo} {fs : List Field}, Describes fis fs →
      fis.map (fun fi => (fi.type.id, fi.type.eid)) = fs.map fun f => (f.id, f.eid) := by
    intro fis
    induction fis with
    | nil =>
      intro fs h
      cases fs with
      | nil => rfl
      | cons f fs => exact h.elim
    | cons fi fis ih =>
      intro fs h
      cases fs with
      | nil => exact h.elim
      | cons f fs => rw [List.map_cons, List.map_cons, ih h.2.2.2.2, h.1, h.2.1]
  rw [Call.seen, Record.seen, hid, hmap hd, hc]

end Records

/-! ## Data sets -/

section DataSet

variable {E : Env} {n sid set : Nat} {ci : CallbackInfo} {K : Known} {tb : TemplateBuffer}
  {t : Template} {bt : BufferedTemplate}

/-- The least number of bytes of a record. -/
def Template.least (t : Template) : Nat := if t.isVariable then 4 else t.total

/-- One record: where it ends, what is seen of it, what it leaves. -/
theorem record_at (hb : bt.Sound) (hs : Stands t bt) (r : Record t) {j : Nat}
    (h : Holds E.mem (recordAt E.mem bt.layout set j) r.encode)
    (hlt : recordAt E.mem bt.layout set j + r.encode.length < 65536)
    (hj : (recordInfo bt set E.mem j).IsFor t) :
    recordAt E.mem bt.layout set (j + 1) =
      recordAt E.mem bt.layout set j + r.encode.length ∧
    t.least ≤ r.encode.length ∧
    (callAt bt set E.mem j).seen E.mem sid = [r.seen sid] ∧
    (recordInfo bt set E.mem (j + 1)).IsFor t := by
  have hrl := hs.recordLength
  have hlay : bt.layout.recordLength = bt.recordLength := rfl
  unfold callAt Template.least
  cases hvar : t.isVariable
  · -- records of fixed length: the template stays as it was announced
    have htot := t.total_lt hvar
    have htot' : 0 + (t.fields.map Field.length).sum < 65536 := by omega
    rw [hvar, if_neg Bool.false_ne_true] at hrl
    have hfix : bt.recordLength < 65535 := by rw [hrl]; exact htot
    have hinfo : recordInfo bt set E.mem (j + 1) = bt.info := by rw [recordInfo, if_pos hfix]
    obtain ⟨ti, hti, hid, hd⟩ := hs.info
    have hp : Placed 0 ti.fieldInfo := by
      have := hb.placed hfix
      rwa [hti] at this
    obtain ⟨h1, h2⟩ := @placed_at E.mem _ t.fields r.values ti.fieldInfo 0 h r.fit hd hp hvar htot'
    have hsize : r.encode.length = bt.recordLength := h1.trans hrl.symm
    rw [hinfo, recordAt, next, if_pos (by omega), hlay, hsize, hrl]
    refine ⟨rfl, Nat.le_refl _, ?_, hs.info⟩
    rw [hti]
    exact seen_dataRecord hid hd h2
  · rw [hvar, if_pos rfl] at hrl
    obtain ⟨ti, hti, hid, hd⟩ := hj
    have hlt' : 0 + r.encode.length < 65536 := by omega
    obtain ⟨h1, h2, h3⟩ := @located_at E.mem _ t.fields r.values ti.fieldInfo 0 h r.fit hd hlt'
    have hinfo : recordInfo bt set E.mem (j + 1) =
        ((recordInfo bt set E.mem j).locate E.mem (recordAt E.mem bt.layout set j)).1 := by
      rw [recordInfo, if_neg (by omega)]
    have hsize : bt.layout.size E.mem (recordAt E.mem bt.layout set j) = r.encode.length := by
      rw [← size_recordInfo hrl E.mem j, hti]
      exact h1.trans (Nat.zero_add _)
    rw [hinfo, recordAt, next, if_neg (by omega), hsize, hti]
    exact ⟨rfl, r.four_le hvar, seen_dataRecord hid h3 h2, _, rfl, hid, h3⟩

/-- The records of a data set from number `j` on. -/
theorem records_at (hb : bt.Sound) (hs : Stands t bt) (hn : E.parser.callbackInfo[n]? = some ci)
    (hci : ci.dataRecordCallbackFunction = true) (rs : List (Record t)) {j : Nat}
    (h : Holds E.mem (recordAt E.mem bt.layout set j) (rs.flatMap Record.encode))
    (hlt : recordAt E.mem bt.layout set j + (rs.flatMap Record.encode).length < 65536)
    (hj : (recordInfo bt set E.mem j).IsFor t) :
    recordAt E.mem bt.layout set (j + rs.length) =
      recordAt E.mem bt.layout set j + (rs.flatMap Record.encode).length ∧
    (∀ i, i < rs.length → recordAt E.mem bt.layout set (j + i) + t.least ≤
      recordAt E.mem bt.layout set (j + i + 1)) ∧
    ((List.range rs.length).flatMap fun i => E.parser.calls sid
      (callAt bt set E.mem (j + i))).flatMap
      (Event.observed E.mem n) = rs.map (Record.seen sid) ∧
    (recordInfo bt set E.mem (j + rs.length)).IsFor t := by
  induction rs generalizing j with
  | nil => exact ⟨rfl, fun i hi => absurd hi (Nat.not_lt_zero i), rfl, hj⟩
  | cons r rs ih =>
    rw [List.flatMap_cons, holds_append] at h
    rw [List.flatMap_cons, List.length_append] at hlt
    obtain ⟨h1, h2, h3, h4⟩ := @record_at E sid set t bt hb hs r j h.1 (by omega) hj
    rw [← h1] at h
    obtain ⟨i1, i2, i3, i4⟩ := ih h.2 (by omega) h4
    have hstep : ∀ i, j + 1 + i = j + (i + 1) := fun i => by omega
    simp only [hstep] at i1 i2 i3 i4
    rw [List.length_cons, List.flatMap_cons, List.length_append]
    refine ⟨by omega, ?_, ?_, i4⟩
    · intro i hi
      cases i with
      | zero => rw [Nat.add_zero, h1]; omega
      | succ i => exact i2 i (by omega)
    · have hc : ci.has (callAt bt set E.mem j) = true := by
        obtain ⟨ti, hti, -⟩ := h4
        rw [callAt, hti]; exact hci
      rw [List.range_succ_eq_map, List.flatMap_cons, List.flatMap_map, List.flatMap_append, i3,
        List.map_cons, Nat.add_zero, observed_calls hn hc, h3]
      rfl

/-- What a data set leaves of what is known. -/
theorem tracks_afterRecords (ht : Tracks K tb) (hf : tb.find bt.key = some bt) (hs : Stands t bt)
    (hK : K bt.key = some t) {j : Nat} (hj : (recordInfo bt set E.mem j).IsFor t) :
    Tracks K (afterRecords E bt set tb j) := by
  refine ⟨(afterRecords_spec ht.sound hf j).1, ?_, ?_⟩ <;> unfold afterRecords <;> split
  · exact ht.unknown
  · intro key hkey
    rw [TemplateBuffer.find_setInfo, if_neg, ht.unknown key hkey]
    rintro rfl
    rw [hK] at hkey
    cases hkey
  · exact ht.known
  · intro key t' hkey
    rw [TemplateBuffer.find_setInfo]
    split
    · rename_i heq
      rw [heq, hK, Option.some.injEq] at hkey
      rw [hf]
      exact ⟨_, rfl, hkey ▸ hs.recordLength, hkey ▸ hj⟩
    · exact ht.known key t' hkey

end DataSet

end Topas
