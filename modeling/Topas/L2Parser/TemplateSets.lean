import Topas.L2Parser.Layout

/-!
# What the template processors do

One lemma for each function of the parser up to the three template set
processors, in the form `Runs length p Q es a`: the program `p` ends with `a`,
is seen to do `es`, and touches only the first `length` bytes exactly when `Q`
holds. `Q` and `a` speak about the bytes of the message (`Layout`), no longer
about the parser's steps.
-/
namespace Topas

open Mem Proc Layout

/-! ## Inside the message -/

/-- The `n` bytes at `a` lie inside `[0, length)`. -/
def Within (length a n : Nat) : Prop := ∀ i, i < n → a + i < length

theorem within_iff {length a n : Nat} : Within length a n ↔ n = 0 ∨ a + n ≤ length := by
  refine ⟨?_, ?_⟩
  · intro h
    cases n with
    | zero => exact .inl rfl
    | succ n => have := h n (Nat.lt_succ_self n); omega
  · intro h i hi; omega

/-- The field slices of a record at `a`. -/
def FieldsWithin (length a : Nat) (fis : List FieldInfo) : Prop :=
  ∀ fi, fi ∈ fis → Within length (a + fi.offset) fi.type.length

/-- The record and its fields that a data callback is handed lie inside the message. -/
def Call.Inside (length : Nat) : Call → Prop
  | .dataRecord ti n a => Within length a n ∧ FieldsWithin length a ti.fieldInfo
  | .optionsRecord ti n a => Within length a n ∧
    FieldsWithin length a (ti.scopeInfo ++ ti.fieldInfo)
  | .dataDataRecord ti n a => Within length a n ∧ FieldsWithin length a ti.fieldInfo
  | _ => True

def Event.Inside (length : Nat) : Event → Prop
  | .read a n => Within length a n
  | .call f => f.call.Inside length
  | _ => True

/-- What is seen from outside: the callbacks. -/
def Event.seen : Event → List Event
  | .call f => [.call f]
  | _ => []

abbrev Runs {α : Type} (length : Nat) (p : Proc Event α) (Q : Prop) (es : List Event) (a : α) :
    Prop :=
  p.Does (Event.Inside length) Event.seen Q es a

theorem flatMap_seen (fs : List Fired) : (fs.map Event.call).flatMap Event.seen = fs.map .call := by
  induction fs with
  | nil => rfl
  | cons f fs ih => rw [List.map_cons, List.flatMap_cons, ih]; rfl

theorem IpfixParser.call_of_mem_fired {P : IpfixParser} {sourceId : Nat} {c : Call} {f : Fired}
    (h : f ∈ P.fired sourceId c) : f.call = c := by
  obtain ⟨ci, -, -, hf⟩ := IpfixParser.mem_fired.mp h
  rw [hf]

theorem runs_invoke {P : IpfixParser} {length sourceId : Nat} {c : Call} :
    Runs length (P.invoke sourceId c) (P.fired sourceId c ≠ [] → c.Inside length)
      (P.calls sourceId c) () := by
  have h := does_tell (P := Event.Inside length) (f := Event.seen) (l := P.calls sourceId c)
  rw [IpfixParser.calls, flatMap_seen] at h
  refine h.congr ?_
  simp only [List.mem_map, forall_exists_index, and_imp, forall_apply_eq_imp_iff₂]
  refine ⟨?_, ?_⟩
  · intro hin hne
    obtain ⟨f, hf⟩ := List.exists_mem_of_ne_nil _ hne
    exact IpfixParser.call_of_mem_fired hf ▸ hin f hf
  · intro hin f hf
    have := hin (List.ne_nil_of_mem hf)
    rwa [← IpfixParser.call_of_mem_fired hf] at this

section Reads

variable {E : Env} {length : Nat}

theorem read_inside {a n : Nat} (h : 0 < n) : (Event.read a n).Inside length ↔ a + n ≤ length := by
  simp only [Event.Inside, within_iff]; omega

theorem runs_ntohs {a : Nat} : Runs length (Rcv.ntohs E a) (a + 2 ≤ length) [] (be16 E.mem a) :=
  Does.congr (Does.last does_emit rfl) (read_inside (by decide))

theorem runs_ntohl {a : Nat} : Runs length (Rcv.ntohl E a) (a + 4 ≤ length) [] (be32 E.mem a) :=
  Does.congr (Does.last does_emit rfl) (read_inside (by decide))

theorem runs_host16 {a : Nat} : Runs length (Rcv.host16 E a) (a + 2 ≤ length) [] (le16 E.mem a) :=
  Does.congr (Does.last does_emit rfl) (read_inside (by decide))

theorem runs_host8 {a : Nat} :
    Runs length (Rcv.host8 E a) (a + 1 ≤ length) [] (E.mem a).toNat :=
  Does.congr (Does.last does_emit rfl) (read_inside (by decide))

theorem runs_store {i c : Nat} : Runs length (emit (.store i c)) True [] () := does_emit

end Reads

/-! ## Field specifiers -/

section Fields

variable (E : Env)

/-- The enterprise number of the field specifier at `a`, or `eid`. -/
def eidAt (m : Mem) (a eid : Nat) : Nat :=
  if Rcv.isEnterprise (be16 m a) then be32 m (a + 4) else eid

/-- What the loops over `fieldInfo` make of the specifier at `a`. -/
def fieldAt (_no a offset : Nat) : FieldInfo :=
  ⟨⟨be16 E.mem a, be16 E.mem (a + 2), be16 E.mem (a + 2) == 65535, eidAt E.mem a 0⟩, offset⟩

def scopeAt (no a offset : Nat) : FieldInfo :=
  ⟨⟨be16 E.mem a, be16 E.mem (a + 2), be16 E.mem (a + 2) == 65535,
    eidAt E.mem a (E.fresh no).type.eid⟩, offset⟩

def dataAt (no a _offset : Nat) : FieldInfo :=
  ⟨⟨be16 E.mem a, be16 E.mem (a + 2), (E.fresh no).type.isVariableLength, eidAt E.mem a 0⟩,
    (E.fresh no).offset⟩

/-- The fields that `n` specifiers from `a` on make. -/
def fieldsAt (m : Mem) (field : Nat → Nat → Nat → FieldInfo) :
    Nat → Nat → Nat → Nat → List FieldInfo
  | 0, _, _, _ => []
  | n + 1, no, a, offset =>
    field no a offset ::
      fieldsAt m field n (no + 1) (specEnd m a) ((offset + be16 m (a + 2)) % 65536)

variable {E} {length : Nat}

theorem runs_readEid {a eid : Nat} :
    Runs length (Rcv.readEid E a (be16 E.mem a) eid)
      (Rcv.isEnterprise (be16 E.mem a) = true → specEnd E.mem a ≤ length) []
      (eidAt E.mem a eid, specEnd E.mem a) := by
  unfold Rcv.readEid eidAt specEnd
  cases h : Rcv.isEnterprise (be16 E.mem a)
  · exact does_pure.congr (by simp)
  · refine Does.congr (Does.last runs_ntohl rfl) ?_
    simp only [true_imp_iff, if_true, Nat.add_assoc, Nat.reduceAdd]

/-- A loop body that reads one specifier. -/
def ReadsOne (E : Env) (length : Nat) (readOne : Nat → Nat → Nat → Proc Event (FieldInfo × Nat))
    (field : Nat → Nat → Nat → FieldInfo) : Prop :=
  ∀ no a offset, Runs length (readOne no a offset) (specEnd E.mem a ≤ length) []
    (field no a offset, specEnd E.mem a)

/-- Reads of id, length and enterprise number stay inside exactly when the specifier does. -/
theorem spec_inside {m : Mem} {a length : Nat} :
    (a + 2 ≤ length ∧ a + 2 + 2 ≤ length ∧
      (Rcv.isEnterprise (be16 m a) = true → specEnd m a ≤ length)) ↔ specEnd m a ≤ length := by
  have := le_specEnd m a
  refine ⟨?_, ?_⟩
  · intro ⟨_, h, h'⟩
    cases he : Rcv.isEnterprise (be16 m a)
    · simp [specEnd, he]; omega
    · exact h' he
  · intro h
    exact ⟨by omega, by omega, fun _ => h⟩

theorem readsOne_readField {capacity : Nat} :
    ReadsOne E length (Rcv.readField E capacity) (fieldAt E) := by
  intro no a offset
  refine Does.congr (Does.then runs_store (Does.then runs_ntohs (Does.then runs_ntohs
    (Does.last runs_readEid rfl)))) ?_
  rw [true_and]
  exact spec_inside

theorem readsOne_readScope {scopeCount fieldCount : Nat} :
    ReadsOne E length (Rcv.readScope E scopeCount fieldCount) (scopeAt E) := by
  intro no a offset
  refine Does.congr (Does.then runs_store (Does.then runs_ntohs (Does.then runs_ntohs
    (Does.then runs_readEid (?_ : Runs length (if _ then _ else _) True [] _))))) ?_
  · split
    · exact Does.last runs_store rfl
    · exact does_pure
  · simp only [true_and, and_true]
    exact spec_inside

theorem readsOne_readData {capacity : Nat} :
    ReadsOne E length (Rcv.readData E capacity) (dataAt E) := by
  intro no a offset
  refine Does.congr (Does.then runs_store (Does.then runs_ntohs (Does.then runs_ntohs
    (Does.last runs_readEid rfl)))) ?_
  rw [true_and]
  exact spec_inside

theorem runs_forFields {readOne : Nat → Nat → Nat → Proc Event (FieldInfo × Nat)}
    {field : Nat → Nat → Nat → FieldInfo} (hr : ReadsOne E length readOne field)
    (hf : ∀ no a offset, (field no a offset).type.length = be16 E.mem (a + 2))
    {n no a offset : Nat} (ho : offset < 65536) :
    Runs length (Rcv.forFields readOne n no a offset) (n = 0 ∨ specsEnd E.mem n a ≤ length) []
      (fieldsAt E.mem field n no a offset, specsEnd E.mem n a,
        (offset + (specLengths E.mem n a).sum) % 65536) := by
  induction n generalizing no a offset with
  | zero =>
    have hv : (offset + (specLengths E.mem 0 a).sum) % 65536 = offset := Nat.mod_eq_of_lt ho
    rw [hv]
    exact does_pure.congr (by simp only [true_or])
  | succ n ih =>
    have hv : (offset + (specLengths E.mem (n + 1) a).sum) % 65536 =
        ((offset + be16 E.mem (a + 2)) % 65536 +
          (specLengths E.mem n (specEnd E.mem a)).sum) % 65536 := by
      rw [specLengths, List.sum_cons, Nat.mod_add_mod, Nat.add_assoc]
    rw [hv]
    refine Does.congr (Does.then (hr no a offset)
      (R := n = 0 ∨ specsEnd E.mem n (specEnd E.mem a) ≤ length) ?_) ?_
    · simp only [hf]
      exact Does.last (ih (Nat.mod_lt _ (by decide))) rfl
    · have := le_specsEnd E.mem n (specEnd E.mem a)
      rw [show specsEnd E.mem (n + 1) a = specsEnd E.mem n (specEnd E.mem a) from rfl]
      refine ⟨?_, ?_⟩
      · rintro ⟨h, h' | h'⟩
        · subst h'; exact .inr h
        · exact .inr h'
      · rintro (h | h)
        · cases h
        · exact ⟨by omega, .inr h⟩

end Fields

/-! ## Templates -/

section Templates

variable (E : Env)

/-- The fixed values: their field infos with length and offset into the block at `dataStart`. -/
def locatedData (m : Mem) (dataStart : Nat) : List FieldInfo → Nat → List FieldInfo
  | [], _ => []
  | fi :: fis, len =>
    let offset :=
      if fi.type.length = 65535 then
        if (m (dataStart + len % 65536)).toNat = 255 then ((len % 65536 + 1) % 65536 + 2) % 65536
        else (len % 65536 + 1) % 65536
      else len % 65536
    let length := blockPart m dataStart len fi.type.length
    { fi with type.length := length, offset := offset } :: locatedData m dataStart fis
      (len + length)

/-- Offsets of a template whose fields have the lengths `lengths`. -/
def offsetsFor (lengths : List Nat) (fis : List FieldInfo) : List FieldInfo :=
  if 65535 ∈ lengths then Rcv.unknownOffsets fis else fis

def templateInfoAt (th : Nat) : TemplateInfo :=
  let n := be16 E.mem (th + 2)
  ⟨be16 E.mem th, n,
    offsetsFor (specLengths E.mem n (th + 4)) (fieldsAt E.mem (fieldAt E) n 0 (th + 4) 0)⟩

def optionsTemplateInfoAt (th : Nat) : OptionsTemplateInfo :=
  let s := (optionCounts E.mem th).1
  let n := (optionCounts E.mem th).2
  let a := specsEnd E.mem s (th + 6)
  let lengths := specLengths E.mem s (th + 6) ++ specLengths E.mem n a
  ⟨be16 E.mem th, s, offsetsFor lengths (fieldsAt E.mem (scopeAt E) s 0 (th + 6) 0),
    n, offsetsFor lengths
      (fieldsAt E.mem (fieldAt E) n 0 a ((specLengths E.mem s (th + 6)).sum % 65536))⟩

def dataTemplateInfoAt (th : Nat) : DataTemplateInfo :=
  let n := be16 E.mem (th + 2)
  let c := be16 E.mem (th + 4)
  let start := dataStart E.mem th
  ⟨be16 E.mem th, be16 E.mem (th + 6), n,
    offsetsFor (specLengths E.mem n (th + 8)) (fieldsAt E.mem (fieldAt E) n 0 (th + 8) 0), c,
    locatedData E.mem start (fieldsAt E.mem (dataAt E) c 0 (specsEnd E.mem n (th + 8)) 0) 0,
    slice E.mem start (blockLength E.mem start (dataLengths E.mem th) 0)⟩

def infoAt (th : Nat) : Kind → Info
  | .template => .templateInfo (templateInfoAt E th)
  | .optionsTemplate => .optionsTemplateInfo (optionsTemplateInfoAt E th)
  | .dataTemplate => .dataTemplateInfo (dataTemplateInfoAt E th)

/-- What the template at `th` of the set at `set` is buffered as. -/
def entryAt (sid set th : Nat) (k : Kind) : BufferedTemplate :=
  ⟨sid, be16 E.mem th, (templateAt E.mem th k).recordLength, be16 E.mem set, 0, infoAt E th k⟩

/-- The template callback for a template. -/
def Info.announcement : Info → Call
  | .templateInfo ti => .template ti
  | .optionsTemplateInfo ti => .optionsTemplate ti
  | .dataTemplateInfo ti => .dataTemplate ti

/-- The template buffer after the template at `th`. -/
def afterTemplate (k : Kind) (sid set : Nat) (tb : TemplateBuffer) (th : Nat) : TemplateBuffer :=
  if be16 E.mem (th + 2) = 0 then tb.unlink (sid, be16 E.mem th)
  else entryAt E sid set th k :: tb.unlink (sid, be16 E.mem th)

/-- What is seen of the template at `th`. -/
def templateSeen (k : Kind) (sid : Nat) (tb : TemplateBuffer) (th : Nat) : List Event :=
  E.parser.lost tb (sid, be16 E.mem th) ++
    if be16 E.mem (th + 2) = 0 then [] else E.parser.calls sid (infoAt E th k).announcement

/-- The three template processors. -/
def Rcv.stepOf : Kind → Nat → Nat → Nat → TemplateBuffer → Proc Event (Nat × TemplateBuffer)
  | .template => Rcv.templateStep E
  | .optionsTemplate => Rcv.optionsTemplateStep E
  | .dataTemplate => Rcv.dataTemplateStep E

variable {E} {length : Nat}

theorem runs_destroyBufferedTemplate {P : IpfixParser} {tb : TemplateBuffer} {sid tid : Nat} :
    Runs length (destroyBufferedTemplate P tb sid tid) True (P.lost tb (sid, tid))
      (tb.unlink (sid, tid)) := by
  refine ⟨_, returns_destroyBufferedTemplate, ?_, ?_⟩
  · refine iff_true_intro fun e he => ?_
    unfold IpfixParser.lost at he
    split at he
    · cases he
    · rename_i bt _
      unfold IpfixParser.destroyed at he
      split at he
      · rename_i hc
        obtain ⟨f, hf, rfl⟩ := List.mem_map.mp he
        have hcall := IpfixParser.call_of_mem_fired hf
        unfold BufferedTemplate.destruction at hc
        simp only [Event.Inside, hcall]
        split at hc <;> split at hc <;> simp only [Option.some.injEq, reduceCtorEq] at hc <;>
          subst hc <;> trivial
      · cases he
  · unfold IpfixParser.lost
    split
    · rfl
    · rename_i bt _
      unfold IpfixParser.destroyed
      split
      · exact flatMap_seen _
      · rfl

theorem runs_bufferTemplate {P : IpfixParser} {tb : TemplateBuffer} {bt : BufferedTemplate} :
    Runs length (bufferTemplate P tb bt) True (P.lost tb bt.key)
      ({ bt with expires := 0 } :: tb.unlink bt.key) :=
  Does.last runs_destroyBufferedTemplate rfl

theorem isLengthVarying_fieldsAt {m : Mem} {field : Nat → Nat → Nat → FieldInfo}
    (hf : ∀ no a offset, (field no a offset).type.isVariableLength = (be16 m (a + 2) == 65535))
    {n no a offset : Nat} :
    Rcv.isLengthVarying (fieldsAt m field n no a offset) = decide (65535 ∈ specLengths m n a) := by
  induction n generalizing no a offset with
  | zero => rfl
  | succ n ih =>
    have hc : Rcv.isLengthVarying (fieldsAt m field (n + 1) no a offset) =
        (be16 m (a + 2) == 65535 || decide (65535 ∈ specLengths m n (specEnd m a))) := by
      rw [← ih, ← hf no a offset]; rfl
    rw [hc, specLengths]
    simp only [List.mem_cons, Bool.decide_or, @eq_comm Nat 65535]
    rfl

theorem isLengthVarying_fieldAt {n no a offset : Nat} :
    Rcv.isLengthVarying (fieldsAt E.mem (fieldAt E) n no a offset) =
      decide (65535 ∈ specLengths E.mem n a) :=
  isLengthVarying_fieldsAt fun _ _ _ => rfl

theorem isLengthVarying_scopeAt {n no a offset : Nat} :
    Rcv.isLengthVarying (fieldsAt E.mem (scopeAt E) n no a offset) =
      decide (65535 ∈ specLengths E.mem n a) :=
  isLengthVarying_fieldsAt fun _ _ _ => rfl

/-- The common start of the template processors, for a template without fields. -/
theorem runs_withdrawal {tb : TemplateBuffer} {sid th x : Nat}
    {k : Nat → Nat → Proc Event (Nat × TemplateBuffer)} (h : be16 E.mem (th + 2) = 0)
    (hk : ∀ tid, k 0 tid = do
      let tb ← destroyBufferedTemplate E.parser tb sid tid
      pure (x, tb)) :
    Runs length (do
        let fieldCount ← Rcv.ntohs E (th + 2)
        let templateId ← Rcv.ntohs E th
        k fieldCount templateId)
      (th + 4 ≤ length) (E.parser.lost tb (sid, be16 E.mem th))
      (x, tb.unlink (sid, be16 E.mem th)) := by
  refine Does.congr (Does.then runs_ntohs (Does.then runs_ntohs (R := True) ?_)) ?_
  · rw [h, hk]
    exact Does.last runs_destroyBufferedTemplate rfl
  · refine ⟨?_, ?_⟩
    · intro ⟨h, _⟩; omega
    · intro h; exact ⟨by omega, by omega, trivial⟩

theorem runs_templateStep {tb : TemplateBuffer} {sid set th : Nat} (hset : set ≤ th) :
    Runs length (Rcv.templateStep E sid set th tb) (TemplateFits E.mem length th .template)
      (templateSeen E .template sid tb th)
      (templateEnd E.mem th .template, afterTemplate E .template sid set tb th) := by
  unfold TemplateFits templateSeen afterTemplate templateEnd
  by_cases h : be16 E.mem (th + 2) = 0
  · simp only [h, if_true, List.append_nil]
    exact runs_withdrawal h (fun tid => by rw [if_pos rfl]; rfl)
  · simp only [if_neg h]
    apply Does.congr
    · apply Does.then runs_ntohs
      apply Does.then runs_ntohs
      rw [if_neg h]
      apply Does.then runs_ntohs
      apply Does.then (runs_forFields readsOne_readField (fun _ _ _ => rfl) (by decide))
      simp only [isLengthVarying_fieldAt, decide_eq_true_eq, Nat.zero_add]
      apply Does.bind runs_bufferTemplate
      exact Does.last runs_invoke rfl
    · have := le_specsEnd E.mem (be16 E.mem (th + 2)) (th + 4)
      simp only [Call.Inside, reduceCtorEq, false_imp_iff, implies_true, and_true, h, false_or]
      omega

theorem runs_optionsTemplateStep {tb : TemplateBuffer} {sid set th : Nat} (hset : set ≤ th) :
    Runs length (Rcv.optionsTemplateStep E sid set th tb)
      (TemplateFits E.mem length th .optionsTemplate) (templateSeen E .optionsTemplate sid tb th)
      (templateEnd E.mem th .optionsTemplate,
        afterTemplate E .optionsTemplate sid set tb th) := by
  unfold TemplateFits templateSeen afterTemplate templateEnd
  by_cases h : be16 E.mem (th + 2) = 0
  · simp only [h, if_true, List.append_nil]
    exact runs_withdrawal h (fun tid => by rw [if_pos rfl])
  · simp only [if_neg h]
    apply Does.congr
    · apply Does.then runs_ntohs
      apply Does.then runs_ntohs
      rw [if_neg h]
      apply Does.then runs_ntohs
      apply Does.then runs_ntohs
      apply Does.then (runs_forFields readsOne_readScope (fun _ _ _ => rfl) (by decide))
      apply Does.then
        (runs_forFields readsOne_readField (fun _ _ _ => rfl) (Nat.mod_lt _ (by decide)))
      simp only [isLengthVarying_fieldAt, isLengthVarying_scopeAt, ← Bool.decide_or,
        ← List.mem_append, decide_eq_true_eq, Nat.zero_add, Nat.mod_add_mod, ← List.sum_append]
      apply Does.bind runs_bufferTemplate
      exact Does.last runs_invoke rfl
    · have h1 := le_specsEnd E.mem (optionCounts E.mem th).1 (th + 6)
      have h2 := le_specsEnd E.mem (optionCounts E.mem th).2
        (specsEnd E.mem (optionCounts E.mem th).1 (th + 6))
      have h3 := be16_lt E.mem (th + 2)
      simp only [optionCounts] at h1 h2 ⊢
      simp only [Call.Inside, reduceCtorEq, false_imp_iff, implies_true, and_true]
      refine ⟨?_, ?_⟩
      · rintro ⟨-, -, -, -, hs, hf | hf⟩
        · -- a template with fields has scopes or further fields
          have : be16 E.mem (th + 4) ≠ 0 := by omega
          rw [hf, specsEnd]
          exact hs.resolve_left this
        · exact hf
      · intro h4
        exact ⟨by omega, by omega, by omega, by omega, .inr (by omega), .inr h4⟩

theorem runs_dataPrefix {dataStart len : Nat} :
    Runs length (Rcv.dataPrefix E dataStart (len % 65536))
      (dataStart + len % 65536 + 1 ≤ length ∧
        ((E.mem (dataStart + len % 65536)).toNat = 255 →
          dataStart + (len % 65536 + 1) % 65536 + 2 ≤ length)) []
      (blockPart E.mem dataStart len 65535,
        if (E.mem (dataStart + len % 65536)).toNat = 255 then
          ((len % 65536 + 1) % 65536 + 2) % 65536
        else (len % 65536 + 1) % 65536) := by
  refine Does.then runs_host8 ?_
  unfold blockPart
  by_cases h : (E.mem (dataStart + len % 65536)).toNat = 255
  · simp only [h, if_true, true_imp_iff]
    exact Does.last runs_host16 rfl
  · simp only [h, if_false, if_true, false_imp_iff]
    exact does_pure

theorem runs_locateData {dataStart len : Nat} {fis : List FieldInfo} {ls : List Nat}
    (hl : fis.map (·.type.length) = ls) :
    Runs length (Rcv.locateData E dataStart fis len) (BlockFits E.mem length dataStart ls len) []
      (locatedData E.mem dataStart fis len, blockLength E.mem dataStart ls len) := by
  subst hl
  induction fis generalizing len with
  | nil => exact does_pure
  | cons fi fis ih =>
    have hpart : Runs length (Rcv.locateValue E dataStart fi (len % 65536))
        (fi.type.length = 65535 → dataStart + len % 65536 + 1 ≤ length ∧
          ((E.mem (dataStart + len % 65536)).toNat = 255 →
            dataStart + (len % 65536 + 1) % 65536 + 2 ≤ length)) []
        (blockPart E.mem dataStart len fi.type.length,
          if fi.type.length = 65535 then
            if (E.mem (dataStart + len % 65536)).toNat = 255 then
              ((len % 65536 + 1) % 65536 + 2) % 65536
            else (len % 65536 + 1) % 65536
          else len % 65536) := by
      unfold Rcv.locateValue
      by_cases h : fi.type.length = 65535
      · simp only [h, if_true, true_imp_iff]
        exact runs_dataPrefix
      · simp only [h, if_false, false_imp_iff, blockPart]
        exact does_pure
    exact Does.then hpart (Does.last ih rfl)

theorem lengths_fieldsAt {m : Mem} {field : Nat → Nat → Nat → FieldInfo}
    (hf : ∀ no a offset, (field no a offset).type.length = be16 m (a + 2)) {n no a offset : Nat} :
    (fieldsAt m field n no a offset).map (·.type.length) = specLengths m n a := by
  induction n generalizing no a offset with
  | zero => rfl
  | succ n ih => rw [fieldsAt, List.map_cons, ih, hf, specLengths]

theorem runs_dataTemplateStep {tb : TemplateBuffer} {sid set th : Nat} (hset : set ≤ th) :
    Runs length (Rcv.dataTemplateStep E sid set th tb)
      (TemplateFits E.mem length th .dataTemplate) (templateSeen E .dataTemplate sid tb th)
      (templateEnd E.mem th .dataTemplate, afterTemplate E .dataTemplate sid set tb th) := by
  unfold TemplateFits templateSeen afterTemplate templateEnd
  by_cases h : be16 E.mem (th + 2) = 0
  · simp only [h, if_true, List.append_nil]
    exact runs_withdrawal h (fun tid => by rw [if_pos rfl])
  · simp only [if_neg h]
    apply Does.congr
    · apply Does.then runs_ntohs
      apply Does.then runs_ntohs
      rw [if_neg h]
      apply Does.then runs_ntohs
      apply Does.then runs_ntohs
      apply Does.then runs_ntohs
      apply Does.then (runs_forFields readsOne_readField (fun _ _ _ => rfl) (by decide))
      apply Does.then (runs_forFields readsOne_readData (fun _ _ _ => rfl) (by decide))
      apply Does.then (runs_locateData (lengths_fieldsAt fun _ _ _ => rfl))
      apply Does.then does_emit
      simp only [isLengthVarying_fieldAt, decide_eq_true_eq, Nat.zero_add]
      apply Does.bind runs_bufferTemplate
      exact Does.last runs_invoke rfl
    · have h1 := le_specsEnd E.mem (be16 E.mem (th + 2)) (th + 8)
      have h2 := le_specsEnd E.mem (be16 E.mem (th + 4))
        (specsEnd E.mem (be16 E.mem (th + 2)) (th + 8))
      simp only [Call.Inside, Event.Inside, within_iff, implies_true, and_true, forall_const,
        dataStart, dataLengths]
      refine ⟨?_, ?_⟩
      · intro hall
        obtain ⟨_, _, _, h6, _, hf, hd, hb, hr⟩ := hall
        refine ⟨?_, hb⟩
        rcases hf with hf | hf
        · exact absurd hf h
        · rcases hr with hr | hr
          · rw [hr]
            rcases hd with hd | hd
            · rw [hd, specsEnd]; omega
            · omega
          · exact hr
      · intro hend
        obtain ⟨h3, hb⟩ := hend
        exact ⟨by omega, by omega, by omega, by omega, by omega, .inr (by omega), .inr (by omega),
          hb, .inr h3⟩

theorem runs_stepOf {k : Kind} {tb : TemplateBuffer} {sid set th : Nat} (hset : set ≤ th) :
    Runs length (Rcv.stepOf E k sid set th tb) (TemplateFits E.mem length th k)
      (templateSeen E k sid tb th) (templateEnd E.mem th k, afterTemplate E k sid set tb th) := by
  cases k with
  | template => exact runs_templateStep hset
  | optionsTemplate => exact runs_optionsTemplateStep hset
  | dataTemplate => exact runs_dataTemplateStep hset

end Templates

/-! ## Template sets -/

section Sets

variable {E : Env} {length : Nat} {k : Kind} {sid set : Nat}

/-- What is seen of the templates at `ths`. -/
def templatesSeen (E : Env) (k : Kind) (sid set : Nat) : List Nat → TemplateBuffer → List Event
  | [], _ => []
  | th :: ths, tb =>
    templateSeen E k sid tb th ++ templatesSeen E k sid set ths (afterTemplate E k sid set tb th)

theorem runs_templates (endOfSet th : Nat) (tb : TemplateBuffer) (hset : set ≤ th) :
    ∃ x, Runs length
      (loop (fun s => s.1 + 3 < endOfSet) (fun s => Rcv.stepOf E k sid set s.1 s.2) (th, tb))
      (∀ t, t ∈ templateStarts E.mem k endOfSet th → TemplateFits E.mem length t k)
      (templatesSeen E k sid set (templateStarts E.mem k endOfSet th) tb)
      (x, (templateStarts E.mem k endOfSet th).foldl (afterTemplate E k sid set) tb) := by
  induction hm : endOfSet - th using Nat.strongRecOn generalizing th tb with
  | _ m ih =>
    have hlt := lt_templateEnd E.mem th k
    rw [templateStarts]
    by_cases h : th + 3 < endOfSet
    · obtain ⟨x, hx⟩ := ih (endOfSet - templateEnd E.mem th k) (by omega) (templateEnd E.mem th k)
        (afterTemplate E k sid set tb th) (by omega) rfl
      rw [if_pos h]
      refine ⟨x, Does.congr (Does.loop_step (decide_eq_true h) (runs_stepOf hset) hx) ?_⟩
      simp only [List.mem_cons, forall_eq_or_imp]
    · rw [if_neg h]
      exact ⟨th, Does.congr (does_loop_done (decide_eq_false h)) (by simp)⟩

theorem runs_forTemplates {tb : TemplateBuffer} :
    Runs length (Rcv.forTemplates E (Rcv.stepOf E k sid set) set tb)
      (set + 4 ≤ length ∧
        ∀ t, t ∈ templateStarts E.mem k (set + be16 E.mem (set + 2)) (set + 4) →
          TemplateFits E.mem length t k)
      (templatesSeen E k sid set
        (templateStarts E.mem k (set + be16 E.mem (set + 2)) (set + 4)) tb)
      ((templateStarts E.mem k (set + be16 E.mem (set + 2)) (set + 4)).foldl
        (afterTemplate E k sid set) tb) := by
  obtain ⟨x, hx⟩ :=
    runs_templates (set + be16 E.mem (set + 2)) (set + 4) tb (Nat.le_add_right set 4)
  exact Does.then runs_ntohs (Does.last hx rfl)

end Sets

end Topas
