import Topas.L8Snort.IdmefRewrite

/-!
# Which IDMEF messages are rewritten as they should be

A message is a well-formed text with an `Analyzer` that has an `analyzerid` and a `Node` in it. The
module id is to become the value of the one, the TOPAS id the value of the node's `ident`, or that
of a new `ident` if it has none, and everything else is to stay. It is read as one where its closing
tag is a line of its own, and the only one (`Message.Read`).

* `forwarded_iff`: the messages of the FIFO are sent on so, one for one and whatever the ids are,
  exactly where each node has an `ident` and the code finds the two attributes (`Parts.Found`).
* `Message.not_rewritten_plain`: a node without an `ident` is never given one.
-/
namespace Topas.Snort

open XmlText

/-- The start tag of a node, with or without an `ident`. -/
inductive NodeTag
  | identified (t : Focus) (h : t.attr.name.val = "ident".toList)
  | plain (t : Tag) (h : ∀ a ∈ t.attributes, a.name.val ≠ "ident".toList)

namespace NodeTag

def tag : NodeTag → Tag
  | identified t _ => t.tag
  | plain t _ => t

/-- The `ident` has been replaced, or added among the attributes. -/
def Sets (v : List Char) : NodeTag → Tag → Prop
  | identified t _, t' => ∃ h, t' = (t.setValue v h).tag
  | plain t _, t' => ∃ a attr b, t.attributes = a ++ b ∧ t'.attributes = a ++ attr :: b ∧
      attr.name.val = "ident".toList ∧ attr.value = v ∧ t'.name = t.name ∧ t'.space = t.space

end NodeTag

/-- A message, from the outside to the node of the analyzer. -/
structure Message where
  prolog : List Markup
  around : List Frame
  analyzer : Focus
  analyzer_name : analyzer.name.val = "Analyzer".toList
  analyzerid_name : analyzer.attr.name.val = "analyzerid".toList
  before : List Markup
  node : NodeTag
  node_name : node.tag.name.val = "Node".toList
  /-- `none` for a tag that is closed at once. -/
  children : Option (List Markup)
  after : List Markup
  epilog : List Markup

namespace Message

def nodeMarkup (t : Tag) : Option (List Markup) → Markup
  | some children => .element t children
  | none => .empty t

/-- The message with other tags in the place of the two. -/
def markup (m : Message) (analyzer node : Tag) : List Markup :=
  m.prolog ++ plug m.around
    (.element analyzer (m.before ++ nodeMarkup node m.children :: m.after)) :: m.epilog

def text (m : Message) : List Char := texts (m.markup m.analyzer.tag m.node.tag)

/-- What is sent on is the message that was read, with the two ids in their places. -/
def Sent (m : Message) (module topas : Int64) (sent : List Char) : Prop :=
  ∃ h t, m.node.Sets (topasId topas) t ∧
    sent = texts (m.markup (m.analyzer.setValue (moduleId module) h).tag t)

/-- The lines up to the first one that is the closing tag are the whole text. -/
structure Read (m : Message) : Prop where
  lines : ∃ ls, Text.lines m.text = ls ++ [IDMEF_CLOSING_TAG ++ ['\n']] ∧
    IDMEF_CLOSING_TAG ++ ['\n'] ∉ ls
  no_nul : '\x00' ∉ m.text

/-- The code makes of the message what is to be sent on. -/
def Rewritten (P : Platform) (m : Message) : Prop :=
  ∀ module topas : Int64, ∃ h t, m.node.Sets (topasId topas) t ∧
    changeAttributes P (moduleId module) (topasId topas) m.text =
      some (texts (m.markup (m.analyzer.setValue (moduleId module) h).tag t))

/-! ## The text around the tags -/

def leftText (m : Message) : List Char := texts m.prolog ++ left m.around

/-- What closes the tag of the node, and all that comes behind. -/
def rightText (m : Message) (analyzer node : Name) : List Char :=
  (match m.children with
    | some children => '>' :: (texts children ++ ("</".toList ++ node ++ ['>']))
    | none => "/>".toList) ++
  (texts m.after ++ ("</".toList ++ analyzer ++ ['>']) ++ right m.around ++ texts m.epilog)

theorem texts_markup (m : Message) (analyzer node : Tag) :
    texts (m.markup analyzer node) =
      m.leftText ++ analyzer.text ++
        ('>' :: texts m.before ++ node.text ++ m.rightText analyzer.name node.name) := by
  unfold markup leftText rightText nodeMarkup
  cases m.children with
  | some children => simp [texts_append, texts, text_plug, Markup.text]
  | none => simp [texts_append, texts, text_plug, Markup.text]

/-- The parts of a message whose node has an `ident`. -/
def parts (m : Message) (node : Focus) : Parts where
  head := m.leftText ++ m.analyzer.head
  id := m.analyzer.attr.value
  mid := m.analyzer.rest ++ '>' :: (texts m.before ++ node.head)
  ident := node.attr.value
  rest := node.rest ++ m.rightText m.analyzer.name node.name

variable {m : Message} {f : Focus}

theorem texts_parts (m : Message) (f : Focus) :
    texts (m.markup m.analyzer.tag f.tag) = (m.parts f).text := by
  rw [texts_markup, Focus.text_eq, Focus.text_eq]
  simp [parts, Parts.text, Focus.tag]

theorem texts_changed (m : Message) (f : Focus) {module topas : Int64}
    (h : m.analyzer.attr.quote.char ∉ moduleId module ∧ '<' ∉ moduleId module)
    (h' : f.attr.quote.char ∉ topasId topas ∧ '<' ∉ topasId topas) :
    texts
    (m.markup (m.analyzer.setValue (moduleId module) h).tag (f.setValue (topasId topas) h').tag) =
      (m.parts f).changed module topas := by
  rw [texts_markup, Focus.text_setValue, Focus.text_setValue]
  simp [parts, Parts.changed, Focus.tag, Focus.setValue]

/-- What stands before a value: the name, blanks, an equals sign and the quote. -/
theorem opening_eq (a : Attribute) (h : a.name.val = "analyzerid".toList) :
    ∃ z e, a.opening = z ++ (e ++ [a.quote.char]) ∧ e.length = 11 ∧ 't' ∉ e := by
  obtain ⟨s, hs⟩ : ∃ s, s = "analyzerid".toList ++ a.beforeEquals.val ++ '=' :: a.afterEquals.val :=
    ⟨_, rfl⟩
  have hopening : a.opening = a.space.val ++ (s ++ [a.quote.char]) := by
    rw [Attribute.opening, hs, h]
    simp
  have hlen : 11 ≤ s.length := by
    rw [hs]
    simp
    omega
  have ht : 't' ∉ s := by
    intro hin
    simp only [hs, List.mem_append, List.mem_cons] at hin
    rcases hin with (hin | hin) | hin | hin
    · exact absurd hin (by decide)
    · exact absurd (a.beforeEquals.property _ hin) (by decide)
    · exact absurd hin (by decide)
    · exact absurd (a.afterEquals.property _ hin) (by decide)
  refine ⟨a.space.val ++ s.take (s.length - 11), s.drop (s.length - 11), ?_, ?_, ?_⟩
  · rw [hopening, List.append_assoc, ← List.append_assoc (s.take _), List.take_append_drop]
  · rw [List.length_drop]
    omega
  · exact fun hin => ht (List.mem_of_mem_drop hin)

theorem quote_char (q : Quote) : q.char = '"' ∨ q.char = '\'' := by
  cases q with
  | single => exact Or.inr rfl
  | double => exact Or.inl rfl

theorem head_shape (m : Message) :
    ∃ z e, m.leftText ++ m.analyzer.head = z ++ (e ++ [m.analyzer.attr.quote.char]) ∧
    e.length = 11 ∧ 't' ∉ e := by
  obtain ⟨z, e, hopening, he, ht⟩ := opening_eq m.analyzer.attr m.analyzerid_name
  refine
    ⟨m.leftText ++ '<' :: (m.analyzer.name.val ++ m.analyzer.before.flatMap Attribute.text) ++ z, e,
    ?_, he, ht⟩
  rw [Focus.head, hopening]
  simp

theorem parts_shape (m : Message) {f : Focus} (h : f.attr.name.val = "ident".toList) :
    (m.parts f).Shape m.analyzer.attr.quote.char where
  quote := quote_char _
  head := m.head_shape
  id := m.analyzer.attr.value_ok.1
  mid := ⟨_, rfl⟩
  mid_le := by
    have hlen : 7 ≤ f.attr.opening.length := by
      rw [Attribute.opening, h]
      simp
      omega
    simp only [parts, Focus.head, List.length_append, List.length_cons]
    omega

/-- No quote and no bracket is in an id. -/
theorem ids_ok (q : Quote) (i : Int64) :
    (q.char ∉ moduleId i ∧ '<' ∉ moduleId i) ∧ q.char ∉ topasId i ∧ '<' ∉ topasId i := by
  have hnot : ∀ c : Char, c.isDigit = false → c ≠ '-' → c ∉ "snortmodule-topas-".toList →
      c ∉ moduleId i ∧ c ∉ topasId i := by
    intro c hdigit hminus hc
    have hall : ∀ s : List Char, c ∉ s → c ∉ s ++ Text.decInt i.toInt := by
      intro s hs hin
      rcases List.mem_append.mp hin with hin | hin
      · exact hs hin
      · exact Text.not_mem_decInt hdigit hminus hin
    have hsplit : "snortmodule-topas-".toList = "snortmodule-".toList ++ "topas-".toList := rfl
    rw [hsplit] at hc
    exact ⟨hall _ fun hin => hc (List.mem_append_left _ hin),
      hall _ fun hin => hc (List.mem_append_right _ hin)⟩
  have hbracket := hnot '<' rfl (by decide) (by decide)
  have hquote : q.char ∉ moduleId i ∧ q.char ∉ topasId i := by
    cases q with
    | single => exact hnot _ rfl (by decide) (by decide)
    | double => exact hnot _ rfl (by decide) (by decide)
  exact ⟨⟨hquote.1, hbracket.1⟩, hquote.2, hbracket.2⟩

/-- What stands behind the closing quote of the `analyzerid`. -/
def tailText (m : Message) (node : Tag) : List Char :=
  m.analyzer.after.flatMap Attribute.text ++ m.analyzer.space.val ++
    ('>' :: texts m.before ++ node.text ++ m.rightText m.analyzer.name node.name)

theorem texts_tail (m : Message) (node : Tag) :
    texts (m.markup m.analyzer.tag node) =
      m.leftText ++ m.analyzer.head ++ m.analyzer.attr.value ++ m.analyzer.attr.quote.char ::
        m.tailText node := by
  rw [texts_markup, Focus.text_eq]
  simp [tailText, Focus.rest, Focus.tag]

theorem texts_tail_setValue (m : Message) (node : Tag) {v : List Char}
    (h : m.analyzer.attr.quote.char ∉ v ∧ '<' ∉ v) :
    texts (m.markup (m.analyzer.setValue v h).tag node) =
      m.leftText ++ m.analyzer.head ++ v ++ m.analyzer.attr.quote.char :: m.tailText node := by
  rw [texts_markup, Focus.text_setValue]
  simp [tailText, Focus.rest, Focus.tag, Focus.setValue]

/-- A new attribute makes the text longer than its value does. -/
theorem length_tailText_lt (m : Message) {t t' : Tag} {v : List Char} {h}
    (hset : (NodeTag.plain t h).Sets v t') :
    (m.tailText t).length + v.length < (m.tailText t').length := by
  obtain ⟨a, attr, b, hsplit, hsplit', _, hvalue, hname, hspace⟩ := hset
  simp only [tailText, Tag.text, hsplit, hsplit', hname, hspace, ← hvalue, List.length_append,
    List.length_cons,
    List.flatMap_append, List.flatMap_cons, Attribute.text]
  omega

/-- A node without an `ident` is given none: no text is put in but the ids. -/
theorem not_rewritten_plain {P : Platform} {m : Message} {t : Tag} {ht}
    (hnode : m.node = .plain t ht) : ¬ m.Rewritten P := by
  intro h
  have hq : m.analyzer.attr.quote.char ∉ "topas-0".toList := by
    rcases quote_char m.analyzer.attr.quote with hq | hq <;> rw [hq] <;> decide
  have htext : m.text = m.leftText ++ m.analyzer.head ++ m.analyzer.attr.value ++
      m.analyzer.attr.quote.char :: m.tailText t := by
    rw [text, hnode]
    exact m.texts_tail t
  have hall : ∀ i j, ∃ t', (NodeTag.plain t ht).Sets (topasId j) t' ∧
      changeAttributes P (moduleId i) (topasId j) m.text =
        some (m.leftText ++ m.analyzer.head ++ moduleId i ++ m.analyzer.attr.quote.char ::
            m.tailText t') := by
    intro i j
    obtain ⟨hi, t', hset, hout⟩ := h i j
    rw [hnode] at hset
    rw [texts_tail_setValue] at hout
    exact ⟨t', hset, hout⟩
  rw [htext] at hall
  obtain ⟨z, b, hz, _, _, hsecond⟩ := first_value hq m.analyzer.attr.value_ok.1
    fun i j => (hall i j).imp' m.tailText fun t' ht' => ht'.2
  obtain ⟨c, u, d, hcud, _, _, hout⟩ := hsecond 0
  obtain ⟨t', hset, hsent⟩ := hall 0 0
  have hlt := m.length_tailText_lt hset
  have hlen := congrArg List.length (Option.some.inj (hsent.symm.trans (hout (topasId 0))))
  have hlen' := congrArg List.length hcud
  have hlen'' := congrArg List.length hz
  simp only [List.length_append, List.length_cons] at hlen hlen' hlen''
  omega

/-- The code finds both attributes, and the node has an `ident`. -/
def Found (P : Platform) (m : Message) : Prop :=
  ∃ f h, m.node = .identified f h ∧ (m.parts f).Found P

/-- A message is rewritten as it should be, for all ids, exactly where the node of the analyzer has
an `ident` and the code finds the two attributes. -/
theorem rewritten_iff (P : Platform) (m : Message) : m.Rewritten P ↔ m.Found P := by
  cases hnode : m.node with
  | plain t ht =>
    refine ⟨fun h => absurd h (not_rewritten_plain hnode), ?_⟩
    rintro ⟨f, h, heq, _⟩
    rw [hnode] at heq
    cases heq
  | identified f hf =>
    have htext : m.text = (m.parts f).text := by
      rw [text, hnode]
      exact m.texts_parts f
    have hchanged : m.Rewritten P ↔ ∀ i j,
      changeAttributes P (moduleId i) (topasId j) (m.parts f).text =
        some ((m.parts f).changed i j) := by
      rw [← htext]
      refine forall_congr' fun i => forall_congr' fun j => ⟨?_, fun h => ?_⟩
      · rintro ⟨hi, t, hset, hout⟩
        rw [hnode] at hset
        obtain ⟨hj, rfl⟩ := hset
        rw [hout, texts_changed]
      · refine
          ⟨(ids_ok _ i).1, _, ?_, h.trans (congrArg some (m.texts_changed f _ (ids_ok _ j).2).symm)⟩
        rw [hnode]
        exact ⟨_, rfl⟩
    rw [hchanged, Parts.changed_iff_found (m.parts_shape hf)]
    constructor
    · exact fun h => ⟨f, hf, hnode, h⟩
    · rintro ⟨f', hf', heq, h⟩
      rw [hnode] at heq
      cases heq
      exact h

end Message

/-! ## Reading -/

/-- What has been read up to a closing tag is one message. -/
theorem readLoop_append {P : Platform} (x y message : List Char) {lines : List (List Char)}
    (h : IDMEF_CLOSING_TAG ++ ['\n'] ∉ lines) (rest : List (List Char)) :
    readLoop P x y message (lines ++ (IDMEF_CLOSING_TAG ++ ['\n']) :: rest) = do
      let sent ← changeAttributes P x y (message ++ lines.flatten ++ (IDMEF_CLOSING_TAG ++ ['\n']))
      let rest ← readLoop P x y [] rest
      return sent :: rest := by
  induction lines generalizing message with
  | nil =>
    rw [List.nil_append, readLoop, if_pos rfl, List.flatten_nil, List.append_nil]
  | cons line lines ih =>
    have hline : line ≠ IDMEF_CLOSING_TAG ++ ['\n'] := fun heq => h (heq ▸ List.mem_cons_self)
    rw [List.cons_append, readLoop, if_neg hline, ih _ fun hin => h (List.mem_cons_of_mem _ hin)]
    simp only [List.flatten_cons, List.append_assoc]

/-- Without a closing tag nothing is sent on. -/
theorem readLoop_rest {P : Platform} (x y message : List Char) {lines : List (List Char)}
    (h : IDMEF_CLOSING_TAG ++ ['\n'] ∉ lines) : readLoop P x y message lines = some [] := by
  induction lines generalizing message with
  | nil => rfl
  | cons line lines ih =>
    have hline : line ≠ IDMEF_CLOSING_TAG ++ ['\n'] := fun heq => h (heq ▸ List.mem_cons_self)
    rw [readLoop, if_neg hline]
    exact ih _ fun hin => h (List.mem_cons_of_mem _ hin)

theorem map_cStr_lines {s : List Char} (h : '\x00' ∉ s) :
    (Text.lines s).map Text.cStr = Text.lines s := by
  refine (List.map_congr_left fun line hline => ?_).trans (List.map_id _)
  refine Text.cStr_eq_self.mpr fun hin => h ?_
  rw [← Text.flatten_lines s]
  exact List.mem_flatten_of_mem hline hin

namespace Message

variable {P : Platform} {m : Message}

/-- A message is sent on before what follows it is read. -/
theorem Read.xmlWrapperEntry_append (h : m.Read) (x y rest : List Char) :
    xmlWrapperEntry P x y (m.text ++ rest) = do
      let sent ← changeAttributes P x y m.text
      let rest ← xmlWrapperEntry P x y rest
      return sent :: rest := by
  obtain ⟨ls, hls, hnot⟩ := h.lines
  have htext : m.text = (ls.flatten ++ IDMEF_CLOSING_TAG) ++ ['\n'] := by
    rw [← Text.flatten_lines m.text, hls]
    simp
  have hlines : Text.lines (m.text ++ rest) = Text.lines m.text ++ Text.lines rest := by
    rw [htext, List.append_assoc, List.singleton_append, Text.lines_append]
  unfold xmlWrapperEntry
  rw [hlines, List.map_append, map_cStr_lines h.no_nul, hls, List.append_assoc,
    List.singleton_append,
    readLoop_append x y [] hnot, htext, List.nil_append, List.append_assoc]

end Message

/-- The messages of the FIFO, with a part of one more, are sent on with the ids in their places. -/
def Forwarded (P : Platform) (ms : List Message) (rest : List Char) : Prop :=
  ∀ module topas : Int64, ∃ sent,
    xmlWrapperEntry P (moduleId module) (topasId topas)
      (ms.flatMap Message.text ++ rest) = some sent ∧
      List.Forall₂ (fun m => m.Sent module topas) ms sent

section Forwarding

variable {P : Platform} {ms : List Message} {rest : List Char}

/-- The messages are sent on one for one, unless one of them cannot be. -/
theorem xmlWrapperEntry_messages (hread : ∀ m ∈ ms, m.Read)
    (hrest : IDMEF_CLOSING_TAG ++ ['\n'] ∉ (Text.lines rest).map Text.cStr) (x y : List Char)
    (R : Message → List Char → Prop) :
    (∃ sent, xmlWrapperEntry P x y (ms.flatMap Message.text ++ rest) = some sent ∧
      List.Forall₂ R ms sent) ↔
      ∀ m ∈ ms, ∃ out, changeAttributes P x y m.text = some out ∧ R m out := by
  induction ms with
  | nil =>
    refine ⟨fun _ m hm => absurd hm List.not_mem_nil, fun _ => ⟨[], ?_, .nil⟩⟩
    exact readLoop_rest _ _ _ hrest
  | cons m ms ih =>
    have htail := ih fun m hm => hread m (List.mem_cons_of_mem _ hm)
    rw [List.flatMap_cons, List.append_assoc, (hread m List.mem_cons_self).xmlWrapperEntry_append,
      List.forall_mem_cons, ← htail]
    constructor
    · rintro ⟨sent, hsent, hall⟩
      obtain ⟨out, hout, hsent⟩ := Option.bind_eq_some_iff.mp hsent
      obtain ⟨outs, houts, hsent⟩ := Option.bind_eq_some_iff.mp hsent
      obtain rfl := Option.some.inj hsent
      obtain ⟨hm, hms⟩ := List.forall₂_cons.mp hall
      exact ⟨⟨out, hout, hm⟩, outs, houts, hms⟩
    · rintro ⟨⟨out, hout, hm⟩, outs, houts, hms⟩
      exact ⟨out :: outs, by rw [hout, houts]; rfl, .cons hm hms⟩

theorem forwarded_iff_rewritten (hread : ∀ m ∈ ms, m.Read)
    (hrest : IDMEF_CLOSING_TAG ++ ['\n'] ∉ (Text.lines rest).map Text.cStr) :
    Forwarded P ms rest ↔ ∀ m ∈ ms, m.Rewritten P := by
  have hmessages := fun module topas : Int64 => xmlWrapperEntry_messages (P := P) hread hrest
    (moduleId module) (topasId topas) fun m => m.Sent module topas
  constructor
  · intro h m hm module topas
    obtain ⟨out, hout, h, t, hset, rfl⟩ := (hmessages module topas).mp (h module topas) m hm
    exact ⟨h, t, hset, hout⟩
  · intro h module topas
    refine (hmessages module topas).mpr fun m hm => ?_
    obtain ⟨hid, t, hset, hout⟩ := h m hm module topas
    exact ⟨_, hout, hid, t, hset, rfl⟩

/-- The messages are sent on with the two ids in their places, for all ids, exactly where the node
of each analyzer has an `ident` and the code finds the two attributes. -/
theorem forwarded_iff (hread : ∀ m ∈ ms, m.Read)
    (hrest : IDMEF_CLOSING_TAG ++ ['\n'] ∉ (Text.lines rest).map Text.cStr) :
    Forwarded P ms rest ↔ ∀ m ∈ ms, m.Found P :=
  (forwarded_iff_rewritten hread hrest).trans (forall₂_congr fun m _ => m.rewritten_iff P)

end Forwarding

/-! ## A message with an `ident` elsewhere -/

/-- A name that has been checked by a run. -/
def name (s : List Char)
    (h : (!s.isEmpty && s.all fun c => !isBlank c && !delimiters.contains c) = true) :
    Name :=
  ⟨s, by simpa using h⟩

def noBlanks : Blanks := ⟨[], by simp⟩

/-- A tag without attributes. -/
def plainTag (name : Name) : Tag := ⟨name, [], noBlanks, by simp⟩

/-- ` ident="t1"` and the like. -/
def plainAttribute (name : Name) (value : List Char) (h : '"' ∉ value ∧ '<' ∉ value) : Attribute :=
  ⟨⟨[' '], by simp [isBlank]⟩, name, noBlanks, noBlanks, .double, value, by simp, h⟩

/-- `<Alert><Analyzer analyzerid="snort">` … `</Analyzer><Target ident="t1"/></Alert>` in a message
whose closing tag is on the next line. -/
def sampleMessage (node : NodeTag) (h : node.tag.name.val = "Node".toList) : Message where
  prolog := []
  around := [
    ⟨plainTag (name "IDMEF-Message".toList rfl), [], [.characters ⟨['\n'], by simp⟩]⟩,
    ⟨plainTag (name "Alert".toList rfl), [],
      [.empty
        ⟨name "Target".toList rfl, [plainAttribute (name "ident".toList rfl) "t1".toList (by simp)],
        noBlanks, by simp⟩]⟩]
  analyzer := ⟨name "Analyzer".toList rfl, [],
    plainAttribute (name "analyzerid".toList rfl) "snort".toList (by simp), [], noBlanks, by simp⟩
  analyzer_name := rfl
  analyzerid_name := rfl
  before := []
  node := node
  node_name := h
  children := none
  after := []
  epilog := [.characters ⟨['\n'], by simp⟩]

/-- `<Node ident="…"/>` -/
def identNode (ident : List Char) (h : '"' ∉ ident ∧ '<' ∉ ident) : Focus :=
  ⟨name "Node".toList rfl, [], plainAttribute (name "ident".toList rfl) ident h, [],
    noBlanks, by simp⟩

/-- Its node has no `ident`. -/
def targetMessage : Message :=
  sampleMessage (.plain (plainTag (name "Node".toList rfl)) (by simp [plainTag])) rfl

def localMessage : Message := sampleMessage (.identified (identNode "n1".toList (by simp)) rfl) rfl

def emptyMessage : Message := sampleMessage (.identified (identNode [] (by simp)) rfl) rfl

theorem localMessages_read : ∀ m ∈ [localMessage, emptyMessage], m.Read := by
  intro m hm
  rcases List.mem_pair.mp hm with rfl | rfl
  · exact ⟨⟨(Text.lines localMessage.text).dropLast, by decide +kernel, by decide +kernel⟩,
      by decide +kernel⟩
  · exact ⟨⟨(Text.lines emptyMessage.text).dropLast, by decide +kernel, by decide +kernel⟩,
      by decide +kernel⟩

/-- Two messages whose nodes have an `ident`, and the beginning of a third one. -/
theorem forwarded_localMessages :
    Forwarded .lp64 [localMessage, emptyMessage] "<IDMEF-Message>\n".toList := by
  refine (forwarded_iff localMessages_read (by decide +kernel)).mpr fun m hm => ?_
  rcases List.mem_pair.mp hm with rfl | rfl
  · refine ⟨_, rfl, rfl, Parts.found_of_first ?_ ?_ ?_ ?_ ?_⟩ <;> decide +kernel
  · refine ⟨_, rfl, rfl, Parts.found_of_first ?_ ?_ ?_ ?_ ?_⟩ <;> decide +kernel

/-- **Counterexample**: the node of the analyzer gets no `ident`, and that of the target is
replaced. -/
theorem target_changed :
    targetMessage.text =
      ("<IDMEF-Message><Alert><Analyzer analyzerid=\"snort\"><Node/></Analyzer>" ++
      "<Target ident=\"t1\"/></Alert>\n</IDMEF-Message>\n").toList ∧
    targetMessage.Read ∧
    xmlWrapperEntry .lp64 (moduleId 1) (topasId 1) targetMessage.text =
      some [("<IDMEF-Message><Alert><Analyzer analyzerid=\"snortmodule-1\"><Node/></Analyzer>" ++
        "<Target ident=\"topas-1\"/></Alert>\n</IDMEF-Message>\n").toList] ∧
    ¬ ∀ (P : Platform) (ms : List Message), (∀ m ∈ ms, m.Read) → Forwarded P ms [] := by
  have hread : targetMessage.Read :=
    ⟨⟨(Text.lines targetMessage.text).dropLast, by decide +kernel, by decide +kernel⟩,
      by decide +kernel⟩
  have hreads : ∀ m ∈ [targetMessage], m.Read := fun m hm => List.mem_singleton.mp hm ▸ hread
  refine ⟨rfl, hread, by decide +kernel, fun h => ?_⟩
  have hforwarded := h .lp64 [targetMessage] hreads
  exact Message.not_rewritten_plain (m := targetMessage) rfl
    ((forwarded_iff_rewritten hreads List.not_mem_nil).mp hforwarded _ (List.mem_singleton_self _))

end Topas.Snort
