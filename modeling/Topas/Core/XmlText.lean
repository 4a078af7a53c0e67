import Mathlib.Data.List.Infix

/-!
# The text of well-formed XML

Markup as a tree whose parts can only be built well-formed: names have no delimiters, an attribute's
value has no quote of its own kind, the attributes of a tag have different names, and an end tag is
that of its element. What `text` gives is well-formed because of that, and a change to a value
leaves it so.

`Focus` is a tag with one of its attributes picked out, `Frame` an element around another one; a
text is split along them by `Focus.text_eq` and `text_plug`.
-/
namespace Topas.XmlText

def isBlank (c : Char) : Bool := c = ' ' || c = '\t' || c = '\n' || c = '\r'

abbrev Blanks := { s : List Char // ∀ c ∈ s, isBlank c = true }

def delimiters : List Char := "<>=/&\"'".toList

/-- The names of elements and attributes. -/
abbrev Name := { s : List Char // s ≠ [] ∧ ∀ c ∈ s, isBlank c = false ∧ c ∉ delimiters }

inductive Quote
  | single
  | double

def Quote.char : Quote → Char
  | single => '\''
  | double => '"'

structure Attribute where
  space : Blanks
  name : Name
  beforeEquals : Blanks
  afterEquals : Blanks
  quote : Quote
  value : List Char
  space_ne : space.val ≠ []
  value_ok : quote.char ∉ value ∧ '<' ∉ value

namespace Attribute

/-- Up to the opening quote. -/
def opening (a : Attribute) : List Char :=
  a.space ++ a.name ++ a.beforeEquals ++ '=' :: (a.afterEquals ++ [a.quote.char])

def text (a : Attribute) : List Char := a.opening ++ (a.value ++ [a.quote.char])

def setValue (a : Attribute) (v : List Char) (h : a.quote.char ∉ v ∧ '<' ∉ v) : Attribute :=
  { a with
    value := v
    value_ok := h }

end Attribute

structure Tag where
  name : Name
  attributes : List Attribute
  space : Blanks
  distinct : (attributes.map (·.name)).Nodup

/-- Without the closing bracket. -/
def Tag.text (t : Tag) : List Char :=
    '<' :: (t.name ++ t.attributes.flatMap Attribute.text ++ t.space)

/-- What is neither an element nor character data. -/
inductive Kind
  | comment
  | cdata
  | instruction
  | doctype

namespace Kind

def opening : Kind → List Char
  | comment => "<!--".toList
  | cdata => "<![CDATA[".toList
  | instruction => "<?".toList
  | doctype => "<!DOCTYPE".toList

def closing : Kind → List Char
  | comment => "-->".toList
  | cdata => "]]>".toList
  | instruction => "?>".toList
  | doctype => ">".toList

/-- What it must not have inside. -/
def forbidden : Kind → List Char
  | comment => "--".toList
  | kind => kind.closing

end Kind

structure Special where
  kind : Kind
  body : List Char
  body_ok : ¬ kind.forbidden <:+: body

def Special.text (s : Special) : List Char := s.kind.opening ++ s.body ++ s.kind.closing

inductive Markup
  | characters (s : { s : List Char // '<' ∉ s })
  | special (s : Special)
  | element (tag : Tag) (children : List Markup)
  | empty (tag : Tag)

mutual

def Markup.text : Markup → List Char
  | .characters s => s
  | .special s => s.text
  | .element tag children =>
    tag.text ++ '>' :: (texts children ++ ("</".toList ++ tag.name ++ ['>']))
  | .empty tag => tag.text ++ "/>".toList

def texts : List Markup → List Char
  | [] => []
  | x :: xs => x.text ++ texts xs

end

theorem texts_append (xs ys : List Markup) : texts (xs ++ ys) = texts xs ++ texts ys := by
  induction xs with
  | nil => rfl
  | cons x xs ih => simp [texts, ih]

/-! ## Elements around an element -/

structure Frame where
  tag : Tag
  before : List Markup
  after : List Markup

/-- The outermost element comes first. -/
def plug : List Frame → Markup → Markup
  | [], x => x
  | f :: fs, x => .element f.tag (f.before ++ plug fs x :: f.after)

def left : List Frame → List Char
  | [] => []
  | f :: fs => f.tag.text ++ '>' :: (texts f.before ++ left fs)

def right : List Frame → List Char
  | [] => []
  | f :: fs => right fs ++ (texts f.after ++ ("</".toList ++ f.tag.name ++ ['>']))

theorem text_plug (fs : List Frame) (x : Markup) :
    (plug fs x).text = left fs ++ x.text ++ right fs := by
  induction fs with
  | nil => simp [plug, left, right]
  | cons f fs ih => simp [plug, left, right, Markup.text, texts_append, texts, ih]

/-! ## An attribute of a tag -/

/-- A tag with one of its attributes picked out. -/
structure Focus where
  name : Name
  before : List Attribute
  attr : Attribute
  after : List Attribute
  space : Blanks
  distinct : ((before ++ attr :: after).map (·.name)).Nodup

namespace Focus

def tag (t : Focus) : Tag := ⟨t.name, t.before ++ t.attr :: t.after, t.space, t.distinct⟩

def setValue (t : Focus) (v : List Char) (h : t.attr.quote.char ∉ v ∧ '<' ∉ v) : Focus :=
  { t with
    attr := t.attr.setValue v h
    distinct := by simpa [Attribute.setValue] using t.distinct }

/-- Up to the value. -/
def head (t : Focus) : List Char :=
  '<' :: (t.name ++ t.before.flatMap Attribute.text ++ t.attr.opening)

/-- From the closing quote on. -/
def rest (t : Focus) : List Char :=
  t.attr.quote.char :: (t.after.flatMap Attribute.text ++ t.space)

theorem text_eq (t : Focus) : t.tag.text = t.head ++ t.attr.value ++ t.rest := by
  simp [tag, Tag.text, head, rest, Attribute.text]

theorem text_setValue (t : Focus) {v : List Char} (h : t.attr.quote.char ∉ v ∧ '<' ∉ v) :
    (t.setValue v h).tag.text = t.head ++ v ++ t.rest :=
  text_eq (t.setValue v h)

end Focus

end Topas.XmlText
