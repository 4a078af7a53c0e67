import Topas.Core.Xml

/-!
# Pointers into XML trees

A pointer is a node with its place in the tree: the siblings before it, nearest first, those that
follow it, and the pointer to its parent. The parent of the root element is the document.

* `seek_eq_some`, `seek_skip`: the loop that goes on to the next node that is looked for.
* `filter_places`: the nodes that such loops find one after another are those of the level.
* `begins_rewindFrom`: the loop that goes back to the first element of a level.
* `Begins.seekFrom`: from there on, everything on the level is found.
-/
namespace Topas.Xml

variable {κ : Type}

/-- `xmlNodePtr`. -/
inductive XmlPtr (κ : Type) where
  | document (level : Level κ)
  | node (parent : XmlPtr κ) (before : Level κ) (x : Xml κ) (after : Level κ)

/-- `xmlGetProp`. -/
def prop (attrName : String) : Xml κ → Option (List Char)
  | text _ => none
  | element _ attributes _ => attributes.lookup attrName

namespace XmlPtr

/-- `node->parent`. -/
def parent? : XmlPtr κ → Option (XmlPtr κ)
  | document _ => none
  | node parent _ _ _ => some parent

/-- The level that `node->children` begins. -/
def kids : XmlPtr κ → Level κ
  | document level => level
  | node _ _ x _ => x.children

/-- `xmlNodeGetContent`. -/
def content : XmlPtr κ → List Char
  | document level => contents level
  | node _ _ x _ => x.content

def prop (attrName : String) : XmlPtr κ → Option (List Char)
  | document _ => none
  | node _ _ x _ => x.prop attrName

/-- The document is neither text nor an element. -/
def is (p : Xml κ → Bool) : XmlPtr κ → Bool
  | document _ => false
  | node _ _ x _ => p x

/-! ## Going on -/

/-- `while (node && !p(node)) node = node->next;` -/
def seek (p : Xml κ → Bool) (parent : XmlPtr κ) : Level κ → Level κ → Option (XmlPtr κ)
  | _, [] => none
  | before, x :: after =>
    if p x then some (node parent before x after) else seek p parent (x :: before) after

/-- The loop, from a node on. -/
def seekFrom (p : Xml κ → Bool) : XmlPtr κ → Option (XmlPtr κ)
  | document _ => none
  | node parent before x after => seek p parent before (x :: after)

/-- From `node->next` on. -/
def seekNext (p : Xml κ → Bool) : XmlPtr κ → Option (XmlPtr κ)
  | document _ => none
  | node parent before x after => seek p parent (x :: before) after

/-- From `node->children` on. -/
def seekChild (p : Xml κ → Bool) (q : XmlPtr κ) : Option (XmlPtr κ) := seek p q [] q.kids

/-- The places of the nodes that follow those of `before`. -/
def places (parent : XmlPtr κ) : Level κ → Level κ → List (XmlPtr κ)
  | _, [] => []
  | before, x :: after => node parent before x after :: places parent (x :: before) after

/-- The children, in the order of the document. -/
def childNodes (q : XmlPtr κ) : List (XmlPtr κ) := places q [] q.kids

section Seek

variable {p : Xml κ → Bool} {parent q : XmlPtr κ} {before l : Level κ}

theorem seek_skip {pre : Level κ} (h : ∀ x ∈ pre, p x = false) (before l : Level κ) :
    seek p parent before (pre ++ l) = seek p parent (pre.reverse ++ before) l := by
  induction pre generalizing before with
  | nil => rfl
  | cons x pre ih =>
    rw [List.forall_mem_cons] at h
    rw [List.cons_append, seek, if_neg (by simp [h.1]), ih h.2, List.reverse_cons,
      List.append_assoc]
    rfl

theorem seek_eq_some : seek p parent before l = some q ↔ ∃ pre x after, l = pre ++ x :: after ∧
    (∀ y ∈ pre, p y = false) ∧ p x = true ∧ q = node parent (pre.reverse ++ before) x after := by
  constructor
  · intro h
    induction l generalizing before with
    | nil => cases h
    | cons x after ih =>
      rw [seek] at h
      split at h
      · rename_i hx
        exact ⟨[], x, after, rfl, by simp, hx, (Option.some.inj h).symm⟩
      · rename_i hx
        obtain ⟨pre, y, after', rfl, hpre, hy, rfl⟩ := ih h
        exact ⟨x :: pre, y, after', rfl, List.forall_mem_cons.mpr ⟨by simpa using hx, hpre⟩,
          hy, by simp⟩
  · rintro ⟨pre, x, after, rfl, hpre, hx, rfl⟩
    rw [seek_skip hpre, seek, if_pos hx]

theorem seek_eq_none : seek p parent before l = none ↔ ∀ x ∈ l, p x = false := by
  induction l generalizing before with
  | nil => simp [seek]
  | cons x after ih =>
    rw [seek, List.forall_mem_cons]
    split
    · rename_i hx
      simp [hx]
    · rename_i hx
      rw [ih]
      simp [hx]

/-- One loop finds the first of the places that are looked for, and the others follow it. -/
theorem filter_places : (places parent before l).filter (is p) =
    match seek p parent before l with
    | none => []
    | some q => q :: (match q with
      | document _ => []
      | node parent before x after => (places parent (x :: before) after).filter (is p)) := by
  induction l generalizing before with
  | nil => rfl
  | cons x after ih =>
    rw [places, List.filter_cons, seek]
    cases hx : p x with
    | true => simp [is, hx]
    | false => simpa [is, hx] using ih

theorem mem_places : q ∈ places parent before l ↔ ∃ pre x after, l = pre ++ x :: after ∧
    q = node parent (pre.reverse ++ before) x after := by
  induction l generalizing before with
  | nil => simp [places]
  | cons x after ih =>
    rw [places, List.mem_cons, ih]
    constructor
    · rintro (rfl | ⟨pre, y, post, rfl, rfl⟩)
      · exact ⟨[], x, after, rfl, rfl⟩
      · exact ⟨x :: pre, y, post, rfl, by simp⟩
    · rintro ⟨pre, y, post, heq, rfl⟩
      cases pre with
      | nil =>
        cases heq
        exact .inl rfl
      | cons z pre =>
        cases heq
        exact .inr ⟨pre, y, post, rfl, by simp⟩

/-- The number of nodes before it tells a place from the others. -/
theorem nodup_places : (places parent before l).Nodup := by
  induction l generalizing before with
  | nil => exact List.nodup_nil
  | cons x after ih =>
    refine List.nodup_cons.mpr ⟨fun hmem => ?_, ih⟩
    obtain ⟨pre, y, post, -, heq⟩ := mem_places.mp hmem
    have hlength := congrArg List.length (XmlPtr.node.inj heq).2.1
    simp only [List.length_append, List.length_reverse, List.length_cons] at hlength
    omega

end Seek

/-! ## Going back -/

/-- `while (node) { if (node->type == XML_ELEMENT_NODE) last = node; node = node->prev; }` -/
def rewind (last : XmlPtr κ) (parent : XmlPtr κ) : Level κ → Xml κ → Level κ → XmlPtr κ
  | [], x, after => if x.isElement then node parent [] x after else last
  | y :: before, x, after =>
    rewind (if x.isElement then node parent (y :: before) x after else last) parent before y
      (x :: after)

/-- A level is gone through from its end: the last element that is met is the first. -/
theorem rewind_getD (parent d : XmlPtr κ) (before : Level κ) (x : Xml κ) (after : Level κ) :
    rewind ((seek isElement parent (x :: before) after).getD d) parent before x after =
      (seek isElement parent [] (before.reverse ++ x :: after)).getD d := by
  induction before generalizing x after with
  | nil =>
    rw [rewind, List.reverse_nil, List.nil_append, seek]
    split <;> rfl
  | cons y before ih =>
    have hstep : (if x.isElement then node parent (y :: before) x after
        else (seek isElement parent (x :: y :: before) after).getD d) =
        (seek isElement parent (y :: before) (x :: after)).getD d := by
      rw [seek]
      split <;> rfl
    rw [rewind, hstep, ih, List.reverse_cons, List.append_assoc]
    rfl

/-- From an element back. -/
theorem rewind_eq (parent last d : XmlPtr κ) (before : Level κ) {x : Xml κ} (after : Level κ)
    (hx : x.isElement = true) :
    rewind last parent before x after =
      (seek isElement parent [] (before.reverse ++ x :: after)).getD d := by
  rw [← rewind_getD]
  cases before <;> simp only [rewind, hx, if_true]

/-- From a node back; the document has no siblings. -/
def rewindFrom (last : XmlPtr κ) : XmlPtr κ → XmlPtr κ
  | document _ => last
  | node parent before x after => rewind last parent before x after

/-! ## Places of one tree -/

/-- The places of a node and of those above it belong together. -/
inductive Placed : XmlPtr κ → Prop where
  | document (level : Level κ) : Placed (document level)
  | node {parent : XmlPtr κ} {before : Level κ} {x : Xml κ} {after : Level κ} :
      Placed parent → parent.kids = before.reverse ++ x :: after →
        Placed (node parent before x after)

/-- A child of a node. -/
def On (parent q : XmlPtr κ) : Prop :=
  ∃ before x after, q = node parent before x after ∧ parent.kids = before.reverse ++ x :: after

/-- A child of a node before which there are no elements. -/
def Begins (parent q : XmlPtr κ) : Prop :=
  ∃ before x after, q = node parent before x after ∧ parent.kids = before.reverse ++ x :: after ∧
    ∀ y ∈ before, y.isElement = false

section On

variable {p : Xml κ → Bool} {parent q r : XmlPtr κ}

theorem mem_childNodes : q ∈ parent.childNodes ↔ On parent q := by
  rw [childNodes, mem_places]
  constructor
  · rintro ⟨pre, x, after, hkids, rfl⟩
    exact ⟨_, x, after, rfl, by simpa using hkids⟩
  · rintro ⟨before, x, after, rfl, hkids⟩
    exact ⟨before.reverse, x, after, hkids, by simp⟩

theorem Begins.on (h : Begins parent q) : On parent q := by
  obtain ⟨before, x, after, rfl, hkids, -⟩ := h
  exact ⟨before, x, after, rfl, hkids⟩

theorem On.placed (h : On parent q) (hparent : Placed parent) : Placed q := by
  obtain ⟨before, x, after, rfl, hkids⟩ := h
  exact .node hparent hkids

theorem on_of_seekChild (h : parent.seekChild p = some q) : On parent q := by
  obtain ⟨pre, x, after, hkids, -, -, rfl⟩ := seek_eq_some.mp h
  exact ⟨_, x, after, rfl, by simpa using hkids⟩

theorem begins_of_seekChild (h : parent.seekChild isElement = some q) : Begins parent q := by
  obtain ⟨pre, x, after, hkids, hpre, -, rfl⟩ := seek_eq_some.mp h
  exact ⟨_, x, after, rfl, by simpa using hkids, by simpa using hpre⟩

theorem On.seekNext (h : On parent q) (hr : q.seekNext p = some r) : On parent r := by
  obtain ⟨before, x, after, rfl, hkids⟩ := h
  obtain ⟨pre, y, post, rfl, -, -, rfl⟩ := seek_eq_some.mp hr
  exact ⟨_, y, post, rfl, by simp [hkids]⟩

/-- From the beginning of a level all of its elements are found. -/
theorem Begins.seekFrom (h : Begins parent q) (hp : ∀ x, p x = true → x.isElement = true) :
    q.seekFrom p = parent.seekChild p := by
  obtain ⟨before, x, after, rfl, hkids, hbefore⟩ := h
  have hskip : ∀ y ∈ before.reverse, p y = false := by
    intro y hy
    by_contra hpy
    have helement := hp y (by simpa using hpy)
    rw [hbefore y (List.mem_reverse.mp hy)] at helement
    cases helement
  rw [seekChild, hkids, seek_skip hskip, List.reverse_reverse, List.append_nil]
  rfl

/-- A node with children is an element. -/
theorem isElement_of_on {before after : Level κ} {x : Xml κ}
    (h : On (node parent before x after) q) :
    x.isElement = true := by
  obtain ⟨before', y, after', rfl, hkids⟩ := h
  cases x with
  | text s => exact absurd (congrArg List.length hkids) (by simp [kids, children])
  | element => rfl

/-- The level of a node that has children, gone through back from it. -/
theorem begins_rewindFrom {last : XmlPtr κ} {before after : Level κ} {x : Xml κ}
    (h : On (node parent before x after) q) (hplaced : Placed (node parent before x after)) :
    Begins parent (rewindFrom last (node parent before x after)) := by
  have hx := isElement_of_on h
  cases hplaced with
  | node _ hkids =>
    cases hfirst : parent.seekChild isElement with
    | none =>
      rw [seekChild, seek_eq_none, hkids] at hfirst
      have := hfirst x (by simp)
      rw [hx] at this
      cases this
    | some first =>
      rw [seekChild, hkids] at hfirst
      rw [rewindFrom, rewind_eq parent last last before after hx, hfirst]
      exact begins_of_seekChild (by rw [seekChild, hkids]; exact hfirst)

end On

end XmlPtr

end Topas.Xml
