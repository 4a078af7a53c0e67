import Mathlib.Data.List.TakeWhile

/-!
# XML trees and lookups by name

A tree as a reader with a current level goes through it: the level is the list of siblings that
lookups look at, and a lookup finds the first element of its name. Text between elements is never
found.

`Edited name l l'` says that two levels differ in what is in one element of that name, and
nowhere else. Lookups of other names find the same (`Edited.findNode_eq`).
-/
namespace Topas

/-- A node: text, or an element with its attributes and its children. -/
inductive Xml (κ : Type) where
  | text (content : List Char)
  | element (name : κ) (attributes : List (String × List Char)) (children : List (Xml κ))

namespace Xml

variable {κ : Type}

/-- The siblings at which a reader is. -/
abbrev Level (κ : Type) := List (Xml κ)

mutual

/-- All the text in a node. -/
def content : Xml κ → List Char
  | text s => s
  | element _ _ children => contents children

def contents : Level κ → List Char
  | [] => []
  | x :: xs => x.content ++ contents xs

end

def children : Xml κ → Level κ
  | text _ => []
  | element _ _ children => children

def isElement : Xml κ → Bool
  | text _ => false
  | element .. => true

/-- A level begins at its first element. -/
def elements (l : Level κ) : Level κ := l.dropWhile (!·.isElement)

def named [DecidableEq κ] (name : κ) : Xml κ → Bool
  | text _ => false
  | element n _ _ => n = name

/-! ## Lookups -/

namespace Level

/-- Two levels differ in the content of one element of a name. -/
def Edited (name : κ) (l l' : Level κ) : Prop :=
  ∃ pre attributes content content' post,
    l = pre ++ element name attributes content :: post ∧
      l' = pre ++ element name attributes content' :: post

theorem Edited.symm {name : κ} {l l' : Level κ} (h : Edited name l l') : Edited name l' l := by
  obtain ⟨pre, attributes, content, content', post, hl, hl'⟩ := h
  exact ⟨pre, attributes, content', content, post, hl', hl⟩

/-- Text before the first element is no part of the difference. -/
theorem Edited.elements {name : κ} {l l' : Level κ} (h : Edited name l l') :
    Edited name (elements l) (elements l') := by
  obtain ⟨pre, attributes, content, content', post, rfl, rfl⟩ := h
  by_cases hpre : ∀ x ∈ pre, (!x.isElement) = true
  · have hdrop : ∀ c, Xml.elements (pre ++ element name attributes c :: post) =
        element name attributes c :: post := fun c => by
      rw [Xml.elements, List.dropWhile_append_of_pos hpre,
        List.dropWhile_cons_of_neg (by simp [isElement])]
    exact ⟨[], attributes, content, content', post, hdrop content, hdrop content'⟩
  · have hdrop : ∀ l, Xml.elements (pre ++ l) = Xml.elements pre ++ l := fun l => by
      rw [Xml.elements, List.dropWhile_append, if_neg]
      · rfl
      · rwa [List.isEmpty_iff, List.dropWhile_eq_nil_iff]
    exact ⟨Xml.elements pre, attributes, content, content', post, hdrop _, hdrop _⟩

variable [DecidableEq κ]

def findNode (l : Level κ) (name : κ) : Option (Xml κ) := l.find? (named name)

def nodeExists (l : Level κ) (name : κ) : Bool := (l.findNode name).isSome

/-- The text in the first element of a name. -/
def value (l : Level κ) (name : κ) : Option (List Char) := (l.findNode name).map content

/-- The level in the first element of a name, `none` if it has no elements in it. -/
def enter (l : Level κ) (name : κ) : Option (Level κ) :=
  match l.findNode name with
  | none => none
  | some node => if node.children.any isElement then some (elements node.children) else none

variable {name other : κ} {l l' : Level κ}

theorem enter_eq_some : l.enter name = some l' ↔
    ∃ node, l.findNode name = some node ∧ node.children.any isElement = true ∧
    l' = Xml.elements node.children := by
  unfold enter
  cases l.findNode name with
  | none => exact ⟨fun h => (nomatch h), fun ⟨_, h, _⟩ => (nomatch h)⟩
  | some node =>
    dsimp only
    constructor
    · intro h
      split at h
      · rename_i hany
        exact ⟨node, rfl, hany, (Option.some.inj h).symm⟩
      · cases h
    · rintro ⟨_, hnode, hany, rfl⟩
      cases hnode
      exact if_pos hany

/-- An element of another name is found where it was. -/
theorem Edited.findNode_eq (h : Edited name l l') (hne : other ≠ name) :
    l.findNode other = l'.findNode other := by
  obtain ⟨pre, attributes, content, content', post, rfl, rfl⟩ := h
  have hskip : ∀ c, named other (element name attributes c) = false := fun c => by
    simpa [named] using Ne.symm hne
  simp only [findNode, List.find?_append, List.find?_cons, hskip]

/-- What is found of the name itself is the same, or it is the edited element. -/
theorem Edited.findNode_name (h : Edited name l l') :
    l.findNode name = l'.findNode name ∨ ∃ attributes content content',
      l.findNode name = some (element name attributes content) ∧
        l'.findNode name = some (element name attributes content') := by
  obtain ⟨pre, attributes, content, content', post, rfl, rfl⟩ := h
  have hfound : ∀ c, named name (element name attributes c) = true := fun c => by simp [named]
  simp only [findNode, List.find?_append, List.find?_cons, hfound]
  cases pre.find? (named name) with
  | some node => exact .inl rfl
  | none => exact .inr ⟨attributes, content, content', rfl, rfl⟩

end Level

end Xml

end Topas
