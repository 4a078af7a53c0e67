import Topas.Core.LTS
import Topas.Core.XmlPointer

/-!
# The reader of configuration files

`commonutils/confobj.cpp`. An `XMLConfObj` has two pointers into the tree of its document: to the
place where its current level begins, and to the node that was selected last. How deep it is, it
does not count; the level above is that of the parent.

* `valid_reachable`: both pointers are on one level, and the lookups see all of it.
* `Valid.restores`: after entering a node and leaving it the named lookups answer as before.
* `leaveNode_iff`: leaving the root level is no error, although it is meant to be one. The root
  element has a parent, the document.
-/
namespace Topas

open Xml

/-- mirrors commonutils/global.h:49 -/
def CONFIGURATION : String := "configuration"

/-- A document; in front of its root element and behind it there are no others. -/
structure XmlDoc where
  prolog : Level String
  name : String
  attributes : List (String × List Char)
  children : Level String
  epilog : Level String
  prolog_text : ∀ x ∈ prolog, x.isElement = false
  epilog_text : ∀ x ∈ epilog, x.isElement = false

namespace XmlDoc

def root (d : XmlDoc) : Xml String := .element d.name d.attributes d.children

def level (d : XmlDoc) : Level String := d.prolog ++ d.root :: d.epilog

/-- `xmlDocGetRootElement`. -/
def rootElement (d : XmlDoc) : XmlPtr String :=
    .node (.document d.level) d.prolog.reverse d.root d.epilog

end XmlDoc

/-- mirrors commonutils/confobj.h:171-174 -/
structure XMLConfObj where
  documentTree : XmlDoc
  currentLevel : XmlPtr String
  savedPosition : XmlPtr String

namespace XMLConfObj

/-- With a file. The loop that looks for the element ends at once: the root is an element, and its
name is only compared where it is none.
mirrors commonutils/confobj.cpp:37-58 -/
def ofFile (filename : String) (documentTree : Option XmlDoc) : Except String XMLConfObj :=
  match documentTree with
  | none => .error ("Could not parse " ++ filename)
  | some documentTree =>
    match documentTree.rootElement.seekChild fun _ => true with
    | none => .error ("Element <" ++ CONFIGURATION ++ "> is empty in file " ++ filename)
    | some currentLevel => .ok ⟨documentTree, currentLevel, currentLevel⟩

/-- With a text.
mirrors commonutils/confobj.cpp:59-70 -/
def ofString (text : String) (documentTree : Option XmlDoc) : Except String XMLConfObj :=
  match documentTree with
  | none => .error ("Could not parse " ++ text)
  | some documentTree => .ok ⟨documentTree, documentTree.rootElement, documentTree.rootElement⟩

/-- A member function: what it returns or throws, and the object behind it. -/
abbrev Member (α : Type) := XMLConfObj → Except String α × XMLConfObj

/-- What the two `findNode` do.
mirrors commonutils/confobj.cpp:220-244 -/
def findNode (p : Xml String → Bool) (first : Bool) (c : XMLConfObj) : Option (XmlPtr String) :=
  if first then c.currentLevel.seekFrom p else c.savedPosition.seekNext p

/-- mirrors commonutils/confobj.cpp:81-84 -/
def nodeExists (nodeName : String) : Member Bool := fun c =>
  (.ok (c.findNode (named nodeName) true).isSome, c)

/-- What the functions that select a node do with the one that was found. -/
def select (node : Option (XmlPtr String)) : Member Bool := fun c =>
  match node with
  | some node => (.ok true, { c with savedPosition := node })
  | none => (.ok false, c)

/-- mirrors commonutils/confobj.cpp:86-95 -/
def selectNodeIfExists (nodeName : String) : Member Bool := fun c =>
  c.select (c.findNode (named nodeName) true)

/-- mirrors commonutils/confobj.cpp:97-106 -/
def selectNextNodeIfExists : Member Bool := fun c => c.select (c.findNode isElement false)

/-- With a name.
mirrors commonutils/confobj.cpp:108-117 -/
def selectNextNamedIfExists (nodeName : String) : Member Bool := fun c =>
  c.select (c.findNode (named nodeName) false)

/-- mirrors commonutils/confobj.cpp:119-125 -/
def nodeIsEmpty : Member Bool := fun c => (.ok (c.savedPosition.seekChild isElement).isNone, c)

/-- mirrors commonutils/confobj.cpp:127-142 -/
def enterNode (nodeName : String) : Member Unit := fun c =>
  match c.findNode (named nodeName) true with
  | none => (.error ("Node does not exist: " ++ nodeName), c)
  | some node =>
    match node.seekChild isElement with
    | some node => (.ok (), { c with savedPosition := node, currentLevel := node })
    | none => (.error ("Cannot enter empty node: " ++ nodeName), c)

/-- mirrors commonutils/confobj.cpp:144-155 -/
def enterNodeIfNotEmpty : Member Bool := fun c =>
  match c.savedPosition.seekChild isElement with
  | some node => (.ok true, { c with savedPosition := node, currentLevel := node })
  | none => (.ok false, c)

def alreadyAtRoot : String := "Already at root level"

/-- mirrors commonutils/confobj.cpp:157-171 -/
def leaveNode : Member Unit := fun c =>
  match c.currentLevel.parent? with
  | some node =>
    (.ok (),
      { c with savedPosition := node, currentLevel := XmlPtr.rewindFrom c.currentLevel node })
  | none => (.error alreadyAtRoot, c)

/-- Of the selected node.
mirrors commonutils/confobj.cpp:178-181 -/
def getValue : Member (List Char) := fun c => (.ok c.savedPosition.content, c)

/-- With a name.
mirrors commonutils/confobj.cpp:183-190 -/
def getValueOf (nodeName : String) : Member (List Char) := fun c =>
  match c.findNode (named nodeName) true with
  | none => (.error ("No such node in current level: " ++ nodeName), c)
  | some node => (.ok node.content, c)

/-- mirrors commonutils/confobj.cpp:192-196 -/
def attributeExists (attrName : String) : Member Bool := fun c =>
  (.ok (c.savedPosition.prop attrName).isSome, c)

/-- Of the selected node.
mirrors commonutils/confobj.cpp:198-205 -/
def getAttribute (attrName : String) : Member (List Char) := fun c =>
  match c.savedPosition.prop attrName with
  | none => (.error ("No attribute \"" ++ attrName ++ "\" in current node"), c)
  | some ret => (.ok ret, c)

/-- With a name.
mirrors commonutils/confobj.cpp:207-218 -/
def getAttributeOf (nodeName attrName : String) : Member (List Char) := fun c =>
  match c.findNode (named nodeName) true with
  | none => (.error ("No such node in current level: " ++ nodeName), c)
  | some node =>
    match node.prop attrName with
    | none => (.error ("No attribute \"" ++ attrName ++ "\" in node \"" ++ nodeName ++ "\""), c)
    | some ret => (.ok ret, c)

/-! ## Levels -/

/-- Both pointers are on the level below `parent`. Only after an attempt to leave the root level the
document itself is selected. -/
structure OnLevel (parent : XmlPtr String) (c : XMLConfObj) : Prop where
  placed : parent.Placed
  current : parent.Begins c.currentLevel
  saved : parent.On c.savedPosition ∨ c.savedPosition = parent ∧ ∃ level, parent = .document level

/-- The same answers of all named lookups. -/
def SameLookups (c c' : XMLConfObj) : Prop :=
  ∀ nodeName, (c.nodeExists nodeName).1 = (c'.nodeExists nodeName).1 ∧
    (c.getValueOf nodeName).1 = (c'.getValueOf nodeName).1 ∧
    ∀ attrName, (c.getAttributeOf nodeName attrName).1 = (c'.getAttributeOf nodeName attrName).1

variable {parent : XmlPtr String} {c c' : XMLConfObj}

theorem isElement_of_named {nodeName : String} {x : Xml String} (h : named nodeName x = true) :
    x.isElement = true := by
  cases x with
  | text s => cases h
  | element => rfl

/-- A named lookup sees the whole level. -/
theorem OnLevel.findNode (h : OnLevel parent c) (nodeName : String) :
    c.findNode (named nodeName) true = parent.seekChild (named nodeName) :=
  h.current.seekFrom fun _ => isElement_of_named

theorem OnLevel.sameLookups (h : OnLevel parent c) (h' : OnLevel parent c') : SameLookups c c' := by
  intro nodeName
  have hfind := (h.findNode nodeName).trans (h'.findNode nodeName).symm
  simp only [nodeExists, getValueOf, getAttributeOf, hfind]
  refine ⟨trivial, ?_, fun attrName => ?_⟩
  · split <;> rfl
  · split
    · rfl
    · split <;> rfl

/-! ## Entering and leaving -/

theorem OnLevel.select {node : Option (XmlPtr String)} (h : OnLevel parent c)
    (hnode : ∀ q, node = some q → parent.On q) : OnLevel parent (c.select node).2 := by
  cases node with
  | none => exact h
  | some q => exact ⟨h.placed, h.current, .inl (hnode q rfl)⟩

theorem OnLevel.on_findNode (h : OnLevel parent c) {nodeName : String} {q : XmlPtr String}
    (hq : c.findNode (named nodeName) true = some q) : parent.On q :=
  XmlPtr.on_of_seekChild (h.findNode nodeName ▸ hq)

/-- Behind the document nothing is selected. -/
theorem OnLevel.on_findNext (h : OnLevel parent c) {p : Xml String → Bool} {q : XmlPtr String}
    (hq : c.findNode p false = some q) : parent.On q := by
  rcases h.saved with hon | ⟨hsaved, level, rfl⟩
  · exact hon.seekNext hq
  · change c.savedPosition.seekNext p = some q at hq
    rw [hsaved] at hq
    cases hq

/-- The object with both pointers at the first element in a node. -/
def inside (c : XMLConfObj) (first : XmlPtr String) : XMLConfObj :=
  { c with savedPosition := first, currentLevel := first }

theorem onLevel_inside {q first : XmlPtr String} (c : XMLConfObj) (hq : q.Placed)
    (hfirst : q.seekChild isElement = some first) : OnLevel q (c.inside first) :=
  ⟨hq, XmlPtr.begins_of_seekChild hfirst, .inl (XmlPtr.begins_of_seekChild hfirst).on⟩

theorem OnLevel.parent?_eq (h : OnLevel parent c) : c.currentLevel.parent? = some parent := by
  obtain ⟨before, x, after, heq, -⟩ := h.current
  rw [heq]
  rfl

/-- From the level in a node back to the level of the node. -/
theorem OnLevel.leaveNode {q : XmlPtr String} (h : OnLevel q c) (hq : parent.On q)
    (hparent : parent.Placed) :
    ∃ c', c.leaveNode = (.ok (), c') ∧ c'.savedPosition = q ∧ c'.documentTree = c.documentTree ∧
      OnLevel parent c' := by
  have hbegins : parent.Begins (XmlPtr.rewindFrom c.currentLevel q) := by
    obtain ⟨before, x, after, rfl, hkids⟩ := hq
    exact XmlPtr.begins_rewindFrom h.current.on h.placed
  refine ⟨⟨c.documentTree, XmlPtr.rewindFrom c.currentLevel q, q⟩, ?_, rfl, rfl, hparent, hbegins,
    .inl hq⟩
  rw [XMLConfObj.leaveNode, h.parent?_eq]

/-- On the root level only the document gets selected. -/
theorem OnLevel.leaveNode_root {level : Level String} (h : OnLevel (.document level) c) :
    c.leaveNode = (.ok (), { c with savedPosition := .document level }) := by
  rw [XMLConfObj.leaveNode, h.parent?_eq]
  rfl

theorem OnLevel.leaveNode_root_onLevel {level : Level String} (h : OnLevel (.document level) c) :
    OnLevel (.document level) { c with savedPosition := .document level } :=
  ⟨h.placed, h.current, .inr ⟨rfl, level, rfl⟩⟩

theorem OnLevel.enterNode (h : OnLevel parent c) {nodeName : String}
    (he : c.enterNode nodeName = (.ok (), c')) :
    ∃ q, parent.On q ∧ OnLevel q c' := by
  unfold XMLConfObj.enterNode at he
  split at he
  · cases he
  · rename_i q hfind
    have hon := h.on_findNode hfind
    split at he
    · rename_i first hfirst
      cases he
      exact ⟨q, hon, onLevel_inside c (hon.placed h.placed) hfirst⟩
    · cases he

/-- Where the document is selected, the root level is entered, on which the object is. -/
theorem OnLevel.enterNodeIfNotEmpty (h : OnLevel parent c)
    (he : c.enterNodeIfNotEmpty = (.ok true, c')) :
    (∃ q, parent.On q ∧ OnLevel q c') ∨ OnLevel parent c' ∧ ∃ level, parent = .document level := by
  unfold XMLConfObj.enterNodeIfNotEmpty at he
  split at he
  · rename_i first hfirst
    cases he
    rcases h.saved with hon | ⟨hsaved, level, hlevel⟩
    · exact .inl ⟨_, hon, onLevel_inside c (hon.placed h.placed) hfirst⟩
    · rw [hsaved] at hfirst
      exact .inr ⟨onLevel_inside c h.placed hfirst, level, hlevel⟩
  · cases he

/-- Leaving what has been entered leads back to the level. -/
theorem OnLevel.leaveNode_enterNode (h : OnLevel parent c) {nodeName : String}
    (he : c.enterNode nodeName = (.ok (), c')) :
    ∃ c'', c'.leaveNode = (.ok (), c'') ∧ OnLevel parent c'' := by
  obtain ⟨q, hq, hlevel⟩ := h.enterNode he
  obtain ⟨c'', hleave, -, -, hlevel'⟩ := hlevel.leaveNode hq h.placed
  exact ⟨c'', hleave, hlevel'⟩

theorem OnLevel.leaveNode_enterNodeIfNotEmpty (h : OnLevel parent c)
    (he : c.enterNodeIfNotEmpty = (.ok true, c')) :
    ∃ c'', c'.leaveNode = (.ok (), c'') ∧ OnLevel parent c'' := by
  rcases h.enterNodeIfNotEmpty he with ⟨q, hq, hlevel⟩ | ⟨hlevel, level, rfl⟩
  · obtain ⟨c'', hleave, -, -, hlevel'⟩ := hlevel.leaveNode hq h.placed
    exact ⟨c'', hleave, hlevel'⟩
  · exact ⟨_, hlevel.leaveNode_root, hlevel.leaveNode_root_onLevel⟩

/-! ## Objects that are used in any way -/

/-- The calls from outside. -/
inductive Call where
  | nodeExists (nodeName : String)
  | selectNodeIfExists (nodeName : String)
  | selectNextNodeIfExists
  | selectNextNamedIfExists (nodeName : String)
  | nodeIsEmpty
  | enterNode (nodeName : String)
  | enterNodeIfNotEmpty
  | leaveNode
  | getValue
  | getValueOf (nodeName : String)
  | attributeExists (attrName : String)
  | getAttribute (attrName : String)
  | getAttributeOf (nodeName attrName : String)
  deriving DecidableEq, Repr

/-- The object after a call. -/
def after (c : XMLConfObj) : Call → XMLConfObj
  | .nodeExists nodeName => (c.nodeExists nodeName).2
  | .selectNodeIfExists nodeName => (c.selectNodeIfExists nodeName).2
  | .selectNextNodeIfExists => c.selectNextNodeIfExists.2
  | .selectNextNamedIfExists nodeName => (c.selectNextNamedIfExists nodeName).2
  | .nodeIsEmpty => c.nodeIsEmpty.2
  | .enterNode nodeName => (c.enterNode nodeName).2
  | .enterNodeIfNotEmpty => c.enterNodeIfNotEmpty.2
  | .leaveNode => c.leaveNode.2
  | .getValue => c.getValue.2
  | .getValueOf nodeName => (c.getValueOf nodeName).2
  | .attributeExists attrName => (c.attributeExists attrName).2
  | .getAttribute attrName => (c.getAttribute attrName).2
  | .getAttributeOf nodeName attrName => (c.getAttributeOf nodeName attrName).2

/-- What a constructor makes of a file or a text. -/
def Constructed (c : XMLConfObj) : Prop :=
  ∃ source documentTree, ofFile source documentTree = .ok c ∨ ofString source documentTree = .ok c

/-- An object under a list of calls. -/
def system : LTS XMLConfObj Call := .ofFun Constructed (fun _ _ => True) after

def Valid (c : XMLConfObj) : Prop := ∃ parent, OnLevel parent c

theorem getValueOf_object (c : XMLConfObj) (nodeName : String) : (c.getValueOf nodeName).2 = c := by
  unfold getValueOf
  split <;> rfl

theorem getAttribute_object (c : XMLConfObj) (attrName : String) :
    (c.getAttribute attrName).2 = c := by
  unfold getAttribute
  split <;> rfl

theorem getAttributeOf_object (c : XMLConfObj) (nodeName attrName : String) :
    (c.getAttributeOf nodeName attrName).2 = c := by
  unfold getAttributeOf
  split
  · rfl
  · split <;> rfl

theorem rootElement_begins (d : XmlDoc) : (XmlPtr.document d.level).Begins d.rootElement :=
  ⟨d.prolog.reverse, d.root, d.epilog, rfl, by rw [List.reverse_reverse]; rfl,
    fun y hy => d.prolog_text y (List.mem_reverse.mp hy)⟩

theorem valid_constructed (h : Constructed c) : Valid c := by
  obtain ⟨source, documentTree, hc | hc⟩ := h
  · unfold ofFile at hc
    split at hc
    · cases hc
    · rename_i d
      split at hc
      · cases hc
      · rename_i first hfirst
        cases hc
        have hroot := (rootElement_begins d).on.placed (.document d.level)
        -- the first child, which need not be an element
        obtain ⟨pre, x, rest, hkids, hpre, -, rfl⟩ := XmlPtr.seek_eq_some.mp hfirst
        obtain rfl : pre = [] := List.eq_nil_iff_forall_not_mem.mpr fun y hy => nomatch hpre y hy
        have hbegins : d.rootElement.Begins (.node d.rootElement [] x rest) :=
          ⟨[], x, rest, rfl, hkids, by simp⟩
        exact ⟨d.rootElement, hroot, hbegins, .inl hbegins.on⟩
  · unfold ofString at hc
    split at hc
    · cases hc
    · rename_i d
      cases hc
      exact ⟨_, .document d.level, rootElement_begins d, .inl (rootElement_begins d).on⟩

theorem Valid.leaveNode (h : Valid c) : ∃ c', c.leaveNode = (.ok (), c') ∧ Valid c' := by
  obtain ⟨q, hlevel⟩ := h
  cases q with
  | document level => exact ⟨_, hlevel.leaveNode_root, _, hlevel.leaveNode_root_onLevel⟩
  | node parent before x after =>
    cases hlevel.placed with
    | node hparent hkids =>
      obtain ⟨c', hleave, -, -, hlevel'⟩ := hlevel.leaveNode ⟨before, x, after, rfl, hkids⟩ hparent
      exact ⟨c', hleave, parent, hlevel'⟩

theorem valid_enterNode (h : Valid c) (nodeName : String) : Valid (c.enterNode nodeName).2 := by
  obtain ⟨parent, hlevel⟩ := h
  cases he : c.enterNode nodeName with
  | mk r c' =>
    cases r with
    | ok u =>
      obtain ⟨q, -, hq⟩ := hlevel.enterNode he
      exact ⟨q, hq⟩
    | error e =>
      unfold enterNode at he
      split at he
      · cases he
        exact ⟨parent, hlevel⟩
      · split at he
        · cases he
        · cases he
          exact ⟨parent, hlevel⟩

theorem valid_enterNodeIfNotEmpty (h : Valid c) : Valid c.enterNodeIfNotEmpty.2 := by
  obtain ⟨parent, hlevel⟩ := h
  cases hfirst : c.savedPosition.seekChild isElement with
  | none =>
    rw [enterNodeIfNotEmpty, hfirst]
    exact ⟨parent, hlevel⟩
  | some first =>
    have he : c.enterNodeIfNotEmpty = (.ok true, c.inside first) := by
      rw [enterNodeIfNotEmpty, hfirst]
      rfl
    rw [he]
    rcases hlevel.enterNodeIfNotEmpty he with ⟨q, -, hq⟩ | ⟨hparent, -⟩
    · exact ⟨q, hq⟩
    · exact ⟨parent, hparent⟩

theorem valid_after (h : Valid c) (call : Call) : Valid (c.after call) := by
  obtain ⟨parent, hlevel⟩ := id h
  cases call with
  | nodeExists | nodeIsEmpty | getValue | attributeExists => exact h
  | selectNodeIfExists nodeName => exact ⟨parent, hlevel.select fun q => hlevel.on_findNode⟩
  | selectNextNodeIfExists => exact ⟨parent, hlevel.select fun q => hlevel.on_findNext⟩
  | selectNextNamedIfExists nodeName => exact ⟨parent, hlevel.select fun q => hlevel.on_findNext⟩
  | enterNode nodeName => exact valid_enterNode h nodeName
  | enterNodeIfNotEmpty => exact valid_enterNodeIfNotEmpty h
  | leaveNode =>
    obtain ⟨c', hleave, hvalid⟩ := h.leaveNode
    rw [after, hleave]
    exact hvalid
  | getValueOf nodeName =>
    rw [after, getValueOf_object]
    exact h
  | getAttribute attrName =>
    rw [after, getAttribute_object]
    exact h
  | getAttributeOf nodeName attrName =>
    rw [after, getAttributeOf_object]
    exact h

theorem valid_inductive : system.Inductive Valid where
  init _ := valid_constructed
  step _ call _ h hstep := hstep.2 ▸ valid_after h call

theorem valid_reachable (h : system.Reachable c) : Valid c := valid_inductive.reachable c h

/-- The level of the root element. -/
def AtRoot (c : XMLConfObj) : Prop := ∃ level, c.currentLevel.parent? = some (.document level)

/-- Leaving what has been entered leaves the named lookups as they were. -/
def Restores (c : XMLConfObj) : Prop :=
  (∀ nodeName c', c.enterNode nodeName = (.ok (), c') →
    ∃ c'', c'.leaveNode = (.ok (), c'') ∧ SameLookups c c'') ∧
  ∀ c', c.enterNodeIfNotEmpty = (.ok true, c') → ∃ c'', c'.leaveNode = (.ok (), c'') ∧
    SameLookups c c''

/-- The error and no change, on the root level and nowhere else. -/
def ChecksRoot (c : XMLConfObj) : Prop := c.leaveNode = (.error alreadyAtRoot, c) ↔ c.AtRoot

theorem Valid.restores (h : Valid c) : Restores c := by
  obtain ⟨parent, hlevel⟩ := h
  refine ⟨fun nodeName c' he => ?_, fun c' he => ?_⟩
  · obtain ⟨c'', hleave, hlevel'⟩ := hlevel.leaveNode_enterNode he
    exact ⟨c'', hleave, hlevel.sameLookups hlevel'⟩
  · obtain ⟨c'', hleave, hlevel'⟩ := hlevel.leaveNode_enterNodeIfNotEmpty he
    exact ⟨c'', hleave, hlevel.sameLookups hlevel'⟩

/-- The error is never thrown, so that it is missing on the root level. -/
theorem Valid.checksRoot_iff (h : Valid c) : ChecksRoot c ↔ ¬ c.AtRoot := by
  obtain ⟨c', hleave, -⟩ := h.leaveNode
  have hne : c.leaveNode ≠ (.error alreadyAtRoot, c) := by
    rw [hleave]
    intro heq
    cases heq
  exact ⟨fun hiff hroot => hne (hiff.mpr hroot), fun hroot => iff_of_false hne hroot⟩

/-- For an object that has been used in any way: entering and leaving restores the lookups and an
attempt to leave the root level is an error, if and only if the object is not on the root level. -/
theorem leaveNode_iff (h : system.Reachable c) :
    Restores c ∧ (Restores c ∧ ChecksRoot c ↔ ¬ c.AtRoot) := by
  have hvalid := valid_reachable h
  refine ⟨hvalid.restores, ?_⟩
  rw [← hvalid.checksRoot_iff]
  exact and_iff_right hvalid.restores

/-- `<a><b>1</b></a>` -/
def oneChild : XmlDoc where
  prolog := []
  name := "a"
  attributes := []
  children := [.element "b" [] [.text ['1']]]
  epilog := []
  prolog_text := by simp
  epilog_text := by simp

/-- A message just parsed. -/
def message : XMLConfObj := ⟨oneChild, oneChild.rootElement, oneChild.rootElement⟩

theorem message_reachable : system.Reachable message :=
    .init ⟨"<a><b>1</b></a>", some oneChild, .inr rfl⟩

theorem message_restores :
    Restores message ∧ (Restores message ∧ ChecksRoot message ↔ ¬ message.AtRoot) :=
  leaveNode_iff message_reachable

/-- **Counterexample**: leaving the root level of a message that has just been parsed. There is no
error, and the document is selected instead of the root element. -/
theorem leaveNode_message :
    message.AtRoot ∧ message.leaveNode.1 = .ok () ∧
      message.leaveNode.2.savedPosition = .document oneChild.level ∧ ¬ ChecksRoot message := by
  refine ⟨⟨oneChild.level, rfl⟩, rfl, rfl, fun h => ?_⟩
  have hthrow := h.mpr ⟨oneChild.level, rfl⟩
  cases hthrow

end XMLConfObj

end Topas
