import Topas.L6Count.IdmefMessage

/-!
# The nodes of the two ends

`createSourceNode` and `createTargetNode` on one message. `createIdmefNode` gives up when the name
it is to create is found from the parent on, and what is found from a node on includes the siblings
that follow it. `Target` follows `Source`.

* `sourceFirst_eq`, `targetFirst_eq`: the messages that the two orders lead to. With the target
  first, the `Node` of the target is found from the source on, and the source gets none.
* `endNodes_order`: the first order is right for all arguments, the second for none.
-/
namespace Topas

namespace XmlNode

def attrs : XmlNode → List (AttrName × List Char)
  | node _ as _ _ => as

def attr (n : AttrName) (x : XmlNode) : Option (List Char) := x.attrs.lookup n

/-- All nodes that a path of names leads to. -/
def select : List NodeName → XmlNode → List XmlNode
  | [], x => [x]
  | n :: ns, x => (x.children.filter (·.name = n)).flatMap (select ns)

end XmlNode

namespace IdmefMessage

open NodeName (IDMEFMessage Alert Analyzer CreateTime Source Target Classification Assessment
  AdditionalData Address address netmask)

/-- What `createSourceNode` and `createTargetNode` are given, less the first argument. -/
structure EndAddress where
  category : List Char
  address : List Char
  netmask : List Char
  deriving DecidableEq, Repr

/-- The `Node`s of an end. -/
def endNodes (m : IdmefMessage) (side : NodeName) : List XmlNode :=
  m.idmefTree.select [Alert, side, .Node]

/-- One `Node`, with one `Address` that has the category, the address and the network mask. For
`NULL` a text is left out. -/
def HasEnd (m : IdmefMessage) (side : NodeName) (e : EndAddress) : Prop :=
  (m.endNodes side).length = 1 ∧
    (m.idmefTree.select [Alert, side, .Node, Address]).map (·.attr .category) = [some e.category] ∧
    (m.idmefTree.select [Alert, side, .Node, Address, address]).map (·.content) =
      [contentOf e.address] ∧
    (m.idmefTree.select [Alert, side, .Node, Address, netmask]).map (·.content) =
      [contentOf e.netmask]

instance (m : IdmefMessage) (side : NodeName) (e : EndAddress) : Decidable (m.HasEnd side e) :=
  inferInstanceAs (Decidable (_ ∧ _ ∧ _ ∧ _))

/-- The messages that the calls start from: the one of the constructor, and the one that a detection
module gets. -/
inductive NewAlert where
  | constructed (analyzerName analyzerId classification : List Char)
  | ofDetection (o : Origin)

def NewAlert.message : NewAlert → IdmefMessage
  | constructed analyzerName analyzerId classification =>
  alert analyzerName analyzerId classification
  | ofDetection o => getNewIdmefMessage o

/-- A message with its analyzer and the two ends. -/
def alertOf (analyzer source target : XmlNode) (classification : List Char) : IdmefMessage :=
  ⟨.node IDMEFMessage [(.version, "1.0".toList)] [] [
    .node Alert [(.messageid, "0".toList)] []
      [analyzer, .node CreateTime [(.ntpstamp, [])] [] [], source,
      target, .node Classification [(.text, classification)] [] [],
        .node Assessment [] [] [], noData]]⟩

section Forms

variable {analyzer source target : XmlNode} {classification : List Char}

theorem select_source (hanalyzer : analyzer.name = Analyzer) (hsource : source.name = Source)
    (htarget : target.name = Target) (ns : List NodeName) :
    (alertOf analyzer source target classification).idmefTree.select (Alert :: Source :: ns) =
      source.select ns := by
  simp [alertOf, XmlNode.select, noData, hanalyzer, hsource, htarget]

theorem select_target (hanalyzer : analyzer.name = Analyzer) (hsource : source.name = Source)
    (htarget : target.name = Target) (ns : List NodeName) :
    (alertOf analyzer source target classification).idmefTree.select (Alert :: Target :: ns) =
      target.select ns := by
  simp [alertOf, XmlNode.select, noData, hanalyzer, hsource, htarget]

/-- The nodes of `endNode` are those that are asked for. -/
theorem hasEnd_of_select {m : IdmefMessage} {side : NodeName} {attr : AttrName}
    {attrContent : List Char} {e : EndAddress} (h : ∀ ns, m.idmefTree.select (Alert :: side :: ns) =
      (endNode side attr attrContent e.category e.address e.netmask).select ns) : m.HasEnd
        side e := by
  refine ⟨?_, ?_, ?_, ?_⟩
  · rw [endNodes, h]
    rfl
  · rw [h]
    rfl
  · rw [h]
    rfl
  · rw [h]
    rfl

end Forms

section Orders

variable (n : NewAlert) (spoofed decoy : List Char) (s t : EndAddress)

theorem message_eq : ∃ analyzer classification, analyzer.name = Analyzer ∧
    analyzer.find Source = none ∧ analyzer.find Target = none ∧
    n.message = alertOf analyzer (noEnd Source) (noEnd Target) classification := by
  cases n with
  | constructed analyzerName analyzerId classification => exact ⟨_, _, rfl, by simp, by simp, rfl⟩
  | ofDetection o => exact ⟨_, _, rfl, by simp, by simp, getNewIdmefMessage_eq o⟩

def sourceFirst : IdmefMessage :=
  (n.message.createSourceNode spoofed s.category s.address s.netmask).createTargetNode
    decoy t.category
    t.address t.netmask

def targetFirst : IdmefMessage :=
  (n.message.createTargetNode decoy t.category t.address t.netmask).createSourceNode
    spoofed s.category
    s.address s.netmask

theorem sourceFirst_eq : ∃ analyzer classification, analyzer.name = Analyzer ∧
    sourceFirst n spoofed decoy s t =
      alertOf analyzer (endNode Source .spoofed spoofed s.category s.address s.netmask)
        (endNode Target .decoy decoy t.category t.address t.netmask) classification := by
  obtain ⟨analyzer, classification, hanalyzer, hsource, htarget, hm⟩ := message_eq n
  refine ⟨analyzer, classification, hanalyzer, ?_⟩
  rw [sourceFirst, hm]
  simp [createSourceNode, createTargetNode, createEndNode, alertOf, noEnd, noData, endNode, hsource,
    htarget]

/-- The source gets its attribute and nothing else. -/
theorem targetFirst_eq : ∃ analyzer classification, analyzer.name = Analyzer ∧
    targetFirst n spoofed decoy s t =
      alertOf analyzer (.node Source [(.spoofed, spoofed)] [] [])
        (endNode Target .decoy decoy t.category t.address t.netmask) classification := by
  obtain ⟨analyzer, classification, hanalyzer, hsource, htarget, hm⟩ := message_eq n
  refine ⟨analyzer, classification, hanalyzer, ?_⟩
  rw [targetFirst, hm]
  simp [createSourceNode, createTargetNode, createEndNode, alertOf, noEnd, noData, endNode, hsource,
    htarget]

theorem sourceFirst_hasEnd :
    (sourceFirst n spoofed decoy s t).HasEnd Source s ∧
      (sourceFirst n spoofed decoy s t).HasEnd Target t := by
  obtain ⟨analyzer, classification, hanalyzer, hm⟩ := sourceFirst_eq n spoofed decoy s t
  rw [hm]
  exact ⟨hasEnd_of_select (select_source hanalyzer rfl rfl),
    hasEnd_of_select (select_target hanalyzer rfl rfl)⟩

theorem targetFirst_hasEnd :
    (targetFirst n spoofed decoy s t).endNodes Source = [] ∧
      (targetFirst n spoofed decoy s t).HasEnd Target t := by
  obtain ⟨analyzer, classification, hanalyzer, hm⟩ := targetFirst_eq n spoofed decoy s t
  rw [hm]
  exact
    ⟨select_source hanalyzer rfl rfl [.Node], hasEnd_of_select (select_target hanalyzer rfl rfl)⟩

/-- For all arguments: with the source first, both ends have their node; with the target first, the
source has none, so that the two orders are never both right. -/
theorem endNodes_order :
    ((sourceFirst n spoofed decoy s t).HasEnd Source s ∧
      (sourceFirst n spoofed decoy s t).HasEnd Target t) ∧
    ((targetFirst n spoofed decoy s t).endNodes Source = [] ∧
      (targetFirst n spoofed decoy s t).HasEnd Target t) ∧
    ¬ (((sourceFirst n spoofed decoy s t).HasEnd Source s ∧
        (sourceFirst n spoofed decoy s t).HasEnd Target t) ∧
      (targetFirst n spoofed decoy s t).HasEnd Source s ∧
        (targetFirst n spoofed decoy s t).HasEnd Target t) := by
  have htarget := targetFirst_hasEnd n spoofed decoy s t
  refine ⟨sourceFirst_hasEnd n spoofed decoy s t, htarget, fun h => ?_⟩
  have hone := h.2.1.1
  rw [htarget.1] at hone
  cases hone

/-- **Counterexample**: two hosts of a network. The message has no address for the source. -/
theorem targetFirst_not_hasEnd :
    ¬ (targetFirst (.constructed "count".toList "1".toList "scan".toList) "no".toList "no".toList
      ⟨"ipv4-addr".toList, "10.0.0.1".toList, "255.255.255.255".toList⟩
      ⟨"ipv4-addr".toList, "10.0.0.2".toList, "255.255.255.255".toList⟩).HasEnd Source
      ⟨"ipv4-addr".toList, "10.0.0.1".toList, "255.255.255.255".toList⟩ := by
  rintro ⟨hone, -⟩
  rw [(targetFirst_hasEnd _ _ _ _ _).1] at hone
  cases hone

end Orders

end IdmefMessage

end Topas
