import Topas.Core.Text

/-!
# IDMEF messages

`commonutils/idmef/idmefmessage.cpp`, as far as the count module uses it. A message is a tree of
nodes, which the functions search by name, and to which they add nodes. A pointer to a node is the
way to it from the root, and `none` is `NULL`.

* `report`: what a receiver reads off a message.
* `createSourceNode_new` and the like: a new message with a node for one end of the traffic, as a
  `form`; `createExtStatisticsNode_form` adds the counts.
* `report_form`: what such a message reports.

The texts of a node are taken as they are: nothing in them is escaped. Blanks between nodes are left
out.
-/
namespace Topas

open Text

/-! ## Trees -/

/-- The names of the nodes, less `DIADEM:`. -/
inductive NodeName where
  | IDMEFMessage | Alert | Analyzer | CreateTime | Source | Target | Classification | Assessment
  | AdditionalData | Node | Address | address | netmask | location | Service | name | port | portlist
  | protocol | Observation | ObservationPoint | Statistics | OctetCount | PacketCount | FlowCount
  | OctetRate | PacketRate | AnomalyMeasure
  deriving DecidableEq, Repr

inductive AttrName where
  | version | messageid | name | analyzerid | manufacturer | model | class_ | ostype | osversion
  | ntpstamp | text | type | ident | category | spoofed | decoy | ip_version | iana_protocol_number
  | iana_protocol_name | exponent | Base
  deriving DecidableEq, Repr

inductive XmlNode where
  | node (n : NodeName) (attrs : List (AttrName × List Char)) (content : List Char)
    (children : List XmlNode)

/-- The way from the root: the number of a child, and so on. -/
abbrev NodePtr := List Nat

namespace XmlNode

def name : XmlNode → NodeName
  | node n _ _ _ => n

def content : XmlNode → List Char
  | node _ _ c _ => c

def children : XmlNode → List XmlNode
  | node _ _ _ cs => cs

section Parts

variable (n : NodeName) (as : List (AttrName × List Char)) (c : List Char) (cs : List XmlNode)

@[simp] theorem name_node : (node n as c cs).name = n := rfl

@[simp] theorem content_node : (node n as c cs).content = c := rfl

@[simp] theorem children_node : (node n as c cs).children = cs := rfl

end Parts

@[simp] def addChild (child : XmlNode) : XmlNode → XmlNode
  | node n as c cs => node n as c (cs ++ [child])

/-- `xmlSetProp`: an attribute that is there gets the new value. -/
@[simp] def setProp (attr : AttrName) (value : List Char) : XmlNode → XmlNode
  | node n as c cs =>
    if attr ∈ as.map Prod.fst then
      node n (as.map fun a => if a.1 = attr then (attr, value) else a) c cs
    else node n (as ++ [(attr, value)]) c cs

mutual

/-- The first node with the name, in the order of the document. -/
@[simp] def find (n : NodeName) : XmlNode → Option NodePtr
  | node m _ _ cs => if m = n then some [] else findIn n 0 cs

/-- The same in the siblings from number `i` on. -/
@[simp] def findIn (n : NodeName) (i : Nat) : List XmlNode → Option NodePtr
  | [] => none
  | x :: xs =>
    match find n x with
    | some p => some (i :: p)
    | none => findIn n (i + 1) xs

end

/-- From a node on: in the node, and then in the siblings that follow it. -/
@[simp] def findFrom (n : NodeName) : NodePtr → XmlNode → Option NodePtr
  | [], x => find n x
  | [i], x => findIn n i (x.children.drop i)
  | i :: p, x => do
    let child ← x.children[i]?
    let q ← findFrom n p child
    some (i :: q)

@[simp] def get : NodePtr → XmlNode → Option XmlNode
  | [], x => some x
  | i :: p, x => do
    let child ← x.children[i]?
    get p child

@[simp] def modify (f : XmlNode → XmlNode) : NodePtr → XmlNode → XmlNode
  | [], x => f x
  | i :: p, node n as c cs => node n as c (cs.modify i (modify f p))

/-- The text of the first child with a name, of that child's first one, and so on. -/
@[simp] def read : List NodeName → XmlNode → Option (List Char)
  | [], x => some x.content
  | n :: ns, x => do
    let child ← x.children.find? (·.name = n)
    read ns child

end XmlNode

/-! ## Messages -/

structure IdmefMessage where
  idmefTree : XmlNode

namespace IdmefMessage

open NodeName (IDMEFMessage Alert Analyzer CreateTime Source Target Classification Assessment
  AdditionalData Address address netmask location Service port portlist protocol
  ObservationPoint Statistics OctetCount PacketCount FlowCount OctetRate PacketRate AnomalyMeasure)

/-- The tree that the default message of an alert is parsed to.
mirrors commonutils/idmef/idmefmessage.cpp:73-97 -/
def createAlertBody (analyzerName analyzerId classification : List Char) : XmlNode :=
  .node IDMEFMessage [(.version, "1.0".toList)] [] [
    .node Alert [(.messageid, "0".toList)] [] [
      .node Analyzer [(.name, analyzerName), (.analyzerid, analyzerId), (.manufacturer, []),
        (.model, []), (.version, []), (.class_, []), (.ostype, []), (.osversion, [])] [] [],
      .node CreateTime [(.ntpstamp, [])] [] [],
      .node Source [] [] [],
      .node Target [] [] [],
      .node Classification [(.text, classification)] [] [],
      .node Assessment [] [] [],
      .node AdditionalData [(.type, "xml".toList)] [] []]]

/-- mirrors commonutils/idmef/idmefmessage.cpp:31-47 -/
def alert (analyzerName analyzerId classification : List Char) : IdmefMessage :=
  ⟨createAlertBody analyzerName analyzerId classification⟩

/-- The names that a message may have more than one of.
mirrors commonutils/idmef/idmefmessage.cpp:99-102,645-653 -/
def isMultipleNode (n : NodeName) : Bool := n = Address || n = ObservationPoint || n = Service

/-- The content that stands for none. -/
def null : List Char := "NULL".toList

/-- What a node is created with. -/
def contentOf (nodeContent : List Char) : List Char :=
    if nodeContent ≠ null then nodeContent else []

/-- `xmlDocGetRootElement`. -/
def root : Option NodePtr := some []

/-- mirrors commonutils/idmef/idmefmessage.cpp:601-612 -/
def findIdmefNode (m : IdmefMessage) (nodeIter : Option NodePtr) (n : NodeName) : Option NodePtr :=
  nodeIter.bind fun p => m.idmefTree.findFrom n p

/-- `xmlNewChild`. -/
def newChild (m : IdmefMessage) (parent : Option NodePtr) (n : NodeName) (nodeContent : List Char) :
    IdmefMessage × Option NodePtr :=
  match parent with
  | none => (m, none)
  | some p =>
    (⟨m.idmefTree.modify (.addChild (.node n [] (contentOf nodeContent) [])) p⟩,
      (m.idmefTree.get p).map fun x => p ++ [x.children.length])

/-- mirrors commonutils/idmef/idmefmessage.cpp:522-539 -/
def createIdmefNode (m : IdmefMessage) (parent : Option NodePtr) (n : NodeName)
    (nodeContent : List Char) : IdmefMessage × Option NodePtr :=
  if (m.findIdmefNode parent n).isSome && !isMultipleNode n then (m, none)
  else m.newChild parent n nodeContent

/-- With the parent's name. A name is then looked for in the whole message.
mirrors commonutils/idmef/idmefmessage.cpp:491-520 -/
def createIdmefNodeIn (m : IdmefMessage) (parentName n : NodeName) (nodeContent : List Char) :
    IdmefMessage × Option NodePtr :=
  if (m.findIdmefNode root n).isSome && !isMultipleNode n then (m, none)
  else m.newChild (m.findIdmefNode root parentName) n nodeContent

/-- mirrors commonutils/idmef/idmefmessage.cpp:583-599 -/
def setIdmefNodeAttr (m : IdmefMessage) (parent : Option NodePtr) (n : NodeName) (attr : AttrName)
    (attrContent : List Char) : IdmefMessage :=
  match m.findIdmefNode parent n with
  | some p => ⟨m.idmefTree.modify (.setProp attr attrContent) p⟩
  | none => m

/-- With the parent's name.
mirrors commonutils/idmef/idmefmessage.cpp:565-581 -/
def setIdmefNodeAttrIn (m : IdmefMessage) (parentName n : NodeName) (attr : AttrName)
    (attrContent : List Char) : IdmefMessage :=
  m.setIdmefNodeAttr (m.findIdmefNode root parentName) n attr attrContent

/-- mirrors commonutils/idmef/idmefmessage.cpp:169-176 -/
def setAnalyzerAttr (m : IdmefMessage) (analyzerClass manufacturer model version : List Char) :
    IdmefMessage :=
  let m := m.setIdmefNodeAttrIn Alert Analyzer .class_ analyzerClass
  let m := m.setIdmefNodeAttrIn Alert Analyzer .manufacturer manufacturer
  let m := m.setIdmefNodeAttrIn Alert Analyzer .model model
  m.setIdmefNodeAttrIn Alert Analyzer .version version

/-- mirrors commonutils/idmef/idmefmessage.cpp:130-152 -/
def createAnalyzerNode (m : IdmefMessage) (category addr mask loc : List Char) : IdmefMessage :=
  match m.createIdmefNodeIn Analyzer .Node null with
  | (m, none) => m
  | (m, some curr) =>
    let m := if loc ≠ null then (m.createIdmefNode (some curr) location loc).1 else m
    let (m, curr) := m.createIdmefNode (some curr) Address null
    let m := m.setIdmefNodeAttr curr Address .category
      (if category = "ipv4-addr".toList ∨ category = "ipv6-addr".toList then category
        else "unknown".toList)
    let m := (m.createIdmefNode curr address addr).1
    (m.createIdmefNode curr netmask mask).1

/-- mirrors commonutils/idmef/idmefmessage.cpp:178-181 -/
def setAnalyzerNodeIdAttr (m : IdmefMessage) (ident : List Char) : IdmefMessage :=
  m.setIdmefNodeAttrIn Analyzer .Node .ident ident

/-- What the two functions below do with one end of the traffic. -/
def createEndNode (m : IdmefMessage) (side : NodeName) (attr : AttrName)
    (attrContent category addr mask : List Char) : IdmefMessage :=
  let curr := m.findIdmefNode root side
  let m := m.setIdmefNodeAttr curr side attr attrContent
  let (m, curr) := m.createIdmefNode curr .Node null
  let m := m.setIdmefNodeAttr curr .Node .category "unknown".toList
  let (m, curr) := m.createIdmefNode curr Address null
  let m := m.setIdmefNodeAttr curr Address .category category
  let m := (m.createIdmefNode curr address addr).1
  (m.createIdmefNode curr netmask mask).1

/-- mirrors commonutils/idmef/idmefmessage.cpp:191-206 -/
def createSourceNode (m : IdmefMessage) (spoofed category addr mask : List Char) : IdmefMessage :=
  m.createEndNode Source .spoofed spoofed category addr mask

/-- mirrors commonutils/idmef/idmefmessage.cpp:208-223 -/
def createTargetNode (m : IdmefMessage) (decoy category addr mask : List Char) : IdmefMessage :=
  m.createEndNode Target .decoy decoy category addr mask

/-- mirrors commonutils/idmef/idmefmessage.cpp:225-253 -/
def createServiceNode (m : IdmefMessage) (nodeName : NodeName)
    (serviceName servicePort servicePortlist serviceProtocol : List Char) : IdmefMessage :=
  match m.findIdmefNode root nodeName with
  | none => m
  | some curr =>
    let (m, curr) := m.createIdmefNode (some curr) Service null
    let m := m.setIdmefNodeAttr curr Service .ident "0".toList
    let m := m.setIdmefNodeAttr curr Service .ip_version "4".toList
    let m := m.setIdmefNodeAttr curr Service .iana_protocol_number []
    let m := m.setIdmefNodeAttr curr Service .iana_protocol_name []
    let m := if serviceName ≠ [] then (m.createIdmefNode curr .name serviceName).1 else m
    let m := if servicePort ≠ [] then (m.createIdmefNode curr port servicePort).1 else m
    let m := if servicePortlist ≠ [] then (m.createIdmefNode curr portlist servicePortlist).1 else m
    if serviceProtocol ≠ [] then (m.createIdmefNode curr protocol serviceProtocol).1 else m

/-- mirrors commonutils/idmef/idmefmessage.cpp:347-379 -/
def createExtStatisticsNode (m : IdmefMessage)
    (octetCount packetCount flowCount octetRate packetRate anomalyMeasure : List Char) :
      IdmefMessage :=
  let curr := m.findIdmefNode root .Observation
  let (m, curr) :=
    if curr.isNone then m.createIdmefNodeIn AdditionalData .Observation null else (m, curr)
  if curr.isNone then m
  else
    let curr := m.findIdmefNode curr Statistics
    let (m, curr) :=
      if curr.isNone then m.createIdmefNodeIn .Observation Statistics null else (m, curr)
    let m := (m.createIdmefNode curr OctetCount octetCount).1
    let m := (m.createIdmefNode curr PacketCount packetCount).1
    let m := (m.createIdmefNode curr FlowCount flowCount).1
    let m := (m.createIdmefNode curr OctetRate octetRate).1
    let m := m.setIdmefNodeAttr curr OctetRate .exponent "0".toList
    let m := (m.createIdmefNode curr PacketRate packetRate).1
    let m := m.setIdmefNodeAttr curr PacketRate .exponent "0".toList
    let m := (m.createIdmefNode curr AnomalyMeasure anomalyMeasure).1
    m.setIdmefNodeAttr curr AnomalyMeasure .Base "1000".toList

/-! ## What a message reports -/

/-- One end of the traffic. -/
structure Endpoint where
  address : Option (List Char)
  port : Option (List Char)
  protocol : Option (List Char)
  deriving DecidableEq, Repr

structure Observed where
  octetCount : Option (List Char)
  packetCount : Option (List Char)
  flowCount : Option (List Char)
  octetRate : Option (List Char)
  packetRate : Option (List Char)
  deriving DecidableEq, Repr

structure Report where
  source : Endpoint
  target : Endpoint
  observed : Observed
  deriving DecidableEq, Repr

def endpoint (m : IdmefMessage) (side : NodeName) : Endpoint where
  address := m.idmefTree.read [Alert, side, .Node, Address, address]
  port := m.idmefTree.read [Alert, side, Service, port]
  protocol := m.idmefTree.read [Alert, side, Service, protocol]

def statistic (m : IdmefMessage) (n : NodeName) : Option (List Char) :=
  m.idmefTree.read [Alert, AdditionalData, .Observation, Statistics, n]

def report (m : IdmefMessage) : Report where
  source := m.endpoint Source
  target := m.endpoint Target
  observed := ⟨m.statistic OctetCount, m.statistic PacketCount, m.statistic FlowCount,
    m.statistic OctetRate, m.statistic PacketRate⟩

/-- The members of `DetectionBase` that its messages are made from. -/
structure Origin where
  analyzerName : List Char
  analyzerId : List Char
  classification : List Char
  topasID : List Char
  deriving DecidableEq, Repr

/-- mirrors detectionmodules/detectionbase/detectionbase.h:400-410 -/
def getNewIdmefMessage (o : Origin) : IdmefMessage :=
  let m := alert o.analyzerName (o.analyzerName ++ '-' :: o.analyzerId) o.classification
  let m := m.setAnalyzerAttr [] "topas".toList [] []
  let m :=
    m.createAnalyzerNode "ipv4-addr".toList "127.0.0.1".toList "255.255.255.255".toList
      "B305".toList
  m.setAnalyzerNodeIdAttr o.topasID

/-- A message, with its nodes for the two ends and for additional data. -/
def form (o : Origin) (source target data : XmlNode) : IdmefMessage :=
  ⟨.node IDMEFMessage [(.version, "1.0".toList)] [] [
    .node Alert [(.messageid, "0".toList)] [] [
      .node Analyzer [(.name, o.analyzerName), (.analyzerid, o.analyzerName ++ '-' :: o.analyzerId),
        (.manufacturer, "topas".toList), (.model, []), (.version, []), (.class_, []), (.ostype, []),
        (.osversion, [])] [] [
        .node .Node [(.ident, o.topasID)] [] [
          .node location [] "B305".toList [],
          .node Address [(.category, "ipv4-addr".toList)] [] [
            .node address [] "127.0.0.1".toList [],
            .node netmask [] "255.255.255.255".toList []]]],
      .node CreateTime [(.ntpstamp, [])] [] [],
      source,
      target,
      .node Classification [(.text, o.classification)] [] [],
      .node Assessment [] [] [],
      data]]⟩

/-- An end that nothing is known of. -/
def noEnd (side : NodeName) : XmlNode := .node side [] [] []

def noData : XmlNode := .node AdditionalData [(.type, "xml".toList)] [] []

/-- An end of which the address is known. -/
def endNode (side : NodeName) (attr : AttrName) (attrContent category addr mask : List Char) :
    XmlNode :=
  .node side [(attr, attrContent)] [] [
    .node .Node [(.category, "unknown".toList)] [] [
      .node Address [(.category, category)] [] [
        .node address [] (contentOf addr) [],
        .node netmask [] (contentOf mask) []]]]

/-- A node that is created where there is something to put into it. -/
def optional (n : NodeName) (nodeContent : List Char) : List XmlNode :=
  if nodeContent ≠ [] then [.node n [] (contentOf nodeContent) []] else []

/-- An end of which the service is known. -/
def serviceNode (side : NodeName) (servicePort serviceProtocol : List Char) : XmlNode :=
  .node side [] [] [
    .node Service [(.ident, "0".toList), (.ip_version, "4".toList), (.iana_protocol_number, []),
      (.iana_protocol_name, [])] []
        (optional port servicePort ++ optional protocol serviceProtocol)]

def statisticsNode
    (octetCount packetCount flowCount octetRate packetRate anomalyMeasure : List Char) :
    XmlNode :=
  .node AdditionalData [(.type, "xml".toList)] [] [
    .node .Observation [] [] [
      .node Statistics [] [] [
        .node OctetCount [] (contentOf octetCount) [],
        .node PacketCount [] (contentOf packetCount) [],
        .node FlowCount [] (contentOf flowCount) [],
        .node OctetRate [(.exponent, "0".toList)] (contentOf octetRate) [],
        .node PacketRate [(.exponent, "0".toList)] (contentOf packetRate) [],
        .node AnomalyMeasure [(.Base, "1000".toList)] (contentOf anomalyMeasure) []]]]

section Forms

variable (o : Origin)

/-- `NULL` is not a text of a node. -/
@[simp] theorem contentOf_null : contentOf null = [] := if_neg (not_not_intro rfl)

attribute [simp] findIdmefNode root newChild createIdmefNode createIdmefNodeIn isMultipleNode
  setIdmefNodeAttr setIdmefNodeAttrIn

theorem getNewIdmefMessage_eq :
    getNewIdmefMessage o = form o (noEnd Source) (noEnd Target) noData := by
  simp [getNewIdmefMessage, alert, createAlertBody, setAnalyzerAttr, createAnalyzerNode,
    setAnalyzerNodeIdAttr, form, noEnd, noData, contentOf, null]

theorem createSourceNode_new (spoofed category addr mask : List Char) :
    (getNewIdmefMessage o).createSourceNode spoofed category addr mask =
      form o (endNode Source .spoofed spoofed category addr mask) (noEnd Target) noData := by
  rw [getNewIdmefMessage_eq]
  simp [createSourceNode, createEndNode, form, noEnd, noData, endNode]

theorem createTargetNode_new (decoy category addr mask : List Char) :
    (getNewIdmefMessage o).createTargetNode decoy category addr mask =
      form o (noEnd Source) (endNode Target .decoy decoy category addr mask) noData := by
  rw [getNewIdmefMessage_eq]
  simp [createTargetNode, createEndNode, form, noEnd, noData, endNode]

theorem createServiceNode_source (servicePort serviceProtocol : List Char) :
    (getNewIdmefMessage o).createServiceNode Source [] servicePort [] serviceProtocol =
      form o (serviceNode Source servicePort serviceProtocol) (noEnd Target) noData := by
  rw [getNewIdmefMessage_eq]
  by_cases hport : servicePort = [] <;> by_cases hprotocol : serviceProtocol = [] <;>
    simp [createServiceNode, form, noEnd, noData, serviceNode, optional, hport, hprotocol]

theorem createServiceNode_target (servicePort serviceProtocol : List Char) :
    (getNewIdmefMessage o).createServiceNode Target [] servicePort [] serviceProtocol =
      form o (noEnd Source) (serviceNode Target servicePort serviceProtocol) noData := by
  rw [getNewIdmefMessage_eq]
  by_cases hport : servicePort = [] <;> by_cases hprotocol : serviceProtocol = [] <;>
    simp [createServiceNode, form, noEnd, noData, serviceNode, optional, hport, hprotocol]

/-- The ends say nothing about what is observed. -/
def Unobserved (x : XmlNode) : Prop :=
    ∀ n ∈ [AdditionalData, .Observation, Statistics], x.find n = none

theorem createExtStatisticsNode_form {source target : XmlNode} (hs : Unobserved source)
    (ht : Unobserved target)
    (octetCount packetCount flowCount octetRate packetRate anomaly : List Char) :
    (form o source target noData).createExtStatisticsNode octetCount packetCount flowCount octetRate
        packetRate anomaly =
      form o source target
      (statisticsNode octetCount packetCount flowCount octetRate packetRate anomaly) := by
  simp only [Unobserved, List.mem_cons, List.not_mem_nil, or_false, forall_eq_or_imp,
    forall_eq] at hs ht
  obtain ⟨hsd, hso, hss⟩ := hs
  obtain ⟨htd, hto, hts⟩ := ht
  simp [createExtStatisticsNode, form, noData, statisticsNode, hsd, hso, hss, htd, hto, hts]

@[simp] theorem unobserved_noEnd {side : NodeName} (h : side = Source ∨ side = Target) :
    Unobserved (noEnd side) := by
  rcases h with rfl | rfl <;> simp [Unobserved, noEnd]

theorem unobserved_endNode {side : NodeName} (h : side = Source ∨ side = Target) (attr : AttrName)
    (attrContent category addr mask : List Char) :
    Unobserved (endNode side attr attrContent category addr mask) := by
  rcases h with rfl | rfl <;> simp [Unobserved, endNode]

theorem unobserved_serviceNode {side : NodeName} (h : side = Source ∨ side = Target)
    (servicePort serviceProtocol : List Char) :
      Unobserved (serviceNode side servicePort serviceProtocol) := by
  rcases h with rfl | rfl <;> by_cases hport : servicePort = [] <;>
    by_cases hprotocol : serviceProtocol = [] <;>
    simp [Unobserved, serviceNode, optional, hport, hprotocol]

/-- What is read of the node for one end. -/
def endpointOf (x : XmlNode) : Endpoint :=
  ⟨x.read [.Node, Address, address], x.read [Service, port], x.read [Service, protocol]⟩

@[simp] theorem endpointOf_noEnd (side : NodeName) :
    endpointOf (noEnd side) = ⟨none, none, none⟩ := by
  simp [endpointOf, noEnd]

@[simp] theorem endpointOf_endNode (side : NodeName) (attr : AttrName)
    (attrContent category addr mask : List Char) :
    endpointOf (endNode side attr attrContent category addr mask) =
      ⟨some (contentOf addr), none, none⟩ := by
  simp [endpointOf, endNode]

@[simp] theorem endpointOf_serviceNode (side : NodeName) (servicePort serviceProtocol : List Char) :
    endpointOf (serviceNode side servicePort serviceProtocol) =
      ⟨none, if servicePort ≠ [] then some (contentOf servicePort) else none,
        if serviceProtocol ≠ [] then some (contentOf serviceProtocol) else none⟩ := by
  by_cases hport : servicePort = [] <;> by_cases hprotocol : serviceProtocol = [] <;>
    simp [endpointOf, serviceNode, optional, hport, hprotocol]

theorem report_form {source target : XmlNode} (hs : source.name = Source)
    (ht : target.name = Target)
    (octetCount packetCount flowCount octetRate packetRate anomaly : List Char) :
    (form o source target
        (statisticsNode octetCount packetCount flowCount octetRate packetRate anomaly)).report =
      ⟨endpointOf source, endpointOf target,
        ⟨some (contentOf octetCount), some (contentOf packetCount),
        some (contentOf flowCount), some (contentOf octetRate), some (contentOf packetRate)⟩⟩ := by
  simp [report, endpoint, statistic, form, statisticsNode, endpointOf, hs, ht]

end Forms

end IdmefMessage

end Topas
