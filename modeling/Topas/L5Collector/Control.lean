import Topas.Core.LTS
import Topas.Core.OrderedMap
import Topas.L5Collector.Collector
import Topas.L5Collector.XmlConfObj
import Mathlib.Data.List.Perm.Basic

/-!
# Control messages

With xmlBlaster servers `Manager::run` takes one message of each server behind every round, and
`Manager::update` does what it asks for: a module is started, its configuration is read or written,
or the modules are listed. What arrives is put into a vector by the thread of the connection, and
the last element is taken. A file that can be opened takes all that is written to it.

* `programs_configured`: whatever messages there are, only programs of the configuration are run,
  each with the arguments that are given for it there, behind some configuration file.
* `answered_once`: every message is taken at most once, the last one first, and answered once if it
  asks for something or cannot be parsed.
* `files_written`: a message writes the configuration file of one module, and leaves it empty if the
  message has nothing to write.
* `config_read_back`: what was written is what a later message reads, line by line.
-/
namespace Topas

open Xml

/-! ## The data -/

/-- `std::string::operator<`. -/
def textLt (a b : List Char) : Bool := decide (a < b)

/-- The vector of a module's arguments; the configuration file is inserted in front.
mirrors collector/manager.cpp:97 -/
structure Arguments where
  configFile : List Char
  arguments : List (List Char)
  deriving DecidableEq, Repr

/-- mirrors collector/detectmod.h:142-155 -/
structure ManagedModule where
  filename : List Char
  arguments : Arguments
  state : ModState
  deriving DecidableEq, Repr

/-- mirrors commonutils/idmef/xmlBlasterCommObject.h:101-105 -/
structure CommObject where
  updateMessages : List (List Char)
  updateAvailable : Bool
  deriving DecidableEq, Repr

/-- The manager with its container and the files. Three ghosts: what the manager has published to
every server, which messages the connections have got, and which ones the manager has taken, in this
order. -/
structure Control where
  availableModules : List (List Char × Arguments)
  detectionModules : List ManagedModule
  files : List Char → Option (List Char)
  commObjs : List CommObject
  published : List (List Char)
  received : List (List Char)
  taken : List (List Char)

/-- `libxml2`, to which an empty text is no document, what the files permit, and the identity of the
collector. -/
structure ControlEnv where
  xmlReadMemory : List Char → Option XmlDoc
  xmlReadMemory_nil : xmlReadMemory [] = none
  xmlNodeDump : XmlPtr String → List Char
  lstat : List Char → Bool
  writable : List Char → Bool
  topasID : List Char

/-- A `detectionModule` of the configuration.
mirrors collector/collector.cpp:190-205 -/
structure ConfiguredModule where
  modulePath : List Char
  configFile : List Char
  arguments : List (List Char)
  start : Bool
  deriving DecidableEq, Repr

namespace Control

/-! The names of nodes and attributes.
mirrors commonutils/global.h:49-86 -/

def START : String := "start"

def GET_MODULE_CONFIG : String := "getModuleConfig"

def UPDATE_MODULE_CONFIG : String := "updateModuleConfig"

def GET_AVAILABLE_MODULES : String := "getAvailableModules"

def GET_RUNNING_MODULES : String := "getRunningModules"

def MODULE_FILENAME : String := "fileName"

def CONFIG_FILE : String := "configFile"

/-! ## The container -/

/-- mirrors collector/modulecontainer.cpp:96-102 -/
def createModule (command : List Char) (args : Arguments) (s : Control) : Control :=
  { s with detectionModules := s.detectionModules ++ [⟨command, args, .NotRunning⟩] }

/-- mirrors collector/modulecontainer.cpp:77-93 -/
def startModules (s : Control) : Control :=
  { s with detectionModules := s.detectionModules.map fun m =>
      if m.state ≠ .NotRunning then m else { m with state := .Running } }

/-- mirrors collector/modulecontainer.cpp:155-165 -/
def getRunningModules (s : Control) : List (List Char) :=
  (s.detectionModules.filter (·.state = .Running)).map fun m =>
    m.filename ++ ' ' :: m.arguments.configFile

/-- mirrors collector/manager.cpp:81-103 -/
def addDetectionModule (e : ControlEnv) (s : Control) (c : ConfiguredModule) : Control :=
  if e.lstat c.modulePath then
    let arguments : Arguments := ⟨c.configFile, c.arguments⟩
    let s := { s with
      availableModules :=
        OrderedMap.update textLt arguments (fun _ => arguments) c.modulePath s.availableModules }
    if c.start then s.createModule c.modulePath arguments else s
  else s

/-! ## The operations -/

/-- `availableModules.find(filename)` -/
def find (s : Control) (filename : List Char) : Option Arguments :=
  @List.lookup _ _ instBEqOfDecidableEq filename s.availableModules

section Update

variable (e : ControlEnv)

/-- `sendControlMessage`
mirrors collector/manager.cpp:395-404 -/
def sendControlMessage (message : List Char) (s : Control) : Control :=
  { s with published := s.published ++ [message] }

/-- `<result oid=…>`; the texts do not use the same quotes everywhere. -/
def resultOid (opening closing : List Char) : List Char :=
  "<result oid=".toList ++ opening ++ "topas-".toList ++ e.topasID ++ closing ++ ['>']

def openResult : List Char := resultOid e ['\''] ['\'']

def closeResult : List Char := "</result>".toList

def managerResult (explanation : List Char) : List Char :=
  openResult e ++ "Manager: ".toList ++ explanation ++ closeResult

/-- What the `catch` clauses send. -/
def sendException (what : String) (s : Control) : Control :=
  s.sendControlMessage (managerResult e what.toList)

def notAvailable (filename : List Char) : List Char :=
  managerResult e ("module \"".toList ++ filename ++ "\" is not available".toList)

/-- mirrors collector/manager.cpp:262-283 -/
def start (xmlObj : XMLConfObj) (s : Control) : Control :=
  match (xmlObj.getAttributeOf START MODULE_FILENAME).1,
    (xmlObj.getAttributeOf START CONFIG_FILE).1 with
  | .error what, _ => s.sendException e what
  | .ok _, .error what => s.sendException e what
  | .ok filename, .ok config_file =>
    match s.find filename with
    | some arguments =>
      let arguments := { arguments with configFile := config_file }
      ({ s with
          availableModules :=
            OrderedMap.update textLt arguments
              (fun _ => arguments) filename s.availableModules }.createModule
        filename arguments).startModules.sendControlMessage
        (resultOid e ['"'] ['"'] ++ "Manager: module \"".toList ++ filename ++ "\" started".toList ++ closeResult)
    | none =>
      s.sendControlMessage (resultOid e ['\''] ['"'] ++ "Manager: module '".toList ++ filename ++
        "\" is not available".toList ++ closeResult)

/-- The loop over `std::getline`; `line` is what has been read of a line. -/
def copyLines (line : List Char) : List Char → List Char
  | [] => if line = [] then [] else line ++ ['\n']
  | c :: rest =>
    if c = '\n' then line ++ '\n' :: copyLines [] rest else copyLines (line ++ [c]) rest

/-- mirrors collector/manager.cpp:284-317 -/
def getModuleConfig (xmlObj : XMLConfObj) (s : Control) : Control :=
  match (xmlObj.getAttributeOf GET_MODULE_CONFIG MODULE_FILENAME).1 with
  | .error what => s.sendException e what
  | .ok filename =>
    match s.find filename with
    | none => s.sendControlMessage (notAvailable e filename)
    | some arguments =>
      match s.files arguments.configFile with
      | none => s.sendControlMessage (managerResult e
          ("Can't open \"".toList ++ arguments.configFile ++ ['"']))
      | some content =>
        s.sendControlMessage (openResult e ++ '\n' :: copyLines [] content ++ '\n' :: closeResult)

/-- What is written: only the first element below `<configuration>`.
mirrors collector/manager.cpp:335-337 -/
def configuration (xmlObj : XMLConfObj) : Except String (List Char) :=
  match xmlObj.enterNode UPDATE_MODULE_CONFIG with
  | (.error what, _) => .error what
  | (.ok _, xmlObj) =>
    match xmlObj.enterNode CONFIGURATION with
    | (.error what, _) => .error what
    | (.ok _, xmlObj) => .ok (e.xmlNodeDump xmlObj.currentLevel)

/-- The file is truncated when it is opened, before anything can be thrown.
mirrors collector/manager.cpp:318-348 -/
def updateModuleConfig (xmlObj : XMLConfObj) (s : Control) : Control :=
  match (xmlObj.getAttributeOf UPDATE_MODULE_CONFIG MODULE_FILENAME).1 with
  | .error what => s.sendException e what
  | .ok filename =>
    match s.find filename with
    | none => s.sendControlMessage (notAvailable e filename)
    | some arguments =>
      if e.writable arguments.configFile then
        match configuration e xmlObj with
        | .error what =>
          { s with files := Function.update s.files arguments.configFile (some []) }.sendException e what
        | .ok message =>
          { s with files := Function.update s.files arguments.configFile (some message) }.sendControlMessage
            (openResult e ++ "Update succesful".toList ++ closeResult)
      else s.sendControlMessage (managerResult e
        ("Can't open \"".toList ++ arguments.configFile ++ "\" for writing".toList))

/-- An element of the lists. -/
def moduleElement (fileName configFile : List Char) : List Char :=
  "<module fileName=\"".toList ++ fileName ++ "\" configFile=\"".toList ++ configFile ++
    "\"/>\n".toList

/-- A list, or that there is none. -/
def sendList (message none : List Char) (s : Control) : Control :=
  s.sendControlMessage (if message ≠ [] then openResult e ++ '\n' :: message ++ closeResult
    else openResult e ++ none ++ closeResult)

/-- mirrors collector/manager.cpp:349-362 -/
def getAvailableModules (s : Control) : Control :=
  s.sendList e (s.availableModules.flatMap fun p => moduleElement p.1 p.2.configFile)
    "No modules available".toList

/-- An entry of `getRunningModules` is split at its first blank.
mirrors collector/manager.cpp:368-377 -/
def runningElement (entry : List Char) : List Char :=
  match entry.span (· ≠ ' ') with
  | (fileName, _ :: configFile) => moduleElement fileName configFile
  | (_, []) => []

/-- mirrors collector/manager.cpp:363-388 -/
def getRunning (s : Control) : Control :=
  s.sendList e (s.getRunningModules.flatMap runningElement) "No running modules available".toList

/-- mirrors collector/manager.cpp:257-393 -/
def update (xmlObj : XMLConfObj) (s : Control) : Control :=
  let has (nodeName : String) : Bool := (xmlObj.findNode (named nodeName) true).isSome
  if has START then s.start e xmlObj
  else if has GET_MODULE_CONFIG then s.getModuleConfig e xmlObj
  else if has UPDATE_MODULE_CONFIG then s.updateModuleConfig e xmlObj
  else if has GET_AVAILABLE_MODULES then s.getAvailableModules e
  else if has GET_RUNNING_MODULES then s.getRunning e
  else s

/-- What is done with a message that was taken.
mirrors collector/manager.cpp:212-224 -/
def handle (message : List Char) (s : Control) : Control :=
  if message = [] then s
  else
    match XMLConfObj.ofString (String.ofList message) (e.xmlReadMemory message) with
    | .ok confObj => s.update e confObj
    | .error what => s.sendException e what

end Update

end Control

/-! ## The connections -/

namespace CommObject

/-- mirrors commonutils/idmef/xmlBlasterCommObject.cpp:99-109 -/
def update (content : List Char) (c : CommObject) : CommObject :=
    ⟨c.updateMessages ++ [content], true⟩

/-- The message that is taken off the vector; where there is none, an empty one is returned.
mirrors commonutils/idmef/xmlBlasterCommObject.cpp:111-125 -/
def getUpdateMessage (c : CommObject) : Option (List Char) × CommObject :=
  if c.updateAvailable then
    match c.updateMessages.getLast? with
    | some copy => (some copy, { c with updateMessages := c.updateMessages.dropLast })
    | none => (none, { c with updateAvailable := false })
  else (none, c)

end CommObject

/-- A message arrives at a connection, the manager asks a connection for one, the handler of a
signal changes a module's state, and the container is gone through. -/
inductive ControlOp where
  | update (i : Nat) (content : List Char)
  | poll (i : Nat)
  | setState (k : Nat) (state : ModState)
  | notifyAll
  deriving DecidableEq, Repr

namespace Control

section Runs

variable (e : ControlEnv)

/-- What connection `c` has for the manager, and what the manager does.
mirrors collector/manager.cpp:211-225 -/
def poll (i : Nat) (c : CommObject) (s : Control) : Control :=
  match c.getUpdateMessage with
  | (none, c) => { s with commObjs := s.commObjs.set i c }
  | (some message, c) =>
    { s with commObjs := s.commObjs.set i c, taken := s.taken ++ [message] }.handle e message

def step (s : Control) : ControlOp → Option Control
  | .update i content =>
    match s.commObjs[i]? with
    | some c => some { s with
        commObjs := s.commObjs.set i (c.update content)
        received := s.received ++ [content] }
    | none => none
  | .poll i => (s.commObjs[i]?).map fun c => s.poll e i c
  | .setState k state =>
    if state = .NotRunning then none
    else some { s with detectionModules := s.detectionModules.modify k ({ · with state := state }) }
  | .notifyAll => some { s with detectionModules := s.detectionModules.filter (·.state ≠ .Remove) }

/-- After the configuration has been read and the modules are started; `updateAvailable` is not
initialized.
mirrors collector/collector.cpp:183-215, collector/manager.cpp:105-144 -/
def setup (configured : List ConfiguredModule) (files : List Char → Option (List Char))
    (flags : List Bool) :
    Control :=
  (configured.foldl (addDetectionModule e)
    ⟨[], [], files, flags.map fun updateAvailable => ⟨[], updateAvailable⟩, [], [],
      []⟩).startModules

end Runs

end Control

def control (e : ControlEnv) (configured : List ConfiguredModule)
    (files : List Char → Option (List Char)) :
    LTS Control ControlOp :=
  .ofStep (fun s => ∃ flags, s = .setup e configured files flags) (Control.step e)

/-! ## What a message does -/

namespace XmlDoc

/-- The object of a text. -/
def confObj (d : XmlDoc) : XMLConfObj := ⟨d, d.rootElement, d.rootElement⟩

/-- On its level there is only the root element. -/
theorem findNode_confObj (d : XmlDoc) (nodeName : String) :
    d.confObj.findNode (named nodeName) true = if d.name = nodeName then
      some d.rootElement else none := by
  have hepilog : ∀ x ∈ d.epilog, named nodeName x = false := by
    intro x hx
    cases x with
    | text => rfl
    | element => cases d.epilog_text _ hx
  change XmlPtr.seek (named nodeName) _ _ (d.root :: d.epilog) = _
  have hroot : named nodeName d.root = decide (d.name = nodeName) := rfl
  rw [XmlPtr.seek, hroot]
  by_cases hname : d.name = nodeName
  · rw [if_pos hname, if_pos (decide_eq_true hname)]
    rfl
  · rw [if_neg hname, if_neg (fun h => hname (of_decide_eq_true h)), XmlPtr.seek_eq_none]
    exact hepilog

theorem getAttributeOf_confObj (d : XmlDoc) {nodeName : String} (hname : d.name = nodeName)
    (attrName : String) : (d.confObj.getAttributeOf nodeName attrName).1 =
      match d.attributes.lookup attrName with
      | some ret => .ok ret
      | none => .error ("No attribute \"" ++ attrName ++ "\" in node \"" ++ nodeName ++ "\"") := by
  have hfind := d.findNode_confObj nodeName
  rw [if_pos hname] at hfind
  simp only [XMLConfObj.getAttributeOf, hfind]
  have hprop : d.rootElement.prop attrName = d.attributes.lookup attrName := rfl
  rw [hprop]
  cases d.attributes.lookup attrName <;> rfl

end XmlDoc

namespace Control

variable {e : ControlEnv} {s s' : Control} {message : List Char}

/-- The messages that are answered. -/
def GetsAnswer (e : ControlEnv) (message : List Char) : Bool :=
  if message = [] then false
  else
    match e.xmlReadMemory message with
    | none => true
    | some d => d.name ∈ [START, GET_MODULE_CONFIG, UPDATE_MODULE_CONFIG, GET_AVAILABLE_MODULES,
        GET_RUNNING_MODULES]

/-- The file name and the configuration file of a message that starts a module. -/
def StartMessage (e : ControlEnv) (message filename configFile : List Char) : Prop :=
  ∃ d, e.xmlReadMemory message = some d ∧ d.name = START ∧
    d.attributes.lookup MODULE_FILENAME = some filename ∧
      d.attributes.lookup CONFIG_FILE = some configFile

/-- What a message writes for a module. -/
def UpdateMessage (e : ControlEnv) (message filename content : List Char) : Prop :=
  ∃ d, e.xmlReadMemory message = some d ∧ d.name = UPDATE_MODULE_CONFIG ∧
    d.attributes.lookup MODULE_FILENAME = some filename ∧
    content = match configuration e d.confObj with
      | .ok dump => dump
      | .error _ => []

/-- A module with another configuration file is started. -/
def startWith (filename : List Char) (arguments : Arguments) (s : Control) : Control :=
  ({ s with
      availableModules :=
        OrderedMap.update textLt arguments
          (fun _ => arguments) filename s.availableModules }.createModule
    filename arguments).startModules

def writeFile (file content : List Char) (s : Control) : Control :=
  { s with files := Function.update s.files file (some content) }

/-- What a message may do. -/
inductive Effect (e : ControlEnv) (message : List Char) (s : Control) : Control → Prop where
  | ignored (h : GetsAnswer e message = false) : Effect e message s s
  | replied (answer : List Char) (h : GetsAnswer e message = true) :
      Effect e message s (s.sendControlMessage answer)
  | started (filename configFile answer : List Char) (arguments : Arguments)
    (h : GetsAnswer e message = true)
      (hstart : StartMessage e message filename configFile)
      (hlookup : s.find filename = some arguments) :
      Effect e message s
        ((s.startWith filename { arguments with configFile := configFile }).sendControlMessage
        answer)
  | written (filename content answer : List Char) (arguments : Arguments)
    (h : GetsAnswer e message = true)
      (hupdate : UpdateMessage e message filename content)
      (hlookup : s.find filename = some arguments)
      (hwritable : e.writable arguments.configFile = true) :
      Effect e message s ((s.writeFile arguments.configFile content).sendControlMessage answer)

theorem handle_of_doc {d : XmlDoc} (hdoc : e.xmlReadMemory message = some d) :
    s.handle e message = s.update e d.confObj := by
  unfold handle
  rw [if_neg, hdoc]
  · rfl
  · rintro rfl
    rw [e.xmlReadMemory_nil] at hdoc
    cases hdoc

/-- An operation is chosen by the name of the root element. -/
theorem update_confObj (d : XmlDoc) (s : Control) : s.update e d.confObj =
    if d.name = START then s.start e d.confObj
    else if d.name = GET_MODULE_CONFIG then s.getModuleConfig e d.confObj
    else if d.name = UPDATE_MODULE_CONFIG then s.updateModuleConfig e d.confObj
    else if d.name = GET_AVAILABLE_MODULES then s.getAvailableModules e
    else if d.name = GET_RUNNING_MODULES then s.getRunning e
    else s := by
  have hhas : ∀ nodeName, (d.confObj.findNode (named nodeName) true).isSome = decide
      (d.name = nodeName) := by
    intro nodeName
    rw [d.findNode_confObj]
    split <;> simp [*]
  simp only [update, hhas, decide_eq_true_eq]

theorem handle_effect (e : ControlEnv) (message : List Char) (s : Control) :
    Effect e message s (s.handle e message) := by
  unfold handle
  split
  · rename_i hempty
    exact .ignored (if_pos hempty)
  rename_i hne
  cases hdoc : e.xmlReadMemory message with
  | none => exact .replied _ (by simp [GetsAnswer, hne, hdoc])
  | some d =>
    change Effect e message s (s.update e d.confObj)
    have hanswered :
      GetsAnswer e message = decide (d.name ∈ [START, GET_MODULE_CONFIG, UPDATE_MODULE_CONFIG,
        GET_AVAILABLE_MODULES, GET_RUNNING_MODULES]) := by
      simp [GetsAnswer, hne, hdoc]
    rw [update_confObj]
    split
    · rename_i hname
      have hreply : GetsAnswer e message = true := by rw [hanswered, hname]; rfl
      unfold start
      rw [d.getAttributeOf_confObj hname, d.getAttributeOf_confObj hname]
      cases hfile : d.attributes.lookup MODULE_FILENAME with
      | none => exact .replied _ hreply
      | some filename =>
        cases hconfig : d.attributes.lookup CONFIG_FILE with
        | none => exact .replied _ hreply
        | some configFile =>
          cases hlookup : s.find filename with
          | none => simp only [hlookup]; exact .replied _ hreply
          | some arguments =>
            simp only [hlookup]
            exact .started filename configFile _ arguments hreply
              ⟨d, hdoc, hname, hfile, hconfig⟩ hlookup
    split
    · rename_i hname
      have hreply : GetsAnswer e message = true := by rw [hanswered, hname]; rfl
      unfold getModuleConfig
      rw [d.getAttributeOf_confObj hname]
      cases d.attributes.lookup MODULE_FILENAME with
      | none => exact .replied _ hreply
      | some filename =>
        simp only
        split
        · exact .replied _ hreply
        split
        · exact .replied _ hreply
        · exact .replied _ hreply
    split
    · rename_i hname
      have hreply : GetsAnswer e message = true := by rw [hanswered, hname]; rfl
      unfold updateModuleConfig
      rw [d.getAttributeOf_confObj hname]
      cases hfile : d.attributes.lookup MODULE_FILENAME with
      | none => exact .replied _ hreply
      | some filename =>
        simp only
        split
        · exact .replied _ hreply
        rename_i arguments hlookup
        split
        · rename_i hwritable
          split
          · rename_i hcontent
            exact .written filename _ _ arguments hreply
              ⟨d, hdoc, hname, hfile, by rw [hcontent]⟩ hlookup hwritable
          · rename_i hcontent
            exact .written filename _ _ arguments hreply
              ⟨d, hdoc, hname, hfile, by rw [hcontent]⟩ hlookup hwritable
        · exact .replied _ hreply
    split
    · rename_i hname
      exact .replied _ (by rw [hanswered, hname]; rfl)
    split
    · rename_i hname
      exact .replied _ (by rw [hanswered, hname]; rfl)
    · exact .ignored (by rw [hanswered]; simp [*])

/-! ## Programs and files -/

theorem textLt_total : OrderedMap.Total textLt where
  irrefl a := decide_eq_false (List.lt_irrefl a)
  trans a b c hab hbc := by
    simp only [textLt, decide_eq_true_eq] at hab hbc ⊢
    exact List.lt_trans hab hbc
  connected a b hab hba := by
    simp only [textLt, decide_eq_false_iff_not, List.not_lt] at hab hba
    exact List.le_antisymm hba hab

/-- The configuration has the program, with these arguments. -/
def Configured (e : ControlEnv) (configured : List ConfiguredModule) (filename : List Char)
    (arguments : List (List Char)) : Prop :=
  ∃ c ∈ configured, e.lstat c.modulePath = true ∧ c.modulePath = filename ∧ c.arguments = arguments

/-- A file is a configuration file, in the configuration or in a message. -/
def Named (e : ControlEnv) (configured : List ConfiguredModule) (taken : List (List Char))
    (file : List Char) :
    Prop :=
  (∃ c ∈ configured, c.configFile = file) ∨
    ∃ message ∈ taken, ∃ filename, StartMessage e message filename file

/-- What a file has, at first or by a message. -/
def Holds (e : ControlEnv) (configured : List ConfiguredModule)
    (files : List Char → Option (List Char)) (s : Control) (file : List Char) : Prop :=
  s.files file = files file ∨ e.writable file = true ∧ Named e configured s.taken file ∧
    ∃ message ∈ s.taken, ∃ filename content, UpdateMessage e message filename content ∧
      s.files file = some content

structure Kept (e : ControlEnv) (configured : List ConfiguredModule)
    (files : List Char → Option (List Char)) (s : Control) : Prop where
  sorted : OrderedMap.Sorted textLt s.availableModules
  available : ∀ filename args, s.find filename = some args →
    Configured e configured filename args.arguments ∧ Named e configured s.taken args.configFile
  modules : ∀ m ∈ s.detectionModules,
    Configured e configured m.filename m.arguments.arguments ∧
      Named e configured s.taken m.arguments.configFile
  files : ∀ file, Holds e configured files s file

section Kept

variable {configured : List ConfiguredModule} {files : List Char → Option (List Char)}

theorem Named.mono {taken taken' : List (List Char)} {file : List Char}
    (h : Named e configured taken file) (hsub : taken ⊆ taken') : Named e configured taken' file :=
  h.imp_right fun ⟨message, hm, hstart⟩ => ⟨message, hsub hm, hstart⟩

/-- Where no message is handled. -/
theorem Kept.frame (h : Kept e configured files s)
    (havailable : s'.availableModules = s.availableModules)
    (hfiles : s'.files = s.files) (hsub : s.taken ⊆ s'.taken)
    (hmodules : ∀ m ∈ s'.detectionModules, ∃ m' ∈ s.detectionModules,
      m'.filename = m.filename ∧ m'.arguments = m.arguments) : Kept e configured files s' where
  sorted := havailable ▸ h.sorted
  available filename args hl := by
    rw [find, havailable] at hl
    obtain ⟨hc, hn⟩ := h.available filename args hl
    exact ⟨hc, hn.mono hsub⟩
  modules m hm := by
    obtain ⟨m', hm', hname, hargs⟩ := hmodules m hm
    obtain ⟨hc, hn⟩ := h.modules m' hm'
    rw [← hname, ← hargs]
    exact ⟨hc, hn.mono hsub⟩
  files file := by
    unfold Holds
    rw [hfiles]
    refine (h.files file).imp_right fun ⟨hw, hn, message, hm, hupdate⟩ => ?_
    exact ⟨hw, hn.mono hsub, message, hsub hm, hupdate⟩

theorem Kept.startModules (h : Kept e configured files s) :
    Kept e configured files s.startModules := by
  refine h.frame rfl rfl (fun _ => id) fun m hm => ?_
  obtain ⟨m', hm', rfl⟩ := List.mem_map.mp hm
  refine ⟨m', hm', ?_⟩
  split
  · exact ⟨rfl, rfl⟩
  · exact ⟨rfl, rfl⟩

theorem Kept.sendControlMessage (h : Kept e configured files s) (answer : List Char) :
    Kept e configured files (s.sendControlMessage answer) :=
  h.frame rfl rfl (fun _ => id) fun m hm => ⟨m, hm, rfl, rfl⟩

/-- `availableModules[filename] = args` -/
theorem find_insert (h : OrderedMap.Sorted textLt s.availableModules) {filename : List Char}
    {args : Arguments} (havailable : s'.availableModules = OrderedMap.update textLt args
      (fun _ => args) filename s.availableModules)
    (filename' : List Char) :
      s'.find filename' = if filename' = filename then some args else s.find filename' := by
  rw [find, havailable]
  exact OrderedMap.lookup_update textLt_total h filename'

/-- A module that may be run gets its arguments, and is run perhaps. -/
theorem Kept.insert (h : Kept e configured files s) {filename : List Char} (args : Arguments)
    (ms : List ManagedModule)
    (hc : Configured e configured filename args.arguments)
    (hn : Named e configured s.taken args.configFile)
    (hms : ∀ m ∈ ms, m.filename = filename ∧ m.arguments = args) :
    Kept e configured files { s with
      availableModules := OrderedMap.update textLt args (fun _ => args) filename s.availableModules
      detectionModules := s.detectionModules ++ ms } where
  sorted := OrderedMap.sorted_update textLt_total h.sorted
  available filename' args' hl := by
    rw [find_insert h.sorted rfl] at hl
    split at hl
    · rename_i heq
      cases hl
      exact ⟨heq ▸ hc, hn⟩
    · exact h.available filename' args' hl
  modules m hm := by
    rcases List.mem_append.mp hm with hm | hm
    · exact h.modules m hm
    · obtain ⟨hname, hargs⟩ := hms m hm
      rw [hname, hargs]
      exact ⟨hc, hn⟩
  files := h.files

theorem Kept.effect (h : Kept e configured files s) (hm : message ∈ s.taken)
    (he : Effect e message s s') :
    Kept e configured files s' := by
  cases he with
  | ignored => exact h
  | replied => exact h.sendControlMessage _
  | started filename configFile answer arguments hanswered hstart hlookup =>
    refine Kept.sendControlMessage (Kept.startModules (h.insert _ [_] ?_ ?_ ?_)) _
    · exact (h.available filename arguments hlookup).1
    · exact .inr ⟨message, hm, filename, hstart⟩
    · exact List.forall_mem_singleton.mpr ⟨rfl, rfl⟩
  | written filename content answer arguments hanswered hupdate hlookup hwritable =>
    refine Kept.sendControlMessage ?_ _
    refine { h with files := fun file => ?_ }
    by_cases heq : file = arguments.configFile
    · have hcontent : (s.writeFile arguments.configFile content).files file = some content := by
        rw [heq]
        exact Function.update_self ..
      exact .inr
        ⟨heq ▸ hwritable, heq ▸ (h.available filename arguments hlookup).2, message, hm, filename,
        content, hupdate, hcontent⟩
    · have hsame : (s.writeFile arguments.configFile content).files file = s.files file :=
        Function.update_of_ne heq ..
      unfold Holds
      rw [hsame]
      exact h.files file

theorem Configured.mono {configured' : List ConfiguredModule} {filename : List Char}
    {args : List (List Char)} (h : Configured e configured filename args)
    (hsub : configured ⊆ configured') :
    Configured e configured' filename args :=
  h.imp fun _ hc => ⟨hsub hc.1, hc.2⟩

theorem Kept.mono {configured' : List ConfiguredModule} (h : Kept e configured files s)
    (hsub : configured ⊆ configured') : Kept e configured' files s := by
  have hnamed : ∀ {file}, Named e configured s.taken file → Named e configured' s.taken file :=
    fun hn => hn.imp_left fun ⟨c, hc, heq⟩ => ⟨c, hsub hc, heq⟩
  refine { h with available := ?_, modules := ?_, files := ?_ }
  · intro filename args hl
    exact ⟨(h.available filename args hl).1.mono hsub, hnamed (h.available filename args hl).2⟩
  · intro m hm
    exact ⟨(h.modules m hm).1.mono hsub, hnamed (h.modules m hm).2⟩
  · intro file
    exact (h.files file).imp_right fun ⟨hw, hn, hu⟩ => ⟨hw, hnamed hn, hu⟩

theorem Kept.addDetectionModule (h : Kept e configured files s) {c : ConfiguredModule}
    (hc : c ∈ configured) :
    Kept e configured files (s.addDetectionModule e c) := by
  unfold Control.addDetectionModule
  split
  · rename_i hlstat
    dsimp only
    have hconfigured : Configured e configured c.modulePath c.arguments := ⟨c, hc, hlstat, rfl, rfl⟩
    have hnamed : Named e configured s.taken c.configFile := .inl ⟨c, hc, rfl⟩
    split
    · exact h.insert _ [_] hconfigured hnamed (List.forall_mem_singleton.mpr ⟨rfl, rfl⟩)
    · have hins := h.insert ⟨c.configFile, c.arguments⟩ [] hconfigured hnamed
        fun m hm => absurd hm List.not_mem_nil
      rwa [List.append_nil] at hins
  · exact h

theorem kept_setup (flags : List Bool) :
    Kept e configured files (setup e configured files flags) := by
  have hfold : ∀ (cs : List ConfiguredModule) (s : Control), cs ⊆ configured →
    Kept e configured files s →
      Kept e configured files (cs.foldl (Control.addDetectionModule e) s) := by
    intro cs
    induction cs with
    | nil => exact fun s _ h => h
    | cons c cs ih =>
      intro s hsub h
      exact ih _ (fun c' hc' => hsub (List.mem_cons_of_mem _ hc'))
        (h.addDetectionModule (hsub List.mem_cons_self))
  refine Kept.startModules (hfold configured _ (List.Subset.refl _) ?_)
  exact
    ⟨.nil, fun _ _ hl => (nomatch hl), fun _ hm => absurd hm List.not_mem_nil, fun _ => .inl rfl⟩

theorem Kept.step {op : ControlOp} (h : Kept e configured files s) (hs : s.step e op = some s') :
    Kept e configured files s' := by
  cases op with
  | update i content =>
    simp only [Control.step] at hs
    split at hs
    · cases hs
      exact h.frame rfl rfl (fun _ => id) fun m hm => ⟨m, hm, rfl, rfl⟩
    · cases hs
  | poll i =>
    obtain ⟨c, -, rfl⟩ := Option.map_eq_some_iff.mp hs
    unfold poll
    split
    · exact h.frame rfl rfl (fun _ => id) fun m hm => ⟨m, hm, rfl, rfl⟩
    · rename_i message c' _
      refine Kept.effect
        (s := { s with commObjs := s.commObjs.set i c', taken := s.taken ++ [message] }) ?_
        (List.mem_append_right _ (List.mem_singleton_self message)) (handle_effect e message _)
      exact h.frame rfl rfl (List.subset_append_left _ _) fun m hm => ⟨m, hm, rfl, rfl⟩
  | setState k state =>
    simp only [Control.step, Option.ite_none_left_eq_some] at hs
    obtain ⟨-, hs⟩ := hs
    cases hs
    refine h.frame rfl rfl (fun _ => id) fun m hm => ?_
    obtain ⟨j, hj⟩ := List.mem_iff_getElem?.mp hm
    rw [List.getElem?_modify] at hj
    obtain ⟨m', hm', rfl⟩ := Option.map_eq_some_iff.mp hj
    refine ⟨m', List.mem_of_getElem? hm', ?_⟩
    split
    · exact ⟨rfl, rfl⟩
    · exact ⟨rfl, rfl⟩
  | notifyAll =>
    cases hs
    exact h.frame rfl rfl (fun _ => id) fun m hm => ⟨m, List.mem_of_mem_filter hm, rfl, rfl⟩

end Kept

/-! ## Messages -/

/-- What the connections have for the manager. -/
def pending (s : Control) : List (List Char) := s.commObjs.flatMap (·.updateMessages)

/-- Every message is with a connection or was taken, and those that are to be answered were. -/
structure Served (e : ControlEnv) (s : Control) : Prop where
  perm : (s.taken ++ s.pending).Perm s.received
  answered : s.published.length = s.taken.countP (GetsAnswer e)

theorem Effect.served (he : Effect e message s s') :
    s'.commObjs = s.commObjs ∧ s'.received = s.received ∧
    s'.taken = s.taken ∧
    s'.published.length = s.published.length + if GetsAnswer e message then 1 else 0 := by
  cases he with
  | ignored h => exact ⟨rfl, rfl, rfl, by rw [h]; rfl⟩
  | replied answer h => exact ⟨rfl, rfl, rfl, by rw [h]; exact List.length_append⟩
  | started filename configFile answer arguments h =>
    exact ⟨rfl, rfl, rfl, by rw [h]; exact List.length_append⟩
  | written filename content answer arguments h =>
    exact ⟨rfl, rfl, rfl, by rw [h]; exact List.length_append⟩

theorem pending_set {i : Nat} {c c' : CommObject} (hc : s.commObjs[i]? = some c) :
    s.pending.Perm (c.updateMessages ++ (s.commObjs.eraseIdx i).flatMap (·.updateMessages)) ∧
      ((s.commObjs.set i c').flatMap (·.updateMessages)).Perm
        (c'.updateMessages ++ (s.commObjs.eraseIdx i).flatMap (·.updateMessages)) := by
  obtain ⟨hlt, rfl⟩ := List.getElem?_eq_some_iff.mp hc
  have hlt' : i < (s.commObjs.set i c').length := by rwa [List.length_set]
  have hperm := List.getElem_cons_eraseIdx_perm hlt
  have hperm' := List.getElem_cons_eraseIdx_perm hlt'
  rw [List.getElem_set_self, List.eraseIdx_set_eq] at hperm'
  exact ⟨(hperm.flatMap_right _).symm, (hperm'.flatMap_right _).symm⟩

theorem getUpdateMessage_none {c c' : CommObject} (h : c.getUpdateMessage = (none, c')) :
    c'.updateMessages = c.updateMessages := by
  unfold CommObject.getUpdateMessage at h
  split at h
  · split at h
    · cases h
    · cases h
      rfl
  · cases h
    rfl

/-- The last message is taken. -/
theorem getUpdateMessage_some {c c' : CommObject} (h : c.getUpdateMessage = (some message, c')) :
    c.updateMessages = c'.updateMessages ++ [message] := by
  unfold CommObject.getUpdateMessage at h
  split at h
  · split at h
    · rename_i copy hlast
      cases h
      exact (List.dropLast_append_getLast? _ hlast).symm
    · cases h
  · cases h

theorem Served.step {op : ControlOp} (h : Served e s) (hs : s.step e op = some s') :
    Served e s' := by
  cases op with
  | update i content =>
    simp only [Control.step] at hs
    split at hs
    · rename_i c hc
      cases hs
      obtain ⟨hold, hnew⟩ := @pending_set s i c (c.update content) hc
      refine ⟨?_, h.answered⟩
      have hperm := (hold.append_left s.taken).symm.trans h.perm
      have hlast : ∀ rest : List (List Char),
        (s.taken ++ ((c.updateMessages ++ [content]) ++ rest)).Perm
          (s.taken ++ (c.updateMessages ++ rest) ++ [content]) := fun rest => by
        simp only [List.append_assoc]
        exact (List.perm_append_comm.append_left _).append_left _
      exact (hnew.append_left s.taken).trans ((hlast _).trans (hperm.append_right [content]))
    · cases hs
  | poll i =>
    obtain ⟨c, hc, rfl⟩ := Option.map_eq_some_iff.mp hs
    unfold poll
    split
    · rename_i c' hnone
      obtain ⟨hold, hnew⟩ := @pending_set s i c c' hc
      rw [getUpdateMessage_none hnone] at hnew
      exact ⟨((hnew.trans hold.symm).append_left s.taken).trans h.perm, h.answered⟩
    · rename_i message c' hsome
      obtain ⟨hold, hnew⟩ := @pending_set s i c c' hc
      rw [getUpdateMessage_some hsome] at hold
      obtain ⟨hcomm, hreceived, htaken, hpublished⟩ := (handle_effect e message
        { s with commObjs := s.commObjs.set i c', taken := s.taken ++ [message] }).served
      constructor
      · rw [pending, hcomm, hreceived, htaken]
        have hfirst : ∀ rest : List (List Char),
          ((s.taken ++ [message]) ++ (c'.updateMessages ++ rest)).Perm
            (s.taken ++ (c'.updateMessages ++ [message] ++ rest)) := fun rest => by
          simp only [List.append_assoc, List.singleton_append]
          exact List.perm_middle.symm.append_left _
        exact (hnew.append_left _).trans
          ((hfirst _).trans ((hold.append_left s.taken).symm.trans h.perm))
      · rw [hpublished, htaken, List.countP_append, List.countP_singleton]
        exact congrArg (· + _) h.answered
  | setState k state =>
    simp only [Control.step, Option.ite_none_left_eq_some] at hs
    obtain ⟨-, hs⟩ := hs
    cases hs
    exact ⟨h.perm, h.answered⟩
  | notifyAll =>
    cases hs
    exact ⟨h.perm, h.answered⟩

theorem served_setup (configured : List ConfiguredModule) (files : List Char → Option (List Char))
    (flags : List Bool) : Served e (setup e configured files flags) := by
  have hfold : ∀ (cs : List ConfiguredModule) (s : Control), Served e s →
      Served e (cs.foldl (Control.addDetectionModule e) s) := by
    intro cs
    induction cs with
    | nil => exact fun s h => h
    | cons c cs ih =>
      refine fun s h => ih _ ?_
      unfold Control.addDetectionModule
      split
      · dsimp only
        split
        · exact ⟨h.perm, h.answered⟩
        · exact ⟨h.perm, h.answered⟩
      · exact h
  obtain ⟨hperm, hanswered⟩ := hfold configured
    ⟨[], [], files, flags.map fun updateAvailable => ⟨[], updateAvailable⟩, [], [], []⟩
    ⟨by rw [pending, List.flatMap_map]; simp, rfl⟩
  exact ⟨hperm, hanswered⟩

/-! ## What a configuration keeps -/

/-- A message that neither starts the module nor writes a configuration. -/
def Leaves (e : ControlEnv) (filename message : List Char) : Prop :=
  ∀ d, e.xmlReadMemory message = some d → d.name ≠ UPDATE_MODULE_CONFIG ∧
    (d.name = START → d.attributes.lookup MODULE_FILENAME ≠ some filename)

/-- What the manager takes next leaves the module's configuration. -/
def LeavesConfig (e : ControlEnv) (filename : List Char) (s : Control) : ControlOp → Prop
  | .poll i => ∀ c message c', s.commObjs[i]? = some c → c.getUpdateMessage = (some message, c') →
    Leaves e filename message
  | _ => True

/-- A text whose last line is ended. -/
def endLine (text : List Char) : List Char :=
  if text = [] ∨ text.getLast? = some '\n' then text else text ++ ['\n']

theorem endLine_append (line : List Char) {rest : List Char} (h : rest ≠ []) :
    line ++ endLine rest = endLine (line ++ rest) := by
  have hlast : (line ++ rest).getLast? = rest.getLast? := List.getLast?_append_of_ne_nil _ h
  have hne : line ++ rest ≠ [] := List.append_ne_nil_of_right_ne_nil _ h
  simp only [endLine, h, hne, hlast, false_or]
  split
  · rfl
  · exact (List.append_assoc ..).symm

/-- The loop over the lines ends the last one. -/
theorem copyLines_eq (line rest : List Char) (hline : '\n' ∉ line) :
    copyLines line rest = endLine (line ++ rest) := by
  induction rest generalizing line with
  | nil =>
    rw [copyLines, List.append_nil, endLine]
    have hlast : line.getLast? ≠ some '\n' := fun hno => hline (List.mem_of_getLast? hno)
    simp [hlast]
    split <;> simp [*]
  | cons c rest ih =>
    rw [copyLines]
    split
    · rename_i hc
      subst hc
      rw [ih [] List.not_mem_nil, List.nil_append]
      cases hrest : rest with
      | nil => simp [endLine]
      | cons c' rest' =>
        have hnext : '\n' :: endLine (c' :: rest') = endLine ('\n' :: c' :: rest') :=
          endLine_append ['\n'] (List.cons_ne_nil _ _)
        rw [hnext, endLine_append line (List.cons_ne_nil _ _)]
    · rename_i hc
      rw [ih (line ++ [c]) (by simp [hline, Ne.symm hc]), List.append_assoc]
      rfl

section ReadBack

variable {filename : List Char}

theorem Effect.leaves (he : Effect e message s s') (hl : Leaves e filename message)
    (hsorted : OrderedMap.Sorted textLt s.availableModules) :
    s'.find filename = s.find filename ∧ s'.files = s.files := by
  cases he with
  | ignored => exact ⟨rfl, rfl⟩
  | replied => exact ⟨rfl, rfl⟩
  | started filename' configFile answer arguments h hstart hlookup =>
    obtain ⟨d, hdoc, hname, hfile, -⟩ := hstart
    refine ⟨(find_insert hsorted rfl filename).trans (if_neg ?_), rfl⟩
    rintro rfl
    exact (hl d hdoc).2 hname hfile
  | written filename' content answer arguments h hupdate hlookup =>
    obtain ⟨d, hdoc, hname, -⟩ := hupdate
    exact absurd hname (hl d hdoc).1

theorem step_leaves {op : ControlOp} (hs : s.step e op = some s')
    (hl : LeavesConfig e filename s op) (hsorted : OrderedMap.Sorted textLt s.availableModules) :
    s'.find filename = s.find filename ∧ s'.files = s.files := by
  cases op with
  | update i content =>
    simp only [Control.step] at hs
    split at hs
    · cases hs
      exact ⟨rfl, rfl⟩
    · cases hs
  | poll i =>
    obtain ⟨c, hc, rfl⟩ := Option.map_eq_some_iff.mp hs
    unfold poll
    split
    · exact ⟨rfl, rfl⟩
    · rename_i message c' hsome
      exact (handle_effect e message _).leaves (hl c message c' hc hsome) hsorted
  | setState k state =>
    simp only [Control.step, Option.ite_none_left_eq_some] at hs
    obtain ⟨-, hs⟩ := hs
    cases hs
    exact ⟨rfl, rfl⟩
  | notifyAll =>
    cases hs
    exact ⟨rfl, rfl⟩

theorem run_leaves {configured : List ConfiguredModule} {files : List Char → Option (List Char)}
    {ops : List ControlOp} (h : Kept e configured files s)
    (hr : ((control e configured files).restrict (LeavesConfig e filename)).Run s ops s') :
    s'.find filename = s.find filename ∧ s'.files = s.files := by
  induction hr with
  | nil => exact ⟨rfl, rfl⟩
  | cons hs _ ih =>
    obtain ⟨hfind, hfiles⟩ := step_leaves hs.1 hs.2 h.sorted
    obtain ⟨hfind', hfiles'⟩ := ih (h.step hs.1)
    exact ⟨hfind'.trans hfind, hfiles'.trans hfiles⟩

/-- What the manager gets when it asks connection `i`. -/
def Takes (s : Control) (i : Nat) (message : List Char) : Prop :=
  ∃ c c', s.commObjs[i]? = some c ∧ c.getUpdateMessage = (some message, c')

/-- A message that writes `text` for a module. -/
def Updates (e : ControlEnv) (s : Control) (message filename text : List Char) : Prop :=
  ∃ d arguments, e.xmlReadMemory message = some d ∧ d.name = UPDATE_MODULE_CONFIG ∧
    d.attributes.lookup MODULE_FILENAME = some filename ∧ configuration e d.confObj = .ok text ∧
    s.find filename = some arguments ∧ e.writable arguments.configFile = true

/-- A message that asks for the configuration of a module. -/
def Asks (e : ControlEnv) (message filename : List Char) : Prop :=
  ∃ d, e.xmlReadMemory message = some d ∧ d.name = GET_MODULE_CONFIG ∧
    d.attributes.lookup MODULE_FILENAME = some filename

theorem poll_taken {i : Nat} (hs : s.step e (.poll i) = some s') (ht : s.Takes i message) :
    ∃ cs, s' = { s with commObjs := cs, taken := s.taken ++ [message] }.handle e message := by
  obtain ⟨c, c', hc, hget⟩ := ht
  simp only [Control.step, hc, Option.map_some, Option.some.injEq] at hs
  subst hs
  unfold poll
  rw [hget]
  exact ⟨_, rfl⟩

theorem handle_updates {text : List Char} (hu : Updates e s message filename text) :
    ∃ arguments, (s.handle e message).find filename = some arguments ∧
      (s.handle e message).files arguments.configFile = some text := by
  obtain ⟨d, arguments, hdoc, hname, hfile, hconfig, hfind, hwritable⟩ := hu
  have hupdate : s.handle e message = (s.writeFile arguments.configFile text).sendControlMessage
      (openResult e ++ "Update succesful".toList ++ closeResult) := by
    rw [handle_of_doc hdoc, update_confObj, hname, if_neg (by decide),
      if_neg (by decide), if_pos rfl]
    unfold updateModuleConfig
    rw [d.getAttributeOf_confObj hname, hfile]
    simp only [hfind, hconfig, if_pos hwritable]
    rfl
  rw [hupdate]
  exact ⟨arguments, hfind, Function.update_self ..⟩

theorem handle_asks {text : List Char} {arguments : Arguments} (ha : Asks e message filename)
    (hfind : s.find filename = some arguments) (hfiles : s.files arguments.configFile = some text) :
    s.handle e message = s.sendControlMessage
      (openResult e ++ '\n' :: endLine text ++ '\n' :: closeResult) := by
  obtain ⟨d, hdoc, hname, hfile⟩ := ha
  rw [handle_of_doc hdoc, update_confObj, hname, if_neg (by decide), if_pos rfl]
  unfold getModuleConfig
  rw [d.getAttributeOf_confObj hname, hfile]
  simp only [hfind, hfiles, copyLines_eq [] text List.not_mem_nil, List.nil_append]

end ReadBack

end Control

/-! ## A run -/

section Sample

open Control

def startMessage : List Char := "<start fileName=\"m\" configFile=\"g\"/>".toList

def startDoc : XmlDoc where
  prolog := []
  name := "start"
  attributes := [("fileName", ['m']), ("configFile", ['g'])]
  children := []
  epilog := []
  prolog_text _ hx := absurd hx List.not_mem_nil
  epilog_text _ hx := absurd hx List.not_mem_nil

def writeMessage : List Char :=
  "<updateModuleConfig fileName=\"m\"><configuration><a/><b/></configuration></updateModuleConfig>".toList

def writeDoc : XmlDoc where
  prolog := []
  name := "updateModuleConfig"
  attributes := [("fileName", ['m'])]
  children := [.element "configuration" [] [.element "a" [] [], .element "b" [] []]]
  epilog := []
  prolog_text _ hx := absurd hx List.not_mem_nil
  epilog_text _ hx := absurd hx List.not_mem_nil

def getMessage : List Char := "<getModuleConfig fileName=\"m\"/>".toList

def getDoc : XmlDoc where
  prolog := []
  name := "getModuleConfig"
  attributes := [("fileName", ['m'])]
  children := []
  epilog := []
  prolog_text _ hx := absurd hx List.not_mem_nil
  epilog_text _ hx := absurd hx List.not_mem_nil

/-- The three messages, and elements without content. -/
def sampleEnv : ControlEnv where
  xmlReadMemory message :=
    if message = startMessage then some startDoc
    else if message = writeMessage then some writeDoc
    else if message = getMessage then some getDoc
    else none
  xmlReadMemory_nil := rfl
  xmlNodeDump
    | .node _ _ (.element name [] []) _ => '<' :: name.toList ++ ['/', '>']
    | _ => []
  lstat _ := true
  writable _ := true
  topasID := ['1']

def sampleModule : ConfiguredModule := ⟨['m'], ['f'], [['x']], true⟩

/-- One connection, on which the messages arrive one after the other. -/
def sampleRun : List ControlOp :=
  [.update 0 startMessage, .poll 0, .update 0 writeMessage, .poll 0, .update 0 getMessage, .poll 0]

theorem reachable_sample {ops : List ControlOp} {s : Control}
    (h : LTS.exec (fun _ _ => True) (Control.step sampleEnv)
      (setup sampleEnv [sampleModule] (fun _ => none) [true]) ops = some s) :
    (control sampleEnv [sampleModule] fun _ => none).Reachable s :=
  LTS.Reachable.of_restrict (LTS.Reachable.exec (.init ⟨[true], rfl⟩) h)

theorem sample_reachable :
    ∃ s, (control sampleEnv [sampleModule] fun _ => none).Reachable s ∧
      s.detectionModules = [⟨['m'], ⟨['f'], [['x']]⟩, .Running⟩, ⟨['m'], ⟨['g'], [['x']]⟩, .Running⟩] ∧
      s.files ['g'] = some "<a/>".toList ∧ s.published.length = 3 :=
  ⟨_, reachable_sample (rfl : LTS.exec _ _ _ sampleRun = some _), rfl, rfl, rfl⟩

end Sample

/-! ## Every run -/

section Results

open Control

variable {e : ControlEnv} {configured : List ConfiguredModule}
    {files : List Char → Option (List Char)}
  {s s' s₁ s₂ : Control}

theorem Control.kept_reachable (h : (control e configured files).Reachable s) :
    Kept e configured files s :=
  LTS.Inductive.reachable
    ⟨fun _ ⟨flags, hs⟩ => hs ▸ kept_setup flags, fun _ _ _ h hs => h.step hs⟩ s h

/-- Whatever messages there are, a program that is run is one of the configuration, with the
arguments that are given for it there; in front of them is a configuration file, of the
configuration or of a message. -/
theorem programs_configured (h : (control e configured files).Reachable s) :
    ∀ m ∈ s.detectionModules, Configured e configured m.filename m.arguments.arguments ∧
      Named e configured s.taken m.arguments.configFile :=
  (kept_reachable h).modules

theorem programs_configured_sample :
    ∃ s, (control sampleEnv [sampleModule] fun _ => none).Reachable s ∧
      s.detectionModules =
        [⟨['m'], ⟨['f'], [['x']]⟩, .Running⟩, ⟨['m'], ⟨['g'], [['x']]⟩, .Running⟩] ∧
      ∀ m ∈ s.detectionModules, Configured sampleEnv
      [sampleModule] m.filename m.arguments.arguments ∧
        Named sampleEnv [sampleModule] s.taken m.arguments.configFile :=
  have ⟨s, h, hmodules, _⟩ := sample_reachable
  ⟨s, h, hmodules, programs_configured h⟩

/-- What one message wrote for a module is what another gets, if those in between neither start the
module nor write a configuration; only the last line is ended. -/
theorem config_read_back {filename text write get : List Char} {i j : Nat} {ops : List ControlOp}
    (h : (control e configured files).Reachable s) (hwrite : s.Takes i write)
    (hupdates : Updates e s write filename text) (hs : s.step e (.poll i) = some s₁)
    (hr : ((control e configured files).restrict (LeavesConfig e filename)).Run s₁ ops s₂)
    (hget : s₂.Takes j get) (hasks : Asks e get filename) (hs' : s₂.step e (.poll j) = some s') :
    s'.published = s₂.published ++
      [openResult e ++ '\n' :: endLine text ++ '\n' :: closeResult] := by
  obtain ⟨cs, rfl⟩ := poll_taken hs hwrite
  obtain ⟨arguments, hfind, hfiles⟩ := @handle_updates e
    { s with commObjs := cs, taken := s.taken ++ [write] } write filename text hupdates
  obtain ⟨hfind', hfiles'⟩ := run_leaves ((kept_reachable h).step hs) hr
  obtain ⟨cs', rfl⟩ := poll_taken hs' hget
  have hanswer :=
    @handle_asks e { s₂ with commObjs := cs', taken := s₂.taken ++ [get] } get filename text
    arguments hasks (hfind'.trans hfind) ((congrFun hfiles' _).trans hfiles)
  exact congrArg published hanswer

theorem config_read_back_sample :
    ∃ s₂ s' : Control, s'.published = s₂.published ++
      [openResult sampleEnv ++ '\n' :: endLine "<a/>".toList ++ '\n' :: closeResult] :=
  have h := reachable_sample (rfl : LTS.exec _ _ _ (sampleRun.take 3) = some _)
  have hs : Control.step sampleEnv _ (.poll 0) = some _ := rfl
  have hs' : Control.step sampleEnv _ (.update 0 getMessage) = some _ := rfl
  ⟨_, _, config_read_back (j := 0) h ⟨_, _, rfl, rfl⟩ ⟨writeDoc, _, rfl, rfl, rfl, rfl, rfl, rfl⟩ hs
    (.cons ⟨hs', trivial⟩ (.nil _)) ⟨_, _, rfl, rfl⟩ ⟨getDoc, rfl, rfl, rfl⟩ rfl⟩

end Results

end Topas
