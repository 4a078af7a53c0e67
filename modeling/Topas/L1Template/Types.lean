import Topas.Core.Bytes
import Topas.Core.Proc

/-!
# Templates, callbacks and parser events

The data types of `concentrator/rcvIpfix.h` and `concentrator/templateBuffer.h`.
Machine integers are `Nat`; the operations reduce modulo 2^16 where the source
stores into a `uint16_t`. `userData` is left out (the parser only zeroes it).

The union of `BufferedTemplate` is the inductive `Info`; the code selects its
member by `setID`, and so does the model.

A callback is not run, it is logged: `Fired` is one call of a function pointer
of the parser's callback table, with the arguments it gets. Pointers to a record
are addresses in the message.
-/
namespace Topas

def IPFIX_SetId_Template : Nat := 2
def IPFIX_SetId_OptionsTemplate : Nat := 3
def IPFIX_SetId_DataTemplate : Nat := 4
def IPFIX_SetId_Data_Start : Nat := 256
def NetflowV9_SetId_Template : Nat := 0
def IPFIX_ENTERPRISE_TYPE : Nat := 0x8000

/-- mirrors concentrator/rcvIpfix.h:31-36 -/
structure FieldType where
  id : Nat
  length : Nat
  isVariableLength : Bool
  eid : Nat
  deriving DecidableEq, Repr

/-- mirrors concentrator/rcvIpfix.h:41-44 -/
structure FieldInfo where
  type : FieldType
  offset : Nat
  deriving DecidableEq, Repr

/-- mirrors concentrator/rcvIpfix.h:49-54 -/
structure TemplateInfo where
  templateId : Nat
  fieldCount : Nat
  fieldInfo : List FieldInfo
  deriving DecidableEq, Repr

/-- `fieldCount` counts the regular fields only.
mirrors concentrator/rcvIpfix.h:60-67 -/
structure OptionsTemplateInfo where
  templateId : Nat
  scopeCount : Nat
  scopeInfo : List FieldInfo
  fieldCount : Nat
  fieldInfo : List FieldInfo
  deriving DecidableEq, Repr

/-- `data` is the copy of the block of fixed values.
mirrors concentrator/rcvIpfix.h:72-81 -/
structure DataTemplateInfo where
  id : Nat
  preceding : Nat
  fieldCount : Nat
  fieldInfo : List FieldInfo
  dataCount : Nat
  dataInfo : List FieldInfo
  data : List UInt8
  deriving DecidableEq, Repr

/-- The union of `BufferedTemplate`. -/
inductive Info where
  | templateInfo (ti : TemplateInfo)
  | optionsTemplateInfo (ti : OptionsTemplateInfo)
  | dataTemplateInfo (ti : DataTemplateInfo)
  deriving DecidableEq, Repr

/-- `recordLength` is 65535 for records of varying length; `expires` is a time
stamp, 0 for never.
mirrors concentrator/templateBuffer.h:21-33 -/
structure BufferedTemplate where
  sourceID : Nat
  templateID : Nat
  recordLength : Nat
  setID : Nat
  expires : Int
  info : Info
  deriving DecidableEq, Repr

def BufferedTemplate.key (bt : BufferedTemplate) : Nat × Nat := (bt.sourceID, bt.templateID)

/-- `setID` names the member of the union that is stored. -/
def BufferedTemplate.Tagged (bt : BufferedTemplate) : Prop :=
  match bt.info with
  | .templateInfo _ => bt.setID = IPFIX_SetId_Template ∨ bt.setID = NetflowV9_SetId_Template
  | .optionsTemplateInfo _ => bt.setID = IPFIX_SetId_OptionsTemplate
  | .dataTemplateInfo _ => bt.setID = IPFIX_SetId_DataTemplate

instance (bt : BufferedTemplate) : Decidable bt.Tagged := by
  unfold BufferedTemplate.Tagged; split <;> infer_instance

/-! ## Callbacks -/

/-- The arguments of a callback behind `handle` and `sourceID`. The arrays of a template are freed
before its destruction is called back; the numbers are what there is to be read.
mirrors concentrator/rcvIpfix.h:84-174, concentrator/templateBuffer.c:84-135 -/
inductive Call where
  | template (ti : TemplateInfo)
  | optionsTemplate (ti : OptionsTemplateInfo)
  | dataTemplate (ti : DataTemplateInfo)
  | dataRecord (ti : TemplateInfo) (length data : Nat)
  | optionsRecord (ti : OptionsTemplateInfo) (length data : Nat)
  | dataDataRecord (ti : DataTemplateInfo) (length data : Nat)
  | templateDestruction (templateId fieldCount : Nat)
  | optionsTemplateDestruction (templateId scopeCount fieldCount : Nat)
  | dataTemplateDestruction (id preceding fieldCount dataCount : Nat)
  deriving DecidableEq, Repr

/-- A set of callback functions; a flag is `false` for a null pointer.
mirrors concentrator/rcvIpfix.h:176-190 -/
structure CallbackInfo where
  handle : Nat
  templateCallbackFunction : Bool
  optionsTemplateCallbackFunction : Bool
  dataTemplateCallbackFunction : Bool
  dataRecordCallbackFunction : Bool
  optionsRecordCallbackFunction : Bool
  dataDataRecordCallbackFunction : Bool
  templateDestructionCallbackFunction : Bool
  optionsTemplateDestructionCallbackFunction : Bool
  dataTemplateDestructionCallbackFunction : Bool
  deriving DecidableEq, Repr

/-- Whether the function for this kind of call is set. -/
def CallbackInfo.has (ci : CallbackInfo) : Call → Bool
  | .template _ => ci.templateCallbackFunction
  | .optionsTemplate _ => ci.optionsTemplateCallbackFunction
  | .dataTemplate _ => ci.dataTemplateCallbackFunction
  | .dataRecord .. => ci.dataRecordCallbackFunction
  | .optionsRecord .. => ci.optionsRecordCallbackFunction
  | .dataDataRecord .. => ci.dataDataRecordCallbackFunction
  | .templateDestruction .. => ci.templateDestructionCallbackFunction
  | .optionsTemplateDestruction .. => ci.optionsTemplateDestructionCallbackFunction
  | .dataTemplateDestruction .. => ci.dataTemplateDestructionCallbackFunction

/-- `callbackCount` is the length of the list.
mirrors concentrator/rcvIpfix.h:197-202 -/
structure IpfixParser where
  callbackInfo : List CallbackInfo
  deriving DecidableEq, Repr

/-- One call of a function of the callback set number `n`. -/
structure Fired where
  n : Nat
  handle : Nat
  sourceID : Nat
  call : Call
  deriving DecidableEq, Repr

/-- The calls of one `for (n = 0; n < callbackCount; n++)` loop. -/
def IpfixParser.fired (P : IpfixParser) (sourceId : Nat) (c : Call) : List Fired :=
  P.callbackInfo.zipIdx.filterMap fun (ci, n) =>
    if ci.has c then some ⟨n, ci.handle, sourceId, c⟩ else none

/-- The one set of callbacks that `PacketReader` registers.
mirrors detectionmodules/detectionbase/filepolicy.h:118-141 -/
def packetReaderParser : IpfixParser :=
  ⟨[⟨0, true, true, true, true, true, true, true, true, true⟩]⟩

/-! ## Events -/

/-- What the parser does to the world: it reads `n` bytes of the message at
`addr`, writes entry `index` of an array of field infos allocated with
`capacity` entries, calls back. -/
inductive Event where
  | read (addr n : Nat)
  | store (index capacity : Nat)
  | call (f : Fired)
  deriving DecidableEq, Repr

def IpfixParser.calls (P : IpfixParser) (sourceId : Nat) (c : Call) : List Event :=
  (P.fired sourceId c).map .call

/-- Calls every registered function for `c`. -/
def IpfixParser.invoke (P : IpfixParser) (sourceId : Nat) (c : Call) : Proc Event Unit :=
  Proc.tell (P.calls sourceId c)

theorem IpfixParser.mem_fired {P : IpfixParser} {sourceId : Nat} {c : Call} {f : Fired} :
    f ∈ P.fired sourceId c ↔ ∃ ci, P.callbackInfo[f.n]? = some ci ∧ ci.has c = true ∧
      f = ⟨f.n, ci.handle, sourceId, c⟩ := by
  simp only [IpfixParser.fired, List.mem_filterMap, Prod.exists, List.mem_zipIdx_iff_getElem?]
  refine ⟨?_, ?_⟩
  · intro ⟨ci, n, h1, h2⟩
    split at h2
    · simp only [Option.some.injEq] at h2; subst h2; exact ⟨ci, h1, ‹_›, rfl⟩
    · cases h2
  · intro ⟨ci, h1, h2, h3⟩
    exact ⟨ci, f.n, h1, by simp [h2, ← h3]⟩

end Topas
