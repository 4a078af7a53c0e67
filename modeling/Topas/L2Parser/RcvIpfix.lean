import Topas.L1Template.TemplateBuffer

/-!
# The message parser

`processMessage` of `concentrator/rcvIpfix.c` and everything it calls. A pointer
is an address in the message (address 0 is its first byte), so `&th->data` of a
4-byte header at `th` is `th + 4`. Comparisons of pointers of the form
`p < end - k` are written `p + k < end`; the differences of the source are
evaluated in `int` or `ptrdiff_t` and may be negative.

Every `ntohs(*(uint16_t*)p)` is a logged read, so a program here emits the reads
of the source in the source's order, and its callbacks. A member that is read
more than once in a row through the same header is read once. Log output
(`msg`, `DPRINTF`) is left out.

The host is little-endian: `*(uint16_t*)p` without `ntohs` is `host16`.
`recordLength` and `dataLength` of the record loops are `int`s of the source;
they are unbounded here, an overflow needs a template whose record ends 2 GiB
behind the message.

Arrays of field infos are lists with one entry per processed field. A write to
entry `i` of an array allocated with `c` entries is logged as `store i c`; what
an out-of-range write does to the rest of the heap is not modelled.
-/
namespace Topas

open Mem Proc

/-- The parser, the memory from the message on, the clock (`time 0` when the data
set at an address is looked up) and the contents of freshly allocated field
infos. -/
structure Env where
  parser : IpfixParser
  mem : Mem
  time : Nat → Int
  fresh : Nat → FieldInfo

namespace Rcv

variable (E : Env)

def ntohs (a : Nat) : Proc Event Nat := do
  emit (.read a 2)
  pure (be16 E.mem a)

def ntohl (a : Nat) : Proc Event Nat := do
  emit (.read a 4)
  pure (be32 E.mem a)

/-- `*(uint16_t*)p` -/
def host16 (a : Nat) : Proc Event Nat := do
  emit (.read a 2)
  pure (le16 E.mem a)

/-- `*(uint8_t*)p` -/
def host8 (a : Nat) : Proc Event Nat := do
  emit (.read a 1)
  pure (E.mem a).toNat

/-! ## Field specifiers -/

def isEnterprise (id : Nat) : Bool := id &&& IPFIX_ENTERPRISE_TYPE != 0

/-- Enterprise number behind id and length at `record`, and where the next
specifier starts; `eid` is what the source leaves in the field otherwise. -/
def readEid (record id eid : Nat) : Proc Event (Nat × Nat) :=
  if isEnterprise id then do
    let eid ← ntohl E (record + 4)
    pure (eid, record + 8)
  else pure (eid, record + 4)

/-- One round of the loops over `fieldInfo`.
mirrors concentrator/rcvIpfix.c:183-198, 276-291, 342-357 -/
def readField (capacity fieldNo record recordLength : Nat) : Proc Event (FieldInfo × Nat) := do
  emit (.store fieldNo capacity)
  let id ← ntohs E (record + 0)
  let length ← ntohs E (record + 2)
  let (eid, record) ← readEid E record id 0
  pure (⟨⟨id, length, length == 65535, eid⟩, recordLength⟩, record)

/-- One round of the loop over `scopeInfo`. Without an enterprise number it sets
`fieldInfo[scopeNo].type.eid` to 0 (overwritten by the loop over `fieldInfo`)
and leaves the scope's own `eid` as allocated.
mirrors concentrator/rcvIpfix.c:258-273 -/
def readScope (scopeCount fieldCount scopeNo record recordLength : Nat) :
    Proc Event (FieldInfo × Nat) := do
  emit (.store scopeNo scopeCount)
  let id ← ntohs E (record + 0)
  let length ← ntohs E (record + 2)
  let (eid, record) ← readEid E record id (E.fresh scopeNo).type.eid
  if !isEnterprise id then
    emit (.store scopeNo fieldCount)
  pure (⟨⟨id, length, length == 65535, eid⟩, recordLength⟩, record)

/-- One round of the first loop over `dataInfo`, which is allocated with
`fieldCount` entries; `isVariableLength` is never set.
mirrors concentrator/rcvIpfix.c:366-376 -/
def readData (capacity fieldNo record _recordLength : Nat) : Proc Event (FieldInfo × Nat) := do
  emit (.store fieldNo capacity)
  let id ← ntohs E (record + 0)
  let length ← ntohs E (record + 2)
  let (eid, record) ← readEid E record id 0
  pure (⟨⟨id, length, (E.fresh fieldNo).type.isVariableLength, eid⟩, (E.fresh fieldNo).offset⟩,
    record)

/-- `n` rounds of a loop over field specifiers from number `no` on. Returns the
field infos, where the last specifier ends and `bt->recordLength`. -/
def forFields (readOne : Nat → Nat → Nat → Proc Event (FieldInfo × Nat)) :
    Nat → Nat → Nat → Nat → Proc Event (List FieldInfo × Nat × Nat)
  | 0, _, record, recordLength => pure ([], record, recordLength)
  | n + 1, no, record, recordLength => do
    let (fi, record) ← readOne no record recordLength
    let (fis, record, recordLength) ←
      forFields readOne n (no + 1) record ((recordLength + fi.type.length) % 65536)
    pure (fi :: fis, record, recordLength)

def isLengthVarying (fis : List FieldInfo) : Bool := fis.any (·.type.isVariableLength)

/-- Offsets are unknown in records of varying length. -/
def unknownOffsets (fis : List FieldInfo) : List FieldInfo := fis.map ({ · with offset := 65535 })

/-! ## Template sets -/

/-- One round of the loop over a template set, for the template header at `th`.
mirrors concentrator/rcvIpfix.c:160-215 -/
def templateStep (sourceId set th : Nat) (tb : TemplateBuffer) :
    Proc Event (Nat × TemplateBuffer) := do
  let fieldCount ← ntohs E (th + 2)
  let templateId ← ntohs E th
  if fieldCount = 0 then
    let tb ← destroyBufferedTemplate E.parser tb sourceId templateId
    pure (th + 4, tb)
  else
    let setID ← ntohs E set
    let (fis, record, recordLength) ← forFields (readField E fieldCount) fieldCount 0 (th + 4) 0
    let varying := isLengthVarying fis
    let ti : TemplateInfo := ⟨templateId, fieldCount, if varying then unknownOffsets fis else fis⟩
    let tb ← bufferTemplate E.parser tb
      ⟨sourceId, templateId, if varying then 65535 else recordLength, setID, 0, .templateInfo ti⟩
    E.parser.invoke sourceId (.template ti)
    pure (record, tb)

/-- One round of the loop over an options template set. `fieldCount` of the
template info is the number of the fields behind the scopes, modulo 2^16.
mirrors concentrator/rcvIpfix.c:231-308 -/
def optionsTemplateStep (sourceId set th : Nat) (tb : TemplateBuffer) :
    Proc Event (Nat × TemplateBuffer) := do
  let total ← ntohs E (th + 2)
  let templateId ← ntohs E th
  if total = 0 then
    let tb ← destroyBufferedTemplate E.parser tb sourceId templateId
    pure (th + 6, tb)
  else
    let setID ← ntohs E set
    let scopeCount ← ntohs E (th + 4)
    let fieldCount := (total + 65536 - scopeCount) % 65536
    let (scopes, record, recordLength) ←
      forFields (readScope E scopeCount fieldCount) scopeCount 0 (th + 6) 0
    let (fis, record, recordLength) ←
      forFields (readField E fieldCount) fieldCount 0 record recordLength
    let varying := isLengthVarying scopes || isLengthVarying fis
    let ti : OptionsTemplateInfo :=
      ⟨templateId, scopeCount, if varying then unknownOffsets scopes else scopes,
        fieldCount, if varying then unknownOffsets fis else fis⟩
    let tb ← bufferTemplate E.parser tb
      ⟨sourceId, templateId, if varying then 65535 else recordLength, setID, 0,
        .optionsTemplateInfo ti⟩
    E.parser.invoke sourceId (.optionsTemplate ti)
    pure (record, tb)

/-- The length of a fixed value of varying length, in front of the value at
`offset`, and the offset behind it.
mirrors concentrator/rcvIpfix.c:386-394 -/
def dataPrefix (dataStart offset : Nat) : Proc Event (Nat × Nat) := do
  let length ← host8 E (dataStart + offset)
  let offset := (offset + 1) % 65536
  if length = 255 then
    let length ← host16 E (dataStart + offset)
    pure (length, (offset + 2) % 65536)
  else pure (length, offset)

/-- Length and offset of the fixed value that starts at `offset`. -/
def locateValue (dataStart : Nat) (fi : FieldInfo) (offset : Nat) : Proc Event (Nat × Nat) :=
  if fi.type.length = 65535 then dataPrefix E dataStart offset
  else pure (fi.type.length, offset)

/-- The second loop over `dataInfo`: offsets into the block at `dataStart`, and
the length of that block.
mirrors concentrator/rcvIpfix.c:382-396 -/
def locateData (dataStart : Nat) : List FieldInfo → Nat → Proc Event (List FieldInfo × Nat)
  | [], dataLength => pure ([], dataLength)
  | fi :: fis, dataLength => do
    let (length, offset) ← locateValue E dataStart fi (dataLength % 65536)
    let (fis, dataLength) ← locateData dataStart fis (dataLength + length)
    pure ({ fi with type.length := length, offset := offset } :: fis, dataLength)

/-- One round of the loop over a data template set.
mirrors concentrator/rcvIpfix.c:316-412 -/
def dataTemplateStep (sourceId set th : Nat) (tb : TemplateBuffer) :
    Proc Event (Nat × TemplateBuffer) := do
  let fieldCount ← ntohs E (th + 2)
  let templateId ← ntohs E th
  if fieldCount = 0 then
    let tb ← destroyBufferedTemplate E.parser tb sourceId templateId
    pure (th + 8, tb)
  else
    let setID ← ntohs E set
    let preceding ← ntohs E (th + 6)
    let dataCount ← ntohs E (th + 4)
    let (fis, record, recordLength) ← forFields (readField E fieldCount) fieldCount 0 (th + 8) 0
    let varying := isLengthVarying fis
    let (dataInfo, dataStart, _) ← forFields (readData E fieldCount) dataCount 0 record 0
    let (dataInfo, dataLength) ← locateData E dataStart dataInfo 0
    emit (.read dataStart dataLength)
    let ti : DataTemplateInfo :=
      ⟨templateId, preceding, fieldCount, if varying then unknownOffsets fis else fis,
        dataCount, dataInfo, slice E.mem dataStart dataLength⟩
    let tb ← bufferTemplate E.parser tb
      ⟨sourceId, templateId, if varying then 65535 else recordLength, setID, 0,
        .dataTemplateInfo ti⟩
    E.parser.invoke sourceId (.dataTemplate ti)
    pure (dataStart + dataLength, tb)

/-- `while (record < endOfSet - 3)` over the templates of a set. -/
def forTemplates (step : Nat → TemplateBuffer → Proc Event (Nat × TemplateBuffer)) (set : Nat)
    (tb : TemplateBuffer) : Proc Event TemplateBuffer := do
  let length ← ntohs E (set + 2)
  let (_, tb) ← loop (fun s => s.1 + 3 < set + length) (fun s => step s.1 s.2) (set + 4, tb)
  pure tb

/-- mirrors concentrator/rcvIpfix.c:155-216 -/
def processTemplateSet (sourceId set : Nat) : TemplateBuffer → Proc Event TemplateBuffer :=
  forTemplates E (templateStep E sourceId set) set

/-- mirrors concentrator/rcvIpfix.c:222-309 -/
def processOptionsTemplateSet (sourceId set : Nat) : TemplateBuffer → Proc Event TemplateBuffer :=
  forTemplates E (optionsTemplateStep E sourceId set) set

/-- mirrors concentrator/rcvIpfix.c:311-413 -/
def processDataTemplateSet (sourceId set : Nat) : TemplateBuffer → Proc Event TemplateBuffer :=
  forTemplates E (dataTemplateStep E sourceId set) set

/-! ## Data sets -/

/-- The length of a field in front of the field, and where the field starts.
mirrors concentrator/rcvIpfix.c:463-468, 519-524, 534-539, 585-590 -/
def lengthPrefix (read16 : Nat → Proc Event Nat) (record recordLength : Nat) :
    Proc Event (Nat × Nat) := do
  let fieldLength ← host8 E (record + recordLength)
  if fieldLength = 255 then
    let fieldLength ← read16 (record + recordLength + 1)
    pure (fieldLength, recordLength + 3)
  else pure (fieldLength, recordLength + 1)

/-- The length of the field at `recordLength` and where its value starts. -/
def locateField (read16 : Nat → Proc Event Nat) (prefixed : FieldInfo → Bool) (record : Nat)
    (fi : FieldInfo) (recordLength : Nat) : Proc Event (Nat × Nat) :=
  if prefixed fi then lengthPrefix E read16 record recordLength
  else pure (fi.type.length, recordLength)

/-- The loops that compute field offsets and lengths of one record of varying
length. `prefixed` selects the fields whose length stands in front of them,
`read16` reads a length of two bytes. Returns the field infos and the length of
the record up to here.
mirrors concentrator/rcvIpfix.c:458-472, 514-528, 529-543, 580-594 -/
def locateFields (read16 : Nat → Proc Event Nat) (prefixed : FieldInfo → Bool) (record : Nat) :
    List FieldInfo → Nat → Proc Event (List FieldInfo × Nat)
  | [], recordLength => pure ([], recordLength)
  | fi :: fis, recordLength => do
    let (fieldLength, recordLength) ← locateField E read16 prefixed record fi recordLength
    let (fis, rl) ← locateFields read16 prefixed record fis (recordLength + fieldLength)
    pure ({ fi with type.length := fieldLength, offset := recordLength % 65536 } :: fis, rl)

/-- The record loops for records of a fixed length. -/
def forFixed (sourceId recordLength : Nat) (call : Nat → Call) (more : Nat → Bool) (record : Nat) :
    Proc Event Nat :=
  loop more (fun record => do
    E.parser.invoke sourceId (call record)
    pure (record + recordLength)) record

/-- The record loops for records of varying length: the template info `ti` is
updated by `locate` before each callback. -/
def forVarying {τ : Type} (sourceId : Nat) (locate : Nat → τ → Proc Event (τ × Nat))
    (call : τ → Nat → Nat → Call) (more : Nat → Bool) (record : Nat) (ti : τ) :
    Proc Event (Nat × τ) :=
  loop (fun s => more s.1) (fun s => do
    let (ti, recordLength) ← locate s.1 s.2
    E.parser.invoke sourceId (call ti (recordLength % 65536) s.1)
    pure (s.1 + recordLength, ti)) (record, ti)

/-- One record of a template: lengths in network order.
mirrors concentrator/rcvIpfix.c:456-472 -/
def locateTemplate (record : Nat) (ti : TemplateInfo) : Proc Event (TemplateInfo × Nat) := do
  let (fis, recordLength) ← locateFields E (ntohs E) (·.type.isVariableLength) record ti.fieldInfo 0
  pure ({ ti with fieldInfo := fis }, recordLength)

/-- One record of an options template: the test for the scopes is inverted, and
two-byte lengths are not converted.
mirrors concentrator/rcvIpfix.c:512-543 -/
def locateOptions (record : Nat) (ti : OptionsTemplateInfo) :
    Proc Event (OptionsTemplateInfo × Nat) := do
  let (scopes, recordLength) ←
    locateFields E (host16 E) (!·.type.isVariableLength) record ti.scopeInfo 0
  let (fis, recordLength) ←
    locateFields E (host16 E) (·.type.isVariableLength) record ti.fieldInfo recordLength
  pure ({ ti with scopeInfo := scopes, fieldInfo := fis }, recordLength)

/-- One record of a data template: two-byte lengths are not converted.
mirrors concentrator/rcvIpfix.c:578-594 -/
def locateDataTemplate (record : Nat) (ti : DataTemplateInfo) :
    Proc Event (DataTemplateInfo × Nat) := do
  let (fis, recordLength) ← locateFields E (host16 E)
    (·.type.isVariableLength) record ti.fieldInfo 0
  pure ({ ti with fieldInfo := fis }, recordLength)

/-- The length of the data in the set, in a `uint16_t`. -/
def dataLength (setLength : Nat) : Nat := (setLength + 65536 - 4) % 65536

/-- The records from `record` to `recordX` under the template `bt`. In templates
of varying length the last record's offsets and lengths stay in the buffer.
mirrors concentrator/rcvIpfix.c:428-616 -/
def processRecords (sourceId : Nat) (bt : BufferedTemplate) (record recordX : Nat)
    (tb : TemplateBuffer) : Proc Event TemplateBuffer :=
  match bt.info with
  | .templateInfo ti =>
    if bt.setID = IPFIX_SetId_Template ∨ bt.setID = NetflowV9_SetId_Template then
      if bt.recordLength < 65535 then do
        let _ ← forFixed E sourceId bt.recordLength (.dataRecord ti bt.recordLength)
          (fun record => record + bt.recordLength < recordX + 1) record
        pure tb
      else do
        let (_, ti) ← forVarying E sourceId (locateTemplate E) .dataRecord
          (fun record => record + 3 < recordX) record ti
        pure (tb.setInfo bt.key (.templateInfo ti))
    else pure tb
  | .optionsTemplateInfo ti =>
    if bt.setID = IPFIX_SetId_OptionsTemplate then
      if bt.recordLength < 65535 then do
        let _ ← forFixed E sourceId bt.recordLength (.optionsRecord ti bt.recordLength)
          (fun record => record < recordX) record
        pure tb
      else do
        let (_, ti) ← forVarying E sourceId (locateOptions E) .optionsRecord
          (fun record => record < recordX) record ti
        pure (tb.setInfo bt.key (.optionsTemplateInfo ti))
    else pure tb
  | .dataTemplateInfo ti =>
    if bt.setID = IPFIX_SetId_DataTemplate then
      if bt.recordLength < 65535 then do
        let _ ← forFixed E sourceId bt.recordLength (.dataDataRecord ti bt.recordLength)
          (fun record => record < recordX) record
        pure tb
      else do
        let (_, ti) ← forVarying E sourceId (locateDataTemplate E) .dataDataRecord
          (fun record => record < recordX) record ti
        pure (tb.setInfo bt.key (.dataTemplateInfo ti))
    else pure tb

/-- mirrors concentrator/rcvIpfix.c:419-617 -/
def processDataSet (sourceId set : Nat) (tb : TemplateBuffer) : Proc Event TemplateBuffer := do
  let id ← ntohs E set
  let (tb, bt?) ← getBufferedTemplate E.parser (E.time set) tb sourceId id
  match bt? with
  | none => pure tb
  | some bt =>
    let setLength ← ntohs E (set + 2)
    processRecords E sourceId bt (set + 4) (set + 4 + dataLength setLength) tb

/-! ## Packets -/

/-- mirrors concentrator/rcvIpfix.c:633-639 -/
def netflowV9Set (set id : Nat) (tb : TemplateBuffer) : Proc Event TemplateBuffer :=
  if id = NetflowV9_SetId_Template then do
    let sourceId ← ntohl E 16
    processTemplateSet E sourceId set tb
  else if IPFIX_SetId_Data_Start ≤ id then do
    let sourceId ← ntohl E 16
    processDataSet E sourceId set tb
  else pure tb

/-- One round of the loop over the sets of a NetFlow v9 packet.
mirrors concentrator/rcvIpfix.c:632-641 -/
def netflowV9SetStep (set : Nat) (tb : TemplateBuffer) : Proc Event (Nat × TemplateBuffer) := do
  let id ← ntohs E set
  let tb ← netflowV9Set E set id tb
  let length ← ntohs E (set + 2)
  pure (set + length, tb)

/-- `n` rounds of the loop over the sets from `set` on. -/
def forSets : Nat → Nat → TemplateBuffer → Proc Event TemplateBuffer
  | 0, _, tb => pure tb
  | n + 1, set, tb => do
    let (set, tb) ← netflowV9SetStep E set tb
    forSets n set tb

/-- mirrors concentrator/rcvIpfix.c:624-645 -/
def processNetflowV9Packet (_length : Nat) (tb : TemplateBuffer) :
    Proc Event (Int × TemplateBuffer) := do
  let setCount ← ntohs E 2
  let tb ← forSets E setCount 20 tb
  pure (0, tb)

/-- mirrors concentrator/rcvIpfix.c:668-686 -/
def ipfixSet (set tmpid : Nat) (tb : TemplateBuffer) : Proc Event TemplateBuffer := do
  let tmpsid ← ntohl E 12
  if tmpid = IPFIX_SetId_DataTemplate then processDataTemplateSet E tmpsid set tb
  else if tmpid = IPFIX_SetId_Template then processTemplateSet E tmpsid set tb
  else if tmpid = IPFIX_SetId_OptionsTemplate then processOptionsTemplateSet E tmpsid set tb
  else if IPFIX_SetId_Data_Start ≤ tmpid then processDataSet E tmpsid set tb
  else pure tb

/-- One round of the loop over the sets of an IPFIX packet.
mirrors concentrator/rcvIpfix.c:666-688 -/
def ipfixSetStep (set : Nat) (tb : TemplateBuffer) : Proc Event (Nat × TemplateBuffer) := do
  let tmpid ← ntohs E set
  let tb ← ipfixSet E set tmpid tb
  let length ← ntohs E (set + 2)
  pure (set + length, tb)

/-- mirrors concentrator/rcvIpfix.c:651-691 -/
def processIpfixPacket (length : Nat) (tb : TemplateBuffer) :
    Proc Event (Int × TemplateBuffer) := do
  let headerLength ← ntohs E 2
  if headerLength ≠ length then pure (-1, tb)
  else
    let (_, tb) ← loop (fun s => s.1 < length) (fun s => ipfixSetStep E s.1 s.2) (16, tb)
    pure (0, tb)

/-- mirrors concentrator/rcvIpfix.c:697-716 -/
def processMessage (length : Nat) (tb : TemplateBuffer) : Proc Event (Int × TemplateBuffer) := do
  let version ← ntohs E 0
  if version = 0x000a then processIpfixPacket E length tb
  else if version = 0x0009 then processNetflowV9Packet E length tb
  else pure (-1, tb)

end Rcv

end Topas
