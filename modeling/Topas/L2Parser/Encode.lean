import Topas.L2Parser.RcvIpfix

/-!
# What an exporter sends

Templates, withdrawals and data records as values, and their bytes in IPFIX and
NetFlow v9 messages. A well-formed piece carries the proofs of its bounds, so
only messages that fit their length fields can be built.

* A `Field` is a field specifier; its `id` is the whole 16-bit word, with the
  enterprise bit. Field length 65535 stands for variable length.
* A `Value` of variable length has its length in front, in one byte or, behind
  a byte 255, in two.
* A `Message` is a header and a list of template and data sets.

`Known` is what the exporter believes to be known at the collector: the template
most recently sent and not withdrawn for a source id and template id.
`WellFormed` asks that data sets come for such templates only, and `announced`
is the sequence of templates and records that a list of messages carries.

Both versions are sent with the same field specifiers, as the parser reads them
(NetFlow v9 itself has no enterprise numbers).
-/
namespace Topas

open Mem

/-! ## Templates -/

structure Field where
  id : Nat
  length : Nat
  eid : Nat
  id_lt : id < 65536
  length_lt : length < 65536
  eid_lt : eid < 65536 * 65536
  eid_eq : Rcv.isEnterprise id = false → eid = 0

/-- A field specifier from its words; without the enterprise bit there is no enterprise number. -/
def Field.ofWords (id length : UInt16) (eid : UInt32) : Field where
  id := id.toNat
  length := length.toNat
  eid := if Rcv.isEnterprise id.toNat then eid.toNat else 0
  id_lt := id.toNat_lt
  length_lt := length.toNat_lt
  eid_lt := by
    split
    · exact eid.toNat_lt
    · exact Nat.zero_lt_succ _
  eid_eq h := if_neg (Bool.not_eq_true _ ▸ h)

/-- The least id of a template fits its word. -/
theorem leastId_lt : 256 < 65536 := by decide

def Field.encode (f : Field) : List UInt8 :=
  enc16 f.id ++ enc16 f.length ++ if Rcv.isEnterprise f.id then enc32 f.eid else []

def Field.isVariable (f : Field) : Bool := f.length == 65535

/-- A template of fixed length has a length between 1 and 65534. -/
structure Template where
  id : Nat
  fields : List Field
  le_id : 256 ≤ id
  id_lt : id < 65536
  fields_pos : 0 < fields.length
  fields_lt : fields.length < 65536
  total_pos : fields.any Field.isVariable = false → 1 ≤ (fields.map Field.length).sum
  total_lt : fields.any Field.isVariable = false → (fields.map Field.length).sum < 65535

namespace Template

def isVariable (t : Template) : Bool := t.fields.any Field.isVariable

/-- The record length of a template of fixed length. -/
def total (t : Template) : Nat := (t.fields.map Field.length).sum

def encode (t : Template) : List UInt8 :=
  enc16 t.id ++ enc16 t.fields.length ++ t.fields.flatMap Field.encode

end Template

/-- What stands in a template set. -/
inductive Entry where
  | announce (t : Template)
  | withdraw (id : Nat) (id_lt : id < 65536)

namespace Entry

def encode : Entry → List UInt8
  | announce t => t.encode
  | withdraw id _ => enc16 id ++ enc16 0

def id : Entry → Nat
  | announce t => t.id
  | withdraw id _ => id

end Entry

/-! ## Records -/

/-- `long` chooses three bytes for the length of a value of variable length. -/
structure Value where
  bytes : List UInt8
  long : Bool

/-- The value fits the field. -/
def Value.Fits (f : Field) (v : Value) : Prop :=
  if f.isVariable then v.bytes.length < (if v.long then 65536 else 255)
  else v.bytes.length = f.length

def Value.encode (f : Field) (v : Value) : List UInt8 :=
  (if f.isVariable then
    (if v.long then 255 :: enc16 v.bytes.length else [UInt8.ofNat v.bytes.length])
  else []) ++ v.bytes

/-- One value for each field. -/
def ValuesFit : List Field → List Value → Prop
  | [], [] => True
  | f :: fs, v :: vs => v.Fits f ∧ ValuesFit fs vs
  | _, _ => False

def encodeValues : List Field → List Value → List UInt8
  | f :: fs, v :: vs => v.encode f ++ encodeValues fs vs
  | _, _ => []

/-- A record of a template; a record of variable length has at least 4 bytes. -/
structure Record (t : Template) where
  values : List Value
  fit : ValuesFit t.fields values
  four_le : t.isVariable = true → 4 ≤ (encodeValues t.fields values).length

def Record.encode {t : Template} (r : Record t) : List UInt8 := encodeValues t.fields r.values

/-! ## Sets -/

/-- Template sets are padded with at most 3 bytes, data sets with less than a
record, at most 3 bytes when records have variable length. -/
inductive MsgSet where
  | templates (entries : List Entry) (padding : List UInt8) (padding_le : padding.length ≤ 3)
  | data (t : Template) (records : List (Record t)) (padding : List UInt8)
      (padding_lt : padding.length < if t.isVariable then 4 else t.total)

inductive Version where
  | ipfix
  | netflowV9
  deriving DecidableEq

def Version.headerLength : Version → Nat
  | .ipfix => 16
  | .netflowV9 => 20

/-- The id of template sets. -/
def Version.templateSetID : Version → Nat
  | .ipfix => IPFIX_SetId_Template
  | .netflowV9 => NetflowV9_SetId_Template

namespace MsgSet

def content : MsgSet → List UInt8
  | templates entries padding _ => entries.flatMap Entry.encode ++ padding
  | data _ records padding _ => records.flatMap Record.encode ++ padding

def setID (v : Version) : MsgSet → Nat
  | templates .. => v.templateSetID
  | data t .. => t.id

def encode (v : Version) (s : MsgSet) : List UInt8 :=
  enc16 (s.setID v) ++ enc16 (4 + s.content.length) ++ s.content

end MsgSet

/-! ## Messages -/

/-- `counters` are the header fields that the parser does not look at: export
time and sequence number, and the system uptime of NetFlow v9. -/
structure Message where
  version : Version
  sourceID : Nat
  counters : List UInt8
  sets : List MsgSet
  sourceID_lt : sourceID < 65536 * 65536
  counters_length : counters.length + 8 = version.headerLength
  length_lt : version.headerLength + (sets.flatMap (MsgSet.encode version)).length < 65536

namespace Message

def body (msg : Message) : List UInt8 := msg.sets.flatMap (MsgSet.encode msg.version)

def encode (msg : Message) : List UInt8 :=
  match msg.version with
  | .ipfix =>
    enc16 0x000a ++ enc16 (16 + msg.body.length) ++ msg.counters ++ enc32 msg.sourceID ++ msg.body
  | .netflowV9 =>
    enc16 0x0009 ++ enc16 msg.sets.length ++ msg.counters ++ enc32 msg.sourceID ++ msg.body

end Message

/-! ## What is known -/

abbrev Known := Nat × Nat → Option Template

namespace Known

variable (sid : Nat)

def entry (K : Known) (e : Entry) : Known := fun key =>
  if key = (sid, e.id) then
    match e with
    | .announce t => some t
    | .withdraw _ _ => none
  else K key

def set (K : Known) : MsgSet → Known
  | .templates entries _ _ => entries.foldl (entry sid) K
  | .data .. => K

def sets (K : Known) (ss : List MsgSet) : Known := ss.foldl (set sid) K

def message (K : Known) (msg : Message) : Known := K.sets msg.sourceID msg.sets

end Known

/-- A data set is for the template most recently sent and not withdrawn. -/
def MsgSet.Live (sid : Nat) (K : Known) : MsgSet → Prop
  | .templates .. => True
  | .data t .. => K (sid, t.id) = some t

def setsLive (sid : Nat) : Known → List MsgSet → Prop
  | _, [] => True
  | K, s :: ss => s.Live sid K ∧ setsLive sid (K.set sid s) ss

def WellFormed : Known → List Message → Prop
  | _, [] => True
  | K, msg :: msgs =>
    setsLive msg.sourceID K msg.sets ∧ WellFormed (K.message msg) msgs

/-! ## What is announced -/

/-- What the templates and records of a message stream look like from outside. -/
inductive Seen where
  | template (sourceID id : Nat) (fields : List (Nat × Nat × Nat))
  | record (sourceID id : Nat) (fields : List (Nat × Nat)) (values : List (List UInt8))
  deriving DecidableEq

/-- A template with id, enterprise id and length of its fields. -/
def Template.seen (sid : Nat) (t : Template) : Seen :=
  .template sid t.id (t.fields.map fun f => (f.id, f.eid, f.length))

/-- A record with id and enterprise id of its fields, and their values. -/
def Record.seen (sid : Nat) {t : Template} (r : Record t) : Seen :=
  .record sid t.id (t.fields.map fun f => (f.id, f.eid)) (r.values.map Value.bytes)

def Entry.announced (sid : Nat) : Entry → List Seen
  | .announce t => [t.seen sid]
  | .withdraw _ _ => []

def MsgSet.announced (sid : Nat) : MsgSet → List Seen
  | .templates entries _ _ => entries.flatMap (Entry.announced sid)
  | .data _ records _ _ => records.map (Record.seen sid)

def Message.announced (msg : Message) : List Seen :=
  msg.sets.flatMap (MsgSet.announced msg.sourceID)

end Topas
