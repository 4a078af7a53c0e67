import Topas.L2Parser.RcvIpfix

/-!
# What a message announces

The abstract side of the parser: which templates a set announces and where each
ends, how a record of a template is laid out, which template a data set finds.
Nothing here parses step by step or calls back; every definition is a size, an
address or a lookup that follows from the bytes of the message and from the
templates known before it.

A known template is its `Layout`: the kind of its set, the record length stored
with it, and for each field a fixed length (`some n`) or a length that stands in
front of the field in the record (`none`). A `Table` maps source id and template
id to the layout that is live.

`setAt` follows the sets of a message by their length fields and keeps the table
that holds when the set is reached.
-/
namespace Topas

open Mem

/-- The three kinds of templates. -/
inductive Kind where
  | template
  | optionsTemplate
  | dataTemplate
  deriving DecidableEq, Repr

/-- Layout of the records of a template. -/
structure Layout where
  kind : Kind
  recordLength : Nat
  parts : List (Option Nat)
  deriving DecidableEq, Repr

abbrev Table := Nat × Nat → Option Layout

namespace Layout

variable (m : Mem)

/-! ## Field specifiers -/

/-- Where the field specifier at `a` ends. -/
def specEnd (a : Nat) : Nat := if Rcv.isEnterprise (be16 m a) then a + 8 else a + 4

/-- Where the `n` field specifiers from `a` on end. -/
def specsEnd : Nat → Nat → Nat
  | 0, a => a
  | n + 1, a => specsEnd n (specEnd m a)

/-- The field lengths in the `n` field specifiers from `a` on. -/
def specLengths : Nat → Nat → List Nat
  | 0, _ => []
  | n + 1, a => be16 m (a + 2) :: specLengths n (specEnd m a)

/-! ## Templates -/

/-- Number of scopes and of further fields of the options template at `th`. -/
def optionCounts (th : Nat) : Nat × Nat :=
  (be16 m (th + 4), (be16 m (th + 2) + 65536 - be16 m (th + 4)) % 65536)

/-- Length of a fixed value with field length `l`, `len` bytes into the block at
`dataStart`; its prefix is found where the value before it ends. -/
def blockPart (dataStart len l : Nat) : Nat :=
  if l = 65535 then
    if (m (dataStart + len % 65536)).toNat = 255 then le16 m (dataStart + (len % 65536 + 1) % 65536)
    else (m (dataStart + len % 65536)).toNat
  else l

/-- Total length of fixed values with these field lengths, in the block at `dataStart`. -/
def blockLength (dataStart : Nat) : List Nat → Nat → Nat
  | [], len => len
  | l :: ls, len => blockLength dataStart ls (len + blockPart m dataStart len l)

/-- Where the fixed values of the data template at `th` start. -/
def dataStart (th : Nat) : Nat :=
  specsEnd m (be16 m (th + 4)) (specsEnd m (be16 m (th + 2)) (th + 8))

/-- Field lengths of the fixed values of the data template at `th`. -/
def dataLengths (th : Nat) : List Nat :=
  specLengths m (be16 m (th + 4)) (specsEnd m (be16 m (th + 2)) (th + 8))

/-- Where the template at `th` ends. -/
def templateEnd (th : Nat) : Kind → Nat
  | .template => specsEnd m (be16 m (th + 2)) (th + 4)
  | .optionsTemplate =>
    if be16 m (th + 2) = 0 then th + 6
    else specsEnd m (optionCounts m th).2 (specsEnd m (optionCounts m th).1 (th + 6))
  | .dataTemplate =>
    if be16 m (th + 2) = 0 then th + 8
    else dataStart m th + blockLength m (dataStart m th) (dataLengths m th) 0

/-- The lengths of varying fields stand in the record. -/
def varyingPart (n : Nat) : Option Nat := if n = 65535 then none else some n

/-- The scopes of an options template of varying length are read the other way
round. -/
def varyingScope (recordLength n : Nat) : Option Nat :=
  if recordLength < 65535 ∨ n = 65535 then some n else none

/-- The record length stored for fields of the given lengths. -/
def storedLength (lengths : List Nat) : Nat :=
    if 65535 ∈ lengths then 65535 else lengths.sum % 65536

/-- Layout for scopes and fields of the given lengths. Stored length 65535 stands
for varying length, also where it is the sum of fixed lengths. -/
def ofLengths (kind : Kind) (scopes fields : List Nat) : Layout :=
  let recordLength := storedLength (scopes ++ fields)
  ⟨kind, recordLength,
    scopes.map (varyingScope recordLength) ++ fields.map varyingPart⟩

/-- The layout that the template at `th` announces. -/
def templateAt (th : Nat) : Kind → Layout
  | .template => ofLengths .template [] (specLengths m (be16 m (th + 2)) (th + 4))
  | .optionsTemplate =>
    ofLengths .optionsTemplate (specLengths m (optionCounts m th).1 (th + 6))
      (specLengths m (optionCounts m th).2 (specsEnd m (optionCounts m th).1 (th + 6)))
  | .dataTemplate => ofLengths .dataTemplate [] (specLengths m (be16 m (th + 2)) (th + 8))

theorem le_specEnd (a : Nat) : a + 4 ≤ specEnd m a := by unfold specEnd; split <;> omega

theorem le_specsEnd (n a : Nat) : a + 4 * n ≤ specsEnd m n a := by
  induction n generalizing a with
  | zero => exact Nat.le_refl _
  | succ n ih =>
    have h1 := le_specEnd m a
    have h2 := ih (specEnd m a)
    rw [specsEnd]; omega

/-- Every template takes at least its header. -/
theorem lt_templateEnd (th : Nat) (k : Kind) : th + 3 < templateEnd m th k := by
  cases k with
  | template =>
    have := le_specsEnd m (be16 m (th + 2)) (th + 4)
    simp only [templateEnd]; omega
  | optionsTemplate =>
    have h1 := le_specsEnd m (optionCounts m th).1 (th + 6)
    have h2 := le_specsEnd m (optionCounts m th).2 (specsEnd m (optionCounts m th).1 (th + 6))
    simp only [templateEnd]; split <;> omega
  | dataTemplate =>
    have h1 := le_specsEnd m (be16 m (th + 2)) (th + 8)
    have h2 := le_specsEnd m (be16 m (th + 4)) (specsEnd m (be16 m (th + 2)) (th + 8))
    simp only [templateEnd, dataStart]; split <;> omega

/-- The templates of a set that ends at `endOfSet`, from the one at `th` on: a
template starts where the one before it ends, while more than 3 bytes are left. -/
def templateStarts (k : Kind) (endOfSet th : Nat) : List Nat :=
  if th + 3 < endOfSet then th :: templateStarts k endOfSet (templateEnd m th k) else []
termination_by endOfSet - th
decreasing_by have := lt_templateEnd m th k; omega

/-- The length prefixes of fixed values with these field lengths lie inside `[0, length)`. -/
def BlockFits (length dataStart : Nat) : List Nat → Nat → Prop
  | [], _ => True
  | l :: ls, len =>
    (l = 65535 → dataStart + len % 65536 + 1 ≤ length ∧
      ((m (dataStart + len % 65536)).toNat = 255 →
        dataStart + (len % 65536 + 1) % 65536 + 2 ≤ length)) ∧
    BlockFits length dataStart ls (len + blockPart m dataStart len l)

/-- The template at `th` lies inside `[0, length)`; a withdrawal is only looked
at as far as its field count. -/
def TemplateFits (length th : Nat) (k : Kind) : Prop :=
  if be16 m (th + 2) = 0 then th + 4 ≤ length
  else templateEnd m th k ≤ length ∧
    (k = .dataTemplate → BlockFits m length (dataStart m th) (dataLengths m th) 0)

/-! ## Records -/

/-- Two-byte lengths are in network order for templates only. -/
def read16 : Kind → Mem → Nat → Nat
  | .template => be16
  | _ => le16

/-- Size of a field at `a` with its length prefix. -/
def partSize (k : Kind) (a : Nat) : Option Nat → Nat
  | some n => n
  | none => if (m a).toNat = 255 then 3 + read16 k m (a + 1) else 1 + (m a).toNat

/-- Size of consecutive fields from `a` on. -/
def partsSize (k : Kind) : Nat → List (Option Nat) → Nat
  | _, [] => 0
  | a, p :: ps => partSize m k a p + partsSize k (a + partSize m k a p) ps

/-- Size of the record at `a`: all of its fields with their length prefixes. -/
def size (L : Layout) (a : Nat) : Nat := partsSize m L.kind a L.parts

/-- Whether another record is taken at `a` from data that ends at `recordX`. -/
def more (L : Layout) (recordX a : Nat) : Bool :=
  match L.kind with
  | .template =>
    if L.recordLength < 65535 then a + L.recordLength < recordX + 1 else a + 3 < recordX
  | _ => a < recordX

/-- Where the record after the one at `a` is taken. -/
def next (L : Layout) (a : Nat) : Nat :=
  a + if L.recordLength < 65535 then L.recordLength else L.size m a

/-- Where record number `j` of the data set at `set` is taken. -/
def recordAt (L : Layout) (set : Nat) : Nat → Nat
  | 0 => set + 4
  | j + 1 => L.next m (recordAt L set j)

/-- Records of stored length 0, of which a set of this length has one. -/
def Stalls (L : Layout) (setLength : Nat) : Prop :=
  L.recordLength = 0 ∧ (L.kind = .template ∨ Rcv.dataLength setLength ≠ 0)

/-! ## Sets -/

/-- The part of a set by its id. -/
inductive SetKind where
  | templates (k : Kind)
  | data
  | other
  deriving DecidableEq, Repr

def ipfixKind (id : Nat) : SetKind :=
  if id = IPFIX_SetId_DataTemplate then .templates .dataTemplate
  else if id = IPFIX_SetId_Template then .templates .template
  else if id = IPFIX_SetId_OptionsTemplate then .templates .optionsTemplate
  else if IPFIX_SetId_Data_Start ≤ id then .data
  else .other

def netflowV9Kind (id : Nat) : SetKind :=
  if id = NetflowV9_SetId_Template then .templates .template
  else if IPFIX_SetId_Data_Start ≤ id then .data
  else .other

/-- The table after the template at `th`: a template without fields withdraws. -/
def announce (k : Kind) (sid : Nat) (T : Table) (th : Nat) : Table := fun key =>
  if key = (sid, be16 m th) then
    if be16 m (th + 2) = 0 then none else some (templateAt m th k)
  else T key

/-- The table after the set at `set`. -/
def afterSet (kindOf : Nat → SetKind) (sid set : Nat) (T : Table) : Table :=
  match kindOf (be16 m set) with
  | .templates k =>
    (templateStarts m k (set + be16 m (set + 2)) (set + 4)).foldl (announce m k sid) T
  | _ => T

/-- The address of set number `i` of a message whose first set is at `start`, and
the table when it is reached. -/
def setAt (kindOf : Nat → SetKind) (sid start : Nat) (T : Table) : Nat → Nat × Table
  | 0 => (start, T)
  | i + 1 =>
    let s := setAt kindOf sid start T i
    (s.1 + be16 m (s.1 + 2), afterSet m kindOf sid s.1 s.2)

/-- A data set whose live template has records of stored length 0. -/
def SetStalls (kindOf : Nat → SetKind) (sid : Nat) (s : Nat × Table) : Prop :=
  kindOf (be16 m s.1) = .data ∧
    ∃ L, s.2 (sid, be16 m s.1) = some L ∧ L.Stalls (be16 m (s.1 + 2))

end Layout

end Topas
