import Topas.L2Parser.Packets

/-!
# What a detection module's storage is handed

The callbacks that `PacketReader` registers with its parser
(`detectionmodules/detectionbase/detectcallbacks.h`). Two of them hand the fields of
a record to a storage; the others return at once. A callback is modelled by the
calls that it makes of the storage, `none` where it reads an array out of range.
`recordMutex` is left out.

Of the four arguments of `addFieldData`, the enterprise number is the wrong one in
two places: `newDataRecordArrived` passes the length a second time, and
`newDataRecordFixedFieldsArrived` passes, for the fixed value number `i`, that of the
record field number `i`, which may not exist.

* `callback_delivers_iff`: the storage is handed every subscribed field with its own
  attributes exactly when these happen to agree (`PacketReader.Agrees`).
* `counted_callAt`: every record of the parser comes with arrays of the sizes that
  its template announces.
-/
namespace Topas

/-- A `byte*` into the message, or into the fixed values of a data template. -/
inductive BytePtr where
  | message (addr : Nat)
  | data (offset : Nat)
  deriving DecidableEq, Repr

/-- A call of a function of the storage.
mirrors detectionmodules/detectionbase/datastore.h:58-113 -/
inductive StoreCall where
  | recordStart (sourceID : Nat)
  | setValid (v : Bool)
  | addFieldData (id : Nat) (fieldData : BytePtr) (len enterprise : Nat)
  | recordEnd
  deriving DecidableEq, Repr

/-- `getBuffer` is whether there is a storage, `recordStart` what it answers. -/
structure PacketReader where
  idList : List Int
  getBuffer : Bool
  recordStart : Nat → Bool

namespace PacketReader

variable (input : PacketReader)

/-- mirrors detectionmodules/detectionbase/filepolicy.h:220-232 -/
def isIdInList (id : Int) : Bool := input.idList.isEmpty || input.idList.contains id

/-- The loops over `infos`, from entry `i` on for `n` entries; `ptr` is where the
field data lie, `eid i` what is passed as the enterprise number of entry `i`. -/
def fieldLoop (infos : List FieldInfo) (ptr : Nat → BytePtr) (eid : Nat → Option Nat) :
    Nat → Nat → Option (List StoreCall)
  | 0, _ => some []
  | n + 1, i => do
    let fi ← infos[i]?
    if input.isIdInList fi.type.id then
      let enterprise ← eid i
      let calls ← fieldLoop infos ptr eid n (i + 1)
      some (.addFieldData fi.type.id (ptr fi.offset) fi.type.length enterprise :: calls)
    else fieldLoop infos ptr eid n (i + 1)

/-- What the two callbacks for records do around their loops. -/
def record (sourceID : Nat) (fields : Option (List StoreCall)) : Option (List StoreCall) :=
  if input.getBuffer then
    if input.recordStart sourceID then do
      let calls ← fields
      some (.recordStart sourceID :: .setValid true :: (calls ++ [.recordEnd]))
    else some [.recordStart sourceID]
  else some []

/-- The enterprise number is the length.
mirrors detectionmodules/detectionbase/detectcallbacks.h:49-73 -/
def newDataRecordArrived (sourceID : Nat) (ti : TemplateInfo) (data : Nat) :
    Option (List StoreCall) :=
  input.record sourceID
    (input.fieldLoop ti.fieldInfo (fun offset => .message (data + offset))
      (fun i => ti.fieldInfo[i]?.map (·.type.length)) ti.fieldCount 0)

/-- The second loop runs over `dataInfo`, and takes the enterprise numbers from `fieldInfo`.
mirrors detectionmodules/detectionbase/detectcallbacks.h:148-182 -/
def newDataRecordFixedFieldsArrived (sourceID : Nat) (ti : DataTemplateInfo) (data : Nat) :
    Option (List StoreCall) :=
  input.record sourceID do
    let fields ← input.fieldLoop ti.fieldInfo (fun offset => .message (data + offset))
      (fun i => ti.fieldInfo[i]?.map (·.type.eid)) ti.fieldCount 0
    let fixed ← input.fieldLoop ti.dataInfo .data
      (fun i => ti.fieldInfo[i]?.map (·.type.eid)) ti.dataCount 0
    some (fields ++ fixed)

/-- The function registered for a call of the parser.
mirrors detectionmodules/detectionbase/filepolicy.h:118-137 -/
def callback (sourceID : Nat) : Call → Option (List StoreCall)
  | .dataRecord ti _ data => input.newDataRecordArrived sourceID ti data
  | .dataDataRecord ti _ data => input.newDataRecordFixedFieldsArrived sourceID ti data
  | _ => some []

/-! ## What should be handed over -/

/-- The subscribed ones of these fields, with their own attributes. -/
def fields (ptr : Nat → BytePtr) (infos : List FieldInfo) : List StoreCall :=
  (infos.filter fun fi => input.isIdInList fi.type.id).map fun fi =>
    .addFieldData fi.type.id (ptr fi.offset) fi.type.length fi.type.eid

def delivered (sourceID : Nat) : Call → Option (List StoreCall)
  | .dataRecord ti _ data =>
    input.record sourceID
      (some (input.fields (fun offset => .message (data + offset)) ti.fieldInfo))
  | .dataDataRecord ti _ data =>
    input.record sourceID
      (some (input.fields (fun offset => .message (data + offset)) ti.fieldInfo ++
      input.fields .data ti.dataInfo))
  | _ => some []

/-- The storage takes the record. -/
def accepts (sourceID : Nat) : Bool := input.getBuffer && input.recordStart sourceID

/-- The subscribed fields of a template have their length as enterprise number, and the
subscribed fixed values that of the record field with the same index. -/
def Agrees : Call → Prop
  | .dataRecord ti _ _ =>
    ∀ fi ∈ ti.fieldInfo, input.isIdInList fi.type.id = true → fi.type.length = fi.type.eid
  | .dataDataRecord ti _ _ =>
    ∀ (i : Nat) (fi : FieldInfo), ti.dataInfo[i]? = some fi → input.isIdInList fi.type.id = true →
      ∃ f : FieldInfo, ti.fieldInfo[i]? = some f ∧ f.type.eid = fi.type.eid
  | _ => True

end PacketReader

/-- The counts of the template are the sizes of its arrays. -/
def Call.Counted : Call → Prop
  | .dataRecord ti _ _ => (Info.templateInfo ti).Counted
  | .optionsRecord ti _ _ => (Info.optionsTemplateInfo ti).Counted
  | .dataDataRecord ti _ _ => (Info.dataTemplateInfo ti).Counted
  | _ => True

/-- Every record of a template that the parser knows. -/
theorem counted_callAt {tb : TemplateBuffer} {bt : BufferedTemplate} (h : processes.Reachable tb)
    (hb : bt ∈ tb) (m : Mem) (set j : Nat) : (callAt bt set m j).Counted := by
  have hc := @counted_recordInfo bt set ((sound_reachable h).entry bt hb).counted m (j + 1)
  unfold callAt
  cases hi : recordInfo bt set m (j + 1) with
  | templateInfo ti => rw [hi] at hc; exact hc
  | optionsTemplateInfo ti => rw [hi] at hc; exact hc
  | dataTemplateInfo ti => rw [hi] at hc; exact hc

namespace PacketReader

variable {input : PacketReader} {infos : List FieldInfo} {ptr : Nat → BytePtr}
  {eid : Nat → Option Nat} {n i sourceID : Nat}

theorem fields_cons {fi : FieldInfo} : input.fields ptr (fi :: infos) =
    if input.isIdInList fi.type.id then
      .addFieldData fi.type.id (ptr fi.offset) fi.type.length fi.type.eid :: input.fields ptr infos
    else input.fields ptr infos := by
  unfold fields
  rw [List.filter_cons]
  split <;> rfl

/-- A loop hands over what it should exactly when it passes the enterprise numbers of
the subscribed fields. -/
theorem fieldLoop_iff (h : i + n = infos.length) :
    input.fieldLoop infos ptr eid n i = some (input.fields ptr (infos.drop i)) ↔
      ∀ (j : Nat) (fi : FieldInfo), i ≤ j → infos[j]? = some fi →
      input.isIdInList fi.type.id = true →
        eid j = some fi.type.eid := by
  induction n generalizing i with
  | zero =>
    have hdrop : infos.drop i = [] := List.drop_eq_nil_of_le (by omega)
    rw [hdrop]
    refine ⟨fun _ j fi hj hfi => ?_, fun _ => rfl⟩
    rw [List.getElem?_eq_none (by omega)] at hfi
    cases hfi
  | succ n ih =>
    obtain ⟨fi, hdrop, hget⟩ : ∃ fi, infos.drop i = fi :: infos.drop (i + 1) ∧
        infos[i]? = some fi :=
      ⟨_, List.drop_eq_getElem_cons (by omega), List.getElem?_eq_getElem (by omega)⟩
    have ih := @ih (i + 1) (by omega)
    -- the entries from `i` on are `fi` and those from `i + 1` on
    have hsplit : (∀ (j : Nat) (f : FieldInfo), i ≤ j → infos[j]? = some f →
        input.isIdInList f.type.id = true →
          eid j = some f.type.eid) ↔
        (input.isIdInList fi.type.id = true → eid i = some fi.type.eid) ∧
          ∀ (j : Nat) (f : FieldInfo), i + 1 ≤ j → infos[j]? = some f →
            input.isIdInList f.type.id = true →
            eid j = some f.type.eid := by
      refine ⟨fun h => ⟨h i fi (Nat.le_refl i) hget, fun j f hj => h j f (by omega)⟩, ?_⟩
      intro ⟨h1, h2⟩ j f hj hf hid
      rcases Nat.lt_or_eq_of_le hj with hj | rfl
      · exact h2 j f hj hf hid
      · rw [hget] at hf
        cases hf
        exact h1 hid
    rw [hsplit, ← ih, hdrop, fields_cons, fieldLoop, hget, Option.bind_eq_bind, Option.bind_some]
    by_cases hid : input.isIdInList fi.type.id = true
    · rw [if_pos hid, if_pos hid]
      cases eid i with
      | none => simp [hid]
      | some e =>
        cases input.fieldLoop infos ptr eid n (i + 1) with
        | none => simp
        | some calls => simp [hid]
    · rw [if_neg hid, if_neg hid]
      simp [hid]

/-- A storage that takes the record is handed what `calls` says. -/
theorem record_eq_iff {calls : List StoreCall} {fields : Option (List StoreCall)} :
    input.record sourceID fields = input.record sourceID (some calls) ↔
      (input.accepts sourceID = true → fields = some calls) := by
  unfold record accepts
  cases input.getBuffer with
  | false => simp
  | true =>
    cases input.recordStart sourceID with
    | false => simp
    | true => cases fields <;> simp

end PacketReader

/-- The storage is handed each subscribed field once, in template order, with its own id,
bytes, length and enterprise number, and then the fixed values in the same way, exactly when
it takes no record or the numbers that are passed as enterprise numbers agree with them. -/
theorem callback_delivers_iff {input : PacketReader} {sourceID : Nat} {c : Call} (hc : c.Counted) :
    input.callback sourceID c = input.delivered sourceID c ↔
      (input.accepts sourceID = true → input.Agrees c) := by
  cases c with
  | dataRecord ti length data =>
    have hc : ti.fieldInfo.length = ti.fieldCount := hc
    have hloop :=
      @PacketReader.fieldLoop_iff input ti.fieldInfo (fun offset => .message (data + offset))
      (fun i => ti.fieldInfo[i]?.map (·.type.length)) ti.fieldCount 0 (by omega)
    rw [List.drop_zero] at hloop
    show input.record sourceID _ = input.record sourceID (some _) ↔ _
    rw [PacketReader.record_eq_iff, hloop]
    refine imp_congr_right fun _ => ⟨fun h fi hfi hid => ?_, fun h j fi _ hfi hid => ?_⟩
    · obtain ⟨j, hj⟩ := List.getElem?_of_mem hfi
      simpa [hj] using h j fi (Nat.zero_le j) hj hid
    · simpa [hfi] using h fi (List.mem_of_getElem? hfi) hid
  | dataDataRecord ti length data =>
    obtain ⟨hc, hd⟩ : ti.fieldInfo.length = ti.fieldCount ∧ ti.dataInfo.length = ti.dataCount := hc
    have hfields :=
      @PacketReader.fieldLoop_iff input ti.fieldInfo (fun offset => .message (data + offset))
      (fun i => ti.fieldInfo[i]?.map (·.type.eid)) ti.fieldCount 0 (by omega)
    have hfixed := @PacketReader.fieldLoop_iff input ti.dataInfo .data
      (fun i => ti.fieldInfo[i]?.map (·.type.eid)) ti.dataCount 0 (by omega)
    rw [List.drop_zero] at hfields hfixed
    show input.record sourceID (do _) = input.record sourceID (some _) ↔ _
    rw [PacketReader.record_eq_iff, hfields.mpr fun j fi _ hfi _ => by rw [hfi]; rfl]
    refine imp_congr_right fun _ => ?_
    have happ : ∀ (xs ys : List StoreCall) (o : Option (List StoreCall)),
        (do let zs ← o; some (xs ++ zs)) = some (xs ++ ys) ↔ o = some ys := by
      intro xs ys o
      cases o <;> simp
    refine (happ _ _ _).trans (hfixed.trans ?_)
    refine ⟨fun h j fi hfi hid => ?_, fun h j fi _ hfi hid => ?_⟩
    · exact Option.map_eq_some_iff.mp (h j fi (Nat.zero_le j) hfi hid)
    · exact Option.map_eq_some_iff.mpr (h j fi hfi hid)
  | _ => exact ⟨fun _ _ => trivial, fun _ => rfl⟩

/-- A data template whose record field and fixed value are both standard fields. -/
theorem callback_delivers_standard :
    let c := Call.dataDataRecord ⟨256, 0, 1, [⟨⟨8, 4, false, 0⟩, 0⟩], 1, [⟨⟨4, 1, false, 0⟩, 0⟩], [17]⟩ 4 20
    let input : PacketReader := ⟨[], true, fun _ => true⟩
    input.callback 7 c = input.delivered 7 c ∧
      input.delivered 7 c = some [.recordStart 7, .setValid true, .addFieldData 8 (.message 20) 4 0,
        .addFieldData 4 (.data 0) 1 0, .recordEnd] := by
  intro c input
  have hc : c.Counted := ⟨rfl, rfl⟩
  refine ⟨(callback_delivers_iff hc).mpr fun _ => ?_, by decide⟩
  intro i fi hfi _
  cases i with
  | zero => cases hfi; exact ⟨_, rfl, rfl⟩
  | succ i => cases hfi

/-- A standard field of a template comes with its length as enterprise number; a second fixed
value of a data template with one record field is not found. -/
theorem callback_enterprise_length :
    let input : PacketReader := ⟨[], true, fun _ => true⟩
    let c := Call.dataRecord ⟨256, 1, [⟨⟨8, 4, false, 0⟩, 0⟩]⟩ 4 20
    let d := Call.dataDataRecord ⟨256, 0, 1, [⟨⟨8, 4, false, 0⟩, 0⟩], 2,
      [⟨⟨4, 1, false, 0⟩, 0⟩, ⟨⟨5, 1, false, 0⟩, 1⟩], [17, 0]⟩ 4 20
    c.Counted ∧ d.Counted ∧
      input.callback 7 c = some [.recordStart 7, .setValid true, .addFieldData 8 (.message 20) 4 4,
        .recordEnd] ∧
      input.callback 7 c ≠ input.delivered 7 c ∧ input.callback 7 d = none ∧
      input.delivered 7 d ≠ none := by
  intro input c d
  exact ⟨rfl, ⟨rfl, rfl⟩, by decide, by decide, by decide, by decide⟩

end Topas
