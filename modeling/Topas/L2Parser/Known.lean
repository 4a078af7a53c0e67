import Topas.L2Parser.TemplateSets

/-!
# What the template buffer knows

The table of layouts that a template buffer stands for (`TemplateBuffer.table`),
and what every entry can be relied on for (`BufferedTemplate.Sound`): the union
member fits the set id, the counts are the sizes of the arrays, an entry never
expires, the fields of a template of fixed length lie one behind the other, and a
record of varying length is not empty.

`layout_entryAt` and `sound_entryAt` show both for every template that is
buffered; `afterTemplates_spec` carries them over a template set.
-/
namespace Topas

open Mem Layout

/-! ## Layout of an entry -/

/-- Regular fields have their length in front of them when it is variable. -/
def FieldInfo.part (fi : FieldInfo) : Option Nat :=
  if fi.type.isVariableLength then none else some fi.type.length

/-- Scopes in records of varying length have it when it is not. -/
def FieldInfo.scopePart (recordLength : Nat) (fi : FieldInfo) : Option Nat :=
  if recordLength < 65535 ∨ fi.type.isVariableLength then some fi.type.length else none

/-- The record fields in record order. -/
def Info.fields : Info → List FieldInfo
  | .templateInfo ti => ti.fieldInfo
  | .optionsTemplateInfo ti => ti.scopeInfo ++ ti.fieldInfo
  | .dataTemplateInfo ti => ti.fieldInfo

def Info.kind : Info → Kind
  | .templateInfo _ => .template
  | .optionsTemplateInfo _ => .optionsTemplate
  | .dataTemplateInfo _ => .dataTemplate

def Info.parts (recordLength : Nat) : Info → List (Option Nat)
  | .templateInfo ti => ti.fieldInfo.map FieldInfo.part
  | .optionsTemplateInfo ti =>
    ti.scopeInfo.map (FieldInfo.scopePart recordLength) ++ ti.fieldInfo.map FieldInfo.part
  | .dataTemplateInfo ti => ti.fieldInfo.map FieldInfo.part

def BufferedTemplate.layout (bt : BufferedTemplate) : Layout :=
  ⟨bt.info.kind, bt.recordLength, bt.info.parts bt.recordLength⟩

def TemplateBuffer.table (tb : TemplateBuffer) : Table := fun k =>
  (tb.find k).map BufferedTemplate.layout

/-- The fields lie one behind the other from offset `o` on; offsets are `uint16_t`. -/
def Placed : Nat → List FieldInfo → Prop
  | _, [] => True
  | o, fi :: fis => fi.offset = o % 65536 ∧ Placed (o + fi.type.length) fis

/-- The counts are the sizes of the arrays. -/
def Info.Counted : Info → Prop
  | .templateInfo ti => ti.fieldInfo.length = ti.fieldCount
  | .optionsTemplateInfo ti =>
    ti.scopeInfo.length = ti.scopeCount ∧ ti.fieldInfo.length = ti.fieldCount
  | .dataTemplateInfo ti => ti.fieldInfo.length = ti.fieldCount ∧ ti.dataInfo.length = ti.dataCount

structure BufferedTemplate.Sound (bt : BufferedTemplate) : Prop where
  tagged : bt.Tagged
  counted : bt.info.Counted
  expires : bt.expires = 0
  recordLength_le : bt.recordLength ≤ 65535
  placed : bt.recordLength < 65535 → Placed 0 bt.info.fields
  fixed : bt.recordLength < 65535 →
    bt.info.parts bt.recordLength = bt.info.fields.map (some ·.type.length)
  sum : bt.recordLength < 65535 →
    bt.recordLength = (bt.info.fields.map (·.type.length)).sum % 65536
  moves : bt.recordLength = 65535 → ∀ m a, 0 < bt.layout.size m a

/-- What the parser keeps of the template buffer. -/
structure TemplateBuffer.Sound (tb : TemplateBuffer) : Prop where
  keyed : tb.Keyed
  entry : ∀ bt, bt ∈ tb → bt.Sound

/-! ## Sizes -/

/-- A record with a length prefix or a field of some length is not empty. -/
theorem partsSize_pos {m : Mem} {k : Kind} {ps : List (Option Nat)} {p : Option Nat} (h : p ∈ ps)
    (hp : p ≠ some 0) (a : Nat) : 0 < partsSize m k a ps := by
  induction ps generalizing a with
  | nil => cases h
  | cons q ps ih =>
    rw [partsSize]
    rcases List.mem_cons.mp h with rfl | h
    · have : 0 < partSize m k a p := by
        cases p with
        | none => simp only [partSize]; split <;> omega
        | some n =>
          cases n with
          | zero => exact absurd rfl hp
          | succ n => simp only [partSize]; omega
      omega
    · have := ih h (a + partSize m k a q)
      omega

theorem storedLength_le (ls : List Nat) : storedLength ls ≤ 65535 := by
  unfold storedLength; split <;> omega

theorem not_mem_of_storedLength {ls : List Nat} (h : storedLength ls < 65535) : 65535 ∉ ls := by
  intro hm
  rw [storedLength, if_pos hm] at h
  exact absurd h (by decide)

theorem exists_ne_zero_of_sum {ls : List Nat} (h : ls.sum ≠ 0) : ∃ n, n ∈ ls ∧ n ≠ 0 := by
  induction ls with
  | nil => exact absurd rfl h
  | cons l ls ih =>
    by_cases h0 : l = 0
    · obtain ⟨n, hn, h1⟩ := ih (by simpa [h0] using h)
      exact ⟨n, List.mem_cons_of_mem _ hn, h1⟩
    · exact ⟨l, List.mem_cons_self, h0⟩

/-- Records of varying length are not empty. -/
theorem ofLengths_moves {k : Kind} {scopes fields : List Nat}
    (h : storedLength (scopes ++ fields) = 65535) (m : Mem) (a : Nat) :
    0 < (ofLengths k scopes fields).size m a := by
  have hnot : ¬ storedLength (scopes ++ fields) < 65535 := by omega
  simp only [size, ofLengths]
  by_cases hs : scopes = []
  · subst hs
    obtain ⟨n, hn, h0⟩ : ∃ n, n ∈ fields ∧ n ≠ 0 := by
      by_cases hm : 65535 ∈ fields
      · exact ⟨65535, hm, by decide⟩
      · rw [List.nil_append, storedLength, if_neg hm] at h
        exact exists_ne_zero_of_sum (by omega)
    refine partsSize_pos (p := varyingPart n)
      (List.mem_append_right _ (List.mem_map_of_mem hn)) ?_ a
    unfold varyingPart
    split
    · simp
    · simpa using h0
  · obtain ⟨n, hn⟩ := List.exists_mem_of_ne_nil _ hs
    refine partsSize_pos (p := varyingScope (storedLength (scopes ++ fields)) n)
      (List.mem_append_left _ (List.mem_map_of_mem hn)) ?_ a
    unfold varyingScope
    split
    · rename_i h1; simp [h1.resolve_left hnot]
    · simp

/-- Records of fixed length have no length prefixes. -/
theorem ofLengths_fixed {k : Kind} {scopes fields : List Nat}
    (h : storedLength (scopes ++ fields) < 65535) :
    (ofLengths k scopes fields).parts = (scopes ++ fields).map some := by
  have hnot := not_mem_of_storedLength h
  rw [List.map_append]
  refine congr (congrArg _ ?_) ?_
  · exact List.map_congr_left fun n _ => if_pos (.inl h)
  · refine List.map_congr_left fun n hn => if_neg fun h1 => ?_
    exact hnot (List.mem_append_right _ (h1 ▸ hn))

/-! ## Entries -/

section Entries

variable {E : Env} {m : Mem} {field : Nat → Nat → Nat → FieldInfo}

theorem placed_append {o : Nat} {xs ys : List FieldInfo} :
    Placed o (xs ++ ys) ↔ Placed o xs ∧ Placed (o + (xs.map (·.type.length)).sum) ys := by
  induction xs generalizing o with
  | nil => simp [Placed]
  | cons x xs ih =>
    simp only [List.cons_append, Placed, ih, List.map_cons, List.sum_cons, Nat.add_assoc, and_assoc]

theorem placed_fieldsAt (hl : ∀ no a offset, (field no a offset).type.length = be16 m (a + 2))
    (ho : ∀ no a offset, (field no a offset).offset = offset) {n no a o : Nat} :
    Placed o (fieldsAt m field n no a (o % 65536)) := by
  induction n generalizing no a o with
  | zero => trivial
  | succ n ih =>
    refine ⟨ho .., ?_⟩
    rw [hl, Nat.mod_add_mod]
    exact ih

theorem map_offsetsFor {α : Type} {ls : List Nat} {fis : List FieldInfo} {g : FieldInfo → α}
    (hg : ∀ fi o, g { fi with offset := o } = g fi) : (offsetsFor ls fis).map g = fis.map g := by
  unfold offsetsFor
  split
  · rw [Rcv.unknownOffsets, List.map_map]
    exact List.map_congr_left fun fi _ => hg fi _
  · rfl

theorem length_fieldsAt {n no a o : Nat} : (fieldsAt m field n no a o).length = n := by
  induction n generalizing no a o with
  | zero => rfl
  | succ n ih => rw [fieldsAt, List.length_cons, ih]

theorem length_offsetsFor {ls : List Nat} {fis : List FieldInfo} :
    (offsetsFor ls fis).length = fis.length := by
  have h := congrArg List.length (@map_offsetsFor _ ls fis FieldInfo.type fun _ _ => rfl)
  rwa [List.length_map, List.length_map] at h

theorem length_locatedData {start len : Nat} {fis : List FieldInfo} :
    (locatedData m start fis len).length = fis.length := by
  induction fis generalizing len with
  | nil => rfl
  | cons fi fis ih => rw [locatedData, List.length_cons, List.length_cons, ih]

theorem counted_infoAt {th : Nat} {k : Kind} : (infoAt E th k).Counted := by
  cases k with
  | template => exact length_offsetsFor.trans length_fieldsAt
  | optionsTemplate =>
    exact ⟨length_offsetsFor.trans length_fieldsAt, length_offsetsFor.trans length_fieldsAt⟩
  | dataTemplate =>
    exact ⟨length_offsetsFor.trans length_fieldsAt, length_locatedData.trans length_fieldsAt⟩

theorem map_part_fieldsAt {f : FieldInfo → Option Nat} {g : Nat → Option Nat}
    (hf : ∀ no a offset, f (field no a offset) = g (be16 m (a + 2))) {n no a o : Nat} :
    (fieldsAt m field n no a o).map f = (specLengths m n a).map g := by
  induction n generalizing no a o with
  | zero => rfl
  | succ n ih => rw [fieldsAt, specLengths, List.map_cons, List.map_cons, hf, ih]

theorem layout_entryAt {sid set th : Nat} {k : Kind} :
    (entryAt E sid set th k).layout = templateAt E.mem th k := by
  have hpart : ∀ ls fis, (offsetsFor ls fis).map FieldInfo.part = fis.map FieldInfo.part :=
    fun _ _ => map_offsetsFor fun _ _ => rfl
  have hfield : ∀ n no a o, (fieldsAt E.mem (fieldAt E) n no a o).map FieldInfo.part =
      (specLengths E.mem n a).map varyingPart :=
    fun _ _ _ _ => map_part_fieldsAt fun _ _ _ => by simp [FieldInfo.part, fieldAt, varyingPart]
  cases k with
  | template =>
    simp only [BufferedTemplate.layout, entryAt, infoAt, Info.kind, Info.parts, templateInfoAt,
      hpart, hfield, templateAt, ofLengths, List.map_nil, List.nil_append]
  | dataTemplate =>
    simp only [BufferedTemplate.layout, entryAt, infoAt, Info.kind, Info.parts, dataTemplateInfoAt,
      hpart, hfield, templateAt, ofLengths, List.map_nil, List.nil_append]
  | optionsTemplate =>
    have hscope :
      ∀ rl n no a o, (fieldsAt E.mem (scopeAt E) n no a o).map (FieldInfo.scopePart rl) =
        (specLengths E.mem n a).map (varyingScope rl) :=
      fun _ _ _ _ _ => map_part_fieldsAt fun _ _ _ => by
        simp [FieldInfo.scopePart, scopeAt, varyingScope]
    have hscope' : ∀ rl ls fis, (offsetsFor ls fis).map (FieldInfo.scopePart rl) =
        fis.map (FieldInfo.scopePart rl) := fun _ _ _ => map_offsetsFor fun _ _ => rfl
    simp only [BufferedTemplate.layout, entryAt, infoAt, Info.kind, Info.parts,
      optionsTemplateInfoAt, hpart, hfield, hscope, hscope', templateAt, ofLengths]

/-- The field lengths of the template at `th`, scopes first. -/
def lengthsAt (m : Mem) (th : Nat) : Kind → List Nat
  | .template => specLengths m (be16 m (th + 2)) (th + 4)
  | .optionsTemplate =>
    specLengths m (optionCounts m th).1 (th + 6) ++
      specLengths m (optionCounts m th).2 (specsEnd m (optionCounts m th).1 (th + 6))
  | .dataTemplate => specLengths m (be16 m (th + 2)) (th + 8)

theorem recordLength_templateAt {th : Nat} {k : Kind} :
    (templateAt m th k).recordLength = storedLength (lengthsAt m th k) := by
  cases k <;> rfl

/-- The fields of a template of fixed length. -/
theorem fields_infoAt {th : Nat} {k : Kind} (h : 65535 ∉ lengthsAt E.mem th k) :
    (infoAt E th k).fields.map (·.type.length) = lengthsAt E.mem th k ∧
      Placed 0 (infoAt E th k).fields := by
  have hlen : ∀ n no a o, (fieldsAt E.mem (fieldAt E) n no a o).map (·.type.length) =
      specLengths E.mem n a := fun _ _ _ _ => lengths_fieldsAt fun _ _ _ => rfl
  have hplaced : ∀ n a, Placed 0 (fieldsAt E.mem (fieldAt E) n 0 a 0) :=
    fun n a => placed_fieldsAt (o := 0) (fun _ _ _ => rfl) (fun _ _ _ => rfl)
  cases k with
  | template =>
    simp only [lengthsAt] at h
    simp only [infoAt, Info.fields, templateInfoAt, offsetsFor, if_neg h]
    exact ⟨hlen .., hplaced ..⟩
  | dataTemplate =>
    simp only [lengthsAt] at h
    simp only [infoAt, Info.fields, dataTemplateInfoAt, offsetsFor, if_neg h]
    exact ⟨hlen .., hplaced ..⟩
  | optionsTemplate =>
    simp only [lengthsAt] at h
    simp only [infoAt, Info.fields, optionsTemplateInfoAt, offsetsFor, if_neg h]
    have hscope : ∀ n no a o, (fieldsAt E.mem (scopeAt E) n no a o).map (·.type.length) =
        specLengths E.mem n a := fun _ _ _ _ => lengths_fieldsAt fun _ _ _ => rfl
    refine ⟨by rw [List.map_append, hscope, hlen]; rfl, placed_append.mpr ⟨?_, ?_⟩⟩
    · exact placed_fieldsAt (o := 0) (fun _ _ _ => rfl) (fun _ _ _ => rfl)
    · rw [hscope, Nat.zero_add]
      exact placed_fieldsAt (fun _ _ _ => rfl) (fun _ _ _ => rfl)

theorem sound_entryAt {sid set th : Nat} {k : Kind} (ht : (entryAt E sid set th k).Tagged) :
    (entryAt E sid set th k).Sound := by
  have hrl : (entryAt E sid set th k).recordLength = storedLength (lengthsAt E.mem th k) :=
    recordLength_templateAt
  have hfix : (entryAt E sid set th k).recordLength < 65535 → 65535 ∉ lengthsAt E.mem th k :=
    fun h => not_mem_of_storedLength (hrl ▸ h)
  refine ⟨ht, counted_infoAt, rfl, hrl ▸ storedLength_le _, ?_, ?_, ?_, ?_⟩
  · exact fun h => (fields_infoAt (hfix h)).2
  · intro h
    have hp : (entryAt E sid set th k).layout.parts = (lengthsAt E.mem th k).map some := by
      rw [layout_entryAt]
      rw [hrl] at h
      cases k with
      | template => exact ofLengths_fixed h
      | optionsTemplate => exact ofLengths_fixed h
      | dataTemplate => exact ofLengths_fixed h
    rw [← (fields_infoAt (hfix h)).1, List.map_map] at hp
    exact hp
  · intro h
    rw [hrl, storedLength, if_neg (hfix h)]
    exact congrArg (·.sum % 65536) (fields_infoAt (hfix h)).1.symm
  · intro h m a
    rw [layout_entryAt]
    rw [hrl] at h
    cases k with
    | template => exact ofLengths_moves h m a
    | optionsTemplate => exact ofLengths_moves h m a
    | dataTemplate => exact ofLengths_moves h m a

end Entries

/-! ## The buffer over a template set -/

section Buffer

open TemplateBuffer

variable {E : Env} {tb : TemplateBuffer} {k : Kind} {sid set th : Nat}

theorem Sound.unlink (h : tb.Sound) (key : Nat × Nat) : TemplateBuffer.Sound (tb.unlink key) :=
  ⟨keyed_unlink h.keyed key, fun bt hb => h.entry bt (mem_unlink hb)⟩

/-- A set id of kind `k`. -/
def TagFor (k : Kind) (setID : Nat) : Prop :=
  match k with
  | .template => setID = IPFIX_SetId_Template ∨ setID = NetflowV9_SetId_Template
  | .optionsTemplate => setID = IPFIX_SetId_OptionsTemplate
  | .dataTemplate => setID = IPFIX_SetId_DataTemplate

theorem tagged_entryAt (h : TagFor k (be16 E.mem set)) : (entryAt E sid set th k).Tagged := by
  cases k <;> exact h

theorem find_afterTemplate (h : tb.Keyed) (key : Nat × Nat) :
    (afterTemplate E k sid set tb th).find key =
      if key = (sid, be16 E.mem th) then
        if be16 E.mem (th + 2) = 0 then none else some (entryAt E sid set th k)
      else tb.find key := by
  unfold afterTemplate
  split
  · rw [find_unlink h]
  · rw [find_cons]
    by_cases hk : key = (sid, be16 E.mem th)
    · rw [if_pos hk, if_pos (show (entryAt E sid set th k).key = key from hk.symm)]
    · rw [if_neg hk, if_neg (show (entryAt E sid set th k).key ≠ key from fun e => hk e.symm),
        find_unlink h, if_neg hk]

theorem table_afterTemplate (h : tb.Sound) :
    (afterTemplate E k sid set tb th).table = announce E.mem k sid tb.table th := by
  funext key
  rw [table, find_afterTemplate h.keyed, announce]
  split
  · split
    · rfl
    · rw [Option.map_some, layout_entryAt]
  · rfl

theorem sound_afterTemplate (h : tb.Sound) (ht : TagFor k (be16 E.mem set)) :
    TemplateBuffer.Sound (afterTemplate E k sid set tb th) := by
  unfold afterTemplate
  split
  · exact Sound.unlink h _
  · refine ⟨keyed_cons (keyed_unlink h.keyed _) (unlink_find h.keyed), ?_⟩
    intro bt hb
    rcases List.mem_cons.mp hb with rfl | hb
    · exact sound_entryAt (tagged_entryAt ht)
    · exact h.entry bt (mem_unlink hb)

/-- A template set leaves a sound buffer, whose table is the announced one. -/
theorem afterTemplates_spec (h : tb.Sound) (ht : TagFor k (be16 E.mem set)) (ths : List Nat) :
    TemplateBuffer.Sound (ths.foldl (afterTemplate E k sid set) tb) ∧
      table (ths.foldl (afterTemplate E k sid set) tb) =
        ths.foldl (announce E.mem k sid) tb.table := by
  induction ths generalizing tb with
  | nil => exact ⟨h, rfl⟩
  | cons th ths ih =>
    have := ih (@sound_afterTemplate E tb k sid set th h ht)
    rw [table_afterTemplate h] at this
    exact this

end Buffer

end Topas
