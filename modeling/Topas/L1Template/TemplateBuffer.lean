import Topas.L1Template.Types

/-!
# The template buffer

The operations of `concentrator/templateBuffer.c` on the linked list of buffered
templates, taken as the list of its nodes from `head` on.
`L1Template.BufferHeap` has the same operations on nodes with `next` pointers in
a heap and shows that they do to the pointers what the operations here do to the
list.

`find` is the finite map that the list implements: with unique keys
(`Keyed`), a destroyed key maps to nothing, a buffered template to its entry
without an expiry time, and no operation touches another key.
-/
namespace Topas

abbrev TemplateBuffer := List BufferedTemplate

namespace TemplateBuffer

/-- The first node with source id and template id `k`. -/
def find (tb : TemplateBuffer) (k : Nat × Nat) : Option BufferedTemplate :=
  List.find? (fun bt => decide (bt.key = k)) tb

/-- The list without the first node with key `k`. -/
def unlink (tb : TemplateBuffer) (k : Nat × Nat) : TemplateBuffer :=
  List.eraseP (fun bt => decide (bt.key = k)) tb

/-- A write through the pointer to the first node with key `k`. -/
def setInfo (k : Nat × Nat) (info : Info) : TemplateBuffer → TemplateBuffer
  | [] => []
  | bt :: tb => if bt.key = k then { bt with info := info } :: tb else bt :: setInfo k info tb

end TemplateBuffer

/-- The destruction callback of a template, by the type of its set; templates of
an unknown type have none.
mirrors concentrator/templateBuffer.c:84-145 -/
def BufferedTemplate.destruction (bt : BufferedTemplate) : Option Call :=
  match bt.info with
  | .templateInfo ti =>
    if bt.setID = IPFIX_SetId_Template ∨ bt.setID = NetflowV9_SetId_Template then
      some (.templateDestruction ti.templateId ti.fieldCount)
    else none
  | .optionsTemplateInfo ti =>
    if bt.setID = IPFIX_SetId_OptionsTemplate then
      some (.optionsTemplateDestruction ti.templateId ti.scopeCount ti.fieldCount)
    else none
  | .dataTemplateInfo ti =>
    if bt.setID = IPFIX_SetId_DataTemplate then
      some (.dataTemplateDestruction ti.id ti.preceding ti.fieldCount ti.dataCount)
    else none

/-- What is called back when `bt` is destroyed. -/
def IpfixParser.destroyed (P : IpfixParser) (bt : BufferedTemplate) : List Event :=
  match bt.destruction with
  | some c => P.calls bt.sourceID c
  | none => []

/-- mirrors concentrator/templateBuffer.c:66-147 -/
def destroyBufferedTemplate (P : IpfixParser) (tb : TemplateBuffer) (sourceId templateId : Nat) :
    Proc Event TemplateBuffer :=
  match tb.find (sourceId, templateId) with
  | none => pure tb
  | some bt => do
    Proc.tell (P.destroyed bt)
    pure (tb.unlink (sourceId, templateId))

/-- `now` is `time(0)`.
mirrors concentrator/templateBuffer.c:35-50 -/
def getBufferedTemplate (P : IpfixParser) (now : Int) (tb : TemplateBuffer)
    (sourceId templateId : Nat) : Proc Event (TemplateBuffer × Option BufferedTemplate) :=
  match tb.find (sourceId, templateId) with
  | none => pure (tb, none)
  | some bt =>
    if bt.expires ≠ 0 ∧ bt.expires < now then do
      let tb ← destroyBufferedTemplate P tb sourceId templateId
      pure (tb, none)
    else pure (tb, some bt)

/-- mirrors concentrator/templateBuffer.c:55-61 -/
def bufferTemplate (P : IpfixParser) (tb : TemplateBuffer) (bt : BufferedTemplate) :
    Proc Event TemplateBuffer := do
  let tb ← destroyBufferedTemplate P tb bt.sourceID bt.templateID
  pure ({ bt with expires := 0 } :: tb)

namespace TemplateBuffer

/-! ## The finite map -/

/-- At most one node for each source id and template id. -/
def Keyed (tb : TemplateBuffer) : Prop := (List.map BufferedTemplate.key tb).Nodup

variable {tb : TemplateBuffer} {k k' : Nat × Nat} {bt : BufferedTemplate} {info : Info}

@[simp] theorem find_nil : find [] k = none := rfl

theorem find_cons : find (bt :: tb) k = if bt.key = k then some bt else find tb k := by
  unfold find
  by_cases h : bt.key = k <;> simp [h]

theorem find_key (h : tb.find k = some bt) : bt.key = k := by
  have := List.find?_some h
  simpa using this

theorem find_mem (h : tb.find k = some bt) : bt ∈ tb := List.mem_of_find?_eq_some h

theorem find_eq_none : tb.find k = none ↔ ∀ b ∈ tb, b.key ≠ k := by
  simp [find, List.find?_eq_none]

theorem unlink_cons :
    unlink (bt :: tb) k = if bt.key = k then tb else bt :: unlink tb k := by
  unfold unlink
  by_cases h : bt.key = k <;> simp [h]

theorem unlink_of_find_none (h : tb.find k = none) : tb.unlink k = tb := by
  rw [find_eq_none] at h
  exact List.eraseP_of_forall_not (by simpa using h)

theorem keyed_unlink (h : tb.Keyed) (k : Nat × Nat) : (tb.unlink k).Keyed :=
  (List.Sublist.map _ (List.eraseP_sublist)).nodup h

theorem mem_unlink (h : bt ∈ tb.unlink k) : bt ∈ tb := List.mem_of_mem_eraseP h

/-- Destroying a key removes it from the map and leaves the others alone. -/
theorem find_unlink (h : tb.Keyed) :
    (tb.unlink k).find k' = if k' = k then none else tb.find k' := by
  induction tb with
  | nil => simp [unlink]
  | cons b tb ih =>
    simp only [Keyed, List.map_cons, List.nodup_cons, List.mem_map, not_exists, not_and] at h
    rw [unlink_cons]
    by_cases hb : b.key = k
    · rw [if_pos hb, find_cons, hb]
      by_cases hk : k' = k
      · rw [if_pos hk, hk, find_eq_none]
        exact fun x hx => hb ▸ h.1 x hx
      · rw [if_neg hk, if_neg (fun e => hk e.symm)]
    · rw [if_neg hb, find_cons, find_cons, ih h.2]
      by_cases hk : k' = k
      · rw [if_pos hk, if_neg (hk ▸ hb), if_pos hk]
      · simp only [if_neg hk]

theorem unlink_find (h : tb.Keyed) : (tb.unlink k).find k = none := by
  rw [find_unlink h, if_pos rfl]

theorem keyed_cons (h : tb.Keyed) (hk : tb.find bt.key = none) : Keyed (bt :: tb) := by
  simp only [Keyed, List.map_cons, List.nodup_cons, List.mem_map, not_exists, not_and]
  exact ⟨find_eq_none.mp hk, h⟩

@[simp] theorem map_key_setInfo :
    List.map BufferedTemplate.key (tb.setInfo k info) = List.map BufferedTemplate.key tb := by
  induction tb with
  | nil => rfl
  | cons b tb ih =>
    rw [setInfo]
    split
    · rfl
    · rw [List.map_cons, ih, List.map_cons]

theorem keyed_setInfo (h : tb.Keyed) : (tb.setInfo k info).Keyed := by
  unfold Keyed; rw [map_key_setInfo]; exact h

theorem find_setInfo : (tb.setInfo k info).find k' =
    if k' = k then (tb.find k).map ({ · with info := info }) else tb.find k' := by
  induction tb with
  | nil => simp [setInfo]
  | cons b tb ih =>
    rw [setInfo]
    by_cases hb : b.key = k
    · rw [if_pos hb, find_cons, find_cons, find_cons, if_pos hb]
      by_cases hk : k' = k
      · rw [if_pos hk, if_pos (hk ▸ hb)]; rfl
      · have hne : ¬ b.key = k' := fun e => hk (e ▸ hb)
        have hne' : ¬ ({ b with info := info } : BufferedTemplate).key = k' := hne
        rw [if_neg hk, if_neg hne', if_neg hne]
    · rw [if_neg hb, find_cons, find_cons, find_cons, if_neg hb, ih]
      by_cases hk : k' = k
      · rw [if_pos hk, if_neg (hk ▸ hb), if_pos hk]
      · simp only [if_neg hk]

theorem mem_setInfo (h : bt ∈ tb.setInfo k info) :
    bt ∈ tb ∨ ∃ b, tb.find k = some b ∧ bt = { b with info := info } := by
  induction tb with
  | nil => cases h
  | cons b tb ih =>
    rw [setInfo] at h
    by_cases hb : b.key = k
    · rw [if_pos hb] at h
      rcases List.mem_cons.mp h with h | h
      · exact .inr ⟨b, by rw [find_cons, if_pos hb], h⟩
      · exact .inl (List.mem_cons_of_mem _ h)
    · rw [if_neg hb] at h
      rcases List.mem_cons.mp h with h | h
      · exact .inl (h ▸ List.mem_cons_self)
      · rcases ih h with h | ⟨x, hx, h⟩
        · exact .inl (List.mem_cons_of_mem _ h)
        · exact .inr ⟨x, by rw [find_cons, if_neg hb, hx], h⟩

end TemplateBuffer

/-! ## What the operations do -/

section Spec

open TemplateBuffer

variable {P : IpfixParser} {tb : TemplateBuffer} {sourceId templateId : Nat} {now : Int}

/-- The log of `destroyBufferedTemplate`. -/
def IpfixParser.lost (P : IpfixParser) (tb : TemplateBuffer) (k : Nat × Nat) : List Event :=
  match tb.find k with
  | none => []
  | some bt => P.destroyed bt

theorem returns_destroyBufferedTemplate :
    (destroyBufferedTemplate P tb sourceId templateId).Returns
      (P.lost tb (sourceId, templateId)) (tb.unlink (sourceId, templateId)) := by
  unfold destroyBufferedTemplate IpfixParser.lost
  cases h : tb.find (sourceId, templateId) with
  | none => simp [unlink_of_find_none h]
  | some bt =>
    exact Proc.returns_bind.mpr ⟨P.destroyed bt, (), [], by simp, by simp, by simp⟩

/-- A lookup of a template that does not expire. -/
theorem getBufferedTemplate_eq
    (h : ∀ bt, tb.find (sourceId, templateId) = some bt → bt.expires = 0) :
    getBufferedTemplate P now tb sourceId templateId = pure
    (tb, tb.find (sourceId, templateId)) := by
  unfold getBufferedTemplate
  cases hf : tb.find (sourceId, templateId) with
  | none => rfl
  | some bt => simp [h bt hf]

end Spec

end Topas
