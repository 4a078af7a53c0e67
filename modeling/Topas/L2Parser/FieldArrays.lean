import Topas.L2Parser.TemplateSets

/-!
# Writes to the arrays of field infos

Each template processor allocates its arrays of field infos with the counts of the template header
and fills them in loops. A write to entry `i` of an array of `c` entries is the event `store i c`.

* `stores_templateStep`: the loop over the fields of a template stays inside.
* `stores_optionsTemplateStep`: the loop over the scopes clears `eid` in the array of the other
  fields, entry by entry, for every scope without an enterprise number.
* `stores_dataTemplateStep`: the array of the fixed values is allocated with the number of the
  other fields.
-/
namespace Topas

open Mem Proc Layout

/-- The write hits the array. -/
def Event.InArray : Event → Prop
  | .store index capacity => index < capacity
  | _ => True

/-- The program ends with `a`, and its writes stay inside exactly when `Q` holds. -/
abbrev Stores {α : Type} (p : Proc Event α) (Q : Prop) (a : α) : Prop :=
  p.Does Event.InArray (fun _ => ([] : List Unit)) Q [] a

section Stores

variable {E : Env} {tb : TemplateBuffer}

theorem stores_ntohs {a : Nat} : Stores (Rcv.ntohs E a) True (be16 E.mem a) :=
  Does.last does_emit rfl

theorem stores_ntohl {a : Nat} : Stores (Rcv.ntohl E a) True (be32 E.mem a) :=
  Does.last does_emit rfl

theorem stores_host16 {a : Nat} : Stores (Rcv.host16 E a) True (le16 E.mem a) :=
  Does.last does_emit rfl

theorem stores_host8 {a : Nat} : Stores (Rcv.host8 E a) True (E.mem a).toNat :=
  Does.last does_emit rfl

theorem stores_calls {P : IpfixParser} {sid : Nat} {c : Call} :
    Stores (P.invoke sid c) True () := by
  refine ⟨P.calls sid c, returns_tell.mpr rfl, iff_true_intro fun e he => ?_, by simp⟩
  obtain ⟨f, -, rfl⟩ := List.mem_map.mp he
  trivial

theorem stores_destroyBufferedTemplate {P : IpfixParser} {sid tid : Nat} :
    Stores (destroyBufferedTemplate P tb sid tid) True (tb.unlink (sid, tid)) := by
  refine ⟨_, returns_destroyBufferedTemplate, iff_true_intro fun e he => ?_, by simp⟩
  unfold IpfixParser.lost at he
  split at he
  · cases he
  · unfold IpfixParser.destroyed at he
    split at he
    · obtain ⟨f, -, rfl⟩ := List.mem_map.mp he
      trivial
    · cases he

theorem stores_bufferTemplate {P : IpfixParser} {bt : BufferedTemplate} :
    Stores (bufferTemplate P tb bt) True ({ bt with expires := 0 } :: tb.unlink bt.key) :=
  Does.last stores_destroyBufferedTemplate rfl

/-! ## Field specifiers -/

theorem stores_readEid {a eid : Nat} :
    Stores (Rcv.readEid E a (be16 E.mem a) eid) True (eidAt E.mem a eid, specEnd E.mem a) := by
  unfold Rcv.readEid eidAt specEnd
  cases Rcv.isEnterprise (be16 E.mem a)
  · exact does_pure
  · exact Does.last stores_ntohl rfl

/-- What holds of the numbers and addresses of `n` specifiers from `a` on. -/
def AllSpecs (m : Mem) (Q : Nat → Nat → Prop) : Nat → Nat → Nat → Prop
  | 0, _, _ => True
  | n + 1, no, a => Q no a ∧ AllSpecs m Q n (no + 1) (specEnd m a)

theorem allSpecs_lt {m : Mem} {c n no a : Nat} :
    AllSpecs m (fun no _ => no < c) n no a ↔ n = 0 ∨ no + n ≤ c := by
  induction n generalizing no a with
  | zero => exact iff_of_true trivial (.inl rfl)
  | succ n ih => rw [AllSpecs, ih]; omega

theorem stores_readField (capacity no a offset : Nat) :
    Stores (Rcv.readField E capacity no a offset) (no < capacity)
      (fieldAt E no a offset, specEnd E.mem a) :=
  Does.congr (Does.then does_emit (Does.then stores_ntohs (Does.then stores_ntohs
    (Does.last stores_readEid rfl)))) (by simp only [and_true]; exact Iff.rfl)

theorem stores_readData (capacity no a offset : Nat) :
    Stores (Rcv.readData E capacity no a offset) (no < capacity)
      (dataAt E no a offset, specEnd E.mem a) :=
  Does.congr (Does.then does_emit (Does.then stores_ntohs (Does.then stores_ntohs
    (Does.last stores_readEid rfl)))) (by simp only [and_true]; exact Iff.rfl)

theorem stores_readScope (scopeCount fieldCount no a offset : Nat) :
    Stores (Rcv.readScope E scopeCount fieldCount no a offset)
      (no < scopeCount ∧ (Rcv.isEnterprise (be16 E.mem a) = false → no < fieldCount))
      (scopeAt E no a offset, specEnd E.mem a) := by
  refine Does.congr (Does.then does_emit (Does.then stores_ntohs (Does.then stores_ntohs
    (Does.then stores_readEid
      (?_ : Stores (if _ then _ else _)
        (Rcv.isEnterprise (be16 E.mem a) = false → no < fieldCount) _))))) ?_
  · cases h : Rcv.isEnterprise (be16 E.mem a)
    · exact Does.congr (Does.last does_emit rfl) (by simp only [true_imp_iff]; exact Iff.rfl)
    · exact Does.congr does_pure (by simp)
  · simp only [true_and]
    exact Iff.rfl

theorem stores_forFields {readOne : Nat → Nat → Nat → Proc Event (FieldInfo × Nat)}
    {field : Nat → Nat → Nat → FieldInfo} {Q : Nat → Nat → Prop}
    (hr : ∀ no a offset, Stores (readOne no a offset) (Q no a) (field no a offset, specEnd E.mem a))
    (hf : ∀ no a offset, (field no a offset).type.length = be16 E.mem (a + 2))
    (n no a offset : Nat) :
    ∃ recordLength, Stores (Rcv.forFields readOne n no a offset) (AllSpecs E.mem Q n no a)
      (fieldsAt E.mem field n no a offset, specsEnd E.mem n a, recordLength) := by
  induction n generalizing no a offset with
  | zero => exact ⟨offset, does_pure⟩
  | succ n ih =>
    obtain ⟨recordLength, hrest⟩ :=
      ih (no + 1) (specEnd E.mem a) ((offset + be16 E.mem (a + 2)) % 65536)
    refine ⟨recordLength, Does.then (hr no a offset) ?_⟩
    simp only [hf]
    exact Does.last hrest rfl

/-! ## Templates -/

theorem stores_withdrawal {sid th x : Nat} {k : Nat → Nat → Proc Event (Nat × TemplateBuffer)}
    (h : be16 E.mem (th + 2) = 0)
    (hk : ∀ tid, k 0 tid = do
      let tb ← destroyBufferedTemplate E.parser tb sid tid
      pure (x, tb)) :
    Stores (do
        let fieldCount ← Rcv.ntohs E (th + 2)
        let templateId ← Rcv.ntohs E th
        k fieldCount templateId) True (x, tb.unlink (sid, be16 E.mem th)) := by
  refine Does.congr (Does.then stores_ntohs (Does.then stores_ntohs (R := True) ?_)) (by simp)
  rw [h, hk]
  exact Does.last stores_destroyBufferedTemplate rfl

theorem stores_templateStep {sid set th : Nat} :
    ∃ a, Stores (Rcv.templateStep E sid set th tb) True a := by
  by_cases h : be16 E.mem (th + 2) = 0
  · exact ⟨_, stores_withdrawal h fun tid => by rw [if_pos rfl]⟩
  · obtain ⟨recordLength, hfields⟩ :=
      stores_forFields (stores_readField (E := E) (be16 E.mem (th + 2)))
      (fun _ _ _ => rfl) (be16 E.mem (th + 2)) 0 (th + 4) 0
    apply Exists.intro
    apply Does.congr
    · apply Does.then stores_ntohs
      apply Does.then stores_ntohs
      rw [if_neg h]
      apply Does.then stores_ntohs
      apply Does.then hfields
      apply Does.then stores_bufferTemplate
      exact Does.last stores_calls rfl
    · rw [allSpecs_lt]
      simp

/-- A scope without an enterprise number also needs an entry among the further fields. -/
theorem stores_optionsTemplateStep {sid set th : Nat} (h : be16 E.mem (th + 2) ≠ 0) :
    ∃ a, Stores (Rcv.optionsTemplateStep E sid set th tb)
      (AllSpecs E.mem (fun no a => no < (optionCounts E.mem th).1 ∧
        (Rcv.isEnterprise (be16 E.mem a) = false → no < (optionCounts E.mem th).2))
        (optionCounts E.mem th).1 0 (th + 6)) a := by
  simp only [optionCounts]
  generalize hcount : (be16 E.mem (th + 2) + 65536 - be16 E.mem (th + 4)) % 65536 = fieldCount
  obtain ⟨scopesLength, hscopes⟩ := stores_forFields
    (stores_readScope (E := E) (be16 E.mem (th + 4)) fieldCount)
    (fun _ _ _ => rfl) (be16 E.mem (th + 4)) 0 (th + 6) 0
  obtain ⟨recordLength, hfields⟩ := stores_forFields (stores_readField (E := E) fieldCount)
    (fun _ _ _ => rfl) fieldCount 0 (specsEnd E.mem (be16 E.mem (th + 4)) (th + 6)) scopesLength
  apply Exists.intro
  apply Does.congr
  · apply Does.then stores_ntohs
    apply Does.then stores_ntohs
    rw [if_neg h]
    apply Does.then stores_ntohs
    apply Does.then stores_ntohs
    rw [hcount]
    apply Does.then hscopes
    apply Does.then hfields
    apply Does.then stores_bufferTemplate
    exact Does.last stores_calls rfl
  · rw [allSpecs_lt]
    simp

theorem stores_locateValue (E : Env) (dataStart offset : Nat) (fi : FieldInfo) :
    ∃ a, Stores (Rcv.locateValue E dataStart fi offset) True a := by
  unfold Rcv.locateValue
  split
  · by_cases h : (E.mem (dataStart + offset)).toNat = 255
    · apply Exists.intro
      apply Does.congr
      · apply Does.then stores_host8
        rw [if_pos h]
        exact Does.last stores_host16 rfl
      · rw [true_and]
    · apply Exists.intro
      apply Does.congr
      · apply Does.then stores_host8
        rw [if_neg h]
        exact does_pure
      · rw [true_and]
  · exact ⟨_, does_pure⟩

theorem stores_locateData (E : Env) (dataStart len : Nat) (fis : List FieldInfo) :
    ∃ a, Stores (Rcv.locateData E dataStart fis len) True a := by
  induction fis generalizing len with
  | nil => exact ⟨_, does_pure⟩
  | cons fi fis ih =>
    obtain ⟨v, hv⟩ := stores_locateValue E dataStart (len % 65536) fi
    obtain ⟨a, ha⟩ := ih (len + v.1)
    exact ⟨_, Does.congr (Does.then hv (Does.last ha rfl)) (by rw [true_and])⟩

/-- The fixed values need as many entries as there are fields. -/
theorem stores_dataTemplateStep {sid set th : Nat} (h : be16 E.mem (th + 2) ≠ 0) :
    ∃ a, Stores (Rcv.dataTemplateStep E sid set th tb)
      (be16 E.mem (th + 4) ≤ be16 E.mem (th + 2)) a := by
  obtain ⟨recordLength, hfields⟩ :=
    stores_forFields (stores_readField (E := E) (be16 E.mem (th + 2)))
    (fun _ _ _ => rfl) (be16 E.mem (th + 2)) 0 (th + 8) 0
  obtain ⟨dataLength, hdata⟩ := stores_forFields (stores_readData (E := E) (be16 E.mem (th + 2)))
    (fun _ _ _ => rfl) (be16 E.mem (th + 4)) 0 (specsEnd E.mem (be16 E.mem (th + 2)) (th + 8)) 0
  obtain ⟨v, hblock⟩ := stores_locateData E
    (specsEnd E.mem (be16 E.mem (th + 4)) (specsEnd E.mem (be16 E.mem (th + 2)) (th + 8))) 0
    (fieldsAt E.mem (dataAt E) (be16 E.mem (th + 4)) 0
      (specsEnd E.mem (be16 E.mem (th + 2)) (th + 8)) 0)
  apply Exists.intro
  apply Does.congr
  · apply Does.then stores_ntohs
    apply Does.then stores_ntohs
    rw [if_neg h]
    apply Does.then stores_ntohs
    apply Does.then stores_ntohs
    apply Does.then stores_ntohs
    apply Does.then hfields
    apply Does.then hdata
    apply Does.then hblock
    apply Does.then does_emit
    apply Does.then stores_bufferTemplate
    exact Does.last stores_calls rfl
  · rw [allSpecs_lt, allSpecs_lt]
    simp only [Event.InArray, true_and, and_true, Nat.zero_add, Nat.le_refl, or_true]
    omega

end Stores

end Topas
