import Topas.L2Parser.Termination

/-!
# A template in force

The parser changes the template buffer in two places: a template of a template set is buffered or
withdrawn, and a data set leaves the offsets and lengths of its last record in the template.
`setSteps` has one step for each, in any message; `reachable_setSteps` says that messages do
nothing else to the buffer.

* `sound_setSteps`: every buffer reached is sound.
* `find_run`: while no step renews a template, its entry stays, up to the offsets and lengths
  that data sets leave in templates of varying length (`Kept`).
-/
namespace Topas

open Mem Proc Layout

/-! ## The steps -/

/-- The template at `th` of the set at `set`, or the data set at `set`, in the message of `E`. -/
inductive SetStep where
  | template (E : Env) (k : Kind) (sid set th : Nat)
  | data (E : Env) (sid set : Nat)

/-- The step announces or withdraws the template. -/
def SetStep.Renews (key : Nat × Nat) : SetStep → Prop
  | template E _ sid _ th => key = (sid, be16 E.mem th)
  | data .. => False

def setSteps : LTS TemplateBuffer SetStep where
  init tb := tb = []
  step tb op tb' :=
    match op with
    | .template E k sid set th =>
      set ≤ th ∧ TagFor k (be16 E.mem set) ∧
        ∃ l x, (Rcv.stepOf E k sid set th tb).Returns l (x, tb')
    | .data E sid set => ∃ l, (Rcv.processDataSet E sid set tb).Returns l tb'

section Steps

variable {E : Env} {k : Kind} {sid set th : Nat} {tb tb' : TemplateBuffer} {l : List Event}

theorem template_returns {x : Nat} (hset : set ≤ th)
    (hr : (Rcv.stepOf E k sid set th tb).Returns l (x, tb')) :
    x = templateEnd E.mem th k ∧ tb' = afterTemplate E k sid set tb th :=
  Prod.ext_iff.mp ((@runs_stepOf E 0 k tb sid set th hset).value hr)

/-- A data set that is processed to its end has handed out some number of records. -/
theorem dataSet_returns (h : tb.Sound) (hr : (Rcv.processDataSet E sid set tb).Returns l tb') :
    (tb.find (sid, be16 E.mem set) = none ∧ tb' = tb) ∨
      ∃ bt n, tb.find (sid, be16 E.mem set) = some bt ∧ tb' = afterRecords E bt set tb n := by
  cases hf : tb.find (sid, be16 E.mem set) with
  | none => exact .inl ⟨rfl, (@runs_unknown E 0 sid set tb h hf).value hr⟩
  | some bt =>
    have hno : ¬ bt.layout.Stalls (be16 E.mem (set + 2)) :=
      fun hst => (@stalls_known E 0 sid set tb bt h hf hst).1 hr.halts
    obtain ⟨n, hmore, hn⟩ :=
      @exists_records bt set E.mem (h.entry bt (TemplateBuffer.find_mem hf)) _ hno
    exact .inr ⟨bt, n, rfl, (@runs_known E 0 sid set tb bt h hf n hmore hn).value hr⟩

theorem sound_setStep {op : SetStep} (h : tb.Sound) (hs : setSteps.step tb op tb') : tb'.Sound := by
  cases op with
  | template E k sid set th =>
    obtain ⟨hset, htag, l, x, hr⟩ := hs
    rw [(template_returns hset hr).2]
    exact sound_afterTemplate h htag
  | data E sid set =>
    obtain ⟨l, hr⟩ := hs
    rcases dataSet_returns h hr with ⟨-, rfl⟩ | ⟨bt, n, hf, rfl⟩
    · exact h
    · exact (afterRecords_spec h (TemplateBuffer.find_key hf ▸ hf) n).1

theorem sound_setSteps (h : setSteps.Reachable tb) : tb.Sound := by
  refine LTS.Inductive.reachable (I := TemplateBuffer.Sound) ⟨?_, ?_⟩ tb h
  · rintro tb rfl; exact sound_nil
  · intro tb op tb' h hs; exact sound_setStep h hs

theorem sound_run {ops : List SetStep} (hrun : setSteps.Run tb ops tb') (h : tb.Sound) :
    tb'.Sound := by
  induction hrun with
  | nil => exact h
  | cons hs _ ih => exact ih (sound_setStep h hs)

end Steps

/-! ## Messages take these steps -/

section Messages

variable {E : Env} {length sid set start : Nat} {tb tb' : TemplateBuffer} {l : List Event}

/-- The buffer after `tb` by some steps. -/
def Follows (tb tb' : TemplateBuffer) : Prop := ∃ ops, setSteps.Run tb ops tb'

theorem Follows.refl (tb : TemplateBuffer) : Follows tb tb := ⟨[], .nil tb⟩

theorem Follows.trans {tb'' : TemplateBuffer} (h : Follows tb tb') (h' : Follows tb' tb'') :
    Follows tb tb'' := by
  obtain ⟨ops, hr⟩ := h
  obtain ⟨ops', hr'⟩ := h'
  exact ⟨ops ++ ops', hr.append hr'⟩

theorem Follows.step (op : SetStep) (hs : setSteps.step tb op tb') : Follows tb tb' :=
  ⟨[op], .cons hs (.nil _)⟩

theorem follows_setBody {kind : SetKind}
    (htag : ∀ k, kind = .templates k → TagFor k (be16 E.mem set))
    (hr : (setBody E sid set tb kind).Returns l tb') : Follows tb tb' := by
  cases kind with
  | other => exact (returns_pure.mp hr).2 ▸ .refl _
  | data => exact .step (.data E sid set) ⟨l, hr⟩
  | templates k =>
    obtain ⟨l1, n, l2, -, hr, -⟩ := returns_bind.mp hr
    obtain ⟨l3, s, l4, hloop, hr, -⟩ := returns_bind.mp hr
    rw [(returns_pure.mp hr).2]
    -- the templates lie behind the start of the set
    refine (Returns.loop_invariant (fun s => set ≤ s.1 ∧ Follows tb s.2) ?_
      ⟨Nat.le_add_right set 4, .refl tb⟩ hloop).2
    rintro ⟨th, tb₁⟩ l ⟨x, tb₂⟩ ⟨hset, hf⟩ - hr
    have hx := (template_returns hset hr).1
    have hlt : th + 3 < x := hx ▸ lt_templateEnd E.mem th k
    exact ⟨Nat.le_trans hset (by omega),
      hf.trans (.step (.template E k sid set th) ⟨hset, htag k rfl, l, x, hr⟩)⟩

theorem follows_ipfixSetStep {s : Nat × TemplateBuffer}
    (hr : (Rcv.ipfixSetStep E set tb).Returns l s) :
    Follows tb s.2 := by
  obtain ⟨l1, id, l2, hid, hr, -⟩ := returns_bind.mp hr
  obtain ⟨l3, tb₁, l4, hset, hr, -⟩ := returns_bind.mp hr
  obtain ⟨l5, n, l6, -, hr, -⟩ := returns_bind.mp hr
  rw [(returns_pure.mp hr).2]
  rw [(@runs_ntohs E 0 set).value hid, ipfixSet_eq] at hset
  obtain ⟨l7, sid, l8, -, hset, -⟩ := returns_bind.mp hset
  exact follows_setBody (fun k => tagFor_ipfixKind) hset

theorem follows_netflowV9SetStep {s : Nat × TemplateBuffer}
    (hr : (Rcv.netflowV9SetStep E set tb).Returns l s) : Follows tb s.2 := by
  obtain ⟨l1, id, l2, hid, hr, -⟩ := returns_bind.mp hr
  obtain ⟨l3, tb₁, l4, hset, hr, -⟩ := returns_bind.mp hr
  obtain ⟨l5, n, l6, -, hr, -⟩ := returns_bind.mp hr
  rw [(returns_pure.mp hr).2]
  rw [(@runs_ntohs E 0 set).value hid, netflowV9Set_eq] at hset
  split at hset
  · exact (returns_pure.mp hset).2 ▸ .refl _
  · obtain ⟨l7, sid, l8, -, hset, -⟩ := returns_bind.mp hset
    exact follows_setBody (fun k => tagFor_netflowV9Kind) hset

theorem follows_forSets {n : Nat} (hr : (Rcv.forSets E n set tb).Returns l tb') :
    Follows tb tb' := by
  induction n generalizing set tb l with
  | zero => exact (returns_pure.mp hr).2 ▸ .refl _
  | succ n ih =>
    obtain ⟨l1, s, l2, hs, hr, -⟩ := returns_bind.mp hr
    exact (follows_netflowV9SetStep hs).trans (ih hr)

theorem follows_processMessage {r : Int}
    (hr : (Rcv.processMessage E length tb).Returns l (r, tb')) :
    Follows tb tb' := by
  rw [processMessage_cases] at hr
  obtain ⟨l1, version, l2, -, hr, -⟩ := returns_bind.mp hr
  split at hr
  · obtain ⟨l3, n, l4, -, hr, -⟩ := returns_bind.mp hr
    split at hr
    · cases (returns_pure.mp hr).2; exact .refl _
    · obtain ⟨l5, s, l6, hwalk, hr, -⟩ := returns_bind.mp hr
      cases (returns_pure.mp hr).2
      exact Returns.loop_invariant (fun s => Follows tb s.2)
        (fun s l s' hf _ hr => hf.trans (follows_ipfixSetStep hr)) (.refl tb) hwalk
  · split at hr
    · obtain ⟨l3, n, l4, -, hr, -⟩ := returns_bind.mp hr
      obtain ⟨l5, s, l6, hsets, hr, -⟩ := returns_bind.mp hr
      cases (returns_pure.mp hr).2
      exact follows_forSets hsets
    · cases (returns_pure.mp hr).2; exact .refl _

/-- The buffers between messages are among those between the steps. -/
theorem reachable_setSteps (h : processes.Reachable tb) : setSteps.Reachable tb := by
  have hind : processes.Inductive setSteps.Reachable := by
    refine ⟨fun tb h0 => .init h0, ?_⟩
    intro tb m tb' h ⟨l, r, hr⟩
    obtain ⟨ops, hrun⟩ := follows_processMessage hr
    exact h.run hrun
  exact hind.reachable tb h

end Messages

/-! ## What stays of an entry -/

/-- The template after records of varying length. -/
inductive Info.Relocated (info : Info) : Info → Prop
  | refl : Relocated info info
  | locate {info' : Info} (m : Mem) (a : Nat) : Relocated info info' →
    Relocated info (info'.locate m a).1

theorem Info.Relocated.keeps {P : Info → Prop} {info info' : Info} (h : info.Relocated info')
    (hP : ∀ m a i, P i → P (i.locate m a).1) (h0 : P info) : P info' := by
  induction h with
  | refl => exact h0
  | locate m a _ ih => exact hP m a _ ih

theorem relocated_recordInfo {info : Info} {bt : BufferedTemplate} {set : Nat}
    (h : info.Relocated bt.info) (m : Mem) (j : Nat) : info.Relocated (recordInfo bt set m j) := by
  induction j with
  | zero => exact h
  | succ j ih =>
    rw [recordInfo]
    split
    · exact h
    · exact .locate m _ ih

/-- The entry `bt` after data sets. -/
structure Kept (bt bt' : BufferedTemplate) : Prop where
  rest : bt' = { bt with info := bt'.info }
  relocated : bt.info.Relocated bt'.info
  fixed : bt.recordLength < 65535 → bt'.info = bt.info

theorem Kept.refl (bt : BufferedTemplate) : Kept bt bt := ⟨rfl, .refl, fun _ => rfl⟩

section Kept

variable {key : Nat × Nat} {tb tb' : TemplateBuffer} {bt bt₀ : BufferedTemplate}

theorem find_setStep {op : SetStep} (h : tb.Sound) (hs : setSteps.step tb op tb')
    (hop : ¬ op.Renews key) (hf : tb.find key = some bt) (hk : Kept bt₀ bt) :
      ∃ bt', tb'.find key = some bt' ∧ Kept bt₀ bt' := by
  cases op with
  | template E k sid set th =>
    obtain ⟨hset, -, l, x, hr⟩ := hs
    refine ⟨bt, ?_, hk⟩
    rw [(template_returns hset hr).2, find_afterTemplate h.keyed,
      if_neg (show ¬ key = _ from hop), hf]
  | data E sid set =>
    obtain ⟨l, hr⟩ := hs
    rcases dataSet_returns h hr with ⟨-, rfl⟩ | ⟨bt₁, n, hf₁, rfl⟩
    · exact ⟨bt, hf, hk⟩
    · unfold afterRecords
      by_cases hrl : bt₁.recordLength < 65535
      · rw [if_pos hrl]
        exact ⟨bt, hf, hk⟩
      · rw [if_neg hrl, TemplateBuffer.find_setInfo]
        have hkey := TemplateBuffer.find_key hf₁
        by_cases he : key = bt₁.key
        · -- the data set is for this template
          rw [← hkey, ← he, hf, Option.some.injEq] at hf₁
          subst hf₁
          rw [if_pos he, ← he, hf]
          refine ⟨_, rfl, ?_, relocated_recordInfo hk.relocated _ _, ?_⟩
          · rw [hk.rest]
          · intro hlt
            rw [hk.rest] at hrl
            exact absurd hlt hrl
        · rw [if_neg he]
          exact ⟨bt, hf, hk⟩

/-- The entry of a template that no step renews. -/
theorem find_run {ops : List SetStep} (hrun : setSteps.Run tb ops tb') (h : tb.Sound)
    (hops : ∀ op ∈ ops, ¬ op.Renews key) (hf : tb.find key = some bt) (hk : Kept bt₀ bt) :
    ∃ bt', tb'.find key = some bt' ∧ Kept bt₀ bt' := by
  induction hrun generalizing bt with
  | nil => exact ⟨bt, hf, hk⟩
  | cons hs _ ih =>
    obtain ⟨bt₁, hf₁, hk₁⟩ := find_setStep h hs (hops _ List.mem_cons_self) hf hk
    exact ih (sound_setStep h hs) (fun op hop => hops op (List.mem_cons_of_mem _ hop)) hf₁ hk₁

end Kept

end Topas
