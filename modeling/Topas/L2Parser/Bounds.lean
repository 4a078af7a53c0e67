import Topas.L2Parser.Termination

/-!
# Which messages are processed inside their bytes

The parser gets the length of the message, but compares it only with the length
field of an IPFIX header (`concentrator/rcvIpfix.c:654`) and with the start of
an IPFIX set (`:666`). Everything else is taken from the message unchecked: the
header itself, set lengths, the counts of a template, the lengths in front of
fields, the set count of NetFlow v9.

`Fits` collects what has to hold instead. For a record it asks that the record
with all its fields lies inside (`a + size ≤ length`): where a callback is handed
the record, the last byte of the last field is a byte of a field slice, so the
condition is also necessary. `prefixesFit` is what remains for a parser without
a callback for the records.
-/
namespace Topas

open Mem Proc Layout

/-! ## The condition -/

/-- Whether the callback for records of this kind is set. -/
def CallbackInfo.takes (ci : CallbackInfo) : Kind → Bool
  | .template => ci.dataRecordCallbackFunction
  | .optionsTemplate => ci.optionsRecordCallbackFunction
  | .dataTemplate => ci.dataDataRecordCallbackFunction

def IpfixParser.hands (P : IpfixParser) (k : Kind) : Bool := P.callbackInfo.any (·.takes k)

namespace Layout

variable (m : Mem) (hands : Kind → Bool) (length : Nat)

/-- The length prefixes of consecutive fields from `a` on lie inside `[0, length)`. -/
def prefixesFit (k : Kind) : Nat → List (Option Nat) → Prop
  | _, [] => True
  | a, p :: ps => (p = none → a + prefixSize m a ≤ length) ∧ prefixesFit k (a + partSize m k a p) ps

/-- The record at `a` lies inside, or its prefixes when it is not handed out. -/
def RecordFits (L : Layout) (a : Nat) : Prop :=
  if hands L.kind then a + L.size m a ≤ length else prefixesFit m length L.kind a L.parts

/-- The set at `s.1` lies inside, when it is reached with the table `s.2`. -/
def SetFits (kindOf : Nat → SetKind) (sid : Nat) (s : Nat × Table) : Prop :=
  s.1 + 4 ≤ length ∧
    match kindOf (be16 m s.1) with
    | .templates k =>
      ∀ t, t ∈ templateStarts m k (s.1 + be16 m (s.1 + 2)) (s.1 + 4) → TemplateFits m length t k
    | .data =>
      ∀ L, s.2 (sid, be16 m s.1) = some L →
        ∀ j, L.more (recordX m s.1) (recordAt m L s.1 j) = true →
          RecordFits m hands length L (recordAt m L s.1 j)
    | .other => True

end Layout

/-- The message lies inside its `length` bytes, as far as it is looked at. -/
def Fits (m : Mem) (hands : Kind → Bool) (length : Nat) (T : Table) : Prop :=
  2 ≤ length ∧
  (be16 m 0 = 0x000a → 4 ≤ length ∧ (be16 m 2 = length →
    ∀ k, (setAt m ipfixKind (be32 m 12) 16 T k).1 < length →
      (∀ j, j < k → ¬ SetStalls m ipfixKind (be32 m 12) (setAt m ipfixKind (be32 m 12) 16 T j)) →
      SetFits m hands length ipfixKind (be32 m 12) (setAt m ipfixKind (be32 m 12) 16 T k))) ∧
  (be16 m 0 = 0x0009 → 4 ≤ length ∧ ∀ k, k < be16 m 2 →
    (∀ j, j < k → ¬ SetStalls m netflowV9Kind (be32 m 16)
      (setAt m netflowV9Kind (be32 m 16) 20 T j)) →
    SetFits m hands length netflowV9Kind (be32 m 16) (setAt m netflowV9Kind (be32 m 16) 20 T k))

/-! ## Records -/

section Records

variable {E : Env} {sid length set : Nat} {bt : BufferedTemplate}

theorem fired_ne_nil {P : IpfixParser} {info : Info} {n a : Nat} :
    P.fired sid (info.recordCall n a) ≠ [] ↔ P.hands info.kind = true := by
  have htakes : ∀ ci : CallbackInfo, ci.has (info.recordCall n a) = ci.takes info.kind := by
    intro ci; cases info <;> rfl
  unfold IpfixParser.hands
  rw [List.any_eq_true]
  refine ⟨?_, ?_⟩
  · intro h
    obtain ⟨f, hf⟩ := List.exists_mem_of_ne_nil _ h
    obtain ⟨ci, h1, h2, -⟩ := IpfixParser.mem_fired.mp hf
    exact ⟨ci, List.mem_of_getElem? h1, htakes ci ▸ h2⟩
  · intro ⟨ci, hm, ht⟩
    obtain ⟨i, hi⟩ := List.getElem?_of_mem hm
    refine List.ne_nil_of_mem (a := ⟨i, ci.handle, sid, info.recordCall n a⟩)
      (IpfixParser.mem_fired.mpr ⟨ci, hi, htakes ci ▸ ht, rfl⟩)

theorem prefixesInside_iff {m : Mem} {k : Kind} {prefixed : FieldInfo → Bool} {record rl : Nat}
    {fis : List FieldInfo} : PrefixesInside m k prefixed record length fis rl ↔
      prefixesFit m length k (record + rl) (fis.map (partOf prefixed)) := by
  induction fis generalizing rl with
  | nil => exact Iff.rfl
  | cons fi fis ih =>
    have hpart : record + (valueStart m prefixed record fi rl +
        valueLength m k prefixed record fi rl) =
        record + rl + partSize m k (record + rl) (partOf prefixed fi) := by
      unfold valueStart valueLength partOf prefixSize prefixLength
      cases prefixed fi
      · simp [partSize, Nat.add_assoc]
      · simp only [if_true, partSize]; split <;> omega
    rw [PrefixesInside, List.map_cons, prefixesFit, ih, hpart]
    refine and_congr_left fun _ => ?_
    unfold partOf
    cases prefixed fi <;> simp

theorem prefixesFit_append {m : Mem} {k : Kind} {a : Nat} {ps qs : List (Option Nat)} :
    prefixesFit m length k a (ps ++ qs) ↔
      prefixesFit m length k a ps ∧ prefixesFit m length k (a + partsSize m k a ps) qs := by
  induction ps generalizing a with
  | nil => simp [prefixesFit, partsSize]
  | cons p ps ih =>
    rw [List.cons_append, prefixesFit, prefixesFit, ih, partsSize, and_assoc, Nat.add_assoc]

theorem info_prefixesInside_iff {m : Mem} {info : Info} {a : Nat} :
    info.PrefixesInside m length a ↔ prefixesFit m length info.kind a (info.parts 65535) := by
  cases info with
  | templateInfo ti => exact prefixesInside_iff
  | dataTemplateInfo ti => exact prefixesInside_iff
  | optionsTemplateInfo ti =>
    simp only [Info.PrefixesInside, prefixesInside_iff, Info.parts, Info.kind, Info.part_eq_partOf,
      Info.scopePart_eq_partOf, prefixesFit_append, located_size, Nat.zero_add, Nat.add_zero]

theorem partsSize_fixed {m : Mem} {k : Kind} {a : Nat} {fis : List FieldInfo} :
    partsSize m k a (fis.map (some ·.type.length)) = (fis.map (·.type.length)).sum := by
  induction fis generalizing a with
  | nil => rfl
  | cons fi fis ih => rw [List.map_cons, partsSize, ih, List.map_cons, List.sum_cons]; rfl

theorem prefixesFit_fixed {m : Mem} {k : Kind} {a : Nat} {fis : List FieldInfo} :
    prefixesFit m length k a (fis.map (some ·.type.length)) := by
  induction fis generalizing a with
  | nil => trivial
  | cons fi fis ih => exact ⟨fun h => (nomatch h), ih⟩

/-- A record is read and handed out inside exactly when it fits. -/
theorem recordInside_iff (hlen : length < 65536) (hb : bt.Sound) {j : Nat}
    (ha : E.parser.hands bt.info.kind = true → recordAt E.mem bt.layout set j ≤ length) :
    RecordInside E sid bt set length j ↔
      RecordFits E.mem E.parser.hands length bt.layout (recordAt E.mem bt.layout set j) := by
  have hfired : E.parser.fired sid (callAt bt set E.mem j) ≠ [] ↔
      E.parser.hands bt.info.kind = true := by
    rw [callAt, fired_ne_nil, kind_recordInfo]
  unfold RecordInside RecordFits
  rw [hfired]
  by_cases hrl : bt.recordLength < 65535
  · have hsize : bt.layout.size E.mem (recordAt E.mem bt.layout set j) =
        (bt.info.fields.map (·.type.length)).sum := by
      simp only [size, BufferedTemplate.layout, hb.fixed hrl, partsSize_fixed]
    have hcall : callAt bt set E.mem j =
        bt.info.recordCall bt.recordLength (recordAt E.mem bt.layout set j) := by
      rw [callAt, recordInfo, if_pos hrl, recordLengthAt, if_pos hrl]
    by_cases hh : E.parser.hands bt.info.kind = true
    · have hp :=
        placed_inside hlen (hb.placed hrl) (Nat.le_trans (Nat.le_of_eq (Nat.add_zero _)) (ha hh))
      have hs := hb.sum hrl
      rw [if_pos (show E.parser.hands bt.layout.kind = true from hh), hcall, call_inside, hp,
        within_iff, hsize]
      refine ⟨?_, ?_⟩
      · exact fun h => (h.2 hh).2
      · exact fun h => ⟨fun _ => by omega, fun _ => ⟨by omega, h⟩⟩
    · rw [if_neg (show ¬ E.parser.hands bt.layout.kind = true from hh)]
      refine ⟨fun _ => ?_, fun _ => ⟨fun _ => by omega, fun h => absurd h hh⟩⟩
      simp only [BufferedTemplate.layout, hb.fixed hrl]
      exact prefixesFit_fixed
  · have hrl' : bt.recordLength = 65535 := by have := hb.recordLength_le; omega
    have hsize := @size_recordInfo bt set hrl' E.mem j (recordAt E.mem bt.layout set j)
    have hcall : callAt bt set E.mem j =
        ((recordInfo bt set E.mem j).locate E.mem (recordAt E.mem bt.layout set j)).1.recordCall
          (bt.layout.size E.mem (recordAt E.mem bt.layout set j) % 65536)
          (recordAt E.mem bt.layout set j) := by
      rw [callAt, recordInfo, if_neg hrl, recordLengthAt, if_neg hrl, hsize]
    by_cases hh : E.parser.hands bt.info.kind = true
    · have hp := @Info.locate_inside E.mem length hlen (recordInfo bt set E.mem j) _ (ha hh)
      rw [hsize] at hp
      rw [if_pos (show E.parser.hands bt.layout.kind = true from hh), hcall, call_inside, ← hp,
        within_iff]
      refine ⟨?_, ?_⟩
      · exact fun h => ⟨h.1 (by omega), (h.2 hh).2⟩
      · intro h
        have := hp.mp h
        exact ⟨fun _ => h.1, fun _ => ⟨.inr (by omega), h.2⟩⟩
    · rw [if_neg (show ¬ E.parser.hands bt.layout.kind = true from hh), info_prefixesInside_iff,
        kind_recordInfo, parts_recordInfo hrl']
      simp only [BufferedTemplate.layout, hrl']
      exact ⟨fun h => h.1 (Nat.le_refl _), fun h => ⟨fun _ => h, fun h => absurd h hh⟩⟩

/-- The records of a data set are processed inside exactly when they fit. -/
theorem records_inside_iff (hlen : length < 65536) (hb : bt.Sound)
    (h : set + 4 ≤ length) {X : Nat} :
    (∀ j, bt.layout.more X (recordAt E.mem bt.layout set j) = true →
      RecordInside E sid bt set length j) ↔
    (∀ j, bt.layout.more X (recordAt E.mem bt.layout set j) = true →
      RecordFits E.mem E.parser.hands length bt.layout (recordAt E.mem bt.layout set j)) := by
  -- a record that is handed out starts where the one before it ends
  have hnext : ∀ j, E.parser.hands bt.info.kind = true →
      RecordFits E.mem E.parser.hands length bt.layout (recordAt E.mem bt.layout set j) →
      recordAt E.mem bt.layout set (j + 1) ≤ length := by
    intro j hh hfit
    rw [RecordFits, if_pos (show E.parser.hands bt.layout.kind = true from hh)] at hfit
    rw [recordAt, next]
    split
    · rename_i hrl
      have hs := hb.sum hrl
      have hsize : bt.layout.size E.mem (recordAt E.mem bt.layout set j) =
          (bt.info.fields.map (·.type.length)).sum := by
        simp only [size, BufferedTemplate.layout, hb.fixed hrl, partsSize_fixed]
      have : bt.layout.recordLength = bt.recordLength := rfl
      omega
    · exact hfit
  refine ⟨?_, ?_⟩
  · intro hin j
    have key : ∀ j, bt.layout.more X (recordAt E.mem bt.layout set j) = true →
        (E.parser.hands bt.info.kind = true → recordAt E.mem bt.layout set j ≤ length) := by
      intro j
      induction j with
      | zero => exact fun _ _ => h
      | succ j ih =>
        intro hm hh
        have hm' := more_mono (recordAt_mono (Nat.le_succ j)) hm
        exact hnext j hh ((recordInside_iff hlen hb (ih hm')).mp (hin j hm'))
    exact fun hm => (recordInside_iff hlen hb (key j hm)).mp (hin j hm)
  · intro hfit j hm
    refine (recordInside_iff hlen hb fun hh => ?_).mpr (hfit j hm)
    cases j with
    | zero => exact h
    | succ j => exact hnext j hh (hfit j (more_mono (recordAt_mono (Nat.le_succ j)) hm))

end Records

/-! ## Sets and messages -/

section Messages

variable {E : Env} {sid length start : Nat} {kindOf : Nat → SetKind} {tb : TemplateBuffer}
  {step : Nat → TemplateBuffer → Proc Event (Nat × TemplateBuffer)}

theorem setInside_iff (hlen : length < 65536) (h : tb.Sound) {set : Nat} :
    (set + 4 ≤ length ∧ SetInside E sid length set tb (kindOf (be16 E.mem set))) ↔
      SetFits E.mem E.parser.hands length kindOf sid (set, tb.table) := by
  unfold SetFits
  refine and_congr_right fun hset => ?_
  simp only
  cases kindOf (be16 E.mem set) with
  | templates k => exact Iff.rfl
  | other => exact Iff.rfl
  | data =>
    simp only [SetInside, TemplateBuffer.table]
    cases hf : tb.find (sid, be16 E.mem set) with
    | none => simp
    | some bt =>
      simp only [Option.some.injEq, forall_eq', Option.map_some]
      exact records_inside_iff hlen (h.entry bt (TemplateBuffer.find_mem hf)) hset

theorem always_step (W : WalkSpec E sid length start kindOf step) (hlen : length < 65536)
    {set : Nat} (hs : start ≤ set) (h : tb.Sound) :
    (step set tb).Always (Event.Inside length) ↔
      SetFits E.mem E.parser.hands length kindOf sid (set, tb.table) :=
  (W.always set tb hs h).trans (setInside_iff hlen h)

theorem always_walk_step {set : Nat} (h : set < length) {P : Event → Prop} :
    (walk step length (set, tb)).Always P ↔
      (step set tb).Always P ∧
        ∀ l s, (step set tb).Returns l s → (walk step length s).Always P :=
  always_loop_step (c := fun s : Nat × TemplateBuffer => decide (s.1 < length)) (decide_eq_true h)

/-- The IPFIX walk stays inside exactly when every set it reaches does. -/
theorem always_walk (W : WalkSpec E sid length start kindOf step)
    (hlen : length < 65536) {set : Nat} (hs : start ≤ set) (h : tb.Sound) :
    (walk step length (set, tb)).Always (Event.Inside length) ↔
      ∀ k, (setAt E.mem kindOf sid set tb.table k).1 < length →
        (∀ j, j < k → ¬ SetStalls E.mem kindOf sid (setAt E.mem kindOf sid set tb.table j)) →
        SetFits E.mem E.parser.hands length kindOf sid (setAt E.mem kindOf sid set tb.table k) := by
  refine ⟨?_, ?_⟩
  · intro ha k
    induction k generalizing set tb with
    | zero =>
      intro hlt _
      exact (always_step W hlen hs h).mp ((always_walk_step hlt).mp ha).1
    | succ k ih =>
      intro hlt hst
      have hset : set < length := Nat.lt_of_le_of_lt (le_setAt _ _ _) hlt
      obtain ⟨l, s', hr⟩ := (W.halts set tb hs h).mpr (hst 0 (Nat.zero_lt_succ k))
      obtain ⟨h1, h2, h3⟩ := W.returns set tb l s' hs h hr
      have hat : ∀ j, setAt E.mem kindOf sid set tb.table (j + 1) =
          setAt E.mem kindOf sid s'.1 s'.2.table j := fun j => by rw [setAt_succ, ← h1, ← h3]
      rw [hat] at hlt ⊢
      refine ih (by omega) h2 (((always_walk_step hset).mp ha).2 l s' hr) hlt fun j hj => ?_
      rw [← hat]; exact hst (j + 1) (by omega)
  · intro hk
    refine always_loop (fun s => start ≤ s.1 ∧ s.2.Sound ∧
      ∃ k, setAt E.mem kindOf sid set tb.table k = (s.1, s.2.table) ∧
        ∀ j, j < k → ¬ SetStalls E.mem kindOf sid (setAt E.mem kindOf sid set tb.table j)) ?_
      ⟨hs, h, 0, rfl, fun j hj => absurd hj (Nat.not_lt_zero j)⟩
    intro ⟨x, tb'⟩ ⟨hx, h', k, hat, hst⟩ hc
    have hlt : x < length := of_decide_eq_true hc
    have hfit := hk k (by rw [hat]; exact hlt) hst
    rw [hat] at hfit
    refine ⟨(always_step W hlen hx h').mpr hfit, fun l s' hr => ?_⟩
    obtain ⟨h1, h2, h3⟩ := W.returns x tb' l s' hx h' hr
    refine ⟨by omega, h2, k + 1, by rw [setAt, hat, h1, h3], fun j hj => ?_⟩
    rcases Nat.lt_succ_iff_lt_or_eq.mp hj with hj | rfl
    · exact hst j hj
    · rw [hat]; exact (W.halts x tb' hx h').mp hr.halts

/-- The NetFlow v9 walk stays inside exactly when every set it reaches does. -/
theorem always_forSets (hlen : length < 65536) {n set : Nat} (hs : 20 ≤ set) (h : tb.Sound) :
    (Rcv.forSets E n set tb).Always (Event.Inside length) ↔
      ∀ k, k < n →
        (∀ j, j < k → ¬ SetStalls E.mem netflowV9Kind (be32 E.mem 16)
          (setAt E.mem netflowV9Kind (be32 E.mem 16) set tb.table j)) →
        SetFits E.mem E.parser.hands length netflowV9Kind (be32 E.mem 16)
          (setAt E.mem netflowV9Kind (be32 E.mem 16) set tb.table k) := by
  have W := @netflowV9Step E length
  induction n generalizing set tb with
  | zero => exact ⟨fun _ k hk => absurd hk (Nat.not_lt_zero k), fun _ => always_pure⟩
  | succ n ih =>
    have hrest : ∀ l s', (Rcv.netflowV9SetStep E set tb).Returns l s' →
        ((Rcv.forSets E n s'.1 s'.2).Always (Event.Inside length) ↔ ∀ k, k < n →
          (∀ j, j < k → ¬ SetStalls E.mem netflowV9Kind (be32 E.mem 16)
            (setAt E.mem netflowV9Kind (be32 E.mem 16) set tb.table (j + 1))) →
          SetFits E.mem E.parser.hands length netflowV9Kind (be32 E.mem 16)
            (setAt E.mem netflowV9Kind (be32 E.mem 16) set tb.table (k + 1))) := by
      intro l s' hr
      obtain ⟨h1, h2, h3⟩ := W.returns set tb l s' hs h hr
      have hs' : 20 ≤ s'.1 := by omega
      refine (ih hs' h2).trans ?_
      simp only [setAt_succ, h1, h3]
    rw [Rcv.forSets, always_bind, always_step W hlen hs h]
    refine ⟨?_, ?_⟩
    · rintro ⟨h1, h2⟩ (_ | k) hk hst
      · exact h1
      · obtain ⟨l, s', hr⟩ := (W.halts set tb hs h).mpr (hst 0 (Nat.zero_lt_succ k))
        exact (hrest l s' hr).mp (h2 l s' hr) k (by omega) fun j hj => hst (j + 1) (by omega)
    · intro hk
      refine ⟨hk 0 (by omega) fun j hj => absurd hj (Nat.not_lt_zero j), fun l s' hr => ?_⟩
      refine (hrest l s' hr).mpr fun k hk' hst => hk (k + 1) (by omega) ?_
      rintro (_ | j) hj
      · exact (W.halts set tb hs h).mp hr.halts
      · exact hst j (by omega)

theorem always_processIpfixPacket :
    (Rcv.processIpfixPacket E length tb).Always (Event.Inside length) ↔
      4 ≤ length ∧ (be16 E.mem 2 = length →
        (walk (Rcv.ipfixSetStep E) length (16, tb)).Always (Event.Inside length)) := by
  refine runs_ntohs.always_bind_iff.trans (and_congr Iff.rfl ?_)
  by_cases hl : be16 E.mem 2 = length
  · rw [if_neg (not_not_intro hl), always_bind]
    exact ⟨fun h _ => h.1, fun h => ⟨h hl, fun _ _ _ => always_pure⟩⟩
  · rw [if_pos hl]
    exact ⟨fun _ he => absurd he hl, fun _ => always_pure⟩

theorem always_processNetflowV9Packet :
    (Rcv.processNetflowV9Packet E length tb).Always (Event.Inside length) ↔
      4 ≤ length ∧ (Rcv.forSets E (be16 E.mem 2) 20 tb).Always (Event.Inside length) := by
  refine runs_ntohs.always_bind_iff.trans (and_congr Iff.rfl ?_)
  rw [always_bind]
  exact ⟨fun h => h.1, fun h => ⟨h, fun _ _ _ => always_pure⟩⟩

theorem always_processMessage :
    (Rcv.processMessage E length tb).Always (Event.Inside length) ↔
      2 ≤ length ∧
      (be16 E.mem 0 = 0x000a →
        (Rcv.processIpfixPacket E length tb).Always (Event.Inside length)) ∧
      (be16 E.mem 0 = 0x0009 →
        (Rcv.processNetflowV9Packet E length tb).Always (Event.Inside length)) := by
  refine runs_ntohs.always_bind_iff.trans (and_congr Iff.rfl ?_)
  exact version_iff (Q := (·.Always (Event.Inside length))) always_pure

/-- In every reachable state, the parser reads and hands out only bytes of the
message exactly when the message fits into its length. -/
theorem processMessage_inside_iff (hlen : length < 65536) (h : processes.Reachable tb) :
    (Rcv.processMessage E length tb).Always (Event.Inside length) ↔
      Fits E.mem E.parser.hands length tb.table := by
  have hs := sound_reachable h
  rw [always_processMessage, always_processIpfixPacket, always_processNetflowV9Packet,
    always_walk ipfixStep hlen (Nat.le_refl 16) hs, always_forSets hlen (Nat.le_refl 20) hs]
  rfl

end Messages

/-- Where records of fixed length are taken. -/
theorem recordAt_fixed {m : Mem} {L : Layout} {set j : Nat} (h : L.recordLength < 65535) :
    recordAt m L set j = set + 4 + j * L.recordLength := by
  induction j with
  | zero => rw [recordAt]; omega
  | succ j ih => rw [recordAt, ih, next, if_pos h, Nat.succ_mul, Nat.add_assoc]

/-- It reads and hands out only bytes of `recordsMessage`. -/
theorem processMessage_inside_records : ∃ tb, processes.Reachable tb ∧ tb ≠ [] ∧
    (Rcv.processMessage (envOf recordsMessage) 53 tb).Always (Event.Inside 53) := by
  obtain ⟨tb, hreach, hknown⟩ := reachable_templateMessage
  refine ⟨tb, hreach, ?_, (processMessage_inside_iff (by decide) hreach).mpr
    ⟨by decide, fun _ => ⟨by decide, fun _ k hk _ => ?_⟩, ?_⟩⟩
  · rintro rfl
    cases hknown
  · rw [show be32 (envOf recordsMessage).mem 12 = 1 by decide] at hk ⊢
    generalize hs : setAt (envOf recordsMessage).mem ipfixKind 1 16 tb.table k = s at hk ⊢
    unfold SetFits
    rcases setAt_recordsMessage hknown hs hk with h1 | ⟨h1, hL⟩ | ⟨h1, hL⟩
    · rw [h1, show ipfixKind (be16 (envOf recordsMessage).mem 16) = .templates .template by decide,
        show 16 + be16 (envOf recordsMessage).mem (16 + 2) = 32 by decide]
      refine ⟨by decide, fun t ht => ?_⟩
      rw [templateStarts, if_pos (by decide), templateStarts, if_neg (by decide),
        List.mem_singleton] at ht
      rw [ht, TemplateFits, if_neg (by decide)]
      exact ⟨by decide, fun h => absurd h (by decide)⟩
    · rw [h1, show ipfixKind (be16 (envOf recordsMessage).mem 32) = .data by decide,
        show be16 (envOf recordsMessage).mem 32 = 256 by decide, hL]
      refine ⟨by decide, fun L hsome j hmore => ?_⟩
      cases hsome
      rw [recordAt_fixed (by decide)] at hmore ⊢
      have hj : j < 2 := by
        have : recordX (envOf recordsMessage).mem 32 = 44 := by decide
        simp [more, this] at hmore
        omega
      rw [RecordFits, if_pos (by decide)]
      simp [size, partsSize, partSize]
      omega
    · rw [h1, show ipfixKind (be16 (envOf recordsMessage).mem 44) = .data by decide,
        show be16 (envOf recordsMessage).mem 44 = 257 by decide, hL]
      refine ⟨by decide, fun L hsome j hmore => ?_⟩
      cases hsome
      cases j with
      | zero =>
        rw [RecordFits, if_pos (by decide)]
        decide
      | succ j =>
        have hfirst : recordAt (envOf recordsMessage).mem ⟨.template, 65535, [some 2, none]⟩ 44 1 =
          53 := by decide
        have hle := @recordAt_mono 44 (envOf recordsMessage).mem ⟨.template, 65535, [some 2, none]⟩
          1 (j + 1) (by omega)
        have hend : recordX (envOf recordsMessage).mem 44 = 53 := by decide
        simp only [more, hend] at hmore
        rw [if_neg (by decide)] at hmore
        simp only [decide_eq_true_eq] at hmore
        omega
  · exact fun h => absurd h (by decide)

/-- An IPFIX message of 24 bytes whose template announces one field, but ends
with the template header. -/
def fieldMissing : List UInt8 :=
  [0, 10, 0, 24, 0, 0, 0, 0, 0, 0, 0, 0, 0, 0, 0, 0, 0, 2, 0, 8, 1, 0, 0, 1]

/-- **Counterexample**: the field specifier is read behind the message. -/
theorem processMessage_reads_fieldMissing :
    ¬ ∀ (E : Env) (length : Nat) (tb : TemplateBuffer), length < 65536 → processes.Reachable tb →
      (Rcv.processMessage E length tb).Always (Event.Inside length) := by
  intro hall
  have h := hall (envOf fieldMissing) 24 [] (by decide) (.init rfl)
  rw [always_processMessage, always_processIpfixPacket] at h
  have hset := (always_walk ipfixStep (by decide) (Nat.le_refl 16) sound_nil).mp
    ((h.2.1 (by decide)).2 (by decide)) 0 (by decide) (fun j hj => absurd hj (Nat.not_lt_zero j))
  have hfit : TemplateFits (envOf fieldMissing).mem 24 20 .template := by
    refine hset.2 20 ?_
    rw [templateStarts, if_pos (by decide)]
    exact List.mem_cons_self
  rw [TemplateFits, if_neg (by decide)] at hfit
  exact absurd hfit.1 (by decide)

end Topas
