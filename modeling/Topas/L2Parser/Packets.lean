import Topas.Core.LTS
import Topas.L2Parser.DataSets

/-!
# The walk over the sets of a message

Whether one set is processed to its end, what it leaves in the template buffer,
and when it stays inside the message (`WalkSpec`), first for the three kinds of
sets (`setBody`), then for the loop bodies of the IPFIX and the NetFlow v9
packet. `ipfixStep` and `netflowV9Step` are used by the walks over whole
messages.

`processes` is the parser as a transition system: its states are the template
buffers, a step is one message that is processed to its end. `sound_reachable`
is the invariant of its reachable buffers.
-/
namespace Topas

open Mem Proc Layout

/-! ## Data sets -/

section DataSet

variable {E : Env} {length sid set : Nat} {tb : TemplateBuffer} {bt : BufferedTemplate}

theorem runs_getBufferedTemplate {P : IpfixParser} {now : Int} {tid : Nat} (h : tb.Sound) :
    Runs length (getBufferedTemplate P now tb sid tid) True [] (tb, tb.find (sid, tid)) := by
  rw [getBufferedTemplate_eq fun bt hf => (h.entry bt (TemplateBuffer.find_mem hf)).expires]
  exact does_pure

theorem runs_unknown (h : tb.Sound) (hf : tb.find (sid, be16 E.mem set) = none) :
    Runs length (Rcv.processDataSet E sid set tb) (set + 2 ≤ length) [] tb := by
  apply Does.congr
  · apply Does.then runs_ntohs
    apply Does.then (runs_getBufferedTemplate h)
    rw [hf]
    exact does_pure
  · simp only [and_true]

/-- The end of the data of the set at `set`. -/
def recordX (m : Mem) (set : Nat) : Nat := set + 4 + Rcv.dataLength (be16 m (set + 2))

theorem runs_known (h : tb.Sound) (hf : tb.find (sid, be16 E.mem set) = some bt) {n : Nat}
    (hmore : ∀ j, j < n →
      bt.layout.more (recordX E.mem set) (recordAt E.mem bt.layout set j) = true)
    (hn : bt.layout.more (recordX E.mem set) (recordAt E.mem bt.layout set n) = false) :
    Runs length (Rcv.processDataSet E sid set tb)
      (set + 4 ≤ length ∧ ∀ j, j < n → RecordInside E sid bt set length j)
      ((List.range n).flatMap fun j => E.parser.calls sid (callAt bt set E.mem j))
      (afterRecords E bt set tb n) := by
  apply Does.congr
  · apply Does.then runs_ntohs
    apply Does.then (runs_getBufferedTemplate h)
    rw [hf]
    apply Does.then runs_ntohs
    exact runs_processRecords (h.entry bt (TemplateBuffer.find_mem hf)) hmore hn
  · refine ⟨?_, ?_⟩
    · intro ⟨_, _, h1, h2⟩; exact ⟨by omega, h2⟩
    · intro ⟨h1, h2⟩; exact ⟨by omega, trivial, by omega, h2⟩

theorem stalls_known (h : tb.Sound) (hf : tb.find (sid, be16 E.mem set) = some bt)
    (hst : bt.layout.Stalls (be16 E.mem (set + 2))) :
    ¬ (Rcv.processDataSet E sid set tb).Halts ∧
      ((Rcv.processDataSet E sid set tb).Always (Event.Inside length) ↔
        set + 4 ≤ length ∧ ∀ j, RecordInside E sid bt set length j) := by
  have hb := h.entry bt (TemplateBuffer.find_mem hf)
  have hrl : bt.recordLength < 65535 := by
    have : bt.layout.recordLength = bt.recordLength := rfl
    have := hst.1; omega
  obtain ⟨h1, h2⟩ :=
    @diverges_processRecords E sid bt set length tb _ hb hrl (stalls_more E.mem hst)
  unfold Rcv.processDataSet
  have hget := fun P now => @runs_getBufferedTemplate length sid tb P now (be16 E.mem set) h
  rw [runs_ntohs.halts_bind_iff (P := Event.Inside length), (hget _ _).halts_bind_iff,
    runs_ntohs.always_bind_iff, (hget _ _).always_bind_iff, hf]
  simp only
  rw [runs_ntohs.halts_bind_iff (P := Event.Inside length), runs_ntohs.always_bind_iff, h2]
  refine ⟨h1, ?_⟩
  refine ⟨?_, ?_⟩
  · intro ⟨_, _, h3, h4⟩; exact ⟨by omega, h4⟩
  · intro ⟨h3, h4⟩; exact ⟨by omega, trivial, by omega, h4⟩

end DataSet

/-! ## One set -/

section SetBody

variable (E : Env)

/-- What the packet loops do with a set of each kind. -/
def setBody (sid set : Nat) (tb : TemplateBuffer) : SetKind → Proc Event TemplateBuffer
  | .templates k => Rcv.forTemplates E (Rcv.stepOf E k sid set) set tb
  | .data => Rcv.processDataSet E sid set tb
  | .other => pure tb

/-- The set, apart from its header, is processed inside `[0, length)`. -/
def SetInside (sid length set : Nat) (tb : TemplateBuffer) : SetKind → Prop
  | .templates k =>
    ∀ t, t ∈ templateStarts E.mem k (set + be16 E.mem (set + 2)) (set + 4) →
      TemplateFits E.mem length t k
  | .data =>
    ∀ bt, tb.find (sid, be16 E.mem set) = some bt →
      ∀ j, bt.layout.more (recordX E.mem set) (recordAt E.mem bt.layout set j) = true →
        RecordInside E sid bt set length j
  | .other => True

/-- What one round of a packet loop does, for the sets from address `start` on. -/
structure WalkSpec (sid length start : Nat) (kindOf : Nat → SetKind)
    (step : Nat → TemplateBuffer → Proc Event (Nat × TemplateBuffer)) : Prop where
  halts : ∀ set tb, start ≤ set → tb.Sound →
    ((step set tb).Halts ↔ ¬ SetStalls E.mem kindOf sid (set, tb.table))
  returns : ∀ set tb l s, start ≤ set → tb.Sound → (step set tb).Returns l s →
    s.1 = set + be16 E.mem (set + 2) ∧ s.2.Sound ∧
      s.2.table = afterSet E.mem kindOf sid set tb.table
  always : ∀ set tb, start ≤ set → tb.Sound →
    ((step set tb).Always (Event.Inside length) ↔
      set + 4 ≤ length ∧ SetInside E sid length set tb (kindOf (be16 E.mem set)))

variable {E} {sid length set : Nat} {tb : TemplateBuffer} {kindOf : Nat → SetKind}

/-- More records are taken only up to the first address where none is. -/
theorem more_mono {L : Layout} {X a a' : Nat} (h : a ≤ a') (hm : L.more X a' = true) :
    L.more X a = true := by
  unfold more at hm ⊢
  split at hm
  · split at hm
    · rename_i h1
      rw [if_pos h1]
      simp only [decide_eq_true_eq] at hm ⊢; omega
    · rename_i h1
      rw [if_neg h1]
      simp only [decide_eq_true_eq] at hm ⊢; omega
  · simp only [decide_eq_true_eq] at hm ⊢; omega

theorem recordAt_mono {m : Mem} {L : Layout} {i j : Nat} (h : i ≤ j) :
    recordAt m L set i ≤ recordAt m L set j := by
  induction h with
  | refl => exact Nat.le_refl _
  | step _ ih => exact Nat.le_trans ih (Nat.le_add_right _ _)

/-- The first `n` records are those that are taken. -/
theorem lt_records_iff {m : Mem} {L : Layout} {X n j : Nat}
    (hmore : ∀ j, j < n → L.more X (recordAt m L set j) = true)
    (hn : L.more X (recordAt m L set n) = false) :
    j < n ↔ L.more X (recordAt m L set j) = true := by
  refine ⟨hmore j, fun h => Classical.byContradiction fun hlt => ?_⟩
  rw [more_mono (recordAt_mono (Nat.le_of_not_lt hlt)) h] at hn
  cases hn

/-- A set that is processed to its end: where it stays inside and what it leaves. -/
theorem runs_setBody (h : tb.Sound) (ht : ∀ k, kindOf (be16 E.mem set) = .templates k →
      TagFor k (be16 E.mem set))
    (hst : ¬ SetStalls E.mem kindOf sid (set, tb.table)) :
    ∃ Q es tb', Runs length (setBody E sid set tb (kindOf (be16 E.mem set))) Q es tb' ∧
      tb'.Sound ∧ tb'.table = afterSet E.mem kindOf sid set tb.table ∧
      ((set + 4 ≤ length ∧ Q) ↔
        set + 4 ≤ length ∧ SetInside E sid length set tb (kindOf (be16 E.mem set))) := by
  unfold afterSet
  cases hk : kindOf (be16 E.mem set) with
  | other => exact ⟨_, _, _, does_pure, h, rfl, Iff.rfl⟩
  | templates k =>
    obtain ⟨h1, h2⟩ := @afterTemplates_spec E tb k sid set h (ht k hk)
      (templateStarts E.mem k (set + be16 E.mem (set + 2)) (set + 4))
    refine ⟨_, _, _, runs_forTemplates, h1, h2, ?_⟩
    simp only [SetInside, ← and_assoc, and_self]
  | data =>
    cases hf : tb.find (sid, be16 E.mem set) with
    | none =>
      refine ⟨_, _, _, runs_unknown h hf, h, rfl, ?_⟩
      simp only [SetInside, hf, reduceCtorEq, false_imp_iff, implies_true, and_true]
      omega
    | some bt =>
      have hb := h.entry bt (TemplateBuffer.find_mem hf)
      have hno : ¬ bt.layout.Stalls (be16 E.mem (set + 2)) := by
        refine fun hs => hst ⟨hk, bt.layout, ?_, hs⟩
        simp only [TemplateBuffer.table, hf, Option.map_some]
      obtain ⟨n, hmore, hn⟩ := @exists_records bt set E.mem hb _ hno
      obtain ⟨h1, h2⟩ := @afterRecords_spec E bt set tb h (TemplateBuffer.find_key hf ▸ hf) n
      refine ⟨_, _, _, runs_known h hf hmore hn, h1, h2, ?_⟩
      simp only [SetInside, hf, Option.some.injEq, forall_eq', ← and_assoc, and_self]
      refine and_congr_right fun _ => forall_congr' fun j => ?_
      rw [lt_records_iff hmore hn]; exact Iff.rfl

/-- A set that stalls. -/
theorem stalls_setBody (h : tb.Sound) (hst : SetStalls E.mem kindOf sid (set, tb.table)) :
    ¬ (setBody E sid set tb (kindOf (be16 E.mem set))).Halts ∧
      ((setBody E sid set tb (kindOf (be16 E.mem set))).Always (Event.Inside length) ↔
        set + 4 ≤ length ∧ SetInside E sid length set tb (kindOf (be16 E.mem set))) := by
  obtain ⟨hk, L, hL, hs⟩ := hst
  simp only at hk hL hs
  rw [hk]
  cases hf : tb.find (sid, be16 E.mem set) with
  | none => simp [TemplateBuffer.table, hf] at hL
  | some bt =>
    simp only [TemplateBuffer.table, hf, Option.map_some, Option.some.injEq] at hL
    subst hL
    obtain ⟨h1, h2⟩ := @stalls_known E length sid set tb bt h hf hs
    refine ⟨h1, h2.trans ?_⟩
    simp only [SetInside, hf, Option.some.injEq, forall_eq']
    refine and_congr_right fun _ => forall_congr' fun j => ?_
    exact ⟨fun h _ => h, fun h => h (stalls_more E.mem hs j)⟩

/-- A loop body that reads the id, processes the set and goes on behind it. -/
def roundOf (E : Env) (body : Nat → Nat → TemplateBuffer → Proc Event TemplateBuffer) (set : Nat)
    (tb : TemplateBuffer) : Proc Event (Nat × TemplateBuffer) := do
  let id ← Rcv.ntohs E set
  let tb ← body set id tb
  let length ← Rcv.ntohs E (set + 2)
  pure (set + length, tb)

section Round

variable {body : Nat → Nat → TemplateBuffer → Proc Event TemplateBuffer} {start : Nat}

theorem runs_roundOf {Q : Prop} {es : List Event} {tb' : TemplateBuffer}
    (hr : Runs length (body set (be16 E.mem set) tb) Q es tb')
    (hiff : (set + 4 ≤ length ∧ Q) ↔
      set + 4 ≤ length ∧ SetInside E sid length set tb (kindOf (be16 E.mem set))) :
    Runs length (roundOf E body set tb)
      (set + 4 ≤ length ∧ SetInside E sid length set tb (kindOf (be16 E.mem set))) es
      (set + be16 E.mem (set + 2), tb') := by
  rw [← List.append_nil es, ← hiff]
  refine Does.congr (Does.then runs_ntohs (Does.bind hr (Does.last runs_ntohs rfl))) ?_
  refine ⟨?_, ?_⟩
  · intro ⟨_, h3, h4⟩; exact ⟨by omega, h3⟩
  · intro ⟨h3, h4⟩; exact ⟨by omega, h4, by omega⟩

theorem stalls_roundOf (h : ¬ (body set (be16 E.mem set) tb).Halts)
    (ha : (body set (be16 E.mem set) tb).Always (Event.Inside length) ↔
      set + 4 ≤ length ∧ SetInside E sid length set tb (kindOf (be16 E.mem set))) :
    ¬ (roundOf E body set tb).Halts ∧ ((roundOf E body set tb).Always (Event.Inside length) ↔
      set + 4 ≤ length ∧ SetInside E sid length set tb (kindOf (be16 E.mem set))) := by
  unfold roundOf
  rw [runs_ntohs.halts_bind_iff (P := Event.Inside length), runs_ntohs.always_bind_iff,
    always_bind_of_not_halts h, ha]
  exact ⟨not_halts_bind h, And.right, fun h => ⟨by omega, h⟩⟩

/-- A set is processed to its end, keeps the invariant and stays inside, or it stalls. -/
theorem walkSpec_roundOf
    (hgo : ∀ set tb, start ≤ set → tb.Sound → ¬ SetStalls E.mem kindOf sid (set, tb.table) →
      ∃ Q es tb', Runs length (body set (be16 E.mem set) tb) Q es tb' ∧
        tb'.Sound ∧ tb'.table = afterSet E.mem kindOf sid set tb.table ∧
        ((set + 4 ≤ length ∧ Q) ↔
          set + 4 ≤ length ∧ SetInside E sid length set tb (kindOf (be16 E.mem set))))
    (hst : ∀ set tb, start ≤ set → tb.Sound → SetStalls E.mem kindOf sid (set, tb.table) →
      ¬ (body set (be16 E.mem set) tb).Halts ∧
        ((body set (be16 E.mem set) tb).Always (Event.Inside length) ↔
          set + 4 ≤ length ∧ SetInside E sid length set tb (kindOf (be16 E.mem set)))) :
    WalkSpec E sid length start kindOf (roundOf E body) := by
  have hstall : ∀ set (tb : TemplateBuffer), start ≤ set → tb.Sound →
      SetStalls E.mem kindOf sid (set, tb.table) → _ :=
    fun set tb hs h hstl => stalls_roundOf (hst set tb hs h hstl).1 (hst set tb hs h hstl).2
  refine ⟨fun set tb hs h => ?_, fun set tb l s hs h hr => ?_, fun set tb hs h => ?_⟩
  · refine ⟨?_, ?_⟩
    · exact fun hh hstl => (hstall set tb hs h hstl).1 hh
    · intro hno
      obtain ⟨Q, es, tb', hr, -, -, hiff⟩ := hgo set tb hs h hno
      exact (runs_roundOf hr hiff).halts
  · obtain ⟨Q, es, tb', hd, h1, h2, hiff⟩ := hgo set tb hs h
      (fun hstl => (hstall set tb hs h hstl).1 hr.halts)
    cases (runs_roundOf hd hiff).value hr
    exact ⟨rfl, h1, h2⟩
  · by_cases hstl : SetStalls E.mem kindOf sid (set, tb.table)
    · exact (hstall set tb hs h hstl).2
    · obtain ⟨Q, es, tb', hr, -, -, hiff⟩ := hgo set tb hs h hstl
      exact (runs_roundOf hr hiff).always_iff

end Round

theorem tagFor_ipfixKind {id : Nat} {k : Kind} (h : ipfixKind id = .templates k) : TagFor k id := by
  unfold ipfixKind at h
  split at h
  · cases h; assumption
  · split at h
    · cases h; exact .inl ‹_›
    · split at h
      · cases h; assumption
      · split at h <;> cases h

theorem tagFor_netflowV9Kind {id : Nat} {k : Kind} (h : netflowV9Kind id = .templates k) :
    TagFor k id := by
  unfold netflowV9Kind at h
  split at h
  · cases h; exact .inr ‹_›
  · split at h <;> cases h

theorem ipfixSet_eq {id : Nat} :
    Rcv.ipfixSet E set id tb = (do
      let sid ← Rcv.ntohl E 12
      setBody E sid set tb (ipfixKind id)) := by
  unfold Rcv.ipfixSet ipfixKind
  congr 1
  funext sid
  split
  · rfl
  · split
    · rfl
    · split
      · rfl
      · split <;> rfl

theorem netflowV9Set_eq {id : Nat} :
    Rcv.netflowV9Set E set id tb =
      if netflowV9Kind id = .other then pure tb
      else Rcv.ntohl E 16 >>= fun sid => setBody E sid set tb (netflowV9Kind id) := by
  unfold Rcv.netflowV9Set netflowV9Kind
  split
  · rfl
  · split
    · rfl
    · rfl

theorem ipfixStep : WalkSpec E (be32 E.mem 12) length 16 ipfixKind (Rcv.ipfixSetStep E) := by
  refine @walkSpec_roundOf E _ length _ (Rcv.ipfixSet E) 16 ?_ ?_
  · intro set tb hs h hno
    obtain ⟨Q, es, tb', hr, h1, h2, hiff⟩ := runs_setBody h (fun k => tagFor_ipfixKind) hno
    rw [ipfixSet_eq]
    refine ⟨_, es, tb', Does.then runs_ntohl hr, h1, h2, ?_⟩
    rw [← hiff]
    exact ⟨fun h => ⟨h.1, h.2.2⟩, fun h => ⟨h.1, by omega, h.2⟩⟩
  · intro set tb hs h hst
    obtain ⟨h1, h2⟩ := @stalls_setBody E _ length set tb _ h hst
    rw [ipfixSet_eq, runs_ntohl.halts_bind_iff (P := Event.Inside length),
      runs_ntohl.always_bind_iff, h2]
    exact ⟨h1, fun h => h.2, fun h => ⟨by omega, h⟩⟩

theorem netflowV9Step :
    WalkSpec E (be32 E.mem 16) length 20 netflowV9Kind (Rcv.netflowV9SetStep E) := by
  refine @walkSpec_roundOf E _ length _ (Rcv.netflowV9Set E) 20 ?_ ?_
  · intro set tb hs h hno
    obtain ⟨Q, es, tb', hr, h1, h2, hiff⟩ := runs_setBody h (fun k => tagFor_netflowV9Kind) hno
    rw [netflowV9Set_eq]
    split
    · rename_i hk
      rw [hk] at hr
      exact ⟨Q, es, tb', hr, h1, h2, hiff⟩
    · refine ⟨_, es, tb', Does.then runs_ntohl hr, h1, h2, ?_⟩
      rw [← hiff]
      exact ⟨fun h => ⟨h.1, h.2.2⟩, fun h => ⟨h.1, by omega, h.2⟩⟩
  · intro set tb hs h hst
    obtain ⟨h1, h2⟩ := @stalls_setBody E _ length set tb _ h hst
    have hk : netflowV9Kind (be16 E.mem set) = .data := hst.1
    rw [hk] at h1 h2 ⊢
    rw [netflowV9Set_eq, hk, if_neg (by simp), runs_ntohl.halts_bind_iff (P := Event.Inside length),
      runs_ntohl.always_bind_iff, h2]
    exact ⟨h1, fun h => h.2, fun h => ⟨by omega, h⟩⟩

end SetBody

/-! ## All sets of a message -/

section Walk

variable {E : Env} {sid length start : Nat} {kindOf : Nat → SetKind}
  {step : Nat → TemplateBuffer → Proc Event (Nat × TemplateBuffer)}

theorem afterSet_data {m : Mem} {set : Nat} {T : Table} (hk : ipfixKind (be16 m set) = .data) :
    afterSet m ipfixKind sid set T = T := by
  simp only [afterSet, hk]

/-- A set of templates that holds only the template behind its header. -/
theorem afterSet_announces {m : Mem} {set n : Nat} {T : Table}
    (hk : ipfixKind (be16 m set) = .templates .template) (hset : set + be16 m (set + 2) = n)
    (hlt : set + 7 < n) (hend : n ≤ templateEnd m (set + 4) .template + 3) :
    afterSet m ipfixKind sid set T = announce m .template sid T (set + 4) := by
  have hstarts : templateStarts m .template n (set + 4) = [set + 4] := by
    rw [templateStarts, if_pos hlt, templateStarts, if_neg (by omega)]
  simp only [afterSet, hk, hset, hstarts, List.foldl_cons, List.foldl_nil]

theorem setAt_succ {m : Mem} (s : Nat) (T : Table) (k : Nat) :
    setAt m kindOf sid s T (k + 1) =
      setAt m kindOf sid (s + be16 m (s + 2)) (afterSet m kindOf sid s T) k := by
  induction k with
  | zero => rfl
  | succ k ih => rw [setAt, ih, setAt]

theorem le_setAt {m : Mem} (s : Nat) (T : Table) (k : Nat) : s ≤ (setAt m kindOf sid s T k).1 := by
  induction k with
  | zero => exact Nat.le_refl _
  | succ k ih => exact Nat.le_trans ih (Nat.le_add_right _ _)

/-- The loop over the sets of an IPFIX packet. -/
def walk (step : Nat → TemplateBuffer → Proc Event (Nat × TemplateBuffer)) (length : Nat)
    (s : Nat × TemplateBuffer) : Proc Event (Nat × TemplateBuffer) :=
  loop (fun s => s.1 < length) (fun s => step s.1 s.2) s

theorem halts_walk_step {set : Nat} {tb : TemplateBuffer} (h : set < length) :
    (walk step length (set, tb)).Halts ↔
      ∃ l s', (step set tb).Returns l s' ∧ (walk step length s').Halts :=
  halts_loop_step (decide_eq_true h)

/-- A set without length is processed for ever. -/
theorem not_halts_walk (W : WalkSpec E sid length start kindOf step) {set : Nat}
    {tb : TemplateBuffer} (hs : start ≤ set) (h : tb.Sound) (hlt : set < length)
    (h0 : be16 E.mem (set + 2) = 0) : ¬ (walk step length (set, tb)).Halts := by
  refine not_halts_loop (fun s => s.1 = set ∧ s.2.Sound) ?_ ?_ ⟨rfl, h⟩
  · intro s ⟨h1, _⟩
    rw [h1]; exact decide_eq_true hlt
  · intro s l s' ⟨h1, h2⟩ hr
    obtain ⟨h3, h4, -⟩ := W.returns s.1 s.2 l s' (h1 ▸ hs) h2 hr
    rw [h1, h0] at h3
    exact ⟨h3, h4⟩

/-- The IPFIX walk ends exactly when every set it reaches has a length and does
not stall. -/
theorem halts_walk (W : WalkSpec E sid length start kindOf step) {set : Nat} {tb : TemplateBuffer}
    (hs : start ≤ set) (h : tb.Sound) :
    (walk step length (set, tb)).Halts ↔
      ∀ k, (setAt E.mem kindOf sid set tb.table k).1 < length →
        be16 E.mem ((setAt E.mem kindOf sid set tb.table k).1 + 2) ≠ 0 ∧
          ¬ SetStalls E.mem kindOf sid (setAt E.mem kindOf sid set tb.table k) := by
  refine ⟨?_, ?_⟩
  · intro hh k
    induction k generalizing set tb with
    | zero =>
      intro hlt
      refine ⟨fun h0 => not_halts_walk W hs h hlt h0 hh, ?_⟩
      obtain ⟨l, s', hr, -⟩ := (halts_walk_step hlt).mp hh
      exact (W.halts set tb hs h).mp hr.halts
    | succ k ih =>
      intro hlt
      have hset : set < length := Nat.lt_of_le_of_lt (le_setAt _ _ _) hlt
      obtain ⟨l, s', hr, hh'⟩ := (halts_walk_step hset).mp hh
      obtain ⟨h1, h2, h3⟩ := W.returns set tb l s' hs h hr
      rw [setAt_succ, ← h1, ← h3] at hlt ⊢
      exact ih (by omega) h2 hh' hlt
  · intro hk
    refine halts_loop (fun s => start ≤ s.1 ∧ s.2.Sound ∧
      ∃ k, setAt E.mem kindOf sid set tb.table k = (s.1, s.2.table)) (fun s => length - s.1) ?_
      ⟨hs, h, 0, rfl⟩
    intro ⟨x, tb'⟩ ⟨hx, h', k, hat⟩ hc
    have hlt : x < length := of_decide_eq_true hc
    obtain ⟨h0, hst⟩ := hk k (by rw [hat]; exact hlt)
    rw [hat] at h0 hst
    obtain ⟨l, s', hr⟩ := (W.halts x tb' hx h').mpr hst
    obtain ⟨h1, h2, h3⟩ := W.returns x tb' l s' hx h' hr
    refine ⟨l, s', hr, ⟨by omega, h2, k + 1, ?_⟩, ?_⟩
    · rw [setAt, hat, h1, h3]
    · simp only at h0; omega

/-- The NetFlow v9 walk ends exactly when none of its sets stalls. -/
theorem halts_forSets (W : WalkSpec E sid length start kindOf step)
    (hstep : step = Rcv.netflowV9SetStep E) {n set : Nat} {tb : TemplateBuffer} (hs : start ≤ set)
    (h : tb.Sound) :
    (Rcv.forSets E n set tb).Halts ↔
      ∀ k, k < n → ¬ SetStalls E.mem kindOf sid (setAt E.mem kindOf sid set tb.table k) := by
  subst hstep
  induction n generalizing set tb with
  | zero => exact ⟨fun _ k hk => absurd hk (Nat.not_lt_zero k), fun _ => halts_pure⟩
  | succ n ih =>
    have hrest : ∀ l s', (Rcv.netflowV9SetStep E set tb).Returns l s' →
        ((Rcv.forSets E n s'.1 s'.2).Halts ↔ ∀ k, k < n →
          ¬ SetStalls E.mem kindOf sid (setAt E.mem kindOf sid set tb.table (k + 1))) := by
      intro l s' hr
      obtain ⟨h1, h2, h3⟩ := W.returns set tb l s' hs h hr
      rw [ih (by omega) h2]
      simp only [setAt_succ, h1, h3]
    rw [Rcv.forSets, halts_bind]
    refine ⟨?_, ?_⟩
    · rintro ⟨l, s', hr, hh⟩ (_ | k) hk
      · exact (W.halts set tb hs h).mp hr.halts
      · exact (hrest l s' hr).mp hh k (by omega)
    · intro hk
      obtain ⟨l, s', hr⟩ := (W.halts set tb hs h).mpr (hk 0 (by omega))
      exact ⟨l, s', hr, (hrest l s' hr).mpr fun k hk' => hk (k + 1) (by omega)⟩

/-- What the walks leave. -/
theorem sound_walk (W : WalkSpec E sid length start kindOf step) {set : Nat} {tb : TemplateBuffer}
    {l : List Event} {s : Nat × TemplateBuffer} (hs : start ≤ set) (h : tb.Sound)
    (hr : (walk step length (set, tb)).Returns l s) : s.2.Sound := by
  refine (Returns.loop_invariant (fun s => start ≤ s.1 ∧ s.2.Sound) ?_ ⟨hs, h⟩ hr).2
  intro s l s' ⟨h1, h2⟩ _ hr
  obtain ⟨h3, h4, -⟩ := W.returns s.1 s.2 l s' h1 h2 hr
  exact ⟨by omega, h4⟩

/-- A walk that ends stops at the first set behind the message. -/
theorem setAt_walk (W : WalkSpec E sid length start kindOf step) {set : Nat} {tb : TemplateBuffer}
    {l : List Event} {s : Nat × TemplateBuffer} (hs : start ≤ set) (h : tb.Sound)
    (hr : (walk step length (set, tb)).Returns l s) :
    ∃ k, setAt E.mem kindOf sid set tb.table k = (s.1, s.2.table) ∧ length ≤ s.1 ∧
      ∀ j, j < k → (setAt E.mem kindOf sid set tb.table j).1 < length := by
  have hI := Returns.loop_invariant (fun s => start ≤ s.1 ∧ s.2.Sound ∧
    ∃ k, setAt E.mem kindOf sid set tb.table k = (s.1, s.2.table) ∧
      ∀ j, j < k → (setAt E.mem kindOf sid set tb.table j).1 < length) ?_
    ⟨hs, h, 0, rfl, fun j hj => absurd hj (Nat.not_lt_zero j)⟩ hr
  · obtain ⟨-, -, k, hat, hbefore⟩ := hI
    exact ⟨k, hat, by simpa using hr.loop_ended, hbefore⟩
  · intro s l s' ⟨h1, h2, k, hat, hbefore⟩ hc hr
    obtain ⟨h3, h4, h5⟩ := W.returns s.1 s.2 l s' h1 h2 hr
    refine ⟨by omega, h4, k + 1, by rw [setAt, hat, h3, h5], fun j hj => ?_⟩
    rcases Nat.lt_succ_iff_lt_or_eq.mp hj with hj | rfl
    · exact hbefore j hj
    · rw [hat]; simpa using hc

theorem sound_forSets {n set : Nat} {tb tb' : TemplateBuffer} {l : List Event} (hs : 20 ≤ set)
    (h : tb.Sound) (hr : (Rcv.forSets E n set tb).Returns l tb') : tb'.Sound := by
  induction n generalizing set tb l with
  | zero =>
    obtain ⟨-, rfl⟩ := returns_pure.mp hr
    exact h
  | succ n ih =>
    obtain ⟨l1, s', l2, h1, h2, -⟩ := returns_bind.mp hr
    obtain ⟨h3, h4, -⟩ := (@netflowV9Step E 0).returns set tb l1 s' hs h h1
    exact ih (by omega) h4 h2

end Walk

/-! ## Messages -/

section Messages

variable {E : Env} {length : Nat} {tb : TemplateBuffer}

/-- A message either is not for this parser, or is an IPFIX or a NetFlow v9 walk. -/
theorem processMessage_cases (E : Env) (length : Nat) (tb : TemplateBuffer) :
    Rcv.processMessage E length tb = (do
      let version ← Rcv.ntohs E 0
      if version = 0x000a then do
        let headerLength ← Rcv.ntohs E 2
        if headerLength ≠ length then pure (-1, tb)
        else do
          let s ← walk (Rcv.ipfixSetStep E) length (16, tb)
          pure (0, s.2)
      else if version = 0x0009 then do
        let setCount ← Rcv.ntohs E 2
        let tb ← Rcv.forSets E setCount 20 tb
        pure (0, tb)
      else pure (-1, tb)) := rfl

/-- What holds of the result for a message of no known version. -/
theorem version_iff {Q : Proc Event (Int × TemplateBuffer) → Prop} (hother : Q (pure (-1, tb)))
    {version : Nat} {ipfix netflowV9 : Proc Event (Int × TemplateBuffer)} :
    Q (if version = 0x000a then ipfix else if version = 0x0009 then netflowV9 else pure (-1, tb)) ↔
      (version = 0x000a → Q ipfix) ∧ (version = 0x0009 → Q netflowV9) := by
  by_cases h1 : version = 0x000a
  · simp [h1]
  · by_cases h2 : version = 0x0009
    · simp [h2]
    · simp [h1, h2, hother]

/-- The parser as a transition system: a step is a message that is processed to
its end. -/
def processes : LTS TemplateBuffer (Env × Nat) where
  init tb := tb = []
  step tb m tb' := ∃ l r, (Rcv.processMessage m.1 m.2 tb).Returns l (r, tb')

theorem sound_processMessage {l : List Event} {r : Int} {tb' : TemplateBuffer} (h : tb.Sound)
    (hr : (Rcv.processMessage E length tb).Returns l (r, tb')) : tb'.Sound := by
  rw [processMessage_cases] at hr
  obtain ⟨l1, version, l2, -, hr, -⟩ := returns_bind.mp hr
  split at hr
  · obtain ⟨l3, n, l4, -, hr, -⟩ := returns_bind.mp hr
    split at hr
    · cases (returns_pure.mp hr).2; exact h
    · obtain ⟨l5, s, l6, h1, h2, -⟩ := returns_bind.mp hr
      cases (returns_pure.mp h2).2
      exact sound_walk ipfixStep (Nat.le_refl 16) h h1
  · split at hr
    · obtain ⟨l3, n, l4, -, hr, -⟩ := returns_bind.mp hr
      obtain ⟨l5, s, l6, h1, h2, -⟩ := returns_bind.mp hr
      cases (returns_pure.mp h2).2
      exact sound_forSets (Nat.le_refl 20) h h1
    · cases (returns_pure.mp hr).2; exact h

theorem sound_nil : TemplateBuffer.Sound [] := ⟨List.nodup_nil, fun _ hb => nomatch hb⟩

/-- Every reachable template buffer is sound. -/
theorem sound_reachable (h : processes.Reachable tb) : tb.Sound := by
  refine LTS.Inductive.reachable (I := TemplateBuffer.Sound) ⟨?_, ?_⟩ tb h
  · rintro tb rfl; exact sound_nil
  · intro tb m tb' h ⟨l, r, hr⟩; exact sound_processMessage h hr

/-- The table that an IPFIX message leaves is the one behind its last set. -/
theorem table_processMessage {tb' : TemplateBuffer} {l : List Event} {r : Int} (h : tb.Sound)
    (hv : be16 E.mem 0 = 0x000a) (hl : be16 E.mem 2 = length)
    (hr : (Rcv.processMessage E length tb).Returns l (r, tb')) :
    ∃ k, (setAt E.mem ipfixKind (be32 E.mem 12) 16 tb.table k).2 = tb'.table ∧
      length ≤ (setAt E.mem ipfixKind (be32 E.mem 12) 16 tb.table k).1 ∧
      ∀ j, j < k → (setAt E.mem ipfixKind (be32 E.mem 12) 16 tb.table j).1 < length := by
  obtain ⟨l', hr'⟩ : ∃ l, (do
      let s ← walk (Rcv.ipfixSetStep E) length (16, tb)
      pure ((0 : Int), s.2)).Returns l (r, tb') := by
    rw [processMessage_cases] at hr
    obtain ⟨l₁, _, l₂, h1, hr, -⟩ := returns_bind.mp hr
    rw [(@runs_ntohs E 0 _).value h1, if_pos hv] at hr
    obtain ⟨l₃, _, l₄, h2, hr, -⟩ := returns_bind.mp hr
    rw [(@runs_ntohs E 0 _).value h2, if_neg (not_not_intro hl)] at hr
    exact ⟨_, hr⟩
  obtain ⟨l₁, s, l₂, hwalk, hr, -⟩ := returns_bind.mp hr'
  cases (returns_pure.mp hr).2
  obtain ⟨k, hat, hend, hbefore⟩ := setAt_walk ipfixStep (Nat.le_refl 16) h hwalk
  exact ⟨k, by rw [hat], by rw [hat]; exact hend, hbefore⟩

end Messages

end Topas
