import Topas.L7Stat.TestRounds

/-!
# The alarm counters

Each of the four tests keeps, for every metric of an end point, the number of its alarms and whether
its last round saw an attack.

* `judge`: a verdict counts in every round, or with `report_only_first_attack` where the round
  before saw no attack.
* `alarms_eq`: so in every run the counter is the number of attacks, or the number of their onsets.

The counters are of type `int` in the code. They count at most one alarm a round (`alarms_le`), as
`test_counter` does, which would overflow before them.
-/
namespace Topas.Wkp

variable {ν σ : Type}

/-! ## Onsets -/

/-- How often a `true` comes that has no `true` just before it. -/
def onsetsFrom : Bool → List Bool → ℕ
  | _, [] => 0
  | before, b :: bs => (if b && !before then 1 else 0) + onsetsFrom b bs

def onsets (bs : List Bool) : ℕ := onsetsFrom false bs

theorem onsetsFrom_append (before : Bool) (bs : List Bool) (b : Bool) :
    onsetsFrom before (bs ++ [b]) =
      onsetsFrom before bs + if b && !(bs.getLast?.getD before) then 1 else 0 := by
  induction bs generalizing before with
  | nil => simp [onsetsFrom]
  | cons c bs ih =>
    rw [List.cons_append, onsetsFrom, onsetsFrom, ih, List.getLast?_cons, Option.getD_some,
      Nat.add_assoc]

theorem onsets_append (bs : List Bool) (b : Bool) :
    onsets (bs ++ [b]) = onsets bs + if b && !(bs.getLast?.getD false) then 1 else 0 :=
  onsetsFrom_append false bs b

theorem onsetsFrom_le (before : Bool) (bs : List Bool) : onsetsFrom before bs ≤ bs.length := by
  induction bs generalizing before with
  | nil => exact Nat.le_refl 0
  | cons b bs ih =>
    have hrest := ih b
    simp only [onsetsFrom, List.length_cons]
    split <;> omega

/-- An alarm state after some rounds, in which the test saw an attack or not. -/
structure Counted (cfg : StatConfig ν) (attacks : List Bool) (a : AlarmState) : Prop where
  last : a.lastWasAttack = attacks.getLast?.getD false
  alarms : a.alarms = if cfg.reportOnlyFirstAttack then onsets attacks else attacks.count true

theorem Counted.start (cfg : StatConfig ν) : Counted cfg [] ⟨false, 0⟩ :=
  ⟨rfl, by simp [onsets, onsetsFrom]⟩

theorem Counted.judge {cfg : StatConfig ν} {attacks : List Bool} {a : AlarmState}
    (h : Counted cfg attacks a)
    (attack : Bool) : Counted cfg (attacks ++ [attack]) (a.judge cfg attack) := by
  refine ⟨by simp [AlarmState.judge], ?_⟩
  rw [AlarmState.judge, h.last, h.alarms, onsets_append, List.count_append]
  cases cfg.reportOnlyFirstAttack <;> cases attack <;> cases attacks.getLast?.getD false <;> simp

theorem AlarmState.judge_false (cfg : StatConfig ν) (a : AlarmState) :
    a.judge cfg false = { a with lastWasAttack := false } := by
  simp [AlarmState.judge]

/-- Where the flag is clear, a round without an attack changes nothing. -/
theorem AlarmState.judge_clear (cfg : StatConfig ν) {a : AlarmState} (h : a.lastWasAttack = false) :
    a.judge cfg false = a := by
  rw [judge_false, ← h]

variable [Double ν] {cfg : StatConfig ν} {usePca : Option (PcaConfig σ)}

/-! ## The four tests -/

/-- `amplitude_percentage * sqrt(P.variance.at(i)) / 2.0`. -/
def CusumMetric.half (cfg : StatConfig ν) (c : CusumMetric ν) : ν :=
  cfg.amplitudePercentage * Double.sqrt c.variance / ((2 : Int) : ν)

/-- `N` of `cusum_test`. -/
def CusumMetric.threshold (cfg : StatConfig ν) (c : CusumMetric ν) : ν :=
  ((cfg.repetitionFactor.toNat : Int) : ν) * c.half cfg

/-- `g`, after the test has looked at the last value. -/
def CusumMetric.next (cfg : StatConfig ν) (c : CusumMetric ν) : ν :=
  cusum c.xCurr.toInt64 (c.mean + c.half cfg) c.g

inductive AlarmTest where
  | window (t : WindowTest)
  | cusum
  deriving DecidableEq, Repr

namespace AlarmTest

omit [Double ν] in
/-- The counter and the flag of a test for metric number `i`. -/
def state (P : Params ν) (i : ℕ) : AlarmTest → Option AlarmState
  | window t => P.wkp[i]?.map (WindowTest.state · t)
  | cusum => P.cusum[i]?.map CusumMetric.alarm

omit [Double ν] in
/-- Whether the rounds of an end point come to the test. -/
def running (cfg : StatConfig ν) (P : Params ν) : AlarmTest → Bool
  | window t => P.wkpReady cfg && t.enabled cfg
  | cusum => P.cusumReady cfg

/-- The verdict of a test round; `none` where the test is not made.
mirrors detectionmodules/statmodules/wkp-module/stat-main.cpp:1207-1220,1764-1823,1909-1948 -/
def verdict (cfg : StatConfig ν) (P : Params ν) (i : ℕ) : AlarmTest → Option Bool
  | window t => t.verdict cfg P i
  | cusum =>
    if P.cusumReady cfg && P.cusumUpdated then
      P.cusum[i]?.map fun c => decide (c.threshold cfg < c.next cfg)
    else none

/-- Whether a test round ends with an attack. -/
def attack (cfg : StatConfig ν) (P : Params ν) (i : ℕ) (t : AlarmTest) : Bool :=
    t.verdict cfg P i == some true

theorem attack_of_not_running {P : Params ν} {t : AlarmTest} (h : t.running cfg P = false) (i : ℕ) :
    t.attack cfg P i = false := by
  cases t with
  | window t =>
    simp only [running, Bool.and_eq_false_iff] at h
    rcases h with h | h <;> simp [attack, verdict, WindowTest.verdict, h]
  | cusum =>
    simp only [running] at h
    simp [attack, verdict, h]

/-- What the loop of `wkp_test` makes of an alarm state, if the flag is clear where the test is not
enabled. -/
theorem statTest_judge (enabled updated : Bool) (p : ν) {a : AlarmState}
    (hidle : enabled = false → a.lastWasAttack = false) :
    (statTest cfg enabled updated p a).2 =
      a.judge cfg (enabled && updated && decide (p < cfg.significanceLevel)) := by
  cases enabled with
  | true =>
    cases updated with
    | true => simp [statTest]
    | false => simp [statTest, AlarmState.judge_false]
  | false =>
    have hclear := AlarmState.judge_clear cfg (hidle rfl)
    cases updated with
    | true => simp [statTest, hclear]
    | false => simp [statTest, AlarmState.judge_false]

theorem wkp_test (cfg : StatConfig ν) (P : Params ν) (i : ℕ) :
    (testEndPoint cfg P).1.wkp[i]? =
      if P.wkpReady cfg then P.wkp[i]?.map fun m => (wkpTestMetric cfg P i m).2 else P.wkp[i]? := by
  obtain ⟨cusum, updated, heq⟩ := testEndPoint_wkp cfg P
  rw [heq]
  split
  · simp [wkpTest, Function.comp_def]
  · rfl

theorem cusum_test (cfg : StatConfig ν) (P : Params ν) :
    (testEndPoint cfg P).1.cusum =
      if P.cusumReady cfg then P.cusum.map fun c => (cusumTestMetric cfg P.cusumUpdated c).2
      else P.cusum := by
  obtain ⟨wkp, updated, heq⟩ := testEndPoint_cusum cfg P
  rw [heq]
  split
  · simp [cusumTest]
  · rfl

theorem length_wkp_test (cfg : StatConfig ν) (P : Params ν) :
    (testEndPoint cfg P).1.wkp.length = P.wkp.length := by
  obtain ⟨cusum, updated, heq⟩ := testEndPoint_wkp cfg P
  rw [heq]
  split
  · simp [wkpTest]
  · rfl

/-- A test round makes no new alarm states. -/
theorem exists_of_state_test {P : Params ν} {t : AlarmTest} {i : ℕ} {a : AlarmState}
    (ha : t.state (testEndPoint cfg P).1 i = some a) : ∃ b, t.state P i = some b := by
  cases t with
  | window t =>
    obtain ⟨m', hm', -⟩ := Option.map_eq_some_iff.mp ha
    have hi := (List.getElem?_eq_some_iff.mp hm').1
    rw [length_wkp_test] at hi
    exact ⟨_, Option.map_eq_some_iff.mpr ⟨P.wkp[i], List.getElem?_eq_getElem hi, rfl⟩⟩
  | cusum =>
    obtain ⟨c', hc', -⟩ := Option.map_eq_some_iff.mp ha
    rw [cusum_test] at hc'
    split at hc'
    · obtain ⟨c, hc, -⟩ := Option.map_eq_some_iff.mp (List.getElem?_map.symm.trans hc')
      exact ⟨_, Option.map_eq_some_iff.mpr ⟨c, hc, rfl⟩⟩
    · exact ⟨_, Option.map_eq_some_iff.mpr ⟨c', hc', rfl⟩⟩

theorem cusumTestMetric_alarm (cfg : StatConfig ν) (updated : Bool) (c : CusumMetric ν) :
    (cusumTestMetric cfg updated c).2.alarm =
      c.alarm.judge cfg (updated && decide (c.threshold cfg < c.next cfg)) := by
  cases updated <;> rfl

/-- A test round judges by the verdict, if the flag is clear wherever the rounds do not come to the
test. -/
theorem state_test {P : Params ν} {t : AlarmTest} {i : ℕ} {a : AlarmState}
    (ha : t.state P i = some a) (hlength : P.wkp.length ≤ cfg.metrics.length)
    (hidle : t.running cfg P = false → a.lastWasAttack = false) :
    t.state (testEndPoint cfg P).1 i = some (a.judge cfg (t.attack cfg P i)) := by
  cases t with
  | window t =>
    obtain ⟨m, hm, rfl⟩ := Option.map_eq_some_iff.mp ha
    have hi : i < cfg.metrics.length := (List.getElem?_eq_some_iff.mp hm).1.trans_le hlength
    rw [state, wkp_test, hm]
    by_cases hready : P.wkpReady cfg = true
    · simp only [running, hready, Bool.true_and] at hidle
      have hnext := congrArg Prod.snd (WindowTest.wkpTestMetric_eq cfg P i m t)
      rw [statTest_judge _ _ _ hidle] at hnext
      dsimp only at hnext
      rw [if_pos hready, Option.map_some, Option.map_some, hnext]
      congr 2
      by_cases hmade : (t.enabled cfg && P.wkpUpdated) = true
      · simp [attack, verdict, WindowTest.verdict, hready, hi, hmade]
      · simp [attack, verdict, WindowTest.verdict, hmade]
    · have hrunning : running cfg P (window t) = false := by simp [running, hready]
      rw [if_neg hready, attack_of_not_running hrunning,
        AlarmState.judge_clear cfg (hidle hrunning)]
      rfl
  | cusum =>
    obtain ⟨c, hc, rfl⟩ := Option.map_eq_some_iff.mp ha
    rw [state, cusum_test]
    by_cases hready : P.cusumReady cfg = true
    · rw [if_pos hready, List.getElem?_map, hc, Option.map_some, Option.map_some,
        cusumTestMetric_alarm]
      cases hupdated : P.cusumUpdated with
      | true => simp [attack, verdict, hready, hupdated, hc]
      | false => simp [attack, verdict, hupdated]
    · have hrunning : running cfg P cusum = false := by simpa [running] using hready
      rw [if_neg hready, hc, attack_of_not_running hrunning,
        AlarmState.judge_clear cfg (hidle hrunning)]
      rfl

/-- `cusum_update` changes no alarm state. -/
theorem cusumUpdate_alarm {P : Params ν} {v : List Int64} {i : ℕ} {c' : CusumMetric ν}
    (h : (cusumUpdate cfg P v).cusum[i]? = some c') :
      ∃ c, P.cusum[i]? = some c ∧ c'.alarm = c.alarm := by
  have hzip : ∀ f : CusumMetric ν → Int64 → CusumMetric ν, (∀ c x, (f c x).alarm = c.alarm) →
      (P.cusum.zipWith f v)[i]? = some c' → ∃ c, P.cusum[i]? = some c ∧ c'.alarm = c.alarm := by
    intro f hf hc'
    obtain ⟨c, x, hc, -, rfl⟩ := List.getElem?_zipWith_eq_some.mp hc'
    exact ⟨c, hc, hf c x⟩
  cases hready : P.readyToTest with
  | true =>
    rw [cusumUpdate_ready hready] at h
    refine hzip _ (fun c x => ?_) h
    split <;> rfl
  | false =>
    by_cases hlt : P.cusumLearningPhaseNr < cfg.cusumLearningPhase.toNat
    · rw [cusumUpdate_accumulate hready hlt] at h
      exact hzip .accumulate (fun c x => rfl) h
    · rw [cusumUpdate_conclude hready (Nat.le_of_not_lt hlt)] at h
      exact hzip (.conclude cfg) (fun c x => rfl) h

theorem wkp_update (cfg : StatConfig ν) (P : Params ν) (v : List Int64) :
    (update cfg P v).wkp = P.wkp := by
  have hwkp : (if cfg.enableWkpTest then wkpUpdate cfg P v else P).wkp = P.wkp := by
    split
    · obtain ⟨old, new, updated, heq⟩ := wkpUpdate_cusum cfg P v
      rw [heq]
    · rfl
  unfold update
  dsimp only
  split
  · obtain ⟨cusum, nr, ready, updated, heq⟩ :=
      cusumUpdate_wkp cfg (if cfg.enableWkpTest then wkpUpdate cfg P v else P) v
    rw [heq]
    exact hwkp
  · exact hwkp

/-- An update leaves the alarm states alone. -/
theorem state_update {P : Params ν} {v : List Int64} {t : AlarmTest} {i : ℕ} {a : AlarmState}
    (ha : t.state (update cfg P v) i = some a) : t.state P i = some a := by
  cases t with
  | window t => rwa [state, wkp_update] at ha
  | cusum =>
    obtain ⟨c', hc', rfl⟩ := Option.map_eq_some_iff.mp ha
    cases hcusum : cfg.enableCusumTest with
    | true =>
      obtain ⟨old, new, updated, heq⟩ := update_cusum hcusum P v
      rw [heq] at hc'
      obtain ⟨c, hc, halarm⟩ := cusumUpdate_alarm hc'
      exact Option.map_eq_some_iff.mpr ⟨c, hc, halarm.symm⟩
    | false =>
      obtain ⟨old, new, updated, heq⟩ := update_samplesOnly hcusum P v
      rw [heq] at hc'
      exact Option.map_eq_some_iff.mpr ⟨c', hc', rfl⟩

/-- The rounds go on coming to a test. -/
theorem running_update (hnew : 1 ≤ cfg.sampleNewSize.toNat) {P : Params ν} (v : List Int64)
    {t : AlarmTest} (h : t.running cfg P = true) : t.running cfg (update cfg P v) = true := by
  cases t with
  | window t =>
    simp only [running, Params.wkpReady, Bool.and_eq_true, decide_eq_true_eq] at h ⊢
    obtain ⟨⟨hwkp, hfull⟩, henabled⟩ := h
    refine ⟨⟨hwkp, ?_⟩, henabled⟩
    obtain ⟨cusum, nr, ready, updated, heq⟩ := update_wkp hwkp P v
    rw [heq]
    unfold wkpUpdate
    split
    · exact hfull
    split
    · exact absurd hfull ‹_›
    · dsimp only
      split
      · simp
        omega
      · simp
        omega
  | cusum =>
    simp only [running, Params.cusumReady, Bool.and_eq_true] at h ⊢
    exact ⟨h.1, readyToTest_update h.1 h.2 v⟩

theorem running_test (cfg : StatConfig ν) (P : Params ν) (t : AlarmTest) :
    t.running cfg (testEndPoint cfg P).1 = t.running cfg P := by
  have hsamples := congrArg Window.Windows.new (testEndPoint_samples cfg P)
  simp only [Params.samples] at hsamples
  cases t with
  | window t => simp [running, Params.wkpReady, hsamples]
  | cusum => simp [running, Params.cusumReady, readyToTest_testEndPoint]

end AlarmTest

/-! ## Runs -/

/-- The parameters of an end point at each of its test rounds. -/
def testRounds (cfg : StatConfig ν) (usePca : Option (PcaConfig σ)) :
    Option (Kept ν σ) → List Visit → List (Params ν)
  | _, [] => []
  | E, .learn d :: es => testRounds cfg usePca (visit cfg usePca E (.learn d)).1 es
  | E, .test :: es =>
    (E.map Kept.params).toList ++ testRounds cfg usePca (visit cfg usePca E .test).1 es

theorem testRounds_learn (E : Option (Kept ν σ)) (es : List Visit) (d : List Int64) :
    testRounds cfg usePca E (es ++ [.learn d]) = testRounds cfg usePca E es := by
  induction es generalizing E with
  | nil => rfl
  | cons e es ih =>
    cases e with
    | learn d' => exact ih _
    | test => simp only [List.cons_append, testRounds, ih]

theorem testRounds_test (E : Option (Kept ν σ)) (es : List Visit) :
    testRounds cfg usePca E (es ++ [.test]) =
      testRounds cfg usePca E es ++
        ((Machine.final (visit cfg usePca) E es).map Kept.params).toList := by
  induction es generalizing E with
  | nil => simp [testRounds, Machine.final]
  | cons e es ih =>
    cases e with
    | learn d => exact ih _
    | test =>
      simp only [List.cons_append, testRounds, ih, List.append_assoc]
      rfl

/-- The alarm states of an end point, where each test saw the given attacks on each metric. -/
structure Alarmed (cfg : StatConfig ν) (attacks : AlarmTest → ℕ → List Bool) (P : Params ν) :
    Prop where
  length : P.wkp.length ≤ cfg.metrics.length
  counted : ∀ (t : AlarmTest) i a, t.state P i = some a → Counted cfg (attacks t i) a
  idle : ∀ (t : AlarmTest) i a, t.state P i = some a → t.running cfg P = false →
    a.lastWasAttack = false

namespace Alarmed

variable {attacks : AlarmTest → ℕ → List Bool} {P : Params ν}

omit [Double ν] in
/-- Before the first round. -/
theorem of_clear (hlength : P.wkp.length ≤ cfg.metrics.length)
    (hclear : ∀ (t : AlarmTest) i a, t.state P i = some a → a = ⟨false, 0⟩) :
    Alarmed cfg (fun _ _ => []) P where
  length := hlength
  counted t i a ha := hclear t i a ha ▸ .start cfg
  idle t i a ha _ := by rw [hclear t i a ha]

theorem update (h : Alarmed cfg attacks P) (hnew : 1 ≤ cfg.sampleNewSize.toNat) (v : List Int64) :
    Alarmed cfg attacks (update cfg P v) where
  length := by
    rw [AlarmTest.wkp_update]
    exact h.length
  counted t i a ha := h.counted t i a (AlarmTest.state_update ha)
  idle t i a ha hrunning := by
    refine h.idle t i a (AlarmTest.state_update ha) ?_
    cases hbefore : t.running cfg P with
    | false => rfl
    | true =>
      rw [AlarmTest.running_update hnew v hbefore] at hrunning
      cases hrunning

theorem test (h : Alarmed cfg attacks P) :
    Alarmed cfg (fun t i => attacks t i ++ [t.attack cfg P i]) (testEndPoint cfg P).1 := by
  have hjudged : ∀ (t : AlarmTest) i a, t.state (testEndPoint cfg P).1 i = some a →
      ∃ b, t.state P i = some b ∧ a = b.judge cfg (t.attack cfg P i) := by
    intro t i a ha
    obtain ⟨b, hb⟩ := AlarmTest.exists_of_state_test ha
    rw [AlarmTest.state_test hb h.length (h.idle t i b hb)] at ha
    exact ⟨b, hb, (Option.some.inj ha).symm⟩
  refine ⟨?_, fun t i a ha => ?_, fun t i a ha hrunning => ?_⟩
  · rw [AlarmTest.length_wkp_test]
    exact h.length
  · obtain ⟨b, hb, rfl⟩ := hjudged t i a ha
    exact (h.counted t i b hb).judge _
  · obtain ⟨b, hb, rfl⟩ := hjudged t i a ha
    rw [AlarmTest.running_test] at hrunning
    rw [AlarmTest.attack_of_not_running hrunning, AlarmState.judge_false]

/-- A new end point has no alarms, also with PCA. -/
theorem start (cfg : StatConfig ν) (v : List Int64) :
    Alarmed cfg (fun _ _ => []) (.start cfg v) := by
  refine of_clear ?_ fun t i a ha => ?_
  · cases h : cfg.enableWkpTest <;> simp [Params.start, h]
  · cases t with
    | window t =>
      obtain ⟨m, hm, rfl⟩ := Option.map_eq_some_iff.mp ha
      cases hwkp : cfg.enableWkpTest with
      | true =>
        simp only [Params.start, hwkp, if_true] at hm
        rw [List.eq_of_mem_replicate (List.mem_of_getElem? hm)]
        cases t <;> rfl
      | false => simp [Params.start, hwkp] at hm
    | cusum =>
      obtain ⟨c, hc, rfl⟩ := Option.map_eq_some_iff.mp ha
      cases hcusum : cfg.enableCusumTest with
      | true =>
        simp only [Params.start, hcusum, if_true] at hc
        obtain ⟨x, -, rfl⟩ := Option.map_eq_some_iff.mp (List.getElem?_map.symm.trans hc)
        rfl
      | false => simp [Params.start, hcusum] at hc

theorem startPca (cfg : StatConfig ν) : Alarmed cfg (fun _ _ => []) (.startPca cfg) := by
  have hstart := start cfg []
  refine of_clear hstart.length fun t i a ha => ?_
  cases t with
  | window t =>
    obtain ⟨hlast, halarms⟩ := hstart.counted (.window t) i a ha
    obtain ⟨last, alarms⟩ := a
    simp_all [onsets, onsetsFrom]
  | cusum =>
    obtain ⟨c, hc, rfl⟩ := Option.map_eq_some_iff.mp ha
    cases hcusum : cfg.enableCusumTest with
    | true =>
      simp only [Params.startPca, hcusum, if_true] at hc
      rw [List.eq_of_mem_replicate (List.mem_of_getElem? hc)]
    | false => simp [Params.startPca, hcusum] at hc

end Alarmed

/-- The alarm states of an end point in any run of visits. -/
theorem alarmed_run (hnew : 1 ≤ cfg.sampleNewSize.toNat) (es : List Visit) {K : Kept ν σ}
    (hK : (watched cfg usePca es).kept = some K) :
    Alarmed cfg (fun t i => (testRounds cfg usePca none es).map (t.attack cfg · i)) K.params := by
  have hunknown : ∀ es, (watched cfg usePca es).kept = none →
      testRounds cfg usePca none es = [] := by
    intro es h
    induction es using List.reverseRecOn with
    | nil => rfl
    | append_singleton es e ih =>
      obtain ⟨hkept, rfl⟩ := unknown_of_append h
      rw [testRounds_test, ih hkept, ← watched_kept, hkept]
      rfl
  have hlasting : Lasting cfg usePca fun es P =>
      Alarmed cfg (fun t i => (testRounds cfg usePca none es).map (t.attack cfg · i)) P := {
    start := fun {es d v} hkept _ => by
      simp only [testRounds_learn, hunknown es hkept]
      exact .start cfg v
    startPca := fun {es d} hkept _ => by
      simp only [testRounds_learn, hunknown es hkept]
      exact .startPca cfg
    idle := fun {es d P} h _ _ => by simpa only [testRounds_learn] using h
    update := fun {es d P v} h _ _ => by
      simp only [testRounds_learn]
      exact h.update hnew v
    test := fun {es K} hkept h => by
      rw [watched_kept] at hkept
      simp only [testRounds_test, hkept, Option.map_some, Option.toList_some, List.map_append,
        List.map_cons, List.map_nil]
      exact h.test }
  exact hlasting.run es hK

/-- The counter of any test for any metric, after any run: it has counted the rounds that ended with
an attack, or with `report_only_first_attack` those of them whose round before did not. -/
theorem alarms_eq (hnew : 1 ≤ cfg.sampleNewSize.toNat) (usePca : Option (PcaConfig σ))
    (es : List Visit)
    {K : Kept ν σ} (hK : Machine.final (visit cfg usePca) none es = some K) (t : AlarmTest) (i : ℕ)
    {a : AlarmState} (ha : t.state K.params i = some a) :
    let attacks := (testRounds cfg usePca none es).map (t.attack cfg · i)
    a.alarms = if cfg.reportOnlyFirstAttack then onsets attacks else attacks.count true := by
  rw [← watched_kept] at hK
  exact ((alarmed_run hnew es hK).counted t i a ha).alarms

/-- Attacks in three rounds, of which two are one attack; before the third a round finds no new
value. -/
theorem alarms_eq_twice :
    let es :=
      [.learn [1], .learn [2], .learn [3], .learn [4], .test, .learn [9], .test, .learn [9], .test,
      .test, .learn [9], .test]
    ∃ (K : Kept Int Unit) (a : AlarmState), Machine.final (visit pausing none) none es = some K ∧
      (AlarmTest.window .wmw).state K.params 0 = some a ∧ a.alarms = 2 := by
  have heq := @alarms_eq Int Unit _ pausing (by decide) none
    [.learn [1], .learn [2], .learn [3], .learn [4], .test, .learn [9], .test, .learn [9],
      .test, .test,
      .learn [9], .test] _ rfl (.window .wmw) 0 _ rfl
  exact ⟨_, _, rfl, rfl, heq.trans (by decide)⟩

/-- There is at most one alarm a round. -/
theorem alarms_le (hnew : 1 ≤ cfg.sampleNewSize.toNat) (usePca : Option (PcaConfig σ))
    (es : List Visit)
    {K : Kept ν σ} (hK : (watched cfg usePca es).kept = some K) (t : AlarmTest) (i : ℕ)
    {a : AlarmState} (ha : t.state K.params i = some a) :
    a.alarms ≤ (testRounds cfg usePca none es).length := by
  rw [((alarmed_run hnew es hK).counted t i a ha).alarms]
  split
  · exact (onsetsFrom_le _ _).trans (List.length_map _).le
  · exact List.count_le_length.trans (List.length_map _).le

end Topas.Wkp
