import Topas.L7Stat.Learning

/-!
# When the tests of two samples are made

`Stat::test` comes to every end point that it knows in every test round; `wkp_test` makes the tests
where the sample `New` is full and `wkp_updated` is set, which `wkp_update` does when it moves the
samples, and not when it fills them.

* `Lasting.run`: what holds of a new end point and survives every visit holds in every run of
  visits.
* `due_iff`: an enabled test is made exactly if both samples are full and the end point was given
  a value since its last test round, except in a round that comes right after the value that
  filled `New`: there it is not made.
-/
namespace Topas.Wkp

variable {ν σ : Type} [Double ν] {cfg : StatConfig ν} {usePca : Option (PcaConfig σ)}

/-! ## What a run of visits keeps -/

/-- What holds of the parameters of a new end point, and still does after every visit; `es` are the
visits so far. Unlike in `Preserved`, the values may have any length. -/
structure Lasting (cfg : StatConfig ν) (usePca : Option (PcaConfig σ))
    (Q : List Visit → Params ν → Prop) :
    Prop where
  start : ∀ {es d v}, (watched cfg usePca es).kept = none →
    (watched cfg usePca (es ++ [.learn d])).values = [v] → Q (es ++ [.learn d]) (.start cfg v)
  startPca : ∀ {es d}, (watched cfg usePca es).kept = none →
    (watched cfg usePca (es ++ [.learn d])).values = [] → Q (es ++ [.learn d]) (.startPca cfg)
  idle : ∀ {es d P}, Q es P →
    (watched cfg usePca (es ++ [.learn d])).values = (watched cfg usePca es).values →
    (watched cfg usePca (es ++ [.learn d])).fresh = (watched cfg usePca es).fresh →
      Q (es ++ [.learn d]) P
  update : ∀ {es d P v}, Q es P →
    (watched cfg usePca (es ++ [.learn d])).values = (watched cfg usePca es).values ++ [v] →
    (watched cfg usePca (es ++ [.learn d])).fresh = true → Q (es ++ [.learn d]) (update cfg P v)
  test : ∀ {es K}, (watched cfg usePca es).kept = some K → Q es K.params →
    Q (es ++ [.test]) (testEndPoint cfg K.params).1

/-- An end point is unknown until it is in an interval's map. -/
theorem unknown_of_append {es : List Visit} {e : Visit}
    (h : (watched cfg usePca (es ++ [e])).kept = none) :
    (watched cfg usePca es).kept = none ∧ e = .test := by
  rw [watched_append] at h
  cases e with
  | test =>
    cases hkept : (watched cfg usePca es).kept with
    | none => exact ⟨rfl, rfl⟩
    | some K => simp [Watched.visit, visit, hkept] at h
  | learn d =>
    cases hkept : (watched cfg usePca es).kept with
    | none =>
      obtain ⟨K', hvisit, -⟩ := visit_new cfg usePca d
      simp [Watched.visit, hkept, hvisit] at h
    | some K =>
      obtain ⟨K', hvisit, -⟩ := visit_known cfg usePca K d
      simp [Watched.visit, hkept, hvisit] at h

@[simp] theorem watched_values_test (es : List Visit) :
    (watched cfg usePca (es ++ [.test])).values = (watched cfg usePca es).values := by
  simp [Watched.visit, received]

@[simp] theorem watched_fresh_test (es : List Visit) :
    (watched cfg usePca (es ++ [.test])).fresh = false := by
  simp [Watched.visit]

/-- Before that it is given nothing. -/
theorem watched_values_of_unknown (es : List Visit) (h : (watched cfg usePca es).kept = none) :
    (watched cfg usePca es).values = [] := by
  induction es using List.reverseRecOn with
  | nil => rfl
  | append_singleton es e ih =>
    obtain ⟨hkept, rfl⟩ := unknown_of_append h
    rw [watched_values_test, ih hkept]

theorem Lasting.run {Q : List Visit → Params ν → Prop} (hQ : Lasting cfg usePca Q) (es : List Visit)
    {K : Kept ν σ} (hK : (watched cfg usePca es).kept = some K) : Q es K.params := by
  induction es using List.reverseRecOn generalizing K with
  | nil => cases hK
  | append_singleton es e ih =>
    rw [watched_append] at hK
    cases hkept : (watched cfg usePca es).kept with
    | none =>
      have hvalues := watched_values_of_unknown es hkept
      cases e with
      | test => simp [Watched.visit, visit, hkept] at hK
      | learn d =>
        obtain ⟨K', hvisit, hparams⟩ := visit_new cfg usePca d
        simp only [Watched.visit, hkept, hvisit, Option.some.injEq] at hK
        obtain rfl := hK
        cases hr : received usePca (none : Option (Kept ν σ)) (.learn d) with
        | none =>
          rw [hparams, hr]
          exact hQ.startPca hkept (by simp [Watched.visit, hkept, hvalues, hr])
        | some v =>
          rw [hparams, hr]
          exact hQ.start hkept (by simp [Watched.visit, hkept, hvalues, hr])
    | some K0 =>
      have hP := ih hkept
      cases e with
      | test =>
        simp only [Watched.visit, visit, hkept, Option.some.injEq] at hK
        obtain rfl := hK
        exact hQ.test hkept hP
      | learn d =>
        obtain ⟨K', hvisit, hparams⟩ := visit_known cfg usePca K0 d
        simp only [Watched.visit, hkept, hvisit, Option.some.injEq] at hK
        obtain rfl := hK
        cases hr : received usePca (some K0) (.learn d) with
        | none =>
          rw [hparams, hr]
          exact hQ.idle hP (by simp [Watched.visit, hkept, hr]) (by simp [Watched.visit, hkept, hr])
        | some v =>
          rw [hparams, hr]
          exact hQ.update hP (by simp [Watched.visit, hkept, hr])
            (by simp [Watched.visit, hkept, hr])

/-! ## The tests of a round -/

inductive WindowTest where
  | wmw | ks | pcs
  deriving DecidableEq, Repr

namespace WindowTest

omit [Double ν] in
/-- What `init` makes of the list of tests. -/
def enabled (cfg : StatConfig ν) : WindowTest → Bool
  | wmw => cfg.enableWmwTest
  | ks => cfg.enableKsTest
  | pcs => cfg.enablePcsTest

/-- The p-value of a test on the samples of metric number `i`. -/
def pValue (cfg : StatConfig ν) (P : Params ν) (i : ℕ) (t : WindowTest) : ν :=
  let sampleOld := getSingleMetric P.old i
  let sampleNew := getSingleMetric P.new i
  match t with
  | wmw => cfg.wmwTest sampleOld sampleNew cfg.wmwTwoSided
  | ks => cfg.ksTest sampleOld sampleNew
  | pcs => cfg.pcsTest sampleOld sampleNew

/-- Whether a test round sees an attack on metric number `i`; `none` where the test is not made.
mirrors detectionmodules/statmodules/wkp-module/stat-main.cpp:1207-1214,1764-1823 -/
def verdict (cfg : StatConfig ν) (P : Params ν) (i : ℕ) (t : WindowTest) : Option Bool :=
  if P.wkpReady cfg && i < cfg.metrics.length && (t.enabled cfg && P.wkpUpdated) then
    some (decide (t.pValue cfg P i < cfg.significanceLevel))
  else none

def state (m : WkpMetric) : WindowTest → AlarmState
  | wmw => m.wmw
  | ks => m.ks
  | pcs => m.pcs

def result (r : WkpResult ν) : WindowTest → TestResult ν
  | wmw => r.wmw
  | ks => r.ks
  | pcs => r.pcs

/-- The loop of `wkp_test` does one thing with each of the tests. -/
theorem wkpTestMetric_eq (cfg : StatConfig ν) (P : Params ν) (i : ℕ) (m : WkpMetric)
    (t : WindowTest) :
    (t.result (wkpTestMetric cfg P i m).1, t.state (wkpTestMetric cfg P i m).2) =
      statTest cfg (t.enabled cfg) P.wkpUpdated (t.pValue cfg P i) (t.state m) := by
  cases t <;> rfl

/-- What a test round reports: where a test is made its p-value and verdict, and 1 where it is not.
-/
theorem result_eq {P : Params ν} {results : List (WkpResult ν)}
    (hreport : (testEndPoint cfg P).2.wkp = some results) {i : ℕ} (hi : i < cfg.metrics.length)
    {r : WkpResult ν} (hr : results[i]? = some r) (t : WindowTest) :
    match t.verdict cfg P i with
    | some attack => (t.result r).statistic = t.pValue cfg P i ∧ (t.result r).attack = attack
    | none => (t.result r).statistic = ((1 : Int) : ν) := by
  by_cases hready : P.wkpReady cfg = true
  · simp only [testEndPoint, hready, if_true, Option.map_some, Option.some.injEq] at hreport
    obtain rfl := hreport
    obtain ⟨p, hp, rfl⟩ := Option.map_eq_some_iff.mp (List.getElem?_map.symm.trans hr)
    obtain ⟨m, -, rfl⟩ := Option.map_eq_some_iff.mp (List.getElem?_mapIdx.symm.trans hp)
    have hresult := congrArg Prod.fst (wkpTestMetric_eq cfg P i m t)
    dsimp only at hresult
    by_cases hmade : (t.enabled cfg && P.wkpUpdated) = true
    · simp [verdict, hready, hi, hmade, hresult, statTest, AlarmState.judge]
    · simp [verdict, hmade, hresult, statTest]
  · simp [testEndPoint, hready] at hreport

end WindowTest

/-- `cusum_update` leaves the samples and their tests alone. -/
theorem cusumUpdate_wkp (cfg : StatConfig ν) (P : Params ν) (v : List Int64) :
    ∃ cusum nr ready updated, cusumUpdate cfg P v = { P with
      cusum := cusum, cusumLearningPhaseNr := nr, readyToTest := ready, cusumUpdated :=
        updated } := by
  cases hready : P.readyToTest with
  | true =>
    rw [cusumUpdate_ready hready]
    exact ⟨_, _, _, _, rfl⟩
  | false =>
    by_cases hlt : P.cusumLearningPhaseNr < cfg.cusumLearningPhase.toNat
    · rw [cusumUpdate_accumulate hready hlt]
      exact ⟨_, _, _, _, rfl⟩
    · rw [cusumUpdate_conclude hready (Nat.le_of_not_lt hlt)]
      exact ⟨_, _, _, _, rfl⟩

theorem update_wkp (hwkp : cfg.enableWkpTest = true) (P : Params ν) (v : List Int64) :
    ∃ cusum nr ready updated, update cfg P v = { wkpUpdate cfg P v with
      cusum := cusum, cusumLearningPhaseNr := nr, readyToTest := ready, cusumUpdated :=
        updated } := by
  unfold update
  rw [if_pos hwkp]
  dsimp only
  split
  · exact cusumUpdate_wkp cfg _ v
  · exact ⟨_, _, _, _, rfl⟩

/-- Without CUSUM an update is one of the samples. -/
theorem update_samplesOnly (hcusum : cfg.enableCusumTest = false) (P : Params ν) (v : List Int64) :
    ∃ old new updated, update cfg P v = { P with old := old, new := new, wkpUpdated := updated } := by
  simp only [update, hcusum, Bool.false_eq_true, if_false]
  split
  · exact wkpUpdate_cusum cfg P v
  · exact ⟨P.old, P.new, P.wkpUpdated, rfl⟩

/-- A test round is one of the samples, where these are full, and changes CUSUM's part. -/
theorem testEndPoint_wkp (cfg : StatConfig ν) (P : Params ν) :
    ∃ cusum updated, (testEndPoint cfg P).1 =
      { if P.wkpReady cfg then (wkpTest cfg P).1 else P with cusum := cusum, cusumUpdated := updated } := by
  have hcusum : ∀ Q : Params ν, ∃ cusum updated,
      ((if Q.cusumReady cfg then some (cusumTest cfg Q) else none).map Prod.fst).getD Q =
        { Q with cusum := cusum, cusumUpdated := updated } := fun Q => by
    split
    · exact ⟨_, _, rfl⟩
    · exact ⟨_, _, rfl⟩
  unfold testEndPoint
  split
  · exact hcusum _
  · exact hcusum _

/-! ## When they are made -/

/-- Both samples are full, and the end point was given a value since its last test round. -/
def Due (cfg : StatConfig ν) (fresh : Bool) (P : Params ν) : Prop :=
  P.old.length = cfg.sampleOldSize.toNat ∧ P.new.length = cfg.sampleNewSize.toNat ∧ fresh = true

/-- The sizes of the samples of an end point that was given some values, and when they were moved
since the last test round. -/
structure Paced (cfg : StatConfig ν) (count : ℕ) (fresh : Bool) (P : Params ν) : Prop where
  old : P.old.length = min cfg.sampleOldSize.toNat count
  new : P.new.length = min cfg.sampleNewSize.toNat (count - cfg.sampleOldSize.toNat)
  updated : P.wkpUpdated = true ↔ fresh = true ∧
    cfg.sampleOldSize.toNat + cfg.sampleNewSize.toNat < count

namespace Paced

variable {count : ℕ} {fresh : Bool} {P : Params ν}

omit [Double ν] in
theorem wkpUpdate (h : Paced cfg count fresh P) (hold : 1 ≤ cfg.sampleOldSize.toNat)
    (hnew : 1 ≤ cfg.sampleNewSize.toNat) (v : List Int64) :
    Paced cfg (count + 1) true (wkpUpdate cfg P v) := by
  obtain ⟨hlenOld, hlenNew, hupdated⟩ := h
  unfold Wkp.wkpUpdate
  split
  · -- `Old` is filled
    refine ⟨?_, by dsimp only; omega, ?_⟩
    · rw [List.length_append, List.length_singleton]
      omega
    · simp only [hupdated, true_and]
      omega
  split
  · -- `New` is filled
    refine ⟨by dsimp only; omega, ?_, ?_⟩
    · rw [List.length_append, List.length_singleton]
      omega
    · simp only [hupdated, true_and]
      omega
  · -- both are full, and moved
    have hmoved : cfg.sampleOldSize.toNat + cfg.sampleNewSize.toNat < count + 1 := by omega
    have hfresh : true = true ↔ true = true ∧
        cfg.sampleOldSize.toNat + cfg.sampleNewSize.toNat < count + 1 := by
      simpa using hmoved
    have hlen : (P.new.tail ++ [v]).length = P.new.length := by
      rw [List.length_append, List.length_tail, List.length_singleton]
      omega
    dsimp only
    split
    · exact ⟨by dsimp only; omega, by dsimp only; omega, hfresh⟩
    · have hhead : P.new.head?.toList.length = 1 := by
        cases hP : P.new with
        | nil =>
          rw [hP, List.length_nil] at hlenNew
          omega
        | cons => rfl
      refine ⟨?_, by dsimp only; omega, hfresh⟩
      rw [List.length_append, List.length_tail, hhead]
      omega

theorem update (hwkp : cfg.enableWkpTest = true) (h : Paced cfg count fresh P)
    (hold : 1 ≤ cfg.sampleOldSize.toNat) (hnew : 1 ≤ cfg.sampleNewSize.toNat) (v : List Int64) :
    Paced cfg (count + 1) true (update cfg P v) := by
  obtain ⟨cusum, nr, ready, updated, heq⟩ := update_wkp hwkp P v
  obtain ⟨hlenOld, hlenNew, hupdated⟩ := h.wkpUpdate hold hnew v
  rw [heq]
  exact ⟨hlenOld, hlenNew, hupdated⟩

omit [Double ν] in
/-- Samples that were moved are full. -/
theorem ready (hwkp : cfg.enableWkpTest = true) (h : Paced cfg count fresh P)
    (hfull : cfg.sampleOldSize.toNat + cfg.sampleNewSize.toNat ≤ count) : P.wkpReady cfg = true := by
  have hlen := h.new
  simp only [Params.wkpReady, hwkp, Bool.true_and, decide_eq_true_eq]
  omega

theorem test (hwkp : cfg.enableWkpTest = true) (h : Paced cfg count fresh P) :
    Paced cfg count false (testEndPoint cfg P).1 := by
  obtain ⟨cusum, updated, heq⟩ := testEndPoint_wkp cfg P
  rw [heq]
  by_cases hready : P.wkpReady cfg = true
  · rw [if_pos hready]
    exact ⟨h.old, h.new, by simp [wkpTest]⟩
  · rw [if_neg hready]
    have hfew : count < cfg.sampleOldSize.toNat + cfg.sampleNewSize.toNat :=
      Nat.lt_of_not_le fun hfull => hready (h.ready hwkp hfull)
    refine ⟨h.old, h.new, ?_⟩
    simp only [h.updated, Bool.false_eq_true, false_and, iff_false, not_and]
    omega

end Paced

/-- The samples of an end point in any run of visits. -/
theorem paced_run (hwkp : cfg.enableWkpTest = true) (hold : 1 ≤ cfg.sampleOldSize.toNat)
    (hnew : 1 ≤ cfg.sampleNewSize.toNat) (es : List Visit) {K : Kept ν σ}
    (hK : (watched cfg usePca es).kept = some K) :
    Paced cfg (watched cfg usePca es).values.length (watched cfg usePca es).fresh K.params := by
  have hlasting : Lasting cfg usePca fun es P =>
      Paced cfg (watched cfg usePca es).values.length (watched cfg usePca es).fresh P := {
    start := fun {es d v} _ hvalues => by
      rw [hvalues]
      refine ⟨by simp [Params.start, hwkp]; omega, by simp [Params.start]; omega, ?_⟩
      simp only [Params.start, Bool.false_eq_true, false_iff, not_and, List.length_singleton]
      omega
    startPca := fun {es d} _ hvalues => by
      rw [hvalues]
      exact ⟨by simp [Params.startPca], by simp [Params.startPca, Params.start], by
        simp [Params.startPca, Params.start]⟩
    idle := fun {es d P} h hvalues hfresh => by rwa [hvalues, hfresh]
    update := fun {es d P v} h hvalues hfresh => by
      rw [hvalues, hfresh, List.length_append]
      exact h.update hwkp hold hnew v
    test := fun {es K} _ h => by
      rw [watched_values_test, watched_fresh_test]
      exact h.test hwkp }
  exact hlasting.run es hK

/-- An enabled test of a metric in any test round of any run: it is made exactly if it is due,
unless the end point was given as many values as the samples hold, the last of them since its last
test round. With fewer they are not full, with more they were moved. -/
theorem due_iff
    (hwkp : cfg.enableWkpTest = (cfg.enableWmwTest || cfg.enableKsTest || cfg.enablePcsTest))
    (hold : 1 ≤ cfg.sampleOldSize.toNat) (hnew : 1 ≤ cfg.sampleNewSize.toNat)
    (usePca : Option (PcaConfig σ)) (es : List Visit) {K : Kept ν σ}
    (hK : (watched cfg usePca es).kept = some K) {i : ℕ} (hi : i < cfg.metrics.length)
    {t : WindowTest} (ht : t.enabled cfg = true) :
    let w := watched cfg usePca es
    ((t.verdict cfg K.params i).isSome = true ↔ Due cfg w.fresh K.params) ↔
      ¬ (w.fresh = true ∧ w.values.length = cfg.sampleOldSize.toNat + cfg.sampleNewSize.toNat) := by
  intro w
  have hwkp : cfg.enableWkpTest = true := by
    rw [hwkp]
    cases t <;> simp_all [WindowTest.enabled]
  have hpaced : Paced cfg w.values.length w.fresh K.params := paced_run hwkp hold hnew es hK
  have hmade : (t.verdict cfg K.params i).isSome = true ↔
      w.fresh = true ∧ cfg.sampleOldSize.toNat + cfg.sampleNewSize.toNat < w.values.length := by
    rw [← hpaced.updated]
    unfold WindowTest.verdict
    constructor
    · intro hsome
      split at hsome
      · rename_i hcond
        simp only [ht, Bool.and_eq_true, true_and] at hcond
        exact hcond.2
      · cases hsome
    · intro hupdated
      have hready := hpaced.ready hwkp (hpaced.updated.mp hupdated).2.le
      simp [hready, hi, ht, hupdated]
  have hdue : Due cfg w.fresh K.params ↔
      w.fresh = true ∧ cfg.sampleOldSize.toNat + cfg.sampleNewSize.toNat ≤ w.values.length := by
    rw [Due, hpaced.old, hpaced.new]
    constructor
    · rintro ⟨holdFull, hnewFull, hfresh⟩
      exact ⟨hfresh, by omega⟩
    · rintro ⟨hfresh, hfull⟩
      exact ⟨by omega, by omega, hfresh⟩
  rw [hmade, hdue]
  cases w.fresh with
  | false => simp
  | true =>
    simp only [true_and]
    omega

/-- The fifth value moves the samples, and the test that sees its attack is made. -/
theorem due_iff_fifth :
    let es := [.learn [1], .learn [2], .learn [3], .learn [4], .test, .learn [9]]
    ∃ K : Kept Int Unit, (watched pausing none es).kept = some K ∧
      (WindowTest.wmw.verdict pausing K.params 0).isSome = true := by
  have hdue := @due_iff Int Unit _ pausing rfl (by decide) (by decide) none
    [.learn [1], .learn [2], .learn [3], .learn [4], .test, .learn [9]] _ rfl 0 (by decide) .wmw rfl
  exact ⟨_, rfl, (hdue.mpr fun h => absurd h.2 (by decide)).mpr ⟨rfl, rfl, rfl⟩⟩

/-- **Counterexample**: the fourth value fills the second sample, and the test is not made. -/
theorem due_not_made : ¬ ∀ (cfg : StatConfig Int) (es : List Visit) (K : Kept Int Unit) (i : ℕ)
    (t : WindowTest), cfg.enableWkpTest =
      (cfg.enableWmwTest || cfg.enableKsTest || cfg.enablePcsTest) →
    1 ≤ cfg.sampleOldSize.toNat → 1 ≤ cfg.sampleNewSize.toNat →
    (watched cfg none es).kept = some K → i < cfg.metrics.length → t.enabled cfg = true →
    ((t.verdict cfg K.params i).isSome = true ↔
      Due cfg (watched (σ := Unit) cfg none es).fresh K.params) := by
  intro hall
  have hmade :=
    (hall pausing [.learn [1], .learn [2], .learn [3], .learn [4]] _ 0 .wmw rfl (by decide)
    (by decide) rfl (by decide) rfl).mpr ⟨rfl, rfl, rfl⟩
  exact absurd hmade (by decide)

end Topas.Wkp
