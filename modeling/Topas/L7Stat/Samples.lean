import Mathlib.Data.List.ReduceOption
import Topas.Core.Window
import Topas.L7Stat.Independence

/-!
# The samples of an end point

`Stat::wkp_update` keeps two samples of an end point's values: `Old`, the sample that the tests
compare against, and `New`, the most recent values. With PCA the values are the principal
components, and the samples begin when the components are known.

* `sample_windows`: in every run of visits of one end point the samples are the two windows
  on the values given to it.
* `Stat.visits`: what the module keeps of an end point is what such a run leaves.
-/
namespace Topas.Wkp

variable {ν σ : Type}

/-- The state of the principal component analysis of one end point; `sums` stands for the sums, the
standard deviations and the matrices. -/
structure Pca (σ : Type) where
  pcaReady : Bool
  pcaLearningPhaseNr : Int32
  sums : σ

/-- `pca_learning_phase`, and what the module does with its matrices. -/
structure PcaConfig (σ : Type) where
  pcaLearningPhase : Int32
  init : σ
  addToSums : σ → List Int64 → σ
  eigenvectors : σ → σ
  transform : σ → List Int64 → List Int64

/-- Without values it returns an empty vector.
mirrors detectionmodules/statmodules/wkp-module/stat-main.cpp:1418-1538 -/
def extractPcaData (pca : PcaConfig σ) (P : Pca σ) (v : List Int64) : Pca σ × List Int64 :=
  if !P.pcaReady && P.pcaLearningPhaseNr < pca.pcaLearningPhase then
    ({ P with
        sums := pca.addToSums P.sums v
        pcaLearningPhaseNr := P.pcaLearningPhaseNr + 1 }, [])
  else if !P.pcaReady && P.pcaLearningPhaseNr = pca.pcaLearningPhase then
    ({ P with
        sums := pca.eigenvectors P.sums
        pcaReady := true }, [])
  else (P, pca.transform P.sums v)

/-- What is kept of an end point; `pca` is there with `use_pca`. -/
structure Kept (ν σ : Type) where
  params : Params ν
  pca : Option (Pca σ)

/-- A value that the samples are given, and whether it finds both full and `Old` paused. -/
structure Given where
  value : List Int64
  paused : Bool
  deriving DecidableEq, Repr

/-- `Stat::test` comes to an end point when the interval's map has it, and when it is tested. -/
inductive Visit where
  | learn (metricData : List Int64)
  | test
  deriving DecidableEq, Repr

/-- Whether the flags of the last tests pause the update of `Old`.
mirrors detectionmodules/statmodules/wkp-module/stat-main.cpp:1605-1612 -/
def Params.pausesUpdate (cfg : StatConfig ν) (P : Params ν) : Bool :=
  let wmw := P.wkp.any (·.wmw.lastWasAttack)
  let ks := P.wkp.any (·.ks.lastWasAttack)
  let pcs := P.wkp.any (·.pcs.lastWasAttack)
  cfg.pauseUpdateWhenAttack = 1 && (wmw || ks || pcs) ||
    cfg.pauseUpdateWhenAttack = 2 && (wmw && ks && pcs)

/-- The samples. -/
def Params.samples (P : Params ν) : Window.Windows (List Int64) := ⟨P.old, P.new⟩

theorem wkpUpdate_samples (cfg : StatConfig ν) (P : Params ν) (v : List Int64) :
    (wkpUpdate cfg P v).samples =
      P.samples.push cfg.sampleOldSize.toNat cfg.sampleNewSize.toNat (P.pausesUpdate cfg) v := by
  unfold wkpUpdate Window.Windows.push Params.samples
  dsimp only
  split
  · rfl
  split
  · rfl
  unfold Params.pausesUpdate
  dsimp only
  split <;> rfl

section

variable [Double ν]

/-- The parameters of a new end point with PCA: all vectors are there, and no value.
mirrors detectionmodules/statmodules/wkp-module/stat-main.cpp:1003-1035 -/
def Params.startPca (cfg : StatConfig ν) : Params ν :=
  let zero := ((0 : Int) : ν)
  { Params.start cfg [] with
    old := []
    cusum :=
      if cfg.enableCusumTest then .replicate cfg.metrics.length
        ⟨zero, zero, zero, 0, ⟨false, 0⟩⟩ else []
    cusumLearningPhaseNr := 0 }

/-- `wkp_update` and `cusum_update`, each where its tests are enabled. -/
def update (cfg : StatConfig ν) (P : Params ν) (v : List Int64) : Params ν :=
  let P := if cfg.enableWkpTest then wkpUpdate cfg P v else P
  if cfg.enableCusumTest then cusumUpdate cfg P v else P

/-- What `wkp_update` is given in `update`. -/
def givenBy (cfg : StatConfig ν) (P : Params ν) (v : List Int64) : Option Given :=
  if cfg.enableWkpTest then
    some ⟨v, P.samples.loses cfg.sampleOldSize.toNat cfg.sampleNewSize.toNat (P.pausesUpdate cfg)⟩
  else none

/-- A visit, and what the samples are given in it.
mirrors detectionmodules/statmodules/wkp-module/stat-main.cpp:1000-1100 -/
def visit (cfg : StatConfig ν) (usePca : Option (PcaConfig σ)) :
    Option (Kept ν σ) → Visit → Option (Kept ν σ) × Option Given
  | none, .learn metricData =>
    match usePca with
    | none =>
      (some ⟨.start cfg metricData, none⟩,
        if cfg.enableWkpTest then some ⟨metricData, false⟩ else none)
    | some pca =>
      (some ⟨.startPca cfg, some (extractPcaData pca ⟨false, 0, pca.init⟩ metricData).1⟩, none)
  | some E, .learn metricData =>
    match usePca, E.pca with
    | some pca, some P =>
      let extracted := extractPcaData pca P metricData
      if !extracted.1.pcaReady || extracted.2.isEmpty then
        (some { E with pca := some extracted.1 }, none)
      else
        (some ⟨update cfg E.params extracted.2, some extracted.1⟩, givenBy cfg E.params extracted.2)
    | _, _ =>
      (some { E with params := update cfg E.params metricData }, givenBy cfg E.params metricData)
  | none, .test => (none, none)
  | some E, .test => (some { E with params := (testEndPoint cfg E.params).1 }, none)

/-! ## The windows -/

/-- The samples are the two windows on the values given so far. -/
structure Sampled (cfg : StatConfig ν) (given : List Given) (P : Params ν) : Prop where
  holds : Window.Holds cfg.sampleOldSize.toNat cfg.sampleNewSize.toNat (given.map Given.value)
    P.samples
  exact : (∀ g ∈ given, g.paused = false) →
    Window.Exact cfg.sampleOldSize.toNat (given.map Given.value) P.samples

theorem cusumUpdate_samples (cfg : StatConfig ν) (P : Params ν) (v : List Int64) :
    (cusumUpdate cfg P v).samples = P.samples := by
  unfold cusumUpdate
  dsimp only
  repeat' split
  all_goals rfl

theorem testEndPoint_samples (cfg : StatConfig ν) (P : Params ν) :
    (testEndPoint cfg P).1.samples = P.samples := by
  have hwkp :
    ((if P.wkpReady cfg then some (wkpTest cfg P) else none).map Prod.fst |>.getD P).samples =
      P.samples := by
    split <;> rfl
  have hcusum : ∀ Q : Params ν,
      ((if Q.cusumReady cfg then some (cusumTest cfg Q) else none).map Prod.fst |>.getD Q).samples =
        Q.samples := by
    intro Q
    split <;> rfl
  exact (hcusum _).trans hwkp

theorem update_samples (cfg : StatConfig ν) (P : Params ν) (v : List Int64) :
    (update cfg P v).samples =
      if cfg.enableWkpTest then
        P.samples.push cfg.sampleOldSize.toNat cfg.sampleNewSize.toNat (P.pausesUpdate cfg) v
      else P.samples := by
  unfold update
  dsimp only
  by_cases hwkp : cfg.enableWkpTest = true <;> by_cases hcusum : cfg.enableCusumTest = true <;>
    simp [hwkp, hcusum, cusumUpdate_samples, wkpUpdate_samples]

namespace Sampled

variable {cfg : StatConfig ν} {given : List Given} {P : Params ν}

omit [Double ν] in
theorem of_samples (h : Sampled cfg given P) {Q : Params ν} (hQ : Q.samples = P.samples) :
    Sampled cfg given Q :=
  ⟨hQ ▸ h.holds, hQ ▸ h.exact⟩

theorem update (h : Sampled cfg given P) (hold : 1 ≤ cfg.sampleOldSize.toNat)
    (hnew : 1 ≤ cfg.sampleNewSize.toNat) (v : List Int64) :
    Sampled cfg (given ++ (givenBy cfg P v).toList) (update cfg P v) := by
  by_cases hwkp : cfg.enableWkpTest = true
  · have hsamples := update_samples cfg P v
    rw [if_pos hwkp] at hsamples
    simp only [givenBy, hwkp, if_true, Option.toList_some]
    refine ⟨?_, ?_⟩
    · rw [hsamples, List.map_append]
      exact h.holds.push hold hnew _ v
    · intro hpaused
      rw [hsamples, List.map_append]
      have hnow := hpaused _ (List.mem_append_right _ (List.mem_singleton_self _))
      exact
        (h.exact fun g hg => hpaused g (List.mem_append_left _ hg)).push h.holds hold hnew hnow v
  · have hsamples := update_samples cfg P v
    rw [if_neg hwkp] at hsamples
    simp only [givenBy, hwkp]
    simpa using h.of_samples hsamples

/-- A new end point has its first value, or with PCA none. -/
theorem start (hold : 1 ≤ cfg.sampleOldSize.toNat) (hnew : 1 ≤ cfg.sampleNewSize.toNat)
    (v : List Int64) :
    Sampled cfg (if cfg.enableWkpTest then some (Given.mk v false) else none).toList
    (.start cfg v) := by
  have hempty : Sampled cfg [] { Params.start cfg v with old := [] } :=
    ⟨Window.holds_nil _ _, fun _ => Window.exact_nil _⟩
  cases hwkp : cfg.enableWkpTest with
  | true =>
    have hpush : (Params.start cfg v).samples = Window.Windows.push cfg.sampleOldSize.toNat
        cfg.sampleNewSize.toNat false ⟨[], []⟩ v := by
      have hne : ([] : List (List Int64)).length ≠ cfg.sampleOldSize.toNat := by
        rw [List.length_nil]
        omega
      rw [Window.Windows.push, if_pos hne]
      simp [Params.start, Params.samples, hwkp]
    refine ⟨?_, fun _ => ?_⟩
    · rw [hpush]
      exact (Window.holds_nil _ _).push hold hnew false v
    · rw [hpush]
      exact (Window.exact_nil _).push (Window.holds_nil _ _) hold hnew
        (by simp [Window.Windows.loses]) v
  | false =>
    refine hempty.of_samples ?_
    simp [Params.start, Params.samples, hwkp]

end Sampled

/-- Before the first visit nothing is given. -/
def Follows (cfg : StatConfig ν) (given : List Given) : Option (Kept ν σ) → Prop
  | none => given = []
  | some K => Sampled cfg given K.params

section

variable {cfg : StatConfig ν} {usePca : Option (PcaConfig σ)} {E : Option (Kept ν σ)}
    {given : List Given}

theorem Follows.visit (usePca : Option (PcaConfig σ)) (hold : 1 ≤ cfg.sampleOldSize.toNat)
    (hnew : 1 ≤ cfg.sampleNewSize.toNat)
    (h : Follows cfg given E) (e : Visit) :
    Follows cfg (given ++ (visit cfg usePca E e).2.toList) (visit cfg usePca E e).1 := by
  cases E with
  | none =>
    have hgiven : given = [] := h
    rw [hgiven]
    cases e with
    | test => simp [Wkp.visit, Follows]
    | learn v =>
      cases usePca with
      | none => simpa [Wkp.visit, Follows] using Sampled.start hold hnew v
      | some pca => exact ⟨Window.holds_nil _ _, fun _ => Window.exact_nil _⟩
  | some K =>
    have hK : Sampled cfg given K.params := h
    cases e with
    | test => simpa [Wkp.visit, Follows] using hK.of_samples (testEndPoint_samples cfg K.params)
    | learn v =>
      simp only [Wkp.visit]
      split
      · split
        · simpa [Follows] using hK
        · exact hK.update hold hnew _
      · exact hK.update hold hnew v

/-- What the samples are given in a run of visits. -/
def givenIn (cfg : StatConfig ν) (usePca : Option (PcaConfig σ)) (E : Option (Kept ν σ))
    (es : List Visit) :
    List Given :=
  (Machine.outputs (visit cfg usePca) E es).reduceOption

theorem Follows.run (hold : 1 ≤ cfg.sampleOldSize.toNat) (hnew : 1 ≤ cfg.sampleNewSize.toNat)
    (h : Follows cfg given E) (es : List Visit) :
    Follows cfg (given ++ givenIn cfg usePca E es) (Machine.final (Wkp.visit cfg usePca) E es) := by
  induction es generalizing E given with
  | nil => simpa [givenIn, Machine.outputs, Machine.final] using h
  | cons e es ih =>
    have hrest := ih (h.visit usePca hold hnew e)
    have hsplit : givenIn cfg usePca E (e :: es) =
        (Wkp.visit cfg usePca E e).2.toList ++ givenIn cfg usePca
            (Wkp.visit cfg usePca E e).1 es := by
      cases hout : (Wkp.visit cfg usePca E e).2 <;>
        simp [givenIn, Machine.outputs, hout]
    rw [hsplit, ← List.append_assoc]
    exact hrest

end

/-- The samples after any run of visits, with `m` values given: `New` has the last ones behind the
first `n_old`, `Old` values from before them in their order, and the ones just before where no
update of `Old` was paused. -/
theorem sample_windows (cfg : StatConfig ν) (usePca : Option (PcaConfig σ))
    (hold : 1 ≤ cfg.sampleOldSize.toNat) (hnew : 1 ≤ cfg.sampleNewSize.toNat) (es : List Visit) :
    let given := givenIn cfg usePca none es
    let values := given.map Given.value
    ∀ K ∈ Machine.final (visit cfg usePca) none es,
      K.params.old.length ≤ cfg.sampleOldSize.toNat ∧
      K.params.new.length ≤ cfg.sampleNewSize.toNat ∧
      (K.params.new ≠ [] → K.params.old.length = cfg.sampleOldSize.toNat) ∧
      K.params.new = values.rtake
        (min cfg.sampleNewSize.toNat (values.length - cfg.sampleOldSize.toNat)) ∧
      K.params.old.Sublist (values.rdrop K.params.new.length) ∧
      ((∀ g ∈ given, g.paused = false) →
        K.params.old = (values.rdrop K.params.new.length).rtake cfg.sampleOldSize.toNat) := by
  intro given values K hK
  have hrun : Follows cfg ([] ++ given) (Machine.final (visit cfg usePca) none es) :=
    Follows.run (E := none) hold hnew rfl es
  rw [hK] at hrun
  have hsampled : Sampled cfg given K.params := hrun
  have hw := hsampled.holds
  exact ⟨hw.length_old_le, hw.length_new_le, hw.old_full, hw.new, hw.old, hsampled.exact⟩

/-- Windows of two values each. The test sees an attack where the newest value is above 8, and an
update is paused while it does. -/
def pausing : StatConfig Int :=
  { Stat.cusumOnly with
    pauseUpdateWhenAttack := 1
    enableCusumTest := false
    enableWmwTest := true
    enableWkpTest := true
    sampleOldSize := 2
    sampleNewSize := 2
    significanceLevel := 1
    wmwTest := fun _ new _ => if new.any (8 < ·) then 0 else 1 }

/-- Six values, of which the fifth is an attack: the sixth moves `New` alone, and `[4]` is lost. -/
theorem sample_windows_attack :
    let es :=
      [.learn [1], .test, .learn [2], .learn [3], .learn [4], .test, .learn [9], .test, .learn [6]]
    (Machine.final (visit pausing (none : Option (PcaConfig Unit))) none es).map
          (fun K => (K.params.old, K.params.new)) = some ([[2], [3]], [[9], [6]]) ∧
      (givenIn pausing (none : Option (PcaConfig Unit)) none es).map Given.paused =
        [false, false, false, false, false, true] ∧
      ∀ K ∈ Machine.final (visit pausing (none : Option (PcaConfig Unit))) none es,
        K.params.old.Sublist [[1], [2], [3], [4]] := by
  refine ⟨by decide, by decide, ?_⟩
  intro K hK
  obtain ⟨_, _, _, _, hold, _⟩ :=
    sample_windows pausing (none : Option (PcaConfig Unit)) (by decide)
    (by decide) _ K hK
  have hnew : K.params.new.length = 2 := by
    obtain rfl := Option.mem_unique hK (by rfl)
    rfl
  rwa [hnew] at hold

/-! ### The module -/

/-- What the module keeps without PCA. -/
def Kept.ofParams (P : Params ν) : Kept ν σ := ⟨P, none⟩

theorem visit_learn (cfg : StatConfig ν) (P : Option (Params ν)) (info prev : Info) :
    (visit (σ := σ) cfg none (P.map .ofParams)
        (.learn (extractData cfg.metrics cfg.noiseThreshold info prev))).1 =
      some (.ofParams (learn cfg P info prev)) := by
  cases P <;> rfl

theorem visit_test (cfg : StatConfig ν) (P : Option (Params ν)) :
    (visit (σ := σ) cfg none (P.map .ofParams) .test).1 =
      ((P.map (testEndPoint cfg)).map Prod.fst).map .ofParams := by
  cases P <;> rfl

/-- The visits of an interval. -/
def View.visits (cfg : StatConfig ν) (v : View ν) (empty : Bool) (own : Option Info) : List Visit :=
  if empty then []
  else
    (own.map fun info => Visit.learn
      (extractData cfg.metrics cfg.noiseThreshold info v.prev)).toList ++
      if Stat.makeStatTest cfg v.testCounter then [.test] else []

theorem View.test_visits (cfg : StatConfig ν) (v : View ν) (empty : Bool) (own : Option Info) :
    (v.test cfg empty own).1.params.map .ofParams =
      Machine.final (visit (σ := σ) cfg none) (v.params.map .ofParams)
      (v.visits cfg empty own) := by
  cases empty with
  | true => rfl
  | false =>
    have hlearn : Machine.final (visit (σ := σ) cfg none) (v.params.map .ofParams)
        (own.map fun info => Visit.learn
          (extractData cfg.metrics cfg.noiseThreshold info v.prev)).toList =
          ((own.map fun info => learn cfg v.params info v.prev).or v.params).map .ofParams := by
      cases own with
      | none => rfl
      | some info => exact visit_learn cfg v.params info v.prev
    have hfinal : ∀ es es' : List Visit,
      Machine.final (visit (σ := σ) cfg none) (v.params.map .ofParams)
        (es ++ es') = Machine.final (visit cfg none)
          (Machine.final (visit cfg none) (v.params.map .ofParams) es) es' :=
      fun es es' => List.foldl_append
    simp only [View.test, View.visits, Bool.false_eq_true, if_false, hfinal, hlearn]
    split
    · rw [Machine.final, List.foldl_cons, List.foldl_nil, visit_test]
    · rfl

/-- What the module keeps of an end point is what a run of visits leaves. -/
theorem Stat.visits (cfg : StatConfig ν) (intervals : List Interval) (e : EndPoint) :
    ∃ es, ((Machine.final (test cfg) init intervals).endpointParams.lookup e).map .ofParams =
      Machine.final (visit (σ := σ) cfg none) none es := by
  have hstep : ∀ (s : Stat ν) (data : Interval),
      (∃ es, (s.view e).params.map .ofParams = Machine.final (visit (σ := σ) cfg none) none es) →
        ∃ es, ((s.test cfg data).1.view e).params.map .ofParams =
          Machine.final (visit (σ := σ) cfg none) none es := by
    intro s data ⟨es, hes⟩
    refine ⟨es ++ (s.view e).visits cfg data.entries.isEmpty (data.lookup e), ?_⟩
    rw [(view_test cfg s data e).1, View.test_visits, hes, Machine.final, Machine.final,
      Machine.final,
      List.foldl_append]
  exact Machine.final_keeps
    (C := fun s : Stat ν => ∃ es, (s.view e).params.map .ofParams =
      Machine.final (visit (σ := σ) cfg none) none es) hstep ⟨[], rfl⟩ intervals

end

end Topas.Wkp
