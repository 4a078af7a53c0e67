import Mathlib.Analysis.Real.Sqrt
import Mathlib.Analysis.SpecialFunctions.Log.Basic
import Topas.Core.SampleMoments
import Topas.L7Stat.Samples

/-!
# The learning phase of CUSUM

From the first `cusum_learning_phase` values of an end point `Stat::cusum_update` computes the mean
and the variance that the test begins with. With PCA the values are the principal components.

* `watched`: a run of visits of one end point, with the values that it is given.
* `Learning.run`: while an end point is learned, `mean` and `variance` hold the sums of its values
  and of their squares, as 64-bit products.
* `learned_iff`: with real numbers for `double`, the learning phase ends with the sample mean and
  the unbiased sample variance exactly if the phase is at least 2 long, and for every metric the
  error of the formula for the variance and what the squares lose to their 64 bits cancel out.
-/
namespace Topas.Wkp

variable {ν σ : Type}

/-! ## Runs of visits -/

section Watched

variable [Double ν]

/-- The values that a visit gives to the tests; with PCA there are none until the components are
known.
mirrors detectionmodules/statmodules/wkp-module/stat-main.cpp:1000-1100 -/
def received (usePca : Option (PcaConfig σ)) : Option (Kept ν σ) → Visit → Option (List Int64)
  | none, .learn metricData =>
    match usePca with
    | none => some metricData
    | some _ => none
  | some K, .learn metricData =>
    match usePca, K.pca with
    | some pca, some P =>
      let extracted := extractPcaData pca P metricData
      if !extracted.1.pcaReady || extracted.2.isEmpty then none else some extracted.2
    | _, _ => some metricData
  | _, .test => none

/-- What is kept of an end point, the values that it was given so far, and whether it was given one
since the last test round. -/
structure Watched (ν σ : Type) where
  kept : Option (Kept ν σ)
  values : List (List Int64)
  fresh : Bool

/-- A visit, while one watches. -/
def Watched.visit (cfg : StatConfig ν) (usePca : Option (PcaConfig σ)) (w : Watched ν σ)
    (e : Visit) :
    Watched ν σ where
  kept := (Wkp.visit cfg usePca w.kept e).1
  values := w.values ++ (received usePca w.kept e).toList
  fresh :=
    match e with
    | .learn _ => w.fresh || (received usePca w.kept e).isSome
    | .test => false

/-- A run of visits, from before the end point is known. -/
def watched (cfg : StatConfig ν) (usePca : Option (PcaConfig σ)) (es : List Visit) : Watched ν σ :=
  es.foldl (Watched.visit cfg usePca) ⟨none, [], false⟩

variable {cfg : StatConfig ν} {usePca : Option (PcaConfig σ)}

@[simp] theorem watched_append (es : List Visit) (e : Visit) :
    watched cfg usePca (es ++ [e]) = (watched cfg usePca es).visit cfg usePca e := by
  simp [watched]

/-- One watches what `visit` does. -/
theorem watched_kept (es : List Visit) :
    (watched cfg usePca es).kept = Machine.final (visit cfg usePca) none es := by
  induction es using List.reverseRecOn with
  | nil => rfl
  | append_singleton es e ih =>
    rw [watched_append, Machine.final, List.foldl_append]
    exact congrArg (fun E => (visit cfg usePca E e).1) ih

/-- A visit to a new end point. -/
theorem visit_new (cfg : StatConfig ν) (usePca : Option (PcaConfig σ)) (metricData : List Int64) :
    ∃ K, (visit cfg usePca none (.learn metricData)).1 = some K ∧
      K.params = match received usePca (none : Option (Kept ν σ)) (.learn metricData) with
        | some v => .start cfg v
        | none => .startPca cfg := by
  cases usePca with
  | none => exact ⟨_, rfl, rfl⟩
  | some pca => exact ⟨_, rfl, rfl⟩

/-- A visit to a known end point updates its parameters with the values that it gives. -/
theorem visit_known (cfg : StatConfig ν) (usePca : Option (PcaConfig σ)) (K : Kept ν σ)
    (metricData : List Int64) :
    ∃ K', (visit cfg usePca (some K) (.learn metricData)).1 = some K' ∧
      K'.params = match received usePca (some K) (.learn metricData) with
        | some v => update cfg K.params v
        | none => K.params := by
  obtain ⟨params, known⟩ := K
  cases usePca with
  | none => exact ⟨_, rfl, rfl⟩
  | some pca =>
    cases known with
    | none => exact ⟨_, rfl, rfl⟩
    | some P =>
      simp only [visit, received]
      split <;> exact ⟨_, rfl, rfl⟩

omit [Double ν] in
/-- What `wkp_update` leaves alone. -/
theorem wkpUpdate_cusum (cfg : StatConfig ν) (P : Params ν) (v : List Int64) :
    ∃ old new updated, wkpUpdate cfg P v =
      { P with old := old, new := new, wkpUpdated := updated } := by
  unfold wkpUpdate
  dsimp only
  repeat' split
  all_goals exact ⟨_, _, _, rfl⟩

/-- Where CUSUM is enabled, an update of its part is `cusum_update`. -/
theorem update_cusum (hcusum : cfg.enableCusumTest = true) (P : Params ν) (v : List Int64) :
    ∃ old new updated, update cfg P v =
      cusumUpdate cfg { P with old := old, new := new, wkpUpdated := updated } v := by
  unfold update
  rw [if_pos hcusum]
  split
  · obtain ⟨old, new, updated, heq⟩ := wkpUpdate_cusum cfg P v
    exact ⟨old, new, updated, by rw [heq]⟩
  · exact ⟨P.old, P.new, P.wkpUpdated, rfl⟩

/-- A test round is one of CUSUM, where that is ready, and changes the other test's part. -/
theorem testEndPoint_cusum (cfg : StatConfig ν) (P : Params ν) :
    ∃ wkp updated, (testEndPoint cfg P).1 =
      if P.cusumReady cfg then (cusumTest cfg { P with wkp := wkp, wkpUpdated := updated }).1
      else { P with wkp := wkp, wkpUpdated := updated } := by
  have hcusum : ∀ Q : Params ν,
      ((if Q.cusumReady cfg then some (cusumTest cfg Q) else none).map Prod.fst).getD Q =
        if Q.cusumReady cfg then (cusumTest cfg Q).1 else Q := fun Q => by
    split <;> rfl
  unfold testEndPoint
  by_cases hwkp : P.wkpReady cfg = true
  · refine ⟨(wkpTest cfg P).1.wkp, false, ?_⟩
    rw [if_pos hwkp]
    exact hcusum _
  · refine ⟨P.wkp, P.wkpUpdated, ?_⟩
    rw [if_neg hwkp]
    exact hcusum P

/-! ### The three parts of `cusum_update` -/

section Update

variable {P : Params ν} {v : List Int64}

theorem cusumUpdate_accumulate (h : P.readyToTest = false)
    (hlt : P.cusumLearningPhaseNr < cfg.cusumLearningPhase.toNat) :
    cusumUpdate cfg P v = { P with
      cusumUpdated := true
      cusum := P.cusum.zipWith .accumulate v
      cusumLearningPhaseNr := P.cusumLearningPhaseNr + 1 } := by
  simp [cusumUpdate, h, hlt]

theorem cusumUpdate_conclude (h : P.readyToTest = false)
    (hle : cfg.cusumLearningPhase.toNat ≤ P.cusumLearningPhaseNr) :
    cusumUpdate cfg P v = { P with
      cusumUpdated := true
      cusum := P.cusum.zipWith (.conclude cfg) v
      readyToTest := true } := by
  simp [cusumUpdate, h, Nat.not_lt.mpr hle]

/-- Whether the update of the mean and the variance of one metric is paused. -/
def Params.pausesSmoothing (cfg : StatConfig ν) (P : Params ν) (c : CusumMetric ν) : Bool :=
  let atLeastOneTestWasAttack := P.cusum.any (·.alarm.lastWasAttack)
  let allTestsWereAttacks := P.cusum.all (·.alarm.lastWasAttack)
  cfg.pauseUpdateWhenAttack = 1 && atLeastOneTestWasAttack ||
    cfg.pauseUpdateWhenAttack = 2 && allTestsWereAttacks ||
    cfg.pauseUpdateWhenAttack = 3 && atLeastOneTestWasAttack && c.alarm.lastWasAttack

theorem cusumUpdate_ready (h : P.readyToTest = true) :
    cusumUpdate cfg P v = { P with
      cusumUpdated := true
      cusum := P.cusum.zipWith
        (fun c x => if P.pausesSmoothing cfg c then c.setX x else (c.smooth cfg).setX x) v } := by
  unfold cusumUpdate Params.pausesSmoothing
  simp only [h, Bool.not_true, Bool.false_eq_true, if_false]
  split
  · simp [*]
  · rename_i h1
    split
    · simp [*]
    · rename_i h2
      split
      · rename_i h3
        simp only [Bool.and_eq_true, decide_eq_true_eq] at h3
        simp [h3.1, h3.2]
      · rename_i h3
        simp [h1, h2, h3]

end Update

theorem readyToTest_update (hcusum : cfg.enableCusumTest = true) {P : Params ν}
    (h : P.readyToTest = true) (v : List Int64) : (update cfg P v).readyToTest = true := by
  obtain ⟨old, new, updated, heq⟩ := update_cusum hcusum P v
  rw [heq, cusumUpdate_ready (by exact h)]
  exact h

theorem readyToTest_testEndPoint (cfg : StatConfig ν) (P : Params ν) :
    (testEndPoint cfg P).1.readyToTest = P.readyToTest := by
  obtain ⟨wkp, updated, heq⟩ := testEndPoint_cusum cfg P
  rw [heq]
  split <;> rfl

/-! ### What a run keeps -/

/-- What holds of the parameters of a new end point, and still does after every visit. -/
structure Preserved (cfg : StatConfig ν) (Q : Watched ν σ → Params ν → Prop) : Prop where
  start : ∀ {w v}, v.length = cfg.metrics.length → w.values = [v] → Q w (.start cfg v)
  startPca : ∀ {w}, w.values = [] → Q w (.startPca cfg)
  -- With PCA, a visit may give no values.
  idle : ∀ {w w' P}, Q w P → w'.values = w.values → w'.fresh = w.fresh → Q w' P
  update : ∀ {w w' P v}, Q w P → v.length = cfg.metrics.length → w'.values = w.values ++ [v] →
    w'.fresh = true → Q w' (update cfg P v)
  test : ∀ {w w' P}, Q w P → w'.values = w.values → w'.fresh = false → Q w' (testEndPoint cfg P).1

/-- Before the first visit there are no values. -/
def Watched.Holds (Q : Watched ν σ → Params ν → Prop) (w : Watched ν σ) : Prop :=
  match w.kept with
  | none => w.values = []
  | some K => Q w K.params

omit [Double ν] in
theorem Watched.Holds.of_kept {Q : Watched ν σ → Params ν → Prop} {w : Watched ν σ} {K : Kept ν σ}
    (h : w.Holds Q) (hK : w.kept = some K) : Q w K.params := by
  rwa [Watched.Holds, hK] at h

namespace Preserved

variable {Q : Watched ν σ → Params ν → Prop} {w : Watched ν σ}

theorem visit (hQ : Preserved cfg Q) (h : w.Holds Q) (e : Visit)
    (hsized : ∀ v ∈ (w.visit cfg usePca e).values, v.length = cfg.metrics.length) :
    (w.visit cfg usePca e).Holds Q := by
  obtain ⟨kept, values, fresh⟩ := w
  cases kept with
  | none =>
    obtain rfl : values = [] := h
    cases e with
    | test => rfl
    | learn metricData =>
      obtain ⟨K, hvisit, hparams⟩ := visit_new cfg usePca metricData
      simp only [Watched.Holds, Watched.visit, hvisit]
      cases hr : received usePca (none : Option (Kept ν σ)) (.learn metricData) with
      | none =>
        rw [hparams, hr]
        exact hQ.startPca rfl
      | some v =>
        rw [hparams, hr]
        exact hQ.start (hsized v (by simp [Watched.visit, hr])) rfl
  | some K =>
    have h : Q ⟨some K, values, fresh⟩ K.params := h
    cases e with
    | test => exact hQ.test h (List.append_nil _) rfl
    | learn metricData =>
      obtain ⟨K', hvisit, hparams⟩ := visit_known cfg usePca K metricData
      simp only [Watched.Holds, Watched.visit, hvisit]
      cases hr : received usePca (some K) (.learn metricData) with
      | none =>
        rw [hparams, hr]
        exact hQ.idle h (List.append_nil _) (Bool.or_false _)
      | some v =>
        rw [hparams, hr]
        exact hQ.update h (hsized v (by simp [Watched.visit, hr])) rfl (Bool.or_true _)

theorem run (hQ : Preserved cfg Q) (es : List Visit)
    (hsized : ∀ v ∈ (watched cfg usePca es).values, v.length = cfg.metrics.length) :
    (watched cfg usePca es).Holds Q := by
  induction es using List.reverseRecOn with
  | nil => rfl
  | append_singleton es e ih =>
    rw [watched_append] at hsized ⊢
    exact hQ.visit (ih fun v hv => hsized v (List.mem_append_left _ hv)) e hsized

end Preserved

/-! ## Sums -/

/-- The values of metric number `i`. -/
def column (i : Nat) (values : List (List Int64)) : List Int64 := values.map (·.getD i 0)

end Watched

/-- Exact arithmetic. A number that is converted to `int64_t` loses its fraction. -/
noncomputable instance : Double ℝ where
  sqrt := Real.sqrt
  exp := Real.exp
  log := Real.log
  decidableLT := Classical.decRel _
  quasiDifference x factor prev :=
    let y := (x.toInt : ℝ) - factor * (prev.toInt : ℝ)
    Int64.ofInt (if 0 ≤ y then ⌊y⌋ else ⌈y⌉)

section Learning

variable {cfg : StatConfig ℝ} {values : List (List Int64)} {P : Params ℝ} {v : List Int64}

/-- An end point that is learned: the sums of what it was given so far. -/
structure Learning (cfg : StatConfig ℝ) (values : List (List Int64)) (P : Params ℝ) : Prop where
  ready : P.readyToTest = false
  nr : P.cusumLearningPhaseNr = values.length
  le : values.length ≤ cfg.cusumLearningPhase.toNat
  length : P.cusum.length = cfg.metrics.length
  mean : ∀ i c, P.cusum[i]? = some c → c.mean = ((column i values).map fun x => (x.toInt : ℝ)).sum
  variance : ∀ i c, P.cusum[i]? = some c →
    c.variance = ((column i values).map fun x => ((x * x).toInt : ℝ)).sum

namespace Learning

theorem accumulate (h : Learning cfg values P) (hlt : values.length < cfg.cusumLearningPhase.toNat)
    (hv : v.length = cfg.metrics.length) : Learning cfg (values ++ [v]) (cusumUpdate cfg P v) := by
  rw [cusumUpdate_accumulate h.ready (h.nr ▸ hlt)]
  refine ⟨h.ready, by simp [h.nr], by simpa using hlt, by simp [h.length, hv], ?_, ?_⟩
  · intro i c hc
    obtain ⟨c0, x, hc0, hx, rfl⟩ := List.getElem?_zipWith_eq_some.mp hc
    have hcol : column i (values ++ [v]) = column i values ++ [x] := by
      simp [column, List.getD_eq_getElem?_getD, hx]
    rw [hcol, List.map_append, List.sum_append, ← h.mean i c0 hc0]
    simp [CusumMetric.accumulate]
  · intro i c hc
    obtain ⟨c0, x, hc0, hx, rfl⟩ := List.getElem?_zipWith_eq_some.mp hc
    have hcol : column i (values ++ [v]) = column i values ++ [x] := by
      simp [column, List.getD_eq_getElem?_getD, hx]
    rw [hcol, List.map_append, List.sum_append, ← h.variance i c0 hc0]
    simp [CusumMetric.accumulate]

/-- A change of the other test's part. -/
theorem congr (h : Learning cfg values P) (old new : List (List Int64)) (wkp : List WkpMetric)
    (updated : Bool) :
    Learning cfg values { P with old := old, new := new, wkp := wkp, wkpUpdated := updated } :=
  ⟨h.ready, h.nr, h.le, h.length, h.mean, h.variance⟩

/-- A new end point with its first values. -/
theorem start (hcusum : cfg.enableCusumTest = true) (hn : 0 < cfg.cusumLearningPhase)
    (hv : v.length = cfg.metrics.length) : Learning cfg [v] (.start cfg v) := by
  have hcusums : (Params.start cfg v).cusum =
      v.map fun x => ⟨(x.toInt : ℝ), ((x * x).toInt : ℝ), ((0 : Int) : ℝ), 0, ⟨false, 0⟩⟩ :=
        if_pos hcusum
  refine ⟨rfl, by simp [Params.start, hcusum], hn, by rw [hcusums, List.length_map, hv], ?_, ?_⟩
  · intro i c hc
    rw [hcusums, List.getElem?_map, Option.map_eq_some_iff] at hc
    obtain ⟨x, hx, rfl⟩ := hc
    simp [column, List.getD_eq_getElem?_getD, hx]
  · intro i c hc
    rw [hcusums, List.getElem?_map, Option.map_eq_some_iff] at hc
    obtain ⟨x, hx, rfl⟩ := hc
    simp [column, List.getD_eq_getElem?_getD, hx]

/-- A new end point with PCA. -/
theorem startPca (hcusum : cfg.enableCusumTest = true) : Learning cfg [] (.startPca cfg) := by
  have hcusums : (Params.startPca cfg).cusum =
      .replicate cfg.metrics.length
          ⟨((0 : Int) : ℝ), ((0 : Int) : ℝ), ((0 : Int) : ℝ), 0, ⟨false, 0⟩⟩ :=
    if_pos hcusum
  refine ⟨rfl, rfl, Nat.zero_le _, by rw [hcusums, List.length_replicate], ?_, ?_⟩
  · intro i c hc
    rw [hcusums] at hc
    simp [List.eq_of_mem_replicate (List.mem_of_getElem? hc), column]
  · intro i c hc
    rw [hcusums] at hc
    simp [List.eq_of_mem_replicate (List.mem_of_getElem? hc), column]

end Learning

/-- The values of a visit end the learning phase, or are learned. -/
theorem Learning.update (hcusum : cfg.enableCusumTest = true) (h : Learning cfg values P)
    (hv : v.length = cfg.metrics.length) :
    (Wkp.update cfg P v).readyToTest = true ∨
    Learning cfg (values ++ [v]) (Wkp.update cfg P v) := by
  obtain ⟨old, new, updated, heq⟩ := update_cusum hcusum P v
  have h' : Learning cfg values { P with old := old, new := new, wkpUpdated := updated } :=
    h.congr old new P.wkp updated
  rw [heq]
  rcases Nat.lt_or_eq_of_le h.le with hlt | hend
  · exact .inr (h'.accumulate hlt hv)
  · exact .inl (by rw [cusumUpdate_conclude h'.ready (by rw [h'.nr, hend])])

theorem Learning.test (h : Learning cfg values P) : Learning cfg values (testEndPoint cfg P).1 := by
  obtain ⟨wkp, updated, heq⟩ := testEndPoint_cusum cfg P
  have hready : P.cusumReady cfg = false := by simp [Params.cusumReady, h.ready]
  rw [heq, hready]
  exact h.congr P.old P.new wkp updated

/-- In a run an end point is ready for CUSUM or learned. -/
theorem Learning.run (hcusum : cfg.enableCusumTest = true) (hn : 0 < cfg.cusumLearningPhase)
    {usePca : Option (PcaConfig σ)} (es : List Visit)
    (hsized : ∀ v ∈ (watched cfg usePca es).values, v.length = cfg.metrics.length) {K : Kept ℝ σ}
    (hK : (watched cfg usePca es).kept = some K) :
    K.params.readyToTest = true ∨ Learning cfg (watched cfg usePca es).values K.params := by
  have hpreserved : Preserved cfg fun (w : Watched ℝ σ) P =>
      P.readyToTest = true ∨ Learning cfg w.values P := {
    start := fun hv hw => .inr (hw ▸ .start hcusum hn hv)
    startPca := fun hw => .inr (hw ▸ .startPca hcusum)
    idle := fun h hvalues _ => hvalues ▸ h
    update := fun {w w' P v} h hv hvalues _ => by
      rw [hvalues]
      rcases h with hready | hlearning
      · exact .inl (readyToTest_update hcusum hready v)
      · exact hlearning.update hcusum hv
    test := fun {w w' P} h hvalues _ => by
      rw [hvalues]
      exact h.imp (fun hready => (readyToTest_testEndPoint cfg P).trans hready) Learning.test }
  exact (hpreserved.run es hsized).of_kept hK

/-! ## The end of the learning phase -/

/-- The learning phase of an end point ends in the visit that follows. -/
structure LearningEnds (cfg : StatConfig ℝ) (usePca : Option (PcaConfig σ))
    (es : List Visit) (e : Visit) (K K' : Kept ℝ σ) : Prop where
  before : (watched cfg usePca es).kept = some K
  learning : K.params.readyToTest = false
  after : (watched cfg usePca (es ++ [e])).kept = some K'
  ready : K'.params.readyToTest = true

/-- What is divided by is not 0, and the mean and the variance of every metric are the sample mean
and the unbiased sample variance of the first `cusum_learning_phase` values. -/
def Learned (cfg : StatConfig ℝ) (values : List (List Int64)) (P : Params ℝ) : Prop :=
  let n := cfg.cusumLearningPhase.toNat
  n ≤ values.length ∧ P.cusum.length = cfg.metrics.length ∧
    ∀ i c, P.cusum[i]? = some c →
      let xs := (column i (values.take n)).map fun x => (x.toInt : ℝ)
      (n : Int) ≠ 0 ∧ (n - 1 : Int) ≠ 0 ∧ c.mean = SampleMoments.mean xs ∧
        c.variance = SampleMoments.variance xs

/-- What a square loses in 64 bits. -/
def lost (x : Int64) : Int := x.toInt * x.toInt - (x * x).toInt

/-- A phase of two values or more, in which what the squares lose makes up for the code's formula,
which subtracts the square of the mean over `n`, for that of the sum. -/
def Cancels (n : Nat) (xs : List Int64) : Prop :=
  2 ≤ n ∧ (xs.map Int64.toInt).sum ^ 2 * ((n : Int) ^ 2 - 1) = n ^ 3 * (xs.map lost).sum

instance (n : Nat) (xs : List Int64) : Decidable (Cancels n xs) :=
    inferInstanceAs (Decidable (_ ∧ _))

theorem formula_iff {n : ℕ} (hn : 2 ≤ n) {sum squares stored : ℝ} :
    (stored - sum / n * (sum / n) / n) / (n - 1) = (squares - sum ^ 2 / n) / (n - 1) ↔
      sum ^ 2 * ((n : ℝ) ^ 2 - 1) = n ^ 3 * (squares - stored) := by
  have hn0 : (n : ℝ) ≠ 0 := Nat.cast_ne_zero.mpr (by omega)
  have hn1 : (n : ℝ) - 1 ≠ 0 := by
    have : (2 : ℝ) ≤ n := by exact_mod_cast hn
    linarith
  rw [div_left_inj' hn1]
  field_simp
  constructor <;> intro h <;> linarith

theorem sumSquares_sub (xs : List Int64) :
    SampleMoments.sumSquares (xs.map fun x => (x.toInt : ℝ)) -
      (xs.map fun x => ((x * x).toInt : ℝ)).sum =
      (((xs.map lost).sum : Int) : ℝ) := by
  induction xs with
  | nil => simp
  | cons x xs ih =>
    simp only [List.map_cons, SampleMoments.sumSquares_cons, List.sum_cons,
      Int.cast_add, ← ih, lost,
      Int.cast_sub, Int.cast_mul]
    ring

/-- What `conclude` makes of the sums of some values. -/
theorem conclude_iff {xs : List Int64} {c : CusumMetric ℝ} (x : Int64)
    (hlen : xs.length = cfg.cusumLearningPhase.toNat)
    (hmean : c.mean = (xs.map fun x => (x.toInt : ℝ)).sum)
    (hvariance : c.variance = (xs.map fun x => ((x * x).toInt : ℝ)).sum) (hn : 2 ≤ xs.length) :
    (c.conclude cfg x).mean = SampleMoments.mean (xs.map fun x => (x.toInt : ℝ)) ∧
      ((c.conclude cfg x).variance = SampleMoments.variance (xs.map fun x => (x.toInt : ℝ)) ↔
        (xs.map Int64.toInt).sum ^ 2 * ((xs.length : Int) ^ 2 - 1) = xs.length ^ 3 *
          (xs.map lost).sum) := by
  have hsum : (xs.map fun x => (x.toInt : ℝ)).sum = (((xs.map Int64.toInt).sum : Int) : ℝ) := by
    rw [Int.cast_list_sum, List.map_map]
    rfl
  have hstored : (c.conclude cfg x).variance =
      (c.variance - c.mean / xs.length * (c.mean / xs.length) / xs.length) / (xs.length - 1) := by
    rw [hlen]
    simp [CusumMetric.conclude]
  refine ⟨?_, ?_⟩
  · rw [SampleMoments.mean, ← hmean, List.length_map, hlen]
    simp [CusumMetric.conclude]
  · have hne : xs.map (fun x => (x.toInt : ℝ)) ≠ [] := fun hnil => by
      rw [List.map_eq_nil_iff.mp hnil] at hn
      simp at hn
    rw [hstored, SampleMoments.variance_eq hne, List.length_map, ← hmean, formula_iff hn,
      hmean, hvariance,
      sumSquares_sub, hsum]
    exact_mod_cast Iff.rfl

/-- The visit that ends the phase: every metric of a full sample is concluded. -/
theorem LearningEnds.concluded (hcusum : cfg.enableCusumTest = true)
    (hn : 0 < cfg.cusumLearningPhase) {es : List Visit} {e : Visit} {K K' : Kept ℝ σ}
    (hsized : ∀ v ∈ (watched cfg usePca (es ++ [e])).values, v.length = cfg.metrics.length)
    (h : LearningEnds cfg usePca es e K K') :
    ∃ values v, (watched cfg usePca (es ++ [e])).values = values ++ [v] ∧
      values.length = cfg.cusumLearningPhase.toNat ∧ v.length = cfg.metrics.length ∧
      Learning cfg values K.params ∧ K'.params.cusum = K.params.cusum.zipWith
      (.conclude cfg) v := by
  obtain ⟨hbefore, hlearning, hafter, hready⟩ := h
  rw [watched_append] at hsized hafter ⊢
  have hphase :=
    Learning.run hcusum hn es (fun v hv => hsized v (List.mem_append_left _ hv)) hbefore
  have hP := hphase.resolve_left (by simp [hlearning])
  simp only [Watched.visit, hbefore] at hafter
  cases e with
  | test =>
    obtain rfl := Option.some.inj hafter
    rw [readyToTest_testEndPoint, hlearning] at hready
    cases hready
  | learn metricData =>
    obtain ⟨K1, hvisit, hparams⟩ := visit_known cfg usePca K metricData
    obtain rfl : K1 = K' := Option.some.inj (hvisit.symm.trans hafter)
    cases hr : received usePca (some K) (.learn metricData) with
    | none =>
      rw [hr] at hparams
      rw [hparams, hlearning] at hready
      cases hready
    | some v =>
      have hparams : K1.params = update cfg K.params v := by rw [hparams, hr]
      have hvalues : ((watched cfg usePca es).visit cfg usePca (.learn metricData)).values =
          (watched cfg usePca es).values ++ [v] := by simp [Watched.visit, hbefore, hr]
      have hv : v.length = cfg.metrics.length := hsized v (by simp [hvalues])
      obtain ⟨old, new, updated, heq⟩ := update_cusum hcusum K.params v
      have hP' := hP.congr old new K.params.wkp updated
      rcases Nat.lt_or_eq_of_le hP.le with hlt | hend
      · have hstill := (hP'.accumulate hlt hv).ready
        rw [hparams, heq, hstill] at hready
        cases hready
      · refine ⟨_, v, hvalues, hend, hv, hP, ?_⟩
        rw [hparams, heq, cusumUpdate_conclude hP'.ready (by rw [hP'.nr, hend])]

/-- The phase ends with the sample mean and the unbiased sample variance exactly if, for every
metric, it has two values or more and the errors cancel out. -/
theorem learned_iff {cfg : StatConfig ℝ} (hcusum : cfg.enableCusumTest = true)
    (hn : 0 < cfg.cusumLearningPhase) {usePca : Option (PcaConfig σ)} {es : List Visit} {e : Visit}
    {K K' : Kept ℝ σ}
    (hsized : ∀ v ∈ (watched cfg usePca (es ++ [e])).values, v.length = cfg.metrics.length)
    (h : LearningEnds cfg usePca es e K K') :
    Learned cfg (watched cfg usePca (es ++ [e])).values K'.params ↔
      ∀ i < cfg.metrics.length, Cancels cfg.cusumLearningPhase.toNat
        (column i ((watched cfg usePca (es ++ [e])).values.take cfg.cusumLearningPhase.toNat)) := by
  obtain ⟨values, v, hvalues, hlen, hv, hlearning, hconcluded⟩ := h.concluded hcusum hn hsized
  have htake : (watched cfg usePca (es ++ [e])).values.take cfg.cusumLearningPhase.toNat =
      values := by
    rw [hvalues, ← hlen, List.take_left]
  have hmetrics : K'.params.cusum.length = cfg.metrics.length := by
    rw [hconcluded, List.length_zipWith, hlearning.length, hv, Nat.min_self]
  have hcolumn : ∀ i, (column i values).length = cfg.cusumLearningPhase.toNat := fun i => by
    rw [column, List.length_map, hlen]
  -- What the formula makes of the sums of one metric.
  have hmetric : ∀ i c', K'.params.cusum[i]? = some c' → 2 ≤ cfg.cusumLearningPhase.toNat →
      c'.mean = SampleMoments.mean ((column i values).map fun x => (x.toInt : ℝ)) ∧
        (c'.variance = SampleMoments.variance ((column i values).map fun x => (x.toInt : ℝ)) ↔
          Cancels cfg.cusumLearningPhase.toNat (column i values)) := fun i c' hc' htwo => by
    rw [hconcluded] at hc'
    obtain ⟨c, x, hc, -, rfl⟩ := List.getElem?_zipWith_eq_some.mp hc'
    obtain ⟨hmean, hvariance⟩ := conclude_iff x (hcolumn i) (hlearning.mean i c hc)
      (hlearning.variance i c hc) (hcolumn i ▸ htwo)
    refine ⟨hmean, hvariance.trans ?_⟩
    rw [hcolumn, Cancels]
    exact ⟨fun h => ⟨htwo, h⟩, fun h => h.2⟩
  simp only [Learned, htake]
  refine ⟨fun ⟨_, _, hall⟩ i hi => ?_, fun hall => ⟨?_, hmetrics, fun i c' hc' => ?_⟩⟩
  · obtain ⟨c', hc'⟩ : ∃ c', K'.params.cusum[i]? = some c' := by
      rw [← hmetrics] at hi
      exact ⟨_, List.getElem?_eq_getElem hi⟩
    obtain ⟨hn0, hn1, -, hvariance⟩ := hall i c' hc'
    exact (hmetric i c' hc' (by omega)).2.mp hvariance
  · rw [hvalues, List.length_append, hlen]
    exact Nat.le_add_right _ _
  · have hi : i < cfg.metrics.length := hmetrics ▸ (List.getElem?_eq_some_iff.mp hc').1
    have htwo := (hall i hi).1
    obtain ⟨hmean, hvariance⟩ := hmetric i c' hc' htwo
    exact ⟨by omega, by omega, hmean, hvariance.mpr (hall i hi)⟩

/-- CUSUM of one metric, with a learning phase of `n` values. -/
noncomputable def exactCusum (n : UInt16) : StatConfig ℝ where
  metrics := [⟨.packetsOutMinusPacketsIn, false, false, false, 0⟩]
  noiseThreshold := ⟨0, 0⟩
  statTestFrequency := 1
  reportOnlyFirstAttack := true
  pauseUpdateWhenAttack := 0
  enableCusumTest := true
  amplitudePercentage := 1
  logVarianceEwma := false
  repetitionFactor := 2
  cusumLearningPhase := n
  smoothingConstant := 0
  enableWmwTest := false
  enableKsTest := false
  enablePcsTest := false
  enableWkpTest := false
  sampleOldSize := 1
  sampleNewSize := 1
  wmwTwoSided := false
  significanceLevel := 0
  wmwTest _ _ _ := 1
  ksTest _ _ := 1
  pcsTest _ _ := 1

/-- Two values whose sum is 0. -/
theorem learned_iff_balanced :
    ∃ K K' : Kept ℝ Unit,
      LearningEnds (exactCusum 2) none [.learn [3], .test, .learn [-3], .test] (.learn [5]) K K' ∧
        Learned (exactCusum 2) [[3], [-3], [5]] K'.params := by
  have hends : LearningEnds (σ := Unit) (exactCusum 2) none [.learn [3], .test, .learn [-3], .test]
      (.learn [5]) _ _ := ⟨rfl, rfl, rfl, rfl⟩
  have hsized : ∀ v ∈ ([[3], [-3], [5]] : List (List Int64)), v.length = 1 := by simp
  have hcancels : ∀ i < 1, Cancels 2 (column i [[3], [-3]]) := by decide
  exact ⟨_, _, hends, (@learned_iff Unit (exactCusum 2) rfl (by decide) none
    [.learn [3], .test, .learn [-3], .test] (.learn [5]) _ _ hsized hends).mpr hcancels⟩

/-- **Counterexample**: the values 1 and 2 have the variance 0.5, and 3.875 is stored. -/
theorem learned_not : ¬ ∀ (cfg : StatConfig ℝ) (es : List Visit) (e : Visit) (K K' : Kept ℝ Unit),
    cfg.enableCusumTest = true → 0 < cfg.cusumLearningPhase →
    (∀ v ∈ (watched (σ := Unit) cfg none (es ++ [e])).values, v.length = cfg.metrics.length) →
    LearningEnds cfg none es e K K' →
    Learned cfg (watched (σ := Unit) cfg none (es ++ [e])).values K'.params := by
  intro hall
  have hends :
      LearningEnds (σ := Unit) (exactCusum 2) none [.learn [1], .learn [2]] (.learn [0]) _ _ :=
    ⟨rfl, rfl, rfl, rfl⟩
  have hsized : ∀ v ∈ ([[1], [2], [0]] : List (List Int64)), v.length = 1 := by simp
  obtain ⟨-, -, hmetrics⟩ :=
    hall (exactCusum 2) [.learn [1], .learn [2]] (.learn [0]) _ _ rfl (by decide)
    hsized hends
  obtain ⟨-, -, -, hvariance⟩ := hmetrics 0 _ rfl
  let c : CusumMetric ℝ :=
    ⟨((1 : Int64).toInt : ℝ), ((1 * 1 : Int64).toInt : ℝ), ((0 : Int) : ℝ), 0, ⟨false, 0⟩⟩
  have hstored := (@conclude_iff (exactCusum 2) [1, 2] (c.accumulate 2) 0 rfl
    (by simp [CusumMetric.accumulate, c]) (by simp [CusumMetric.accumulate, c]) (by simp)).2.mp
      hvariance
  exact absurd hstored (by decide)

end Learning

end Topas.Wkp
