import Topas.L7Stat.Learning

/-!
# The recursion of CUSUM

Once an end point is learned, `Stat::cusum_test` adds its newest value to the statistic `g` in every
test round, and `Stat::cusum_update` smooths mean and variance with the value before. Values are
`int64_t`; `Params` keeps the newest one as an `int`.

* `Tracks.run`: what is kept is the newest value, reduced to 32 bits.
* `recursion_right`: in a run whose values, from the one that ends the learning phase on, are all in
  the range of an `int`, every step is the one that the true values make.
-/
namespace Topas.Wkp

variable {ν σ : Type}

/-- The range of an `int`. -/
def Fits (x : Int64) : Prop := -2 ^ 31 ≤ x.toInt ∧ x.toInt < 2 ^ 31

instance (x : Int64) : Decidable (Fits x) := inferInstanceAs (Decidable (_ ∧ _))

/-- Exactly the values in that range survive. -/
theorem toInt32_toInt64_iff {x : Int64} : x.toInt32.toInt64 = x ↔ Fits x := by
  rw [← Int64.toInt_inj, Int32.toInt_toInt64, Int64.toInt_toInt32, Fits, Int.bmod_def]
  omega

section

variable [Double ν] {cfg : StatConfig ν} {usePca : Option (PcaConfig σ)} {w : Watched ν σ}
    {P : Params ν}

/-! ## Steps on true values -/

/-- The newest value of metric number `i`. -/
def Watched.newest (w : Watched ν σ) (i : Nat) : Int64 := (w.values.getLast?.getD []).getD i 0

/-- The maximum of 0 and `y`. -/
def clamp (y : ν) : ν := if y < ((0 : Int) : ν) then ((0 : Int) : ν) else y

/-- mirrors detectionmodules/statmodules/wkp-module/stat-main.cpp:1913 -/
def CusumMetric.beta (cfg : StatConfig ν) (c : CusumMetric ν) : ν :=
  c.mean + cfg.amplitudePercentage * Double.sqrt c.variance / ((2 : Int) : ν)

/-- Mean and variance after a step with the value `x`. -/
def smoothed (cfg : StatConfig ν) (c : CusumMetric ν) (x : Int64) : ν × ν :=
  let α := cfg.smoothingConstant
  let β := ((1 : Int) : ν) - α
  let x := (x.toInt : ν)
  let mean := c.mean * β + x * α
  (mean,
    if cfg.logVarianceEwma then
      Double.exp (Double.log c.variance * β + Double.log ((x - mean) * (x - mean)) * α)
    else c.variance * β + (x - mean) * (x - mean) * α)

/-- A test round: the statistic takes the newest value in, or is reset where there was none since
the round before. -/
def RoundRight (cfg : StatConfig ν) (w : Watched ν σ) (i : Nat) (c c' : CusumMetric ν) : Prop :=
  c'.g =
    (if w.fresh then clamp (c.g + (((w.newest i).toInt : ν) - c.beta cfg)) else ((0 : Int) : ν)) ∧
    (c'.mean, c'.variance) = (c.mean, c.variance)

/-- A visit with values: mean and variance follow the value before, unless that is paused. -/
def UpdateRight (cfg : StatConfig ν) (w : Watched ν σ) (P : Params ν) (i : Nat)
    (c c' : CusumMetric ν) :
    Prop :=
  c'.g = c.g ∧
    (c'.mean, c'.variance) =
      if P.pausesSmoothing cfg c then (c.mean, c.variance) else smoothed cfg c (w.newest i)

/-- What a visit does to an end point that is learned. -/
def StepRight (cfg : StatConfig ν) (usePca : Option (PcaConfig σ)) (w : Watched ν σ) (e : Visit) :
    Prop :=
  ∀ K ∈ w.kept, K.params.readyToTest = true →
    ∃ K' ∈ (w.visit cfg usePca e).kept, K'.params.readyToTest = true ∧
      K'.params.cusum.length = cfg.metrics.length ∧
      ∀ i c c', K.params.cusum[i]? = some c → K'.params.cusum[i]? = some c' →
        match e with
        | .test => RoundRight cfg w i c c'
        | .learn _ =>
          match received usePca w.kept e with
          | some _ => UpdateRight cfg w K.params i c c'
          | none => c' = c

/-! ## What is kept -/

/-- An end point is learned from as many values as there are, and then has the newest one, in 32
bits. -/
structure Tracks (cfg : StatConfig ν) (w : Watched ν σ) (P : Params ν) : Prop where
  length : P.cusum.length = cfg.metrics.length
  learning : P.readyToTest = false →
    P.cusumLearningPhaseNr = w.values.length ∧ w.values.length ≤ cfg.cusumLearningPhase.toNat
  enough : P.readyToTest = true → cfg.cusumLearningPhase.toNat < w.values.length
  fresh : P.readyToTest = true → P.cusumUpdated = w.fresh
  xCurr : P.readyToTest = true → ∀ i c, P.cusum[i]? = some c → c.xCurr = (w.newest i).toInt32

theorem smooth_eq {c : CusumMetric ν} {x : Int64} (h : c.xCurr.toInt = x.toInt) :
    ((c.smooth cfg).mean, (c.smooth cfg).variance) = smoothed cfg c x := by
  simp [CusumMetric.smooth, smoothed, h]

namespace Tracks

theorem start (hcusum : cfg.enableCusumTest = true) (hn : 0 < cfg.cusumLearningPhase)
    {v : List Int64}
    (hv : v.length = cfg.metrics.length) (hw : w.values = [v]) : Tracks cfg w (.start cfg v) where
  length := by simp [Params.start, hcusum, hv]
  learning _ := by
    have hpos : 0 < cfg.cusumLearningPhase.toNat := hn
    simp [Params.start, hcusum, hw, Nat.succ_le_of_lt hpos]
  enough h := by cases h
  fresh h := by cases h
  xCurr h := by cases h

theorem startPca (hcusum : cfg.enableCusumTest = true) (hw : w.values = []) :
    Tracks cfg w (.startPca cfg) where
  length := by simp [Params.startPca, hcusum]
  learning _ := by simp [Params.startPca, hw]
  enough h := by cases h
  fresh h := by cases h
  xCurr h := by cases h

omit [Double ν] in
/-- A change of the other test's part. -/
theorem congr (h : Tracks cfg w P) (old new : List (List Int64)) (wkp : List WkpMetric)
    (updated : Bool) :
    Tracks cfg w { P with old := old, new := new, wkp := wkp, wkpUpdated := updated } :=
  ⟨h.length, h.learning, h.enough, h.fresh, h.xCurr⟩

/-- The values of a visit. -/
theorem cusumUpdate {w' : Watched ν σ} {v : List Int64} (h : Tracks cfg w P)
    (hv : v.length = cfg.metrics.length) (hvalues : w'.values = w.values ++ [v])
    (hfresh : w'.fresh = true) :
    Tracks cfg w' (cusumUpdate cfg P v) := by
  have hnewest : ∀ i x, v[i]? = some x → w'.newest i = x := fun i x hx => by
    simp [Watched.newest, hvalues, List.getD_eq_getElem?_getD, hx]
  have hlength : ∀ f : CusumMetric ν → Int64 → CusumMetric ν,
      (P.cusum.zipWith f v).length = cfg.metrics.length := fun f => by
    rw [List.length_zipWith, h.length, hv, Nat.min_self]
  -- Every branch sets `xCurr` to the new value.
  have hxCurr : ∀ f : CusumMetric ν → Int64 → CusumMetric ν, (∀ c x, (f c x).xCurr = x.toInt32) →
      ∀ i c, (P.cusum.zipWith f v)[i]? = some c → c.xCurr = (w'.newest i).toInt32 := by
    intro f hf i c hc
    obtain ⟨c0, x, -, hx, rfl⟩ := List.getElem?_zipWith_eq_some.mp hc
    rw [hf, hnewest i x hx]
  cases hready : P.readyToTest with
  | false =>
    obtain ⟨hnr, hle⟩ := h.learning hready
    rcases Nat.lt_or_eq_of_le hle with hlt | hend
    · rw [cusumUpdate_accumulate hready (hnr ▸ hlt)]
      refine ⟨hlength _, fun _ => ?_, ?_, ?_, ?_⟩
      · simp [hnr, hvalues, Nat.succ_le_of_lt hlt]
      all_goals exact fun hr => absurd hr (by simp [hready])
    · rw [cusumUpdate_conclude hready (by rw [hnr, hend])]
      refine ⟨hlength _, nofun, fun _ => by simp [hvalues, hend], fun _ => hfresh.symm, fun _ => ?_⟩
      exact hxCurr _ fun c x => rfl
  | true =>
    rw [cusumUpdate_ready hready]
    have henough := h.enough hready
    refine ⟨hlength _, fun hr => absurd hr (by simp [hready]), fun _ => ?_, fun _ => hfresh.symm,
      fun _ => ?_⟩
    · rw [hvalues, List.length_append]
      exact Nat.lt_add_right _ henough
    · refine hxCurr _ fun c x => ?_
      split <;> rfl

theorem update (hcusum : cfg.enableCusumTest = true) {w' : Watched ν σ} {v : List Int64}
    (h : Tracks cfg w P)
    (hv : v.length = cfg.metrics.length) (hvalues : w'.values = w.values ++ [v])
    (hfresh : w'.fresh = true) :
    Tracks cfg w' (Wkp.update cfg P v) := by
  obtain ⟨old, new, updated, heq⟩ := update_cusum hcusum P v
  rw [heq]
  exact (h.congr old new P.wkp updated).cusumUpdate hv hvalues hfresh

omit [Double ν] in
/-- A visit without values. -/
theorem idle {w' : Watched ν σ} (h : Tracks cfg w P) (hvalues : w'.values = w.values)
    (hfresh : w'.fresh = w.fresh) : Tracks cfg w' P := by
  obtain ⟨kept, values, fresh⟩ := w'
  obtain rfl : values = w.values := hvalues
  obtain rfl : fresh = w.fresh := hfresh
  exact ⟨h.length, h.learning, h.enough, h.fresh, h.xCurr⟩

/-- A test round. -/
theorem test (hcusum : cfg.enableCusumTest = true) (h : Tracks cfg w P) (w' : Watched ν σ)
    (hvalues : w'.values = w.values) (hfresh : w'.fresh = false) :
      Tracks cfg w' (testEndPoint cfg P).1 := by
  obtain ⟨wkp, updated, heq⟩ := testEndPoint_cusum cfg P
  have hnewest : ∀ i, w'.newest i = w.newest i :=
    fun i => by rw [Watched.newest, hvalues, Watched.newest]
  rw [heq]
  cases hready : P.readyToTest with
  | false =>
    have hnot : P.cusumReady cfg = false := by simp [Params.cusumReady, hready]
    obtain ⟨hnr, hle⟩ := h.learning hready
    rw [hnot]
    refine ⟨h.length, fun _ => hvalues ▸ ⟨hnr, hle⟩, ?_, ?_, ?_⟩
    all_goals exact fun hr => absurd hr (by simp)
  | true =>
    have his : P.cusumReady cfg = true := by simp [Params.cusumReady, hready, hcusum]
    rw [his, if_pos rfl]
    refine ⟨?_, fun hr => absurd hr (by simp [cusumTest]), fun _ => hvalues ▸ h.enough hready,
      fun _ => hfresh.symm, fun _ i c hc => ?_⟩
    · simp [cusumTest, h.length]
    · simp only [cusumTest, List.map_map, List.getElem?_map, Option.map_eq_some_iff] at hc
      obtain ⟨c0, hc0, rfl⟩ := hc
      rw [hnewest]
      exact h.xCurr hready i c0 hc0

end Tracks

theorem Tracks.run (hcusum : cfg.enableCusumTest = true) (hn : 0 < cfg.cusumLearningPhase)
    (es : List Visit)
    (hsized : ∀ v ∈ (watched cfg usePca es).values, v.length = cfg.metrics.length) {K : Kept ν σ}
    (hK : (watched cfg usePca es).kept = some K) : Tracks cfg (watched cfg usePca es) K.params := by
  have hpreserved : Preserved cfg fun (w : Watched ν σ) P => Tracks cfg w P := {
    start := fun hv hw => .start hcusum hn hv hw
    startPca := fun hw => .startPca hcusum hw
    idle := fun h hvalues hfresh => h.idle hvalues hfresh
    update := fun h hv hvalues hfresh => h.update hcusum hv hvalues hfresh
    test := fun h hvalues hfresh => h.test hcusum _ hvalues hfresh }
  exact (hpreserved.run es hsized).of_kept hK

/-! ## The result -/

section Steps

variable {i : Nat} {c c' : CusumMetric ν}

omit [Double ν] in
/-- What is kept of a metric is its newest value, if that fits. -/
theorem Tracks.xCurr_eq (h : Tracks cfg w P) (hready : P.readyToTest = true)
    (hfits : ∀ i < cfg.metrics.length, Fits (w.newest i)) (hc : P.cusum[i]? = some c) :
    c.xCurr.toInt64 = w.newest i := by
  rw [h.xCurr hready i c hc]
  exact toInt32_toInt64_iff.mpr (hfits i (h.length ▸ (List.getElem?_eq_some_iff.mp hc).1))

theorem Tracks.roundRight (hcusum : cfg.enableCusumTest = true) (h : Tracks cfg w P)
    (hready : P.readyToTest = true) (hfits : ∀ i < cfg.metrics.length, Fits (w.newest i))
    (hc : P.cusum[i]? = some c) (hc' : (testEndPoint cfg P).1.cusum[i]? = some c') :
    RoundRight cfg w i c c' := by
  obtain ⟨wkp, updated, heq⟩ := testEndPoint_cusum cfg P
  have his : P.cusumReady cfg = true := by simp [Params.cusumReady, hready, hcusum]
  rw [his, if_pos rfl] at heq
  simp only [heq, cusumTest, List.map_map, List.getElem?_map, hc, Option.map_some,
    Option.some.injEq,
    Function.comp_apply] at hc'
  rw [RoundRight, ← hc', ← h.xCurr_eq hready hfits hc, ← h.fresh hready]
  exact ⟨rfl, rfl⟩

theorem Tracks.updateRight (hcusum : cfg.enableCusumTest = true) (h : Tracks cfg w P)
    (hready : P.readyToTest = true) (hfits : ∀ i < cfg.metrics.length, Fits (w.newest i))
    {v : List Int64} (hc : P.cusum[i]? = some c) (hc' : (Wkp.update cfg P v).cusum[i]? = some c') :
    UpdateRight cfg w P i c c' := by
  obtain ⟨old, new, updated, heq⟩ := update_cusum hcusum P v
  rw [heq, cusumUpdate_ready (by exact hready)] at hc'
  obtain ⟨c0, x, hc0, -, rfl⟩ := List.getElem?_zipWith_eq_some.mp hc'
  obtain rfl : c = c0 := Option.some.inj (hc.symm.trans hc0)
  have hX : c.xCurr.toInt = (w.newest i).toInt := by
    rw [← h.xCurr_eq hready hfits hc, Int32.toInt_toInt64]
  have hpause :
    ({ P with old := old, new := new, wkpUpdated := updated } : Params ν).pausesSmoothing cfg c =
      P.pausesSmoothing cfg c := rfl
  rw [hpause, UpdateRight]
  by_cases hp : P.pausesSmoothing cfg c = true
  · simp only [hp, if_true]
    exact ⟨rfl, rfl⟩
  · simp only [hp]
    exact ⟨rfl, smooth_eq hX⟩

/-- A step of an end point that is learned and whose newest values fit. -/
theorem Tracks.stepRight (hcusum : cfg.enableCusumTest = true) {K : Kept ν σ} (hw : w.kept = some K)
    (h : Tracks cfg w K.params) (hfits : ∀ i < cfg.metrics.length, Fits (w.newest i)) (e : Visit)
    (hsized : ∀ v ∈ (w.visit cfg usePca e).values, v.length = cfg.metrics.length) :
    StepRight cfg usePca w e := by
  intro K0 hK0 hready
  obtain rfl : K = K0 := Option.some.inj (hw.symm.trans hK0)
  cases e with
  | test =>
    refine ⟨{ K with params := (testEndPoint cfg K.params).1 }, by simp [Watched.visit, hw, visit],
      (readyToTest_testEndPoint cfg K.params).trans hready, ?_, fun i c c' hc hc' => ?_⟩
    · exact
        (h.test hcusum (w.visit cfg usePca .test) (by simp [Watched.visit, received]) rfl).length
    · exact h.roundRight hcusum hready hfits hc hc'
  | learn metricData =>
    obtain ⟨K', hvisit, hparams⟩ := visit_known cfg usePca K metricData
    refine ⟨K', by simp [Watched.visit, hw, hvisit], ?_⟩
    rw [hw]
    cases hr : received usePca (some K) (.learn metricData) with
    | none =>
      rw [hr] at hparams
      refine ⟨hparams ▸ hready, hparams ▸ h.length, fun i c c' hc hc' => ?_⟩
      rw [hparams] at hc'
      exact Option.some.inj (hc'.symm.trans hc)
    | some v =>
      rw [hr] at hparams
      have hv : v.length = cfg.metrics.length := hsized v (by simp [Watched.visit, hw, hr])
      have hnext :
          Tracks cfg (w.visit cfg usePca (.learn metricData)) (Wkp.update cfg K.params v) :=
        h.update hcusum hv (by simp [Watched.visit, hw, hr]) (by simp [Watched.visit, hw, hr])
      refine ⟨hparams ▸ readyToTest_update hcusum hready v, hparams ▸ hnext.length,
        fun i c c' hc hc' => ?_⟩
      rw [hparams] at hc'
      exact h.updateRight hcusum hready hfits hc hc'

end Steps

theorem watched_prefix (cfg : StatConfig ν) (usePca : Option (PcaConfig σ)) {before es : List Visit}
    (h : before <+: es) :
    (watched cfg usePca before).values <+: (watched cfg usePca es).values := by
  obtain ⟨after, rfl⟩ := h
  induction after using List.reverseRecOn with
  | nil => simp
  | append_singleton after e ih =>
    rw [← List.append_assoc, watched_append]
    exact ih.trans (List.prefix_append _ _)

omit [Double ν] in
/-- Past the learning phase the newest value is one of those behind it. -/
theorem newest_mem {n i : Nat} (hlt : n < w.values.length) (hi : ∀ v ∈ w.values, i < v.length) :
    ∃ v ∈ w.values.drop n, w.newest i ∈ v := by
  have hne : w.values.drop n ≠ [] := by
    rw [Ne, List.drop_eq_nil_iff]
    omega
  have hlast : w.values.getLast? = some ((w.values.drop n).getLast hne) := by
    rw [List.getLast_drop, List.getLast?_eq_some_getLast]
  have hmem := List.getLast_mem hne
  have hlen := hi _ (List.mem_of_mem_drop hmem)
  refine ⟨_, hmem, ?_⟩
  simp only [Watched.newest, hlast, Option.getD_some, List.getD_eq_getElem?_getD,
    List.getElem?_eq_getElem hlen]
  exact List.getElem_mem hlen

/-- Every step of a run is right that finds its end point learned. -/
def RunRight (cfg : StatConfig ν) (usePca : Option (PcaConfig σ)) (es : List Visit) : Prop :=
  ∀ before e, before ++ [e] <+: es → StepRight cfg usePca (watched cfg usePca before) e

/-- If all values fit, from the one that ends the learning phase on. -/
theorem recursion_right {cfg : StatConfig ν} (hcusum : cfg.enableCusumTest = true)
    (hn : 0 < cfg.cusumLearningPhase) (usePca : Option (PcaConfig σ)) {es : List Visit}
    (hsized : ∀ v ∈ (watched cfg usePca es).values, v.length = cfg.metrics.length)
    (hfits : ∀ v ∈ (watched cfg usePca es).values.drop cfg.cusumLearningPhase.toNat,
      ∀ x ∈ v, Fits x) :
    RunRight cfg usePca es := by
  intro before e hprefix K hK hready
  have hvalues := watched_prefix cfg usePca hprefix
  have hbefore := watched_prefix cfg usePca ((List.prefix_append before [e]).trans hprefix)
  rw [watched_append] at hvalues
  have hsizedNext : ∀ v ∈ ((watched cfg usePca before).visit cfg usePca e).values,
      v.length = cfg.metrics.length := fun v hv => hsized v (hvalues.subset hv)
  have hsizedBefore : ∀ v ∈ (watched cfg usePca before).values, v.length = cfg.metrics.length :=
    fun v hv => hsized v (hbefore.subset hv)
  have htracked := Tracks.run hcusum hn before hsizedBefore hK
  refine htracked.stepRight hcusum hK (fun i hi => ?_) e hsizedNext K hK hready
  obtain ⟨v, hv, hx⟩ := newest_mem (i := i) (htracked.enough hready) fun v hv => by
    rwa [hsizedBefore v hv]
  exact hfits v ((hbefore.drop _).subset hv) _ hx

end

/-- Real numbers are clamped by their maximum. -/
theorem clamp_real (y : ℝ) : clamp y = max 0 y := by
  have hzero : ((0 : Int) : ℝ) = 0 := Int.cast_zero
  show (if y < ((0 : Int) : ℝ) then ((0 : Int) : ℝ) else y) = max 0 y
  rw [hzero]
  split <;> rename_i h
  · exact (max_eq_left h.le).symm
  · exact (max_eq_right (not_lt.mp h)).symm

/-- A learning phase of two values, the largest value that fits, a round, one value more and two
rounds. -/
theorem recursion_right_largest :
    RunRight (σ := Unit) Stat.cusumOnly none
      [.learn [1], .learn [2], .learn [3], .test, .learn [2147483647], .test, .learn [4], .test,
          .test] := by
  have hsized : ∀ v ∈ ([[1], [2], [3], [2147483647], [4]] : List (List Int64)), v.length = 1 :=
    by simp
  have hfits : ∀ v ∈ ([[3], [2147483647], [4]] : List (List Int64)), ∀ x ∈ v, Fits x := by
    simp [Fits]
  exact recursion_right rfl (by decide) none hsized hfits

/-- **Counterexample**: the value 2^31 is added to the statistic as -2^31, and the statistic is 0.
-/
theorem recursion_not : ¬ ∀ es : List Visit,
    (∀ v ∈ (watched (σ := Unit) Stat.cusumOnly none es).values,
      v.length = Stat.cusumOnly.metrics.length) →
    RunRight (σ := Unit) Stat.cusumOnly none es := by
  intro hall
  have hstep := hall [.learn [0], .learn [0], .learn [2147483648], .test] (by decide)
    [.learn [0], .learn [0], .learn [2147483648]] .test (List.prefix_refl _)
  obtain ⟨K', hK', -, -, hmetrics⟩ := hstep _ rfl rfl
  obtain rfl := Option.some.inj hK'
  have hround := (hmetrics 0 _ _ rfl rfl).1
  exact absurd hround (by decide)

end Topas.Wkp
