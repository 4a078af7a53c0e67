import Topas.L7Stat.Alarms

/-!
# The range of CUSUM's parameters

`cusum_test` takes the square root of the variance for its threshold `N`. With real numbers for
`double`, values whose squares fit their 64 bits, and a smoothing constant between 0 and 1:

* `Ranged.update`: the sum of the squares, the variance that the formula makes of it, and every
  smoothed variance are not negative. The formula subtracts the square of the mean over `n`, which
  is at most the sum of squares.
* `cusum_in_range`: nor are the threshold and the statistic `g`, in every state of every run.
-/
namespace Topas.Wkp

variable {σ : Type} {cfg : StatConfig ℝ} {usePca : Option (PcaConfig σ)}

/-- The magnitude is below 2^31. -/
def Small (x : Int64) : Prop := |x.toInt| < 2 ^ 31

instance (x : Int64) : Decidable (Small x) := inferInstanceAs (Decidable (_ < _))

/-- The square of a small value loses nothing in 64 bits. -/
theorem toInt_square {x : Int64} (h : Small x) : (x * x).toInt = x.toInt * x.toInt := by
  have hbound : x.toInt * x.toInt < 2 ^ 62 := by
    have habs := abs_lt.mp h
    nlinarith [habs.1, habs.2]
  have hnonneg := mul_self_nonneg x.toInt
  rw [Int64.toInt_mul, Int.bmod_def]
  omega

theorem cast_square {x : Int64} (h : Small x) : ((x * x).toInt : ℝ) = (x.toInt : ℝ) * x.toInt := by
  rw [toInt_square h, Int.cast_mul]

/-- One more value: what Cauchy and Schwarz say of a sum and a sum of squares. -/
theorem sq_sum_le {n s q : ℝ} (x : ℝ) (hn : 0 ≤ n) (hq : 0 ≤ q) (h : s ^ 2 ≤ n * q) :
    (s + x) ^ 2 ≤ (n + 1) * (q + x * x) := by
  rcases hn.eq_or_lt with rfl | hpos
  · have hs : s = 0 := by nlinarith
    rw [hs]
    nlinarith
  · -- `n` times the difference is a sum of squares
    have hcross : 0 ≤ n * (n * (x * x) + q - 2 * s * x) := by nlinarith [sq_nonneg (n * x - s)]
    have hle := nonneg_of_mul_nonneg_right hcross hpos
    nlinarith

/-- The variance that `conclude` makes of such sums. -/
theorem variance_nonneg {n s q : ℝ} (hn : 2 ≤ n) (hq : 0 ≤ q) (h : s ^ 2 ≤ n * q) :
    0 ≤ (q - s / n * (s / n) / n) / (n - 1) := by
  have hn0 : 0 < n := by linarith
  refine div_nonneg ?_ (by linarith)
  have hmean : s / n * (s / n) / n ≤ q := by
    rw [div_mul_div_comm, div_div, div_le_iff₀ (by positivity)]
    have hone : 1 ≤ n * n := by nlinarith
    have hcube : n * q ≤ n * q * (n * n) := le_mul_of_one_le_right (mul_nonneg hn0.le hq) hone
    linarith
  linarith

theorem mem_zipWith {α β γ : Type} {f : α → β → γ} {as : List α} {bs : List β} {c : γ}
    (h : c ∈ as.zipWith f bs) : ∃ a ∈ as, ∃ b ∈ bs, c = f a b := by
  obtain ⟨i, hi⟩ := List.mem_iff_getElem?.mp h
  obtain ⟨a, b, ha, hb, rfl⟩ := List.getElem?_zipWith_eq_some.mp hi
  exact ⟨a, List.mem_of_getElem? ha, b, List.mem_of_getElem? hb, rfl⟩

/-- The parameters of one metric. While an end point is learned they are sums of `nr` values. -/
structure Bounds (nr : ℕ) (learned : Bool) (c : CusumMetric ℝ) : Prop where
  variance : 0 ≤ c.variance
  g : 0 ≤ c.g
  sums : learned = false → c.mean ^ 2 ≤ nr * c.variance

/-- Those of all metrics. -/
structure Ranged (cfg : StatConfig ℝ) (P : Params ℝ) : Prop where
  nr : P.readyToTest = false → P.cusumLearningPhaseNr ≤ cfg.cusumLearningPhase.toNat
  metrics : ∀ c ∈ P.cusum, Bounds P.cusumLearningPhaseNr P.readyToTest c

namespace Bounds

variable {nr : ℕ} {c : CusumMetric ℝ} {x : Int64}

theorem accumulate (h : Bounds nr false c) (hx : Small x) :
    Bounds (nr + 1) false (c.accumulate x) := by
  have hsquare := cast_square hx
  refine ⟨?_, h.g, fun _ => ?_⟩
  · simp only [CusumMetric.accumulate, hsquare]
    exact add_nonneg h.variance (mul_self_nonneg _)
  · simp only [CusumMetric.accumulate, hsquare]
    push_cast
    exact sq_sum_le _ nr.cast_nonneg h.variance (h.sums rfl)

theorem conclude (h : Bounds nr false c) (hnr : nr = cfg.cusumLearningPhase.toNat) (htwo : 2 ≤ nr) :
    Bounds nr true (c.conclude cfg x) := by
  refine ⟨?_, h.g, fun hlearned => by cases hlearned⟩
  have hvariance := variance_nonneg (by exact_mod_cast htwo) h.variance (h.sums rfl)
  rw [hnr] at hvariance
  simpa [CusumMetric.conclude] using hvariance

theorem smooth (h : Bounds nr true c) (hlog : cfg.logVarianceEwma = false)
    (hα : 0 ≤ cfg.smoothingConstant ∧ cfg.smoothingConstant ≤ 1) :
      Bounds nr true (c.smooth cfg) := by
  refine ⟨?_, h.g, fun hlearned => by cases hlearned⟩
  have hβ : (0 : ℝ) ≤ 1 - cfg.smoothingConstant := sub_nonneg.mpr hα.2
  have hmoved : ∀ y : ℝ,
      0 ≤ c.variance * (1 - cfg.smoothingConstant) + y * y * cfg.smoothingConstant := fun y =>
    add_nonneg (mul_nonneg h.variance hβ) (mul_nonneg (mul_self_nonneg y) hα.1)
  simpa [CusumMetric.smooth, hlog] using hmoved _

theorem test (h : Bounds nr true c) (updated : Bool) :
    Bounds nr true (cusumTestMetric cfg updated c).2 := by
  refine ⟨h.variance, ?_, fun hlearned => by cases hlearned⟩
  have hcusum : ∀ (X : Int64) (beta g : ℝ), 0 ≤ cusum X beta g := fun X beta g => by
    simp only [cusum, Int.cast_zero]
    split
    · exact le_rfl
    · exact not_lt.mp ‹_›
  cases updated with
  | true => exact hcusum _ _ _
  | false => simp [cusumTestMetric]

end Bounds

namespace Ranged

variable {P : Params ℝ} {v : List Int64}

/-- A change of the other test's part. -/
theorem congr (h : Ranged cfg P) (old new : List (List Int64)) (wkp : List WkpMetric)
    (updated : Bool) :
    Ranged cfg { P with old := old, new := new, wkp := wkp, wkpUpdated := updated } :=
  ⟨h.nr, h.metrics⟩

theorem start (hphase : 2 ≤ cfg.cusumLearningPhase.toNat) (hv : ∀ x ∈ v, Small x) :
    Ranged cfg (.start cfg v) := by
  refine ⟨fun _ => ?_, fun c hc => ?_⟩
  · simp only [Params.start]
    split <;> omega
  · cases hcusum : cfg.enableCusumTest with
    | false => simp [Params.start, hcusum] at hc
    | true =>
      simp only [Params.start, hcusum, if_true, List.mem_map] at hc ⊢
      obtain ⟨x, hx, rfl⟩ := hc
      have hsquare := cast_square (hv x hx)
      refine ⟨?_, by simp, fun _ => ?_⟩
      · rw [hsquare]
        exact mul_self_nonneg _
      · rw [hsquare, Nat.cast_one, one_mul, sq]

theorem startPca (cfg : StatConfig ℝ) : Ranged cfg (.startPca cfg) := by
  refine ⟨fun _ => Nat.zero_le _, fun c hc => ?_⟩
  cases hcusum : cfg.enableCusumTest with
  | false => simp [Params.startPca, hcusum] at hc
  | true =>
    simp only [Params.startPca, hcusum, if_true] at hc ⊢
    rw [List.eq_of_mem_replicate hc]
    exact ⟨by simp, by simp, fun _ => by simp⟩

theorem cusumUpdate (h : Ranged cfg P) (hα : 0 ≤ cfg.smoothingConstant ∧ cfg.smoothingConstant ≤ 1)
    (hlog : cfg.logVarianceEwma = false) (hphase : 2 ≤ cfg.cusumLearningPhase.toNat)
    (hv : ∀ x ∈ v, Small x) : Ranged cfg (cusumUpdate cfg P v) := by
  cases hready : P.readyToTest with
  | false =>
    have hnr := h.nr hready
    have hmetrics : ∀ c ∈ P.cusum, Bounds P.cusumLearningPhaseNr false c := hready ▸ h.metrics
    rcases Nat.lt_or_eq_of_le hnr with hlt | hend
    · rw [cusumUpdate_accumulate hready hlt]
      refine ⟨fun _ => hlt, fun c hc => ?_⟩
      obtain ⟨c0, hc0, x, hx, rfl⟩ := mem_zipWith hc
      simp only [hready]
      exact (hmetrics c0 hc0).accumulate (hv x hx)
    · rw [cusumUpdate_conclude hready hend.ge]
      refine ⟨fun hlearned => (by cases hlearned), fun c hc => ?_⟩
      obtain ⟨c0, hc0, x, -, rfl⟩ := mem_zipWith hc
      exact (hmetrics c0 hc0).conclude hend (hend ▸ hphase)
  | true =>
    have hmetrics : ∀ c ∈ P.cusum, Bounds P.cusumLearningPhaseNr true c := hready ▸ h.metrics
    rw [cusumUpdate_ready hready]
    refine ⟨h.nr, fun c hc => ?_⟩
    obtain ⟨c0, hc0, x, -, rfl⟩ := mem_zipWith hc
    have hc0 := hmetrics c0 hc0
    have hset : ∀ {c : CusumMetric ℝ}, Bounds P.cusumLearningPhaseNr true c →
        Bounds P.cusumLearningPhaseNr true (c.setX x) := fun hc => ⟨hc.variance, hc.g, hc.sums⟩
    simp only [hready]
    split
    · exact hset hc0
    · exact hset (hc0.smooth hlog hα)

theorem update (h : Ranged cfg P) (hα : 0 ≤ cfg.smoothingConstant ∧ cfg.smoothingConstant ≤ 1)
    (hlog : cfg.logVarianceEwma = false) (hphase : 2 ≤ cfg.cusumLearningPhase.toNat)
    (hv : ∀ x ∈ v, Small x) : Ranged cfg (update cfg P v) := by
  cases hcusum : cfg.enableCusumTest with
  | true =>
    obtain ⟨old, new, updated, heq⟩ := update_cusum hcusum P v
    rw [heq]
    exact (h.congr old new P.wkp updated).cusumUpdate hα hlog hphase hv
  | false =>
    obtain ⟨old, new, updated, heq⟩ := update_samplesOnly hcusum P v
    rw [heq]
    exact h.congr old new P.wkp updated

theorem test (h : Ranged cfg P) : Ranged cfg (testEndPoint cfg P).1 := by
  obtain ⟨wkp, updated, heq⟩ := testEndPoint_cusum cfg P
  rw [heq]
  have h' := h.congr P.old P.new wkp updated
  split
  · rename_i hready
    have hready : P.readyToTest = true := (Bool.and_eq_true_iff.mp hready).2
    refine ⟨h.nr, fun c hc => ?_⟩
    simp only [cusumTest, List.map_map, List.mem_map] at hc ⊢
    obtain ⟨c0, hc0, rfl⟩ := hc
    rw [hready]
    exact (hready ▸ h.metrics c0 hc0).test P.cusumUpdated
  · exact h'

end Ranged

/-- In every state of every run with small values, in any pause mode: no variance is negative, so
that its square root is defined, and neither is a threshold or a statistic. -/
theorem cusum_in_range (hα : 0 ≤ cfg.smoothingConstant ∧ cfg.smoothingConstant ≤ 1)
    (hamplitude : 0 < cfg.amplitudePercentage) (hlog : cfg.logVarianceEwma = false)
    (hphase : 2 ≤ cfg.cusumLearningPhase.toNat) (usePca : Option (PcaConfig σ)) (es : List Visit)
    (hvalues : ∀ v ∈ (watched cfg usePca es).values, ∀ x ∈ v, Small x) {K : Kept ℝ σ}
    (hK : (watched cfg usePca es).kept = some K) :
    ∀ c ∈ K.params.cusum, 0 ≤ c.variance ∧ 0 ≤ c.threshold cfg ∧ 0 ≤ c.g := by
  have hlasting : Lasting cfg usePca fun es P =>
      (∀ v ∈ (watched cfg usePca es).values, ∀ x ∈ v, Small x) → Ranged cfg P := {
    start := fun {es d v} _ hvalues hsmall => by
      rw [hvalues] at hsmall
      exact .start hphase (hsmall v (List.mem_singleton_self v))
    startPca := fun _ _ _ => .startPca cfg
    idle := fun {es d P} h hvalues _ hsmall => h (hvalues ▸ hsmall)
    update := fun {es d P v} h hvalues _ hsmall => by
      rw [hvalues] at hsmall
      exact (h fun v hv => hsmall v (List.mem_append_left _ hv)).update hα hlog hphase
        (hsmall v (List.mem_append_right _ (List.mem_singleton_self v)))
    test := fun {es K} _ h hsmall => by
      rw [watched_values_test] at hsmall
      exact (h hsmall).test }
  intro c hc
  have hbounds := (hlasting.run es hK hvalues).metrics c hc
  refine ⟨hbounds.variance, ?_, hbounds.g⟩
  have hsqrt : 0 ≤ Double.sqrt c.variance := Real.sqrt_nonneg c.variance
  have hhalf : 0 ≤ c.half cfg := by
    simp only [CusumMetric.half]
    positivity
  exact mul_nonneg (by exact_mod_cast Nat.zero_le _) hhalf

/-- A learning phase of two values, and two tests with a smoothing step between them. -/
theorem cusum_in_range_smoothed :
    ∃ K : Kept ℝ Unit,
      (watched { exactCusum 2 with smoothingConstant := 1 / 2 } none
          [.learn [3], .learn [-3], .learn [5], .test, .learn [7], .test]).kept = some K ∧
        ∀ c ∈ K.params.cusum, 0 ≤ c.variance ∧
          0 ≤ c.threshold { exactCusum 2 with smoothingConstant := 1 / 2 } ∧ 0 ≤ c.g := by
  have hsmall : ∀ v ∈ ([[3], [-3], [5], [7]] : List (List Int64)), ∀ x ∈ v, Small x :=
    by simp [Small]
  have hα : (0 : ℝ) ≤ 1 / 2 ∧ (1 / 2 : ℝ) ≤ 1 := by norm_num
  exact ⟨_, rfl, @cusum_in_range Unit { exactCusum 2 with smoothingConstant := 1 / 2 } hα
    (zero_lt_one' ℝ) rfl
    (by decide) none [.learn [3], .learn [-3], .learn [5], .test, .learn [7], .test] hsmall _ rfl⟩

end Topas.Wkp
