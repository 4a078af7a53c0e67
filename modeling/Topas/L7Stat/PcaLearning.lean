import Topas.L7Stat.Pca
import Topas.L7Stat.TestRounds

/-!
# The learning phase of the principal component analysis

From the first `pca_learning_phase` vectors of an end point; the next one ends the phase and is
dropped. With real numbers for `double`:

* `PcaFollows.run`: in every run of visits the sums are those of the vectors so far, and when the
  phase is over the matrix and the standard deviations are made of them.
* `analysed_iff`: these are the sample covariances, or the sample correlations and standard
  deviations, exactly if what the products lose to their 64 bits adds up to nothing, and with the
  correlation matrix there is a second metric: only in a round with two different metrics are the
  standard deviations stored, that later vectors are divided by.
-/
namespace Topas.Wkp

variable {ν : Type} {m : ℕ}

/-! ## Runs -/

/-- The vectors that an end point is visited with. -/
def vectors (es : List Visit) : List (List Int64) :=
  es.filterMap fun
    | .learn metricData => some metricData
    | .test => none

theorem vectors_learn (es : List Visit) (d : List Int64) :
    vectors (es ++ [.learn d]) = vectors es ++ [d] := by
  simp [vectors]

theorem vectors_test (es : List Visit) : vectors (es ++ [.test]) = vectors es := by
  simp [vectors]

variable [Double ν]

/-- Before an end point is known there are none. -/
theorem vectors_of_unknown {σ : Type} {cfg : StatConfig ν} {usePca : Option (PcaConfig σ)}
    (es : List Visit) (h : (watched cfg usePca es).kept = none) : vectors es = [] := by
  induction es using List.reverseRecOn with
  | nil => rfl
  | append_singleton es e ih =>
    obtain ⟨hkept, rfl⟩ := unknown_of_append h
    rw [vectors_test, ih hkept]

/-- The analysis after some vectors. -/
structure PcaFollows (pca : PcaSettings m ν) (vs : List (List Int64)) (P : Pca (PcaSums m ν)) :
    Prop where
  learning : P.pcaReady = false → P.pcaLearningPhaseNr.toInt = vs.length ∧
    (vs.length : Int) ≤ pca.pcaLearningPhase.toInt ∧ P.sums = sumsOf m vs
  ready : P.pcaReady = true → pca.pcaLearningPhase.toInt < vs.length ∧
    P.sums = (sumsOf m (vs.take pca.pcaLearningPhase.toInt.toNat)).eigenvectors pca

namespace PcaFollows

variable {pca : PcaSettings m ν} {vs : List (List Int64)} {P : Pca (PcaSums m ν)}

theorem extract (h : PcaFollows pca vs P) (v : List Int64) :
    PcaFollows pca (vs ++ [v]) (extractPcaData pca.config P v).1 := by
  cases hready : P.pcaReady with
  | true =>
    obtain ⟨hlen, hsums⟩ := h.ready hready
    have hsame : (extractPcaData pca.config P v).1 = P := by simp [extractPcaData, hready]
    rw [hsame]
    refine ⟨fun hlearning => ?_, fun _ => ⟨?_, ?_⟩⟩
    · rw [hready] at hlearning
      cases hlearning
    · rw [List.length_append, List.length_singleton]
      omega
    · rw [List.take_append_of_le_length (by omega)]
      exact hsums
  | false =>
    obtain ⟨hnr, hle, hsums⟩ := h.learning hready
    by_cases hlt : P.pcaLearningPhaseNr < pca.pcaLearningPhase
    · have hint := Int32.lt_iff_toInt_lt.mp hlt
      have hnext : (extractPcaData pca.config P v).1 =
          { P with sums := P.sums.addToSums v, pcaLearningPhaseNr := P.pcaLearningPhaseNr + 1 } := by
        simp [extractPcaData, hready, PcaSettings.config, hlt]
      rw [hnext]
      refine ⟨fun _ => ⟨?_, ?_, ?_⟩, fun hdone => ?_⟩
      · have hbound := pca.pcaLearningPhase.toInt_lt
        have hone : (1 : Int32).toInt = 1 := rfl
        rw [Int32.toInt_add, hnr, hone, List.length_append, List.length_singleton, Int.bmod_def]
        omega
      · rw [List.length_append, List.length_singleton]
        omega
      · rw [hsums, sumsOf_append]
      · rw [hready] at hdone
        cases hdone
    · have hint : ¬ P.pcaLearningPhaseNr.toInt < pca.pcaLearningPhase.toInt := fun hlt' =>
        hlt (Int32.lt_iff_toInt_lt.mpr hlt')
      have hend : P.pcaLearningPhaseNr = pca.pcaLearningPhase := Int32.toInt_inj.mp (by omega)
      have hnext : (extractPcaData pca.config P v).1 =
          { P with sums := P.sums.eigenvectors pca, pcaReady := true } := by
        simp [extractPcaData, hready, PcaSettings.config, hend, Int32.lt_irrefl]
      rw [hnext]
      refine ⟨fun hlearning => (by cases hlearning), fun _ => ⟨?_, ?_⟩⟩
      · rw [List.length_append, List.length_singleton]
        omega
      · -- the vector that ends the phase is not among them
        have htake : (vs ++ [v]).take pca.pcaLearningPhase.toInt.toNat = vs := by
          have hlen : pca.pcaLearningPhase.toInt.toNat = vs.length := by omega
          rw [hlen, List.take_left]
        rw [hsums, htake]

/-- Before the first vector. -/
theorem start (hphase : 0 ≤ pca.pcaLearningPhase.toInt) : PcaFollows pca [] ⟨false, 0, .init⟩ :=
  ⟨fun _ => ⟨rfl, hphase, rfl⟩, fun hready => by cases hready⟩

/-- The analysis of an end point in any run of visits. -/
theorem run {cfg : StatConfig ν} (hphase : 0 ≤ pca.pcaLearningPhase.toInt) (es : List Visit)
    {K : Kept ν (PcaSums m ν)} (hK : (watched cfg (some pca.config) es).kept = some K) :
    ∃ P, K.pca = some P ∧ PcaFollows pca (vectors es) P := by
  induction es using List.reverseRecOn generalizing K with
  | nil => cases hK
  | append_singleton es e ih =>
    cases hkept : (watched cfg (some pca.config) es).kept with
    | none =>
      rw [watched_append] at hK
      cases e with
      | test => simp [Watched.visit, visit, hkept] at hK
      | learn d =>
        simp only [Watched.visit, visit, hkept, Option.some.injEq] at hK
        rw [vectors_learn, vectors_of_unknown es hkept, ← hK]
        exact ⟨_, rfl, (start hphase).extract d⟩
    | some K0 =>
      obtain ⟨P, hP, hfollows⟩ := ih hkept
      rw [watched_append] at hK
      cases e with
      | test =>
        simp only [Watched.visit, visit, hkept, Option.some.injEq] at hK
        rw [vectors_test, ← hK]
        exact ⟨P, hP, hfollows⟩
      | learn d =>
        rw [vectors_learn]
        simp only [Watched.visit, visit, hkept, hP] at hK
        refine ⟨_, ?_, hfollows.extract d⟩
        split at hK
        · exact (Option.some.inj hK) ▸ rfl
        · exact (Option.some.inj hK) ▸ rfl

end PcaFollows

/-! ## The matrix and the standard deviations -/

section

variable {vs : List (List Int64)} {i j : Fin m}

/-- The same number in all vectors. -/
def Constant (i : Fin m) (vs : List (List Int64)) : Prop :=
    ∀ v ∈ vs, ∀ w ∈ vs, entry v i = entry w i

instance (i : Fin m) (vs : List (List Int64)) : Decidable (Constant i vs) :=
  inferInstanceAs (Decidable (∀ v ∈ vs, ∀ w ∈ vs, entry v i = entry w i))

/-- Two metrics, as numbers. -/
def sample (i j : Fin m) (vs : List (List Int64)) : List (ℝ × ℝ) :=
  vs.map fun v => ((entry v i).toInt, (entry v j).toInt)

noncomputable def sampleCovariance (i j : Fin m) (vs : List (List Int64)) : ℝ :=
  SampleMoments.covariance (sample i j vs)

noncomputable def sampleDeviation (i : Fin m) (vs : List (List Int64)) : ℝ :=
    √(sampleCovariance i i vs)

/-- What the products of two metrics lose in 64 bits. -/
def lostProducts (i j : Fin m) (vs : List (List Int64)) : Int :=
    products i j vs - storedProducts i j vs

theorem sampleCovariance_eq (hvs : vs ≠ []) : sampleCovariance i j vs =
    ((products i j vs : ℝ) - (total i vs : ℝ) * total j vs / vs.length) / (vs.length - 1) := by
  rw [sampleCovariance, SampleMoments.covariance_eq (by simpa [sample] using hvs)]
  simp [sample, products, total, Int.cast_list_sum, Function.comp_def]

/-- A metric with itself. -/
theorem sample_self (i : Fin m) (vs : List (List Int64)) :
    sample i i vs = (vs.map fun v => ((entry v i).toInt : ℝ)).map fun x => (x, x) := by
  simp [sample, Function.comp_def]

theorem sampleCovariance_nonneg (hvs : vs ≠ []) : 0 ≤ sampleCovariance i i vs := by
  rw [sampleCovariance, sample_self]
  exact SampleMoments.covariance_self_nonneg (by simpa [Nat.one_le_iff_ne_zero] using hvs)

/-- Only a constant metric has no deviation. -/
theorem constant_of_sampleDeviation (htwo : 2 ≤ vs.length) (h : sampleDeviation i vs = 0) :
    Constant i vs := by
  have hvs : vs ≠ [] := List.ne_nil_of_length_pos (by omega)
  have hzero := (Real.sqrt_eq_zero (sampleCovariance_nonneg hvs)).mp h
  rw [sampleCovariance, sample_self] at hzero
  have hmean := SampleMoments.eq_of_covariance_self (by simpa using htwo) hzero
  intro v hv w hw
  have hvw := (hmean _ (List.mem_map_of_mem hv)).trans (hmean _ (List.mem_map_of_mem hw)).symm
  exact Int64.toInt_inj.mp (by exact_mod_cast hvw)

/-! ### What the code makes of the sums -/

/-- The covariance as the code computes it. -/
theorem covariance_eq {n : Int32} (hn : n.toInt = vs.length) :
    covariance n (storedProducts i j vs : ℝ) (total i vs) (total j vs) =
      ((storedProducts i j vs : ℝ) - (total i vs : ℝ) * total j vs / vs.length) /
        (vs.length - 1) := by
  simp [covariance, hn]

/-- It is the sample covariance if nothing is lost. -/
theorem covariance_iff {n : Int32} (hn : n.toInt = vs.length) (htwo : 2 ≤ vs.length) :
    covariance n (storedProducts i j vs : ℝ) (total i vs) (total j vs) = sampleCovariance i j vs ↔
      lostProducts i j vs = 0 := by
  have hlen : (vs.length : ℝ) - 1 ≠ 0 := by
    have : (2 : ℝ) ≤ vs.length := by exact_mod_cast htwo
    linarith
  rw [covariance_eq hn, sampleCovariance_eq (List.ne_nil_of_length_pos (by omega)),
    div_left_inj' hlen,
    sub_left_inj, lostProducts, sub_eq_zero, eq_comm]
  exact Int.cast_inj

theorem fabs_eq (x : ℝ) : fabs x = |x| := by
  rw [fabs, Int.cast_zero, zero_sub]
  split
  · exact (abs_of_neg ‹_›).symm
  · exact (abs_of_nonneg (not_lt.mp ‹_›)).symm

theorem deviation_eq (pca : PcaSettings m ℝ) (i : Fin m) (vs : List (List Int64)) :
    (sumsOf m vs).deviation pca i =
      √|covariance pca.pcaLearningPhase (storedProducts i i vs : ℝ) (total i vs) (total i vs)| := by
  rw [PcaSums.deviation, sumsOf_products, sumsOf_metrics, standardDeviation, fabs_eq]
  rfl

/-- The standard deviation is right if nothing is lost, or so much that the sign of the variance
turns. -/
def Squared (i : Fin m) (vs : List (List Int64)) : Prop :=
  lostProducts i i vs = 0 ∨
    vs.length * lostProducts i i vs = 2 * (vs.length * products i i vs - total i vs * total i vs)

instance (i : Fin m) (vs : List (List Int64)) : Decidable (Squared i vs) :=
  inferInstanceAs (Decidable (_ ∨ _))

theorem deviation_iff {pca : PcaSettings m ℝ} (hn : pca.pcaLearningPhase.toInt = vs.length)
    (htwo : 2 ≤ vs.length) : (sumsOf m vs).deviation pca i = sampleDeviation i vs ↔
    Squared i vs := by
  have hvs : vs ≠ [] := List.ne_nil_of_length_pos (by omega)
  have hlen : (vs.length : ℝ) ≠ 0 := Nat.cast_ne_zero.mpr (by omega)
  have hlen1 : (vs.length : ℝ) - 1 ≠ 0 := by
    have : (2 : ℝ) ≤ vs.length := by exact_mod_cast htwo
    linarith
  have hturned :
    covariance pca.pcaLearningPhase (storedProducts i i vs : ℝ) (total i vs) (total i vs) =
      -sampleCovariance i i vs ↔
        vs.length * lostProducts i i vs = 2 *
            (vs.length * products i i vs - total i vs * total i vs) := by
    rw [covariance_eq hn, sampleCovariance_eq hvs, ← neg_div, div_left_inj' hlen1, lostProducts]
    rw [← Int.cast_inj (α := ℝ)]
    push_cast
    field_simp
    constructor <;> intro h <;> linarith
  rw [deviation_eq, sampleDeviation, Real.sqrt_inj (abs_nonneg _) (sampleCovariance_nonneg hvs),
    abs_eq (sampleCovariance_nonneg hvs), covariance_iff hn htwo, hturned, Squared]

/-! ## The end of the learning phase -/

/-- The matrix is the sample covariance matrix of the vectors. With the correlation matrix, and no
metric constant, it is the sample correlation matrix, and what later vectors are divided by is the
sample standard deviation of each metric, which is not 0. -/
structure Analysed (pca : PcaSettings m ℝ) (vs : List (List Int64)) (P : PcaSums m ℝ) : Prop where
  covariance : pca.useCorrelationMatrix = false → ∀ i j, P.cov i j = sampleCovariance i j vs
  correlation : pca.useCorrelationMatrix = true → (∀ i : Fin m, ¬ Constant i vs) →
    ∀ i j, P.cov i j = sampleCovariance i j vs / (sampleDeviation i vs * sampleDeviation j vs)
  divisor : pca.useCorrelationMatrix = true → (∀ i : Fin m, ¬ Constant i vs) →
    ∀ i, P.stddevs i = sampleDeviation i vs ∧ P.stddevs i ≠ 0

/-- Nothing is lost. With the correlation matrix: some metric is constant, or there are two metrics
or more and nothing is lost that matters to the standard deviations and the products of two metrics.
-/
def Intact (m : ℕ) (useCorrelationMatrix : Bool) (vs : List (List Int64)) : Prop :=
  if useCorrelationMatrix then
    (∃ i : Fin m, Constant i vs) ∨
      2 ≤ m ∧ (∀ i : Fin m, Squared i vs) ∧ ∀ i j : Fin m, i ≠ j → lostProducts i j vs = 0
  else ∀ i j : Fin m, lostProducts i j vs = 0

section

variable {pca : PcaSettings m ℝ}

/-- One covariance that the end of a phase computes. -/
theorem covariance_sumsOf (hn : pca.pcaLearningPhase.toInt = vs.length) (htwo : 2 ≤ vs.length)
    (i j : Fin m) :
    covariance pca.pcaLearningPhase ((sumsOf m vs : PcaSums m ℝ).sumsOfProducts i j)
        ((sumsOf m vs : PcaSums m ℝ).sumsOfMetrics i)
        ((sumsOf m vs : PcaSums m ℝ).sumsOfMetrics j) =
      sampleCovariance i j vs ↔ lostProducts i j vs = 0 := by
  rw [sumsOf_products, sumsOf_metrics, sumsOf_metrics]
  exact covariance_iff hn htwo

theorem analysed_covariance (hcorr : pca.useCorrelationMatrix = false)
    (hn : pca.pcaLearningPhase.toInt = vs.length) (htwo : 2 ≤ vs.length) :
    Analysed pca vs ((sumsOf m vs).eigenvectors pca) ↔ ∀ i j : Fin m, lostProducts i j vs = 0 := by
  have hentry : ∀ i j : Fin m, ((sumsOf m vs).eigenvectors pca).cov i j = sampleCovariance i j vs ↔
      lostProducts i j vs = 0 := fun i j => by
    rw [cov_eigenvectors, hcorr, if_neg Bool.false_ne_true]
    exact covariance_sumsOf hn htwo i j
  have hno : pca.useCorrelationMatrix ≠ true := by simp [hcorr]
  exact ⟨fun h i j => (hentry i j).mp (h.covariance hcorr i j),
    fun h => ⟨fun _ i j => (hentry i j).mpr (h i j), fun htrue => absurd htrue hno,
      fun htrue => absurd htrue hno⟩⟩

/-- With a constant metric there is no correlation matrix. -/
theorem analysed_constant (hcorr : pca.useCorrelationMatrix = true)
    (hconst : ∃ i : Fin m, Constant i vs) (P : PcaSums m ℝ) : Analysed pca vs P :=
  ⟨fun hfalse => absurd hfalse (by simp [hcorr]), fun _ hno => absurd hconst (not_exists.mpr hno),
    fun _ hno => absurd hconst (not_exists.mpr hno)⟩

theorem analysed_correlation (hm : 1 ≤ m) (hcorr : pca.useCorrelationMatrix = true)
    (hn : pca.pcaLearningPhase.toInt = vs.length) (htwo : 2 ≤ vs.length)
    (hno : ∀ i : Fin m, ¬ Constant i vs) :
    Analysed pca vs ((sumsOf m vs).eigenvectors pca) ↔
      2 ≤ m ∧ (∀ i : Fin m, Squared i vs) ∧ ∀ i j : Fin m, i ≠ j → lostProducts i j vs = 0 := by
  have hvs : vs ≠ [] := List.ne_nil_of_length_pos (by omega)
  have hsd : ∀ i : Fin m, sampleDeviation i vs ≠ 0 := fun i hzero =>
    hno i (constant_of_sampleDeviation htwo hzero)
  have hstddevs := stddevs_eigenvectors hcorr (sumsOf m vs)
  have hmatrix : ∀ i j : Fin m, i ≠ j → (∀ k : Fin m, Squared k vs) →
      (((sumsOf m vs).eigenvectors pca).cov i j =
        sampleCovariance i j vs / (sampleDeviation i vs * sampleDeviation j vs) ↔
          lostProducts i j vs = 0) := fun i j hij hsq => by
    rw [cov_eigenvectors, hcorr, if_pos rfl, if_pos hij, (deviation_iff hn htwo).mpr (hsq i),
      (deviation_iff hn htwo).mpr (hsq j), div_left_inj' (mul_ne_zero (hsd i) (hsd j))]
    exact covariance_sumsOf hn htwo i j
  constructor
  · intro h
    have hm2 : 2 ≤ m := by
      by_contra hone
      have hunstored := (h.divisor hcorr hno ⟨0, hm⟩).2
      rw [hstddevs, if_neg hone, stddevs_sumsOf, Int.cast_zero] at hunstored
      exact hunstored rfl
    have hsq : ∀ k : Fin m, Squared k vs := fun k => by
      have hdivisor := (h.divisor hcorr hno k).1
      rw [hstddevs, if_pos hm2] at hdivisor
      exact (deviation_iff hn htwo).mp hdivisor
    exact ⟨hm2, hsq, fun i j hij => (hmatrix i j hij hsq).mp (h.correlation hcorr hno i j)⟩
  · rintro ⟨hm2, hsq, hlost⟩
    refine ⟨fun hfalse => absurd hfalse (by simp [hcorr]), fun _ _ i j => ?_, fun _ _ i => ?_⟩
    · by_cases hij : i = j
      · rw [cov_eigenvectors, hcorr, if_pos rfl, if_neg (not_not.mpr hij), ← hij, Int.cast_one,
          sampleDeviation, Real.mul_self_sqrt (sampleCovariance_nonneg hvs), div_self]
        intro hzero
        exact hsd i (by rw [sampleDeviation, hzero, Real.sqrt_zero])
      · exact (hmatrix i j hij hsq).mpr (hlost i j hij)
    · have hdivisor : ((sumsOf m vs).eigenvectors pca).stddevs i = sampleDeviation i vs := by
        rw [hstddevs, if_pos hm2]
        exact (deviation_iff hn htwo).mpr (hsq i)
      exact ⟨hdivisor, hdivisor ▸ hsd i⟩

/-- What the sums of a phase become. -/
theorem analysed_eigenvectors (hm : 1 ≤ m) (hn : pca.pcaLearningPhase.toInt = vs.length)
    (htwo : 2 ≤ vs.length) :
    Analysed pca vs ((sumsOf m vs).eigenvectors pca) ↔ Intact m pca.useCorrelationMatrix vs := by
  unfold Intact
  cases hcorr : pca.useCorrelationMatrix with
  | false => exact analysed_covariance hcorr hn htwo
  | true =>
    rw [if_pos rfl]
    by_cases hconst : ∃ i : Fin m, Constant i vs
    · exact ⟨fun _ => .inl hconst, fun _ => analysed_constant hcorr hconst _⟩
    · rw [analysed_correlation hm hcorr hn htwo (not_exists.mp hconst), or_iff_right hconst]

end

/-- The end of the learning phase in any run: the matrix and the standard deviations are those of
the first vectors exactly if nothing is lost. -/
theorem analysed_iff (cfg : StatConfig ℝ) (hm : 1 ≤ m) {pca : PcaSettings m ℝ}
    (hphase : 2 ≤ pca.pcaLearningPhase.toInt) (es : List Visit) {K : Kept ℝ (PcaSums m ℝ)}
    (hK : (watched cfg (some pca.config) es).kept = some K) {P : Pca (PcaSums m ℝ)}
    (hP : K.pca = some P) (hready : P.pcaReady = true) :
    let first := (vectors es).take pca.pcaLearningPhase.toInt.toNat
    Analysed pca first P.sums ↔ Intact m pca.useCorrelationMatrix first := by
  intro first
  obtain ⟨P', hP', hfollows⟩ := PcaFollows.run (by omega) es hK
  obtain rfl := Option.some.inj (hP'.symm.trans hP)
  obtain ⟨hlen, hsums⟩ := hfollows.ready hready
  have hfirst : first.length = pca.pcaLearningPhase.toInt.toNat := by
    rw [List.length_take]
    omega
  rw [hsums]
  exact analysed_eigenvectors hm (by omega) (by omega)

/-- The cast to `int64_t`, which drops what is behind the point. -/
noncomputable def truncate (x : ℝ) : Int64 := Int64.ofInt (if 0 ≤ x then ⌊x⌋ else ⌈x⌉)

/-- The correlation matrix of one metric, from two vectors. -/
noncomputable def oneMetric : PcaSettings 1 ℝ := ⟨2, true, fun _ _ _ => 1, truncate⟩

/-- The eigenvectors of a correlation matrix of two metrics are the diagonals, the one with the
larger eigenvalue first. -/
noncomputable def diagonals (A : Fin 2 → Fin 2 → ℝ) (i j : Fin 2) : ℝ :=
  let signs : Fin 2 → Fin 2 → ℝ := if 0 ≤ A 0 1 then ![![1, 1], ![1, -1]] else ![![1, 1], ![-1, 1]]
  signs i j / √2

theorem mul_diagonals {A : Fin 2 → Fin 2 → ℝ} (hsymm : A 1 0 = A 0 1) (hdiag : A 1 1 = A 0 0)
    (i j : Fin 2) :
    ∑ k, A i k * diagonals A k j = (A 0 0 + ![|A 0 1|, -|A 0 1|] j) * diagonals A i j := by
  rw [Fin.sum_univ_two]
  unfold diagonals
  dsimp only
  rcases le_or_gt 0 (A 0 1) with hle | hlt
  · rw [if_pos hle, abs_of_nonneg hle]
    fin_cases i <;> fin_cases j <;> simp [hsymm, hdiag] <;> ring
  · rw [if_neg hlt.not_ge, abs_of_neg hlt]
    fin_cases i <;> fin_cases j <;> simp [hsymm, hdiag] <;> ring

/-- The correlation matrix of two metrics, from two vectors. -/
noncomputable def twoMetrics : PcaSettings 2 ℝ := ⟨2, true, diagonals, truncate⟩

/-- Two metrics. -/
theorem analysed_iff_pair : ∃ (K : Kept ℝ (PcaSums 2 ℝ)) (P : Pca (PcaSums 2 ℝ)),
    (watched (exactCusum 2) (some twoMetrics.config)
        [.learn [1, 4], .learn [3, 0], .learn [5, 5]]).kept = some K ∧
      K.pca = some P ∧ Analysed twoMetrics [[1, 4], [3, 0]] P.sums := by
  refine ⟨_, _, rfl, rfl, ?_⟩
  refine (@analysed_iff 2 (exactCusum 2) (by decide) twoMetrics (by decide)
    [.learn [1, 4], .learn [3, 0], .learn [5, 5]] _ rfl _ rfl rfl).mpr ?_
  exact .inr ⟨le_refl 2, by decide, by decide⟩

/-- **Counterexample**: one metric with the values 1 and 3. Later values are divided by 0. -/
theorem analysed_not : ¬ ∀ (m : ℕ) (cfg : StatConfig ℝ) (pca : PcaSettings m ℝ) (es : List Visit)
    (K : Kept ℝ (PcaSums m ℝ)) (P : Pca (PcaSums m ℝ)), 1 ≤ m → 2 ≤ pca.pcaLearningPhase.toInt →
    (watched cfg (some pca.config) es).kept = some K → K.pca = some P → P.pcaReady = true →
    Analysed pca ((vectors es).take pca.pcaLearningPhase.toInt.toNat) P.sums := by
  intro hall
  have hanalysed := hall 1 (exactCusum 2) oneMetric [.learn [1], .learn [3], .learn [0]] _ _ le_rfl
    (by decide) rfl rfl rfl
  have hvaries : ∀ i : Fin 1, ¬ Constant i [[1], [3]] := by decide
  have hdivisor := (hanalysed.divisor rfl hvaries 0).2
  refine hdivisor ((stddevs_eigenvectors rfl (sumsOf 1 [[1], [3]]) 0).trans ?_)
  rw [if_neg (by decide), stddevs_sumsOf, Int.cast_zero]

end

end Topas.Wkp
