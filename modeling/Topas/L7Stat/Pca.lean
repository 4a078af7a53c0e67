import Topas.Core.Grid
import Topas.Core.SampleCovariance
import Topas.L7Stat.Learning

/-!
# Principal component analysis

What `Stat::extract_pca_data` keeps of an end point: while it is learned the sums of the metrics and
of their products, then the covariance or correlation matrix, the standard deviations and the
eigenvectors. The number of metrics is `m`, which all indices are below.

The products are `int64_t` products, the sums are of type `double`. `gsl_eigen_symmv`, which also
overwrites `cov`, and the conversion to `int64_t` are parameters.

* `sumsOf_metrics`, `sumsOf_products`: the sums after some vectors.
* `cov_eigenvectors`, `stddevs_eigenvectors`: what is made of them when the learning phase is over.
-/
namespace Topas.Wkp

variable {ν : Type} {m : ℕ}

/-- mirrors detectionmodules/statmodules/wkp-module/params.h:83-103 -/
structure PcaSums (m : ℕ) (ν : Type) where
  sumsOfProducts : Fin m → Fin m → ν
  sumsOfMetrics : Fin m → ν
  stddevs : Fin m → ν
  cov : Fin m → Fin m → ν
  evec : Fin m → Fin m → ν

structure PcaSettings (m : ℕ) (ν : Type) where
  pcaLearningPhase : Int32
  useCorrelationMatrix : Bool
  /-- The eigenvectors of a symmetric matrix, one a column, in the order of their eigenvalues. -/
  symmv : (Fin m → Fin m → ν) → Fin m → Fin m → ν
  toInt64 : ν → Int64

/-- `v.at(i)`. -/
def entry (v : List Int64) (i : Fin m) : Int64 := v.getD i 0

section

variable [Double ν]

/-- mirrors detectionmodules/statmodules/wkp-module/params.cpp:3-16 -/
def PcaSums.init : PcaSums m ν where
  sumsOfProducts _ _ := ((0 : Int) : ν)
  sumsOfMetrics _ := ((0 : Int) : ν)
  stddevs _ := ((0 : Int) : ν)
  cov _ _ := ((0 : Int) : ν)
  evec _ _ := ((0 : Int) : ν)

def fabs (x : ν) : ν := if x < ((0 : Int) : ν) then ((0 : Int) : ν) - x else x

/-- mirrors detectionmodules/statmodules/wkp-module/stat-main.cpp:2132-2140 -/
def covariance (pcaLearningPhase : Int32) (sumProduct sumX sumY : ν) : ν :=
  (sumProduct - sumX * sumY / (pcaLearningPhase.toInt : ν)) /
    ((pcaLearningPhase.toInt : ν) - ((1 : Int) : ν))

/-- mirrors detectionmodules/statmodules/wkp-module/stat-main.cpp:2142-2152 -/
def standardDeviation (pcaLearningPhase : Int32) (sumProduct sumX : ν) : ν :=
  Double.sqrt (fabs ((sumProduct - sumX * sumX / (pcaLearningPhase.toInt : ν)) /
    ((pcaLearningPhase.toInt : ν) - ((1 : Int) : ν))))

namespace PcaSums

/-- One more vector. The products are summed up for `j ≤ i`, and written to both places.
mirrors detectionmodules/statmodules/wkp-module/stat-main.cpp:1426-1435 -/
def addToSums (P : PcaSums m ν) (v : List Int64) : PcaSums m ν :=
  { P with
    sumsOfMetrics := fun i => P.sumsOfMetrics i + ((entry v i).toInt : ν)
    sumsOfProducts := (Grid.triangle m).foldl
      (fun M p => Grid.setBoth M p.1 p.2 (M p.1 p.2 + ((entry v p.1 * entry v p.2).toInt : ν)))
      P.sumsOfProducts }

/-- The standard deviation of metric number `i`. -/
def deviation (pca : PcaSettings m ν) (P : PcaSums m ν) (i : Fin m) : ν :=
  standardDeviation pca.pcaLearningPhase (P.sumsOfProducts i i) (P.sumsOfMetrics i)

/-- One round of the loops over `i` and `j` that make the correlation matrix.
mirrors detectionmodules/statmodules/wkp-module/stat-main.cpp:1452-1470 -/
def correlate (pca : PcaSettings m ν) (P : PcaSums m ν) (p : Fin m × Fin m) : PcaSums m ν :=
  let (i, j) := p
  if i ≠ j then
    { P with
      cov := Grid.set P.cov i j (P.cov i j / (P.deviation pca i * P.deviation pca j))
      -- stored here, where there is another metric
      stddevs :=
        Function.update (Function.update P.stddevs i (P.deviation pca i)) j (P.deviation pca j) }
  else { P with cov := Grid.set P.cov i j ((1 : Int) : ν) }

/-- The end of the learning phase.
mirrors detectionmodules/statmodules/wkp-module/stat-main.cpp:1443-1496 -/
def eigenvectors (pca : PcaSettings m ν) (P : PcaSums m ν) : PcaSums m ν :=
  let P :=
    { P with
      cov := (Grid.square m).foldl
        (fun M p => Grid.set M p.1 p.2 (covariance pca.pcaLearningPhase (P.sumsOfProducts p.1 p.2)
          (P.sumsOfMetrics p.1) (P.sumsOfMetrics p.2)))
        P.cov }
  let P := if pca.useCorrelationMatrix then (Grid.square m).foldl (correlate pca) P else P
  { P with evec := pca.symmv P.cov }

/-- What a later vector is multiplied with the eigenvectors as.
mirrors detectionmodules/statmodules/wkp-module/stat-main.cpp:1507-1516 -/
def normalize (pca : PcaSettings m ν) (P : PcaSums m ν) (v : List Int64) (i : Fin m) : ν :=
  if pca.useCorrelationMatrix then ((entry v i).toInt : ν) / P.stddevs i else
    ((entry v i).toInt : ν)

/-- mirrors detectionmodules/statmodules/wkp-module/stat-main.cpp:1502-1538 -/
def transform (pca : PcaSettings m ν) (P : PcaSums m ν) (v : List Int64) : List Int64 :=
  (List.finRange m).map fun i =>
    let x :=
      (List.finRange m).foldl (fun sum k => sum + P.evec k i * P.normalize pca v k) ((0 : Int) : ν)
    pca.toInt64 (if pca.useCorrelationMatrix then x * ((100 : Int) : ν) else x)

end PcaSums

/-- The analysis as `extract_pca_data` makes it. -/
def PcaSettings.config (pca : PcaSettings m ν) : PcaConfig (PcaSums m ν) where
  pcaLearningPhase := pca.pcaLearningPhase
  init := .init
  addToSums := PcaSums.addToSums
  eigenvectors := PcaSums.eigenvectors pca
  transform := PcaSums.transform pca

/-- The sums of some vectors. -/
def sumsOf (m : ℕ) (vs : List (List Int64)) : PcaSums m ν := vs.foldl PcaSums.addToSums .init

theorem sumsOf_append (vs : List (List Int64)) (v : List Int64) :
    (sumsOf m (vs ++ [v]) : PcaSums m ν) = (sumsOf m vs).addToSums v := by
  rw [sumsOf, List.foldl_append]
  rfl

theorem stddevs_sumsOf (vs : List (List Int64)) :
    (sumsOf m vs : PcaSums m ν).stddevs = fun _ => ((0 : Int) : ν) := by
  induction vs using List.reverseRecOn with
  | nil => rfl
  | append_singleton vs v ih =>
    rw [sumsOf_append]
    exact ih

/-! ## The matrix -/

/-- What the correlation loops do: entries from their own old values, and standard deviations. -/
theorem foldl_correlate (pca : PcaSettings m ν) (P : PcaSums m ν) (L : List (Fin m × Fin m)) :
    L.foldl (PcaSums.correlate pca) P =
      { P with
        cov := L.foldl (fun M p => Grid.set M p.1 p.2 (if p.1 ≠ p.2 then
          M p.1 p.2 / (P.deviation pca p.1 * P.deviation pca p.2) else ((1 : Int) : ν))) P.cov
        stddevs := L.foldl (fun s p => if p.1 ≠ p.2 then
          Function.update (Function.update s p.1 (P.deviation pca p.1)) p.2
            (P.deviation pca p.2) else s)
          P.stddevs } := by
  induction L generalizing P with
  | nil => rfl
  | cons p L ih =>
    rw [List.foldl_cons, ih]
    by_cases h : p.1 ≠ p.2
    · simp only [PcaSums.correlate, List.foldl_cons, if_pos h]
      rfl
    · simp only [PcaSums.correlate, List.foldl_cons, if_neg h]
      rfl

omit [Double ν] in
/-- The standard deviation of a metric is stored in the first round with another one. -/
theorem foldl_stored {sd s : Fin m → ν} {a : Fin m} {L : List (Fin m × Fin m)}
    (h : s a = sd a ∨ ∃ b, a ≠ b ∧ (a, b) ∈ L) :
    L.foldl
    (fun s p => if p.1 ≠ p.2 then Function.update (Function.update s p.1 (sd p.1)) p.2 (sd p.2)
      else s) s a = sd a := by
  induction L generalizing s with
  | nil => simpa using h
  | cons p L ih =>
    obtain ⟨i, j⟩ := p
    have hboth : ∀ c, Function.update (Function.update s i (sd i)) j (sd j) c =
        if c = i ∨ c = j then sd c else s c := fun c => by
      by_cases hj : c = j
      · rw [hj, Function.update_self, if_pos (.inr rfl)]
      · rw [Function.update_of_ne hj]
        by_cases hi : c = i
        · rw [hi, Function.update_self, if_pos (.inl rfl)]
        · rw [Function.update_of_ne hi, if_neg (by tauto)]
    rw [List.foldl_cons]
    refine ih ?_
    rcases h with hstored | ⟨b, hab, hmem⟩
    · refine .inl ?_
      split
      · rw [hboth, hstored, ite_self]
      · exact hstored
    · rcases List.mem_cons.mp hmem with heq | hmem
      · obtain ⟨rfl, rfl⟩ := Prod.mk.inj heq
        refine .inl ?_
        rw [if_pos hab, hboth, if_pos (.inl rfl)]
      · exact .inr ⟨b, hab, hmem⟩

omit [Double ν] in
/-- With one metric alone none is. -/
theorem foldl_unstored {sd s : Fin m → ν} {L : List (Fin m × Fin m)} (h : ∀ p ∈ L, p.1 = p.2) :
    L.foldl
    (fun s p => if p.1 ≠ p.2 then Function.update (Function.update s p.1 (sd p.1)) p.2 (sd p.2)
      else s) s = s := by
  induction L with
  | nil => rfl
  | cons p L ih =>
    rw [List.foldl_cons, if_neg (not_not.mpr (h p List.mem_cons_self))]
    exact ih fun p hp => h p (List.mem_cons_of_mem _ hp)

theorem cov_eigenvectors (pca : PcaSettings m ν) (P : PcaSums m ν) (i j : Fin m) :
    (P.eigenvectors pca).cov i j =
      let covariance := covariance pca.pcaLearningPhase (P.sumsOfProducts i j) (P.sumsOfMetrics i)
        (P.sumsOfMetrics j)
      if pca.useCorrelationMatrix then
        if i ≠ j then covariance / (P.deviation pca i * P.deviation pca j) else ((1 : Int) : ν)
      else covariance := by
  have hcov : ∀ M : Fin m → Fin m → ν, (Grid.square m).foldl
      (fun M p => Grid.set M p.1 p.2 (covariance pca.pcaLearningPhase (P.sumsOfProducts p.1 p.2)
        (P.sumsOfMetrics p.1) (P.sumsOfMetrics p.2))) M i j =
      covariance pca.pcaLearningPhase (P.sumsOfProducts i j) (P.sumsOfMetrics i)
          (P.sumsOfMetrics j) := by
    intro M
    have hset := Grid.foldl_set (fun a b _ => covariance pca.pcaLearningPhase (P.sumsOfProducts a b)
      (P.sumsOfMetrics a) (P.sumsOfMetrics b)) (Grid.nodup_square m) M i j
    rwa [if_pos (Grid.mem_square _)] at hset
  unfold PcaSums.eigenvectors
  dsimp only
  split
  · rw [foldl_correlate]
    dsimp only
    refine (Grid.foldl_set (fun a b x => if a ≠ b then
      x / (P.deviation pca a * P.deviation pca b) else ((1 : Int) : ν))
        (Grid.nodup_square m) _ i j).trans ?_
    rw [if_pos (Grid.mem_square _), hcov]
  · exact hcov _

/-- The standard deviations that later vectors are divided by: those of the metrics, but for a
metric that has no other what was there before. -/
theorem stddevs_eigenvectors {pca : PcaSettings m ν}
    (hcorrelation : pca.useCorrelationMatrix = true) (P : PcaSums m ν) (i : Fin m) :
    (P.eigenvectors pca).stddevs i = if 2 ≤ m then P.deviation pca i else P.stddevs i := by
  simp only [PcaSums.eigenvectors, hcorrelation, if_true, foldl_correlate]
  split
  · rename_i htwo
    obtain ⟨j, hij⟩ : ∃ j, i ≠ j := by
      have : Nontrivial (Fin m) := Fin.nontrivial_iff_two_le.mpr htwo
      exact (exists_ne i).imp fun j hj => hj.symm
    exact foldl_stored (.inr ⟨j, hij, Grid.mem_square _⟩)
  · rename_i htwo
    rw [foldl_unstored fun p _ => ?_]
    have h1 := p.1.isLt
    have h2 := p.2.isLt
    exact Fin.ext (by omega)

end

/-! ## The sums -/

/-- What the metric adds up to. -/
def total (i : Fin m) (vs : List (List Int64)) : Int := (vs.map fun v => (entry v i).toInt).sum

/-- What the products of two metrics add up to, and what they do in 64 bits each. -/
def products (i j : Fin m) (vs : List (List Int64)) : Int :=
  (vs.map fun v => (entry v i).toInt * (entry v j).toInt).sum

def storedProducts (i j : Fin m) (vs : List (List Int64)) : Int :=
  (vs.map fun v => (entry v i * entry v j).toInt).sum

theorem sumsOf_metrics (vs : List (List Int64)) (i : Fin m) :
    (sumsOf m vs : PcaSums m ℝ).sumsOfMetrics i = (total i vs : ℝ) := by
  induction vs using List.reverseRecOn with
  | nil => simp [sumsOf, PcaSums.init, total]
  | append_singleton vs v ih =>
    rw [sumsOf_append, PcaSums.addToSums]
    simp [ih, total]

theorem storedProducts_comm (i j : Fin m) (vs : List (List Int64)) :
    storedProducts i j vs = storedProducts j i vs := by
  simp [storedProducts, Int64.mul_comm]

theorem sumsOf_products (vs : List (List Int64)) (i j : Fin m) :
    (sumsOf m vs : PcaSums m ℝ).sumsOfProducts i j = (storedProducts i j vs : ℝ) := by
  induction vs using List.reverseRecOn generalizing i j with
  | nil => simp [sumsOf, PcaSums.init, storedProducts]
  | append_singleton vs v ih =>
    have hsymm : ∀ a b, (sumsOf m vs : PcaSums m ℝ).sumsOfProducts a b =
        (sumsOf m vs : PcaSums m ℝ).sumsOfProducts b a := fun a b => by
      rw [ih, ih, storedProducts_comm]
    have hboth : ∀ a b : Fin m, b ≤ a → _ := fun a b hab =>
      Grid.foldl_setBoth (fun c d x => x + ((entry v c * entry v d).toInt : ℝ))
        (Grid.nodup_triangle m)
        (fun p hp => Grid.mem_triangle.mp hp) hsymm hab
    have happend : ∀ a b : Fin m, storedProducts a b (vs ++ [v]) =
        storedProducts a b vs + (entry v a * entry v b).toInt := fun a b => by simp [storedProducts]
    rw [sumsOf_append, PcaSums.addToSums, happend]
    rcases le_total j i with hji | hij
    · refine (hboth i j hji).1.trans ?_
      rw [if_pos (Grid.mem_triangle.mpr hji), ih, Int.cast_add]
    · refine ((hboth j i hij).2.trans (hboth j i hij).1).trans ?_
      rw [if_pos (Grid.mem_triangle.mpr hij), ih, storedProducts_comm, Int64.mul_comm, Int.cast_add]

end Topas.Wkp
