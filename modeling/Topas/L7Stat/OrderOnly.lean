import Mathlib.Data.Rat.Sqrt
import Mathlib.Order.Monotone.Basic
import Mathlib.Order.Monotone.Defs
import Mathlib.Tactic.LinearCombination
import Topas.L7Stat.KsTest
import Topas.L7Stat.PcsTest
import Topas.L7Stat.WmwTest

/-!
# What the tests depend on

The three tests compare values, and count; nothing else is done with a value.

* `tests_order_only`: the p-values stay the same when the values are replaced by others in the same
  order, the one of the Kolmogorov-Smirnov test if all of them fit an `int`.
* `tests_symmetric`: with the samples exchanged the two-sided Wilcoxon-Mann-Whitney test and the
  Pearson test have the same p-value, the one-sided test has the other tail, in exact arithmetic.
* `pcsTest_eq`: the statistic of the Pearson test in a closed form.
-/
namespace Topas.Wkp

open Histogram
open Ranks (triangle wins_add)
open scoped Ranks

section Order

variable {f : Int64 → Int64} {V : Set Int64} {l : List Int64}

theorem head?_map_iff (hf : StrictMonoOn f V) {x : Int64} (hx : x ∈ V) (hl : ∀ y ∈ l, y ∈ V) :
    (l.map f).head? = some (f x) ↔ l.head? = some x := by
  cases l with
  | nil => simp
  | cons y l => simp [hf.injOn.eq_iff (hl y List.mem_cons_self) hx]

theorem map_insertionSort (hf : StrictMonoOn f V) (hl : ∀ y ∈ l, y ∈ V) :
    (l.map f).insertionSort (· ≤ ·) = (l.insertionSort (· ≤ ·)).map f :=
  (List.map_insertionSort (· ≤ ·) (· ≤ ·) f l fun _ ha _ hb =>
    (hf.le_iff_le (hl _ ha) (hl _ hb)).symm).symm

theorem within_insertionSort (hl : ∀ y ∈ l, y ∈ V) : ∀ y ∈ l.insertionSort (· ≤ ·), y ∈ V :=
  fun y hy => hl y ((List.mem_insertionSort _).mp hy)

/-! ## The ranks -/

/-- The same state, with other values. -/
def Merge.mapValues (f : Int64 → Int64) (m : Merge) : Merge :=
    { m with it1 := m.it1.map f, it2 := m.it2.map f }

def Merge.Within (V : Set Int64) (m : Merge) : Prop := (∀ x ∈ m.it1, x ∈ V) ∧ ∀ y ∈ m.it2, y ∈ V

theorem copies_suffix (tie : Int64) (tieRs ties i : UInt32) (ranks : List UInt32) (l : List Int64) :
    (copies tie tieRs ties i ranks l).it <:+ l := by
  induction l generalizing tieRs ties i ranks with
  | nil => exact List.suffix_refl []
  | cons x it ih =>
    rw [copies]
    split
    · exact (ih ..).trans (List.suffix_cons x it)
    · exact List.suffix_cons x it

theorem copies_map (hf : StrictMonoOn f V) {tie : Int64} (htie : tie ∈ V) (tieRs ties i : UInt32)
    (ranks : List UInt32) (hl : ∀ y ∈ l, y ∈ V) :
    copies (f tie) tieRs ties i ranks (l.map f) =
      { copies tie tieRs ties i ranks l with it :=
        (copies tie tieRs ties i ranks l).it.map f } := by
  induction l generalizing tieRs ties i ranks with
  | nil => rfl
  | cons x it ih =>
    have hit := fun y hy => hl y (List.mem_cons_of_mem x hy)
    rw [List.map_cons, copies, copies]
    simp only [head?_map_iff hf htie hit]
    split
    · exact ih _ _ _ _ hit
    · rfl

theorem Merge.assign_map (hf : StrictMonoOn f V) {m : Merge} (hm : m.Within V) :
    (m.mapValues f).assign = m.assign.mapValues f ∧ m.assign.Within V := by
  obtain ⟨i, it1, it2, rs1, rs2, tc, ranks⟩ := m
  obtain ⟨h₁, h₂⟩ := hm
  match it1, it2 with
  | [], it2 => exact ⟨rfl, h₁, h₂⟩
  | x :: it1, [] => exact ⟨rfl, h₁, h₂⟩
  | x :: it1, y :: it2 =>
    have hx : x ∈ V := h₁ x List.mem_cons_self
    have hy : y ∈ V := h₂ y List.mem_cons_self
    simp only [Merge.mapValues, Merge.assign, List.map_cons, hf.injOn.eq_iff hx hy,
      hf.lt_iff_lt hx hy]
    split
    · have hcopies₁ := copies_map hf hx 0 0 i ranks h₁
      simp only [List.map_cons] at hcopies₁
      have hcopies₂ := fun tieRs j ranks => copies_map hf hx tieRs 0 j ranks h₂
      simp only [List.map_cons] at hcopies₂
      simp only [hcopies₁, hcopies₂]
      exact ⟨trivial, fun z hz => h₁ z ((copies_suffix ..).subset hz),
        fun z hz => h₂ z ((copies_suffix ..).subset hz)⟩
    · split
      · exact ⟨rfl, fun z hz => h₁ z (List.mem_cons_of_mem x hz), h₂⟩
      · exact ⟨rfl, h₁, fun z hz => h₂ z (List.mem_cons_of_mem y hz)⟩

theorem remaining_suffix (nSum i : UInt32) (rs : ℚ) (ranks : List UInt32) (l : List Int64) :
    (remaining nSum i rs ranks l).2.1 <:+ l := by
  induction l generalizing i rs ranks with
  | nil => exact List.suffix_refl []
  | cons x it ih =>
    rw [remaining]
    split
    · exact (ih ..).trans (List.suffix_cons x it)
    · exact List.suffix_refl _

theorem remaining_map (f : Int64 → Int64) (nSum i : UInt32) (rs : ℚ) (ranks : List UInt32)
    (l : List Int64) :
    remaining nSum i rs ranks (l.map f) =
      ((remaining nSum i rs ranks l).1, (remaining nSum i rs ranks l).2.1.map f,
        (remaining nSum i rs ranks l).2.2) := by
  induction l generalizing i rs ranks with
  | nil => rfl
  | cons x it ih =>
    simp only [List.map_cons, remaining]
    split
    · exact ih ..
    · rfl

theorem Merge.finish_map (f : Int64 → Int64) (nSum : UInt32) {m : Merge} (hm : m.Within V) :
    (m.mapValues f).finish nSum = (m.finish nSum).mapValues f ∧ (m.finish nSum).Within V := by
  obtain ⟨i, it1, it2, rs1, rs2, tc, ranks⟩ := m
  obtain ⟨h₁, h₂⟩ := hm
  simp only [Merge.mapValues, Merge.finish, List.map_eq_nil_iff, remaining_map]
  split
  · exact ⟨rfl, h₁, fun z hz => h₂ z ((remaining_suffix ..).subset hz)⟩
  · split
    · exact ⟨rfl, fun z hz => h₁ z ((remaining_suffix ..).subset hz), h₂⟩
    · exact ⟨rfl, h₁, h₂⟩

theorem Merge.loop_map (hf : StrictMonoOn f V) (nSum : UInt32) (fuel : Nat) {m : Merge}
    (hm : m.Within V) :
    (m.mapValues f).loop nSum fuel = (m.loop nSum fuel).mapValues f := by
  induction fuel generalizing m with
  | zero => rfl
  | succ fuel ih =>
    obtain ⟨hassign, hwithin⟩ := m.assign_map hf hm
    obtain ⟨hfinish, hwithin'⟩ := Merge.finish_map f nSum hwithin
    rw [Merge.loop, Merge.loop]
    have hi : (m.mapValues f).i = m.i := rfl
    rw [hi]
    split
    · rw [hassign, hfinish]
      exact ih (m := { m.assign.finish nSum with i := (m.assign.finish nSum).i + 1 }) hwithin'
    · rfl

theorem wmwMerge_map (hf : StrictMonoOn f V) {sample1 sample2 : List Int64}
    (h₁ : ∀ x ∈ sample1, x ∈ V) (h₂ : ∀ x ∈ sample2, x ∈ V) :
    wmwMerge (sample1.map f) (sample2.map f) = (wmwMerge sample1 sample2).mapValues f := by
  unfold wmwMerge
  simp only [List.length_map, map_insertionSort hf h₁, map_insertionSort hf h₂]
  exact Merge.loop_map
    (m := ⟨1, sample1.insertionSort (· ≤ ·), sample2.insertionSort (· ≤ ·), 0, 0, 0, []⟩) hf _ _
    ⟨within_insertionSort h₁, within_insertionSort h₂⟩

theorem wmwTest_map (hf : StrictMonoOn f V) {sample1 sample2 : List Int64}
    (h₁ : ∀ x ∈ sample1, x ∈ V)
    (h₂ : ∀ x ∈ sample2, x ∈ V) (sqrt : ℚ → ℚ) (gslCdfGaussianQ gslCdfGaussianP : ℚ → ℚ → ℚ)
    (twosided : Bool) :
    wmwTest sqrt gslCdfGaussianQ gslCdfGaussianP (sample1.map f) (sample2.map f) twosided =
      wmwTest sqrt gslCdfGaussianQ gslCdfGaussianP sample1 sample2 twosided := by
  have hmerge := wmwMerge_map hf h₁ h₂
  simp only [wmwTest, deviation, sigmaSquared, List.length_map, hmerge]
  rfl

/-! ## The categories -/

def PcsState.mapValues (f : Int64 → Int64) (p : PcsState) : PcsState :=
  { p with sample1 := p.sample1.map f, sample2 := p.sample2.map f, min := f p.min }

structure PcsState.Within (V : Set Int64) (p : PcsState) : Prop where
  sample1 : ∀ x ∈ p.sample1, x ∈ V
  sample2 : ∀ y ∈ p.sample2, y ∈ V
  min : p.min ∈ V

theorem filter_map_ne (hf : StrictMonoOn f V) {x : Int64} (hx : x ∈ V) (hl : ∀ y ∈ l, y ∈ V) :
    (l.map f).filter (· ≠ f x) = (l.filter (· ≠ x)).map f := by
  rw [List.filter_map]
  congr 1
  refine List.filter_congr fun y hy => ?_
  simp [hf.injOn.eq_iff (hl y hy) hx]

theorem frontMin_map (hf : StrictMonoOn f V) {x y : Int64} (hx : x ∈ V) (hy : y ∈ V) :
    frontMin (f x) (f y) = f (frontMin x y) := by
  rw [frontMin, frontMin, apply_ite f]
  simp only [hf.lt_iff_lt hx hy]

theorem frontMin_within {x y : Int64} (hx : x ∈ V) (hy : y ∈ V) : frontMin x y ∈ V := by
  rw [frontMin]
  split
  · exact hx
  · exact hy

/-- A turn of the loop with the other values, and what it goes on with. -/
theorem PcsState.step_map (hf : StrictMonoOn f V) (lg1 lg2 : UInt32) {p : PcsState}
    (hp : p.Within V) :
    (p.mapValues f).step lg1 lg2 = (p.step lg1 lg2).map (PcsState.mapValues f) id ∧
      ∀ p', p.step lg1 lg2 = .inl p' → p'.Within V := by
  obtain ⟨sample1, sample2, min, old1, old2, n1, n2, categories1, categories2⟩ := p
  have h₁ : ∀ x ∈ sample1, x ∈ V := hp.sample1
  have h₂ : ∀ y ∈ sample2, y ∈ V := hp.sample2
  have hmin : min ∈ V := hp.min
  dsimp only [PcsState.mapValues, PcsState.step]
  simp only [filter_map_ne hf hmin h₁, filter_map_ne hf hmin h₂, List.length_map]
  have hleft₁ : ∀ x ∈ sample1.filter (· ≠ min), x ∈ V :=
    fun x hx => h₁ x (List.mem_of_mem_filter hx)
  have hleft₂ : ∀ y ∈ sample2.filter (· ≠ min), y ∈ V :=
    fun y hy => h₂ y (List.mem_of_mem_filter hy)
  generalize sample1.filter (· ≠ min) = l₁ at hleft₁ ⊢
  generalize sample2.filter (· ≠ min) = l₂ at hleft₂ ⊢
  match l₁, l₂ with
  | [], l₂ => exact ⟨by simp [PcsState.finish], fun _ h => nomatch h⟩
  | x :: l₁, [] => exact ⟨by simp [PcsState.finish], fun _ h => nomatch h⟩
  | x :: l₁, y :: l₂ =>
    have hx := hleft₁ x List.mem_cons_self
    have hy := hleft₂ y List.mem_cons_self
    simp only [List.map_cons, frontMin_map hf hx hy, List.length_cons]
    split
    · exact ⟨rfl, fun p' h => Sum.inl.inj h ▸ ⟨hleft₁, hleft₂, frontMin_within hx hy⟩⟩
    · exact ⟨rfl, fun p' h => Sum.inl.inj h ▸ ⟨hleft₁, hleft₂, frontMin_within hx hy⟩⟩

theorem PcsState.run_map (hf : StrictMonoOn f V) (lg1 lg2 : UInt32) (fuel : Nat) {p : PcsState}
    (hp : p.Within V) :
    (p.mapValues f).run lg1 lg2 fuel = p.run lg1 lg2 fuel := by
  induction fuel generalizing p with
  | zero => rfl
  | succ fuel ih =>
    obtain ⟨hstep, hwithin⟩ := p.step_map hf lg1 lg2 hp
    rw [PcsState.run, PcsState.run, hstep]
    cases hnext : p.step lg1 lg2 with
    | inl p' => exact ih (hwithin p' hnext)
    | inr categories => rfl

theorem pcsTest_map (hf : StrictMonoOn f V) {sample1 sample2 : List Int64}
    (h₁ : ∀ x ∈ sample1, x ∈ V) (h₂ : ∀ x ∈ sample2, x ∈ V) (gslCdfChisqQ : ℚ → UInt32 → ℚ) :
    pcsTest gslCdfChisqQ (sample1.map f)
    (sample2.map f) = pcsTest gslCdfChisqQ sample1 sample2 := by
  have hcategories :
      pcsCategories (sample1.map f) (sample2.map f) = pcsCategories sample1 sample2 := by
    unfold pcsCategories
    simp only [List.length_map, map_insertionSort hf h₁, map_insertionSort hf h₂]
    have hs₁ := within_insertionSort h₁
    have hs₂ := within_insertionSort h₂
    generalize sample1.insertionSort (· ≤ ·) = s₁ at hs₁ ⊢
    generalize sample2.insertionSort (· ≤ ·) = s₂ at hs₂ ⊢
    match s₁, s₂ with
    | [], _ => rfl
    | x :: s₁, [] => rfl
    | x :: s₁, y :: s₂ =>
      have hx := hs₁ x List.mem_cons_self
      have hy := hs₂ y List.mem_cons_self
      simp only [List.map_cons, frontMin_map hf hx hy]
      exact PcsState.run_map hf _ _ _ (p := ⟨x :: s₁, y :: s₂, _, _, _, 0, 0, [], []⟩)
        ⟨hs₁, hs₂, frontMin_within hx hy⟩
  simp only [pcsTest, hcategories, List.length_map]

/-! ## The differences -/

def KsState.mapValues (f : Int64 → Int64) (k : KsState) : KsState :=
    { k with it1 := k.it1.map f, it2 := k.it2.map f }

def KsState.Within (V : Set Int64) (k : KsState) : Prop := (∀ x ∈ k.it1, x ∈ V) ∧ ∀ y ∈ k.it2, y ∈ V

theorem steps_suffix (s : Int64) (move : Int32 → Int32) (D : Int32) (l : List Int64) :
    (steps s move D l).2 <:+ l := by
  induction l generalizing D with
  | nil => exact List.suffix_refl []
  | cons x it ih =>
    rw [steps]
    split
    · exact (ih _).trans (List.suffix_cons x it)
    · exact List.suffix_cons x it

theorem steps_map (hf : StrictMonoOn f V) {s : Int64} (hs : s ∈ V)
    (move : Int32 → Int32) (D : Int32) (hl : ∀ y ∈ l, y ∈ V) :
    steps (f s) move D (l.map f) = ((steps s move D l).1, (steps s move D l).2.map f) := by
  induction l generalizing D with
  | nil => rfl
  | cons x it ih =>
    have hit := fun y hy => hl y (List.mem_cons_of_mem x hy)
    rw [List.map_cons, steps, steps]
    simp only [head?_map_iff hf hs hit]
    split
    · exact ih _ hit
    · rfl

/-- All of the values fit an `int`, before and after. -/
def KeepsInt (f : Int64 → Int64) (V : Set Int64) : Prop :=
    ∀ x ∈ V, truncated x = x ∧ truncated (f x) = f x

theorem KsState.step_map (hf : StrictMonoOn f V) (hfits : KeepsInt f V) (n1 n2 : UInt32)
    {k : KsState} (hk : k.Within V) :
    (k.mapValues f).step n1 n2 = (k.step n1 n2).mapValues f ∧ (k.step n1 n2).Within V := by
  obtain ⟨it1, it2, D, Dmin, Dmax⟩ := k
  obtain ⟨h₁, h₂⟩ := hk
  match it1, it2 with
  | [], it2 => exact ⟨rfl, h₁, h₂⟩
  | x :: it1, [] => exact ⟨rfl, h₁, h₂⟩
  | x :: it1, y :: it2 =>
    have hx : x ∈ V := h₁ x List.mem_cons_self
    have hy : y ∈ V := h₂ y List.mem_cons_self
    obtain ⟨htrunc, htrunc'⟩ := hfits x hx
    simp only [KsState.mapValues, KsState.step, List.map_cons, hf.injOn.eq_iff hx hy,
      hf.lt_iff_lt hx hy, htrunc,
      htrunc']
    split
    · have hsteps₁ := fun move => steps_map hf hx move D h₁
      have hsteps₂ := fun move D => steps_map hf hx move D h₂
      simp only [List.map_cons] at hsteps₁ hsteps₂
      simp only [hsteps₁, hsteps₂]
      exact ⟨trivial, fun z hz => h₁ z ((steps_suffix ..).subset hz),
        fun z hz => h₂ z ((steps_suffix ..).subset hz)⟩
    · split
      · exact ⟨rfl, fun z hz => h₁ z (List.mem_cons_of_mem x hz), h₂⟩
      · exact ⟨rfl, h₁, fun z hz => h₂ z (List.mem_cons_of_mem y hz)⟩

theorem KsState.loop_map (hf : StrictMonoOn f V) (hfits : KeepsInt f V) (n1 n2 : UInt32)
    (fuel : Nat) {k : KsState}
    (hk : k.Within V) : (k.mapValues f).loop n1 n2 fuel = (k.loop n1 n2 fuel).mapValues f := by
  induction fuel generalizing k with
  | zero => rfl
  | succ fuel ih =>
    obtain ⟨hstep, hwithin⟩ := k.step_map hf hfits n1 n2 hk
    have hend : (k.mapValues f).it1 ≠ [] ∧ (k.mapValues f).it2 ≠ [] ↔ k.it1 ≠ [] ∧ k.it2 ≠ [] := by
      simp [KsState.mapValues]
    simp only [KsState.loop, hend]
    split
    · rw [hstep, ih hwithin]
    · rfl

theorem ksTest_map (hf : StrictMonoOn f V) (hfits : KeepsInt f V) {sample1 sample2 : List Int64}
    (h₁ : ∀ x ∈ sample1, x ∈ V) (h₂ : ∀ x ∈ sample2, x ∈ V) (K : UInt32 → ℚ → ℚ) :
    ksTest K (sample1.map f) (sample2.map f) = ksTest K sample1 sample2 := by
  have hmerge :
      ksMerge (sample1.map f) (sample2.map f) = (ksMerge sample1 sample2).mapValues f := by
    unfold ksMerge
    simp only [List.length_map, map_insertionSort hf h₁, map_insertionSort hf h₂]
    exact KsState.loop_map
      (k := ⟨sample1.insertionSort (· ≤ ·), sample2.insertionSort (· ≤ ·), 0, 0, 0⟩) hf hfits
      _ _ _ ⟨within_insertionSort h₁, within_insertionSort h₂⟩
  simp only [ksTest, ksStatistic, ksD, hmerge, List.length_map]
  rfl

end Order

/-- The tests see the order of the values, and how often each one is there. -/
theorem tests_order_only (f : Int64 → Int64) (sample1 sample2 : List Int64)
    (hf : StrictMonoOn f {x | x ∈ sample1 ++ sample2}) :
    (∀ sqrt gslCdfGaussianQ gslCdfGaussianP twosided,
      wmwTest sqrt gslCdfGaussianQ gslCdfGaussianP (sample1.map f) (sample2.map f) twosided =
        wmwTest sqrt gslCdfGaussianQ gslCdfGaussianP sample1 sample2 twosided) ∧
    (∀ gslCdfChisqQ, pcsTest gslCdfChisqQ (sample1.map f) (sample2.map f) =
      pcsTest gslCdfChisqQ sample1 sample2) ∧
    ((∀ x ∈ sample1 ++ sample2, truncated x = x ∧ truncated (f x) = f x) →
      ∀ K, ksTest K (sample1.map f) (sample2.map f) = ksTest K sample1 sample2) := by
  have h₁ : ∀ x ∈ sample1, x ∈ {x | x ∈ sample1 ++ sample2} := fun x hx => List.mem_append_left _ hx
  have h₂ : ∀ x ∈ sample2, x ∈ {x | x ∈ sample1 ++ sample2} :=
    fun x hx => List.mem_append_right _ hx
  exact ⟨wmwTest_map hf h₁ h₂, pcsTest_map hf h₁ h₂, fun hfits => ksTest_map hf hfits h₁ h₂⟩

/-- Twice the values, from samples in which the Pearson test has one category. -/
theorem tests_order_only_double :
    pcsTest (fun statistic _ => statistic) [2, 6] [4, 6] = pcsTest (fun statistic _ => statistic)
    [1, 3] [2, 3] ∧
      ksTest (fun _ statistic => statistic) [2, 6] [4, 6] = ksTest (fun _ statistic => statistic)
      [1, 3] [2, 3] := by
  have hf : ∀ x ∈ ([1, 3] ++ [2, 3] : List Int64), ∀ y ∈ ([1, 3] ++ [2, 3] : List Int64), x < y →
      2 * x < 2 * y := by
    decide
  obtain ⟨-, hpcs, hks⟩ := tests_order_only (2 * ·) [1, 3] [2, 3] fun x hx y hy => hf x hx y hy
  exact ⟨hpcs _, hks (by decide) _⟩

/-! ## The samples exchanged -/

section

variable {sample1 sample2 : List Int64}

/-- Where the product of the variance does not wrap, the sum of the ranks does not either. -/
theorem size_of_product (h₁ : sample1 ≠ []) (h₂ : sample2 ≠ [])
    (hproduct : sample1.length * sample2.length * (sample1.length + sample2.length + 1) < 2 ^ 32) :
    (sample1.length + sample2.length) * (sample1.length + sample2.length + 1) / 2 < 2 ^ 32 := by
  have hle : sample1.length + sample2.length ≤ 2 * (sample1.length * sample2.length) := by
    have hpos₁ := List.length_pos_iff.mpr h₁
    have hpos₂ := List.length_pos_iff.mpr h₂
    nlinarith
  have hmul := Nat.mul_le_mul_right (sample1.length + sample2.length + 1) hle
  rw [Nat.mul_assoc] at hmul
  omega

/-- The sums with the samples exchanged. -/
theorem wmwMerge_swap (h₁ : sample1 ≠ []) (h₂ : sample2 ≠ [])
    (hsize : (sample1.length + sample2.length) * (sample1.length + sample2.length + 1) /
      2 < 2 ^ 32) :
    let n : ℚ := sample1.length + sample2.length
    (wmwMerge sample2 sample1).rs2 = n * (n + 1) / 2 - (wmwMerge sample1 sample2).rs2 ∧
      (wmwMerge sample2 sample1).tc = (wmwMerge sample1 sample2).tc := by
  intro n
  obtain ⟨m, hm, hmerge⟩ := wmwMerge_ranked h₁ h₂ hsize
  obtain ⟨m', hm', hmerge'⟩ := wmwMerge_ranked h₂ h₁ (by rwa [Nat.add_comm sample2.length])
  have hrs1 : m'.rs2 = m.rs1 := hm'.swap.rs1.trans hm.rs1.symm
  have htc : m'.tc = m.tc := hm'.swap.tc.trans hm.tc.symm
  have hsum : m.rs1 + m.rs2 = n * (n + 1) / 2 := by
    have hwins := wins_add (sample1.insertionSort (· ≤ ·)) (sample2.insertionSort (· ≤ ·))
    rw [hm.rs1, hm.rs2]
    simp only [triangle, List.length_insertionSort] at hwins ⊢
    linear_combination hwins
  rw [hmerge, hmerge']
  exact ⟨by rw [hrs1]; linear_combination hsum, htc⟩

theorem sigmaSquared_swap (h₁ : sample1 ≠ []) (h₂ : sample2 ≠ [])
    (hsize : (sample1.length + sample2.length) * (sample1.length + sample2.length + 1) /
      2 < 2 ^ 32) :
    sigmaSquared sample2 sample1 = sigmaSquared sample1 sample2 := by
  simp only [sigmaSquared, (wmwMerge_swap h₁ h₂ hsize).2]
  rw [UInt32.add_comm (.ofNat sample2.length), UInt32.mul_comm (.ofNat sample2.length)]

theorem deviation_swap (h₁ : sample1 ≠ []) (h₂ : sample2 ≠ [])
    (hproduct : sample1.length * sample2.length * (sample1.length + sample2.length + 1) < 2 ^ 32) :
    deviation sample2 sample1 = -deviation sample1 sample2 := by
  have hpos₁ := List.length_pos_iff.mpr h₁
  have hpos₂ := List.length_pos_iff.mpr h₂
  have hsize := size_of_product h₁ h₂ hproduct
  have hmul : ∀ {n : Nat}, n * (sample1.length + sample2.length + 1) < 2 ^ 32 →
      (UInt32.ofNat n * (.ofNat sample1.length + .ofNat sample2.length + 1)).toNat =
        n * (sample1.length + sample2.length + 1) := by
    intro n hn
    have hone : (1 : UInt32) = .ofNat 1 := rfl
    rw [hone, ← UInt32.ofNat_add, ← UInt32.ofNat_add, ← UInt32.ofNat_mul, toNat_ofNat hn]
  have hmul₁ := hmul ((Nat.mul_le_mul_right _ (Nat.le_mul_of_pos_right _ hpos₂)).trans_lt hproduct)
  have hmul₂ := hmul ((Nat.mul_le_mul_right _ (Nat.le_mul_of_pos_left _ hpos₁)).trans_lt hproduct)
  simp only [deviation, (wmwMerge_swap h₁ h₂ hsize).1]
  rw [UInt32.add_comm (.ofNat sample2.length), hmul₁, hmul₂]
  push_cast
  ring

/-- The state with the samples exchanged. -/
def PcsState.swap (p : PcsState) : PcsState :=
  ⟨p.sample2, p.sample1, p.min, p.sample2OldSize, p.sample1OldSize, p.n2, p.n1, p.categories2,
    p.categories1⟩

theorem frontMin_comm (x y : Int64) : frontMin x y = frontMin y x := by
  rw [frontMin, frontMin]
  split
  next h => rw [if_neg h.not_gt]
  next h =>
    split
    next => rfl
    next h' => exact le_antisymm (not_lt.mp h) (not_lt.mp h')

theorem expected_swap (lg n n1 n2 : UInt32) : expected lg n n1 n2 = expected lg n n2 n1 := by
  rw [expected, expected, UInt32.add_comm n1]

theorem PcsState.step_swap (lg1 lg2 : UInt32) (p : PcsState) :
    p.swap.step lg2 lg1 = (p.step lg1 lg2).map PcsState.swap Prod.swap := by
  obtain ⟨sample1, sample2, min, old1, old2, n1, n2, categories1, categories2⟩ := p
  dsimp only [PcsState.swap, PcsState.step]
  generalize sample1.filter (· ≠ min) = l₁
  generalize sample2.filter (· ≠ min) = l₂
  match l₁, l₂ with
  | [], [] => rfl
  | [], y :: l₂ => simp [PcsState.finish]
  | x :: l₁, [] => simp [PcsState.finish]
  | x :: l₁, y :: l₂ =>
    simp only [frontMin_comm y x, UInt32.add_comm lg2 lg1, or_comm (a := expected lg2 _ _ _ < 5),
      expected_swap _ _ (n2 + _)]
    split
    · rfl
    · rfl

theorem PcsState.run_swap (lg1 lg2 : UInt32) (fuel : Nat) (p : PcsState) :
    p.swap.run lg2 lg1 fuel = (p.run lg1 lg2 fuel).map Prod.swap := by
  induction fuel generalizing p with
  | zero => rfl
  | succ fuel ih =>
    rw [PcsState.run, PcsState.run, p.step_swap]
    cases p.step lg1 lg2 with
    | inl p' => exact ih p'
    | inr categories => rfl

theorem pcsCategories_swap (sample1 sample2 : List Int64) :
    pcsCategories sample2 sample1 = (pcsCategories sample1 sample2).map Prod.swap := by
  unfold pcsCategories
  generalize sample1.insertionSort (· ≤ ·) = s₁
  generalize sample2.insertionSort (· ≤ ·) = s₂
  match s₁, s₂ with
  | [], [] => rfl
  | [], y :: s₂ => rfl
  | x :: s₁, [] => rfl
  | x :: s₁, y :: s₂ =>
    dsimp only
    rw [frontMin_comm y x, Nat.add_comm sample2.length]
    exact PcsState.run_swap _ _ _ ⟨x :: s₁, y :: s₂, frontMin x y, _, _, 0, 0, [], []⟩

theorem chiTerm_swap (lg1 lg2 n1 n2 : UInt32) : chiTerm lg2 lg1 n2 n1 = chiTerm lg1 lg2 n1 n2 := by
  simp only [chiTerm, UInt32.add_comm lg2, UInt32.add_comm n2, Option.bind_eq_bind]
  rw [Option.bind_comm]
  refine Option.bind_congr fun e1 _ => Option.bind_congr fun e2 _ => ?_
  rw [Option.bind_comm]
  simp only [add_comm]

theorem PcsState.step_length (lg1 lg2 : UInt32) {p : PcsState}
    (hp : p.categories1.length = p.categories2.length) :
    (∀ p', p.step lg1 lg2 = .inl p' → p'.categories1.length = p'.categories2.length) ∧
      ∀ categories, p.step lg1 lg2 = .inr categories →
      categories.1.length = categories.2.length := by
  dsimp only [PcsState.step]
  generalize p.sample1.filter (· ≠ p.min) = l₁
  generalize p.sample2.filter (· ≠ p.min) = l₂
  match l₁, l₂ with
  | [], l₂ => simp [PcsState.finish, hp]
  | x :: l₁, [] => simp [PcsState.finish, hp]
  | x :: l₁, y :: l₂ =>
    dsimp only
    split
    · simp [hp]
    · simp [hp]

theorem PcsState.run_length (lg1 lg2 : UInt32) (fuel : Nat) {p : PcsState}
    {categories : List UInt32 × List UInt32}
    (hp : p.categories1.length = p.categories2.length) (h : p.run lg1 lg2 fuel = some categories) :
    categories.1.length = categories.2.length := by
  induction fuel generalizing p with
  | zero => simp [PcsState.run] at h
  | succ fuel ih =>
    rw [PcsState.run] at h
    have hnext := p.step_length lg1 lg2 hp
    cases hstep : p.step lg1 lg2 with
    | inl p' =>
      rw [hstep] at h
      exact ih (hnext.1 p' hstep) h
    | inr categories' =>
      rw [hstep] at h
      exact Option.some.inj h ▸ hnext.2 categories' hstep

theorem pcsCategories_length {categories : List UInt32 × List UInt32}
    (h : pcsCategories sample1 sample2 = some categories) :
      categories.1.length = categories.2.length := by
  unfold pcsCategories at h
  generalize sample1.insertionSort (· ≤ ·) = s₁ at h
  generalize sample2.insertionSort (· ≤ ·) = s₂ at h
  match s₁, s₂ with
  | [], s₂ => simp at h
  | x :: s₁, [] => simp at h
  | x :: s₁, y :: s₂ => exact PcsState.run_length _ _ _ rfl h

theorem pcsTest_swap (gslCdfChisqQ : ℚ → UInt32 → ℚ) (sample1 sample2 : List Int64) :
    pcsTest gslCdfChisqQ sample2 sample1 = pcsTest gslCdfChisqQ sample1 sample2 := by
  rw [pcsTest, pcsTest, pcsCategories_swap]
  cases hcategories : pcsCategories sample1 sample2 with
  | none => rfl
  | some categories =>
    have hlength := pcsCategories_length hcategories
    have hzip : categories.2.zip categories.1 = (categories.1.zip categories.2).map Prod.swap :=
      (List.zip_swap _ _).symm
    have hterm :
      (fun c : UInt32 × UInt32 => chiTerm (.ofNat sample2.length) (.ofNat sample1.length) c.1 c.2) ∘
        Prod.swap = fun c => chiTerm (.ofNat sample1.length) (.ofNat sample2.length) c.1 c.2 :=
      funext fun c => chiTerm_swap ..
    simp only [Option.map_some, Prod.fst_swap, Prod.snd_swap, Option.bind_eq_bind,
      Option.bind_some, hzip,
      List.mapM_map, hlength]
    exact congrArg (fun f => Option.bind (List.mapM f (categories.1.zip categories.2)) _) hterm

end

/-- With the samples exchanged the two-sided tests stay the same, and the one-sided one has the
rest; the tails are those of a normal distribution where `sigma` is not 0. -/
theorem tests_symmetric (sqrt : ℚ → ℚ) (gslCdfGaussianQ gslCdfGaussianP : ℚ → ℚ → ℚ)
    (gslCdfChisqQ : ℚ → UInt32 → ℚ) (sample1 sample2 : List Int64)
    (hneg : ∀ x sigma, sigma ≠ 0 → gslCdfGaussianP (-x) sigma = gslCdfGaussianQ x sigma)
    (hrest : ∀ x sigma, sigma ≠ 0 → gslCdfGaussianP x sigma + gslCdfGaussianQ x sigma = 1) :
    (sample1 ≠ [] → sample2 ≠ [] →
      sample1.length * sample2.length * (sample1.length + sample2.length + 1) < 2 ^ 32 →
      sqrt (sigmaSquared sample1 sample2) ≠ 0 →
      wmwTest sqrt gslCdfGaussianQ gslCdfGaussianP sample2 sample1 true =
          wmwTest sqrt gslCdfGaussianQ gslCdfGaussianP sample1 sample2 true ∧
        wmwTest sqrt gslCdfGaussianQ gslCdfGaussianP sample2 sample1 false =
          1 - wmwTest sqrt gslCdfGaussianQ gslCdfGaussianP sample1 sample2 false) ∧
      pcsTest gslCdfChisqQ sample2 sample1 = pcsTest gslCdfChisqQ sample1 sample2 := by
  refine ⟨fun h₁ h₂ hproduct hsigma => ?_, pcsTest_swap _ _ _⟩
  have hswap := sigmaSquared_swap h₁ h₂ (size_of_product h₁ h₂ hproduct)
  have hd := deviation_swap h₁ h₂ hproduct
  have hP : ∀ x, gslCdfGaussianP (-x) (sqrt (sigmaSquared sample1 sample2)) =
      gslCdfGaussianQ x (sqrt (sigmaSquared sample1 sample2)) := fun x => hneg x _ hsigma
  have hQ : ∀ x, gslCdfGaussianQ (-x) (sqrt (sigmaSquared sample1 sample2)) =
      gslCdfGaussianP x (sqrt (sigmaSquared sample1 sample2)) := fun x => by
    rw [← hP (-x), neg_neg]
  constructor
  · simp only [wmwTest, hswap, hd, hP, hQ, if_true]
    rcases lt_trichotomy (deviation sample1 sample2) 0 with hlt | heq | hlt
    · rw [if_pos (neg_nonneg.mpr hlt.le), if_neg hlt.not_ge]
    · rw [heq, neg_zero, if_pos le_rfl, if_pos le_rfl, ← hQ 0, neg_zero]
    · rw [if_neg (neg_nonneg.not.mpr hlt.not_ge), if_pos hlt.le]
  · simp only [wmwTest, hswap, hd, hQ, Bool.false_eq_true, if_false]
    exact eq_sub_of_add_eq (hrest _ _ hsigma)

/-- One value in the middle of six, where the deviation is 0 and `sigma` is 2. -/
theorem tests_symmetric_middle :
    let p : ℚ → ℚ → ℚ := fun x _ => if x < 0 then 0 else if x = 0 then 1 / 2 else 1
    wmwTest (fun x => Rat.sqrt x) (fun x => p (-x)) p [1, 2, 3, 5, 6, 7] [4] true =
        wmwTest (fun x => Rat.sqrt x) (fun x => p (-x)) p [4] [1, 2, 3, 5, 6, 7] true ∧
      wmwTest (fun x => Rat.sqrt x) (fun x => p (-x)) p [1, 2, 3, 5, 6, 7] [4] false =
        1 - wmwTest (fun x => Rat.sqrt x) (fun x => p (-x)) p [4] [1, 2, 3, 5, 6, 7] false := by
  intro p
  refine (tests_symmetric _ _ p (fun x _ => x) [4] [1, 2, 3, 5, 6, 7] (fun x sigma _ => rfl)
    fun x sigma _ => ?_).1 (by simp) (by simp) (by simp) (by decide +kernel)
  simp only [p]
  rcases lt_trichotomy x 0 with hx | rfl | hx
  · simp [hx, hx.not_gt, hx.ne]
  · norm_num
  · simp [hx, hx.not_gt, hx.ne']

/-! ## The statistic of the Pearson test -/

section

variable {sample1 sample2 : List Int64}

/-- How far the counts of a category are from the proportion of the sizes. -/
def disproportion (lg1 lg2 : Nat) (c : Nat × Nat) : ℚ :=
  (c.1 * lg2 - c.2 * lg1) ^ 2 / (lg1 * lg2 * (c.1 + c.2))

/-- The counts of both samples in the categories that end at `cuts`. -/
def categoryCounts (cuts sample1 sample2 : List Int64) : List (Nat × Nat) :=
  (histogram cuts sample1).zip (histogram cuts sample2)

theorem chiTerm_eq {lg1 lg2 : Nat} (hsizes : Sizes lg1 lg2) {n1 n2 : UInt32}
    (hne : n1.toNat ≠ 0 ∨ n2.toNat ≠ 0) (hle : n1.toNat + n2.toNat ≤ lg1 + lg2) :
    chiTerm (.ofNat lg1) (.ofNat lg2) n1 n2 = some
    (disproportion lg1 lg2 (n1.toNat, n2.toNat)) := by
  have hproduct : ∀ {lg : Nat}, lg * (lg1 + lg2) < 2 ^ 32 →
      (((UInt32.ofNat lg * (n1 + n2)).toNat : ℕ) : ℚ) = lg * (n1.toNat + n2.toNat) := by
    intro lg hlg
    have hlt : lg * (n1.toNat + n2.toNat) < 2 ^ 32 := (Nat.mul_le_mul_left lg hle).trans_lt hlg
    have heq : UInt32.ofNat lg * (n1 + n2) = .ofNat (lg * (n1.toNat + n2.toNat)) := by
      rw [UInt32.ofNat_mul, UInt32.ofNat_add, UInt32.ofNat_toNat, UInt32.ofNat_toNat]
    rw [heq, toNat_ofNat hlt]
    push_cast
    rfl
  have hsum : (((UInt32.ofNat lg1 + .ofNat lg2).toNat : ℕ) : ℚ) = lg1 + lg2 := by
    rw [← UInt32.ofNat_add, toNat_ofNat hsizes.sum_lt]
    push_cast
    rfl
  have hlg1 : (lg1 : ℚ) ≠ 0 := by exact_mod_cast hsizes.pos₁.ne'
  have hlg2 : (lg2 : ℚ) ≠ 0 := by exact_mod_cast hsizes.pos₂.ne'
  have hlg : (lg1 : ℚ) + lg2 ≠ 0 := by exact_mod_cast (Nat.add_pos_left hsizes.pos₁ lg2).ne'
  have hn : (n1.toNat : ℚ) + n2.toNat ≠ 0 := by exact_mod_cast (by omega : n1.toNat + n2.toNat ≠ 0)
  simp only [chiTerm, hproduct hsizes.product₁, hproduct hsizes.product₂, hsum, divide_ne_none hlg,
    divide_ne_none (div_ne_zero (mul_ne_zero hlg1 hn) hlg),
      divide_ne_none (div_ne_zero (mul_ne_zero hlg2 hn) hlg),
    Option.bind_eq_bind, Option.bind_some, Option.pure_def, Option.some.injEq, disproportion]
  field_simp
  ring

/-- A category has no more values than the samples. -/
theorem Categorized.count_le {cuts : List Int64} {categories : List UInt32 × List UInt32}
    (h : Categorized sample1 sample2 cuts categories) {c : UInt32 × UInt32}
    (hc : c ∈ categories.1.zip categories.2) :
      c.1.toNat + c.2.toNat ≤ sample1.length + sample2.length := by
  have hle : ∀ {l : List UInt32} {n : UInt32}, n ∈ l →
      n.toNat ≤ (l.map UInt32.toNat).sum := fun hn =>
    List.single_le_sum (fun _ _ => Nat.zero_le _) _ (List.mem_map_of_mem hn)
  have hmem := List.of_mem_zip hc
  have hle₁ := hle hmem.1
  have hle₂ := hle hmem.2
  rw [h.hist₁, sum_histogram] at hle₁
  rw [h.hist₂, sum_histogram] at hle₂
  exact Nat.add_le_add hle₁ hle₂

theorem mapM_eq_some {α β : Type} {f : α → Option β} {g : α → β} {l : List α}
    (h : ∀ x ∈ l, f x = some (g x)) :
    l.mapM f = some (l.map g) := by
  induction l with
  | nil => rfl
  | cons x l ih =>
    simp [List.mapM_cons, h x List.mem_cons_self, ih fun y hy => h y (List.mem_cons_of_mem x hy)]

/-- The p-value is that of the disproportions in the categories of a histogram, with a degree of
freedom less than categories. -/
theorem pcsTest_eq (sample1 sample2 : List Int64) (h₁ : sample1 ≠ []) (h₂ : sample2 ≠ [])
    (hprod₁ : sample1.length * (sample1.length + sample2.length) < 2 ^ 32)
    (hprod₂ : sample2.length * (sample1.length + sample2.length) < 2 ^ 32) :
    ∃ cuts, cuts.Pairwise (· < ·) ∧ (∀ c ∈ categoryCounts cuts sample1 sample2, c ≠ (0, 0)) ∧
      (∀ c ∈ (categoryCounts cuts sample1 sample2).dropLast,
        Large sample1.length sample2.length c.1 c.2) ∧
      ∀ gslCdfChisqQ, pcsTest gslCdfChisqQ sample1 sample2 =
        some (gslCdfChisqQ ((categoryCounts cuts sample1 sample2).map
          (disproportion sample1.length sample2.length)).sum (.ofNat cuts.length)) := by
  have hsizes : Sizes sample1.length sample2.length :=
    ⟨List.length_pos_iff.mpr h₁, List.length_pos_iff.mpr h₂, hprod₁, hprod₂⟩
  obtain ⟨⟨categories1, categories2⟩, cuts, hrun, h⟩ := categories_categorized hsizes
  have hcounts : categoryCounts cuts sample1 sample2 =
      (categories1.zip categories2).map (Prod.map UInt32.toNat UInt32.toNat) := by
    rw [categoryCounts, ← h.hist₁, ← h.hist₂, List.zip_map]
  refine ⟨cuts, h.increasing, ?_⟩
  rw [hcounts]
  refine ⟨fun c hc => ?_, fun c hc => ?_, fun gslCdfChisqQ => ?_⟩
  · obtain ⟨c, hmem, rfl⟩ := List.mem_map.mp hc
    have hne := h.nonempty c hmem
    rw [Prod.map_apply', Ne, Prod.mk.injEq]
    omega
  · rw [← List.map_dropLast] at hc
    obtain ⟨c, hmem, rfl⟩ := List.mem_map.mp hc
    exact h.large c hmem
  · have hterms := mapM_eq_some (f := fun c : UInt32 × UInt32 =>
      chiTerm (.ofNat sample1.length) (.ofNat sample2.length) c.1 c.2)
          (l := categories1.zip categories2) fun c hc =>
        chiTerm_eq hsizes (h.nonempty c hc) (h.count_le hc)
    have hnoc : UInt32.ofNat categories1.length - 1 = .ofNat cuts.length := by
      have hlength := congrArg List.length h.hist₁
      rw [List.length_map, length_histogram] at hlength
      rw [hlength, UInt32.ofNat_add]
      exact UInt32.add_sub_cancel _ _
    simp only [pcsTest, hrun, hterms, hnoc, Option.bind_eq_bind, Option.bind_some, Option.pure_def,
      List.map_map]
    rfl

/-- The samples of two categories. -/
theorem pcsTest_eq_two : ∃ cuts : List Int64, ∀ gslCdfChisqQ,
    pcsTest gslCdfChisqQ [1, 1, 2, 3, 4, 5, 6, 7, 8, 9, 10, 11, 12]
      [1, 2, 3, 3, 3, 3, 5, 5, 5, 6, 7, 8, 9, 9, 9, 9, 9] =
    some (gslCdfChisqQ ((categoryCounts cuts [1, 1, 2, 3, 4, 5, 6, 7, 8, 9, 10, 11, 12]
      [1, 2, 3, 3, 3, 3, 5, 5, 5, 6, 7, 8, 9, 9, 9, 9, 9]).map (disproportion 13 17)).sum
        (.ofNat cuts.length)) := by
  obtain ⟨cuts, -, -, -, htest⟩ := pcsTest_eq [1, 1, 2, 3, 4, 5, 6, 7, 8, 9, 10, 11, 12]
    [1, 2, 3, 3, 3, 3, 5, 5, 5, 6, 7, 8, 9, 9, 9, 9, 9] (by simp) (by simp) (by simp) (by simp)
  exact ⟨cuts, htest⟩

end

end Topas.Wkp
