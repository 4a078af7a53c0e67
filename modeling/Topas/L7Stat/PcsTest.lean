import Mathlib.Data.List.Sort
import Mathlib.Data.Rat.Cast.Order
import Mathlib.Tactic.Linarith
import Mathlib.Tactic.Positivity
import Topas.Core.Histogram
import Topas.Core.Ranks

/-!
# The Pearson chi-square test

`pcs_categories` takes the values of both samples away in order, the least one at a time, and ends a
category once so many are expected in it. `double` is read as exact, and the unsigned integers wrap.

* `categories_built`: for sizes whose products do not wrap, the categories are those of a histogram,
  none is empty in both samples, and in all but the last one at least 5 values are expected of each
  sample.
* So `pcs_test` divides by no 0.
-/
namespace Topas.Wkp

open Histogram
open Ranks (exists_replicate_append le_of_sorted mem_both)
open scoped Ranks

/-! ## The categories -/

/-- The state of the two loops; `E1` and `E2` are computed where they are compared. -/
structure PcsState where
  sample1 : List Int64
  sample2 : List Int64
  min : Int64
  sample1OldSize : UInt32
  sample2OldSize : UInt32
  n1 : UInt32
  n2 : UInt32
  categories1 : List UInt32
  categories2 : List UInt32

/-- How many values are expected in a category, of a sample of `lg` values.
mirrors detectionmodules/statmodules/wkp-module/pcs-test.cpp:246-247, 324-325 -/
def expected (lg n n1 n2 : UInt32) : ℚ := (lg * (n1 + n2)).toNat / n.toNat

/-- The lesser one of the two fronts. -/
def frontMin (x y : Int64) : Int64 := if x < y then x else y

/-- What is left over goes to the last category.
mirrors detectionmodules/statmodules/wkp-module/pcs-test.cpp:260-271 -/
def PcsState.finish (p : PcsState) : List UInt32 × List UInt32 :=
  let n2 := if p.sample1 = [] ∧ p.sample2 ≠ [] then p.n2 + .ofNat p.sample2.length else p.n2
  let n1 := if p.sample1 ≠ [] ∧ p.sample2 = [] then p.n1 + .ofNat p.sample1.length else p.n1
  (p.categories1 ++ [n1], p.categories2 ++ [n2])

/-- A turn of the inner loop; with the last one of a category, what the outer loop does follows.
mirrors detectionmodules/statmodules/wkp-module/pcs-test.cpp:227-258 -/
def PcsState.step (lg1 lg2 : UInt32) (p : PcsState) : PcsState ⊕ List UInt32 × List UInt32 :=
  let sample1 := p.sample1.filter (· ≠ p.min)
  let sample2 := p.sample2.filter (· ≠ p.min)
  let n1 := p.n1 + (p.sample1OldSize - .ofNat sample1.length)
  let n2 := p.n2 + (p.sample2OldSize - .ofNat sample2.length)
  match sample1, sample2 with
  | x :: _, y :: _ =>
    let min := frontMin x y
    let sample1OldSize := UInt32.ofNat sample1.length
    let sample2OldSize := UInt32.ofNat sample2.length
    if expected lg1 (lg1 + lg2) n1 n2 < 5 ∨ expected lg2 (lg1 + lg2) n1 n2 < 5 then
      .inl ⟨sample1, sample2, min, sample1OldSize, sample2OldSize, n1, n2, p.categories1,
        p.categories2⟩
    else
      .inl ⟨sample1, sample2, min, sample1OldSize, sample2OldSize, 0, 0, p.categories1 ++ [n1],
        p.categories2 ++ [n2]⟩
  | _, _ =>
    .inr (PcsState.finish { p with sample1 := sample1, sample2 := sample2, n1 := n1, n2 := n2 })

/-- The loops, at most `fuel` turns of them; `none` where they have not ended. -/
def PcsState.run (lg1 lg2 : UInt32) : Nat → PcsState → Option (List UInt32 × List UInt32)
  | 0, _ => none
  | fuel + 1, p =>
    match p.step lg1 lg2 with
    | .inl p => run lg1 lg2 fuel p
    | .inr categories => some categories

/-- mirrors detectionmodules/statmodules/wkp-module/pcs-test.cpp:207-278 -/
def pcsCategories (sample1 sample2 : List Int64) : Option (List UInt32 × List UInt32) :=
  match sample1.insertionSort (· ≤ ·), sample2.insertionSort (· ≤ ·) with
  | x :: s1, y :: s2 =>
    let lg1 := UInt32.ofNat sample1.length
    let lg2 := UInt32.ofNat sample2.length
    PcsState.run lg1 lg2 (sample1.length + sample2.length)
      ⟨x :: s1, y :: s2, frontMin x y, lg1, lg2, 0, 0, [], []⟩
  | _, _ => none

/-! ## The test -/

def divide (a b : ℚ) : Option ℚ := if b = 0 then none else some (a / b)

/-- What a category adds to the statistic, `none` where this divides by 0.
mirrors detectionmodules/statmodules/wkp-module/pcs-test.cpp:324-330 -/
def chiTerm (lg1 lg2 n1 n2 : UInt32) : Option ℚ := do
  let e1 ← divide (lg1 * (n1 + n2)).toNat (lg1 + lg2).toNat
  let e2 ← divide (lg2 * (n1 + n2)).toNat (lg1 + lg2).toNat
  let d1 := n1.toNat - e1
  let d2 := n2.toNat - e2
  let q1 ← divide (d1 * d1) e1
  let q2 ← divide (d2 * d2) e2
  return q1 + q2

/-- The p-value, with the chi-square distribution.
mirrors detectionmodules/statmodules/wkp-module/pcs-test.cpp:307-338 -/
def pcsTest (gslCdfChisqQ : ℚ → UInt32 → ℚ) (sample1 sample2 : List Int64) : Option ℚ := do
  let (categories1, categories2) ← pcsCategories sample1 sample2
  let noc := UInt32.ofNat categories1.length
  let terms ← (categories1.zip categories2).mapM fun c =>
    chiTerm (.ofNat sample1.length) (.ofNat sample2.length) c.1 c.2
  return gslCdfChisqQ terms.sum (noc - 1)

/-! ## What the loops keep -/

/-- The sizes of two samples that are not empty, and whose products do not wrap. -/
structure Sizes (lg1 lg2 : Nat) : Prop where
  pos₁ : 0 < lg1
  pos₂ : 0 < lg2
  product₁ : lg1 * (lg1 + lg2) < 2 ^ 32
  product₂ : lg2 * (lg1 + lg2) < 2 ^ 32

theorem Sizes.sum_lt {lg1 lg2 : Nat} (h : Sizes lg1 lg2) : lg1 + lg2 < 2 ^ 32 :=
  (Nat.le_mul_of_pos_left _ h.pos₁).trans_lt h.product₁

/-- At least 5 values of each sample are expected in a category with these counts. -/
def Large (lg1 lg2 n1 n2 : Nat) : Prop :=
  5 ≤ (lg1 * (n1 + n2) : ℚ) / (lg1 + lg2) ∧ 5 ≤ (lg2 * (n1 + n2) : ℚ) / (lg1 + lg2)

theorem expected_ofNat {lg1 lg2 lg n1 n2 : Nat} (h : Sizes lg1 lg2)
    (hlg : lg * (lg1 + lg2) < 2 ^ 32) (hle : n1 + n2 ≤ lg1 + lg2) :
    expected (.ofNat lg) (.ofNat lg1 + .ofNat lg2) (.ofNat n1) (.ofNat n2) =
      (lg * (n1 + n2) : ℚ) / (lg1 + lg2) := by
  have hprod : lg * (n1 + n2) < 2 ^ 32 := (Nat.mul_le_mul_left lg hle).trans_lt hlg
  rw [expected, ← UInt32.ofNat_add, ← UInt32.ofNat_add, ← UInt32.ofNat_mul,
    UInt32.toNat_ofNat_of_lt' hprod,
    UInt32.toNat_ofNat_of_lt' h.sum_lt]
  push_cast
  rfl

theorem large_nonempty {lg1 lg2 n1 n2 : Nat} (h : Large lg1 lg2 n1 n2) : n1 ≠ 0 ∨ n2 ≠ 0 := by
  by_contra hne
  obtain ⟨h₁, h₂⟩ := not_or.mp hne
  rw [not_not] at h₁ h₂
  have hlarge := h.1
  norm_num [h₁, h₂] at hlarge

/-- What `remove` leaves of a sorted sample. -/
theorem exists_removed {x : Int64} {l : List Int64} (h : l.Pairwise (· ≤ ·))
    (hle : ∀ y ∈ l, x ≤ y) :
    ∃ k, l = List.replicate k x ++ l.filter (· ≠ x) ∧ ∀ y ∈ l.filter (· ≠ x), x < y := by
  obtain ⟨k, rest, hl, hlt⟩ := exists_replicate_append (List.pairwise_cons.mpr ⟨hle, h⟩)
  have hrest : l.filter (· ≠ x) = rest := by
    rw [hl, List.filter_append, List.filter_eq_nil_iff.mpr fun y hy => by
      simp [List.eq_of_mem_replicate hy],
      List.filter_eq_self.mpr fun y hy => by simp [(hlt y hy).ne'], List.nil_append]
  rw [hrest]
  exact ⟨k, hl, hlt⟩

theorem frontMin_le {x y : Int64} {l₁ l₂ : List Int64} (h₁ : (x :: l₁).Pairwise (· ≤ ·))
    (h₂ : (y :: l₂).Pairwise (· ≤ ·)) : ∀ z ∈ x :: l₁ ++ y :: l₂, frontMin x y ≤ z := by
  have hmin : frontMin x y ≤ x ∧ frontMin x y ≤ y := by
    rw [frontMin]
    split
    next hlt => exact ⟨le_rfl, hlt.le⟩
    next hlt => exact ⟨not_lt.mp hlt, le_rfl⟩
  intro z hz
  rcases List.mem_append.mp hz with hz | hz
  · exact hmin.1.trans (le_of_sorted h₁ hz)
  · exact hmin.2.trans (le_of_sorted h₂ hz)

theorem frontMin_mem (x y : Int64) (l₁ l₂ : List Int64) : frontMin x y ∈ x :: l₁ ++ y :: l₂ := by
  rw [frontMin]
  split <;> simp

/-- The categories up to now end at `cuts`, and `d₁` and `d₂` are in the current one. -/
structure Built (S₁ S₂ cuts d₁ d₂ : List Int64) (p : PcsState) : Prop where
  hist₁ : ∀ more, histogram (cuts ++ more) S₁ =
    p.categories1.map UInt32.toNat ++ histogram more (d₁ ++ p.sample1)
  hist₂ : ∀ more, histogram (cuts ++ more) S₂ =
    p.categories2.map UInt32.toNat ++ histogram more (d₂ ++ p.sample2)
  sorted₁ : p.sample1.Pairwise (· ≤ ·)
  sorted₂ : p.sample2.Pairwise (· ≤ ·)
  below : ∀ x ∈ d₁ ++ d₂, ∀ y ∈ p.sample1 ++ p.sample2, x < y
  min_mem : p.min ∈ p.sample1 ++ p.sample2
  min_le : ∀ y ∈ p.sample1 ++ p.sample2, p.min ≤ y
  oldSize₁ : p.sample1OldSize = .ofNat p.sample1.length
  oldSize₂ : p.sample2OldSize = .ofNat p.sample2.length
  n1 : p.n1 = .ofNat d₁.length
  n2 : p.n2 = .ofNat d₂.length
  room₁ : d₁.length + p.sample1.length ≤ S₁.length
  room₂ : d₂.length + p.sample2.length ≤ S₂.length
  increasing : cuts.Pairwise (· < ·)
  cut_lt : ∀ c ∈ cuts, ∀ y ∈ d₁ ++ p.sample1 ++ (d₂ ++ p.sample2), c < y
  large : ∀ c ∈ p.categories1.zip p.categories2, Large S₁.length S₂.length c.1.toNat c.2.toNat

/-- What the categories are in the end. -/
structure Categorized (S₁ S₂ cuts : List Int64) (categories : List UInt32 × List UInt32) :
    Prop where
  increasing : cuts.Pairwise (· < ·)
  hist₁ : categories.1.map UInt32.toNat = histogram cuts S₁
  hist₂ : categories.2.map UInt32.toNat = histogram cuts S₂
  nonempty : ∀ c ∈ categories.1.zip categories.2, c.1.toNat ≠ 0 ∨ c.2.toNat ≠ 0
  large : ∀ c ∈ (categories.1.zip categories.2).dropLast,
    Large S₁.length S₂.length c.1.toNat c.2.toNat

namespace Built

variable {S₁ S₂ cuts d₁ d₂ : List Int64} {p : PcsState}

theorem length_categories (h : Built S₁ S₂ cuts d₁ d₂ p) :
    p.categories1.length = cuts.length ∧ p.categories2.length = cuts.length := by
  have h₁ := congrArg List.length (h.hist₁ [])
  have h₂ := congrArg List.length (h.hist₂ [])
  simp only [length_histogram, List.length_append, List.length_map, List.length_nil] at h₁ h₂
  omega

/-- All that is left goes to the last category. -/
theorem finish (h : Built S₁ S₂ cuts d₁ d₂ p) (hsizes : Sizes S₁.length S₂.length)
    {n1 n2 : UInt32} (hn1 : n1 = .ofNat (d₁ ++ p.sample1).length)
    (hn2 : n2 = .ofNat (d₂ ++ p.sample2).length) :
    Categorized S₁ S₂ cuts (p.categories1 ++ [n1], p.categories2 ++ [n2]) := by
  have hsum := hsizes.sum_lt
  have hroom₁ := h.room₁
  have hroom₂ := h.room₂
  rw [← List.length_append] at hroom₁ hroom₂
  have hto1 : n1.toNat = (d₁ ++ p.sample1).length := hn1 ▸
    UInt32.toNat_ofNat_of_lt' (show (d₁ ++ p.sample1).length < 2 ^ 32 by omega)
  have hto2 : n2.toNat = (d₂ ++ p.sample2).length := hn2 ▸
    UInt32.toNat_ofNat_of_lt' (show (d₂ ++ p.sample2).length < 2 ^ 32 by omega)
  obtain ⟨hlen₁, hlen₂⟩ := h.length_categories
  have hzip : (p.categories1 ++ [n1]).zip (p.categories2 ++ [n2]) =
      p.categories1.zip p.categories2 ++ [(n1, n2)] := by
    rw [List.zip_append (by rw [hlen₁, hlen₂])]
    rfl
  refine ⟨h.increasing, ?_, ?_, fun c hc => ?_, fun c hc => ?_⟩
  · rw [← List.append_nil cuts, h.hist₁ [], List.map_append, histogram_nil, ← hto1]
    rfl
  · rw [← List.append_nil cuts, h.hist₂ [], List.map_append, histogram_nil, ← hto2]
    rfl
  · rw [hzip, List.mem_append, List.mem_singleton] at hc
    rcases hc with hc | rfl
    · exact large_nonempty (h.large c hc)
    · rw [hto1, hto2, List.length_append, List.length_append]
      rcases List.mem_append.mp h.min_mem with hm | hm
      · exact .inl (by have := List.length_pos_of_mem hm; omega)
      · exact .inr (by have := List.length_pos_of_mem hm; omega)
  · rw [hzip, List.dropLast_concat] at hc
    exact h.large c hc

/-- The first loop goes on with the same category. -/
theorem remove (h : Built S₁ S₂ cuts d₁ d₂ p) :
    ∃ e₁ e₂, p.sample1 = e₁ ++ p.sample1.filter (· ≠ p.min) ∧
    p.sample2 = e₂ ++ p.sample2.filter (· ≠ p.min) ∧
      (∀ y ∈ e₁ ++ e₂, y = p.min) ∧
      (∀ y ∈ p.sample1.filter (· ≠ p.min) ++ p.sample2.filter (· ≠ p.min), p.min < y) ∧
      p.n1 + (p.sample1OldSize - .ofNat (p.sample1.filter (· ≠ p.min)).length) =
        .ofNat (d₁ ++ e₁).length ∧
      p.n2 + (p.sample2OldSize - .ofNat (p.sample2.filter (· ≠ p.min)).length) =
        .ofNat (d₂ ++ e₂).length := by
  obtain ⟨k₁, hk₁, hlt₁⟩ := exists_removed h.sorted₁ fun y hy =>
    h.min_le y (List.mem_append_left _ hy)
  obtain ⟨k₂, hk₂, hlt₂⟩ := exists_removed h.sorted₂ fun y hy =>
    h.min_le y (List.mem_append_right _ hy)
  have hcount : ∀ {l r : List Int64} {k : Nat} (d : Nat), l = List.replicate k p.min ++ r →
      UInt32.ofNat d + (.ofNat l.length - .ofNat r.length) = .ofNat (d + k) := by
    rintro _ r k d rfl
    rw [List.length_append, List.length_replicate, UInt32.ofNat_add k, UInt32.add_sub_cancel,
      UInt32.ofNat_add]
  refine ⟨_, _, hk₁, hk₂, fun y hy => ?_,
    fun y hy => (List.mem_append.mp hy).elim (hlt₁ y) (hlt₂ y), ?_, ?_⟩
  · exact (List.mem_append.mp hy).elim List.eq_of_mem_replicate List.eq_of_mem_replicate
  · rw [h.n1, h.oldSize₁, hcount _ hk₁, List.length_append, List.length_replicate]
  · rw [h.n2, h.oldSize₂, hcount _ hk₂, List.length_append, List.length_replicate]

/-- The values taken away are in the current category. -/
theorem goOn (h : Built S₁ S₂ cuts d₁ d₂ p) {e₁ e₂ r₁ r₂ : List Int64} (h₁ : p.sample1 = e₁ ++ r₁)
    (h₂ : p.sample2 = e₂ ++ r₂) (heq : ∀ y ∈ e₁ ++ e₂, y = p.min) (hlt : ∀ y ∈ r₁ ++ r₂, p.min < y)
    {min : Int64} (hmem : min ∈ r₁ ++ r₂) (hle : ∀ y ∈ r₁ ++ r₂, min ≤ y) :
    Built S₁ S₂ cuts (d₁ ++ e₁) (d₂ ++ e₂)
      { p with
        sample1 := r₁
        sample2 := r₂
        min := min
        sample1OldSize := .ofNat r₁.length
        sample2OldSize := .ofNat r₂.length
        n1 := .ofNat (d₁ ++ e₁).length
        n2 := .ofNat (d₂ ++ e₂).length } where
  hist₁ := fun more => by rw [h.hist₁, h₁, List.append_assoc]
  hist₂ := fun more => by rw [h.hist₂, h₂, List.append_assoc]
  sorted₁ := (List.pairwise_append.mp (h₁ ▸ h.sorted₁)).2.1
  sorted₂ := (List.pairwise_append.mp (h₂ ▸ h.sorted₂)).2.1
  below := fun x hx y hy => by
    have hy' : y ∈ p.sample1 ++ p.sample2 := by
      rw [h₁, h₂]
      exact (List.mem_append.mp hy).elim
        (fun hy => List.mem_append_left _ (List.mem_append_right _ hy))
        fun hy => List.mem_append_right _ (List.mem_append_right _ hy)
    rcases mem_both.mp hx with hx | hx
    · exact h.below x hx y hy'
    · exact heq x hx ▸ hlt y hy
  min_mem := hmem
  min_le := hle
  oldSize₁ := rfl
  oldSize₂ := rfl
  n1 := rfl
  n2 := rfl
  room₁ := by
    have hroom := h.room₁
    rw [h₁, List.length_append] at hroom
    show (d₁ ++ e₁).length + r₁.length ≤ _
    rw [List.length_append]
    omega
  room₂ := by
    have hroom := h.room₂
    rw [h₂, List.length_append] at hroom
    show (d₂ ++ e₂).length + r₂.length ≤ _
    rw [List.length_append]
    omega
  increasing := h.increasing
  cut_lt := fun c hc y hy => h.cut_lt c hc y (by
    rw [h₁, h₂, ← List.append_assoc d₁ e₁ r₁, ← List.append_assoc d₂ e₂ r₂]
    exact hy)
  large := h.large

/-- A category ends with the values up to `c`. -/
theorem cut (h : Built S₁ S₂ cuts d₁ d₂ p) (hsizes : Sizes S₁.length S₂.length) {c : Int64}
    (hc : ∀ x ∈ d₁ ++ d₂, x ≤ c) (hlt : ∀ y ∈ p.sample1 ++ p.sample2, c < y)
    (hcuts : ∀ c' ∈ cuts, c' < c) (hlarge : Large S₁.length S₂.length d₁.length d₂.length) :
    Built S₁ S₂ (cuts ++ [c]) [] []
      { p with
        n1 := 0
        n2 := 0
        categories1 := p.categories1 ++ [p.n1]
        categories2 := p.categories2 ++ [p.n2] } := by
  have hsum := hsizes.sum_lt
  have hroom₁ := h.room₁
  have hroom₂ := h.room₂
  have hto1 : p.n1.toNat = d₁.length := h.n1 ▸
    UInt32.toNat_ofNat_of_lt' (show d₁.length < 2 ^ 32 by omega)
  have hto2 : p.n2.toNat = d₂.length := h.n2 ▸
    UInt32.toNat_ofNat_of_lt' (show d₂.length < 2 ^ 32 by omega)
  obtain ⟨hlen₁, hlen₂⟩ := h.length_categories
  refine
    { hist₁ := fun more => ?_
      hist₂ := fun more => ?_
      sorted₁ := h.sorted₁
      sorted₂ := h.sorted₂
      below := by simp
      min_mem := h.min_mem
      min_le := h.min_le
      oldSize₁ := h.oldSize₁
      oldSize₂ := h.oldSize₂
      n1 := rfl
      n2 := rfl
      room₁ := by simp only [List.length_nil]; omega
      room₂ := by simp only [List.length_nil]; omega
      increasing :=
        List.pairwise_append.mpr ⟨h.increasing, List.pairwise_singleton _ _, fun c' hc' d hd => ?_⟩
      cut_lt := fun c' hc' y hy => ?_
      large := fun n hn => ?_ }
  · rw [List.append_assoc, h.hist₁, List.singleton_append,
      histogram_split (fun x hx => hc x (List.mem_append_left _ hx)) fun y hy =>
        hlt y (List.mem_append_left _ hy),
      List.map_append, List.map_singleton, hto1, List.append_assoc]
    rfl
  · rw [List.append_assoc, h.hist₂, List.singleton_append,
      histogram_split (fun x hx => hc x (List.mem_append_right _ hx)) fun y hy =>
        hlt y (List.mem_append_right _ hy),
      List.map_append, List.map_singleton, hto2, List.append_assoc]
    rfl
  · rw [List.mem_singleton.mp hd]
    exact hcuts c' hc'
  · rw [List.nil_append, List.nil_append] at hy
    rcases List.mem_append.mp hc' with hc' | hc'
    · exact (hcuts c' hc').trans (hlt y hy)
    · exact List.mem_singleton.mp hc' ▸ hlt y hy
  · rw [List.zip_append (by rw [hlen₁, hlen₂]), List.mem_append] at hn
    rcases hn with hn | hn
    · exact h.large n hn
    · rw [List.mem_singleton.mp hn]
      simpa only [hto1, hto2] using hlarge

/-- A turn of the inner loop takes a value away, and the last one finishes the categories. -/
theorem step (h : Built S₁ S₂ cuts d₁ d₂ p) (hsizes : Sizes S₁.length S₂.length) :
    (∃ p' cuts' d₁' d₂', p.step (.ofNat S₁.length) (.ofNat S₂.length) = .inl p' ∧
      Built S₁ S₂ cuts' d₁' d₂' p' ∧
      p'.sample1.length + p'.sample2.length < p.sample1.length + p.sample2.length) ∨
    ∃ categories, p.step (.ofNat S₁.length) (.ofNat S₂.length) = .inr categories ∧
      Categorized S₁ S₂ cuts categories := by
  obtain ⟨e₁, e₂, he₁, he₂, heq, hlt, hn1, hn2⟩ := h.remove
  unfold PcsState.step
  simp only [hn1, hn2]
  generalize p.sample1.filter (· ≠ p.min) = r₁ at he₁ hlt
  generalize p.sample2.filter (· ≠ p.min) = r₂ at he₂ hlt
  have hfewer : r₁.length + r₂.length < p.sample1.length + p.sample2.length := by
    have hmem : p.min ∈ e₁ ++ e₂ := by
      have hmin := h.min_mem
      rw [he₁, he₂] at hmin
      exact (mem_both.mp hmin).resolve_right fun hr => lt_irrefl _ (hlt _ hr)
    have hpos := List.length_pos_of_mem hmem
    rw [he₁, he₂]
    simp only [List.length_append] at hpos ⊢
    omega
  have hend : r₁ = [] ∨ r₂ = [] → Categorized S₁ S₂ cuts
      (PcsState.finish { p with
        sample1 := r₁, sample2 := r₂, n1 := .ofNat (d₁ ++ e₁).length, n2 :=
            .ofNat (d₂ ++ e₂).length }) := by
    intro hnil
    refine h.finish hsizes ?_ ?_
    · rw [he₁]
      split
      next hcond => rw [← UInt32.ofNat_add, ← List.length_append, List.append_assoc]
      next hcond =>
        have hr : r₁ = [] := by
          by_contra hne
          exact hcond ⟨hne, hnil.resolve_left hne⟩
        rw [hr, List.append_nil]
    · rw [he₂]
      split
      next hcond => rw [← UInt32.ofNat_add, ← List.length_append, List.append_assoc]
      next hcond =>
        have hr : r₂ = [] := by
          by_contra hne
          exact hcond ⟨hnil.resolve_right hne, hne⟩
        rw [hr, List.append_nil]
  match r₁, r₂ with
  | [], r₂ => exact .inr ⟨_, rfl, hend (.inl rfl)⟩
  | x :: r₁, [] => exact .inr ⟨_, rfl, hend (.inr rfl)⟩
  | x :: r₁, y :: r₂ =>
    have hgo := h.goOn he₁ he₂ heq hlt (frontMin_mem x y r₁ r₂) (frontMin_le
      (List.pairwise_append.mp (he₁ ▸ h.sorted₁)).2.1
        (List.pairwise_append.mp (he₂ ▸ h.sorted₂)).2.1)
    left
    dsimp only
    split
    next hsmall => exact ⟨_, _, _, _, rfl, hgo, hfewer⟩
    next hlarge =>
      obtain ⟨hE1, hE2⟩ := not_or.mp hlarge
      refine ⟨_, _, _, _, rfl, hgo.cut (c := p.min) hsizes ?_ hlt ?_ ?_, hfewer⟩
      · intro z hz
        exact (mem_both.mp hz).elim (fun hz => (h.below z hz _ h.min_mem).le) fun hz =>
          (heq z hz).le
      · intro c hc
        refine h.cut_lt c hc _ ?_
        have hmin := h.min_mem
        simp only [List.mem_append] at hmin ⊢
        exact hmin.imp .inr .inr
      · have hroom₁ := hgo.room₁
        have hroom₂ := hgo.room₂
        rw [expected_ofNat hsizes hsizes.product₁ (by omega), not_lt] at hE1
        rw [expected_ofNat hsizes hsizes.product₂ (by omega), not_lt] at hE2
        exact ⟨hE1, hE2⟩

/-- The loops end, at the latest when all values are taken away. -/
theorem run (h : Built S₁ S₂ cuts d₁ d₂ p) (hsizes : Sizes S₁.length S₂.length) {fuel : Nat}
    (hfuel : p.sample1.length + p.sample2.length ≤ fuel) :
    ∃ categories cuts', p.run (.ofNat S₁.length) (.ofNat S₂.length) fuel = some categories ∧
      Categorized S₁ S₂ cuts' categories := by
  induction fuel generalizing p cuts d₁ d₂ with
  | zero =>
    have hpos := List.length_pos_of_mem h.min_mem
    rw [List.length_append] at hpos
    omega
  | succ fuel ih =>
    rw [PcsState.run]
    rcases h.step hsizes with ⟨p', cuts', d₁', d₂', hstep, hnext, hlt⟩ | ⟨categories, hstep, hdone⟩
    · rw [hstep]
      exact ih hnext (by omega)
    · rw [hstep]
      exact ⟨categories, cuts, rfl, hdone⟩

end Built

/-! ## The result -/

section

variable {S₁ S₂ cuts : List Int64} {categories : List UInt32 × List UInt32}

theorem Categorized.perm {T₁ T₂ : List Int64} (h : Categorized S₁ S₂ cuts categories)
    (h₁ : S₁.Perm T₁) (h₂ : S₂.Perm T₂) : Categorized T₁ T₂ cuts categories :=
  ⟨h.increasing, by rw [h.hist₁, histogram_perm h₁], by rw [h.hist₂, histogram_perm h₂], h.nonempty,
    by rw [← h₁.length_eq, ← h₂.length_eq]; exact h.large⟩

theorem categories_categorized (hsizes : Sizes S₁.length S₂.length) :
    ∃ categories cuts, pcsCategories S₁ S₂ = some categories ∧
    Categorized S₁ S₂ cuts categories := by
  have hp₁ := List.perm_insertionSort (· ≤ ·) S₁
  have hp₂ := List.perm_insertionSort (· ≤ ·) S₂
  have hs₁ : (S₁.insertionSort (· ≤ ·)).Pairwise (· ≤ ·) := List.pairwise_insertionSort _ _
  have hs₂ : (S₂.insertionSort (· ≤ ·)).Pairwise (· ≤ ·) := List.pairwise_insertionSort _ _
  unfold pcsCategories
  generalize S₁.insertionSort (· ≤ ·) = l₁ at hp₁ hs₁
  generalize S₂.insertionSort (· ≤ ·) = l₂ at hp₂ hs₂
  have hl₁ := hp₁.length_eq
  have hl₂ := hp₂.length_eq
  match l₁, l₂ with
  | [], _ => exact absurd (hl₁.trans_gt hsizes.pos₁) (lt_irrefl 0)
  | _ :: _, [] => exact absurd (hl₂.trans_gt hsizes.pos₂) (lt_irrefl 0)
  | x :: l₁, y :: l₂ =>
    have hstart : Built (x :: l₁) (y :: l₂) [] [] []
        ⟨x :: l₁, y :: l₂, frontMin x y, .ofNat S₁.length, .ofNat S₂.length, 0, 0, [], []⟩ :=
      { hist₁ := fun more => rfl
        hist₂ := fun more => rfl
        sorted₁ := hs₁
        sorted₂ := hs₂
        below := by simp
        min_mem := frontMin_mem x y l₁ l₂
        min_le := frontMin_le hs₁ hs₂
        oldSize₁ := by rw [hl₁]
        oldSize₂ := by rw [hl₂]
        n1 := rfl
        n2 := rfl
        room₁ := (Nat.zero_add _).le
        room₂ := (Nat.zero_add _).le
        increasing := .nil
        cut_lt := by simp
        large := by simp }
    obtain ⟨categories, cuts, hrun, hdone⟩ := hstart.run (by rwa [hl₁, hl₂])
      (show (x :: l₁).length + (y :: l₂).length ≤ S₁.length + S₂.length by rw [hl₁, hl₂])
    rw [hl₁, hl₂] at hrun
    exact ⟨categories, cuts, hrun, hdone.perm hp₁ hp₂⟩

theorem divide_ne_none {a b : ℚ} (h : b ≠ 0) : divide a b = some (a / b) := if_neg h

theorem mapM_ne_none {α β : Type} {f : α → Option β} {l : List α} (h : ∀ x ∈ l, f x ≠ none) :
    l.mapM f ≠ none := by
  induction l with
  | nil => simp
  | cons x l ih =>
    obtain ⟨y, hy⟩ := Option.ne_none_iff_exists'.mp (h x List.mem_cons_self)
    obtain ⟨ys, hys⟩ :=
      Option.ne_none_iff_exists'.mp (ih fun z hz => h z (List.mem_cons_of_mem x hz))
    simp [List.mapM_cons, hy, hys]

/-- A category that is not empty in both samples adds to the statistic. -/
theorem chiTerm_ne_none (hsizes : Sizes S₁.length S₂.length) {n1 n2 : UInt32}
    (hne : n1.toNat ≠ 0 ∨ n2.toNat ≠ 0) (hle : n1.toNat + n2.toNat ≤ S₁.length + S₂.length) :
    chiTerm (.ofNat S₁.length) (.ofNat S₂.length) n1 n2 ≠ none := by
  have hsum := hsizes.sum_lt
  have hn : (((UInt32.ofNat S₁.length + .ofNat S₂.length : UInt32).toNat : ℕ) : ℚ) ≠ 0 := by
    rw [← UInt32.ofNat_add, UInt32.toNat_ofNat_of_lt' hsum]
    have := hsizes.pos₁
    exact_mod_cast (by omega : S₁.length + S₂.length ≠ 0)
  have hprod : ∀ {lg : Nat}, 0 < lg → lg * (S₁.length + S₂.length) < 2 ^ 32 →
      (((UInt32.ofNat lg * (n1 + n2) : UInt32).toNat : ℕ) : ℚ) ≠ 0 := by
    intro lg hpos hlg
    have hlt : lg * (n1.toNat + n2.toNat) < 2 ^ 32 := (Nat.mul_le_mul_left lg hle).trans_lt hlg
    have heq : (UInt32.ofNat lg * (n1 + n2)).toNat = lg * (n1.toNat + n2.toNat) := by
      rw [← UInt32.ofNat_toNat (x := n1), ← UInt32.ofNat_toNat (x := n2), ← UInt32.ofNat_add,
        ← UInt32.ofNat_mul,
        UInt32.toNat_ofNat_of_lt' hlt, UInt32.ofNat_toNat, UInt32.ofNat_toNat]
    rw [heq]
    exact_mod_cast (Nat.mul_pos hpos (by omega)).ne'
  have h₁ := hprod hsizes.pos₁ hsizes.product₁
  have h₂ := hprod hsizes.pos₂ hsizes.product₂
  rw [chiTerm]
  simp only [divide_ne_none hn, divide_ne_none (div_ne_zero h₁ hn),
    divide_ne_none (div_ne_zero h₂ hn),
    Option.bind_eq_bind, Option.bind_some, Option.pure_def]
  exact Option.some_ne_none _

/-- The loops end, and the categories are consecutive intervals of values that cover both samples.
None is empty in both, and in all but the last one at least 5 values are expected of each. -/
theorem categories_built (sample1 sample2 : List Int64) (h₁ : sample1 ≠ []) (h₂ : sample2 ≠ [])
    (hprod₁ : sample1.length * (sample1.length + sample2.length) < 2 ^ 32)
    (hprod₂ : sample2.length * (sample1.length + sample2.length) < 2 ^ 32) :
    ∃ categories1 categories2 cuts, pcsCategories sample1 sample2 = some
    (categories1, categories2) ∧
      cuts.Pairwise (· < ·) ∧
      categories1.map UInt32.toNat = histogram cuts sample1 ∧
      categories2.map UInt32.toNat = histogram cuts sample2 ∧
      categories1.length = categories2.length ∧
      (categories1.map UInt32.toNat).sum = sample1.length ∧
      (categories2.map UInt32.toNat).sum = sample2.length ∧
      (∀ c ∈ categories1.zip categories2, c.1.toNat ≠ 0 ∨ c.2.toNat ≠ 0) ∧
      (∀ c ∈ (categories1.zip categories2).dropLast,
        Large sample1.length sample2.length c.1.toNat c.2.toNat) ∧
      ∀ gslCdfChisqQ, pcsTest gslCdfChisqQ sample1 sample2 ≠ none := by
  have hsizes : Sizes sample1.length sample2.length :=
    ⟨List.length_pos_iff.mpr h₁, List.length_pos_iff.mpr h₂, hprod₁, hprod₂⟩
  obtain ⟨⟨categories1, categories2⟩, cuts, hrun, h⟩ := categories_categorized hsizes
  have hsum₁ : (categories1.map UInt32.toNat).sum = sample1.length := by rw [h.hist₁, sum_histogram]
  have hsum₂ : (categories2.map UInt32.toNat).sum = sample2.length := by rw [h.hist₂, sum_histogram]
  have hlen₁ := congrArg List.length h.hist₁
  have hlen₂ := congrArg List.length h.hist₂
  rw [List.length_map, length_histogram] at hlen₁ hlen₂
  refine ⟨categories1, categories2, cuts, hrun, h.increasing, h.hist₁, h.hist₂,
    hlen₁.trans hlen₂.symm, hsum₁, hsum₂,
    h.nonempty, h.large, fun gslCdfChisqQ => ?_⟩
  have hterms := mapM_ne_none (f := fun c : UInt32 × UInt32 =>
    chiTerm (.ofNat sample1.length) (.ofNat sample2.length) c.1 c.2)
        (l := categories1.zip categories2) fun c hc => by
      refine chiTerm_ne_none hsizes (h.nonempty c hc) ?_
      have hmem := List.of_mem_zip hc
      have hle₁ :=
        List.single_le_sum (l := categories1.map UInt32.toNat) (fun _ _ => Nat.zero_le _) _
        (List.mem_map_of_mem hmem.1)
      have hle₂ :=
        List.single_le_sum (l := categories2.map UInt32.toNat) (fun _ _ => Nat.zero_le _) _
        (List.mem_map_of_mem hmem.2)
      omega
  obtain ⟨terms, hterms⟩ := Option.ne_none_iff_exists'.mp hterms
  simp [pcsTest, hrun, hterms]

/-- Two categories of 13 and 15 values. -/
theorem categories_built_two : pcsCategories [1, 1, 2, 3, 4, 5, 6, 7, 8, 9, 10, 11, 12]
      [1, 2, 3, 3, 3, 3, 5, 5, 5, 6, 7, 8, 9, 9, 9, 9, 9] = some ([6, 7], [9, 8]) ∧
    ∀ gslCdfChisqQ, pcsTest gslCdfChisqQ [1, 1, 2, 3, 4, 5, 6, 7, 8, 9, 10, 11, 12]
      [1, 2, 3, 3, 3, 3, 5, 5, 5, 6, 7, 8, 9, 9, 9, 9, 9] ≠ none := by
  obtain ⟨_, _, _, _, _, _, _, _, _, _, _, _, htest⟩ := categories_built
    [1, 1, 2, 3, 4, 5, 6, 7, 8, 9, 10, 11, 12] [1, 2, 3, 3, 3, 3, 5, 5, 5, 6, 7, 8, 9, 9, 9, 9, 9]
      (by simp)
    (by simp) (by simp) (by simp)
  exact ⟨by decide +kernel, htest⟩

end

end Topas.Wkp
