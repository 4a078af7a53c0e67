import Mathlib.Data.Real.Basic
import Topas.L7Stat.KsMerge

/-!
# The statistic of the Kolmogorov-Smirnov test

* `ks_iff`: the statistic is the supremum of the difference of the two empirical distribution
  functions exactly if the steps at values that do not fit an `int` neither lead further from 0 than
  it, nor pass over all places where it is attained.
* `Turns.of_fits`: so it is where all values fit that both samples have.
-/
namespace Topas.Wkp

open Ecdf
open Ranks (mem_both)
open scoped Ranks

section

variable {S₁ S₂ p₁ p₂ q₁ q₂ : List Int64} {lo hi : ℤ}

/-- The end of the merge has compared all differences that it does not pass over. -/
theorem Cut.gaps_at_end (h : Cut S₁ S₂ p₁ p₂ q₁ q₂ lo hi) (hend : q₁ = [] ∨ q₂ = []) :
    ∀ x ∈ S₁ ++ S₂, ¬Skipped S₁ S₂ x → lo ≤ gap S₁ S₂ x ∧ gap S₁ S₂ x ≤ hi := by
  intro x hx hns
  have hx : x ∈ p₁ ++ p₂ ∨ x ∈ q₁ ++ q₂ := mem_both.mp (by rwa [← h.split₁, ← h.split₂])
  rcases hx with hx | hx
  · exact h.gaps x hx hns
  have hpast : ∀ {S p q : List Int64}, S = p ++ q → (∀ y ∈ p, y < x) →
      p.length ≤ S.countP (· ≤ x) := by
    rintro _ p q rfl hp
    rw [List.countP_append, List.countP_eq_length.mpr fun y hy => decide_eq_true (hp y hy).le]
    omega
  have hpast₁ := hpast h.split₁ fun y hy => h.below y (List.mem_append_left _ hy) x hx
  have hpast₂ := hpast h.split₂ fun y hy => h.below y (List.mem_append_right _ hy) x hx
  have hle₁ : S₁.countP (· ≤ x) ≤ S₁.length := List.countP_le_length
  have hle₂ : S₂.countP (· ≤ x) ≤ S₂.length := List.countP_le_length
  have hlo := h.lo_nonpos
  have hhi := h.hi_nonneg
  have hlo_le := h.lo_le
  have hle_hi := h.le_hi
  rw [difference] at hlo_le hle_hi
  rw [gap]
  have hp₁ := mul_le_mul_of_nonneg_left (Int.ofNat_le.mpr hpast₁) (Int.natCast_nonneg S₂.length)
  have hp₂ := mul_le_mul_of_nonneg_left (Int.ofNat_le.mpr hpast₂) (Int.natCast_nonneg S₁.length)
  have hl₁ := mul_le_mul_of_nonneg_left (Int.ofNat_le.mpr hle₁) (Int.natCast_nonneg S₂.length)
  have hl₂ := mul_le_mul_of_nonneg_left (Int.ofNat_le.mpr hle₂) (Int.natCast_nonneg S₁.length)
  have hcomm := mul_comm (S₁.length : ℤ) S₂.length
  rcases hend with rfl | rfl
  · have hall : p₁.length = S₁.length := by rw [h.split₁, List.append_nil]
    have hcount : S₁.countP (· ≤ x) = S₁.length := by omega
    rw [hall] at hlo_le hle_hi
    rw [hcount]
    omega
  · have hall : p₂.length = S₂.length := by rw [h.split₂, List.append_nil]
    have hcount : S₂.countP (· ≤ x) = S₂.length := by omega
    rw [hall] at hlo_le hle_hi
    rw [hcount]
    omega

/-- Every value that does not fit has been passed. -/
theorem Cut.turns_at_end (h : Cut S₁ S₂ p₁ p₂ q₁ q₂ lo hi) (hend : q₁ = [] ∨ q₂ = []) :
    ∀ v, Wide S₁ S₂ v → ∀ z ∈ Wkp.turns S₁ S₂ v, lo ≤ z ∧ z ≤ hi := by
  intro v hw
  refine h.turns v ?_ hw
  rcases List.mem_append.mp (h.split₁ ▸ hw.1) with hv | hv
  · exact hv
  · rcases hend with rfl | rfl
    · exact absurd hv (List.not_mem_nil)
    · have hv₂ := hw.2.1
      rw [h.split₂, List.append_nil] at hv₂
      exact absurd (h.below v (List.mem_append_right _ hv₂) v (List.mem_append_left _ hv))
        (lt_irrefl v)

/-- What the least and the greatest difference are in the end. -/
structure Extremes (S₁ S₂ : List Int64) (lo hi : ℤ) : Prop where
  gaps : ∀ x ∈ S₁ ++ S₂, ¬Skipped S₁ S₂ x → lo ≤ gap S₁ S₂ x ∧ gap S₁ S₂ x ≤ hi
  turns : ∀ v, Wide S₁ S₂ v → ∀ z ∈ turns S₁ S₂ v, lo ≤ z ∧ z ≤ hi
  lo_nonpos : lo ≤ 0
  hi_nonneg : 0 ≤ hi
  lo_mark : lo = 0 ∨ Mark S₁ S₂ lo
  hi_mark : hi = 0 ∨ Mark S₁ S₂ hi

/-- The greatest value of all is not passed over. -/
theorem exists_not_skipped (h : S₁ ≠ []) (S₂ : List Int64) :
    ∃ x ∈ S₁ ++ S₂, ¬Skipped S₁ S₂ x ∧ gap S₁ S₂ x = 0 := by
  obtain ⟨x, hx, hmax⟩ := exists_greatest (l := S₁ ++ S₂) (by simp [h])
  have hmem : ∀ {S T : List Int64} {v : Int64}, 0 < carried S T v → truncated v ∈ S := by
    intro S T v hpos
    rw [carried] at hpos
    split at hpos
    · exact List.count_pos_iff.mp hpos
    · exact absurd hpos (lt_irrefl 0)
  refine ⟨x, hx, ?_, gap_of_le (fun y hy => hmax y (List.mem_append_left _ hy))
    fun y hy => hmax y (List.mem_append_right _ hy)⟩
  rintro ⟨v, -, -, hlt, hcar | hcar⟩
  · exact hlt.not_ge (hmax _ (List.mem_append_left _ (hmem hcar)))
  · exact hlt.not_ge (hmax _ (List.mem_append_right _ (hmem hcar)))

/-- The greater one of the two is the greatest gap exactly where the turns allow it. -/
theorem Extremes.greatest_iff (h : Extremes S₁ S₂ lo hi) (hne : S₁ ≠ []) :
    ((∀ x ∈ S₁ ++ S₂, |gap S₁ S₂ x| ≤ max hi (-lo)) ∧
      ∃ x ∈ S₁ ++ S₂, |gap S₁ S₂ x| = max hi (-lo)) ↔
      Turns S₁ S₂ := by
  have hlo := h.lo_nonpos
  have hhi := h.hi_nonneg
  have hbound : ∀ z, lo ≤ z ∧ z ≤ hi → |z| ≤ max hi (-lo) := fun z hz => abs_le.mpr (by omega)
  obtain ⟨x₀, hx₀, hns₀, hgap₀⟩ := exists_not_skipped hne S₂
  -- one of the places that the merge compares attains the greater one
  have hattained : (∃ x ∈ S₁ ++ S₂, ¬Skipped S₁ S₂ x ∧ |gap S₁ S₂ x| = max hi (-lo)) ∨
      ∃ v, Wide S₁ S₂ v ∧ ∃ z ∈ Wkp.turns S₁ S₂ v, |z| = max hi (-lo) := by
    have hmark : ∀ {z : ℤ}, |z| = max hi (-lo) → z = 0 ∨ Mark S₁ S₂ z →
        (∃ x ∈ S₁ ++ S₂, ¬Skipped S₁ S₂ x ∧ |gap S₁ S₂ x| = max hi (-lo)) ∨
          ∃ v, Wide S₁ S₂ v ∧ ∃ z ∈ Wkp.turns S₁ S₂ v, |z| = max hi (-lo) := by
      rintro z hz (rfl | ⟨x, hx, hns, rfl⟩ | ⟨v, hw, hv⟩)
      · exact .inl ⟨x₀, hx₀, hns₀, by rw [hgap₀, hz]⟩
      · exact .inl ⟨x, hx, hns, hz⟩
      · exact .inr ⟨v, hw, z, hv, hz⟩
    rcases le_total hi (-lo) with hle | hle
    · exact hmark (by rw [abs_of_nonpos hlo, max_eq_right hle]) h.lo_mark
    · exact hmark (by rw [abs_of_nonneg hhi, max_eq_left hle]) h.hi_mark
  constructor
  · rintro ⟨hle, x, hx, heq⟩
    refine ⟨fun v hw z hz => ⟨x, hx, heq ▸ hbound z (h.turns v hw z hz)⟩, fun y hy _ => ?_⟩
    rcases hattained with ⟨y', hy', hns, hmax⟩ | ⟨v, hw, z, hz, hmax⟩
    · exact .inl ⟨y', hy', hns, hmax ▸ hle y hy⟩
    · exact .inr ⟨v, hw, z, hz, hmax ▸ hle y hy⟩
  · intro hturns
    have hle : ∀ x ∈ S₁ ++ S₂, |gap S₁ S₂ x| ≤ max hi (-lo) := fun x hx => by
      by_cases hs : Skipped S₁ S₂ x
      · rcases hturns.seen x hx hs with ⟨y, hy, hns, hxy⟩ | ⟨v, hw, z, hz, hxz⟩
        · exact hxy.trans (hbound _ (h.gaps y hy hns))
        · exact hxz.trans (hbound _ (h.turns v hw z hz))
      · exact hbound _ (h.gaps x hx hs)
    refine ⟨hle, ?_⟩
    rcases hattained with ⟨x, hx, -, hmax⟩ | ⟨v, hw, z, hz, hmax⟩
    · exact ⟨x, hx, hmax⟩
    · obtain ⟨x, hx, hzx⟩ := hturns.within v hw z hz
      exact ⟨x, hx, le_antisymm (hle x hx) (hmax ▸ hzx)⟩

theorem Ends.extremes {k : KsState} (h : Ends S₁ S₂ k)
    (hsize : (S₁.length * S₂.length : ℤ) < 2 ^ 31) :
    ∃ lo hi, Extremes S₁ S₂ lo hi ∧
      (if k.Dmax < -k.Dmin then -k.Dmin else k.Dmax).toInt = max hi (-lo) := by
  obtain ⟨p₁, p₂, q₁, q₂, lo, hi, hcut, hend, -, hDmin, hDmax⟩ := h
  have hlo := hcut.lo_nonpos
  have hhi := hcut.hi_nonneg
  obtain ⟨hlo31, hhi31⟩ := hcut.bounds hsize
  refine
    ⟨lo, hi,
      ⟨hcut.gaps_at_end hend, hcut.turns_at_end hend, hlo, hhi, hcut.lo_mark, hcut.hi_mark⟩, ?_⟩
  rw [hDmin, hDmax, ← Int32.ofInt_neg, max_ofInt (abs_lt.mpr (by omega)) (abs_lt.mpr (by omega)),
    Int32.toInt_ofInt_of_le (by omega) (by omega)]

/-! ### The order of the samples -/

section

variable {T₁ T₂ : List Int64} (h₁ : S₁.Perm T₁) (h₂ : S₂.Perm T₂)

include h₁ h₂

theorem carried_perm : carried S₁ S₂ = carried T₁ T₂ := by
  funext v
  simp only [carried, h₁.count_eq, h₂.count_eq, h₁.mem_iff]

theorem turns_perm : turns S₁ S₂ = turns T₁ T₂ := by
  funext v
  simp only [turns, differenceAt, h₁.count_eq, h₂.count_eq, h₁.length_eq, h₂.length_eq,
    h₁.countP_eq, h₂.countP_eq,
    carried_perm h₁ h₂, carried_perm h₂ h₁]

theorem wide_perm {v : Int64} : Wide S₁ S₂ v ↔ Wide T₁ T₂ v := by
  rw [Wide, Wide, h₁.mem_iff, h₂.mem_iff]

theorem skipped_perm {x : Int64} : Skipped S₁ S₂ x ↔ Skipped T₁ T₂ x := by
  simp only [Skipped, wide_perm h₁ h₂, carried_perm h₁ h₂, carried_perm h₂ h₁]

theorem Turns.perm (h : Turns S₁ S₂) : Turns T₁ T₂ := by
  have hpool := h₁.append h₂
  refine ⟨fun v hw z hz => ?_, fun x hx hs => ?_⟩
  · obtain ⟨x, hx, hle⟩ := h.within v ((wide_perm h₁ h₂).mpr hw) z (turns_perm h₁ h₂ ▸ hz)
    exact ⟨x, hpool.mem_iff.mp hx, gap_perm h₁ h₂ ▸ hle⟩
  · have hseen := h.seen x (hpool.mem_iff.mpr hx) ((skipped_perm h₁ h₂).mpr hs)
    simpa only [gap_perm h₁ h₂, turns_perm h₁ h₂, wide_perm h₁ h₂, skipped_perm h₁ h₂,
      hpool.mem_iff] using hseen

end

end

/-- The sample as real numbers. -/
def reals (sample : List Int64) : List ℝ := sample.map fun x => (x.toInt : ℝ)

theorem reals_strictMono : StrictMono fun x : Int64 => (x.toInt : ℝ) := fun _ _ h =>
  Int.cast_lt.mpr (Int64.lt_iff_toInt_lt.mp h)

/-- The statistic is the supremum of the difference of the two empirical distribution functions
exactly where the steps at values that do not fit an `int` allow it. -/
theorem ks_iff (sample1 sample2 : List Int64) (h₁ : sample1 ≠ []) (h₂ : sample2 ≠ [])
    (hsize : sample1.length * sample2.length < 2 ^ 31) :
    IsLUB (Set.range fun x => |ecdf (reals sample1) x - ecdf (reals sample2) x|)
    (ksStatistic sample1 sample2) ↔
      Turns sample1 sample2 := by
  have hp₁ := List.perm_insertionSort (· ≤ ·) sample1
  have hp₂ := List.perm_insertionSort (· ≤ ·) sample2
  have hl₁ : (sample1.insertionSort (· ≤ ·)).length = sample1.length :=
    List.length_insertionSort _ _
  have hl₂ : (sample2.insertionSort (· ≤ ·)).length = sample2.length :=
    List.length_insertionSort _ _
  have hpos₁ := List.length_pos_iff.mpr h₁
  have hpos₂ := List.length_pos_iff.mpr h₂
  have hne : sample1.insertionSort (· ≤ ·) ≠ [] := List.ne_nil_of_length_pos (hl₁ ▸ hpos₁)
  have hsize' :
      ((sample1.insertionSort (· ≤ ·)).length * (sample2.insertionSort (· ≤ ·)).length : ℤ) <
          2 ^ 31 := by
    rw [hl₁, hl₂]
    exact_mod_cast hsize
  have hrun := (cut_start (sample1.insertionSort (· ≤ ·)) (sample2.insertionSort (· ≤ ·))).run
    (List.pairwise_insertionSort _ _) (List.pairwise_insertionSort _ _) hsize' le_rfl
  obtain ⟨lo, hi, hext, hD⟩ := hrun.extremes hsize'
  rw [hl₁, hl₂] at hD
  have hstat :
      (sample1.length * sample2.length * ksStatistic sample1 sample2 : ℚ) = (max hi (-lo) : ℤ) := by
    have hprod : (UInt32.ofNat sample1.length * .ofNat sample2.length).toNat = sample1.length *
        sample2.length := by
      rw [← UInt32.ofNat_mul]
      exact UInt32.toNat_ofNat_of_lt' (hsize.trans (by decide))
    have hD' : (ksD sample1 sample2).toInt = max hi (-lo) := by
      rw [← hD]
      simp only [difference, List.length_nil, Nat.cast_zero, mul_zero, sub_zero]
      rfl
    rw [ksStatistic, hprod, hD']
    push_cast
    field_simp
  have hgap := gap_perm hp₁ hp₂
  have hmem : ∀ x, x ∈ sample1.insertionSort (· ≤ ·) ++ sample2.insertionSort (· ≤ ·) ↔
      x ∈ sample1 ++ sample2 :=
    fun x => (hp₁.append hp₂).mem_iff
  have hturns : Turns (sample1.insertionSort (· ≤ ·)) (sample2.insertionSort (· ≤ ·)) ↔
      Turns sample1 sample2 :=
    ⟨fun h => h.perm hp₁ hp₂, fun h => h.perm hp₁.symm hp₂.symm⟩
  rw [isLUB_iff (by simpa [reals] using h₁) (by simpa [reals] using h₂), ← hturns,
    ← hext.greatest_iff hne]
  simp only [reals, List.length_map, hstat, ← List.map_append, List.mem_map,
    exists_exists_and_eq_and,
    forall_exists_index, and_imp, forall_apply_eq_imp_iff₂, gap_map reals_strictMono, hgap, hmem,
      ← Int.cast_abs,
    Int.cast_le, Int.cast_inj]

/-- Where all common values fit an `int` the statistic is right. -/
theorem Turns.of_fits {sample1 sample2 : List Int64}
    (h : ∀ v ∈ sample1, v ∈ sample2 → truncated v = v) :
    Turns sample1 sample2 :=
  ⟨fun v hw => absurd (h v hw.1 hw.2.1) hw.2.2,
    fun _ _ ⟨v, hw, _⟩ => absurd (h v hw.1 hw.2.1) hw.2.2⟩

theorem ks_iff_small : IsLUB (Set.range fun x => |ecdf (reals [1, 2, 2]) x - ecdf (reals [2, 3]) x|)
    (ksStatistic [1, 2, 2] [2, 3]) :=
  (ks_iff [1, 2, 2] [2, 3] (by simp) (by simp) (by simp)).mpr
    (.of_fits fun v hv _ => by
      simp only [List.mem_cons, List.not_mem_nil, or_false] at hv
      rcases hv with rfl | rfl | rfl <;> rfl)

/-- The samples have the same distribution. The step at 2³¹ takes one copy in each, and then
compares. -/
theorem ks_large : IsLUB
    (Set.range fun x => |ecdf (reals [2147483648, 2147483648]) x - ecdf (reals [2147483648]) x|) 0 ∧
    ksStatistic [2147483648, 2147483648] [2147483648] = 1 / 2 := by
  have hsame : ∀ x : ℝ, |ecdf (reals [2147483648, 2147483648]) x - ecdf (reals [2147483648]) x| =
      0 := fun x => by
    rw [abs_eq_zero, sub_eq_zero]
    by_cases hx : (2147483648 : ℝ) ≤ x <;> simp [ecdf, reals, hx]
  refine ⟨?_, by decide +kernel⟩
  simp only [hsame, Set.range_const]
  exact isLUB_singleton

end Topas.Wkp
