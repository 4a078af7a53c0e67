import Mathlib.Algebra.BigOperators.Ring.Finset
import Mathlib.Data.List.Sort
import Topas.Core.Ranks

/-!
# The Wilcoxon-Mann-Whitney test

`wmw_test` merges the two sorted samples, counts the ranks and adds up those of each sample. `float`
is read as exact, and the unsigned integers wrap.

* `wmw_rank_sums`: for sizes whose ranks add up without overflow, the sums are those of the
  midranks.
* `variance_iff`: the variance is that of all assignments of the values to the samples exactly if no
  two values are equal, or each sample has one value.
-/
namespace Topas.Wkp

open Ranks

/-! ## The merge -/

/-- What the loop over the copies of a tied value in one sample leaves. -/
structure Copies where
  tieRs : UInt32
  ties : UInt32
  i : UInt32
  it : List Int64
  ranks : List UInt32

/-- The `do … while` loop; what is read behind the last element plays no part. `ranks` are the
values of `i` that were used.
mirrors detectionmodules/statmodules/wkp-module/wmw-test.cpp:370-387 -/
def copies (tie : Int64) (tieRs ties i : UInt32) (ranks : List UInt32) : List Int64 → Copies
  | [] => ⟨tieRs, ties, i, [], ranks⟩
  | _ :: it =>
    if it.head? = some tie then copies tie (tieRs + i) (ties + 1) (i + 1) (ranks ++ [i]) it
    else ⟨tieRs + i, ties + 1, i + 1, it, ranks ++ [i]⟩

/-- The state of the merge: what is left of the samples, the sums, and all ranks used so far. -/
structure Merge where
  i : UInt32
  it1 : List Int64
  it2 : List Int64
  rs1 : ℚ
  rs2 : ℚ
  tc : ℚ
  ranks : List UInt32

/-- The three branches; a tied value takes its ranks in both samples at once.
mirrors detectionmodules/statmodules/wkp-module/wmw-test.cpp:358-426 -/
def Merge.assign (m : Merge) : Merge :=
  match m.it1, m.it2 with
  | x :: it1, y :: it2 =>
    if x = y then
      let in1 := copies x 0 0 m.i m.ranks (x :: it1)
      let in2 := copies x in1.tieRs 0 in1.i in1.ranks (y :: it2)
      let ties := in1.ties + in2.ties
      let tieRank : ℚ := in2.tieRs.toNat / ties.toNat
      { i := in2.i - 1
        it1 := in1.it
        it2 := in2.it
        rs1 := m.rs1 + in1.ties.toNat * tieRank
        rs2 := m.rs2 + in2.ties.toNat * tieRank
        tc := m.tc + (ties * ties * ties - ties).toNat
        ranks := in2.ranks }
    else if x < y then { m with rs1 := m.rs1 + m.i.toNat, it1 := it1, ranks := m.ranks ++ [m.i] }
    else { m with rs2 := m.rs2 + m.i.toNat, it2 := it2, ranks := m.ranks ++ [m.i] }
  | _, _ => m

/-- The loop over the ranks that are left once the other sample has reached its end.
mirrors detectionmodules/statmodules/wkp-module/wmw-test.cpp:435-441, 451-457 -/
def remaining (nSum : UInt32) (i : UInt32) (rs : ℚ) (ranks : List UInt32) :
    List Int64 → UInt32 × List Int64 × ℚ × List UInt32
  | [] => (i, [], rs, ranks)
  | x :: it =>
    if i ≤ nSum then remaining nSum (i + 1) (rs + i.toNat) (ranks ++ [i]) it
    else (i, x :: it, rs, ranks)

/-- mirrors detectionmodules/statmodules/wkp-module/wmw-test.cpp:430-459 -/
def Merge.finish (nSum : UInt32) (m : Merge) : Merge :=
  if m.it1 = [] then
    let (i, it2, rs2, ranks) := remaining nSum (m.i + 1) m.rs2 m.ranks m.it2
    { m with i := i, it2 := it2, rs2 := rs2, ranks := ranks }
  else if m.it2 = [] then
    let (i, it1, rs1, ranks) := remaining nSum (m.i + 1) m.rs1 m.ranks m.it1
    { m with i := i, it1 := it1, rs1 := rs1, ranks := ranks }
  else m

/-- The loop over `i`, at most `fuel` times.
mirrors detectionmodules/statmodules/wkp-module/wmw-test.cpp:354-461 -/
def Merge.loop (nSum : UInt32) : Nat → Merge → Merge
  | 0, m => m
  | fuel + 1, m =>
    if m.i ≤ nSum then
      let m := (m.assign).finish nSum
      loop nSum fuel { m with i := m.i + 1 }
    else m

/-- The sums of `wmw_test`. -/
def wmwMerge (sample1 sample2 : List Int64) : Merge :=
  let n1 := UInt32.ofNat sample1.length
  let n2 := UInt32.ofNat sample2.length
  let start : Merge :=
    { i := 1, it1 := sample1.insertionSort (· ≤ ·), it2 := sample2.insertionSort (· ≤ ·),
      rs1 := 0, rs2 := 0,
      tc := 0, ranks := [] }
  start.loop (n1 + n2) (sample1.length + sample2.length)

/-- How far the rank sum of the second sample is from what one expects.
mirrors detectionmodules/statmodules/wkp-module/wmw-test.cpp:475-485 -/
def deviation (sample1 sample2 : List Int64) : ℚ :=
  let n1 := UInt32.ofNat sample1.length
  let n2 := UInt32.ofNat sample2.length
  let nSum := n1 + n2
  (wmwMerge sample1 sample2).rs2 - (n2 * (nSum + 1)).toNat / 2

/-- The square of `sigma`.
mirrors detectionmodules/statmodules/wkp-module/wmw-test.cpp:494 -/
def sigmaSquared (sample1 sample2 : List Int64) : ℚ :=
  let n1 := UInt32.ofNat sample1.length
  let n2 := UInt32.ofNat sample2.length
  let nSum := n1 + n2
  ((n1 * n2 * (nSum + 1)).toNat : ℚ) / 12 -
    (wmwMerge sample1 sample2).tc / (12 * nSum * (nSum - 1)).toNat

/-- The p-value, with the square root and the two tails of the normal distribution.
mirrors detectionmodules/statmodules/wkp-module/wmw-test.cpp:309-511 -/
def wmwTest (sqrt : ℚ → ℚ) (gslCdfGaussianQ gslCdfGaussianP : ℚ → ℚ → ℚ)
    (sample1 sample2 : List Int64) (twosided : Bool) : ℚ :=
  let d := deviation sample1 sample2
  let sigma := sqrt (sigmaSquared sample1 sample2)
  if twosided then if 0 ≤ d then 2 * gslCdfGaussianQ d sigma else 2 * gslCdfGaussianP d sigma
  else gslCdfGaussianQ d sigma

/-! ## What the merge keeps -/

theorem toNat_ofNat {n : Nat} (h : n < 2 ^ 32) : (UInt32.ofNat n).toNat = n :=
    UInt32.toNat_ofNat_of_lt' h

theorem cube_sub (t : Nat) :
    UInt32.ofNat t * UInt32.ofNat t * UInt32.ofNat t - UInt32.ofNat t = .ofNat (t ^ 3 - t) := by
  rw [UInt32.ofNat_sub (Nat.le_self_pow (by decide) t), pow_succ, pow_two, UInt32.ofNat_mul,
    UInt32.ofNat_mul]

theorem copies_replicate (x : Int64) {rest : List Int64} (hrest : ∀ y ∈ rest, x < y) (k : Nat) :
    ∀ (tieRs ties i : Nat) (ranks : List UInt32),
      copies x (.ofNat tieRs) (.ofNat ties) (.ofNat i) ranks (x :: (List.replicate k x ++ rest)) =
        { tieRs := .ofNat (tieRs + (List.range' i (k + 1)).sum)
          ties := .ofNat (ties + (k + 1))
          i := .ofNat (i + (k + 1))
          it := rest
          ranks := ranks ++ (List.range' i (k + 1)).map .ofNat } := by
  have hhead : rest.head? ≠ some x := fun h => lt_irrefl x (hrest x (List.mem_of_mem_head? h))
  induction k with
  | zero =>
    intro tieRs ties i ranks
    simp [copies, hhead, UInt32.ofNat_add]
  | succ k ih =>
    intro tieRs ties i ranks
    have hone : ∀ n : Nat, UInt32.ofNat n + 1 = .ofNat (n + 1) :=
      fun n => by simp [UInt32.ofNat_add]
    rw [copies, List.replicate_succ, List.cons_append, List.head?_cons, if_pos rfl,
      ← UInt32.ofNat_add, hone,
      hone, ih]
    rw [List.range'_succ (n := k + 1)]
    simp only [List.sum_cons, List.map_cons, List.append_assoc, List.singleton_append]
    congr 2 <;> omega

/-- The loop over the second sample goes on where that over the first one stops. -/
theorem copies_both (x : Int64) {rest₁ rest₂ : List Int64} (h₁ : ∀ y ∈ rest₁, x < y)
    (h₂ : ∀ y ∈ rest₂, x < y) (j k i : Nat) (ranks : List UInt32) :
    let in1 := copies x 0 0 (.ofNat i) ranks (x :: (List.replicate j x ++ rest₁))
    in1.ties = .ofNat (j + 1) ∧ in1.it = rest₁ ∧
      copies x in1.tieRs 0 in1.i in1.ranks (x :: (List.replicate k x ++ rest₂)) =
        { tieRs := .ofNat (List.range' i (j + 1 + (k + 1))).sum
          ties := .ofNat (k + 1)
          i := .ofNat (i + (j + 1 + (k + 1)))
          it := rest₂
          ranks := ranks ++ (List.range' i (j + 1 + (k + 1))).map .ofNat } := by
  have hin₁ := copies_replicate x h₁ j 0 0 i ranks
  have hin₂ := copies_replicate x h₂ k (List.range' i (j + 1)).sum 0 (i + (j + 1))
    (ranks ++ (List.range' i (j + 1)).map .ofNat)
  have hzero : UInt32.ofNat 0 = 0 := rfl
  simp only [hzero, Nat.zero_add] at hin₁ hin₂
  intro in1
  refine ⟨congrArg Copies.ties hin₁, congrArg Copies.it hin₁, ?_⟩
  rw [show in1 = _ from hin₁]
  dsimp only
  rw [hin₂, ← List.range'_append_1 (s := i) (m := j + 1) (n := k + 1), List.sum_append,
    List.map_append, List.append_assoc, Nat.add_assoc i]

theorem remaining_eq (nSum : Nat) (hsum : nSum + 1 < 2 ^ 32) (it : List Int64) :
    ∀ (i : Nat) (rs : ℚ) (ranks : List UInt32), i + it.length = nSum + 1 →
      remaining (.ofNat nSum) (.ofNat i) rs ranks it =
        (.ofNat (nSum + 1), [], rs + (List.range' i it.length).sum,
          ranks ++ (List.range' i it.length).map .ofNat) := by
  induction it with
  | nil =>
    intro i rs ranks hi
    rw [List.length_nil, Nat.add_zero] at hi
    simp [remaining, hi]
  | cons x it ih =>
    intro i rs ranks hi
    rw [List.length_cons] at hi
    have hle : UInt32.ofNat i ≤ .ofNat nSum := by
      rw [UInt32.le_iff_toNat_le, toNat_ofNat (by omega), toNat_ofNat (by omega)]
      omega
    have hone : UInt32.ofNat i + 1 = .ofNat (i + 1) := by simp [UInt32.ofNat_add]
    rw [remaining, if_pos hle, hone, ih (i + 1) _ _ (by omega),
      toNat_ofNat (by omega), List.length_cons, List.range'_succ]
    simp [add_assoc]

theorem size_lt {n : Nat} (h : n * (n + 1) / 2 < 2 ^ 32) : n + 2 < 2 ^ 32 := by
  by_contra hle
  have hmul : (2 ^ 32 - 2) * 3 ≤ n * (n + 1) := Nat.mul_le_mul (by omega) (by omega)
  omega

/-- The state after `p₁` and `p₂` have been read of the sorted samples. -/
structure Ranked (s₁ s₂ p₁ p₂ : List Int64) (m : Merge) : Prop where
  split₁ : s₁ = p₁ ++ m.it1
  split₂ : s₂ = p₂ ++ m.it2
  below₁ : ∀ x ∈ p₁, ∀ y ∈ m.it2, x < y
  below₂ : ∀ y ∈ p₂, ∀ x ∈ m.it1, y < x
  rs1 : m.rs1 = triangle p₁.length + wins p₁ s₂
  rs2 : m.rs2 = triangle p₂.length + wins p₂ s₁
  tc : m.tc = ∑ x ∈ p₁.toFinset ∩ p₂.toFinset, ((UInt32.ofNat (tieTerm (s₁ ++ s₂) x)).toNat : ℚ)
  i : m.i = .ofNat (p₁.length + p₂.length + 1)
  ranks : m.ranks = (List.range' 1 (p₁.length + p₂.length)).map .ofNat

/-- The merge with the samples in the other order. -/
def Merge.swap (m : Merge) : Merge :=
  { m with it1 := m.it2, it2 := m.it1, rs1 := m.rs2, rs2 := m.rs1 }

namespace Ranked

variable {s₁ s₂ p₁ p₂ : List Int64} {m : Merge}

theorem swap (h : Ranked s₁ s₂ p₁ p₂ m) : Ranked s₂ s₁ p₂ p₁ m.swap where
  split₁ := h.split₂
  split₂ := h.split₁
  below₁ := h.below₂
  below₂ := h.below₁
  rs1 := h.rs2
  rs2 := h.rs1
  tc := by
    have hterm : ∀ x, tieTerm (s₂ ++ s₁) x = tieTerm (s₁ ++ s₂) x := fun x => by
      rw [tieTerm, tieTerm, List.perm_append_comm.count_eq]
    simp only [Merge.swap, hterm, h.tc, Finset.inter_comm p₂.toFinset]
  i := by rw [Nat.add_comm p₂.length]; exact h.i
  ranks := by rw [Nat.add_comm p₂.length]; exact h.ranks

/-- The next ranks go to values of the first sample that are below the second one's. -/
theorem block (h : Ranked s₁ s₂ p₁ p₂ m) {b rest : List Int64} (hb : m.it1 = b ++ rest)
    (hlt : ∀ x ∈ b, ∀ y ∈ m.it2, x < y) :
    Ranked s₁ s₂ (p₁ ++ b) p₂
      { m with
          i := .ofNat (p₁.length + p₂.length + 1 + b.length)
          it1 := rest
          rs1 := m.rs1 + (List.range' (p₁.length + p₂.length + 1) b.length).sum
          ranks := m.ranks ++ (List.range' (p₁.length + p₂.length + 1) b.length).map .ofNat } where
  split₁ := by rw [h.split₁, hb, List.append_assoc]
  split₂ := h.split₂
  below₁ := fun x hx => (List.mem_append.mp hx).elim (h.below₁ x) (hlt x)
  below₂ := fun y hy x hx => h.below₂ y hy x (hb ▸ List.mem_append_right b hx)
  rs1 := by
    have hwins : wins b s₂ = b.length * p₂.length := by
      rw [h.split₂, wins_append_right, wins_of_lt hlt, wins_of_gt fun x hx y hy =>
        h.below₂ y hy x (hb ▸ List.mem_append_left rest hx), add_zero]
    rw [sum_range', List.length_append, triangle_append, wins_append_left, hwins, h.rs1]
    push_cast
    ring
  rs2 := h.rs2
  tc := by
    have hdisj : ∀ x ∈ b, x ∉ p₂ := fun x hx hp =>
      lt_irrefl x (h.below₂ x hp x (hb ▸ List.mem_append_left rest hx))
    have hinter : (p₁ ++ b).toFinset ∩ p₂.toFinset = p₁.toFinset ∩ p₂.toFinset := by
      ext x
      simp only [Finset.mem_inter, List.mem_toFinset, List.mem_append]
      exact ⟨fun ⟨hx, hp⟩ => ⟨hx.resolve_right fun hx => hdisj x hx hp, hp⟩,
        fun ⟨hx, hp⟩ => ⟨.inl hx, hp⟩⟩
    rw [hinter]
    exact h.tc
  i := by simp only [List.length_append]; congr 1; omega
  ranks := by
    have hlen : (p₁ ++ b).length + p₂.length = p₁.length + p₂.length + b.length := by
      rw [List.length_append]; omega
    rw [hlen, ← List.range'_append_1, List.map_append, h.ranks, Nat.add_comm 1]

/-- What the tied copies add to the first sum. -/
theorem rs1_tied (h : Ranked s₁ s₂ p₁ p₂ m) {j k : Nat} {x : Int64} {rest₁ rest₂ : List Int64}
    (hj : 0 < j)
    (h₁ : m.it1 = List.replicate j x ++ rest₁) (h₂ : m.it2 = List.replicate k x ++ rest₂)
    (hlt : ∀ y ∈ rest₂, x < y) :
    m.rs1 + j * ((List.range' (p₁.length + p₂.length + 1) (j + k)).sum / (j + k : Nat)) =
      triangle (p₁ ++ List.replicate j x).length + wins (p₁ ++ List.replicate j x) s₂ := by
  have hpast : wins (List.replicate j x) p₂ = j * p₂.length := by
    rw [wins_of_gt, List.length_replicate]
    exact fun y hy z hz => h.below₂ z hz y (h₁ ▸ List.mem_append_left rest₁ hy)
  have hrest : wins (List.replicate j x) rest₂ = 0 :=
    wins_of_lt fun y hy z hz => List.eq_of_mem_replicate hy ▸ hlt z hz
  have hwins : wins (List.replicate j x) s₂ = j * p₂.length + j * k / 2 := by
    rw [h.split₂, h₂, wins_append_right, wins_append_right, hpast, hrest, wins_replicate, add_zero]
  have hpos : (j : ℚ) + k ≠ 0 := by positivity
  rw [sum_range', List.length_append, List.length_replicate, triangle_append, wins_append_left,
    hwins, h.rs1]
  simp only [triangle, Nat.cast_add, Nat.cast_one]
  field_simp
  ring

/-- The next ranks go to all copies of a value that both samples come to. -/
theorem tied (h : Ranked s₁ s₂ p₁ p₂ m) {j k : Nat} {x : Int64} {rest₁ rest₂ : List Int64}
    (hj : 0 < j) (hk : 0 < k) (h₁ : m.it1 = List.replicate j x ++ rest₁)
    (h₂ : m.it2 = List.replicate k x ++ rest₂)
    (hlt₁ : ∀ y ∈ rest₁, x < y) (hlt₂ : ∀ y ∈ rest₂, x < y) :
    let ranks := List.range' (p₁.length + p₂.length + 1) (j + k)
    Ranked s₁ s₂ (p₁ ++ List.replicate j x) (p₂ ++ List.replicate k x)
      { i := .ofNat (p₁.length + p₂.length + 1 + (j + k))
        it1 := rest₁
        it2 := rest₂
        rs1 := m.rs1 + j * (ranks.sum / (j + k : Nat))
        rs2 := m.rs2 + k * (ranks.sum / (j + k : Nat))
        tc := m.tc + (UInt32.ofNat ((j + k) ^ 3 - (j + k))).toNat
        ranks := m.ranks ++ ranks.map .ofNat } where
  split₁ := by rw [h.split₁, h₁, List.append_assoc]
  split₂ := by rw [h.split₂, h₂, List.append_assoc]
  below₁ := fun y hy z hz => by
    rcases List.mem_append.mp hy with hy | hy
    · exact h.below₁ y hy z (h₂ ▸ List.mem_append_right _ hz)
    · exact List.eq_of_mem_replicate hy ▸ hlt₂ z hz
  below₂ := fun y hy z hz => by
    rcases List.mem_append.mp hy with hy | hy
    · exact h.below₂ y hy z (h₁ ▸ List.mem_append_right _ hz)
    · exact List.eq_of_mem_replicate hy ▸ hlt₁ z hz
  rs1 := h.rs1_tied hj h₁ h₂ hlt₂
  rs2 := by
    have hswap := h.swap.rs1_tied hk h₂ h₁ hlt₁
    rwa [Nat.add_comm p₂.length, Nat.add_comm k] at hswap
  tc := by
    have hx₁ : x ∈ m.it1 := h₁ ▸ List.mem_append_left rest₁ (List.mem_replicate.mpr ⟨hj.ne', rfl⟩)
    have hx₂ : x ∈ m.it2 := h₂ ▸ List.mem_append_left rest₂ (List.mem_replicate.mpr ⟨hk.ne', rfl⟩)
    have hp₁ : x ∉ p₁ := fun hp => lt_irrefl x (h.below₁ x hp x hx₂)
    have hp₂ : x ∉ p₂ := fun hp => lt_irrefl x (h.below₂ x hp x hx₁)
    have hcount : (s₁ ++ s₂).count x = j + k := by
      rw [h.split₁, h.split₂, h₁, h₂]
      simp [List.count_eq_zero_of_not_mem hp₁, List.count_eq_zero_of_not_mem hp₂,
        List.count_eq_zero_of_not_mem fun hx => lt_irrefl x (hlt₁ x hx),
        List.count_eq_zero_of_not_mem fun hx => lt_irrefl x (hlt₂ x hx)]
    have hinter : (p₁ ++ List.replicate j x).toFinset ∩ (p₂ ++ List.replicate k x).toFinset =
        insert x (p₁.toFinset ∩ p₂.toFinset) := by
      ext y
      simp only [Finset.mem_inter, List.mem_toFinset, List.mem_append, List.mem_replicate,
        Finset.mem_insert]
      constructor
      · rintro ⟨hy | ⟨_, hy⟩, hy' | ⟨_, hy'⟩⟩
        · exact .inr ⟨hy, hy'⟩
        · exact .inl hy'
        all_goals exact .inl hy
      · rintro (rfl | ⟨hy, hy'⟩)
        · exact ⟨.inr ⟨hj.ne', rfl⟩, .inr ⟨hk.ne', rfl⟩⟩
        · exact ⟨.inl hy, .inl hy'⟩
    show m.tc + _ = _
    rw [hinter, Finset.sum_insert fun hx => hp₁
      (List.mem_toFinset.mp (Finset.mem_inter.mp hx).1), h.tc,
      tieTerm, hcount, add_comm]
  i := by simp only [List.length_append, List.length_replicate]; congr 1; omega
  ranks := by
    have hlen : (p₁ ++ List.replicate j x).length + (p₂ ++ List.replicate k x).length =
        p₁.length + p₂.length + (j + k) := by
      simp only [List.length_append, List.length_replicate]; omega
    show m.ranks ++ _ = _
    rw [hlen, ← List.range'_append_1 (s := 1), List.map_append, h.ranks, Nat.add_comm 1]

/-- The three branches. -/
theorem assign (h : Ranked s₁ s₂ p₁ p₂ m) (hs₁ : s₁.Pairwise (· ≤ ·)) (hs₂ : s₂.Pairwise (· ≤ ·))
    (hsize : (s₁.length + s₂.length) * (s₁.length + s₂.length + 1) / 2 < 2 ^ 32) (h₁ : m.it1 ≠ [])
    (h₂ : m.it2 ≠ []) :
    ∃ q₁ q₂, Ranked s₁ s₂ q₁ q₂ { m.assign with i := m.assign.i + 1 } ∧
      p₁.length + p₂.length < q₁.length + q₂.length := by
  obtain ⟨x, l₁, hx⟩ := List.exists_cons_of_ne_nil h₁
  obtain ⟨y, l₂, hy⟩ := List.exists_cons_of_ne_nil h₂
  have hlen : s₁.length + s₂.length = p₁.length + p₂.length + 1 + (l₁.length + l₂.length + 1) := by
    rw [h.split₁, h.split₂, hx, hy]
    simp only [List.length_append, List.length_cons]
    omega
  have hsorted₁ : (x :: l₁).Pairwise (· ≤ ·) := hx ▸ (List.pairwise_append.mp (h.split₁ ▸ hs₁)).2.1
  have hsorted₂ : (y :: l₂).Pairwise (· ≤ ·) := hy ▸ (List.pairwise_append.mp (h.split₂ ▸ hs₂)).2.1
  have hmod : (p₁.length + p₂.length + 1) % 4294967296 = p₁.length + p₂.length + 1 := by
    have hle := size_lt hsize
    omega
  rcases lt_trichotomy x y with hxy | rfl | hxy
  · have hnext := h.block (b := [x]) hx fun x' hx' y' hy' => by
      rw [List.mem_singleton.mp hx']
      exact hxy.trans_le (le_of_sorted hsorted₂ (hy ▸ hy'))
    refine ⟨p₁ ++ [x], p₂, ?_, ?_⟩
    · convert hnext using 1
      simp [Merge.assign, hx, hy, hxy, hxy.ne, h.i, hmod]
    · simp only [List.length_append, List.length_singleton]
      omega
  · obtain ⟨j, rest₁, rfl, hlt₁⟩ := exists_replicate_append hsorted₁
    obtain ⟨k, rest₂, rfl, hlt₂⟩ := exists_replicate_append hsorted₂
    have hnext := h.tied (Nat.succ_pos j) (Nat.succ_pos k) hx hy hlt₁ hlt₂
    refine ⟨p₁ ++ List.replicate (j + 1) x, p₂ ++ List.replicate (k + 1) x, ?_, ?_⟩
    · have hsum : (List.range' (p₁.length + p₂.length + 1) (j + 1 + (k + 1))).sum < 2 ^ 32 := by
        refine (sum_range'_le (Nat.le_add_left 1 _) ?_).trans_lt hsize
        rw [hlen]
        simp only [List.length_append, List.length_replicate]
        omega
      have hties : (j + 1 + (k + 1)) < 2 ^ 32 := by
        have hle := size_lt hsize
        simp only [List.length_append, List.length_replicate] at hlen
        omega
      obtain ⟨hto, hit, hin⟩ := copies_both x hlt₁ hlt₂ j k (p₁.length + p₂.length + 1) m.ranks
      rw [← h.i] at hto hit hin
      convert hnext using 1
      simp only [Merge.assign, hx, hy, if_true, hto, hit, hin, ← UInt32.ofNat_add]
      have hj : j + 1 < 2 ^ 32 := by omega
      have hk : k + 1 < 2 ^ 32 := by omega
      rw [cube_sub, UInt32.sub_add_cancel, toNat_ofNat hsum, toNat_ofNat hties, toNat_ofNat hj,
        toNat_ofNat hk]
    · simp only [List.length_append, List.length_replicate]
      omega
  · have hnext := (h.swap.block (b := [y]) hy fun y' hy' x' hx' => by
      rw [List.mem_singleton.mp hy']
      exact hxy.trans_le (le_of_sorted hsorted₁ (hx ▸ hx'))).swap
    refine ⟨p₁, p₂ ++ [y], ?_, ?_⟩
    · convert hnext using 1
      simp [Merge.assign, Merge.swap, hx, hy, hxy.not_gt, hxy.ne', h.i, hmod,
        Nat.add_comm p₂.length]
    · simp only [List.length_append, List.length_singleton]
      omega

/-- Once a sample has reached its end, all remaining ranks go to the other one. -/
theorem finish₁ (h : Ranked s₁ s₂ p₁ p₂ { m with i := m.i + 1 })
    (hN : s₁.length + s₂.length + 1 < 2 ^ 32) (h₂ : m.it2 = []) :
    Ranked s₁ s₂ s₁ s₂
      { m with
          i := (remaining (.ofNat (s₁.length + s₂.length)) (m.i + 1) m.rs1 m.ranks m.it1).1
          it1 := (remaining (.ofNat (s₁.length + s₂.length)) (m.i + 1) m.rs1 m.ranks m.it1).2.1
          rs1 := (remaining (.ofNat (s₁.length + s₂.length)) (m.i + 1) m.rs1 m.ranks m.it1).2.2.1
          ranks :=
              (remaining (.ofNat (s₁.length + s₂.length)) (m.i + 1) m.rs1 m.ranks m.it1).2.2.2
                  } := by
  have hs₁ : s₁ = p₁ ++ m.it1 := h.split₁
  obtain rfl : p₂ = s₂ := by rw [h.split₂, h₂, List.append_nil]
  have hlen : p₁.length + p₂.length + 1 + m.it1.length = s₁.length + p₂.length + 1 := by
    rw [hs₁, List.length_append]
    omega
  have hi : m.i + 1 = .ofNat (p₁.length + p₂.length + 1) := h.i
  have hrest := h.block (b := m.it1) (List.append_nil _).symm (by simp [h₂])
  rw [← hs₁, hlen] at hrest
  rw [hi, remaining_eq _ hN m.it1 _ _ _ hlen]
  exact hrest

theorem finish (h : Ranked s₁ s₂ p₁ p₂ { m with i := m.i + 1 })
    (hN : s₁.length + s₂.length + 1 < 2 ^ 32) (hend : m.it1 = [] ∨ m.it2 = []) :
    Ranked s₁ s₂ s₁ s₂ (m.finish (.ofNat (s₁.length + s₂.length))) := by
  by_cases h₁ : m.it1 = []
  · have hswap := (h.swap.finish₁ (m := m.swap) (by omega) h₁).swap
    rw [Nat.add_comm s₂.length] at hswap
    rw [Merge.finish, if_pos h₁]
    exact hswap
  · rw [Merge.finish, if_neg h₁, if_pos (hend.resolve_left h₁)]
    exact h.finish₁ hN (hend.resolve_left h₁)

/-- Where a sample has a value left, not all are read. -/
theorem length_lt (h : Ranked s₁ s₂ p₁ p₂ m) (h₁ : m.it1 ≠ []) :
    p₁.length + p₂.length < s₁.length + s₂.length := by
  have hpos : 0 < m.it1.length := List.length_pos_iff.mpr h₁
  have hl₁ := congrArg List.length h.split₁
  have hl₂ := congrArg List.length h.split₂
  rw [List.length_append] at hl₁ hl₂
  omega

end Ranked

theorem Merge.loop_of_lt {nSum : UInt32} {m : Merge} (h : nSum < m.i) (fuel : Nat) :
    m.loop nSum fuel = m := by
  cases fuel with
  | zero => rfl
  | succ fuel => rw [loop, if_neg (UInt32.not_le.mpr h)]

/-- The loop ends, at the latest when every value has been read. -/
theorem Ranked.loop {s₁ s₂ p₁ p₂ : List Int64} {m : Merge} (h : Ranked s₁ s₂ p₁ p₂ m)
    (hs₁ : s₁.Pairwise (· ≤ ·)) (hs₂ : s₂.Pairwise (· ≤ ·))
    (hsize : (s₁.length + s₂.length) * (s₁.length + s₂.length + 1) / 2 < 2 ^ 32) (h₁ : m.it1 ≠ [])
    (h₂ : m.it2 ≠ []) {fuel : Nat} (hfuel : s₁.length + s₂.length ≤ p₁.length + p₂.length + fuel) :
    ∃ m', Ranked s₁ s₂ s₁ s₂ m' ∧
      m.loop (.ofNat (s₁.length + s₂.length)) fuel =
        { m' with i := .ofNat (s₁.length + s₂.length + 2) } := by
  have hN := size_lt hsize
  induction fuel generalizing p₁ p₂ m with
  | zero =>
    have hread := h.length_lt h₁
    omega
  | succ fuel ih =>
    have hread := h.length_lt h₁
    have hle : m.i ≤ .ofNat (s₁.length + s₂.length) := by
      rw [h.i, UInt32.le_iff_toNat_le, toNat_ofNat (by omega), toNat_ofNat (by omega)]
      omega
    rw [Merge.loop, if_pos hle]
    dsimp only
    obtain ⟨q₁, q₂, hq, hlt⟩ := h.assign hs₁ hs₂ hsize h₁ h₂
    by_cases hend : m.assign.it1 = [] ∨ m.assign.it2 = []
    · have hfinish := hq.finish (by omega) hend
      refine ⟨_, hfinish, ?_⟩
      have hi : (m.assign.finish (.ofNat (s₁.length + s₂.length))).i + 1 =
          .ofNat (s₁.length + s₂.length + 2) := by
        rw [hfinish.i, ← UInt32.ofNat_one, ← UInt32.ofNat_add]
      rw [hi, Merge.loop_of_lt]
      rw [UInt32.lt_iff_toNat_lt, toNat_ofNat (by omega), toNat_ofNat (by omega)]
      omega
    · obtain ⟨hn₁, hn₂⟩ := not_or.mp hend
      rw [Merge.finish, if_neg hn₁, if_neg hn₂]
      exact ih hq hn₁ hn₂ (by omega)

/-! ## The test -/

/-- The terms of the ties that the merge sees, those across the samples. -/
def commonTies (sample1 sample2 : List Int64) : ℚ :=
  ∑ x ∈ sample1.toFinset ∩ sample2.toFinset,
    ((UInt32.ofNat (tieTerm (sample1 ++ sample2) x)).toNat : ℚ)

theorem commonTies_perm {s₁ s₂ t₁ t₂ : List Int64} (h₁ : s₁.Perm t₁) (h₂ : s₂.Perm t₂) :
    commonTies s₁ s₂ = commonTies t₁ t₂ := by
  have hterm : ∀ x, tieTerm (s₁ ++ s₂) x = tieTerm (t₁ ++ t₂) x := fun x => by
    rw [tieTerm, tieTerm, (h₁.append h₂).count_eq]
  simp only [commonTies, hterm, List.toFinset_eq_of_perm _ _ h₁, List.toFinset_eq_of_perm _ _ h₂]

section

variable {sample1 sample2 : List Int64}

/-- What the merge ends with. -/
theorem wmwMerge_ranked (h₁ : sample1 ≠ []) (h₂ : sample2 ≠ [])
    (hsize : (sample1.length + sample2.length) * (sample1.length + sample2.length + 1) /
      2 < 2 ^ 32) :
    let s₁ := sample1.insertionSort (· ≤ ·)
    let s₂ := sample2.insertionSort (· ≤ ·)
    ∃ m, Ranked s₁ s₂ s₁ s₂ m ∧
      wmwMerge sample1 sample2 = { m with i := .ofNat (sample1.length + sample2.length + 2) } := by
  intro s₁ s₂
  have hl₁ : s₁.length = sample1.length := List.length_insertionSort _ _
  have hl₂ : s₂.length = sample2.length := List.length_insertionSort _ _
  have hstart : Ranked s₁ s₂ [] [] ⟨1, s₁, s₂, 0, 0, 0, []⟩ :=
    ⟨rfl, rfl, by simp, by simp, by simp [triangle], by simp [triangle], by simp, rfl, rfl⟩
  have hne₁ : s₁ ≠ [] := List.ne_nil_of_length_pos (hl₁ ▸ List.length_pos_iff.mpr h₁)
  have hne₂ : s₂ ≠ [] := List.ne_nil_of_length_pos (hl₂ ▸ List.length_pos_iff.mpr h₂)
  have hloop := hstart.loop (List.pairwise_insertionSort _ _) (List.pairwise_insertionSort _ _)
    (by rwa [hl₁, hl₂]) hne₁ hne₂ (Nat.le_add_left _ _)
  rwa [hl₁, hl₂, UInt32.ofNat_add] at hloop

/-- The rank sums are those of the midranks in the pooled sample, and every rank is used once. -/
theorem wmw_rank_sums (sample1 sample2 : List Int64) (h₁ : sample1 ≠ []) (h₂ : sample2 ≠ [])
    (hsize : (sample1.length + sample2.length) * (sample1.length + sample2.length + 1) /
      2 < 2 ^ 32) :
    (wmwMerge sample1 sample2).rs1 = rankSum (sample1 ++ sample2) sample1 ∧
      (wmwMerge sample1 sample2).rs2 = rankSum (sample1 ++ sample2) sample2 ∧
      let m := wmwMerge sample1 sample2
      let n := sample1.length + sample2.length
      m.rs1 + m.rs2 = (n : ℚ) * (n + 1) / 2 ∧
        m.ranks.map UInt32.toNat = List.range' 1 n ∧
        m.it1 = [] ∧ m.it2 = [] ∧ n < m.i.toNat := by
  obtain ⟨m', h, hm⟩ := wmwMerge_ranked h₁ h₂ hsize
  have hp₁ := List.perm_insertionSort (· ≤ ·) sample1
  have hp₂ := List.perm_insertionSort (· ≤ ·) sample2
  have hlen : (sample1.insertionSort (· ≤ ·)).length + (sample2.insertionSort (· ≤ ·)).length =
      sample1.length + sample2.length := by
    rw [List.length_insertionSort, List.length_insertionSort]
  have hrs1 : (wmwMerge sample1 sample2).rs1 = rankSum (sample1 ++ sample2) sample1 := by
    rw [hm, ← rankSum_perm (hp₁.append hp₂) hp₁, rankSum_append]
    exact h.rs1
  have hrs2 : (wmwMerge sample1 sample2).rs2 = rankSum (sample1 ++ sample2) sample2 := by
    rw [hm, ← rankSum_perm (hp₁.append hp₂) hp₂, rankSum_append']
    exact h.rs2
  have hranks : (wmwMerge sample1 sample2).ranks =
      (List.range' 1 (sample1.length + sample2.length)).map .ofNat := by
    rw [hm, ← hlen]
    exact h.ranks
  have hend₁ : m'.it1 = [] := List.append_right_eq_self.mp h.split₁.symm
  have hend₂ : m'.it2 = [] := List.append_right_eq_self.mp h.split₂.symm
  have hN := size_lt hsize
  refine ⟨hrs1, hrs2, ?_, ?_, ?_, ?_, ?_⟩
  · rw [hrs1, hrs2, rankSum_add]
    rfl
  · rw [hranks, List.map_map, List.map_congr_left, List.map_id]
    intro r hr
    have hr := List.mem_range'_1.mp hr
    exact toNat_ofNat (by omega)
  · rw [hm]
    exact hend₁
  · rw [hm]
    exact hend₂
  · rw [hm, toNat_ofNat hN]
    omega

/-- The samples of the comment at the function, with their four copies of 5. -/
theorem wmw_rank_sums_comment :
    let m := wmwMerge [1, 2, 4, 5, 5, 5, 7] [5, 6]
    m.rs1 + m.rs2 = 45 ∧ m.ranks.map UInt32.toNat = [1, 2, 3, 4, 5, 6, 7, 8, 9] := by
  obtain ⟨_, _, hsum, hranks, _⟩ :=
    wmw_rank_sums [1, 2, 4, 5, 5, 5, 7] [5, 6] (by simp) (by simp) (by simp)
  refine ⟨?_, hranks⟩
  rw [hsum]
  norm_num

/-! ### The variance -/

/-- No product of the counts, and no cube of a tie that is counted, is cut off. -/
structure NoOverflow (sample1 sample2 : List Int64) : Prop where
  product : sample1.length * sample2.length * (sample1.length + sample2.length + 1) < 2 ^ 32
  divisor : 12 * (sample1.length + sample2.length) * (sample1.length + sample2.length - 1) < 2 ^ 32
  ties : ∀ x ∈ sample1, x ∈ sample2 → (sample1 ++ sample2).count x ^ 3 < 2 ^ 32

theorem NoOverflow.size (h : NoOverflow sample1 sample2) (h₁ : sample1 ≠ []) (h₂ : sample2 ≠ []) :
    (sample1.length + sample2.length) * (sample1.length + sample2.length + 1) / 2 < 2 ^ 32 := by
  have hdivisor := h.divisor
  have hpos₁ := List.length_pos_iff.mpr h₁
  have hpos₂ := List.length_pos_iff.mpr h₂
  obtain ⟨k, hk⟩ : ∃ k, sample1.length + sample2.length = k + 2 :=
    ⟨_, (Nat.sub_add_cancel (by omega)).symm⟩
  rw [hk] at hdivisor ⊢
  have hle : (k + 2) * (k + 2 + 1) ≤ 12 * (k + 2) * (k + 2 - 1) * 2 := by
    rw [Nat.add_sub_assoc (by decide)]
    nlinarith
  omega

theorem NoOverflow.commonTies (h : NoOverflow sample1 sample2) :
    commonTies sample1 sample2 =
      (∑ x ∈ sample1.toFinset ∩ sample2.toFinset, tieTerm (sample1 ++ sample2) x : Nat) := by
  rw [Wkp.commonTies, Nat.cast_sum]
  refine Finset.sum_congr rfl fun x hx => ?_
  rw [Finset.mem_inter, List.mem_toFinset, List.mem_toFinset] at hx
  rw [tieTerm, toNat_ofNat ((Nat.sub_le _ _).trans_lt (h.ties x hx.1 hx.2))]

/-- What is normalised with. -/
theorem sigmaSquared_eq (h₁ : sample1 ≠ []) (h₂ : sample2 ≠ []) (h : NoOverflow sample1 sample2) :
    let n : ℚ := sample1.length + sample2.length
    sigmaSquared sample1 sample2 =
      sample1.length * sample2.length * (n + 1) / 12 - commonTies sample1 sample2 /
          (12 * n * (n - 1)) := by
  intro n
  obtain ⟨m', hrun, hm⟩ := wmwMerge_ranked h₁ h₂ (h.size h₁ h₂)
  have htc : (wmwMerge sample1 sample2).tc = Wkp.commonTies sample1 sample2 := by
    rw [hm, ← commonTies_perm (List.perm_insertionSort (· ≤ ·) sample1)
      (List.perm_insertionSort (· ≤ ·) sample2)]
    exact hrun.tc
  have hpos : 1 ≤ sample1.length + sample2.length := by
    have := List.length_pos_iff.mpr h₁
    omega
  have hone : (1 : UInt32) = .ofNat 1 := rfl
  have htwelve : (12 : UInt32) = .ofNat 12 := rfl
  have hproduct : (UInt32.ofNat sample1.length * .ofNat sample2.length *
      (.ofNat sample1.length + .ofNat sample2.length + 1)).toNat =
        sample1.length * sample2.length * (sample1.length + sample2.length + 1) := by
    rw [hone, ← UInt32.ofNat_add, ← UInt32.ofNat_add, ← UInt32.ofNat_mul, ← UInt32.ofNat_mul,
      toNat_ofNat h.product]
  have hdivisor : (12 * (UInt32.ofNat sample1.length + .ofNat sample2.length) *
      (.ofNat sample1.length + .ofNat sample2.length - 1)).toNat =
        12 * (sample1.length + sample2.length) * (sample1.length + sample2.length - 1) := by
    rw [hone, htwelve, ← UInt32.ofNat_add, ← UInt32.ofNat_sub hpos, ← UInt32.ofNat_mul,
      ← UInt32.ofNat_mul,
      toNat_ofNat h.divisor]
  simp only [sigmaSquared, hproduct, hdivisor, htc]
  push_cast [Nat.cast_sub hpos]
  rfl

/-- The ties within one sample that the other one has none of are not seen. -/
theorem sum_common_le : ∑ x ∈ sample1.toFinset ∩ sample2.toFinset, tieTerm (sample1 ++ sample2) x ≤
    tieSum (sample1 ++ sample2) := by
  refine Finset.sum_le_sum_of_subset fun x hx => ?_
  rw [List.mem_toFinset]
  exact List.mem_append_left _ (List.mem_toFinset.mp (Finset.mem_inter.mp hx).1)

theorem sum_common_singleton (x y : Int64) :
    ∑ z ∈ [x].toFinset ∩ [y].toFinset, tieTerm ([x] ++ [y]) z = tieSum ([x] ++ [y]) := by
  by_cases hxy : x = y
  · simp [tieSum, hxy]
  · have hzero : tieSum ([x] ++ [y]) = 0 := (tieSum_eq_zero _).mpr (by simp [hxy])
    exact Nat.le_antisymm sum_common_le (hzero ▸ Nat.zero_le _)

/-- With any overflow left aside, the variance is the one of all assignments exactly if no two
values are equal, or each sample has one value. -/
theorem variance_iff (sample1 sample2 : List Int64) (h₁ : sample1 ≠ []) (h₂ : sample2 ≠ [])
    (h : NoOverflow sample1 sample2) :
    sigmaSquared sample1 sample2 = permutationVariance sample1 sample2 ↔
      (sample1 ++ sample2).Nodup ∨ sample1.length = 1 ∧ sample2.length = 1 := by
  have hpos₁ := List.length_pos_iff.mpr h₁
  have hpos₂ := List.length_pos_iff.mpr h₂
  have hdivisor :
      (12 : ℚ) * (sample1.length + sample2.length) * (sample1.length + sample2.length - 1) ≠ 0 := by
    have h₁ : (1 : ℚ) ≤ sample1.length := by exact_mod_cast hpos₁
    have h₂ : (1 : ℚ) ≤ sample2.length := by exact_mod_cast hpos₂
    have h₁₂ : (0 : ℚ) < sample1.length + sample2.length - 1 := by linarith
    positivity
  have hterms : sigmaSquared sample1 sample2 = permutationVariance sample1 sample2 ↔
      ∑ x ∈ sample1.toFinset ∩ sample2.toFinset, tieTerm (sample1 ++ sample2) x =
        sample1.length * sample2.length * tieSum (sample1 ++ sample2) := by
    rw [sigmaSquared_eq h₁ h₂ h, permutationVariance, sub_right_inj, div_left_inj' hdivisor,
      h.commonTies]
    exact_mod_cast Iff.rfl
  rw [hterms, ← tieSum_eq_zero]
  have hle : ∑ x ∈ sample1.toFinset ∩ sample2.toFinset, tieTerm (sample1 ++ sample2) x ≤
      tieSum (sample1 ++ sample2) := sum_common_le
  constructor
  · intro heq
    by_contra hne
    obtain ⟨hties, hmany⟩ := not_or.mp hne
    have htwo : 2 ≤ sample1.length * sample2.length := by
      by_contra hlt
      have hone : sample1.length * sample2.length = 1 := by
        have := Nat.mul_pos hpos₁ hpos₂
        omega
      exact hmany ⟨Nat.eq_one_of_mul_eq_one_right hone, Nat.eq_one_of_mul_eq_one_left hone⟩
    have hmul := Nat.mul_le_mul_right (tieSum (sample1 ++ sample2)) htwo
    omega
  · rintro (hzero | ⟨hone₁, hone₂⟩)
    · rw [hzero] at hle ⊢
      omega
    · obtain ⟨x, rfl⟩ := List.length_eq_one_iff.mp hone₁
      obtain ⟨y, rfl⟩ := List.length_eq_one_iff.mp hone₂
      rw [sum_common_singleton, List.length_singleton, List.length_singleton, Nat.mul_one,
        Nat.one_mul]

/-- Without ties it is. -/
theorem variance_iff_distinct : sigmaSquared [1, 2] [3] = permutationVariance [1, 2] [3] :=
  (variance_iff [1, 2] [3] (by simp) (by simp) ⟨by simp, by simp, by simp⟩).mpr (.inl (by simp))

/-- Three equal values have no variance, and the code finds 1/3. -/
theorem variance_tied : sigmaSquared [5] [5, 5] = 1 / 3 ∧
    permutationVariance ([5] : List Int64) [5, 5] = 0 := by
  decide +kernel

end

end Topas.Wkp
