import Mathlib.Algebra.BigOperators.Group.Finset.Basic
import Mathlib.Algebra.BigOperators.Group.List.Basic
import Mathlib.Algebra.Field.Rat
import Mathlib.Algebra.Order.BigOperators.Group.Finset
import Mathlib.Tactic.FieldSimp
import Mathlib.Tactic.Linarith
import Mathlib.Tactic.Positivity
import Mathlib.Tactic.Ring

/-!
# Ranks in a pooled sample

For values of any linear order. Equal values share the mean of the ranks that they take up.

* `rankSum_append`: the rank sum of a sample is what it would be alone, and its wins against the
  other sample.
* `rankSum_add`: the rank sums of two samples are those of all ranks together.
* `tieSum_eq_zero`: the sum over the groups of equal values vanishes if no value occurs twice.
-/
namespace Topas.Ranks

scoped instance instLinearOrderInt64 : LinearOrder Int64 where
  le_refl := Int64.le_refl
  le_trans := fun _ _ _ => Int64.le_trans
  lt_iff_le_not_ge := fun a b => by
    rw [Int64.lt_iff_toInt_lt, Int64.le_iff_toInt_le, Int64.le_iff_toInt_le]
    omega
  le_antisymm := fun _ _ => Int64.le_antisymm
  le_total := Int64.le_total
  toDecidableLE := inferInstance
  toDecidableLT := inferInstance
  toDecidableEq := inferInstance

variable {α : Type} [LinearOrder α]

theorem le_of_sorted {x y : α} {l : List α} (h : (x :: l).Pairwise (· ≤ ·)) (hy : y ∈ x :: l) :
    x ≤ y := by
  rcases List.mem_cons.mp hy with rfl | hy
  · exact le_rfl
  · exact (List.pairwise_cons.mp h).1 y hy

omit [LinearOrder α] in
/-- What two lists have, when each goes on. -/
theorem mem_both {x : α} {p₁ b₁ p₂ b₂ : List α} :
    x ∈ (p₁ ++ b₁) ++ (p₂ ++ b₂) ↔ x ∈ p₁ ++ p₂ ∨ x ∈ b₁ ++ b₂ := by
  simp only [List.mem_append]
  exact or_or_or_comm

/-- A sorted list begins with all copies of its head. -/
theorem exists_replicate_append {x : α} {l : List α} (h : (x :: l).Pairwise (· ≤ ·)) :
    ∃ k rest, l = List.replicate k x ++ rest ∧ ∀ y ∈ rest, x < y := by
  induction l with
  | nil => exact ⟨0, [], rfl, by simp⟩
  | cons y l ih =>
    obtain ⟨hx, hl⟩ := List.pairwise_cons.mp h
    rcases (hx y List.mem_cons_self).lt_or_eq with hxy | rfl
    · refine ⟨0, y :: l, rfl, fun z hz => ?_⟩
      rcases List.mem_cons.mp hz with rfl | hz
      · exact hxy
      · exact hxy.trans_le (le_of_sorted hl (List.mem_cons_of_mem y hz))
    · obtain ⟨k, rest, hrest, hlt⟩ := ih hl
      exact ⟨k + 1, rest, by rw [hrest, List.replicate_succ, List.cons_append], hlt⟩

/-- The ranks of the copies of `x` follow those of the lesser values. -/
def ranksOf (pool : List α) (x : α) : List Nat :=
  List.range' (pool.countP (· < x) + 1) (pool.count x)

/-- The mean of the ranks of `x`. -/
def midrank (pool : List α) (x : α) : ℚ := (ranksOf pool x).sum / (ranksOf pool x).length

def rankSum (pool sample : List α) : ℚ := (sample.map (midrank pool)).sum

/-- The sum of the numbers from 1 to `n`. -/
def triangle (n : Nat) : ℚ := n * (n + 1) / 2

theorem triangle_append (m n : Nat) : triangle (m + n) = triangle m + triangle n + m * n := by
  simp only [triangle, Nat.cast_add]
  ring

theorem sum_range' (i n : Nat) : ((List.range' i n).sum : ℚ) = n * i + triangle n - n := by
  induction n generalizing i with
  | zero => simp [triangle]
  | succ n ih =>
    simp only [List.range'_succ, List.sum_cons, Nat.cast_add, Nat.cast_one, ih, triangle]
    ring

theorem sum_range'_le {i n m : Nat} (hi : 1 ≤ i) (h : i + n ≤ m + 1) :
    (List.range' i n).sum ≤ m * (m + 1) / 2 := by
  obtain ⟨p, rfl⟩ := Nat.exists_eq_add_of_le' hi
  obtain ⟨r, hr⟩ := Nat.exists_eq_add_of_le h
  obtain rfl : m = p + n + r := by omega
  have hle : ((List.range' (p + 1) n).sum : ℚ) ≤ triangle (p + n + r) := by
    have hp : 0 ≤ triangle p := by unfold triangle; positivity
    have hr : 0 ≤ triangle r := by unfold triangle; positivity
    have hprod : (0 : ℚ) ≤ ((p + n : Nat) : ℚ) * r := by positivity
    rw [sum_range', triangle_append, triangle_append]
    push_cast at hprod ⊢
    linarith
  have htwice : (2 : ℚ) * (List.range' (p + 1) n).sum ≤ ((p + n + r) * (p + n + r + 1) : Nat) := by
    rw [triangle] at hle
    push_cast at hle ⊢
    linarith
  have hnat : 2 * (List.range' (p + 1) n).sum ≤ (p + n + r) * (p + n + r + 1) :=
    by exact_mod_cast htwice
  omega

/-! ## Wins -/

/-- A win of `x` over `y`, a tie counting half. -/
def score (x y : α) : ℚ := if y < x then 1 else if y = x then 1 / 2 else 0

def wins (s t : List α) : ℚ := (s.map fun x => (t.map (score x)).sum).sum

@[simp] theorem wins_nil_left (t : List α) : wins [] t = 0 := rfl

@[simp] theorem wins_nil_right (s : List α) : wins s [] = 0 := by simp [wins]

@[simp] theorem wins_append_left (s s' t : List α) : wins (s ++ s') t = wins s t + wins s' t := by
  simp [wins]

@[simp] theorem wins_append_right (s t t' : List α) : wins s (t ++ t') = wins s t + wins s t' := by
  simp [wins, List.sum_map_add]

theorem wins_cons_left (x : α) (s t : List α) : wins (x :: s) t = wins [x] t + wins s t :=
  wins_append_left [x] s t

theorem wins_cons_right (s t : List α) (y : α) : wins s (y :: t) = wins s [y] + wins s t :=
  wins_append_right s [y] t

/-- Every pair is scored once. -/
theorem score_add (x y : α) : score x y + score y x = 1 := by
  rcases lt_trichotomy x y with h | rfl | h
  · simp [score, h, h.not_gt, h.ne']
  · norm_num [score]
  · simp [score, h, h.not_gt, h.ne']

theorem wins_add (s t : List α) : wins s t + wins t s = s.length * t.length := by
  induction s with
  | nil => simp
  | cons x s ih =>
    have hx : wins [x] t + wins t [x] = t.length := by
      clear ih
      induction t with
      | nil => simp
      | cons y t ih =>
        have hxy : wins [x] [y] + wins [y] [x] = 1 := by simpa [wins] using score_add x y
        rw [wins_cons_right, wins_cons_left y, List.length_cons, Nat.cast_succ]
        linarith
    rw [wins_cons_left, wins_cons_right, List.length_cons, Nat.cast_succ]
    linarith

theorem wins_of_score {s t : List α} {c : ℚ} (h : ∀ x ∈ s, ∀ y ∈ t, score x y = c) :
    wins s t = s.length * t.length * c := by
  have hrow : ∀ x ∈ s, (t.map (score x)).sum = t.length * c := fun x hx => by
    rw [List.map_congr_left (h x hx), List.map_const', List.sum_replicate, nsmul_eq_mul]
  rw [wins, List.map_congr_left hrow, List.map_const', List.sum_replicate, nsmul_eq_mul]
  ring

theorem wins_of_gt {s t : List α} (h : ∀ x ∈ s, ∀ y ∈ t, y < x) :
    wins s t = s.length * t.length := by
  rw [wins_of_score (c := 1) fun x hx y hy => by simp [score, h x hx y hy], mul_one]

theorem wins_of_lt {s t : List α} (h : ∀ x ∈ s, ∀ y ∈ t, x < y) : wins s t = 0 := by
  rw [wins_of_score (c := 0) fun x hx y hy => by
    simp [score, (h x hx y hy).not_gt, (h x hx y hy).ne'], mul_zero]

theorem wins_replicate (m n : Nat) (x : α) :
    wins (List.replicate m x) (List.replicate n x) = m * n / 2 := by
  have hscore : ∀ y ∈ List.replicate m x, ∀ z ∈ List.replicate n x, score y z = 1 / 2 := by
    intro y hy z hz
    rw [List.eq_of_mem_replicate hy, List.eq_of_mem_replicate hz]
    norm_num [score]
  rw [wins_of_score hscore, List.length_replicate, List.length_replicate]
  ring

/-! ## Rank sums -/

/-- A midrank counts the values that `x` wins against, and itself by half. -/
theorem midrank_eq {pool : List α} {x : α} (h : x ∈ pool) :
    midrank pool x = wins [x] pool + 1 / 2 := by
  have hpos : (pool.count x : ℚ) ≠ 0 := Nat.cast_ne_zero.mpr (List.count_pos_iff.mpr h).ne'
  have hwins : ∀ l : List α, wins [x] l = l.countP (· < x) + l.count x / 2 := by
    intro l
    induction l with
    | nil => simp
    | cons y l ih =>
      rw [wins_cons_right, ih]
      rcases lt_trichotomy x y with hxy | rfl | hxy
      · simp [wins, score, hxy.not_gt, hxy.ne']
      · simp only [wins, score, List.map_cons, List.map_nil, List.sum_cons, List.sum_nil,
          lt_self_iff_false,
          if_false, if_true, List.countP_cons, decide_false, Bool.false_eq_true,
            List.count_cons_self]
        push_cast
        ring
      · simp [wins, score, hxy, hxy.ne]
        ring
  rw [hwins, midrank, ranksOf, sum_range', List.length_range']
  simp only [triangle, Nat.cast_add, Nat.cast_one]
  field_simp
  ring

theorem rankSum_eq {pool sample : List α} (h : sample ⊆ pool) :
    rankSum pool sample = wins sample pool + sample.length / 2 := by
  induction sample with
  | nil => simp [rankSum]
  | cons x sample ih =>
    have hrest := ih fun y hy => h (List.mem_cons_of_mem x hy)
    rw [rankSum] at hrest ⊢
    rw [List.map_cons, List.sum_cons, hrest, midrank_eq (h List.mem_cons_self),
      wins_cons_left x sample, List.length_cons, Nat.cast_succ]
    ring

theorem rankSum_append (s t : List α) : rankSum (s ++ t) s = triangle s.length + wins s t := by
  have hself := wins_add s s
  rw [rankSum_eq (List.subset_append_left s t), wins_append_right, triangle]
  linarith

theorem rankSum_append' (s t : List α) : rankSum (s ++ t) t = triangle t.length + wins t s := by
  have hself := wins_add t t
  rw [rankSum_eq (List.subset_append_right s t), wins_append_right, triangle]
  linarith

theorem rankSum_add (s t : List α) :
    rankSum (s ++ t) s + rankSum (s ++ t) t = triangle (s.length + t.length) := by
  have hwins := wins_add s t
  rw [rankSum_append, rankSum_append', triangle_append]
  linarith

theorem ranksOf_perm {pool pool' : List α} (h : pool.Perm pool') :
    ranksOf pool = ranksOf pool' := by
  funext x
  rw [ranksOf, ranksOf, h.countP_eq, h.count_eq]

theorem rankSum_perm {pool pool' sample sample' : List α} (hpool : pool.Perm pool')
    (h : sample.Perm sample') : rankSum pool sample = rankSum pool' sample' := by
  have hmid : midrank pool = midrank pool' := by
    funext x
    rw [midrank, midrank, ranksOf_perm hpool]
  rw [rankSum, rankSum, hmid]
  exact (h.map _).sum_eq

/-! ## Ties -/

/-- `t ^ 3 - t` of a group of `t` equal values. -/
def tieTerm (pool : List α) (x : α) : Nat := pool.count x ^ 3 - pool.count x

def tieSum (pool : List α) : Nat := ∑ x ∈ pool.toFinset, tieTerm pool x

/-- The variance of a rank sum under all assignments of the pooled values to the two samples. -/
def permutationVariance (s t : List α) : ℚ :=
  let n : ℚ := s.length + t.length
  s.length * t.length * (n + 1) / 12 - s.length * t.length * tieSum (s ++ t) / (12 * n * (n - 1))

theorem tieTerm_eq_zero {pool : List α} {x : α} (h : x ∈ pool) :
    tieTerm pool x = 0 ↔ pool.count x = 1 := by
  have hpos : 0 < pool.count x := List.count_pos_iff.mpr h
  rw [tieTerm]
  generalize pool.count x = t at hpos
  constructor
  · intro h0
    by_contra hne
    have hlt : t ^ 1 < t ^ 3 := Nat.pow_lt_pow_right (by omega) (by omega)
    rw [pow_one] at hlt
    omega
  · rintro rfl
    rfl

theorem tieSum_eq_zero (pool : List α) : tieSum pool = 0 ↔ pool.Nodup := by
  rw [tieSum, Finset.sum_eq_zero_iff, List.nodup_iff_count_eq_one]
  exact forall_congr' fun x => by
    rw [List.mem_toFinset]
    exact forall_congr' fun hx => tieTerm_eq_zero hx

end Topas.Ranks
