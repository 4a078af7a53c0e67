import Mathlib.Algebra.BigOperators.Fin
import Mathlib.Data.Matrix.Mul
import Mathlib.Data.Nat.Factorial.BigOperators
import Mathlib.Data.Nat.Log
import Mathlib.Data.Rat.Floor
import Topas.Core.Grid
import Topas.L7Stat.KsTest

/-!
# Kolmogorov's distribution

`K(n, d)` is the entry in the middle of the `n`-th power of a matrix, times `n! / n^n`. `mPower`
takes the power by squaring, and keeps a power of ten beside the matrix that takes over when its
entries become large; so does the loop for the factor when it becomes small. With exact numbers for
`double`:

* `mPower_eq`: matrix and exponent together are the power, for every exponent but 0, on which the
  recursion does not end.
* `K_eq`: `K` is the entry of the power times the factor, whatever the rescaling has done.
* `K_line`: for distances below `1 / n` it is the line's power that is known for them.
* `K_ends_iff`: it ends for every `n` but 0.
* `ksTest_eq`: so the p-value of a test of two samples, at the number that it approximates their
  sizes by.

The approximation of the tail, with `exp` and `sqrt`, is a parameter.
-/
namespace Topas.Wkp.Kolmogorov

open scoped Matrix

variable {m : ℕ}

/-- A `double*` to `m * m` entries. -/
abbrev Square (m : ℕ) := Fin m → Fin m → ℚ

/-- `C` is what the array holds before.
mirrors detectionmodules/statmodules/wkp-module/ks-test.cpp:245-250 -/
def mMultiply (A B C : Square m) : Square m :=
  (Grid.square m).foldl
    (fun C p => Grid.set C p.1 p.2 ((List.finRange m).foldl (fun s k => s + A p.1 k * B k p.2) 0)) C

/-- The entry that is watched. -/
def middle (m : ℕ) [NeZero m] : Fin m := ⟨m / 2, Nat.div_lt_self (NeZero.pos m) (by decide)⟩

/-- mirrors detectionmodules/statmodules/wkp-module/ks-test.cpp:261 -/
def rescale [NeZero m] (V : Square m) (eV : ℤ) : Square m × ℤ :=
  if 10 ^ 140 < V (middle m) (middle m) then
    (fun i j => V i j * 10 ^ (-140 : ℤ), eV + 140) else (V, eV)

/-- What a call does with the power for `n / 2`; `fresh` is what `malloc` leaves in `B`.
mirrors detectionmodules/statmodules/wkp-module/ks-test.cpp:257-261 -/
def powerStep [NeZero m] (fresh A : Square m) (eA : ℤ) (n : ℕ) (Q : Square m × ℤ) : Square m × ℤ :=
  let B := mMultiply Q.1 Q.1 fresh
  let eB := 2 * Q.2
  if n % 2 = 0 then rescale B eB else rescale (mMultiply A B Q.1) (eA + eB)

/-- At most `fuel` calls.
mirrors detectionmodules/statmodules/wkp-module/ks-test.cpp:252-263 -/
def mPower [NeZero m] (fresh A : Square m) (eA : ℤ) : ℕ → ℕ → Option (Square m × ℤ)
  | 0, _ => none
  | fuel + 1, n =>
    if n = 1 then some (A, eA) else (mPower fresh A eA fuel (n / 2)).map (powerStep fresh A eA n)

/-- The last row. -/
def last (m : ℕ) [NeZero m] : Fin m := ⟨m - 1, Nat.sub_lt (NeZero.pos m) (by decide)⟩

/-- The loop over the first column and the last row.
mirrors detectionmodules/statmodules/wkp-module/ks-test.cpp:276 -/
def subtractPowers [NeZero m] (h : ℚ) (H : Square m) (i : Fin m) : Square m :=
  let H := Grid.set H i 0 (H i 0 - h ^ (i.val + 1))
  Grid.set H (last m) i (H (last m) i - h ^ (m - i))

/-- An entry is divided where `i - j + 1` is positive.
mirrors detectionmodules/statmodules/wkp-module/ks-test.cpp:274-279 -/
def hMatrix [NeZero m] (fresh : Square m) (h : ℚ) : Square m :=
  let H :=
    (Grid.square m).foldl
      (fun H p => Grid.set H p.1 p.2 (if (p.1 : ℤ) - p.2 + 1 < 0 then 0 else 1)) fresh
  let H := (List.finRange m).foldl (subtractPowers h) H
  let H := Grid.set H (last m) 0 (H (last m) 0 + if 0 < 2 * h - 1 then (2 * h - 1) ^ m else 0)
  (Grid.square m).foldl (fun H p =>
    let divisors := List.range ((p.1 : ℤ) - p.2 + 1).toNat
    Grid.set H p.1 p.2 (divisors.foldl (fun (x : ℚ) (g : ℕ) => x / (g + 1)) (H p.1 p.2))) H

/-- One round of the loop for `n! / n^n`.
mirrors detectionmodules/statmodules/wkp-module/ks-test.cpp:282 -/
def scaleDown (n : ℕ) (s : ℚ × ℤ) (i : ℕ) : ℚ × ℤ :=
  let x := s.1 * (i + 1 : ℕ) / n
  if x < 10 ^ (-140 : ℤ) then (x * 10 ^ 140, s.2 - 140) else (x, s.2)

/-- `tail n s` is `2*exp(-(2.000071+.331/sqrt((double) n)+1.409/n)*s)`, and `fresh` what `malloc`
leaves in the arrays; `d` is not negative.
mirrors detectionmodules/statmodules/wkp-module/ks-test.cpp:265-284 -/
def K (tail : ℕ → ℚ → ℚ) (fresh : (m : ℕ) → Square m) (fuel n : ℕ) (d : ℚ) : Option ℚ :=
  let s := d * d * n
  if 7.24 < s ∨ 3.76 < s ∧ 99 < n then some (1 - tail n s)
  else do
    let k := ⌊n * d⌋₊ + 1
    let h := k - n * d
    let (Q, eQ) ← mPower (m := 2 * ⌊n * d⌋₊ + 1) (fresh _) (hMatrix (fresh _) h) 0 fuel n
    let s := (List.range n).foldl (scaleDown n) (Q (middle _) (middle _), eQ)
    some (s.1 * 10 ^ s.2)

/-! ## The power -/

theorem foldl_add {ι : Type} (f : ι → ℚ) (L : List ι) (s : ℚ) :
    L.foldl (fun s k => s + f k) s = s + (L.map f).sum := by
  induction L generalizing s with
  | nil => simp
  | cons k L ih => rw [List.foldl_cons, ih, List.map_cons, List.sum_cons, add_assoc]

theorem mMultiply_eq (A B C : Square m) :
    Matrix.of (mMultiply A B C) = Matrix.of A * Matrix.of B := by
  ext i j
  have hset :=
    Grid.foldl_set (fun i j _ => (List.finRange m).foldl (fun s k => s + A i k * B k j) 0)
    (Grid.nodup_square m) C i j
  rw [if_pos (Grid.mem_square _), foldl_add, zero_add] at hset
  rw [Matrix.of_apply, mMultiply, hset, Matrix.mul_apply, Fin.sum_univ_def]
  rfl

/-- What a matrix and its exponent stand for. -/
def scaled (Q : Square m × ℤ) : Matrix (Fin m) (Fin m) ℚ := (10 : ℚ) ^ Q.2 • Matrix.of Q.1

theorem scaled_rescale [NeZero m] (V : Square m) (eV : ℤ) :
    scaled (rescale V eV) = scaled (V, eV) := by
  unfold rescale
  split
  · ext i j
    simp only [scaled, Matrix.smul_apply, Matrix.of_apply, smul_eq_mul]
    rw [zpow_add₀ (by norm_num), zpow_neg, zpow_ofNat]
    field_simp
  · rfl

theorem scaled_square (V B : Square m) (eV : ℤ) (h : Matrix.of B = Matrix.of V * Matrix.of V) :
    scaled (B, 2 * eV) = scaled (V, eV) ^ 2 := by
  rw [scaled, scaled, smul_pow, h, pow_two (Matrix.of V), two_mul, zpow_add₀ (by norm_num), pow_two]

theorem scaled_mul (A B V : Square m) (eA eB : ℤ) (h : Matrix.of V = Matrix.of A * Matrix.of B) :
    scaled (V, eA + eB) = scaled (A, eA) * scaled (B, eB) := by
  rw [scaled, scaled, scaled, h, smul_mul_smul_comm, zpow_add₀ (by norm_num)]

theorem scaled_powerStep [NeZero m] (fresh A : Square m) (eA : ℤ) (n : ℕ) {Q : Square m × ℤ}
    (hQ : scaled Q = scaled (A, eA) ^ (n / 2)) :
      scaled (powerStep fresh A eA n Q) = scaled (A, eA) ^ n := by
  have hB : scaled (mMultiply Q.1 Q.1 fresh, 2 * Q.2) = scaled (A, eA) ^ (2 * (n / 2)) := by
    rw [scaled_square _ _ _ (mMultiply_eq Q.1 Q.1 fresh), hQ, ← pow_mul, mul_comm]
  unfold powerStep
  by_cases heven : n % 2 = 0
  · rw [if_pos heven, scaled_rescale, hB]
    congr 1
    omega
  · rw [if_neg heven, scaled_rescale, scaled_mul _ _ _ _ _ (mMultiply_eq A _ Q.1), hB, ← pow_succ']
    congr 1
    omega

/-- The recursion does not end on 0. -/
theorem mPower_zero [NeZero m] (fresh A : Square m) (eA : ℤ) (fuel : ℕ) :
    mPower fresh A eA fuel 0 = none := by
  induction fuel with
  | zero => rfl
  | succ fuel ih =>
    rw [mPower, if_neg (by decide), Nat.zero_div, ih]
    rfl

/-- For every other exponent it gives the power, in as many calls as the exponent has binary digits.
-/
theorem mPower_eq [NeZero m] (fresh A : Square m) (eA : ℤ) {n fuel : ℕ} (hn : n ≠ 0)
    (hfuel : Nat.log 2 n < fuel) :
    ∃ Q, mPower fresh A eA fuel n = some Q ∧ scaled Q = scaled (A, eA) ^ n := by
  induction fuel generalizing n with
  | zero => cases hfuel
  | succ fuel ih =>
    rw [mPower]
    by_cases h1 : n = 1
    · rw [if_pos h1, h1]
      exact ⟨_, rfl, (pow_one _).symm⟩
    · have hlog : Nat.log 2 (n / 2) < fuel := by
        rw [Nat.log_div_base]
        have := Nat.log_pos (b := 2) (by decide) (show 2 ≤ n by omega)
        omega
      obtain ⟨Q, hQ, hpow⟩ := ih (by omega) hlog
      rw [if_neg h1, hQ]
      exact ⟨_, rfl, scaled_powerStep fresh A eA n hpow⟩

theorem mPower_eq_five :
    ∃ Q, mPower (m := 2) (fun _ _ => 0) (fun i j => if i = j then 1 else 2) 0 3 5 = some Q ∧
      scaled Q = scaled (fun i j => if i = j then 1 else 2, 0) ^ 5 :=
  mPower_eq _ _ 0 (by decide) (by decide)

/-! ## The matrix -/

/-- The entries of the matrix. -/
def hEntry (m : ℕ) [NeZero m] (h : ℚ) (i j : Fin m) : ℚ :=
  ((if i.val + 1 < j then 0 else 1) - (if j = 0 then h ^ (i.val + 1) else 0)
    - (if i = last m then h ^ (m - j) else 0)
    + if i = last m ∧ j = 0 then (if 0 < 2 * h - 1 then (2 * h - 1) ^ m else 0) else 0) /
      (i + 1 - j : ℕ).factorial

theorem foldl_div (x : ℚ) (n : ℕ) :
    (List.range n).foldl (fun (x : ℚ) (g : ℕ) => x / (g + 1)) x = x / n.factorial := by
  induction n with
  | zero => simp
  | succ n ih =>
    rw [List.range_succ, List.foldl_append, ih, List.foldl_cons, List.foldl_nil,
      Nat.factorial_succ, div_div]
    push_cast
    rw [mul_comm]

theorem subtractPowers_apply [NeZero m] (h : ℚ) (H : Square m) (i a b : Fin m) :
    subtractPowers h H i a b = H a b - (if a = i ∧ b = 0 then h ^ (a.val + 1) else 0)
      - (if a = last m ∧ b = i then h ^ (m - b) else 0) := by
  unfold subtractPowers Grid.set
  by_cases hrow : a = last m ∧ b = i
  · obtain ⟨rfl, rfl⟩ := hrow
    by_cases hcol : last m = b ∧ b = 0
    · simp [hcol]
    · simp [hcol]
  · by_cases hcol : a = i ∧ b = 0
    · obtain ⟨rfl, rfl⟩ := hcol
      simp [hrow]
    · simp [hrow, hcol]

theorem foldl_subtractPowers [NeZero m] (h : ℚ) {L : List (Fin m)} (hL : L.Nodup) (H : Square m)
    (a b : Fin m) :
    L.foldl (subtractPowers h) H a b = H a b - (if a ∈ L ∧ b = 0 then h ^ (a.val + 1) else 0)
      - (if a = last m ∧ b ∈ L then h ^ (m - b) else 0) := by
  induction L generalizing H with
  | nil => simp
  | cons i L ih =>
    obtain ⟨hi, hL⟩ := List.nodup_cons.mp hL
    rw [List.foldl_cons, ih hL, subtractPowers_apply]
    have hcol : (if a ∈ i :: L ∧ b = 0 then h ^ (a.val + 1) else 0) =
        (if a = i ∧ b = 0 then h ^ (a.val + 1) else 0) + if a ∈ L ∧
            b = 0 then h ^ (a.val + 1) else 0 := by
      by_cases ha : a = i
      · simp [ha, hi]
      · simp [ha]
    have hrow : (if a = last m ∧ b ∈ i :: L then h ^ (m - b) else 0) =
        (if a = last m ∧ b = i then h ^ (m - b) else 0) + if a = last m ∧
            b ∈ L then h ^ (m - b) else 0 := by
      by_cases hb : b = i
      · simp [hb, hi]
      · simp [hb]
    rw [hcol, hrow]
    ring

theorem hMatrix_eq [NeZero m] (fresh : Square m) (h : ℚ) (i j : Fin m) :
    hMatrix fresh h i j = hEntry m h i j := by
  have hones := fun H : Square m => Grid.foldl_set
    (fun (i j : Fin m) _ => if (i : ℤ) - j + 1 < 0 then (0 : ℚ) else 1) (Grid.nodup_square m) H i j
  have hdiv := fun H : Square m => Grid.foldl_set (fun (i j : Fin m) x =>
    (List.range ((i : ℤ) - j + 1).toNat).foldl (fun (x : ℚ) (g : ℕ) => x / (g + 1)) x)
      (Grid.nodup_square m) H i j
  simp only [Grid.mem_square, if_true] at hones hdiv
  have hdivisors : ((i : ℤ) - j + 1).toNat = i + 1 - j := by omega
  have hbelow : ((i : ℤ) - j + 1 < 0) ↔ i.val + 1 < j := by omega
  rw [hMatrix, hdiv, foldl_div, hdivisors, hEntry, Grid.set]
  congr 1
  by_cases hcorner : i = last m ∧ j = 0
  · obtain ⟨rfl, rfl⟩ := hcorner
    rw [foldl_subtractPowers h (List.nodup_finRange m), hones]
    simp only [hbelow, List.mem_finRange, and_self, if_true]
  · rw [if_neg hcorner, if_neg hcorner, foldl_subtractPowers h (List.nodup_finRange m),
      hones, add_zero]
    simp only [hbelow, List.mem_finRange, true_and, and_true]

/-! ## The distribution function -/

/-- What a number and its exponent stand for. -/
def worth (s : ℚ × ℤ) : ℚ := s.1 * 10 ^ s.2

theorem worth_scaleDown (n : ℕ) (s : ℚ × ℤ) (i : ℕ) :
    worth (scaleDown n s i) = worth s * ((i + 1 : ℕ) / n) := by
  unfold scaleDown
  simp only
  split
  · simp only [worth]
    rw [zpow_sub₀ (by norm_num), zpow_ofNat]
    field_simp
  · simp only [worth]
    ring

theorem worth_foldl (n : ℕ) (s : ℚ × ℤ) (k : ℕ) :
    worth ((List.range k).foldl (scaleDown n) s) = worth s * (k.factorial / n ^ k) := by
  induction k with
  | zero => simp
  | succ k ih =>
    rw [List.range_succ, List.foldl_append, List.foldl_cons, List.foldl_nil, worth_scaleDown, ih,
      Nat.factorial_succ, pow_succ]
    push_cast
    ring

/-- The tail is not approximated. -/
def Exact (n : ℕ) (d : ℚ) : Prop := ¬ (7.24 < d * d * n ∨ 3.76 < d * d * n ∧ 99 < n)

instance (n : ℕ) (d : ℚ) : Decidable (Exact n d) := inferInstanceAs (Decidable (¬ _))

/-- The entry in the middle of the power of the matrix for `k = j + 1`. -/
def middlePower (j : ℕ) (h : ℚ) (n : ℕ) : ℚ :=
  (Matrix.of (hEntry (2 * j + 1) h) ^ n) (middle _) (middle _)

/-- `K` is the entry in the middle of the power, times `n! / n^n`; no rescaling is left in it, and
nothing of what the arrays held before. -/
theorem K_eq (tail : ℕ → ℚ → ℚ) (fresh : (m : ℕ) → Square m) {n fuel : ℕ} {d : ℚ} (hn : n ≠ 0)
    (_hd : 0 ≤ d) (hexact : Exact n d) (hfuel : Nat.log 2 n < fuel) :
    K tail fresh fuel n d =
      some (middlePower ⌊n * d⌋₊ (⌊n * d⌋₊ + 1 - n * d) n * (n.factorial / n ^ n)) := by
  obtain ⟨Q, hQ, hpow⟩ := mPower_eq (fresh _)
    (hMatrix (fresh (2 * ⌊n * d⌋₊ + 1)) ((⌊n * d⌋₊ + 1 : ℕ) - n * d)) 0 hn hfuel
  have hmatrix : Matrix.of (hMatrix (fresh (2 * ⌊n * d⌋₊ + 1)) ((⌊n * d⌋₊ + 1 : ℕ) - n * d)) =
      Matrix.of (hEntry (2 * ⌊n * d⌋₊ + 1) (⌊n * d⌋₊ + 1 - n * d)) := by
    ext i j
    rw [Matrix.of_apply, Matrix.of_apply, hMatrix_eq, Nat.cast_succ]
  have hmiddle :
      worth (Q.1 (middle _) (middle _), Q.2) = middlePower ⌊n * d⌋₊ (⌊n * d⌋₊ + 1 - n * d) n := by
    have hentry := congrFun (congrFun hpow (middle _)) (middle _)
    rw [scaled, scaled, zpow_zero, one_smul, hmatrix, Matrix.smul_apply, Matrix.of_apply,
      smul_eq_mul] at hentry
    rw [worth, mul_comm, hentry, middlePower]
  rw [K]
  simp only
  rw [if_neg hexact, hQ, Option.bind_eq_bind, Option.bind_some]
  refine congrArg some ?_
  rw [← hmiddle, ← worth_foldl]
  rfl

theorem K_eq_four : K (fun _ _ => 0) (fun _ _ _ => 7) 3 4 (1 / 3) =
    some
    (middlePower ⌊((4 : ℕ) * (1 / 3) : ℚ)⌋₊ (⌊((4 : ℕ) * (1 / 3) : ℚ)⌋₊ + 1 - (4 : ℕ) * (1 / 3)) 4 *
      (Nat.factorial 4 / (4 : ℕ) ^ 4)) :=
  K_eq _ _ (by decide) (by norm_num) (by decide +kernel) (by decide)

/-- It ends on every `n` but 0. -/
theorem K_ends_iff (tail : ℕ → ℚ → ℚ) (fresh : (m : ℕ) → Square m) (n : ℕ) {d : ℚ} (hd : 0 ≤ d) :
    (∃ fuel, (K tail fresh fuel n d).isSome = true) ↔ n ≠ 0 := by
  constructor
  · rintro ⟨fuel, hfuel⟩ rfl
    rw [K] at hfuel
    simp only at hfuel
    rw [if_neg (by norm_num), mPower_zero] at hfuel
    cases hfuel
  · intro hn
    by_cases hexact : Exact n d
    · exact ⟨Nat.log 2 n + 1, by rw [K_eq tail fresh hn hd hexact (Nat.lt_succ_self _)]; rfl⟩
    · refine ⟨0, ?_⟩
      rw [K]
      simp only
      rw [if_pos (not_not.mp hexact)]
      rfl

theorem pow_apply_of_subsingleton (M : Matrix (Fin 1) (Fin 1) ℚ) (n : ℕ) (i j : Fin 1) :
    (M ^ n) i j = M 0 0 ^ n := by
  rw [Subsingleton.elim i 0, Subsingleton.elim j 0]
  induction n with
  | zero => simp
  | succ n ih => rw [pow_succ, pow_succ, Matrix.mul_apply, Fin.sum_univ_one, ih]

theorem middlePower_zero (h : ℚ) (n : ℕ) : middlePower 0 h n = (max (1 - 2 * h) 0) ^ n := by
  have hentry : hEntry 1 h 0 0 = max (1 - 2 * h) 0 := by
    have hlast : (0 : Fin 1) = last 1 := rfl
    by_cases hpos : 0 < 2 * h - 1
    · rw [max_eq_right (by linarith)]
      simp [hEntry, ← hlast, hpos]
      ring
    · rw [max_eq_left (by linarith)]
      simp [hEntry, ← hlast, hpos]
      ring
  rw [middlePower, pow_apply_of_subsingleton, Matrix.of_apply]
  exact congrArg (· ^ n) hentry

/-- Below `1 / n` the distribution function is known: `n! (2 d - 1 / n)^n`, and 0 up to `1 / (2 n)`.
-/
theorem K_line (tail : ℕ → ℚ → ℚ) (fresh : (m : ℕ) → Square m) {n fuel : ℕ} {d : ℚ} (hn : n ≠ 0)
    (hd : 0 ≤ d) (hline : d < 1 / n) (hfuel : Nat.log 2 n < fuel) :
    K tail fresh fuel n d = some (n.factorial * (max (2 * d - 1 / n) 0) ^ n) := by
  have hn1 : (1 : ℚ) ≤ n := by exact_mod_cast Nat.one_le_iff_ne_zero.mpr hn
  have hn0 : (0 : ℚ) < n := by linarith
  have hnd : n * d < 1 := by
    rw [lt_div_iff₀ hn0] at hline
    linarith
  have hexact : Exact n d := by
    have hd1 : d ≤ 1 := hline.le.trans (by rw [div_le_one hn0]; exact hn1)
    have hs : d * d * n ≤ 1 := by
      calc d * d * n = d * (n * d) := by ring
        _ ≤ 1 * 1 := mul_le_mul hd1 hnd.le (by positivity) (by norm_num)
        _ = 1 := by norm_num
    rintro (h | ⟨h, -⟩) <;> norm_num at h <;> linarith
  have hfloor : ⌊n * d⌋₊ = 0 := Nat.floor_eq_zero.mpr hnd
  have hmax : max (1 - 2 * (((0 : ℕ) : ℚ) + 1 - n * d)) 0 = n * max (2 * d - 1 / n) 0 := by
    rw [mul_max_of_nonneg _ _ hn0.le, mul_zero]
    congr 1
    field_simp
    push_cast
    ring
  rw [K_eq tail fresh hn hd hexact hfuel, hfloor, middlePower_zero, hmax, mul_pow]
  congr 1
  field_simp

theorem K_line_two : K (fun _ _ => 0) (fun _ _ _ => 7) 2 2 (2 / 5) =
    some ((2 : ℕ).factorial * (max (2 * (2 / 5) - 1 / (2 : ℕ) : ℚ) 0) ^ 2) :=
  K_line _ _ (by decide) (by norm_num) (by norm_num) (by decide)

/-! ## The test -/

section Test

variable {sample1 sample2 : List Int64}

/-- The number that the distribution function is taken for. -/
def approximation (sample1 sample2 : List Int64) : ℕ :=
  ((sample1.length * sample2.length : ℚ) / (sample1.length + sample2.length)).ceil.toNat

theorem approximation_pos (h₁ : sample1 ≠ []) (h₂ : sample2 ≠ []) :
    0 < approximation sample1 sample2 := by
  have hpos₁ : (0 : ℚ) < sample1.length := by exact_mod_cast List.length_pos_iff.mpr h₁
  have hpos₂ : (0 : ℚ) < sample2.length := by exact_mod_cast List.length_pos_iff.mpr h₂
  have hceil :
      (0 : ℤ) < ((sample1.length * sample2.length : ℚ) / (sample1.length + sample2.length)).ceil :=
    Rat.lt_ceil_iff.mpr (by push_cast; positivity)
  unfold approximation
  omega

theorem approximation_le (h₁ : sample1 ≠ []) :
    approximation sample1 sample2 ≤ sample1.length * sample2.length := by
  have hpos : (1 : ℚ) ≤ sample1.length := by exact_mod_cast List.length_pos_iff.mpr h₁
  have hnn : (0 : ℚ) ≤ sample2.length := by positivity
  have hceil : ((sample1.length * sample2.length : ℚ) / (sample1.length + sample2.length)).ceil ≤
      ((sample1.length * sample2.length : ℕ) : ℤ) := by
    refine Rat.ceil_le_iff.mpr ?_
    push_cast
    exact div_le_self (by positivity) (by linarith)
  unfold approximation
  omega

/-- The p-value of a test, for samples whose sizes have a sum and a product that fit. -/
theorem ksTest_eq (tail : ℕ → ℚ → ℚ) (fresh : (m : ℕ) → Square m) (h₁ : sample1 ≠ [])
    (h₂ : sample2 ≠ []) (hsum : sample1.length + sample2.length < 2 ^ 32)
    (hproduct : sample1.length * sample2.length < 2 ^ 32)
    (hexact : Exact (approximation sample1 sample2) (ksStatistic sample1 sample2)) :
    let n := approximation sample1 sample2
    let d := ksStatistic sample1 sample2
    ksTest (fun n d => (K tail fresh 32 n.toNat d).getD 0) sample1 sample2 =
      1 - middlePower ⌊n * d⌋₊ (⌊n * d⌋₊ + 1 - n * d) n * (n.factorial / n ^ n) := by
  intro n d
  have hn : n ≠ 0 := Nat.pos_iff_ne_zero.mp (approximation_pos h₁ h₂)
  have hlt : n < 2 ^ 32 := Nat.lt_of_le_of_lt (approximation_le h₁) hproduct
  have hlog : Nat.log 2 n < 32 := Nat.log_lt_of_lt_pow hn hlt
  have hmul : (UInt32.ofNat sample1.length * UInt32.ofNat sample2.length).toNat =
      sample1.length * sample2.length := by
    rw [← UInt32.ofNat_mul, UInt32.toNat_ofNat_of_lt' hproduct]
  have hadd : (UInt32.ofNat sample1.length + UInt32.ofNat sample2.length).toNat =
      sample1.length + sample2.length := by
    rw [← UInt32.ofNat_add, UInt32.toNat_ofNat_of_lt' hsum]
  have hceil :
      (((sample1.length * sample2.length : ℕ) : ℚ) /
          (sample1.length + sample2.length : ℕ)).ceil.toNat = n := by
    push_cast
    rfl
  rw [ksTest, hmul, hadd, hceil, UInt32.toNat_ofNat_of_lt' hlt,
    K_eq tail fresh hn (ksStatistic_nonneg _ _) hexact hlog]
  rfl

/-- Five values each, in turns: `n` is 3, and the power is squared once. -/
theorem ksTest_eq_turns :
    let sample1 : List Int64 := [1, 3, 5, 7, 9]
    let sample2 : List Int64 := [2, 4, 6, 8, 10]
    let n := approximation sample1 sample2
    let d := ksStatistic sample1 sample2
    n = 3 ∧ d = 1 / 5 ∧
      ksTest (fun n d => (K (fun _ _ => 0) (fun _ _ _ => 7) 32 n.toNat d).getD 0) sample1 sample2 =
        1 - middlePower ⌊n * d⌋₊ (⌊n * d⌋₊ + 1 - n * d) n * (n.factorial / n ^ n) :=
  ⟨by decide +kernel, by decide +kernel,
    ksTest_eq _ _ (by decide) (by decide) (by decide) (by decide) (by decide +kernel)⟩

end Test

end Topas.Wkp.Kolmogorov
