import Mathlib.Data.ZMod.Basic
import Topas.Core.LTS
import Topas.L3Ring.FileCounter

/-!
# The arithmetic of file counters

All operators of `shared::FileCounter`, on the `unsigned` that the class keeps. What a counter
stands for is an element of `ZMod MAX_FILES`.

* `sub_add_counter`, `decr_incr_iff`, `incr_decr_iff`: which operators undo each other.
* `arithmetic_iff`: a sequence of operations is arithmetic modulo `MAX_FILES` up to its end if and
  only if none of them is one of the two that miss a boundary: `operator--` tests for 0 after the
  step, so that 1 becomes `MAX_FILES - 1` and 0 becomes `2^32 - 1`, and the assignment of an
  `unsigned` lets `MAX_FILES` pass.
* `incr_ofCounter`, `sub_ofCounter`: within the range the counters are those of `FileCounter`.
-/
namespace Topas

/-- mirrors commonutils/sharedobj.h:33-67 -/
structure RawCounter where
  i : UInt32
  deriving DecidableEq, Repr

namespace RawCounter

def maxFiles : UInt32 := UInt32.ofNat MAX_FILES

/-- `operator++`
mirrors commonutils/sharedobj.cpp:96-101 -/
def incr (c : RawCounter) : RawCounter :=
  let i := c.i + 1
  if i = maxFiles then ⟨0⟩ else ⟨i⟩

/-- The value that is returned, and the counter.
mirrors commonutils/sharedobj.cpp:104-110 -/
def postIncr (c : RawCounter) : RawCounter × RawCounter :=
  let i := c.i + 1
  (c, if i = maxFiles then ⟨0⟩ else ⟨i⟩)

/-- `operator--`
mirrors commonutils/sharedobj.cpp:113-118 -/
def decr (c : RawCounter) : RawCounter :=
  let i := c.i - 1
  if i = 0 then ⟨maxFiles - 1⟩ else ⟨i⟩

/-- mirrors commonutils/sharedobj.cpp:121-127 -/
def postDecr (c : RawCounter) : RawCounter × RawCounter :=
  let i := c.i - 1
  (c, if i = 0 then ⟨maxFiles - 1⟩ else ⟨i⟩)

/-- `operator+` with an `unsigned`.
mirrors commonutils/sharedobj.cpp:140-146 -/
def addUnsigned (c : RawCounter) (rhs : UInt32) : RawCounter :=
  let i := c.i + rhs
  if maxFiles ≤ i then ⟨i - maxFiles⟩ else ⟨i⟩

/-- mirrors commonutils/sharedobj.cpp:130-137 -/
def add (c rhs : RawCounter) : RawCounter := c.addUnsigned rhs.i

/-- `operator-` with an `unsigned`.
mirrors commonutils/sharedobj.cpp:155-160 -/
def subUnsigned (c : RawCounter) (rhs : UInt32) : RawCounter :=
  if rhs ≤ c.i then ⟨c.i - rhs⟩ else ⟨maxFiles - (rhs - c.i)⟩

/-- mirrors commonutils/sharedobj.cpp:148-153 -/
def sub (c rhs : RawCounter) : RawCounter := c.subUnsigned rhs.i

/-- `operator=` for an `unsigned`; `std::range_error` leaves the counter as it is.
mirrors commonutils/sharedobj.cpp:162-168 -/
def assign (_ : RawCounter) (rhs : UInt32) : Except String RawCounter :=
  if maxFiles < rhs then .error "Number to big" else .ok ⟨rhs⟩

/-! ## What a counter stands for -/

instance : NeZero MAX_FILES := ⟨by decide⟩

/-- "always in range", and of this value. -/
def Is (c : RawCounter) (z : ZMod MAX_FILES) : Prop := c.i.toNat = z.val

def InRange (c : RawCounter) : Prop := c.i.toNat < MAX_FILES

instance : DecidablePred InRange := fun c => inferInstanceAs (Decidable (c.i.toNat < MAX_FILES))

variable {c rhs : RawCounter} {z w : ZMod MAX_FILES}

theorem Is.inRange (h : c.Is z) : c.InRange := lt_of_eq_of_lt h z.val_lt

theorem is_natCast (h : c.InRange) : c.Is (c.i.toNat : ZMod MAX_FILES) :=
  (ZMod.val_cast_of_lt h).symm

theorem ext_toNat (h : c.i.toNat = rhs.i.toNat) : c = rhs :=
  congrArg RawCounter.mk (UInt32.toNat_inj.mp h)

theorem Is.unique (h : c.Is z) (h' : rhs.Is z) : c = rhs := ext_toNat (h.trans h'.symm)

@[simp] theorem toNat_maxFiles : maxFiles.toNat = MAX_FILES := rfl

theorem val_add_natCast (z : ZMod MAX_FILES) (n : Nat) :
    (z + n).val = (z.val + n) % MAX_FILES := by
  rw [ZMod.val_add, ZMod.val_natCast, Nat.add_mod_mod]

theorem val_add_one (z : ZMod MAX_FILES) : (z + 1).val = (z.val + 1) % MAX_FILES := by
  exact_mod_cast val_add_natCast z 1

theorem val_sub_natCast (z : ZMod MAX_FILES) (n : Nat) :
    (z - n).val = (z.val + (MAX_FILES - n % MAX_FILES)) % MAX_FILES := by
  rw [sub_eq_add_neg, ZMod.val_add, ZMod.neg_val', ZMod.val_natCast, Nat.add_mod_mod]

theorem val_sub_one (z : ZMod MAX_FILES) : (z - 1).val = (z.val + 99999) % MAX_FILES := by
  exact_mod_cast val_sub_natCast z 1

/-! ## The operators -/

theorem is_incr (h : c.Is z) : c.incr.Is (z + 1) := by
  have hlt := h.inRange
  have hi : (c.i + 1).toNat = c.i.toNat + 1 := by
    rw [UInt32.toNat_add, UInt32.toNat_one]
    simp only [InRange, MAX_FILES] at hlt
    omega
  rw [Is, val_add_one, ← h, incr]
  by_cases hmax : c.i + 1 = maxFiles
  · rw [if_pos hmax, ← hi, hmax, toNat_maxFiles, Nat.mod_self]
    rfl
  · have hne : c.i.toNat + 1 ≠ MAX_FILES := fun heq => hmax (UInt32.toNat_inj.mp (hi.trans heq))
    rw [if_neg hmax, hi, Nat.mod_eq_of_lt (by unfold InRange at hlt; omega)]

theorem toNat_pred (h : 1 ≤ c.i.toNat) : (c.i - 1).toNat = c.i.toNat - 1 :=
  UInt32.toNat_sub_of_le _ _ (UInt32.le_iff_toNat_le.mpr h)

/-- `operator--` is right from 2 on. -/
theorem is_decr_iff (h : c.Is z) : c.decr.Is (z - 1) ↔ 2 ≤ c.i.toNat := by
  have hlt : c.i.toNat < 100000 := h.inRange
  obtain hzero | hone | htwo : c.i.toNat = 0 ∨ c.i.toNat = 1 ∨ 2 ≤ c.i.toNat := by omega
  · obtain rfl : c = ⟨0⟩ := ext_toNat hzero
    exact iff_of_false (fun hdecr => absurd hdecr.inRange (by decide)) (by decide)
  · obtain rfl : c = ⟨1⟩ := ext_toNat hone
    refine iff_of_false (fun hdecr => ?_) (by decide)
    rw [Is, val_sub_one, ← h] at hdecr
    exact absurd hdecr (by decide)
  · have hpred := toNat_pred (c := c) (by omega)
    have hne : c.i - 1 ≠ 0 := fun heq =>
      absurd (congrArg UInt32.toNat heq) (by rw [hpred]; simp; omega)
    refine iff_of_true ?_ htwo
    rw [Is, val_sub_one, ← h, decr, if_neg hne]
    show (c.i - 1).toNat = (c.i.toNat + 99999) % 100000
    omega

/-- `2^32` is no multiple of `MAX_FILES`. -/
theorem mod_ne {k : Nat} : (k + 2 ^ 32) % 100000 ≠ k := by omega

/-- The sum is reduced once, so that it is right up to two rounds. -/
theorem is_addUnsigned_iff (h : c.Is z) (n : UInt32) :
    (c.addUnsigned n).Is (z + n.toNat) ↔ c.i.toNat + n.toNat < 2 * MAX_FILES := by
  have hlt : c.i.toNat < 100000 := h.inRange
  have hn := n.toNat_lt
  have hi : (c.i + n).toNat = (c.i.toNat + n.toNat) % 2 ^ 32 := UInt32.toNat_add c.i n
  rw [Is, val_add_natCast, ← h, addUnsigned]
  obtain hwrap | hwrap := Nat.lt_or_ge (c.i.toNat + n.toNat) (2 ^ 32)
  · rw [Nat.mod_eq_of_lt hwrap] at hi
    by_cases hmax : maxFiles ≤ c.i + n
    · have hle : 100000 ≤ (c.i + n).toNat := UInt32.le_iff_toNat_le.mp hmax
      rw [if_pos hmax, UInt32.toNat_sub_of_le _ _ hmax, hi, toNat_maxFiles, MAX_FILES]
      rw [hi] at hle
      omega
    · have hlow : (c.i + n).toNat < 100000 :=
        Nat.lt_of_not_le fun hle => hmax (UInt32.le_iff_toNat_le.mpr hle)
      rw [hi] at hlow
      rw [if_neg hmax, hi, MAX_FILES, Nat.mod_eq_of_lt hlow]
      exact iff_of_true rfl (by omega)
  · -- the wrap takes away `2^32`
    obtain ⟨k, hk⟩ := Nat.exists_eq_add_of_le' hwrap
    have hrest : (c.i + n).toNat = k := by
      rw [hi, hk, Nat.add_mod_right]
      exact Nat.mod_eq_of_lt (by omega)
    have hlow : ¬ maxFiles ≤ c.i + n := by
      rw [UInt32.le_iff_toNat_le, hrest, toNat_maxFiles, MAX_FILES]
      omega
    rw [if_neg hlow, MAX_FILES, hrest, hk]
    exact iff_of_false (fun heq => mod_ne heq.symm) (by omega)

/-- `MAX_FILES - d` does not wrap for a difference of up to one round. -/
theorem wrap_of_le {d : Nat} (h : d ≤ 100000) : (2 ^ 32 - d + 100000) % 2 ^ 32 = 100000 - d := by
  rw [show 2 ^ 32 - d + 100000 = 100000 - d + 2 ^ 32 by omega, Nat.add_mod_right]
  exact Nat.mod_eq_of_lt (by omega)

/-- Up to one round, the rest of the difference is what is left to the next one. -/
theorem add_sub_mod {i n : Nat} (hi : i < 100000) (hn : i < n) (hround : n ≤ i + 100000) :
    (i + (100000 - n % 100000)) % 100000 = 100000 - (n - i) := by
  obtain hlow | hhigh := Nat.lt_or_ge n 100000
  · rw [Nat.mod_eq_of_lt hlow, Nat.mod_eq_of_lt (by omega)]
    omega
  · have hmod : n % 100000 = n - 100000 := by
      rw [Nat.mod_eq_sub_mod hhigh]
      exact Nat.mod_eq_of_lt (by omega)
    rw [hmod, Nat.mod_eq_sub_mod (by omega), Nat.mod_eq_of_lt (by omega)]
    omega

/-- A counter and a whole round can be taken away from it. -/
theorem is_subUnsigned_iff (h : c.Is z) (n : UInt32) :
    (c.subUnsigned n).Is (z - n.toNat) ↔ n.toNat ≤ c.i.toNat + MAX_FILES := by
  have hlt : c.i.toNat < 100000 := h.inRange
  have hn := n.toNat_lt
  rw [Is, val_sub_natCast, ← h, subUnsigned]
  by_cases hle : n ≤ c.i
  · have hle' := UInt32.le_iff_toNat_le.mp hle
    rw [if_pos hle, UInt32.toNat_sub_of_le _ _ hle, MAX_FILES]
    refine iff_of_true ?_ (by omega)
    rw [Nat.mod_eq_of_lt (by omega : n.toNat < 100000)]
    omega
  · have hle' : ¬ n.toNat ≤ c.i.toNat := fun h' => hle (UInt32.le_iff_toNat_le.mpr h')
    have hsub : (n - c.i).toNat = n.toNat - c.i.toNat :=
      UInt32.toNat_sub_of_le _ _ (UInt32.le_iff_toNat_le.mpr (by omega))
    rw [if_neg hle, UInt32.toNat_sub, hsub, toNat_maxFiles, MAX_FILES]
    by_cases hround : n.toNat ≤ c.i.toNat + 100000
    · refine iff_of_true ?_ hround
      rw [wrap_of_le (by omega), add_sub_mod hlt (Nat.lt_of_not_le hle') hround]
    · have hwrap : (2 ^ 32 - (n.toNat - c.i.toNat) + 100000) % 2 ^ 32 =
          2 ^ 32 - (n.toNat - c.i.toNat) + 100000 := Nat.mod_eq_of_lt (by omega)
      refine iff_of_false (fun heq => ?_) hround
      have hmod := Nat.mod_lt (c.i.toNat + (100000 - n.toNat % 100000)) (show 0 < 100000 by omega)
      rw [← heq, hwrap] at hmod
      exact absurd hmod (Nat.not_lt.mpr (Nat.le_add_left _ _))

theorem is_add (h : c.Is z) (h' : rhs.Is w) : (c.add rhs).Is (z + w) := by
  have hadd := is_addUnsigned_iff h rhs.i
  rw [h', ZMod.natCast_val, ZMod.cast_id] at hadd
  have hz := z.val_lt
  have hw := w.val_lt
  exact hadd.mpr (by rw [h]; omega)

theorem is_sub (h : c.Is z) (h' : rhs.Is w) : (c.sub rhs).Is (z - w) := by
  have hsub := is_subUnsigned_iff h rhs.i
  rw [h', ZMod.natCast_val, ZMod.cast_id] at hsub
  have hw := w.val_lt
  exact hsub.mpr (by omega)

/-! ## Operators that undo each other -/

theorem decr_incr_iff (h : c.InRange) :
    c.incr.decr = c ↔ c.i.toNat ≠ 0 ∧ c.i.toNat ≠ MAX_FILES - 1 := by
  have hc := is_natCast h
  have hincr := is_incr hc
  have hundo : c.incr.decr = c ↔ 2 ≤ c.incr.i.toNat := by
    rw [← is_decr_iff hincr, add_sub_cancel_right]
    exact ⟨fun heq => heq.symm ▸ hc, fun hdecr => hdecr.unique hc⟩
  have hval : c.incr.i.toNat = (c.i.toNat + 1) % 100000 := by
    rw [hincr, val_add_one, ZMod.val_natCast, Nat.mod_add_mod, MAX_FILES]
  have hlt : c.i.toNat < 100000 := h
  rw [hundo, hval, MAX_FILES]
  omega

/-- From 0 the wrap of the `unsigned` leads back. -/
theorem incr_decr_iff (h : c.InRange) : c.decr.incr = c ↔ c.i.toNat ≠ 1 := by
  have hc := is_natCast h
  constructor
  · intro heq hone
    have : c = ⟨1⟩ := ext_toNat hone
    subst this
    exact absurd heq (by decide)
  · intro hone
    by_cases hzero : c.i.toNat = 0
    · have : c = ⟨0⟩ := ext_toNat hzero
      subst this
      rfl
    · have hdecr := (is_decr_iff hc).mpr (by omega)
      have hincr := is_incr hdecr
      rw [sub_add_cancel] at hincr
      exact hincr.unique hc

theorem sub_add_counter (h : c.InRange) (h' : rhs.InRange) : (c.add rhs).sub rhs = c := by
  have hsub := is_sub (is_add (is_natCast h) (is_natCast h')) (is_natCast h')
  rw [add_sub_cancel_right] at hsub
  exact hsub.unique (is_natCast h)

/-! ## Sequences of operations -/

/-- The operations on the counters of a program; `x` is the one that is assigned to. -/
inductive Op (ι : Type) where
  | incr (x : ι)
  | decr (x : ι)
  | postIncr (x y : ι)
  | postDecr (x y : ι)
  | assign (x : ι) (rhs : UInt32)
  | copy (x y : ι)
  | add (x y y' : ι)
  | addUnsigned (x y : ι) (rhs : UInt32)
  | sub (x y y' : ι)
  | subUnsigned (x y : ι) (rhs : UInt32)

section Sequences

open Function (update)

variable {ι : Type} [DecidableEq ι]

def step (σ : ι → RawCounter) : Op ι → ι → RawCounter
  | .incr x => update σ x (σ x).incr
  | .decr x => update σ x (σ x).decr
  | .postIncr x y => update (update σ y (σ y).postIncr.2) x (σ y).postIncr.1
  | .postDecr x y => update (update σ y (σ y).postDecr.2) x (σ y).postDecr.1
  | .assign x rhs =>
    match (σ x).assign rhs with
    | .ok c => update σ x c
    | .error _ => σ
  | .copy x y => update σ x (σ y)
  | .add x y y' => update σ x ((σ y).add (σ y'))
  | .addUnsigned x y rhs => update σ x ((σ y).addUnsigned rhs)
  | .sub x y y' => update σ x ((σ y).sub (σ y'))
  | .subUnsigned x y rhs => update σ x ((σ y).subUnsigned rhs)

/-- The same in arithmetic modulo `MAX_FILES`; only what is in range can be assigned. -/
def meaning (a : ι → ZMod MAX_FILES) : Op ι → ι → ZMod MAX_FILES
  | .incr x => update a x (a x + 1)
  | .decr x => update a x (a x - 1)
  | .postIncr x y => update (update a y (a y + 1)) x (a y)
  | .postDecr x y => update (update a y (a y - 1)) x (a y)
  | .assign x rhs => if rhs.toNat < MAX_FILES then update a x rhs.toNat else a
  | .copy x y => update a x (a y)
  | .add x y y' => update a x (a y + a y')
  | .addUnsigned x y rhs => update a x (a y + rhs.toNat)
  | .sub x y y' => update a x (a y - a y')
  | .subUnsigned x y rhs => update a x (a y - rhs.toNat)

/-- No operation at a boundary that the operators miss. In `x = x--` the decremented value is lost;
an operand that is no counter may leave one wrap only. -/
def Meets (σ : ι → RawCounter) : Op ι → Prop
  | .decr x => 2 ≤ (σ x).i.toNat
  | .postDecr x y => x = y ∨ 2 ≤ (σ y).i.toNat
  | .assign _ rhs => rhs.toNat ≠ MAX_FILES
  | .addUnsigned _ y rhs => (σ y).i.toNat + rhs.toNat < 2 * MAX_FILES
  | .subUnsigned _ y rhs => rhs.toNat ≤ (σ y).i.toNat + MAX_FILES
  | _ => True

instance (σ : ι → RawCounter) : DecidablePred (Meets σ)
  | .decr x => inferInstanceAs (Decidable (2 ≤ (σ x).i.toNat))
  | .postDecr x y => inferInstanceAs (Decidable (x = y ∨ 2 ≤ (σ y).i.toNat))
  | .assign _ rhs => inferInstanceAs (Decidable (rhs.toNat ≠ MAX_FILES))
  | .addUnsigned _ y rhs => inferInstanceAs (Decidable ((σ y).i.toNat + rhs.toNat < 2 * MAX_FILES))
  | .subUnsigned _ y rhs => inferInstanceAs (Decidable (rhs.toNat ≤ (σ y).i.toNat + MAX_FILES))
  | .incr _ | .postIncr _ _ | .copy _ _ | .add _ _ _ | .sub _ _ _ => .isTrue trivial

def Represents (σ : ι → RawCounter) (a : ι → ZMod MAX_FILES) : Prop := ∀ x, (σ x).Is (a x)

variable {σ : ι → RawCounter} {a : ι → ZMod MAX_FILES}

theorem represents_update_iff (h : Represents σ a) (x : ι) :
    Represents (update σ x c) (update a x z) ↔ c.Is z := by
  constructor
  · intro hupdate
    have := hupdate x
    rwa [Function.update_self, Function.update_self] at this
  · intro hc y
    by_cases hy : y = x
    · subst hy
      rwa [Function.update_self, Function.update_self]
    · rw [Function.update_of_ne hy, Function.update_of_ne hy]
      exact h y

/-- The counter that is stepped is overwritten when it is the one that is assigned to. -/
theorem represents_post_iff (h : Represents σ a) (x y : ι) :
    Represents (update (update σ y c) x (σ y)) (update (update a y z) x (a y)) ↔ x = y ∨
    c.Is z := by
  by_cases hxy : x = y
  · subst hxy
    rw [Function.update_idem, Function.update_idem, represents_update_iff h]
    exact iff_of_true (h x) (.inl rfl)
  · rw [Function.update_comm (Ne.symm hxy), Function.update_comm (Ne.symm hxy), or_iff_right hxy]
    exact represents_update_iff ((represents_update_iff h x).mpr (h y)) y

/-- The test of the assignment is off by one. -/
theorem represents_assign_iff (h : Represents σ a) (x : ι) (rhs : UInt32) :
    Represents (step σ (.assign x rhs)) (meaning a (.assign x rhs)) ↔ rhs.toNat ≠ MAX_FILES := by
  rw [step, meaning, assign]
  by_cases hmax : maxFiles < rhs
  · have hlt : MAX_FILES < rhs.toNat := UInt32.lt_iff_toNat_lt.mp hmax
    rw [if_pos hmax, if_neg (by omega)]
    exact iff_of_true h (by omega)
  · have hle : rhs.toNat ≤ MAX_FILES := by
      rw [UInt32.lt_iff_toNat_lt, not_lt] at hmax
      exact hmax
    rw [if_neg hmax]
    by_cases hlt : rhs.toNat < MAX_FILES
    · rw [if_pos hlt, represents_update_iff h]
      exact iff_of_true (is_natCast (c := ⟨rhs⟩) hlt) (by omega)
    · rw [if_neg hlt]
      refine iff_of_false (fun hrep => ?_) (by omega)
      have hin : (update σ x ⟨rhs⟩ x).InRange := (hrep x).inRange
      rw [Function.update_self] at hin
      exact hlt hin

theorem represents_step_iff (h : Represents σ a) (op : Op ι) :
    Represents (step σ op) (meaning a op) ↔ Meets σ op := by
  cases op with
  | incr x => exact (represents_update_iff h x).trans (iff_of_true (is_incr (h x)) trivial)
  | decr x => exact (represents_update_iff h x).trans (is_decr_iff (h x))
  | postIncr x y =>
    exact (represents_post_iff h x y).trans (iff_of_true (.inr (is_incr (h y))) trivial)
  | postDecr x y => exact (represents_post_iff h x y).trans (or_congr_right (is_decr_iff (h y)))
  | assign x rhs => exact represents_assign_iff h x rhs
  | copy x y => exact (represents_update_iff h x).trans (iff_of_true (h y) trivial)
  | add x y y' =>
    exact (represents_update_iff h x).trans (iff_of_true (is_add (h y) (h y')) trivial)
  | addUnsigned x y rhs => exact (represents_update_iff h x).trans (is_addUnsigned_iff (h y) rhs)
  | sub x y y' =>
    exact (represents_update_iff h x).trans (iff_of_true (is_sub (h y) (h y')) trivial)
  | subUnsigned x y rhs => exact (represents_update_iff h x).trans (is_subUnsigned_iff (h y) rhs)

/-- What the class promises, against what its operators do: a sequence of operations on counters in
range is arithmetic modulo `MAX_FILES` up to its end if and only if each of them meets `Meets`;
`operator--` undoes `operator++` but at 0 and `MAX_FILES - 1`, `operator++` undoes `operator--` but
at 1, and `operator-` undoes `operator+`. -/
theorem arithmetic_iff (h : Represents σ a) (ops : List (Op ι)) (hc : c.InRange)
    (hrhs : rhs.InRange) :
    ((∀ pre, pre <+: ops → Represents (pre.foldl step σ) (pre.foldl meaning a)) ↔
      LTS.Permits Meets step σ ops) ∧
    (c.incr.decr = c ↔ c.i.toNat ≠ 0 ∧ c.i.toNat ≠ MAX_FILES - 1) ∧
    (c.decr.incr = c ↔ c.i.toNat ≠ 1) ∧
    (c.add rhs).sub rhs = c :=
  ⟨LTS.related_foldl_iff (fun _ _ => represents_step_iff) h ops, decr_incr_iff hc, incr_decr_iff hc,
    sub_add_counter hc hrhs⟩

/-- Two counters: the packet numbers run over the end, and a difference is taken. -/
def overEnd : List (Op Bool) :=
  [.assign true 99998, .incr true, .incr true, .addUnsigned false true 5, .sub true false true]

theorem overEnd_arithmetic :
    Represents (overEnd.foldl step fun _ => ⟨0⟩) (overEnd.foldl meaning fun _ => 0) :=
  (@arithmetic_iff ⟨7⟩ ⟨9⟩ Bool _ (fun _ => ⟨0⟩) (fun _ => 0) (fun _ => ZMod.val_zero.symm) overEnd
    (by decide) (by decide)).1.mpr (by decide) overEnd (List.prefix_refl _)

/-- **Counterexample**: one step back from packet 1 is 99999, and from packet 0 out of range; a step
forth and back does not return to 0 or to 99999; 100000 can be assigned. -/
theorem boundaries :
    ¬ Represents (step (fun _ : Unit => ⟨1⟩) (.decr ())) (meaning (fun _ => 1) (.decr ())) ∧
    ¬ (decr ⟨0⟩).InRange ∧ (incr ⟨0⟩).decr = ⟨99999⟩ ∧ ¬ (incr ⟨99999⟩).decr.InRange ∧
    (decr ⟨1⟩).incr = ⟨0⟩ ∧
    ¬ (step (fun _ : Unit => ⟨5⟩) (.assign () 100000) ()).InRange := by
  refine ⟨fun h => ?_, by decide, rfl, by decide, rfl, by decide⟩
  have hval : (99999 : Nat) = (1 - 1 : ZMod MAX_FILES).val := h ()
  rw [sub_self, ZMod.val_zero] at hval
  cases hval

end Sequences

/-! ## In range -/

/-- The class whose `unsigned` is always in range. -/
def ofCounter (c : FileCounter) : RawCounter := ⟨UInt32.ofNat c.i⟩

theorem toNat_ofCounter (c : FileCounter) : (ofCounter c).i.toNat = c.i :=
  UInt32.toNat_ofNat_of_lt' (c.lt.trans (by decide))

theorem is_ofCounter (c : FileCounter) : (ofCounter c).Is c.i := by
  rw [Is, toNat_ofCounter, ZMod.val_cast_of_lt c.lt]

theorem incr_ofCounter (c : FileCounter) : (ofCounter c).incr = ofCounter c.incr := by
  have hc : FileCounter.ofNat c.i = c := FileCounter.ext (Nat.mod_eq_of_lt c.lt)
  have hincr : c.incr = FileCounter.ofNat (c.i + 1) := by
    rw [← FileCounter.incr_ofNat, hc]
  refine (is_incr (is_ofCounter c)).unique ?_
  rw [Is, toNat_ofCounter, hincr, val_add_one, ZMod.val_natCast, Nat.mod_add_mod]
  rfl

theorem sub_ofCounter (c rhs : FileCounter) :
    ((ofCounter c).sub (ofCounter rhs)).i.toNat = c.sub rhs := by
  have hc : c.i < 100000 := c.lt
  have hrhs : rhs.i < 100000 := rhs.lt
  rw [is_sub (is_ofCounter c) (is_ofCounter rhs), val_sub_natCast, ZMod.val_cast_of_lt c.lt,
    FileCounter.sub, MAX_FILES]
  split <;> omega

end RawCounter

end Topas
