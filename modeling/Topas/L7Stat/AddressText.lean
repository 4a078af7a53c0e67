import Mathlib.Data.Fintype.Basic
import Topas.Core.Text

/-!
# Addresses as text

`IpAddress::fromString` divides a string at its dots and assigns every part to the next `int` of
`address[4]`. The index is not checked. A string without dots goes through the loop twice, as
`npos + 1` is 0.

* `writes_dotted`: the loop ends for every string and assigns the parts one after another.
* `contained_iff`: it stays within the array if the string has three dots at most.
* `fromString_text`: an address is read back from its text.
-/
namespace Topas

open Text

/-- Parts with dots between them. -/
def dotted : List (List Char) → List Char
  | [] => []
  | [part] => part
  | part :: parts => part ++ '.' :: dotted parts

theorem exists_dotted (s : List Char) :
    ∃ part parts, s = dotted (part :: parts) ∧ ∀ x ∈ part :: parts, '.' ∉ x := by
  induction s with
  | nil => exact ⟨[], [], rfl, by simp⟩
  | cons c s ih =>
    obtain ⟨part, parts, rfl, hdot⟩ := ih
    by_cases hc : c = '.'
    · subst hc
      exact ⟨[], part :: parts, rfl, by simpa using hdot⟩
    · refine ⟨c :: part, parts, ?_, ?_⟩
      · cases parts <;> rfl
      · rw [List.forall_mem_cons] at hdot ⊢
        refine ⟨?_, hdot.2⟩
        rw [List.mem_cons, not_or]
        exact ⟨Ne.symm hc, hdot.1⟩

theorem count_dotted (parts : List (List Char)) :
    ∀ part, (∀ x ∈ part :: parts, '.' ∉ x) → (dotted (part :: parts)).count '.' = parts.length := by
  induction parts with
  | nil =>
    intro part hdot
    exact List.count_eq_zero.mpr (hdot part (by simp))
  | cons q parts ih =>
    intro part hdot
    rw [dotted, List.count_append, List.count_eq_zero.mpr (hdot part (by simp)),
      List.count_cons_self,
      ih q fun x hx => hdot x (List.mem_cons_of_mem _ hx), Nat.zero_add, List.length_cons]
    simp

/-- `int address[4]`. -/
abbrev Address := Fin 4 → Int32

namespace Address

/-- mirrors detectionmodules/detectionbase/ipaddress.cpp:27-32 -/
def text (a : Address) : List Char :=
  decInt (a 0).toInt ++ '.' ::
    (decInt (a 1).toInt ++ '.' :: (decInt (a 2).toInt ++ '.' :: decInt (a 3).toInt))

/-- An assignment `address[index] = octet`. -/
abbrev Write := Nat × Int32

/-- What the loop assigns in so many passes; `none` where these do not end it, or `substr` throws.
mirrors detectionmodules/detectionbase/ipaddress.cpp:39-48 -/
def writesFrom (ipstr : List Char) : (passes : Nat) → (iAlt iNeu index : Nat) → Option (List Write)
  | 0, _, _, _ => none
  | passes + 1, iAlt, iNeu, index => do
    let part ← substr ipstr iAlt (diff iNeu iAlt)
    let write := (index, atoi part)
    if iNeu = ipstr.length then some [write]
    else
      let iAlt := next iNeu
      let iNeu := find ipstr '.' iAlt
      let iNeu := if iNeu = npos then ipstr.length else iNeu
      let writes ← writesFrom ipstr passes iAlt iNeu (index + 1)
      some (write :: writes)

/-- All that `fromString` assigns. -/
def writes (ipstr : List Char) : Option (List Write) :=
  writesFrom ipstr (ipstr.length + 2) 0 (find ipstr '.' 0) 0

/-- `none` behind the array. -/
def set (a : Address) (w : Write) : Option Address :=
  if h : w.1 < 4 then some (Function.update a ⟨w.1, h⟩ w.2) else none

/-- `none` where the loop does not end or writes behind the array.
mirrors detectionmodules/detectionbase/ipaddress.cpp:34-50 -/
def fromString (a : Address) (ipstr : List Char) : Option Address := do
  (← writes ipstr).foldlM set a

/-! ## The parts of a string -/

/-- The parts are assigned one after another. -/
theorem writesFrom_dotted {s : List Char} (hs : s.length + 1 < 2 ^ 64) (parts : List (List Char)) :
    ∀ (p part : List Char) (passes index : Nat), s = p ++ dotted (part :: parts) →
      (∀ x ∈ part :: parts, '.' ∉ x) → parts.length < passes →
      writesFrom s passes p.length (p.length + part.length) index =
        some ((part :: parts).mapIdx fun i x => (index + i, atoi x)) := by
  induction parts with
  | nil =>
    intro p part passes index heq hdot hpasses
    obtain ⟨passes, rfl⟩ : ∃ n, passes = n + 1 := ⟨passes - 1, by simp at hpasses; omega⟩
    have heq : s = p ++ (part ++ []) := by simpa [dotted] using heq
    have hlen : s.length = p.length + part.length := by simp [heq]
    have hpart : substr s p.length part.length = some part := heq ▸ substr_append p part []
    rw [writesFrom, diff_eq (by omega), hpart]
    simp [hlen]
  | cons q parts ih =>
    intro p part passes index heq hdot hpasses
    obtain ⟨passes, rfl⟩ : ∃ n, passes = n + 1 := ⟨passes - 1, by simp at hpasses; omega⟩
    have heq : s = p ++ (part ++ '.' :: dotted (q :: parts)) := heq
    have hlen : s.length = p.length + (part.length + ((dotted (q :: parts)).length + 1)) :=
      by simp [heq]
    have hpart : substr s p.length part.length = some part := heq ▸ substr_append p part _
    -- the next part begins behind the dot
    have heq' : s = (p ++ part ++ ['.']) ++ dotted (q :: parts) := by simp [heq]
    have hnext : next (p.length + part.length) = (p ++ part ++ ['.']).length := by
      rw [next_eq (by omega)]
      simp
      omega
    have hq : '.' ∉ q := hdot q (by simp)
    have hfind : (if find s '.' (p ++ part ++ ['.']).length = npos then s.length
        else find s '.' (p ++ part ++ ['.']).length) = (p ++ part ++ ['.']).length + q.length := by
      cases parts with
      | nil =>
        have heq' : s = (p ++ part ++ ['.']) ++ q := heq'
        have hnone : find s '.' (p ++ part ++ ['.']).length = npos := heq' ▸ find_none _ q hq
        rw [if_pos hnone, heq']
        simp
        omega
      | cons r parts =>
        have heq' : s = (p ++ part ++ ['.']) ++ (q ++ '.' :: dotted (r :: parts)) := heq'
        have hsome :
            find s '.' (p ++ part ++ ['.']).length = (p ++ part ++ ['.']).length + q.length :=
          heq' ▸ find_append _ q _ hq
        have hlen : s.length =
            (p ++ part ++ ['.']).length + (q.length + ((dotted (r :: parts)).length + 1)) := by
          simp [heq']
          omega
        rw [hsome, if_neg (by unfold npos; omega)]
    rw [writesFrom, diff_eq (by omega), hpart]
    simp only [Option.bind_eq_bind, Option.bind_some]
    rw [if_neg (by omega), hnext, hfind,
      ih _ q passes (index + 1) heq' (fun x hx => hdot x (List.mem_cons_of_mem _ hx))
        (by simpa using hpasses)]
    simp [Nat.add_assoc, Nat.add_comm 1]

/-- What a string with these parts is assigned as. The loop goes twice over a single one. -/
def assigned : List (List Char) → List Write
  | [part] => [(0, atoi part), (1, atoi part)]
  | parts => parts.mapIdx fun i x => (i, atoi x)

theorem writes_dotted {part : List Char} {parts : List (List Char)}
    (hdot : ∀ x ∈ part :: parts, '.' ∉ x) (hs : (dotted (part :: parts)).length + 1 < 2 ^ 64) :
    writes (dotted (part :: parts)) = some (assigned (part :: parts)) := by
  have hcount := (count_dotted parts part hdot).symm.trans_le List.count_le_length
  have hpart : '.' ∉ part := hdot part (by simp)
  cases parts with
  | nil =>
    have hs : part.length + 1 < 2 ^ 64 := hs
    have hfind : find part '.' 0 = npos := find_none [] part hpart
    have hwhole : substr part 0 (diff npos 0) = some part := by
      rw [substr, if_pos (Nat.zero_le _), List.drop_zero, List.take_of_length_le]
      unfold diff npos
      omega
    have hnext : next npos = 0 := rfl
    -- the second pass starts where the first one did
    have hagain :=
      writesFrom_dotted hs [] [] part (part.length + 1) 1 rfl (by simpa using hpart) (by simp)
    rw [List.length_nil, Nat.zero_add] at hagain
    show writes part = _
    rw [writes, hfind, writesFrom, hwhole]
    simp only [Option.bind_eq_bind, Option.bind_some]
    rw [if_neg (by unfold npos; omega), hnext, hfind, if_pos rfl, hagain]
    rfl
  | cons q parts =>
    have hfind : find (dotted (part :: q :: parts)) '.' 0 = 0 + part.length :=
      find_append [] part _ hpart
    have := writesFrom_dotted hs (q :: parts) [] part
      ((dotted (part :: q :: parts)).length + 2) 0 rfl hdot
      (by omega)
    rw [List.length_nil] at this
    rw [writes, hfind, this]
    simp [assigned]

theorem indices_assigned (part : List Char) (parts : List (List Char)) :
    (∀ w ∈ assigned (part :: parts), w.1 < 4) ↔ parts.length ≤ 3 := by
  cases parts with
  | nil => simp [assigned]
  | cons q parts =>
    simp only [assigned, List.mem_mapIdx]
    constructor
    · intro h
      have := h (parts.length + 1, atoi ((part :: q :: parts)[parts.length + 1])) ⟨_, by simp, rfl⟩
      simp at this ⊢
      omega
    · rintro h w ⟨i, hi, rfl⟩
      simp at h hi ⊢
      omega

/-! ## What the parse does -/

/-- The parse ends, and writes only octets of the address. -/
def Contained (ipstr : List Char) : Prop := ∃ ws, writes ipstr = some ws ∧ ∀ w ∈ ws, w.1 < 4

theorem fromString_text (a old : Address) : old.fromString a.text = some a := by
  have hdot : ∀ i : Int32, '.' ∉ decInt i.toInt := fun i => not_mem_decInt rfl (by simp)
  have hlen := fun i => length_decInt_le (a i)
  have h0 := hlen 0
  have h1 := hlen 1
  have h2 := hlen 2
  have h3 := hlen 3
  have hwrites := @writes_dotted (decInt (a 0).toInt)
    [decInt (a 1).toInt, decInt (a 2).toInt, decInt (a 3).toInt] (by simp [hdot])
    (by simp [dotted]; omega)
  have htext : a.text = dotted [decInt (a 0).toInt, decInt (a 1).toInt, decInt (a 2).toInt,
    decInt (a 3).toInt] := rfl
  rw [fromString, htext, hwrites]
  simp only [assigned, List.mapIdx_cons, List.mapIdx_nil, atoi_decInt, Option.bind_eq_bind,
    Option.bind_some]
  show some
    (Function.update
      (Function.update (Function.update (Function.update old 0 (a 0)) 1 (a 1)) 2 (a 2))
    3 (a 3)) = some a
  refine congrArg some (funext fun i => ?_)
  match i with
  | 0 => rfl
  | 1 => rfl
  | 2 => rfl
  | 3 => rfl

/-- Every parse ends, every address is read back, and the array is left by the strings with more
than three dots. -/
theorem contained_iff (ipstr : List Char) (hlen : ipstr.length + 1 < 2 ^ 64) :
    (∃ ws, writes ipstr = some ws) ∧ (Contained ipstr ↔ ipstr.count '.' ≤ 3) ∧
      ∀ a old : Address, old.fromString a.text = some a := by
  obtain ⟨part, parts, rfl, hdot⟩ := exists_dotted ipstr
  have hwrites := writes_dotted hdot hlen
  refine ⟨⟨_, hwrites⟩, ?_, fromString_text⟩
  rw [count_dotted parts part hdot, ← indices_assigned part parts]
  constructor
  · rintro ⟨ws, hws, hin⟩
    rw [hwrites] at hws
    cases hws
    exact hin
  · exact fun hin => ⟨_, hwrites, hin⟩

theorem contained_iff_host : (∃ ws, writes "10.0.0.1".toList = some ws) ∧
    (Contained "10.0.0.1".toList ↔ "10.0.0.1".toList.count '.' ≤ 3) ∧
      ∀ a old : Address, old.fromString a.text = some a := contained_iff _ (by simp)

/-- A dot at the end makes a fifth part. -/
theorem not_contained : ¬ Contained "10.0.0.1.".toList := by
  rintro ⟨ws, hws, hin⟩
  have hwrites : writes "10.0.0.1.".toList = some [(0, 10), (1, 0), (2, 0), (3, 1), (4, 0)] :=
    by decide
  rw [hwrites] at hws
  cases hws
  exact absurd (hin (4, 0) (by simp)) (by simp)

end Address

end Topas
