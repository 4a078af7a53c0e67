import Mathlib.Algebra.Order.Ring.Int
import Mathlib.Data.List.TakeWhile

/-!
# Text as the C++ library reads and writes it

Decimal numbers, `find` and `substr` of `std::string`, `atoi`, the extraction of an unsigned
number from a stream, the words and the lines of a text, and an input file with its state.

Each reading function comes with what it gives on text that has been written: a number is
read back from its digits (`atoi_dec`, `scan_dec`), a separator is found behind a part without
it (`find_append`), and a line ends where it was ended (`getline_append`).
-/
namespace Topas.Text

/-! ## Decimal numbers -/

def dec (n : Nat) : List Char := Nat.toDigits 10 n

/-- `os << i` for a signed number. -/
def decInt (i : Int) : List Char := if i < 0 then '-' :: dec i.natAbs else dec i.toNat

def isSpace (c : Char) : Bool := c = ' ' || (9 ≤ c.toNat && c.toNat ≤ 13)

/-- The sign and the digits that a number begins with, behind white space; what follows is the
rest. -/
def scan (s : List Char) : Bool × List Char × List Char :=
  match s.dropWhile isSpace with
  | '-' :: s => (true, s.takeWhile Char.isDigit, s.dropWhile Char.isDigit)
  | '+' :: s => (false, s.takeWhile Char.isDigit, s.dropWhile Char.isDigit)
  | s => (false, s.takeWhile Char.isDigit, s.dropWhile Char.isDigit)

/-- `(int) strtol(s, NULL, 10)`, and `strtol` stays within a `long`. -/
def atoi (s : List Char) : Int32 :=
  let (negative, digits, _) := scan s
  let n := Nat.ofDigitChars 10 digits 0
  if negative then Int32.ofInt (if n ≤ 2 ^ 63 then -n else -2 ^ 63)
  else Int32.ofNat (if n < 2 ^ 63 then n else 2 ^ 63 - 1)

/-- `is >> n` for a `uint64_t`, `none` where the stream fails. -/
def scanUInt64 (s : List Char) : Option (UInt64 × List Char) :=
  let (negative, digits, rest) := scan s
  let n := Nat.ofDigitChars 10 digits 0
  if digits = [] ∨ 2 ^ 64 ≤ n then none
  else some (if negative then - UInt64.ofNat n else .ofNat n, rest)

/-- `strtoul(s, &end, 10)` with a 64-bit `long`, `none` where nothing is converted. -/
def strtoul (s : List Char) : Option (UInt64 × List Char) :=
  let (negative, digits, rest) := scan s
  let n := Nat.ofDigitChars 10 digits 0
  if digits = [] then none
  else some (if 2 ^ 64 ≤ n then .ofNat (2 ^ 64 - 1) else if negative then - UInt64.ofNat n else
    .ofNat n, rest)

/-- What follows a number on a line. -/
def Ends (s : List Char) : Prop := ∀ c ∈ s.head?, c.isDigit = false

theorem isDigit_of_mem_dec {c : Char} {n : Nat} (h : c ∈ dec n) : c.isDigit = true :=
  Nat.isDigit_of_mem_toDigits (by decide) (by decide) h

theorem not_mem_dec {c : Char} {n : Nat} (h : c.isDigit = false) : c ∉ dec n := by
  intro hmem
  rw [isDigit_of_mem_dec hmem] at h
  cases h

theorem dec_ne_nil (n : Nat) : dec n ≠ [] := Nat.toDigits_ne_nil

theorem length_dec_le {n k : Nat} (hk : 0 < k) (h : n < 10 ^ k) : (dec n).length ≤ k :=
  (Nat.length_toDigits_le_iff (by decide) hk).mpr h

@[simp] theorem ofDigitChars_dec (n : Nat) : Nat.ofDigitChars 10 (dec n) 0 = n :=
  Nat.ofDigitChars_ten_toDigits

/-- Digits are all of them taken, if no more follow. -/
theorem span_dec (n : Nat) {s : List Char} (h : Ends s) :
    (dec n ++ s).takeWhile Char.isDigit = dec n ∧ (dec n ++ s).dropWhile Char.isDigit = s := by
  have htake : s.takeWhile Char.isDigit = [] ∧ s.dropWhile Char.isDigit = s := by
    cases s with
    | nil => exact ⟨rfl, rfl⟩
    | cons c s =>
      have := h c rfl
      simp [this]
  rw [List.takeWhile_append_of_pos fun c => isDigit_of_mem_dec,
    List.dropWhile_append_of_pos fun c => isDigit_of_mem_dec, htake.1, htake.2, List.append_nil]
  exact ⟨rfl, rfl⟩

/-- A number without sign. -/
theorem scan_dec (n : Nat) {s : List Char} (h : Ends s) :
    scan (dec n ++ s) = (false, dec n, s) := by
  obtain ⟨htake, hdrop⟩ := span_dec n h
  obtain ⟨c, ds, hds⟩ := List.exists_cons_of_ne_nil (dec_ne_nil n)
  have hdigit : c.isDigit = true := isDigit_of_mem_dec (hds ▸ List.mem_cons_self)
  have hspace : isSpace c = false := by
    simp only [Char.isDigit, Bool.and_eq_true, decide_eq_true_eq, ge_iff_le,
      UInt32.le_iff_toNat_le] at hdigit
    simp only [isSpace, Bool.or_eq_false_iff, decide_eq_false_iff_not, Bool.and_eq_false_iff]
    have : '0'.val.toNat = 48 := rfl
    refine ⟨?_, ?_⟩
    · rintro rfl
      revert hdigit
      decide
    · right
      show ¬ c.val.toNat ≤ 13
      omega
  unfold scan
  have hskip : (dec n ++ s).dropWhile isSpace = dec n ++ s := by
    rw [hds, List.cons_append, List.dropWhile_cons_of_neg (by simp [hspace])]
  rw [hskip]
  split
  · rename_i s' heq
    rw [hds, List.cons_append, List.cons.injEq] at heq
    rw [heq.1] at hdigit
    cases hdigit
  · rename_i s' heq
    rw [hds, List.cons_append, List.cons.injEq] at heq
    rw [heq.1] at hdigit
    cases hdigit
  · rw [htake, hdrop]

/-- A number with its sign. -/
theorem scan_decInt (i : Int) {s : List Char} (h : Ends s) :
    scan (decInt i ++ s) = (decide (i < 0), dec i.natAbs, s) := by
  unfold decInt
  split
  · rename_i hneg
    obtain ⟨htake, hdrop⟩ := span_dec i.natAbs h
    have hskip : ('-' :: (dec i.natAbs ++ s)).dropWhile isSpace = '-' :: (dec i.natAbs ++ s) :=
      List.dropWhile_cons_of_neg (by decide)
    rw [List.cons_append]
    unfold scan
    rw [hskip]
    simp only [htake, hdrop, hneg, decide_true]
  · rename_i hneg
    have habs : i.toNat = i.natAbs := by omega
    rw [scan_dec _ h, habs]
    simp only [hneg, decide_false]

theorem atoi_dec {n : Nat} (h : n < 2 ^ 31) : atoi (dec n) = Int32.ofNat n := by
  have := scan_dec n (s := []) (fun _ h => by cases h)
  rw [List.append_nil] at this
  simp only [atoi, this, ofDigitChars_dec]
  rw [if_neg (by simp), if_pos (by omega)]

/-- An `int` is read back from what is written of it. -/
theorem atoi_decInt (i : Int32) : atoi (decInt i.toInt) = i := by
  have hle := i.toInt_lt
  have hge := i.le_toInt
  have := scan_decInt i.toInt (s := []) (fun _ h => by cases h)
  rw [List.append_nil] at this
  simp only [atoi, this, ofDigitChars_dec]
  by_cases hneg : i.toInt < 0
  · rw [if_pos (by simpa using hneg), if_pos (by omega), Int.ofNat_natAbs_of_nonpos (by omega),
      Int.neg_neg,
      Int32.ofInt_toInt]
  · rw [if_neg (by simpa using hneg), if_pos (by omega), ← Int32.ofInt_eq_ofNat,
      Int.natAbs_of_nonneg (by omega), Int32.ofInt_toInt]

theorem not_mem_decInt {c : Char} {i : Int} (h : c.isDigit = false) (hminus : c ≠ '-') :
    c ∉ decInt i := by
  unfold decInt
  split
  · simp [hminus, not_mem_dec h]
  · exact not_mem_dec h

theorem length_decInt_le (i : Int32) : (decInt i.toInt).length ≤ 11 := by
  have hle := i.toInt_lt
  have hge := i.le_toInt
  unfold decInt
  split
  · exact Nat.succ_le_succ (length_dec_le (n := i.toInt.natAbs) (k := 10) (by omega) (by omega))
  · exact Nat.le_succ_of_le (length_dec_le (by omega) (by omega))

theorem length_decInt_toInt_le (i : Int64) : (decInt i.toInt).length ≤ 20 := by
  have hle := i.toInt_lt
  have hge := i.le_toInt
  unfold decInt
  split
  · exact Nat.succ_le_succ (length_dec_le (n := i.toInt.natAbs) (k := 19) (by omega) (by omega))
  · exact Nat.le_succ_of_le (length_dec_le (by omega) (by omega))

theorem scanUInt64_dec (x : UInt64) {s : List Char} (h : Ends s) :
    scanUInt64 (dec x.toNat ++ s) = some (x, s) := by
  have hlt := x.toNat_lt
  simp only [scanUInt64, scan_dec _ h, ofDigitChars_dec]
  rw [if_neg (not_or.mpr ⟨dec_ne_nil _, Nat.not_le_of_lt hlt⟩), if_neg (by simp),
    UInt64.ofNat_toNat]

theorem strtoul_dec (x : UInt64) {s : List Char} (h : Ends s) :
    strtoul (dec x.toNat ++ s) = some (x, s) := by
  have hlt := x.toNat_lt
  simp only [strtoul, scan_dec _ h, ofDigitChars_dec]
  rw [if_neg (dec_ne_nil _), if_neg (Nat.not_le_of_lt hlt), if_neg (by simp), UInt64.ofNat_toNat]

theorem strtoul_decInt (i : Int) {s : List Char} (h : Ends s) :
    ∃ x, strtoul (decInt i ++ s) = some (x, s) := by
  simp only [strtoul, scan_decInt i h]
  rw [if_neg (dec_ne_nil _)]
  exact ⟨_, rfl⟩

theorem scanUInt64_space (s : List Char) : scanUInt64 (' ' :: s) = scanUInt64 s := by
  have : scan (' ' :: s) = scan s := by simp [scan, isSpace]
  rw [scanUInt64, scanUInt64, this]

/-! ## Positions in a string -/

/-- `std::string::npos`. -/
def npos : Nat := 2 ^ 64 - 1

/-- `s.find(c, pos)`. -/
def find (s : List Char) (c : Char) (pos : Nat) : Nat :=
  match (s.drop pos).findIdx? (· = c) with
  | some i => pos + i
  | none => npos

/-- `s.substr(pos, n)`, `none` where it throws. -/
def substr (s : List Char) (pos n : Nat) : Option (List Char) :=
  if pos ≤ s.length then some ((s.drop pos).take n) else none

/-- `i + 1` for a `size_type`. -/
def next (i : Nat) : Nat := (i + 1) % 2 ^ 64

/-- `j - i` for a `size_type`. -/
def diff (j i : Nat) : Nat := (j + 2 ^ 64 - i) % 2 ^ 64

theorem findIdx?_of_not_mem {a : List Char} {c : Char} (h : c ∉ a) : a.findIdx? (· = c) = none :=
  List.findIdx?_eq_none_iff.mpr fun x hx => by
    simp only [decide_eq_false_iff_not]
    rintro rfl
    exact h hx

/-- The first `c`, behind a part without it. -/
theorem findIdx?_append_cons {a : List Char} (b : List Char) {c : Char} (h : c ∉ a) :
    (a ++ c :: b).findIdx? (· = c) = some a.length := by
  rw [List.findIdx?_append, findIdx?_of_not_mem h]
  simp [List.findIdx?_cons]

theorem find_append (p a b : List Char) {c : Char} (h : c ∉ a) :
    find (p ++ (a ++ c :: b)) c p.length = p.length + a.length := by
  unfold find
  rw [List.drop_left, findIdx?_append_cons b h]

theorem find_none (p a : List Char) {c : Char} (h : c ∉ a) : find (p ++ a) c p.length = npos := by
  unfold find
  rw [List.drop_left, findIdx?_of_not_mem h]

theorem substr_append (p a b : List Char) : substr (p ++ (a ++ b)) p.length a.length = some a := by
  rw [substr, if_pos (by simp), List.drop_left, List.take_left]

theorem next_eq {i : Nat} (h : i + 1 < 2 ^ 64) : next i = i + 1 := Nat.mod_eq_of_lt h

theorem diff_eq {i k : Nat} (h : k < 2 ^ 64) : diff (i + k) i = k := by
  unfold diff
  omega

/-- The part between a separator and what `find` found behind it. -/
theorem substr_between (p b d : List Char) (x : Char) (hp : p.length + 1 < 2 ^ 64)
    (hb : b.length + 1 < 2 ^ 64) :
    substr (p ++ (x :: b ++ d)) (next p.length)
    (diff (diff (p.length + (x :: b).length) p.length) 1) =
      some b := by
  have hpos : next p.length = (p ++ [x]).length := by
    rw [next_eq hp]
    simp
  have hlen : diff (diff (p.length + (x :: b).length) p.length) 1 = b.length := by
    rw [diff_eq (by simpa using hb), List.length_cons, Nat.add_comm b.length 1, diff_eq (by omega)]
  have htext : p ++ (x :: b ++ d) = (p ++ [x]) ++ (b ++ d) := by simp
  rw [hpos, hlen, htext]
  exact substr_append _ b d

/-- The part behind a separator where `find` found no other. -/
theorem substr_rest (p b : List Char) (x : Char) (h : (p ++ x :: b).length < npos) :
    substr (p ++ x :: b) (next p.length) (diff (diff npos p.length) 1) = some b := by
  have hlen : p.length + (b.length + 1) < 2 ^ 64 - 1 := by simpa [npos] using h
  have hnpos : npos = p.length + (2 ^ 64 - 2 - p.length + 1) := by unfold npos; omega
  have hpos : next p.length = (p ++ [x]).length := by
    rw [next_eq (by omega)]
    simp
  have htext : p ++ x :: b = (p ++ [x]) ++ b := by simp
  rw [hnpos, diff_eq (by omega), Nat.add_comm _ 1, diff_eq (by omega), hpos, htext, substr,
    if_pos (by simp), List.drop_left, List.take_of_length_le (by omega)]

/-! ## Words -/

/-- The parts between one `c` and the next, without those that are empty. -/
def words (c : Char) (s : List Char) : List (List Char) := (s.splitOn c).filter (· ≠ [])

/-- What is read through `s.c_str()`. -/
def cStr (s : List Char) : List Char := s.takeWhile (· ≠ '\x00')

theorem words_of_not_mem {c : Char} {a : List Char} (h : c ∉ a) :
    words c a = if a = [] then [] else [a] := by
  rw [words, List.splitOn_eq_singleton h]
  by_cases ha : a = []
  · simp [ha]
  · simp [ha]

theorem words_append_cons (c : Char) (a b : List Char) :
    words c (a ++ c :: b) = words c a ++ words c b := by
  unfold words
  rw [List.splitOn_eq_splitOnP, List.splitOn_eq_splitOnP, List.splitOn_eq_splitOnP,
    List.splitOnP_append_cons a b (by simp), List.filter_append]

theorem ne_nil_of_mem_words {c : Char} {s w : List Char} (h : w ∈ words c s) : w ≠ [] := by
  simpa using (List.mem_filter.mp h).2

/-- Every other character is in a word. -/
theorem mem_iff_words {c x : Char} (hx : x ≠ c) (s : List Char) :
    x ∈ s ↔ ∃ w ∈ words c s, x ∈ w := by
  induction hn : s.length using Nat.strongRecOn generalizing s with
  | _ n ih =>
    by_cases hc : c ∈ s
    · obtain ⟨a, b, rfl, ha⟩ := List.eq_append_cons_of_mem hc
      rw [List.length_append, List.length_cons] at hn
      have hb := ih b.length (by omega) b rfl
      have hword := ih a.length (by omega) a rfl
      simp only [words_append_cons, List.mem_append, List.mem_cons, hx, false_or, hb, hword,
        or_and_right,
        exists_or]
    · rw [words_of_not_mem hc]
      split
      · rename_i hs
        simp [hs]
      · simp

theorem cStr_eq_self {s : List Char} : cStr s = s ↔ '\x00' ∉ s := by
  rw [cStr, List.takeWhile_eq_self_iff]
  refine ⟨fun h hmem => ?_, fun h x hx => ?_⟩
  · simpa using h _ hmem
  · simp only [decide_eq_true_eq]
    rintro rfl
    exact h hx

/-! ## Lines -/

/-- What `getline(&line, &len, file)` reads call by call: each line with its end. -/
def lines : List Char → List (List Char)
  | [] => []
  | c :: s =>
    if c = '\n' then [c] :: lines s
    else
      match lines s with
      | [] => [[c]]
      | line :: rest => (c :: line) :: rest

theorem flatten_lines (s : List Char) : (lines s).flatten = s := by
  induction s with
  | nil => rfl
  | cons c s ih =>
    rw [lines]
    split
    · rw [List.flatten_cons, ih, List.singleton_append]
    · cases hs : lines s with
      | nil =>
        rw [hs] at ih
        rw [← ih]
        rfl
      | cons line rest =>
        rw [hs] at ih
        rw [← ih]
        rfl

theorem lines_ne_nil {s : List Char} (h : s ≠ []) : lines s ≠ [] := by
  intro hnil
  have hs := flatten_lines s
  rw [hnil] at hs
  exact h hs.symm

/-- Behind the end of a line the next one begins. -/
theorem lines_append (s t : List Char) :
    lines (s ++ '\n' :: t) = lines (s ++ ['\n']) ++ lines t := by
  induction s with
  | nil => rfl
  | cons c s ih =>
    rw [List.cons_append, List.cons_append, lines, lines, ih]
    split
    · rw [List.cons_append]
    · obtain ⟨line, rest, hs⟩ :=
        List.exists_cons_of_ne_nil (lines_ne_nil (s := s ++ ['\n']) (by simp))
      rw [hs]
      rfl

/-! ## Files -/

/-- What is left of a file, and the state of the stream. A stream that was opened fails only at
the end of the file. -/
structure IfStream where
  rest : List Char
  eof : Bool
  fail : Bool
  isOpen : Bool
  eof_of_fail : fail = true → eof = true
  deriving DecidableEq, Repr

namespace IfStream

/-- A file just opened. -/
def ofText (s : List Char) : IfStream := ⟨s, false, false, true, by simp⟩

def close (is : IfStream) : IfStream := { is with isOpen := false }

/-- `getline(is, line)`. -/
def getline (is : IfStream) : IfStream × List Char :=
  if h : is.eof = true then ({ is with fail := true, eof_of_fail := fun _ => h }, [])
  else
    let line := is.rest.takeWhile (· ≠ '\n')
    match is.rest.dropWhile (· ≠ '\n') with
    | _ :: rest => ({ is with rest }, line)
    | [] => (⟨[], true, line.isEmpty, is.isOpen, fun _ => rfl⟩, line)

/-- A line is shorter by its end. -/
theorem rest_getline {is : IfStream} (heof : is.getline.1.eof = false) :
    is.getline.1.rest.length < is.rest.length := by
  unfold getline at heof ⊢
  split at heof
  · rename_i h
    rw [h] at heof
    cases heof
  · rename_i h
    rw [dif_neg h]
    have hlen := List.length_dropWhile_le (· ≠ '\n') is.rest
    split at heof
    · rename_i c rest hdrop
      rw [hdrop, List.length_cons] at hlen
      simp only
      omega
    · cases heof

theorem getline_append (line rest : List Char) (h : '\n' ∉ line) :
    (ofText (line ++ '\n' :: rest)).getline = (ofText rest, line) := by
  have hpos : ∀ c ∈ line, decide (c ≠ '\n') = true := by
    intro c hc
    simp only [decide_eq_true_eq]
    rintro rfl
    exact h hc
  have htake : (line ++ '\n' :: rest).takeWhile (· ≠ '\n') = line := by
    rw [List.takeWhile_append_of_pos hpos]
    simp
  have hdrop : (line ++ '\n' :: rest).dropWhile (· ≠ '\n') = '\n' :: rest := by
    rw [List.dropWhile_append_of_pos hpos]
    simp
  unfold getline ofText
  rw [dif_neg (by simp)]
  simp only [htake, hdrop]

/-- At the end of the file. -/
theorem getline_nil : (ofText []).getline = (⟨[], true, true, true, fun _ => rfl⟩, []) := rfl

end IfStream

end Topas.Text
