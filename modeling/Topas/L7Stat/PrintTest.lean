import Topas.Core.Proc
import Topas.L6Count.Reports
import Topas.L7Stat.PrintStore

/-!
# The table of the print module

`Print::test` writes a store as one line of a table. Nine loops fill the columns with blanks; each
counts up from 0 until it meets the width less the length of the number.

* `returns_pad_iff`: such a loop ends without overflow just if the text is not longer than the
  column.
* `returns_test_iff`: all nine end if the flow starts before 1,000,000,000 and the two counts have
  ten digits at most. The length of the first column is taken with a bar in front that is not
  written.
* `test_never`: the first column is narrower than its header where the line is written at all.
-/
namespace Topas

open Text Proc

namespace PrintTest

/-- mirrors detectionmodules/statmodules/print-module/print-main.cpp:81 -/
def tableHeader : List Char :=
  ("|Flow Start|Flow End  |Source IP      |Destination IP |Proto|SrcPort|DestPort|Packets   |Bytes     |"
    ).toList

/-- The columns of a line are what is between the bars. -/
def widths (line : List Char) : List Nat := (words '|' line).map List.length

/-- One pass of a loop; the overflow of an `int` is undefined. -/
def blank (i : Int) : Proc Char Int := do
  emit ' '
  if i + 1 < 2 ^ 31 then pure (i + 1) else stuck

/-- `for (int i = 0; i != width - len; i++) outfile << ' ';` -/
def pad (width len : Nat) : Proc Char Unit := do
  let _ ← loop (fun i => i ≠ (width : Int) - len) blank 0

/-- A column with its bar. -/
def column (width : Nat) (text : List Char) : Proc Char Unit := do
  tell ('|' :: text)
  pad width text.length

/-- mirrors detectionmodules/statmodules/print-module/print-main.cpp:105-192 -/
def test (store : PrintStore) : Proc Char Unit := do
  let flowStart := '|' :: dec store.flowStart.toNat
  tell (dec store.flowStart.toNat)
  pad 10 flowStart.length
  column 10 (dec store.flowEnd.toNat)
  column 15 store.sourceAddress.toString
  column 15 store.destinationAddress.toString
  column 5 (dec store.protocol.toNat)
  column 7 (dec store.sourcePort.toNat)
  column 8 (dec store.destinationPort.toNat)
  column 10 (dec store.nbPackets.toNat)
  column 10 (dec store.nbBytes.toNat)
  tell ['\n']

/-! ## One column -/

theorem returns_blank {i i' : Int} {l : List Char} :
    (blank i).Returns l i' ↔ i + 1 < 2 ^ 31 ∧ l = [' '] ∧ i' = i + 1 := by
  unfold blank
  split
  · rename_i h
    simp only [returns_bind, returns_emit, returns_pure, h, true_and]
    constructor
    · rintro ⟨l₁, -, l₂, rfl, ⟨rfl, rfl⟩, rfl⟩
      exact ⟨rfl, rfl⟩
    · rintro ⟨rfl, rfl⟩
      exact ⟨[' '], (), [], rfl, ⟨rfl, rfl⟩, rfl⟩
  · rename_i h
    simp only [returns_bind, h, false_and, iff_false]
    rintro ⟨l₁, -, l₂, -, ⟨n, hn⟩, -⟩
    cases hn

section Pad

variable {width len : Nat} {l : List Char}

/-- Past the end only the overflow stops the loop. -/
theorem not_halts_pad (h : width < len) : ¬ (pad width len).Halts := by
  refine not_halts_bind
    (not_halts_loop (fun i => 0 ≤ i) (fun i hi => ?_) (fun i l i' hi hr => ?_) le_rfl)
  · simp only [ne_eq, decide_eq_true_eq]
    omega
  · obtain ⟨-, -, rfl⟩ := returns_blank.mp hr
    omega

/-- From `n` passes before the end on. -/
theorem returns_blanks (stop : Int) (hlt : stop < 2 ^ 31) (n : Nat) :
    (loop (fun i => i ≠ stop) blank (stop - n)).Returns (List.replicate n ' ') stop := by
  induction n with
  | zero => exact (returns_loop_done (by simp)).mpr ⟨rfl, by simp⟩
  | succ n ih =>
    have hpass : (blank (stop - (n + 1 : Nat))).Returns [' '] (stop - n) :=
      returns_blank.mpr ⟨by omega, rfl, by omega⟩
    exact (returns_loop_step (by simp; omega)).mpr (hpass.bind ih)

theorem returns_pad (hwidth : width < 2 ^ 31) (h : len ≤ width) :
    (pad width len).Returns (List.replicate (width - len) ' ') () := by
  have hblanks := returns_blanks (width - len) (by omega) (width - len)
  rw [Nat.cast_sub h, sub_self] at hblanks
  exact hblanks.last (by simp)

theorem returns_pad_iff (hwidth : width < 2 ^ 31) :
    (pad width len).Returns l () ↔ len ≤ width ∧ l = List.replicate (width - len) ' ' := by
  constructor
  · intro hr
    have hle : len ≤ width := Nat.le_of_not_lt fun hlt => not_halts_pad hlt hr.halts
    exact ⟨hle, (hr.det (returns_pad hwidth hle)).1⟩
  · rintro ⟨hle, rfl⟩
    exact returns_pad hwidth hle

end Pad

/-- A text in a column that is wide enough. -/
def cell (width : Nat) (text : List Char) : List Char :=
    text ++ List.replicate (width - text.length) ' '

theorem length_cell {width : Nat} {text : List Char} (h : text.length ≤ width) :
    (cell width text).length = width := by
  rw [cell, List.length_append, List.length_replicate, Nat.add_sub_cancel' h]

theorem returns_column_iff {width : Nat} (hwidth : width < 2 ^ 31) {text l : List Char} :
    (column width text).Returns l () ↔ text.length ≤ width ∧ l = '|' :: cell width text := by
  unfold column
  rw [returns_bind]
  constructor
  · rintro ⟨_, ⟨⟩, blanks, hbar, hpad, rfl⟩
    obtain ⟨hle, rfl⟩ := (returns_pad_iff hwidth).mp hpad
    exact ⟨hle, by rw [returns_tell.mp hbar, cell, List.cons_append]⟩
  · rintro ⟨hle, rfl⟩
    exact ⟨'|' :: text, (), _, returns_tell.mpr rfl, returns_pad hwidth hle, rfl⟩

/-! ## The line -/

/-- The columns behind the first, and the end of the line. -/
def row : List (Nat × List Char) → Proc Char Unit
  | [] => tell ['\n']
  | c :: cs => do
    column c.1 c.2
    row cs

/-- The text of columns, each with its bar. -/
def cells (cs : List (Nat × List Char)) : List Char := cs.flatMap fun c => '|' :: cell c.1 c.2

theorem returns_row_iff {cs : List (Nat × List Char)} (hwidth : ∀ c ∈ cs, c.1 < 2 ^ 31)
    {l : List Char} :
    (row cs).Returns l () ↔ (∀ c ∈ cs, c.2.length ≤ c.1) ∧ l = cells cs ++ ['\n'] := by
  induction cs generalizing l with
  | nil => simp [row, cells]
  | cons c cs ih =>
    rw [List.forall_mem_cons] at hwidth
    rw [row, returns_bind, List.forall_mem_cons]
    constructor
    · rintro ⟨_, ⟨⟩, _, hcolumn, hrow, rfl⟩
      obtain ⟨hle, rfl⟩ := (returns_column_iff hwidth.1).mp hcolumn
      obtain ⟨hall, rfl⟩ := (ih hwidth.2).mp hrow
      exact ⟨⟨hle, hall⟩, by simp [cells]⟩
    · rintro ⟨⟨hle, hall⟩, rfl⟩
      exact ⟨_, (), _, (returns_column_iff hwidth.1).mpr ⟨hle, rfl⟩, (ih hwidth.2).mpr ⟨hall, rfl⟩,
        by simp [cells]⟩

/-- The columns of a store behind the first. -/
def columns (store : PrintStore) : List (Nat × List Char) :=
  [(10, dec store.flowEnd.toNat), (15, store.sourceAddress.toString),
    (15, store.destinationAddress.toString), (5, dec store.protocol.toNat),
      (7, dec store.sourcePort.toNat), (8, dec store.destinationPort.toNat),
    (10, dec store.nbPackets.toNat), (10, dec store.nbBytes.toNat)]

theorem test_eq (store : PrintStore) : test store = (do
    tell (dec store.flowStart.toNat)
    pad 10 ('|' :: dec store.flowStart.toNat).length
    row (columns store)) :=
  rfl

/-- The bar that is counted but not written leaves nine places for the first number. -/
def line (store : PrintStore) : List Char :=
    cell 9 (dec store.flowStart.toNat) ++ cells (columns store)

/-- What is written before the second column, and the rest. -/
theorem line_eq (store : PrintStore) : dec store.flowStart.toNat ++
    (List.replicate (10 - ('|' :: dec store.flowStart.toNat).length) ' ' ++
      (cells (columns store) ++ ['\n'])) =
      line store ++ ['\n'] := by
  rw [line, cell, List.length_cons, Nat.add_sub_add_right (k := 1), List.append_assoc,
    List.append_assoc]

theorem length_dec_le_iff {n k : Nat} (hk : 0 < k) : (dec n).length ≤ k ↔ n < 10 ^ k :=
  Nat.length_toDigits_le_iff (by decide) hk

theorem length_toString (ip : IpAddress) : ip.toString.length ≤ 15 := by
  have hoctet : ∀ x : UInt8, (dec x.toNat).length ≤ 3 := fun x =>
    length_dec_le (by decide) (by have := x.toNat_lt; omega)
  have ha := hoctet ip.a
  have hb := hoctet ip.b
  have hc := hoctet ip.c
  have hd := hoctet ip.d
  simp only [IpAddress.toString, List.length_append, List.length_cons]
  omega

/-- The numbers fit into what the loops leave them. -/
structure Fits (store : PrintStore) : Prop where
  flowStart : store.flowStart.toNat < 10 ^ 9
  nbPackets : store.nbPackets.toNat < 10 ^ 10
  nbBytes : store.nbBytes.toNat < 10 ^ 10

/-- Only the counts can be too long for their columns. -/
theorem columns_fit (store : PrintStore) :
    (∀ c ∈ columns store, c.2.length ≤ c.1) ↔
      store.nbPackets.toNat < 10 ^ 10 ∧ store.nbBytes.toNat < 10 ^ 10 := by
  have hend : (dec store.flowEnd.toNat).length ≤ 10 :=
    length_dec_le (by decide) (by have := store.flowEnd.toNat_lt; omega)
  have hword : ∀ x : UInt16, (dec x.toNat).length ≤ 5 := fun x =>
    length_dec_le (by decide) (by have := x.toNat_lt; omega)
  have hprotocol := hword store.protocol
  have hsource := hword store.sourcePort
  have hdestination := hword store.destinationPort
  simp only [columns, List.forall_mem_cons, List.not_mem_nil, false_imp_iff, implies_true, and_true,
    length_toString, length_dec_le_iff (show 0 < 10 by decide), true_and]
  constructor
  · rintro ⟨-, -, -, -, h⟩
    exact h
  · intro h
    exact ⟨(length_dec_le_iff (by decide)).mp hend, hprotocol, by omega, by omega, h⟩

theorem returns_test_iff {store : PrintStore} {l : List Char} :
    (test store).Returns l () ↔ Fits store ∧ l = line store ++ ['\n'] := by
  have hten : 10 < 2 ^ 31 := by decide
  have hwidth : ∀ c ∈ columns store, c.1 < 2 ^ 31 := by simp [columns]
  have hfirst : ('|' :: dec store.flowStart.toNat).length ≤ 10 ↔
      store.flowStart.toNat < 10 ^ 9 := by
    rw [List.length_cons, Nat.succ_le_succ_iff, length_dec_le_iff (by decide)]
  rw [test_eq, returns_bind]
  constructor
  · rintro ⟨_, ⟨⟩, _, htext, hrest, rfl⟩
    obtain ⟨_, ⟨⟩, _, hpad, hrow, rfl⟩ := returns_bind.mp hrest
    obtain ⟨hle, rfl⟩ := (returns_pad_iff hten).mp hpad
    obtain ⟨hall, rfl⟩ := (returns_row_iff hwidth).mp hrow
    obtain ⟨hpackets, hbytes⟩ := (columns_fit store).mp hall
    refine ⟨⟨hfirst.mp hle, hpackets, hbytes⟩, ?_⟩
    rw [returns_tell.mp htext, line_eq]
  · rintro ⟨hfits, rfl⟩
    have hall := (columns_fit store).mpr ⟨hfits.nbPackets, hfits.nbBytes⟩
    refine ⟨_, (), _, returns_tell.mpr rfl, returns_bind.mpr ⟨_, (), _, (returns_pad_iff hten).mpr
      ⟨hfirst.mpr hfits.flowStart, rfl⟩, (returns_row_iff hwidth).mpr ⟨hall, rfl⟩, rfl⟩, ?_⟩
    rw [line_eq]

theorem halts_test_iff (store : PrintStore) : (test store).Halts ↔ Fits store :=
  ⟨fun ⟨_, _, hr⟩ => (returns_test_iff.mp hr).1,
    fun hfits => (returns_test_iff.mpr ⟨hfits, rfl⟩).halts⟩

/-! ## The widths -/

theorem bar_not_mem_toString (ip : IpAddress) : '|' ∉ ip.toString := by
  have hdec : ∀ n, '|' ∉ dec n := fun n => not_mem_dec rfl
  simp [IpAddress.toString, hdec]

theorem bar_not_mem_cell {width : Nat} {text : List Char} (h : '|' ∉ text) :
    '|' ∉ cell width text := by
  simp [cell, h]

theorem bar_not_mem_columns {store : PrintStore} {c : Nat × List Char} (h : c ∈ columns store) :
    '|' ∉ c.2 := by
  have hdec : ∀ n, '|' ∉ dec n := fun n => not_mem_dec rfl
  simp only [columns, List.mem_cons, List.not_mem_nil, or_false] at h
  obtain rfl | rfl | rfl | rfl | rfl | rfl | rfl | rfl := h
  · exact hdec _
  · exact bar_not_mem_toString _
  · exact bar_not_mem_toString _
  · exact hdec _
  · exact hdec _
  · exact hdec _
  · exact hdec _
  · exact hdec _

/-- A line is read back as its columns. -/
theorem words_append_cells {cs : List (Nat × List Char)} (hbar : ∀ c ∈ cs, '|' ∉ c.2)
    (hpos : ∀ c ∈ cs, cell c.1 c.2 ≠ []) {text : List Char} (htext : '|' ∉ text) (hne : text ≠ []) :
    words '|' (text ++ cells cs) = text :: cs.map fun c => cell c.1 c.2 := by
  induction cs generalizing text with
  | nil =>
    rw [cells, List.flatMap_nil, List.append_nil, words_of_not_mem htext, if_neg hne, List.map_nil]
  | cons c cs ih =>
    rw [List.forall_mem_cons] at hbar hpos
    have hrest := ih hbar.2 hpos.2 (bar_not_mem_cell hbar.1) hpos.1
    have hcells : cells (c :: cs) = '|' :: (cell c.1 c.2 ++ cells cs) := rfl
    rw [hcells, words_append_cons, words_of_not_mem htext, if_neg hne, hrest]
    rfl

theorem ne_nil_of_length {a : List Char} {n : Nat} (h : a.length = n) (hn : 0 < n) : a ≠ [] :=
  List.ne_nil_of_length_pos (h ▸ hn)

theorem widths_line {store : PrintStore} (h : Fits store) :
    widths (line store) = [9, 10, 15, 15, 5, 7, 8, 10, 10] := by
  have hfirst : (dec store.flowStart.toNat).length ≤ 9 := length_dec_le (by decide) h.flowStart
  have hall := (columns_fit store).mpr ⟨h.nbPackets, h.nbBytes⟩
  have hlen : ∀ c ∈ columns store, (cell c.1 c.2).length = c.1 :=
    fun c hc => length_cell (hall c hc)
  have hpos : ∀ c ∈ columns store, cell c.1 c.2 ≠ [] := by
    intro c hc
    have hwidth : ∀ c ∈ columns store, 0 < c.1 := by simp [columns]
    exact ne_nil_of_length (hlen c hc) (hwidth c hc)
  have hwords := words_append_cells (fun c hc => bar_not_mem_columns hc) hpos
    (bar_not_mem_cell (not_mem_dec rfl)) (ne_nil_of_length (length_cell hfirst) (by decide))
  have hmap :
      (columns store).map (List.length ∘ fun c => cell c.1 c.2) = (columns store).map Prod.fst :=
    List.map_congr_left hlen
  rw [widths, line, hwords, List.map_cons, length_cell hfirst, List.map_map, hmap]
  rfl

/-- What is asked of the line of a store. -/
def WellPrinted (store : PrintStore) : Prop :=
  ∃ text, (test store).Returns (text ++ ['\n']) () ∧
    List.Forall₂ (fun width header => header ≤ width) (widths text) (widths tableHeader)

theorem widths_header : widths tableHeader = [10, 10, 15, 15, 5, 7, 8, 10, 10] := by rfl

theorem widths_of_returns {store : PrintStore} {text : List Char}
    (h : (test store).Returns (text ++ ['\n']) ()) :
      widths text = [9, 10, 15, 15, 5, 7, 8, 10, 10] := by
  obtain ⟨hfits, htext⟩ := returns_test_iff.mp h
  rw [List.append_cancel_right htext, widths_line hfits]

/-- For every store: exactly when all nine loops end, how wide the columns are then, and that the
first is never as wide as its header. -/
theorem test_never (store : PrintStore) :
    ((test store).Halts ↔ Fits store) ∧
    (∀ text, (test store).Returns (text ++ ['\n']) () →
      widths text = [9, 10, 15, 15, 5, 7, 8, 10, 10]) ∧
    ¬ WellPrinted store := by
  refine ⟨halts_test_iff store, fun text => widths_of_returns, ?_⟩
  rintro ⟨text, hr, hwide⟩
  rw [widths_of_returns hr, widths_header] at hwide
  cases hwide with
  | cons hfirst _ => exact absurd hfirst (by decide)

/-- **Counterexample**: a flow of 2008. The first loop is to stop at -1. -/
theorem flow2008_not_halts : ¬ (test { PrintStore.new with flowStart := 1211276371 }).Halts := by
  rw [halts_test_iff]
  exact fun h => absurd h.flowStart (by decide)

end PrintTest

end Topas
