import Topas.Core.Positions
import Topas.Core.Proc

/-!
# The command line of the external program

The child of `Snortmodule::init` cuts the configured string at its spaces and gives the parts to
`execv`. The loop keeps its positions in `unsigned` variables, compares one of them with
`std::string::npos`, and takes position 0 for the end of the command when it has none yet; the name
of the program is cut a second time behind the loop.

* `not_halts_of_lt`: where `size_t` is the wider type, the loop never sees that there is no more
  space.
* `initChild_returns`: otherwise the arguments are the words behind the first space.
* `initChild_path`: and the name is the text before it, for which there must be one.
-/
namespace Topas

namespace Snort

open Proc Text

/-- A `std::string`, which is shorter than `npos`. -/
structure CommandLine (W : Widths) where
  text : List Char
  length_lt : text.length < W.npos

/-- A call of `execv`, with what is read through the pointers. -/
structure Execv where
  path : List Char
  argv : List (List Char)
  deriving DecidableEq, Repr

/-- The variables of the loop. -/
structure Splitting where
  args : List (List Char)
  command : List Char
  last : Nat
  commandEnd : Nat
  more : Bool

/-- `std::string(s.begin() + i, s.begin() + j)`. -/
def range (s : List Char) (i j : Nat) : Proc Execv (List Char) :=
  if i ≤ j ∧ j ≤ s.length then return (s.take j).drop i else stuck

/-- `s.erase(pos)`, which throws behind the end. -/
def erase (s : List Char) (pos : Nat) : Proc Execv (List Char) :=
  if pos ≤ s.length then return s.take pos else stuck

/-- mirrors detectionmodules/snortmodule/snortmodule.cpp:137-150 -/
def splitRound (W : Widths) (execute : List Char) (s : Splitting) : Proc Execv Splitting := do
  let found := W.toUnsigned (W.find execute ' ' s.last)
  let more := s.more && decide (found ≠ W.npos)
  let res := if found = W.npos then W.toUnsigned execute.length else found
  if s.commandEnd = 0 then
    let command ← range execute 0 res
    return { s with command, commandEnd := res, last := W.toUnsigned (res + 1), more }
  else
    let arg ← range execute s.last res
    return { s with
      args := if arg = [] then s.args else s.args ++ [arg]
      last := W.toUnsigned (res + 1)
      more }

/-- mirrors detectionmodules/snortmodule/snortmodule.cpp:126-161 -/
def initChild (W : Widths) (execute : List Char) : Proc Execv Unit := do
  let s ← loop (fun s => s.more) (splitRound W execute) ⟨[], [], 0, 0, true⟩
  let arg0 ← erase execute (W.find execute ' ' 0)
  emit ⟨cStr arg0, cStr arg0 :: s.args.map cStr⟩

section Split

variable {W : Widths} {execute : List Char} {s : Splitting}

theorem range_returns (p a b : List Char) :
    (range (p ++ (a ++ b)) p.length (p.length + a.length)).Returns [] a := by
  have hlen : p.length ≤ p.length + a.length ∧ p.length + a.length ≤ (p ++ (a ++ b)).length := by
    simp only [List.length_append]
    omega
  have htake : (p ++ (a ++ b)).take (p.length + a.length) = p ++ a := by
    rw [← List.append_assoc, ← List.length_append, List.take_left]
  rw [range, if_pos hlen, htake, List.drop_left]
  exact returns_pure.mpr ⟨rfl, rfl⟩

/-! ## The loop -/

/-- A round never leaves the loop. -/
theorem splitRound_more (h : W.unsigned < W.sizeT) {l : List Execv} {s' : Splitting}
    (hr : (splitRound W execute s).Returns l s') : s'.more = s.more := by
  unfold splitRound at hr
  simp only [W.toUnsigned_ne_npos h, ne_eq, not_false_eq_true, decide_true, Bool.and_true,
    if_false] at hr
  split at hr
  · obtain ⟨_, _, _, -, hs', -⟩ := returns_bind.mp hr
    rw [(returns_pure.mp hs').2]
  · obtain ⟨_, _, _, -, hs', -⟩ := returns_bind.mp hr
    rw [(returns_pure.mp hs').2]

theorem not_halts_of_lt (h : W.unsigned < W.sizeT) : ¬ (initChild W execute).Halts := by
  refine not_halts_bind (not_halts_loop (fun s => s.more = true) (fun s hs => hs) ?_ rfl)
  intro s l s' hs hr
  rw [splitRound_more h hr, hs]

/-- The round of the command, which a space ends. -/
theorem splitRound_command (hw : W.unsigned = W.sizeT) {a b : List Char} (ha : ' ' ∉ a)
    (hlen : (a ++ ' ' :: b).length < W.npos) :
    (splitRound W (a ++ ' ' :: b) ⟨[], [], 0, 0, true⟩).Returns []
      ⟨[], a, a.length + 1, a.length, true⟩ := by
  rw [List.length_append, List.length_cons] at hlen
  have hfind : W.find (a ++ ' ' :: b) ' ' 0 = a.length := by
    simpa using W.find_append [] a b ha
  have hrange := range_returns [] a (' ' :: b)
  rw [List.nil_append, List.length_nil, Nat.zero_add] at hrange
  unfold splitRound
  simp only [hfind, W.toUnsigned_eq hw (show a.length ≤ W.npos by omega),
    if_neg (show a.length ≠ W.npos by omega), if_true,
    W.toUnsigned_eq hw (show a.length + 1 ≤ W.npos by omega)]
  refine hrange.bind (returns_pure.mpr ⟨rfl, ?_⟩)
  simp [show a.length ≠ W.npos by omega]

/-- What is found behind `p`: the end of the part, and whether a space follows. -/
theorem find_part (hw : W.unsigned = W.sizeT) {p a b : List Char} {found : Nat} (ha : ' ' ∉ a)
    (hb : b = [] ∨ ∃ b', b = ' ' :: b') (hlen : (p ++ (a ++ b)).length < W.npos)
    (hfound : found = W.toUnsigned (W.find (p ++ (a ++ b)) ' ' p.length)) :
    (if found = W.npos then W.toUnsigned (p ++ (a ++ b)).length else found) = p.length + a.length ∧
      decide (found ≠ W.npos) = decide (b ≠ []) := by
  rcases hb with rfl | ⟨b, rfl⟩
  · rw [List.append_nil] at hlen hfound ⊢
    rw [W.find_none p a ha, W.toUnsigned_eq hw (Nat.le_refl _)] at hfound
    rw [hfound, if_pos rfl, W.toUnsigned_eq hw (Nat.le_of_lt hlen), List.length_append]
    exact ⟨rfl, by simp⟩
  · simp only [List.length_append, List.length_cons] at hlen
    rw [W.find_append p a b ha, W.toUnsigned_eq hw (by omega)] at hfound
    have hne : found ≠ W.npos := by omega
    rw [if_neg hne, hfound]
    rw [hfound] at hne
    exact ⟨rfl, by simp [hne]⟩

/-- A round behind the command: the part up to the next space, or to the end, is an argument unless
it is empty. -/
theorem splitRound_arg (hw : W.unsigned = W.sizeT) {p a b : List Char} (ha : ' ' ∉ a)
    (hb : b = [] ∨ ∃ b', b = ' ' :: b') (hlen : (p ++ (a ++ b)).length < W.npos)
    (hlast : s.last = p.length) (hend : s.commandEnd ≠ 0) (hmore : s.more = true) :
    (splitRound W (p ++ (a ++ b)) s).Returns []
      { s with
        args := s.args ++ words ' ' a
        last := p.length + a.length + 1
        more := decide (b ≠ []) } := by
  obtain ⟨hres, hmore'⟩ := find_part hw ha hb hlen rfl
  have hargs : (if a = [] then s.args else s.args ++ [a]) = s.args ++ words ' ' a := by
    rw [words_of_not_mem ha]
    split
    · rw [List.append_nil]
    · rfl
  have hnext : W.toUnsigned (p.length + a.length + 1) = p.length + a.length + 1 := by
    simp only [List.length_append] at hlen
    exact W.toUnsigned_eq hw (by omega)
  unfold splitRound
  simp only [hlast, hres, hmore', if_neg hend, hmore, Bool.true_and, hnext]
  refine (range_returns p a b).bind (returns_pure.mpr ⟨rfl, ?_⟩)
  simp only [hargs]

/-- The loop behind the command takes the words of what is left. -/
theorem splitLoop_returns (hw : W.unsigned = W.sizeT) {p rest : List Char}
    (hlen : (p ++ rest).length < W.npos) (hlast : s.last = p.length) (hend : s.commandEnd ≠ 0)
    (hmore : s.more = true) :
    ∃ s', (loop (fun s => s.more) (splitRound W (p ++ rest)) s).Returns [] s' ∧
      s'.args = s.args ++ words ' ' rest := by
  induction hn : rest.length using Nat.strongRecOn generalizing p rest s with
  | _ n ih =>
    by_cases hspace : ' ' ∈ rest
    · obtain ⟨a, b, rfl, ha⟩ := List.eq_append_cons_of_mem hspace
      have hround := splitRound_arg hw ha (.inr ⟨b, rfl⟩) hlen hlast hend hmore
      have htext : p ++ (a ++ ' ' :: b) = (p ++ a ++ [' ']) ++ b := by simp
      have hlen' : ((p ++ a ++ [' ']) ++ b).length < W.npos := htext ▸ hlen
      obtain ⟨s', hs', hargs⟩ := ih b.length (by simp at hn; omega)
        (s :=
          { s with args := s.args ++ words ' ' a, last := p.length + a.length + 1, more := true })
        hlen' (by simp [Nat.add_assoc]) hend rfl rfl
      refine ⟨s', (returns_loop_step hmore).mpr (hround.bind ?_), ?_⟩
      · rw [htext]
        simpa using hs'
      · rw [hargs, words_append_cons, List.append_assoc]
    · have hround :=
        splitRound_arg (b := []) hw hspace (.inl rfl) (by simpa using hlen) hlast hend hmore
      rw [List.append_nil] at hround
      refine
        ⟨_, (returns_loop_step hmore).mpr (hround.bind ((returns_loop_done ?_).mpr ⟨rfl, rfl⟩)),
        rfl⟩
      simp

end Split

/-! ## The call -/

section Child

variable {W : Widths} {execute : List Char}

/-- What is read through the pointers are the words, unless one of them has a NUL. -/
theorem map_cStr_words (s : List Char) : (words ' ' s).map cStr = words ' ' s ↔ '\x00' ∉ s := by
  have hid : (words ' ' s).map cStr = words ' ' s ↔ ∀ w ∈ words ' ' s, cStr w = w := by
    simpa using List.map_inj_left (f := cStr) (g := id) (l := words ' ' s)
  rw [hid, mem_iff_words (show '\x00' ≠ ' ' by decide) s]
  simp only [cStr_eq_self, not_exists, not_and]

/-- The name of the program is the text before the first space, for which there must be one. -/
theorem initChild_path {call : Execv} (h : (initChild W execute).Returns [call] ()) :
    W.find execute ' ' 0 ≤ execute.length ∧
    call.path = cStr (execute.take (W.find execute ' ' 0)) := by
  obtain ⟨l, s, _, -, h, hl⟩ := returns_bind.mp h
  obtain ⟨_, arg0, _, herase, hemit, rfl⟩ := returns_bind.mp h
  rw [returns_emit.mp hemit, ← List.append_assoc] at hl
  have hcall : call = ⟨cStr arg0, cStr arg0 :: s.args.map cStr⟩ := by
    simpa using congrArg List.getLast? hl
  unfold erase at herase
  split at herase
  · rename_i hle
    rw [hcall, (returns_pure.mp herase).2]
    exact ⟨hle, rfl⟩
  · obtain ⟨n, hn⟩ := herase
    cases hn

theorem initChild_returns (hw : W.unsigned = W.sizeT) {a b : List Char} (ha : ' ' ∉ a)
    (hne : a ≠ []) (hlen : (a ++ ' ' :: b).length < W.npos) :
    (initChild W (a ++ ' ' :: b)).Returns
      [⟨cStr a, (words ' ' (a ++ ' ' :: b)).map cStr⟩] () := by
  have htext : (a ++ [' ']) ++ b = a ++ ' ' :: b := by simp
  have hlen' : ((a ++ [' ']) ++ b).length < W.npos := htext ▸ hlen
  obtain ⟨s', hs', hargs⟩ :=
    splitLoop_returns hw (s := ⟨[], a, a.length + 1, a.length, true⟩) hlen' (by simp)
    (by simpa using hne) rfl
  rw [htext] at hs'
  have hloop : (loop (fun s => s.more) (splitRound W (a ++ ' ' :: b))
      ⟨[], [], 0, 0, true⟩).Returns [] s' :=
    (returns_loop_step rfl).mpr ((splitRound_command hw ha hlen).bind hs')
  have herase : (erase (a ++ ' ' :: b) (W.find (a ++ ' ' :: b) ' ' 0)).Returns [] a := by
    have hfind := W.find_append [] a b ha
    rw [List.nil_append, List.length_nil, Nat.zero_add] at hfind
    rw [hfind, erase, if_pos (by simp), List.take_left]
    exact returns_pure.mpr ⟨rfl, rfl⟩
  refine hloop.then (herase.then (returns_emit.mpr ?_))
  rw [hargs, words_append_cons, words_of_not_mem ha, if_neg hne, List.nil_append,
    List.singleton_append,
    List.map_cons]

/-- The words of the string, and the first of them as the program, are what `execv` is given exactly
if the positions can be `npos`, the string has a space, does not begin with one and has no NUL. -/
theorem execv_words_iff (W : Widths) (c : CommandLine W) :
    (∃ program arguments, words ' ' c.text = program :: arguments ∧
        (initChild W c.text).Returns [⟨program, program :: arguments⟩] ()) ↔
      W.unsigned = W.sizeT ∧ ' ' ∈ c.text ∧ c.text.head? ≠ some ' ' ∧ '\x00' ∉ c.text := by
  obtain ⟨text, hlen⟩ := c
  refine ⟨?_, ?_⟩
  · rintro ⟨program, arguments, hwords, hr⟩
    have hw : W.unsigned = W.sizeT := by
      by_contra h
      exact not_halts_of_lt (Nat.lt_of_le_of_ne W.le h) hr.halts
    obtain ⟨hle, hpath⟩ : W.find text ' ' 0 ≤ text.length ∧
      program = cStr (text.take (W.find text ' ' 0)) := initChild_path hr
    have hprogram : program ≠ [] := ne_nil_of_mem_words (hwords ▸ List.mem_cons_self)
    have hspace : ' ' ∈ text := by
      by_contra h
      have hnone := W.find_none [] text h
      rw [List.nil_append, List.length_nil] at hnone
      omega
    obtain ⟨a, b, rfl, ha⟩ := List.eq_append_cons_of_mem hspace
    have hfind := W.find_append [] a b ha
    rw [List.nil_append, List.length_nil, Nat.zero_add] at hfind
    have hne : a ≠ [] := by
      rintro rfl
      rw [hfind] at hpath
      exact hprogram hpath
    refine ⟨hw, hspace, ?_, ?_⟩
    · obtain ⟨x, a, rfl⟩ := List.exists_cons_of_ne_nil hne
      rintro hx
      cases hx
      exact ha List.mem_cons_self
    · have hcalls := (hr.det (initChild_returns hw ha hne hlen)).1
      rw [List.singleton_inj, Execv.mk.injEq, ← hwords] at hcalls
      exact (map_cStr_words _).mp hcalls.2.symm
  · rintro ⟨hw, hspace, hhead, hnul⟩
    obtain ⟨a, b, rfl, ha⟩ := List.eq_append_cons_of_mem hspace
    have hne : a ≠ [] := by
      rintro rfl
      exact hhead rfl
    have hwords : words ' ' (a ++ ' ' :: b) = a :: words ' ' b := by
      rw [words_append_cons, words_of_not_mem ha, if_neg hne, List.singleton_append]
    have hcalls := initChild_returns hw ha hne hlen
    rw [(map_cStr_words _).mpr hnul, hwords,
      cStr_eq_self.mpr fun h => hnul (List.mem_append_left _ h)] at hcalls
    exact ⟨a, words ' ' b, hwords, hcalls⟩

/-- **Counterexample**: with 32 and 64 bits the loop does not end; with 32 and 32 bits, `snort`
alone is not started, and the command that a space stands before is lost. -/
theorem commandLine_not_split :
    ¬ (initChild .lp64 "snort -c x".toList).Halts ∧
      ¬ (initChild .ilp32 "snort".toList).Halts ∧
      (initChild .ilp32 " snort -c".toList).Returns [⟨[], [[], "-c".toList]⟩] () ∧
      ¬ ∀ (W : Widths) (c : CommandLine W), c.text ≠ [] →
        ∃ program arguments, words ' ' c.text = program :: arguments ∧
          (initChild W c.text).Returns [⟨program, program :: arguments⟩] () := by
  have hlp64 : ¬ (initChild .lp64 "snort -c x".toList).Halts := not_halts_of_lt (by decide)
  refine ⟨hlp64, ?_, ?_, fun hall => ?_⟩
  · rintro ⟨l, u, hr⟩
    obtain ⟨_, _, _, -, h, -⟩ := returns_bind.mp hr
    obtain ⟨_, _, _, ⟨n, hn⟩, -, -⟩ := returns_bind.mp h
    cases hn
  · exact ⟨4, rfl⟩
  · obtain ⟨program, arguments, -, hr⟩ := hall .lp64 ⟨"snort -c x".toList, by decide⟩ (by decide)
    exact hlp64 hr.halts

end Child

end Snort

end Topas
