import Topas.Core.Positions
import Topas.Core.XmlText

/-!
# The IDMEF messages that are sent on

`Snortmodule::xmlWrapperEntry` reads the messages of the external program line by line, puts its
own module id and its own TOPAS id into each, and sends it on. The attributes are found by
`analyzerid=` and `ident=` anywhere in the text, at positions that are kept in `unsigned` variables.
-/
namespace Topas

namespace Snort

open XmlText

/-! mirrors detectionmodules/snortmodule/configstrings.h:30-37 -/

def IDMEF_CLOSING_TAG : List Char := "</IDMEF-Message>".toList
def IDMEF_ANALYZER_CLOSING_TAG : List Char := "</Analyzer>".toList
def IDMEF_NODE_OPENING_TAG : List Char := "<Node".toList
def IDMEF_ANALYZERID : List Char := "analyzerid=".toList
def IDMEF_NODE_IDENT : List Char := "ident=".toList

/-- `str.replace(str.begin() + beginPos, str.begin() + endPos, value)`, for positions in order. -/
def replace (str : List Char) (beginPos endPos : Nat) (value : List Char) : Option (List Char) :=
  if beginPos ≤ endPos ∧
    endPos ≤ str.length then some (str.take beginPos ++ value ++ str.drop endPos)
  else none

/-- `str.insert(pos, value)`, which throws behind the end. -/
def insert (str : List Char) (pos : Nat) (value : List Char) : Option (List Char) :=
  if pos ≤ str.length then some (str.take pos ++ value ++ str.drop pos) else none

variable (P : Platform)

/-- The value behind `tag`, up to the next `"`, is replaced. -/
def replaceValue (message : List Char) (pos : Nat) (tag value : List Char) : Option (List Char) :=
  let beginPos := P.toUnsigned (pos + tag.length + 1)
  let endPos := P.toUnsigned (P.find message '"' beginPos)
  replace message beginPos endPos value

/-- What is done to a message that has been read; `none` where it is undefined or throws.
mirrors detectionmodules/snortmodule/snortmodule.cpp:487-514 -/
def changeAttributes (analyzerid analyzerNodeIdent message : List Char) : Option (List Char) :=
  let analyzeridPos := P.toUnsigned (P.findText message IDMEF_ANALYZERID 0)
  let analyzerEndPos := P.toUnsigned (P.findText message IDMEF_ANALYZER_CLOSING_TAG 0)
  let analyzerNodePos := P.toUnsigned (P.findText message IDMEF_NODE_OPENING_TAG analyzeridPos)
  if P.npos ≠ analyzeridPos ∧ P.npos ≠ analyzerEndPos ∧ P.npos ≠ analyzerNodePos then do
    let message ← replaceValue P message analyzeridPos IDMEF_ANALYZERID analyzerid
    let analyzerNodePos := P.toUnsigned (P.findText message IDMEF_NODE_OPENING_TAG analyzeridPos)
    let identPos := P.toUnsigned (P.findText message IDMEF_NODE_IDENT analyzeridPos)
    if P.npos ≠ identPos then replaceValue P message identPos IDMEF_NODE_IDENT analyzerNodeIdent
    else
      insert message (P.toUnsigned (analyzerNodePos + IDMEF_NODE_OPENING_TAG.length + 1))
        (IDMEF_NODE_IDENT ++ '"' :: analyzerNodeIdent ++ "\" ".toList)
  else some message

/-- The messages sent on for the lines that are read, each up to its closing tag. -/
def readLoop (analyzerid analyzerNodeIdent : List Char) :
    List Char → List (List Char) → Option (List (List Char))
  | _, [] => some []
  | message, line :: lines =>
    if line = IDMEF_CLOSING_TAG ++ ['\n'] then do
      let sent ← changeAttributes P analyzerid analyzerNodeIdent (message ++ line)
      let rest ← readLoop analyzerid analyzerNodeIdent [] lines
      return sent :: rest
    else readLoop analyzerid analyzerNodeIdent (message ++ line) lines

/-- What is sent on of the text that comes out of the FIFO; a line is taken for a C string.
mirrors detectionmodules/snortmodule/snortmodule.cpp:484-520 -/
def xmlWrapperEntry (analyzerid analyzerNodeIdent fifo : List Char) : Option (List (List Char)) :=
  readLoop P analyzerid analyzerNodeIdent [] ((Text.lines fifo).map Text.cStr)

/-! ## Messages -/

/-- The ids are those of xmlBlaster sessions.
mirrors detectionmodules/detectionbase/detectionbase.h:505-508,
detectionmodules/snortmodule/snortmodule.cpp:179-183 -/
def moduleId (session : Int64) : List Char := "snortmodule-".toList ++ Text.decInt session.toInt

def topasId (session : Int64) : List Char := "topas-".toList ++ Text.decInt session.toInt

/-! ## Where the code replaces -/

/-- The position is that one, or one that the code takes for it. -/
def Hits (o : Option Nat) (i : Nat) : Prop := ∃ k, o = some (i + k * 2 ^ P.unsigned)

variable {P}

theorem find_append (u v : List Char) (c : Char) :
    P.find (u ++ v) c u.length =
      match v.findIdx? (· = c) with
      | some i => u.length + i
      | none => P.npos := by
  show (match ((u ++ v).drop u.length).findIdx? (· = c) with
    | some i => u.length + i
    | none => P.npos) = _
  rw [List.drop_left]

/-- Both replacements are made, whatever the positions are. -/
theorem changeAttributes_eq (x y message : List Char) :
    changeAttributes P x y message =
      (replaceValue P message
        (P.toUnsigned (P.findText message IDMEF_ANALYZERID 0)) IDMEF_ANALYZERID x).bind
        fun message' => replaceValue P message'
          (P.toUnsigned (P.findText message' IDMEF_NODE_IDENT
            (P.toUnsigned (P.findText message IDMEF_ANALYZERID 0)))) IDMEF_NODE_IDENT y := by
  unfold changeAttributes
  dsimp only
  rw [if_pos
    ⟨(P.toUnsigned_ne_npos _).symm, (P.toUnsigned_ne_npos _).symm, (P.toUnsigned_ne_npos _).symm⟩]
  refine congrArg (Option.bind _) (funext fun message' => ?_)
  exact if_pos (P.toUnsigned_ne_npos _).symm

/-- The value that is replaced is the same for every new one. -/
theorem replaceValue_of_some {s tag v o : List Char} {pos : Nat}
    (h : replaceValue P s pos tag v = some o) :
    ∃ a w b, s = a ++ w ++ b ∧ a.length = P.toUnsigned (pos + tag.length + 1) ∧
      a.length + w.length = P.toUnsigned (P.find s '"' a.length) ∧
      ∀ v, replaceValue P s pos tag v = some (a ++ v ++ b) := by
  unfold replaceValue replace at h ⊢
  dsimp only at h ⊢
  generalize P.toUnsigned (pos + tag.length + 1) = beginPos at *
  split at h
  · rename_i hpos
    generalize hend : P.toUnsigned (P.find s '"' beginPos) = endPos at *
    have hlen : (s.take beginPos).length = beginPos := List.length_take_of_le (by omega)
    refine
      ⟨s.take beginPos, (s.drop beginPos).take (endPos - beginPos), s.drop endPos, ?_, hlen, ?_, ?_⟩
    · have hdrop : s.drop endPos = (s.drop beginPos).drop (endPos - beginPos) := by
        rw [List.drop_drop, Nat.add_sub_cancel' hpos.1]
      rw [hdrop, List.append_assoc, List.take_append_drop, List.take_append_drop]
    · rw [hlen, hend, List.length_take_of_le (by rw [List.length_drop]; omega)]
      omega
    · exact fun v => if_pos hpos
  · cases h

theorem replaceValue_eq {a w b tag : List Char} {pos : Nat}
    (hpos : P.toUnsigned (pos + tag.length + 1) = a.length)
    (hend : P.toUnsigned (P.find (a ++ w ++ b) '"' a.length) = a.length + w.length) (v : List Char) :
    replaceValue P (a ++ w ++ b) pos tag v = some (a ++ v ++ b) := by
  unfold replaceValue replace
  dsimp only
  rw [hpos, hend, if_pos (by simp), List.append_assoc a w b, List.take_left, ← List.append_assoc,
    ← List.length_append, List.drop_left]

/-! ## Texts with something put in -/

/-- What is the same with two elements at a place ends before it. -/
theorem length_le_of_hole {α : Type} {l a x y s t : List α} {c d : α} (hcd : c ≠ d)
    (h : l ++ c :: x = a ++ s) (h' : l ++ d :: y = a ++ t) : a.length ≤ l.length := by
  refine Nat.le_of_not_lt fun hlt => ?_
  have hc := congrArg (·[l.length]?) h
  have hd := congrArg (·[l.length]?) h'
  simp only [List.getElem?_append_left hlt, List.getElem?_append_right (Nat.le_refl _),
    Nat.sub_self,
    List.getElem?_cons_zero] at hc hd
  exact hcd (Option.some.inj (hc.trans hd.symm))

/-- Two texts with the same place for an element show where it is. -/
theorem length_eq_of_hole {α : Type} {l a b x y : List α} {c d : α} (hcd : c ≠ d)
    (h : l ++ c :: x = a ++ c :: b) (h' : l ++ d :: y = a ++ d :: b) : l.length = a.length :=
  Nat.le_antisymm (length_le_of_hole hcd h.symm h'.symm) (length_le_of_hole hcd h h')

theorem moduleId_zero : moduleId 0 = "snortmodule-".toList ++ ['0'] := rfl

theorem moduleId_one : moduleId 1 = "snortmodule-".toList ++ ['1'] := rfl

theorem moduleId_ten : moduleId 10 = "snortmodule-".toList ++ ['1', '0'] := rfl

theorem topasId_zero : topasId 0 = "topas-".toList ++ ['0'] := rfl

theorem topasId_one : topasId 1 = "topas-".toList ++ ['1'] := rfl

/-- Where an id is put in. -/
theorem length_eq_of_id {id : Int64 → List Char} {w : List Char} (h0 : id 0 = w ++ ['0'])
    (h1 : id 1 = w ++ ['1']) {l a b : List Char} (h : ∀ i, ∃ x, l ++ id i ++ x = a ++ id i ++ b) :
      l.length = a.length := by
  obtain ⟨x, hx⟩ := h 0
  obtain ⟨y, hy⟩ := h 1
  rw [h0] at hx
  rw [h1] at hy
  have hlen := @length_eq_of_hole _ (l ++ w) (a ++ w) b x y '0' '1' (by decide) (by simpa using hx)
    (by simpa using hy)
  simpa using hlen

/-- A quote that is there for every TOPAS id stands before it. -/
theorem lt_of_topasId {l c d : List Char} {q : Char} (hq : q ∉ "topas-0".toList)
    (h : ∀ j, ∃ x, l ++ q :: x = c ++ topasId j ++ d) : l.length < c.length := by
  refine Nat.lt_of_not_le fun hle => ?_
  obtain ⟨x, hx⟩ := h 0
  obtain ⟨y, hy⟩ := h 1
  rw [topasId_zero, List.append_assoc] at hx
  rw [topasId_one, List.append_assoc] at hy
  rcases Nat.lt_or_ge (l.length - c.length) 7 with hlt | hge
  · have hat := congrArg (·[l.length]?) hx
    simp only [List.getElem?_append_right (Nat.le_refl _), Nat.sub_self, List.getElem?_cons_zero,
      List.getElem?_append_right hle] at hat
    rw [List.getElem?_append_left (by simpa using hlt)] at hat
    exact hq (List.mem_of_getElem? hat.symm)
  · have hin : c.length + 6 < l.length := by omega
    have hat := congrArg (·[c.length + 6]?) hx
    have hat' := congrArg (·[c.length + 6]?) hy
    simp only [List.getElem?_append_left hin, List.getElem?_append_right (Nat.le_add_right _ _),
      Nat.add_sub_cancel_left] at hat hat'
    exact absurd (hat.symm.trans hat') (by simp)

/-- The part that is behind the first value after its replacement begins with the closing quote. -/
theorem tail_of_quote {id t w b : List Char} {q : Char} (hid : q ∉ id)
    (h : id ++ q :: t = w ++ q :: b) :
    ∃ z, w = id ++ z ∧ q :: t = z ++ q :: b := by
  rcases List.append_eq_append_iff.mp h with ⟨z, hw, ht⟩ | ⟨z, hid', hb⟩
  · exact ⟨z, hw, ht⟩
  · cases z with
    | nil => exact ⟨[], by simpa using hid'.symm, by simpa using hb.symm⟩
    | cons c z =>
      injection hb with hc _
      exact absurd (hid' ▸ List.mem_append_right _ (hc ▸ List.mem_cons_self)) hid

/-- What is right up to a quote for every TOPAS id has it before the place of the id. -/
theorem exists_behind {l c u d : List Char} {q : Char} (hq : q ∉ "topas-0".toList)
    (h : ∀ j, ∃ x, l ++ q :: x = c ++ topasId j ++ d) : ∃ x, l ++ q :: x = c ++ u ++ d := by
  have hlt := lt_of_topasId hq h
  obtain ⟨x, hx⟩ := h 0
  rw [List.append_assoc c] at hx
  rcases List.append_eq_append_iff.mp hx with ⟨z, hc, hz⟩ | ⟨z, hl, _⟩
  · cases z with
    | nil =>
      rw [hc, List.append_nil] at hlt
      exact absurd hlt (Nat.lt_irrefl _)
    | cons e z =>
      injection hz with hqe _
      subst hqe
      exact ⟨z ++ u ++ d, by rw [hc]; simp⟩
  · rw [hl, List.length_append] at hlt
    omega

/-- The second replacement, of what the first one has left. -/
theorem changeAttributes_of_first {message a b x y o : List Char} {pos : Nat}
    (hpos : pos = P.toUnsigned (P.findText message IDMEF_ANALYZERID 0))
    (hfirst : replaceValue P message pos IDMEF_ANALYZERID x = some (a ++ x ++ b))
    (h : changeAttributes P x y message = some o) :
    ∃ c u d, a ++ x ++ b = c ++ u ++ d ∧
      c.length = P.toUnsigned (P.toUnsigned
        (P.findText (a ++ x ++ b) IDMEF_NODE_IDENT pos) + IDMEF_NODE_IDENT.length + 1) ∧
      c.length + u.length = P.toUnsigned (P.find (a ++ x ++ b) '"' c.length) ∧
      ∀ y, changeAttributes P x y message = some (c ++ y ++ d) := by
  subst hpos
  rw [changeAttributes_eq, hfirst, Option.bind_some] at h
  obtain ⟨c, u, d, hcud, hc, hu, hall⟩ := replaceValue_of_some h
  refine ⟨c, u, d, hcud, hc, hu, fun y => ?_⟩
  rw [changeAttributes_eq, hfirst, Option.bind_some]
  exact hall y

/-- Where the text up to the first value and its closing quote are right for all ids, the first
replacement begins where the value does, and the second one is behind it. -/
theorem first_value {head id t : List Char} {q : Char} (hq : q ∉ "topas-0".toList) (hid : q ∉ id)
    (h : ∀ i j, ∃ x, changeAttributes P (moduleId i) (topasId j) (head ++ id ++ q :: t) =
      some (head ++ moduleId i ++ q :: x)) :
    let pos := P.toUnsigned (P.findText (head ++ id ++ q :: t) IDMEF_ANALYZERID 0)
    ∃ z b, q :: t = z ++ q :: b ∧ head.length = P.toUnsigned (pos + IDMEF_ANALYZERID.length + 1) ∧
      head.length + (id.length + z.length) =
        P.toUnsigned (P.find (head ++ id ++ q :: t) '"' head.length) ∧
      ∀ i, ∃ c u d, head ++ moduleId i ++ q :: b = c ++ u ++ d ∧
        c.length = P.toUnsigned (P.toUnsigned
          (P.findText (head ++ moduleId i ++ q :: b) IDMEF_NODE_IDENT pos) +
            IDMEF_NODE_IDENT.length + 1) ∧
        c.length + u.length = P.toUnsigned (P.find (head ++ moduleId i ++ q :: b) '"' c.length) ∧
        ∀ y, changeAttributes P (moduleId i) y (head ++ id ++ q :: t) = some (c ++ y ++ d) := by
  intro pos
  obtain ⟨o, ho⟩ : ∃ o, replaceValue P (head ++ id ++ q :: t) pos IDMEF_ANALYZERID (moduleId 0) =
      some o := by
    obtain ⟨x, hx⟩ := h 0 0
    rw [changeAttributes_eq] at hx
    obtain ⟨o, ho, _⟩ := Option.bind_eq_some_iff.mp hx
    exact ⟨o, ho⟩
  obtain ⟨a, w, b, htext, ha, hw, hfirst⟩ := replaceValue_of_some ho
  have hsecond := fun i => changeAttributes_of_first rfl (hfirst (moduleId i)) (h i 0).choose_spec
  -- the second replacement is behind the closing quote, so that the quote is in the text before it
  have hbehind : ∀ i, ∃ x, head ++ moduleId i ++ q :: x = a ++ moduleId i ++ b := by
    intro i
    obtain ⟨c, u, d, hcud, _, _, hall⟩ := hsecond i
    rw [hcud]
    refine exists_behind hq fun j => ?_
    obtain ⟨x, hx⟩ := h i j
    exact ⟨x, Option.some.inj (hx.symm.trans (hall (topasId j)))⟩
  have hlen : head.length = a.length :=
    length_eq_of_id moduleId_zero moduleId_one fun i => (hbehind i).imp' (q :: ·) fun x hx => hx
  have hparts : head = a ∧ id ++ q :: t = w ++ b := by
    refine List.append_inj ?_ hlen
    rw [← List.append_assoc, htext, List.append_assoc]
  obtain ⟨rfl, hrest⟩ := hparts
  obtain ⟨b', rfl⟩ : ∃ b', b = q :: b' := by
    obtain ⟨x, hx⟩ := hbehind 0
    exact ⟨x, (List.append_cancel_left hx).symm⟩
  obtain ⟨z, rfl, hz⟩ := tail_of_quote hid hrest
  refine ⟨z, b', hz, ha, ?_, hsecond⟩
  rw [← hw, List.length_append]

/-! ## Positions -/

theorem exists_of_toUnsigned {n a : Nat} (h : P.toUnsigned n = a) :
    ∃ k, n = a + k * 2 ^ P.unsigned := by
  refine ⟨n / 2 ^ P.unsigned, ?_⟩
  rw [← h, Widths.toUnsigned, Nat.mul_comm, Nat.mod_add_div]

theorem toUnsigned_add_mul {a : Nat} (k : Nat) (h : a < 2 ^ P.unsigned) :
    P.toUnsigned (a + k * 2 ^ P.unsigned) = a := by
  rw [Widths.toUnsigned, Nat.add_mul_mod_self_right, Nat.mod_eq_of_lt h]

/-- A position behind a pattern of `n` characters that is not found is a small one. -/
theorem toUnsigned_npos_add (n : Nat) : P.toUnsigned (P.toUnsigned P.npos + (n + 1)) ≤ n := by
  have hpos := Nat.two_pow_pos P.unsigned
  have heq : P.toUnsigned P.npos + (n + 1) = n + 1 * 2 ^ P.unsigned := by
    rw [P.toUnsigned_npos]
    omega
  rw [heq, Widths.toUnsigned, Nat.add_mul_mod_self_right]
  exact Nat.mod_le _ _

/-! ## Searching behind the first value -/

theorem decInt_ne_nil (i : Int) : Text.decInt i ≠ [] := by
  unfold Text.decInt
  split
  · exact List.cons_ne_nil _ _
  · exact Text.dec_ne_nil _

/-- The last character of a module id is not in `ident=`, and neither `=` nor a quote is before it.
-/
theorem moduleId_eq (i : Int64) :
    ∃ u d, moduleId i = u ++ [d] ∧ d ∉ IDMEF_NODE_IDENT ∧ '=' ∉ u ∧ '"' ∉ moduleId i := by
  obtain ⟨u, d, hud⟩ : ∃ u d, Text.decInt i.toInt = u ++ [d] :=
    ⟨_, _, (List.dropLast_append_getLast (decInt_ne_nil _)).symm⟩
  have hnot : ∀ c : Char, c.isDigit = false → c ≠ '-' → c ∉ "snortmodule-".toList →
      c ∉ "snortmodule-".toList ++ Text.decInt i.toInt := by
    intro c hdigit hminus hc hin
    rcases List.mem_append.mp hin with hin | hin
    · exact hc hin
    · exact Text.not_mem_decInt hdigit hminus hin
  have hequals := hnot '=' rfl (by decide) (by decide)
  have hquote := hnot '"' rfl (by decide) (by decide)
  have hd : d ∉ IDMEF_NODE_IDENT := by
    have hall : IDMEF_NODE_IDENT.all (fun c => !c.isDigit && c != '-') = true := rfl
    intro hin
    have hchar := List.all_eq_true.mp hall d hin
    rw [Bool.and_eq_true, Bool.not_eq_true', bne_iff_ne] at hchar
    refine Text.not_mem_decInt hchar.1 hchar.2 (i := i.toInt) ?_
    exact hud ▸ List.mem_append_right _ (List.mem_singleton_self d)
  rw [hud, ← List.append_assoc] at hequals
  have hid : moduleId i = "snortmodule-".toList ++ u ++ [d] :=
    (congrArg (_ ++ ·) hud).trans (List.append_assoc _ _ _).symm
  exact ⟨"snortmodule-".toList ++ u, d, hid, hd,
    fun hin => hequals (List.mem_append_left _ hin), hquote⟩

theorem length_moduleId_le (i : Int64) : (moduleId i).length ≤ 32 := by
  have hlen : (moduleId i).length = 12 + (Text.decInt i.toInt).length := List.length_append
  rw [hlen]
  exact Nat.add_le_add_left (Text.length_decInt_toInt_le i) 12

/-- No `ident=` begins between the name of the first attribute and the end of its new value. -/
theorem infixIdx_ident {e t : List Char} {q : Char} (he : 't' ∉ e) (hq : q ∉ IDMEF_NODE_IDENT)
    (i : Int64) :
    infixIdx IDMEF_NODE_IDENT (e ++ q :: (moduleId i ++ t)) =
      (infixIdx IDMEF_NODE_IDENT t).map (e.length + 1 + (moduleId i).length + ·) := by
  obtain ⟨u, d, hid, hd, hu, _⟩ := moduleId_eq i
  rw [infixIdx_append_cons _ hq (not_infix_of_mem (c := 't') (by decide) he), hid,
    List.append_assoc,
    List.singleton_append, infixIdx_append_cons _ hd (not_infix_of_mem (c := '=') (by decide) hu),
    Option.map_map]
  refine congrArg (Option.map · _) (funext fun n => ?_)
  simp only [Function.comp_apply, List.length_append, List.length_singleton]
  omega

/-! ## A message with both attributes -/

/-- The text of a message around the two values. -/
structure Parts where
  head : List Char
  id : List Char
  mid : List Char
  ident : List Char
  rest : List Char

namespace Parts

def text (p : Parts) : List Char := p.head ++ p.id ++ (p.mid ++ p.ident ++ p.rest)

/-- With the ids in their place. -/
def changed (p : Parts) (module topas : Int64) : List Char :=
  p.head ++ moduleId module ++ (p.mid ++ topasId topas ++ p.rest)

/-- What `q` and the name of the attribute before it make of the parts. -/
structure Shape (p : Parts) (q : Char) : Prop where
  quote : q = '"' ∨ q = '\''
  head : ∃ z e, p.head = z ++ (e ++ [q]) ∧ e.length = 11 ∧ 't' ∉ e
  id : q ∉ p.id
  mid : ∃ m, p.mid = q :: m
  mid_le : 7 ≤ p.mid.length

variable (P)

/-- The attributes are the ones that the code finds, and their positions fit an `unsigned`. -/
structure Found (p : Parts) : Prop where
  analyzerid : Hits P (infixIdx IDMEF_ANALYZERID p.text) (p.head.length - 12)
  analyzeridEnd : Hits P ((p.id ++ (p.mid ++ p.ident ++ p.rest)).findIdx? (· = '"')) p.id.length
  ident : Hits P (infixIdx IDMEF_NODE_IDENT (p.mid ++ p.ident ++ p.rest)) (p.mid.length - 7)
  identEnd : Hits P ((p.ident ++ p.rest).findIdx? (· = '"')) p.ident.length
  analyzerid_lt : p.head.length + p.id.length < 2 ^ P.unsigned
  ident_lt : ∀ i, p.head.length + (moduleId i).length + p.mid.length + p.ident.length <
    2 ^ P.unsigned

variable {P} {p : Parts} {q : Char}

theorem Shape.not_mem (h : p.Shape q) : q ∉ "topas-0".toList ∧ q ∉ IDMEF_NODE_IDENT := by
  rcases h.quote with rfl | rfl
  · exact ⟨by decide, by decide⟩
  · exact ⟨by decide, by decide⟩

theorem Shape.le_head (h : p.Shape q) : 12 ≤ p.head.length := by
  obtain ⟨z, e, hhead, he, _⟩ := h.head
  rw [hhead]
  simp [he]

/-- Where the search for `ident=` ends, once the module id has been put in. -/
theorem Shape.findText (h : p.Shape q) (i : Int64) (t : List Char) :
    P.findText (p.head ++ moduleId i ++ t) IDMEF_NODE_IDENT (p.head.length - 12) =
      match infixIdx IDMEF_NODE_IDENT t with
      | some n => p.head.length + (moduleId i).length + n
      | none => P.npos := by
  obtain ⟨z, e, hhead, he, ht⟩ := h.head
  have hdrop :
      (p.head ++ moduleId i ++ t).drop (p.head.length - 12) = e ++ q :: (moduleId i ++ t) := by
    have hlen : p.head.length - 12 = z.length := by
      rw [hhead]
      simp [he]
    rw [hlen, hhead]
    simp
  have hle := h.le_head
  rw [Widths.findText, hdrop, infixIdx_ident ht h.not_mem.2, he]
  cases infixIdx IDMEF_NODE_IDENT t with
  | none => rfl
  | some n =>
    simp only [Option.map_some]
    omega

/-- What is found is replaced. -/
theorem changeAttributes_of_found (hshape : p.Shape q) (h : p.Found P) (i j : Int64) :
    changeAttributes P (moduleId i) (topasId j) p.text = some (p.changed i j) := by
  have hle := hshape.le_head
  have hlt := h.analyzerid_lt
  have hlt' := h.ident_lt i
  have hmid := hshape.mid_le
  have hpos : P.toUnsigned (P.findText p.text IDMEF_ANALYZERID 0) = p.head.length - 12 := by
    obtain ⟨k, hk⟩ := h.analyzerid
    simp only [Widths.findText, List.drop_zero, hk, Nat.zero_add]
    exact toUnsigned_add_mul k (by omega)
  have hfirst := @replaceValue_eq P p.head p.id (p.mid ++ p.ident ++ p.rest) IDMEF_ANALYZERID
    (p.head.length - 12) (by
      have hlen : IDMEF_ANALYZERID.length = 11 := rfl
      rw [hlen, Nat.add_assoc, Nat.sub_add_cancel hle]
      exact Nat.mod_eq_of_lt (by omega))
    (by
      obtain ⟨k, hk⟩ := h.analyzeridEnd
      rw [List.append_assoc p.head, find_append, hk]
      simp only [← Nat.add_assoc]
      exact toUnsigned_add_mul k hlt) (moduleId i)
  have hidentPos : P.toUnsigned (P.findText (p.head ++ moduleId i ++ (p.mid ++ p.ident ++ p.rest))
      IDMEF_NODE_IDENT (p.head.length - 12)) = p.head.length + (moduleId i).length +
          (p.mid.length - 7) := by
    obtain ⟨k, hk⟩ := h.ident
    rw [hshape.findText, hk]
    simp only [← Nat.add_assoc]
    exact toUnsigned_add_mul k (by omega)
  have hsecond := @replaceValue_eq P (p.head ++ moduleId i ++ p.mid) p.ident p.rest IDMEF_NODE_IDENT
    (p.head.length + (moduleId i).length + (p.mid.length - 7))
    (by
      have hlen : IDMEF_NODE_IDENT.length = 6 := rfl
      rw [hlen, Widths.toUnsigned, Nat.mod_eq_of_lt (by omega), List.length_append,
        List.length_append]
      omega)
    (by
      obtain ⟨k, hk⟩ := h.identEnd
      rw [List.append_assoc _ p.ident, find_append, hk]
      simp only [← Nat.add_assoc]
      refine toUnsigned_add_mul k ?_
      rw [List.length_append, List.length_append]
      exact hlt') (topasId j)
  rw [changeAttributes_eq, hpos]
  unfold text
  rw [hfirst, Option.bind_some, hidentPos]
  simp only [List.append_assoc] at hsecond ⊢
  rw [hsecond]
  simp [changed]

/-- The first quote of a text behind a part in which there is none. -/
theorem findIdx?_behind {u v : List Char} {p : Char → Bool} {n : Nat}
    (h : (u ++ v).findIdx? p = some (u.length + n)) : v.findIdx? p = some n := by
  rw [List.findIdx?_append] at h
  cases hu : u.findIdx? p with
  | some k =>
    rw [hu] at h
    obtain ⟨hk, _⟩ := List.findIdx?_eq_some_iff_getElem.mp hu
    have heq : k = u.length + n := Option.some.inj h
    omega
  | none =>
    rw [hu, Option.none_or] at h
    obtain ⟨m, hm, heq⟩ := Option.map_eq_some_iff.mp h
    rw [hm]
    exact congrArg some (by omega)

theorem findIdx?_none_of_suffix {u v : List Char} {p : Char → Bool}
    (h : (u ++ v).findIdx? p = none) :
    v.findIdx? p = none := by
  rw [List.findIdx?_eq_none_iff] at h ⊢
  exact fun x hx => h x (List.mem_append_right _ hx)

/-- What is done to the module id and to the ident value, if the result is right for all ids. -/
theorem second_value (hshape : p.Shape q)
    (h : ∀ i j, changeAttributes P (moduleId i) (topasId j) p.text = some (p.changed i j)) :
    let pos := P.toUnsigned (P.findText p.text IDMEF_ANALYZERID 0)
    ∃ z u, p.mid ++ p.ident ++ p.rest = z ++ (p.mid ++ u ++ p.rest) ∧
      p.head.length = P.toUnsigned (pos + IDMEF_ANALYZERID.length + 1) ∧
      p.head.length + (p.id.length + z.length) = P.toUnsigned (P.find p.text '"' p.head.length) ∧
      ∀ i, p.head.length + (moduleId i).length + p.mid.length =
          P.toUnsigned
            (P.toUnsigned
              (P.findText (p.head ++ moduleId i ++ (p.mid ++ u ++ p.rest)) IDMEF_NODE_IDENT
            pos) + IDMEF_NODE_IDENT.length + 1) ∧
        p.head.length + (moduleId i).length + p.mid.length + u.length =
          P.toUnsigned (P.find (p.head ++ moduleId i ++ p.mid ++ (u ++ p.rest)) '"'
            (p.head ++ moduleId i ++ p.mid).length) := by
  intro pos
  obtain ⟨m, hm⟩ := hshape.mid
  have htext : p.text = p.head ++ p.id ++ q :: (m ++ p.ident ++ p.rest) := by simp [text, hm]
  have hfirst :=
      @first_value P p.head p.id (m ++ p.ident ++ p.rest) q hshape.not_mem.1 hshape.id (by
    intro i j
    refine ⟨m ++ topasId j ++ p.rest, ?_⟩
    rw [← htext, h i j, changed, hm]
    simp)
  dsimp only at hfirst
  rw [← htext] at hfirst
  obtain ⟨z, b, hz, hhead, hend, hall⟩ := hfirst
  have hpart : ∀ i, ∃ u, q :: b = p.mid ++ u ++ p.rest ∧
      p.head.length + (moduleId i).length + p.mid.length =
          P.toUnsigned (P.toUnsigned (P.findText (p.head ++ moduleId i ++ q :: b) IDMEF_NODE_IDENT
            pos) + IDMEF_NODE_IDENT.length + 1) ∧
        p.head.length + (moduleId i).length + p.mid.length + u.length =
          P.toUnsigned (P.find (p.head ++ moduleId i ++ q :: b) '"'
            (p.head ++ moduleId i ++ p.mid).length) := by
    intro i
    obtain ⟨c, u, d, hcud, hc, hu, hout⟩ := hall i
    have heq :
        ∀ j, p.head ++ moduleId i ++ p.mid ++ (topasId j ++ p.rest) = c ++ (topasId j ++ d) := by
      intro j
      rw [← List.append_assoc c, ← Option.some.inj ((h i j).symm.trans (hout (topasId j))), changed]
      simp only [List.append_assoc]
    have hlen : (p.head ++ moduleId i ++ p.mid).length = c.length :=
      length_eq_of_id topasId_zero topasId_one fun j =>
        ⟨p.rest, by simpa only [List.append_assoc] using heq j⟩
    obtain ⟨rfl, hd⟩ := List.append_inj (heq 0) hlen
    obtain rfl := List.append_cancel_left hd
    refine ⟨u, ?_, ?_, ?_⟩
    · simp only [List.append_assoc] at hcud ⊢
      exact List.append_cancel_left (List.append_cancel_left hcud)
    · rw [← hc]
      simp only [List.length_append]
    · rw [← hu]
      simp only [List.length_append]
  obtain ⟨u, hb, _⟩ := hpart 0
  refine ⟨z, u, ?_, hhead, hend, fun i => ?_⟩
  · rw [← hb, ← hz, hm]
    simp
  · obtain ⟨u', hb', hc, hu⟩ := hpart i
    obtain rfl : u = u' := by
      rw [hb, List.append_assoc, List.append_assoc] at hb'
      exact List.append_cancel_right (List.append_cancel_left hb')
    rw [hb] at hc hu
    refine ⟨hc, hu.trans ?_⟩
    simp only [List.append_assoc]

/-- A pattern that is found `n` characters before a position: the code does not see by how many
multiples it is farther. -/
theorem hits_of_toUnsigned {o : Option Nat} {base n a : Nat} (hn : n < a - base) (hbase : base ≤ a)
    (h : a = P.toUnsigned (P.toUnsigned
      (match o with
        | some i => base + i
        | none => P.npos) + n + 1)) :
    Hits P o (a - base - (n + 1)) := by
  cases o with
  | none =>
    have hle := @toUnsigned_npos_add P n
    dsimp only at h
    rw [Nat.add_assoc] at h
    omega
  | some i =>
    dsimp only at h
    obtain ⟨k, hk⟩ := exists_of_toUnsigned h.symm
    obtain ⟨k', hk'⟩ := @exists_of_toUnsigned P (base + i) _ rfl
    refine ⟨k + k', congrArg some ?_⟩
    rw [Nat.add_mul]
    omega

theorem hits_of_end {o : Option Nat} {base n : Nat}
    (h : P.toUnsigned
      (match o with
        | some i => base + i
        | none => P.npos) = base + n) (ho : o ≠ none) :
    Hits P o n := by
  cases o with
  | none => exact absurd rfl ho
  | some i =>
    obtain ⟨k, hk⟩ := exists_of_toUnsigned h
    exact ⟨k, congrArg some (Nat.add_left_cancel (hk.trans (Nat.add_assoc _ _ _)))⟩

/-- The end of the second value moves with the length of the module id, and `npos` does not. -/
theorem exists_quote {u : List Char}
    (hsecond : ∀ i, p.head.length + (moduleId i).length + p.mid.length + u.length =
      P.toUnsigned (P.find (p.head ++ moduleId i ++ p.mid ++ (u ++ p.rest)) '"'
        (p.head ++ moduleId i ++ p.mid).length)) :
    ∃ n, (u ++ p.rest).findIdx? (· = '"') = some n := by
  simp only [find_append] at hsecond
  refine Option.ne_none_iff_exists'.mp fun hnone => ?_
  have h0 := hsecond 0
  have h10 := hsecond 10
  rw [hnone] at h0 h10
  rw [moduleId_zero] at h0
  rw [moduleId_ten] at h10
  simp only [List.length_append, List.length_cons, List.length_nil] at h0 h10
  omega

/-- A part that begins as what follows it does, with what is searched for, is empty if the first of
these is behind it. -/
theorem nil_of_findIdx? {a z t : List Char} {c : Char} {f : Char → Bool}
    (h : (a ++ (z ++ c :: t)).findIdx? f = some (a.length + z.length)) (hz : ∀ d ∈ z.head?, d = c) :
    z = [] := by
  obtain ⟨hlt, hat, hfirst⟩ := List.findIdx?_eq_some_iff_getElem.mp h
  cases z with
  | nil => rfl
  | cons d z =>
    obtain rfl : d = c := hz d rfl
    have hbefore := hfirst a.length (by simp only [List.length_cons]; omega)
    simp only [List.getElem_append_right (Nat.le_refl _), Nat.sub_self, List.cons_append,
      List.getElem_cons_zero] at hbefore
    have hhere : (a ++ (d :: z ++ d :: t))[a.length + (d :: z).length] = d := by
      simp [List.getElem_append_right]
    rw [hhere] at hat
    exact absurd hat hbefore

/-- A quote that is too far to be seen by the first search is seen too early by the second one. -/
theorem not_wrapped {z u : List Char} {n k : Nat} (hmid : 7 ≤ p.mid.length)
    (hn : (u ++ p.rest).findIdx? (· = '"') = some n)
    (hf : (p.id ++ z ++ (p.mid ++ u ++ p.rest)).findIdx? (· = '"') =
      some ((p.id ++ z).length + (k + 1) * 2 ^ P.unsigned)) :
    p.head.length + (moduleId 0).length + p.mid.length + u.length ≠
      P.toUnsigned ((p.head ++ moduleId 0 ++ p.mid).length + n) := by
  intro h0
  have hlt := P.toUnsigned_lt ((p.head ++ moduleId 0 ++ p.mid).length + n)
  have hpow : (k + 1) * 2 ^ P.unsigned = k * 2 ^ P.unsigned + 2 ^ P.unsigned := Nat.succ_mul _ _
  have hrest := findIdx?_behind hf
  have hrest' :=
      @findIdx?_behind p.mid (u ++ p.rest) _ ((k + 1) * 2 ^ P.unsigned - p.mid.length) (by
    rw [← List.append_assoc, hrest]
    exact congrArg some (by omega))
  have hback : (p.head ++ moduleId 0 ++ p.mid).length + n =
      p.head.length + (moduleId 0).length + (k + 1) * 2 ^ P.unsigned := by
    rw [Option.some.inj (hn.symm.trans hrest'), List.length_append, List.length_append]
    omega
  have hwrapped := h0.trans ((congrArg P.toUnsigned hback).trans (toUnsigned_add_mul _ (by omega)))
  omega

/-- The first replacement ends where the value does. -/
theorem nil_of_second {z u : List Char} (hshape : p.Shape q)
    (hparts : p.mid ++ p.ident ++ p.rest = z ++ (p.mid ++ u ++ p.rest))
    (hend : p.head.length + (p.id.length + z.length) = P.toUnsigned (P.find p.text '"' p.head.length))
    (hsecond : ∀ i, p.head.length + (moduleId i).length + p.mid.length + u.length =
      P.toUnsigned (P.find (p.head ++ moduleId i ++ p.mid ++ (u ++ p.rest)) '"'
        (p.head ++ moduleId i ++ p.mid).length)) :
    z = [] := by
  obtain ⟨n, hn⟩ := exists_quote hsecond
  obtain ⟨m, hm⟩ := hshape.mid
  have h0 := hsecond 0
  rw [find_append, hn] at h0
  rw [text, List.append_assoc, find_append, hparts] at hend
  cases hf : (p.id ++ (z ++ (p.mid ++ u ++ p.rest))).findIdx? (· = '"') with
  | none =>
    rw [List.append_assoc, ← List.append_assoc z, ← List.append_assoc p.id] at hf
    rw [findIdx?_none_of_suffix hf] at hn
    cases hn
  | some f =>
    rw [hf] at hend
    obtain ⟨k, hk⟩ := exists_of_toUnsigned (a := p.head.length + (p.id.length + z.length)) hend.symm
    have hfk : f = p.id.length + z.length + k * 2 ^ P.unsigned := by
      refine Nat.add_left_cancel (n := p.head.length) (hk.trans ?_)
      simp only [Nat.add_assoc]
    cases k with
    | zero =>
      rw [hfk, hm, Nat.zero_mul, Nat.add_zero] at hf
      refine nil_of_findIdx? hf fun d hd => ?_
      obtain ⟨z', rfl⟩ : ∃ z', z = d :: z' := List.head?_eq_some_iff.mp hd
      rw [hm] at hparts
      injection hparts with hq
      exact hq.symm
    | succ k =>
      rw [← List.append_assoc, hfk, ← List.length_append] at hf
      exact absurd h0 (not_wrapped hshape.mid_le hn hf)

theorem found_of_changed (hshape : p.Shape q)
    (h : ∀ i j, changeAttributes P (moduleId i) (topasId j) p.text = some (p.changed i j)) :
      p.Found P := by
  have hle := hshape.le_head
  have hmid := hshape.mid_le
  obtain ⟨z, u, hparts, hhead, hend, hall⟩ := second_value hshape h
  obtain rfl : z = [] := nil_of_second hshape hparts hend fun i => (hall i).2
  obtain rfl : p.ident = u := by
    rw [List.nil_append] at hparts
    exact List.append_cancel_left (List.append_cancel_right hparts)
  have hident_lt : ∀ i,
      p.head.length + (moduleId i).length + p.mid.length + p.ident.length < 2 ^ P.unsigned := by
    intro i
    rw [(hall i).2]
    exact P.toUnsigned_lt _
  have hhits : Hits P (infixIdx IDMEF_ANALYZERID p.text) (p.head.length - 12) := by
    refine @hits_of_toUnsigned P (infixIdx IDMEF_ANALYZERID p.text) 0 11 p.head.length (by omega)
      (by omega) ?_
    exact hhead
  have hpos : P.toUnsigned (P.findText p.text IDMEF_ANALYZERID 0) = p.head.length - 12 := by
    have hlt := hident_lt 0
    obtain ⟨k, hk⟩ := hhits
    simp only [Widths.findText, List.drop_zero, hk, Nat.zero_add]
    exact toUnsigned_add_mul k (by omega)
  obtain ⟨n, hn⟩ := exists_quote fun i => (hall i).2
  refine ⟨hhits, ?_, ?_, ?_, ?_, hident_lt⟩
  · have hsome : (p.id ++ (p.mid ++ p.ident ++ p.rest)).findIdx? (· = '"') ≠ none := by
      intro hnone
      rw [List.append_assoc, ← List.append_assoc p.id] at hnone
      rw [findIdx?_none_of_suffix hnone] at hn
      cases hn
    rw [text, List.append_assoc, find_append] at hend
    exact hits_of_end hend.symm hsome
  · have hident := (hall 0).1
    rw [hpos, hshape.findText] at hident
    have hhit := @hits_of_toUnsigned P _ (p.head.length + (moduleId 0).length) 6
      (p.head.length + (moduleId 0).length + p.mid.length) (by omega) (by omega) hident
    rwa [Nat.add_sub_cancel_left] at hhit
  · have hquote := (hall 0).2
    rw [find_append] at hquote
    refine @hits_of_end P _ (p.head ++ moduleId 0 ++ p.mid).length _ (hquote.symm.trans ?_) ?_
    · rw [List.length_append, List.length_append]
    · rw [hn]
      exact Option.some_ne_none n
  · have hlt := P.toUnsigned_lt (P.find p.text '"' p.head.length)
    rw [← hend] at hlt
    exact hlt

/-- The ids get to their places exactly where the code finds the attributes. -/
theorem changed_iff_found (hshape : p.Shape q) :
    (∀ i j, changeAttributes P (moduleId i) (topasId j) p.text = some (p.changed i j)) ↔
    p.Found P :=
  ⟨found_of_changed hshape, fun h i j => changeAttributes_of_found hshape h i j⟩

/-- With an `unsigned` of 32 bits, all messages of less than 4 GiB in which the first ones that are
searched for are the right ones. -/
theorem found_of_first (hlen : p.text.length + 32 < 2 ^ P.unsigned)
    (hanalyzerid : infixIdx IDMEF_ANALYZERID p.text = some (p.head.length - 12))
    (hanalyzeridEnd : (p.id ++ (p.mid ++ p.ident ++ p.rest)).findIdx? (· = '"') = some p.id.length)
    (hident : infixIdx IDMEF_NODE_IDENT (p.mid ++ p.ident ++ p.rest) = some (p.mid.length - 7))
    (hidentEnd : (p.ident ++ p.rest).findIdx? (· = '"') = some p.ident.length) : p.Found P := by
  have hhits : ∀ {o : Option Nat} {n : Nat}, o = some n → Hits P o n := by
    rintro o n rfl
    exact ⟨0, by rw [Nat.zero_mul, Nat.add_zero]⟩
  simp only [text, List.length_append] at hlen
  refine
    ⟨hhits hanalyzerid, hhits hanalyzeridEnd, hhits hident, hhits hidentEnd, by omega, fun i => ?_⟩
  have hid := length_moduleId_le i
  omega

end Parts

end Snort

end Topas
