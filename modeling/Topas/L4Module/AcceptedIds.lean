import Topas.Core.Positions
import Topas.Core.Proc

/-!
# The list of accepted source ids

Three modules cut the configured list at its commas with the same loop. It keeps the positions in
`unsigned` variables and compares one of them with `std::string::npos`, a `size_t`.

* `splitIds_diverges`: where `size_t` is the wider type, the loop never ends, whatever the text is.
* `splitIds_first`: it subscribes the first id of the list, and no other.
* `acceptedIds_iff`: so the ids of the list are subscribed only if there are none.
-/
namespace Topas

open Proc

/-! ## The loop -/

/-- `startpos` and `endpos`, and whether the loop has been left. -/
structure Positions where
  startpos : Nat
  endpos : Nat
  left : Bool
  deriving DecidableEq, Repr

/-- The `uint16_t` that an id is passed as. -/
def idOf (s : List Char) : Nat := (Text.atoi s).toUInt32.toNat % 65536

/-- `subscribeSourceId(atoi(s.c_str()))`, where `substr` has given `s`. -/
def subscribePart : Option (List Char) → Proc Nat Unit
  | some s => emit (idOf s)
  | none => stuck

/-- One round of the loop; a subscribed id is an event.
mirrors detectionmodules/countmodule/countmodule.cpp:100-107,
detectionmodules/statmodules/wkp-module/stat-main.cpp:290-297,
detectionmodules/snortmodule/snortmodule.cpp:375-382 -/
def splitBody (P : Platform) (str : List Char) (p : Positions) : Proc Nat Positions := do
  let endpos := P.toUnsigned (P.find str ',' p.endpos)
  if endpos = P.npos then
    subscribePart (Text.substr str p.startpos P.npos)
    return { p with endpos, left := true }
  else
    subscribePart (Text.substr str p.startpos (P.sub endpos p.startpos))
    return { p with endpos := P.toUnsigned (endpos + 1) }

def splitIds (P : Platform) (str : List Char) : Proc Nat Unit := do
  let _ ← loop (fun p => !p.left) (splitBody P str) ⟨0, 0, false⟩
  return ()

/-! ## The three modules -/

/-- The value of `accept_source_ids`, if it is configured.
mirrors detectionmodules/countmodule/countmodule.cpp:93-111 -/
def CountModule.acceptSourceIds (P : Platform) : Option (List Char) → Proc Nat Unit
  | some str => if 0 < str.length then splitIds P str else return ()
  | none => return ()

/-- mirrors detectionmodules/statmodules/wkp-module/stat-main.cpp:284-306 -/
def Wkp.Stat.acceptSourceIds (P : Platform) : Option (List Char) → Proc Nat Unit
  | some str => if str ≠ [] ∧ str ≠ "all".toList then splitIds P str else return ()
  | none => return ()

/-- mirrors detectionmodules/snortmodule/snortmodule.cpp:370-386 -/
def Snort.acceptSourceIds (P : Platform) : Option (List Char) → Proc Nat Unit
  | some str => if 0 < str.length then splitIds P str else return ()
  | none => return ()

/-- The ids with a comma between any two. -/
def joinIds : List Nat → List Char
  | [] => []
  | [id] => Text.dec id
  | id :: ids => Text.dec id ++ ',' :: joinIds ids

/-! ## The loop does not end -/

section Split

variable {P : Platform} {str : List Char} {p p' : Positions} {l : List Nat}

/-- A round does not leave the loop, and keeps `startpos`. -/
theorem splitBody_returns (h : (splitBody P str p).Returns l p') :
    p'.startpos = p.startpos ∧ p'.left = p.left := by
  unfold splitBody at h
  rw [if_neg (P.toUnsigned_ne_npos _)] at h
  obtain ⟨_, _, _, -, hp', -⟩ := returns_bind.mp h
  rw [(returns_pure.mp hp').2]
  exact ⟨rfl, rfl⟩

theorem splitIds_diverges (P : Platform) (str : List Char) : ¬ (splitIds P str).Halts := by
  refine not_halts_bind (not_halts_loop (fun p => p.left = false) ?_ ?_ rfl)
  · intro p hp
    simp [hp]
  · intro p l p' hp h
    rw [(splitBody_returns h).2]
    exact hp

end Split

/-! ## What it subscribes -/

theorem atoi_append {n : Nat} {s : List Char} (h : Text.Ends s) :
    Text.atoi (Text.dec n ++ s) = Text.atoi (Text.dec n) := by
  have hnil := Text.scan_dec n (s := []) (fun _ h => by cases h)
  rw [List.append_nil] at hnil
  unfold Text.atoi
  rw [Text.scan_dec n h, hnil]

/-- The text begins with the first id, and no digit follows it. -/
theorem joinIds_cons (id : Nat) (ids : List Nat) :
    ∃ s, joinIds (id :: ids) = Text.dec id ++ s ∧ Text.Ends s := by
  cases ids with
  | nil => exact ⟨[], (List.append_nil _).symm, fun _ h => by cases h⟩
  | cons id' ids =>
    refine ⟨',' :: joinIds (id' :: ids), rfl, ?_⟩
    rintro c hc
    cases hc
    rfl

/-- A comma that `find` finds is behind the first id. -/
theorem le_find {id : Nat} {s : List Char} {pos i : Nat}
    (h : ((Text.dec id ++ s).drop pos).findIdx? (· = ',') = some i) :
    (Text.dec id).length ≤ pos + i ∧ pos + i < (Text.dec id ++ s).length := by
  obtain ⟨hlt, hcomma, -⟩ := List.findIdx?_eq_some_iff_getElem.mp h
  rw [List.length_drop] at hlt
  rw [List.getElem_drop, decide_eq_true_eq] at hcomma
  refine ⟨Nat.le_of_not_lt fun hin => ?_, by omega⟩
  rw [List.getElem_append_left hin] at hcomma
  exact Text.not_mem_dec (c := ',') (by decide) (hcomma ▸ List.getElem_mem hin)

/-- Every part begins with the whole first id. -/
theorem splitBody_first {P : Platform} {id : Nat} {s : List Char} {p : Positions} (hs : Text.Ends s)
    (hlen : (Text.dec id ++ s).length < 2 ^ P.unsigned) (hp : p.startpos = 0) :
    (splitBody P (Text.dec id ++ s) p).Always (· = idOf (Text.dec id)) := by
  have hend : (Text.dec id).length ≤ P.toUnsigned (P.find (Text.dec id ++ s) ',' p.endpos) := by
    unfold Widths.find
    split
    · rename_i i hi
      obtain ⟨hle, hlt⟩ := le_find hi
      rwa [Widths.toUnsigned, Nat.mod_eq_of_lt (by omega)]
    · rw [P.toUnsigned_npos]
      rw [List.length_append] at hlen
      omega
  unfold splitBody
  rw [if_neg (P.toUnsigned_ne_npos _)]
  refine always_bind.mpr ⟨?_, fun _ _ _ => always_pure⟩
  have hlt := P.toUnsigned_lt (P.find (Text.dec id ++ s) ',' p.endpos)
  generalize P.toUnsigned (P.find (Text.dec id ++ s) ',' p.endpos) = e at hend hlt
  have hsub : P.sub e 0 = e := by
    rw [Widths.sub, Nat.sub_zero, Widths.toUnsigned, Nat.add_mod_right, Nat.mod_eq_of_lt hlt]
  have hpart : Text.substr (Text.dec id ++ s) 0 e = some
      (Text.dec id ++ s.take (e - (Text.dec id).length)) := by
    rw [Text.substr, if_pos (Nat.zero_le _), List.drop_zero, List.take_append,
      List.take_of_length_le hend]
  have hid : idOf (Text.dec id ++ s.take (e - (Text.dec id).length)) = idOf (Text.dec id) := by
    unfold idOf
    rw [atoi_append]
    intro c hc
    rw [List.head?_take] at hc
    split at hc
    · cases hc
    · exact hs c hc
  rw [hp, hsub, hpart]
  have hemit : (subscribePart (some (Text.dec id ++ s.take (e - (Text.dec id).length)))).Returns
      [idOf (Text.dec id)] () := returns_emit.mpr (by rw [hid])
  exact hemit.always_iff.mpr fun e he => List.mem_singleton.mp he

/-- The loop subscribes the first id over and over. -/
theorem splitIds_first {P : Platform} {id : Nat} {ids : List Nat}
    (hlen : (joinIds (id :: ids)).length < 2 ^ P.unsigned) :
    (splitIds P (joinIds (id :: ids))).Always (· = idOf (Text.dec id)) := by
  obtain ⟨s, hs, hends⟩ := joinIds_cons id ids
  rw [hs] at hlen ⊢
  refine always_bind.mpr ⟨?_, fun _ _ _ => always_pure⟩
  refine always_loop (fun p => p.startpos = 0) (fun p hp _ => ⟨?_, fun l p' h => ?_⟩) rfl
  · exact splitBody_first hends hlen hp
  · rw [(splitBody_returns h).1]
    exact hp

/-! ## The result -/

theorem joinIds_ne_nil {ids : List Nat} (h : ids ≠ []) : joinIds ids ≠ [] := by
  obtain ⟨id, ids, rfl⟩ := List.exists_cons_of_ne_nil h
  obtain ⟨s, hs, -⟩ := joinIds_cons id ids
  rw [hs]
  exact List.append_ne_nil_of_left_ne_nil (Text.dec_ne_nil id) s

/-- No list of ids is the word that accepts every source. -/
theorem joinIds_ne_all (ids : List Nat) : joinIds ids ≠ "all".toList := by
  cases ids with
  | nil => decide
  | cons id ids =>
    obtain ⟨s, hs, -⟩ := joinIds_cons id ids
    obtain ⟨c, ds, hds⟩ := List.exists_cons_of_ne_nil (Text.dec_ne_nil id)
    intro hall
    rw [hs, hds] at hall
    have hc : c = 'a' := List.head_eq_of_cons_eq hall
    have hdigit : c.isDigit = true := Text.isDigit_of_mem_dec (hds ▸ List.mem_cons_self)
    rw [hc] at hdigit
    cases hdigit

/-- Each of the three modules ends its loop with the ids of the list subscribed, once and in order,
exactly if the list is empty. -/
theorem acceptedIds_iff (P : Platform) (ids : List Nat) :
    ((CountModule.acceptSourceIds P (some (joinIds ids))).Returns ids () ↔ ids = []) ∧
      ((Wkp.Stat.acceptSourceIds P (some (joinIds ids))).Returns ids () ↔ ids = []) ∧
      ((Snort.acceptSourceIds P (some (joinIds ids))).Returns ids () ↔ ids = []) := by
  by_cases hids : ids = []
  · subst hids
    simp [CountModule.acceptSourceIds, Wkp.Stat.acceptSourceIds, Snort.acceptSourceIds, joinIds]
  · have hnil := joinIds_ne_nil hids
    have hall := joinIds_ne_all ids
    have hsize : 0 < (joinIds ids).length := List.length_pos_iff.mpr hnil
    have hsplit : ¬ (splitIds P (joinIds ids)).Returns ids () :=
      fun h => splitIds_diverges P _ h.halts
    unfold CountModule.acceptSourceIds Wkp.Stat.acceptSourceIds Snort.acceptSourceIds
    simp only [if_pos hsize, if_pos (And.intro hnil hall), hsplit, hids, iff_self, and_self]

/-- **Counterexample**: with 32 and 64 bits, a single id is subscribed for ever. -/
theorem acceptedIds_single :
    ¬ (CountModule.acceptSourceIds .lp64 (some ['1'])).Halts ∧
      ¬ (Wkp.Stat.acceptSourceIds .lp64 (some ['1'])).Halts ∧
      ¬ (Snort.acceptSourceIds .lp64 (some ['1'])).Halts ∧
      ¬ ∀ ids : List Nat, (∀ id ∈ ids, id < 65536) →
        (CountModule.acceptSourceIds .lp64 (some (joinIds ids))).Returns ids () := by
  have hsplit := splitIds_diverges .lp64 ['1']
  refine ⟨hsplit, hsplit, hsplit, fun hall => ?_⟩
  exact hsplit (hall [1] (by decide)).halts

end Topas
