import Mathlib.Data.List.Sort
import Topas.L7Stat.AddressText
import Topas.L7Stat.StatStore

/-!
# The file with the intervals' maps

Online, `Stat::test` writes the map of every interval to a file, one line an entry, and closes
it with a line `--- n`. Offline, `operator>>` reads such a file interval by interval. It masks
each end point with the netmask and by the components of the key before it adds up what is
left equal.
-/
namespace Topas

open Text

namespace IpAddress

/-- mirrors detectionmodules/detectionbase/ipaddress.cpp:53-57 -/
def text (ip : IpAddress) : List Char :=
  dec ip.a.toNat ++ '.' :: (dec ip.b.toNat ++ '.' :: (dec ip.c.toNat ++ '.' :: dec ip.d.toNat))

/-- The octets that the loop assigns, with `slots` of the array's left.
mirrors detectionmodules/detectionbase/ipaddress.cpp:34-50 -/
def fromStringLoop (ipstr : List Char) : (slots : Nat) → (iAlt iNeu : Nat) → Option (List UInt8)
  | 0, _, _ => none
  | slots + 1, iAlt, iNeu => do
    let part ← substr ipstr iAlt (diff iNeu iAlt)
    let octet := (atoi part).toUInt32.toUInt8
    if iNeu = ipstr.length then some [octet]
    else
      let iAlt := next iNeu
      let iNeu := find ipstr '.' iAlt
      let iNeu := if iNeu = npos then ipstr.length else iNeu
      let octets ← fromStringLoop ipstr slots iAlt iNeu
      some (octet :: octets)

/-- `none` where it writes behind the array. -/
def fromString (ip : IpAddress) (ipstr : List Char) : Option IpAddress := do
  match ← fromStringLoop ipstr 4 0 (find ipstr '.' 0) with
  | [a] => some ⟨a, ip.b, ip.c, ip.d⟩
  | [a, b] => some ⟨a, b, ip.c, ip.d⟩
  | [a, b, c] => some ⟨a, b, c, ip.d⟩
  | [a, b, c, d] => some ⟨a, b, c, d⟩
  | _ => none

end IpAddress

namespace Wkp

/-! ## Writing -/

namespace EndPoint

/-- The protocol is written as a `uint16_t`.
mirrors detectionmodules/statmodules/wkp-module/shared.cpp:59-63 -/
def text (e : EndPoint) : List Char :=
  e.ipAddr.text ++ ':' :: (decInt e.portNr.toInt ++ '|' :: dec e.protocolID.toUInt32.toUInt16.toNat)

/-- mirrors detectionmodules/statmodules/wkp-module/shared.h:86-105 -/
def lt (a b : EndPoint) : Bool :=
  a.ipAddr.a < b.ipAddr.a ||
  (a.ipAddr.a = b.ipAddr.a && a.ipAddr.b < b.ipAddr.b) ||
  (a.ipAddr.a = b.ipAddr.a && a.ipAddr.b = b.ipAddr.b && a.ipAddr.c < b.ipAddr.c) ||
  (a.ipAddr.a = b.ipAddr.a && a.ipAddr.b = b.ipAddr.b && a.ipAddr.c = b.ipAddr.c &&
    a.ipAddr.d < b.ipAddr.d) ||
  (a.ipAddr.a = b.ipAddr.a && a.ipAddr.b = b.ipAddr.b && a.ipAddr.c = b.ipAddr.c &&
    a.ipAddr.d = b.ipAddr.d && a.portNr < b.portNr) ||
  (a.ipAddr.a = b.ipAddr.a && a.ipAddr.b = b.ipAddr.b && a.ipAddr.c = b.ipAddr.c &&
    a.ipAddr.d = b.ipAddr.d && a.portNr = b.portNr && a.protocolID < b.protocolID)

end EndPoint

def Info.text (it : Info) : List Char :=
  dec it.packetsIn.toNat ++ ' ' ::
      (dec it.packetsOut.toNat ++ ' ' :: (dec it.bytesIn.toNat ++ ' ' ::
    (dec it.bytesOut.toNat ++ ' ' :: (dec it.recordsIn.toNat ++ ' ' :: dec it.recordsOut.toNat))))

/-- An entry of a map, as a `pair`. -/
abbrev Entry := EndPoint × Info

/-- The line of an entry, without its end. -/
def Entry.line (p : Entry) : List Char := p.1.text ++ '_' :: p.2.text

namespace Interval

def pairs (m : Interval) : List Entry := Ledger.postings m

/-- The order in which a `std::map` is gone through. -/
def sorted (m : Interval) : List Entry := m.pairs.insertionSort fun p q => q.1.lt p.1 = false

/-- mirrors detectionmodules/statmodules/wkp-module/shared.cpp:130-137 -/
def text (m : Interval) : List Char := m.sorted.flatMap fun p => p.line ++ ['\n']

/-- mirrors detectionmodules/statmodules/wkp-module/stat-main.cpp:950-952 -/
def store (m : Interval) (testCounter : Int32) : List Char :=
  m.text ++ ('-' :: '-' :: '-' :: ' ' :: decInt testCounter.toInt ++ ['\n'])

end Interval

/-- The file after some intervals, each with the number of its test. -/
def storefile (ms : List (Interval × Int32)) : List Char := ms.flatMap fun m => m.1.store m.2

/-! ## Reading -/

/-- `none` where a part lies outside of the string.
mirrors detectionmodules/statmodules/wkp-module/shared.cpp:43-57 -/
def EndPoint.fromString (epstr : List Char) : Option EndPoint := do
  let i := find epstr ':' 0
  let ipstr ← substr epstr 0 i
  let j := find epstr '|' i
  let portstr ← substr epstr (next i) (diff (diff j i) 1)
  let k := find epstr '_' j
  let protostr ← substr epstr (next j) (diff (diff k j) 1)
  let ipAddr ← EndPoint.zero.ipAddr.fromString ipstr
  some ⟨ipAddr, atoi portstr, atoi protostr⟩

/-- The same for an end point that has been assigned before: the octets that the string does not
have stay. -/
def EndPoint.assign (ep : EndPoint) (epstr : List Char) : Option EndPoint := do
  let i := find epstr ':' 0
  let ipstr ← substr epstr 0 i
  let j := find epstr '|' i
  let portstr ← substr epstr (next i) (diff (diff j i) 1)
  let k := find epstr '_' j
  let protostr ← substr epstr (next j) (diff (diff k j) 1)
  let ipAddr ← ep.ipAddr.fromString ipstr
  some ⟨ipAddr, atoi portstr, atoi protostr⟩

/-- `none` where a number is not read, and the member stays as it was in memory. -/
def Info.scan (s : List Char) : Option Info := do
  let (packetsIn, s) ← scanUInt64 s
  let (packetsOut, s) ← scanUInt64 s
  let (bytesIn, s) ← scanUInt64 s
  let (bytesOut, s) ← scanUInt64 s
  let (recordsIn, s) ← scanUInt64 s
  let (recordsOut, _) ← scanUInt64 s
  some ⟨packetsIn, packetsOut, bytesIn, bytesOut, recordsIn, recordsOut⟩

/-- mirrors detectionmodules/statmodules/wkp-module/stat-store.cpp:300-308 -/
def StoreConfig.aggregate (cfg : StoreConfig) (ep : EndPoint) : EndPoint where
  ipAddr := if cfg.ipMonitoring then ep.ipAddr.remanentMask cfg.netmask else ⟨0, 0, 0, 0⟩
  portNr := if cfg.portMonitoring then ep.portNr else 0
  protocolID := if cfg.protocolMonitoring then ep.protocolID else 0

namespace StatStore

/-- An entry read from the file. -/
def readEntry (cfg : StoreConfig) (s : StatStore) (p : Entry) : StatStore :=
  s.account cfg (cfg.aggregate p.1) (· + p.2) p.2

/-- mirrors detectionmodules/statmodules/wkp-module/stat-store.cpp:291-345 -/
def readLine (cfg : StoreConfig) (s : StatStore) (tmp : List Char) : Option StatStore := do
  let ep ← EndPoint.fromString tmp
  let k := find tmp '_' 0
  let tmp1 ← substr tmp (next k) npos
  let info ← Info.scan tmp1
  some (s.readEntry cfg (ep, info))

def readLoop (cfg : StoreConfig) (s : StatStore) (is : IfStream) : Option (StatStore × IfStream) :=
  let next := is.getline.1
  let tmp := is.getline.2
  if next.fail then some (s, next)
  else if tmp.take 3 = ['-', '-', '-'] then some (s, next)
  else if _heof : next.eof = true then some (s, next.close)
  else do
    let s ← s.readLine cfg tmp
    readLoop cfg s next
termination_by is.rest.length
decreasing_by exact IfStream.rest_getline (by simpa using _heof)

/-- `is >> store`.
mirrors detectionmodules/statmodules/wkp-module/stat-store.cpp:267-352 -/
def extract (cfg : StoreConfig) (s : StatStore) (is : IfStream) : Option (StatStore × IfStream) :=
  if is.eof then some (s, is.close) else readLoop cfg { s with data := ∅ } is

theorem readLoop_progress {cfg : StoreConfig} {s s' : StatStore} {is is' : IfStream}
    (h : readLoop cfg s is = some (s', is')) :
      is'.eof = true ∨ is'.rest.length < is.rest.length := by
  induction hn : is.rest.length using Nat.strong_induction_on generalizing s is with
  | _ n ih =>
    rw [readLoop] at h
    by_cases heof : is.getline.1.eof = true
    · -- whatever the line is, the loop ends with it
      left
      simp only [heof] at h
      split at h
      · cases h
        exact heof
      · split at h
        · cases h
          exact heof
        · cases h
          exact heof
    · have hlt := IfStream.rest_getline (by simpa using heof)
      simp only [heof] at h
      split at h
      · cases h
        exact .inr (hn ▸ hlt)
      · split at h
        · cases h
          exact .inr (hn ▸ hlt)
        · obtain ⟨t, -, ht⟩ := Option.bind_eq_some_iff.mp h
          rcases ih _ (hn ▸ hlt) ht rfl with heof' | hlt'
          · exact .inl heof'
          · exact .inr (by omega)

/-- The calls of `wait` and `importToStorage`, and the maps of the storages that are valid then.
mirrors detectionmodules/detectionbase/offlinepolicy.h:62-80 -/
def readFile (cfg : StoreConfig) (endPointList : List EndPoint) (is : IfStream) :
    Option (List Interval) :=
  if _hwait : (is.isOpen && !is.eof) = true then
    match _h : extract cfg (new endPointList) is with
    | none => none
    | some (s, next) => do
      let ms ← readFile cfg s.endPointList next
      if next.fail then some ms else some (s.data :: ms)
  else some []
termination_by if is.eof then 0 else is.rest.length + 1
decreasing_by
  simp only [Bool.and_eq_true, Bool.not_eq_true'] at _hwait
  rw [extract, if_neg (by simp [_hwait.2])] at _h
  rw [if_neg (show ¬ is.eof = true by simp [_hwait.2])]
  rcases readLoop_progress _h with heof | hlt
  · simp [heof]
  · split <;> omega

end StatStore

/-! ## What was written is read back -/

/-- The ports and protocols of records. -/
def EndPoint.Printable (e : EndPoint) : Prop :=
  (0 ≤ e.portNr.toInt ∧ e.portNr.toInt ≤ 65535) ∧ 0 ≤ e.protocolID.toInt ∧ e.protocolID.toInt ≤ 255

instance (e : EndPoint) : Decidable e.Printable := inferInstanceAs (Decidable (_ ∧ _))

end Wkp

namespace IpAddress

/-- The octets are those of the loop over `int`s, as bytes. -/
theorem fromStringLoop_eq (s : List Char) (slots : Nat) : ∀ iAlt iNeu index,
    fromStringLoop s slots iAlt iNeu =
      (Address.writesFrom s slots iAlt iNeu index).map (·.map fun w => w.2.toUInt32.toUInt8) := by
  induction slots with
  | zero => exact fun _ _ _ => rfl
  | succ slots ih =>
    intro iAlt iNeu index
    rw [fromStringLoop, Address.writesFrom]
    cases substr s iAlt (diff iNeu iAlt) with
    | none => rfl
    | some part =>
      simp only [Option.bind_eq_bind, Option.bind_some]
      split
      · rfl
      · rw [ih _ _ (index + 1)]
        cases Address.writesFrom s slots (next iNeu) _ (index + 1) <;> rfl

theorem fromStringLoop_dotted {s : List Char} (hs : s.length + 1 < 2 ^ 64)
    (parts : List (List Char))
    (p part : List Char) (slots : Nat) (heq : s = p ++ dotted (part :: parts))
    (hdot : ∀ x ∈ part :: parts, '.' ∉ x) (hslots : parts.length < slots) :
    fromStringLoop s slots p.length (p.length + part.length) =
      some ((part :: parts).map fun x => (atoi x).toUInt32.toUInt8) := by
  rw [fromStringLoop_eq s slots _ _ 0,
    Address.writesFrom_dotted hs parts p part slots 0 heq hdot hslots,
    Option.map_some]
  exact congrArg some (List.ext_getElem (by simp) fun i _ _ => by
    simp only [List.getElem_map, List.getElem_mapIdx])

theorem octet_dec (a : UInt8) : (atoi (dec a.toNat)).toUInt32.toUInt8 = a := by
  have := a.toNat_lt
  rw [atoi_dec (by omega)]
  simp

/-- What the separators are not found in. -/
theorem not_mem_text (ip : IpAddress) {c : Char} (hdigit : c.isDigit = false) (hdot : c ≠ '.') :
    c ∉ ip.text := by
  simp [text, not_mem_dec hdigit, hdot]

theorem length_octet_le (x : UInt8) : (dec x.toNat).length ≤ 3 :=
  length_dec_le (by decide) (Nat.lt_trans x.toNat_lt (by decide))

theorem length_text_le (ip : IpAddress) : ip.text.length ≤ 15 := by
  have := length_octet_le ip.a
  have := length_octet_le ip.b
  have := length_octet_le ip.c
  have := length_octet_le ip.d
  simp [text]
  omega

/-- An address is read back. -/
theorem fromString_text (ip old : IpAddress) : old.fromString ip.text = some ip := by
  have hdot : ∀ n, '.' ∉ dec n := fun n => not_mem_dec rfl
  have hlen : ip.text.length + 1 < 2 ^ 64 := by
    have := ip.length_text_le
    omega
  have hfind : find ip.text '.' 0 = 0 + (dec ip.a.toNat).length := find_append [] _ _ (hdot _)
  have hloop := fromStringLoop_dotted hlen [dec ip.b.toNat, dec ip.c.toNat, dec ip.d.toNat] []
    (dec ip.a.toNat) 4 rfl (by simp [hdot]) (by simp)
  rw [List.length_nil] at hloop
  rw [fromString, hfind, hloop]
  simp [octet_dec]

end IpAddress

namespace Wkp

theorem ofNat_toNat {i : Int32} (h : 0 ≤ i.toInt) : Int32.ofNat i.toInt.toNat = i := by
  rw [← Int32.ofInt_eq_ofNat, Int.toNat_of_nonneg h, Int32.ofInt_toInt]

theorem EndPoint.Printable.protocol {e : EndPoint} (h : e.Printable) :
    e.protocolID.toUInt32.toUInt16.toNat = e.protocolID.toInt.toNat := by
  obtain ⟨-, hpos, hle⟩ := h
  have h32 : e.protocolID.toUInt32.toNat = e.protocolID.toInt.toNat :=
    Int32.toNat_toUInt32_of_le (Int32.le_iff_toInt_le.mpr hpos)
  rw [UInt32.toNat_toUInt16, h32]
  omega

/-- The parts of a line, each behind its separator. -/
theorem EndPoint.assign_text {e : EndPoint} (h : e.Printable) (ep : EndPoint) (tail : List Char) :
    ep.assign (e.text ++ '_' :: tail) = some e := by
  obtain ⟨hport, hproto⟩ := id h
  have hip := e.ipAddr.length_text_le
  have hportlen : (dec e.portNr.toInt.toNat).length ≤ 5 := length_dec_le (by decide) (by omega)
  have hprotolen : (dec e.protocolID.toInt.toNat).length ≤ 3 := length_dec_le (by decide) (by omega)
  have htext : e.text ++ '_' :: tail =
      e.ipAddr.text ++
        (':' :: dec e.portNr.toInt.toNat ++
            ('|' :: dec e.protocolID.toInt.toNat ++ '_' :: tail)) := by
    simp [EndPoint.text, decInt, not_lt.mpr hport.1, h.protocol]
  rw [htext]
  generalize hs : e.ipAddr.text ++ (':' :: dec e.portNr.toInt.toNat ++
    ('|' :: dec e.protocolID.toInt.toNat ++ '_' :: tail)) = s
  have hs' : (e.ipAddr.text ++ ':' :: dec e.portNr.toInt.toNat) ++
      ('|' :: dec e.protocolID.toInt.toNat ++ '_' :: tail) = s := by simp [← hs]
  have hi : find s ':' 0 = e.ipAddr.text.length := by
    have := find_append [] _
      (dec e.portNr.toInt.toNat ++ ('|' :: dec e.protocolID.toInt.toNat ++ '_' :: tail))
      (IpAddress.not_mem_text e.ipAddr (c := ':') rfl (by decide))
    rw [List.length_nil, Nat.zero_add] at this
    exact hs ▸ this
  have hj : find s '|' e.ipAddr.text.length =
      (e.ipAddr.text ++ ':' :: dec e.portNr.toInt.toNat).length := by
    rw [List.length_append]
    exact hs ▸ find_append _ (':' :: _) _ (by simp [not_mem_dec])
  have hk : find s '_' (e.ipAddr.text ++ ':' :: dec e.portNr.toInt.toNat).length =
      (e.ipAddr.text ++ ':' :: dec e.portNr.toInt.toNat).length +
        ('|' :: dec e.protocolID.toInt.toNat).length :=
    hs' ▸ find_append _ ('|' :: _) _ (by simp [not_mem_dec])
  have hipstr : substr s 0 e.ipAddr.text.length = some e.ipAddr.text := hs ▸ substr_append [] _ _
  have hportstr : substr s (next e.ipAddr.text.length)
      (diff
        (diff (e.ipAddr.text ++ ':' :: dec e.portNr.toInt.toNat).length e.ipAddr.text.length) 1) =
        some (dec e.portNr.toInt.toNat) := by
    rw [List.length_append]
    exact hs ▸ substr_between _ _ _ ':' (by omega) (by omega)
  have hprotostr := hs' ▸ substr_between (e.ipAddr.text ++ ':' :: dec e.portNr.toInt.toNat)
    (dec e.protocolID.toInt.toNat) ('_' :: tail) '|'
    (by rw [List.length_append, List.length_cons]; omega) (by omega)
  rw [EndPoint.assign]
  simp only [hi, hj, hk, hipstr, hportstr, hprotostr, IpAddress.fromString_text,
    Option.bind_eq_bind,
    Option.bind_some]
  rw [atoi_dec (by omega), atoi_dec (by omega), ofNat_toNat hport.1, ofNat_toNat hproto.1]

theorem EndPoint.fromString_text {e : EndPoint} (h : e.Printable) (tail : List Char) :
    EndPoint.fromString (e.text ++ '_' :: tail) = some e :=
      EndPoint.assign_text h EndPoint.zero tail

theorem Info.scan_text (it : Info) : Info.scan it.text = some it := by
  have hspace : ∀ s, Text.Ends (' ' :: s) := by
    intro s c hc
    cases hc
    rfl
  have hnil : scanUInt64 (dec it.recordsOut.toNat) = some (it.recordsOut, []) := by
    have := scanUInt64_dec it.recordsOut (s := []) (fun _ hc => by cases hc)
    rwa [List.append_nil] at this
  simp [Info.scan, Info.text, scanUInt64_dec, scanUInt64_space, hspace, hnil]

variable {cfg : StoreConfig} {s : StatStore} {p : Entry}

theorem Info.underscore_not_mem_text (it : Info) : '_' ∉ it.text := by simp [Info.text, not_mem_dec]

/-- What is not in a line. -/
theorem Entry.not_mem_line (h : p.1.Printable) {c : Char} (hdigit : c.isDigit = false)
    (hc : c ∉ ['.', ':', '|', '_', ' ']) : c ∉ p.line := by
  simp only [List.mem_cons, not_or] at hc
  simp [Entry.line, EndPoint.text, Info.text, decInt, not_lt.mpr h.1.1, not_mem_dec hdigit, hc,
    IpAddress.not_mem_text _ hdigit hc.1]

theorem EndPoint.underscore_not_mem_text {e : EndPoint} (h : e.Printable) : '_' ∉ e.text := by
  simp [EndPoint.text, decInt, not_lt.mpr h.1.1, not_mem_dec, IpAddress.not_mem_text]

theorem EndPoint.length_text_le {e : EndPoint} (h : e.Printable) : e.text.length ≤ 25 := by
  have hip := e.ipAddr.length_text_le
  have hport : (dec e.portNr.toInt.toNat).length ≤ 5 :=
    length_dec_le (by decide) (by have := h.1; omega)
  have hproto : (dec e.protocolID.toInt.toNat).length ≤ 3 :=
    length_dec_le (by decide) (by have := h.2; omega)
  rw [EndPoint.text, decInt, if_neg (not_lt.mpr h.1.1), h.protocol, List.length_append,
    List.length_cons,
    List.length_append, List.length_cons]
  omega

theorem Info.length_text_le (it : Info) : it.text.length ≤ 125 := by
  have hlen : ∀ x : UInt64, (dec x.toNat).length ≤ 20 := fun x =>
    length_dec_le (by decide) (Nat.lt_trans x.toNat_lt (by decide))
  have := hlen it.packetsIn
  have := hlen it.packetsOut
  have := hlen it.bytesIn
  have := hlen it.bytesOut
  have := hlen it.recordsIn
  have := hlen it.recordsOut
  simp [Info.text]
  omega

namespace StatStore

theorem readLine_line (h : p.1.Printable) : s.readLine cfg p.line = some (s.readEntry cfg p) := by
  have hfind : find p.line '_' 0 = p.1.text.length := by
    have := find_append [] _ p.2.text (EndPoint.underscore_not_mem_text h)
    rwa [List.length_nil, Nat.zero_add] at this
  have hlen := EndPoint.length_text_le h
  have hnum := p.2.length_text_le
  have hsubstr : substr p.line (next p.1.text.length) npos = some p.2.text := by
    have hline : p.line = (p.1.text ++ ['_']) ++ p.2.text := by simp [Entry.line]
    have hpos : next p.1.text.length = (p.1.text ++ ['_']).length := by
      rw [next_eq (by omega)]
      simp
    rw [hline, hpos, substr, if_pos (by simp), List.drop_left,
      List.take_of_length_le (by unfold npos; omega)]
  have hep : EndPoint.fromString p.line = some p.1 := EndPoint.fromString_text h _
  simp [readLine, hfind, hsubstr, hep, Info.scan_text]

/-- No line of an entry is a separator. -/
theorem take_line (p : Entry) : p.line.take 3 ≠ ['-', '-', '-'] := by
  obtain ⟨c, ds, hds⟩ := List.exists_cons_of_ne_nil (dec_ne_nil p.1.ipAddr.a.toNat)
  have hdigit : c.isDigit = true := isDigit_of_mem_dec (hds ▸ List.mem_cons_self)
  intro h
  rw [Entry.line, EndPoint.text, IpAddress.text, hds] at h
  simp only [List.cons_append, List.take_succ_cons, List.cons.injEq] at h
  rw [h.1] at hdigit
  cases hdigit

/-- The lines of some entries, and the separator behind them. -/
theorem readLoop_lines (cfg : StoreConfig) (entries : List Entry) (h : ∀ p ∈ entries, p.1.Printable)
    (s : StatStore)
    (testCounter : Int32) (rest : List Char) :
    readLoop cfg s (.ofText (entries.flatMap (fun p => p.line ++ ['\n']) ++
      ('-' :: '-' :: '-' :: ' ' :: decInt testCounter.toInt ++ '\n' :: rest))) =
        some (entries.foldl (readEntry cfg) s, .ofText rest) := by
  induction entries generalizing s with
  | nil =>
    have hget := IfStream.getline_append ('-' :: '-' :: '-' :: ' ' :: decInt testCounter.toInt) rest
      (by simp [decInt]; split <;> simp [not_mem_dec])
    rw [readLoop, List.flatMap_nil, List.nil_append, hget]
    simp [IfStream.ofText]
  | cons p entries ih =>
    have hp := h p List.mem_cons_self
    have hget := IfStream.getline_append p.line (entries.flatMap (fun p => p.line ++ ['\n']) ++
      ('-' :: '-' :: '-' :: ' ' :: decInt testCounter.toInt ++ '\n' :: rest))
      (Entry.not_mem_line hp rfl (by decide))
    rw [List.flatMap_cons, List.append_assoc, List.append_assoc, List.singleton_append,
      readLoop, hget]
    simp only [IfStream.ofText, if_neg (take_line p), readLine_line hp]
    exact ih (fun q hq => h q (List.mem_cons_of_mem _ hq)) _

/-- The stores that the intervals of a file are read into. -/
def readStores (cfg : StoreConfig) : List EndPoint → List Interval → List StatStore
  | _, [] => []
  | endPointList, m :: ms =>
    let s := m.sorted.foldl (readEntry cfg) (new endPointList)
    s :: readStores cfg s.endPointList ms

theorem extract_store (cfg : StoreConfig) (endPointList : List EndPoint) (m : Interval)
    (h : ∀ p ∈ m.sorted, p.1.Printable)
    (testCounter : Int32) (rest : List Char) :
    extract cfg (new endPointList) (.ofText (m.store testCounter ++ rest)) =
      some (m.sorted.foldl (readEntry cfg) (new endPointList), .ofText rest) := by
  have := readLoop_lines cfg m.sorted h (new endPointList) testCounter rest
  simpa [extract, Interval.store, Interval.text, IfStream.ofText, new] using this

theorem readFile_of_extract {endPointList : List EndPoint} {is next : IfStream}
    (hwait : (is.isOpen && !is.eof) = true)
    (h : extract cfg (new endPointList) is = some (s, next)) :
    readFile cfg endPointList is = (readFile cfg s.endPointList next).bind fun ms =>
      if next.fail then some ms else some (s.data :: ms) := by
  rw [readFile, dif_pos hwait]
  split
  · rename_i h'
    rw [h] at h'
    cases h'
  · rename_i s' next' h'
    rw [h] at h'
    cases h'
    rfl

/-- The file is read interval by interval, and the call behind the last one finds its end. -/
theorem readFile_storefile (endPointList : List EndPoint) (ms : List (Interval × Int32))
    (h : ∀ m ∈ ms, ∀ p ∈ m.1.sorted, p.1.Printable) :
    readFile cfg endPointList (.ofText (storefile ms)) =
      some ((readStores cfg endPointList (ms.map Prod.fst)).map StatStore.data) := by
  induction ms generalizing endPointList with
  | nil =>
    have hextract : extract cfg (new endPointList) (.ofText []) =
        some (new endPointList, ⟨[], true, true, true, fun _ => rfl⟩) := by
      rw [extract, if_neg (by simp [IfStream.ofText]), readLoop, IfStream.getline_nil]
      rfl
    rw [storefile, List.flatMap_nil, readFile_of_extract (by simp [IfStream.ofText]) hextract,
      readFile,
      dif_neg (by simp)]
    rfl
  | cons m ms ih =>
    have hextract := extract_store cfg endPointList m.1 (h m List.mem_cons_self) m.2 (storefile ms)
    have htext : storefile (m :: ms) = m.1.store m.2 ++ storefile ms := List.flatMap_cons
    rw [htext, readFile_of_extract (by simp [IfStream.ofText]) hextract,
      ih _ fun m' hm' => h m' (List.mem_cons_of_mem _ hm')]
    rfl

/-! ## What the entries are merged to -/

theorem readEntries_ledger {ps : List Entry}
    (h : Ledger.Balanced cfg.monitors cfg.maxSize s.ledger ps) (entries : List Entry) :
    (entries.foldl (readEntry cfg) s).ledger =
      s.ledger.run cfg.monitors cfg.maxSize (entries.map fun p => (cfg.aggregate p.1, p.2)) := by
  induction entries generalizing s ps with
  | nil => rfl
  | cons p entries ih =>
    have hstep : (s.readEntry cfg p).ledger = _ :=
      account_ledger cfg h.keys (cfg.aggregate p.1) fun _ => rfl
    have hnext := h.post (cfg.aggregate p.1, p.2)
    rw [← hstep] at hnext
    rw [List.foldl_cons, ih hnext, hstep]
    rfl

theorem readStores_ledger {endPointList : List EndPoint} (h : ListSound cfg endPointList)
    (ms : List Interval) :
    (readStores cfg endPointList ms).map ledger =
      Ledger.runs cfg.monitors cfg.maxSize endPointList
        (ms.map fun m => m.sorted.map fun p => (cfg.aggregate p.1, p.2)) := by
  induction ms generalizing endPointList with
  | nil => rfl
  | cons m ms ih =>
    have hledger : (m.sorted.foldl (readEntry cfg) (new endPointList)).ledger =
        (Ledger.new endPointList).run cfg.monitors cfg.maxSize
          (m.sorted.map fun p => (cfg.aggregate p.1, p.2)) :=
      readEntries_ledger (s := new endPointList) h.new m.sorted
    have hbalanced := h.run (m.sorted.map fun p => (cfg.aggregate p.1, p.2))
    rw [← hledger] at hbalanced
    rw [readStores, List.map_cons, List.map_cons, Ledger.runs, ← hledger]
    exact congrArg (_ :: ·) (ih hbalanced.toAdmissible)

/-- Every store has the totals of the masked entries, in whatever order they come. -/
theorem readStores_lookup {known : List EndPoint} (hroom : known.dedup.length ≤ cfg.maxSize)
    (ms : List Interval) (hms : ∀ m ∈ ms, ∀ p ∈ m.pairs, cfg.aggregate p.1 ∈ known) :
    List.Forall₂ (fun s m => ∀ e, s.data.lookup e = if cfg.monitors e then
        Ledger.total (m.pairs.map fun p => (cfg.aggregate p.1, p.2)) e else none)
      (readStores cfg [] ms) ms := by
  have hempty : ListSound cfg [] := listSound_listAfter cfg []
  have hruns := Ledger.runs_lookup hempty (by simp) hroom
    (ms.map fun m => m.sorted.map fun p => (cfg.aggregate p.1, p.2)) (by
      intro ps hps e he
      obtain ⟨m, hm, rfl⟩ := List.mem_map.mp hps
      simp only [List.map_map, List.mem_map, Function.comp_apply] at he
      obtain ⟨p, hp, rfl⟩ := he
      exact hms m hm p ((List.perm_insertionSort _ _).mem_iff.mp hp))
  rw [← readStores_ledger hempty, List.forall₂_map_left_iff, List.forall₂_map_right_iff] at hruns
  refine hruns.imp fun s m h e => ?_
  have hperm : (m.sorted.map fun p => (cfg.aggregate p.1, p.2)).Perm
      (m.pairs.map fun p => (cfg.aggregate p.1, p.2)) := (List.perm_insertionSort _ _).map _
  rw [← Ledger.total_perm hperm]
  exact h e

end StatStore

/-! ## The round trip -/

/-- The six counters are the sums of those of `is`, modulo 2^64. -/
structure Info.Sums (is : List Info) (info : Info) : Prop where
  packetsIn : info.packetsIn.toNat = (is.map (·.packetsIn.toNat)).sum % 2 ^ 64
  packetsOut : info.packetsOut.toNat = (is.map (·.packetsOut.toNat)).sum % 2 ^ 64
  bytesIn : info.bytesIn.toNat = (is.map (·.bytesIn.toNat)).sum % 2 ^ 64
  bytesOut : info.bytesOut.toNat = (is.map (·.bytesOut.toNat)).sum % 2 ^ 64
  recordsIn : info.recordsIn.toNat = (is.map (·.recordsIn.toNat)).sum % 2 ^ 64
  recordsOut : info.recordsOut.toNat = (is.map (·.recordsOut.toNat)).sum % 2 ^ 64

/-- One entry for each masked end point of `m`, with the sums of the entries that mask to it. -/
structure Merged (cfg : StoreConfig) (data m : Interval) : Prop where
  keys : ∀ e, e ∈ data.keys ↔ ∃ p ∈ m.pairs, cfg.aggregate p.1 = e
  sums : ∀ e info, data.lookup e = some info →
    info.Sums ((m.pairs.filter fun p => cfg.aggregate p.1 = e).map Prod.snd)

theorem Info.sums_sum (is : List Info) : is.sum.Sums is := by
  induction is with
  | nil => constructor <;> rfl
  | cons i is ih =>
    obtain ⟨h1, h2, h3, h4, h5, h6⟩ := ih
    rw [List.sum_cons]
    constructor <;> simp [Info.add_def, UInt64.toNat_add, h1, h2, h3, h4, h5, h6]

theorem amounts_aggregate (cfg : StoreConfig) (ps : List Entry) (e : EndPoint) :
    Ledger.amounts (ps.map fun p => (cfg.aggregate p.1, p.2)) e =
      (ps.filter fun p => cfg.aggregate p.1 = e).map Prod.snd := by
  simp [Ledger.amounts, List.filter_map, Function.comp_def]

theorem merged_of_lookup {cfg : StoreConfig} {data m : Interval}
    (h : ∀ e, data.lookup e = Ledger.total (m.pairs.map fun p => (cfg.aggregate p.1, p.2)) e) :
    Merged cfg data m where
  keys := by
    intro e
    have hnone : e ∉ data.keys ↔
        e ∉ (m.pairs.map fun p => (cfg.aggregate p.1, p.2)).map Prod.fst := by
      rw [← AList.mem_keys, ← AList.lookup_eq_none, h, Ledger.total_eq_none, Ledger.amounts_eq_nil]
    have := not_iff_not.mp hnone
    simpa using this
  sums := by
    intro e info hinfo
    rw [h] at hinfo
    have hsum : info = (Ledger.amounts (m.pairs.map fun p => (cfg.aggregate p.1, p.2)) e).sum := by
      rw [← Ledger.total_getD, hinfo, Option.getD_some]
    rw [hsum, amounts_aggregate]
    exact Info.sums_sum _

/-- The key has all components, and no address is masked. -/
structure StoreConfig.Whole (cfg : StoreConfig) : Prop where
  ip : cfg.ipMonitoring = true
  port : cfg.portMonitoring = true
  protocol : cfg.protocolMonitoring = true
  netmask : cfg.netmask = 32

theorem remanentMask_all (ip : IpAddress) : ip.remanentMask 32 = ip := by
  have hand : ∀ x : UInt8, x &&& 255 = x := fun _ => UInt8.and_neg_one
  simp only [IpAddress.remanentMask, netmasks]
  exact IpAddress.mk.injEq .. ▸ ⟨hand _, hand _, hand _, hand _⟩

theorem StoreConfig.Whole.aggregate {cfg : StoreConfig} (h : cfg.Whole) (e : EndPoint) :
    cfg.aggregate e = e := by
  rw [StoreConfig.aggregate, h.ip, h.port, h.protocol, h.netmask, if_pos rfl,
    if_pos rfl, if_pos rfl,
    remanentMask_all]

/-- A file of any number of intervals is read back interval by interval, whatever the key and the
netmask are: each masked end point has one entry, with the sums of what was written. -/
theorem read_storefile (cfg : StoreConfig) (hevery : ∀ e, cfg.monitors e = true)
    (ms : List (Interval × Int32)) (hprint : ∀ m ∈ ms, ∀ p ∈ m.1.pairs, p.1.Printable)
    (hroom : ((ms.flatMap (·.1.pairs)).map fun p => cfg.aggregate p.1).dedup.length ≤ cfg.maxSize) :
    ∃ read, StatStore.readFile cfg [] (.ofText (storefile ms)) = some read ∧
      List.Forall₂ (Merged cfg) read (ms.map Prod.fst) ∧
      (cfg.Whole →
        List.Forall₂ (fun data m => ∀ e, data.lookup e = m.lookup e) read (ms.map Prod.fst)) := by
  have hsorted : ∀ m ∈ ms, ∀ p ∈ m.1.sorted, p.1.Printable := fun m hm p hp =>
    hprint m hm p ((List.perm_insertionSort _ _).mem_iff.mp hp)
  have hknown : ∀ m ∈ ms.map Prod.fst, ∀ p ∈ m.pairs,
      cfg.aggregate p.1 ∈ (ms.flatMap (·.1.pairs)).map fun p => cfg.aggregate p.1 := by
    intro m hm p hp
    obtain ⟨mn, hmn, rfl⟩ := List.mem_map.mp hm
    exact List.mem_map_of_mem (List.mem_flatMap_of_mem hmn hp)
  have hlookup := (StatStore.readStores_lookup hroom (ms.map Prod.fst) hknown).imp fun s m h e => by
    have := h e
    rwa [if_pos (hevery e)] at this
  refine ⟨_, StatStore.readFile_storefile [] ms hsorted, ?_, fun hwhole => ?_⟩
  · rw [List.forall₂_map_left_iff]
    exact hlookup.imp fun s m h => merged_of_lookup h
  · rw [List.forall₂_map_left_iff]
    refine hlookup.imp fun s m h e => ?_
    have hid : m.pairs.map (fun p => (cfg.aggregate p.1, p.2)) = m.pairs :=
      by simp [hwhole.aggregate]
    rw [h, hid]
    exact Ledger.total_postings m e

/-- Whole networks, with as many end points as one likes. -/
def networks : StoreConfig := { oneNetwork with endPointListMaxSize := 500 }

/-- Two hosts of one network in one interval, and an interval without traffic. -/
def twoHosts : List (Interval × Int32) :=
  [((AList.singleton (⟨⟨10, 0, 0, 1⟩, 80, 6⟩ : EndPoint) (⟨1, 0, 40, 0, 1, 0⟩ : Info)).insert
      ⟨⟨10, 0, 0, 2⟩, 1024, 6⟩ ⟨2, 3, 80, 120, 1, 1⟩, 0), (∅, 1)]

/-- The file of these, and what is read of it. -/
theorem read_storefile_twoHosts :
    storefile twoHosts =
      "10.0.0.1:80|6_1 0 40 0 1 0\n10.0.0.2:1024|6_2 3 80 120 1 1\n--- 0\n--- 1\n".toList ∧
    ∃ read, StatStore.readFile networks [] (.ofText (storefile twoHosts)) = some read ∧
      List.Forall₂ (Merged networks) read (twoHosts.map Prod.fst) ∧
      (networks.Whole → List.Forall₂ (fun data m => ∀ e, data.lookup e = m.lookup e) read
        (twoHosts.map Prod.fst)) :=
  ⟨by decide, read_storefile networks (fun _ => rfl) twoHosts (by decide) (by decide)⟩

end Wkp

end Topas
