import Topas.Core.OrderedMap
import Topas.L7Stat.OfflineFile

/-!
# The most frequent end points of a file

With `x_frequent_endpoints`, `Stat::init_endpoints` counts the end points of the offline file after
they are aggregated, and puts the `x` most frequent into the filter: it goes through the counts `x`
times, and takes out the first of the greatest each time. If the file does not have as many, every
end point is monitored.

* `readEndPoints_storefile`: the end points of a file that was written are those of its maps.
* `frequent_iff`: what is monitored is what the parameter asks for, if no count leaves the `int`,
  and if the parameter fits into the `uint16_t` that it is stored in. A greater one is taken modulo
  65536, and does no harm only where the file has fewer end points than what is left of it.
-/
namespace Topas.Wkp

open Text

/-! ## Counting -/

/-- The end points that are counted. `fep` is the same object for all lines.
mirrors detectionmodules/statmodules/wkp-module/stat-main.cpp:659-681 -/
def readEndPoints (cfg : StoreConfig) (fep : EndPoint) (dataFile : IfStream) :
    Option (List EndPoint) :=
  if _heof : dataFile.eof = true then some []
  else
    let next := dataFile.getline.1
    let tmp := dataFile.getline.2
    if next.fail then some []
    else if tmp.take 3 = ['-', '-', '-'] then readEndPoints cfg fep next
    else do
      let fep ← fep.assign tmp
      let fep := cfg.aggregate fep
      let feps ← readEndPoints cfg fep next
      some (fep :: feps)
termination_by if dataFile.eof then 0 else dataFile.rest.length + 1
decreasing_by all_goals
  have := @IfStream.rest_getline dataFile
  simp only [_heof, Bool.false_eq_true, if_false]
  split <;> simp_all

/-- `endPointCount[fep]++`, undefined where the `int` would overflow.
mirrors detectionmodules/statmodules/wkp-module/stat-main.cpp:683 -/
def increment (endPointCount : List (EndPoint × Int32)) (fep : EndPoint) :
    Option (List (EndPoint × Int32)) :=
  if endPointCount.lookup fep = some Int32.maxValue then none
  else some (OrderedMap.update EndPoint.lt 0 (· + 1) fep endPointCount)

/-! ## Selecting -/

/-- mirrors detectionmodules/statmodules/wkp-module/stat-main.cpp:700-707 -/
def mostFrequent (endPointCount : List (EndPoint × Int32)) : EndPoint :=
  (endPointCount.foldl (fun best i => if best.2 < i.2 then i else best) (EndPoint.zero, 0)).1

/-- What is stored of the parameter's value.
mirrors detectionmodules/statmodules/wkp-module/stat-main.cpp:99,645-648 -/
def xFrequentlyEndpoints (value : List Char) : UInt16 :=
  if value ≠ [] then (atoi value).toUInt32.toUInt16 else 10

/-- The rest of `init_endpoints`, where the parameter is given. `cfg` has the key and the netmask.
mirrors detectionmodules/statmodules/wkp-module/stat-main.cpp:644-713 -/
def initEndpoints (cfg : StoreConfig) (value : List Char) (dataFile : IfStream) :
    Option StoreConfig := do
  let x := (xFrequentlyEndpoints value).toNat
  let feps ← readEndPoints cfg EndPoint.zero dataFile
  let endPointCount ← feps.foldlM increment []
  if endPointCount.length < x then some { cfg with monitorEveryEndPoint := true }
  else
    let selected := OrderedMap.take EndPoint.lt mostFrequent x endPointCount
    some { cfg with endPointFilter := cfg.endPointFilter ++ selected.map (⟨·, 32⟩) }

/-! ## The end points of a file -/

section

variable (cfg : StoreConfig)

theorem readEndPoints_append (fep : EndPoint) {line : List Char} (hline : '\n' ∉ line)
    (rest : List Char) :
    readEndPoints cfg fep (.ofText (line ++ '\n' :: rest)) =
      if line.take 3 = ['-', '-', '-'] then readEndPoints cfg fep (.ofText rest)
      else (fep.assign line).bind fun fep =>
        (readEndPoints cfg (cfg.aggregate fep) (.ofText rest)).map (cfg.aggregate fep :: ·) := by
  rw [readEndPoints, IfStream.getline_append line rest hline]
  simp only [IfStream.ofText, Bool.false_eq_true, dite_false, if_false]
  split
  · rfl
  · cases fep.assign line with
    | none => rfl
    | some fep => exact Option.map_eq_bind.symm

theorem readEndPoints_nil (fep : EndPoint) : readEndPoints cfg fep (.ofText []) = some [] := by
  rw [readEndPoints, IfStream.getline_nil]
  rfl

/-- The lines of some entries. Whatever the last of them leaves in `fep`, what follows is read the
same. -/
theorem readEndPoints_lines {rest : List Char} {feps : List EndPoint}
    (hrest : ∀ fep, readEndPoints cfg fep (.ofText rest) = some feps) (entries : List Entry)
    (h : ∀ p ∈ entries, p.1.Printable) (fep : EndPoint) :
    readEndPoints cfg fep (.ofText (entries.flatMap (fun p => p.line ++ ['\n']) ++ rest)) =
      some (entries.map (fun p => cfg.aggregate p.1) ++ feps) := by
  induction entries generalizing fep with
  | nil => exact hrest fep
  | cons p entries ih =>
    have hp := h p List.mem_cons_self
    have hline : p.line = p.1.text ++ '_' :: p.2.text := rfl
    rw [List.flatMap_cons, List.append_assoc, List.append_assoc, List.singleton_append,
      readEndPoints_append cfg fep (Entry.not_mem_line hp rfl (by decide)),
        if_neg (StatStore.take_line p),
      hline, EndPoint.assign_text hp, Option.bind_some, ih fun q hq =>
        h q (List.mem_cons_of_mem _ hq)]
    rfl

/-- The end points that are counted in a file that was written are those of its maps. -/
theorem readEndPoints_storefile (ms : List (Interval × Int32))
    (h : ∀ m ∈ ms, ∀ p ∈ m.1.sorted, p.1.Printable) (fep : EndPoint) :
    readEndPoints cfg fep (.ofText (storefile ms)) =
      some (ms.flatMap fun m => m.1.sorted.map fun p => cfg.aggregate p.1) := by
  induction ms generalizing fep with
  | nil => exact readEndPoints_nil cfg fep
  | cons m ms ih =>
    have hseparator : ∀ fep, readEndPoints cfg fep
        (.ofText ('-' :: '-' :: '-' :: ' ' :: decInt m.2.toInt ++ '\n' :: storefile ms)) =
          some (ms.flatMap fun m => m.1.sorted.map fun p => cfg.aggregate p.1) := by
      intro fep
      have htake : ('-' :: '-' :: '-' :: ' ' :: decInt m.2.toInt).take 3 = ['-', '-', '-'] := rfl
      rw [readEndPoints_append cfg fep (by simp [decInt]; split <;> simp [not_mem_dec]),
        if_pos htake]
      exact ih (fun m' hm' => h m' (List.mem_cons_of_mem _ hm')) fep
    have htext : storefile (m :: ms) = m.1.sorted.flatMap (fun p => p.line ++ ['\n']) ++
        ('-' :: '-' :: '-' :: ' ' :: decInt m.2.toInt ++ '\n' :: storefile ms) := by
      simp [storefile, Interval.store, Interval.text]
    rw [htext, readEndPoints_lines cfg hseparator _ (h m List.mem_cons_self), List.flatMap_cons]

end

/-! ## The counts -/

theorem EndPoint.lt_iff (a b : EndPoint) : a.lt b = true ↔
    a.ipAddr.a < b.ipAddr.a ∨ a.ipAddr.a = b.ipAddr.a ∧ (a.ipAddr.b < b.ipAddr.b ∨
      a.ipAddr.b = b.ipAddr.b ∧ (a.ipAddr.c < b.ipAddr.c ∨ a.ipAddr.c = b.ipAddr.c ∧
        (a.ipAddr.d < b.ipAddr.d ∨ a.ipAddr.d = b.ipAddr.d ∧ (a.portNr < b.portNr ∨
          a.portNr = b.portNr ∧ a.protocolID < b.protocolID)))) := by
  simp only [EndPoint.lt, Bool.or_eq_true, Bool.and_eq_true, decide_eq_true_eq,
    and_or_left, and_assoc,
    or_assoc]

theorem EndPoint.total_lt : OrderedMap.Total EndPoint.lt where
  irrefl a := by
    rw [Bool.eq_false_iff, Ne, EndPoint.lt_iff]
    simp [Int32.lt_irrefl]
  trans a b c := by
    simp only [EndPoint.lt_iff, UInt8.lt_iff_toNat_lt, ← UInt8.toNat_inj, Int32.lt_iff_toInt_lt,
      ← Int32.toInt_inj]
    omega
  connected a b := by
    simp only [Bool.eq_false_iff, Ne, EndPoint.lt_iff, UInt8.lt_iff_toNat_lt, ← UInt8.toNat_inj,
      Int32.lt_iff_toInt_lt, ← Int32.toInt_inj]
    intro hab hba
    obtain ⟨⟨a1, a2, a3, a4⟩, a5, a6⟩ := a
    obtain ⟨⟨b1, b2, b3, b4⟩, b5, b6⟩ := b
    simp only [EndPoint.mk.injEq, IpAddress.mk.injEq, ← UInt8.toNat_inj, ← Int32.toInt_inj]
    simp only at hab hba
    omega

theorem iterate_succ (n : Nat) : (fun i : Int32 => i + 1)^[n] 0 = Int32.ofNat n := by
  induction n with
  | zero => rfl
  | succ n ih =>
    rw [Function.iterate_succ_apply', ih, Int32.ofNat_add]
    rfl

/-- The entries of the counts. -/
def endPointCount (feps : List EndPoint) : List (EndPoint × Int32) :=
  OrderedMap.tally EndPoint.lt 0 (· + 1) feps

theorem mem_endPointCount {feps : List EndPoint} {p : EndPoint × Int32} :
    p ∈ endPointCount feps ↔ p.1 ∈ feps ∧ p.2 = Int32.ofNat (feps.count p.1) := by
  rw [endPointCount, OrderedMap.mem_tally EndPoint.total_lt, iterate_succ]

theorem lookup_endPointCount (feps : List EndPoint) (e : EndPoint) :
    (endPointCount feps).lookup e = if e ∈ feps then some
    (Int32.ofNat (feps.count e)) else none := by
  rw [endPointCount, OrderedMap.lookup_tally EndPoint.total_lt, iterate_succ]

theorem endPointCount_append (feps : List EndPoint) (fep : EndPoint) :
    OrderedMap.update EndPoint.lt 0 (· + 1) fep (endPointCount feps) = endPointCount
    (feps ++ [fep]) := by
  rw [endPointCount, endPointCount, OrderedMap.tally, OrderedMap.tally, List.foldl_append]
  rfl

/-- One more than `INT_MAX` is not counted. -/
theorem increment_eq {feps : List EndPoint} {fep : EndPoint} (h : feps.count fep < 2 ^ 31) :
    increment (endPointCount feps) fep =
      if feps.count fep + 1 < 2 ^ 31 then some (endPointCount (feps ++ [fep])) else none := by
  have hlookup : (endPointCount feps).lookup fep = some Int32.maxValue ↔
      feps.count fep + 1 = 2 ^ 31 := by
    rw [lookup_endPointCount]
    have hmax : Int32.ofNat (feps.count fep) = Int32.maxValue ↔ feps.count fep + 1 = 2 ^ 31 := by
      rw [← Int32.toInt_inj, Int32.toInt_ofNat_of_lt h]
      have : Int32.maxValue.toInt = 2 ^ 31 - 1 := rfl
      omega
    split
    · simpa using hmax
    · rename_i hnot
      rw [List.count_eq_zero_of_not_mem hnot]
      simp
  rw [increment, endPointCount_append]
  by_cases hfull : feps.count fep + 1 = 2 ^ 31
  · rw [if_pos (hlookup.mpr hfull), if_neg (by omega)]
  · rw [if_neg (mt hlookup.mp hfull), if_pos (by omega)]

theorem count_append_lt {feps : List EndPoint} {fep : EndPoint} :
    (∀ e, (feps ++ [fep]).count e < 2 ^ 31) ↔ (∀ e, feps.count e < 2 ^ 31) ∧
    feps.count fep + 1 < 2 ^ 31 := by
  have hcount : ∀ e, (feps ++ [fep]).count e = feps.count e + if fep = e then 1 else 0 := by
    simp [List.count_append, List.count_singleton]
  refine ⟨fun h => ⟨fun e => ?_, ?_⟩, fun ⟨h, hlast⟩ e => ?_⟩
  · have := h e
    rw [hcount] at this
    omega
  · have := h fep
    rwa [hcount, if_pos rfl] at this
  · rw [hcount]
    split
    · rename_i heq
      rwa [← heq]
    · exact h e

/-- All are counted, if none of them is there too often. -/
theorem foldlM_increment (feps : List EndPoint) {m : List (EndPoint × Int32)} :
    feps.foldlM increment [] = some m ↔ (∀ e, feps.count e < 2 ^ 31) ∧ m = endPointCount feps := by
  induction feps using List.reverseRecOn generalizing m with
  | nil => simp [endPointCount, OrderedMap.tally, eq_comm]
  | append_singleton feps fep ih =>
    have hstep : (feps ++ [fep]).foldlM increment [] = some m ↔
        ∃ m', feps.foldlM increment [] = some m' ∧ increment m' fep = some m := by
      simp [List.foldlM_append, Option.bind_eq_some_iff]
    rw [hstep, count_append_lt]
    constructor
    · rintro ⟨m', hm', hinc⟩
      obtain ⟨hcount, rfl⟩ := ih.mp hm'
      rw [increment_eq (hcount fep)] at hinc
      split at hinc
      · rename_i hlast
        cases hinc
        exact ⟨⟨hcount, hlast⟩, rfl⟩
      · cases hinc
    · rintro ⟨⟨hcount, hlast⟩, rfl⟩
      exact ⟨_, ih.mpr ⟨hcount, rfl⟩, by rw [increment_eq (hcount fep), if_pos hlast]⟩

/-! ## The selection -/

/-- Where every count is positive, the pass finds one of the greatest. -/
theorem mostFrequent_spec {m : List (EndPoint × Int32)} (hm : m ≠ [])
    (hpos : ∀ p ∈ m, 0 < p.2.toInt) :
    ∃ v, (mostFrequent m, v) ∈ m ∧ ∀ p ∈ m, p.2.toInt ≤ v.toInt := by
  have hstep : ∀ best i : EndPoint × Int32,
      (if best.2 < i.2 then i else best) = if best.2.toInt < i.2.toInt then i else best := by
    simp only [Int32.lt_iff_toInt_lt, implies_true]
  obtain ⟨hmem, -, hgreatest⟩ :=
    OrderedMap.foldl_greatest (fun p : EndPoint × Int32 => p.2.toInt) hstep m
    (EndPoint.zero, 0)
  obtain ⟨p, hp⟩ := List.exists_mem_of_ne_nil m hm
  have hle := hgreatest p hp
  refine ⟨_, hmem.resolve_left fun hzero => ?_, hgreatest⟩
  have := hpos p hp
  rw [hzero] at hle
  exact absurd hle (by simpa using this)

/-- What the parameter asks for, with `feps` for the end points of the file. -/
structure Frequent (x : Nat) (feps : List EndPoint) (cfg : StoreConfig) : Prop where
  selected : x ≤ feps.dedup.length → cfg.monitorEveryEndPoint = false ∧
    ∃ sel : List EndPoint, cfg.endPointFilter = sel.map (⟨·, 32⟩) ∧ sel.length = x ∧ sel.Nodup ∧
      sel ⊆ feps ∧ ∀ e ∈ sel, ∀ e' ∈ feps, e' ∉ sel → feps.count e' ≤ feps.count e
  every : feps.dedup.length < x → cfg.monitorEveryEndPoint = true

theorem take_endPointCount {feps : List EndPoint} (hcount : ∀ e, feps.count e < 2 ^ 31) {x : Nat}
    (hx : x ≤ feps.dedup.length) :
    let sel := OrderedMap.take EndPoint.lt mostFrequent x (endPointCount feps)
    sel.length = x ∧ sel.Nodup ∧ sel ⊆ feps ∧
      ∀ e ∈ sel, ∀ e' ∈ feps, e' ∉ sel → feps.count e' ≤ feps.count e := by
  have hvalue : ∀ e, (Int32.ofNat (feps.count e)).toInt = feps.count e := fun e =>
    Int32.toInt_ofNat_of_lt (hcount e)
  have hpos : ∀ p ∈ endPointCount feps, 0 < p.2.toInt := by
    intro p hp
    obtain ⟨hmem, hval⟩ := mem_endPointCount.mp hp
    rw [hval, hvalue]
    exact_mod_cast List.count_pos_iff.mpr hmem
  obtain ⟨hlen, hnodup, hsub, hle⟩ := OrderedMap.take_spec EndPoint.total_lt Int32.toInt
    (fun m hm => mostFrequent_spec hm) x (OrderedMap.sorted_tally EndPoint.total_lt feps) hpos
    (by rwa [OrderedMap.length_tally EndPoint.total_lt])
  have hmem : ∀ e ∈ feps, (e, Int32.ofNat (feps.count e)) ∈ endPointCount feps := fun e he =>
    mem_endPointCount.mpr ⟨he, rfl⟩
  have hfeps : OrderedMap.take EndPoint.lt mostFrequent x (endPointCount feps) ⊆ feps :=
      fun e he => by
    obtain ⟨v, hv⟩ := hsub e he
    exact (mem_endPointCount.mp hv).1
  refine ⟨hlen, hnodup, hfeps, fun e he e' he' hnot => ?_⟩
  have := hle _ (hmem e (hfeps he)) he _ (hmem e' he') hnot
  rw [hvalue, hvalue] at this
  exact_mod_cast this

/-- The number that the parameter's text is read as. -/
theorem xFrequentlyEndpoints_dec (x : Nat) :
    (xFrequentlyEndpoints (dec x)).toNat = if x < 2 ^ 63 then x % 65536 else 65535 := by
  have hscan := scan_dec x (s := []) (fun _ h => by cases h)
  rw [List.append_nil] at hscan
  have hatoi : atoi (dec x) = Int32.ofNat (if x < 2 ^ 63 then x else 2 ^ 63 - 1) := by
    simp only [atoi, hscan, ofDigitChars_dec]
    rfl
  rw [xFrequentlyEndpoints, if_pos (dec_ne_nil x), hatoi, Int32.toUInt32_ofNat',
    UInt32.toNat_toUInt16,
    UInt32.toNat_ofNat']
  split <;> omega

/-- What the file and the parameter are stored as, where every count fits into the `int`. -/
theorem initEndpoints_eq_some {cfg r : StoreConfig} {value : List Char} {dataFile : IfStream}
    {feps : List EndPoint} (hread : readEndPoints cfg .zero dataFile = some feps) :
    initEndpoints cfg value dataFile = some r ↔ (∀ e, feps.count e < 2 ^ 31) ∧
      r = if feps.dedup.length < (xFrequentlyEndpoints value).toNat then
          { cfg with monitorEveryEndPoint := true }
        else { cfg with endPointFilter := cfg.endPointFilter ++
          (OrderedMap.take EndPoint.lt mostFrequent (xFrequentlyEndpoints value).toNat
            (endPointCount feps)).map (⟨·, 32⟩) } := by
  have hlen : (endPointCount feps).length = feps.dedup.length :=
    OrderedMap.length_tally EndPoint.total_lt feps
  rw [initEndpoints, hread]
  simp only [Option.bind_eq_bind, Option.bind_some, Option.bind_eq_some_iff, foldlM_increment]
  constructor
  · rintro ⟨m, ⟨hcount, rfl⟩, h⟩
    rw [hlen] at h
    refine ⟨hcount, ?_⟩
    split at h
    · cases h
      rw [if_pos ‹_›]
    · cases h
      rw [if_neg ‹_›]
  · rintro ⟨hcount, rfl⟩
    refine ⟨_, ⟨hcount, rfl⟩, ?_⟩
    rw [hlen]
    split <;> rfl

/-- For every file, key and netmask, and every value of the parameter: what is monitored is what the
parameter asks for if and only if no end point is there too often for the count, and the parameter
fits into 16 bits or the file has fewer end points than what is stored of it. -/
theorem frequent_iff (cfg : StoreConfig) (hevery : cfg.monitorEveryEndPoint = false)
    (hfilter : cfg.endPointFilter = []) (x : Nat) (value : List Char)
    (hvalue : value = dec x ∨ value = [] ∧ x = 10) (text : List Char) (feps : List EndPoint)
    (hread : readEndPoints cfg .zero (.ofText text) = some feps) :
    (∃ r, initEndpoints cfg value (.ofText text) = some r ∧ Frequent x feps r) ↔
      (∀ e, feps.count e < 2 ^ 31) ∧
        (x < 65536 ∨ feps.dedup.length < if x < 2 ^ 63 then x % 65536 else 65535) := by
  have hx : (xFrequentlyEndpoints value).toNat = if x < 2 ^ 63 then x % 65536 else 65535 := by
    obtain rfl | ⟨rfl, rfl⟩ := hvalue
    · exact xFrequentlyEndpoints_dec x
    · rfl
  simp only [initEndpoints_eq_some hread, hx]
  generalize hy : (if x < 2 ^ 63 then x % 65536 else 65535) = y
  have hyx : x < 65536 ∧ y = x ∨ 65536 ≤ x ∧ y < x := by
    split at hy <;> omega
  constructor
  · rintro ⟨r, ⟨hcount, rfl⟩, hr⟩
    refine ⟨hcount, ?_⟩
    by_contra hno
    obtain ⟨hwide, hfew⟩ := not_or.mp hno
    rw [if_neg hfew] at hr
    rcases le_or_gt x feps.dedup.length with hle | hlt
    · -- fewer than `x` are taken out
      obtain ⟨-, sel, hsel, hlen, -⟩ := hr.selected hle
      have htaken := (take_endPointCount hcount (not_lt.mp hfew)).1
      have := congrArg List.length hsel
      simp only [hfilter, List.nil_append, List.length_map] at this
      omega
    · have := hr.every hlt
      simp [hevery] at this
  · rintro ⟨hcount, hsmall⟩
    refine ⟨_, ⟨hcount, rfl⟩, ?_⟩
    by_cases hfew : feps.dedup.length < y
    · rw [if_pos hfew]
      exact ⟨fun hle => by omega, fun _ => rfl⟩
    · obtain rfl : y = x := by omega
      rw [if_neg hfew]
      exact ⟨fun hle => ⟨hevery, _, by rw [hfilter]; rfl, take_endPointCount hcount hle⟩,
        fun hlt => absurd hlt hfew⟩

/-- The addresses are the end points. -/
def hosts : StoreConfig := { oneNetwork with netmask := 32, monitorEveryEndPoint := false }

/-- The end points of the file with two hosts. -/
def twoEndPoints : List EndPoint := [⟨⟨10, 0, 0, 1⟩, 0, 0⟩, ⟨⟨10, 0, 0, 2⟩, 0, 0⟩]

theorem readEndPoints_twoHosts :
    readEndPoints hosts .zero (.ofText (storefile twoHosts)) = some twoEndPoints := by
  rw [readEndPoints_storefile hosts twoHosts (by decide)]
  rfl

/-- One of the two. -/
theorem frequent_iff_one :
    ∃ r, initEndpoints hosts (dec 1) (.ofText (storefile twoHosts)) = some r ∧
    Frequent 1 twoEndPoints r :=
  (frequent_iff hosts rfl rfl 1 (dec 1) (.inl rfl) (storefile twoHosts) twoEndPoints
    readEndPoints_twoHosts).mpr
      ⟨fun _ => Nat.lt_of_le_of_lt List.count_le_length (by simp [twoEndPoints]), .inl (by simp)⟩

/-- With 65537, which is more than the file has, one end point is monitored. -/
theorem frequent_not :
    readEndPoints hosts .zero (.ofText (storefile twoHosts)) = some twoEndPoints ∧
    ∃ r, initEndpoints hosts (dec 65537) (.ofText (storefile twoHosts)) = some r ∧
      r.endPointFilter = [⟨⟨⟨10, 0, 0, 1⟩, 0, 0⟩, 32⟩] ∧ r.monitorEveryEndPoint = false ∧
      ¬ Frequent 65537 twoEndPoints r := by
  refine ⟨readEndPoints_twoHosts, _,
    (initEndpoints_eq_some readEndPoints_twoHosts).mpr ⟨fun _ => ?_, rfl⟩, by decide, by
      decide, fun h => ?_⟩
  · exact Nat.lt_of_le_of_lt List.count_le_length (by simp [twoEndPoints])
  · have := h.every (by decide)
    revert this
    decide

end Topas.Wkp
