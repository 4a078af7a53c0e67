import Mathlib.Data.List.Nodup
import Topas.Core.Proc
import Topas.Core.Text
import Topas.L5Collector.FileExchange

/-!
# Recording and replaying packets

`FileRecorder::record` writes every packet to a file of its own, and a line with the time and the
number of the file to the index. `play` reads the index line by line, and gives the contents of the
files to the packet callback.

* `play_record`: on a file system that returns what was written, the callback gets the packets that
  were recorded, in order, whatever the times are.
* `returns_files`: the file system of `FileExchange` is one, as long as no number comes twice.
-/
namespace Topas

open Mem Proc Text

/-- A packet, and what `usecs()` is when it is recorded. -/
structure Recorded where
  data : List UInt8
  aktTime : UInt32
  length_lt : data.length < 65536
  deriving DecidableEq, Repr

/-- `written` is what was handed to the file system, with the names of the files.
mirrors collector/recorder.h:146-158 -/
structure FileRecorder where
  recording : Bool
  startTime : UInt32
  storagePath : Path
  number : UInt64
  indexFile : List Char
  written : List (Path × List UInt8)
  deriving DecidableEq, Repr

namespace FileRecorder

/-- mirrors collector/recorder.cpp:35-52 -/
def start (recording : Bool) (startTime : UInt32) (storagePath : Path) : FileRecorder :=
  ⟨recording, startTime, storagePath, 0, [], []⟩

/-- The difference is a `long`, and negative where `usecs()` has wrapped around. -/
def indexLine (startTime aktTime : UInt32) (number : UInt64) : List Char :=
  decInt (aktTime.toNat - startTime.toNat : Int) ++ '\t' :: dec number.toNat

/-- mirrors collector/recorder.cpp:83-95 -/
def record (r : FileRecorder) (p : Recorded) : FileRecorder :=
  if r.recording then
    { r with
      written := r.written ++ [(numbered r.storagePath r.number.toNat, IpfixFile.contents p.data)]
      indexFile := r.indexFile ++ (indexLine r.startTime p.aktTime r.number ++ ['\n'])
      number := r.number + 1 }
  else r

end FileRecorder

/-! ## Replaying -/

/-- `sscanf(line, "%u %lu", &time, &fileNumber)`; what is not converted keeps its value. -/
def scanIndexLine (line : List Char) (time : UInt32) (fileNumber : UInt64) : UInt32 × UInt64 :=
  match strtoul line with
  | none => (time, fileNumber)
  | some (t, rest) =>
    match strtoul rest with
    | none => (t.toUInt32, fileNumber)
    | some (n, _) => (t.toUInt32, n)

/-- How `play` ends. -/
inductive Played where
  | done
  | couldNotOpen (fileName : Path)
  deriving DecidableEq, Repr

/-- The variables of `play`, the number of lines it has read, and whether it has ended. -/
structure Player where
  indexFile : IfStream
  data : Mem
  time : UInt32
  fileNumber : UInt64
  lines : Nat
  played : Option Played

def Player.reading (p : Player) : Bool := p.played.isNone

/-- One round of the loop; a call of the packet callback is an event, with the bytes that it is
given. The waiting times and the files with them are left out.
mirrors collector/recorder.cpp:106-141 -/
def playBody (fs : FileSystem) (storagePath : Path) (doAbort : Nat → Bool) (p : Player) :
    Proc (List UInt8) Player :=
  let (indexFile, line) := p.indexFile.getline
  let p := { p with indexFile, lines := p.lines + 1 }
  if indexFile.fail || doAbort p.lines then return { p with played := some .done }
  else
    let (time, fileNumber) := scanIndexLine line p.time p.fileNumber
    let p := { p with time, fileNumber }
    let fileName := numbered storagePath fileNumber.toNat
    match fs fileName with
    | none => return { p with played := some (.couldNotOpen fileName) }
    | some (b0 :: b1 :: rest) => do
      let len := b0.toNat + b1.toNat * 256
      let data := store p.data 0 (rest.take len)
      emit (slice data 0 len)
      return { p with data }
    -- `len` is not initialised
    | some _ => stuck

/-- mirrors collector/recorder.cpp:97-143 -/
def play (fs : FileSystem) (storagePath : Path) (doAbort : Nat → Bool) (p : Player) :
    Proc (List UInt8) (Option Played) := do
  let p ← loop Player.reading (playBody fs storagePath doAbort) p
  return p.played

/-! ## What was recorded -/

/-- The index lines of packets that are recorded from `number` on. -/
def indexOf (startTime : UInt32) : UInt64 → List Recorded → List Char
  | _, [] => []
  | number, p :: ps =>
    FileRecorder.indexLine startTime p.aktTime number ++ '\n' :: indexOf startTime (number + 1) ps

/-- Their files. -/
def filesOf (storagePath : Path) : UInt64 → List Recorded → List (Path × List UInt8)
  | _, [] => []
  | number, p :: ps =>
    (numbered storagePath number.toNat, IpfixFile.contents p.data) :: filesOf storagePath
      (number + 1) ps

theorem FileRecorder.record_all {r : FileRecorder} (h : r.recording = true) (ps : List Recorded) :
    (ps.foldl record r).indexFile = r.indexFile ++ indexOf r.startTime r.number ps ∧
      (ps.foldl record r).written = r.written ++ filesOf r.storagePath r.number ps := by
  induction ps generalizing r with
  | nil => simp [indexOf, filesOf]
  | cons p ps ih =>
    have hrec : r.record p = { r with
        written := r.written ++ [(numbered r.storagePath r.number.toNat, IpfixFile.contents p.data)]
        indexFile := r.indexFile ++ (indexLine r.startTime p.aktTime r.number ++ ['\n'])
        number := r.number + 1 } := if_pos h
    obtain ⟨hindex, hfiles⟩ := @ih (r.record p) (by rw [hrec]; exact h)
    rw [List.foldl_cons, hindex, hfiles, hrec]
    simp [indexOf, filesOf]

/-! ## What is replayed -/

section Play

variable {fs : FileSystem} {storagePath : Path} {startTime : UInt32}

theorem scanIndexLine_indexLine (aktTime : UInt32) (number : UInt64) (t : UInt32) (n : UInt64) :
    ∃ time, scanIndexLine (FileRecorder.indexLine startTime aktTime number) t n =
      (time, number) := by
  have htab : Text.Ends ('\t' :: dec number.toNat) := by
    rintro c hc
    cases hc
    rfl
  obtain ⟨x, hx⟩ := strtoul_decInt (aktTime.toNat - startTime.toNat : Int) htab
  have hscan : scan ('\t' :: dec number.toNat) = scan (dec number.toNat) := by simp [scan, isSpace]
  have hskip : strtoul ('\t' :: dec number.toNat) = strtoul (dec number.toNat) := by
    rw [strtoul, strtoul, hscan]
  have hnumber := strtoul_dec number (s := []) (fun _ h => by cases h)
  rw [List.append_nil] at hnumber
  unfold scanIndexLine FileRecorder.indexLine
  rw [hx]
  simp only [hskip, hnumber]
  exact ⟨_, rfl⟩

theorem newline_notMem_indexLine (aktTime : UInt32) (number : UInt64) :
    '\n' ∉ FileRecorder.indexLine startTime aktTime number := by
  have hdec : ∀ n, '\n' ∉ dec n := fun n => not_mem_dec (by decide)
  unfold FileRecorder.indexLine decInt
  split
  · simp [hdec]
  · simp [hdec]

/-- What comes after the length in the file of a packet is the packet. -/
theorem slice_contents (data : Mem) (p : Recorded) :
    ∃ b0 b1 rest, IpfixFile.contents p.data = b0 :: b1 :: rest ∧
      slice (store data 0 (rest.take (b0.toNat + b1.toNat * 256))) 0
      (b0.toNat + b1.toNat * 256) = p.data := by
  have hlt := p.length_lt
  have hlen : (UInt8.ofNat p.data.length).toNat + (UInt8.ofNat (p.data.length / 256)).toNat * 256 =
      p.data.length := by
    simp only [UInt8.toNat_ofNat', Nat.reducePow]
    omega
  refine ⟨_, _, p.data, rfl, ?_⟩
  rw [hlen, List.take_length]
  exact holds_store data 0 p.data

/-- The loop, from the line of packet `number` on. -/
theorem play_from {number : UInt64} {ps : List Recorded} {p : Player}
    (hfs : ∀ f ∈ filesOf storagePath number ps, fs f.1 = some f.2)
    (hindex : p.indexFile = .ofText (indexOf startTime number ps)) (hp : p.played = none) :
    ∃ p', (loop Player.reading (playBody fs storagePath fun _ => false) p).Returns
      (ps.map Recorded.data) p' ∧ p'.played = some .done := by
  have hgo : p.reading = true := by rw [Player.reading, hp]; rfl
  induction ps generalizing number p with
  | nil =>
    have hbody : (playBody fs storagePath (fun _ => false) p).Returns [] { p with
        indexFile := ⟨[], true, true, true, fun _ => rfl⟩, lines := p.lines + 1, played :=
            some .done } := by
      unfold playBody
      rw [hindex]
      exact returns_pure.mpr ⟨rfl, rfl⟩
    refine
      ⟨_, (returns_loop_step hgo).mpr (hbody.then ((returns_loop_done rfl).mpr ⟨rfl, rfl⟩)), rfl⟩
  | cons r ps ih =>
    obtain ⟨time, hscan⟩ := @scanIndexLine_indexLine startTime r.aktTime number p.time p.fileNumber
    obtain ⟨b0, b1, rest, hcontents, hslice⟩ := slice_contents p.data r
    have hfile := hfs _ (List.mem_cons_self ..)
    have hline := IfStream.getline_append (FileRecorder.indexLine startTime r.aktTime number)
      (indexOf startTime (number + 1) ps) (newline_notMem_indexLine r.aktTime number)
    let next : Player := ⟨.ofText (indexOf startTime (number + 1) ps),
      store p.data 0 (rest.take (b0.toNat + b1.toNat * 256)), time, number, p.lines + 1, none⟩
    have hbody : (playBody fs storagePath (fun _ => false) p).Returns [r.data] next := by
      unfold playBody
      rw [hindex]
      simp only [indexOf, hline, hscan, hfile, hcontents]
      rw [if_neg (by simp [IfStream.ofText]), hslice, hp]
      have hemit : (emit r.data).Returns [r.data] () := returns_emit.mpr rfl
      exact hemit.last (returns_pure.mpr ⟨rfl, rfl⟩)
    obtain ⟨p', hr, hp'⟩ :=
      @ih (number + 1) next (fun f hf => hfs f (List.mem_cons_of_mem _ hf)) rfl rfl rfl
    exact ⟨p', (returns_loop_step hgo).mpr (hbody.bind hr), hp'⟩

end Play

/-- `play` before the first line; its variables are not initialised. -/
def Player.start (indexFile : List Char) (data : Mem) (time : UInt32) (fileNumber : UInt64) :
    Player :=
  ⟨.ofText indexFile, data, time, fileNumber, 0, none⟩

/-- The recorder after the packets `ps`. -/
def FileRecorder.recordAll (startTime : UInt32) (storagePath : Path) (ps : List Recorded) :
    FileRecorder :=
  ps.foldl record (start true startTime storagePath)

/-- If the files that were written are returned, the packet callback gets the recorded packets, and
`play` ends at the end of the index. -/
theorem play_record (startTime : UInt32) (storagePath : Path) (ps : List Recorded) (fs : FileSystem)
    (hfs : ∀ f ∈ (FileRecorder.recordAll startTime storagePath ps).written, fs f.1 = some f.2)
    (data : Mem) (time : UInt32) (fileNumber : UInt64) :
    (play fs storagePath (fun _ => false)
      (.start
        (FileRecorder.recordAll startTime storagePath ps).indexFile data time fileNumber)).Returns
      (ps.map Recorded.data) (some .done) := by
  obtain ⟨hindex, hwritten⟩ :=
    FileRecorder.record_all (r := .start true startTime storagePath) rfl ps
  have hfiles :
    (FileRecorder.recordAll startTime storagePath ps).written = filesOf storagePath 0 ps := hwritten
  have hlines :
    (FileRecorder.recordAll startTime storagePath ps).indexFile = indexOf startTime 0 ps := hindex
  rw [hfiles] at hfs
  rw [hlines]
  obtain ⟨p', hr, hp'⟩ := @play_from fs storagePath startTime 0 ps
    (.start (indexOf startTime 0 ps) data time fileNumber) hfs rfl rfl
  exact hr.last (returns_pure.mpr ⟨rfl, hp'.symm⟩)

/-! ## Files on disk -/

/-- The files, written one after the other. -/
def FileSystem.setAll (fs : FileSystem) (files : List (Path × List UInt8)) : FileSystem :=
  files.foldl (fun fs f => fs.set f.1 (some f.2)) fs

/-- A file that is not written again keeps its contents. -/
theorem FileSystem.setAll_other {fs : FileSystem} {files : List (Path × List UInt8)} {p : Path}
    (h : p ∉ files.map Prod.fst) : fs.setAll files p = fs p := by
  induction files generalizing fs with
  | nil => rfl
  | cons f files ih =>
    rw [List.map_cons, List.mem_cons, not_or] at h
    show (fs.set f.1 (some f.2)).setAll files p = fs p
    rw [ih h.2, set_other h.1]

theorem FileSystem.setAll_returns {fs : FileSystem} {files : List (Path × List UInt8)}
    (h : (files.map Prod.fst).Nodup) : ∀ f ∈ files, fs.setAll files f.1 = some f.2 := by
  induction files generalizing fs with
  | nil => exact fun f hf => nomatch hf
  | cons g files ih =>
    obtain ⟨hg, hfiles⟩ := List.nodup_cons.mp h
    intro f hf
    rcases List.mem_cons.mp hf with rfl | hf
    · show (fs.set f.1 (some f.2)).setAll files f.1 = some f.2
      rw [setAll_other hg, set_same]
    · exact ih hfiles f hf

theorem filesOf_names (storagePath : Path) (number : UInt64) (ps : List Recorded) :
    (filesOf storagePath number ps).map Prod.fst =
      (List.range ps.length).map fun i => numbered storagePath (number + .ofNat i).toNat := by
  induction ps generalizing number with
  | nil => rfl
  | cons p ps ih =>
    rw [filesOf, List.map_cons, ih, List.length_cons, List.range_succ_eq_map, List.map_cons,
      List.map_map]
    congr 1
    · simp
    · refine List.map_congr_left fun i _ => ?_
      have hnext : number + 1 + UInt64.ofNat i = number + UInt64.ofNat (i + 1) := by
        rw [UInt64.ofNat_add, UInt64.add_assoc, UInt64.add_comm 1]
        rfl
      simp only [Function.comp, hnext]

/-- The disk returns every packet, as long as there is a number for each. -/
theorem returns_files {startTime : UInt32} {storagePath : Path} {ps : List Recorded}
    (h : ps.length ≤ 2 ^ 64) (fs : FileSystem) :
    ∀ f ∈ (FileRecorder.recordAll startTime storagePath ps).written,
      fs.setAll (FileRecorder.recordAll startTime storagePath ps).written f.1 = some f.2 := by
  obtain ⟨-, hwritten⟩ := FileRecorder.record_all (r := .start true startTime storagePath) rfl ps
  have hfiles :
    (FileRecorder.recordAll startTime storagePath ps).written = filesOf storagePath 0 ps := hwritten
  rw [hfiles]
  refine FileSystem.setAll_returns ?_
  rw [filesOf_names]
  refine List.Nodup.map_on (fun i hi j hj hij => ?_) List.nodup_range
  have hi := List.mem_range.mp hi
  have hj := List.mem_range.mp hj
  have hnum := numbered_inj hij
  simp only [UInt64.zero_add, UInt64.toNat_ofNat'] at hnum
  omega

/-- An empty packet, and one that is recorded after `usecs()` has wrapped around. -/
def twoPackets : List Recorded := [⟨[], 10, by decide⟩, ⟨[7, 8], 0, by decide⟩]

theorem play_record_twoPackets :
    (FileRecorder.recordAll 5 ['p'] twoPackets).indexFile = "5\t0\n-5\t1\n".toList ∧
      (play
        (FileSystem.setAll (fun _ => none) (FileRecorder.recordAll 5 ['p'] twoPackets).written)
        ['p']
        (fun _ => false)
        (.start (FileRecorder.recordAll 5 ['p'] twoPackets).indexFile (fun _ => 0) 0 0)).Returns
        [[], [7, 8]] (some .done) :=
  ⟨by decide, play_record 5 ['p'] twoPackets _ (returns_files (by decide) _) (fun _ => 0) 0 0⟩

end Topas
