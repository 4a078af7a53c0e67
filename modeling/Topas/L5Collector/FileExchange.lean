import Topas.Core.Bytes
import Topas.L5Collector.Store

/-!
# Packets in files

In the mode `USE_FILES` a packet is written to the file whose name is `packetDir` and a
counter, and three places keep track of it: the exporter counts the files it has written
(`counter`), the packet store counts the packets (`newest`, `oldest`), and `IpfixFile` has
a list of names, from which `proceedOnePacket` takes the first.

* `file_holds`: with recording off, and fewer than `MAX_FILES` packets in the queue, each
  of them has its file, and every packet that is thrown away takes its own file with it,
  provided that what `ofstream` has buffered reaches the file when it is closed: nobody
  looks at the result of `close` (`file_cut_short`).
* `unlinks_exchanged`: the recorder writes through `IpfixFile` as well. With names of its
  own, all goes well exactly as long as no packet is thrown away that was written after the
  recorder's first file; then the recorder's files are unlinked (`recorded_unlinked`).

One thread receives; it records a packet, writes it, and queues it. The other steps are
those of `collector`.
-/
namespace Topas

open FileCounter Mem

/-! ## Files -/

abbrev Path := List Char

/-- What `"%s%i"` prints. -/
def numbered (dir : Path) (n : Nat) : Path := dir ++ Nat.toDigits 10 n

theorem numbered_inj {dir : Path} {m n : Nat} (h : numbered dir m = numbered dir n) : m = n := by
  have h := congrArg (Nat.ofDigitChars 10 · 0) (List.append_cancel_left h)
  simpa only [Nat.ofDigitChars_ten_toDigits] using h

abbrev FileSystem := Path → Option (List UInt8)

/-- The file `p` becomes `file`, or is not there any more. -/
def FileSystem.set (fs : FileSystem) (p : Path) (file : Option (List UInt8)) : FileSystem :=
  fun q => if q = p then file else fs q

@[simp] theorem FileSystem.set_same (fs : FileSystem) (p : Path) (file : Option (List UInt8)) :
    fs.set p file p = file := if_pos rfl

theorem FileSystem.set_other {fs : FileSystem} {p q : Path} {file : Option (List UInt8)}
    (h : q ≠ p) :
    fs.set p file q = fs q := if_neg h

/-- How the calls of `IpfixFile::writePacket` on its stream end. `close` is not checked:
with `closed n` the packet counts as written, and `n` bytes have reached the file. -/
inductive Outcome where
  | openFailed
  | lengthFailed (n : Nat)
  | dataFailed (n : Nat)
  | closed (n : Nat)
  deriving DecidableEq, Repr

namespace IpfixFile

def contents (data : List UInt8) : List UInt8 := encLe16 data.length ++ data

/-- The files afterwards, and whether the packet was written.
mirrors commonutils/packetstats.cpp:30-60 -/
def writePacket (fs : FileSystem) (filename : Path) (data : List UInt8) :
    Outcome → FileSystem × Bool
  | .openFailed => (fs, false)
  | .lengthFailed n => (fs.set filename (some ((contents data).take n)), false)
  | .dataFailed n => (fs.set filename (some ((contents data).take n)), false)
  | .closed n => (fs.set filename (some ((contents data).take n)), true)

end IpfixFile

/-- What had been buffered is in the file. -/
def Outcome.Flushed (data : List UInt8) : Outcome → Prop
  | .closed n => (IpfixFile.contents data).length ≤ n
  | _ => True

instance (data : List UInt8) : DecidablePred (Outcome.Flushed data) := fun o => by
  cases o <;> unfold Outcome.Flushed <;> infer_instance

/-! ## The collector with its files -/

structure ExchangeConfig where
  packetDir : Path
  storagePath : Path
  recording : Bool

namespace ExchangeConfig

/-- The file of the packet that was queued as number `n`. -/
def packetFile (cfg : ExchangeConfig) (n : Nat) : Path :=
    numbered cfg.packetDir (FileCounter.ofNat n).i

/-- Packets less than `MAX_FILES` apart have different files. -/
theorem packetFile_ne {cfg : ExchangeConfig} {m n : Nat} (hlt : m < n) (hn : n < m + MAX_FILES) :
    cfg.packetFile m ≠ cfg.packetFile n := by
  intro h
  refine ofNat_add_ne (n := m) (k := n - m) (by omega) (by omega) ?_
  rw [Nat.add_sub_cancel' (Nat.le_of_lt hlt)]
  exact FileCounter.ext (numbered_inj h)

end ExchangeConfig

/-- Where the receiver is in `messageCallBackFunction`. -/
inductive ReceiverPc where
  | idle
  | recorded (data : List UInt8)
  | written
  deriving DecidableEq, Repr

/-- The last four fields are ghosts: the packets the exporter has written, the files the
recorder has written, how many packets the exporter had written before the recorder's first
file, and the files that were unlinked. -/
structure FileExchange where
  coll : Collector
  fs : FileSystem
  fileNames : List Path
  counter : FileCounter
  number : Nat
  pc : ReceiverPc
  exported : List (List UInt8)
  recorded : List Path
  before : Option Nat
  unlinked : List Path

inductive FileExchangeOp where
  | record (data : List UInt8) (o : Outcome)
  | writePacket (o : Outcome)
  | pushIpfixPacket
  | coll (op : CollectorOp)
  deriving DecidableEq, Repr

namespace FileExchange

def init : FileExchange := ⟨.init, fun _ => none, [], .ofNat 0, 0, .idle, [], [], none, []⟩

/-- mirrors collector/recorder.cpp:83-95 -/
def record (cfg : ExchangeConfig) (s : FileExchange) (data : List UInt8) (o : Outcome) :
    FileExchange :=
  if cfg.recording then
    let fileName := numbered cfg.storagePath s.number
    let written := IpfixFile.writePacket s.fs fileName data o
    let s := { s with fs := written.1, number := (s.number + 1) % 2 ^ 64, pc := .recorded data }
    if written.2 then
      { s with
        fileNames := s.fileNames ++ [fileName]
        recorded := s.recorded ++ [fileName]
        before := s.before.or (some s.exported.length) }
    else s
  else { s with pc := .recorded data }

/-- The first half of `exportToSink`.
mirrors collector/detectmodexporter.cpp:58-76 -/
def writePacket (cfg : ExchangeConfig) (s : FileExchange) (data : List UInt8) (o : Outcome) :
    FileExchange :=
  let filename := numbered cfg.packetDir s.counter.i
  let written := IpfixFile.writePacket s.fs filename data o
  if written.2 then
    { s with
      fs := written.1
      fileNames := s.fileNames ++ [filename]
      exported := s.exported ++ [data]
      pc := .written }
  else { s with fs := written.1, pc := .idle }

/-- The other half.
mirrors collector/detectmodexporter.cpp:70-75, commonutils/packetstats.h:178-184 -/
def pushIpfixPacket (s : FileExchange) : FileExchange :=
  { s with coll := s.coll.exportToSink, counter := s.counter.incr, pc := .idle }

/-- A step of the manager; when it is about to throw a packet away, it unlinks the first
file of the list.
mirrors commonutils/packetstats.h:191-198, commonutils/packetstats.cpp:62-68 -/
def manager (s : FileExchange) : Option FileExchange :=
  match s.coll.pc, s.coll.files with
  | .pop (_ + 1), _ :: _ =>
    match s.fileNames with
    | [] => none
    | name :: names => s.coll.manager.map fun c =>
      { s with coll := c, fs := s.fs.set name none, fileNames := names, unlinked := s.unlinked ++ [name] }
  | _, _ => s.coll.manager.map fun c => { s with coll := c }

/-- mirrors collector/collector.cpp:459-467 -/
def step (cfg : ExchangeConfig) (s : FileExchange) : FileExchangeOp → Option FileExchange
  | .record data o =>
    if s.pc = .idle ∧ data.length < 65536 then some (s.record cfg data o) else none
  | .writePacket o =>
    match s.pc with
    | .recorded data => some (s.writePacket cfg data o)
    | _ => none
  | .pushIpfixPacket => if s.pc = .written then some s.pushIpfixPacket else none
  | .coll .exportToSink => none
  | .coll .manager => s.manager
  | .coll op => (s.coll.step op).map fun c => { s with coll := c }

end FileExchange

def fileExchange (cfg : ExchangeConfig) : LTS FileExchange FileExchangeOp :=
  .ofStep (· = FileExchange.init) (FileExchange.step cfg)

theorem FileExchange.reachable_exec {cfg : ExchangeConfig}
    {G : FileExchange → FileExchangeOp → Prop}
    [∀ s, DecidablePred (G s)] {s : FileExchange} {ops : List FileExchangeOp}
    (h : LTS.exec G (FileExchange.step cfg) .init ops = some s) :
    ((fileExchange cfg).restrict G).Reachable s :=
  LTS.Reachable.exec (.init rfl) h

/-! ## What a step does -/

section Inversion

variable {cfg : ExchangeConfig} {s s' : FileExchange} {op : FileExchangeOp}

inductive FileExchange.Moves (cfg : ExchangeConfig) (s : FileExchange) :
    FileExchangeOp → FileExchange → Prop where
  /-- The recorder is off or could not write. -/
  | received (data : List UInt8) (o : Outcome) (fs : FileSystem) (number : Nat) (hpc : s.pc = .idle)
      (hfs : cfg.recording = false → fs = s.fs) :
      Moves cfg s (.record data o) { s with fs := fs, number := number, pc := .recorded data }
  | recorded (data : List UInt8) (o : Outcome) (fs : FileSystem) (number : Nat) (hpc : s.pc = .idle)
      (hrec : cfg.recording = true) :
      Moves cfg s (.record data o) { s with
        fs := fs
        number := number
        pc := .recorded data
        fileNames := s.fileNames ++ [numbered cfg.storagePath s.number]
        recorded := s.recorded ++ [numbered cfg.storagePath s.number]
        before := s.before.or (some s.exported.length) }
  | exportFailed (data : List UInt8) (o : Outcome) (fs : FileSystem) (hpc : s.pc = .recorded data)
      (hfs : ∀ q, q ≠ numbered cfg.packetDir s.counter.i → fs q = s.fs q) :
      Moves cfg s (.writePacket o) { s with fs := fs, pc := .idle }
  | exported (data : List UInt8) (n : Nat) (hpc : s.pc = .recorded data) :
      Moves cfg s (.writePacket (.closed n)) { s with
        fs :=
          s.fs.set (numbered cfg.packetDir s.counter.i) (some ((IpfixFile.contents data).take n))
        fileNames := s.fileNames ++ [numbered cfg.packetDir s.counter.i]
        exported := s.exported ++ [data]
        pc := .written }
  | pushIpfixPacket (hpc : s.pc = .written) : Moves cfg s .pushIpfixPacket s.pushIpfixPacket
  | pop (n x : Nat) (xs : List Nat) (name : Path) (names : List Path)
    (hpc : s.coll.pc = .pop (n + 1))
      (hfiles : s.coll.files = x :: xs) (hnames : s.fileNames = name :: names) :
      Moves cfg s (.coll .manager) { s with
        coll := { s.coll with
          files := xs
          directory := s.coll.directory.filter (·.1 ≠ s.coll.oldest)
          oldest := s.coll.oldest.incr
          popped := s.coll.popped ++ [x]
          pc := .pop n }
        fs := s.fs.set name none
        fileNames := names
        unlinked := s.unlinked ++ [name] }
  | coll (op : CollectorOp) (c : Collector) (hc : s.coll.step op = some c)
      (hfiles : c.files = s.coll.files) (hpopped : c.popped = s.coll.popped)
      (hpushed : c.pushed = s.coll.pushed) :
      Moves cfg s (.coll op) { s with coll := c }

theorem Collector.Beside.queue {c c' : Collector} (h : c.Beside c') :
    c'.files = c.files ∧ c'.popped = c.popped ∧ c'.pushed = c.pushed := by
  cases h <;> exact ⟨rfl, rfl, rfl⟩

theorem FileExchange.manager_moves (h : s.manager = some s') :
    FileExchange.Moves cfg s (.coll .manager) s' := by
  unfold FileExchange.manager at h
  split at h
  · rename_i n x xs hpc hfiles
    split at h
    · cases h
    · rename_i name names hnames
      obtain ⟨c, hc, rfl⟩ := Option.map_eq_some_iff.mp h
      unfold Collector.manager at hc
      rw [hpc, hfiles] at hc
      cases hc
      exact .pop n x xs name names hpc hfiles hnames
  · rename_i hnot
    obtain ⟨c, hc, rfl⟩ := Option.map_eq_some_iff.mp h
    refine .coll .manager c hc ?_ ?_ ?_
    all_goals
      cases Collector.manager_cases hc with
      | pop n x xs hpc hfiles => exact absurd hfiles (hnot n x xs hpc)
      | _ => rfl

theorem FileExchange.record_moves {data : List UInt8} {o : Outcome} (hpc : s.pc = .idle) :
    FileExchange.Moves cfg s (.record data o) (s.record cfg data o) := by
  unfold FileExchange.record
  by_cases hrec : cfg.recording = true
  · rw [if_pos hrec]
    cases o with
    | closed n => exact .recorded data _ _ _ hpc hrec
    | _ => exact .received data _ _ _ hpc fun h => absurd hrec (by rw [h]; decide)
  · rw [if_neg hrec]
    exact .received data o s.fs s.number hpc fun _ => rfl

theorem FileExchange.writePacket_moves {data : List UInt8} {o : Outcome}
    (hpc : s.pc = .recorded data) :
    FileExchange.Moves cfg s (.writePacket o) (s.writePacket cfg data o) := by
  cases o with
  | closed n => exact .exported data n hpc
  | openFailed => exact .exportFailed data _ _ hpc fun _ _ => rfl
  | lengthFailed n => exact .exportFailed data _ _ hpc fun _ hq => FileSystem.set_other hq
  | dataFailed n => exact .exportFailed data _ _ hpc fun _ hq => FileSystem.set_other hq

theorem FileExchange.moves (h : s.step cfg op = some s') : FileExchange.Moves cfg s op s' := by
  cases op with
  | record data o =>
    unfold FileExchange.step at h
    simp only at h
    split at h
    · rename_i hr
      cases h
      exact FileExchange.record_moves hr.1
    · cases h
  | writePacket o =>
    unfold FileExchange.step at h
    simp only at h
    split at h
    · rename_i data hpc
      cases h
      exact FileExchange.writePacket_moves hpc
    · cases h
  | pushIpfixPacket =>
    unfold FileExchange.step at h
    simp only at h
    split at h
    · cases h; exact .pushIpfixPacket ‹_›
    · cases h
  | coll op =>
    have hop : op = .manager ∨ (op ≠ .exportToSink ∧ op ≠ .manager ∧
        (s.coll.step op).map (fun c => { s with coll := c }) = some s') := by
      cases op
      case exportToSink => cases h
      case manager => exact .inl rfl
      all_goals exact .inr ⟨(fun h => nomatch h), (fun h => nomatch h), h⟩
    rcases hop with rfl | ⟨he, hm, h⟩
    · exact FileExchange.manager_moves h
    · obtain ⟨c, hc, rfl⟩ := Option.map_eq_some_iff.mp h
      rcases Collector.step_cases hc with ⟨h, -⟩ | ⟨h, -⟩ | ⟨-, -, hb⟩
      · exact absurd h he
      · exact absurd h hm
      · obtain ⟨h1, h2, h3⟩ := hb.queue
        exact .coll op c hc h1 h2 h3

/-- The runs of `fileExchange` are runs of `collector`. -/
theorem FileExchange.coll_reachable (h : (fileExchange cfg).Reachable s) :
    collector.Reachable s.coll := by
  induction h with
  | init h0 => cases h0; exact .init rfl
  | step _ hs ih =>
    cases FileExchange.moves hs with
    | received data o fs number hpc hfs => exact ih
    | recorded data o fs number hpc hrec => exact ih
    | exportFailed data o fs hpc hfs => exact ih
    | exported data n hpc => exact ih
    | pushIpfixPacket hpc => exact .step ih (l := .exportToSink) rfl
    | pop n x xs name names hpc hfiles hnames =>
      refine .step ih (l := .manager) ?_
      show Collector.manager _ = some _
      unfold Collector.manager
      rw [hpc, hfiles]
    | coll op c hc hfiles hpopped hpushed => exact .step ih hc

theorem FileExchange.store (h : (fileExchange cfg).Reachable s) : s.coll.Store :=
  Collector.store_reachable (FileExchange.coll_reachable h)

end Inversion

/-! ## The list of names -/

/-- What has been listed so far, with what was unlinked first: up to the recorder's first
file, the files of the packets in order. -/
def FileExchange.Listed (cfg : ExchangeConfig) (s : FileExchange) : Prop :=
  match s.before with
  | none => s.recorded = [] ∧
    s.unlinked ++ s.fileNames = (List.range s.exported.length).map cfg.packetFile
  | some e => e ≤ s.exported.length ∧ ∃ p rest, p ∈ s.recorded ∧
    s.unlinked ++ s.fileNames = (List.range e).map cfg.packetFile ++ p :: rest

structure FileExchange.Names (cfg : ExchangeConfig) (s : FileExchange) : Prop where
  counter : s.counter = .ofNat s.coll.pushed
  exported : s.exported.length = s.coll.pushed + if s.pc = .written then 1 else 0
  unlinked : s.unlinked.length = s.coll.popped.length
  length : s.unlinked.length + s.fileNames.length = s.exported.length + s.recorded.length
  recorded : ∀ p ∈ s.recorded, ∃ n, p = numbered cfg.storagePath n
  listed : s.Listed cfg

section Names

variable {cfg : ExchangeConfig} {s s' : FileExchange} {op : FileExchangeOp}

theorem FileExchange.Names.packetFile (h : s.Names cfg) :
    numbered cfg.packetDir s.counter.i = cfg.packetFile s.coll.pushed := by
  rw [h.counter, ExchangeConfig.packetFile]

theorem FileExchange.Names.length_exported (h : s.Names cfg) (hpc : s.pc ≠ .written) :
    s.exported.length = s.coll.pushed := by
  rw [h.exported, if_neg hpc, Nat.add_zero]

theorem FileExchange.Names.pushed_le (h : s.Names cfg) : s.coll.pushed ≤ s.exported.length :=
  h.exported ▸ Nat.le_add_right _ _

/-- One more name at the end of the list. -/
theorem FileExchange.Names.exportedListed (h : s.Names cfg) (hpc : s.pc ≠ .written)
    {names : List Path}
    (hnames : s.unlinked ++ names = s.unlinked ++ s.fileNames ++ [cfg.packetFile s.coll.pushed])
    (data : List UInt8) (fs : FileSystem) :
    FileExchange.Listed cfg { s with
      fs := fs, fileNames := names, exported := s.exported ++ [data], pc := .written } := by
  have hl := h.listed
  have hlen := h.length_exported hpc
  unfold FileExchange.Listed at hl ⊢
  cases hb : s.before with
  | none =>
    rw [hb] at hl
    refine ⟨hl.1, ?_⟩
    show s.unlinked ++ names = (List.range (s.exported ++ [data]).length).map cfg.packetFile
    rw [hnames, hl.2, List.length_append, hlen]
    simp [List.range_succ]
  | some e =>
    rw [hb] at hl
    obtain ⟨he, p, rest, hp, heq⟩ := hl
    refine ⟨?_, p, rest ++ [cfg.packetFile s.coll.pushed], hp, ?_⟩
    · show e ≤ (s.exported ++ [data]).length
      simp only [List.length_append]
      omega
    · show s.unlinked ++ names = _
      rw [hnames, heq, List.append_assoc, List.cons_append]

theorem FileExchange.Names.recordedListed (h : s.Names cfg) {p : Path} (fs : FileSystem)
    (number : Nat) (pc : ReceiverPc) :
    FileExchange.Listed cfg { s with
      fs := fs
      number := number
      pc := pc
      fileNames := s.fileNames ++ [p]
      recorded := s.recorded ++ [p]
      before := s.before.or (some s.exported.length) } := by
  have hl := h.listed
  unfold FileExchange.Listed at hl ⊢
  cases hb : s.before with
  | none =>
    rw [hb] at hl
    refine ⟨Nat.le_refl _, p, [], List.mem_append_right _ List.mem_cons_self, ?_⟩
    show s.unlinked ++ (s.fileNames ++ [p]) = _
    rw [← List.append_assoc, hl.2]
  | some e =>
    rw [hb] at hl
    obtain ⟨he, q, rest, hq, heq⟩ := hl
    refine ⟨he, q, rest ++ [p], List.mem_append_left _ hq, ?_⟩
    show s.unlinked ++ (s.fileNames ++ [p]) = _
    rw [← List.append_assoc, heq, List.append_assoc, List.cons_append]

theorem FileExchange.Names.step (h : s.Names cfg) (hs : s.step cfg op = some s') :
    s'.Names cfg := by
  have hlen := h.length
  cases FileExchange.moves hs with
  | received data o fs number hpc hfs =>
    exact ⟨h.counter, h.length_exported (by simp [hpc]), h.unlinked, h.length, h.recorded, h.listed⟩
  | recorded data o fs number hpc hrec =>
    refine ⟨h.counter, h.length_exported (by simp [hpc]), h.unlinked, ?_, fun p hp => ?_,
      h.recordedListed fs number _⟩
    · simp only [List.length_append, List.length_singleton]
      omega
    · rcases List.mem_append.mp hp with hp | hp
      · exact h.recorded p hp
      · rw [List.mem_singleton] at hp
        exact ⟨_, hp⟩
  | exportFailed data o fs hpc hfs =>
    exact ⟨h.counter, h.length_exported (by simp [hpc]), h.unlinked, h.length, h.recorded, h.listed⟩
  | exported data n hpc =>
    have hne : s.pc ≠ .written := by simp [hpc]
    refine ⟨h.counter, ?_, h.unlinked, ?_, h.recorded, ?_⟩
    · show (s.exported ++ [data]).length = s.coll.pushed + 1
      rw [List.length_append, h.length_exported hne]
      rfl
    · simp only [List.length_append, List.length_singleton]
      omega
    · refine h.exportedListed hne ?_ data _
      rw [h.packetFile, List.append_assoc]
  | pushIpfixPacket hpc =>
    refine ⟨?_, ?_, h.unlinked, h.length, h.recorded, h.listed⟩
    · show s.counter.incr = .ofNat (s.coll.pushed + 1)
      rw [h.counter, incr_ofNat]
    · have := h.exported
      rw [if_pos hpc] at this
      exact this
  | pop n x xs name names hpc hfiles hnames =>
    have happ : s.unlinked ++ [name] ++ names = s.unlinked ++ s.fileNames := by
      rw [hnames, List.append_assoc, List.singleton_append]
    refine ⟨h.counter, h.exported, ?_, ?_, h.recorded, ?_⟩
    · simp only [List.length_append, List.length_singleton]
      exact congrArg (· + 1) h.unlinked
    · rw [hnames, List.length_cons] at hlen
      simp only [List.length_append, List.length_singleton]
      omega
    · have hl := h.listed
      unfold FileExchange.Listed at hl ⊢
      rw [← happ] at hl
      exact hl
  | coll op c hc hfiles hpopped hpushed =>
    refine ⟨?_, ?_, ?_, h.length, h.recorded, h.listed⟩
    · rw [hpushed]; exact h.counter
    · rw [hpushed]; exact h.exported
    · rw [hpopped]; exact h.unlinked

theorem FileExchange.names_reachable (h : (fileExchange cfg).Reachable s) : s.Names cfg := by
  refine LTS.Inductive.reachable (I := FileExchange.Names cfg) ⟨?_, ?_⟩ s h
  · intro s hs
    cases hs
    exact ⟨rfl, rfl, rfl, rfl, (fun p hp => nomatch hp), rfl, rfl⟩
  · intro s op s' h hs
    exact h.step hs

/-- What was unlinked is the first part of what was listed. -/
theorem FileExchange.Names.unlinked_eq (h : s.Names cfg) {e : Nat} {rest : List Path}
    (hlisted : s.unlinked ++ s.fileNames = (List.range e).map cfg.packetFile ++ rest)
    (hle : s.coll.popped.length ≤ e) :
    s.unlinked = (List.range s.coll.popped.length).map cfg.packetFile := by
  have htake := congrArg (List.take s.coll.popped.length) hlisted
  rwa [← h.unlinked, List.take_left' rfl, h.unlinked,
    List.take_append_of_le_length (by simpa using hle),
    ← List.map_take, List.take_range, Nat.min_eq_left hle] at htake

end Names

/-! ## Packets and their files -/

/-- Fewer than `MAX_FILES` packets are queued, and what is written is flushed. -/
def FileExchange.Kept (s : FileExchange) : FileExchangeOp → Prop
  | .writePacket o => s.coll.files.length < MAX_FILES ∧
    match s.pc with
    | .recorded data => o.Flushed data
    | _ => True
  | _ => s.coll.files.length < MAX_FILES

instance (s : FileExchange) : DecidablePred s.Kept := fun op => by
  cases op with
  | writePacket o =>
    unfold FileExchange.Kept
    cases s.pc <;> infer_instance
  | _ => exact inferInstanceAs (Decidable (s.coll.files.length < MAX_FILES))

/-- The packets that are in the queue, or about to be, have their files. -/
structure FileExchange.Held (cfg : ExchangeConfig) (s : FileExchange) : Prop where
  before : s.before = none
  room : s.exported.length ≤ s.coll.popped.length + MAX_FILES
  held : ∀ x data, s.coll.popped.length ≤ x → s.exported[x]? = some data →
    s.fs (cfg.packetFile x) = some (IpfixFile.contents data)

section Files

variable {cfg : ExchangeConfig} {s s' : FileExchange} {op : FileExchangeOp}

theorem FileExchange.Kept.lt (h : s.Kept op) : s.coll.files.length < MAX_FILES := by
  cases op with
  | writePacket o => exact h.1
  | _ => exact h

/-- A file with another counter is written: those of the queue stay. -/
theorem FileExchange.Held.other (h : s.Held cfg) (hstore : s.coll.Store)
    (hlt : s.coll.files.length < MAX_FILES) (hexp : s.exported.length = s.coll.pushed)
    {fs : FileSystem}
    (hfs : ∀ q, q ≠ cfg.packetFile s.coll.pushed → fs q = s.fs q) {x : Nat} {data : List UInt8}
    (hx : s.coll.popped.length ≤ x) (hdata : s.exported[x]? = some data) :
    fs (cfg.packetFile x) = some (IpfixFile.contents data) := by
  have hlen := hstore.length_files
  have hxlt := (List.getElem?_eq_some_iff.mp hdata).1
  rw [hfs _ (ExchangeConfig.packetFile_ne (by omega) (by omega))]
  exact h.held x data hx hdata

theorem FileExchange.Held.exported (h : s.Held cfg) (hstore : s.coll.Store)
    (hlt : s.coll.files.length < MAX_FILES) (hexp : s.exported.length = s.coll.pushed)
    {data : List UInt8}
    {n : Nat} (hn : (IpfixFile.contents data).length ≤ n) {fs : FileSystem} {names : List Path}
    (hfs : fs = s.fs.set (cfg.packetFile s.coll.pushed) (some ((IpfixFile.contents data).take n))) :
    FileExchange.Held cfg { s with
      fs := fs, fileNames := names, exported := s.exported ++ [data], pc := .written } := by
  have hlen := hstore.length_files
  refine ⟨h.before, ?_, fun x d hx hd => ?_⟩
  · simp only [List.length_append, List.length_singleton]
    omega
  · have hd : (s.exported ++ [data])[x]? = some d := hd
    show fs _ = _
    by_cases hxn : x < s.exported.length
    · rw [List.getElem?_append_left hxn] at hd
      exact h.other hstore hlt hexp (fun q hq => hfs ▸ FileSystem.set_other hq) hx hd
    · have hxlt := (List.getElem?_eq_some_iff.mp hd).1
      simp only [List.length_append, List.length_singleton] at hxlt
      obtain rfl : x = s.coll.pushed := by omega
      rw [← hexp, List.getElem?_concat_length, Option.some.injEq] at hd
      rw [hfs, FileSystem.set_same, List.take_of_length_le hn, hd]

theorem FileExchange.Held.pop (h : s.Held cfg) (hn : s.Names cfg) {name : Path} {names : List Path}
    (hnames : s.fileNames = name :: names) {c : Collector}
    (hc : c.popped.length = s.coll.popped.length + 1) {unlinked : List Path} :
    FileExchange.Held cfg { s with
      coll := c, fs := s.fs.set name none, fileNames := names, unlinked := unlinked } := by
  have hroom := h.room
  have hl := hn.listed
  unfold FileExchange.Listed at hl
  rw [h.before] at hl
  have hname : name = cfg.packetFile s.coll.popped.length := by
    have hget := congrArg (·[s.unlinked.length]?) hl.2
    simp only [hnames, List.getElem?_append_right (Nat.le_refl _), Nat.sub_self,
      List.getElem?_cons_zero,
      List.getElem?_map] at hget
    obtain ⟨i, hi, hname⟩ := Option.map_eq_some_iff.mp hget.symm
    obtain ⟨hlt, hi⟩ := List.getElem?_eq_some_iff.mp hi
    rw [List.getElem_range] at hi
    rw [← hname, ← hi, hn.unlinked]
  refine ⟨h.before, ?_, fun x data hx hdata => ?_⟩
  · show s.exported.length ≤ c.popped.length + MAX_FILES
    omega
  · have hx : c.popped.length ≤ x := hx
    have hxlt := (List.getElem?_eq_some_iff.mp hdata).1
    have hxlt : x < s.exported.length := hxlt
    show s.fs.set name none _ = _
    rw [FileSystem.set_other (hname ▸ (ExchangeConfig.packetFile_ne (by omega) (by omega)).symm)]
    exact h.held x data (by omega) hdata

theorem FileExchange.Held.step (h : s.Held cfg) (hrec : cfg.recording = false) (hn : s.Names cfg)
    (hstore : s.coll.Store) (hk : s.Kept op) (hs : s.step cfg op = some s') : s'.Held cfg := by
  have hlt := hk.lt
  cases FileExchange.moves hs with
  | received data o fs number hpc hfs =>
    refine ⟨h.before, h.room, fun x d hx hd => ?_⟩
    show fs _ = _
    rw [hfs hrec]
    exact h.held x d hx hd
  | recorded data o fs number hpc hrec' => rw [hrec] at hrec'; cases hrec'
  | exportFailed data o fs hpc hfs =>
    have hexp := hn.length_exported (by simp [hpc])
    rw [hn.packetFile] at hfs
    exact ⟨h.before, h.room, fun x d hx hd => h.other hstore hlt hexp hfs hx hd⟩
  | exported data n hpc =>
    have hexp := hn.length_exported (by simp [hpc])
    have hflushed := hk.2
    rw [hpc] at hflushed
    exact h.exported hstore hlt hexp hflushed (by rw [hn.packetFile])
  | pushIpfixPacket hpc => exact ⟨h.before, h.room, h.held⟩
  | pop n x xs name names hpc hfiles hnames => exact h.pop hn hnames List.length_append
  | coll op c hc hfiles hpopped hpushed =>
    refine ⟨h.before, ?_, ?_⟩
    · rw [hpopped]; exact h.room
    · rw [hpopped]; exact h.held

theorem FileExchange.held_reachable (hrec : cfg.recording = false)
    (h : ((fileExchange cfg).restrict FileExchange.Kept).Reachable s) : s.Held cfg := by
  induction h with
  | init h0 => cases h0; exact ⟨rfl, Nat.zero_le _, fun x data _ hd => by cases hd⟩
  | step hr hs ih =>
    exact ih.step hrec (FileExchange.names_reachable hr.of_restrict)
      (FileExchange.store hr.of_restrict)
      hs.2 hs.1

/-- What was written is never changed afterwards. -/
theorem FileExchange.exported_step {x : Nat} {data : List UInt8} (hs : s.step cfg op = some s')
    (hd : s.exported[x]? = some data) : s'.exported[x]? = some data := by
  cases FileExchange.moves hs with
  | exported d n hpc =>
    show (s.exported ++ [d])[x]? = some data
    rw [List.getElem?_append_left (List.getElem?_eq_some_iff.mp hd).1]
    exact hd
  | _ => exact hd

theorem FileExchange.exported_of_mem (hn : s.Names cfg) (hstore : s.coll.Store) {x : Nat}
    (hx : x ∈ s.coll.files) : s.coll.popped.length ≤ x ∧ ∃ data, s.exported[x]? = some data := by
  obtain ⟨j, hj⟩ := List.getElem?_of_mem hx
  have hlt := (List.getElem?_eq_some_iff.mp hj).1
  rw [hstore.files_getElem? hlt, Option.some.injEq] at hj
  have hlen := hstore.length_files
  have hexp := hn.pushed_le
  exact ⟨by omega, s.exported[x], List.getElem?_eq_getElem (by omega)⟩

/-- A packet of the queue, and the counter under which modules look for it. -/
theorem Collector.Store.packet_cases {c : Collector} (h : c.Store) {i : FileCounter} {x : Nat}
    (hx : c.packet i = some x) : x ∈ c.files ∧ FileCounter.ofNat x = i := by
  have hx : c.files[i.sub c.oldest]? = some x := hx
  have hlt := (List.getElem?_eq_some_iff.mp hx).1
  refine ⟨List.mem_of_getElem? hx, ?_⟩
  rw [h.files_getElem? hlt, Option.some.injEq, h.oldest] at hx
  rw [← hx, ofNat_add_sub]

/-- With recording off, as long as fewer than `MAX_FILES` packets are queued and what is written
is flushed: the file for a counter holds the packet that is queued under it; all counters of the
current notification are those of queued packets; a packet that is thrown away takes its own file
with it; and no step touches the file of a packet that stays in the queue. -/
theorem file_holds (hrec : cfg.recording = false)
    (h : ((fileExchange cfg).restrict FileExchange.Kept).Reachable s) :
    (∀ i x, s.coll.packet i = some x → ∃ data, s.exported[x]? = some data ∧
      s.fs (numbered cfg.packetDir i.i) = some (IpfixFile.contents data)) ∧
    (s.coll.Notified → ∀ i : FileCounter, i.sub s.coll.sbFrom < s.coll.sbTo.sub s.coll.sbFrom →
      ∃ x, s.coll.packet i = some x) ∧
    s.unlinked = s.coll.popped.map cfg.packetFile ∧
    ∀ op s', s.Kept op → s.step cfg op = some s' → ∀ x ∈ s.coll.files, x ∈ s'.coll.files →
      s'.fs (cfg.packetFile x) = s.fs (cfg.packetFile x) := by
  have hstore := FileExchange.store h.of_restrict
  have hn := FileExchange.names_reachable h.of_restrict
  have hh := FileExchange.held_reachable hrec h
  refine ⟨fun i x hx => ?_, fun hnot i hi => ?_, ?_, fun op s' hk hs x hx hx' => ?_⟩
  · obtain ⟨hmem, rfl⟩ := hstore.packet_cases hx
    obtain ⟨hle, data, hd⟩ := FileExchange.exported_of_mem hn hstore hmem
    exact ⟨data, hd, hh.held x data hle hd⟩
  · obtain ⟨hfrom, hle⟩ := hstore.window hnot
    rw [hfrom] at hi hle
    exact ⟨_, hstore.files_getElem? (Nat.lt_of_lt_of_le hi hle)⟩
  · have hl := hn.listed
    unfold FileExchange.Listed at hl
    rw [hh.before] at hl
    have hexp := hn.pushed_le
    have hlen := hstore.length_files
    have heq :=
      hn.unlinked_eq (e := s.exported.length) ((hl.2).trans (List.append_nil _).symm) (by omega)
    rwa [← hstore.popped_eq] at heq
  · obtain ⟨hle, data, hd⟩ := FileExchange.exported_of_mem hn hstore hx
    have hstore' := FileExchange.store (h.step ⟨hs, hk⟩).of_restrict
    have hn' := FileExchange.names_reachable (h.step ⟨hs, hk⟩).of_restrict
    have hle' := (FileExchange.exported_of_mem hn' hstore' hx').1
    rw [hh.held x data hle hd]
    exact (FileExchange.held_reachable hrec (h.step ⟨hs, hk⟩)).held x data hle'
      (FileExchange.exported_step hs hd)

end Files

def exchangeDirs (recording : Bool) : ExchangeConfig := ⟨['p', '/'], ['r', '/'], recording⟩

/-- One packet of three bytes, one module, and the round that throws the packet away. -/
def onePacket (o : Outcome) : List FileExchangeOp :=
  (startModule 0).map .coll ++ [.record [1, 2, 3] (.closed 5), .writePacket o, .pushIpfixPacket] ++
    (managerSteps 5 ++ workSteps 0 5 ++ managerSteps 4).map .coll

/-- Two packets, of which the recorder could not write the first; the second one arrives behind
`setTo`, and the first one is about to be thrown away. -/
def twoQueued : List FileExchangeOp :=
  (startModule 0).map .coll ++
    [.record [1, 2, 3] .openFailed, .writePacket (.closed 5), .pushIpfixPacket] ++
    (managerSteps 3).map .coll ++
      [.record [4] (.closed 3), .writePacket (.closed 3), .pushIpfixPacket] ++
    (managerSteps 2 ++ workSteps 0 5 ++ managerSteps 3).map .coll

theorem file_holds_twoQueued :
    ∃ s s', ((fileExchange (exchangeDirs false)).restrict FileExchange.Kept).Reachable s ∧
      s.step (exchangeDirs false) (.coll .manager) = some s' ∧ s.coll.files = [0, 1] ∧ s'.coll.files = [1] ∧
      s'.unlinked = [['p', '/', '0']] ∧ s'.fs ['p', '/', '0'] = none ∧
      s'.fs ['p', '/', '1'] = s.fs ['p', '/', '1'] ∧
      ∃ data, s'.exported[1]? = some data ∧ s'.fs ['p', '/', '1'] = some (IpfixFile.contents data) := by
  let s := (LTS.exec FileExchange.Kept (FileExchange.step (exchangeDirs false)) .init twoQueued).get
    (by decide)
  let s' := (s.step (exchangeDirs false) (.coll .manager)).get (by decide)
  have hreach : ((fileExchange (exchangeDirs false)).restrict FileExchange.Kept).Reachable s :=
    FileExchange.reachable_exec (Option.some_get _).symm
  have hstep : s.step (exchangeDirs false) (.coll .manager) = some s' := (Option.some_get _).symm
  have hkept : s.Kept (.coll .manager) := by decide
  have hunlinked : s'.unlinked = [0].map (exchangeDirs false).packetFile :=
    (file_holds rfl (hreach.step ⟨hstep, hkept⟩)).2.2.1
  exact ⟨s, s', hreach, hstep, by decide, by decide, hunlinked, by decide,
    (file_holds rfl hreach).2.2.2 _ s' hkept hstep 1 (by decide) (by decide),
    (file_holds rfl (hreach.step ⟨hstep, hkept⟩)).1 (.ofNat 1) 1 (by decide)⟩

/-- The three bytes and their length stay in the buffer of the stream, and `close` fails: the
module is told about a packet whose file is empty. -/
theorem file_cut_short :
    ∃ s, (fileExchange (exchangeDirs false)).Reachable s ∧ s.coll.pc = .wait 0 ∧
      s.coll.sbFrom = .ofNat 0 ∧ s.coll.sbTo = .ofNat 1 ∧ s.coll.packet (.ofNat 0) = some 0 ∧
      s.exported = [[1, 2, 3]] ∧ s.fs ['p', '/', '0'] = some [] := by
  let s := (LTS.exec (fun _ _ => True) (FileExchange.step (exchangeDirs false)) .init
    ((onePacket (.closed 0)).take 12)).get (by decide)
  have hreach : ((fileExchange (exchangeDirs false)).restrict fun _ _ => True).Reachable s :=
    FileExchange.reachable_exec (Option.some_get _).symm
  exact ⟨s, hreach.of_restrict, by decide, by decide, by decide, by decide, by decide, by decide⟩

/-! ## Recording -/

/-- Every packet that was thrown away has taken its own file with it, and none of the recorder's. -/
def FileExchange.Undisturbed (cfg : ExchangeConfig) (s : FileExchange) : Prop :=
  s.unlinked = (List.range s.coll.popped.length).map cfg.packetFile ∧
    ∀ p ∈ s.unlinked, p ∉ s.recorded

section Recording

variable {cfg : ExchangeConfig} {s : FileExchange}

/-- The recorder does no harm exactly until a packet is thrown away that was written after the
recorder's first file, or whose name the recorder has used as well. -/
theorem unlinks_exchanged (h : (fileExchange cfg).Reachable s) :
    s.Undisturbed cfg ↔ (∀ e, s.before = some e → s.coll.popped.length ≤ e) ∧
      ∀ n < s.coll.popped.length, cfg.packetFile n ∉ s.recorded := by
  have hn := FileExchange.names_reachable h
  have hl := hn.listed
  have hapart (heq : s.unlinked = (List.range s.coll.popped.length).map cfg.packetFile) :
      (∀ p ∈ s.unlinked, p ∉ s.recorded) ↔
          ∀ n < s.coll.popped.length, cfg.packetFile n ∉ s.recorded := by
    rw [heq, List.forall_mem_map]
    simp only [List.mem_range]
  have hown (hle : ∀ e, s.before = some e → s.coll.popped.length ≤ e) :
      s.unlinked = (List.range s.coll.popped.length).map cfg.packetFile := by
    unfold FileExchange.Listed at hl
    cases hb : s.before with
    | none =>
      rw [hb] at hl
      have hlen := hn.length
      rw [hl.1, hn.unlinked] at hlen
      exact hn.unlinked_eq ((hl.2).trans (List.append_nil _).symm)
        (Nat.le_trans (Nat.le_add_right _ _) (Nat.le_of_eq hlen))
    | some e =>
      rw [hb] at hl
      obtain ⟨_, p, rest, _, heq⟩ := hl
      exact hn.unlinked_eq heq (hle e hb)
  refine ⟨fun ⟨heq, hrec⟩ => ⟨fun e hb => ?_, (hapart heq).mp hrec⟩, fun ⟨hle, hrec⟩ =>
    ⟨hown hle, (hapart (hown hle)).mpr hrec⟩⟩
  unfold FileExchange.Listed at hl
  rw [hb] at hl
  obtain ⟨_, p, rest, hp, heq⟩ := hl
  refine Nat.le_of_not_lt fun hlt => hrec p ?_ hp
  -- the recorder's first file is among those that were unlinked
  have hget := congrArg (·[e]?) heq
  simp only [List.getElem?_append_left
    (show e < s.unlinked.length by rw [hn.unlinked]; exact hlt)] at hget
  rw [List.getElem?_append_right (by simp)] at hget
  simp only [List.length_map, List.length_range, Nat.sub_self, List.getElem?_cons_zero] at hget
  exact List.mem_of_getElem? hget

/-- `proceedOnePacket` never finds the list empty. -/
theorem fileNames_ne_nil (h : (fileExchange cfg).Reachable s) (hfiles : s.coll.files ≠ []) :
    s.fileNames ≠ [] := by
  have hn := FileExchange.names_reachable h
  have hlen := (FileExchange.store h).length_files
  have h1 := hn.length
  have h2 := hn.unlinked
  have h3 := hn.pushed_le
  have h4 := List.length_pos_iff.mpr hfiles
  exact List.length_pos_iff.mp (by omega)

end Recording

/-- The recorder's first file is that of the second packet, and the first packet has been thrown
away. -/
theorem unlinks_exchanged_twoQueued :
    ∃ s, (fileExchange (exchangeDirs true)).Reachable s ∧ s.coll.popped = [0] ∧
      s.recorded = [['r', '/', '1']] ∧ s.unlinked = [['p', '/', '0']] ∧ s.Undisturbed (exchangeDirs true) := by
  let s := (LTS.exec (fun _ _ => True) (FileExchange.step (exchangeDirs true)) .init
    (twoQueued ++ [.coll .manager])).get (by decide)
  have hreach : ((fileExchange (exchangeDirs true)).restrict fun _ _ => True).Reachable s :=
    FileExchange.reachable_exec (Option.some_get _).symm
  have hbefore : s.before = some 1 := by decide
  refine ⟨s, hreach.of_restrict, by decide, by decide, by decide,
    (unlinks_exchanged hreach.of_restrict).mpr ⟨fun e he => ?_, by decide⟩⟩
  obtain rfl : 1 = e := Option.some.inj (hbefore.symm.trans he)
  decide

/-- The first packet that is thrown away takes the recorder's file with it and leaves its own. -/
theorem recorded_unlinked :
    ∃ s, (fileExchange (exchangeDirs true)).Reachable s ∧ s.coll.popped = [0] ∧
      s.recorded = [['r', '/', '0']] ∧ s.unlinked = [['r', '/', '0']] ∧ s.fs ['r', '/', '0'] = none ∧
      s.fs ['p', '/', '0'] = some [3, 0, 1, 2, 3] := by
  let s := (LTS.exec (fun _ _ => True) (FileExchange.step (exchangeDirs true)) .init
    (onePacket (.closed 5))).get (by decide)
  have hreach : ((fileExchange (exchangeDirs true)).restrict fun _ _ => True).Reachable s :=
    FileExchange.reachable_exec (Option.some_get _).symm
  exact ⟨s, hreach.of_restrict, by decide, by decide, by decide, by decide, by decide⟩

end Topas
