import Topas.Core.LTS
import Topas.L3Ring.FileCounter

/-!
# The collector and its detection modules

Three kinds of threads, whose steps interleave in any order:

* the receiver, in `DetectModExporter::exportToSink`, writes packets and queues them;
* the manager goes through its rounds (`Manager::run`): it tells every module `from`
  and `to` and adds 2 to the module's semaphore (`notifyAll`, `notify`), waits for
  every semaphore to become 0 (`wait`), and throws the packets away (`clearSink`);
* the worker thread of each detection module (`DetectionBase::workThreadFunc`)
  takes 1 from its semaphore, imports the packets `from` up to `to`, and takes 1.

`from` and `to` are in memory that all of them share: every `setFrom`, `setTo`,
`getFrom` and `getTo` is a step of its own. So is every import of a packet, and every
packet that `clearSink` throws away. A blocking `semop` can be interrupted (`EINTR`).

Modules die, are killed by a signal handler, marked and restarted at any time.
`DetectMod::run` creates the semaphore, forks, and sets the state, in three steps. The
handler that restarts a module is in another thread than the manager, and a process that
dies early is handled before the call that has started it returns, so that several calls
may be under way for one module (`runs`).

Packets are their arrival numbers, and are exchanged as files: what a module gets for a
counter is what the file with that number has (`Collector.file`). The state that a process
is in before it has read its init data is not told apart from `wait`. `busy`, which only
selects the modules that are killed, is left out.
-/
namespace Topas

/-- mirrors collector/detectmod.h:40-45 -/
inductive ModState where
  | NotRunning | Remove | Running | Crashed
  deriving DecidableEq, Repr

/-- Where the worker thread of a module is. `getTo first i`: the import that began with
`first` is about to compare `i` with `to`.
mirrors detectionmodules/detectionbase/detectionbase.h:247-265,
detectionmodules/detectionbase/filepolicy.h:160-196 -/
inductive WorkPc where
  | wait
  | getFrom
  | getTo (first i : FileCounter)
  | notify
  | dead
  deriving DecidableEq, Repr

/-- The thread that has called `DetectMod::run`. -/
inductive Caller where
  | manager
  | handler
  deriving DecidableEq, Repr

/-- What a call of `DetectMod::run` does next.
mirrors collector/detectmod.cpp:50-115 -/
inductive RunPc where
  | semget
  | fork
  | setRunning
  deriving DecidableEq, Repr

structure RunCall where
  caller : Caller
  pc : RunPc
  deriving DecidableEq, Repr

/-- `semaphore` is `none` when it was removed; `runs` are the calls of `run` that have not
returned. The last four fields are ghosts: how many packets were queued before the module was
running, and, since its semaphore was created, what its process has imported, of what it was
notified, and over which counters it has completed an import. -/
structure DetectMod where
  state : ModState
  semaphore : Option Nat
  pc : WorkPc
  runs : List RunCall
  since : Nat
  imported : List Nat
  notified : List (FileCounter × FileCounter)
  imports : List (FileCounter × FileCounter)
  deriving DecidableEq, Repr

/-- Where the manager is; the number is that of a module.
mirrors collector/manager.cpp:197-208, collector/modulecontainer.cpp:117-142,
collector/detectmodexporter.cpp:93-156 -/
inductive ManagerPc where
  | lockMutex
  | setFrom (k : Nat)
  | setTo (k : Nat)
  | semop (k : Nat)
  | wait (k : Nat)
  | clearSink
  | pop (count : Nat)
  | terminated
  deriving DecidableEq, Repr

/-- The packet store (`files`, `oldest`, `newest`), the files of the packets (`directory`), the
shared block (`sbFrom`, `sbTo`), the modules, the manager; `pushed` counts the packets that were
queued, `popped` are those that were thrown away. -/
structure Collector where
  files : List Nat
  directory : List (FileCounter × Nat)
  oldest : FileCounter
  newest : FileCounter
  sbFrom : FileCounter
  sbTo : FileCounter
  detectionModules : List DetectMod
  pc : ManagerPc
  pushed : Nat
  popped : List Nat
  deriving DecidableEq, Repr

/-! ## Modules -/

namespace DetectMod

/-- A new module; the manager is about to call `run`.
mirrors collector/detectmod.cpp:35-43, collector/modulecontainer.cpp:77-102 -/
def create : DetectMod := ⟨.NotRunning, none, .dead, [⟨.manager, .semget⟩], 0, [], [], []⟩

/-- The next step of a call of `run`, behind `pushed` packets.
mirrors collector/detectmod.cpp:50-115 -/
def run (pushed j : Nat) (m : DetectMod) : Option DetectMod := do
  let r ← m.runs[j]?
  match r.pc with
  | .semget => some { m with
      semaphore := some 0
      runs := m.runs.set j { r with pc := .fork }
      imported := []
      notified := []
      imports := [] }
  | .fork => some { m with pc := .wait, runs := m.runs.set j { r with pc := .setRunning } }
  | .setRunning => some { m with
      state := .Running
      runs := m.runs.eraseIdx j
      since := if m.state = .Running then m.since else pushed }

/-- `pid` is that of the process of the last call. -/
def Forked (m : DetectMod) : Prop := ∀ r ∈ m.runs, r.pc = .setRunning

instance (m : DetectMod) : Decidable m.Forked :=
  inferInstanceAs (Decidable (∀ r ∈ m.runs, r.pc = .setRunning))

/-- The handler of a dead process begins to start a new one.
mirrors collector/detectmod.cpp:144-152, collector/modulecontainer.cpp:49-65 -/
def restartCrashed (m : DetectMod) : Option DetectMod :=
  if m.pc = .dead ∧ m.Forked ∧ m.state = .Crashed then
    some { m with semaphore := none, runs := m.runs ++ [⟨.handler, .semget⟩] }
  else none

/-- The `semop` of `DetectModExporter::notify`.
mirrors collector/detectmodexporter.cpp:93-110 -/
def post (m : DetectMod) (counters : FileCounter × FileCounter) : DetectMod :=
  match m.semaphore with
  | none => m
  | some n => { m with semaphore := some (n + 2), notified := m.notified ++ [counters] }

/-- The next step of the worker thread, or `none` where it blocks. `packet` is what the file with
a number has; a process that finds no file goes on, or dies.
mirrors detectionmodules/detectionbase/filepolicy.cpp:81-119,
detectionmodules/detectionbase/filepolicy.h:160-196 -/
def work (sbFrom sbTo : FileCounter) (packet : FileCounter → Option Nat) (m : DetectMod) :
    Option DetectMod :=
  match m.pc with
  | .wait =>
    match m.semaphore with
    | some 0 => none
    | some (n + 1) => some { m with semaphore := some n, pc := .getFrom }
    -- any error but EINTR counts as a notification
    | none => some { m with pc := .getFrom }
  | .getFrom => some { m with pc := .getTo sbFrom sbFrom }
  | .getTo first i =>
    if i = sbTo then some { m with pc := .notify, imports := m.imports ++ [(first, i)] }
    else some { m with pc := .getTo first i.incr, imported := m.imported ++ (packet i).toList }
  | .notify =>
    match m.semaphore with
    | some 0 => none
    | some (n + 1) => some { m with semaphore := some n, pc := .wait }
    | none => some { m with pc := .wait }
  | .dead => none

/-- The worker thread's `semop` blocks and returns `EINTR`: `wait` tries again, `notify`
does not.
mirrors detectionmodules/detectionbase/filepolicy.cpp:81-119 -/
def workInterrupted (m : DetectMod) : Option DetectMod :=
  match m.pc, m.semaphore with
  | .wait, some 0 => some m
  | .notify, some 0 => some { m with pc := .wait }
  | _, _ => none

/-- The collector's `semtimedop` waits for this module. -/
def Blocks (m : DetectMod) : Prop :=
  m.state = .Running ∧ m.semaphore ≠ none ∧ m.semaphore ≠ some 0

instance (m : DetectMod) : Decidable m.Blocks :=
  inferInstanceAs (Decidable (m.state = .Running ∧ m.semaphore ≠ none ∧ m.semaphore ≠ some 0))

end DetectMod

/-! ## The collector -/

inductive CollectorOp where
  | exportToSink
  | manager
  | managerInterrupted
  | work (k : Nat)
  | workInterrupted (k : Nat)
  | die (k : Nat)
  | stopModule (k : Nat)
  | sigChild (k : Nat) (state : ModState)
  | restartCrashed (k : Nat)
  | run (k j : Nat)
  | createModule
  deriving DecidableEq, Repr

namespace Collector

def init : Collector := ⟨[], [], .ofNat 0, .ofNat 0, .ofNat 0, .ofNat 0, [], .lockMutex, 0, []⟩

/-- `pushIpfixPacket`; the packet is written to the file with the number `newest` before.
mirrors collector/detectmodexporter.cpp:58-86, commonutils/packetstats.h:178-184 -/
def exportToSink (s : Collector) : Collector :=
  { s with
    files := s.files ++ [s.pushed]
    directory := (s.newest, s.pushed) :: s.directory
    newest := s.newest.incr
    pushed := s.pushed + 1 }

/-- The packet in the file with this number. -/
def file (s : Collector) (i : FileCounter) : Option Nat := s.directory.lookup i

/-- The packet in the queue with this counter. -/
def packet (s : Collector) (i : FileCounter) : Option Nat := s.files[i.sub s.oldest]?

theorem lookup_filter_ne {l : List (FileCounter × Nat)} {i j : FileCounter} (h : i ≠ j) :
    (l.filter (·.1 ≠ j)).lookup i = l.lookup i := by
  induction l with
  | nil => rfl
  | cons p l ih =>
    obtain ⟨k, x⟩ := p
    by_cases hk : k = j
    · have hik : (i == k) = false := beq_false_of_ne (hk ▸ h)
      rw [List.filter_cons_of_neg (by simpa using hk), ih, List.lookup_cons, hik]
    · rw [List.filter_cons_of_pos (by simpa using hk), List.lookup_cons, List.lookup_cons, ih]

/-- A step of a module that changes nothing else. -/
def onModule (s : Collector) (k : Nat) (f : DetectMod → Option DetectMod) : Option Collector := do
  let m ← s.detectionModules[k]?
  let m ← f m
  some { s with detectionModules := s.detectionModules.set k m }

/-- The manager has returned from `startModules`. -/
def Started (s : Collector) : Prop := ∀ m ∈ s.detectionModules, ∀ r ∈ m.runs, r.caller ≠ .manager

instance (s : Collector) : Decidable s.Started :=
  inferInstanceAs (Decidable (∀ m ∈ s.detectionModules, ∀ r ∈ m.runs, r.caller ≠ .manager))

/-- The next step of the manager, or `none` where it blocks. `semtimedop` is repeated while
the module is running.
mirrors collector/manager.cpp:197-208, collector/modulecontainer.cpp:117-142,
collector/detectmodexporter.cpp:93-156, commonutils/packetstats.h:191-214 -/
def manager (s : Collector) : Option Collector :=
  match s.pc with
  | .lockMutex =>
    if s.Started then
      some { s with
        detectionModules := s.detectionModules.filter (·.state ≠ .Remove)
        pc := .setFrom 0 }
    else none
  | .setFrom k =>
    if k < s.detectionModules.length then some { s with sbFrom := s.oldest, pc := .setTo k }
    else some { s with pc := .wait 0 }
  | .setTo k => some { s with sbTo := s.newest, pc := .semop k }
  | .semop k =>
    (s.onModule k fun m => some (m.post (s.sbFrom, s.sbTo))).map ({ · with pc := .setFrom (k + 1) })
  | .wait k =>
    match s.detectionModules[k]? with
    | none => some { s with pc := .clearSink }
    | some m => if m.Blocks then none else some { s with pc := .wait (k + 1) }
  | .clearSink =>
    -- an exception that nobody catches
    if s.files.length < s.sbTo.sub s.sbFrom then some { s with pc := .terminated }
    else some { s with pc := .pop (s.sbTo.sub s.sbFrom) }
  | .pop 0 => some { s with pc := .lockMutex }
  | .pop (n + 1) =>
    match s.files with
    | [] => none
    | x :: xs =>
      some { s with
        files := xs
        directory := s.directory.filter (·.1 ≠ s.oldest)
        oldest := s.oldest.incr
        popped := s.popped ++ [x]
        pc := .pop n }
  | .terminated => none

/-- `DetectModExporter::wait` blocks and its `semtimedop` returns `EINTR`: it returns -1,
which `notifyAll` ignores.
mirrors collector/detectmodexporter.cpp:112-151 -/
def managerInterrupted (s : Collector) : Option Collector :=
  match s.pc with
  | .wait k =>
    match s.detectionModules[k]? with
    | none => none
    | some m => if m.Blocks then some { s with pc := .wait (k + 1) } else none
  | _ => none

/-- The modules' states change with a signal, at any time; new modules are created between
two rounds, and started one after the other.
mirrors collector/detectmod.cpp:118-125, 144-157, collector/modulecontainer.cpp:49-101,
collector/manager.cpp:147-195 -/
def step (s : Collector) : CollectorOp → Option Collector
  | .exportToSink => some s.exportToSink
  | .manager => s.manager
  | .managerInterrupted => s.managerInterrupted
  | .work k => s.onModule k (DetectMod.work s.sbFrom s.sbTo s.file)
  | .workInterrupted k => s.onModule k DetectMod.workInterrupted
  | .die k => s.onModule k fun m => if m.pc = .dead then none else some { m with pc := .dead }
  | .stopModule k => s.onModule k fun m => some { m with state := .Crashed, semaphore := none }
  | .sigChild k state => s.onModule k fun m =>
    if m.pc = .dead ∧ m.Forked ∧
      (state = .Remove ∨ state = .Crashed) then some { m with state := state }
    else none
  | .restartCrashed k => s.onModule k DetectMod.restartCrashed
  | .run k j => s.onModule k (DetectMod.run s.pushed j)
  | .createModule =>
    if s.pc = .lockMutex ∧ s.Started then
      some { s with detectionModules := s.detectionModules ++ [DetectMod.create] }
    else none

end Collector

def collector : LTS Collector CollectorOp := .ofStep (· = Collector.init) Collector.step

/-- The state behind a list of steps from the beginning. -/
theorem Collector.reachable_exec {G : Collector → CollectorOp → Prop} [∀ s, DecidablePred (G s)]
    {s : Collector} {ops : List CollectorOp} (h : LTS.exec G Collector.step .init ops = some s) :
    (collector.restrict G).Reachable s :=
  LTS.Reachable.exec (.init rfl) h

/-! ## What a step does -/

namespace Collector

/-- The manager's steps, one constructor for each. -/
inductive ManagerStep (s : Collector) : Collector → Prop where
  | lockMutex (hpc : s.pc = .lockMutex) (hstart : s.Started) : ManagerStep s { s with
      detectionModules := s.detectionModules.filter (·.state ≠ .Remove)
      pc := .setFrom 0 }
  | setFrom (k : Nat) (hpc : s.pc = .setFrom k) (hk : k < s.detectionModules.length) :
      ManagerStep s { s with sbFrom := s.oldest, pc := .setTo k }
  | allTold (k : Nat) (hpc : s.pc = .setFrom k) (hk : s.detectionModules.length ≤ k) :
      ManagerStep s { s with pc := .wait 0 }
  | setTo (k : Nat) (hpc : s.pc = .setTo k) : ManagerStep s
    { s with sbTo := s.newest, pc := .semop k }
  | semop (k : Nat) (m : DetectMod) (hpc : s.pc = .semop k) (hm : s.detectionModules[k]? = some m) :
      ManagerStep s { s with
        detectionModules := s.detectionModules.set k (m.post (s.sbFrom, s.sbTo))
        pc := .setFrom (k + 1) }
  | wait (k : Nat) (m : DetectMod) (hpc : s.pc = .wait k) (hm : s.detectionModules[k]? = some m)
      (hb : ¬ m.Blocks) : ManagerStep s { s with pc := .wait (k + 1) }
  | waited (k : Nat) (hpc : s.pc = .wait k) (hm : s.detectionModules[k]? = none) :
      ManagerStep s { s with pc := .clearSink }
  | terminated (hpc : s.pc = .clearSink) (hlt : s.files.length < s.sbTo.sub s.sbFrom) :
      ManagerStep s { s with pc := .terminated }
  | clearSink (hpc : s.pc = .clearSink) (hle : s.sbTo.sub s.sbFrom ≤ s.files.length) :
      ManagerStep s { s with pc := .pop (s.sbTo.sub s.sbFrom) }
  | popped (hpc : s.pc = .pop 0) : ManagerStep s { s with pc := .lockMutex }
  | pop (n x : Nat) (xs : List Nat) (hpc : s.pc = .pop (n + 1)) (hfiles : s.files = x :: xs) :
      ManagerStep s { s with
        files := xs
        directory := s.directory.filter (·.1 ≠ s.oldest)
        oldest := s.oldest.incr
        popped := s.popped ++ [x]
        pc := .pop n }

/-- Steps that are neither the receiver's nor the manager's own. -/
inductive Beside (s : Collector) : Collector → Prop where
  | setModule (k : Nat) (m : DetectMod) :
      Beside s { s with detectionModules := s.detectionModules.set k m }
  | createModule (hpc : s.pc = .lockMutex) :
      Beside s { s with detectionModules := s.detectionModules ++ [DetectMod.create] }
  | interrupted (k : Nat) (hpc : s.pc = .wait k) : Beside s { s with pc := .wait (k + 1) }

section Inversion

variable {s s' : Collector}

theorem onModule_cases {k : Nat} {f : DetectMod → Option DetectMod} (h : s.onModule k f = some s') :
    ∃ m m', s.detectionModules[k]? = some m ∧ f m = some m' ∧
      s' = { s with detectionModules := s.detectionModules.set k m' } := by
  obtain ⟨m, hm, h⟩ := Option.bind_eq_some_iff.mp h
  obtain ⟨m', hm', h⟩ := Option.bind_eq_some_iff.mp h
  cases h
  exact ⟨m, m', hm, hm', rfl⟩

theorem manager_cases (h : s.manager = some s') : s.ManagerStep s' := by
  unfold manager at h
  cases hpc : s.pc with
  | lockMutex =>
    simp only [hpc] at h
    split at h
    · cases h; exact .lockMutex hpc ‹_›
    · cases h
  | setFrom k =>
    simp only [hpc] at h
    split at h
    · cases h; exact .setFrom k hpc ‹_›
    · cases h; exact .allTold k hpc (Nat.le_of_not_lt ‹_›)
  | setTo k => rw [hpc] at h; cases h; exact .setTo k hpc
  | semop k =>
    simp only [hpc] at h
    obtain ⟨s1, hs1, h⟩ := Option.map_eq_some_iff.mp h
    obtain ⟨m, m', hm, hm', rfl⟩ := onModule_cases hs1
    cases hm'
    cases h
    exact .semop k m hpc hm
  | wait k =>
    simp only [hpc] at h
    cases hm : s.detectionModules[k]? with
    | none => rw [hm] at h; cases h; exact .waited k hpc hm
    | some m =>
      simp only [hm] at h
      split at h
      · cases h
      · cases h; exact .wait k m hpc hm ‹_›
  | clearSink =>
    simp only [hpc] at h
    split at h
    · cases h; exact .terminated hpc ‹_›
    · cases h; exact .clearSink hpc (Nat.le_of_not_lt ‹_›)
  | pop count =>
    cases count with
    | zero => rw [hpc] at h; cases h; exact .popped hpc
    | succ n =>
      simp only [hpc] at h
      cases hfiles : s.files with
      | nil => rw [hfiles] at h; cases h
      | cons x xs => rw [hfiles] at h; cases h; exact .pop n x xs hpc hfiles
  | terminated => rw [hpc] at h; cases h

/-- Apart from the receiver, the manager and new modules, a step changes one module. -/
theorem step_cases {op : CollectorOp} (h : s.step op = some s') :
    (op = .exportToSink ∧ s' = s.exportToSink) ∨ (op = .manager ∧ s.ManagerStep s') ∨
      (op ≠ .exportToSink ∧ op ≠ .manager ∧ s.Beside s') := by
  have hmod : ∀ {k f}, s.onModule k f = some s' → s.Beside s' := fun {k} _ h => by
    obtain ⟨m, m', -, -, rfl⟩ := onModule_cases h
    exact .setModule k m'
  cases op with
  | exportToSink => cases h; exact .inl ⟨rfl, rfl⟩
  | manager => exact .inr (.inl ⟨rfl, manager_cases h⟩)
  | managerInterrupted =>
    refine .inr (.inr ⟨(fun h => nomatch h), (fun h => nomatch h), ?_⟩)
    have h : s.managerInterrupted = some s' := h
    unfold managerInterrupted at h
    split at h
    · rename_i k hpc
      split at h
      · cases h
      · split at h
        · cases h; exact .interrupted k hpc
        · cases h
    · cases h
  | createModule =>
    refine .inr (.inr ⟨(fun h => nomatch h), (fun h => nomatch h), ?_⟩)
    unfold step at h
    simp only at h
    split at h
    · rename_i hs
      cases h
      exact .createModule hs.1
    · cases h
  | _ => exact .inr (.inr ⟨(fun h => nomatch h), (fun h => nomatch h), hmod h⟩)

end Inversion

end Collector

/-- Module `k` is created, and started by the manager. -/
def startModule (k : Nat) : List CollectorOp := .createModule :: List.replicate 3 (.run k 0)

def managerSteps (n : Nat) : List CollectorOp := List.replicate n .manager

def workSteps (k n : Nat) : List CollectorOp := List.replicate n (.work k)

end Topas
