import Mathlib.Data.List.Perm.Basic
import Topas.Core.LTS
import Topas.Core.Semaphores
import Topas.L5Collector.Collector

/-!
# The semaphores of the modules

A module's semaphore is created when the module is started, with the first key that is free; the
process is told the key and looks the semaphore up. `stopModule` removes the semaphore at once, but
the process may live on for some time, and other programs have semaphores too.

Starting takes several steps of `run` and `sendInitData`, one of them for each key that is tried.
The handlers of the signals may come in between anywhere: a process that ends early is handled, and
started anew, while the call that has started it is still under way.

* `attached_own`: where the end of a process is handled only when the calls that have started it
  have returned (`Semaphores.Settled`), the process of a module that has not been stopped uses the
  module's own semaphore, and no process of another such module does. Otherwise it may be told the
  key that the earlier call has read (`attached_old`).
* `semaphores_accounted`: a semaphore of the collector belongs to a module that was not stopped, one
  of the container or one that was removed from it; the latter ones are never removed.
-/
namespace Topas

/-- What a call of `run` does before its process is there.
mirrors collector/detectmod.cpp:50-77 -/
inductive CreatePc where
  | semget | fork
  deriving DecidableEq, Repr

/-- What is left of `run` and `sendInitData` behind `fork`; the data are written after `semKey` has
been read.
mirrors collector/detectmod.cpp:103-116, collector/detectmodexporter.cpp:158-182 -/
inductive StartPc where
  | setRunning | sendInitData
  | write (semKey : Nat)
  deriving DecidableEq, Repr

/-- The process of a module: not there, waiting for the data on its standard input, with a key to
look up, with a semaphore, ended. -/
inductive ModProcess where
  | absent
  | reading
  | told (semKey : Nat)
  | attached (semId : Nat)
  | ended
  deriving DecidableEq, Repr

/-- `creating` is the call that has not forked yet: there is one at most, since `sigChild` knows the
module by the pid of its process. `starting` are the calls that have. `fork` stores the pid: an end
that is handled before that is of no module, and the process stays `ended` for good. `removed` is a
ghost: the semaphore was removed since it was created, or was not created. -/
structure SemModule where
  state : ModState
  semKey : Nat
  semId : Option Nat
  creating : Option CreatePc
  starting : List StartPc
  process : ModProcess
  removed : Bool
  deriving DecidableEq, Repr

inductive SemModuleOp where
  | run
  | semget
  | fork
  | start (j : Nat)
  | attach
  | stopModule
  | exit
  | sigChild (status : Nat)
  deriving DecidableEq, Repr

namespace SemModule

/-- mirrors collector/detectmod.cpp:35-43, collector/modulecontainer.cpp:96-102 -/
def new : SemModule := ⟨.NotRunning, 10000, none, none, [], .absent, true⟩

/-- `semctl(semId, 0, IPC_RMID, NULL)` -/
def rmid (m : SemModule) (t : SemTable) : SemTable :=
  match m.semId with
  | some id => t.rmid id
  | none => t

/-- One round of the loop that looks for a free key.
mirrors collector/detectmod.cpp:52-55 -/
def semget (t : SemTable) (m : SemModule) : SemTable × SemModule :=
  if h : m.semKey ∈ t.keys then (t, { m with semKey := m.semKey + 1 })
  else
    (t.create m.semKey h,
      { m with semId := some t.nextId, creating := some .fork, removed := false })

/-- The next step of a call that has forked. -/
def start (j : Nat) (m : SemModule) : Option SemModule :=
  match m.starting[j]? with
  | none => none
  | some .setRunning =>
    some { m with state := .Running, starting := m.starting.set j .sendInitData }
  | some .sendInitData => some { m with starting := m.starting.set j (.write m.semKey) }
  | some (.write semKey) => some { m with
      starting := m.starting.eraseIdx j
      process := if m.process = .reading then .told semKey else m.process }

/-- What is done with a module and by its process. A module that was never started is not stopped;
its `semId` is not initialized.
mirrors collector/detectmod.cpp:50-125, 144-152, collector/modulecontainer.cpp:49-102,
collector/manager.cpp:157-195, detectionmodules/detectionbase/filepolicy.cpp:37-54 -/
def step (restartOnCrash : Bool) (t : SemTable) (m : SemModule) :
    SemModuleOp → Option (SemTable × SemModule)
  | .run =>
    if m.state = .NotRunning ∧ m.creating = none ∧ m.starting = [] then
      some (t, { m with creating := some .semget })
    else none
  | .semget => if m.creating = some .semget then some (m.semget t) else none
  | .fork =>
    if m.creating = some .fork then
      some
        (t,
          { m with creating := none, starting := m.starting ++ [.setRunning], process := .reading })
    else none
  | .start j => (m.start j).map (t, ·)
  | .attach =>
    match m.process with
    | .told semKey =>
      match t.lookup semKey with
      | some id => some (t, { m with process := .attached id })
      | none => some (t, { m with process := .ended })
    | _ => none
  | .stopModule =>
    if m.semId = none then none else some (m.rmid t, { m with state := .Crashed, removed := true })
  | .exit =>
    if m.process = .absent ∨
      m.process = .ended then none else some (t, { m with process := .ended })
  | .sigChild status =>
    if m.process = .ended ∧ m.creating = none then
      if status = 0 then some (t, { m with state := .Remove, process := .absent })
      else if restartOnCrash then
        some (m.rmid t, { m with
          state := .Crashed, creating := some .semget, process := .absent, removed := true })
      else some (t, { m with state := .Remove, process := .absent })
    else none

end SemModule

/-- The semaphores of the system, the modules, and two ghosts: the modules that were removed from
the container, and the semaphores of other programs. -/
structure Semaphores where
  table : SemTable
  detectionModules : List SemModule
  erased : List SemModule
  others : List Nat
  deriving DecidableEq

inductive SemaphoresOp where
  | createModule
  | module (k : Nat) (op : SemModuleOp)
  | notifyAll
  | otherCreate (key : Nat)
  | otherRemove (id : Nat)
  deriving DecidableEq, Repr

namespace Semaphores

/-- All modules there were. -/
def modules (s : Semaphores) : List SemModule := s.detectionModules ++ s.erased

/-- mirrors collector/modulecontainer.cpp:96-102, 117-127 -/
def step (restartOnCrash : Bool) (s : Semaphores) : SemaphoresOp → Option Semaphores
  | .createModule => some { s with detectionModules := s.detectionModules ++ [.new] }
  | .module k op => do
    let m ← s.detectionModules[k]?
    let (table, m) ← m.step restartOnCrash s.table op
    some { s with table := table, detectionModules := s.detectionModules.set k m }
  | .notifyAll =>
    some { s with
      detectionModules := s.detectionModules.filter (·.state ≠ .Remove)
      erased := s.detectionModules.filter (·.state = .Remove) ++ s.erased }
  | .otherCreate key =>
    if h : key ∈ s.table.keys then none
    else some { s with table := s.table.create key h, others := s.table.nextId :: s.others }
  | .otherRemove id => if id ∈ s.others then some { s with table := s.table.rmid id } else none

/-- The end of a process is handled only when the calls that have started it have returned. -/
def Settled (s : Semaphores) : SemaphoresOp → Prop
  | .module k (.sigChild _) => ∀ m ∈ s.detectionModules[k]?, m.starting = []
  | _ => True

instance (s : Semaphores) : DecidablePred s.Settled := fun op => by
  unfold Settled
  split <;> infer_instance

end Semaphores

/-- At first there are only semaphores of others. -/
def semaphores (restartOnCrash : Bool) : LTS Semaphores SemaphoresOp :=
  .ofStep
    (fun s => s.detectionModules = [] ∧ s.erased = [] ∧ (∀ set ∈ s.table.sets, set.id ∈ s.others) ∧
    ∀ id ∈ s.others, id < s.table.nextId) (Semaphores.step restartOnCrash)

/-! ## One module -/

/-- Where the calls are, and what there is then. -/
structure SemModule.Phased (m : SemModule) : Prop where
  free : (m.state = .NotRunning ∧ m.creating = none ∧ m.starting = []) ∨ m.creating = some .semget →
    m.removed = true ∧ m.process = .absent
  forked : m.creating = some .fork → m.semId ≠ none ∧ m.process = .absent
  running : ∀ r ∈ m.starting, r ≠ .setRunning → m.state ≠ .NotRunning
  created : m.process ≠ .absent → m.semId ≠ none

/-- What there is of a module, among the semaphores `t`. -/
structure SemModule.Sound (t : SemTable) (m : SemModule) : Prop where
  phased : m.Phased
  lt : ∀ id, m.semId = some id → id < t.nextId
  key : ∀ set ∈ t.sets, m.semId = some set.id → set.key = m.semKey
  present : ∀ id, m.semId = some id → (t.Exists id ↔ m.removed = false)
  unset : m.semId = none → m.removed = true

/-- What the process of a module is told, and has, is the module's own. -/
structure SemModule.Own (m : SemModule) : Prop where
  alone : m.creating ≠ none → m.starting = []
  write : ∀ key, .write key ∈ m.starting → key = m.semKey
  told : ∀ key, m.process = .told key → key = m.semKey
  attached : ∀ id, m.process = .attached id → m.removed = false → m.semId = some id

section Module

variable {restartOnCrash : Bool} {t t' : SemTable} {m m' n : SemModule} {op : SemModuleOp}

theorem SemModule.sound_new (t : SemTable) : SemModule.new.Sound t where
  phased :=
    ⟨fun _ => ⟨rfl, rfl⟩, fun h => (nomatch h), fun _ h => (nomatch h), fun h => absurd rfl h⟩
  lt _ h := nomatch h
  key _ _ h := nomatch h
  present _ h := nomatch h
  unset _ := rfl

theorem SemModule.own_new : SemModule.new.Own where
  alone h := absurd rfl h
  write _ h := nomatch h
  told _ h := nomatch h
  attached _ h := nomatch h

/-- Where the semaphore of the module stays what it is. -/
theorem SemModule.Sound.frame (h : n.Sound t) (hle : t.nextId ≤ t'.nextId)
    (hsame : ∀ set, n.semId = some set.id → (set ∈ t'.sets ↔ set ∈ t.sets)) : n.Sound t' where
  __ := h
  lt id hid := Nat.lt_of_lt_of_le (h.lt id hid) hle
  key set hset hid := h.key set ((hsame set hid).mp hset) hid
  present id hid := by
    rw [← h.present id hid]
    constructor
    · rintro ⟨set, hset, rfl⟩
      exact ⟨set, (hsame set hid).mp hset, rfl⟩
    · rintro ⟨set, hset, rfl⟩
      exact ⟨set, (hsame set hid).mpr hset, rfl⟩

/-- The steps of a module, one constructor for each. -/
inductive SemModule.Moves (t : SemTable) (m : SemModule) :
    SemModuleOp → SemTable → SemModule → Prop where
  | run (hstate : m.state = .NotRunning) (hcreating : m.creating = none)
      (hstarting : m.starting = []) :
      Moves t m .run t { m with creating := some .semget }
  | nextKey (hpc : m.creating = some .semget) (hkey : m.semKey ∈ t.keys) :
      Moves t m .semget t { m with semKey := m.semKey + 1 }
  | create (hpc : m.creating = some .semget) (hkey : m.semKey ∉ t.keys) :
      Moves t m .semget (t.create m.semKey hkey)
        { m with semId := some t.nextId, creating := some .fork, removed := false }
  | fork (hpc : m.creating = some .fork) :
      Moves t m .fork t
        { m with creating := none, starting := m.starting ++ [.setRunning], process := .reading }
  | setRunning (j : Nat) (hj : m.starting[j]? = some .setRunning) :
      Moves t m (.start j) t
        { m with state := .Running, starting := m.starting.set j .sendInitData }
  | sendInitData (j : Nat) (hj : m.starting[j]? = some .sendInitData) :
      Moves t m (.start j) t { m with starting := m.starting.set j (.write m.semKey) }
  | write (j semKey : Nat) (hj : m.starting[j]? = some (.write semKey)) :
      Moves t m (.start j) t { m with
        starting := m.starting.eraseIdx j
        process := if m.process = .reading then .told semKey else m.process }
  | attach (semKey id : Nat) (hproc : m.process = .told semKey)
      (hlookup : t.lookup semKey = some id) :
      Moves t m .attach t { m with process := .attached id }
  | notFound (semKey : Nat) (hproc : m.process = .told semKey) :
      Moves t m .attach t { m with process := .ended }
  | stopModule (hid : m.semId ≠ none) :
      Moves t m .stopModule (m.rmid t) { m with state := .Crashed, removed := true }
  | exit (hproc : m.process ≠ .absent) : Moves t m .exit t { m with process := .ended }
  | remove (status : Nat) (hcreating : m.creating = none) :
      Moves t m (.sigChild status) t { m with state := .Remove, process := .absent }
  | restart (status : Nat) (hcreating : m.creating = none) :
      Moves t m (.sigChild status) (m.rmid t)
        { m with state := .Crashed, creating := some .semget, process := .absent, removed := true }

theorem SemModule.moves (hs : m.step restartOnCrash t op = some (t', m')) : m.Moves t op t' m' := by
  cases op with
  | run =>
    obtain ⟨⟨hstate, hcreating, hstarting⟩, hs⟩ := Option.ite_none_right_eq_some.mp hs
    cases hs
    exact .run hstate hcreating hstarting
  | semget =>
    obtain ⟨hpc, hs⟩ := Option.ite_none_right_eq_some.mp hs
    unfold SemModule.semget at hs
    split at hs
    · rename_i hkey
      cases hs
      exact .nextKey hpc hkey
    · rename_i hkey
      cases hs
      exact .create hpc hkey
  | fork =>
    obtain ⟨hpc, hs⟩ := Option.ite_none_right_eq_some.mp hs
    cases hs
    exact .fork hpc
  | start j =>
    obtain ⟨_, hm, hs⟩ := Option.map_eq_some_iff.mp hs
    cases hs
    unfold SemModule.start at hm
    split at hm
    · cases hm
    · rename_i hj
      cases hm
      exact .setRunning j hj
    · rename_i hj
      cases hm
      exact .sendInitData j hj
    · rename_i semKey hj
      cases hm
      exact .write j semKey hj
  | attach =>
    simp only [SemModule.step] at hs
    split at hs
    · rename_i semKey hproc
      split at hs
      · rename_i id hlookup
        cases hs
        exact .attach semKey id hproc hlookup
      · cases hs
        exact .notFound semKey hproc
    · cases hs
  | stopModule =>
    obtain ⟨hid, hs⟩ := Option.ite_none_left_eq_some.mp hs
    cases hs
    exact .stopModule hid
  | exit =>
    obtain ⟨hproc, hs⟩ := Option.ite_none_left_eq_some.mp hs
    cases hs
    exact .exit fun hno => hproc (.inl hno)
  | sigChild status =>
    obtain ⟨⟨-, hcreating⟩, hs⟩ := Option.ite_none_right_eq_some.mp hs
    split at hs
    · cases hs
      exact .remove status hcreating
    · split at hs
      · cases hs
        exact .restart status hcreating
      · cases hs
        exact .remove status hcreating

/-- What a step of a module does to the semaphores: its own one may be removed, or a new one is its
own. -/
inductive SemModule.Changes (m m' : SemModule) (t : SemTable) : SemTable → Prop where
  | same (hid : m'.semId = m.semId) : Changes m m' t t
  | rmid (hid : m'.semId = m.semId) : Changes m m' t (m.rmid t)
  | create (key : Nat) (h : key ∉ t.keys) (hid : m'.semId = some t.nextId)
      (hremoved : m.removed = true) :
      Changes m m' t (t.create key h)

theorem SemModule.mem_rmid {set : SemSet} :
    set ∈ (m.rmid t).sets ↔ set ∈ t.sets ∧ m.semId ≠ some set.id := by
  unfold SemModule.rmid
  split
  · rename_i id hid
    rw [SemTable.mem_rmid, hid]
    simp [eq_comm]
  · rename_i hid
    simp [hid]

theorem SemModule.exists_rmid {id : Nat} :
    (m.rmid t).Exists id ↔ m.semId ≠ some id ∧ t.Exists id := by
  simp only [SemTable.Exists, SemModule.mem_rmid]
  constructor
  · rintro ⟨set, ⟨hset, hne⟩, rfl⟩
    exact ⟨hne, set, hset, rfl⟩
  · rintro ⟨hne, set, hset, rfl⟩
    exact ⟨set, ⟨hset, hne⟩, rfl⟩

@[simp] theorem SemModule.nextId_rmid : (m.rmid t).nextId = t.nextId := by
  unfold SemModule.rmid
  split <;> rfl

/-- Its own semaphore is removed, and the rest of the module may change with that. -/
theorem SemModule.Sound.rmid (h : m.Sound t) (hphased : m'.Phased) (hid : m'.semId = m.semId)
    (hremoved : m'.removed = true) : m'.Sound (m.rmid t) where
  phased := hphased
  lt id hid' := by
    rw [SemModule.nextId_rmid]
    exact h.lt id (hid ▸ hid')
  key set hset hid' := absurd (hid ▸ hid') (SemModule.mem_rmid.mp hset).2
  present id hid' := by
    rw [SemModule.exists_rmid, hremoved]
    exact ⟨fun hex => absurd (hid ▸ hid') hex.1, fun hno => nomatch hno⟩
  unset _ := hremoved

/-- The semaphores stay, and so does what of the module they belong to. -/
theorem SemModule.Sound.keep (h : m.Sound t) (hphased : m'.Phased) (hid : m'.semId = m.semId)
    (hkey : m'.semKey = m.semKey) (hremoved : m'.removed = m.removed) : m'.Sound t where
  phased := hphased
  lt id hid' := h.lt id (hid ▸ hid')
  key set hset hid' := hkey ▸ h.key set hset (hid ▸ hid')
  present id hid' := hremoved ▸ h.present id (hid ▸ hid')
  unset hid' := hremoved ▸ h.unset (hid ▸ hid')

/-- Another key is tried while there is no semaphore. -/
theorem SemModule.Sound.nextKey (h : m.Sound t) (hphased : m'.Phased) (hremoved : m.removed = true)
    (hid : m'.semId = m.semId) (hremoved' : m'.removed = m.removed) : m'.Sound t where
  phased := hphased
  lt id hid' := h.lt id (hid ▸ hid')
  key set hset hid' := by
    have hlive := (h.present set.id (hid ▸ hid')).mp ⟨set, hset, rfl⟩
    rw [hremoved] at hlive
    cases hlive
  present id hid' := hremoved' ▸ h.present id (hid ▸ hid')
  unset hid' := hremoved' ▸ h.unset (hid ▸ hid')

theorem SemModule.Sound.create (hkey : m.semKey ∉ t.keys) (hphased : m'.Phased)
    (hid : m'.semId = some t.nextId) (hsame : m'.semKey = m.semKey)
    (hremoved : m'.removed = false) :
    m'.Sound (t.create m.semKey hkey) where
  phased := hphased
  lt id hid' := by
    cases hid.symm.trans hid'
    exact Nat.lt_succ_self _
  key set hset hid' := by
    rcases List.mem_cons.mp hset with rfl | hold
    · exact hsame.symm
    · have hlt := t.ids_lt set hold
      have heq : t.nextId = set.id := Option.some.inj (hid.symm.trans hid')
      omega
  present id hid' := by
    cases hid.symm.trans hid'
    exact iff_of_true ⟨⟨t.nextId, m.semKey⟩, List.mem_cons_self, rfl⟩ hremoved
  unset hno := nomatch hid.symm.trans hno

theorem SemModule.Phased.step (h : m.Phased) (hs : m.Moves t op t' m') : m'.Phased := by
  obtain ⟨hfree, hforked, hrunning, hcreated⟩ := h
  cases hs with
  | run hstate hcreating hstarting =>
    exact ⟨fun _ => hfree (.inl ⟨hstate, hcreating, hstarting⟩), fun h => (nomatch h),
      hrunning, hcreated⟩
  | nextKey hpc hkey => exact ⟨hfree, hforked, hrunning, hcreated⟩
  | create hpc hkey =>
    have habsent := (hfree (.inr hpc)).2
    refine
      ⟨fun h => ?_, fun _ => ⟨Option.some_ne_none _, habsent⟩, hrunning, fun h => absurd habsent h⟩
    simp at h
  | fork hpc =>
    refine ⟨fun h => ?_, fun h => (nomatch h), fun r hr hne => ?_, fun _ => (hforked hpc).1⟩
    · simp at h
    · rcases List.mem_append.mp hr with hr | hr
      · exact hrunning r hr hne
      · exact absurd (List.mem_singleton.mp hr) hne
  | setRunning j hj =>
    refine ⟨fun h => ?_, hforked, fun _ _ _ => by simp, hcreated⟩
    exact hfree (.inr (h.resolve_left fun hno => nomatch hno.1))
  | sendInitData j hj =>
    have hstate := hrunning _ (List.mem_of_getElem? hj) (by simp)
    exact
      ⟨fun h => hfree (.inr (h.resolve_left fun hno => hstate hno.1)), hforked, fun _ _ _ => hstate,
      hcreated⟩
  | write j semKey hj =>
    have hstate := hrunning _ (List.mem_of_getElem? hj) (by simp)
    have hproc : m.process = .absent →
        (if m.process = .reading then .told semKey else m.process) = .absent := by
      intro habsent
      rw [habsent, if_neg (by simp)]
    refine ⟨fun h => ?_, fun h => ⟨(hforked h).1, hproc (hforked h).2⟩, fun _ _ _ => hstate,
      fun hne => ?_⟩
    · obtain ⟨hremoved, habsent⟩ := hfree (.inr (h.resolve_left fun hno => hstate hno.1))
      exact ⟨hremoved, hproc habsent⟩
    · exact hcreated fun habsent => hne (hproc habsent)
  | attach semKey id hproc hlookup =>
    have hne : m.process ≠ .absent := fun hno => (nomatch hproc.symm.trans hno)
    exact ⟨fun h => absurd (hfree h).2 hne, fun h => absurd (hforked h).2 hne, hrunning,
      fun _ => hcreated hne⟩
  | notFound semKey hproc =>
    have hne : m.process ≠ .absent := fun hno => (nomatch hproc.symm.trans hno)
    exact ⟨fun h => absurd (hfree h).2 hne, fun h => absurd (hforked h).2 hne, hrunning,
      fun _ => hcreated hne⟩
  | stopModule hid =>
    refine ⟨fun h => ⟨rfl, (hfree (.inr ?_)).2⟩, hforked, fun _ _ _ => by simp, hcreated⟩
    exact h.resolve_left fun hno => nomatch hno.1
  | exit hne =>
    exact ⟨fun h => absurd (hfree h).2 hne, fun h => absurd (hforked h).2 hne, hrunning,
      fun _ => hcreated hne⟩
  | remove status hcreating =>
    refine ⟨fun h => ?_, fun h => (nomatch hcreating.symm.trans h), fun _ _ _ => by simp,
      fun h => absurd rfl h⟩
    rcases h with h | h
    · exact nomatch h.1
    · exact nomatch hcreating.symm.trans h
  | restart status hcreating =>
    exact ⟨fun _ => ⟨rfl, rfl⟩, fun h => (nomatch h), fun _ _ _ => by simp, fun h => absurd rfl h⟩

theorem SemModule.Sound.step (h : m.Sound t) (hs : m.Moves t op t' m') :
    m'.Sound t' ∧ m.Changes m' t t' := by
  have hphased := h.phased.step hs
  cases hs with
  | nextKey hpc hkey =>
    exact ⟨h.nextKey hphased (h.phased.free (.inr hpc)).1 rfl rfl, .same rfl⟩
  | create hpc hkey =>
    exact ⟨.create hkey hphased rfl rfl rfl, .create _ _ rfl (h.phased.free (.inr hpc)).1⟩
  | stopModule hid => exact ⟨h.rmid hphased rfl rfl, .rmid rfl⟩
  | restart status hcreating => exact ⟨h.rmid hphased rfl rfl, .rmid rfl⟩
  | _ => exact ⟨h.keep hphased rfl rfl rfl, .same rfl⟩

/-- A process that looks its key up finds its own semaphore, where that has not been removed. -/
theorem SemModule.Own.attach (h : m.Own) (hsound : m.Sound t) {key id : Nat}
    (htold : m.process = .told key)
    (hlookup : t.lookup key = some id) : SemModule.Own { m with process := .attached id } where
  alone := h.alone
  write := h.write
  told _ h := nomatch h
  attached id' hatt hlive := by
    cases hatt
    have hproc : m.process ≠ .absent := fun hno => nomatch htold.symm.trans hno
    obtain ⟨own, hown⟩ := Option.ne_none_iff_exists'.mp (hsound.phased.created hproc)
    obtain ⟨set, hset, rfl⟩ := (hsound.present own hown).mpr hlive
    have hkey : set.key = key := (hsound.key set hset hown).trans (h.told key htold).symm
    have heq := SemTable.eq_of_key hset (SemTable.lookup_mem hlookup) hkey
    rw [hown, heq]

/-- Where no process is told or attached, and no call has read the key. -/
theorem SemModule.Own.of_absent (halone : m.creating ≠ none → m.starting = [])
    (hwrite : ∀ key, .write key ∈ m.starting → key = m.semKey)
    (hproc : m.process = .absent ∨ m.process = .reading ∨ m.process = .ended) : m.Own where
  alone := halone
  write := hwrite
  told key htold := by
    rw [htold] at hproc
    simp at hproc
  attached id hatt := by
    rw [hatt] at hproc
    simp at hproc

theorem SemModule.Own.step (h : m.Own) (hsound : m.Sound t)
    (hset : ∀ status, op = .sigChild status → m.starting = []) (hs : m.Moves t op t' m') :
      m'.Own := by
  have hnone : ∀ {pc}, m.creating = some pc → m.starting = [] := fun hpc =>
    h.alone (by rw [hpc]; exact Option.some_ne_none _)
  have hempty : m.starting = [] → ∀ key k, .write key ∈ m.starting → key = k := by
    intro hnil key k hin
    rw [hnil] at hin
    cases hin
  cases hs with
  | run hstate hcreating hstarting => exact ⟨fun _ => hstarting, h.write, h.told, h.attached⟩
  | nextKey hpc hkey =>
    exact .of_absent (fun _ => hnone hpc) (fun key => hempty (hnone hpc) key _)
      (.inl (hsound.phased.free (.inr hpc)).2)
  | create hpc hkey =>
    exact .of_absent (fun _ => hnone hpc) h.write (.inl (hsound.phased.free (.inr hpc)).2)
  | fork hpc =>
    refine .of_absent (fun hne => absurd rfl hne) (fun key hin => ?_) (.inr (.inl rfl))
    rcases List.mem_append.mp hin with hin | hin
    · exact h.write key hin
    · simp at hin
  | setRunning j hj =>
    refine ⟨fun hne => ?_, fun key hin => ?_, h.told, h.attached⟩
    · rw [h.alone hne] at hj
      cases hj
    · rcases List.mem_or_eq_of_mem_set hin with hin | heq
      · exact h.write key hin
      · cases heq
  | sendInitData j hj =>
    refine ⟨fun hne => ?_, fun key hin => ?_, h.told, h.attached⟩
    · rw [h.alone hne] at hj
      cases hj
    · rcases List.mem_or_eq_of_mem_set hin with hin | heq
      · exact h.write key hin
      · cases heq
        rfl
  | write j semKey hj =>
    have hkey := h.write semKey (List.mem_of_getElem? hj)
    refine ⟨fun hne => ?_, fun key hin => h.write key (List.mem_of_mem_eraseIdx hin),
      fun key htold => ?_,
      fun id hatt => ?_⟩
    · rw [h.alone hne] at hj
      cases hj
    · simp only at htold
      split at htold
      · cases htold
        exact hkey
      · exact h.told key htold
    · simp only at hatt
      split at hatt
      · cases hatt
      · exact h.attached id hatt
  | attach semKey id hproc hlookup => exact h.attach hsound hproc hlookup
  | notFound semKey hproc => exact .of_absent h.alone h.write (.inr (.inr rfl))
  | stopModule hid => exact ⟨h.alone, h.write, h.told, fun _ _ hno => nomatch hno⟩
  | exit hproc => exact .of_absent h.alone h.write (.inr (.inr rfl))
  | remove status hcreating => exact .of_absent h.alone h.write (.inl rfl)
  | restart status hcreating =>
    have hnil := hset status rfl
    exact .of_absent (fun _ => hnil) (fun key => hempty hnil key _) (.inl rfl)

/-- A module with another semaphore does not notice. -/
theorem SemModule.Changes.frame (hc : m.Changes m' t t') (hn : n.Sound t)
    (hne : ∀ id, n.semId = some id → m.semId ≠ some id) : n.Sound t' := by
  cases hc with
  | same => exact hn
  | rmid =>
    refine hn.frame (Nat.le_of_eq SemModule.nextId_rmid.symm) fun set hid => ?_
    rw [SemModule.mem_rmid]
    exact and_iff_left (hne _ hid)
  | create key hkey =>
    refine hn.frame (Nat.le_succ _) fun set hid => ?_
    rw [SemTable.mem_create, or_iff_right]
    rintro rfl
    exact Nat.lt_irrefl _ (hn.lt _ hid)

end Module

/-! ## All modules -/

/-- Every semaphore is of one module, or of others. -/
structure Semaphores.Inv (s : Semaphores) : Prop where
  sound : ∀ m ∈ s.modules, m.Sound s.table
  distinct : s.modules.Pairwise fun a b => ∀ id, a.semId = some id → b.semId ≠ some id
  others_lt : ∀ id ∈ s.others, id < s.table.nextId
  not_others : ∀ m ∈ s.modules, ∀ id ∈ s.others, m.semId ≠ some id
  owned : ∀ set ∈ s.table.sets, set.id ∈ s.others ∨ ∃ m ∈ s.modules, m.semId = some set.id

section Modules

variable {restartOnCrash : Bool} {s s' : Semaphores} {op : SemaphoresOp}

/-- Only the order and the place of the modules are others. -/
theorem Semaphores.Inv.perm (h : s.Inv) (htable : s'.table = s.table)
    (hothers : s'.others = s.others) (hmodules : s.modules.Perm s'.modules) : s'.Inv where
  sound m hm := htable ▸ h.sound m (hmodules.mem_iff.mpr hm)
  distinct := (hmodules.pairwise_iff fun hab id hb ha => hab id ha hb).mp h.distinct
  others_lt := by rw [htable, hothers]; exact h.others_lt
  not_others m hm := hothers ▸ h.not_others m (hmodules.mem_iff.mpr hm)
  owned set hset := by
    rw [hothers]
    refine (h.owned set (htable ▸ hset)).imp_right fun ⟨m, hm, hid⟩ =>
      ⟨m, hmodules.mem_iff.mp hm, hid⟩

/-- A module that was never started. -/
theorem Semaphores.Inv.createModule (h : s.Inv) (htable : s'.table = s.table)
    (hothers : s'.others = s.others)
    (hmodules : (.new :: s.modules : List SemModule).Perm s'.modules) : s'.Inv := by
  have hcons : Semaphores.Inv { s with detectionModules := .new :: s.detectionModules } :=
    { h with
      sound := List.forall_mem_cons.mpr ⟨SemModule.sound_new s.table, h.sound⟩
      distinct := List.pairwise_cons.mpr ⟨fun _ _ _ hid => (nomatch hid), h.distinct⟩
      not_others := List.forall_mem_cons.mpr ⟨fun _ _ hid => (nomatch hid), h.not_others⟩
      owned := fun set hset =>
        (h.owned set hset).imp_right fun ⟨m, hm, hid⟩ => ⟨m, List.mem_cons_of_mem _ hm, hid⟩ }
  exact hcons.perm htable hothers hmodules

/-- The semaphores of others come and go. -/
theorem Semaphores.Inv.others (h : s.Inv) {table : SemTable} {others : List Nat}
    (hle : s.table.nextId ≤ table.nextId)
    (hold : ∀ set, set.id ∉ s.others → set.id < s.table.nextId →
      (set ∈ table.sets ↔ set ∈ s.table.sets))
    (hnew : ∀ set ∈ table.sets, set.id ∈ others ∨ set ∈ s.table.sets) (hsub : s.others ⊆ others)
    (hothers : ∀ id ∈ others, id ∈ s.others ∨ id = s.table.nextId ∧ id < table.nextId) :
    Semaphores.Inv { s with table := table, others := others } where
  sound m hm := (h.sound m hm).frame hle fun set hid =>
    hold set (fun hother => h.not_others m hm _ hother hid) ((h.sound m hm).lt _ hid)
  distinct := h.distinct
  others_lt id hid := by
    rcases hothers id hid with hother | ⟨-, hlt⟩
    · exact Nat.lt_of_lt_of_le (h.others_lt id hother) hle
    · exact hlt
  not_others m hm id hid hown := by
    rcases hothers id hid with hother | ⟨rfl, -⟩
    · exact h.not_others m hm id hother hown
    · exact Nat.lt_irrefl _ ((h.sound m hm).lt _ hown)
  owned set hset := by
    rcases hnew set hset with hother | hin
    · exact .inl hother
    · exact (h.owned set hin).imp_left fun hother => hsub hother

/-- A step of the first module. -/
theorem Semaphores.Inv.step_first {t t' : SemTable} {m m' : SemModule} {ms : List SemModule}
    {others : List Nat} {op : SemModuleOp} (h : Semaphores.Inv ⟨t, m :: ms, [], others⟩)
    (hs : m.step restartOnCrash t op = some (t', m')) :
      Semaphores.Inv ⟨t', m' :: ms, [], others⟩ := by
  obtain ⟨hsound, hdistinct, hlt, hothers, howned⟩ := h
  simp only [Semaphores.modules, List.append_nil] at hsound hdistinct hlt hothers howned
  obtain ⟨hm, hms⟩ := List.forall_mem_cons.mp hsound
  obtain ⟨hfirst, hrest⟩ := List.pairwise_cons.mp hdistinct
  obtain ⟨hm', hc⟩ := hm.step (SemModule.moves hs)
  have hid : m'.semId = m.semId ∨ m'.semId = some t.nextId := by
    cases hc with
    | same hid => exact .inl hid
    | rmid hid => exact .inl hid
    | create _ _ hid => exact .inr hid
  have hle : t.nextId ≤ t'.nextId := by
    cases hc with
    | same => exact Nat.le_refl _
    | rmid => exact Nat.le_of_eq SemModule.nextId_rmid.symm
    | create => exact Nat.le_succ _
  constructor
  case sound =>
    rw [Semaphores.modules, List.append_nil]
    exact List.forall_mem_cons.mpr ⟨hm', fun n hn =>
      hc.frame (hms n hn) fun id hn' hm'' => hfirst n hn id hm'' hn'⟩
  case distinct =>
    rw [Semaphores.modules, List.append_nil]
    refine List.pairwise_cons.mpr ⟨fun n hn id hown => ?_, hrest⟩
    rcases hid with hid | hid
    · exact hfirst n hn id (hid ▸ hown)
    · cases hid.symm.trans hown
      exact fun hno => Nat.lt_irrefl _ ((hms n hn).lt _ hno)
  case others_lt => exact fun id hother => Nat.lt_of_lt_of_le (hlt id hother) hle
  case not_others =>
    rw [Semaphores.modules, List.append_nil]
    obtain ⟨hmo, hmso⟩ := List.forall_mem_cons.mp hothers
    refine List.forall_mem_cons.mpr ⟨fun id hother hown => ?_, hmso⟩
    rcases hid with hid | hid
    · exact hmo id hother (hid ▸ hown)
    · cases hid.symm.trans hown
      exact Nat.lt_irrefl _ (hlt _ hother)
  case owned =>
    intro set hset
    simp only [Semaphores.modules, List.append_nil, List.mem_cons, exists_eq_or_imp] at howned ⊢
    cases hc with
    | same hid =>
      rw [hid]
      exact howned set hset
    | rmid hid =>
      rw [hid]
      exact howned set (SemModule.mem_rmid.mp hset).1
    | create key hkey hnew hremoved =>
      rcases List.mem_cons.mp hset with rfl | hin
      · exact .inr (.inl hnew)
      · refine (howned set hin).imp_right (Or.imp_left fun hown => ?_)
        have hlive := (hm.present set.id hown).mp ⟨set, hin, rfl⟩
        rw [hremoved] at hlive
        cases hlive

theorem Semaphores.Inv.module (h : s.Inv) {k : Nat} {m m' : SemModule} {table : SemTable}
    {op : SemModuleOp} (hk : s.detectionModules[k]? = some m)
    (hs : m.step restartOnCrash s.table op = some (table, m')) :
    Semaphores.Inv { s with table := table, detectionModules := s.detectionModules.set k m' } := by
  obtain ⟨hlt, rfl⟩ := List.getElem?_eq_some_iff.mp hk
  have hlt' : k < (s.detectionModules.set k m').length := by rwa [List.length_set]
  have hperm := (List.getElem_cons_eraseIdx_perm hlt).symm
  have hperm' := List.getElem_cons_eraseIdx_perm hlt'
  rw [List.getElem_set_self, List.eraseIdx_set_eq] at hperm'
  have hfirst : Semaphores.Inv
      ⟨s.table, s.detectionModules[k] :: (s.detectionModules.eraseIdx k ++ s.erased), [],
          s.others⟩ :=
    h.perm rfl rfl (by
      rw [Semaphores.modules, Semaphores.modules, List.append_nil, ← List.cons_append]
      exact hperm.append_right s.erased)
  refine (hfirst.step_first hs).perm rfl rfl ?_
  rw [Semaphores.modules, Semaphores.modules, List.append_nil, ← List.cons_append]
  exact hperm'.append_right s.erased

theorem Semaphores.Inv.step (h : s.Inv) (hs : s.step restartOnCrash op = some s') : s'.Inv := by
  cases op with
  | createModule =>
    cases hs
    refine h.createModule rfl rfl ?_
    simp only [Semaphores.modules, List.append_assoc, List.singleton_append]
    exact List.perm_middle.symm
  | module k op =>
    obtain ⟨m, hk, hs⟩ := Option.bind_eq_some_iff.mp hs
    obtain ⟨⟨table, m'⟩, hm, hs⟩ := Option.bind_eq_some_iff.mp hs
    cases hs
    exact h.module hk hm
  | notifyAll =>
    cases hs
    refine h.perm rfl rfl ?_
    have hsplit :=
      (List.filter_append_perm
        (fun m : SemModule => decide (m.state ≠ .Remove)) s.detectionModules).symm
    simp only [decide_not, Bool.not_not] at hsplit
    simp only [Semaphores.modules, ← List.append_assoc, decide_not]
    exact hsplit.append_right s.erased
  | otherCreate key =>
    simp only [Semaphores.step] at hs
    split at hs
    · cases hs
    · rename_i hkey
      cases hs
      refine h.others (Nat.le_succ _) (fun set _ hlt => ?_) (fun set hset => ?_)
        (List.subset_cons_self _ _)
        fun id hid => ?_
      · rw [SemTable.mem_create, or_iff_right]
        rintro rfl
        exact Nat.lt_irrefl _ hlt
      · rcases List.mem_cons.mp hset with rfl | hin
        · exact .inl List.mem_cons_self
        · exact .inr hin
      · rcases List.mem_cons.mp hid with rfl | hin
        · exact .inr ⟨rfl, Nat.lt_succ_self _⟩
        · exact .inl hin
  | otherRemove id =>
    simp only [Semaphores.step, Option.ite_none_right_eq_some] at hs
    obtain ⟨hid, hs⟩ := hs
    cases hs
    refine h.others (Nat.le_refl _) (fun set hother _ => ?_) (fun set hset => ?_)
      (fun _ hin => hin) fun _ => .inl
    · rw [SemTable.mem_rmid]
      exact and_iff_left fun hno => hother (hno ▸ hid)
    · exact .inr (SemTable.mem_rmid.mp hset).1

end Modules

section Runs

variable {restartOnCrash : Bool} {s s' : Semaphores}

theorem Semaphores.inv_reachable (h : (semaphores restartOnCrash).Reachable s) : s.Inv := by
  refine LTS.Inductive.reachable ⟨fun s hs => ?_, fun s op s' h hs => h.step hs⟩ s h
  obtain ⟨hmodules, herased, hothers, hlt⟩ := hs
  have hnone : s.modules = [] := by rw [Semaphores.modules, hmodules, herased, List.nil_append]
  exact {
    sound := by rw [hnone]; exact fun _ hm => (nomatch hm)
    distinct := by rw [hnone]; exact .nil
    others_lt := hlt
    not_others := by rw [hnone]; exact fun _ hm => (nomatch hm)
    owned := fun set hset => .inl (hothers set hset) }

/-- Runs of the initial state without semaphores. -/
theorem Semaphores.settled_exec (ops : List SemaphoresOp)
    (h : LTS.exec Semaphores.Settled (Semaphores.step restartOnCrash)
      ⟨.empty, [], [], []⟩ ops = some s) :
    ((semaphores restartOnCrash).restrict Semaphores.Settled).Reachable s :=
  have hnone : ∀ {α : Type} {P : α → Prop}, ∀ a ∈ ([] : List α), P a :=
    fun _ ha => absurd ha List.not_mem_nil
  LTS.Reachable.exec (.init ⟨rfl, rfl, hnone, hnone⟩) h

theorem Semaphores.reachable_exec (ops : List SemaphoresOp)
    (h : LTS.exec (fun _ _ => True) (Semaphores.step restartOnCrash)
      ⟨.empty, [], [], []⟩ ops = some s) :
    (semaphores restartOnCrash).Reachable s :=
  have hnone : ∀ {α : Type} {P : α → Prop}, ∀ a ∈ ([] : List α), P a :=
    fun _ ha => absurd ha List.not_mem_nil
  LTS.Reachable.of_restrict (LTS.Reachable.exec (.init ⟨rfl, rfl, hnone, hnone⟩) h)

/-- The calls that start module `k`, which is a new one and finds its first key free. -/
def startOps (k : Nat) : List SemaphoresOp :=
  [.createModule, .module k .run, .module k .semget, .module k .fork, .module k (.start 0),
    .module k (.start 0), .module k (.start 0)]

theorem Semaphores.own_step {op : SemaphoresOp} (hinv : s.Inv) (h : ∀ m ∈ s.detectionModules, m.Own)
    (hset : s.Settled op) (hs : s.step restartOnCrash op = some s') :
      ∀ m ∈ s'.detectionModules, m.Own := by
  cases op with
  | createModule =>
    cases hs
    intro m hm
    rcases List.mem_append.mp hm with hm | hm
    · exact h m hm
    · cases List.mem_singleton.mp hm
      exact SemModule.own_new
  | module k op =>
    obtain ⟨m, hk, hs⟩ := Option.bind_eq_some_iff.mp hs
    obtain ⟨⟨table, m'⟩, hm, hs⟩ := Option.bind_eq_some_iff.mp hs
    cases hs
    have hmem := List.mem_of_getElem? hk
    have hsettled : ∀ status, op = .sigChild status → m.starting = [] := by
      rintro status rfl
      exact hset m hk
    have hown :=
      (h m hmem).step (hinv.sound m (List.mem_append_left _ hmem)) hsettled (SemModule.moves hm)
    intro n hn
    rcases List.mem_or_eq_of_mem_set hn with hn | rfl
    · exact h n hn
    · exact hown
  | notifyAll =>
    cases hs
    exact fun m hm => h m (List.mem_of_mem_filter hm)
  | otherCreate key =>
    obtain ⟨_, hs⟩ := Option.dite_none_left_eq_some.mp hs
    cases hs
    exact h
  | otherRemove id =>
    obtain ⟨_, hs⟩ := Option.ite_none_right_eq_some.mp hs
    cases hs
    exact h

theorem Semaphores.own_reachable
    (h : ((semaphores restartOnCrash).restrict Semaphores.Settled).Reachable s) :
    ∀ m ∈ s.detectionModules, m.Own := by
  induction h with
  | init h0 =>
    rw [h0.1]
    exact fun m hm => absurd hm List.not_mem_nil
  | step hr hs ih =>
    exact Semaphores.own_step (Semaphores.inv_reachable hr.of_restrict) ih hs.2 hs.1

/-- Where the calls that have started a process have returned before its end is handled, the process
of a module that was not stopped uses the semaphore of the module, which is there, and no other such
module's process does. -/
theorem attached_own (h : ((semaphores restartOnCrash).restrict Semaphores.Settled).Reachable s)
    {k : Nat} {m : SemModule} {id : Nat} (hm : s.detectionModules[k]? = some m)
    (hproc : m.process = .attached id) (hlive : m.removed = false) :
    m.semId = some id ∧ ⟨id, m.semKey⟩ ∈ s.table.sets ∧ id ∉ s.others ∧
      ∀ j n, s.detectionModules[j]? = some n → n.removed = false →
      n.process = .attached id → j = k := by
  have hinv := Semaphores.inv_reachable h.of_restrict
  have hown := Semaphores.own_reachable h
  have hmem : ∀ {j n}, s.detectionModules[j]? = some n → n ∈ s.modules := fun hn =>
    List.mem_append_left _ (List.mem_of_getElem? hn)
  have hsound := hinv.sound m (hmem hm)
  have hid := (hown m (List.mem_of_getElem? hm)).attached id hproc hlive
  obtain ⟨set, hset, rfl⟩ := (hsound.present id hid).mpr hlive
  refine ⟨hid, hsound.key set hset hid ▸ hset,
    fun hother => hinv.not_others m (hmem hm) _ hother hid, ?_⟩
  intro j n hn hnlive hnproc
  have hnid := (hown n (List.mem_of_getElem? hn)).attached set.id hnproc hnlive
  have hpair := List.pairwise_iff_getElem.mp (List.pairwise_append.mp hinv.distinct).1
  obtain ⟨hj, hnj⟩ := List.getElem?_eq_some_iff.mp hn
  obtain ⟨hk, hmk⟩ := List.getElem?_eq_some_iff.mp hm
  rcases Nat.lt_trichotomy j k with hlt | heq | hlt
  · exact absurd (hmk ▸ hid) (hpair j k hj hk hlt set.id (hnj ▸ hnid))
  · exact heq
  · exact absurd (hnj ▸ hnid) (hpair k j hk hj hlt set.id (hmk ▸ hid))

/-- The process of the first of two modules crashes, and another program takes its key. The new
process gets the third one: the second is the other module's. -/
def restartedOps : List SemaphoresOp :=
  startOps 0 ++
    [.createModule, .module 1 .run, .module 1 .semget, .module 1 .semget, .module 1 .fork,
    .module 1 (.start 0), .module 1 (.start 0), .module 1 (.start 0), .module 0 .attach,
      .module 1 .attach,
    .module 0 .exit, .module 0 (.sigChild 1), .otherCreate 10000, .module 0 .semget,
      .module 0 .semget,
    .module 0 .semget, .module 0 .fork, .module 0 (.start 0), .module 0 (.start 0),
      .module 0 (.start 0),
    .module 0 .attach]

theorem attached_own_restarted :
    ∃ s m, ((semaphores true).restrict Semaphores.Settled).Reachable s ∧
    s.detectionModules[0]? = some m ∧
      m.process = .attached 3 ∧ m.removed = false ∧ m.semKey = 10002 ∧
      s.detectionModules.map (·.process) = [.attached 3, .attached 1] ∧
      m.semId = some 3 ∧ ⟨3, m.semKey⟩ ∈ s.table.sets ∧ 3 ∉ s.others ∧
      ∀ j n, s.detectionModules[j]? = some n → n.removed = false →
      n.process = .attached 3 → j = 0 :=
  have h := @Semaphores.settled_exec true _ restartedOps rfl
  ⟨_, _, h, rfl, rfl, rfl, rfl, rfl, attached_own h rfl rfl rfl⟩

/-- The process ends when `sendInitData` has read the key and before it has written it, and is
started anew with another key: it is told the old one, and uses the semaphore of the program that
has it now. -/
theorem attached_old :
    ∃ s m, (semaphores true).Reachable s ∧ s.detectionModules[0]? = some m ∧
    m.process = .attached 1 ∧
      m.removed = false ∧ m.semId = some 2 ∧ 1 ∈ s.others :=
  ⟨_, _,
    Semaphores.reachable_exec [.createModule, .module 0 .run, .module 0 .semget, .module 0 .fork,
    .module 0 (.start 0), .module 0 (.start 0), .module 0 .exit, .module 0 (.sigChild 1),
      .otherCreate 10000,
    .module 0 .semget, .module 0 .semget, .module 0 .fork, .module 0 (.start 0),
      .module 0 .attach] rfl,
    rfl, rfl, rfl, rfl, List.mem_singleton.mpr rfl⟩

/-- Where a module was stopped before its process has looked up the key, the semaphore of a module
that was started in between has that key. -/
theorem attached_other :
    ∃ s, ((semaphores false).restrict Semaphores.Settled).Reachable s ∧
      s.detectionModules.map (·.process) = [.attached 1, .attached 1] ∧
      s.detectionModules.map (·.semId) = [some 0, some 1] ∧
      s.detectionModules.map (·.removed) = [true, false] :=
  ⟨_, Semaphores.settled_exec (startOps 0 ++ .module 0 .stopModule :: startOps 1 ++
    [.module 0 .attach, .module 1 .attach]) rfl, rfl, rfl, rfl⟩

theorem Semaphores.Inv.exists_of_live (h : s.Inv) {m : SemModule} (hm : m ∈ s.modules)
    (hlive : m.removed = false) :
    ∃ set ∈ s.table.sets, m.semId = some set.id := by
  have hsome : m.semId ≠ none := fun hno => by
    rw [(h.sound m hm).unset hno] at hlive
    cases hlive
  obtain ⟨id, hid⟩ := Option.ne_none_iff_exists'.mp hsome
  obtain ⟨set, hset, rfl⟩ := ((h.sound m hm).present id hid).mpr hlive
  exact ⟨set, hset, hid⟩

/-- The collector's semaphores are those of the modules whose semaphore was not removed. -/
theorem Semaphores.Inv.accounted (h : s.Inv) :
    ((s.table.sets.filter (·.id ∉ s.others)).map fun set => some set.id).Perm
      ((s.modules.filter (!·.removed)).map (·.semId)) := by
  have hsets : ((s.table.sets.filter (·.id ∉ s.others)).map fun set => some set.id).Nodup := by
    have hsub : (s.table.sets.filter (·.id ∉ s.others)).Sublist s.table.sets := List.filter_sublist
    have hids := (s.table.ids_nodup.sublist (hsub.map _)).map (Option.some_injective Nat)
    rw [List.map_map] at hids
    exact hids
  have hmodules : ((s.modules.filter (!·.removed)).map (·.semId)).Nodup := by
    refine List.pairwise_map.mpr ((h.distinct.filter _).imp_of_mem fun {a b} ha _ hab heq => ?_)
    obtain ⟨hmem, hlive⟩ := List.mem_filter.mp ha
    obtain ⟨set, -, hid⟩ := h.exists_of_live hmem (by simpa using hlive)
    exact hab set.id hid (heq ▸ hid)
  refine (List.perm_ext_iff_of_nodup hsets hmodules).mpr fun o => ?_
  simp only [List.mem_map, List.mem_filter, Bool.not_eq_true', decide_eq_true_eq]
  constructor
  · rintro ⟨set, ⟨hset, hother⟩, rfl⟩
    obtain ⟨m, hm, hid⟩ := (h.owned set hset).resolve_left hother
    exact ⟨m, ⟨hm, ((h.sound m hm).present set.id hid).mp ⟨set, hset, rfl⟩⟩, hid⟩
  · rintro ⟨m, ⟨hm, hlive⟩, rfl⟩
    obtain ⟨set, hset, hid⟩ := h.exists_of_live hm hlive
    exact ⟨set, ⟨hset, fun hother => h.not_others m hm set.id hother hid⟩, hid.symm⟩

theorem Semaphores.erased_run {ops : List SemaphoresOp}
    (hr : (semaphores restartOnCrash).Run s ops s') :
    s.erased ⊆ s'.erased := by
  induction hr with
  | nil => exact fun _ hm => hm
  | @cons s s₁ s₂ op ops hs _ ih =>
    refine fun m hm => ih ?_
    cases op with
    | createModule =>
      cases hs
      exact hm
    | module k op =>
      obtain ⟨_, -, hs⟩ := Option.bind_eq_some_iff.mp hs
      obtain ⟨_, -, hs⟩ := Option.bind_eq_some_iff.mp hs
      cases hs
      exact hm
    | notifyAll =>
      cases hs
      exact List.mem_append_right _ hm
    | otherCreate key =>
      obtain ⟨_, hs⟩ := Option.dite_none_left_eq_some.mp hs
      cases hs
      exact hm
    | otherRemove id =>
      obtain ⟨_, hs⟩ := Option.ite_none_right_eq_some.mp hs
      cases hs
      exact hm

end Runs

end Topas
