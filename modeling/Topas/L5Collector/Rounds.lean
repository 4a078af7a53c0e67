import Topas.L5Collector.Collector

/-!
# The rounds of the manager

`Collector.Calm` excludes three kinds of steps: a packet is queued after the first module
was told `to` in a round and before the last one is (`Announcing`); the manager's
`semtimedop` is interrupted while it waits for a module; and a module is notified, stopped,
or found dead while `DetectMod::run` is at work on it (`DetectMod.Starting`). In runs without
them, and with fewer than `MAX_FILES` packets in the queue (`Collector.Room`), every module
that is running imports every packet once, in arrival order, before it is thrown away
(`popped_imported`). With a packet that is queued in between, it need not
(`popped_not_imported`).

The invariant follows a round. `Stage` says how far a module has come with a
notification, from `told` to `rest`; `ManagerPc.Told` which modules are not known to be
at rest; `Collector.Round` what the counters say meanwhile. What a module imports is right
only if there is room in the queue, and the rest holds without; `kept` is the assumption.
-/
namespace Topas

open FileCounter

/-! ## Calm runs -/

namespace Collector

/-- Some but not all modules have been told `to` in this round. -/
def Announcing (s : Collector) : Prop :=
  match s.pc with
  | .setFrom k => 0 < k ∧ k < s.detectionModules.length
  | .setTo k => 0 < k ∧ k < s.detectionModules.length
  | .semop k => k + 1 < s.detectionModules.length
  | _ => False

instance (s : Collector) : Decidable s.Announcing := by
  unfold Announcing; split <;> infer_instance

end Collector

/-- Between `semget` and the assignment of `Running`. -/
def DetectMod.Starting (m : DetectMod) : Prop := ∃ r ∈ m.runs, r.pc ≠ .semget

instance (m : DetectMod) : Decidable m.Starting :=
  inferInstanceAs (Decidable (∃ r ∈ m.runs, r.pc ≠ .semget))

namespace Collector

/-- Module `k`, if there is one, is not being started. -/
def Settled (s : Collector) (k : Nat) : Prop := ∀ m ∈ s.detectionModules[k]?, ¬ m.Starting

instance (s : Collector) (k : Nat) : Decidable (s.Settled k) := by unfold Settled; infer_instance

/-- No packet is queued while modules are told the counters, the manager is not interrupted while it
waits, and what is done to a module is not done while it is being started. -/
def Calm (s : Collector) : CollectorOp → Prop
  | .exportToSink => ¬ s.Announcing
  | .manager =>
    match s.pc with
    | .semop k => s.Settled k
    | _ => True
  | .managerInterrupted => False
  | .stopModule k => s.Settled k
  | .sigChild k _ => s.Settled k
  | .restartCrashed k => s.Settled k
  | _ => True

instance (s : Collector) : DecidablePred s.Calm
  | .exportToSink => inferInstanceAs (Decidable (¬ s.Announcing))
  | .manager => by unfold Calm; cases s.pc <;> infer_instance
  | .managerInterrupted => .isFalse id
  | .stopModule k | .sigChild k _ | .restartCrashed k => inferInstanceAs (Decidable (s.Settled k))
  | .work _ | .workInterrupted _ | .die _ | .run _ _ | .createModule => .isTrue trivial

/-- A packet is queued only when there are fewer than `MAX_FILES`. -/
def Room (s : Collector) : CollectorOp → Prop
  | .exportToSink => s.files.length < MAX_FILES
  | _ => True

instance (s : Collector) : DecidablePred s.Room
  | .exportToSink => inferInstanceAs (Decidable (s.files.length < MAX_FILES))
  | .manager | .managerInterrupted | .work _ | .workInterrupted _ | .die _ | .stopModule
    _ | .sigChild _ _
  | .restartCrashed _ | .run _ _ | .createModule => .isTrue trivial

/-- A calm step with room for the packets. -/
def CalmRoom (s : Collector) (op : CollectorOp) : Prop := s.Calm op ∧ s.Room op

instance (s : Collector) : DecidablePred s.CalmRoom := fun op =>
  inferInstanceAs (Decidable (s.Calm op ∧ s.Room op))

end Collector

/-! ## Stages of a module -/

/-- How far a module has come with a notification. -/
inductive Stage where
  | told
  | taken
  | importing (j : Nat)
  | imported
  | rest

namespace Stage

def semaphore : Stage → Nat
  | told => 2
  | taken => 1
  | importing _ => 1
  | imported => 1
  | rest => 0

/-- The notification is about the packets from `base` to `base + c`. -/
def pc (base : Nat) : Stage → WorkPc
  | told => .wait
  | taken => .getFrom
  | importing j => .getTo (.ofNat base) (.ofNat (base + j))
  | imported => .notify
  | rest => .wait

/-- Up to which packet everything is imported. -/
def upTo (base c : Nat) : Stage → Nat
  | told => base
  | taken => base
  | importing j => base + j
  | imported => base + c
  | rest => base + c

/-- The notifications without a complete import. -/
def pending (base c : Nat) : Stage → List (FileCounter × FileCounter)
  | told => [(.ofNat base, .ofNat (base + c))]
  | taken => [(.ofNat base, .ofNat (base + c))]
  | importing _ => [(.ofNat base, .ofNat (base + c))]
  | imported => []
  | rest => []

def Valid (c : Nat) : Stage → Prop
  | importing j => j ≤ c
  | _ => True

end Stage

/-- The module has imported packets below `n`, in arrival order, each once, and among them
all that were queued since it was started. -/
structure DetectMod.Imported (m : DetectMod) (n : Nat) : Prop where
  sorted : m.imported.Pairwise (· < ·)
  lt : ∀ x ∈ m.imported, x < n
  all : ∀ x, m.since ≤ x → x < n → x ∈ m.imported

/-- The module, or its dead process, is at stage `st` of the notification about the packets
from `base` to `base + c`. -/
structure DetectMod.At (kept : Prop) (m : DetectMod) (base c : Nat) (st : Stage) : Prop where
  semaphore : m.semaphore = some st.semaphore
  pc : m.pc = st.pc base ∨ m.pc = .dead
  imported : kept → m.Imported (st.upTo base c)
  notified : m.notified = m.imports ++ st.pending base c
  valid : st.Valid c

section Stages

variable {kept : Prop} {m m' : DetectMod} {base c n : Nat} {st : Stage}

theorem DetectMod.Imported.congr (h : m.Imported n) (hi : m'.imported = m.imported)
    (hs : m'.since = m.since) : m'.Imported n :=
  ⟨hi ▸ h.sorted, fun x hx => h.lt x (hi ▸ hx), fun x hx hlt => hi ▸ h.all x (hs ▸ hx) hlt⟩

theorem DetectMod.At.rest_iff : m.At kept base c .rest ↔ m.At kept (base + c) 0 .rest :=
  ⟨fun h => ⟨h.semaphore, h.pc, h.imported, h.notified, trivial⟩,
    fun h => ⟨h.semaphore, h.pc, h.imported, h.notified, trivial⟩⟩

theorem DetectMod.At.die (h : m.At kept base c st) :
    ({ m with pc := .dead } : DetectMod).At kept base c st :=
  ⟨h.semaphore, .inr rfl, fun hk => (h.imported hk).congr rfl rfl, h.notified, h.valid⟩

/-- The process of a module that is running from now on has nothing to do with older packets. -/
theorem DetectMod.at_of_since (hsem : m.semaphore = some 0) (hpc : m.pc = .wait ∨ m.pc = .dead)
    (himported : m.imported = []) (hnotified : m.notified = []) (himports : m.imports = [])
    (h : base + c ≤ m.since) : m.At kept base c .rest := by
  refine ⟨hsem, hpc, fun _ => ⟨?_, fun x hx => ?_, fun x hx hlt => ?_⟩, ?_, trivial⟩
  · rw [himported]
    exact .nil
  · rw [himported] at hx
    cases hx
  · have hlt : x < base + c := hlt
    omega
  · rw [hnotified, himports]
    rfl

theorem DetectMod.At.post (h : m.At kept base 0 .rest) :
    (m.post (.ofNat base, .ofNat (base + c))).At kept base c .told := by
  unfold DetectMod.post
  rw [h.semaphore]
  refine ⟨rfl, h.pc, fun hk => (h.imported hk).congr rfl rfl, ?_, trivial⟩
  have hn := h.notified
  simp only [Stage.pending, List.append_nil] at hn ⊢
  rw [hn]

theorem DetectMod.work_state {f t : FileCounter} {packet : FileCounter → Option Nat}
    (h : m.work f t packet = some m') : m'.state = m.state := by
  unfold DetectMod.work at h
  repeat' split at h
  all_goals cases h
  all_goals rfl

theorem DetectMod.work_runs {f t : FileCounter} {packet : FileCounter → Option Nat}
    (h : m.work f t packet = some m') : m'.runs = m.runs := by
  unfold DetectMod.work at h
  repeat' split at h
  all_goals cases h
  all_goals rfl

theorem DetectMod.workInterrupted_state (h : m.workInterrupted = some m') : m'.state = m.state := by
  unfold DetectMod.workInterrupted at h
  split at h
  all_goals cases h
  all_goals rfl

theorem DetectMod.workInterrupted_runs (h : m.workInterrupted = some m') : m'.runs = m.runs := by
  unfold DetectMod.workInterrupted at h
  split at h
  all_goals cases h
  all_goals rfl

/-- Where a worker blocks, it tries again: at `notify` there is still something to take. -/
theorem DetectMod.At.workInterrupted (h : m.At kept base c st) (hw : m.workInterrupted = some m') :
    m' = m := by
  unfold DetectMod.workInterrupted at hw
  split at hw
  · cases hw; rfl
  · rename_i hpc hsem
    have hst : st.semaphore = 0 := Option.some.inj (h.semaphore.symm.trans hsem)
    have hpc' := h.pc
    rw [hpc] at hpc'
    cases st <;> simp [Stage.semaphore, Stage.pc] at hst hpc'
  · cases hw

/-- A module at rest blocks. -/
theorem DetectMod.At.work_rest {f t : FileCounter} {packet : FileCounter → Option Nat}
    (h : m.At kept base c .rest) : m.work f t packet = none := by
  have hsem : m.semaphore = some 0 := h.semaphore
  rcases h.pc with hpc | hpc
  · have hpc : m.pc = .wait := hpc
    simp only [DetectMod.work, hpc, hsem]
  · simp only [DetectMod.work, hpc]

/-- The next stage of a module. -/
def Stage.next (c : Nat) : Stage → Stage
  | told => taken
  | taken => importing 0
  | importing j => if j = c then imported else importing (j + 1)
  | imported => rest
  | rest => rest

theorem DetectMod.Imported.next (h : m.Imported n) (hm : m'.imported = m.imported ++ [n])
    (hs : m'.since = m.since) : m'.Imported (n + 1) := by
  refine ⟨?_, fun x hx => ?_, fun x hx hlt => ?_⟩
  · rw [hm]
    refine List.pairwise_append.mpr ⟨h.sorted, List.pairwise_singleton _ _, fun x hx y hy => ?_⟩
    rw [List.mem_singleton] at hy
    exact hy ▸ h.lt x hx
  · rw [hm] at hx
    rcases List.mem_append.mp hx with hx | hx
    · exact Nat.lt_succ_of_lt (h.lt x hx)
    · rw [List.mem_singleton] at hx; omega
  · rw [hm]
    rcases Nat.lt_succ_iff_lt_or_eq.mp hlt with hlt | rfl
    · exact List.mem_append_left _ (h.all x (hs ▸ hx) hlt)
    · exact List.mem_append_right _ List.mem_cons_self

/-- A live module that has been told the counters goes on to the next stage. -/
theorem DetectMod.At.work {packet : FileCounter → Option Nat} (h : m.At kept base c st)
    (hrest : st ≠ .rest) (hlive : m.pc ≠ .dead) (hc : c < MAX_FILES)
    (hpacket : kept → ∀ j, j < c → packet (.ofNat (base + j)) = some (base + j)) :
    ∃ m', m.work (.ofNat base) (.ofNat (base + c)) packet = some m' ∧
    m'.At kept base c (st.next c) ∧
      m'.pc ≠ .dead ∧ m'.state = m.state ∧ m'.notified = m.notified := by
  have hpc := h.pc.resolve_right hlive
  have hsem := h.semaphore
  have hn := h.notified
  cases st with
  | told =>
    have hpc : m.pc = .wait := hpc
    have hsem : m.semaphore = some (1 + 1) := hsem
    refine ⟨{ m with semaphore := some 1, pc := .getFrom }, ?_,
      ⟨rfl, .inl rfl, fun hk => (h.imported hk).congr rfl rfl, hn, trivial⟩,
      (fun h => nomatch h), rfl, rfl⟩
    simp only [DetectMod.work, hpc, hsem]
  | taken =>
    have hpc : m.pc = .getFrom := hpc
    refine ⟨{ m with pc := .getTo (.ofNat base) (.ofNat base) }, ?_,
      ⟨hsem, .inl rfl, fun hk => (h.imported hk).congr rfl rfl, hn, Nat.zero_le c⟩,
      (fun h => nomatch h), rfl, rfl⟩
    simp only [DetectMod.work, hpc]
  | importing j =>
    have hpc : m.pc = .getTo (.ofNat base) (.ofNat (base + j)) := hpc
    have hj : j ≤ c := h.valid
    by_cases hjc : j = c
    · subst hjc
      refine ⟨{ m with pc := .notify, imports := m.imports ++ [(.ofNat base, .ofNat (base + j))] },
        ?_, ?_,
        (fun h => nomatch h), rfl, rfl⟩
      · simp only [DetectMod.work, hpc, if_true]
      · rw [Stage.next, if_pos rfl]
        exact ⟨hsem, .inl rfl, fun hk => (h.imported hk).congr rfl rfl,
          hn.trans (List.append_nil _).symm, trivial⟩
    · have hne : FileCounter.ofNat (base + j) ≠ .ofNat (base + c) := by
        have := @ofNat_add_ne (base + j) (c - j) (by omega) (by omega)
        rwa [Nat.add_assoc, Nat.add_sub_cancel' hj] at this
      refine ⟨{ m with
        pc := .getTo (.ofNat base) (.ofNat (base + (j + 1)))
        imported := m.imported ++ (packet (.ofNat (base + j))).toList }, ?_, ?_,
          (fun h => nomatch h), rfl, rfl⟩
      · simp only [DetectMod.work, hpc, if_neg hne, incr_ofNat]
        rfl
      · rw [Stage.next, if_neg hjc]
        refine ⟨hsem, .inl rfl, fun hk => DetectMod.Imported.next (h.imported hk) ?_ rfl, hn, ?_⟩
        · simp only [hpacket hk j (by omega), Option.toList_some]
          rfl
        · show j + 1 ≤ c
          omega
  | imported =>
    have hpc : m.pc = .notify := hpc
    have hsem : m.semaphore = some (0 + 1) := hsem
    refine ⟨{ m with semaphore := some 0, pc := .wait }, ?_,
      ⟨rfl, .inl rfl, fun hk => (h.imported hk).congr rfl rfl, hn, trivial⟩,
      (fun h => nomatch h), rfl, rfl⟩
    simp only [DetectMod.work, hpc, hsem]
  | rest => exact absurd rfl hrest

end Stages

/-! ## The invariant -/

/-- Module `i` was told the counters and has not been waited for. -/
def ManagerPc.Told (i : Nat) : ManagerPc → Prop
  | .setFrom k => i < k
  | .setTo k => i < k
  | .semop k => i < k
  | .wait k => k ≤ i
  | _ => False

/-- Up to which packet the other modules have imported everything. -/
def ManagerPc.level (base c : Nat) : ManagerPc → Nat
  | .wait _ => base + c
  | .clearSink => base + c
  | .pop count => base + count
  | _ => base

def ManagerPc.Expects (kept : Prop) (pc : ManagerPc) (base c i : Nat) (m : DetectMod) : Prop :=
  (pc.Told i → ∃ st, m.At kept base c st) ∧ (¬ pc.Told i → m.At kept (pc.level base c) 0 .rest)

/-- One call of `run` is under way, and nothing has come in between. -/
inductive DetectMod.Starts (m : DetectMod) : Prop
  | semget (caller : Caller) (hruns : m.runs = [⟨caller, .semget⟩]) (hsem : m.semaphore = none)
      (hpc : m.pc = .dead)
  | created (r : RunCall) (hruns : m.runs = [r]) (hr : r.pc ≠ .semget) (hsem : m.semaphore = some 0)
      (hpc : m.pc = .wait ∨ m.pc = .dead) (himported : m.imported = [])
        (hnotified : m.notified = [])
      (himports : m.imports = [])

/-- What is known of module `i`. -/
structure ManagerPc.Known (kept : Prop) (pc : ManagerPc) (base c i : Nat) (m : DetectMod) :
    Prop where
  expects : m.runs = [] → m.state = .Running → pc.Expects kept base c i m
  starts : m.runs ≠ [] → m.state ≠ .Running ∧ m.Starts

/-- The counters tell the packets from the first in the queue on, `c` of them. -/
structure Window (sbFrom sbTo : FileCounter) (popped pushed c : Nat) : Prop where
  sbFrom : sbFrom = .ofNat popped
  sbTo : sbTo = .ofNat (popped + c)
  lt : c < MAX_FILES
  le : popped + c ≤ pushed

namespace Collector

abbrev Round (s : Collector) (c : Nat) : Prop := Window s.sbFrom s.sbTo s.popped.length s.pushed c

/-- What the counters say where the manager is, when there are `n` modules. -/
def Counters (s : Collector) (n c : Nat) : Prop :=
  match s.pc with
  | .setFrom k => 0 < k → s.Round c ∧ (k < n → s.sbTo = s.newest)
  | .setTo k => k < n ∧ s.sbFrom = .ofNat s.popped.length ∧ (0 < k → s.Round c ∧ s.sbTo = s.newest)
  | .semop k => k < n ∧ s.Round c ∧ (k + 1 < n → s.sbTo = s.newest)
  | .wait _ => 0 < n → s.Round c
  | .clearSink => 0 < n → s.Round c
  | .pop count => s.popped.length + count ≤ s.pushed
  | _ => True

structure Inv (kept : Prop) (s : Collector) (c : Nat) : Prop where
  queue : s.popped ++ s.files = List.range s.pushed
  oldest : s.oldest = .ofNat s.popped.length
  newest : s.newest = .ofNat s.pushed
  counters : s.Counters s.detectionModules.length c
  room : kept → s.files.length ≤ MAX_FILES
  file : kept → ∀ x, s.popped.length ≤ x → x < s.pushed → s.file (.ofNat x) = some x
  modules : ∀ i m, s.detectionModules[i]? = some m → s.pc.Known kept s.popped.length c i m

end Collector

section Starts

variable {kept : Prop} {pc : ManagerPc} {m m' : DetectMod} {base c i : Nat}

theorem ManagerPc.Known.runs_eq_nil (h : pc.Known kept base c i m) (hrun : m.state = .Running) :
    m.runs = [] :=
  Classical.byContradiction fun hruns => (h.starts hruns).1 hrun

theorem ManagerPc.Known.imp {pc' : ManagerPc} {base' c' i' : Nat} (h : pc.Known kept base c i m)
    (he : m.state = .Running → pc.Expects kept base c i m → pc'.Expects kept base' c' i' m) :
    pc'.Known kept base' c' i' m :=
  ⟨fun hruns hrun => he hrun (h.expects hruns hrun), h.starts⟩

/-- Nothing is expected of a module that is not running. -/
theorem ManagerPc.Known.of_not_running (hruns : m.runs = []) (hrun : m.state ≠ .Running) :
    pc.Known kept base c i m :=
  ⟨fun _ h => absurd h hrun, fun h => absurd hruns h⟩

/-- The semaphore of a new process is still 0. -/
theorem DetectMod.Starts.work {f t : FileCounter} {packet : FileCounter → Option Nat}
    (h : m.Starts) :
    m.work f t packet = none := by
  cases h with
  | semget caller hruns hsem hpc => simp only [DetectMod.work, hpc]
  | created r hruns hr hsem hpc himported hnotified himports =>
    rcases hpc with hpc | hpc
    · simp only [DetectMod.work, hpc, hsem]
    · simp only [DetectMod.work, hpc]

theorem DetectMod.Starts.workInterrupted (h : m.Starts) (hw : m.workInterrupted = some m') :
    m' = m := by
  unfold DetectMod.workInterrupted at hw
  split at hw
  · cases hw; rfl
  · rename_i hpc' hsem
    cases h with
    | semget caller hruns hsem' hpc =>
      rw [hpc] at hpc'
      cases hpc'
    | created r hruns hr hsem' hpc himported hnotified himports =>
      rw [hpc'] at hpc
      simp at hpc
  · cases hw

theorem DetectMod.Starts.die (h : m.Starts) : ({ m with pc := .dead } : DetectMod).Starts := by
  cases h with
  | semget caller hruns hsem hpc => exact .semget caller hruns hsem rfl
  | created r hruns hr hsem hpc himported hnotified himports =>
    exact .created r hruns hr hsem (.inr rfl) himported hnotified himports

/-- A module that is not being started, but for which `run` has been called, has no semaphore yet.
-/
theorem DetectMod.Starts.semget_of_settled (h : m.Starts) (hset : ¬ m.Starting) :
    (∃ caller, m.runs = [⟨caller, .semget⟩]) ∧ m.semaphore = none ∧ m.pc = .dead := by
  cases h with
  | semget caller hruns hsem hpc => exact ⟨⟨caller, hruns⟩, hsem, hpc⟩
  | created r hruns hr hsem hpc himported hnotified himports =>
    exact absurd ⟨r, hruns ▸ List.mem_singleton_self r, hr⟩ hset

/-- The handler that finds a process dead has come behind every `fork`. -/
theorem ManagerPc.Known.runs_of_settled (h : pc.Known kept base c i m) (hset : ¬ m.Starting)
    (hforked : m.Forked) : m.runs = [] := by
  refine Classical.byContradiction fun hruns => ?_
  obtain ⟨⟨caller, hr⟩, -, -⟩ := (h.starts hruns).2.semget_of_settled hset
  have hpc := hforked ⟨caller, .semget⟩ (hr ▸ List.mem_singleton_self _)
  cases hpc

end Starts

section Steps

variable {kept : Prop} {s s' : Collector} {c k : Nat} {m m' : DetectMod} {op : CollectorOp}

theorem Collector.Inv.length_files (h : s.Inv kept c) :
    s.popped.length + s.files.length = s.pushed := by
  have := congrArg List.length h.queue
  rwa [List.length_append, List.length_range] at this

/-- When a module has been told the counters, they are about packets in the queue. -/
theorem Collector.Inv.round (h : s.Inv kept c) (hk : s.detectionModules[k]? = some m)
    (ht : s.pc.Told k) : s.Round c := by
  have hc := h.counters
  have hlt : k < s.detectionModules.length := (List.getElem?_eq_some_iff.mp hk).1
  unfold Collector.Counters at hc
  cases hpc : s.pc with
  | setFrom j => rw [hpc] at ht hc; exact (hc (Nat.zero_lt_of_lt ht)).1
  | setTo j => rw [hpc] at ht hc; exact (hc.2.2 (Nat.zero_lt_of_lt ht)).1
  | semop j => rw [hpc] at ht hc; exact hc.2.1
  | wait j => rw [hpc] at hc; exact hc (Nat.zero_lt_of_lt hlt)
  | lockMutex => rw [hpc] at ht; exact ht.elim
  | clearSink => rw [hpc] at ht; exact ht.elim
  | pop n => rw [hpc] at ht; exact ht.elim
  | terminated => rw [hpc] at ht; exact ht.elim

/-- No module is expected to have imported packets that have not arrived. -/
theorem Collector.Inv.level_le (h : s.Inv kept c) (hk : s.detectionModules[k]? = some m) :
    s.pc.level s.popped.length c ≤ s.pushed := by
  have hc := h.counters
  have hlen := h.length_files
  have hlt : k < s.detectionModules.length := (List.getElem?_eq_some_iff.mp hk).1
  have hpos := Nat.zero_lt_of_lt hlt
  unfold Collector.Counters at hc
  unfold ManagerPc.level
  cases hpc : s.pc with
  | wait j => rw [hpc] at hc; exact (hc hpos).le
  | clearSink => rw [hpc] at hc; exact (hc hpos).le
  | pop n => rw [hpc] at hc; exact hc
  | lockMutex => exact Nat.le.intro hlen
  | setFrom j => exact Nat.le.intro hlen
  | setTo j => exact Nat.le.intro hlen
  | semop j => exact Nat.le.intro hlen
  | terminated => exact Nat.le.intro hlen

theorem Collector.Inv.expects (h : s.Inv kept c) (hm : s.detectionModules[k]? = some m)
    (hrun : m.state = .Running) : s.pc.Expects kept s.popped.length c k m :=
  (h.modules k m hm).expects ((h.modules k m hm).runs_eq_nil hrun) hrun

/-- A step of one module, after which what is to be known of it is so. -/
theorem Collector.Inv.onModule {f : DetectMod → Option DetectMod} (h : s.Inv kept c)
    (hf : ∀ m m', s.detectionModules[k]? = some m → f m = some m' →
      s.pc.Known kept s.popped.length c k m')
    (hs : s.onModule k f = some s') : s'.Inv kept c := by
  obtain ⟨m, m', hm, hm', rfl⟩ := Collector.onModule_cases hs
  refine ⟨h.queue, h.oldest, h.newest, ?_, h.room, h.file, fun i n hn => ?_⟩
  · show s.Counters (s.detectionModules.set k m').length c
    rw [List.length_set]
    exact h.counters
  · have hn : (s.detectionModules.set k m')[i]? = some n := hn
    rw [List.getElem?_set] at hn
    by_cases hik : k = i
    · subst hik
      rw [if_pos rfl, if_pos (List.getElem?_eq_some_iff.mp hm).1, Option.some.injEq] at hn
      subst hn
      exact hf m m' hm hm'
    · rw [if_neg hik] at hn
      exact h.modules i n hn

/-- The queue grows behind the packets of the round. -/
theorem Collector.Inv.exportToSink (h : s.Inv kept c) (hcalm : ¬ s.Announcing)
    (hroom : kept → s.files.length < MAX_FILES) : s.exportToSink.Inv kept c := by
  have hlen := h.length_files
  have hw : s.Round c → Window s.sbFrom s.sbTo s.popped.length (s.pushed + 1) c := fun hw =>
    ⟨hw.sbFrom, hw.sbTo, hw.lt, Nat.le_succ_of_le hw.le⟩
  refine ⟨?_, h.oldest, ?_, ?_, fun hk => ?_, fun hk x hle hlt => ?_, h.modules⟩
  · show s.popped ++ (s.files ++ [s.pushed]) = List.range (s.pushed + 1)
    rw [← List.append_assoc, h.queue, List.range_succ]
  · show s.newest.incr = .ofNat (s.pushed + 1)
    rw [h.newest, incr_ofNat]
  · have hc := h.counters
    unfold Collector.Counters at hc ⊢
    unfold Collector.Announcing at hcalm
    rw [show s.exportToSink.pc = s.pc from rfl]
    cases hpc : s.pc with
    | setFrom k =>
      rw [hpc] at hc hcalm
      exact fun hk => ⟨hw (hc hk).1, fun hlt => absurd ⟨hk, hlt⟩ hcalm⟩
    | setTo k =>
      rw [hpc] at hc hcalm
      exact ⟨hc.1, hc.2.1, fun hk => absurd ⟨hk, hc.1⟩ hcalm⟩
    | semop k =>
      rw [hpc] at hc hcalm
      exact ⟨hc.1, hw hc.2.1, fun hlt => absurd hlt hcalm⟩
    | wait k => rw [hpc] at hc; exact fun hn => hw (hc hn)
    | clearSink => rw [hpc] at hc; exact fun hn => hw (hc hn)
    | pop n => rw [hpc] at hc; exact Nat.le_succ_of_le hc
    | lockMutex => trivial
    | terminated => trivial
  · have hlt := hroom hk
    show (s.files ++ [s.pushed]).length ≤ MAX_FILES
    rwa [List.length_append]
  · -- the file that is written is not that of a packet in the queue
    have hle : s.popped.length ≤ x := hle
    have hlt : x < s.pushed + 1 := hlt
    have hroom := hroom hk
    show ((s.newest, s.pushed) :: s.directory).lookup (.ofNat x) = some x
    rw [h.newest, List.lookup_cons]
    by_cases hx : x = s.pushed
    · subst hx
      rw [beq_self_eq_true]
    · have hne : FileCounter.ofNat x ≠ .ofNat s.pushed := by
        have hne := @ofNat_add_ne x (s.pushed - x) (by omega) (by omega)
        rwa [Nat.add_sub_cancel' (by omega)] at hne
      rw [beq_false_of_ne hne]
      exact h.file hk x hle (by omega)

/-- The next step of a worker thread. -/
theorem Collector.Inv.work (h : s.Inv kept c)
    (hs : s.onModule k (DetectMod.work s.sbFrom s.sbTo s.file) = some s') : s'.Inv kept c := by
  refine h.onModule (fun m m' hm hw => ?_) hs
  have hknown := h.modules k m hm
  have hruns : m.runs = [] := by
    refine Classical.byContradiction fun hruns => ?_
    rw [(hknown.starts hruns).2.work] at hw
    cases hw
  by_cases hrun : m.state = .Running
  · refine ⟨fun _ _ => ?_, fun h => absurd (DetectMod.work_runs hw ▸ hruns) h⟩
    have hexp := hknown.expects hruns hrun
    by_cases ht : s.pc.Told k
    · obtain ⟨st, hat⟩ := hexp.1 ht
      have hround := h.round hm ht
      have hrest : st ≠ .rest := by
        intro hst
        subst hst
        rw [hat.work_rest] at hw
        cases hw
      have hlive : m.pc ≠ .dead := fun hdead => by simp [DetectMod.work, hdead] at hw
      obtain ⟨m1, hm1, hat1, -⟩ := @DetectMod.At.work kept m _ c st s.file hat hrest hlive hround.lt
        fun hk j hj => h.file hk _ (Nat.le_add_right _ _) (by have := hround.le; omega)
      rw [hround.sbFrom, hround.sbTo, hm1] at hw
      cases hw
      exact ⟨fun _ => ⟨_, hat1⟩, fun hn => absurd ht hn⟩
    · rw [(hexp.2 ht).work_rest] at hw
      cases hw
  · exact .of_not_running (DetectMod.work_runs hw ▸ hruns) (DetectMod.work_state hw ▸ hrun)

/-- Interrupted workers, deaths, and what the signal handler does. -/
theorem Collector.Inv.workInterrupted (h : s.Inv kept c)
    (hs : s.onModule k DetectMod.workInterrupted = some s') : s'.Inv kept c := by
  refine h.onModule (fun m m' hm hw => ?_) hs
  have hknown := h.modules k m hm
  by_cases hruns : m.runs = []
  · by_cases hrun : m.state = .Running
    · have hexp := hknown.expects hruns hrun
      have hsame : m' = m := by
        by_cases ht : s.pc.Told k
        · obtain ⟨st, hat⟩ := hexp.1 ht
          exact hat.workInterrupted hw
        · exact (hexp.2 ht).workInterrupted hw
      rw [hsame]
      exact hknown
    · exact .of_not_running (DetectMod.workInterrupted_runs hw ▸ hruns)
        (DetectMod.workInterrupted_state hw ▸ hrun)
  · rw [(hknown.starts hruns).2.workInterrupted hw]
    exact hknown

theorem Collector.Inv.die (h : s.Inv kept c)
    (hs : s.onModule k (fun m => if m.pc = .dead then none else some { m with pc := .dead }) =
      some s') :
    s'.Inv kept c := by
  refine h.onModule (fun m m' hm hw => ?_) hs
  split at hw
  · cases hw
  · cases hw
    have hknown := h.modules k m hm
    refine ⟨fun hruns hrun => ?_, fun hruns => ?_⟩
    · obtain ⟨h1, h2⟩ := hknown.expects hruns hrun
      exact ⟨fun ht => (h1 ht).imp fun _ hat => hat.die, fun ht => (h2 ht).die⟩
    · exact ⟨(hknown.starts hruns).1, (hknown.starts hruns).2.die⟩

/-- A module is stopped that is not being started. -/
theorem Collector.Inv.stopModule (h : s.Inv kept c) (hset : s.Settled k)
    (hs : s.onModule k (fun m => some { m with state := .Crashed, semaphore := none }) = some s') :
    s'.Inv kept c := by
  refine h.onModule (fun m m' hm hw => ?_) hs
  cases hw
  refine ⟨fun _ hrun => (by cases hrun), fun hruns => ⟨(by simp), ?_⟩⟩
  obtain ⟨⟨caller, hr⟩, -, hpc⟩ := ((h.modules k m hm).starts hruns).2.semget_of_settled (hset m hm)
  exact .semget caller hr rfl hpc

theorem Collector.Inv.sigChild {state : ModState} (h : s.Inv kept c) (hset : s.Settled k)
    (hs : s.onModule k (fun m =>
      if m.pc = .dead ∧ m.Forked ∧ (state = .Remove ∨ state = .Crashed) then some
      { m with state := state }
      else none) = some s') : s'.Inv kept c := by
  refine h.onModule (fun m m' hm hw => ?_) hs
  split at hw
  · rename_i hst
    cases hw
    refine .of_not_running ((h.modules k m hm).runs_of_settled (hset m hm) hst.2.1) ?_
    rcases hst.2.2 with rfl | rfl
    · simp
    · simp
  · cases hw

theorem Collector.Inv.restartCrashed (h : s.Inv kept c) (hset : s.Settled k)
    (hs : s.onModule k DetectMod.restartCrashed = some s') : s'.Inv kept c := by
  refine h.onModule (fun m m' hm hw => ?_) hs
  unfold DetectMod.restartCrashed at hw
  split at hw
  · rename_i hcrashed
    cases hw
    have hruns := (h.modules k m hm).runs_of_settled (hset m hm) hcrashed.2.1
    refine ⟨fun hnil _ => absurd hnil (by simp), fun _ => ⟨?_, ?_⟩⟩
    · show m.state ≠ .Running
      rw [hcrashed.2.2]
      simp
    · exact .semget .handler (by simp [hruns]) rfl hcrashed.1
  · cases hw

/-- A call of `run` takes its next step; with its last one the module is at rest. -/
theorem Collector.Inv.run {j : Nat} (h : s.Inv kept c)
    (hs : s.onModule k (DetectMod.run s.pushed j) = some s') : s'.Inv kept c := by
  refine h.onModule (fun m m' hm hw => ?_) hs
  have hknown := h.modules k m hm
  obtain ⟨r, hr, hw⟩ := Option.bind_eq_some_iff.mp hw
  have hruns : m.runs ≠ [] := by
    intro hnil
    rw [hnil] at hr
    cases hr
  obtain ⟨hstate, hstarts⟩ := hknown.starts hruns
  have honly : ∀ {r'}, m.runs = [r'] → j = 0 ∧ r = r' := by
    intro r' heq
    rw [heq] at hr
    obtain ⟨hlt, hget⟩ := List.getElem?_eq_some_iff.mp hr
    have hj : j = 0 := by simpa using hlt
    subst hj
    exact ⟨rfl, hget.symm⟩
  cases hstarts with
  | semget caller heq hsem hpc =>
    obtain ⟨rfl, rfl⟩ := honly heq
    cases hw
    refine ⟨fun hnil => absurd hnil (by simp [heq]), fun _ => ⟨hstate, ?_⟩⟩
    exact .created ⟨caller, .fork⟩ (by simp [heq]) (by simp) rfl (.inr hpc) rfl rfl rfl
  | created r' heq hr' hsem hpc himported hnotified himports =>
    obtain ⟨rfl, rfl⟩ := honly heq
    split at hw
    · rename_i hrpc
      exact absurd hrpc hr'
    · cases hw
      refine ⟨fun hnil => absurd hnil (by simp [heq]), fun _ => ⟨hstate, ?_⟩⟩
      exact .created ⟨r.caller, .setRunning⟩ (by simp [heq]) (by simp) hsem
        (.inl rfl) himported hnotified
        himports
    · cases hw
      have hsince : ∀ {n}, n ≤ s.pushed → n ≤ if m.state = .Running then m.since else s.pushed := by
        intro n hn
        rwa [if_neg hstate]
      refine
        ⟨fun _ _ => ⟨fun ht => ⟨.rest, ?_⟩, fun _ => ?_⟩, fun hne => absurd (by simp [heq]) hne⟩
      · exact DetectMod.at_of_since hsem hpc himported hnotified himports
          (hsince (h.round hm ht).le)
      · exact DetectMod.at_of_since hsem hpc himported hnotified himports (hsince (h.level_le hm))

theorem Collector.Inv.createModule (h : s.Inv kept c) (hpc : s.pc = .lockMutex) :
    Collector.Inv kept
    { s with detectionModules := s.detectionModules ++ [DetectMod.create] } c := by
  refine ⟨h.queue, h.oldest, h.newest, ?_, h.room, h.file, fun i m hm => ?_⟩
  · show s.Counters _ c
    unfold Collector.Counters
    rw [hpc]
    trivial
  · have hm : (s.detectionModules ++ [DetectMod.create])[i]? = some m := hm
    show s.pc.Known kept s.popped.length c i m
    rw [List.getElem?_append] at hm
    split at hm
    · exact h.modules i m hm
    · obtain rfl : DetectMod.create = m := by
        have hmem := List.mem_of_getElem? hm
        rw [List.mem_singleton] at hmem
        exact hmem.symm
      exact ⟨fun hnil => absurd hnil (by simp [DetectMod.create]),
        fun _ => ⟨by simp [DetectMod.create], .semget .manager rfl rfl rfl⟩⟩

/-! ## The manager's steps -/

/-- A step of the manager that leaves the queue alone. -/
theorem Collector.Inv.goto {pc : ManagerPc} {f t : FileCounter} {c' : Nat} (h : s.Inv kept c)
    (hc : Collector.Counters
      { s with pc := pc, sbFrom := f, sbTo := t } s.detectionModules.length c')
    (he : ∀ i m, s.detectionModules[i]? = some m → m.state = .Running →
      s.pc.Expects kept s.popped.length c i m → pc.Expects kept s.popped.length c' i m) :
    Collector.Inv kept { s with pc := pc, sbFrom := f, sbTo := t } c' :=
  ⟨h.queue, h.oldest, h.newest, hc, h.room, h.file,
    fun i m hm => (h.modules i m hm).imp (he i m hm)⟩

theorem Collector.Inv.lockMutex (h : s.Inv kept c) (hpc : s.pc = .lockMutex) :
    Collector.Inv kept { s with
      detectionModules := s.detectionModules.filter (·.state ≠ .Remove)
      pc := .setFrom 0 } c := by
  refine ⟨h.queue, h.oldest, h.newest, fun hk => absurd hk (Nat.lt_irrefl 0), h.room, h.file,
    fun i m hm => ?_⟩
  have hmem := (List.mem_filter.mp (List.mem_of_getElem? hm)).1
  obtain ⟨j, hj⟩ := List.getElem?_of_mem hmem
  refine (h.modules j m hj).imp fun hrun hexp => ?_
  rw [hpc] at hexp
  exact ⟨fun ht => absurd ht (Nat.not_lt_zero i), fun _ => hexp.2 (fun ht => ht)⟩

theorem Collector.Inv.setFrom (h : s.Inv kept c) (hpc : s.pc = .setFrom k)
    (hk : k < s.detectionModules.length) :
    Collector.Inv kept { s with sbFrom := s.oldest, pc := .setTo k } c := by
  have hc := h.counters
  unfold Collector.Counters at hc
  rw [hpc] at hc
  refine h.goto (t := s.sbTo) ?_ fun i m hm hrun hexp => ?_
  · refine ⟨hk, h.oldest, fun h0 => ?_⟩
    obtain ⟨hw, hto⟩ := hc h0
    exact ⟨⟨h.oldest, hw.sbTo, hw.lt, hw.le⟩, hto hk⟩
  · rw [hpc] at hexp
    exact hexp

theorem Collector.Inv.allTold (h : s.Inv kept c) (hpc : s.pc = .setFrom k)
    (hk : s.detectionModules.length ≤ k) : Collector.Inv kept { s with pc := .wait 0 } c := by
  have hc := h.counters
  unfold Collector.Counters at hc
  rw [hpc] at hc
  refine h.goto (f := s.sbFrom) (t := s.sbTo) ?_ fun i m hm hrun hexp => ?_
  · exact fun hn => (hc (Nat.lt_of_lt_of_le hn hk)).1
  · rw [hpc] at hexp
    have hi : i < k := Nat.lt_of_lt_of_le (List.getElem?_eq_some_iff.mp hm).1 hk
    exact ⟨fun _ => hexp.1 hi, fun hn => absurd (Nat.zero_le i) hn⟩

theorem Collector.Inv.setTo (h : s.Inv kept c) (hpc : s.pc = .setTo k) :
    ∃ c', Collector.Inv kept { s with sbTo := s.newest, pc := .semop k } c' := by
  have hc := h.counters
  unfold Collector.Counters at hc
  rw [hpc] at hc
  obtain ⟨hk, hfrom, hc⟩ := hc
  have hlen := h.length_files
  cases k with
  | zero =>
    -- the first module: the round is about all packets that are in the queue now
    refine ⟨s.files.length % MAX_FILES, h.goto (f := s.sbFrom) ?_ fun i m hm hrun hexp => ?_⟩
    · refine ⟨hk, ⟨hfrom, ?_, Nat.mod_lt _ (by decide), ?_⟩, fun _ => rfl⟩
      · rw [ofNat_add_mod, hlen]
        exact h.newest
      · have := Nat.mod_le s.files.length MAX_FILES
        show s.popped.length + _ ≤ s.pushed
        omega
    · rw [hpc] at hexp
      exact ⟨fun ht => absurd ht (Nat.not_lt_zero i), fun hn => hexp.2 hn⟩
  | succ k =>
    obtain ⟨hw, hto⟩ := hc (Nat.succ_pos k)
    refine ⟨c, h.goto (f := s.sbFrom) ?_ fun i m hm hrun hexp => ?_⟩
    · exact ⟨hk, ⟨hfrom, hto ▸ hw.sbTo, hw.lt, hw.le⟩, fun _ => rfl⟩
    · rw [hpc] at hexp
      exact hexp

theorem DetectMod.post_state {counters : FileCounter × FileCounter} :
    (m.post counters).state = m.state := by
  unfold DetectMod.post; split <;> rfl

theorem DetectMod.post_runs {counters : FileCounter × FileCounter} :
    (m.post counters).runs = m.runs := by
  unfold DetectMod.post; split <;> rfl

/-- Module `k` is told the counters. -/
theorem Collector.Inv.semop (h : s.Inv kept c) (hpc : s.pc = .semop k) (hset : s.Settled k)
    (hm : s.detectionModules[k]? = some m) :
    Collector.Inv kept { s with
      detectionModules := s.detectionModules.set k (m.post (s.sbFrom, s.sbTo))
      pc := .setFrom (k + 1) } c := by
  have hc := h.counters
  unfold Collector.Counters at hc
  rw [hpc] at hc
  obtain ⟨hk, hw, hto⟩ := hc
  refine
    ⟨h.queue, h.oldest, h.newest, fun _ => ⟨hw, fun hlt => ?_⟩, h.room, h.file, fun i n hn => ?_⟩
  · have hlt : k + 1 < (s.detectionModules.set k (m.post (s.sbFrom, s.sbTo))).length := hlt
    rw [List.length_set] at hlt
    exact hto hlt
  · have hn : (s.detectionModules.set k (m.post (s.sbFrom, s.sbTo)))[i]? = some n := hn
    rw [List.getElem?_set] at hn
    by_cases hik : k = i
    · subst hik
      rw [if_pos rfl, if_pos hk, Option.some.injEq] at hn
      subst hn
      have hknown := h.modules k m hm
      refine ⟨fun hruns hrun => ?_, fun hruns => ?_⟩
      · have hexp := hknown.expects (DetectMod.post_runs ▸ hruns) (DetectMod.post_state ▸ hrun)
        rw [hpc] at hexp
        have hrest : m.At kept s.popped.length 0 .rest := hexp.2 (Nat.lt_irrefl k)
        have hat := hrest.post (c := c)
        rw [← hw.sbFrom, ← hw.sbTo] at hat
        exact ⟨fun _ => ⟨_, hat⟩, fun hn => absurd (Nat.lt_succ_self k) hn⟩
      · -- there is no semaphore yet
        obtain ⟨hstate, hstarts⟩ := hknown.starts (DetectMod.post_runs ▸ hruns)
        have hsem := (hstarts.semget_of_settled (hset m hm)).2.1
        have hsame : m.post (s.sbFrom, s.sbTo) = m := by
          unfold DetectMod.post
          rw [hsem]
        rw [hsame]
        exact ⟨hstate, hstarts⟩
    · rw [if_neg hik] at hn
      refine (h.modules i n hn).imp fun _ hexp => ?_
      rw [hpc] at hexp
      refine ⟨fun ht => hexp.1 ?_, fun ht => hexp.2 fun hlt => ht (Nat.lt_succ_of_lt hlt)⟩
      have ht : i < k + 1 := ht
      show i < k
      omega

/-- A module for which the manager does not wait is at rest. -/
theorem DetectMod.At.rest_of_not_blocks {base : Nat} {st : Stage} (h : m.At kept base c st)
    (hrun : m.state = .Running) (hb : ¬ m.Blocks) : m.At kept base c .rest := by
  have hsem : st.semaphore = 0 := Classical.byContradiction fun h0 =>
    hb ⟨hrun, by rw [h.semaphore]; simp, by rw [h.semaphore]; simpa using h0⟩
  cases st with
  | rest => exact h
  | told => cases hsem
  | taken => cases hsem
  | importing j => cases hsem
  | imported => cases hsem

theorem Collector.Inv.wait (h : s.Inv kept c) (hpc : s.pc = .wait k)
    (hm : s.detectionModules[k]? = some m)
    (hb : ¬ m.Blocks) : Collector.Inv kept { s with pc := .wait (k + 1) } c := by
  have hc := h.counters
  unfold Collector.Counters at hc
  rw [hpc] at hc
  refine h.goto (f := s.sbFrom) (t := s.sbTo) hc fun i n hn hrun hexp => ?_
  rw [hpc] at hexp
  refine ⟨fun ht => hexp.1 (Nat.le_of_succ_le ht), fun ht => ?_⟩
  by_cases hik : k = i
  · subst hik
    rw [hm, Option.some.injEq] at hn
    subst hn
    obtain ⟨st, hat⟩ := hexp.1 (Nat.le_refl k)
    exact DetectMod.At.rest_iff.mp (hat.rest_of_not_blocks hrun hb)
  · refine hexp.2 fun hle => ht ?_
    have hle : k ≤ i := hle
    show k + 1 ≤ i
    omega

theorem Collector.Inv.waited (h : s.Inv kept c) (hpc : s.pc = .wait k)
    (hm : s.detectionModules[k]? = none) :
    Collector.Inv kept { s with pc := .clearSink } c := by
  have hc := h.counters
  unfold Collector.Counters at hc
  rw [hpc] at hc
  refine h.goto (f := s.sbFrom) (t := s.sbTo) hc fun i n hn hrun hexp => ?_
  rw [hpc] at hexp
  refine ⟨fun ht => ht.elim, fun _ => hexp.2 fun hle => ?_⟩
  have hle : k ≤ i := hle
  have hlen := List.getElem?_eq_none_iff.mp hm
  have hlt := (List.getElem?_eq_some_iff.mp hn).1
  omega

/-- The packets of the round are in the queue. -/
theorem Collector.Inv.sub_counters (h : s.Inv kept c) (hpc : s.pc = .clearSink)
    (hn : 0 < s.detectionModules.length) :
    s.sbTo.sub s.sbFrom = c ∧ c ≤ s.files.length := by
  have hc := h.counters
  unfold Collector.Counters at hc
  rw [hpc] at hc
  obtain ⟨h1, h2, h3, h4⟩ := hc hn
  have hlen := h.length_files
  rw [h1, h2, sub_ofNat, Nat.mod_eq_of_lt h3]
  exact ⟨rfl, by omega⟩

theorem Collector.Inv.terminated (h : s.Inv kept c) (hpc : s.pc = .clearSink)
    (hlt : s.files.length < s.sbTo.sub s.sbFrom) :
      Collector.Inv kept { s with pc := .terminated } c := by
  refine h.goto (f := s.sbFrom) (t := s.sbTo) trivial fun i n hn hrun hexp => ?_
  have hpos := Nat.zero_lt_of_lt (List.getElem?_eq_some_iff.mp hn).1
  obtain ⟨h1, h2⟩ := h.sub_counters hpc hpos
  omega

theorem Collector.Inv.clearSink (h : s.Inv kept c) (hpc : s.pc = .clearSink)
    (hle : s.sbTo.sub s.sbFrom ≤ s.files.length) :
    Collector.Inv kept { s with pc := .pop (s.sbTo.sub s.sbFrom) } c := by
  have hlen := h.length_files
  refine h.goto (f := s.sbFrom) (t := s.sbTo) ?_ fun i n hn hrun hexp => ?_
  · show s.popped.length + _ ≤ s.pushed
    omega
  · have hpos := Nat.zero_lt_of_lt (List.getElem?_eq_some_iff.mp hn).1
    obtain ⟨h1, h2⟩ := h.sub_counters hpc hpos
    rw [hpc] at hexp
    rw [h1]
    exact ⟨fun ht => ht.elim, fun _ => hexp.2 fun ht => ht⟩

theorem Collector.Inv.popped (h : s.Inv kept c) (hpc : s.pc = .pop 0) :
    Collector.Inv kept { s with pc := .lockMutex } c := by
  refine h.goto (f := s.sbFrom) (t := s.sbTo) trivial fun i n hn hrun hexp => ?_
  rw [hpc] at hexp
  exact hexp

theorem Collector.Inv.pop {n x : Nat} {xs : List Nat} (h : s.Inv kept c) (hpc : s.pc = .pop (n + 1))
    (hfiles : s.files = x :: xs) :
    Collector.Inv kept { s with
      files := xs
      directory := s.directory.filter (·.1 ≠ s.oldest)
      oldest := s.oldest.incr
      popped := s.popped ++ [x]
      pc := .pop n } c := by
  have hlen : (s.popped ++ [x]).length = s.popped.length + 1 := List.length_append
  have hc := h.counters
  unfold Collector.Counters at hc
  rw [hpc] at hc
  refine ⟨?_, ?_, h.newest, ?_, fun hk => ?_, fun hk y hle hlt => ?_, fun i m hm => ?_⟩
  · show s.popped ++ [x] ++ xs = List.range s.pushed
    rw [List.append_assoc, List.singleton_append, ← hfiles, h.queue]
  · show s.oldest.incr = .ofNat (s.popped ++ [x]).length
    rw [hlen, h.oldest, incr_ofNat]
  · show (s.popped ++ [x]).length + n ≤ s.pushed
    omega
  · have hroom := h.room hk
    rw [hfiles, List.length_cons] at hroom
    exact Nat.le_of_succ_le hroom
  · -- the files of the packets behind the first one have other numbers
    have hle : (s.popped ++ [x]).length ≤ y := hle
    have hlt : y < s.pushed := hlt
    have hroom := h.room hk
    have hqueued := h.length_files
    have hne : FileCounter.ofNat y ≠ s.oldest := by
      have hne := @ofNat_add_ne s.popped.length (y - s.popped.length) (by omega) (by omega)
      rw [Nat.add_sub_cancel' (by omega)] at hne
      rw [h.oldest]
      exact hne.symm
    exact (Collector.lookup_filter_ne hne).trans (h.file hk y (by omega) hlt)
  · refine (h.modules i m hm).imp fun _ hexp => ?_
    rw [hpc] at hexp
    have hlevel : (ManagerPc.pop n).level (s.popped ++ [x]).length c =
        (ManagerPc.pop (n + 1)).level s.popped.length c := by
      show (s.popped ++ [x]).length + n = s.popped.length + (n + 1)
      omega
    refine ⟨fun ht => ht.elim, fun _ => ?_⟩
    show m.At kept ((ManagerPc.pop n).level (s.popped ++ [x]).length c) 0 .rest
    rw [hlevel]
    exact hexp.2 fun ht => ht

theorem Collector.Inv.manager (h : s.Inv kept c) (hcalm : s.Calm .manager)
    (hs : s.manager = some s') :
    ∃ c', s'.Inv kept c' := by
  cases Collector.manager_cases hs with
  | lockMutex hpc hstart => exact ⟨c, h.lockMutex hpc⟩
  | setFrom k hpc hk => exact ⟨c, h.setFrom hpc hk⟩
  | allTold k hpc hk => exact ⟨c, h.allTold hpc hk⟩
  | setTo k hpc => exact h.setTo hpc
  | semop k m hpc hm =>
    simp only [Collector.Calm, hpc] at hcalm
    exact ⟨c, h.semop hpc hcalm hm⟩
  | wait k m hpc hm hb => exact ⟨c, h.wait hpc hm hb⟩
  | waited k hpc hm => exact ⟨c, h.waited hpc hm⟩
  | terminated hpc hlt => exact ⟨c, h.terminated hpc hlt⟩
  | clearSink hpc hle => exact ⟨c, h.clearSink hpc hle⟩
  | popped hpc => exact ⟨c, h.popped hpc⟩
  | pop n x xs hpc hfiles => exact ⟨c, h.pop hpc hfiles⟩

/-- Every step of a calm run keeps the invariant. -/
theorem Collector.Inv.step (h : s.Inv kept c) (hcalm : s.Calm op) (hroom : kept → s.Room op)
    (hs : s.step op = some s') : ∃ c', s'.Inv kept c' := by
  cases op with
  | exportToSink => cases hs; exact ⟨c, h.exportToSink hcalm hroom⟩
  | manager => exact h.manager hcalm hs
  | managerInterrupted => exact hcalm.elim
  | work k => exact ⟨c, h.work hs⟩
  | workInterrupted k => exact ⟨c, h.workInterrupted hs⟩
  | die k => exact ⟨c, h.die hs⟩
  | stopModule k => exact ⟨c, h.stopModule hcalm hs⟩
  | sigChild k state => exact ⟨c, h.sigChild hcalm hs⟩
  | restartCrashed k => exact ⟨c, h.restartCrashed hcalm hs⟩
  | run k j => exact ⟨c, h.run hs⟩
  | createModule =>
    unfold Collector.step at hs
    simp only at hs
    split at hs
    · rename_i hpc
      cases hs
      exact ⟨c, h.createModule hpc.1⟩
    · cases hs

theorem Collector.Inv.init : Collector.init.Inv kept 0 :=
  ⟨rfl, rfl, rfl, trivial, fun _ => Nat.zero_le _, (fun _ x _ hx => absurd hx (Nat.not_lt_zero x)),
    fun _ _ hm => nomatch hm⟩

theorem Collector.inv_reachable (h : (collector.restrict Collector.Calm).Reachable s) :
    ∃ c, s.Inv False c := by
  refine LTS.Inductive.reachable (I := fun s => ∃ c, s.Inv False c) ⟨?_, ?_⟩ s h
  · intro s hs
    cases hs
    exact ⟨0, .init⟩
  · intro s op s' ⟨c, hinv⟩ ⟨hs, hcalm⟩
    exact hinv.step hcalm False.elim hs

/-- With room in the queue, what is imported is known as well. -/
theorem Collector.inv_reachable_room (h : (collector.restrict Collector.CalmRoom).Reachable s) :
    ∃ c, s.Inv True c := by
  refine LTS.Inductive.reachable (I := fun s => ∃ c, s.Inv True c) ⟨?_, ?_⟩ s h
  · intro s hs
    cases hs
    exact ⟨0, .init⟩
  · intro s op s' ⟨c, hinv⟩ ⟨hs, hcalm⟩
    exact hinv.step hcalm.1 (fun _ => hcalm.2) hs

end Steps

/-! ## What is thrown away -/

/-- Whatever the manager is at, nothing that it has thrown away is still to be imported. -/
theorem ManagerPc.Expects.imported {kept : Prop} {pc : ManagerPc} {base c i : Nat} {m : DetectMod}
    (h : pc.Expects kept base c i m) (hk : kept) : ∃ n, base ≤ n ∧ m.Imported n := by
  by_cases ht : pc.Told i
  · obtain ⟨st, hat⟩ := h.1 ht
    refine ⟨_, ?_, hat.imported hk⟩
    cases st <;> simp [Stage.upTo]
  · refine ⟨_, ?_, (h.2 ht).imported hk⟩
    cases pc <;> simp [ManagerPc.level, Stage.upTo]

theorem Collector.Inv.popped_lt {kept : Prop} {s : Collector} {c x : Nat} (h : s.Inv kept c)
    (hx : x ∈ s.popped) : x < s.popped.length := by
  obtain ⟨i, hi⟩ := List.getElem?_of_mem hx
  have hlt := (List.getElem?_eq_some_iff.mp hi).1
  have hlen := h.length_files
  have hq := congrArg (·[i]?) h.queue
  simp only [List.getElem?_append_left hlt, List.getElem?_range (show i < s.pushed by omega), hi,
    Option.some.injEq] at hq
  omega

/-- A whole round: two modules and one packet. -/
def wholeRound : List CollectorOp :=
  startModule 0 ++ startModule 1 ++ [.exportToSink] ++ managerSteps 8 ++ workSteps 1 5 ++
    workSteps 0 5 ++
    managerSteps 6

/-- In the next round one of them dies while it imports; it is started anew before the manager goes
on, and imports the packet after that. -/
def restartRound : List CollectorOp :=
  wholeRound ++ [.exportToSink] ++ managerSteps 8 ++ workSteps 1 3 ++
    [.die 1, .sigChild 1 .Crashed, .restartCrashed 1] ++ workSteps 0 5 ++
      [.run 1 0, .run 1 0, .run 1 0] ++
    managerSteps 6 ++ [.exportToSink] ++ managerSteps 8 ++ workSteps 1 5 ++ workSteps 0 5 ++
      managerSteps 6

/-- A packet that is queued between the notifications of two modules: the first, already at
rest, does not import it; then it is thrown away. -/
def queuedBetween : List CollectorOp :=
  startModule 0 ++ startModule 1 ++ [.exportToSink] ++ managerSteps 4 ++ workSteps 0 5 ++
    [.exportToSink] ++
    managerSteps 4 ++ workSteps 1 6 ++ managerSteps 6

end Topas
