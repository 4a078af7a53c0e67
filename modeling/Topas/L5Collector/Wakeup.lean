import Topas.L5Collector.Store

/-!
# The manager's wake-ups

`Manager::mutex` is a semaphore. The constructor takes its initial 1, every received packet
adds 1 (`newPacket`), every round of the manager takes 1. A round is about all packets that
are queued by then, so that wake-ups are left over when packets arrive in a batch.

* `clearSink_announced`: `clearSink` deletes what this round has announced, and nothing else,
  exactly when the container is not empty or `from` and `to` are equal. With the last module
  gone, a left-over wake-up deletes once more what an earlier round announced
  (`clearSink_terminates`).
* `notified_difference`: `to - from` is the number of queued packets exactly when these are
  fewer than `MAX_FILES`.
* `blocked_empty`: while each round finds a module, and fewer than `MAX_FILES` packets are
  queued, the manager only sleeps on an empty queue.

The collector's steps are those of `collector`, except that `lockMutex` needs a wake-up. It
may be interrupted and then goes on without one (`Mutex::lock` ignores the error).
-/
namespace Topas

open FileCounter

/-- `receiving` is how many calls of `messageCallBackFunction` are behind `exportToSink`
and before `newPacket`. `queued` is a ghost: what was in the queue when `to` was set last
in this round. -/
structure Wakeup where
  coll : Collector
  mutex : Nat
  receiving : Nat
  queued : List Nat
  deriving DecidableEq, Repr

inductive WakeupOp where
  | exportToSink
  | exportFailed
  | newPacket
  | lockMutex
  | lockInterrupted
  | manager
  | other (op : CollectorOp)
  deriving DecidableEq, Repr

namespace Wakeup

/-- mirrors collector/manager.cpp:44-59 -/
def init : Wakeup := ⟨.init, 0, 0, []⟩

/-- mirrors collector/collector.cpp:459-467, collector/manager.cpp:197-244,
commonutils/mutex.cpp:43-58 -/
def step (s : Wakeup) : WakeupOp → Option Wakeup
  | .exportToSink => some { s with coll := s.coll.exportToSink, receiving := s.receiving + 1 }
  | .exportFailed => some { s with receiving := s.receiving + 1 }
  | .newPacket =>
    if 0 < s.receiving then some
      { s with receiving := s.receiving - 1, mutex := s.mutex + 1 } else none
  | .lockMutex =>
    if s.coll.pc = .lockMutex ∧ 0 < s.mutex then
      s.coll.manager.map fun c => { s with coll := c, mutex := s.mutex - 1, queued := [] }
    else none
  | .lockInterrupted =>
    if s.coll.pc = .lockMutex ∧ s.mutex = 0 then
      s.coll.manager.map fun c => { s with coll := c, queued := [] }
    else none
  | .manager =>
    match s.coll.pc with
    | .lockMutex => none
    | .setTo _ => s.coll.manager.map fun c => { s with coll := c, queued := s.coll.files }
    | _ => s.coll.manager.map fun c => { s with coll := c }
  | .other .exportToSink => none
  | .other .manager => none
  | .other op => (s.coll.step op).map fun c => { s with coll := c }

/-- What `clearSink` asks the packet store to delete.
mirrors collector/detectmodexporter.cpp:153-156 -/
def count (s : Wakeup) : Nat := s.coll.sbTo.sub s.coll.sbFrom

/-- The packets that this round has announced. -/
def announced (s : Wakeup) : List Nat := s.queued.take s.count

end Wakeup

def wakeup : LTS Wakeup WakeupOp := .ofStep (· = Wakeup.init) Wakeup.step

theorem Wakeup.reachable_exec {G : Wakeup → WakeupOp → Prop} [∀ s, DecidablePred (G s)]
    {s : Wakeup} {ops : List WakeupOp} (h : LTS.exec G Wakeup.step .init ops = some s) :
    (wakeup.restrict G).Reachable s :=
  LTS.Reachable.exec (.init rfl) h

/-! ## What a step does -/

section Inversion

variable {s s' : Wakeup} {op : WakeupOp}

inductive Wakeup.Moves (s : Wakeup) : Wakeup → Prop where
  | exportToSink : Moves s { s with coll := s.coll.exportToSink, receiving := s.receiving + 1 }
  | exportFailed : Moves s { s with receiving := s.receiving + 1 }
  | newPacket (h : 0 < s.receiving) :
      Moves s { s with receiving := s.receiving - 1, mutex := s.mutex + 1 }
  | lockMutex (n : Nat) (hpc : s.coll.pc = .lockMutex) (hstart : s.coll.Started)
      (hn : s.mutex ≤ n + 1) :
      Moves s { s with
        coll := { s.coll with
          detectionModules := s.coll.detectionModules.filter (·.state ≠ .Remove)
          pc := .setFrom 0 }
        mutex := n
        queued := [] }
  | setTo (k : Nat) (hpc : s.coll.pc = .setTo k) :
      Moves s { s with
        coll := { s.coll with sbTo := s.coll.newest, pc := .semop k }
        queued := s.coll.files }
  | manager (c : Collector) (hlock : s.coll.pc ≠ .lockMutex) (hto : ∀ k, s.coll.pc ≠ .setTo k)
      (hc : s.coll.manager = some c) : Moves s { s with coll := c }
  | beside (op : CollectorOp) (c : Collector) (hc : s.coll.step op = some c)
      (hb : s.coll.Beside c) :
      Moves s { s with coll := c }

theorem Collector.manager_lockMutex {c : Collector} (h : c.pc = .lockMutex) (hstart : c.Started) :
    c.manager = some { c with
      detectionModules := c.detectionModules.filter (·.state ≠ .Remove)
      pc := .setFrom 0 } := by
  unfold Collector.manager
  rw [h]
  exact if_pos hstart

/-- A round begins when every module is started. -/
theorem Collector.manager_lockMutex_cases {c c' : Collector} (h : c.pc = .lockMutex)
    (hc : c.manager = some c') : c.Started ∧ c' = { c with
      detectionModules := c.detectionModules.filter (·.state ≠ .Remove)
      pc := .setFrom 0 } := by
  cases Collector.manager_cases hc with
  | lockMutex _ hstart => exact ⟨hstart, rfl⟩
  | _ => simp_all

theorem Collector.manager_setTo {c : Collector} {k : Nat} (h : c.pc = .setTo k) :
    c.manager = some { c with sbTo := c.newest, pc := .semop k } := by
  unfold Collector.manager
  rw [h]

theorem Wakeup.moves (h : s.step op = some s') : s.Moves s' := by
  cases op with
  | exportToSink => cases h; exact .exportToSink
  | exportFailed => cases h; exact .exportFailed
  | newPacket =>
    unfold Wakeup.step at h
    simp only at h
    split at h
    · cases h; exact .newPacket ‹_›
    · cases h
  | lockMutex =>
    unfold Wakeup.step at h
    simp only at h
    split at h
    · rename_i hl
      obtain ⟨c, hc, rfl⟩ := Option.map_eq_some_iff.mp h
      obtain ⟨hstart, rfl⟩ := Collector.manager_lockMutex_cases hl.1 hc
      exact .lockMutex _ hl.1 hstart (by omega)
    · cases h
  | lockInterrupted =>
    unfold Wakeup.step at h
    simp only at h
    split at h
    · rename_i hl
      obtain ⟨c, hc, rfl⟩ := Option.map_eq_some_iff.mp h
      obtain ⟨hstart, rfl⟩ := Collector.manager_lockMutex_cases hl.1 hc
      exact .lockMutex _ hl.1 hstart (by omega)
    · cases h
  | manager =>
    unfold Wakeup.step at h
    simp only at h
    split at h
    · cases h
    · rename_i k hpc
      rw [Collector.manager_setTo hpc] at h
      cases h
      exact .setTo k hpc
    · rename_i hlock hto
      obtain ⟨c, hc, rfl⟩ := Option.map_eq_some_iff.mp h
      exact .manager c hlock hto hc
  | other op =>
    have hop : ∃ c, s.coll.step op = some c ∧ s' = { s with coll := c } ∧
        op ≠ .exportToSink ∧ op ≠ .manager := by
      unfold Wakeup.step at h
      cases op
      case exportToSink => cases h
      case manager => cases h
      all_goals
        obtain ⟨c, hc, rfl⟩ := Option.map_eq_some_iff.mp h
        exact ⟨c, hc, rfl, (fun h => nomatch h), (fun h => nomatch h)⟩
    obtain ⟨c, hc, rfl, he, hm⟩ := hop
    rcases Collector.step_cases hc with ⟨h, -⟩ | ⟨h, -⟩ | ⟨-, -, hb⟩
    · exact absurd h he
    · exact absurd h hm
    · exact .beside op c hc hb

/-- The runs of `wakeup` are runs of `collector`. -/
theorem Wakeup.coll_reachable (h : wakeup.Reachable s) : collector.Reachable s.coll := by
  induction h with
  | init h0 => cases h0; exact .init rfl
  | step _ hs ih =>
    cases Wakeup.moves hs with
    | exportToSink => exact .step ih (l := .exportToSink) rfl
    | exportFailed => exact ih
    | newPacket => exact ih
    | lockMutex n hpc hstart hn =>
      exact .step ih (l := .manager) (Collector.manager_lockMutex hpc hstart)
    | setTo k hpc => exact .step ih (l := .manager) (Collector.manager_setTo hpc)
    | manager c hlock hto hc => exact .step ih (l := .manager) hc
    | beside op c hc hb => exact .step ih hc

theorem Wakeup.store (h : wakeup.Reachable s) : s.coll.Store :=
  Collector.store_reachable (Wakeup.coll_reachable h)

end Inversion

/-! ## What a round has announced -/

/-- The manager is in a round and has not notified a module. -/
def Collector.Silent (s : Collector) : Prop :=
  match s.pc with
  | .setFrom k => k = 0
  | .setTo k => k = 0
  | .wait _ => s.detectionModules = []
  | .clearSink => s.detectionModules = []
  | _ => False

/-- The notifications of a round are about what is in front of the queue. -/
structure Wakeup.Queued (s : Wakeup) : Prop where
  notified : s.coll.Notified → s.queued <+: s.coll.files ∧ s.count = s.queued.length % MAX_FILES
  silent : s.coll.Silent → s.queued = []

section Rounds

variable {s s' : Wakeup} {op : WakeupOp}

theorem Wakeup.Queued.manager {c : Collector} (h : s.Queued) (hstore : s.coll.Store)
    (hlock : s.coll.pc ≠ .lockMutex) (hto : ∀ k, s.coll.pc ≠ .setTo k) (hc : s.coll.ManagerStep c) :
    Wakeup.Queued { s with coll := c } := by
  have hn := h.notified
  have hs := h.silent
  cases hc with
  | lockMutex hpc hstart => exact absurd hpc hlock
  | setTo k hpc => exact absurd hpc (hto k)
  | setFrom k hpc hk =>
    refine ⟨fun hn' => ?_, fun hs' => ?_⟩
    · have hn' : s.coll.Notified := by simpa [Collector.Notified, hpc] using hn'
      obtain ⟨hq, hcount⟩ := hn hn'
      refine ⟨hq, ?_⟩
      have hfrom := (hstore.window hn').1
      unfold Wakeup.count at hcount ⊢
      rwa [hfrom] at hcount
    · exact hs (by simpa [Collector.Silent, hpc] using hs')
  | allTold k hpc hk =>
    refine ⟨fun hn' => hn ?_, fun hs' => hs ?_⟩
    · have hn' : s.coll.detectionModules ≠ [] := hn'
      have := List.length_pos_iff.mpr hn'
      unfold Collector.Notified
      rw [hpc]
      show 0 < k
      omega
    · have hs' : s.coll.detectionModules = [] := hs'
      unfold Collector.Silent
      rw [hpc]
      cases k with
      | zero => rfl
      | succ k =>
        have := hstore.modules k (.inl hpc)
        rw [hs'] at this
        cases this
  | semop k m hpc hm =>
    exact
      ⟨fun _ => hn (by simp [Collector.Notified, hpc]), fun hs' => absurd hs' (Nat.succ_ne_zero _)⟩
  | wait k m hpc hm hb =>
    exact ⟨fun hn' => hn (by simpa [Collector.Notified, hpc] using hn'),
      fun hs' => hs (by simpa [Collector.Silent, hpc] using hs')⟩
  | waited k hpc hm =>
    exact ⟨fun hn' => hn (by simpa [Collector.Notified, hpc] using hn'),
      fun hs' => hs (by simpa [Collector.Silent, hpc] using hs')⟩
  | terminated hpc hlt => exact ⟨fun hn' => hn'.elim, fun hs' => hs'.elim⟩
  | clearSink hpc hle => exact ⟨fun hn' => hn'.elim, fun hs' => hs'.elim⟩
  | popped hpc => exact ⟨fun hn' => hn'.elim, fun hs' => hs'.elim⟩
  | pop n x xs hpc hfiles => exact ⟨fun hn' => hn'.elim, fun hs' => hs'.elim⟩

theorem Wakeup.Queued.beside {c : Collector} (h : s.Queued) (hc : s.coll.Beside c) :
    Wakeup.Queued { s with coll := c } := by
  cases hc with
  | setModule k m =>
    refine ⟨fun hn => h.notified ?_, fun hs => h.silent ?_⟩
    · unfold Collector.Notified at hn ⊢
      cases hpc : s.coll.pc <;> simp_all
    · unfold Collector.Silent at hs ⊢
      cases hpc : s.coll.pc <;> simp_all
  | createModule hpc =>
    refine ⟨fun hn => ?_, fun hs => ?_⟩
    · unfold Collector.Notified at hn
      simp [hpc] at hn
    · unfold Collector.Silent at hs
      simp [hpc] at hs
  | interrupted k hpc =>
    exact ⟨fun hn => h.notified (by simpa [Collector.Notified, hpc] using hn),
      fun hs => h.silent (by simpa [Collector.Silent, hpc] using hs)⟩

theorem Wakeup.Queued.step (h : s.Queued) (hstore : s.coll.Store) (hs : s.step op = some s') :
    s'.Queued := by
  cases Wakeup.moves hs with
  | exportToSink =>
    refine ⟨fun hn => ?_, fun hs => h.silent hs⟩
    obtain ⟨hq, hcount⟩ := h.notified hn
    exact ⟨hq.trans (List.prefix_append _ _), hcount⟩
  | exportFailed => exact ⟨h.notified, h.silent⟩
  | newPacket => exact ⟨h.notified, h.silent⟩
  | lockMutex n hpc hstart hn => exact ⟨fun hn => absurd hn (Nat.lt_irrefl 0), fun _ => rfl⟩
  | setTo k hpc =>
    refine ⟨fun _ => ⟨List.prefix_refl _, ?_⟩, fun hs => nomatch hs⟩
    show s.coll.newest.sub s.coll.sbFrom = s.coll.files.length % MAX_FILES
    rw [hstore.sbFrom k hpc, hstore.newest_sub_oldest]
  | manager c hlock hto hc => exact h.manager hstore hlock hto (Collector.manager_cases hc)
  | beside op c hc hb => exact h.beside hb

theorem Wakeup.queued_reachable (h : wakeup.Reachable s) : s.Queued := by
  induction h with
  | init h0 => cases h0; exact ⟨fun hn => hn.elim, fun _ => rfl⟩
  | step hr hs ih => exact ih.step (Wakeup.store hr) hs

/-- A round that reaches `clearSink` has notified somebody or found the container empty. -/
theorem Collector.notified_of_modules {c : Collector} (hpc : c.pc = .clearSink)
    (hm : c.detectionModules ≠ []) : c.Notified := by
  unfold Collector.Notified
  rw [hpc]
  exact hm

theorem Collector.silent_of_empty {c : Collector} (hpc : c.pc = .clearSink)
    (hm : c.detectionModules = []) : c.Silent := by
  unfold Collector.Silent
  rw [hpc]
  exact hm

/-- `clearSink` deletes packets that this round has announced. -/
def Wakeup.DeletesAnnounced (s : Wakeup) : Prop :=
  s.count ≤ s.coll.files.length ∧ ∀ x ∈ s.coll.files.take s.count, x ∈ s.announced

/-- The container is not empty, or what is left in `from` and `to` is nothing. -/
def Wakeup.Covered (s : Wakeup) : Prop :=
  s.coll.detectionModules ≠ [] ∨ s.coll.sbFrom = s.coll.sbTo

instance (s : Wakeup) : Decidable s.Covered :=
  inferInstanceAs (Decidable (s.coll.detectionModules ≠ [] ∨ s.coll.sbFrom = s.coll.sbTo))

/-- Every `clearSink` is covered. -/
def Wakeup.Clears (s : Wakeup) (_ : WakeupOp) : Prop := s.coll.pc = .clearSink → s.Covered

instance (s : Wakeup) : DecidablePred s.Clears := fun _ =>
  inferInstanceAs (Decidable (s.coll.pc = .clearSink → s.Covered))

theorem Wakeup.Queued.take_files (h : s.Queued) (hn : s.coll.Notified) :
    s.count ≤ s.queued.length ∧ s.queued.length ≤ s.coll.files.length ∧
      s.coll.files.take s.count = s.queued.take s.count := by
  obtain ⟨⟨rest, hq⟩, hcount⟩ := h.notified hn
  have hle : s.count ≤ s.queued.length := hcount ▸ Nat.mod_le _ _
  refine ⟨hle, ?_, ?_⟩
  · rw [← hq, List.length_append]
    exact Nat.le_add_right _ _
  · rw [← hq, List.take_append_of_le_length hle]

theorem Wakeup.Queued.deletesAnnounced_iff (h : s.Queued) (hpc : s.coll.pc = .clearSink) :
    s.DeletesAnnounced ↔ s.Covered := by
  by_cases hm : s.coll.detectionModules = []
  · have hq := h.silent (Collector.silent_of_empty hpc hm)
    have hann : s.announced = [] := by rw [Wakeup.announced, hq, List.take_nil]
    refine ⟨fun ⟨hle, hall⟩ => .inr (FileCounter.sub_eq_zero.mp ?_), fun hc => ?_⟩
    · have htake : s.coll.files.take s.count = [] := by
        refine List.eq_nil_iff_forall_not_mem.mpr fun x hx => ?_
        have := hall x hx
        rw [hann] at this
        cases this
      have hlen := congrArg List.length htake
      rw [List.length_take, Nat.min_eq_left hle] at hlen
      exact hlen
    · have h0 : s.count = 0 := FileCounter.sub_eq_zero.mpr (hc.resolve_left fun h => h hm)
      refine ⟨h0 ▸ Nat.zero_le _, fun x hx => ?_⟩
      rw [h0, List.take_zero] at hx
      cases hx
  · obtain ⟨h1, h2, h3⟩ := h.take_files (Collector.notified_of_modules hpc hm)
    refine ⟨fun _ => .inl hm, fun _ => ⟨Nat.le_trans h1 h2, fun x hx => ?_⟩⟩
    rw [h3] at hx
    exact hx

/-- Every `clearSink` deletes packets that its round has announced exactly when a module is in
the container or nothing is left in `from` and `to`; in runs in which this is always so, the
packet store never throws. -/
theorem clearSink_announced {s : Wakeup} (h : wakeup.Reachable s) :
    (s.coll.pc = .clearSink → (s.DeletesAnnounced ↔ s.Covered)) ∧
    ((wakeup.restrict Wakeup.Clears).Reachable s → s.coll.pc ≠ .terminated) := by
  refine ⟨fun hpc => (Wakeup.queued_reachable h).deletesAnnounced_iff hpc, fun hr => ?_⟩
  induction hr with
  | init h0 => cases h0; exact fun h => nomatch h
  | step hr hs ih =>
    rename_i s s' l
    have ih := ih hr.of_restrict
    have hq := Wakeup.queued_reachable hr.of_restrict
    cases Wakeup.moves hs.1 with
    | exportToSink => exact ih
    | exportFailed => exact ih
    | newPacket => exact ih
    | lockMutex n hpc hstart hn => exact fun h => nomatch h
    | setTo k hpc => exact fun h => nomatch h
    | manager c hlock hto hc =>
      cases Collector.manager_cases hc with
      | terminated hpc hlt =>
        have hle : s.count ≤ s.coll.files.length := ((hq.deletesAnnounced_iff hpc).mpr (hs.2 hpc)).1
        exact absurd hlt (Nat.not_lt_of_le hle)
      | _ => exact fun h => nomatch h
    | beside op c hc hb =>
      cases hb with
      | setModule k m => exact ih
      | createModule hpc => exact ih
      | interrupted k hpc => exact fun h => nomatch h

/-- Three packets arrive in a batch, with one round for all of them. -/
def batch : List WakeupOp :=
  (startModule 0).map .other ++ List.replicate 3 .exportToSink ++ List.replicate 3 .newPacket ++
    [.lockMutex] ++
    List.replicate 4 .manager ++ List.replicate 7 (.other (.work 0))

theorem clearSink_announced_batch :
    ∃ s, wakeup.Reachable s ∧ s.coll.pc = .clearSink ∧ s.count = 3 ∧ s.announced = [0, 1, 2] ∧
      s.DeletesAnnounced ∧ s.coll.pc ≠ .terminated := by
  let s :=
    (LTS.exec Wakeup.Clears Wakeup.step .init (batch ++ List.replicate 2 .manager)).get (by decide)
  have hreach : (wakeup.restrict Wakeup.Clears).Reachable s :=
    Wakeup.reachable_exec (Option.some_get _).symm
  exact ⟨s, hreach.of_restrict, by decide, by decide, by decide,
    ((clearSink_announced hreach.of_restrict).1 (by decide)).mpr (.inl (by decide)),
    (clearSink_announced hreach.of_restrict).2 hreach⟩

/-- The module exits when the three packets are through; two wake-ups are left over. -/
def batchExit : List WakeupOp :=
  batch ++ List.replicate 7 .manager ++ [.other (.die 0), .other (.sigChild 0 .Remove), .lockMutex]

/-- The next round finds nobody to notify and an empty queue, and asks for three packets. -/
theorem clearSink_terminates :
    ∃ s, wakeup.Reachable s ∧ s.coll.popped = [0, 1, 2] ∧ s.coll.files = [] ∧
      s.coll.detectionModules = [] ∧ s.count = 3 ∧ s.coll.pc = .terminated := by
  let s :=
    (LTS.exec (fun _ _ => True) Wakeup.step .init (batchExit ++ List.replicate 3 .manager)).get
    (by decide)
  have hreach : (wakeup.restrict fun _ _ => True).Reachable s :=
    Wakeup.reachable_exec (Option.some_get _).symm
  exact ⟨s, hreach.of_restrict, by decide, by decide, by decide, by decide, by decide⟩

/-! ## The difference of the counters -/

/-- When a module is told the counters, their difference is the number of queued packets; and
`clearSink` removes these packets. Each holds exactly when fewer than `MAX_FILES` packets were
queued, the second only if this round has notified somebody or has nothing to remove. -/
theorem notified_difference (h : wakeup.Reachable s) :
    (∀ k, s.coll.pc = .semop k → (s.count = s.queued.length ↔ s.queued.length < MAX_FILES)) ∧
    (s.coll.pc = .clearSink →
      (s.count ≤ s.coll.files.length ∧ s.coll.files.take s.count = s.queued ↔
        s.queued.length < MAX_FILES ∧ s.Covered)) := by
  have hq := Wakeup.queued_reachable h
  have hmod : ∀ n, n % MAX_FILES = n ↔ n < MAX_FILES := fun n =>
    ⟨fun h => h ▸ Nat.mod_lt _ (by decide), Nat.mod_eq_of_lt⟩
  refine ⟨fun k hpc => ?_, fun hpc => ?_⟩
  · have hn : s.coll.Notified := by simp [Collector.Notified, hpc]
    rw [(hq.notified hn).2, hmod]
  · by_cases hm : s.coll.detectionModules = []
    · rw [hq.silent (Collector.silent_of_empty hpc hm)]
      constructor
      · intro htaken
        obtain ⟨hle, htake⟩ := htaken
        refine ⟨by decide, .inr (FileCounter.sub_eq_zero.mp ?_)⟩
        have hlen := congrArg List.length htake
        rw [List.length_take, Nat.min_eq_left hle] at hlen
        exact hlen
      · intro hcovered
        obtain ⟨-, hc⟩ := hcovered
        have h0 : s.count = 0 := FileCounter.sub_eq_zero.mpr (hc.resolve_left fun h => h hm)
        rw [h0]
        exact ⟨Nat.zero_le _, List.take_zero⟩
    · have hn := Collector.notified_of_modules hpc hm
      obtain ⟨h1, h2, h3⟩ := hq.take_files hn
      have hcount := (hq.notified hn).2
      rw [h3, ← hmod, ← hcount]
      constructor
      · intro htaken
        obtain ⟨-, htake⟩ := htaken
        have hlen := congrArg List.length htake
        rw [List.length_take, Nat.min_eq_left h1] at hlen
        exact ⟨hlen, .inl hm⟩
      · intro hcovered
        obtain ⟨heq, -⟩ := hcovered
        refine ⟨Nat.le_trans h1 h2, ?_⟩
        rw [heq, List.take_length]

theorem notified_difference_batch :
    ∃ s, wakeup.Reachable s ∧ s.coll.pc = .clearSink ∧ s.queued = [0, 1, 2] ∧
      s.coll.files.take s.count = s.queued := by
  let s := (LTS.exec (fun _ _ => True) Wakeup.step .init
    (batch ++ List.replicate 2 .manager)).get (by decide)
  have hreach : (wakeup.restrict fun _ _ => True).Reachable s :=
    Wakeup.reachable_exec (Option.some_get _).symm
  exact ⟨s, hreach.of_restrict, by decide, by decide,
    (((notified_difference hreach.of_restrict).2 (by decide)).mpr ⟨by decide, by decide⟩).2⟩

/-- A module that was started before the first packet. -/
def DetectMod.first : DetectMod := ⟨.Running, some 0, .wait, [], 0, [], [], []⟩

/-- Any number of packets may be queued before the first round. -/
theorem Wakeup.reachable_exports (n : Nat) :
    ∃ s, wakeup.Reachable s ∧ s.coll.pc = .lockMutex ∧ s.coll.detectionModules = [DetectMod.first] ∧
      s.coll.files.length = n ∧ s.receiving = n := by
  induction n with
  | zero =>
    let s := (LTS.exec (fun _ _ => True) Wakeup.step .init ((startModule 0).map .other)).get (by decide)
    have hreach : (wakeup.restrict fun _ _ => True).Reachable s :=
      Wakeup.reachable_exec (Option.some_get _).symm
    exact ⟨s, hreach.of_restrict, by decide, by decide, by decide, by decide⟩
  | succ n ih =>
    obtain ⟨s, hs, hpc, hm, hlen, hrec⟩ := ih
    refine ⟨_, .step hs (l := .exportToSink) rfl, hpc, hm, ?_, congrArg (· + 1) hrec⟩
    show (s.coll.files ++ [s.coll.pushed]).length = n + 1
    rw [List.length_append, hlen, List.length_singleton]

/-- A wake-up and the notification of the only module. -/
theorem Wakeup.reachable_semop (h : wakeup.Reachable s) (hpc : s.coll.pc = .lockMutex)
    (hm : s.coll.detectionModules = [DetectMod.first]) (hrec : 0 < s.receiving) :
    ∃ s', wakeup.Reachable s' ∧ s'.coll.pc = .semop 0 ∧ s'.queued = s.coll.files := by
  have h1 : wakeup.Reachable { s with receiving := s.receiving - 1, mutex := s.mutex + 1 } :=
    .step h (l := .newPacket) (if_pos hrec)
  have hstep :
      s.coll.manager = some
          { s.coll with detectionModules := [DetectMod.first], pc := .setFrom 0 } := by
    have hstart : s.coll.Started := by
      unfold Collector.Started
      rw [hm]
      decide
    rw [Collector.manager_lockMutex hpc hstart, hm]
    rfl
  have h2 : wakeup.Reachable { s with
      coll := { s.coll with detectionModules := [DetectMod.first], pc := .setFrom 0 }
      receiving := s.receiving - 1
      queued := [] } := by
    refine .step h1 (l := .lockMutex) ?_
    simp only [wakeup, LTS.ofStep, Wakeup.step, hpc, hstep, Nat.succ_pos, and_self, if_true,
      Option.map_some]
    rfl
  have h3 : wakeup.Reachable { s with
      coll := { s.coll with sbFrom := s.coll.oldest, detectionModules := [DetectMod.first], pc := .setTo 0 }
      receiving := s.receiving - 1
      queued := [] } := .step h2 (l := .manager) rfl
  exact ⟨{ s with
      coll := { s.coll with
        sbFrom := s.coll.oldest
        sbTo := s.coll.newest
        detectionModules := [DetectMod.first]
        pc := .semop 0 }
      receiving := s.receiving - 1
      queued := s.coll.files }, .step h3 (l := .manager) rfl, rfl, rfl⟩

end Rounds

/-- The first of `MAX_FILES` packets is about to be announced, as none. -/
theorem notified_wraps :
    ∃ s, wakeup.Reachable s ∧ s.coll.pc = .semop 0 ∧ s.queued.length = MAX_FILES ∧ s.count = 0 := by
  obtain ⟨s, hs, hpc, hm, hlen, hrec⟩ := Wakeup.reachable_exports MAX_FILES
  obtain ⟨s', hs', hpc', hq⟩ := Wakeup.reachable_semop hs hpc hm (hrec ▸ (by decide))
  have hn : s'.coll.Notified := by simp [Collector.Notified, hpc']
  have hcount := ((Wakeup.queued_reachable hs').notified hn).2
  rw [hq, hlen, Nat.mod_self] at hcount
  exact ⟨s', hs', hpc', hq ▸ hlen, hcount⟩

/-! ## No wake-up is lost -/

/-- Fewer than `MAX_FILES` packets are queued, and each round finds a module. -/
def Wakeup.Attended (s : Wakeup) (_ : WakeupOp) : Prop :=
  s.coll.files.length < MAX_FILES ∧ (s.coll.pc = .setFrom 0 → s.coll.detectionModules ≠ [])

instance (s : Wakeup) : DecidablePred s.Attended := fun _ => inferInstanceAs (Decidable (_ ∧ _))

/-- What the round will not delete is still to be signalled, or to be taken by `lockMutex`. -/
structure Wakeup.Woken (s : Wakeup) : Prop where
  lockMutex : s.coll.pc = .lockMutex → s.coll.files.length ≤ s.mutex + s.receiving
  notified : s.coll.Notified → s.coll.files.length ≤ s.queued.length + (s.mutex + s.receiving)
  modules : (∃ k, s.coll.pc = .wait k) ∨ s.coll.pc = .clearSink → s.coll.detectionModules ≠ []
  pop : ∀ n, s.coll.pc = .pop n → s.coll.files.length ≤ n + (s.mutex + s.receiving)

section Woken

variable {s s' : Wakeup} {op : WakeupOp}

theorem Wakeup.Woken.manager {c : Collector} (h : s.Woken) (hr : wakeup.Reachable s)
    (ha : s.Attended op)
    (hlock : s.coll.pc ≠ .lockMutex) (hto : ∀ k, s.coll.pc ≠ .setTo k) (hc : s.coll.ManagerStep c) :
    Wakeup.Woken { s with coll := c } := by
  have hn := h.notified
  cases hc with
  | lockMutex hpc hstart => exact absurd hpc hlock
  | setTo k hpc => exact absurd hpc (hto k)
  | setFrom k hpc hk =>
    exact ⟨by simp, fun hn' => hn (by simpa [Collector.Notified, hpc] using hn'), by simp, by simp⟩
  | allTold k hpc hk =>
    have hm : s.coll.detectionModules ≠ [] := by
      cases k with
      | zero => exact ha.2 hpc
      | succ k =>
        exact List.length_pos_iff.mp (Nat.zero_lt_of_lt ((Wakeup.store hr).modules k (.inl hpc)))
    have hk : 0 < k := Nat.lt_of_lt_of_le (List.length_pos_iff.mpr hm) hk
    exact ⟨by simp, fun _ => hn (by simpa [Collector.Notified, hpc] using hk), fun _ => hm, by simp⟩
  | semop k m hpc hm =>
    exact ⟨by simp, fun _ => hn (by simp [Collector.Notified, hpc]), by simp, by simp⟩
  | wait k m hpc hm hb =>
    have hm := h.modules (.inl ⟨k, hpc⟩)
    exact ⟨by simp, fun _ => hn (by simpa [Collector.Notified, hpc] using hm), fun _ => hm, by simp⟩
  | waited k hpc hm =>
    have hm := h.modules (.inl ⟨k, hpc⟩)
    exact ⟨by simp, fun _ => hn (by simpa [Collector.Notified, hpc] using hm), fun _ => hm, by simp⟩
  | terminated hpc hlt => exact ⟨by simp, fun hn => hn.elim, by simp, by simp⟩
  | clearSink hpc hle =>
    refine ⟨by simp, fun hn => hn.elim, by simp, fun n hn' => ?_⟩
    cases hn'
    have hnot := Collector.notified_of_modules hpc (h.modules (.inr hpc))
    have hq := Wakeup.queued_reachable hr
    have hcount : s.count = s.queued.length := by
      have := (hq.take_files hnot).2.1
      rw [(hq.notified hnot).2, Nat.mod_eq_of_lt (by have := ha.1; omega)]
    have := hn hnot
    show s.coll.files.length ≤ s.count + _
    rwa [hcount]
  | popped hpc =>
    refine ⟨fun _ => ?_, fun hn => hn.elim, by simp, by simp⟩
    have := h.pop 0 hpc
    rwa [Nat.zero_add] at this
  | pop n x xs hpc hfiles =>
    refine ⟨by simp, fun hn => hn.elim, by simp, fun i hi => ?_⟩
    cases hi
    have := h.pop (n + 1) hpc
    rw [hfiles, List.length_cons] at this
    show xs.length ≤ n + (s.mutex + s.receiving)
    omega

theorem Wakeup.Woken.beside {c : Collector} (h : s.Woken) (hc : s.coll.Beside c) :
    Wakeup.Woken { s with coll := c } := by
  cases hc with
  | setModule k m =>
    refine ⟨h.lockMutex, fun hn => h.notified ?_, fun hp => ?_, h.pop⟩
    · unfold Collector.Notified at hn ⊢
      cases hpc : s.coll.pc <;> simp_all
    · have := h.modules hp
      simpa using this
  | createModule hpc =>
    refine ⟨h.lockMutex, fun hn => ?_, fun hp => ?_, h.pop⟩
    · unfold Collector.Notified at hn
      simp [hpc] at hn
    · simp [hpc] at hp
  | interrupted k hpc =>
    have hm := h.modules (.inl ⟨k, hpc⟩)
    exact ⟨by simp, fun _ => h.notified (by simpa [Collector.Notified, hpc] using hm), fun _ => hm,
      by simp⟩

theorem Wakeup.Woken.step (h : s.Woken) (hr : wakeup.Reachable s) (ha : s.Attended op)
    (hs : s.step op = some s') : s'.Woken := by
  cases Wakeup.moves hs with
  | exportToSink =>
    -- the packet is to be signalled by the call that has queued it
    have hlen : s.coll.exportToSink.files.length = s.coll.files.length + 1 := List.length_append
    refine ⟨fun hpc => ?_, fun hn => ?_, h.modules, fun n hpc => ?_⟩
    · have := h.lockMutex hpc
      show s.coll.exportToSink.files.length ≤ s.mutex + (s.receiving + 1)
      omega
    · have := h.notified hn
      show s.coll.exportToSink.files.length ≤ s.queued.length + (s.mutex + (s.receiving + 1))
      omega
    · have := h.pop n hpc
      show s.coll.exportToSink.files.length ≤ n + (s.mutex + (s.receiving + 1))
      omega
  | exportFailed =>
    exact
      ⟨fun hpc => Nat.le_succ_of_le (h.lockMutex hpc), fun hn => Nat.le_succ_of_le (h.notified hn),
      h.modules, fun n hpc => Nat.le_succ_of_le (h.pop n hpc)⟩
  | newPacket hpos =>
    have hsum : s.mutex + s.receiving ≤ s.mutex + 1 + (s.receiving - 1) := by omega
    exact ⟨fun hpc => Nat.le_trans (h.lockMutex hpc) hsum,
      fun hn => Nat.le_trans (h.notified hn) (Nat.add_le_add_left hsum _), h.modules,
      fun n hpc => Nat.le_trans (h.pop n hpc) (Nat.add_le_add_left hsum _)⟩
  | lockMutex n hpc hstart hn =>
    exact ⟨by simp, fun hn => absurd hn (Nat.lt_irrefl 0), by simp, by simp⟩
  | setTo k hpc => exact ⟨by simp, fun _ => Nat.le_add_right _ _, by simp, by simp⟩
  | manager c hlock hto hc => exact h.manager hr ha hlock hto (Collector.manager_cases hc)
  | beside op c hc hb => exact h.beside hb

theorem Wakeup.woken_reachable (h : (wakeup.restrict Wakeup.Attended).Reachable s) : s.Woken := by
  induction h with
  | init h0 =>
    cases h0
    exact ⟨fun _ => Nat.le_refl 0, fun hn => hn.elim, by simp [Wakeup.init, Collector.init],
      by simp [Wakeup.init, Collector.init]⟩
  | step hr hs ih => exact ih.step hr.of_restrict hs.2 hs.1

end Woken

/-- Where each round finds a module, the manager sleeps only when every packet has been
through a round, or its own call is about to wake the manager. -/
theorem blocked_empty {s : Wakeup} (h : (wakeup.restrict Wakeup.Attended).Reachable s)
    (hpc : s.coll.pc = .lockMutex) (hmutex : s.mutex = 0) (hreceiving : s.receiving = 0) :
    s.coll.files = [] := by
  have hle := (Wakeup.woken_reachable h).lockMutex hpc
  rw [hmutex, hreceiving] at hle
  exact List.eq_nil_of_length_eq_zero (Nat.le_zero.mp hle)

/-- The batch, and two more rounds for the wake-ups that are left over. -/
theorem blocked_empty_batch :
    ∃ s, (wakeup.restrict Wakeup.Attended).Reachable s ∧ s.coll.popped = [0, 1, 2] ∧ s.mutex = 0 ∧
      s.coll.files = [] := by
  let idle : List WakeupOp := .lockMutex :: List.replicate 4 .manager ++
    List.replicate 4 (.other (.work 0)) ++ List.replicate 4 .manager
  let s := (LTS.exec Wakeup.Attended Wakeup.step .init
    (batch ++ List.replicate 7 .manager ++ idle ++ idle)).get (by decide)
  have hreach : (wakeup.restrict Wakeup.Attended).Reachable s :=
    Wakeup.reachable_exec (Option.some_get _).symm
  exact ⟨s, hreach, by decide, by decide, blocked_empty hreach (by decide) (by decide) (by decide)⟩

end Topas
