import Topas.L5Collector.Rounds

/-!
# Killing slow modules

`Manager::run` sets an alarm for the time of a round, and its handler stops every module whose
`busy` flag is set. `notify` sets the flag behind its `semop`, and `wait` clears it behind a
`semtimedop` that was successful; both are steps of their own here, as is each module that the
handler comes to.

* `alarm_spares`: the handler leaves a module alone that has finished its import, if the manager
  has waited for it already; before, it stops it.
* `alarm_kills_finished`: a module that was fast is killed while the manager waits for a slow one.
-/
namespace Topas

/-- `busy`, which a restart does not clear, and whether the module was notified in this round over
the semaphore that it has now (a ghost).
mirrors collector/detectmod.h:142-155 -/
structure BusyFlag where
  busy : Bool
  told : Bool
  deriving DecidableEq, Repr

/-- The collector, the flags of its modules, the flag that the manager is about to set to a value,
and the module that the handler comes to next. -/
structure Watch where
  collector : Collector
  flags : List BusyFlag
  setting : Option (Nat × Bool)
  killing : Option Nat
  deriving DecidableEq, Repr

inductive WatchOp where
  | collector (op : CollectorOp)
  | setBusyState
  | sigAlarm
  | findAndKillSlowModule
  deriving DecidableEq, Repr

/-- mirrors collector/detectmod.cpp:118-125 -/
def DetectMod.stopModule (m : DetectMod) : DetectMod :=
    { m with state := .Crashed, semaphore := none }

/-- The semaphore of a module that the manager waits for is 0. -/
def DetectMod.Idle (m : DetectMod) : Prop := m.state = .Running ∧ m.semaphore = some 0

instance (m : DetectMod) : Decidable m.Idle :=
  inferInstanceAs (Decidable (m.state = .Running ∧ m.semaphore = some 0))

namespace Watch

def init : Watch := ⟨.init, [], none, none⟩

/-- What a step of the collector does to the flags.
mirrors collector/modulecontainer.cpp:117-127, 86-92 -/
def flagsAfter (s : Watch) : CollectorOp → List BusyFlag
  | .manager =>
    match s.collector.pc with
    | .lockMutex =>
      ((s.collector.detectionModules.zip s.flags).filter (·.1.state ≠ .Remove)).map
        fun p => { p.2 with told := false }
    | .semop k => s.flags.modify k ({ · with told := true })
    | _ => s.flags
  | .run k j =>
    if (s.collector.detectionModules[k]?.bind (·.runs[j]?)).map RunCall.pc = some .semget then
      s.flags.modify k ({ · with told := false })
    else s.flags
  | .createModule => s.flags ++ [⟨false, false⟩]
  | _ => s.flags

/-- What the manager's step has it set next.
mirrors collector/detectmodexporter.cpp:104-109, 131-146 -/
def settingAfter (s : Watch) : CollectorOp → Option (Nat × Bool)
  | .manager =>
    match s.collector.pc with
    | .semop k => some (k, true)
    | .wait k =>
      match s.collector.detectionModules[k]? with
      | some m => if m.Idle then some (k, false) else none
      | none => none
    | _ => none
  | _ => s.setting

/-- Where the manager has a flag to set, it does nothing else.
mirrors collector/modulecontainer.cpp:144-152, collector/detectmodexporter.cpp:93-151 -/
def step (s : Watch) : WatchOp → Option Watch
  | .collector op =>
    if (op = .manager ∨ op = .managerInterrupted) ∧ s.setting ≠ none then none
    else (s.collector.step op).map fun c =>
      { s with collector := c, flags := s.flagsAfter op, setting := s.settingAfter op }
  | .setBusyState =>
    s.setting.map fun p =>
      { s with flags := s.flags.modify p.1 ({ · with busy := p.2 }), setting := none }
  | .sigAlarm => if s.killing = none then some { s with killing := some 0 } else none
  | .findAndKillSlowModule => do
    let k ← s.killing
    match s.collector.detectionModules[k]?, s.flags[k]? with
    | some m, some f =>
      if f.busy then
        some { s with
          collector :=
            { s.collector with detectionModules := s.collector.detectionModules.set k m.stopModule }
          killing := some (k + 1) }
      else some { s with killing := some (k + 1) }
    | _, _ => some { s with killing := none }

/-- Module `i` was notified in this round and has decremented its semaphore to 0. -/
def Finished (s : Watch) (i : Nat) : Prop :=
  (∃ f ∈ s.flags[i]?, f.told = true) ∧ ∃ m ∈ s.collector.detectionModules[i]?, m.semaphore = some 0

end Watch

/-- The manager has notified module `i` in this round and not come past its `wait` yet. -/
def ManagerPc.Awaits (setting : Option (Nat × Bool)) (i : Nat) : ManagerPc → Prop
  | .setFrom k => i < k
  | .setTo k => i < k
  | .semop k => i < k
  | .wait k => k ≤ i ∨ setting = some (i, false)
  | _ => False

namespace Watch

def Awaited (s : Watch) (i : Nat) : Prop := s.collector.pc.Awaits s.setting i

/-- Module `i` was notified in this round, and has finished or is being started. -/
def Ahead (s : Watch) (i : Nat) : Prop :=
  (∃ f ∈ s.flags[i]?, f.told = true) ∧
    ∃ m ∈ s.collector.detectionModules[i]?, m.semaphore = some 0 ∨ m.runs ≠ []

/-- The handler comes to no finished module before the manager has waited for it; the manager's wait
is not interrupted; and a module that was notified and has finished, or is being started, is running
when it is waited for. -/
def Orderly (s : Watch) : WatchOp → Prop
  | .findAndKillSlowModule => ∀ k ∈ s.killing, s.Finished k → ¬ s.Awaited k
  | .collector .managerInterrupted => False
  | .collector .manager =>
    match s.collector.pc with
    | .wait k => s.Ahead k → ∀ m ∈ s.collector.detectionModules[k]?, m.state = .Running
    | _ => True
  | _ => True

instance (s : Watch) (i : Nat) : Decidable (s.Finished i) := by unfold Finished; infer_instance

instance (s : Watch) (i : Nat) : Decidable (s.Ahead i) := by unfold Ahead; infer_instance

instance (s : Watch) (i : Nat) : Decidable (s.Awaited i) := by
  unfold Awaited; cases s.collector.pc <;> unfold ManagerPc.Awaits <;> infer_instance

instance (s : Watch) : DecidablePred s.Orderly
  | .findAndKillSlowModule => by unfold Orderly; infer_instance
  | .setBusyState => .isTrue trivial
  | .sigAlarm => .isTrue trivial
  | .collector .managerInterrupted => .isFalse id
  | .collector .manager => by unfold Orderly; cases s.collector.pc <;> infer_instance
  | .collector .exportToSink | .collector (.work _) | .collector
    (.workInterrupted _) | .collector (.die _)
  | .collector (.stopModule _) | .collector (.sigChild _ _) | .collector (.restartCrashed _)
  | .collector (.run _ _) | .collector .createModule => .isTrue trivial

/-- The handler's next step stops no module that has finished. -/
def Spares (s : Watch) : Prop :=
  ∀ s', s.step .findAndKillSlowModule = some s' → ∀ i, s.Finished i →
    s'.collector.detectionModules[i]? = s.collector.detectionModules[i]?

end Watch

def watch : LTS Watch WatchOp := .ofStep (· = Watch.init) Watch.step

/-! ## What a step does -/

namespace Watch

section Steps

variable {s s' : Watch} {op : CollectorOp}

theorem collector_cases (h : s.step (.collector op) = some s') :
    (op = .manager ∨ op = .managerInterrupted → s.setting = none) ∧
      ∃ c, s.collector.step op = some c ∧
        s' = { s with collector := c, flags := s.flagsAfter op, setting := s.settingAfter op } := by
  unfold step at h
  simp only at h
  split at h
  · cases h
  · rename_i hset
    obtain ⟨c, hc, h⟩ := Option.map_eq_some_iff.mp h
    refine ⟨fun hop => ?_, c, hc, h.symm⟩
    exact Classical.byContradiction fun hs => hset ⟨hop, hs⟩

theorem setBusyState_cases (h : s.step .setBusyState = some s') :
    ∃ k b, s.setting = some (k, b) ∧
      s' = { s with flags := s.flags.modify k ({ · with busy := b }), setting := none } := by
  obtain ⟨p, hp, h⟩ := Option.map_eq_some_iff.mp h
  exact ⟨p.1, p.2, hp, h.symm⟩

/-- The handler stops a module that is flagged as busy, or changes no module. -/
theorem findAndKill_cases (h : s.step .findAndKillSlowModule = some s') :
    (∃ k m f, s.killing = some k ∧ s.collector.detectionModules[k]? = some m ∧
      s.flags[k]? = some f ∧
      f.busy = true ∧ s' = { s with
        collector := { s.collector with
          detectionModules := s.collector.detectionModules.set k m.stopModule }
        killing := some (k + 1) }) ∨
      ∃ killing, s' = { s with killing := killing } := by
  obtain ⟨k, hk, h⟩ := Option.bind_eq_some_iff.mp h
  split at h
  · rename_i m f hm hf
    split at h
    · cases h
      exact .inl ⟨k, m, f, hk, hm, hf, ‹_›, rfl⟩
    · cases h
      exact .inr ⟨_, rfl⟩
  · cases h
    exact .inr ⟨_, rfl⟩

end Steps

/-- Without the flags, these are steps of the collector. -/
theorem reachable_collector {s : Watch} (h : watch.Reachable s) :
    Topas.collector.Reachable s.collector := by
  refine LTS.Inductive.reachable (I := fun s => Topas.collector.Reachable s.collector) ⟨?_, ?_⟩ s h
  · rintro s rfl
    exact .init rfl
  · intro s op s' hr hs
    cases op with
    | collector op =>
      obtain ⟨-, c, hc, rfl⟩ := collector_cases hs
      exact .step (l := op) hr hc
    | setBusyState =>
      obtain ⟨k, b, -, rfl⟩ := setBusyState_cases hs
      exact hr
    | sigAlarm =>
      unfold watch LTS.ofStep step at hs
      simp only at hs
      split at hs
      · cases hs
        exact hr
      · cases hs
    | findAndKillSlowModule =>
      rcases findAndKill_cases hs with ⟨k, m, f, -, hm, -, -, rfl⟩ | ⟨killing, rfl⟩
      · refine .step (l := .stopModule k) hr ?_
        show s.collector.onModule k _ = _
        unfold Collector.onModule
        rw [hm]
        rfl
      · exact hr

end Watch

/-! ## The invariant -/

/-- The semaphore that a module has now will not become 0 in this round. -/
def DetectMod.Out (m : DetectMod) : Prop :=
  m.semaphore = none ∨ (m.pc = .dead ∧ m.semaphore ≠ some 0 ∧ ∀ r ∈ m.runs, r.pc ≠ .fork)

/-- A module that is not running has lost its semaphore or its process, or is being started. -/
def DetectMod.Sound (m : DetectMod) : Prop :=
  m.state ≠ .Running → m.semaphore = none ∨ m.pc = .dead ∨ m.runs ≠ []

/-- A step of a module within a round. -/
structure DetectMod.Stays (m m' : DetectMod) : Prop where
  sound : m.Sound → m'.Sound
  out : m.Out → m'.Out

section Modules

variable {m m' : DetectMod} {f t : FileCounter} {packet : FileCounter → Option Nat}

/-- A worker thread that took a step was not dead, is not dead, and its semaphore was not removed
by it. -/
theorem DetectMod.work_alive (h : m.work f t packet = some m') :
    m.pc ≠ .dead ∧ (m.semaphore = none → m'.semaphore = none) := by
  unfold DetectMod.work at h
  repeat' split at h
  all_goals cases h
  all_goals simp_all

theorem DetectMod.workInterrupted_alive (h : m.workInterrupted = some m') :
    m.pc ≠ .dead ∧ (m.semaphore = none → m'.semaphore = none) := by
  unfold DetectMod.workInterrupted at h
  split at h
  all_goals cases h
  all_goals simp_all

theorem DetectMod.Stays.of_alive (halive : m.pc ≠ .dead)
    (hsem : m.semaphore = none → m'.semaphore = none) (hstate : m'.state = m.state)
    (hruns : m'.runs = m.runs) : m.Stays m' := by
  refine ⟨fun h hrun => ?_, fun h => ?_⟩
  · rcases h (hstate ▸ hrun) with hnone | hdead | hne
    · exact .inl (hsem hnone)
    · exact absurd hdead halive
    · exact .inr (.inr (hruns ▸ hne))
  · exact .inl (hsem (h.resolve_right fun hd => halive hd.1))

theorem DetectMod.Stays.stop : m.Stays m.stopModule := ⟨fun _ _ => .inl rfl, fun _ => .inl rfl⟩

theorem DetectMod.Stays.die : m.Stays { m with pc := .dead } := by
  refine ⟨fun _ _ => .inr (.inl rfl), fun h => ?_⟩
  rcases h with h | h
  · exact .inl h
  · exact .inr ⟨rfl, h.2⟩

theorem DetectMod.Stays.setState (hdead : m.pc = .dead) (state : ModState) :
    m.Stays { m with state := state } :=
  ⟨fun _ _ => .inr (.inl hdead), fun h => h⟩

theorem DetectMod.Stays.restartCrashed (h : m.restartCrashed = some m') : m.Stays m' := by
  unfold DetectMod.restartCrashed at h
  split at h
  · cases h
    exact ⟨fun _ _ => .inl rfl, fun _ => .inl rfl⟩
  · cases h

/-- A call of `run` that has created the semaphore takes its next step. -/
theorem DetectMod.Stays.run {n j : Nat} {r : RunCall} (hr : m.runs[j]? = some r)
    (hpc : r.pc ≠ .semget) (h : m.run n j = some m') : m.Stays m' := by
  obtain ⟨r', hr', h⟩ := Option.bind_eq_some_iff.mp h
  obtain rfl := Option.some.inj (hr.symm.trans hr')
  have hmem := List.mem_of_getElem? hr
  have hlt := (List.getElem?_eq_some_iff.mp hr).1
  split at h
  · rename_i hsemget
    exact absurd hsemget hpc
  · rename_i hfork
    cases h
    refine ⟨fun _ _ => .inr (.inr ?_), fun hout => ?_⟩
    · exact List.ne_nil_of_length_pos (by simpa using Nat.zero_lt_of_lt hlt)
    · exact hout.imp_right fun hd => absurd hfork (hd.2.2 r hmem)
  · cases h
    refine ⟨fun _ hne => absurd rfl hne, fun hout => hout.imp_right fun hd => ⟨hd.1, hd.2.1, ?_⟩⟩
    exact fun r' hr' => hd.2.2 r' (List.mem_of_mem_eraseIdx hr')

theorem DetectMod.Sound.post (h : m.Sound) (counters : FileCounter × FileCounter) :
    (m.post counters).Sound := by
  intro hrun
  rw [DetectMod.post_state] at hrun
  have hsound := h hrun
  unfold DetectMod.post
  split
  · exact hsound
  · rename_i n hsem
    exact .inr (hsound.resolve_left (by rw [hsem]; simp))

/-- A module that the manager comes past without seeing its semaphore at 0. -/
theorem DetectMod.out_of_passed (hs : m.Sound) (hb : ¬ m.Blocks) (hi : ¬ m.Idle)
    (hrun : m.semaphore = some 0 ∨ m.runs ≠ [] → m.state = .Running) : m.Out := by
  by_cases hnone : m.semaphore = none
  · exact .inl hnone
  · have hzero : m.semaphore ≠ some 0 := fun hz => hi ⟨hrun (.inl hz), hz⟩
    have hstate : m.state ≠ .Running := fun hst => hb ⟨hst, hnone, hzero⟩
    have hruns : m.runs = [] := Classical.byContradiction fun hne => hstate (hrun (.inr hne))
    have hdead := ((hs hstate).resolve_left hnone).resolve_right fun hne => hne hruns
    exact .inr ⟨hdead, hzero, fun r hr => absurd (hruns ▸ hr) List.not_mem_nil⟩

end Modules

/-- The manager has not notified module `i` yet. -/
def ManagerPc.Before (i : Nat) : ManagerPc → Prop
  | .setFrom k => k ≤ i
  | .setTo k => k ≤ i
  | .semop k => k ≤ i
  | _ => False

/-- What is known of module `i`. -/
structure Watched (pc : ManagerPc) (setting : Option (Nat × Bool)) (i : Nat) (f : BusyFlag)
    (m : DetectMod) : Prop where
  before : f.told = true → ¬ pc.Before i
  flagged : pc.Awaits setting i → setting ≠ some (i, true) → f.busy = true
  passed : f.told = true → ¬ pc.Awaits setting i → f.busy = false ∨ m.Out

theorem Watched.stays {pc : ManagerPc} {setting : Option (Nat × Bool)} {i : Nat} {f : BusyFlag}
    {m m' : DetectMod} (h : Watched pc setting i f m) (hst : m.Stays m') :
      Watched pc setting i f m' :=
  ⟨h.before, h.flagged, fun ht hw => (h.passed ht hw).imp_right hst.out⟩

/-- A module whose process was not notified in this round. -/
theorem Watched.untold {pc : ManagerPc} {setting : Option (Nat × Bool)} {i : Nat} {f : BusyFlag}
    {m : DetectMod} (ht : f.told = false)
    (hf : pc.Awaits setting i → setting ≠ some (i, true) → f.busy = true) :
    Watched pc setting i f m :=
  ⟨fun h => absurd (ht.symm.trans h) (by decide), hf, fun h => absurd (ht.symm.trans h) (by decide)⟩

namespace Watch

structure Inv (s : Watch) : Prop where
  length : s.flags.length = s.collector.detectionModules.length
  setting : ∀ k b, s.setting = some (k, b) →
    s.collector.pc = if b then .setFrom (k + 1) else .wait (k + 1)
  sound : ∀ m ∈ s.collector.detectionModules, m.Sound
  watched : ∀ i f m, s.flags[i]? = some f → s.collector.detectionModules[i]? = some m →
    Watched s.collector.pc s.setting i f m

section Steps

variable {s s' : Watch} {c : Collector} {k : Nat} {m m' : DetectMod}

/-- A module takes a step within a round. -/
theorem Inv.set (h : s.Inv) (hm : s.collector.detectionModules[k]? = some m) (hst : m.Stays m') :
    Inv { s with
      collector :=
        { s.collector with detectionModules := s.collector.detectionModules.set k m' } } := by
  refine ⟨?_, h.setting, fun n hn => ?_, fun i f n hf hn => ?_⟩
  · show s.flags.length = (s.collector.detectionModules.set k m').length
    rw [List.length_set, h.length]
  · rcases List.mem_or_eq_of_mem_set hn with hn | rfl
    · exact h.sound n hn
    · exact hst.sound (h.sound m (List.mem_of_getElem? hm))
  · replace hn : (s.collector.detectionModules.set k m')[i]? = some n := hn
    rw [List.getElem?_set] at hn
    split at hn
    · rename_i hik
      subst hik
      split at hn
      · cases hn
        exact (h.watched k f m hf hm).stays hst
      · cases hn
    · exact h.watched i f n hf hn

/-- The manager moves on, and changes no module and no flag. -/
theorem Inv.goto (h : s.Inv) {setting : Option (Nat × Bool)}
    (hmods : c.detectionModules = s.collector.detectionModules)
    (hset : ∀ k b, setting = some (k, b) → c.pc = if b then .setFrom (k + 1) else .wait (k + 1))
    (hw : ∀ i f m, i < s.collector.detectionModules.length → s.flags[i]? = some f →
      s.collector.detectionModules[i]? = some m → Watched s.collector.pc s.setting i f m →
      Watched c.pc setting i f m) :
    Inv { s with collector := c, setting := setting } := by
  refine ⟨?_, hset, fun n hn => ?_, fun i f n hf hn => ?_⟩
  · show s.flags.length = c.detectionModules.length
    rw [hmods, h.length]
  · have hn : n ∈ c.detectionModules := hn
    exact h.sound n (hmods ▸ hn)
  · have hn : c.detectionModules[i]? = some n := hn
    rw [hmods] at hn
    exact hw i f n (List.getElem?_eq_some_iff.mp hn).1 hf hn (h.watched i f n hf hn)

/-- `Inv.goto` with no flag to set. -/
theorem Inv.quiet (h : s.Inv) (hnone : s.setting = none)
    (hmods : c.detectionModules = s.collector.detectionModules)
    (hw : ∀ i f m, i < s.collector.detectionModules.length → Watched s.collector.pc none i f m →
      Watched c.pc none i f m) : Inv { s with collector := c, setting := none } := by
  refine h.goto hmods (fun _ _ h => nomatch h) fun i f m hi _ _ h => ?_
  rw [hnone] at h
  exact hw i f m hi h

theorem Inv.lockMutex (h : s.Inv) :
    Inv { s with
      collector := { s.collector with
        detectionModules := s.collector.detectionModules.filter (·.state ≠ .Remove)
        pc := .setFrom 0 }
      flags := ((s.collector.detectionModules.zip s.flags).filter (·.1.state ≠ .Remove)).map
        fun p => { p.2 with told := false }
      setting := none } := by
  refine ⟨?_, (fun _ _ h => nomatch h), fun n hn => h.sound n (List.mem_filter.mp hn).1,
    fun i f n hf _ => ?_⟩
  · have hfst :
        (s.collector.detectionModules.zip s.flags).map Prod.fst = s.collector.detectionModules :=
      List.map_fst_zip (Nat.le_of_eq h.length.symm)
    have hfilter := List.filter_map (f := Prod.fst) (p := fun m : DetectMod => m.state ≠ .Remove)
      (l := s.collector.detectionModules.zip s.flags)
    rw [hfst] at hfilter
    show (List.map _ _).length = (List.filter _ _).length
    rw [hfilter, List.length_map, List.length_map]
    rfl
  · obtain ⟨p, -, rfl⟩ := List.mem_map.mp (List.mem_of_getElem? hf)
    exact .untold rfl fun hw => absurd hw (Nat.not_lt_zero i)

/-- Module `k` is notified. -/
theorem Inv.semop (h : s.Inv) (hnone : s.setting = none) (hpc : s.collector.pc = .semop k)
    (hm : s.collector.detectionModules[k]? = some m) (counters : FileCounter × FileCounter) :
    Inv { s with
      collector := { s.collector with
        detectionModules := s.collector.detectionModules.set k (m.post counters)
        pc := .setFrom (k + 1) }
      flags := s.flags.modify k ({ · with told := true })
      setting := some (k, true) } := by
  refine ⟨?_, ?_, fun n hn => ?_, fun i f n hf hn => ?_⟩
  · show (s.flags.modify k _).length = (s.collector.detectionModules.set k _).length
    rw [List.length_modify, List.length_set, h.length]
  · rintro k' b hset
    cases hset
    rfl
  · rcases List.mem_or_eq_of_mem_set hn with hn | rfl
    · exact h.sound n hn
    · exact (h.sound m (List.mem_of_getElem? hm)).post counters
  · replace hf : (s.flags.modify k ({ · with told := true }))[i]? = some f := hf
    replace hn : (s.collector.detectionModules.set k (m.post counters))[i]? = some n := hn
    by_cases hik : i = k
    · subst hik
      refine ⟨fun _ hb => Nat.not_succ_le_self i hb, fun _ hset => absurd rfl hset, fun _ hw => ?_⟩
      exact absurd (Nat.lt_succ_self i) hw
    · rw [List.getElem?_modify_ne _ _ (Ne.symm hik)] at hf
      rw [List.getElem?_set_ne (Ne.symm hik)] at hn
      have hw := h.watched i f n hf hn
      rw [hpc, hnone] at hw
      refine ⟨fun ht hb => hw.before ht (Nat.le_of_succ_le hb), fun ha _ => ?_, fun ht ha => ?_⟩
      · refine hw.flagged ?_ (fun h => nomatch h)
        have ha : i < k + 1 := ha
        show i < k
        omega
      · exact hw.passed ht fun hlt => ha (Nat.lt_succ_of_lt hlt)

/-- The manager comes past module `k`. -/
theorem Inv.wait (h : s.Inv) (hnone : s.setting = none) (hG : s.Orderly (.collector .manager))
    (hpc : s.collector.pc = .wait k) (hm : s.collector.detectionModules[k]? = some m)
    (hb : ¬ m.Blocks) :
    Inv { s with
      collector := { s.collector with pc := .wait (k + 1) }
      setting := if m.Idle then some (k, false) else none } := by
  refine h.goto ?_ (fun k' b hset => ?_) fun i f n hi hf hn hw => ?_
  · rfl
  · split at hset
    · cases hset
      rfl
    · cases hset
  · rw [hpc, hnone] at hw
    refine ⟨fun _ hb => hb, fun ha hset => ?_, fun ht ha => ?_⟩
    · refine hw.flagged (.inl ?_) (fun h => nomatch h)
      rcases ha with hle | hset
      · exact Nat.le_of_succ_le hle
      · split at hset
        · cases hset
          exact Nat.le_refl _
        · cases hset
    · by_cases hik : i = k
      · subst hik
        rw [hm, Option.some.injEq] at hn
        subst hn
        have hidle : ¬ m.Idle := fun hi => ha (.inr (by rw [if_pos hi]))
        refine .inr (DetectMod.out_of_passed (h.sound m (List.mem_of_getElem? hm)) hb hidle fun hahead => ?_)
        have hG : s.Ahead i → ∀ m ∈ s.collector.detectionModules[i]?, m.state = .Running := by
          simpa only [Orderly, hpc] using hG
        exact hG ⟨⟨f, hf, ht⟩, m, hm, hahead⟩ m hm
      · refine hw.passed ht ?_
        rintro (hle | hset)
        · exact ha (.inl (by omega))
        · cases hset

/-- The manager's next step, in an orderly run. -/
theorem Inv.manager (h : s.Inv) (hnone : s.setting = none) (hG : s.Orderly (.collector .manager))
    (hs : s.collector.manager = some c) :
    Inv { s with collector := c, flags := s.flagsAfter .manager, setting := s.settingAfter .manager } := by
  cases Collector.manager_cases hs with
  | lockMutex hpc hstart =>
    simp only [flagsAfter, settingAfter, hpc]
    exact h.lockMutex
  | setFrom k hpc hk =>
    simp only [flagsAfter, settingAfter, hpc]
    refine h.quiet hnone ?_ fun i f m _ hw => ?_
    · rfl
    · rw [hpc] at hw
      exact ⟨hw.before, hw.flagged, hw.passed⟩
  | allTold k hpc hk =>
    simp only [flagsAfter, settingAfter, hpc]
    refine h.quiet hnone ?_ fun i f m hi hw => ?_
    · rfl
    · rw [hpc] at hw
      refine
        ⟨fun _ hb => hb, fun _ hset => hw.flagged (Nat.lt_of_lt_of_le hi hk) hset, fun _ hn => ?_⟩
      exact absurd (Or.inl (Nat.zero_le i)) hn
  | setTo k hpc =>
    simp only [flagsAfter, settingAfter, hpc]
    refine h.quiet hnone ?_ fun i f m _ hw => ?_
    · rfl
    · rw [hpc] at hw
      exact ⟨hw.before, hw.flagged, hw.passed⟩
  | semop k m hpc hm =>
    simp only [flagsAfter, settingAfter, hpc]
    exact h.semop hnone hpc hm _
  | wait k m hpc hm hb =>
    simp only [flagsAfter, settingAfter, hpc, hm]
    exact h.wait hnone hG hpc hm hb
  | waited k hpc hm =>
    simp only [flagsAfter, settingAfter, hpc, hm]
    refine h.quiet hnone ?_ fun i f m hi hw => ?_
    · rfl
    · rw [hpc] at hw
      refine ⟨fun _ hb => hb, fun hn => hn.elim, fun ht _ => hw.passed ht ?_⟩
      have hlen := List.getElem?_eq_none_iff.mp hm
      rintro (hle | hset)
      · omega
      · cases hset
  | terminated hpc hlt =>
    simp only [flagsAfter, settingAfter, hpc]
    refine h.quiet hnone ?_ fun i f m _ hw => ?_
    · rfl
    · rw [hpc] at hw
      exact ⟨hw.before, hw.flagged, hw.passed⟩
  | clearSink hpc hle =>
    simp only [flagsAfter, settingAfter, hpc]
    refine h.quiet hnone ?_ fun i f m _ hw => ?_
    · rfl
    · rw [hpc] at hw
      exact ⟨hw.before, hw.flagged, hw.passed⟩
  | popped hpc =>
    simp only [flagsAfter, settingAfter, hpc]
    refine h.quiet hnone ?_ fun i f m _ hw => ?_
    · rfl
    · rw [hpc] at hw
      exact ⟨hw.before, hw.flagged, hw.passed⟩
  | pop n x xs hpc hfiles =>
    simp only [flagsAfter, settingAfter, hpc]
    refine h.quiet hnone ?_ fun i f m _ hw => ?_
    · rfl
    · rw [hpc] at hw
      exact ⟨hw.before, hw.flagged, hw.passed⟩

/-- Module `k` gets a new semaphore; its flag is not cleared. -/
theorem Inv.semget (h : s.Inv) (hsound : m'.Sound) :
    Inv { s with
      collector := { s.collector with detectionModules := s.collector.detectionModules.set k m' }
      flags := s.flags.modify k ({ · with told := false }) } := by
  refine ⟨?_, h.setting, fun m hm => ?_, fun i f m hf hm => ?_⟩
  · show (s.flags.modify k _).length = (s.collector.detectionModules.set k _).length
    rw [List.length_modify, List.length_set, h.length]
  · rcases List.mem_or_eq_of_mem_set hm with hm | rfl
    · exact h.sound m hm
    · exact hsound
  · replace hf : (s.flags.modify k ({ · with told := false }))[i]? = some f := hf
    replace hm : (s.collector.detectionModules.set k m')[i]? = some m := hm
    by_cases hik : i = k
    · subst hik
      rw [List.getElem?_modify_eq] at hf
      obtain ⟨g, hg, rfl⟩ := Option.map_eq_some_iff.mp hf
      have hlt : i < s.collector.detectionModules.length := by
        rw [← h.length]
        exact (List.getElem?_eq_some_iff.mp hg).1
      exact .untold rfl (h.watched i g _ hg (List.getElem?_eq_getElem hlt)).flagged
    · rw [List.getElem?_modify_ne _ _ (Ne.symm hik)] at hf
      rw [List.getElem?_set_ne (Ne.symm hik)] at hm
      exact h.watched i f m hf hm

/-- A call of `run` takes a step. -/
theorem Inv.run {j n : Nat} (h : s.Inv) (hm : s.collector.detectionModules[k]? = some m)
    (hw : m.run n j = some m') :
    Inv { s with
      collector := { s.collector with detectionModules := s.collector.detectionModules.set k m' }
      flags := s.flagsAfter (.run k j) } := by
  obtain ⟨r, hr, hstep⟩ := Option.bind_eq_some_iff.mp (id hw)
  have hlt := (List.getElem?_eq_some_iff.mp hr).1
  by_cases hpc : r.pc = .semget
  · have hflags : s.flagsAfter (.run k j) = s.flags.modify k ({ · with told := false }) :=
      if_pos (by rw [hm, Option.bind_some, hr, Option.map_some, hpc])
    rw [hflags]
    refine h.semget fun _ => .inr (.inr ?_)
    simp only [hpc] at hstep
    cases hstep
    exact List.ne_nil_of_length_pos (by simpa using Nat.zero_lt_of_lt hlt)
  · have hflags : s.flagsAfter (.run k j) = s.flags :=
      if_neg (by rw [hm, Option.bind_some, hr, Option.map_some]; exact fun heq => hpc (Option.some.inj heq))
    rw [hflags]
    exact h.set hm (.run hr hpc hw)

theorem Inv.createModule (h : s.Inv) (hpc : s.collector.pc = .lockMutex) :
    Inv { s with
      collector := { s.collector with
        detectionModules := s.collector.detectionModules ++ [DetectMod.create] }
      flags := s.flags ++ [⟨false, false⟩] } := by
  refine ⟨?_, h.setting, fun m hm => ?_, fun i f m hf hm => ?_⟩
  · show (s.flags ++ [_]).length = (s.collector.detectionModules ++ [_]).length
    rw [List.length_append, List.length_append, h.length]
    rfl
  · rcases List.mem_append.mp hm with hm | hm
    · exact h.sound m hm
    · rw [List.mem_singleton.mp hm]
      exact fun _ => .inl rfl
  · replace hf : (s.flags ++ [⟨false, false⟩])[i]? = some f := hf
    replace hm : (s.collector.detectionModules ++ [DetectMod.create])[i]? = some m := hm
    by_cases hi : i < s.flags.length
    · rw [List.getElem?_append_left hi] at hf
      rw [List.getElem?_append_left (h.length ▸ hi)] at hm
      exact h.watched i f m hf hm
    · rw [List.getElem?_append_right (Nat.le_of_not_lt hi)] at hf
      have hmem := List.mem_of_getElem? hf
      rw [List.mem_singleton.mp hmem]
      refine .untold rfl fun ha => ?_
      replace ha : s.collector.pc.Awaits s.setting i := ha
      rw [hpc] at ha
      exact ha.elim

theorem Inv.setBusyState (h : s.Inv) {b : Bool} (hset : s.setting = some (k, b)) :
    Inv { s with flags := s.flags.modify k ({ · with busy := b }), setting := none } := by
  have hpc := h.setting k b hset
  refine ⟨?_, (fun _ _ h => nomatch h), h.sound, fun i f m hf hm => ?_⟩
  · show (s.flags.modify k _).length = _
    rw [List.length_modify, h.length]
  · replace hf : (s.flags.modify k ({ · with busy := b }))[i]? = some f := hf
    show Watched s.collector.pc none i f m
    by_cases hik : i = k
    · subst hik
      rw [List.getElem?_modify_eq] at hf
      obtain ⟨g, hg, rfl⟩ := Option.map_eq_some_iff.mp hf
      have hw := h.watched i g m hg hm
      rw [hpc, hset] at hw
      rw [hpc]
      cases b with
      | true =>
        refine ⟨hw.before, fun _ _ => rfl, fun _ ha => ?_⟩
        exact absurd (Nat.lt_succ_self i) ha
      | false =>
        refine ⟨hw.before, fun ha _ => ?_, fun _ _ => .inl rfl⟩
        rcases ha with ha | ha
        · exact absurd ha (Nat.not_succ_le_self i)
        · cases ha
    · rw [List.getElem?_modify_ne _ _ (Ne.symm hik)] at hf
      have hw := h.watched i f m hf hm
      rw [hset] at hw
      have hawait : s.collector.pc.Awaits none i ↔ s.collector.pc.Awaits (some (k, b)) i := by
        rw [hpc]
        cases b with
        | true => rfl
        | false => simp [ManagerPc.Awaits, Ne.symm hik]
      refine ⟨hw.before, fun ha _ => hw.flagged (hawait.mp ha) ?_, fun ht ha => hw.passed ht fun h => ha (hawait.mpr h)⟩
      simp [Ne.symm hik]

/-- Every step of an orderly run keeps the invariant. -/
theorem Inv.step {op : WatchOp} (h : s.Inv) (hG : s.Orderly op) (hs : s.step op = some s') : s'.Inv := by
  cases op with
  | collector op =>
    obtain ⟨hnone, c, hc, rfl⟩ := collector_cases hs
    cases op with
    | exportToSink =>
      cases hc
      exact ⟨h.length, h.setting, h.sound, h.watched⟩
    | manager => exact h.manager (hnone (.inl rfl)) hG hc
    | managerInterrupted => exact hG.elim
    | work k =>
      obtain ⟨m, m', hm, hw, rfl⟩ := Collector.onModule_cases hc
      obtain ⟨hpc, hsem⟩ := DetectMod.work_alive hw
      exact h.set hm (.of_alive hpc hsem (DetectMod.work_state hw) (DetectMod.work_runs hw))
    | workInterrupted k =>
      obtain ⟨m, m', hm, hw, rfl⟩ := Collector.onModule_cases hc
      obtain ⟨hpc, hsem⟩ := DetectMod.workInterrupted_alive hw
      exact h.set hm (.of_alive hpc hsem (DetectMod.workInterrupted_state hw)
        (DetectMod.workInterrupted_runs hw))
    | die k =>
      obtain ⟨m, m', hm, hw, rfl⟩ := Collector.onModule_cases hc
      split at hw
      · cases hw
      · cases hw
        exact h.set hm .die
    | stopModule k =>
      obtain ⟨m, m', hm, hw, rfl⟩ := Collector.onModule_cases hc
      cases hw
      exact h.set hm .stop
    | sigChild k state =>
      obtain ⟨m, m', hm, hw, rfl⟩ := Collector.onModule_cases hc
      split at hw
      · rename_i hdead
        cases hw
        exact h.set hm (.setState hdead.1 state)
      · cases hw
    | restartCrashed k =>
      obtain ⟨m, m', hm, hw, rfl⟩ := Collector.onModule_cases hc
      exact h.set hm (.restartCrashed hw)
    | run k j =>
      obtain ⟨m, m', hm, hw, rfl⟩ := Collector.onModule_cases hc
      exact h.run hm hw
    | createModule =>
      unfold Collector.step at hc
      simp only at hc
      split at hc
      · rename_i hpc
        cases hc
        exact h.createModule hpc.1
      · cases hc
  | setBusyState =>
    obtain ⟨k, b, hset, rfl⟩ := setBusyState_cases hs
    exact h.setBusyState hset
  | sigAlarm =>
    unfold Watch.step at hs
    simp only at hs
    split at hs
    · cases hs
      exact ⟨h.length, h.setting, h.sound, h.watched⟩
    · cases hs
  | findAndKillSlowModule =>
    rcases findAndKill_cases hs with ⟨k, m, f, -, hm, -, -, rfl⟩ | ⟨killing, rfl⟩
    · have := h.set hm .stop
      exact ⟨this.length, this.setting, this.sound, this.watched⟩
    · exact ⟨h.length, h.setting, h.sound, h.watched⟩

theorem inv_reachable (h : (watch.restrict Orderly).Reachable s) : s.Inv := by
  refine LTS.Inductive.reachable (I := Inv) ⟨?_, ?_⟩ s h
  · rintro s rfl
    exact ⟨rfl, (fun _ _ h => nomatch h), (fun _ hm => nomatch hm), fun _ _ _ hf => nomatch hf⟩
  · intro s op s' hinv ⟨hs, hG⟩
    exact hinv.step hG hs

/-! ## What the handler stops -/

/-- A module that has finished, and that the manager has waited for, is not flagged. -/
theorem Inv.not_busy (h : s.Inv) {f : BusyFlag} (hf : s.flags[k]? = some f) (hfin : s.Finished k)
    (ha : ¬ s.Awaited k) : f.busy = false := by
  obtain ⟨⟨g, hg, ht⟩, m, hm, hz⟩ := hfin
  have hgf : f = g := Option.some.inj (hf.symm.trans hg)
  refine ((h.watched k f m hf hm).passed (hgf ▸ ht) ha).resolve_right ?_
  rintro (hnone | hdead)
  · rw [hz] at hnone
    cases hnone
  · exact hdead.2.1 hz

/-- A module that the manager has still to wait for is flagged, except while the flag is about to be
set. -/
theorem Inv.busy (h : s.Inv) {f : BusyFlag} (hf : s.flags[k]? = some f)
    (hm : s.collector.detectionModules[k]? = some m) (ha : s.Awaited k)
    (hset : s.setting ≠ some (k, true)) :
    f.busy = true := (h.watched k f m hf hm).flagged ha hset

end Steps

/-- The round begins, and modules 0 to `n - 1` are notified and flagged. -/
def notifyAll (n : Nat) : List WatchOp :=
  .collector .manager ::
    (List.replicate n
      ([.collector .manager, .collector .manager, .collector .manager, .setBusyState])).flatten
      ++ [.collector .manager]

/-- Module `k` imports nothing, as there is no packet. -/
def finish (k : Nat) : List WatchOp := List.replicate 4 (.collector (.work k))

def twoModules : List WatchOp := (startModule 0 ++ startModule 1).map .collector ++ notifyAll 2

/-- The second module is slow. -/
def slowSecond : List WatchOp :=
  twoModules ++ finish 0 ++ [.collector .manager, .setBusyState, .sigAlarm]

/-- The first module is slow; the handler has stopped it, and comes to the second. -/
def slowFirst : List WatchOp := twoModules ++ finish 1 ++ [.sigAlarm, .findAndKillSlowModule]

end Watch

end Topas
