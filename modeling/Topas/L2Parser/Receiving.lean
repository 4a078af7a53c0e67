import Topas.L2Parser.IpfixReceiver
import Topas.L2Parser.Termination

/-!
# Runs of the receivers

What holds of a receiver along a run, and what the processors' parsers are.

* `forwards_after_stop`: after `stopIpfixReceiver` a receiver hands on one message at most, and
  none before it is started again; nothing makes it receive again.
* `processorCount_run`: a receiver knows of the processors just if one was added after the
  receiver was; otherwise it hands its messages to nobody.
* `parser_run`: the template buffer of a parser is the one after its messages, one at a time,
  whatever receivers they came from.
-/
namespace Topas

open Mem Proc

variable {σ μ τ : Type} {C : Calls σ μ τ} {s s' : IpfixCollector σ μ τ} {r : Nat}
  {rc rc' : IpfixReceiver μ τ} {op : ReceiverOp σ μ τ} {ops : List (ReceiverOp σ μ τ)}

/-! ## What a step does to a receiver -/

/-- `rc'` is receiver `r` after the step. -/
inductive IpfixReceiver.Moves (r : Nat) (rc : IpfixReceiver μ τ) :
    ReceiverOp σ μ τ → IpfixReceiver μ τ → Prop where
  | stays (op : ReceiverOp σ μ τ) : Moves r rc op rc
  | told (x : σ) (n : Nat) : Moves r rc (.addIpfixPacketProcessor x) (rc.setPacketProcessors n)
  | authorized (host : UInt32) :
      Moves r rc (.addAuthorizedHost r host) { rc with authHosts := rc.authHosts ++ [host] }
  | start {rc' : IpfixReceiver μ τ} : rc.start = some rc' → Moves r rc (.startIpfixReceiver r) rc'
  | stop {rc' : IpfixReceiver μ τ} : rc.stop = some rc' → Moves r rc (.stopIpfixReceiver r) rc'
  | setExit {rc' : IpfixReceiver μ τ} : rc.setExit = some rc' → Moves r rc (.setExit r) rc'
  | recvfrom {rc' : IpfixReceiver μ τ} {datagram : Option (UInt32 × μ)} :
      rc.recvfrom datagram = some rc' → Moves r rc (.recvfrom r datagram) rc'
  | exit : rc.pc = .exit →
      Moves r rc (.listener r) { rc with pc := if rc.exit then .ended else .recvfrom }
  | lock {data : μ} : rc.pc = .lock data → rc.mutex = none →
      Moves r rc (.listener r) { rc with
        mutex := some .listener
        forwarded := rc.forwarded ++ [(data, rc.processorCount)]
        pc := .next data 0 }
  | unlock {data : μ} : rc.pc = .next data rc.processorCount →
      Moves r rc (.listener r) { rc with mutex := none, pc := .exit }
  | forwards (op : ReceiverOp σ μ τ) {pc : ListenerPc μ τ} :
      rc.pc.forwarding = true → pc.forwarding = true → Moves r rc op { rc with pc := pc }

theorem moves_set {k : Nat} {rck rck' : IpfixReceiver μ τ} (hr : s.receivers[r]? = some rc)
    (hk : s.receivers[k]? = some rck) (hmoves : k = r → rck.Moves k op rck') :
    ∃ rc', (s.receivers.set k rck')[r]? = some rc' ∧ rc.Moves r op rc' := by
  by_cases hkr : k = r
  · subst hkr
    rw [hk] at hr
    cases hr
    exact ⟨rck', List.getElem?_set_self (List.getElem?_eq_some_iff.mp hk).1, hmoves rfl⟩
  · exact ⟨rc, by rw [List.getElem?_set_ne hkr]; exact hr, .stays op⟩

theorem moves_step (hr : s.receivers[r]? = some rc) (hs : s.step C op = some s') :
    ∃ rc', s'.receivers[r]? = some rc' ∧ rc.Moves r op rc' := by
  cases op with
  | createIpfixReceiver =>
    cases hs
    exact ⟨rc, List.getElem?_append_left (List.getElem?_eq_some_iff.mp hr).1 ▸ hr, .stays _⟩
  | addIpfixReceiver k =>
    simp only [IpfixCollector.step] at hs
    split at hs
    · cases hs
      exact ⟨rc, hr, .stays _⟩
    · cases hs
  | addAuthorizedHost k host =>
    obtain ⟨rck, rck', hk, hf, rfl⟩ := IpfixCollector.onReceiver_eq hs
    cases hf
    refine moves_set hr hk ?_
    rintro rfl
    exact .authorized host
  | addIpfixPacketProcessor x =>
    cases hs
    simp only [IpfixCollector.addIpfixPacketProcessor, List.getElem?_mapIdx, hr, Option.map_some]
    split
    · exact ⟨_, rfl, .told x _⟩
    · exact ⟨_, rfl, .stays _⟩
  | startIpfixReceiver k =>
    obtain ⟨rck, rck', hk, hf, rfl⟩ := IpfixCollector.onReceiver_eq hs
    refine moves_set hr hk ?_
    rintro rfl
    exact .start hf
  | stopIpfixReceiver k =>
    obtain ⟨rck, rck', hk, hf, rfl⟩ := IpfixCollector.onReceiver_eq hs
    refine moves_set hr hk ?_
    rintro rfl
    exact .stop hf
  | setExit k =>
    obtain ⟨rck, rck', hk, hf, rfl⟩ := IpfixCollector.onReceiver_eq hs
    refine moves_set hr hk ?_
    rintro rfl
    exact .setExit hf
  | recvfrom k datagram =>
    obtain ⟨rck, rck', hk, hf, rfl⟩ := IpfixCollector.onReceiver_eq hs
    refine moves_set hr hk ?_
    rintro rfl
    exact .recvfrom hf
  | listener k =>
    simp only [IpfixCollector.step, IpfixCollector.listener, Option.bind_eq_bind,
      Option.bind_eq_some_iff] at hs
    obtain ⟨rck, hk, hs⟩ := hs
    split at hs
    · rename_i hpc
      cases hs
      refine moves_set hr hk ?_
      rintro rfl
      exact .exit hpc
    · rename_i data hpc
      split at hs
      · rename_i hm
        cases hs
        refine moves_set hr hk ?_
        rintro rfl
        exact .lock hpc hm
      · cases hs
    · rename_i data i hpc
      split at hs
      · rename_i hi
        cases hs
        refine moves_set hr hk ?_
        rintro rfl
        exact .unlock (hi ▸ hpc)
      · obtain ⟨p, p', -, -, rfl⟩ := IpfixCollector.onProcessor_eq hs
        refine moves_set hr hk ?_
        rintro rfl
        exact .forwards _ (by rw [hpc]; rfl) rfl
    · cases hs
  | call k x t =>
    simp only [IpfixCollector.step, Option.bind_eq_bind, Option.bind_eq_some_iff] at hs
    obtain ⟨rck, hk, hs⟩ := hs
    split at hs
    · rename_i data i u hpc
      obtain ⟨p, p', -, -, rfl⟩ := IpfixCollector.onProcessor_eq hs
      refine moves_set hr hk ?_
      rintro rfl
      exact .forwards _ (by rw [hpc]; rfl) rfl
    · cases hs
  | «return» k =>
    simp only [IpfixCollector.step, Option.bind_eq_bind, Option.bind_eq_some_iff] at hs
    obtain ⟨rck, hk, hs⟩ := hs
    split at hs
    · rename_i data i u hpc
      obtain ⟨p, p', -, -, rfl⟩ := IpfixCollector.onProcessor_eq hs
      refine moves_set hr hk ?_
      rintro rfl
      exact .forwards _ (by rw [hpc]; rfl) rfl
    · cases hs

/-- What every step keeps of a receiver, a run keeps. -/
theorem moves_run {P : IpfixReceiver μ τ → Prop} {A : ReceiverOp σ μ τ → Prop}
    (hstep : ∀ rc op rc', P rc → A op → rc.Moves r op rc' → P rc') (hr : s.receivers[r]? = some rc)
    (h0 : P rc) (hrun : (ipfixCollector C).Run s ops s') (hA : ∀ op ∈ ops, A op) :
    ∃ rc', s'.receivers[r]? = some rc' ∧ P rc' := by
  induction hrun generalizing rc with
  | nil => exact ⟨rc, hr, h0⟩
  | cons hs _ ih =>
    obtain ⟨rc', hr', hmoves⟩ := moves_step hr hs.2
    exact ih hr' (hstep _ _ _ h0 (hA _ (List.mem_cons_self ..)) hmoves)
      fun op hop => hA op (List.mem_cons_of_mem _ hop)

/-! ## Stopped receivers -/

/-- A receiver that was stopped when it had taken `n` messages and handed on `m`. -/
structure IpfixReceiver.Stopped (n m : Nat) (rc : IpfixReceiver μ τ) : Prop where
  exit : rc.exit = true
  received : rc.received.length = n ∨ rc.received.length = n + 1 ∧ rc.pc ≠ .recvfrom
  forwarded : rc.forwarded.length = m ∨
    rc.forwarded.length = m + 1 ∧ rc.pc ≠ .recvfrom ∧ rc.pc.waiting = []

theorem IpfixReceiver.Stopped.moves {n m : Nat} (h : rc.Stopped n m) (hm : rc.Moves r op rc') :
    rc'.Stopped n m := by
  obtain ⟨hexit, hreceived, hforwarded⟩ := h
  cases hm with
  | stays => exact ⟨hexit, hreceived, hforwarded⟩
  | told => exact ⟨hexit, hreceived, hforwarded⟩
  | authorized => exact ⟨hexit, hreceived, hforwarded⟩
  | start hs =>
    unfold IpfixReceiver.start at hs
    split at hs
    · cases hs
      exact ⟨hexit, hreceived, hforwarded⟩
    · cases hs
  | stop hs =>
    unfold IpfixReceiver.stop at hs
    split at hs
    · cases hs
      exact ⟨hexit, hreceived, hforwarded⟩
    · cases hs
  | setExit hs =>
    unfold IpfixReceiver.setExit at hs
    split at hs
    · cases hs
      exact ⟨rfl, hreceived, hforwarded⟩
    · cases hs
  | recvfrom hs =>
    unfold IpfixReceiver.recvfrom at hs
    split at hs
    · rename_i hpc
      cases hs
      simp only [hpc, ne_eq, not_true, and_false, or_false, false_and] at hreceived hforwarded
      exact ⟨hexit, .inl hreceived, .inl hforwarded⟩
    · rename_i host data hpc
      cases hs
      simp only [hpc, ne_eq, not_true, and_false, or_false, false_and] at hreceived hforwarded
      refine ⟨hexit, .inr ⟨by simpa using hreceived, ?_⟩, .inl hforwarded⟩
      cases isHostAuthorized rc.authHosts host <;> simp
    · cases hs
  | exit hpc =>
    simp only [hexit, if_true]
    exact ⟨rfl, hreceived.imp_right fun h => ⟨h.1, by simp⟩,
      hforwarded.imp_right fun h => ⟨h.1, by simp⟩⟩
  | lock hpc =>
    simp only [hpc, ListenerPc.waiting, List.cons_ne_nil, and_false, or_false] at hforwarded
    exact ⟨hexit, hreceived.imp_right fun h => ⟨h.1, by simp⟩,
      .inr ⟨by simpa using hforwarded, by simp⟩⟩
  | unlock hpc =>
    exact ⟨hexit, hreceived.imp_right fun h => ⟨h.1, by simp⟩,
      hforwarded.imp_right fun h => ⟨h.1, by simp⟩⟩
  | forwards _ hpc hpc' =>
    refine
      ⟨hexit, hreceived.imp_right fun h => ⟨h.1, ?_⟩, hforwarded.imp_right fun h => ⟨h.1, ?_, ?_⟩⟩
    · rintro rfl
      cases hpc'
    · rintro rfl
      cases hpc'
    · exact ListenerPc.waiting_of_forwarding hpc'

/-- While the caller has the mutex, the thread hands nothing on. -/
theorem IpfixReceiver.Moves.paused {fw : List (μ × Nat)}
    (h : rc.mutex = some .caller ∧ rc.pc.forwarding = false ∧ rc.forwarded = fw)
    (hop : op ≠ .startIpfixReceiver r) (hm : rc.Moves r op rc') :
    rc'.mutex = some .caller ∧ rc'.pc.forwarding = false ∧ rc'.forwarded = fw := by
  obtain ⟨hmutex, hpc, hfw⟩ := h
  cases hm with
  | stays => exact ⟨hmutex, hpc, hfw⟩
  | told => exact ⟨hmutex, hpc, hfw⟩
  | authorized => exact ⟨hmutex, hpc, hfw⟩
  | start => exact absurd rfl hop
  | stop hs => simp [IpfixReceiver.stop, hmutex] at hs
  | setExit hs => simp [IpfixReceiver.setExit, hmutex] at hs
  | recvfrom hs =>
    unfold IpfixReceiver.recvfrom at hs
    split at hs
    · cases hs
      exact ⟨hmutex, rfl, hfw⟩
    · rename_i host _ _
      cases hs
      exact ⟨hmutex, by cases isHostAuthorized rc.authHosts host <;> rfl, hfw⟩
    · cases hs
  | exit => exact ⟨hmutex, by cases rc.exit <;> rfl, hfw⟩
  | lock _ hfree => simp [hmutex] at hfree
  | unlock h => simp [h] at hpc
  | forwards _ h _ => exact absurd (hpc.symm.trans h) Bool.false_ne_true

/-- After `stopIpfixReceiver` a receiver takes and hands on one more message at most, whether or
not it is started again; and it hands nothing on before. -/
theorem forwards_after_stop (h : ((ipfixCollector C).restrict IpfixCollector.Paused).Reachable s)
    (hr : s.receivers[r]? = some rc) (hexit : rc.exit = true) (hmutex : rc.mutex = some .caller)
    (hrun : (ipfixCollector C).Run s ops s') :
    ∃ rc', s'.receivers[r]? = some rc' ∧ rc'.received.length ≤ rc.received.length + 1 ∧
      rc'.forwarded.length ≤ rc.forwarded.length + 1 ∧
      (.startIpfixReceiver r ∉ ops → rc'.forwarded = rc.forwarded) := by
  have hstopped : rc.Stopped rc.received.length rc.forwarded.length := ⟨hexit, .inl rfl, .inl rfl⟩
  obtain ⟨rc', hr', hlast⟩ :=
    moves_run (A := fun _ => True) (fun _ _ _ h _ hm => h.moves hm) hr hstopped
    hrun fun _ _ => trivial
  refine ⟨rc', hr', ?_, ?_, fun hops => ?_⟩
  · rcases hlast.received with h | ⟨h, -⟩ <;> omega
  · rcases hlast.forwarded with h | ⟨h, -⟩ <;> omega
  · have hidle : rc.pc.forwarding = false := by
      have := ((IpfixCollector.inv_reachable h).receivers r rc hr).mutex
      simpa [hmutex] using this
    obtain ⟨rc'', hr'', -, -, hfw⟩ := moves_run (A := (· ≠ .startIpfixReceiver r))
      (fun _ _ _ h hop hm => hm.paused h hop) hr ⟨hmutex, hidle, rfl⟩ hrun fun op hop => by
        rintro rfl
        exact hops hop
    rw [hr'] at hr''
    cases hr''
    exact hfw

/-- The receiver was stopped while its thread waited for a message. -/
def sampleStopped : IpfixCollector Nat Nat Nat :=
    ⟨[⟨[], 0, true, some .caller, .recvfrom, [], []⟩], [], []⟩

theorem reachable_sampleStopped :
    ((ipfixCollector sampleCalls).restrict IpfixCollector.Paused).Reachable sampleStopped := by
  have h0 : ((ipfixCollector sampleCalls).restrict IpfixCollector.Paused).Reachable .init :=
    .init rfl
  have h1 := IpfixCollector.next h0 .createIpfixReceiver trivial trivial rfl
  have h2 := IpfixCollector.next h1 (.startIpfixReceiver 0) trivial trivial rfl
  have h3 := IpfixCollector.next h2 (.listener 0) trivial trivial rfl
  have h4 := IpfixCollector.next h3 (.stopIpfixReceiver 0) trivial trivial rfl
  exact IpfixCollector.next h4 (.setExit 0) trivial trivial rfl

/-- It is started again. -/
def sampleRestart : List (ReceiverOp Nat Nat Nat) :=
  [.recvfrom 0 (some (7, 5)), .startIpfixReceiver 0, .listener 0]

theorem run_sampleRestart : (ipfixCollector sampleCalls).Run sampleStopped sampleRestart
    ⟨[⟨[], 0, true, some .listener, .next 5 0, [([], 7, 5)], [(5, 0)]⟩], [], []⟩ :=
  .cons ⟨trivial, rfl⟩ (.cons ⟨trivial, rfl⟩ (.cons ⟨trivial, rfl⟩ (.nil _)))

theorem forwards_after_stop_sample :
    ∃ rc',
    [(⟨[], 0, true, some .listener, .next 5 0, [([], 7, 5)], [(5, 0)]⟩ : IpfixReceiver
      Nat Nat)][0]? =
        some rc' ∧ rc'.received.length ≤ 1 ∧ rc'.forwarded.length ≤ 1 ∧
      (.startIpfixReceiver 0 ∉ sampleRestart → rc'.forwarded = []) :=
  forwards_after_stop reachable_sampleStopped (r := 0) rfl rfl rfl run_sampleRestart

/-! ## Receivers that know of the processors -/

/-- A processor was added after the receiver. -/
def Told (r : Nat) (ops : List (ReceiverOp σ μ τ)) : Prop :=
  ∃ x, [.addIpfixReceiver r, .addIpfixPacketProcessor x].Sublist ops

theorem sublist_pair_append {α : Type} {a b c : α} {l : List α} :
    [a, b].Sublist (l ++ [c]) ↔ [a, b].Sublist l ∨ b = c ∧ a ∈ l := by
  have hsnoc : [a, b] = [a] ++ [b] := rfl
  constructor
  · intro h
    obtain ⟨l₁, l₂, hl, h₁, h₂⟩ := List.sublist_append_iff.mp h
    rcases List.sublist_cons_iff.mp h₂ with hnil | ⟨l₃, rfl, hnil⟩
    · rw [List.sublist_nil.mp hnil, List.append_nil] at hl
      exact .inl (hl ▸ h₁)
    · rw [List.sublist_nil.mp hnil, hsnoc] at hl
      obtain ⟨rfl, hc⟩ := List.append_inj' hl rfl
      exact .inr ⟨List.head_eq_of_cons_eq hc, List.singleton_sublist.mp h₁⟩
  · rintro (h | ⟨rfl, h⟩)
    · exact h.trans (List.sublist_append_left ..)
    · rw [hsnoc]
      exact (List.singleton_sublist.mpr h).append (List.Sublist.refl _)

/-- What the collector has told its receivers after the steps `ops`. -/
structure IpfixCollector.Counted (ops : List (ReceiverOp σ μ τ)) (s : IpfixCollector σ μ τ) :
    Prop where
  added : ∀ r, r ∈ s.ipfixReceivers ↔ .addIpfixReceiver r ∈ ops
  present : ∀ r ∈ s.ipfixReceivers, r < s.receivers.length
  told : ∀ (r : Nat) (rc : IpfixReceiver μ τ), s.receivers[r]? = some rc →
    Told r ops ∧ rc.processorCount = s.packetProcessors.length ∨ ¬ Told r ops ∧
      rc.processorCount = 0

/-- The steps that tell the receivers nothing. -/
@[simp] def ReceiverOp.tellsNothing : ReceiverOp σ μ τ → Bool
  | .createIpfixReceiver | .addIpfixReceiver _ | .addIpfixPacketProcessor _ => false
  | _ => true

theorem told_append {op : ReceiverOp σ μ τ} (h : ∀ x, op ≠ .addIpfixPacketProcessor x) :
    Told r (ops ++ [op]) ↔ Told r ops := by
  refine exists_congr fun x => sublist_pair_append.trans ?_
  exact or_iff_left fun hx => h x hx.1.symm

theorem IpfixReceiver.Moves.processorCount (h : rc.Moves r op rc') (hop : op.tellsNothing = true) :
    rc'.processorCount = rc.processorCount := by
  cases h with
  | told => cases hop
  | start hs =>
    unfold IpfixReceiver.start at hs
    split at hs <;> cases hs
    rfl
  | stop hs =>
    unfold IpfixReceiver.stop at hs
    split at hs <;> cases hs
    rfl
  | setExit hs =>
    unfold IpfixReceiver.setExit at hs
    split at hs <;> cases hs
    rfl
  | recvfrom hs =>
    unfold IpfixReceiver.recvfrom at hs
    split at hs <;> cases hs <;> rfl
  | _ => rfl

/-- No step but `createIpfixReceiver`, `addIpfixReceiver` and `addIpfixPacketProcessor` adds a
receiver or a processor. -/
theorem adds_nothing (hop : op.tellsNothing = true) (hs : s.step C op = some s') :
    s'.ipfixReceivers = s.ipfixReceivers ∧ s'.receivers.length = s.receivers.length ∧
      s'.packetProcessors.length = s.packetProcessors.length := by
  have hreceiver : ∀ k f, s.onReceiver k f = some s' → s'.ipfixReceivers = s.ipfixReceivers ∧
      s'.receivers.length = s.receivers.length ∧
          s'.packetProcessors.length = s.packetProcessors.length := by
    intro k f hf
    obtain ⟨_, _, -, -, rfl⟩ := IpfixCollector.onReceiver_eq hf
    exact ⟨rfl, List.length_set, rfl⟩
  have hprocessor : ∀ k i rc f, s.onProcessor k i rc f = some s' →
      s'.ipfixReceivers = s.ipfixReceivers ∧ s'.receivers.length = s.receivers.length ∧
      s'.packetProcessors.length = s.packetProcessors.length := by
    intro k i rc f hf
    obtain ⟨_, _, -, -, rfl⟩ := IpfixCollector.onProcessor_eq hf
    exact ⟨rfl, List.length_set, List.length_set⟩
  cases op with
  | createIpfixReceiver => cases hop
  | addIpfixReceiver => cases hop
  | addIpfixPacketProcessor => cases hop
  | addAuthorizedHost => exact hreceiver _ _ hs
  | startIpfixReceiver => exact hreceiver _ _ hs
  | stopIpfixReceiver => exact hreceiver _ _ hs
  | setExit => exact hreceiver _ _ hs
  | recvfrom => exact hreceiver _ _ hs
  | listener k =>
    simp only [IpfixCollector.step, IpfixCollector.listener, Option.bind_eq_bind,
      Option.bind_eq_some_iff] at hs
    obtain ⟨rck, -, hs⟩ := hs
    split at hs
    · cases hs
      exact ⟨rfl, List.length_set, rfl⟩
    · split at hs
      · cases hs
        exact ⟨rfl, List.length_set, rfl⟩
      · cases hs
    · split at hs
      · cases hs
        exact ⟨rfl, List.length_set, rfl⟩
      · exact hprocessor _ _ _ _ hs
    · cases hs
  | call k x t =>
    simp only [IpfixCollector.step, Option.bind_eq_bind, Option.bind_eq_some_iff] at hs
    obtain ⟨rck, -, hs⟩ := hs
    split at hs
    · exact hprocessor _ _ _ _ hs
    · cases hs
  | «return» k =>
    simp only [IpfixCollector.step, Option.bind_eq_bind, Option.bind_eq_some_iff] at hs
    obtain ⟨rck, -, hs⟩ := hs
    split at hs
    · exact hprocessor _ _ _ _ hs
    · cases hs

theorem IpfixCollector.Counted.step (h : s.Counted ops) (hs : s.step C op = some s') :
    s'.Counted (ops ++ [op]) := by
  obtain ⟨hadded, hpresent, htold⟩ := h
  by_cases hop : op.tellsNothing = true
  · obtain ⟨hreceivers, hlength, hcount⟩ := adds_nothing hop hs
    have hno : ∀ x, op ≠ .addIpfixPacketProcessor x := by
      rintro x rfl
      cases hop
    refine ⟨fun r => ?_, fun r hr => ?_, fun r rc' hr' => ?_⟩
    · rw [hreceivers, hadded, List.mem_append, List.mem_singleton]
      refine (or_iff_left ?_).symm
      rintro rfl
      cases hop
    · rw [hlength]
      exact hpresent r (hreceivers ▸ hr)
    · have hlt : r < s.receivers.length := hlength ▸ (List.getElem?_eq_some_iff.mp hr').1
      obtain ⟨rc'', hr'', hmoves⟩ := moves_step (List.getElem?_eq_getElem hlt) hs
      rw [hr'] at hr''
      cases hr''
      rw [told_append hno, hcount, hmoves.processorCount hop]
      exact htold r _ (List.getElem?_eq_getElem hlt)
  · cases op with
    | createIpfixReceiver =>
      cases hs
      refine ⟨fun r => by simp [hadded], fun r hr => ?_, fun r rc hr => ?_⟩
      · rw [List.length_append]
        exact Nat.lt_add_right _ (hpresent r hr)
      · rw [told_append (by simp)]
        rcases Nat.lt_or_ge r s.receivers.length with hlt | hge
        · exact htold r rc (List.getElem?_append_left hlt ▸ hr)
        · rw [List.getElem?_append_right hge, List.getElem?_singleton] at hr
          split at hr <;> cases hr
          refine .inr ⟨?_, rfl⟩
          rintro ⟨x, hx⟩
          have hmem : .addIpfixReceiver r ∈ ops := hx.subset (List.mem_cons_self ..)
          exact Nat.not_lt_of_le hge (hpresent r ((hadded r).mpr hmem))
    | addIpfixReceiver k =>
      simp only [IpfixCollector.step] at hs
      split at hs
      · rename_i hk
        cases hs
        refine ⟨fun r => by simp [hadded, eq_comm], fun r hr => ?_, fun r rc hr => ?_⟩
        · rcases List.mem_append.mp hr with hr | hr
          · exact hpresent r hr
          · rw [List.mem_singleton.mp hr]
            exact hk
        · rw [told_append (by simp)]
          exact htold r rc hr
      · cases hs
    | addIpfixPacketProcessor x =>
      cases hs
      have hiff : ∀ r, Told r (ops ++ [.addIpfixPacketProcessor x]) ↔ Told r ops ∨
          r ∈ s.ipfixReceivers := by
        intro r
        constructor
        · rintro ⟨y, hy⟩
          rcases sublist_pair_append.mp hy with h | ⟨-, h⟩
          · exact .inl ⟨y, h⟩
          · exact .inr ((hadded r).mpr h)
        · rintro (⟨y, h⟩ | h)
          · exact ⟨y, sublist_pair_append.mpr (.inl h)⟩
          · exact ⟨x, sublist_pair_append.mpr (.inr ⟨rfl, (hadded r).mp h⟩)⟩
      refine ⟨fun r => by simp [hadded, IpfixCollector.addIpfixPacketProcessor], fun r hr => ?_,
        fun r rc hr => ?_⟩
      · rw [IpfixCollector.addIpfixPacketProcessor, List.length_mapIdx]
        exact hpresent r hr
      · rw [hiff]
        simp only [IpfixCollector.addIpfixPacketProcessor, List.getElem?_mapIdx,
          Option.map_eq_some_iff] at hr
        obtain ⟨rc₀, hr₀, hrc⟩ := hr
        split at hrc
        · rename_i hmem
          exact .inl
            ⟨.inr hmem, by simp [← hrc, IpfixCollector.addIpfixPacketProcessor,
              IpfixReceiver.setPacketProcessors]⟩
        · rename_i hmem
          have hnot : ¬ Told r ops := by
            rintro ⟨y, hy⟩
            exact hmem ((hadded r).mpr (hy.subset (List.mem_cons_self ..)))
          rcases htold r rc₀ hr₀ with ⟨h, -⟩ | ⟨-, h⟩
          · exact absurd h hnot
          · exact .inr ⟨fun h => h.elim hnot hmem, hrc ▸ h⟩
    | _ => exact absurd rfl hop

/-- A receiver knows of all processors if one was added after the receiver was, and otherwise of
none; then it hands its messages to nobody. -/
theorem processorCount_run (hrun : (ipfixCollector C).Run .init ops s)
    (hr : s.receivers[r]? = some rc) :
    (Told r ops ∧ rc.processorCount = s.packetProcessors.length) ∨
      (¬ Told r ops ∧ rc.processorCount = 0) := by
  have hinit : (IpfixCollector.init : IpfixCollector σ μ τ).Counted [] := by
    refine ⟨fun r => by simp [IpfixCollector.init], ?_, ?_⟩
    · intro r hr
      cases hr
    · intro r rc hr
      cases hr
  have hcounted :=
    LTS.Run.traced (I := fun ops s => s.Counted ops) (fun _ _ _ _ h hs => h.step hs.2) hrun hinit
  exact hcounted.told r rc hr

/-- The processor is added before the receiver. -/
def sampleAdded : List (ReceiverOp Nat Nat Nat) :=
  [.createIpfixReceiver, .addIpfixPacketProcessor 0, .addIpfixReceiver 0]

theorem run_sampleAdded :
    (ipfixCollector sampleCalls).Run .init sampleAdded ⟨[.create], [0], [⟨0, none, 0, []⟩]⟩ :=
  .cons ⟨trivial, rfl⟩ (.cons ⟨trivial, rfl⟩ (.cons ⟨trivial, rfl⟩ (.nil _)))

theorem processorCount_run_sample : Told 0 sampleAdded ∧ 0 = 1 ∨ ¬ Told 0 sampleAdded ∧ 0 = 0 :=
  processorCount_run run_sampleAdded (r := 0) rfl

/-! ## The parser -/

/-- Where a call of `processMessage` is, for the message and the number of its bytes. -/
inductive MessagePc where
  | start (E : Env) (length : Nat)
  | ipfixSet (E : Env) (length set : Nat)
  | netflowV9Set (E : Env) (count set : Nat)
  | ended (result : Int)

/-- One set of the message, or what stands around the loops over the sets.
mirrors concentrator/rcvIpfix.c:624-716 -/
inductive MessageStep : TemplateBuffer → MessagePc → TemplateBuffer → MessagePc → Prop where
  | ipfix {tb : TemplateBuffer} {E : Env} {length : Nat} : be16 E.mem 0 = 0x000a →
    be16 E.mem 2 = length →
      MessageStep tb (.start E length) tb (.ipfixSet E length 16)
  | wrongLength {tb : TemplateBuffer} {E : Env} {length : Nat} : be16 E.mem 0 = 0x000a →
      be16 E.mem 2 ≠ length → MessageStep tb (.start E length) tb (.ended (-1))
  | netflowV9 {tb : TemplateBuffer} {E : Env} {length : Nat} : be16 E.mem 0 = 0x0009 →
      MessageStep tb (.start E length) tb (.netflowV9Set E (be16 E.mem 2) 20)
  | otherVersion {tb : TemplateBuffer} {E : Env} {length : Nat} : be16 E.mem 0 ≠ 0x000a →
      be16 E.mem 0 ≠ 0x0009 → MessageStep tb (.start E length) tb (.ended (-1))
  | ipfixSet {tb tb' : TemplateBuffer} {E : Env} {length set set' : Nat}
    {l : List Event} : set < length →
      (Rcv.ipfixSetStep E set tb).Returns l (set', tb') →
      MessageStep tb (.ipfixSet E length set) tb' (.ipfixSet E length set')
  | ipfixEnd {tb : TemplateBuffer} {E : Env} {length set : Nat} : ¬ set < length →
      MessageStep tb (.ipfixSet E length set) tb (.ended 0)
  | netflowV9Set {tb tb' : TemplateBuffer} {E : Env} {count set set' : Nat} {l : List Event} :
      (Rcv.netflowV9SetStep E set tb).Returns l (set', tb') →
      MessageStep tb (.netflowV9Set E (count + 1) set) tb' (.netflowV9Set E count set')
  | netflowV9End {tb : TemplateBuffer} {E : Env} {set : Nat} :
      MessageStep tb (.netflowV9Set E 0 set) tb (.ended 0)

/-- `processMessage` as the callback of a processor. -/
def messageParser : Calls TemplateBuffer (Env × Nat) MessagePc where
  enter m := .start m.1 m.2
  step := MessageStep
  returned t := ∃ result, t = .ended result

/-- What is left of a call. -/
def MessagePc.rest : MessagePc → TemplateBuffer → Proc Event (Int × TemplateBuffer)
  | start E length, tb => Rcv.processMessage E length tb
  | ipfixSet E length set, tb => do
    let s ← loop (fun s => s.1 < length) (fun s => Rcv.ipfixSetStep E s.1 s.2) (set, tb)
    pure (0, s.2)
  | netflowV9Set E count set, tb => do
    let tb ← Rcv.forSets E count set tb
    pure (0, tb)
  | ended result, tb => pure (result, tb)

theorem ends_ntohs {E : Env} {a : Nat} {f : Nat → Proc Event (Int × TemplateBuffer)}
    {v : Int × TemplateBuffer} :
    (∃ l, (Rcv.ntohs E a >>= f).Returns l v) ↔ ∃ l, (f (be16 E.mem a)).Returns l v := by
  constructor
  · rintro ⟨l, h⟩
    obtain ⟨l₁, n, l₂, hread, hrest, -⟩ := returns_bind.mp h
    obtain ⟨l₃, _, l₄, -, hn, -⟩ := returns_bind.mp hread
    exact ⟨l₂, (returns_pure.mp hn).2 ▸ hrest⟩
  · rintro ⟨l, h⟩
    have hread : (Rcv.ntohs E a).Returns ([.read a 2] ++ []) (be16 E.mem a) :=
      (returns_emit (u := ()).mpr rfl).bind (returns_pure.mpr ⟨rfl, rfl⟩)
    exact ⟨_, hread.bind h⟩

/-- The message is looked at, and a loop over its sets begun. -/
theorem ends_processMessage {E : Env} {length : Nat} {tb : TemplateBuffer}
    {v : Int × TemplateBuffer} :
    (∃ l, (Rcv.processMessage E length tb).Returns l v) ↔
      ∃ t, MessageStep tb (.start E length) tb t ∧ ∃ l, (t.rest tb).Returns l v := by
  rw [Rcv.processMessage, ends_ntohs]
  by_cases h10 : be16 E.mem 0 = 0x000a
  · rw [if_pos h10, Rcv.processIpfixPacket, ends_ntohs]
    by_cases hlength : be16 E.mem 2 = length
    · rw [if_neg (not_not_intro hlength)]
      refine ⟨fun h => ⟨_, .ipfix h10 hlength, h⟩, ?_⟩
      rintro ⟨t, hs, h⟩
      cases hs with
      | ipfix => exact h
      | wrongLength _ hne => exact absurd hlength hne
      | netflowV9 h9 => simp [h10] at h9
      | otherVersion hne => exact absurd h10 hne
    · rw [if_pos hlength]
      refine ⟨fun h => ⟨_, .wrongLength h10 hlength, h⟩, ?_⟩
      rintro ⟨t, hs, h⟩
      cases hs with
      | ipfix _ heq => exact absurd heq hlength
      | wrongLength => exact h
      | netflowV9 h9 => simp [h10] at h9
      | otherVersion hne => exact absurd h10 hne
  · rw [if_neg h10]
    by_cases h9 : be16 E.mem 0 = 0x0009
    · rw [if_pos h9, Rcv.processNetflowV9Packet, ends_ntohs]
      refine ⟨fun h => ⟨_, .netflowV9 h9, h⟩, ?_⟩
      rintro ⟨t, hs, h⟩
      cases hs with
      | ipfix heq => exact absurd heq h10
      | wrongLength heq => exact absurd heq h10
      | netflowV9 => exact h
      | otherVersion _ hne => exact absurd h9 hne
    · rw [if_neg h9]
      refine ⟨fun h => ⟨_, .otherVersion h10 h9, h⟩, ?_⟩
      rintro ⟨t, hs, h⟩
      cases hs with
      | ipfix heq => exact absurd heq h10
      | wrongLength heq => exact absurd heq h10
      | netflowV9 heq => exact absurd heq h9
      | otherVersion => exact h

theorem MessageStep.back {tb tb' : TemplateBuffer} {t t' : MessagePc} (hs : MessageStep tb t tb' t')
    {v : Int × TemplateBuffer} (h : ∃ l, (t'.rest tb').Returns l v) :
      ∃ l, (t.rest tb).Returns l v := by
  obtain ⟨l, hl⟩ := h
  cases hs with
  | ipfixSet hlt hset =>
    obtain ⟨l₁, s, l₂, hloop, hrest, -⟩ := returns_bind.mp hl
    exact ⟨_, ((returns_loop_step (by simpa using hlt)).mpr (hset.bind hloop)).bind hrest⟩
  | ipfixEnd hlt => exact ⟨_, ((returns_loop_done (by simpa using hlt)).mpr ⟨rfl, rfl⟩).bind hl⟩
  | netflowV9Set hset =>
    obtain ⟨l₁, s, l₂, hsets, hrest, -⟩ := returns_bind.mp hl
    exact ⟨_, (hset.bind hsets).bind hrest⟩
  | netflowV9End =>
    exact ⟨_, (returns_pure.mpr ⟨rfl, rfl⟩ : (Rcv.forSets _ 0 _ tb).Returns [] tb).bind hl⟩
  | ipfix hversion hlength => exact ends_processMessage.mpr ⟨_, .ipfix hversion hlength, l, hl⟩
  | wrongLength hversion hlength =>
    exact ends_processMessage.mpr ⟨_, .wrongLength hversion hlength, l, hl⟩
  | netflowV9 hversion => exact ends_processMessage.mpr ⟨_, .netflowV9 hversion, l, hl⟩
  | otherVersion h1 h2 => exact ends_processMessage.mpr ⟨_, .otherVersion h1 h2, l, hl⟩

theorem steps_forSets {E : Env} {n set : Nat} {tb tb' : TemplateBuffer} {l : List Event}
    (h : (Rcv.forSets E n set tb).Returns l tb') :
    ∃ set', messageParser.Steps tb (.netflowV9Set E n set) tb' (.netflowV9Set E 0 set') := by
  induction n generalizing set tb l with
  | zero =>
    obtain ⟨-, rfl⟩ := returns_pure.mp h
    exact ⟨set, .refl _ _⟩
  | succ n ih =>
    obtain ⟨l₁, ⟨set₁, tb₁⟩, l₂, hset, hsets, -⟩ := returns_bind.mp h
    obtain ⟨set', hsteps⟩ := ih hsets
    have hfirst :
        messageParser.Steps tb (.netflowV9Set E (n + 1) set) tb₁ (.netflowV9Set E n set₁) :=
      .tail (.refl _ _) (MessageStep.netflowV9Set hset)
    exact ⟨set', hfirst.trans hsteps⟩

theorem steps_ipfixSets {E : Env} {length set : Nat} {tb : TemplateBuffer}
    {s : Nat × TemplateBuffer} {l : List Event}
    (h :
      (loop (fun s => s.1 < length) (fun s => Rcv.ipfixSetStep E s.1 s.2) (set, tb)).Returns l s) :
    messageParser.Steps tb (.ipfixSet E length set) s.2 (.ipfixSet E length s.1) :=
  h.loop_invariant
    (fun s => messageParser.Steps tb (.ipfixSet E length set) s.2 (.ipfixSet E length s.1))
    (fun _ _ _ hsteps hc hset => .tail hsteps (MessageStep.ipfixSet (by simpa using hc) hset))
      (.refl _ _)

/-- Everything that is left of a call. -/
theorem steps_rest {t : MessagePc} {tb tb' : TemplateBuffer} {l : List Event} {result : Int}
    (ht : ∀ E length, t ≠ .start E length) (h : (t.rest tb).Returns l (result, tb')) :
    messageParser.Steps tb t tb' (.ended result) := by
  cases t with
  | start E length => exact absurd rfl (ht E length)
  | ipfixSet E length set =>
    obtain ⟨l₁, s, l₂, hloop, hrest, -⟩ := returns_bind.mp h
    cases (returns_pure.mp hrest).2
    exact .tail (steps_ipfixSets hloop) (MessageStep.ipfixEnd (by simpa using hloop.loop_ended))
  | netflowV9Set E count set =>
    obtain ⟨l₁, tb₁, l₂, hsets, hrest, -⟩ := returns_bind.mp h
    cases (returns_pure.mp hrest).2
    obtain ⟨set', hsteps⟩ := steps_forSets hsets
    exact .tail hsteps MessageStep.netflowV9End
  | ended result' =>
    cases (returns_pure.mp h).2
    exact .refl _ _

/-- The calls of the parser that return are the messages that are processed to their end. -/
theorem call_iff {tb tb' : TemplateBuffer} {m : Env × Nat} :
    messageParser.Call tb m tb' ↔ processes.step tb m tb' := by
  constructor
  · rintro ⟨t, hsteps, result, rfl⟩
    have hback : ∀ s t s' t', messageParser.step s t s' t' →
      (∃ l, (t'.rest s').Returns l (result, tb')) →
        ∃ l, (t.rest s).Returns l (result, tb') := fun _ _ _ _ hs h => MessageStep.back hs h
    obtain ⟨l, hl⟩ := hsteps.back hback ⟨[], returns_pure.mpr ⟨rfl, rfl⟩⟩
    exact ⟨l, result, hl⟩
  · rintro ⟨l, result, h⟩
    obtain ⟨t, hs, l', hrest⟩ := ends_processMessage.mp ⟨l, h⟩
    have hfirst : messageParser.Steps tb (.start m.1 m.2) tb t := .tail (.refl _ _) hs
    refine ⟨_, hfirst.trans (steps_rest ?_ hrest), result, rfl⟩
    rintro E length rfl
    cases hs

/-- The template buffer of a processor that is in no call is the one after the messages that it
got, one at a time and each processed to its end, whatever receivers they came from. -/
theorem parser_run {s : IpfixCollector TemplateBuffer (Env × Nat) MessagePc}
    (h : ((ipfixCollector messageParser).restrict IpfixCollector.Paused).Reachable s) {i : Nat}
    {p : IpfixPacketProcessor TemplateBuffer (Env × Nat)} (hp : s.packetProcessors[i]? = some p)
    (hfree : p.mutex = none) : processes.Run p.created (p.calls.map Prod.snd) p.ipfixParser :=
  ((serves h hp).1 hfree).run fun _ _ _ => call_iff.mp

/-- A set that does not stall is processed to its end. -/
theorem ipfixSet_returns {E : Env} {set : Nat} {tb : TemplateBuffer} (h : tb.Sound)
    (hset : 16 ≤ set)
    (hst : ¬ Layout.SetStalls E.mem Layout.ipfixKind (be32 E.mem 12) (set, tb.table)) :
    ∃ l tb', (Rcv.ipfixSetStep E set tb).Returns l (set + be16 E.mem (set + 2), tb') ∧ tb'.Sound ∧
      tb'.table = Layout.afterSet E.mem Layout.ipfixKind (be32 E.mem 12) set tb.table := by
  obtain ⟨l, ⟨set', tb'⟩, hr⟩ := ((@ipfixStep E 0).halts set tb hset h).mpr hst
  obtain ⟨hnext, hsound, htable⟩ := (@ipfixStep E 0).returns set tb l _ hset h hr
  cases hnext
  exact ⟨l, tb', hr, hsound, htable⟩

/-- The steps of a call with `templateMessage`, on an empty template buffer. -/
theorem templateMessage_returns : ∃ l tb,
    (Rcv.ipfixSetStep (envOf templateMessage) 16 []).Returns l (28, tb) ∧ tb.Sound ∧
      tb.table (1, 256) = some ⟨.template, 4, [some 4]⟩ := by
  obtain ⟨l, tb, hr, hsound, htable⟩ := ipfixSet_returns (E := envOf templateMessage) sound_nil
    (Nat.le_refl 16) fun hs => absurd hs.1 (by decide)
  refine ⟨l, tb, hr, hsound, ?_⟩
  rw [show be32 (envOf templateMessage).mem 12 = 1 by decide] at htable
  rw [htable]
  exact table_templateMessage _

/-- A data set leaves the table as it is. -/
theorem ipfixDataSet_returns {E : Env} {set sid : Nat} {tb : TemplateBuffer} {L : Layout}
    (h : tb.Sound) (hset : 16 ≤ set) (hsid : be32 E.mem 12 = sid)
    (hdata : Layout.ipfixKind (be16 E.mem set) = .data)
    (hL : tb.table (sid, be16 E.mem set) = some L) (hne : L.recordLength ≠ 0) :
    ∃ l tb', (Rcv.ipfixSetStep E set tb).Returns l (set + be16 E.mem (set + 2), tb') ∧ tb'.Sound ∧
      tb'.table = tb.table := by
  subst hsid
  have hst : ¬ Layout.SetStalls E.mem Layout.ipfixKind (be32 E.mem 12) (set, tb.table) := by
    rintro ⟨-, L', hL', hst⟩
    simp only [hL, Option.some.injEq] at hL'
    subst hL'
    exact hne hst.1
  obtain ⟨l, tb', hr, hsound, htable⟩ := ipfixSet_returns h hset hst
  exact ⟨l, tb', hr, hsound, htable.trans (afterSet_data hdata)⟩

/-- The steps of a call with `recordsMessage`, where the template of `templateMessage` is known. -/
theorem recordsMessage_returns {tb : TemplateBuffer} (h : tb.Sound)
    (hT : tb.table (1, 256) = some ⟨.template, 4, [some 4]⟩) : ∃ l₁ tb₁ l₂ tb₂ l₃ tb₃,
    (Rcv.ipfixSetStep (envOf recordsMessage) 16 tb).Returns l₁ (32, tb₁) ∧
    (Rcv.ipfixSetStep (envOf recordsMessage) 32 tb₁).Returns l₂ (44, tb₂) ∧
    (Rcv.ipfixSetStep (envOf recordsMessage) 44 tb₂).Returns l₃ (53, tb₃) := by
  have hsid : be32 (envOf recordsMessage).mem 12 = 1 := by decide
  obtain ⟨h256, h257⟩ := announces_recordsMessage tb.table hT
  have hfirst : Layout.ipfixKind (be16 (envOf recordsMessage).mem 16) ≠ .data := by decide
  obtain ⟨l₁, tb₁, hr₁, hsound₁, htable₁⟩ := ipfixSet_returns (E := envOf recordsMessage) h
    (Nat.le_refl 16) fun hs => hfirst hs.1
  rw [hsid, table_recordsMessage] at htable₁
  obtain ⟨l₂, tb₂, hr₂, hsound₂, htable₂⟩ :=
    ipfixDataSet_returns (E := envOf recordsMessage) hsound₁ (show 16 ≤ 32 by decide) hsid
      (by decide)
      (by rw [show be16 (envOf recordsMessage).mem 32 = 256 by decide, htable₁]; exact h256)
      (by decide)
  obtain ⟨l₃, tb₃, hr₃, -, -⟩ :=
    ipfixDataSet_returns (E := envOf recordsMessage) hsound₂ (show 16 ≤ 44 by decide) hsid
      (by decide)
      (by rw [show be16 (envOf recordsMessage).mem 44 = 257 by decide, htable₂, htable₁]; exact h257)
      (by decide)
  exact ⟨l₁, tb₁, l₂, tb₂, l₃, tb₃, hr₁, hr₂, hr₃⟩

/-- Two receivers, each with a message in hand, about to ask for the one parser. -/
def sampleMessages : IpfixCollector TemplateBuffer (Env × Nat) MessagePc :=
  ⟨[⟨[], 1, false, some .listener, .next (envOf templateMessage, 28) 0,
      [([], 7, envOf templateMessage, 28)], [((envOf templateMessage, 28), 1)]⟩,
    ⟨[], 1, false, some .listener, .next (envOf recordsMessage, 53) 0,
      [([], 8, envOf recordsMessage, 53)], [((envOf recordsMessage, 53), 1)]⟩], [0, 1],
    [⟨[], none, [], []⟩]⟩

theorem reachable_sampleMessages :
    ((ipfixCollector messageParser).restrict IpfixCollector.Paused).Reachable sampleMessages := by
  have h0 : ((ipfixCollector messageParser).restrict IpfixCollector.Paused).Reachable .init :=
    .init rfl
  have h1 := IpfixCollector.nexts h0
    [.createIpfixReceiver, .createIpfixReceiver, .addIpfixReceiver 0, .addIpfixReceiver 1] rfl rfl
  have h2 := IpfixCollector.next h1 (.addIpfixPacketProcessor []) trivial paused_created rfl
  exact IpfixCollector.nexts h2 [.startIpfixReceiver 0, .startIpfixReceiver 1, .listener 0,
    .listener 1, .recvfrom 0 (some (7, envOf templateMessage, 28)), .listener 0,
    .recvfrom 1 (some (8, envOf recordsMessage, 53)), .listener 1] rfl rfl

/-- The template comes to the first receiver, its records to the second one. -/
theorem parser_run_records : ∃ tb,
    processes.Run [] [(envOf templateMessage, 28), (envOf recordsMessage, 53)] tb := by
  obtain ⟨l, tb, hr, hsound, hT⟩ := templateMessage_returns
  obtain ⟨l₁, tb₁, l₂, tb₂, l₃, tb₃, hr₁, hr₂, hr₃⟩ := recordsMessage_returns hsound hT
  have h1 := IpfixCollector.nexts reachable_sampleMessages [.listener 0] rfl rfl
  have h2 := IpfixCollector.next h1 (.call 0 [] (.ipfixSet (envOf templateMessage) 28 16))
    (IpfixCollector.allows_call rfl rfl rfl (MessageStep.ipfix (by decide) (by decide))) trivial rfl
  have h3 := IpfixCollector.next h2 (.call 0 tb (.ipfixSet (envOf templateMessage) 28 28))
    (IpfixCollector.allows_call rfl rfl rfl (MessageStep.ipfixSet (by decide) hr)) trivial rfl
  have h4 := IpfixCollector.next h3 (.call 0 tb (.ended 0))
    (IpfixCollector.allows_call rfl rfl rfl (MessageStep.ipfixEnd (by decide))) trivial rfl
  have h5 := IpfixCollector.next h4 (.return 0)
    (IpfixCollector.allows_return rfl rfl ⟨0, rfl⟩) trivial rfl
  have h6 := IpfixCollector.nexts h5 [.listener 1, .listener 0] rfl rfl
  have h7 := IpfixCollector.next h6 (.call 1 tb (.ipfixSet (envOf recordsMessage) 53 16))
    (IpfixCollector.allows_call rfl rfl rfl (MessageStep.ipfix (by decide) (by decide))) trivial rfl
  have h8 := IpfixCollector.next h7 (.call 1 tb₁ (.ipfixSet (envOf recordsMessage) 53 32))
    (IpfixCollector.allows_call rfl rfl rfl (MessageStep.ipfixSet (by decide) hr₁)) trivial rfl
  have h9 := IpfixCollector.next h8 (.call 1 tb₂ (.ipfixSet (envOf recordsMessage) 53 44))
    (IpfixCollector.allows_call rfl rfl rfl (MessageStep.ipfixSet (by decide) hr₂)) trivial rfl
  have h10 := IpfixCollector.next h9 (.call 1 tb₃ (.ipfixSet (envOf recordsMessage) 53 53))
    (IpfixCollector.allows_call rfl rfl rfl (MessageStep.ipfixSet (by decide) hr₃)) trivial rfl
  have h11 := IpfixCollector.next h10 (.call 1 tb₃ (.ended 0))
    (IpfixCollector.allows_call rfl rfl rfl (MessageStep.ipfixEnd (by decide))) trivial rfl
  have h12 := IpfixCollector.next h11 (.return 1)
    (IpfixCollector.allows_return rfl rfl ⟨0, rfl⟩) trivial rfl
  exact ⟨tb₃, parser_run h12 (i := 0) rfl rfl⟩

end Topas
