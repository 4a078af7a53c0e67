import Topas.Core.Calls
import Topas.L2Parser.Packets

/-!
# Receivers and packet processors

The thread of a receiver (`udpListener`) takes messages from its socket and hands those of
authorised hosts to the packet processors that it was told of: it holds the mutex of the
receiver, and around each call the mutex of the processor. The caller holds the mutex of a
receiver from `createIpfixReceiver` to `startIpfixReceiver`, and again from
`stopIpfixReceiver` on. `addIpfixPacketProcessor` moves the array of the processors and tells
the receivers that were added before.

Any number of receivers run, and their steps and the steps of their calls interleave in any
order. What a processor's callback does is a parameter (`Calls`); `parser` is
`processMessage`, with a step for each set.

* `serves`: every parser is at a point of a run of calls one after the other.
* `forwarded_once`: a processor gets the messages of a receiver's authorised hosts that
  arrive after the receiver was told of it, each once and in order.
* `listener_proceeds`: where every call can go on or return, a thread with a message waits only
  for the caller, or for a processor whose call goes on.

Processors are added while the receivers are paused (`Paused`), as `Collector::run` does.
-/
namespace Topas

/-- Where the thread of a receiver is. `next data i`: about to compare `i` with the number of
processors.
mirrors concentrator/ipfixReceiver.c:344-374 -/
inductive ListenerPc (μ τ : Type) where
  | exit
  | recvfrom
  | lock (data : μ)
  | next (data : μ) (i : Nat)
  | call (data : μ) (i : Nat) (t : τ)
  | ended

/-- Who has the mutex of a receiver: its caller, its caller in `stopIpfixReceiver`, its
thread. -/
inductive Holder where
  | caller | stopping | listener
  deriving DecidableEq, Repr

/-- `processorCount` is also the array that the receiver was told of: every processor that is
added moves the array. `received` and `forwarded` are ghosts: what has come from the socket,
with the authorised hosts of that moment and the sender, and what was handed on, with the
number of processors of that moment.
mirrors concentrator/ipfixReceiver.h:50-72 -/
structure IpfixReceiver (μ τ : Type) where
  authHosts : List UInt32
  processorCount : Nat
  exit : Bool
  mutex : Option Holder
  pc : ListenerPc μ τ
  received : List (List UInt32 × UInt32 × μ)
  forwarded : List (μ × Nat)

/-- `mutex` is the receiver whose thread has it. `created` and `calls` are ghosts: the parser
as it was added, and the calls that have begun, with their receivers.
mirrors concentrator/rcvIpfix.h:220-225 -/
structure IpfixPacketProcessor (σ μ : Type) where
  ipfixParser : σ
  mutex : Option Nat
  created : σ
  calls : List (Nat × μ)

/-- All receivers, those that were added to the collector, and its processors.
mirrors concentrator/rcvIpfix.h:231-237 -/
structure IpfixCollector (σ μ τ : Type) where
  receivers : List (IpfixReceiver μ τ)
  ipfixReceivers : List Nat
  packetProcessors : List (IpfixPacketProcessor σ μ)

/-- `recvfrom r none` is an error of the socket. `call` is a step of a call, with what it makes
of the parser and of its locals. -/
inductive ReceiverOp (σ μ τ : Type) where
  | createIpfixReceiver
  | addIpfixReceiver (r : Nat)
  | addAuthorizedHost (r : Nat) (host : UInt32)
  | addIpfixPacketProcessor (ipfixParser : σ)
  | startIpfixReceiver (r : Nat)
  | stopIpfixReceiver (r : Nat)
  | setExit (r : Nat)
  | recvfrom (r : Nat) (datagram : Option (UInt32 × μ))
  | listener (r : Nat)
  | call (r : Nat) (x : σ) (t : τ)
  | return (r : Nat)

variable {σ μ τ : Type}

/-- mirrors concentrator/ipfixReceiver.c:246-258 -/
def isHostAuthorized (authHosts : List UInt32) (inaddr : UInt32) : Bool :=
  if 0 < authHosts.length then authHosts.any (· == inaddr) else true

namespace IpfixReceiver

/-- mirrors concentrator/ipfixReceiver.c:67-129 -/
def create : IpfixReceiver μ τ := ⟨[], 0, false, some .caller, .exit, [], []⟩

/-- mirrors concentrator/ipfixReceiver.c:172-178 -/
def start (rc : IpfixReceiver μ τ) : Option (IpfixReceiver μ τ) :=
  if rc.mutex = some .caller then some { rc with mutex := none } else none

/-- mirrors concentrator/ipfixReceiver.c:185-189 -/
def stop (rc : IpfixReceiver μ τ) : Option (IpfixReceiver μ τ) :=
  if rc.mutex = none then some { rc with mutex := some .stopping } else none

/-- mirrors concentrator/ipfixReceiver.c:190 -/
def setExit (rc : IpfixReceiver μ τ) : Option (IpfixReceiver μ τ) :=
  if rc.mutex = some .stopping then some { rc with mutex := some .caller, exit := true } else none

/-- mirrors concentrator/ipfixReceiver.c:350-358 -/
def recvfrom (rc : IpfixReceiver μ τ) (datagram : Option (UInt32 × μ)) :
    Option (IpfixReceiver μ τ) :=
  match rc.pc, datagram with
  | .recvfrom, none => some { rc with pc := .ended }
  | .recvfrom, some (host, data) =>
    some { rc with
      received := rc.received ++ [(rc.authHosts, host, data)]
      pc := if isHostAuthorized rc.authHosts host then .lock data else .exit }
  | _, _ => none

/-- mirrors concentrator/ipfixReceiver.c:202-207 -/
def setPacketProcessors (rc : IpfixReceiver μ τ) (processorCount : Nat) : IpfixReceiver μ τ :=
  { rc with processorCount := processorCount }

/-- The messages of authorised hosts. -/
def accepted (rc : IpfixReceiver μ τ) : List μ :=
  (rc.received.filter fun x => isHostAuthorized x.1 x.2.1).map (·.2.2)

end IpfixReceiver

namespace IpfixCollector

def init : IpfixCollector σ μ τ := ⟨[], [], []⟩

/-- A step that is about one receiver only. -/
def onReceiver (s : IpfixCollector σ μ τ) (r : Nat)
    (f : IpfixReceiver μ τ → Option (IpfixReceiver μ τ)) : Option (IpfixCollector σ μ τ) := do
  let rc ← s.receivers[r]?
  let rc ← f rc
  some { s with receivers := s.receivers.set r rc }

/-- A step of a receiver's thread and of a processor. -/
def onProcessor (s : IpfixCollector σ μ τ) (r i : Nat) (rc : IpfixReceiver μ τ)
    (f : IpfixPacketProcessor σ μ → Option (IpfixPacketProcessor σ μ)) :
      Option (IpfixCollector σ μ τ) := do
  let p ← s.packetProcessors[i]?
  let p ← f p
  some { s with receivers := s.receivers.set r rc, packetProcessors := s.packetProcessors.set i p }

/-- mirrors concentrator/rcvIpfix.c:1010-1021 -/
def addIpfixPacketProcessor (s : IpfixCollector σ μ τ) (ipfixParser : σ) : IpfixCollector σ μ τ :=
  { s with
    packetProcessors := s.packetProcessors ++ [⟨ipfixParser, none, ipfixParser, []⟩]
    receivers := s.receivers.mapIdx fun r rc =>
      if r ∈ s.ipfixReceivers then rc.setPacketProcessors (s.packetProcessors.length + 1) else rc }

/-- The receiver's thread, but for its calls.
mirrors concentrator/ipfixReceiver.c:349-371 -/
def listener (C : Calls σ μ τ) (s : IpfixCollector σ μ τ) (r : Nat) :
    Option (IpfixCollector σ μ τ) := do
  let rc ← s.receivers[r]?
  match rc.pc with
  | .exit =>
    some { s with
      receivers := s.receivers.set r { rc with pc := if rc.exit then .ended else .recvfrom } }
  | .lock data =>
    if rc.mutex = none then
      some { s with
        receivers := s.receivers.set r { rc with
          mutex := some .listener
          forwarded := rc.forwarded ++ [(data, rc.processorCount)]
          pc := .next data 0 } }
    else none
  | .next data i =>
    if i = rc.processorCount then
      some { s with receivers := s.receivers.set r { rc with mutex := none, pc := .exit } }
    else
      s.onProcessor r i { rc with pc := .call data i (C.enter data) } fun p =>
        if p.mutex = none then some
          { p with mutex := some r, calls := p.calls ++ [(r, data)] } else none
  | _ => none

def step (C : Calls σ μ τ) (s : IpfixCollector σ μ τ) :
    ReceiverOp σ μ τ → Option (IpfixCollector σ μ τ)
  | .createIpfixReceiver => some { s with receivers := s.receivers ++ [.create] }
  | .addIpfixReceiver r =>
    if r < s.receivers.length then some
      { s with ipfixReceivers := s.ipfixReceivers ++ [r] } else none
  | .addAuthorizedHost r host => s.onReceiver r fun rc =>
    some { rc with authHosts := rc.authHosts ++ [host] }
  | .addIpfixPacketProcessor ipfixParser => some (s.addIpfixPacketProcessor ipfixParser)
  | .startIpfixReceiver r => s.onReceiver r (·.start)
  | .stopIpfixReceiver r => s.onReceiver r (·.stop)
  | .setExit r => s.onReceiver r (·.setExit)
  | .recvfrom r datagram => s.onReceiver r (·.recvfrom datagram)
  | .listener r => s.listener C r
  | .call r x t => do
    let rc ← s.receivers[r]?
    match rc.pc with
    | .call data i _ =>
      s.onProcessor r i { rc with pc := .call data i t } fun p => some { p with ipfixParser := x }
    | _ => none
  | .return r => do
    let rc ← s.receivers[r]?
    match rc.pc with
    | .call data i _ =>
      s.onProcessor r i { rc with pc := .next data (i + 1) } fun p => some { p with mutex := none }
    | _ => none

/-- The steps of calls are those of `C`. -/
def Allows (C : Calls σ μ τ) (s : IpfixCollector σ μ τ) : ReceiverOp σ μ τ → Prop
  | .call r x t => ∀ rc data i u p, s.receivers[r]? = some rc → rc.pc = .call data i u →
      s.packetProcessors[i]? = some p → C.step p.ipfixParser u x t
  | .return r => ∀ rc data i u, s.receivers[r]? = some rc → rc.pc = .call data i u → C.returned u
  | _ => True

/-- Processors are added while the receivers of the collector are paused. -/
def Paused (s : IpfixCollector σ μ τ) : ReceiverOp σ μ τ → Prop
  | .addIpfixPacketProcessor _ => ∀ r ∈ s.ipfixReceivers, ∀ rc, s.receivers[r]? = some rc →
      rc.mutex = some .caller
  | _ => True

end IpfixCollector

def ipfixCollector (C : Calls σ μ τ) : LTS (IpfixCollector σ μ τ) (ReceiverOp σ μ τ) where
  init := (· = .init)
  step s op s' := s.Allows C op ∧ s.step C op = some s'

/-! ## The invariant -/

namespace ListenerPc

/-- The thread has the mutex of the receiver. -/
@[simp] def forwarding : ListenerPc μ τ → Bool
  | next _ _ => true
  | call _ _ _ => true
  | _ => false

/-- A message that waits for the mutex of the receiver. -/
@[simp] def waiting : ListenerPc μ τ → List μ
  | lock data => [data]
  | _ => []

/-- What processor `i` of `n` has still to get of the message that is being handed on. -/
@[simp] def rest (i n : Nat) : ListenerPc μ τ → List μ
  | next data j => if j ≤ i ∧ i < n then [data] else []
  | call data j _ => if j < i ∧ i < n then [data] else []
  | _ => []

theorem rest_idle {pc : ListenerPc μ τ} {i n : Nat} (h : pc.forwarding = false) :
    pc.rest i n = [] := by
  cases pc <;> simp at h ⊢

theorem rest_of_le {pc : ListenerPc μ τ} {i n : Nat} (h : n ≤ i) : pc.rest i n = [] := by
  cases pc <;> simp <;> omega

theorem waiting_of_forwarding {pc : ListenerPc μ τ} (h : pc.forwarding = true) :
    pc.waiting = [] := by
  cases pc <;> simp at h ⊢

end ListenerPc

/-- The messages that receiver `r` has handed to the processor. -/
def IpfixPacketProcessor.callsOf (p : IpfixPacketProcessor σ μ) (r : Nat) : List μ :=
  (p.calls.filter (·.1 == r)).map Prod.snd

theorem IpfixPacketProcessor.callsOf_begun (p : IpfixPacketProcessor σ μ) (m : Option Nat)
    (r r' : Nat) (data : μ) :
      IpfixPacketProcessor.callsOf { p with mutex := m, calls := p.calls ++ [(r, data)] } r' =
      p.callsOf r' ++ if r = r' then [data] else [] := by
  rw [callsOf, callsOf, List.filter_append, List.map_append]
  by_cases h : r = r'
  · rw [if_pos h, List.filter_cons_of_pos (by simpa using h)]
    rfl
  · rw [if_neg h, List.filter_cons_of_neg (by simpa using h)]
    rfl

/-- The messages that were handed on when the receiver knew of processor `i`. -/
def IpfixReceiver.forwardedTo (rc : IpfixReceiver μ τ) (i : Nat) : List μ :=
  (rc.forwarded.filter fun x => i < x.2).map Prod.fst

/-- No call is under way, or one, by the thread that has the mutex. -/
structure IpfixPacketProcessor.Served (C : Calls σ μ τ)
    (receivers : List (IpfixReceiver μ τ)) (i : Nat) (p : IpfixPacketProcessor σ μ) : Prop where
  free : p.mutex = none → C.Serves p.created (p.calls.map Prod.snd) p.ipfixParser
  held : ∀ r, p.mutex = some r → ∃ rc data t, receivers[r]? = some rc ∧ rc.pc = .call data i t ∧
    C.InCall p.created (p.calls.map Prod.snd) p.ipfixParser t
  callers : ∀ c ∈ p.calls, c.1 < receivers.length

/-- `told`: a receiver knows of no processor, or of all of them and of the array that is in use. -/
structure IpfixReceiver.Sane (ipfixReceivers : List Nat)
    (packetProcessors : List (IpfixPacketProcessor σ μ))
    (r : Nat) (rc : IpfixReceiver μ τ) : Prop where
  mutex : rc.mutex = some .listener ↔ rc.pc.forwarding = true
  told : rc.processorCount = 0 ∨ r ∈ ipfixReceivers ∧ rc.processorCount = packetProcessors.length
  next : ∀ data i, rc.pc = .next data i → i ≤ rc.processorCount
  call : ∀ data i t, rc.pc = .call data i t → i < rc.processorCount ∧
    ∃ p, packetProcessors[i]? = some p ∧ p.mutex = some r
  accepted : rc.forwarded.map Prod.fst ++ rc.pc.waiting = rc.accepted
  counts : ∀ x ∈ rc.forwarded, x.2 ≤ packetProcessors.length

structure IpfixCollector.Inv (C : Calls σ μ τ) (s : IpfixCollector σ μ τ) : Prop where
  receivers : ∀ (r : Nat) (rc : IpfixReceiver μ τ), s.receivers[r]? = some rc →
    rc.Sane s.ipfixReceivers s.packetProcessors r
  processors : ∀ (i : Nat) (p : IpfixPacketProcessor σ μ), s.packetProcessors[i]? = some p →
    p.Served C s.receivers i
  calls : ∀ (r : Nat) (rc : IpfixReceiver μ τ) (i : Nat) (p : IpfixPacketProcessor σ μ),
    s.receivers[r]? = some rc → s.packetProcessors[i]? = some p →
      p.callsOf r ++ rc.pc.rest i rc.processorCount = rc.forwardedTo i

/-- What is in a list after one of its elements was replaced. -/
theorem getElem?_of_set {α : Type} {l : List α} {i j : Nat} {a b : α}
    (h : (l.set i a)[j]? = some b) :
    (j = i ∧ b = a) ∨ (j ≠ i ∧ l[j]? = some b) := by
  by_cases hj : j = i
  · subst hj
    have hlt : j < (l.set j a).length := (List.getElem?_eq_some_iff.mp h).1
    rw [List.getElem?_set_self (by simpa using hlt)] at h
    exact .inl ⟨rfl, (Option.some.inj h).symm⟩
  · rw [List.getElem?_set_ne (Ne.symm hj)] at h
    exact .inr ⟨hj, h⟩

section Steps

variable {C : Calls σ μ τ} {s s' : IpfixCollector σ μ τ} {r : Nat} {rc rc' : IpfixReceiver μ τ}

/-- A step of a receiver's thread that is not about a processor, or one of its caller. -/
theorem IpfixCollector.Inv.setReceiver (h : s.Inv C) (hr : s.receivers[r]? = some rc)
    (hcall : ∀ data i t, rc'.pc = .call data i t ↔ rc.pc = .call data i t)
    (hcount : rc'.processorCount = rc.processorCount)
    (hmutex : rc'.mutex = some .listener ↔ rc'.pc.forwarding = true)
    (hnext : ∀ data i, rc'.pc = .next data i → i ≤ rc.processorCount)
    (haccepted : rc'.forwarded.map Prod.fst ++ rc'.pc.waiting = rc'.accepted)
    (hcounts : ∀ x ∈ rc'.forwarded, x.2 ≤ s.packetProcessors.length)
    (hcalls : ∀ i l, l ++ rc.pc.rest i rc.processorCount = rc.forwardedTo i →
      l ++ rc'.pc.rest i rc.processorCount = rc'.forwardedTo i) :
    IpfixCollector.Inv C { s with receivers := s.receivers.set r rc' } := by
  obtain ⟨hreceivers, hprocessors, hall⟩ := h
  have hrc := hreceivers r rc hr
  refine ⟨?_, ?_, ?_⟩
  · intro r' rc'' hget
    rcases getElem?_of_set hget with ⟨rfl, rfl⟩ | ⟨-, hget⟩
    · exact ⟨hmutex, by rw [hcount]; exact hrc.told, by rw [hcount]; exact hnext,
        fun data i t hpc => by rw [hcount]; exact hrc.call data i t ((hcall data i t).mp hpc),
        haccepted, hcounts⟩
    · exact hreceivers r' rc'' hget
  · intro i p hp
    obtain ⟨hfree, hheld, hcallers⟩ := hprocessors i p hp
    refine ⟨hfree, fun r' hr' => ?_, fun c hc => by rw [List.length_set]; exact hcallers c hc⟩
    obtain ⟨rc'', data, t, hget, hpc, hin⟩ := hheld r' hr'
    by_cases hrr : r' = r
    · subst hrr
      rw [hr] at hget
      cases hget
      exact ⟨rc', data, t, List.getElem?_set_self (List.getElem?_eq_some_iff.mp hr).1,
        (hcall data i t).mpr hpc, hin⟩
    · exact ⟨rc'', data, t, by rw [List.getElem?_set_ne (Ne.symm hrr)]; exact hget, hpc, hin⟩
  · intro r' rc'' i p hget hp
    rcases getElem?_of_set hget with ⟨rfl, rfl⟩ | ⟨-, hget⟩
    · rw [hcount]
      exact hcalls i _ (hall r' rc i p hr hp)
    · exact hall r' rc'' i p hget hp

/-- A step of a receiver's thread on processor `i`: it enters the call, goes on with it, or
returns from it. -/
theorem IpfixCollector.Inv.setBoth (h : s.Inv C) {i : Nat} {p p' : IpfixPacketProcessor σ μ}
    (hr : s.receivers[r]? = some rc) (hp : s.packetProcessors[i]? = some p)
    (hrc : rc' = { rc with pc := rc'.pc }) (hpc : rc.pc.forwarding = true)
    (hpc' : rc'.pc.forwarding = true)
    (honly : ∀ data j t, rc.pc = .call data j t → j = i) (hfree : p.mutex = none ∨ p.mutex = some r)
    (hnext : ∀ data j, rc'.pc = .next data j → j ≤ rc.processorCount)
    (hcall : ∀ data j t, rc'.pc = .call data j t → j = i ∧ i < rc.processorCount ∧
      p'.mutex = some r)
    (hserved : p'.mutex = none → C.Serves p'.created (p'.calls.map Prod.snd) p'.ipfixParser)
    (hheld : ∀ r', p'.mutex = some r' → r' = r ∧ ∃ data t, rc'.pc = .call data i t ∧
      C.InCall p'.created (p'.calls.map Prod.snd) p'.ipfixParser t)
    (hcallers : ∀ c ∈ p'.calls, c.1 = r ∨ c ∈ p.calls)
    (hothers : ∀ r', r' ≠ r → p'.callsOf r' = p.callsOf r')
    (hrest : ∀ j, j ≠ i → rc'.pc.rest j rc.processorCount = rc.pc.rest j rc.processorCount)
    (hcalls : p'.callsOf r ++ rc'.pc.rest i rc.processorCount =
      p.callsOf r ++ rc.pc.rest i rc.processorCount) :
    IpfixCollector.Inv C { s with
      receivers := s.receivers.set r rc'
      packetProcessors := s.packetProcessors.set i p' } := by
  obtain ⟨hreceivers, hprocessors, hall⟩ := h
  have hsane := hreceivers r rc hr
  have hlt : r < s.receivers.length := (List.getElem?_eq_some_iff.mp hr).1
  have hset : (s.packetProcessors.set i p')[i]? = some p' :=
    List.getElem?_set_self (List.getElem?_eq_some_iff.mp hp).1
  refine ⟨?_, ?_, ?_⟩
  · intro r' rc'' hget
    rcases getElem?_of_set hget with ⟨rfl, rfl⟩ | ⟨hne, hget⟩
    · rw [hrc]
      refine ⟨iff_of_true (hsane.mutex.mpr hpc) hpc', ?_, hnext, ?_, ?_, ?_⟩
      · rw [List.length_set]
        exact hsane.told
      · intro data j t hj
        obtain ⟨rfl, hj', hm⟩ := hcall data j t hj
        exact ⟨hj', p', hset, hm⟩
      · have haccepted := hsane.accepted
        rw [ListenerPc.waiting_of_forwarding hpc] at haccepted
        simp only [ListenerPc.waiting_of_forwarding hpc']
        exact haccepted
      · rw [List.length_set]
        exact hsane.counts
    · obtain ⟨hmutex, htold, hnext, hcall', haccepted, hcounts⟩ := hreceivers r' rc'' hget
      refine ⟨hmutex, by rw [List.length_set]; exact htold, hnext, fun data j t hj => ?_, haccepted,
        by rw [List.length_set]; exact hcounts⟩
      obtain ⟨hj', q, hq, hm⟩ := hcall' data j t hj
      have hji : j ≠ i := by
        rintro rfl
        rw [hp] at hq
        cases hq
        rcases hfree with hfree | hfree <;> rw [hfree] at hm
        · cases hm
        · exact hne (Option.some.inj hm).symm
      exact ⟨hj', q, by rw [List.getElem?_set_ne (Ne.symm hji)]; exact hq, hm⟩
  · intro j q hget
    rcases getElem?_of_set hget with ⟨rfl, rfl⟩ | ⟨hne, hget⟩
    · refine ⟨hserved, fun r' hr' => ?_, fun c hc => ?_⟩
      · obtain ⟨rfl, data, t, hpc'', hin⟩ := hheld r' hr'
        exact ⟨rc', data, t, List.getElem?_set_self hlt, hpc'', hin⟩
      · rw [List.length_set]
        rcases hcallers c hc with hc | hc
        · rw [hc]; exact hlt
        · exact (hprocessors j p hp).callers c hc
    · obtain ⟨hfree', hheld', hcallers'⟩ := hprocessors j q hget
      refine ⟨hfree', fun r' hr' => ?_, by rw [List.length_set]; exact hcallers'⟩
      obtain ⟨rc'', data, t, hget', hpc'', hin⟩ := hheld' r' hr'
      have hrr : r' ≠ r := by
        rintro rfl
        rw [hr] at hget'
        cases hget'
        exact hne (honly data j t hpc'')
      exact ⟨rc'', data, t, by rw [List.getElem?_set_ne (Ne.symm hrr)]; exact hget', hpc'', hin⟩
  · intro r' rc'' j q hget hq
    have hforwarded : rc'.forwarded = rc.forwarded := by rw [hrc]
    have hcount : rc'.processorCount = rc.processorCount := by rw [hrc]
    rcases getElem?_of_set hget with ⟨rfl, rfl⟩ | ⟨hne, hget'⟩
    · rw [IpfixReceiver.forwardedTo, hforwarded, hcount]
      rcases getElem?_of_set hq with ⟨rfl, rfl⟩ | ⟨hji, hq⟩
      · rw [hcalls]
        exact hall r' rc j p hr hp
      · rw [hrest j hji]
        exact hall r' rc j q hr hq
    · rcases getElem?_of_set hq with ⟨rfl, rfl⟩ | ⟨hji, hq⟩
      · rw [hothers r' hne]
        exact hall r' rc'' j p hget' hp
      · exact hall r' rc'' j q hget' hq

/-- What is known of receivers outlives the registration of another one. -/
theorem IpfixCollector.Inv.addIpfixReceiver (h : s.Inv C) :
    IpfixCollector.Inv C { s with ipfixReceivers := s.ipfixReceivers ++ [r] } := by
  obtain ⟨hreceivers, hprocessors, hall⟩ := h
  refine ⟨fun r' rc' hget => ?_, hprocessors, hall⟩
  obtain ⟨hmutex, htold, hnext, hcall, haccepted, hcounts⟩ := hreceivers r' rc' hget
  exact
    ⟨hmutex, htold.imp_right fun ht => ⟨List.mem_append_left _ ht.1, ht.2⟩, hnext, hcall, haccepted,
    hcounts⟩

theorem IpfixCollector.Inv.createIpfixReceiver (h : s.Inv C) :
    IpfixCollector.Inv C { s with receivers := s.receivers ++ [.create] } := by
  obtain ⟨hreceivers, hprocessors, hall⟩ := h
  have hcases : ∀ r' rc', (s.receivers ++ [IpfixReceiver.create])[r']? = some rc' →
      s.receivers[r']? = some rc' ∨ r' = s.receivers.length ∧ rc' = IpfixReceiver.create := by
    intro r' rc' hget
    rw [List.getElem?_append] at hget
    split at hget
    · exact .inl hget
    · rename_i hle
      rw [List.getElem?_singleton] at hget
      split at hget
      · cases hget
        exact .inr ⟨by omega, rfl⟩
      · cases hget
  refine ⟨?_, ?_, ?_⟩
  · intro r' rc' hget
    rcases hcases r' rc' hget with hget | ⟨-, rfl⟩
    · exact hreceivers r' rc' hget
    · refine ⟨by simp [IpfixReceiver.create], .inl rfl, ?_, ?_, rfl, ?_⟩
      · intro data i hpc
        cases hpc
      · intro data i t hpc
        cases hpc
      · intro x hx
        cases hx
  · intro i p hp
    obtain ⟨hfree, hheld, hcallers⟩ := hprocessors i p hp
    refine ⟨hfree, fun r' hr' => ?_, fun c hc => ?_⟩
    · obtain ⟨rc', data, t, hget, hpc, hin⟩ := hheld r' hr'
      exact ⟨rc', data, t, List.getElem?_append_left (List.getElem?_eq_some_iff.mp hget).1 ▸ hget,
        hpc, hin⟩
    · rw [List.length_append]
      exact Nat.lt_add_right _ (hcallers c hc)
  · intro r' rc' i p hget hp
    rcases hcases r' rc' hget with hget | ⟨rfl, rfl⟩
    · exact hall r' rc' i p hget hp
    · -- no processor has a call of a receiver that did not exist
      have hnone : p.callsOf s.receivers.length = [] := by
        rw [IpfixPacketProcessor.callsOf, List.map_eq_nil_iff, List.filter_eq_nil_iff]
        intro c hc
        have := (hprocessors i p hp).callers c hc
        simp only [beq_iff_eq]
        omega
      rw [hnone]
      rfl

theorem IpfixCollector.Inv.addIpfixPacketProcessor (h : s.Inv C) {x : σ}
    (hpaused : s.Paused (.addIpfixPacketProcessor x)) :
    (s.addIpfixPacketProcessor x).Inv C := by
  obtain ⟨hreceivers, hprocessors, hall⟩ := h
  have hcases : ∀ (r' : Nat) (rc' : IpfixReceiver μ τ),
      (s.addIpfixPacketProcessor x).receivers[r']? = some rc' → ∃ rc : IpfixReceiver μ τ,
        s.receivers[r']? = some rc ∧
        rc' = if r' ∈ s.ipfixReceivers then
          rc.setPacketProcessors (s.packetProcessors.length + 1) else rc := by
    intro r' rc' hget
    rw [IpfixCollector.addIpfixPacketProcessor, List.getElem?_mapIdx,
      Option.map_eq_some_iff] at hget
    obtain ⟨rc, hget, heq⟩ := hget
    exact ⟨rc, hget, heq.symm⟩
  -- a receiver that is paused hands nothing on
  have hidle : ∀ (r' : Nat) (rc : IpfixReceiver μ τ), s.receivers[r']? = some rc →
    r' ∈ s.ipfixReceivers →
      rc.pc.forwarding = false := by
    intro r' rc hget hmem
    have hsane := hreceivers r' rc hget
    have hno : ¬ rc.pc.forwarding = true := by
      rw [← hsane.mutex, hpaused r' hmem rc hget]
      simp
    exact Bool.eq_false_iff.mpr hno
  have htold : ∀ (r' : Nat) (rc : IpfixReceiver μ τ), s.receivers[r']? = some rc →
    r' ∉ s.ipfixReceivers →
      rc.processorCount = 0 :=
    fun r' rc hget hmem => (hreceivers r' rc hget).told.resolve_right fun ht => hmem ht.1
  have hget_new : ∀ (i : Nat) (p : IpfixPacketProcessor σ μ),
      (s.addIpfixPacketProcessor x).packetProcessors[i]? = some p →
      s.packetProcessors[i]? = some p ∨ i = s.packetProcessors.length ∧ p = ⟨x, none, x, []⟩ := by
    intro i p hp
    rw [IpfixCollector.addIpfixPacketProcessor, List.getElem?_append] at hp
    split at hp
    · exact .inl hp
    · rw [List.getElem?_singleton] at hp
      split at hp
      · cases hp
        exact .inr ⟨by omega, rfl⟩
      · cases hp
  have hlength :
      (s.addIpfixPacketProcessor x).packetProcessors.length = s.packetProcessors.length + 1 := by
    rw [IpfixCollector.addIpfixPacketProcessor, List.length_append, List.length_singleton]
  refine ⟨?_, ?_, ?_⟩
  · intro r' rc' hget'
    obtain ⟨rc, hget, rfl⟩ := hcases r' rc' hget'
    have hsane := hreceivers r' rc hget
    have hcounts :
        ∀ y ∈ rc.forwarded, y.2 ≤ (s.addIpfixPacketProcessor x).packetProcessors.length := by
      intro y hy
      have := hsane.counts y hy
      omega
    split
    · rename_i hmem
      have hpc := hidle r' rc hget hmem
      refine ⟨hsane.mutex, .inr ⟨hmem, hlength.symm⟩, ?_, ?_, hsane.accepted, hcounts⟩
      · intro data i hi
        rw [show rc.pc = _ from hi] at hpc
        cases hpc
      · intro data i t hi
        rw [show rc.pc = _ from hi] at hpc
        cases hpc
    · rename_i hmem
      have hzero := htold r' rc hget hmem
      refine ⟨hsane.mutex, .inl hzero, hsane.next, fun data i t hi => ?_, hsane.accepted, hcounts⟩
      have := (hsane.call data i t hi).1
      omega
  · intro i p hp
    rcases hget_new i p hp with hp | ⟨-, rfl⟩
    · obtain ⟨hfree, hheld, hcallers⟩ := hprocessors i p hp
      refine ⟨hfree, fun r' hr' => ?_, fun c hc => ?_⟩
      · obtain ⟨rc, data, t, hget, hpc, hin⟩ := hheld r' hr'
        have hnot : r' ∉ s.ipfixReceivers := by
          intro hmem
          have := hidle r' rc hget hmem
          rw [hpc] at this
          cases this
        refine ⟨rc, data, t, ?_, hpc, hin⟩
        rw [IpfixCollector.addIpfixPacketProcessor, List.getElem?_mapIdx, hget, Option.map_some,
          if_neg hnot]
      · rw [IpfixCollector.addIpfixPacketProcessor, List.length_mapIdx]
        exact hcallers c hc
    · refine ⟨fun _ => .nil x, fun r' hr' => ?_, fun c hc => ?_⟩
      · cases hr'
      · cases hc
  · intro r' rc' i p hget' hp
    obtain ⟨rc, hget, rfl⟩ := hcases r' rc' hget'
    have heq : ∀ rc' : IpfixReceiver μ τ, (rc' = if r' ∈ s.ipfixReceivers then
        rc.setPacketProcessors (s.packetProcessors.length + 1) else rc) →
        rc'.pc.rest i rc'.processorCount = rc.pc.rest i rc.processorCount ∧
          rc'.forwardedTo i = rc.forwardedTo i := by
      rintro rc' rfl
      split
      · rename_i hmem
        have hpc := hidle r' rc hget hmem
        exact ⟨(ListenerPc.rest_idle hpc).trans (ListenerPc.rest_idle hpc).symm, rfl⟩
      · exact ⟨rfl, rfl⟩
    rw [(heq _ rfl).1, (heq _ rfl).2]
    rcases hget_new i p hp with hp | ⟨rfl, rfl⟩
    · exact hall r' rc i p hget hp
    · have hnone : rc.forwardedTo s.packetProcessors.length = [] := by
        rw [IpfixReceiver.forwardedTo, List.map_eq_nil_iff, List.filter_eq_nil_iff]
        intro y hy
        have := (hreceivers r' rc hget).counts y hy
        simpa using this
      have hle : rc.processorCount ≤ s.packetProcessors.length := by
        rcases (hreceivers r' rc hget).told with h0 | ⟨-, hn⟩ <;> omega
      rw [hnone, ListenerPc.rest_of_le hle]
      rfl

theorem IpfixCollector.onReceiver_eq {f : IpfixReceiver μ τ → Option (IpfixReceiver μ τ)}
    (hs : s.onReceiver r f = some s') : ∃ rc rc', s.receivers[r]? = some rc ∧ f rc = some rc' ∧
      s' = { s with receivers := s.receivers.set r rc' } := by
  simp only [IpfixCollector.onReceiver, Option.bind_eq_bind, Option.bind_eq_some_iff,
    Option.some.injEq] at hs
  obtain ⟨rc, hr, rc', hf, hs'⟩ := hs
  exact ⟨rc, rc', hr, hf, hs'.symm⟩

theorem IpfixCollector.onProcessor_eq {i : Nat}
    {f : IpfixPacketProcessor σ μ → Option (IpfixPacketProcessor σ μ)}
    (hs : s.onProcessor r i rc f = some s') :
      ∃ p p', s.packetProcessors[i]? = some p ∧ f p = some p' ∧
      s' = { s with
        receivers := s.receivers.set r rc
        packetProcessors := s.packetProcessors.set i p' } := by
  simp only [IpfixCollector.onProcessor, Option.bind_eq_bind, Option.bind_eq_some_iff,
    Option.some.injEq] at hs
  obtain ⟨p, hp, p', hf, hs'⟩ := hs
  exact ⟨p, p', hp, hf, hs'.symm⟩

/-- A step of the caller of a receiver leaves the thread where it is, and does not take its mutex
away or give it to it. -/
theorem IpfixCollector.Inv.caller (h : s.Inv C) (hr : s.receivers[r]? = some rc)
    {authHosts : List UInt32} {exit : Bool} {mutex : Option Holder}
    (hm : mutex = some .listener ↔ rc.mutex = some .listener) :
    IpfixCollector.Inv C { s with
      receivers :=
        s.receivers.set r { rc with authHosts := authHosts, exit := exit, mutex := mutex } } := by
  have hsane := h.receivers r rc hr
  exact h.setReceiver hr (fun _ _ _ => Iff.rfl) rfl (hm.trans hsane.mutex) hsane.next hsane.accepted
    hsane.counts fun _ _ hl => hl

/-- A step of the thread while it hands nothing on. -/
theorem IpfixCollector.Inv.idle (h : s.Inv C) (hr : s.receivers[r]? = some rc)
    (hrc : rc' = { rc with pc := rc'.pc, received := rc'.received })
    (hpc : rc.pc.forwarding = false) (hpc' : rc'.pc.forwarding = false)
    (haccepted : rc.forwarded.map Prod.fst ++ rc'.pc.waiting = rc'.accepted) :
    IpfixCollector.Inv C { s with receivers := s.receivers.set r rc' } := by
  have hsane := h.receivers r rc hr
  have hmutex := hsane.mutex
  have hcount : rc'.processorCount = rc.processorCount := by rw [hrc]
  have hforwarded : rc'.forwarded = rc.forwarded := by rw [hrc]
  refine h.setReceiver hr ?_ hcount ?_ ?_ (hforwarded ▸ haccepted) (hforwarded ▸ hsane.counts) ?_
  · intro data i t
    refine iff_of_false (fun h => ?_) fun h => ?_
    · rw [h] at hpc'
      cases hpc'
    · rw [h] at hpc
      cases hpc
  · rw [hpc'] at *
    rw [hpc] at hmutex
    rw [show rc'.mutex = rc.mutex by rw [hrc]]
    exact hmutex
  · intro data i h
    rw [h] at hpc'
    cases hpc'
  · intro i l hl
    rw [ListenerPc.rest_idle hpc] at hl
    rw [ListenerPc.rest_idle hpc', IpfixReceiver.forwardedTo, hforwarded]
    exact hl

theorem IpfixCollector.Inv.recvfrom (h : s.Inv C) (hr : s.receivers[r]? = some rc)
    {datagram : Option (UInt32 × μ)} (hs : rc.recvfrom datagram = some rc') :
    IpfixCollector.Inv C { s with receivers := s.receivers.set r rc' } := by
  have haccepted := (h.receivers r rc hr).accepted
  unfold IpfixReceiver.recvfrom at hs
  split at hs
  · rename_i hpc
    cases hs
    rw [hpc] at haccepted
    exact h.idle hr rfl (by rw [hpc]; rfl) rfl haccepted
  · rename_i host data hpc
    cases hs
    simp only [hpc, ListenerPc.waiting, List.append_nil] at haccepted
    refine h.idle hr rfl (by rw [hpc]; rfl) (by cases isHostAuthorized rc.authHosts host <;> rfl) ?_
    rw [IpfixReceiver.accepted, List.filter_append, List.map_append, haccepted]
    cases hauth : isHostAuthorized rc.authHosts host
    · rw [List.filter_cons_of_neg (by simp [hauth])]
      rfl
    · rw [List.filter_cons_of_pos (by simp [hauth])]
      rfl
  · cases hs

theorem IpfixCollector.Inv.listener (h : s.Inv C) (hs : s.listener C r = some s') : s'.Inv C := by
  simp only [IpfixCollector.listener, Option.bind_eq_bind, Option.bind_eq_some_iff] at hs
  obtain ⟨rc, hr, hs⟩ := hs
  have hsane := h.receivers r rc hr
  have haccepted := hsane.accepted
  split at hs
  · rename_i hpc
    cases hs
    rw [hpc] at haccepted
    refine h.idle hr rfl (by rw [hpc]; rfl) (by cases rc.exit <;> rfl) ?_
    exact haccepted ▸ by cases rc.exit <;> rfl
  · rename_i data hpc
    split at hs
    · rename_i hfree
      cases hs
      have hle : rc.processorCount ≤ s.packetProcessors.length := by
        rcases hsane.told with h0 | ⟨-, hn⟩ <;> omega
      refine h.setReceiver hr (by simp [hpc]) rfl (by simp) ?_ ?_ ?_ ?_
      · intro data' i hi
        cases hi
        exact Nat.zero_le _
      · rw [hpc] at haccepted
        simp only [List.map_append, ListenerPc.waiting, List.append_nil]
        exact haccepted
      · intro x hx
        rcases List.mem_append.mp hx with hx | hx
        · exact hsane.counts x hx
        · rw [List.mem_singleton.mp hx]
          exact hle
      · intro i l hl
        simp only [hpc, ListenerPc.rest, List.append_nil] at hl
        rw [hl, ListenerPc.rest, IpfixReceiver.forwardedTo, IpfixReceiver.forwardedTo,
          List.filter_append,
          List.map_append]
        by_cases hi : i < rc.processorCount
        · simp [hi]
        · simp [hi]
    · cases hs
  · rename_i data i hpc
    split at hs
    · rename_i hi
      cases hs
      refine h.setReceiver hr (by simp [hpc]) rfl (by simp) (by simp) ?_ hsane.counts ?_
      · rw [hpc] at haccepted
        exact haccepted
      · intro j l hl
        rw [hpc, ListenerPc.rest, if_neg (by omega)] at hl
        exact hl
    · rename_i hi
      obtain ⟨p, p', hp, hf, rfl⟩ := IpfixCollector.onProcessor_eq hs
      split at hf
      · rename_i hfree
        cases hf
        have hlt : i < rc.processorCount := Nat.lt_of_le_of_ne (hsane.next data i hpc) hi
        have hserves := (h.processors i p hp).free hfree
        refine h.setBoth hr hp rfl (by rw [hpc]; rfl) rfl (by simp [hpc]) (.inl hfree)
          (by simp) ?_ (by simp)
          ?_ ?_ ?_ ?_ ?_
        · intro data' j t hj
          cases hj
          exact ⟨rfl, hlt, rfl⟩
        · intro r' hr'
          refine ⟨(Option.some.inj hr').symm, data, _, rfl, ?_⟩
          simp only [List.map_append]
          exact hserves.begins data
        · intro c hc
          rcases List.mem_append.mp hc with hc | hc
          · exact .inr hc
          · rw [List.mem_singleton.mp hc]
            exact .inl rfl
        · intro r' hr'
          rw [IpfixPacketProcessor.callsOf_begun, if_neg (Ne.symm hr'), List.append_nil]
        · intro j hj
          simp only [hpc, ListenerPc.rest]
          exact if_congr (by omega) rfl rfl
        · rw [IpfixPacketProcessor.callsOf_begun, if_pos rfl, hpc, ListenerPc.rest, ListenerPc.rest,
            if_neg (by omega), if_pos (by omega), List.append_nil]
      · cases hf
  · cases hs

theorem IpfixCollector.Inv.call (h : s.Inv C) {x : σ} {t : τ} (hallows : s.Allows C (.call r x t))
    (hs : s.step C (.call r x t) = some s') : s'.Inv C := by
  simp only [IpfixCollector.step, Option.bind_eq_bind, Option.bind_eq_some_iff] at hs
  obtain ⟨rc, hr, hs⟩ := hs
  split at hs
  · rename_i data i u hpc
    obtain ⟨p, p', hp, hf, rfl⟩ := IpfixCollector.onProcessor_eq hs
    cases hf
    obtain ⟨hlt, q, hq, hm⟩ := (h.receivers r rc hr).call data i u hpc
    rw [hp] at hq
    cases hq
    obtain ⟨hfree, hheld, hcallers⟩ := h.processors i p hp
    have hin : C.InCall p.created (p.calls.map Prod.snd) p.ipfixParser u := by
      obtain ⟨rc', data', t', hr', hpc', hin⟩ := hheld r hm
      rw [hr] at hr'
      cases hr'
      rw [hpc] at hpc'
      cases hpc'
      exact hin
    refine h.setBoth hr hp rfl (by rw [hpc]; rfl) rfl ?_ (.inr hm) (by simp) ?_ ?_ ?_ ?_
      (fun _ _ => rfl) ?_ ?_
    · intro data' j t' hj
      rw [hpc] at hj
      cases hj
      rfl
    · intro data' j t' hj
      cases hj
      exact ⟨rfl, hlt, hm⟩
    · intro hno
      rw [show p.mutex = none from hno] at hm
      cases hm
    · intro r' hr'
      rw [show p.mutex = some r' from hr'] at hm
      exact ⟨Option.some.inj hm, data, t, rfl, hin.step (hallows rc data i u p hr hpc hp)⟩
    · exact fun c hc => .inr hc
    · intro j hj
      rw [hpc]
      rfl
    · rw [hpc]
      rfl
  · cases hs

theorem IpfixCollector.Inv.return (h : s.Inv C) (hallows : s.Allows C (.return r))
    (hs : s.step C (.return r) = some s') : s'.Inv C := by
  simp only [IpfixCollector.step, Option.bind_eq_bind, Option.bind_eq_some_iff] at hs
  obtain ⟨rc, hr, hs⟩ := hs
  split at hs
  · rename_i data i u hpc
    obtain ⟨p, p', hp, hf, rfl⟩ := IpfixCollector.onProcessor_eq hs
    cases hf
    obtain ⟨hlt, q, hq, hm⟩ := (h.receivers r rc hr).call data i u hpc
    rw [hp] at hq
    cases hq
    obtain ⟨hfree, hheld, hcallers⟩ := h.processors i p hp
    refine h.setBoth hr hp rfl (by rw [hpc]; rfl) rfl ?_ (.inr hm) ?_ (by simp) ?_ (by simp) ?_
      (fun _ _ => rfl) ?_ ?_
    · intro data' j t' hj
      rw [hpc] at hj
      cases hj
      rfl
    · intro data' j hj
      cases hj
      exact hlt
    · intro _
      obtain ⟨rc', data', t', hr', hpc', hin⟩ := hheld r hm
      rw [hr] at hr'
      cases hr'
      exact hin.returns (hallows rc data' i t' hr hpc')
    · exact fun c hc => .inr hc
    · intro j hj
      simp only [hpc, ListenerPc.rest]
      exact if_congr (by omega) rfl rfl
    · simp only [hpc, ListenerPc.rest]
      exact congrArg _ (if_congr (by omega) rfl rfl)
  · cases hs

theorem IpfixCollector.inv_step {op : ReceiverOp σ μ τ} (h : s.Inv C) (hpaused : s.Paused op)
    (hallows : s.Allows C op) (hs : s.step C op = some s') : s'.Inv C := by
  cases op with
  | createIpfixReceiver =>
    cases hs
    exact h.createIpfixReceiver
  | addIpfixReceiver r =>
    simp only [IpfixCollector.step] at hs
    split at hs
    · cases hs
      exact h.addIpfixReceiver
    · cases hs
  | addAuthorizedHost r host =>
    obtain ⟨rc, rc', hr, hf, rfl⟩ := IpfixCollector.onReceiver_eq hs
    cases hf
    exact h.caller hr Iff.rfl
  | addIpfixPacketProcessor x =>
    cases hs
    exact h.addIpfixPacketProcessor hpaused
  | startIpfixReceiver r =>
    obtain ⟨rc, rc', hr, hf, rfl⟩ := IpfixCollector.onReceiver_eq hs
    unfold IpfixReceiver.start at hf
    split at hf
    · rename_i hm
      cases hf
      exact h.caller hr (by rw [hm]; simp)
    · cases hf
  | stopIpfixReceiver r =>
    obtain ⟨rc, rc', hr, hf, rfl⟩ := IpfixCollector.onReceiver_eq hs
    unfold IpfixReceiver.stop at hf
    split at hf
    · rename_i hm
      cases hf
      exact h.caller hr (by rw [hm]; simp)
    · cases hf
  | setExit r =>
    obtain ⟨rc, rc', hr, hf, rfl⟩ := IpfixCollector.onReceiver_eq hs
    unfold IpfixReceiver.setExit at hf
    split at hf
    · rename_i hm
      cases hf
      exact h.caller hr (by rw [hm]; simp)
    · cases hf
  | recvfrom r datagram =>
    obtain ⟨rc, rc', hr, hf, rfl⟩ := IpfixCollector.onReceiver_eq hs
    exact h.recvfrom hr hf
  | listener r => exact h.listener hs
  | call r x t => exact h.call hallows hs
  | «return» r => exact h.return hallows hs

theorem IpfixCollector.inv_reachable
    (h : ((ipfixCollector C).restrict IpfixCollector.Paused).Reachable s) :
    s.Inv C := by
  refine LTS.Inductive.reachable (I := IpfixCollector.Inv C) ⟨?_, ?_⟩ s h
  · rintro s rfl
    refine ⟨?_, ?_, ?_⟩
    · intro r rc hr
      cases hr
    · intro i p hp
      cases hp
    · intro r rc i p hr
      cases hr
  · intro s op s' h hs
    obtain ⟨⟨hallows, hstep⟩, hpaused⟩ := hs
    exact IpfixCollector.inv_step h hpaused hallows hstep

/-! ## The processors -/

theorem IpfixCollector.next (h : ((ipfixCollector C).restrict IpfixCollector.Paused).Reachable s)
    (op : ReceiverOp σ μ τ) (hallows : s.Allows C op) (hpaused : s.Paused op)
    (hs : s.step C op = some s') :
    ((ipfixCollector C).restrict IpfixCollector.Paused).Reachable s' :=
  .step h ⟨⟨hallows, hs⟩, hpaused⟩

/-- Steps that are not about calls and add no processor. -/
def ReceiverOp.plain : ReceiverOp σ μ τ → Bool
  | .addIpfixPacketProcessor _ => false
  | .call _ _ _ => false
  | .return _ => false
  | _ => true

theorem IpfixCollector.nexts (h : ((ipfixCollector C).restrict IpfixCollector.Paused).Reachable s)
    (ops : List (ReceiverOp σ μ τ)) (hplain : ops.all ReceiverOp.plain = true)
    (hs : ops.foldlM (IpfixCollector.step C) s = some s') :
    ((ipfixCollector C).restrict IpfixCollector.Paused).Reachable s' := by
  induction ops generalizing s with
  | nil =>
    cases hs
    exact h
  | cons op ops ih =>
    simp only [List.all_cons, Bool.and_eq_true] at hplain
    simp only [List.foldlM_cons, Option.bind_eq_bind, Option.bind_eq_some_iff] at hs
    obtain ⟨s₁, hstep, hs⟩ := hs
    have hfree : s.Allows C op ∧ s.Paused op := by
      cases op <;> first | exact ⟨trivial, trivial⟩ | exact absurd hplain.1 Bool.false_ne_true
    exact ih (IpfixCollector.next h op hfree.1 hfree.2 hstep) hplain.2 hs

/-- A step of the one call that a receiver is in. -/
theorem IpfixCollector.allows_call {rc : IpfixReceiver μ τ} {p : IpfixPacketProcessor σ μ} {i : Nat}
    {data : μ} {u t : τ} {x : σ} (hr : s.receivers[r]? = some rc) (hpc : rc.pc = .call data i u)
    (hp : s.packetProcessors[i]? = some p) (hstep : C.step p.ipfixParser u x t) :
    s.Allows C (.call r x t) := by
  intro rc' data' i' u' p' hr' hpc' hp'
  rw [hr] at hr'
  cases hr'
  rw [hpc] at hpc'
  cases hpc'
  rw [hp] at hp'
  cases hp'
  exact hstep

theorem IpfixCollector.allows_return {rc : IpfixReceiver μ τ} {i : Nat} {data : μ} {u : τ}
    (hr : s.receivers[r]? = some rc) (hpc : rc.pc = .call data i u) (hret : C.returned u) :
    s.Allows C (.return r) := by
  intro rc' data' i' u' hr' hpc'
  rw [hr] at hr'
  cases hr'
  rw [hpc] at hpc'
  cases hpc'
  exact hret

/-- A callback that adds the message to a sum. -/
def sampleCalls : Calls Nat Nat Nat := ⟨id, fun s t s' t' => s' = s + t ∧ t' = 0, (· = 0)⟩

/-- Two receivers that were just created are paused. -/
theorem paused_created : ∀ r ∈ [0, 1], ∀ rc,
    [(IpfixReceiver.create : IpfixReceiver μ τ), IpfixReceiver.create][r]? = some rc →
      rc.mutex = some .caller := by
  intro r hr rc hrc
  have hrc := List.mem_of_getElem? hrc
  simp only [List.mem_cons, List.not_mem_nil, or_false, or_self] at hrc
  cases hrc
  rfl

/-- Two receivers and one processor: both threads have the mutexes of their receivers and a message
in hand, and are about to ask for the processor. -/
def sampleAsking : IpfixCollector Nat Nat Nat :=
  ⟨[⟨[], 1, false, some .listener, .next 5 0, [([], 7, 5)], [(5, 1)]⟩,
    ⟨[], 1, false, some .listener, .next 9 0, [([], 8, 9)], [(9, 1)]⟩], [0, 1], [⟨0, none, 0, []⟩]⟩

theorem reachable_sampleAsking :
    ((ipfixCollector sampleCalls).restrict IpfixCollector.Paused).Reachable sampleAsking := by
  have h0 : ((ipfixCollector sampleCalls).restrict IpfixCollector.Paused).Reachable .init :=
    .init rfl
  have h1 := IpfixCollector.nexts h0
    [.createIpfixReceiver, .createIpfixReceiver, .addIpfixReceiver 0, .addIpfixReceiver 1] rfl rfl
  have h2 := IpfixCollector.next h1 (.addIpfixPacketProcessor 0) trivial paused_created rfl
  exact IpfixCollector.nexts h2 [.startIpfixReceiver 0, .startIpfixReceiver 1, .listener 0,
    .listener 1, .recvfrom 1 (some (8, 9)), .recvfrom 0 (some (7, 5)), .listener 0, .listener 1]
    rfl rfl

/-- The processor has had a message of each receiver and is in a call of the first one; the second
one waits for it. -/
def sampleReceiving : IpfixCollector Nat Nat Nat :=
  ⟨[⟨[], 1, false, some .listener, .call 6 0 6, [([], 7, 5), ([], 7, 6)], [(5, 1), (6, 1)]⟩,
    ⟨[], 1, false, some .listener, .next 4 0, [([], 8, 9), ([], 8, 4)], [(9, 1), (4, 1)]⟩], [0, 1],
    [⟨14, some 0, 0, [(1, 9), (0, 5), (0, 6)]⟩]⟩

theorem reachable_sampleReceiving :
    ((ipfixCollector sampleCalls).restrict IpfixCollector.Paused).Reachable sampleReceiving := by
  have h1 := IpfixCollector.nexts reachable_sampleAsking [.listener 1] rfl rfl
  have h2 := IpfixCollector.next h1 (.call 1 9 0)
    (IpfixCollector.allows_call rfl rfl rfl ⟨rfl, rfl⟩) trivial rfl
  have h3 :=
    IpfixCollector.next h2 (.return 1) (IpfixCollector.allows_return rfl rfl rfl) trivial rfl
  have h4 := IpfixCollector.nexts h3 [.listener 0, .listener 1] rfl rfl
  have h5 := IpfixCollector.next h4 (.call 0 14 0)
    (IpfixCollector.allows_call rfl rfl rfl ⟨rfl, rfl⟩) trivial rfl
  have h6 :=
    IpfixCollector.next h5 (.return 0) (IpfixCollector.allows_return rfl rfl rfl) trivial rfl
  exact IpfixCollector.nexts h6 [.listener 0, .listener 0, .listener 1, .recvfrom 0 (some (7, 6)),
    .recvfrom 1 (some (8, 4)), .listener 1, .listener 0, .listener 0] rfl rfl

/-- A parser is always at a point of a run of calls one after the other, each with a message that
its receiver handed to it; only the thread that has the mutex is in a call. -/
theorem serves (h : ((ipfixCollector C).restrict IpfixCollector.Paused).Reachable s) {i : Nat}
    {p : IpfixPacketProcessor σ μ} (hp : s.packetProcessors[i]? = some p) :
    (p.mutex = none → C.Serves p.created (p.calls.map Prod.snd) p.ipfixParser) ∧
    (∀ r, p.mutex = some r → ∃ rc data t, s.receivers[r]? = some rc ∧ rc.pc = .call data i t ∧
      C.InCall p.created (p.calls.map Prod.snd) p.ipfixParser t) ∧
    ∀ (r : Nat) (rc : IpfixReceiver μ τ) data t, s.receivers[r]? = some rc →
    rc.pc = .call data i t →
      p.mutex = some r := by
  have hinv := IpfixCollector.inv_reachable h
  obtain ⟨hfree, hheld, -⟩ := hinv.processors i p hp
  refine ⟨hfree, hheld, fun r rc data t hr hpc => ?_⟩
  obtain ⟨-, q, hq, hm⟩ := (hinv.receivers r rc hr).call data i t hpc
  rw [hp] at hq
  cases hq
  exact hm

theorem serves_sample : ∃ rc data t, sampleReceiving.receivers[0]? = some rc ∧
    rc.pc = .call data 0 t ∧ sampleCalls.InCall 0 [9, 5, 6] 14 t :=
  (serves reachable_sampleReceiving (i := 0) rfl).2.1 0 rfl

/-- The step is one of the system. -/
def IpfixCollector.CanStep (C : Calls σ μ τ) (s : IpfixCollector σ μ τ) (op : ReceiverOp σ μ τ) :
    Prop :=
  ∃ s', (ipfixCollector C).step s op s'

/-- Every call that is under way can take a step or return. -/
def IpfixCollector.CallsGo (C : Calls σ μ τ) (s : IpfixCollector σ μ τ) : Prop :=
  ∀ (r : Nat) (rc : IpfixReceiver μ τ) (data : μ) (i : Nat) (t : τ) (p : IpfixPacketProcessor σ μ),
    s.receivers[r]? = some rc → rc.pc = .call data i t → s.packetProcessors[i]? = some p →
      C.returned t ∨ ∃ x t', C.step p.ipfixParser t x t'

/-- The call that receiver `r` is in goes on. -/
def IpfixCollector.CallGoes (C : Calls σ μ τ) (s : IpfixCollector σ μ τ) (r : Nat) : Prop :=
  s.CanStep C (.return r) ∨ ∃ x t, s.CanStep C (.call r x t)

theorem IpfixCollector.canStep {op : ReceiverOp σ μ τ} (hallows : s.Allows C op)
    (hs : (s.step C op).isSome = true) : s.CanStep C op := by
  obtain ⟨s', hs'⟩ := Option.isSome_iff_exists.mp hs
  exact ⟨s', hallows, hs'⟩

theorem IpfixCollector.canStep_listener (hs : (s.listener C r).isSome = true) :
    s.CanStep C (.listener r) :=
  IpfixCollector.canStep trivial hs

theorem IpfixCollector.Inv.callGoes (h : s.Inv C) (hgo : s.CallsGo C)
    (hr : s.receivers[r]? = some rc)
    {data : μ} {i : Nat} {t : τ} (hpc : rc.pc = .call data i t) : s.CallGoes C r := by
  obtain ⟨-, p, hp, -⟩ := (h.receivers r rc hr).call data i t hpc
  rcases hgo r rc data i t p hr hpc hp with hret | ⟨x, t', hstep⟩
  · refine .inl (IpfixCollector.canStep (IpfixCollector.allows_return hr hpc hret) ?_)
    simp [IpfixCollector.step, IpfixCollector.onProcessor, hr, hpc, hp]
  · refine .inr ⟨x, t', IpfixCollector.canStep (IpfixCollector.allows_call hr hpc hp hstep) ?_⟩
    simp [IpfixCollector.step, IpfixCollector.onProcessor, hr, hpc, hp]

/-- Where every call that is under way can go on or return, a thread waits for a message, for its
caller, or for another thread whose call goes on. -/
theorem listener_proceeds (h : ((ipfixCollector C).restrict IpfixCollector.Paused).Reachable s)
    (hgo : s.CallsGo C) (hr : s.receivers[r]? = some rc) :
    match rc.pc with
    | .recvfrom | .ended => True
    | .exit => s.CanStep C (.listener r)
    | .lock _ => s.CanStep C (.listener r) ∨
        rc.mutex = some .caller ∨ rc.mutex = some .stopping
    | .next _ i => s.CanStep C (.listener r) ∨
        ∃ (r' : Nat) (rc' : IpfixReceiver μ τ) (data : μ) (t : τ), r' ≠ r ∧
          s.receivers[r']? = some rc' ∧ rc'.pc = .call data i t ∧ s.CallGoes C r'
    | .call _ _ _ => s.CallGoes C r := by
  have hinv := IpfixCollector.inv_reachable h
  have hsane := hinv.receivers r rc hr
  cases hpc : rc.pc with
  | recvfrom => trivial
  | ended => trivial
  | exit => exact IpfixCollector.canStep_listener (by simp [IpfixCollector.listener, hr, hpc])
  | lock data =>
    have hmutex := hsane.mutex
    rw [hpc] at hmutex
    cases hm : rc.mutex with
    | none =>
      exact .inl (IpfixCollector.canStep_listener (by simp [IpfixCollector.listener, hr, hpc, hm]))
    | some holder =>
      cases holder with
      | caller => exact .inr (.inl rfl)
      | stopping => exact .inr (.inr rfl)
      | listener => simp [hm] at hmutex
  | next data i =>
    by_cases hi : i = rc.processorCount
    · exact .inl (IpfixCollector.canStep_listener (by simp [IpfixCollector.listener, hr, hpc, hi]))
    · have hlt : i < s.packetProcessors.length := by
        have hle := hsane.next data i hpc
        rcases hsane.told with h0 | ⟨-, hn⟩ <;> omega
      have hp : s.packetProcessors[i]? = some s.packetProcessors[i] := List.getElem?_eq_getElem hlt
      cases hm : s.packetProcessors[i].mutex with
      | none =>
        refine .inl (IpfixCollector.canStep_listener ?_)
        simp [IpfixCollector.listener, IpfixCollector.onProcessor, hr, hpc, hi, hp, hm]
      | some r' =>
        obtain ⟨rc', data', t, hr', hpc', -⟩ := (hinv.processors i _ hp).held r' hm
        refine .inr ⟨r', rc', data', t, ?_, hr', hpc', hinv.callGoes hgo hr' hpc'⟩
        rintro rfl
        rw [hr] at hr'
        cases hr'
        rw [hpc] at hpc'
        cases hpc'
  | call data i t => exact hinv.callGoes hgo hr hpc

theorem callsGo_sample : sampleReceiving.CallsGo sampleCalls :=
  fun _ _ _ _ t p _ _ _ => .inr ⟨p.ipfixParser + t, 0, rfl, rfl⟩

/-- The second receiver waits for the call of the first one. -/
theorem listener_proceeds_sample : sampleReceiving.CanStep sampleCalls (.listener 1) ∨
    ∃ (r' : Nat) (rc' : IpfixReceiver Nat Nat) (data t : Nat), r' ≠ 1 ∧
      sampleReceiving.receivers[r']? = some rc' ∧ rc'.pc = .call data 0 t ∧
      sampleReceiving.CallGoes sampleCalls r' :=
  listener_proceeds reachable_sampleReceiving callsGo_sample (r := 1) rfl

end Steps

end Topas
