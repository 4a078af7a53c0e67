import Topas.Core.LTS
import Topas.L4Module.Callbacks

/-!
# One storage for each record

With `UnbufferedFilesInputPolicy` each record gets a storage of its own. The work thread
is in the parser's callback: it takes `recordMutex`, appends a new storage to `buffers`,
adds 1 to `packetLock`, hands the record to the storage, and gives `recordMutex` back. The
test thread, in `getStorage`, takes 1 from `packetLock`, and under `recordMutex` the first
storage from `buffers`. Both `Mutex`es are semaphores; their steps and those in between
interleave in any order.

* `handed_over`: the storages come out in the order of their records, each once and with
  all that was handed to it; the value of `packetLock` is the number of storages that the
  test thread has not claimed; a record is dropped only when `maxBuffers` storages wait.
* `getStorage_proceeds`: the test thread waits only when there is no storage, or the work
  thread is about to wake it.

A storage is a number, and what was handed to it the list of calls that were made of it
(`StoreCall`).
-/
namespace Topas

/-- Where the work thread is; `buf` is the storage that it has appended, and `calls` are
those that are still to be made of it.
mirrors detectionmodules/detectionbase/detectcallbacks.h:49-73,
detectionmodules/detectionbase/filepolicy.h:345-356 -/
inductive ProducerPc where
  | idle
  | getBuffer (calls : List StoreCall)
  | unlockPacket (buf : Nat) (calls : List StoreCall)
  | fill (buf : Nat) (calls : List StoreCall)
  | unlock
  deriving DecidableEq, Repr

/-- Where the test thread is.
mirrors detectionmodules/detectionbase/filepolicy.h:335-343 -/
inductive ConsumerPc where
  | idle
  | lockRecord
  | pop
  | unlock (ret : Nat)
  deriving DecidableEq, Repr

/-- `storages` are the contents of all storages, by number. `records`, `arrived` and
`delivered` are ghosts: the records that have got a storage, how many have arrived, and the
storages that `getStorage` has returned. -/
structure Unbuffered where
  storages : List (List StoreCall)
  buffers : List Nat
  bufferErrors : Nat
  packetLock : Nat
  recordMutex : Nat
  producer : ProducerPc
  consumer : ConsumerPc
  records : List (List StoreCall)
  arrived : Nat
  delivered : List Nat
  deriving DecidableEq, Repr

inductive UnbufferedOp where
  | newDataRecordArrived (calls : List StoreCall)
  | producer
  | consumer
  deriving DecidableEq, Repr

namespace Unbuffered

/-- mirrors detectionmodules/detectionbase/filepolicy.h:323 -/
def maxBuffers : Nat := 4096

/-- mirrors detectionmodules/detectionbase/filepolicy.h:323-325 -/
def init : Unbuffered := ⟨[], [], 0, 0, 1, .idle, .idle, [], 0, []⟩

/-- The work thread. -/
def produce (s : Unbuffered) : Option Unbuffered :=
  match s.producer with
  | .idle => none
  | .getBuffer calls =>
    if maxBuffers ≤ s.buffers.length then
      some { s with bufferErrors := s.bufferErrors + 1, producer := .unlock }
    else
      some { s with
        storages := s.storages ++ [[]]
        buffers := s.buffers ++ [s.storages.length]
        producer := .unlockPacket s.storages.length calls
        records := s.records ++ [calls] }
  | .unlockPacket buf calls =>
    some { s with packetLock := s.packetLock + 1, producer := .fill buf calls }
  | .fill buf (c :: calls) =>
    some { s with storages := s.storages.modify buf (· ++ [c]), producer := .fill buf calls }
  | .fill _ [] => some { s with producer := .unlock }
  | .unlock => some { s with recordMutex := s.recordMutex + 1, producer := .idle }

/-- `getStorage`, or `none` where it blocks. -/
def consume (s : Unbuffered) : Option Unbuffered :=
  match s.consumer with
  | .idle =>
    if 0 < s.packetLock then some { s with packetLock := s.packetLock - 1, consumer := .lockRecord }
    else none
  | .lockRecord =>
    if 0 < s.recordMutex then some { s with recordMutex := s.recordMutex - 1, consumer := .pop }
    else none
  | .pop =>
    match s.buffers with
    | [] => none
    | ret :: buffers => some { s with buffers := buffers, consumer := .unlock ret }
  | .unlock ret =>
    some { s with
      recordMutex := s.recordMutex + 1
      consumer := .idle
      delivered := s.delivered ++ [ret] }

def step (s : Unbuffered) : UnbufferedOp → Option Unbuffered
  | .newDataRecordArrived calls =>
    if s.producer = .idle ∧ 0 < s.recordMutex then
      some { s with
        recordMutex := s.recordMutex - 1
        producer := .getBuffer calls
        arrived := s.arrived + 1 }
    else none
  | .producer => s.produce
  | .consumer => s.consume

end Unbuffered

def unbuffered : LTS Unbuffered UnbufferedOp := .ofStep (· = Unbuffered.init) Unbuffered.step

theorem Unbuffered.reachable_exec {G : Unbuffered → UnbufferedOp → Prop} [∀ s, DecidablePred (G s)]
    {s : Unbuffered} {ops : List UnbufferedOp} (h : LTS.exec G Unbuffered.step .init ops = some s) :
    (unbuffered.restrict G).Reachable s :=
  LTS.Reachable.exec (.init rfl) h

/-! ## The invariant -/

/-- The work thread has `recordMutex`. -/
@[simp] def ProducerPc.holds : ProducerPc → Nat
  | idle => 0
  | _ => 1

/-- The test thread has `recordMutex`. -/
@[simp] def ConsumerPc.holds : ConsumerPc → Nat
  | pop => 1
  | unlock _ => 1
  | _ => 0

/-- A storage that is appended and not signalled. -/
@[simp] def ProducerPc.unsignalled : ProducerPc → Nat
  | unlockPacket _ _ => 1
  | _ => 0

/-- A storage that is claimed and not popped. -/
@[simp] def ConsumerPc.claimed : ConsumerPc → Nat
  | lockRecord => 1
  | pop => 1
  | _ => 0

/-- A storage that is popped and not returned. -/
@[simp] def ConsumerPc.popped : ConsumerPc → List Nat
  | unlock ret => [ret]
  | _ => []

/-- A record that has not got a storage, and may be dropped. -/
@[simp] def ProducerPc.undecided : ProducerPc → Nat
  | getBuffer _ => 1
  | _ => 0

/-- The storage that is being filled, and what it has still to be handed. -/
def ProducerPc.rest : ProducerPc → Option (Nat × List StoreCall)
  | unlockPacket buf calls => some (buf, calls)
  | fill buf calls => some (buf, calls)
  | _ => none

/-- The storages hold the records, but for what is still to be handed to the last of them, which
is still in `buffers`. -/
def Unbuffered.Filled (s : Unbuffered) : Prop :=
  match s.producer.rest with
  | none => s.storages = s.records
  | some (buf, calls) => s.buffers ≠ [] ∧ ∃ stored made, stored.length = buf ∧
    s.storages = stored ++ [made] ∧ s.records = stored ++ [made ++ calls]

structure Unbuffered.Inv (s : Unbuffered) : Prop where
  mutex : s.recordMutex + s.producer.holds + s.consumer.holds = 1
  packetLock : s.packetLock + s.consumer.claimed + s.producer.unsignalled = s.buffers.length
  order : s.delivered ++ s.consumer.popped ++ s.buffers = List.range s.storages.length
  filled : s.Filled
  limit : s.buffers.length ≤ Unbuffered.maxBuffers
  arrived : s.records.length + s.bufferErrors + s.producer.undecided = s.arrived

section Steps

variable {s s' : Unbuffered} {op : UnbufferedOp}

theorem modify_last {α : Type} (f : α → α) (xs : List α) (a : α) :
    (xs ++ [a]).modify xs.length f = xs ++ [f a] := by
  induction xs with
  | nil => rfl
  | cons x xs ih => rw [List.cons_append, List.length_cons, List.modify_succ_cons, ih]; rfl

theorem Unbuffered.Inv.newDataRecordArrived (h : s.Inv) (calls : List StoreCall)
    (hp : s.producer = .idle) (hm : 0 < s.recordMutex) : Unbuffered.Inv { s with
      recordMutex := s.recordMutex - 1
      producer := .getBuffer calls
      arrived := s.arrived + 1 } := by
  obtain ⟨hmutex, hlock, horder, hfilled, hlimit, harrived⟩ := h
  unfold Unbuffered.Filled at hfilled
  rw [hp] at hmutex hlock hfilled harrived
  refine ⟨?_, hlock, horder, hfilled, hlimit, congrArg (· + 1) harrived⟩
  simp at hmutex ⊢
  omega

theorem Unbuffered.Inv.produce (h : s.Inv) (hs : s.produce = some s') : s'.Inv := by
  obtain ⟨hmutex, hlock, horder, hfilled, hlimit, harrived⟩ := h
  unfold Unbuffered.Filled at hfilled
  unfold Unbuffered.produce at hs
  cases hp : s.producer with
  | idle => rw [hp] at hs; cases hs
  | getBuffer calls =>
    rw [hp] at hmutex hlock hfilled harrived
    have hfilled : s.storages = s.records := hfilled
    simp only [hp] at hs
    split at hs
    · cases hs
      exact
        ⟨hmutex, hlock, horder, hfilled, hlimit, by rw [← harrived]; exact Nat.add_right_comm _ _ _⟩
    · rename_i hlt
      cases hs
      refine ⟨hmutex, ?_, ?_, ?_, ?_, ?_⟩
      · simpa using hlock
      · show s.delivered ++ s.consumer.popped ++ (s.buffers ++ [s.storages.length]) =
          List.range (s.storages ++ [[]]).length
        rw [← List.append_assoc, horder, List.length_append, List.length_singleton, List.range_succ]
      · exact ⟨List.append_ne_nil_of_right_ne_nil _ (List.cons_ne_nil _ _), s.storages, [],
            rfl, rfl, by
          show s.records ++ [calls] = _
          rw [hfilled, List.nil_append]⟩
      · show (s.buffers ++ [s.storages.length]).length ≤ Unbuffered.maxBuffers
        rw [List.length_append, List.length_singleton]
        omega
      · simp at harrived ⊢
        omega
  | unlockPacket buf calls =>
    rw [hp] at hmutex hlock hfilled harrived hs
    cases hs
    refine ⟨hmutex, ?_, horder, hfilled, hlimit, harrived⟩
    simp at hlock ⊢
    omega
  | fill buf calls =>
    rw [hp] at hmutex hlock hfilled harrived hs
    obtain ⟨hne, stored, made, hbuf, hstorages, hrecords⟩ := hfilled
    cases calls with
    | nil =>
      cases hs
      refine ⟨hmutex, hlock, horder, ?_, hlimit, harrived⟩
      show s.storages = s.records
      rw [hstorages, hrecords, List.append_nil]
    | cons c calls =>
      cases hs
      have hmodify : s.storages.modify buf (· ++ [c]) = stored ++ [made ++ [c]] := by
        rw [hstorages, ← hbuf, modify_last]
      refine ⟨hmutex, hlock, ?_, ⟨hne, stored, made ++ [c], hbuf, hmodify, ?_⟩, hlimit, harrived⟩
      · show s.delivered ++ s.consumer.popped ++ s.buffers = List.range
          (s.storages.modify buf _).length
        rw [List.length_modify]
        exact horder
      · rw [hrecords, List.append_assoc, List.singleton_append]
  | unlock =>
    rw [hp] at hmutex hlock hfilled harrived hs
    cases hs
    refine ⟨?_, hlock, horder, hfilled, hlimit, harrived⟩
    simp at hmutex ⊢
    omega

theorem Unbuffered.Inv.consume (h : s.Inv) (hs : s.consume = some s') : s'.Inv := by
  obtain ⟨hmutex, hlock, horder, hfilled, hlimit, harrived⟩ := h
  unfold Unbuffered.consume at hs
  cases hc : s.consumer with
  | idle =>
    simp only [hc] at hs
    rw [hc] at hmutex hlock horder
    split at hs
    · cases hs
      refine ⟨hmutex, ?_, horder, hfilled, hlimit, harrived⟩
      simp at hlock ⊢
      omega
    · cases hs
  | lockRecord =>
    simp only [hc] at hs
    rw [hc] at hmutex hlock horder
    split at hs
    · cases hs
      refine ⟨?_, hlock, horder, hfilled, hlimit, harrived⟩
      simp at hmutex ⊢
      omega
    · cases hs
  | pop =>
    simp only [hc] at hs
    rw [hc] at hmutex hlock horder
    split at hs
    · cases hs
    · rename_i ret buffers hb
      cases hs
      rw [hb] at hlock horder hlimit
      refine ⟨hmutex, ?_, ?_, ?_, Nat.le_of_succ_le hlimit, harrived⟩
      · simp at hlock ⊢
        omega
      · simpa using horder
      · -- the work thread is not filling a storage while the test thread has the mutex
        have hrest : s.producer.rest = none := by
          cases hp : s.producer with
          | idle => rfl
          | _ => rw [hp] at hmutex; simp at hmutex
        simp only [Unbuffered.Filled, hrest] at hfilled ⊢
        exact hfilled
  | unlock ret =>
    rw [hc] at hs hmutex hlock horder
    cases hs
    refine ⟨?_, hlock, ?_, hfilled, hlimit, harrived⟩
    · simp at hmutex ⊢
      omega
    · simpa using horder

theorem Unbuffered.inv_reachable (h : unbuffered.Reachable s) : s.Inv := by
  refine LTS.Inductive.reachable (I := Unbuffered.Inv) ⟨?_, ?_⟩ s h
  · intro s hs
    cases hs
    exact ⟨rfl, rfl, rfl, rfl, Nat.zero_le _, rfl⟩
  · intro s op s' h hs
    cases op with
    | newDataRecordArrived calls =>
      unfold unbuffered LTS.ofStep Unbuffered.step at hs
      simp only at hs
      split at hs
      · rename_i hl
        cases hs
        exact h.newDataRecordArrived calls hl.1 hl.2
      · cases hs
    | producer => exact h.produce hs
    | consumer => exact h.consume hs

/-- Only where `maxBuffers` storages wait is a record dropped. -/
theorem Unbuffered.Inv.dropped (h : s.Inv) (hs : s.step op = some s')
    (hd : s'.bufferErrors ≠ s.bufferErrors) :
    s.buffers.length = Unbuffered.maxBuffers := by
  have hlimit := h.limit
  cases op with
  | newDataRecordArrived calls =>
    unfold Unbuffered.step at hs
    simp only at hs
    split at hs
    · cases hs; exact absurd rfl hd
    · cases hs
  | producer =>
    have hs : s.produce = some s' := hs
    unfold Unbuffered.produce at hs
    split at hs
    · cases hs
    · split at hs
      · omega
      · cases hs; exact absurd rfl hd
    all_goals cases hs; exact absurd rfl hd
  | consumer =>
    have hs : s.consume = some s' := hs
    unfold Unbuffered.consume at hs
    repeat' split at hs
    all_goals cases hs
    all_goals exact absurd rfl hd

end Steps

section HandOver

variable {s : Unbuffered}

/-- Storages are returned by number. -/
theorem Unbuffered.Inv.delivered_lt (h : s.Inv) {ret : Nat} (hret : ret ∈ s.delivered) :
    ret + s.buffers.length < s.storages.length := by
  have horder := h.order
  have hlen := congrArg List.length horder
  simp only [List.length_append, List.length_range] at hlen
  obtain ⟨i, hi⟩ := List.getElem?_of_mem hret
  have hilt := (List.getElem?_eq_some_iff.mp hi).1
  have hget := congrArg (·[i]?) horder
  simp only [List.append_assoc, List.getElem?_append_left hilt, hi,
    List.getElem?_range (show i < s.storages.length by omega), Option.some.injEq] at hget
  omega

/-- A storage that was returned holds its record, and the work thread is done with it. -/
theorem Unbuffered.Inv.delivered (h : s.Inv) {ret : Nat} (hret : ret ∈ s.delivered) :
    (∃ calls, s.storages[ret]? = some calls ∧ s.records[ret]? = some calls) ∧
      ∀ calls, s.producer.rest ≠ some (ret, calls) := by
  have hlt := h.delivered_lt hret
  have hfilled := h.filled
  unfold Unbuffered.Filled at hfilled
  cases hrest : s.producer.rest with
  | none =>
    rw [hrest] at hfilled
    have hfilled : s.storages = s.records := hfilled
    have hget : s.storages[ret]? = some s.storages[ret] := List.getElem?_eq_getElem (by omega)
    exact ⟨⟨_, hget, hfilled ▸ hget⟩, fun _ h => nomatch h⟩
  | some r =>
    obtain ⟨buf, calls⟩ := r
    rw [hrest] at hfilled
    obtain ⟨hne, stored, made, hbuf, hstorages, hrecords⟩ := hfilled
    have hpos := List.length_pos_iff.mpr hne
    rw [hstorages, List.length_append, List.length_singleton] at hlt
    have hlt : ret < stored.length := by omega
    have hget : stored[ret]? = some stored[ret] := List.getElem?_eq_getElem hlt
    refine ⟨⟨stored[ret], ?_, ?_⟩, fun calls' h => ?_⟩
    · rw [hstorages, List.getElem?_append_left hlt, hget]
    · rw [hrecords, List.getElem?_append_left hlt, hget]
    · cases h
      omega

/-- In every interleaving: `packetLock` counts the storages in `buffers` that are signalled and not
claimed; `getStorage` finds a storage; the storages are returned in order and each once, with the
whole record, when the work thread is done with them; every record is stored or counted as an
error, the latter only when the limit is reached. -/
theorem handed_over (h : unbuffered.Reachable s) :
    s.packetLock + s.consumer.claimed + s.producer.unsignalled = s.buffers.length ∧
    (s.consumer = .pop → s.buffers ≠ []) ∧
    s.delivered ++ s.consumer.popped ++ s.buffers = List.range s.storages.length ∧
    (∀ ret ∈ s.delivered, (∃ calls, s.storages[ret]? = some calls ∧ s.records[ret]? = some calls) ∧
      ∀ calls, s.producer.rest ≠ some (ret, calls)) ∧
    s.records.length + s.bufferErrors + s.producer.undecided = s.arrived ∧
    ∀ op s', s.step op = some s' → s'.bufferErrors ≠ s.bufferErrors →
      s.buffers.length = Unbuffered.maxBuffers := by
  have hinv := Unbuffered.inv_reachable h
  refine
    ⟨hinv.packetLock, fun hc => ?_, hinv.order, fun ret hret => hinv.delivered hret, hinv.arrived,
    fun op s' hs hd => hinv.dropped hs hd⟩
  have hlock := hinv.packetLock
  rw [hc] at hlock
  refine List.length_pos_iff.mp ?_
  simp at hlock
  omega

/-- While the test thread waits, there is no storage, or the work thread is about to signal it. -/
theorem getStorage_proceeds (h : unbuffered.Reachable s) (hc : s.consumer = .idle)
    (hblocked : s.consume = none) : s.buffers.length = s.producer.unsignalled := by
  have hlock := (Unbuffered.inv_reachable h).packetLock
  unfold Unbuffered.consume at hblocked
  simp only [hc] at hblocked hlock
  split at hblocked
  · cases hblocked
  · rename_i hzero
    simp only [ConsumerPc.claimed] at hlock
    omega

end HandOver

/-- Two records; the test thread takes the first storage while the second is being filled. -/
def twoRecords : List UnbufferedOp :=
  [.newDataRecordArrived [.recordStart 7, .recordEnd]] ++ List.replicate 6 .producer ++
    [.consumer, .newDataRecordArrived [.recordStart 8]] ++ List.replicate 5 .producer ++
    List.replicate 3 .consumer

theorem handed_over_twoRecords :
    ∃ s, unbuffered.Reachable s ∧ s.packetLock = 1 ∧ s.buffers = [1] ∧ s.delivered = [0] ∧
      (∃ calls, s.storages[0]? = some calls ∧ s.records[0]? = some calls) := by
  let s := (LTS.exec (fun _ _ => True) Unbuffered.step .init twoRecords).get (by decide)
  have hreach : (unbuffered.restrict fun _ _ => True).Reachable s :=
    Unbuffered.reachable_exec (Option.some_get _).symm
  exact ⟨s, hreach.of_restrict, by decide, by decide, by decide,
    ((handed_over hreach.of_restrict).2.2.2.1 0 (by decide)).1⟩

end Topas
