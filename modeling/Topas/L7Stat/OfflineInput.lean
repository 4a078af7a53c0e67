import Topas.Core.LTS
import Topas.L4Module.Unbuffered
import Topas.L7Stat.OfflineFile

/-!
# From the file to the test

`OfflineInputPolicy` with an alarm time of 0. The work thread waits for `bufferLock`, reads the
next storage from the file into `buffer`, and adds 1 to `dataAvailableLock`; at the end of the file
it sets the module's state to `EXIT`. The test thread waits for `dataAvailableLock`, takes what
`buffer` points to, adds 1 to `bufferLock`, and tests the storage if it is valid. Both `Mutex`es are
semaphores, and the steps of the two threads interleave in any order.

* `extract_eq`: which lines a storage is read from depends on the stream alone.
* `storages_handed_over`: the storages are taken in the order of the file, each once and complete,
  and none is replaced before it is taken; at `EXIT` all have been taken, and all of a file whose
  separators end with a newline have been tested.
* `proceeds`: before `EXIT` one of the threads can always go on.

A storage is a number, and its contents the lines that `operator>>` took for it. Once the state is
`EXIT`, `exec` cancels the threads, and either of them may take no further step.
-/
namespace Topas.Wkp

open Text

/-! ## What is read -/

/-- The lines that `operator>>` takes for a storage, and the stream behind them. -/
def batchLoop (is : IfStream) : List (List Char) × IfStream :=
  let next := is.getline.1
  let tmp := is.getline.2
  if next.fail then ([], next)
  else if tmp.take 3 = ['-', '-', '-'] then ([], next)
  else if _heof : next.eof = true then ([], next.close)
  else (tmp :: (batchLoop next).1, (batchLoop next).2)
termination_by is.rest.length
decreasing_by all_goals exact IfStream.rest_getline (by simpa using _heof)

def batch (is : IfStream) : List (List Char) × IfStream :=
    if is.eof then ([], is.close) else batchLoop is

theorem readLoop_eq (cfg : StoreConfig) (s : StatStore) (is : IfStream) :
    StatStore.readLoop cfg s is =
      ((batchLoop is).1.foldlM (StatStore.readLine cfg) s).map fun s => (s, (batchLoop is).2) := by
  induction hn : is.rest.length using Nat.strong_induction_on generalizing s is with
  | _ n ih =>
    rw [StatStore.readLoop, batchLoop]
    by_cases hfail : is.getline.1.fail = true
    · simp [hfail]
    · by_cases hsep : is.getline.2.take 3 = ['-', '-', '-']
      · simp [hfail, hsep]
      · by_cases heof : is.getline.1.eof = true
        · simp [hfail, hsep, heof]
        · have hlt := IfStream.rest_getline (by simpa using heof)
          simp only [hfail, hsep, heof, Bool.false_eq_true, if_false, dite_false, List.foldlM_cons]
          cases s.readLine cfg is.getline.2 with
          | none => rfl
          | some t => exact ih _ (hn ▸ hlt) t _ rfl

/-- What the lines do to the storage does not change where the next one begins. -/
theorem extract_eq (cfg : StoreConfig) (s : StatStore) (is : IfStream) (h : is.eof = false) :
    StatStore.extract cfg s is =
      ((batch is).1.foldlM (StatStore.readLine cfg) { s with data := ∅ }).map fun s =>
      (s, (batch is).2) := by
  simp only [StatStore.extract, batch, h, Bool.false_eq_true, if_false]
  exact readLoop_eq cfg _ is

/-! ## The threads -/

/-- Where the work thread is.
mirrors detectionmodules/detectionbase/detectionbase.h:247-265,
detectionmodules/detectionbase/offlinepolicy.h:62-80 -/
inductive WorkPc where
  | idle
  | lockBuffer
  | isOpen
  | newStorage
  | read (buffer : Nat)
  | setValid (buffer : Nat)
  | unlockData
  | ended
  deriving DecidableEq, Repr

/-- Where the test thread is.
mirrors detectionmodules/detectionbase/detectionbase.h:319-340,
detectionmodules/detectionbase/offlinepolicy.h:85-92 -/
inductive TestPc where
  | idle
  | lockData
  | readBuffer
  | unlockBuffer (ret : Nat)
  | isValid (ret : Nat)
  | test (ret : Nat)
  | ended
  deriving DecidableEq, Repr

structure Batch where
  lines : List (List Char)
  valid : Bool
  deriving DecidableEq, Repr

/-- `storages` are all storages, by number. `taken` and `tested` are ghosts: what `getStorage` has
returned, and the storages whose test has returned. -/
structure OfflineInput where
  inputstr : IfStream
  storages : List Batch
  buffer : Option Nat
  bufferLock : Nat
  dataAvailableLock : Nat
  exit : Bool
  work : WorkPc
  testThread : TestPc
  taken : List Nat
  tested : List Nat
  deriving DecidableEq, Repr

inductive OfflineOp where
  | work
  | test
  deriving DecidableEq, Repr

namespace OfflineInput

/-- mirrors detectionmodules/detectionbase/offlinepolicy.h:37-39 -/
def init (is : IfStream) : OfflineInput := ⟨is, [], none, 1, 0, false, .idle, .idle, [], []⟩

/-- The work thread, or `none` where it blocks or has ended. -/
def workStep (s : OfflineInput) : Option OfflineInput :=
  match s.work with
  | .idle => some { s with work := if s.exit then .ended else .lockBuffer }
  | .lockBuffer =>
    if 0 < s.bufferLock then some
      { s with bufferLock := s.bufferLock - 1, work := .isOpen } else none
  | .isOpen =>
    if s.inputstr.isOpen && !s.inputstr.eof then some { s with work := .newStorage }
    else some { s with exit := true, work := .ended }
  | .newStorage =>
    some { s with
      storages := s.storages ++ [⟨[], false⟩]
      buffer := some s.storages.length
      work := .read s.storages.length }
  | .read buffer =>
    let (lines, next) := batch s.inputstr
    some { s with
      inputstr := next
      storages := s.storages.modify buffer ({ · with lines })
      work := .setValid buffer }
  | .setValid buffer =>
    some { s with
      storages :=
        if s.inputstr.fail then s.storages else s.storages.modify buffer ({ · with valid := true })
      work := .unlockData }
  | .unlockData => some { s with dataAvailableLock := s.dataAvailableLock + 1, work := .idle }
  | .ended => none

/-- The test thread. -/
def testStep (s : OfflineInput) : Option OfflineInput :=
  match s.testThread with
  | .idle => some { s with testThread := if s.exit then .ended else .lockData }
  | .lockData =>
    if 0 < s.dataAvailableLock then
      some { s with dataAvailableLock := s.dataAvailableLock - 1, testThread := .readBuffer }
    else none
  | .readBuffer =>
    match s.buffer with
    | none => none
    | some ret => some { s with testThread := .unlockBuffer ret, taken := s.taken ++ [ret] }
  | .unlockBuffer ret => some { s with bufferLock := s.bufferLock + 1, testThread := .isValid ret }
  | .isValid ret =>
    match s.storages[ret]? with
    | none => none
    | some d => some { s with testThread := if d.valid then .test ret else .idle }
  | .test ret => some { s with testThread := .idle, tested := s.tested ++ [ret] }
  | .ended => none

def step (s : OfflineInput) : OfflineOp → Option OfflineInput
  | .work => s.workStep
  | .test => s.testStep

end OfflineInput

def offlineInput (is : IfStream) : LTS OfflineInput OfflineOp :=
  .ofStep (· = OfflineInput.init is) OfflineInput.step

/-! ## The reads of a file -/

/-- The stream after some reads. -/
def after (is : IfStream) : Nat → IfStream
  | 0 => is
  | n + 1 => (batch (after is n)).2

/-- What is read for the storage with this number. -/
def storageAt (is : IfStream) (n : Nat) : Batch :=
    ⟨(batch (after is n)).1, !(after is (n + 1)).fail⟩

def storagesOf (is : IfStream) (n : Nat) : List Batch := (List.range n).map (storageAt is)

/-! ## The invariant -/

/-- The work thread has taken `bufferLock`, and not yet given `dataAvailableLock`. -/
@[simp] def WorkPc.holds : WorkPc → Nat
  | idle => 0
  | lockBuffer => 0
  | _ => 1

@[simp] def TestPc.holds : TestPc → Nat
  | readBuffer => 1
  | unlockBuffer _ => 1
  | _ => 0

/-- A storage that is made and not handed over. -/
@[simp] def WorkPc.pending : WorkPc → Nat
  | read _ => 1
  | setValid _ => 1
  | unlockData => 1
  | _ => 0

@[simp] def TestPc.pending : TestPc → Nat
  | readBuffer => 1
  | _ => 0

/-- The storage that is taken, and neither tested nor known to be invalid. -/
@[simp] def TestPc.current : TestPc → Option Nat
  | unlockBuffer ret => some ret
  | isValid ret => some ret
  | test ret => some ret
  | _ => none

namespace OfflineInput

/-- How far the storages are read. -/
def Stored (is : IfStream) (s : OfflineInput) : Prop :=
  match s.work with
  | .read n => s.storages = storagesOf is n ++ [⟨[], false⟩] ∧ s.inputstr = after is n
  | .setValid n =>
    s.storages = storagesOf is n ++ [⟨(storageAt is n).lines, false⟩] ∧
      s.inputstr = after is (n + 1)
  | _ => s.storages = storagesOf is s.storages.length ∧ s.inputstr = after is s.storages.length

structure Inv (is : IfStream) (s : OfflineInput) : Prop where
  token : s.bufferLock + s.dataAvailableLock + s.work.holds + s.testThread.holds = 1
  taken : s.taken = List.range s.taken.length
  pending : s.storages.length =
    s.taken.length + s.dataAvailableLock + s.work.pending + s.testThread.pending
  buffer : s.buffer = (List.range s.storages.length).getLast?
  stored : s.Stored is
  current : ∀ ret ∈ s.testThread.current, ret + 1 = s.taken.length
  tested : s.tested = (List.range (s.taken.length - s.testThread.current.toList.length)).filter
    fun n => (storageAt is n).valid
  testing : ∀ ret, s.testThread = .test ret → (storageAt is ret).valid = true
  exit : s.exit = true ↔ s.work = .ended
  ended : s.work = .ended → (s.inputstr.isOpen && !s.inputstr.eof) = false

variable {is : IfStream} {s s' : OfflineInput} {op : OfflineOp}

theorem inv_init (is : IfStream) : (init is).Inv is := by
  constructor <;> simp [init, Stored, storagesOf, after]

theorem storagesOf_succ (is : IfStream) (n : Nat) :
    storagesOf is (n + 1) = storagesOf is n ++ [storageAt is n] := by
  simp [storagesOf, List.range_succ]

@[simp] theorem length_storagesOf (is : IfStream) (n : Nat) : (storagesOf is n).length = n := by
  simp [storagesOf]

theorem modify_storage (is : IfStream) (n : Nat) (b : Batch) (f : Batch → Batch) :
    (storagesOf is n ++ [b]).modify n f = storagesOf is n ++ [f b] := by
  have := modify_last f (storagesOf is n) b
  rwa [length_storagesOf] at this

/-- A storage that is taken has been read, and stays as it is. -/
theorem Inv.complete (h : s.Inv is) (n : Nat) (hn : n < s.taken.length) :
    s.storages[n]? = some (storageAt is n) := by
  have hget : ∀ k, n < k → (storagesOf is k)[n]? = some (storageAt is n) := by
    intro k hk
    simp [storagesOf, hk]
  have hstored := h.stored
  have hpending := h.pending
  unfold Stored at hstored
  split at hstored
  · rename_i m hw
    rw [hw] at hpending
    have hlen : s.storages.length = m + 1 := by simp [hstored.1]
    simp only [WorkPc.pending] at hpending
    rw [hstored.1, List.getElem?_append_left (by simp; omega), hget m (by omega)]
  · rename_i m hw
    rw [hw] at hpending
    have hlen : s.storages.length = m + 1 := by simp [hstored.1]
    simp only [WorkPc.pending] at hpending
    rw [hstored.1, List.getElem?_append_left (by simp; omega), hget m (by omega)]
  · rw [hstored.1]
    exact hget _ (by omega)

theorem Inv.workStep (h : s.Inv is) (hs : s.workStep = some s') : s'.Inv is := by
  obtain ⟨htoken, htaken, hpending, hbuffer, hstored, hcurrent, htested, htesting, hexit, hended⟩ :=
    h
  unfold Stored at hstored
  unfold OfflineInput.workStep at hs
  have hrun : s.exit = false := by
    refine Bool.eq_false_iff.mpr fun he => ?_
    rw [hexit.mp he] at hs
    cases hs
  cases hw : s.work with
  | idle =>
    rw [hw] at htoken hpending hstored hs
    simp only [hrun] at hs
    cases hs
    exact
      ⟨htoken, htaken, hpending, hbuffer, hstored, hcurrent, htested, htesting, by simp, by simp⟩
  | lockBuffer =>
    rw [hw] at htoken hpending hstored
    simp only [hw] at hs
    split at hs
    · cases hs
      refine ⟨?_, htaken, hpending, hbuffer, hstored, hcurrent, htested, htesting,
        by simp [hrun], by simp⟩
      simp only [WorkPc.holds] at htoken ⊢
      omega
    · cases hs
  | isOpen =>
    rw [hw] at htoken hpending hstored
    simp only [hw] at hs
    split at hs
    · cases hs
      exact ⟨htoken, htaken, hpending, hbuffer, hstored, hcurrent, htested, htesting,
        by simp [hrun], by simp⟩
    · rename_i hwait
      cases hs
      exact ⟨htoken, htaken, hpending, hbuffer, hstored, hcurrent, htested, htesting, by simp,
        fun _ => by simpa using hwait⟩
  | newStorage =>
    rw [hw] at htoken hpending hstored hs
    cases hs
    obtain ⟨hstorages, hinput⟩ := hstored
    refine
      ⟨htoken, htaken, ?_, ?_, ⟨?_, hinput⟩, hcurrent, htested, htesting, by simp [hrun], by simp⟩
    · simp only [WorkPc.pending, List.length_append, List.length_singleton] at hpending ⊢
      omega
    · simp [List.range_succ]
    · rw [← hstorages]
  | read n =>
    rw [hw] at htoken hpending hstored hs
    cases hs
    obtain ⟨hstorages, hinput⟩ := hstored
    refine ⟨htoken, htaken, ?_, ?_, ⟨?_, ?_⟩, hcurrent, htested, htesting, by simp [hrun], by simp⟩
    · simpa using hpending
    · simpa using hbuffer
    · rw [hstorages, modify_storage, hinput]
      rfl
    · rw [hinput]
      rfl
  | setValid n =>
    rw [hw] at htoken hpending hstored hs
    cases hs
    obtain ⟨hstorages, hinput⟩ := hstored
    -- the storage is now what is read for its number
    have hset :
      (if s.inputstr.fail then s.storages else s.storages.modify n ({ · with valid := true })) =
        storagesOf is (n + 1) := by
      rw [storagesOf_succ, hstorages, modify_storage, hinput]
      cases hfail : (after is (n + 1)).fail <;> simp [storageAt, hfail]
    have hlen : (storagesOf is (n + 1)).length = s.storages.length := by simp [hstorages]
    refine ⟨htoken, htaken, ?_, ?_, ⟨?_, ?_⟩, hcurrent, htested, htesting, by simp [hrun], by simp⟩
    · rw [hset, hlen]
      exact hpending
    · rw [hset, hlen]
      exact hbuffer
    · rw [hset, length_storagesOf]
    · rw [hset, length_storagesOf, hinput]
  | unlockData =>
    rw [hw] at htoken hpending hstored hs
    cases hs
    refine ⟨?_, htaken, ?_, hbuffer, hstored, hcurrent, htested, htesting, by simp [hrun], by simp⟩
    · simp only [WorkPc.holds] at htoken ⊢
      omega
    · simp only [WorkPc.pending] at hpending ⊢
      omega
  | ended =>
    rw [hw] at hs
    cases hs

/-- Without the token the work thread has made no storage that is not handed over. -/
theorem pending_eq_zero {pc : WorkPc} (h : pc.holds = 0) : pc.pending = 0 := by
  cases pc with
  | idle => rfl
  | lockBuffer => rfl
  | _ => simp at h

/-- The storages that have been taken, and the one in hand. -/
theorem range_taken {n ret : Nat} (h : ret + 1 = n) :
    List.range n = List.range (n - 1) ++ [ret] := by
  rw [← h, Nat.add_sub_cancel, List.range_succ]

theorem Inv.testStep (h : s.Inv is) (hs : s.testStep = some s') : s'.Inv is := by
  obtain ⟨htoken, htaken, hpending, hbuffer, hstored, hcurrent, htested, htesting, hexit, hended⟩ :=
    h
  unfold OfflineInput.testStep at hs
  cases ht : s.testThread with
  | idle =>
    rw [ht] at htoken hpending hcurrent htested hs
    obtain ⟨pc, hpc, rfl⟩ : ∃ pc, (pc = .ended ∨ pc = .lockData) ∧
        s' = { s with testThread := pc } :=
      ⟨_, by cases s.exit <;> simp, (Option.some.inj hs).symm⟩
    rcases hpc with rfl | rfl <;>
    exact ⟨htoken, htaken, hpending, hbuffer, hstored, hcurrent, htested, by simp, hexit, hended⟩
  | lockData =>
    rw [ht] at htoken hpending hcurrent htested
    simp only [ht] at hs
    split at hs
    · cases hs
      refine ⟨?_, htaken, ?_, hbuffer, hstored, hcurrent, htested, by simp, hexit, hended⟩
      · simp only [TestPc.holds] at htoken ⊢
        omega
      · simp only [TestPc.pending] at hpending ⊢
        omega
    · cases hs
  | readBuffer =>
    rw [ht] at htoken hpending hcurrent htested
    simp only [ht] at hs
    split at hs
    · cases hs
    · rename_i ret hret
      cases hs
      simp only [TestPc.holds, TestPc.pending] at htoken hpending
      have hwork : s.work.pending = 0 := pending_eq_zero (by omega)
      have hnext : ret = s.taken.length := by
        rw [hret, show s.storages.length = s.taken.length + 1 by omega, List.range_succ,
          List.getLast?_concat] at hbuffer
        exact Option.some.inj hbuffer
      subst hnext
      refine ⟨htoken, ?_, ?_, hbuffer, hstored, ?_, ?_, by simp, hexit, hended⟩
      · rw [List.length_append, List.length_singleton, List.range_succ, ← htaken]
      · simp only [TestPc.pending, List.length_append, List.length_singleton]
        omega
      · simp
      · simpa using htested
  | unlockBuffer ret =>
    rw [ht] at htoken hpending hcurrent htested hs
    cases hs
    refine ⟨?_, htaken, hpending, hbuffer, hstored, hcurrent, htested, by simp, hexit, hended⟩
    simp only [TestPc.holds] at htoken ⊢
    omega
  | isValid ret =>
    have hvalid :=
      (show s.Inv is from ⟨htoken, htaken, hpending, hbuffer, hstored, hcurrent, htested, htesting,
      hexit, hended⟩).complete ret
    rw [ht] at htoken hpending hcurrent htested
    simp only [ht] at hs
    have hret : ret + 1 = s.taken.length := hcurrent ret rfl
    split at hs
    · cases hs
    · rename_i d hd
      cases hs
      have hd : d = storageAt is ret := by
        rw [hvalid (by omega)] at hd
        exact (Option.some.inj hd).symm
      subst hd
      cases hv : (storageAt is ret).valid with
      | true =>
        refine ⟨htoken, htaken, hpending, hbuffer, hstored, hcurrent, htested, ?_, hexit, hended⟩
        intro ret' heq
        cases heq
        exact hv
      | false =>
        refine ⟨htoken, htaken, hpending, hbuffer, hstored, by simp, ?_, by simp, hexit, hended⟩
        simpa [range_taken hret, List.filter_append, hv] using htested
  | test ret =>
    have hv := htesting ret ht
    rw [ht] at htoken hpending hcurrent htested hs
    have hret : ret + 1 = s.taken.length := hcurrent ret rfl
    cases hs
    refine ⟨htoken, htaken, hpending, hbuffer, hstored, by simp, ?_, by simp, hexit, hended⟩
    simpa [range_taken hret, List.filter_append, hv] using htested
  | ended =>
    rw [ht] at hs
    cases hs

theorem inv_reachable (h : (offlineInput is).Reachable s) : s.Inv is := by
  refine LTS.Inductive.reachable (I := Inv is) ⟨?_, ?_⟩ s h
  · intro s hs
    cases hs
    exact inv_init is
  · intro s op s' h hs
    cases op with
    | work => exact h.workStep hs
    | test => exact h.testStep hs

/-- No storage is made before the one before it is taken. -/
theorem Inv.replaced (h : s.Inv is) (hs : s.step op = some s')
    (hne : s'.buffer ≠ s.buffer) {n : Nat} (hn : s.buffer = some n) : n ∈ s.taken := by
  have hlast : n + 1 = s.storages.length := by
    have hbuffer := h.buffer
    rw [hn] at hbuffer
    cases hlen : s.storages.length with
    | zero => simp [hlen] at hbuffer
    | succ k =>
      rw [hlen, List.range_succ, List.getLast?_concat] at hbuffer
      cases hbuffer
      rfl
  have htoken := h.token
  have hpending := h.pending
  rw [h.taken, List.mem_range]
  cases op with
  | test =>
    -- the test thread leaves `buffer` alone
    refine absurd ?_ hne
    simp only [step, OfflineInput.testStep] at hs
    repeat' split at hs
    all_goals cases hs <;> rfl
  | work =>
    cases hw : s.work with
    | newStorage =>
      rw [hw] at htoken hpending
      simp only [WorkPc.holds, WorkPc.pending] at htoken hpending
      have htest : s.testThread.pending = 0 := by
        cases ht : s.testThread with
        | readBuffer => rw [ht] at htoken; simp at htoken
        | _ => rfl
      omega
    | _ =>
      refine absurd ?_ hne
      simp only [step, OfflineInput.workStep, hw] at hs
      repeat' split at hs
      all_goals cases hs <;> rfl

/-- The test thread ends only after the work thread. -/
theorem exit_of_ended (h : (offlineInput is).Reachable s) :
    s.testThread = .ended → s.exit = true := by
  refine LTS.Inductive.reachable (I := fun s => s.testThread = .ended → s.exit = true) ⟨?_, ?_⟩ s h
  · intro s hs
    cases hs
    simp [init]
  · intro s op s' h hs
    cases op with
    | work =>
      change s.workStep = some s' at hs
      unfold OfflineInput.workStep at hs
      repeat' split at hs
      all_goals cases hs
      all_goals first
        | exact h
        | exact fun _ => rfl
    | test =>
      change s.testStep = some s' at hs
      unfold OfflineInput.testStep at hs
      repeat' split at hs
      all_goals cases hs
      all_goals simp_all

/-- Before the end of the file one of the threads can go on. -/
theorem proceeds (h : (offlineInput is).Reachable s) (hrun : s.exit = false) :
    ∃ op s', s.step op = some s' := by
  have hinv := inv_reachable h
  have htoken := hinv.token
  have hpending := hinv.pending
  by_cases hblocked : s.work = .lockBuffer ∧ s.bufferLock = 0
  · -- the token is with the test thread, or waits for it
    obtain ⟨hw, hlock⟩ := hblocked
    rw [hw, hlock] at htoken
    rw [hw] at hpending
    refine ⟨.test, ?_⟩
    simp only [step, OfflineInput.testStep]
    cases ht : s.testThread with
    | lockData =>
      rw [ht] at htoken
      simp only [WorkPc.holds, TestPc.holds] at htoken
      exact ⟨_, if_pos (by omega)⟩
    | readBuffer =>
      rw [ht] at htoken hpending
      simp only [WorkPc.holds, TestPc.holds, WorkPc.pending, TestPc.pending] at htoken hpending
      have hbuffer : s.buffer = some s.taken.length := by
        rw [hinv.buffer, show s.storages.length = s.taken.length + 1 by omega, List.range_succ,
          List.getLast?_concat]
      simp [hbuffer]
    | isValid ret =>
      have hret := hinv.current ret (by simp [ht])
      simp [hinv.complete ret (by omega)]
    | ended =>
      rw [exit_of_ended h ht] at hrun
      cases hrun
    | _ => exact ⟨_, rfl⟩
  · refine ⟨.work, ?_⟩
    simp only [step, OfflineInput.workStep]
    cases hw : s.work with
    | lockBuffer => exact ⟨_, if_pos (Nat.pos_of_ne_zero fun h0 => hblocked ⟨hw, h0⟩)⟩
    | isOpen =>
      cases s.inputstr.isOpen && !s.inputstr.eof
      · exact ⟨_, rfl⟩
      · exact ⟨_, rfl⟩
    | ended =>
      rw [hinv.exit.mpr hw] at hrun
      cases hrun
    | _ => exact ⟨_, rfl⟩

end OfflineInput

/-! ## Files -/

/-- The lines of a batch, and its separator. -/
structure ClosedBatch where
  lines : List (List Char)
  separator : List Char

namespace ClosedBatch

/-- The separator is the first line that begins like one. -/
structure Formed (b : ClosedBatch) : Prop where
  lines : ∀ line ∈ b.lines, '\n' ∉ line ∧ line.take 3 ≠ ['-', '-', '-']
  separator : '\n' ∉ b.separator ∧ b.separator.take 3 = ['-', '-', '-']

def text (b : ClosedBatch) : List Char := b.lines.flatMap (· ++ ['\n']) ++ (b.separator ++ ['\n'])

end ClosedBatch

/-- A file of batches that are all closed. -/
def closedText (bs : List ClosedBatch) : List Char := bs.flatMap ClosedBatch.text

theorem batchLoop_lines {separator : List Char}
    (hsep : '\n' ∉ separator ∧ separator.take 3 = ['-', '-', '-']) (lines : List (List Char))
    (hlines : ∀ line ∈ lines, '\n' ∉ line ∧ line.take 3 ≠ ['-', '-', '-']) (rest : List Char) :
    batchLoop (.ofText (lines.flatMap (· ++ ['\n']) ++ (separator ++ '\n' :: rest))) =
      (lines, .ofText rest) := by
  induction lines with
  | nil =>
    rw [batchLoop, List.flatMap_nil, List.nil_append, IfStream.getline_append separator rest hsep.1]
    simp [IfStream.ofText, hsep.2]
  | cons line lines ih =>
    obtain ⟨hline, htake⟩ := hlines line List.mem_cons_self
    rw [batchLoop, List.flatMap_cons, List.append_assoc, List.append_assoc, List.singleton_append,
      IfStream.getline_append line _ hline]
    simp only [IfStream.ofText, if_neg htake]
    have ih := ih fun line hline => hlines line (List.mem_cons_of_mem _ hline)
    rw [IfStream.ofText] at ih
    simp [ih, IfStream.ofText]

theorem batch_text {b : ClosedBatch} (h : b.Formed) (rest : List Char) :
    batch (.ofText (b.text ++ rest)) = (b.lines, .ofText rest) := by
  have := batchLoop_lines h.separator b.lines h.lines rest
  rw [batch, if_neg (by simp [IfStream.ofText])]
  simpa [ClosedBatch.text] using this

theorem batch_nil : batch (.ofText []) = ([], ⟨[], true, true, true, fun _ => rfl⟩) := by
  rw [batch, if_neg (by simp [IfStream.ofText]), batchLoop, IfStream.getline_nil]
  rfl

section

variable {bs : List ClosedBatch} {n : Nat}

theorem after_closed (h : ∀ b ∈ bs, b.Formed) (hn : n ≤ bs.length) :
    after (.ofText (closedText bs)) n = .ofText (closedText (bs.drop n)) := by
  induction n with
  | zero => rfl
  | succ n ih =>
    have hdrop : bs.drop n = bs[n] :: bs.drop (n + 1) := List.drop_eq_getElem_cons (by omega)
    rw [after, ih (by omega), hdrop, closedText, List.flatMap_cons, ← closedText,
      batch_text (h _ (List.getElem_mem _))]

/-- Behind the last batch the stream has failed, and stays so. -/
theorem fail_after (h : ∀ b ∈ bs, b.Formed) (hn : bs.length < n) :
    (after (.ofText (closedText bs)) n).fail = true := by
  induction n with
  | zero => omega
  | succ n ih =>
    rw [after]
    rcases Nat.lt_or_eq_of_le (Nat.le_of_lt_succ hn) with hlt | rfl
    · have hfail := ih hlt
      rw [batch, if_pos ((after _ n).eof_of_fail hfail)]
      exact hfail
    · rw [after_closed h (Nat.le_refl _), List.drop_length, closedText, List.flatMap_nil, batch_nil]

theorem valid_storageAt (h : ∀ b ∈ bs, b.Formed) :
    (storageAt (.ofText (closedText bs)) n).valid = decide (n < bs.length) := by
  by_cases hn : n < bs.length
  · simp only [storageAt, after_closed h hn, hn]
    rfl
  · simp [storageAt, fail_after h (show bs.length < n + 1 by omega), hn]

theorem storageAt_closed (h : ∀ b ∈ bs, b.Formed) {b : ClosedBatch} (hb : bs[n]? = some b) :
    storageAt (.ofText (closedText bs)) n = ⟨b.lines, true⟩ := by
  obtain ⟨hn, rfl⟩ := List.getElem?_eq_some_iff.mp hb
  have hlines : (storageAt (.ofText (closedText bs)) n).lines = bs[n].lines := by
    have hdrop : bs.drop n = bs[n] :: bs.drop (n + 1) := List.drop_eq_getElem_cons (by omega)
    rw [storageAt, after_closed h (by omega), hdrop, closedText, List.flatMap_cons,
      batch_text (h _ (List.getElem_mem _))]
  have hvalid := valid_storageAt (n := n) h
  rw [decide_eq_true hn] at hvalid
  rw [← hlines, ← hvalid]

/-- The work thread ends with the token, when nothing waits to be taken. -/
theorem OfflineInput.Inv.taken_exit {is : IfStream} {s : OfflineInput} (hinv : s.Inv is)
    (hexit : s.exit = true) : s.taken.length = s.storages.length := by
  have htoken := hinv.token
  have hpending := hinv.pending
  rw [hinv.exit.mp hexit] at htoken hpending
  simp only [WorkPc.holds, WorkPc.pending] at htoken hpending
  have htest : s.testThread.pending = 0 := by
    cases ht : s.testThread with
    | readBuffer => rw [ht] at htoken; simp at htoken
    | _ => rfl
  omega

/-- At the end of the file all of its batches have been tested. -/
theorem OfflineInput.Inv.tested_closed {s : OfflineInput} (h : ∀ b ∈ bs, b.Formed)
    (hinv : s.Inv (.ofText (closedText bs))) (hexit : s.exit = true) :
    bs.length < s.taken.length ∧ s.tested = List.range bs.length := by
  have hw := hinv.exit.mp hexit
  have htaken := hinv.taken_exit hexit
  -- the stream has come to its end, and the read that found it is taken
  have hread : bs.length < s.storages.length := by
    by_contra hle
    have hstored := hinv.stored
    unfold OfflineInput.Stored at hstored
    rw [hw] at hstored
    have hended := hinv.ended hw
    rw [hstored.2, after_closed h (by omega)] at hended
    simp [IfStream.ofText] at hended
  refine ⟨by omega, ?_⟩
  have hcurrent : s.testThread.current.toList.length ≤ 1 := by
    cases s.testThread.current <;> simp
  rw [hinv.tested]
  simp only [valid_storageAt h]
  obtain ⟨k, hk⟩ : ∃ k, s.taken.length - s.testThread.current.toList.length = bs.length + k :=
    ⟨_, (Nat.add_sub_of_le (by omega)).symm⟩
  rw [hk, List.range_add, List.filter_append, List.filter_eq_self.mpr (by simp),
    List.filter_eq_nil_iff.mpr (by simp), List.append_nil]

end

/-- The storages that are read from a file are taken in its order, each once and complete, and none
is replaced before it is taken; at `EXIT` all of them have been taken. If each batch of the file is
closed, then at `EXIT` the tests of all batches have returned. -/
theorem storages_handed_over (text : List Char) {s : OfflineInput}
    (h : (offlineInput (.ofText text)).Reachable s) :
    (s.taken = List.range s.taken.length ∧ s.taken.length ≤ s.storages.length ∧
      s.storages.length ≤ s.taken.length + 1 ∧
      (∀ n ∈ s.taken, s.storages[n]? = some (storageAt (.ofText text) n)) ∧
      (s.exit = true → s.taken = List.range s.storages.length)) ∧
    (∀ (op : OfflineOp) (s' : OfflineInput), s.step op = some s' → s'.buffer ≠ s.buffer →
      ∀ n, s.buffer = some n → n ∈ s.taken) ∧
    ∀ bs : List ClosedBatch, (∀ b ∈ bs, b.Formed) → text = closedText bs → s.exit = true →
      s.tested = List.range bs.length ∧
      (∀ (n : Nat) (b : ClosedBatch), bs[n]? = some b → s.storages[n]? = some ⟨b.lines, true⟩) ∧
      ∀ (n : Nat) (d : Batch), s.storages[n]? = some d → d.valid = true → n ∈ s.tested := by
  have hinv := OfflineInput.inv_reachable h
  have hpending := hinv.pending
  have hmem : ∀ n ∈ s.taken, n < s.taken.length := by
    intro n hn
    rw [hinv.taken] at hn
    exact List.mem_range.mp hn
  refine ⟨⟨hinv.taken, by omega, ?_, fun n hn => hinv.complete n (hmem n hn),
    fun hexit => hinv.taken_exit hexit ▸ hinv.taken⟩,
      fun op s' hs hne n hn => hinv.replaced hs hne hn, ?_⟩
  · -- there is one token for all three
    have htoken := hinv.token
    have hwork : s.work.pending ≤ s.work.holds := by cases s.work <;> simp
    have htest : s.testThread.pending ≤ s.testThread.holds := by cases s.testThread <;> simp
    omega
  · rintro bs hbs rfl hexit
    obtain ⟨hlt, htested⟩ := hinv.tested_closed hbs hexit
    have htaken := hinv.taken_exit hexit
    refine ⟨htested, fun n b hb => ?_, fun n d hd hvalid => ?_⟩
    · have hn : n < bs.length := (List.getElem?_eq_some_iff.mp hb).1
      rw [hinv.complete n (by omega), storageAt_closed hbs hb]
    · have hn : n < s.storages.length := (List.getElem?_eq_some_iff.mp hd).1
      rw [hinv.complete n (by omega)] at hd
      cases hd
      rw [valid_storageAt hbs, decide_eq_true_eq] at hvalid
      rw [htested]
      exact List.mem_range.mpr hvalid

/-- A batch of one entry. -/
def oneBatch : ClosedBatch := ⟨["1.2.3.4:5|6_1 2 3 4 5 6".toList], "--- 0".toList⟩

theorem oneBatch_formed : ∀ b ∈ [oneBatch], b.Formed := by
  intro b hb
  rw [List.mem_singleton.mp hb]
  constructor <;> decide

/-- The storage behind the last batch keeps the work thread waiting for the test of that batch. -/
theorem storages_handed_over_oneBatch :
    ∃ s, (offlineInput (.ofText (closedText [oneBatch]))).Reachable s ∧ s.exit = true ∧
      s.taken = [0, 1] ∧ s.tested = List.range 1 := by
  have hfirst : batch (.ofText (closedText [oneBatch])) = (oneBatch.lines, .ofText []) :=
    batch_text (oneBatch_formed _ List.mem_cons_self) []
  generalize htext : closedText [oneBatch] = text at hfirst ⊢
  have hinit :
      ((offlineInput (.ofText text)).restrict fun _ _ => True).Reachable (.init (.ofText text)) :=
    .init rfl
  have h1 : LTS.exec (fun _ _ => True) OfflineInput.step (.init (.ofText text))
      [.test, .work, .work, .work, .work] =
      some ⟨.ofText text, [⟨[], false⟩], some 0, 0, 0, false, .read 0, .lockData, [], []⟩ := rfl
  have r1 := hinit.exec h1
  have s1 : OfflineInput.step
      ⟨.ofText text, [⟨[], false⟩], some 0, 0, 0, false, .read 0, .lockData, [], []⟩ .work =
      some ⟨.ofText [], [⟨oneBatch.lines, false⟩], some 0, 0, 0, false, .setValid 0, .lockData,
          [], []⟩ := by
    simp only [OfflineInput.step, OfflineInput.workStep, hfirst]
    rfl
  have r2 := r1.step ⟨s1, trivial⟩
  have h2 : LTS.exec (fun _ _ => True) OfflineInput.step
      ⟨.ofText [], [⟨oneBatch.lines, false⟩], some 0, 0, 0, false, .setValid 0, .lockData, [], []⟩
      [.work, .work, .test, .test, .test, .work, .work, .work, .work] =
      some ⟨.ofText [], [⟨oneBatch.lines, true⟩, ⟨[], false⟩], some 1, 0, 0, false,
        .read 1, .isValid 0,
        [0], []⟩ := rfl
  have r3 := r2.exec h2
  have s2 : OfflineInput.step
      ⟨.ofText [], [⟨oneBatch.lines, true⟩, ⟨[], false⟩], some 1, 0, 0, false, .read 1, .isValid 0,
        [0], []⟩ .work =
      some ⟨⟨[], true, true, true, fun _ => rfl⟩, [⟨oneBatch.lines, true⟩, ⟨[], false⟩], some 1,
        0, 0, false,
        .setValid 1, .isValid 0, [0], []⟩ := by
    simp only [OfflineInput.step, OfflineInput.workStep, batch_nil]
    rfl
  have r4 := r3.step ⟨s2, trivial⟩
  have h3 : LTS.exec (fun _ _ => True) OfflineInput.step
      ⟨⟨[], true, true, true, fun _ => rfl⟩, [⟨oneBatch.lines, true⟩, ⟨[], false⟩], some 1,
        0, 0, false,
        .setValid 1, .isValid 0, [0], []⟩
      [.work, .work, .work, .test, .test, .test, .test, .test, .test, .work, .work] =
      some ⟨⟨[], true, true, true, fun _ => rfl⟩, [⟨oneBatch.lines, true⟩, ⟨[], false⟩],
        some 1, 0, 0, true,
        .ended, .isValid 1, [0, 1], [0]⟩ := rfl
  have hr := LTS.Reachable.of_restrict (r4.exec h3)
  refine ⟨_, hr, rfl, rfl, ?_⟩
  exact ((storages_handed_over text hr).2.2 [oneBatch] oneBatch_formed htext.symm rfl).1

end Topas.Wkp
