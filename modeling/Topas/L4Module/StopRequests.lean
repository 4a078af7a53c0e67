import Topas.Core.LTS

/-!
# Stopping and restarting a module

`DetectionBase::state` is one variable. `exec` tests it twice, assigns it, polls it, and tests it
twice again; the work thread polls it, and assigns it at the end of the input; the test thread polls
it. `stop` and `restart` assign it, and are called at any time: by the initialisation of the module,
by signal handlers, by the tests. Every read and every assignment is a step of its own.

* `requests_kept`: in runs whose requests are `Orderly`, no request is lost and `exec` returns.
* `request_lost`: the ways in which the others lose one.
-/
namespace Topas

namespace DetectionBase

/-- mirrors detectionmodules/detectionbase/detectionbase.h:64-68 -/
inductive State where
  | RUN | EXIT | RESTART
  deriving DecidableEq, Repr

inductive Request where
  | stop | restart
  deriving DecidableEq, Repr

/-- mirrors detectionmodules/detectionbase/detectionbase.h:524-533 -/
def Request.state : Request → State
  | stop => .EXIT
  | restart => .RESTART

/-- Where the main thread is, from the initialisation of the module on.
mirrors detectionmodules/detectionbase/detectionbase.h:211-245 -/
inductive ExecPc where
  | init
  | testExit
  | testRestart
  | setRun
  | createTest
  | createWork
  | poll
  | cancelTest
  | cancelWork
  | finalRestart
  | finalExit
  | returned (v : Int)
  | thrown
  deriving DecidableEq, Repr

/-- mirrors detectionmodules/detectionbase/detectionbase.h:247-265 -/
inductive WorkThreadPc where
  | loop | wait | setExit | importToStorage
  deriving DecidableEq, Repr

/-- mirrors detectionmodules/detectionbase/detectionbase.h:270-340 -/
inductive TestThreadPc where
  | loop | test
  deriving DecidableEq, Repr

/-- A thread is `none` before it is created and after it ended. The last field is a ghost: the
latest request. -/
structure Exec where
  state : State
  main : ExecPc
  workingThread : Option WorkThreadPc
  testThread : Option TestThreadPc
  last : Option Request
  deriving DecidableEq, Repr

/-- `work more`: a step of the work thread, whose `inputPolicy.wait()` returns 0 if there is no more
data. A cancelled thread goes on until its cancellation is delivered. -/
inductive ExecOp where
  | main
  | work (more : Bool)
  | test
  | workCancelled
  | testCancelled
  | request (r : Request)
  deriving DecidableEq, Repr

namespace Exec

def init : Exec := ⟨.RUN, .init, none, none, none⟩

/-- mirrors detectionmodules/detectionbase/detectionbase.h:211-245 -/
def exec (s : Exec) : Option Exec :=
  match s.main with
  | .init => some { s with main := .testExit }
  | .testExit => some { s with main := if s.state = .EXIT then .returned 0 else .testRestart }
  | .testRestart => some { s with main := if s.state = .RESTART then .returned (-1) else .setRun }
  | .setRun => some { s with state := .RUN, main := .createTest }
  | .createTest => some { s with testThread := some .loop, main := .createWork }
  | .createWork => some { s with workingThread := some .loop, main := .poll }
  | .poll => some { s with main := if s.state = .RUN then .poll else .cancelTest }
  | .cancelTest => some { s with main := .cancelWork }
  | .cancelWork => some { s with main := .finalRestart }
  | .finalRestart =>
    some { s with main := if s.state = .RESTART then .returned (-1) else .finalExit }
  | .finalExit => some { s with main := if s.state = .EXIT then .returned 0 else .thrown }
  | .returned _ => none
  | .thrown => none

/-- mirrors detectionmodules/detectionbase/detectionbase.h:253-265 -/
def workThreadFunc (s : Exec) (more : Bool) : Option Exec :=
  match s.workingThread with
  | none => none
  | some .loop => some { s with workingThread := if s.state = .RUN then some .wait else none }
  | some .wait =>
    some { s with workingThread := some (if more then .importToStorage else .setExit) }
  | some .setExit => some { s with state := .EXIT, workingThread := some .loop }
  | some .importToStorage => some { s with workingThread := some .loop }

/-- mirrors detectionmodules/detectionbase/detectionbase.h:282-340 -/
def testThreadFunc (s : Exec) : Option Exec :=
  match s.testThread with
  | none => none
  | some .loop => some { s with testThread := if s.state = .RUN then some .test else none }
  | some .test => some { s with testThread := some .loop }

def step (s : Exec) : ExecOp → Option Exec
  | .main => s.exec
  | .work more => s.workThreadFunc more
  | .test => s.testThreadFunc
  | .workCancelled =>
    match s.main with
    | .finalRestart | .finalExit | .returned _ | .thrown => some { s with workingThread := none }
    | _ => none
  | .testCancelled =>
    match s.main with
    | .cancelWork | .finalRestart | .finalExit | .returned _ | .thrown =>
      some { s with testThread := none }
    | _ => none
  | .request r => some { s with state := r.state, last := some r }

/-- When `exec` tests for `RESTART` before it sets `RUN`, the latest request is not `stop()`, and
none comes in between; when it tests for `EXIT` at the end, the latest is not `restart()`; nor is it
when the work thread has come to the end of the input. -/
def Orderly (s : Exec) : ExecOp → Prop
  | .main =>
    match s.main with
    | .testRestart => s.last ≠ some .stop
    | .finalExit => s.last ≠ some .restart
    | _ => True
  | .work _ => s.workingThread = some .setExit → s.last ≠ some .restart
  | .request _ => s.main ≠ .setRun
  | _ => True

instance (s : Exec) : DecidablePred s.Orderly
  | .main => by unfold Orderly; cases s.main <;> infer_instance
  | .work _ => by unfold Orderly; infer_instance
  | .request _ => by unfold Orderly; infer_instance
  | .test => .isTrue trivial
  | .workCancelled => .isTrue trivial
  | .testCancelled => .isTrue trivial

end Exec

def threads : LTS Exec ExecOp := .ofStep (· = Exec.init) Exec.step

/-! ## The invariant -/

/-- `exec` has not set `RUN` yet. -/
def ExecPc.Early : ExecPc → Prop
  | .init => True
  | .testExit => True
  | .testRestart => True
  | .setRun => True
  | _ => False

/-- `exec` has seen that the module does not run any more. -/
def ExecPc.Late : ExecPc → Prop
  | .cancelTest => True
  | .cancelWork => True
  | .finalRestart => True
  | .finalExit => True
  | _ => False

/-- The steps that the main thread has before it once the module does not run. -/
def ExecPc.rank : ExecPc → Nat
  | .init => 11
  | .testExit => 10
  | .testRestart => 9
  | .setRun => 8
  | .createTest => 7
  | .createWork => 6
  | .poll => 5
  | .cancelTest => 4
  | .cancelWork => 3
  | .finalRestart => 2
  | .finalExit => 1
  | .returned _ => 0
  | .thrown => 0

namespace Exec

structure Inv (s : Exec) : Prop where
  stop : s.last = some .stop → s.state = .EXIT
  restart : s.last = some .restart → s.state = .RESTART
  quiet : s.last = none → s.state ≠ .RESTART
  early : s.main.Early → s.workingThread = none ∧ (s.last = none → s.state = .RUN)
  setRun : s.main = .setRun → s.last = none
  late : s.main.Late → s.state ≠ .RUN
  main : s.main ≠ .thrown

section Steps

variable {s s' : Exec} {op : ExecOp}

/-- A request is kept in `state`. -/
theorem Inv.requested (h : s.Inv) (hl : s.last ≠ none) : s.state ≠ .RUN := by
  cases hlast : s.last with
  | none => exact absurd hlast hl
  | some r =>
    cases r with
    | stop => rw [h.stop hlast]; decide
    | restart => rw [h.restart hlast]; decide

/-- Without a request, or with `stop()` as the latest, the module exits or runs. -/
theorem Inv.not_restart (h : s.Inv) (hl : s.last ≠ some .restart) : s.state ≠ .RESTART := by
  cases hlast : s.last with
  | none => exact h.quiet hlast
  | some r =>
    cases r with
    | stop => rw [h.stop hlast]; decide
    | restart => exact absurd hlast hl

/-- The main thread moves on and assigns nothing. -/
theorem Inv.goto (h : s.Inv) {main : ExecPc} {testThread : Option TestThreadPc}
    (hearly : main.Early → s.main.Early) (hset : main = .setRun → s.last = none)
    (hlate : main.Late → s.state ≠ .RUN) (hmain : main ≠ .thrown) :
    Inv { s with main := main, testThread := testThread } :=
  ⟨h.stop, h.restart, h.quiet, fun he => h.early (hearly he), hset, hlate, hmain⟩

theorem Inv.exec (h : s.Inv) (hG : s.Orderly .main) (hs : s.exec = some s') : s'.Inv := by
  unfold Exec.exec at hs
  cases hpc : s.main with
  | init =>
    rw [hpc] at hs
    cases hs
    exact h.goto (fun _ => hpc ▸ trivial) (fun h => nomatch h) (fun h => h.elim)
      (fun h => nomatch h)
  | testExit =>
    rw [hpc] at hs
    cases hs
    split
    · exact h.goto (fun h => h.elim) (fun h => nomatch h) (fun h => h.elim) (fun h => nomatch h)
    · exact h.goto (fun _ => hpc ▸ trivial) (fun h => nomatch h) (fun h => h.elim)
        (fun h => nomatch h)
  | testRestart =>
    rw [hpc] at hs
    cases hs
    split
    · exact h.goto (fun h => h.elim) (fun h => nomatch h) (fun h => h.elim) (fun h => nomatch h)
    · rename_i hstate
      refine h.goto (fun _ => hpc ▸ trivial) (fun _ => ?_) (fun h => h.elim) (fun h => nomatch h)
      -- both tests have failed, and the latest request is no `stop()`
      have hstop : s.last ≠ some .stop := by simpa only [Orderly, hpc] using hG
      cases hlast : s.last with
      | none => rfl
      | some r =>
        cases r with
        | stop => exact absurd hlast hstop
        | restart => exact absurd (h.restart hlast) hstate
  | setRun =>
    rw [hpc] at hs
    cases hs
    have hlast := h.setRun hpc
    refine
      ⟨fun hl => ?_, fun hl => ?_, (fun _ h => nomatch h), fun h => h.elim, (fun h => nomatch h),
      fun h => h.elim, fun h => nomatch h⟩
    · exact absurd (hlast.symm.trans hl) (by decide)
    · exact absurd (hlast.symm.trans hl) (by decide)
  | createTest =>
    rw [hpc] at hs
    cases hs
    exact h.goto (fun h => h.elim) (fun h => nomatch h) (fun h => h.elim) (fun h => nomatch h)
  | createWork =>
    rw [hpc] at hs
    cases hs
    exact ⟨h.stop, h.restart, h.quiet, fun h => h.elim, (fun h => nomatch h), fun h => h.elim,
      fun h => nomatch h⟩
  | poll =>
    rw [hpc] at hs
    cases hs
    split
    · exact h.goto (fun h => h.elim) (fun h => nomatch h) (fun h => h.elim) (fun h => nomatch h)
    · rename_i hstate
      exact h.goto (fun h => h.elim) (fun h => nomatch h) (fun _ => hstate) (fun h => nomatch h)
  | cancelTest =>
    rw [hpc] at hs
    cases hs
    exact h.goto (fun h => h.elim) (fun h => nomatch h) (fun _ => h.late (hpc ▸ trivial))
      (fun h => nomatch h)
  | cancelWork =>
    rw [hpc] at hs
    cases hs
    exact h.goto (fun h => h.elim) (fun h => nomatch h) (fun _ => h.late (hpc ▸ trivial))
      (fun h => nomatch h)
  | finalRestart =>
    rw [hpc] at hs
    cases hs
    split
    · exact h.goto (fun h => h.elim) (fun h => nomatch h) (fun h => h.elim) (fun h => nomatch h)
    · exact h.goto (fun h => h.elim) (fun h => nomatch h) (fun _ => h.late (hpc ▸ trivial))
        (fun h => nomatch h)
  | finalExit =>
    rw [hpc] at hs
    cases hs
    have hrun := h.late (hpc ▸ trivial)
    have hrestart := h.not_restart (by simpa only [Orderly, hpc] using hG)
    have hexit : s.state = .EXIT := by
      cases hstate : s.state with
      | RUN => exact absurd hstate hrun
      | EXIT => rfl
      | RESTART => exact absurd hstate hrestart
    rw [if_pos hexit]
    exact h.goto (fun h => h.elim) (fun h => nomatch h) (fun h => h.elim) (fun h => nomatch h)
  | returned v => rw [hpc] at hs; cases hs
  | thrown => rw [hpc] at hs; cases hs

theorem Inv.workThreadFunc {more : Bool} (h : s.Inv) (hG : s.Orderly (.work more))
    (hs : s.workThreadFunc more = some s') : s'.Inv := by
  unfold Exec.workThreadFunc at hs
  have hearly : ∀ {pc}, s.workingThread = some pc → ¬ s.main.Early := fun hpc he => by
    rw [(h.early he).1] at hpc
    cases hpc
  split at hs
  · cases hs
  · cases hs
    exact ⟨h.stop, h.restart, h.quiet, fun he => absurd he (hearly ‹_›), h.setRun, h.late, h.main⟩
  · cases hs
    exact ⟨h.stop, h.restart, h.quiet, fun he => absurd he (hearly ‹_›), h.setRun, h.late, h.main⟩
  · rename_i hpc
    cases hs
    exact ⟨fun _ => rfl, fun hl => absurd hl (hG hpc), (fun _ h => nomatch h),
      fun he => absurd he (hearly hpc), h.setRun, (fun _ h => nomatch h), h.main⟩
  · cases hs
    exact ⟨h.stop, h.restart, h.quiet, fun he => absurd he (hearly ‹_›), h.setRun, h.late, h.main⟩

theorem Inv.testThreadFunc (h : s.Inv) (hs : s.testThreadFunc = some s') : s'.Inv := by
  unfold Exec.testThreadFunc at hs
  split at hs
  all_goals cases hs
  all_goals exact ⟨h.stop, h.restart, h.quiet, h.early, h.setRun, h.late, h.main⟩

theorem Inv.request (h : s.Inv) {r : Request} (hG : s.Orderly (.request r)) :
    Inv { s with state := r.state, last := some r } := by
  cases r with
  | stop =>
    exact ⟨fun _ => rfl, (fun h => nomatch h), (fun h => nomatch h),
      fun he => ⟨(h.early he).1, fun h => nomatch h⟩, fun hpc =>
        absurd hpc hG, (fun _ h => nomatch h), h.main⟩
  | restart =>
    exact ⟨(fun h => nomatch h), fun _ => rfl, (fun h => nomatch h),
      fun he => ⟨(h.early he).1, fun h => nomatch h⟩, fun hpc =>
        absurd hpc hG, (fun _ h => nomatch h), h.main⟩

theorem Inv.step (h : s.Inv) (hG : s.Orderly op) (hs : s.step op = some s') : s'.Inv := by
  cases op with
  | main => exact h.exec hG hs
  | work more => exact h.workThreadFunc hG hs
  | test => exact h.testThreadFunc hs
  | workCancelled =>
    unfold Exec.step at hs
    simp only at hs
    split at hs
    all_goals cases hs
    all_goals exact
      ⟨h.stop, h.restart, h.quiet, fun he => ⟨rfl, (h.early he).2⟩, h.setRun, h.late, h.main⟩
  | testCancelled =>
    unfold Exec.step at hs
    simp only at hs
    split at hs
    all_goals cases hs
    all_goals exact ⟨h.stop, h.restart, h.quiet, h.early, h.setRun, h.late, h.main⟩
  | request r =>
    cases hs
    exact h.request hG

theorem inv_reachable (h : (threads.restrict Orderly).Reachable s) : s.Inv := by
  refine LTS.Inductive.reachable (I := Inv) ⟨?_, ?_⟩ s h
  · rintro s rfl
    exact
      ⟨(fun h => nomatch h), (fun h => nomatch h), fun _ => by decide, fun _ => ⟨rfl, fun _ => rfl⟩,
      (fun h => nomatch h), fun h => h.elim, fun h => nomatch h⟩
  · intro s op s' hinv ⟨hs, hG⟩
    exact hinv.step hG hs

/-! ## A request ends the run -/

/-- Only the main thread's own steps change where it is. -/
theorem main_of_other (hs : s.step op = some s') (hop : op ≠ .main) : s'.main = s.main := by
  cases op with
  | main => exact absurd rfl hop
  | work more =>
    have hs : s.workThreadFunc more = some s' := hs
    unfold workThreadFunc at hs
    split at hs
    all_goals cases hs
    all_goals rfl
  | test =>
    have hs : s.testThreadFunc = some s' := hs
    unfold testThreadFunc at hs
    split at hs
    all_goals cases hs
    all_goals rfl
  | workCancelled =>
    unfold step at hs
    simp only at hs
    split at hs
    all_goals cases hs
    all_goals rfl
  | testCancelled =>
    unfold step at hs
    simp only at hs
    split at hs
    all_goals cases hs
    all_goals rfl
  | request r => cases hs; rfl

/-- A request is not taken back. -/
theorem requested_step (hs : s.step op = some s') (hl : s.last ≠ none) : s'.last ≠ none := by
  have hsame : ∀ {o : Option Exec}, o = some s' → (∀ t ∈ o, t.last = s.last) → s'.last ≠ none :=
    fun ho hall => by rw [hall s' ho]; exact hl
  cases op with
  | main =>
    refine hsame hs fun t ht => ?_
    have ht : s.exec = some t := ht
    unfold exec at ht
    split at ht
    all_goals cases ht
    all_goals rfl
  | work more =>
    refine hsame hs fun t ht => ?_
    have ht : s.workThreadFunc more = some t := ht
    unfold workThreadFunc at ht
    split at ht
    all_goals cases ht
    all_goals rfl
  | test =>
    refine hsame hs fun t ht => ?_
    have ht : s.testThreadFunc = some t := ht
    unfold testThreadFunc at ht
    split at ht
    all_goals cases ht
    all_goals rfl
  | workCancelled =>
    unfold step at hs
    simp only at hs
    split at hs
    all_goals cases hs
    all_goals exact hl
  | testCancelled =>
    unfold step at hs
    simp only at hs
    split at hs
    all_goals cases hs
    all_goals exact hl
  | request r => cases hs; exact fun h => nomatch h

/-- The main thread comes nearer to its return. -/
theorem Inv.rank_exec (h : s.Inv) (hl : s.last ≠ none) (hs : s.exec = some s') :
    s'.main.rank < s.main.rank := by
  have hrun := h.requested hl
  have hset := h.setRun
  unfold Exec.exec at hs
  cases hpc : s.main with
  | setRun => exact absurd (hset hpc) hl
  | poll =>
    rw [hpc] at hs
    cases hs
    rw [if_neg hrun]
    exact Nat.lt_succ_self 4
  | returned v => rw [hpc] at hs; cases hs
  | thrown => rw [hpc] at hs; cases hs
  | testExit | testRestart | finalRestart | finalExit =>
    rw [hpc] at hs
    cases hs
    simp only
    split
    all_goals decide
  | init | createTest | createWork | cancelTest | cancelWork =>
    rw [hpc] at hs
    cases hs
    exact Nat.lt_succ_self _

/-- Along a run. -/
theorem Inv.rank_run (h : s.Inv) (hl : s.last ≠ none) {ops : List ExecOp}
    (hr : (threads.restrict Orderly).Run s ops s') :
      ops.count .main + s'.main.rank ≤ s.main.rank := by
  induction hr with
  | nil => simp
  | @cons s t s' op ops hs _ ih =>
    obtain ⟨hs, hG⟩ := hs
    have ih := ih (h.step hG hs) (requested_step hs hl)
    by_cases hop : op = .main
    · subst hop
      have hlt := h.rank_exec hl hs
      rw [List.count_cons_self]
      omega
    · rw [List.count_cons_of_ne hop, ← main_of_other hs hop]
      exact ih

/-- The main thread never blocks. -/
theorem Inv.exec_possible (h : s.Inv) (hpc : ¬ ∃ v, s.main = .returned v) :
    0 < s.main.rank ∧ ∃ s', s.step .main = some s' := by
  have hthrown := h.main
  show _ ∧ ∃ s', s.exec = some s'
  unfold Exec.exec
  cases hmain : s.main with
  | returned v => exact absurd ⟨v, hmain⟩ hpc
  | thrown => exact absurd hmain hthrown
  | _ => exact ⟨by decide, _, rfl⟩

end Steps

theorem rank_le (pc : ExecPc) : pc.rank ≤ 11 := by cases pc <;> simp [ExecPc.rank]

/-- A latest `restart()` is not answered with 0. -/
theorem Inv.not_returned_zero {s s' : Exec} (h : s.Inv) (hl : s.last = some .restart)
    (hs : s.step .main = some s') : s'.main ≠ .returned 0 := by
  have hstate := h.restart hl
  have hs : s.exec = some s' := hs
  unfold Exec.exec at hs
  split at hs
  all_goals cases hs
  all_goals simp [hstate]

/-- In an orderly run, after `stop()` or `restart()` the state is not `RUN`, and `exec` returns: as
long as it has not, it has taken at most ten steps since, and can take its next. It does not return
0 if the latest request was `restart()`. -/
theorem requests_kept {s : Exec} (h : (threads.restrict Orderly).Reachable s) :
    (s.last ≠ none → s.state ≠ .RUN ∧
      ∀ ops s', (threads.restrict Orderly).Run s ops s' →
        (∃ v, s'.main = .returned v) ∨ ops.count .main < 11 ∧ ∃ s'', s'.step .main = some s'') ∧
      (s.last = some .restart → ∀ s', s.step .main = some s' → s'.main ≠ .returned 0) := by
  have hinv := inv_reachable h
  refine
    ⟨fun hl => ⟨hinv.requested hl, fun ops s' hr => ?_⟩, fun hl s' => hinv.not_returned_zero hl⟩
  by_cases hret : ∃ v, s'.main = .returned v
  · exact .inl hret
  · have hrank := hinv.rank_run hl hr
    have hmax := rank_le s.main
    obtain ⟨hpos, hstep⟩ := (inv_reachable (h.run hr)).exec_possible hret
    exact .inr ⟨by omega, hstep⟩

/-- A run in which `restart()` is called while both threads are at work. -/
def restarted : List ExecOp :=
  List.replicate 7 .main ++ [.work true, .test, .work true, .work true, .request .restart, .main]

theorem requests_kept_restarted :
    ∃ s, (threads.restrict Orderly).Reachable s ∧ s.last = some .restart ∧ s.main = .cancelTest ∧
      s.state ≠ .RUN := by
  let s := (LTS.exec Orderly step .init restarted).get (by decide)
  have hreach : (threads.restrict Orderly).Reachable s :=
    LTS.Reachable.exec (.init rfl) (Option.some_get _).symm
  exact ⟨s, hreach, by decide, by decide, ((requests_kept hreach).1 (by decide)).1⟩

/-- `stop()` behind the tests at the beginning. -/
def stoppedEarly : List ExecOp := List.replicate 3 .main ++ [.request .stop, .main]

/-- The input ends, and `restart()` is called before the work thread says so. -/
def restartedAtEnd : List ExecOp :=
  List.replicate 6 .main ++ [.work true, .work false, .request .restart, .work true] ++
    List.replicate 5 .main

/-- `stop()`, and `restart()` between the tests at the end. -/
def restartedLate : List ExecOp :=
  List.replicate 6 .main ++ [.request .stop] ++ List.replicate 4 .main ++ [.request .restart, .main]

/-- The state behind a list of steps from the beginning. -/
theorem reachable_exec (ops : List ExecOp) {s : Exec}
    (h : LTS.exec (fun _ _ => True) step .init ops = some s) : threads.Reachable s :=
  LTS.Reachable.of_restrict (G := fun _ _ => True) (LTS.Reachable.exec (.init rfl) h)

/-- **Counterexample**: a `stop()` that is overwritten with `RUN`, a `restart()` that ends in an
exit with 0, and two requests that `exec` throws on. -/
theorem request_lost :
    (∃ s, threads.Reachable s ∧ s.last = some .stop ∧ s.state = .RUN) ∧
      (∃ s, threads.Reachable s ∧ s.last = some .restart ∧ s.main = .returned 0) ∧
      (∃ s, threads.Reachable s ∧ s.last = some .restart ∧ s.main = .thrown) ∧
      ¬ ∀ s, threads.Reachable s → s.last ≠ none → s.state ≠ .RUN := by
  have hearly := reachable_exec stoppedEarly (Option.some_get (by decide)).symm
  have hend := reachable_exec restartedAtEnd (Option.some_get (by decide)).symm
  have hlate := reachable_exec restartedLate (Option.some_get (by decide)).symm
  refine ⟨⟨_, hearly, by decide, by decide⟩, ⟨_, hend, by decide, by decide⟩,
    ⟨_, hlate, by decide, by decide⟩, fun hall => ?_⟩
  exact hall _ hearly (by decide) (by decide)

end Exec

end DetectionBase

end Topas
