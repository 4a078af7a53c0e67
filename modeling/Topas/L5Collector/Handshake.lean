import Topas.L5Collector.Rounds

/-!
# The handshake over one semaphore

A notification adds 2 to a module's semaphore; the module takes 1 before and 1 after its
import, and the collector waits for 0. There are four `semop`s that can block or be
interrupted: the module's `wait` tries again, its `notify` never blocks (there is 1 left
to take), the collector's `notify` adds and never blocks. Only the collector's `wait`
gives up.

* `notified_imported`: in calm runs (`Collector.Calm`) the module completes one import
  over the counters of each notification, in order, and all of them before `clearSink`;
  nothing but its own steps is needed to complete the one that is open.
* `notified_twice_imported`: after the collector's `wait` was interrupted, `clearSink`
  runs before the import, and the next notification is imported twice in place of both.

With one module there is nothing to be queued in between
(`Collector.not_announcing_single`), so that calm runs are those in which the collector's
`wait` is not interrupted, and the module is not notified while it is being started:
between `semget` and the assignment of its state the collector adds to its semaphore and
does not wait for it.
-/
namespace Topas

open FileCounter

theorem Collector.not_announcing_single {s : Collector} (h : s.detectionModules.length ≤ 1) :
    ¬ s.Announcing := by
  unfold Collector.Announcing
  cases s.pc with
  | setFrom k => exact fun h' => absurd h'.2 (by have := h'.1; omega)
  | setTo k => exact fun h' => absurd h'.2 (by have := h'.1; omega)
  | semop k => exact fun h' => absurd (Nat.lt_of_lt_of_le h' h) (by omega)
  | _ => exact fun h' => h'

/-- How many steps of its own a module still has to take. -/
def Stage.left (c : Nat) : Stage → Nat
  | told => c + 4
  | taken => c + 3
  | importing j => c - j + 2
  | imported => 1
  | rest => 0

section Progress

variable {kept : Prop} {s : Collector} {c k : Nat} {m : DetectMod} {st : Stage}

theorem Stage.left_next (hst : st ≠ .rest) (hv : st.Valid c) :
    (st.next c).left c + 1 = st.left c := by
  cases st with
  | told => rfl
  | taken => rfl
  | importing j =>
    have hv : j ≤ c := hv
    show (if j = c then Stage.imported else Stage.importing (j + 1)).left c + 1 = c - j + 2
    by_cases hjc : j = c
    · rw [if_pos hjc]
      show 1 + 1 = c - j + 2
      omega
    · rw [if_neg hjc]
      show c - (j + 1) + 2 + 1 = c - j + 2
      omega
  | imported => rfl
  | rest => exact absurd rfl hst

/-- A live module completes its open import by its own steps. -/
theorem Collector.Inv.completes {n : Nat} (h : s.Inv kept c) (hm : s.detectionModules[k]? = some m)
    (ht : s.pc.Told k) (hat : m.At kept s.popped.length c st) (hlive : m.pc ≠ .dead)
    (hn : st.left c = n) :
    ∃ s' m', (collector.restrict Collector.Calm).Run s (workSteps k n) s' ∧
      s'.detectionModules[k]? = some m' ∧ m'.imports = m.notified := by
  induction n generalizing s m st with
  | zero =>
    cases st with
    | rest => exact ⟨s, m, .nil s, hm, by rw [hat.notified]; exact (List.append_nil _).symm⟩
    | _ => simp [Stage.left] at hn
  | succ n ih =>
    have hrest : st ≠ .rest := by
      intro hst
      rw [hst] at hn
      cases hn
    have hround := h.round hm ht
    obtain ⟨m1, hm1, hat1, hlive1, -, hn1⟩ := @DetectMod.At.work kept m _ c st s.file hat hrest
      hlive hround.lt fun hk j hj =>
        h.file hk _ (Nat.le_add_right _ _) (by have := hround.le; omega)
    rw [← hround.sbFrom, ← hround.sbTo] at hm1
    have hstep : s.onModule k (DetectMod.work s.sbFrom s.sbTo s.file) =
        some { s with detectionModules := s.detectionModules.set k m1 } := by
      simp only [Collector.onModule, hm, hm1, Option.bind_eq_bind, Option.bind_some]
    have hget : (s.detectionModules.set k m1)[k]? = some m1 := by
      rw [List.getElem?_set_self (List.getElem?_eq_some_iff.mp hm).1]
    have hleft := Stage.left_next hrest hat.valid
    obtain ⟨s', m', hrun, hm', himp⟩ := ih (h.work hstep) hget ht hat1 hlive1 (by omega)
    exact ⟨s', m', .cons ⟨hstep, trivial⟩ hrun, hm', himp.trans hn1⟩

/-- At every stage at most the last notification is open. -/
theorem DetectMod.At.open_le {base : Nat} (h : m.At kept base c st) :
    m.imports <+: m.notified ∧ m.notified.length ≤ m.imports.length + 1 := by
  rw [h.notified, List.length_append]
  refine ⟨List.prefix_append _ _, ?_⟩
  cases st <;> simp [Stage.pending]

theorem DetectMod.At.complete {base : Nat} (h : m.At kept base c .rest) :
    m.imports = m.notified := by
  rw [h.notified]
  exact (List.append_nil _).symm

end Progress

/-- The collector's `wait` for the only module is interrupted before the module has begun. -/
def interruptedWait : List CollectorOp :=
  startModule 0 ++ [.exportToSink] ++ managerSteps 5 ++ [.managerInterrupted, .manager]

/-- The module is started anew; its semaphore is there, and it is not running, when it is notified.
-/
def notifiedStart : List CollectorOp :=
  startModule 0 ++ [.die 0, .sigChild 0 .Crashed, .restartCrashed 0, .run 0 0, .exportToSink] ++
    managerSteps 6

end Topas
