import Topas.L5Collector.Collector

/-!
# The packet store over all runs

`Rounds` is about runs in which the modules keep up with the manager. What is here holds
in every run, whatever is interrupted, killed or removed: the counters follow the queue,
and once a module has been notified in a round (`Collector.Notified`), `from` and `to` are
about packets that are in the queue. A round in which the container is empty notifies
nobody; its `from` and `to` are those of an earlier round.
-/
namespace Topas

open FileCounter

namespace Collector

/-- A module has been notified in this round, or is about to be and `to` is set. -/
def Notified (s : Collector) : Prop :=
  match s.pc with
  | .setFrom k => 0 < k
  | .setTo k => 0 < k
  | .semop _ => True
  | .wait _ => s.detectionModules ≠ []
  | .clearSink => s.detectionModules ≠ []
  | _ => False

/-- `modules`: a notification is that of a module in the container. -/
structure Store (s : Collector) : Prop where
  queue : s.popped ++ s.files = List.range s.pushed
  oldest : s.oldest = .ofNat s.popped.length
  newest : s.newest = .ofNat s.pushed
  modules : ∀ k, s.pc = .setFrom (k + 1) ∨ s.pc = .setTo k ∨ s.pc = .semop k →
    k < s.detectionModules.length
  sbFrom : ∀ k, s.pc = .setTo k → s.sbFrom = s.oldest
  window : s.Notified → s.sbFrom = s.oldest ∧ s.sbTo.sub s.sbFrom ≤ s.files.length
  pop : ∀ n, s.pc = .pop n → n ≤ s.files.length

end Collector

section Steps

variable {s s' : Collector} {op : CollectorOp}

theorem Collector.Store.length_files (h : s.Store) :
    s.popped.length + s.files.length = s.pushed := by
  have := congrArg List.length h.queue
  rwa [List.length_append, List.length_range] at this

/-- Packets are thrown away in arrival order. -/
theorem Collector.Store.popped_eq (h : s.Store) : s.popped = List.range s.popped.length := by
  have hlen := h.length_files
  have htake := congrArg (List.take s.popped.length) h.queue
  rwa [List.take_left' rfl, List.take_range, Nat.min_eq_left (by omega)] at htake

/-- What the counters say about the queue. -/
theorem Collector.Store.newest_sub_oldest (h : s.Store) :
    s.newest.sub s.oldest = s.files.length % MAX_FILES := by
  rw [h.newest, h.oldest, ← h.length_files, sub_ofNat]

/-- The packets are queued in arrival order. -/
theorem Collector.Store.files_getElem? (h : s.Store) {j : Nat} (hj : j < s.files.length) :
    s.files[j]? = some (s.popped.length + j) := by
  have hlen := h.length_files
  have hq := congrArg (·[s.popped.length + j]?) h.queue
  simp only [List.getElem?_range (show s.popped.length + j < s.pushed by omega)] at hq
  rwa [List.getElem?_append_right (Nat.le_add_right _ _), Nat.add_sub_cancel_left] at hq

theorem Collector.Store.exportToSink (h : s.Store) : s.exportToSink.Store := by
  refine ⟨?_, h.oldest, ?_, h.modules, h.sbFrom, fun hn => ?_, fun n hn => ?_⟩
  · show s.popped ++ (s.files ++ [s.pushed]) = List.range (s.pushed + 1)
    rw [← List.append_assoc, h.queue, List.range_succ]
  · show s.newest.incr = .ofNat (s.pushed + 1)
    rw [h.newest, incr_ofNat]
  · obtain ⟨hfrom, hle⟩ := h.window hn
    refine ⟨hfrom, Nat.le_trans hle ?_⟩
    show s.files.length ≤ (s.files ++ [s.pushed]).length
    simp
  · have := h.pop n hn
    show n ≤ (s.files ++ [s.pushed]).length
    simp only [List.length_append]
    omega

theorem Collector.Store.beside (h : s.Store) (hs : s.Beside s') : s'.Store := by
  cases hs with
  | setModule k m =>
    refine ⟨h.queue, h.oldest, h.newest, fun i hi => ?_, h.sbFrom, fun hn => h.window ?_, h.pop⟩
    · show i < (s.detectionModules.set k m).length
      rw [List.length_set]
      exact h.modules i hi
    · unfold Collector.Notified at hn ⊢
      cases hpc : s.pc <;> simp_all
  | createModule hpc =>
    refine ⟨h.queue, h.oldest, h.newest, fun i hi => ?_, h.sbFrom, fun hn => ?_, h.pop⟩
    · rcases hi with hi | hi | hi
      all_goals exact nomatch hpc.symm.trans hi
    · unfold Collector.Notified at hn
      simp [hpc] at hn
  | interrupted k hpc =>
    refine ⟨h.queue, h.oldest, h.newest, by simp, by simp, fun hn => h.window ?_, by simp⟩
    simpa [Collector.Notified, hpc] using hn

theorem Collector.Store.manager (h : s.Store) (hs : s.ManagerStep s') : s'.Store := by
  have hlen := h.length_files
  cases hs with
  | lockMutex hpc hstart =>
    exact ⟨h.queue, h.oldest, h.newest, by simp, by simp, by simp [Collector.Notified], by simp⟩
  | setFrom k hpc hk =>
    refine ⟨h.queue, h.oldest, h.newest, ?_, fun _ _ => rfl, fun hn => ?_, by simp⟩
    · intro i hi
      rcases hi with hi | hi | hi
      all_goals cases hi
      exact hk
    · have hn : 0 < k := hn
      obtain ⟨hfrom, hle⟩ := h.window (by simpa [Collector.Notified, hpc] using hn)
      rw [hfrom] at hle
      exact ⟨rfl, hle⟩
  | allTold k hpc hk =>
    refine ⟨h.queue, h.oldest, h.newest, by simp, by simp, fun hn => h.window ?_, by simp⟩
    have hn : s.detectionModules ≠ [] := hn
    have := List.length_pos_iff.mpr hn
    unfold Collector.Notified
    rw [hpc]
    show 0 < k
    omega
  | setTo k hpc =>
    refine ⟨h.queue, h.oldest, h.newest, ?_, by simp, fun _ => ⟨h.sbFrom k hpc, ?_⟩, by simp⟩
    · intro i hi
      rcases hi with hi | hi | hi
      all_goals cases hi
      exact h.modules k (.inr (.inl hpc))
    · show s.newest.sub s.sbFrom ≤ s.files.length
      rw [h.sbFrom k hpc, h.newest_sub_oldest]
      exact Nat.mod_le _ _
  | semop k m hpc hm =>
    have hk : k < s.detectionModules.length := h.modules k (.inr (.inr hpc))
    refine ⟨h.queue, h.oldest, h.newest, ?_, by simp, fun _ => h.window ?_, by simp⟩
    · intro i hi
      rcases hi with hi | hi | hi
      all_goals cases hi
      show k < (s.detectionModules.set k _).length
      rwa [List.length_set]
    · simp [Collector.Notified, hpc]
  | wait k m hpc hm hb =>
    refine ⟨h.queue, h.oldest, h.newest, by simp, by simp, fun hn => h.window ?_, by simp⟩
    simpa [Collector.Notified, hpc] using hn
  | waited k hpc hm =>
    refine ⟨h.queue, h.oldest, h.newest, by simp, by simp, fun hn => h.window ?_, by simp⟩
    simpa [Collector.Notified, hpc] using hn
  | terminated hpc hlt =>
    exact ⟨h.queue, h.oldest, h.newest, by simp, by simp, by simp [Collector.Notified], by simp⟩
  | clearSink hpc hle =>
    refine
      ⟨h.queue, h.oldest, h.newest, by simp, by simp, by simp [Collector.Notified], fun n hn => ?_⟩
    cases hn
    exact hle
  | popped hpc =>
    exact ⟨h.queue, h.oldest, h.newest, by simp, by simp, by simp [Collector.Notified], by simp⟩
  | pop n x xs hpc hfiles =>
    have hlen' : (s.popped ++ [x]).length = s.popped.length + 1 := List.length_append
    refine ⟨?_, ?_, h.newest, by simp, by simp, by simp [Collector.Notified], fun i hi => ?_⟩
    · show s.popped ++ [x] ++ xs = List.range s.pushed
      rw [List.append_assoc, List.singleton_append, ← hfiles, h.queue]
    · show s.oldest.incr = .ofNat (s.popped ++ [x]).length
      rw [hlen', h.oldest, incr_ofNat]
    · cases hi
      have hle := h.pop (n + 1) hpc
      rw [hfiles, List.length_cons] at hle
      exact Nat.le_of_succ_le_succ hle

theorem Collector.Store.step (h : s.Store) (hs : s.step op = some s') : s'.Store := by
  rcases Collector.step_cases hs with ⟨-, rfl⟩ | ⟨-, hs⟩ | ⟨-, -, hs⟩
  · exact h.exportToSink
  · exact h.manager hs
  · exact h.beside hs

theorem Collector.Store.init : Collector.init.Store :=
  ⟨rfl, rfl, rfl, by simp [Collector.init], by simp [Collector.init],
    by simp [Collector.Notified, Collector.init], by simp [Collector.init]⟩

theorem Collector.store_reachable (h : collector.Reachable s) : s.Store := by
  refine LTS.Inductive.reachable (I := Collector.Store) ⟨?_, ?_⟩ s h
  · intro s hs
    cases hs
    exact Collector.Store.init
  · intro s op s' h hs
    exact h.step hs

end Steps

end Topas
