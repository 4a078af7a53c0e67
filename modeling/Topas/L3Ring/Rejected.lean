import Topas.L3Ring.Sharing

/-!
# Rejected writes

`writePacket` returns `NULL` from two checks for space, and the first one comes after
the rest of the block was zeroed (commonutils/packetstats.cpp:113-118):

* when the writer is already in the new lap, the rest of the block holds the packets
  of the old lap; a packet that is too long for both then destroys what is still to
  be read there (`shares_rejected_destroys`);
* when the second check fails after the wrap, `writePosition` and `writeBeforeRead`
  stay changed.

`Undisturbed s s'`: the write position, the flag and the bytes of the packets that are
still to be read are those of `s`, and both states have the same future. Along runs
whose rejected writes are harmless, exactly the harmless ones leave the ring
undisturbed (`shares_undisturbed_iff`).
-/
namespace Topas

open Mem

namespace Sharing

/-- The states differ in memory only. -/
structure Same (s t : Sharing) : Prop where
  shm : t.ring.shm = s.ring.shm
  written : t.ring.written = s.ring.written
  popped : t.ring.popped = s.ring.popped
  module : t.module = s.module
  got : t.got = s.got

/-- Every later run from `s` that does no harm is one from `s'`, with the same writes
accepted and the same packets read. -/
def Follows (s s' : Sharing) : Prop :=
  ∀ ops u, (shares.restrict Harmless).Run s ops u →
    ∃ u', (shares.restrict Harmless).Run s' ops u' ∧ u.Same u'

structure Undisturbed (s s' : Sharing) : Prop where
  writePosition : s'.ring.shm.writePosition = s.ring.shm.writePosition
  writeBeforeRead : s'.ring.shm.writeBeforeRead = s.ring.shm.writeBeforeRead
  bytes : ∀ x ∈ s.ring.live, ∀ i, x.1 ≤ i → i < x.stop → s'.ring.mem i = s.ring.mem i
  follows : s.Follows s'
  followed : s'.Follows s

variable {s s' t : Sharing} {lap lap' : Lap} {op : ShmOp} {ops : List ShmOp} {data : List UInt8}

/-- Whether a write is accepted, and where it leaves the members, is decided without
looking at the block. -/
theorem writePacket_static (shm : IpfixShm) (m m' : Mem) (data : List UInt8) :
    (shm.writePacket m data).accepted = (shm.writePacket m' data).accepted ∧
      (shm.writePacket m data).shm = (shm.writePacket m' data).shm := by
  unfold IpfixShm.writePacket IpfixShm.put
  repeat' split
  all_goals exact ⟨rfl, rfl⟩

theorem Same.symm (h : s.Same t) : t.Same s :=
  ⟨h.shm.symm, h.written.symm, h.popped.symm, h.module.symm, h.got.symm⟩

theorem Same.allows (h : s.Same t) (ha : s.Allows op) : t.Allows op := by
  cases op with
  | write data => exact ha
  | read => unfold Allows at *; rwa [h.written, h.got]
  | pop => unfold Allows at *; rwa [h.popped, h.got]

theorem Same.accepted (h : s.Same t) : t.accepted data = s.accepted data := by
  unfold Sharing.accepted
  rw [h.shm]
  exact (writePacket_static _ _ _ _).1

theorem Same.live (h : s.Same t) : t.ring.live = s.ring.live := by
  unfold Ring.live; rw [h.written, h.popped]

theorem Same.harmless (h : s.Same t) (hs : s.Harmless op) : t.Harmless op := by
  cases op with
  | write data =>
    have hs' : s.accepted data = true ∨ s.ring.Harmless data := hs
    show t.accepted data = true ∨ t.ring.Harmless data
    unfold Ring.Harmless at *
    rwa [h.accepted, h.shm, h.live]
  | read => trivial
  | pop => trivial

theorem Same.apply (h : s.Same t) (hs : s.Inv lap) (ht : t.Inv lap') (ha : s.Allows op) :
    (s.apply op).Same (t.apply op) := by
  cases op with
  | write data =>
    obtain ⟨h1, h2⟩ := writePacket_static s.ring.shm s.ring.mem t.ring.mem data
    refine ⟨?_, ?_, h.popped, h.module, h.got⟩
    · simp only [Sharing.apply, Ring.write, h.shm, h2]
    · simp only [Sharing.apply, Ring.write, h.shm, h1, h2, h.written]
  | read =>
    obtain ⟨x, xs, _, hx, heq, -⟩ := hs.read_eq ha
    obtain ⟨y, ys, _, hy, heq', -⟩ := ht.read_eq (@Same.allows _ _ .read h ha)
    rw [h.written, h.got, hx, List.cons.injEq] at hy
    obtain ⟨rfl, rfl⟩ := hy
    rw [heq, heq']
    exact ⟨h.shm, h.written, h.popped, by rw [h.module], by rw [h.got]⟩
  | pop =>
    obtain ⟨x, xs, _, _, hx, heq, -⟩ := hs.pop_eq ha
    obtain ⟨y, ys, _, _, hy, heq', -⟩ := ht.pop_eq (@Same.allows _ _ .pop h ha)
    rw [h.live, hx, List.cons.injEq] at hy
    obtain ⟨rfl, rfl⟩ := hy
    rw [heq, heq']
    exact ⟨by rw [h.shm], h.written, by rw [h.popped], h.module, h.got⟩

/-- States that differ in memory only have the same future. -/
theorem Same.follows (h : s.Same t) (hs : s.Inv lap) (ht : t.Inv lap') : s.Follows t := by
  intro ops u hr
  induction hr generalizing t lap lap' with
  | nil => exact ⟨t, .nil t, h⟩
  | @cons s s1 _ op ops hstep _ ih =>
    obtain ⟨⟨ha, rfl⟩, hh⟩ := hstep
    obtain ⟨lap1, hs1⟩ := hs.step ha hh
    obtain ⟨lap2, ht1⟩ := ht.step (h.allows ha) (h.harmless hh)
    obtain ⟨u', hr', hsame⟩ := ih (h.apply hs ht ha) hs1 ht1
    exact ⟨u', .cons ⟨⟨h.allows ha, rfl⟩, h.harmless hh⟩ hr', hsame⟩

end Sharing

/-! ## Harmless and harmful rejections -/

/-- Along runs that do no harm, a rejected write leaves the ring as it was exactly when
it is harmless. -/
theorem shares_undisturbed_iff {s : Sharing} {data : List UInt8}
    (h : (shares.restrict Sharing.Harmless).Reachable s) (hrej : s.accepted data = false) :
    s.Undisturbed (s.apply (.write data)) ↔ s.ring.Harmless data := by
  obtain ⟨lap, hinv⟩ := Sharing.inv_reachable h
  refine ⟨fun hu => ?_, fun hh => ?_⟩
  · exact Ring.harmless_of_undisturbed hinv.ring hrej hu.writePosition hu.bytes
  · obtain ⟨m, heq, -, hbytes, -⟩ := Ring.write_rejected hinv.ring hrej hh
    have hinv' := hinv.rejected hrej hh
    have hring :
      (s.apply (.write data)).ring = ⟨m, s.ring.shm, s.ring.written, s.ring.popped⟩ := heq
    have hsame : s.Same (s.apply (.write data)) := by
      refine ⟨?_, ?_, ?_, rfl, rfl⟩ <;> rw [hring]
    refine
      ⟨by rw [hring], by rw [hring], ?_, hsame.follows hinv hinv', hsame.symm.follows hinv' hinv⟩
    rw [hring]
    exact hbytes

/-- The third packet begins a new lap of 16 bytes; a fourth of 8 bytes is rejected
and finds nothing to destroy. -/
theorem shares_undisturbed_newLap :
    let s := [ShmOp.write [1, 1, 1, 1], .write [2, 2, 2, 2], .read, .read, .pop, .pop,
      .write [3, 3, 3, 3]].foldl Sharing.apply
        ⟨⟨fun _ => 7, IpfixShm.attach 16, [], []⟩, IpfixShm.attach 16, [], []⟩
    s.accepted (List.replicate 8 4) = false ∧
      s.Undisturbed (s.apply (.write (List.replicate 8 4))) := by
  intro s
  have hreach : (shares.restrict Sharing.Harmless).Reachable s :=
    LTS.Reachable.foldl_restrict (.init ⟨_, true, 16, rfl⟩) (by decide)
  have hrej : s.accepted (List.replicate 8 4) = false := by decide
  exact ⟨hrej, (shares_undisturbed_iff hreach hrej).mpr (.inr (.inr (by decide)))⟩

/-- In a block of 20 bytes the writer is in its second lap, at 6, and the third packet
stands unread at 12; a packet of 13 bytes is rejected after that packet was zeroed. -/
theorem shares_rejected_destroys :
    ∃ (s : Sharing) (data : List UInt8), shares.Reachable s ∧ data.length < 65536 ∧
      s.accepted data = false ∧ (12, [3, 3, 3, 3]) ∈ s.ring.live ∧
      ¬ Stored (s.apply (.write data)).ring.mem (12, [3, 3, 3, 3]) ∧
      ¬ s.Undisturbed (s.apply (.write data)) := by
  let s := [ShmOp.write [1, 1, 1, 1], .write [2, 2, 2, 2], .write [3, 3, 3, 3], .read, .read,
    .pop, .pop, .write [4, 4, 4, 4]].foldl Sharing.apply
      ⟨⟨fun _ => 7, IpfixShm.attach 20, [], []⟩, IpfixShm.attach 20, [], []⟩
  have hreach : (shares.restrict Sharing.Harmless).Reachable s :=
    LTS.Reachable.foldl_restrict (.init ⟨_, true, 20, rfl⟩) (by decide)
  have hlive : (12, [3, 3, 3, 3]) ∈ s.ring.live := by decide
  have hzero : (s.apply (.write (List.replicate 13 5))).ring.mem 12 = 0 := by decide
  refine ⟨s, List.replicate 13 5, hreach.of_restrict, by decide, by decide, hlive, fun hst => ?_,
    fun hu => ?_⟩
  · have := hst.2.2.apply (i := 0) (by decide)
    rw [Nat.add_zero, hzero] at this
    exact absurd this (by decide)
  · have := hu.bytes _ hlive 12 (by decide) (by decide)
    rw [hzero] at this
    exact absurd this (by decide)

end Topas
