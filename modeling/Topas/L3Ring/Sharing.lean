import Topas.Core.LTS
import Topas.L3Ring.Ring

/-!
# The ring between the collector and a detection module

`shares` interleaves, in any order, writes and pops of the collector with reads of
a module that attached before the first write. A packet is popped only after the
module has read it, and neither side reads more packets than were written.

* `shares_fifo`: in runs in which every write is accepted, both sides get the
  written packets, in order, every packet that is not popped still stands where it
  was stored, and every access lies inside the block.
* `Sharing.inv_reachable`: the invariant, also in runs with rejected writes that do
  no harm (`Ring.Harmless`). `L3Ring.Rejected` is about the others.
-/
namespace Topas

open Mem

/-- `got` is what the module has read so far, `touched` all accesses to the block. -/
structure Sharing where
  ring : Ring
  module : IpfixShm
  got : List (List UInt8)
  touched : List (Nat × Nat)

inductive ShmOp where
  | write (data : List UInt8)
  | read
  | pop

namespace Sharing

/-- Packets are at most 65535 bytes long, and only written packets are read. -/
def Allows (s : Sharing) : ShmOp → Prop
  | .write data => data.length < 65536
  | .read => s.got.length < s.ring.written.length
  | .pop => s.ring.popped.length < s.got.length

def apply (s : Sharing) : ShmOp → Sharing
  | .write data =>
    { s with
      ring := s.ring.write data
      touched := s.touched ++ (s.ring.shm.writePacket s.ring.mem data).touched }
  | .read =>
    let (module, touched) := s.module.readPacket s.ring.mem
    { s with
      module := module
      got := s.got ++ [module.packet s.ring.mem]
      touched := s.touched ++ touched ++ [(module.readPosition, module.packetSize)] }
  | .pop =>
    { s with
      ring := s.ring.pop
      touched := s.touched ++ (s.ring.shm.proceedOnePacket s.ring.mem).2 }

/-- The block holds anything at first, and need not be allocated. -/
def Initial (s : Sharing) : Prop :=
  ∃ mem allocated size, s = ⟨⟨mem, { IpfixShm.attach size with allocated := allocated }, [], []⟩,
    IpfixShm.attach size, [], []⟩

def accepted (s : Sharing) (data : List UInt8) : Bool :=
  (s.ring.shm.writePacket s.ring.mem data).accepted

/-- No write is rejected. -/
def Accepting (s : Sharing) : ShmOp → Prop
  | .write data => s.accepted data = true
  | _ => True

/-- No write that is rejected does harm. -/
def Harmless (s : Sharing) : ShmOp → Prop
  | .write data => s.accepted data = true ∨ s.ring.Harmless data
  | _ => True

instance (s : Sharing) : DecidablePred s.Allows
  | .write data => inferInstanceAs (Decidable (data.length < 65536))
  | .read => inferInstanceAs (Decidable (s.got.length < s.ring.written.length))
  | .pop => inferInstanceAs (Decidable (s.ring.popped.length < s.got.length))

instance (s : Sharing) : DecidablePred s.Accepting
  | .write data => inferInstanceAs (Decidable (s.accepted data = true))
  | .read => .isTrue trivial
  | .pop => .isTrue trivial

instance (s : Sharing) : DecidablePred s.Harmless
  | .write data => inferInstanceAs (Decidable (s.accepted data = true ∨ s.ring.Harmless data))
  | .read => .isTrue trivial
  | .pop => .isTrue trivial

end Sharing

def shares : LTS Sharing ShmOp := .ofFun Sharing.Initial Sharing.Allows Sharing.apply

/-! ## The invariant -/

structure Sharing.Inv (s : Sharing) (lap : Lap) : Prop where
  ring : s.ring.Inv lap
  size : s.module.size = s.ring.shm.size
  flag : s.module.writeBeforeRead = false
  popped_le : s.ring.popped.length ≤ s.got.length
  ahead : s.ring.Ahead lap s.module.next (s.ring.written.drop s.got.length)
  got : s.got <+: s.ring.written.map Prod.snd
  popped : s.ring.popped <+: s.ring.written.map Prod.snd
  touched : ∀ t ∈ s.touched, t.1 + t.2 ≤ s.ring.shm.size

section Steps

variable {s s' : Sharing} {lap : Lap} {op : ShmOp} {data : List UInt8}

theorem prefix_concat {got : List (List UInt8)} {l : List Packet} {x : Packet} {xs : List Packet}
    (h : got <+: l.map Prod.snd) (hx : l.drop got.length = x :: xs) :
    got ++ [x.2] <+: l.map Prod.snd := by
  obtain ⟨rest, hrest⟩ := h
  have hdrop := congrArg (List.map Prod.snd) hx
  rw [List.map_drop, ← hrest, List.drop_left, List.map_cons] at hdrop
  refine ⟨xs.map Prod.snd, ?_⟩
  rw [List.append_assoc, List.singleton_append, ← hdrop, hrest]

theorem drop_cons_of_lt {α : Type} {l : List α} {n : Nat} (h : n < l.length) :
    ∃ x xs, l.drop n = x :: xs ∧ l.drop (n + 1) = xs :=
  ⟨_, _, List.drop_eq_getElem_cons h, rfl⟩

theorem Sharing.Inv.accepted (h : s.Inv lap) (hlen : data.length < 65536)
    (hacc : s.accepted data = true) : ∃ lap', (s.apply (.write data)).Inv lap' := by
  obtain ⟨lap', m, shm, a, heq, hsize, hinv, ht, hahead⟩ := Ring.write_accepted h.ring hlen hacc
  have hgot := h.got.length_le
  rw [List.length_map] at hgot
  have happ : ∀ l : List (List UInt8), l <+: s.ring.written.map Prod.snd →
      l <+: (s.ring.written ++ [(a, data)]).map Prod.snd := fun l hl => by
    rw [List.map_append]; exact hl.trans (List.prefix_append _ _)
  refine ⟨lap', hinv, ?_, h.flag, ?_, ?_, ?_, ?_, fun t ht' => ?_⟩ <;>
    simp only [Sharing.apply, heq] at *
  · rw [hsize, h.size]
  · exact h.popped_le
  · have := hahead _ _ h.ahead
    rwa [← List.drop_append_of_le_length hgot] at this
  · exact happ _ h.got
  · exact happ _ h.popped
  · rw [hsize]
    rcases List.mem_append.mp ht' with ht' | ht'
    · exact h.touched t ht'
    · exact ht t ht'

theorem Sharing.Inv.rejected (h : s.Inv lap) (hrej : s.accepted data = false)
    (hh : s.ring.Harmless data) : (s.apply (.write data)).Inv lap := by
  obtain ⟨m, heq, hinv, -, ht, hahead⟩ := Ring.write_rejected h.ring hrej hh
  have ha := hahead _ _ h.ahead
  refine ⟨hinv, ?_, h.flag, ?_, ?_, ?_, ?_, fun t ht' => ?_⟩ <;>
    simp only [Sharing.apply, heq] at *
  · exact h.size
  · exact h.popped_le
  · exact ha
  · exact h.got
  · exact h.popped
  · rcases List.mem_append.mp ht' with ht' | ht'
    · exact h.touched t ht'
    · exact ht t ht'

/-- What a read does, in terms of the written packets. -/
theorem Sharing.Inv.read_eq (h : s.Inv lap) (hlt : s.got.length < s.ring.written.length) :
    ∃ x xs touched, s.ring.written.drop s.got.length = x :: xs ∧
      s.apply .read =
        { s with module := s.module.onto x, got := s.got ++ [x.2], touched := touched } ∧
      (s.apply .read).Inv lap := by
  obtain ⟨x, xs, hx, hxs⟩ := drop_cons_of_lt hlt
  have ha := h.ahead
  rw [hx] at ha
  obtain ⟨⟨flag, touched, hr, hflag, ht⟩, hst, hle, hahead⟩ := Ring.ahead_read h.ring ha rfl h.size
  have honto : { s.module.onto x with writeBeforeRead := flag } = s.module.onto x := by
    rw [hflag h.flag, ← h.flag]; rfl
  have hpacket : (s.module.onto x).packet s.ring.mem = x.2 := hst.bytes
  have heq : s.apply .read = { s with
      module := s.module.onto x
      got := s.got ++ [x.2]
      touched := s.touched ++ touched ++ [((s.module.onto x).readPosition,
        (s.module.onto x).packetSize)] } := by
    unfold Sharing.apply
    simp only [hr, honto, hpacket]
  refine ⟨x, xs, _, hx, heq, ?_⟩
  rw [heq]
  refine ⟨h.ring, h.size, h.flag, ?_, ?_, prefix_concat h.got hx, h.popped, fun t ht' => ?_⟩
  · have := h.popped_le
    simp only [List.length_append]; omega
  · simp only [List.length_append, List.length_singleton, hxs]
    exact IpfixShm.next_onto (s := s.module) ▸ hahead
  · simp only [List.mem_append, List.mem_singleton] at ht'
    rcases ht' with (ht' | ht') | rfl
    · exact h.touched t ht'
    · exact ht t ht'
    · unfold Packet.stop at hle
      simp only [IpfixShm.onto]; omega

theorem Sharing.Inv.pop_eq (h : s.Inv lap) (hlt : s.ring.popped.length < s.got.length) :
    ∃ x xs lap' touched, s.ring.live = x :: xs ∧
      s.apply .pop = { s with
        ring := ⟨s.ring.mem,
          { s.ring.shm.onto x with writeBeforeRead := s.ring.shm.writeBeforeRead && x.1 != 0 },
          s.ring.written, s.ring.popped ++ [x.2]⟩
        touched := touched } ∧ (s.apply .pop).Inv lap' := by
  have hgot := h.got.length_le
  rw [List.length_map] at hgot
  obtain ⟨x, xs, hx, hxs⟩ := @drop_cons_of_lt _ s.ring.written s.ring.popped.length (by omega)
  obtain ⟨lap', touched, hinv, hlive, heq, ht, htouched, -, hahead⟩ := Ring.pop_spec h.ring hx
  have hsuf : s.ring.written.drop s.got.length <:+ xs := by
    rw [← hxs]
    have :
        s.got.length = s.ring.popped.length + 1 + (s.got.length - (s.ring.popped.length + 1)) := by
      omega
    rw [this, ← List.drop_drop]
    exact List.drop_suffix _ _
  have ha := hahead _ _ h.ahead hsuf
  refine ⟨x, xs, lap', s.touched ++ touched, hx, ?_, ?_⟩
  · unfold Sharing.apply
    rw [heq, ht]
  · refine ⟨hinv, ?_, h.flag, ?_, ?_, ?_, ?_, fun t ht' => ?_⟩ <;>
      simp only [Sharing.apply, heq] at *
    · exact h.size
    · simp only [List.length_append, List.length_singleton]; omega
    · exact ha
    · exact h.got
    · exact prefix_concat h.popped hx
    · rcases List.mem_append.mp ht' with ht' | ht'
      · exact h.touched t ht'
      · exact htouched t (ht ▸ ht')

/-- The invariant survives every step that does no harm. -/
theorem Sharing.Inv.step (h : s.Inv lap) (hs : s.Allows op) (hh : s.Harmless op) :
    ∃ lap', (s.apply op).Inv lap' := by
  cases op with
  | write data =>
    cases hacc : s.accepted data with
    | true => exact h.accepted hs hacc
    | false =>
      rcases hh with hh | hh
      · rw [hacc] at hh; cases hh
      · exact ⟨lap, h.rejected hacc hh⟩
  | read =>
    obtain ⟨-, -, -, -, -, hinv⟩ := h.read_eq hs
    exact ⟨lap, hinv⟩
  | pop =>
    obtain ⟨-, -, lap', -, -, -, hinv⟩ := h.pop_eq hs
    exact ⟨lap', hinv⟩

theorem Sharing.inv_reachable (h : (shares.restrict Sharing.Harmless).Reachable s) :
    ∃ lap, s.Inv lap := by
  refine LTS.Inductive.reachable (I := fun s => ∃ lap, s.Inv lap) ⟨?_, ?_⟩ s h
  · intro s ⟨mem, allocated, size, hs⟩
    subst hs
    exact ⟨none, ⟨Nat.zero_le _, Nat.le_refl _, rfl, rfl⟩, rfl, rfl, Nat.le_refl _,
      ⟨List.suffix_refl _, rfl⟩, List.prefix_refl _, List.prefix_refl _, fun _ ht => nomatch ht⟩
  · intro s op s' ⟨lap, hinv⟩ ⟨⟨hallow, hs⟩, hh⟩
    subst hs
    exact hinv.step hallow hh

end Steps

/-! ## Runs without rejected writes -/

/-- Both sides get the packets that were written, in order; what is not popped
still stands in the block; every access lies inside it. -/
theorem shares_fifo {s : Sharing} (h : (shares.restrict Sharing.Accepting).Reachable s) :
    s.got <+: s.ring.written.map Prod.snd ∧ s.ring.popped <+: s.ring.written.map Prod.snd ∧
      (∀ x ∈ s.ring.live, Stored s.ring.mem x ∧ x.stop ≤ s.ring.shm.size) ∧
      ∀ t ∈ s.touched, t.1 + t.2 ≤ s.ring.shm.size := by
  have hh : (shares.restrict Sharing.Harmless).Reachable s := by
    refine LTS.Reachable.weaken (fun s op hacc => ?_) h
    cases op with
    | write data => exact .inl hacc
    | read => trivial
    | pop => trivial
  obtain ⟨lap, hinv⟩ := Sharing.inv_reachable hh
  exact ⟨hinv.got, hinv.popped, fun x hx => hinv.ring.stored hx, hinv.touched⟩

/-- The third packet wraps: 12 of 16 bytes are in use, the collector reads at 8. -/
theorem shares_fifo_wrap :
    let s := [ShmOp.write [1, 1, 1, 1], .write [2, 2, 2, 2], .read, .read, .pop, .pop,
      .write [3, 3, 3, 3], .read].foldl Sharing.apply
        ⟨⟨fun _ => 7, IpfixShm.attach 16, [], []⟩, IpfixShm.attach 16, [], []⟩
    s.got = [[1, 1, 1, 1], [2, 2, 2, 2], [3, 3, 3, 3]] ∧
      s.got <+: s.ring.written.map Prod.snd ∧ ∀ t ∈ s.touched, t.1 + t.2 ≤ 16 := by
  intro s
  have hreach : (shares.restrict Sharing.Accepting).Reachable s :=
    LTS.Reachable.foldl_restrict (.init ⟨_, true, 16, rfl⟩) (by decide)
  obtain ⟨h1, -, -, h2⟩ := shares_fifo hreach
  exact ⟨by decide, h1, h2⟩

end Topas
