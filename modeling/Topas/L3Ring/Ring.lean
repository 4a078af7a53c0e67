import Topas.L3Ring.IpfixShm

/-!
# The ring

`Ring` is the shared block with the collector's members; ghost fields record the
accepted packets, where each was stored, and what the collector got when it threw
packets away. `live` are the packets it has not thrown away.

`Ring.Inv` has two shapes. Either the live packets lie in one piece in front of
the write position. Or the writer has begun a new lap: the older packets lie at
the end of the block, behind them everything is zero, and the newer packets lie
between the beginning and the write position, which does not pass the collector's
read position. `Lap` says which, and with what in the new lap.

`Ring.Ahead lap p xs`: a reader whose next position is `p` has the packets `xs`
ahead of it. The collector is such a reader (`Inv.ahead`), and so is every
detection module that is in step.

* `ahead_read`: a reader gets the first packet ahead of it.
* `write_accepted`, `write_rejected`, `pop_spec`: what the collector's operations do to
  the ring and to its readers.
-/
namespace Topas

open Mem

structure Ring where
  mem : Mem
  shm : IpfixShm
  written : List Packet
  popped : List (List UInt8)

/-- Where the old lap ends, and the packets of the new one. -/
abbrev Lap := Option (Nat × List Packet)

namespace Ring

def live (r : Ring) : List Packet := r.written.drop r.popped.length

/-- `IpfixShm::writePacket`; an accepted packet was stored right in front of the new
write position. -/
def write (r : Ring) (data : List UInt8) : Ring :=
  let w := r.shm.writePacket r.mem data
  { r with
    mem := w.mem
    shm := w.shm
    written := if w.accepted then
        r.written ++ [(w.shm.writePosition - (2 + data.length), data)] else r.written }

/-- `IpfixShm::proceedOnePacket` -/
def pop (r : Ring) : Ring :=
  let shm := (r.shm.proceedOnePacket r.mem).1
  { r with shm := shm, popped := r.popped ++ [shm.packet r.mem] }

def Shape (r : Ring) : Lap → Prop
  | none => r.shm.writeBeforeRead = false ∧ Laid r.mem r.shm.next r.live r.shm.writePosition
  | some (e, ys) =>
    r.shm.writeBeforeRead = true ∧ r.shm.writePosition ≤ r.shm.readPosition ∧ e ≤ r.shm.size ∧
      Zeroed r.mem e r.shm.size ∧ ys ≠ [] ∧ Laid r.mem 0 ys r.shm.writePosition ∧
      ∃ us, r.live = us ++ ys ∧ Laid r.mem r.shm.next us e

structure Inv (r : Ring) (lap : Lap) : Prop where
  write_le : r.shm.writePosition ≤ r.shm.size
  popped_le : r.popped.length ≤ r.written.length
  shape : r.Shape lap

/-- A reader whose next position is `p` has the packets `xs` ahead of it. -/
def Ahead (r : Ring) (lap : Lap) (p : Nat) (xs : List Packet) : Prop :=
  xs <:+ r.live ∧
    match lap with
    | none => Laid r.mem p xs r.shm.writePosition
    | some (e, ys) =>
      (∃ us, xs = us ++ ys ∧ Laid r.mem p us e) ∨
        (xs <:+ ys ∧ Laid r.mem p xs r.shm.writePosition)

variable {r : Ring} {lap : Lap} {p : Nat} {x : Packet} {xs : List Packet}

theorem Inv.ahead (h : r.Inv lap) : r.Ahead lap r.shm.next r.live := by
  refine ⟨List.suffix_refl _, ?_⟩
  have hs := h.shape
  cases lap with
  | none => exact hs.2
  | some l => exact .inl hs.2.2.2.2.2.2

/-! ## Reading -/

/-- The two bytes of the length. -/
theorem length_inside {n : Nat} (h : x.stop ≤ n) : ∀ t ∈ [(x.1, 2)], t.1 + t.2 ≤ n := by
  intro t ht
  rw [List.mem_singleton] at ht
  subst ht
  unfold Packet.stop at h
  simp only; omega

/-- The next packet is the first of a piece. -/
theorem read_laid {s : IpfixShm} {q : Nat} (h : Laid r.mem p (x :: xs) q) (hq : q ≤ r.shm.size)
    (hp : s.next = p) (hs : s.size = r.shm.size) :
    s.readPacket r.mem = (s.onto x, [(x.1, 2)]) ∧ Stored r.mem x ∧ x.stop ≤ r.shm.size ∧
      Laid r.mem x.stop xs q := by
  obtain ⟨hx, hst, hrest⟩ := h
  have hle := hrest.le
  exact ⟨readPacket_here hst (hp.trans hx.symm) (by omega), hst, by omega, hrest⟩

/-- The next packet is the first of the new lap. -/
theorem read_lap {s : IpfixShm} {e : Nat} (h : r.Inv (some (e, x :: xs))) (hp : s.next = e)
    (hs : s.size = r.shm.size) :
    (∃ touched, s.readPacket r.mem = ({ s.onto x with writeBeforeRead := false }, touched) ∧
      ∀ t ∈ touched, t.1 + t.2 ≤ r.shm.size) ∧ Stored r.mem x ∧ x.stop ≤ r.shm.size ∧
      Laid r.mem x.stop xs r.shm.writePosition := by
  obtain ⟨-, -, he, hz, -, ⟨hx, hst, hrest⟩, -⟩ := h.shape
  have hle := hrest.le
  have hw := h.write_le
  have hread := @readPacket_wrap s r.mem x hst hx (by omega) (by omega) (by rw [hp, hs]; exact hz)
  rw [hs] at hread
  exact ⟨hread, hst, by omega, hrest⟩

/-- A reader gets the first packet ahead of it, and then has the others ahead. -/
theorem ahead_read {s : IpfixShm} (h : r.Inv lap) (ha : r.Ahead lap p (x :: xs)) (hp : s.next = p)
    (hs : s.size = r.shm.size) :
    (∃ flag touched, s.readPacket r.mem = ({ s.onto x with writeBeforeRead := flag }, touched) ∧
      (s.writeBeforeRead = false → flag = false) ∧ ∀ t ∈ touched, t.1 + t.2 ≤ r.shm.size) ∧
    Stored r.mem x ∧ x.stop ≤ r.shm.size ∧ r.Ahead lap x.stop xs := by
  obtain ⟨hsuf, ha⟩ := ha
  have hsuf' : xs <:+ r.live := (List.suffix_cons x xs).trans hsuf
  have hw := h.write_le
  have hhere : ∀ {q zs}, Laid r.mem p (x :: zs) q → q ≤ r.shm.size →
      (∃ flag touched, s.readPacket r.mem = ({ s.onto x with writeBeforeRead := flag }, touched) ∧
        (s.writeBeforeRead = false → flag = false) ∧ ∀ t ∈ touched, t.1 + t.2 ≤ r.shm.size) ∧
      Stored r.mem x ∧ x.stop ≤ r.shm.size ∧ Laid r.mem x.stop zs q := by
    intro q zs hl hq
    obtain ⟨hr, hst, hle, hrest⟩ := read_laid hl hq hp hs
    exact ⟨⟨s.writeBeforeRead, _, hr, id, length_inside hle⟩, hst, hle, hrest⟩
  cases lap with
  | none =>
    obtain ⟨h1, h2, h3, h4⟩ := hhere ha hw
    exact ⟨h1, h2, h3, hsuf', h4⟩
  | some l =>
    obtain ⟨e, ys⟩ := l
    rcases ha with ⟨us, hus, hl⟩ | ⟨hys, hl⟩
    · cases us with
      | nil =>
        rw [List.nil_append] at hus
        subst hus
        have hpe : p = e := hl
        obtain ⟨⟨t, hr, ht⟩, h2, h3, h4⟩ := read_lap h (hp.trans hpe) hs
        exact ⟨⟨false, t, hr, fun _ => rfl, ht⟩, h2, h3, hsuf', .inr ⟨List.suffix_cons x xs, h4⟩⟩
      | cons u us =>
        rw [List.cons_append, List.cons.injEq] at hus
        obtain ⟨rfl, rfl⟩ := hus
        obtain ⟨h1, h2, h3, h4⟩ := hhere hl h.shape.2.2.1
        exact ⟨h1, h2, h3, hsuf', .inl ⟨us, rfl, h4⟩⟩
    · obtain ⟨h1, h2, h3, h4⟩ := hhere hl hw
      exact ⟨h1, h2, h3, hsuf', .inr ⟨(List.suffix_cons x xs).trans hys, h4⟩⟩

theorem live_lt (hl : r.live = x :: xs) : r.popped.length < r.written.length := by
  have := congrArg List.length hl
  simp only [live, List.length_drop, List.length_cons] at this
  omega

theorem pop_eq {flag : Bool} {touched : List (Nat × Nat)} (hst : Stored r.mem x)
    (hr : r.shm.readPacket r.mem = ({ r.shm.onto x with writeBeforeRead := flag }, touched)) :
    r.pop =
        ⟨r.mem, { r.shm.onto x with writeBeforeRead := flag }, r.written, r.popped ++ [x.2]⟩ := by
  unfold pop IpfixShm.proceedOnePacket
  simp only [hr]
  congr 2
  exact congrArg (· :: []) hst.bytes

theorem live_pop {shm : IpfixShm} (hl : r.live = x :: xs) :
    (⟨r.mem, shm, r.written, r.popped ++ [x.2]⟩ : Ring).live = xs := by
  unfold live at hl ⊢
  rw [List.length_append, List.length_singleton, ← List.drop_drop, hl]
  rfl

/-- The collector throws its first packet away; its flag falls with the first packet
of the new lap. -/
theorem pop_spec (h : r.Inv lap) (hl : r.live = x :: xs) :
    ∃ lap' touched, r.pop.Inv lap' ∧ r.pop.live = xs ∧
      r.pop = ⟨r.mem, { r.shm.onto x with writeBeforeRead := r.shm.writeBeforeRead && x.1 != 0 },
        r.written, r.popped ++ [x.2]⟩ ∧
      (r.shm.proceedOnePacket r.mem).2 = touched ∧ (∀ t ∈ touched, t.1 + t.2 ≤ r.shm.size) ∧
      x.stop ≤ r.shm.size ∧ ∀ p zs, r.Ahead lap p zs → zs <:+ xs → r.pop.Ahead lap' p zs := by
  have hlt := live_lt hl
  have hpopped : (r.popped ++ [x.2]).length ≤ r.written.length := by
    rw [List.length_append, List.length_singleton]; exact hlt
  have hlive := fun shm => @live_pop r x xs shm hl
  have hs := h.shape
  cases lap with
  | none =>
    obtain ⟨hf, hlaid⟩ := hs
    rw [hl] at hlaid
    obtain ⟨hr, hst, hle, hrest⟩ := read_laid hlaid h.write_le rfl rfl
    have hflag : r.shm.writeBeforeRead = (r.shm.writeBeforeRead && x.1 != 0) := by simp [hf]
    have hpop := @pop_eq r x (r.shm.writeBeforeRead && x.1 != 0) _ hst
      (by rw [hr, ← hflag]; rfl)
    refine ⟨none, _, ?_, ?_, hpop, congrArg Prod.snd hr, ?_, hle, ?_⟩
    · rw [hpop]
      exact ⟨h.write_le, hpopped, hflag ▸ hf, by
        rw [hlive]; exact IpfixShm.next_onto (s := r.shm) ▸ hrest⟩
    · rw [hpop]; exact hlive _
    · exact length_inside hle
    · intro p zs ha hz
      rw [hpop]
      exact ⟨by rw [hlive]; exact hz, ha.2⟩
  | some l =>
    obtain ⟨e, ys⟩ := l
    obtain ⟨hf, hwr, he, hz, hne, hnew, us, hus, hold⟩ := hs
    rw [hl] at hus
    cases us with
    | nil =>
      rw [List.nil_append] at hus
      subst hus
      obtain ⟨⟨t, hr, ht⟩, hst, hle, hrest⟩ := read_lap h hold rfl
      have hflag : false = (r.shm.writeBeforeRead && x.1 != 0) := by simp [hnew.1]
      have hpop := @pop_eq r x (r.shm.writeBeforeRead && x.1 != 0) _ hst (hflag ▸ hr)
      refine ⟨none, t, ?_, ?_, hpop, congrArg Prod.snd hr, ht, hle, ?_⟩
      · rw [hpop]
        exact ⟨h.write_le, hpopped, hflag.symm,
          by rw [hlive]; exact IpfixShm.next_onto (s := r.shm) ▸ hrest⟩
      · rw [hpop]; exact hlive _
      · intro p zs ha hzs
        rw [hpop]
        refine ⟨by rw [hlive]; exact hzs, ?_⟩
        rcases ha.2 with ⟨vs, hvs, -⟩ | ⟨-, hlaid⟩
        · have := hzs.length_le
          rw [hvs, List.length_append, List.length_cons] at this
          omega
        · exact hlaid
    | cons u us =>
      rw [List.cons_append, List.cons.injEq] at hus
      obtain ⟨rfl, rfl⟩ := hus
      obtain ⟨hr, hst, hle, hrest⟩ := read_laid hold he rfl rfl
      have hx : x.1 = r.shm.readPosition + r.shm.packetSize := hold.1
      have hpos : 0 < r.shm.writePosition := by
        obtain ⟨y, hy⟩ := List.exists_mem_of_ne_nil _ hne
        obtain ⟨-, hstop, -⟩ := hnew.mem hy
        unfold Packet.stop at hstop; omega
      have hflag : r.shm.writeBeforeRead = (r.shm.writeBeforeRead && x.1 != 0) := by
        have : x.1 ≠ 0 := by omega
        simp [hf, this]
      have hpop := @pop_eq r x (r.shm.writeBeforeRead && x.1 != 0) _ hst
        (by rw [hr, ← hflag]; rfl)
      refine ⟨some (e, ys), _, ?_, ?_, hpop, congrArg Prod.snd hr, ?_, hle, ?_⟩
      · rw [hpop]
        refine ⟨h.write_le, hpopped, hflag ▸ hf, ?_, he, hz, hne, hnew, us, hlive _, ?_⟩
        · simp only [IpfixShm.onto]; omega
        · exact IpfixShm.next_onto (s := r.shm) ▸ hrest
      · rw [hpop]; exact hlive _
      · exact length_inside hle
      · intro p zs ha hz
        rw [hpop]
        exact ⟨by rw [hlive]; exact hz, ha.2⟩

/-! ## Writing -/

theorem write_eq {data : List UInt8} {w : Wrote} (hw : r.shm.writePacket r.mem data = w) :
    r.write data = ⟨w.mem, w.shm, if w.accepted then
      r.written ++ [(w.shm.writePosition - (2 + data.length), data)] else r.written, r.popped⟩ := by
  unfold write; rw [hw]

theorem live_concat {m : Mem} {shm : IpfixShm} (h : r.Inv lap) :
    (⟨m, shm, r.written ++ [x], r.popped⟩ : Ring).live = r.live ++ [x] :=
  List.drop_append_of_le_length h.popped_le

theorem suffix_concat {α : Type} {xs ys : List α} (h : xs <:+ ys) (x : α) :
    xs ++ [x] <:+ ys ++ [x] := by
  obtain ⟨t, rfl⟩ := h
  exact ⟨t, (List.append_assoc ..).symm⟩

theorem suffix_of_append {α : Type} {xs ys zs : List α} (h : xs ++ zs <:+ ys ++ zs) :
    xs <:+ ys := by
  obtain ⟨t, ht⟩ := h
  rw [← List.append_assoc] at ht
  exact ⟨t, List.append_cancel_right ht⟩

/-- No reader is behind the collector in the piece that ends at `e`. -/
theorem Inv.le_reader {e : Nat} {ys us : List Packet} (h : r.Inv (some (e, ys)))
    (hz : us ++ ys <:+ r.live) (hl : Laid r.mem p us e) : r.shm.readPosition ≤ p := by
  obtain ⟨-, -, -, -, -, -, vs, hvs, hold⟩ := h.shape
  rw [hvs] at hz
  have := hold.le_start hl (suffix_of_append hz)
  unfold IpfixShm.next at this; omega

/-- A packet is stored behind the only piece. -/
theorem Inv.store_piece {data : List UInt8} {r' : Ring} (h : r.Inv none) (hpos : 1 ≤ data.length)
    (hlen : data.length < 65536) (hfit : r.shm.writePosition + data.length + 2 < r.shm.size)
    (hr' : r' = ⟨copied r.mem r.shm.writePosition data,
      { r.shm with writePosition := r.shm.writePosition + (2 + data.length) },
      r.written ++ [(r.shm.writePosition, data)], r.popped⟩) :
    r'.Inv none ∧
      ∀ p zs, r.Ahead none p zs → r'.Ahead none p (zs ++ [(r.shm.writePosition, data)]) := by
  subst hr'
  obtain ⟨hf, hlaid⟩ := h.shape
  have hnew : ∀ {p zs}, Laid r.mem p zs r.shm.writePosition →
      Laid (copied r.mem r.shm.writePosition data) p (zs ++ [(r.shm.writePosition, data)])
        (r.shm.writePosition + (2 + data.length)) := fun hl =>
    (hl.congr fun i _ hi => (copied_other (.inl hi)).symm).concat (stored_copied hpos hlen) rfl
  refine ⟨⟨?_, ?_, hf, ?_⟩, fun p zs ha => ⟨?_, hnew ha.2⟩⟩
  · simp only; omega
  · exact Nat.le_trans h.popped_le (List.prefix_append _ _).length_le
  · rw [live_concat h]; exact hnew hlaid
  · rw [live_concat h]; exact suffix_concat ha.1 _

/-- A packet is stored in the new lap, in front of the collector. -/
theorem Inv.store_lap {data : List UInt8} {r' : Ring} {e : Nat} {ys : List Packet}
    (h : r.Inv (some (e, ys))) (hpos : 1 ≤ data.length) (hlen : data.length < 65536)
    (hfit : r.shm.writePosition + data.length + 2 < r.shm.size)
    (hroom : r.shm.writePosition + data.length + 2 ≤ r.shm.readPosition)
    (hr' : r' = ⟨copied r.mem r.shm.writePosition data,
      { r.shm with writePosition := r.shm.writePosition + (2 + data.length) },
      r.written ++ [(r.shm.writePosition, data)], r.popped⟩) :
    r'.Inv (some (e, ys ++ [(r.shm.writePosition, data)])) ∧
      ∀ p zs, r.Ahead (some (e, ys)) p zs →
        r'.Ahead (some (e, ys ++ [(r.shm.writePosition, data)])) p
            (zs ++ [(r.shm.writePosition, data)]) := by
  subst hr'
  obtain ⟨hf, -, he, hz, -, hlaid, us, hus, hold⟩ := h.shape
  have hnew : ∀ {p zs}, Laid r.mem p zs r.shm.writePosition →
      Laid (copied r.mem r.shm.writePosition data) p (zs ++ [(r.shm.writePosition, data)])
        (r.shm.writePosition + (2 + data.length)) := fun hl =>
    (hl.congr fun i _ hi => (copied_other (.inl hi)).symm).concat (stored_copied hpos hlen) rfl
  -- the old lap lies behind the collector's read position
  have hkeep : ∀ i, r.shm.readPosition ≤ i → r.mem i = copied r.mem r.shm.writePosition data i :=
    fun i hi => (copied_other (.inr (by omega))).symm
  have hnext : r.shm.readPosition ≤ r.shm.next := Nat.le_add_right _ _
  have hne := hold.le
  refine ⟨⟨?_, ?_, hf, ?_, he, fun i hi hi' => ?_, by simp, hnew hlaid, us, ?_, ?_⟩,
    fun p zs ha => ⟨?_, ?_⟩⟩
  · simp only; omega
  · exact Nat.le_trans h.popped_le (List.prefix_append _ _).length_le
  · simp only; omega
  · exact (hkeep i (by omega)).symm.trans (hz i hi hi')
  · rw [live_concat h, hus, List.append_assoc]
  · exact hold.congr fun i hi _ => hkeep i (by unfold IpfixShm.next at hi hnext; omega)
  · rw [live_concat h]; exact suffix_concat ha.1 _
  · rcases ha.2 with ⟨vs, rfl, hvs⟩ | ⟨hys, hl⟩
    · have hp := h.le_reader ha.1 hvs
      exact .inl ⟨vs, List.append_assoc .., hvs.congr fun i hi _ => hkeep i (by omega)⟩
    · exact .inr ⟨suffix_concat hys _, hnew hl⟩

/-- A packet begins a new lap; what was the only piece is the old one now. -/
theorem Inv.store_wrap {data : List UInt8} {r' : Ring} (h : r.Inv none) (hpos : 1 ≤ data.length)
    (hlen : data.length < 65536) (hroom : data.length + 2 ≤ r.shm.readPosition)
    (hbehind : r.shm.readPosition < r.shm.writePosition)
    (hr' : r' = ⟨copied (r.shm.zeroTail r.mem) 0 data,
      { r.shm with writeBeforeRead := true, writePosition := 2 + data.length },
      r.written ++ [(0, data)], r.popped⟩) :
    r'.Inv (some (r.shm.writePosition, [(0, data)])) ∧
      ∀ p zs, r.Ahead none p zs →
        r'.Ahead (some (r.shm.writePosition, [(0, data)])) p (zs ++ [(0, data)]) := by
  subst hr'
  obtain ⟨hf, hlaid⟩ := h.shape
  have hwle := h.write_le
  have hkeep : ∀ i, r.shm.readPosition ≤ i → i < r.shm.writePosition →
      r.mem i = copied (r.shm.zeroTail r.mem) 0 data i := fun i hi hi' =>
    ((copied_other (.inr (by omega))).trans (zeroTail_other hi')).symm
  have hnext : r.shm.readPosition ≤ r.shm.next := Nat.le_add_right _ _
  refine
    ⟨⟨?_, ?_, rfl, ?_, hwle, fun i hi hi' => ?_, by simp,
      ⟨rfl, stored_copied hpos hlen, ?_⟩, r.live,
    live_concat h, ?_⟩, fun p zs ha => ⟨?_, .inl ⟨zs, rfl, ?_⟩⟩⟩
  · simp only; omega
  · exact Nat.le_trans h.popped_le (List.prefix_append _ _).length_le
  · simp only; omega
  · exact (copied_other (.inr (by omega))).trans (zeroed_zeroTail i hi hi')
  · exact Nat.zero_add _
  · exact hlaid.congr fun i hi hi' => hkeep i (by unfold IpfixShm.next at hi hnext; omega) hi'
  · rw [live_concat h]; exact suffix_concat ha.1 _
  · have hp := hlaid.le_start ha.2 ha.1
    exact ha.2.congr fun i hi hi' => hkeep i (by omega) hi'

/-- A write that is accepted. -/
theorem write_accepted {data : List UInt8} (h : r.Inv lap) (hlen : data.length < 65536)
    (hacc : (r.shm.writePacket r.mem data).accepted = true) :
    ∃ lap' m shm a, r.write data = ⟨m, shm, r.written ++ [(a, data)], r.popped⟩ ∧
      shm.size = r.shm.size ∧ (r.write data).Inv lap' ∧
      (∀ t ∈ (r.shm.writePacket r.mem data).touched, t.1 + t.2 ≤ r.shm.size) ∧
      ∀ p zs, r.Ahead lap p zs → (r.write data).Ahead lap' p (zs ++ [(a, data)]) := by
  have hout := @writePacket_outcome r.shm r.mem data
  generalize hw : r.shm.writePacket r.mem data = w at hout hacc ⊢
  have hwle := h.write_le
  cases hout with
  | refused => cases hacc
  | full => cases hacc
  | trashed => cases hacc
  | stranded => cases hacc
  | stored htakes hfit hroom =>
    have heq := write_eq hw
    simp only [if_true, Nat.add_sub_cancel] at heq
    have htouch : ∀ t ∈ [(r.shm.writePosition, 2), (r.shm.writePosition + 2, data.length)],
        t.1 + t.2 ≤ r.shm.size := by
      intro t ht
      simp only [List.mem_cons, List.not_mem_nil, or_false] at ht
      rcases ht with rfl | rfl <;> simp only <;> omega
    cases lap with
    | none =>
      obtain ⟨hinv, hahead⟩ := h.store_piece htakes.1 hlen hfit heq
      exact ⟨none, _, _, _, heq, rfl, hinv, htouch, hahead⟩
    | some l =>
      obtain ⟨hinv, hahead⟩ := h.store_lap htakes.1 hlen hfit (hroom h.shape.1) heq
      exact ⟨some (l.1, l.2 ++ [_]), _, _, _, heq, rfl, hinv, htouch, hahead⟩
  | wrapped htakes hfull hbehind hroom =>
    cases lap with
    | some l =>
      have := h.shape.2.1
      omega
    | none =>
      have heq := write_eq hw
      simp only [if_true, Nat.sub_self] at heq
      obtain ⟨hinv, hahead⟩ := h.store_wrap htakes.1 hlen hroom hbehind heq
      refine ⟨some _, _, _, _, heq, rfl, hinv, fun t ht => ?_, hahead⟩
      simp only [List.mem_cons, List.not_mem_nil, or_false] at ht
      rcases ht with rfl | rfl | rfl <;> simp only <;> omega

/-- What may be rejected: a packet that never fits or does not fit in front of the
collector, and, when the rest of the block is too short, nothing that is still to be
read in the rest that is zeroed. -/
def Harmless (r : Ring) (data : List UInt8) : Prop :=
  ¬ r.shm.Takes data ∨ r.shm.writePosition + data.length + 2 < r.shm.size ∨
    (r.shm.writePosition ≤ r.shm.readPosition ∧ ∀ x ∈ r.live, x.1 < r.shm.writePosition)

instance {data : List UInt8} : Decidable (r.Harmless data) := inferInstanceAs (Decidable (_ ∨ _))

/-- The live packets stand in memory, inside the block. -/
theorem Inv.stored (h : r.Inv lap) (hx : x ∈ r.live) : Stored r.mem x ∧ x.stop ≤ r.shm.size := by
  have hw := h.write_le
  have hs := h.shape
  cases lap with
  | none =>
    obtain ⟨-, h2, h3⟩ := hs.2.mem hx
    exact ⟨h3, by omega⟩
  | some l =>
    obtain ⟨-, -, he, -, -, hnew, us, hus, hold⟩ := hs
    rw [hus] at hx
    rcases List.mem_append.mp hx with hx | hx
    · obtain ⟨-, h2, h3⟩ := hold.mem hx
      exact ⟨h3, by omega⟩
    · obtain ⟨-, h2, h3⟩ := hnew.mem hx
      exact ⟨h3, by omega⟩

/-- The rest of the block is zeroed, where no live packet stands. -/
theorem Inv.trash {r' : Ring} (h : r.Inv lap) (hbehind : r.shm.writePosition ≤ r.shm.readPosition)
    (hfree : ∀ x ∈ r.live, x.1 < r.shm.writePosition)
    (hr' : r' = ⟨r.shm.zeroTail r.mem, r.shm, r.written, r.popped⟩) :
    r'.Inv lap ∧ (∀ x ∈ r.live, ∀ i, x.1 ≤ i → i < x.stop → r'.mem i = r.mem i) ∧
      ∀ p zs, r.Ahead lap p zs → r'.Ahead lap p zs := by
  have hbelow : ∀ i, i < r.shm.writePosition → r.mem i = r.shm.zeroTail r.mem i :=
    fun i hi => (zeroTail_other hi).symm
  have hnext : r.shm.readPosition ≤ r.shm.next := Nat.le_add_right _ _
  have hlive : r'.live = r.live := by rw [hr']; rfl
  -- nothing lies from the write position on, where the collector reads next
  have hnone : ∀ {us q}, Laid r.mem r.shm.next us q → (∀ x ∈ us, x ∈ r.live) → us = [] := by
    intro us q hl hus
    cases us with
    | nil => rfl
    | cons u us =>
      have h1 := hl.1
      have h2 := hfree u (hus u List.mem_cons_self)
      omega
  have hs := h.shape
  cases lap with
  | none =>
    obtain ⟨hf, hlaid⟩ := hs
    have hempty : r.live = [] := hnone hlaid fun _ hx => hx
    have hlaid' : Laid r.mem r.shm.next [] r.shm.writePosition := hempty ▸ hlaid
    refine ⟨⟨?_, ?_, ?_⟩, fun x hx => ?_, fun p zs ha => ?_⟩
    · rw [hr']; exact h.write_le
    · rw [hr']; exact h.popped_le
    · exact ⟨by rw [hr']; exact hf, by rw [hlive, hempty, hr']; exact hlaid'⟩
    · rw [hempty] at hx; cases hx
    · obtain ⟨hz, ha⟩ := ha
      rw [hempty, List.suffix_nil] at hz
      subst hz
      exact ⟨List.nil_suffix, by rw [hr']; exact ha⟩
  | some l =>
    obtain ⟨e, ys⟩ := l
    obtain ⟨hf, hwr, he, hz, hne, hnew, us, hus, hold⟩ := hs
    have husnil := hnone hold fun x hx => by rw [hus]; exact List.mem_append_left _ hx
    subst husnil
    have hold' : r.shm.next = e := hold
    refine ⟨⟨?_, ?_, ?_⟩, fun x hx i hi hi' => ?_, fun p zs ha => ?_⟩
    · rw [hr']; exact h.write_le
    · rw [hr']; exact h.popped_le
    · rw [hr']
      exact ⟨hf, hwr, he, fun i hi hi' => zeroed_zeroTail i (by omega) hi', hne,
        hnew.congr fun i _ hi => hbelow i hi, [], hus, hold⟩
    · rw [hus] at hx
      obtain ⟨-, hstop, -⟩ := hnew.mem hx
      rw [hr']
      exact (hbelow i (by omega)).symm
    · obtain ⟨hzs, ha⟩ := ha
      refine ⟨by rw [hlive]; exact hzs, ?_⟩
      rw [hr']
      rcases ha with ⟨vs, rfl, hl⟩ | ⟨hys, hl⟩
      · rw [hus] at hzs
        have hvs := suffix_of_append hzs
        rw [List.suffix_nil] at hvs
        subst hvs
        exact .inl ⟨[], rfl, hl⟩
      · exact .inr ⟨hys, hl.congr fun i _ hi => hbelow i hi⟩

/-- A write that is rejected and harmless. -/
theorem write_rejected {data : List UInt8} (h : r.Inv lap)
    (hrej : (r.shm.writePacket r.mem data).accepted = false) (hh : r.Harmless data) :
    ∃ m, r.write data = ⟨m, r.shm, r.written, r.popped⟩ ∧ (r.write data).Inv lap ∧
      (∀ x ∈ r.live, ∀ i, x.1 ≤ i → i < x.stop → m i = r.mem i) ∧
      (∀ t ∈ (r.shm.writePacket r.mem data).touched, t.1 + t.2 ≤ r.shm.size) ∧
      ∀ p zs, r.Ahead lap p zs → (r.write data).Ahead lap p zs := by
  have hout := @writePacket_outcome r.shm r.mem data
  generalize hw : r.shm.writePacket r.mem data = w at hout hrej ⊢
  have heq := write_eq hw
  unfold Harmless at hh
  cases hout with
  | stored => cases hrej
  | wrapped => cases hrej
  | refused =>
    have hsame : r.write data = r := heq
    rw [hsame]
    exact ⟨r.mem, rfl, h, fun _ _ _ _ _ => rfl, (fun _ ht => nomatch ht), fun _ _ ha => ha⟩
  | full =>
    have hsame : r.write data = r := heq
    rw [hsame]
    exact ⟨r.mem, rfl, h, fun _ _ _ _ _ => rfl, (fun _ ht => nomatch ht), fun _ _ ha => ha⟩
  | stranded htakes hfull hbehind hroom =>
    rcases hh with hh | hh | ⟨hh, -⟩
    · exact absurd htakes hh
    · omega
    · omega
  | trashed htakes hfull hbehind =>
    have hfree : ∀ x ∈ r.live, x.1 < r.shm.writePosition := by
      rcases hh with hh | hh | ⟨-, hh⟩
      · exact absurd htakes hh
      · omega
      · exact hh
    have heq' : r.write data = ⟨r.shm.zeroTail r.mem, r.shm, r.written, r.popped⟩ := heq
    have hwle := h.write_le
    obtain ⟨hinv, hbytes, hahead⟩ := h.trash hbehind hfree heq'
    rw [heq'] at hbytes
    refine ⟨_, heq', hinv, hbytes, fun t ht => ?_, hahead⟩
    rw [List.mem_singleton] at ht
    subst ht
    simp only; omega

/-- What a rejected write that is not harmless disturbs. -/
theorem harmless_of_undisturbed {data : List UInt8} (h : r.Inv lap)
    (hrej : (r.shm.writePacket r.mem data).accepted = false)
    (hw : (r.write data).shm.writePosition = r.shm.writePosition)
    (hm : ∀ x ∈ r.live, ∀ i, x.1 ≤ i → i < x.stop → (r.write data).mem i = r.mem i) :
    r.Harmless data := by
  have hout := @writePacket_outcome r.shm r.mem data
  generalize hw' : r.shm.writePacket r.mem data = w at hout hrej
  have heq := write_eq hw'
  rw [heq] at hw hm
  cases hout with
  | stored => cases hrej
  | wrapped => cases hrej
  | refused htakes => exact .inl htakes
  | full _ hfit => exact .inr (.inl hfit)
  | stranded _ _ hbehind => simp only at hw; omega
  | trashed _ _ hbehind =>
    refine .inr (.inr ⟨hbehind, fun x hx => Nat.lt_of_not_le fun hle => ?_⟩)
    obtain ⟨hst, hstop⟩ := h.stored hx
    have hlen := hst.1
    unfold Packet.stop at hstop
    have hzero : ∀ i, x.1 ≤ i → i < x.1 + 2 → r.mem i = 0 := fun i hi hi' =>
      (hm x hx i hi (by unfold Packet.stop; omega)).symm.trans
        (zeroed_zeroTail i (by omega) (by omega))
    have hle16 : le16 r.mem x.1 = 0 := by
      unfold le16
      rw [hzero _ (Nat.le_refl _) (by omega), hzero _ (by omega) (by omega)]
      rfl
    rw [hst.le16] at hle16
    omega

end Ring

end Topas
