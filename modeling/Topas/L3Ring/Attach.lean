import Topas.Core.LTS
import Topas.L3Ring.FileCounter
import Topas.L3Ring.Ring

/-!
# Detection modules that attach late

A module's copy of the `IpfixShm` members starts at the beginning of the block
(`IpfixShm::setShmPointer`), whenever it is started or restarted. A notification
tells it only the counters of the packets; which packets it reads is decided by its
own read position.

* `attaching_imports`: imports that are in step pass exactly the packets with the
  numbers of the notification. The first import of a module is in step when the
  first packet it is notified of stands at the beginning of the block, every other
  one when it goes on where the last one ended.
* `attaching_passes_old`: a module that attaches after the first packet was thrown
  away gets this packet in place of the second one.
-/
namespace Topas

open Mem

/-- mirrors detectionmodules/detectionbase/filepolicy.h:234-245 -/
def isSourceIdInList (sourceIdList : List Nat) (id : Nat) : Bool :=
  sourceIdList.isEmpty || sourceIdList.contains id

/-- The loop of `PacketReader::import` over the shared memory storage, and the packets it
passes to the parser. The source id is read as the 16 bits at offset 12.
mirrors detectionmodules/detectionbase/filepolicy.h:160-196 -/
def IpfixShm.importLoop (sourceIdList : List Nat) (m : Mem) (last : FileCounter) :
    Nat → FileCounter → IpfixShm → List (List UInt8) → IpfixShm × List (List UInt8)
  | 0, _, s, passed => (s, passed)
  | fuel + 1, i, s, passed =>
    if i = last then (s, passed)
    else
      let s := (s.readPacket m).1
      importLoop sourceIdList m last fuel i.incr s
        (if isSourceIdInList sourceIdList (le16 m (s.readPosition + 12)) then passed ++ [s.packet m]
          else passed)

/-- An import: the numbers of the first packet and of the one after the last, what the
block held, and the packets that were passed on. -/
structure Import where
  a : Nat
  b : Nat
  mem : Mem
  passed : List (List UInt8)

/-- `next` is the number after the last packet that the module has read. -/
structure Attaching where
  ring : Ring
  module : Option IpfixShm
  next : Option Nat
  imports : List Import

inductive AttachOp where
  | write (data : List UInt8)
  | pop
  | attach
  | notified (a b : Nat)

namespace Attaching

/-- A module is notified of packets that are in the queue. -/
def Allows (s : Attaching) : AttachOp → Prop
  | .write data => data.length < 65536
  | .pop => s.ring.popped.length < s.ring.written.length
  | .attach => True
  | .notified a b =>
    s.module.isSome = true ∧ s.ring.popped.length ≤ a ∧ a ≤ b ∧ b ≤ s.ring.written.length ∧
      b - a < MAX_FILES

def apply (sourceIdList : List Nat) (s : Attaching) : AttachOp → Attaching
  | .write data => { s with ring := s.ring.write data }
  | .pop => { s with ring := s.ring.pop }
  | .attach => { s with module := some (IpfixShm.attach s.ring.shm.size), next := none }
  | .notified a b =>
    match s.module with
    | none => s
    | some module =>
      let (module, passed) :=
        module.importLoop sourceIdList s.ring.mem (.ofNat b) MAX_FILES (.ofNat a) []
      { s with
        module := some module
        next := if a = b then s.next else some b
        imports := s.imports ++ [⟨a, b, s.ring.mem, passed⟩] }

/-- No rejected write does harm, and imports are in step. -/
def InStep (s : Attaching) : AttachOp → Prop
  | .write data => (s.ring.shm.writePacket s.ring.mem data).accepted = true ∨ s.ring.Harmless data
  | .notified a b =>
    a = b ∨
      match s.next with
      | none => (s.ring.written[a]?).map Prod.fst = some 0
      | some k => a = k
  | _ => True

def Initial (s : Attaching) : Prop :=
  ∃ mem allocated size,
    s = ⟨⟨mem, { IpfixShm.attach size with allocated := allocated }, [], []⟩, none, none, []⟩

instance (s : Attaching) : DecidablePred s.Allows
  | .write data => inferInstanceAs (Decidable (data.length < 65536))
  | .pop => inferInstanceAs (Decidable (s.ring.popped.length < s.ring.written.length))
  | .attach => .isTrue trivial
  | .notified a b => inferInstanceAs (Decidable
      (s.module.isSome = true ∧ s.ring.popped.length ≤ a ∧ a ≤ b ∧ b ≤ s.ring.written.length ∧
        b - a < MAX_FILES))

instance (s : Attaching) : DecidablePred s.InStep
  | .write data => inferInstanceAs (Decidable (_ ∨ s.ring.Harmless data))
  | .pop => .isTrue trivial
  | .attach => .isTrue trivial
  | .notified a b =>
    match h : s.next with
    | none => decidable_of_iff (a = b ∨ (s.ring.written[a]?).map Prod.fst = some 0) (by
        simp only [InStep, h])
    | some k => decidable_of_iff (a = b ∨ a = k) (by simp only [InStep, h])

end Attaching

def attaching (sourceIdList : List Nat) : LTS Attaching AttachOp :=
  .ofFun Attaching.Initial Attaching.Allows (Attaching.apply sourceIdList)

/-- The packets with the numbers from `a` to `b`, without `b`. -/
def Ring.numbered (r : Ring) (a b : Nat) : List Packet := (r.written.drop a).take (b - a)

/-- The packets of these a module passes to its parser. -/
def subscribed (sourceIdList : List Nat) (m : Mem) (xs : List Packet) : List (List UInt8) :=
  (xs.filter fun x => isSourceIdInList sourceIdList (le16 m (x.1 + 14))).map Prod.snd

/-! ## Reading several packets -/

section Loop

variable {sourceIdList : List Nat} {r : Ring} {lap : Lap} {x : Packet} {xs : List Packet}

theorem subscribed_cons (m : Mem) : subscribed sourceIdList m (x :: xs) =
    (if isSourceIdInList sourceIdList (le16 m (x.1 + 14)) then [x.2] else []) ++
      subscribed sourceIdList m xs := by
  unfold subscribed
  rw [List.filter_cons]
  split <;> rfl

/-- A reader that has enough packets ahead of it gets them, one for each number. -/
theorem importLoop_ahead (h : r.Inv lap) {n fuel a : Nat} {s : IpfixShm}
    {passed : List (List UInt8)}
    (hn : n < MAX_FILES) (hfuel : n ≤ fuel) (hlen : n ≤ xs.length) (ha : r.Ahead lap s.next xs)
    (hs : s.size = r.shm.size) :
    ∃ s', s.importLoop sourceIdList r.mem (.ofNat (a + n)) fuel (.ofNat a) passed =
        (s', passed ++ subscribed sourceIdList r.mem (xs.take n)) ∧
      s'.size = r.shm.size ∧ r.Ahead lap s'.next (xs.drop n) := by
  induction n generalizing fuel a s passed xs with
  | zero =>
    refine ⟨s, ?_, hs, ha⟩
    cases fuel with
    | zero => simp [IpfixShm.importLoop, subscribed]
    | succ fuel => simp [IpfixShm.importLoop, subscribed]
  | succ n ih =>
    cases fuel with
    | zero => omega
    | succ fuel =>
    cases xs with
    | nil => simp at hlen
    | cons x xs =>
    obtain ⟨⟨flag, touched, hr, -, -⟩, hst, -, hahead⟩ := Ring.ahead_read h ha rfl hs
    have hne := @FileCounter.ofNat_add_ne a (n + 1) (by omega) hn
    have hpacket : ({ s.onto x with writeBeforeRead := flag } : IpfixShm).packet r.mem = x.2 :=
      hst.bytes
    have hpos :
      ({ s.onto x with writeBeforeRead := flag } : IpfixShm).readPosition + 12 = x.1 + 14 := rfl
    rw [List.length_cons] at hlen
    unfold IpfixShm.importLoop
    simp only [if_neg hne, hr, hpacket, hpos, FileCounter.incr_ofNat]
    rw [← Nat.add_assoc, Nat.add_right_comm a n 1]
    obtain ⟨s', heq, hs', ha'⟩ := @ih xs fuel (a + 1) { s.onto x with writeBeforeRead := flag }
      (if isSourceIdInList sourceIdList (le16 r.mem (x.1 + 14)) then passed ++ [x.2] else passed)
      (by omega) (by omega) (by omega) ((@IpfixShm.next_onto s x).symm ▸ hahead) hs
    refine ⟨s', ?_, hs', ha'⟩
    rw [heq, List.take_succ_cons, subscribed_cons]
    split <;> simp

end Loop

/-! ## The invariant -/

/-- Where the module stands. It is passed by when the collector has thrown packets away
that it has not read. -/
def Ring.InPlace (r : Ring) (lap : Lap) (module : IpfixShm) : Option Nat → Prop
  | none => module.next = 0
  | some k => k ≤ r.written.length ∧
      (r.popped.length ≤ k → r.Ahead lap module.next (r.written.drop k))

structure Attaching.Inv (sourceIdList : List Nat) (s : Attaching) (lap : Lap) : Prop where
  ring : s.ring.Inv lap
  size : ∀ module, s.module = some module → module.size = s.ring.shm.size
  inPlace : ∀ module, s.module = some module → s.ring.InPlace lap module s.next
  imports : ∀ i ∈ s.imports, i.b ≤ s.ring.written.length ∧
    i.passed = subscribed sourceIdList i.mem (s.ring.numbered i.a i.b)

section Steps

variable {sourceIdList : List Nat} {s s' : Attaching} {lap : Lap} {data : List UInt8} {x : Packet}
  {xs : List Packet}

theorem laid_of_suffix {m : Mem} {p q : Nat} {ys : List Packet} (h : Laid m p ys q)
    (hx : x :: xs <:+ ys) : Laid m x.1 (x :: xs) q := by
  obtain ⟨us, rfl⟩ := hx
  obtain ⟨p', -, hl⟩ := laid_append.mp h
  exact hl.1 ▸ hl

/-- A reader that stands in front of a live packet has it and the later ones ahead. -/
theorem Ring.Inv.ahead_of_suffix {r : Ring} (h : r.Inv lap) (hx : x :: xs <:+ r.live) :
    r.Ahead lap x.1 (x :: xs) := by
  refine ⟨hx, ?_⟩
  have hs := h.shape
  cases lap with
  | none => exact laid_of_suffix hs.2 hx
  | some l =>
    obtain ⟨e, ys⟩ := l
    obtain ⟨-, -, -, -, -, hnew, us, hus, hold⟩ := hs
    rw [hus] at hx
    rcases List.suffix_or_suffix_of_suffix hx (List.suffix_append us ys) with hys | ⟨vs, hvs⟩
    · exact .inr ⟨hys, laid_of_suffix hnew hys⟩
    · cases vs with
      | nil =>
        have hys : x :: xs <:+ ys := ⟨[], hvs.symm⟩
        exact .inr ⟨hys, laid_of_suffix hnew hys⟩
      | cons v vs =>
        rw [List.cons_append, List.cons.injEq] at hvs
        obtain ⟨rfl, rfl⟩ := hvs
        exact .inl ⟨v :: vs, rfl, laid_of_suffix hold (Ring.suffix_of_append hx)⟩

theorem numbered_append {r r' : Ring} {a b : Nat} (ys : List Packet) (hb : b ≤ r.written.length)
    (hw : r'.written = r.written ++ ys) : r'.numbered a b = r.numbered a b := by
  unfold Ring.numbered
  rw [hw, List.drop_append]
  by_cases h : a ≤ b
  · rw [List.take_append_of_le_length (by rw [List.length_drop]; omega)]
  · have : b - a = 0 := by omega
    rw [this]; rfl

/-- A module that is in step has the packets that it is notified of ahead. -/
theorem Attaching.Inv.ahead (h : s.Inv sourceIdList lap) {a b : Nat} {module : IpfixShm}
    (hm : s.module = some module) (ha : s.ring.popped.length ≤ a) (hlt : a < b)
    (hb : b ≤ s.ring.written.length) (hstep : s.InStep (.notified a b)) :
    s.ring.Ahead lap module.next (s.ring.written.drop a) := by
  have hin := h.inPlace module hm
  rcases hstep with heq | hstep
  · omega
  cases hnext : s.next with
  | none =>
    rw [hnext] at hin hstep
    obtain ⟨x, xs, hx, hget⟩ : ∃ x xs, s.ring.written.drop a = x :: xs ∧
        s.ring.written[a]? = some x :=
      ⟨_, _, List.drop_eq_getElem_cons (by omega), List.getElem?_eq_getElem (by omega)⟩
    have h0 : x.1 = 0 := by simpa only [hget, Option.map_some, Option.some.injEq] using hstep
    have hsuf : s.ring.written.drop a <:+ s.ring.live := by
      unfold Ring.live
      rw [← Nat.add_sub_cancel' ha, ← List.drop_drop]
      exact List.drop_suffix _ _
    have hmod : module.next = x.1 := Eq.trans hin h0.symm
    rw [hx] at hsuf
    rw [hx, hmod]
    exact h.ring.ahead_of_suffix hsuf
  | some k =>
    rw [hnext] at hin hstep
    obtain rfl : a = k := hstep
    exact hin.2 ha

/-- What a write that does no harm does to the readers. -/
theorem Ring.write_harmless {r : Ring} (h : r.Inv lap) (hlen : data.length < 65536)
    (hh : (r.shm.writePacket r.mem data).accepted = true ∨ r.Harmless data) :
    ∃ lap' ys, (r.write data).Inv lap' ∧ (r.write data).shm.size = r.shm.size ∧
      (r.write data).written = r.written ++ ys ∧ (r.write data).popped = r.popped ∧
      ∀ p zs, r.Ahead lap p zs → (r.write data).Ahead lap' p (zs ++ ys) := by
  cases hacc : (r.shm.writePacket r.mem data).accepted with
  | true =>
    obtain ⟨lap', m, shm, a, heq, hsize, hinv, -, hahead⟩ := Ring.write_accepted h hlen hacc
    exact ⟨lap', [(a, data)], hinv, by rw [heq]; exact hsize, by rw [heq], by rw [heq], hahead⟩
  | false =>
    have hharm : r.Harmless data := hh.resolve_left fun h => by rw [hacc] at h; cases h
    obtain ⟨m, heq, hinv, -, -, hahead⟩ := Ring.write_rejected h hacc hharm
    refine
      ⟨lap, [], hinv, by rw [heq], by rw [heq, List.append_nil], by rw [heq], fun p zs ha => ?_⟩
    rw [List.append_nil]
    exact hahead p zs ha

theorem Attaching.Inv.write (h : s.Inv sourceIdList lap) (hlen : data.length < 65536)
    (hh : s.InStep (.write data)) :
      ∃ lap', (s.apply sourceIdList (.write data)).Inv sourceIdList lap' := by
  obtain ⟨lap', ys, hinv, hsize, hwritten, hpopped, hahead⟩ := Ring.write_harmless h.ring hlen hh
  refine ⟨lap', hinv, fun module hm => ?_, fun module hm => ?_, fun i hi => ?_⟩
  · exact (h.size module hm).trans hsize.symm
  · have hin := h.inPlace module hm
    show (s.ring.write data).InPlace lap' module s.next
    cases hnext : s.next with
    | none => rw [hnext] at hin; exact hin
    | some k =>
      rw [hnext] at hin
      obtain ⟨hk, hin⟩ := hin
      refine ⟨?_, fun hle => ?_⟩
      · rw [hwritten, List.length_append]; omega
      · rw [hpopped] at hle
        rw [hwritten, List.drop_append_of_le_length hk]
        exact hahead _ _ (hin hle)
  · obtain ⟨hb, hpassed⟩ := h.imports i hi
    refine ⟨?_, ?_⟩
    · show i.b ≤ (s.ring.write data).written.length
      rw [hwritten, List.length_append]; omega
    · rw [hpassed]
      exact congrArg _ (numbered_append ys hb hwritten).symm

theorem Attaching.Inv.pop (h : s.Inv sourceIdList lap)
    (hlt : s.ring.popped.length < s.ring.written.length) :
    ∃ lap', (s.apply sourceIdList .pop).Inv sourceIdList lap' := by
  obtain ⟨x, xs, hx, hxs⟩ : ∃ x xs, s.ring.live = x :: xs ∧
      s.ring.written.drop (s.ring.popped.length + 1) = xs :=
    ⟨_, _, List.drop_eq_getElem_cons hlt, rfl⟩
  obtain ⟨lap', touched, hinv, -, heq, -, -, -, hahead⟩ := Ring.pop_spec h.ring hx
  have hwritten : s.ring.pop.written = s.ring.written := by rw [heq]
  have hpopped : s.ring.pop.popped.length = s.ring.popped.length + 1 := by rw [heq]; simp
  refine ⟨lap', hinv, fun module hm => ?_, fun module hm => ?_, fun i hi => ?_⟩
  · show module.size = s.ring.pop.shm.size
    rw [heq]
    exact h.size module hm
  · have hin := h.inPlace module hm
    show s.ring.pop.InPlace lap' module s.next
    cases hnext : s.next with
    | none => rw [hnext] at hin; exact hin
    | some k =>
      rw [hnext] at hin
      obtain ⟨hk, hin⟩ := hin
      refine ⟨by rw [hwritten]; exact hk, fun hle => ?_⟩
      rw [hpopped] at hle
      rw [hwritten]
      refine hahead _ _ (hin (by omega)) ?_
      rw [← hxs, ← Nat.add_sub_cancel' hle, ← List.drop_drop]
      exact List.drop_suffix _ _
  · obtain ⟨hb, hpassed⟩ := h.imports i hi
    refine ⟨?_, ?_⟩
    · show i.b ≤ s.ring.pop.written.length
      rw [hwritten]; exact hb
    · rw [hpassed]
      unfold Ring.numbered
      show _ = subscribed sourceIdList i.mem ((s.ring.pop.written.drop i.a).take (i.b - i.a))
      rw [hwritten]

/-- What an import that is in step passes on, and where it leaves the module. -/
theorem Attaching.Inv.import_eq (h : s.Inv sourceIdList lap) {a b : Nat} {module : IpfixShm}
    (hm : s.module = some module) (hs : s.Allows (.notified a b))
    (hstep : s.InStep (.notified a b)) :
    ∃ module', module.importLoop sourceIdList s.ring.mem (.ofNat b) MAX_FILES (.ofNat a) [] =
        (module', subscribed sourceIdList s.ring.mem (s.ring.numbered a b)) ∧
      module'.size = s.ring.shm.size ∧ s.ring.InPlace lap module'
      (if a = b then s.next else some b) := by
  obtain ⟨-, hpa, hab, hb, hlt⟩ := hs
  have hsize := h.size module hm
  by_cases hne : a = b
  · subst hne
    refine ⟨module, ?_, hsize, by rw [if_pos rfl]; exact h.inPlace module hm⟩
    show module.importLoop sourceIdList s.ring.mem (.ofNat a) (99999 + 1) (.ofNat a) [] = _
    unfold IpfixShm.importLoop Ring.numbered
    rw [if_pos rfl, Nat.sub_self]
    rfl
  · have hahead := h.ahead hm hpa (by omega) hb hstep
    obtain ⟨module', heq, hsize', ha⟩ :=
      @importLoop_ahead sourceIdList _ _ _ h.ring (b - a) MAX_FILES a
      module [] hlt (by omega) (by rw [List.length_drop]; omega) hahead hsize
    rw [Nat.add_sub_cancel' hab, List.nil_append] at heq
    rw [List.drop_drop, Nat.add_sub_cancel' hab] at ha
    refine ⟨module', heq, hsize', ?_⟩
    rw [if_neg hne]
    exact ⟨hb, fun _ => ha⟩

theorem Attaching.Inv.notified (h : s.Inv sourceIdList lap) {a b : Nat}
    (hs : s.Allows (.notified a b)) (hstep : s.InStep (.notified a b)) :
    (s.apply sourceIdList (.notified a b)).Inv sourceIdList lap := by
  obtain ⟨module, hm⟩ := Option.isSome_iff_exists.mp hs.1
  obtain ⟨module', hloop, hsize, hplace⟩ := h.import_eq hm hs hstep
  have heq : s.apply sourceIdList (.notified a b) =
      ⟨s.ring, some module', if a = b then s.next else some b, s.imports ++
        [⟨a, b, s.ring.mem, subscribed sourceIdList s.ring.mem (s.ring.numbered a b)⟩]⟩ := by
    simp only [Attaching.apply, hm, hloop]
  rw [heq]
  refine ⟨h.ring, fun _ hm' => ?_, fun _ hm' => ?_, fun i hi => ?_⟩
  · cases hm'; exact hsize
  · cases hm'; exact hplace
  · rcases List.mem_append.mp hi with hi | hi
    · exact h.imports i hi
    · rw [List.mem_singleton] at hi
      subst hi
      exact ⟨hs.2.2.2.1, rfl⟩

theorem Attaching.inv_reachable
    (h : ((attaching sourceIdList).restrict Attaching.InStep).Reachable s) :
    ∃ lap, s.Inv sourceIdList lap := by
  refine LTS.Inductive.reachable (I := fun s => ∃ lap, s.Inv sourceIdList lap) ⟨?_, ?_⟩ s h
  · intro s ⟨mem, allocated, size, hs⟩
    subst hs
    exact ⟨none, ⟨Nat.zero_le _, Nat.le_refl _, rfl, rfl⟩, (fun _ h => nomatch h),
      (fun _ h => nomatch h),
      fun _ h => nomatch h⟩
  · intro s op s' ⟨lap, hinv⟩ ⟨⟨hallow, heq⟩, hstep⟩
    subst heq
    cases op with
    | write data => exact hinv.write hallow hstep
    | pop => exact hinv.pop hallow
    | attach =>
      refine ⟨lap, hinv.ring, fun _ hm => ?_, fun _ hm => ?_, hinv.imports⟩
      · cases hm; rfl
      · cases hm; rfl
    | notified a b => exact ⟨lap, hinv.notified hallow hstep⟩

end Steps

/-- Imports that are in step pass exactly the packets with the numbers of the
notification. -/
theorem attaching_imports {sourceIdList : List Nat} {s : Attaching}
    (h : ((attaching sourceIdList).restrict Attaching.InStep).Reachable s) :
    ∀ i ∈ s.imports, i.b ≤ s.ring.written.length ∧
      i.passed = subscribed sourceIdList i.mem (s.ring.numbered i.a i.b) := by
  obtain ⟨lap, hinv⟩ := Attaching.inv_reachable h
  exact hinv.imports

/-- The third packet begins a new lap, so that a module that attaches behind it is in step,
and stays so. -/
theorem attaching_imports_newLap :
    let s := [AttachOp.write [1, 1, 1, 1], .write [2, 2, 2, 2], .pop, .pop, .write [3, 3, 3, 3],
      .attach, .notified 2 3, .pop, .write [4, 4], .notified 3 4].foldl (Attaching.apply [])
        ⟨⟨fun _ => 7, IpfixShm.attach 16, [], []⟩, none, none, []⟩
    s.imports.map Import.passed = [[[3, 3, 3, 3]], [[4, 4]]] ∧
      ∀ i ∈ s.imports, i.b ≤ s.ring.written.length ∧
        i.passed = subscribed [] i.mem (s.ring.numbered i.a i.b) := by
  intro s
  have hreach : ((attaching []).restrict Attaching.InStep).Reachable s :=
    LTS.Reachable.foldl_restrict (.init ⟨_, true, 16, rfl⟩) (by decide)
  exact ⟨by decide, attaching_imports hreach⟩

/-- The module is notified of the second packet and reads the first, which the collector
has thrown away before. -/
theorem attaching_passes_old :
    ∃ s, (attaching []).Reachable s ∧ ∃ i ∈ s.imports, i.a = 1 ∧ i.b = 2 ∧
      (s.ring.numbered 1 2).map Prod.snd = [[2]] ∧ i.passed = [[1]] := by
  let s := [AttachOp.write [1], .write [2], .pop, .attach, .notified 1 2].foldl (Attaching.apply [])
    ⟨⟨fun _ => 7, IpfixShm.attach 16, [], []⟩, none, none, []⟩
  have hreach : (attaching []).Reachable s :=
    LTS.Reachable.foldl (.init ⟨_, true, 16, rfl⟩) (by decide)
  exact ⟨s, hreach, _, List.mem_singleton_self _, rfl, rfl, by decide, by decide⟩

end Topas
