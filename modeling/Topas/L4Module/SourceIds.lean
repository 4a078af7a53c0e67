import Topas.L2Parser.Termination
import Topas.L3Ring.Attach

/-!
# The filter for source ids

`PacketReader` passes on the packets of the subscribed sources. It takes the source id from the
packet itself, as the `uint16_t` at offset 12, and the subscribed ids are `uint16_t`s.

* `processMessage_from`: every callback of the parser comes with the source id in the header, the
  `uint32_t` at offset 12 of an IPFIX packet and at offset 16 of a NetFlow v9 packet, in network
  order.
* `passes_iff`: when the filter passes on the packets that it should.
-/
namespace Topas

open Mem Proc Layout

/-- What of the header the filter and the parser look at. -/
inductive Header where
  | ipfix (sourceID : Nat)
  | netflowV9 (sequence sourceID : Nat)
  deriving DecidableEq, Repr

namespace Header

/-- Offsets of `IpfixHeader` and `NetflowV9Header`.
mirrors concentrator/rcvIpfix.c:624-691 -/
def ofMem (m : Mem) : Option Header :=
  if be16 m 0 = 0x000a then some (.ipfix (be32 m 12))
  else if be16 m 0 = 0x0009 then some (.netflowV9 (be32 m 12) (be32 m 16))
  else none

def sourceID : Header → Nat
  | ipfix sourceID => sourceID
  | netflowV9 _ sourceID => sourceID

/-- The 32-bit number at offset 12. -/
def word12 : Header → Nat
  | ipfix sourceID => sourceID
  | netflowV9 sequence _ => sequence

end Header

/-! ## The parser -/

/-- A callback has the source id `sid`. -/
def Event.From (sid : Nat) : Event → Prop
  | .call f => f.sourceID = sid
  | _ => True

section From

variable {E : Env} {sid set length : Nat} {tb : TemplateBuffer}

theorem from_calls {P : IpfixParser} {c : Call} : ∀ e ∈ P.calls sid c, e.From sid := by
  intro e he
  obtain ⟨f, hf, rfl⟩ := List.mem_map.mp he
  obtain ⟨ci, -, -, hf⟩ := IpfixParser.mem_fired.mp hf
  rw [hf]
  rfl

theorem from_lost {P : IpfixParser} {tid : Nat} : ∀ e ∈ P.lost tb (sid, tid), e.From sid := by
  intro e he
  unfold IpfixParser.lost at he
  split at he
  · cases he
  · rename_i bt hf
    have hsid : bt.sourceID = sid := congrArg Prod.fst (TemplateBuffer.find_key hf)
    unfold IpfixParser.destroyed at he
    split at he
    · exact from_calls e (hsid ▸ he)
    · cases he

theorem from_templateSeen {k : Kind} {th : Nat} : ∀ e ∈ templateSeen E k sid tb th, e.From sid := by
  intro e he
  rcases List.mem_append.mp he with he | he
  · exact from_lost e he
  · split at he
    · cases he
    · exact from_calls e he

theorem from_templatesSeen {k : Kind} {ths : List Nat} :
    ∀ e ∈ templatesSeen E k sid set ths tb, e.From sid := by
  induction ths generalizing tb with
  | nil =>
    intro e he
    cases he
  | cons th ths ih =>
    intro e he
    rcases List.mem_append.mp he with he | he
    · exact from_templateSeen e he
    · exact ih e he

/-- What is seen of a program are its callbacks. -/
theorem always_from_of_runs {α : Type} {p : Proc Event α} {Q : Prop} {es : List Event} {a : α}
    (h : Runs 0 p Q es a) (hes : ∀ e ∈ es, e.From sid) : p.Always (Event.From sid) := by
  obtain ⟨l, hl, -, hseen⟩ := h
  refine hl.always_iff.mpr fun e he => ?_
  cases e with
  | call f => exact hes _ (hseen ▸ List.mem_flatMap.mpr ⟨_, he, List.mem_singleton_self _⟩)
  | read => trivial
  | store => trivial

theorem always_from_bind {α β : Type} {p : Proc Event α} {Q : Prop} {a : α} {g : α → Proc Event β}
    (h : Runs 0 p Q [] a) (hg : (g a).Always (Event.From sid)) :
    (p >>= g).Always (Event.From sid) := by
  refine always_bind.mpr ⟨always_from_of_runs h (by simp), fun l b hb => ?_⟩
  rw [h.value hb]
  exact hg

theorem always_from_forFixed {n record : Nat} {call : Nat → Call} {more : Nat → Bool} :
    (Rcv.forFixed E sid n call more record).Always (Event.From sid) := by
  refine always_loop (fun _ => True) (fun record _ _ => ⟨?_, fun _ _ _ => trivial⟩) trivial
  exact always_from_of_runs (Does.last runs_invoke rfl) from_calls

theorem always_from_processDataSet (h : tb.Sound) :
    (Rcv.processDataSet E sid set tb).Always (Event.From sid) := by
  cases hf : tb.find (sid, be16 E.mem set) with
  | none => exact always_from_of_runs (runs_unknown h hf) (by simp)
  | some bt =>
    have hb := h.entry bt (TemplateBuffer.find_mem hf)
    by_cases hst : bt.layout.Stalls (be16 E.mem (set + 2))
    · -- the loop does not end, and calls back for one record again and again
      have hrl : bt.recordLength < 65535 := by
        have : bt.layout.recordLength = bt.recordLength := rfl
        have := hst.1
        omega
      unfold Rcv.processDataSet
      refine always_from_bind runs_ntohs (always_from_bind
        (runs_getBufferedTemplate h) ?_)
      rw [hf]
      refine always_from_bind runs_ntohs ?_
      rw [processRecords_fixed hb hrl]
      exact always_bind.mpr ⟨always_from_forFixed, fun _ _ _ => always_pure⟩
    · obtain ⟨n, hmore, hn⟩ := exists_records E.mem hb hst
      refine always_from_of_runs (runs_known h hf hmore hn) ?_
      intro e he
      obtain ⟨j, -, he⟩ := List.mem_flatMap.mp he
      exact from_calls e he

theorem always_from_setBody (h : tb.Sound) (k : SetKind) :
    (setBody E sid set tb k).Always (Event.From sid) := by
  cases k with
  | templates k => exact always_from_of_runs runs_forTemplates from_templatesSeen
  | data => exact always_from_processDataSet h
  | other => exact always_pure

theorem always_from_roundOf (body : Nat → Nat → TemplateBuffer → Proc Event TemplateBuffer)
    (h : (body set (be16 E.mem set) tb).Always (Event.From sid)) :
    (roundOf E body set tb).Always (Event.From sid) := by
  refine always_from_bind runs_ntohs (always_bind.mpr ⟨h, fun _ _ _ => ?_⟩)
  exact always_from_bind runs_ntohs always_pure

theorem always_from_ipfixSetStep (h : tb.Sound) :
    (Rcv.ipfixSetStep E set tb).Always (Event.From (be32 E.mem 12)) := by
  refine always_from_roundOf (fun set id tb => Rcv.ipfixSet E set id tb) ?_
  rw [ipfixSet_eq]
  exact always_from_bind runs_ntohl (always_from_setBody h _)

theorem always_from_netflowV9SetStep (h : tb.Sound) :
    (Rcv.netflowV9SetStep E set tb).Always (Event.From (be32 E.mem 16)) := by
  refine always_from_roundOf (fun set id tb => Rcv.netflowV9Set E set id tb) ?_
  rw [netflowV9Set_eq]
  split
  · exact always_pure
  · exact always_from_bind runs_ntohl (always_from_setBody h _)

theorem always_from_walk (hs : 16 ≤ set) (h : tb.Sound) :
    (walk (Rcv.ipfixSetStep E) length (set, tb)).Always (Event.From (be32 E.mem 12)) := by
  refine always_loop (fun s => 16 ≤ s.1 ∧ s.2.Sound) (fun s ⟨h1, h2⟩ _ => ⟨?_, ?_⟩) ⟨hs, h⟩
  · exact always_from_ipfixSetStep h2
  · intro l s' hr
    obtain ⟨h3, h4, -⟩ := (@ipfixStep E 0).returns s.1 s.2 l s' h1 h2 hr
    exact ⟨by omega, h4⟩

theorem always_from_forSets {n : Nat} (hs : 20 ≤ set) (h : tb.Sound) :
    (Rcv.forSets E n set tb).Always (Event.From (be32 E.mem 16)) := by
  induction n generalizing set tb with
  | zero => exact always_pure
  | succ n ih =>
    refine always_bind.mpr ⟨always_from_netflowV9SetStep h, fun l s' hr => ?_⟩
    obtain ⟨h3, h4, -⟩ := (@netflowV9Step E 0).returns set tb l s' hs h hr
    exact ih (by omega) h4

/-- Whatever the message, every callback has the source id of its header. -/
theorem processMessage_from {header : Header} (h : processes.Reachable tb)
    (hheader : Header.ofMem E.mem = some header) :
    (Rcv.processMessage E length tb).Always (Event.From header.sourceID) := by
  have hs := sound_reachable h
  rw [processMessage_cases]
  refine always_from_bind runs_ntohs ?_
  unfold Header.ofMem at hheader
  split at hheader
  · rename_i hversion
    cases hheader
    rw [if_pos hversion]
    refine always_from_bind runs_ntohs ?_
    split
    · exact always_pure
    · exact always_bind.mpr ⟨always_from_walk (Nat.le_refl 16) hs, fun _ _ _ => always_pure⟩
  · rename_i hversion
    split at hheader
    · rename_i hversion'
      cases hheader
      rw [if_neg hversion, if_pos hversion']
      refine always_from_bind runs_ntohs ?_
      exact always_bind.mpr ⟨always_from_forSets (Nat.le_refl 20) hs, fun _ _ _ => always_pure⟩
    · cases hheader

end From

/-! ## The filter -/

/-- `uint16_t id`.
mirrors detectionmodules/detectionbase/filepolicy.h:205-207, detectionbase.h:202-205 -/
def subscribeSourceId (sourceIdList : List Nat) (id : Nat) : List Nat :=
    sourceIdList ++ [id % 65536]

/-- The list after the ids have been subscribed. -/
def sourceIdListOf (ids : List Nat) : List Nat := ids.foldl subscribeSourceId []

/-- Whether a packet goes to the parser.
mirrors detectionmodules/detectionbase/filepolicy.h:179, 191 -/
def passes (sourceIdList : List Nat) (packet : Mem) : Bool :=
    isSourceIdInList sourceIdList (le16 packet 12)

/-- The packet in the shared memory that is read next. -/
theorem passes_readPacket (sourceIdList : List Nat) (m : Mem) (s : IpfixShm) :
    isSourceIdInList sourceIdList (le16 m (s.readPosition + 12)) =
      passes sourceIdList fun i => m (s.readPosition + i) := rfl

theorem sourceIdListOf_eq (ids : List Nat) : sourceIdListOf ids = ids.map (· % 65536) := by
  have hfold : ∀ l : List Nat, ids.foldl subscribeSourceId l = l ++ ids.map (· % 65536) := by
    induction ids with
    | nil => simp
    | cons id ids ih =>
      intro l
      rw [List.foldl_cons, ih, subscribeSourceId]
      simp
  exact hfold []

/-- The upper half of a number in network order, as a little-endian host reads it. -/
def upperHalf (n : Nat) : Nat := n / 65536 / 256 + n / 65536 % 256 * 256

theorem le16_word12 {m : Mem} {header : Header} (h : Header.ofMem m = some header) :
    le16 m 12 = upperHalf header.word12 := by
  have hhalf : upperHalf (be32 m 12) = le16 m 12 := by
    have h0 := (m 12).toNat_lt
    have h1 := (m (12 + 1)).toNat_lt
    have h2 := be16_lt m (12 + 2)
    have hdiv : be32 m 12 / 65536 = be16 m 12 := by
      unfold be32
      omega
    unfold upperHalf
    rw [hdiv]
    unfold be16 le16
    omega
  unfold Header.ofMem at h
  split at h
  · cases h
    exact hhalf.symm
  · split at h
    · cases h
      exact hhalf.symm
    · cases h

/-- What the filter answers. -/
theorem passes_iff_upperHalf {m : Mem} {header : Header} (h : Header.ofMem m = some header)
    (ids : List Nat) :
    passes (sourceIdListOf ids) m = true ↔
      ids = [] ∨ ∃ id ∈ ids, id % 65536 = upperHalf header.word12 := by
  rw [passes, sourceIdListOf_eq, le16_word12 h, isSourceIdInList]
  simp [List.isEmpty_iff]

/-- The packets of the accepted sources go to the parser and no others, exactly if no source is
excluded, or if the id is accepted just when the upper half of the word at offset 12 is the lower
half of an accepted id. -/
theorem passes_iff {m : Mem} {header : Header} (h : Header.ofMem m = some header) (ids : List Nat) :
    (passes (sourceIdListOf ids) m = true ↔ ids = [] ∨ header.sourceID ∈ ids) ↔
      ids = [] ∨
        (header.sourceID ∈ ids ∧ ∃ id ∈ ids, id % 65536 = upperHalf header.word12) ∨
        (header.sourceID ∉ ids ∧ ∀ id ∈ ids, id % 65536 ≠ upperHalf header.word12) := by
  rw [passes_iff_upperHalf h]
  by_cases hids : ids = []
  · simp [hids]
  · by_cases hmem : header.sourceID ∈ ids
    · simp [hids, hmem]
    · simp [hids, hmem]

/-- An IPFIX header with this source id, and a NetFlow v9 header. -/
def ipfixPacket (sourceID : Nat) : List UInt8 :=
  enc16 10 ++ enc16 16 ++ enc32 0 ++ enc32 0 ++ enc32 sourceID

def netflowV9Packet (sequence sourceID : Nat) : List UInt8 :=
  enc16 9 ++ enc16 0 ++ enc32 0 ++ enc32 0 ++ enc32 sequence ++ enc32 sourceID

/-- 65792 is 0x00010100: its lower half is the upper half in the other byte order. -/
theorem passes_swapped :
    passes (sourceIdListOf [65792]) (ofList (ipfixPacket 65792) fun _ => 0) = true ↔
      [65792] = [] ∨ 65792 ∈ [65792] :=
  (@passes_iff (ofList (ipfixPacket 65792) fun _ => 0) (.ipfix 65792) (by decide) [65792]).mpr
    (.inr (.inl ⟨by decide, 65792, by decide⟩))

/-- **Counterexample**: source 1 is accepted, and its packets are dropped, in both protocol
versions, while source 256 is not accepted and its NetFlow packet with sequence number 65536 is let
through. -/
theorem passes_ignores_sourceID :
    passes (sourceIdListOf [1]) (ofList (ipfixPacket 1) fun _ => 0) = false ∧
      passes (sourceIdListOf [1]) (ofList (netflowV9Packet 0 1) fun _ => 0) = false ∧
      passes (sourceIdListOf [256]) (ofList (netflowV9Packet 65536 7) fun _ => 0) = true ∧
      ¬ ∀ (ids : List Nat) (m : Mem) (header : Header), (∀ id ∈ ids, id < 4294967296) →
        Header.ofMem m = some header →
        (passes (sourceIdListOf ids) m = true ↔ ids = [] ∨ header.sourceID ∈ ids) := by
  refine ⟨by decide, by decide, by decide, ?_⟩
  intro hall
  have h := hall [1] (ofList (ipfixPacket 1) fun _ => 0) (.ipfix 1) (by decide) (by decide)
  exact absurd (h.mpr (.inr (by decide))) (by decide)

end Topas
