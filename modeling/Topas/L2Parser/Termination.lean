import Topas.L2Parser.Packets

/-!
# Which messages are processed to their end

`processMessage` (`concentrator/rcvIpfix.c:697-716`) has two loops whose step
comes from the wire and is not checked:

* the walk over the sets of an IPFIX packet (`:666-688`) advances by the set
  length, which may be 0. The walk over a NetFlow v9 packet (`:631-642`) counts
  the sets and ends in any case;
* the record loops for templates of fixed length (`:444-453`, `:500-509`,
  `:566-575`) advance by `bt->recordLength`, which is 0 for a template whose
  field lengths are all 0 or add up to a multiple of 65536. "We stop processing
  when no full record is left" then never happens.

All other loops make progress in every reachable state: the loops over a
template set, and the record loops for varying length, where a record holds a
length prefix or a field of some length (`BufferedTemplate.Sound.moves`).
-/
namespace Topas

open Mem Proc Layout

/-- The message of `length` bytes can be processed to its end, when the templates
in `T` are known. -/
def Ends (m : Mem) (length : Nat) (T : Table) : Prop :=
  (be16 m 0 = 0x000a → be16 m 2 = length → ∀ k, (setAt m ipfixKind (be32 m 12) 16 T k).1 < length →
    be16 m ((setAt m ipfixKind (be32 m 12) 16 T k).1 + 2) ≠ 0 ∧
      ¬ SetStalls m ipfixKind (be32 m 12) (setAt m ipfixKind (be32 m 12) 16 T k)) ∧
  (be16 m 0 = 0x0009 → ∀ k, k < be16 m 2 →
    ¬ SetStalls m netflowV9Kind (be32 m 16) (setAt m netflowV9Kind (be32 m 16) 20 T k))

section Halts

variable {E : Env} {length : Nat} {tb : TemplateBuffer}

theorem halts_processIpfixPacket : (Rcv.processIpfixPacket E length tb).Halts ↔
    (be16 E.mem 2 = length → (walk (Rcv.ipfixSetStep E) length (16, tb)).Halts) := by
  refine (@runs_ntohs E length _).halts_bind_iff.trans ?_
  by_cases hl : be16 E.mem 2 = length
  · rw [if_neg (not_not_intro hl), halts_bind]
    refine ⟨?_, ?_⟩
    · intro ⟨l, s, hr, _⟩ _; exact hr.halts
    · intro hh
      obtain ⟨l, s, hr⟩ := hh hl
      exact ⟨l, s, hr, halts_pure⟩
  · rw [if_pos hl]
    exact ⟨fun _ he => absurd he hl, fun _ => halts_pure⟩

theorem halts_processNetflowV9Packet : (Rcv.processNetflowV9Packet E length tb).Halts ↔
    (Rcv.forSets E (be16 E.mem 2) 20 tb).Halts := by
  refine (@runs_ntohs E length _).halts_bind_iff.trans ?_
  rw [halts_bind]
  refine ⟨?_, ?_⟩
  · intro ⟨l, s, hr, _⟩; exact hr.halts
  · intro ⟨l, s, hr⟩; exact ⟨l, s, hr, halts_pure⟩

theorem halts_processMessage : (Rcv.processMessage E length tb).Halts ↔
    (be16 E.mem 0 = 0x000a → (Rcv.processIpfixPacket E length tb).Halts) ∧
      (be16 E.mem 0 = 0x0009 → (Rcv.processNetflowV9Packet E length tb).Halts) := by
  refine (@runs_ntohs E length _).halts_bind_iff.trans ?_
  exact version_iff (Q := (·.Halts)) halts_pure

/-- In every reachable state, a message is processed to its end exactly when it
announces no set without length where the walk goes by length, and no data set
for a template whose records have stored length 0. -/
theorem processMessage_halts_iff (h : processes.Reachable tb) :
    (Rcv.processMessage E length tb).Halts ↔ Ends E.mem length tb.table := by
  have hs := sound_reachable h
  rw [halts_processMessage, halts_processIpfixPacket, halts_processNetflowV9Packet,
    halts_walk ipfixStep (Nat.le_refl 16) hs,
    halts_forSets (@netflowV9Step E length) rfl (Nat.le_refl 20) hs]
  rfl

end Halts

/-- An environment for a message: the callbacks of `PacketReader`, no time, zeroed memory. -/
def envOf (bytes : List UInt8) : Env :=
  ⟨packetReaderParser, ofList bytes fun _ => 0, fun _ => 0, fun _ => ⟨⟨0, 0, false, 0⟩, 0⟩⟩

/-- A template set that announces the template 256, of one field of 4 octets. -/
def templateMessage : List UInt8 :=
  [0, 10, 0, 28, 0, 0, 0, 0, 0, 0, 0, 0, 0, 0, 0, 1, 0, 2, 0, 12, 1, 0, 0, 1, 0, 8, 0, 4]

/-- A template set for the template 257, with a field of 2 octets and one of varying length, two
records of the template 256, and a record of the template 257. -/
def recordsMessage : List UInt8 :=
  [0, 10, 0, 53, 0, 0, 0, 0, 0, 0, 0, 0, 0, 0, 0, 1,
    0, 2, 0, 16, 1, 1, 0, 2, 0, 7, 0, 2, 0, 82, 255, 255,
    1, 0, 0, 12, 10, 0, 0, 1, 10, 0, 0, 2,
    1, 1, 0, 9, 0, 80, 2, 65, 66]

theorem table_templateMessage (T : Table) :
    afterSet (envOf templateMessage).mem ipfixKind 1 16 T (1, 256) =
      some ⟨.template, 4, [some 4]⟩ := by
  rw [afterSet_announces (n := 28) (by decide) (by decide) (by decide) (by decide),
    announce, if_pos (by decide), if_neg (by decide)]
  have hlengths : specLengths (envOf templateMessage).mem 1 24 = [4] := by decide
  simp only [templateAt, show be16 (envOf templateMessage).mem (16 + 4 + 2) = 1 by decide]
  rw [hlengths]
  simp [ofLengths, storedLength, varyingPart]

/-- The template of `templateMessage` is known to a parser that has processed it. -/
theorem reachable_templateMessage :
    ∃ tb, processes.Reachable tb ∧ tb.table (1, 256) = some ⟨.template, 4, [some 4]⟩ := by
  have hbehind : ∀ T k, 28 ≤ (setAt (envOf templateMessage).mem ipfixKind 1 16 T (k + 1)).1 := by
    intro T k
    rw [setAt_succ]
    exact le_setAt 28 _ k
  have hhalts : (Rcv.processMessage (envOf templateMessage) 28 []).Halts := by
    rw [halts_processMessage, halts_processIpfixPacket]
    refine ⟨fun _ _ => (halts_walk ipfixStep (Nat.le_refl 16) sound_nil).mpr fun k hk => ?_,
      fun h => absurd h (by decide)⟩
    cases k with
    | zero => exact ⟨by decide, fun hs => absurd hs.1 (by decide)⟩
    | succ k => exact absurd hk (Nat.not_lt.mpr (hbehind _ k))
  obtain ⟨l, ⟨r, tb⟩, hr⟩ := hhalts
  refine ⟨tb, .step (.init rfl) (l := (envOf templateMessage, 28)) ⟨l, r, hr⟩, ?_⟩
  obtain ⟨k, hk, hle, hbefore⟩ := table_processMessage sound_nil (by decide) (by decide) hr
  cases k with
  | zero => exact absurd hle (by decide)
  | succ k =>
    cases k with
    | zero =>
      rw [show be32 (envOf templateMessage).mem 12 = 1 by decide] at hk
      simp only [setAt] at hk
      rw [← hk]
      exact table_templateMessage _
    | succ k => exact absurd (hbefore 1 (by omega)) (Nat.not_lt.mpr (hbehind _ 0))

theorem table_recordsMessage (T : Table) :
    afterSet (envOf recordsMessage).mem ipfixKind 1 16 T =
      announce (envOf recordsMessage).mem .template 1 T 20 :=
  afterSet_announces (n := 32) (by decide) (by decide) (by decide) (by decide)

theorem announces_recordsMessage (T : Table) (h : T (1, 256) = some ⟨.template, 4, [some 4]⟩) :
    announce (envOf recordsMessage).mem .template 1 T 20 (1, 256) = some ⟨.template, 4, [some 4]⟩ ∧
    announce (envOf recordsMessage).mem .template 1 T 20 (1, 257) =
      some ⟨.template, 65535, [some 2, none]⟩ := by
  refine ⟨?_, ?_⟩
  · rw [announce, if_neg (by decide), h]
  · have hlengths : specLengths (envOf recordsMessage).mem 2 24 = [2, 65535] := by decide
    rw [announce, if_pos (by decide), if_neg (by decide)]
    simp only [templateAt, show be16 (envOf recordsMessage).mem (20 + 2) = 2 by decide]
    rw [hlengths]
    simp [ofLengths, storedLength, varyingPart]

/-- The sets of `recordsMessage`, with the templates in force at its two data sets. -/
theorem setAt_recordsMessage {T : Table} (hT : T (1, 256) = some ⟨.template, 4, [some 4]⟩) {k : Nat}
    {s : Nat × Table} (hs : setAt (envOf recordsMessage).mem ipfixKind 1 16 T k = s)
    (hlt : s.1 < 53) :
    s.1 = 16 ∨ (s.1 = 32 ∧ s.2 (1, 256) = some ⟨.template, 4, [some 4]⟩) ∨
      s.1 = 44 ∧ s.2 (1, 257) = some ⟨.template, 65535, [some 2, none]⟩ := by
  have hfirst : 16 + be16 (envOf recordsMessage).mem (16 + 2) = 32 := by decide
  have hsecond : 32 + be16 (envOf recordsMessage).mem (32 + 2) = 44 := by decide
  have hthird : 44 + be16 (envOf recordsMessage).mem (44 + 2) = 53 := by decide
  have hdata : ∀ T, afterSet (envOf recordsMessage).mem ipfixKind 1 32 T = T :=
    fun T => afterSet_data (by decide)
  obtain ⟨h256, h257⟩ := announces_recordsMessage T hT
  rw [← hs] at hlt ⊢
  rcases k with _ | _ | _ | k
  · exact .inl rfl
  · rw [setAt_succ, table_recordsMessage, hfirst, setAt]
    exact .inr (.inl ⟨rfl, by simpa only using h256⟩)
  · rw [setAt_succ, setAt_succ, table_recordsMessage, hfirst, hsecond, hdata, setAt]
    exact .inr (.inr ⟨rfl, by simpa only using h257⟩)
  · rw [setAt_succ, setAt_succ, setAt_succ, table_recordsMessage, hfirst, hsecond, hthird] at hlt
    exact absurd hlt (Nat.not_lt.mpr (le_setAt 53 _ k))

/-- The parser that has processed `templateMessage` processes `recordsMessage` to its end. -/
theorem processMessage_halts_records : ∃ tb, processes.Reachable tb ∧ tb ≠ [] ∧
    (Rcv.processMessage (envOf recordsMessage) 53 tb).Halts := by
  obtain ⟨tb, hreach, hknown⟩ := reachable_templateMessage
  refine ⟨tb, hreach, ?_, (processMessage_halts_iff hreach).mpr ⟨fun _ _ k hk => ?_, ?_⟩⟩
  · rintro rfl
    cases hknown
  · rw [show be32 (envOf recordsMessage).mem 12 = 1 by decide] at hk ⊢
    generalize hs : setAt (envOf recordsMessage).mem ipfixKind 1 16 tb.table k = s at hk ⊢
    unfold SetStalls
    rcases setAt_recordsMessage hknown hs hk with h1 | ⟨h1, hL⟩ | ⟨h1, hL⟩
    · rw [h1]
      exact ⟨by decide, fun hdata => absurd hdata.1 (by decide)⟩
    · rw [h1, show be16 (envOf recordsMessage).mem 32 = 256 by decide, hL]
      refine ⟨by decide, ?_⟩
      rintro ⟨-, L, hsome, hst⟩
      cases hsome
      exact absurd hst.1 (by decide)
    · rw [h1, show be16 (envOf recordsMessage).mem 44 = 257 by decide, hL]
      refine ⟨by decide, ?_⟩
      rintro ⟨-, L, hsome, hst⟩
      cases hsome
      exact absurd hst.1 (by decide)
  · exact fun h => absurd h (by decide)

/-- An IPFIX message of 20 bytes with one set, of id 256 and length 0. -/
def emptySet : List UInt8 := [0, 10, 0, 20, 0, 0, 0, 0, 0, 0, 0, 0, 0, 0, 0, 0, 1, 0, 0, 0]

/-- **Counterexample**: the walk stays at the set of length 0. -/
theorem processMessage_stalls_emptySet :
    ¬ ∀ (E : Env) (length : Nat) (tb : TemplateBuffer), length ≤ 65535 → processes.Reachable tb →
      (Rcv.processMessage E length tb).Halts := by
  intro hall
  have h := hall (envOf emptySet) 20 [] (by decide) (.init rfl)
  rw [halts_processMessage, halts_processIpfixPacket] at h
  exact not_halts_walk ipfixStep (Nat.le_refl 16) sound_nil (by decide) (by decide)
    (h.1 (by decide) (by decide))

end Topas
