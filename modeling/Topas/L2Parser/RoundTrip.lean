import Topas.L2Parser.Decode

/-!
# Decoding undoes encoding

`Processed n tb ms seen tb'`: the messages `ms`, one after the other, take the
template buffer from `tb` to `tb'`, each is accepted, and `seen` is what callback
set number `n` sees. A message comes with the memory it lies in and the times at
which templates are looked up.

`processed_messages`: for a well-formed list of messages, received in memories
that hold their bytes, `seen` is what the messages announce. Nothing is assumed
about the memory behind a message, nor about the other callback sets.
-/
namespace Topas

open Mem Proc Layout

/-! ## Sets -/

section Sets

variable {E : Env} {length n sid set : Nat} {ci : CallbackInfo} {K : Known} {tb : TemplateBuffer}
  {v : Version}

def Version.kindOf : Version → Nat → SetKind
  | .ipfix => ipfixKind
  | .netflowV9 => netflowV9Kind

theorem kindOf_templates : v.kindOf v.templateSetID = .templates .template := by
  cases v <;> rfl

theorem kindOf_data {id : Nat} (h : 256 ≤ id) : v.kindOf id = .data := by
  have hne : ∀ k, k < 256 → id ≠ k := fun k hk e => by omega
  cases v
  · exact (if_neg (hne _ (by decide))).trans <| (if_neg (hne _ (by decide))).trans <|
      (if_neg (hne _ (by decide))).trans (if_pos h)
  · exact (if_neg (hne _ (by decide))).trans (if_pos h)

/-- Another record is taken while the least length of a record is left. -/
theorem more_iff {t : Template} {bt : BufferedTemplate} (hs : Stands t bt) {X a : Nat} :
    bt.layout.more X a = decide (a + t.least ≤ X) := by
  obtain ⟨ti, hti, -⟩ := hs.info
  have hrl := hs.recordLength
  unfold more BufferedTemplate.layout Template.least
  rw [hti]
  cases hvar : t.isVariable
  · have htot : t.total < 65535 := t.total_lt hvar
    rw [hvar, if_neg Bool.false_ne_true] at hrl
    simp only [Info.kind, hrl, if_neg Bool.false_ne_true]
    rw [if_pos htot]
    exact decide_eq_decide.mpr Nat.lt_succ_iff
  · rw [hvar, if_pos rfl] at hrl
    simp only [Info.kind, hrl, if_true]
    exact decide_eq_decide.mpr Iff.rfl

theorem setHeader_at {s : MsgSet} (h : Holds E.mem set (s.encode v))
    (hlt : set + (s.encode v).length < 65536) :
    be16 E.mem set = s.setID v ∧ be16 E.mem (set + 2) = (s.encode v).length ∧
      (s.encode v).length = 4 + s.content.length ∧ Holds E.mem (set + 4) s.content := by
  unfold MsgSet.encode at h hlt ⊢
  rw [List.append_assoc, holds_append, holds_append] at h
  obtain ⟨h1, h2, h3⟩ := h
  simp only [List.length_append, length_enc16] at h2 h3 hlt ⊢
  have hid : s.setID v < 65536 := by
    cases s with
    | templates =>
      have : ∀ v, Version.templateSetID v < 65536 := by intro v; cases v <;> decide
      exact this v
    | data t => exact t.id_lt
  exact ⟨be16_of_holds h1 hid, be16_of_holds h2 (by omega), trivial, h3⟩

/-- The sets of a message, whichever loop walks over them. -/
theorem set_at {s : MsgSet} (h : Holds E.mem set (s.encode v))
    (hlt : set + (s.encode v).length < 65536) (ht : Tracks K tb) (hlive : s.Live sid K)
    (hn : E.parser.callbackInfo[n]? = some ci) (ht' : ci.templateCallbackFunction = true)
    (hd' : ci.dataRecordCallbackFunction = true) :
    ∃ Q es tb', Runs length (setBody E sid set tb (v.kindOf (be16 E.mem set))) Q es tb' ∧
      Tracks (K.set sid s) tb' ∧ es.flatMap (Event.observed E.mem n) = s.announced sid := by
  obtain ⟨hid, hlength, hsize, hcontent⟩ := setHeader_at h hlt
  rw [hid]
  cases s with
  | templates entries padding hpad =>
    unfold MsgSet.setID
    rw [kindOf_templates]
    rw [MsgSet.content, holds_append] at hcontent
    rw [MsgSet.content, List.length_append] at hsize
    obtain ⟨h1, h2⟩ := @entries_at E n sid set (set + 4) ci v K tb entries
      (set + be16 E.mem (set + 2)) hcontent.1 (by omega) (by omega) hid ht hn ht'
    exact ⟨_, _, _, runs_forTemplates, h1, h2⟩
  | data t records padding hpad =>
    replace hid : be16 E.mem set = t.id := hid
    unfold MsgSet.setID
    rw [kindOf_data t.le_id]
    rw [MsgSet.content, holds_append] at hcontent
    rw [MsgSet.content, List.length_append] at hsize
    obtain ⟨bt, hf, hs⟩ := ht.known _ t hlive
    have hb := ht.sound.entry bt (TemplateBuffer.find_mem hf)
    have hkey := TemplateBuffer.find_key hf
    obtain ⟨h1, h2, h3, h4⟩ := @records_at E n sid set ci t bt hb hs hn hd' records 0 hcontent.1
      (by rw [recordAt]; omega) hs.info
    have hX : recordX E.mem set =
        set + 4 + (records.flatMap Record.encode).length + padding.length := by
      rw [recordX, Rcv.dataLength, hlength]; omega
    rw [Nat.zero_add] at h1 h4
    have hstart : recordAt E.mem bt.layout set 0 = set + 4 := rfl
    have hleast : padding.length < t.least := hpad
    have hmore : ∀ j, j < records.length →
        bt.layout.more (recordX E.mem set) (recordAt E.mem bt.layout set j) = true := by
      intro j hj
      have hle := h2 j hj
      have hmono := @recordAt_mono set E.mem bt.layout (j + 1) records.length hj
      rw [Nat.zero_add] at hle
      rw [more_iff hs, decide_eq_true_iff]
      omega
    have hdone : bt.layout.more (recordX E.mem set)
        (recordAt E.mem bt.layout set records.length) = false := by
      rw [more_iff hs, decide_eq_false_iff_not]
      omega
    rw [← hid] at hf
    simp only [Nat.zero_add] at h3
    refine ⟨_, _, _, runs_known ht.sound hf hmore hdone, ?_, h3⟩
    rw [hid, ← hkey] at hf
    exact tracks_afterRecords ht hf hs (by rw [hkey]; exact hlive) h4

/-- One round of a packet loop. -/
theorem round_at {body : Nat → Nat → TemplateBuffer → Proc Event TemplateBuffer} {Q : Prop}
    {es : List Event} {tb' : TemplateBuffer}
    (hr : Runs length (body set (be16 E.mem set) tb) Q es tb') :
    ∃ Q', Runs length (roundOf E body set tb) Q' es (set + be16 E.mem (set + 2), tb') := by
  rw [← List.append_nil es]
  exact ⟨_, Does.then runs_ntohs (Does.bind hr (Does.last runs_ntohs rfl))⟩

theorem ipfixRound_at {Q : Prop} {es : List Event} {tb' : TemplateBuffer}
    (hr : Runs length (setBody E (be32 E.mem 12) set tb (ipfixKind (be16 E.mem set))) Q es tb') :
    ∃ Q', Runs length (Rcv.ipfixSetStep E set tb) Q' es (set + be16 E.mem (set + 2), tb') := by
  obtain ⟨R, hset⟩ : ∃ R, Runs length (Rcv.ipfixSet E set (be16 E.mem set) tb) R es tb' := by
    rw [ipfixSet_eq]
    exact ⟨_, Does.then runs_ntohl hr⟩
  exact round_at hset

theorem netflowV9Round_at {Q : Prop} {es : List Event} {tb' : TemplateBuffer}
    (hr : Runs length
      (setBody E (be32 E.mem 16) set tb (netflowV9Kind (be16 E.mem set))) Q es tb') :
    ∃ Q', Runs length (Rcv.netflowV9SetStep E set tb) Q' es (set + be16 E.mem (set + 2), tb') := by
  obtain ⟨R, hset⟩ : ∃ R, Runs length (Rcv.netflowV9Set E set (be16 E.mem set) tb) R es tb' := by
    rw [netflowV9Set_eq]
    split
    · rename_i hk
      rw [hk] at hr
      exact ⟨_, hr⟩
    · exact ⟨_, Does.then runs_ntohl hr⟩
  exact round_at hset

/-- All sets of an IPFIX message. -/
theorem ipfixSets_at {ss : List MsgSet} (h : Holds E.mem set (ss.flatMap (MsgSet.encode .ipfix)))
    (hlt : set + (ss.flatMap (MsgSet.encode .ipfix)).length < 65536) (ht : Tracks K tb)
    (hlive : setsLive (be32 E.mem 12) K ss) (hn : E.parser.callbackInfo[n]? = some ci)
    (ht' : ci.templateCallbackFunction = true) (hd' : ci.dataRecordCallbackFunction = true) :
    ∃ Q es s, Runs length (walk (Rcv.ipfixSetStep E)
        (set + (ss.flatMap (MsgSet.encode .ipfix)).length) (set, tb)) Q es s ∧
      Tracks (K.sets (be32 E.mem 12) ss) s.2 ∧
      es.flatMap (Event.observed E.mem n) = ss.flatMap (MsgSet.announced (be32 E.mem 12)) := by
  induction ss generalizing set K tb with
  | nil => exact ⟨_, _, _, does_loop_done (decide_eq_false (Nat.lt_irrefl set)), ht, rfl⟩
  | cons s ss ih =>
    rw [List.flatMap_cons, holds_append] at h
    rw [List.flatMap_cons, List.length_append] at hlt ⊢
    obtain ⟨h1, h2⟩ := hlive
    obtain ⟨-, hlength, hsize, -⟩ := setHeader_at h.1 (by omega)
    obtain ⟨Q, es, tb', hr, htb, hes⟩ := @set_at E length n _ set ci K tb .ipfix s h.1 (by omega)
      ht h1 hn ht' hd'
    obtain ⟨Q', hround⟩ := ipfixRound_at hr
    rw [← hlength] at h hlt hsize ⊢
    obtain ⟨R, es', s', hr', htb', hes'⟩ := ih h.2 (by omega) htb h2
    rw [Nat.add_assoc] at hr'
    refine ⟨_, _, _, Does.loop_step (decide_eq_true (by omega)) hround hr', htb', ?_⟩
    rw [List.flatMap_append, hes, hes', List.flatMap_cons]

/-- All sets of a NetFlow v9 message. -/
theorem netflowV9Sets_at {ss : List MsgSet}
    (h : Holds E.mem set (ss.flatMap (MsgSet.encode .netflowV9)))
    (hlt : set + (ss.flatMap (MsgSet.encode .netflowV9)).length < 65536) (ht : Tracks K tb)
    (hlive : setsLive (be32 E.mem 16) K ss) (hn : E.parser.callbackInfo[n]? = some ci)
    (ht' : ci.templateCallbackFunction = true) (hd' : ci.dataRecordCallbackFunction = true) :
    ∃ Q es tb', Runs length (Rcv.forSets E ss.length set tb) Q es tb' ∧
      Tracks (K.sets (be32 E.mem 16) ss) tb' ∧
      es.flatMap (Event.observed E.mem n) = ss.flatMap (MsgSet.announced (be32 E.mem 16)) := by
  induction ss generalizing set K tb with
  | nil => exact ⟨_, _, _, does_pure, ht, rfl⟩
  | cons s ss ih =>
    rw [List.flatMap_cons, holds_append] at h
    rw [List.flatMap_cons, List.length_append] at hlt
    obtain ⟨h1, h2⟩ := hlive
    obtain ⟨-, hlength, -, -⟩ := setHeader_at h.1 (by omega)
    obtain ⟨Q, es, tb', hr, htb, hes⟩ :=
      @set_at E length n _ set ci K tb .netflowV9 s h.1 (by omega)
      ht h1 hn ht' hd'
    obtain ⟨Q', hround⟩ := netflowV9Round_at hr
    rw [← hlength] at h hlt
    obtain ⟨R, es', s', hr', htb', hes'⟩ := ih h.2 (by omega) htb h2
    refine ⟨_, _, _, Does.bind hround hr', htb', ?_⟩
    rw [List.flatMap_append, hes, hes', List.flatMap_cons]

end Sets

/-! ## Messages -/

section Messages

variable {E : Env} {n : Nat} {ci : CallbackInfo} {K : Known} {tb : TemplateBuffer} {msg : Message}

theorem Message.length_encode :
    msg.encode.length = msg.version.headerLength + msg.body.length := by
  have hc := msg.counters_length
  unfold Message.encode
  cases hv : msg.version <;> rw [hv] at hc <;>
    simp only [Version.headerLength, List.length_append, length_enc16, length_enc32] at hc ⊢ <;>
    omega

theorem length_sets_le {v : Version} (ss : List MsgSet) :
    ss.length ≤ (ss.flatMap (MsgSet.encode v)).length := by
  induction ss with
  | nil => exact Nat.le_refl 0
  | cons s ss ih =>
    simp only [List.flatMap_cons, List.length_append, List.length_cons, MsgSet.encode, length_enc16]
    omega

theorem ipfixHeader_at (hv : msg.version = .ipfix) (h : Holds E.mem 0 msg.encode) :
    be16 E.mem 0 = 0x000a ∧ be16 E.mem 2 = msg.encode.length ∧ be32 E.mem 12 = msg.sourceID ∧
      Holds E.mem 16 msg.body := by
  have hc := msg.counters_length
  have hl := msg.length_lt
  have hlen := @Message.length_encode msg
  unfold Message.encode at h
  rw [hv] at hc hl hlen h
  replace hl : 16 + msg.body.length < 65536 := by rw [Message.body, hv]; exact hl
  simp only [holds_append, List.length_append, length_enc16, length_enc32, Version.headerLength]
    at h hc hlen
  obtain ⟨⟨⟨⟨h1, h2⟩, -⟩, h4⟩, h5⟩ := h
  rw [show 0 + (2 + 2 + msg.counters.length) = 12 by omega] at h4
  rw [show 0 + (2 + 2 + msg.counters.length + 4) = 16 by omega] at h5
  exact ⟨be16_of_holds h1 (by decide), by rw [hlen]; exact be16_of_holds h2 hl,
    be32_of_holds h4 msg.sourceID_lt, h5⟩

theorem netflowV9Header_at (hv : msg.version = .netflowV9) (h : Holds E.mem 0 msg.encode) :
    be16 E.mem 0 = 0x0009 ∧ be16 E.mem 2 = msg.sets.length ∧ be32 E.mem 16 = msg.sourceID ∧
      Holds E.mem 20 msg.body := by
  have hc := msg.counters_length
  have hl := msg.length_lt
  have hs := @length_sets_le msg.version msg.sets
  unfold Message.encode at h
  rw [hv] at hc hl hs h
  simp only [holds_append, List.length_append, length_enc16, length_enc32, Version.headerLength]
    at h hc hl
  obtain ⟨⟨⟨⟨h1, h2⟩, -⟩, h4⟩, h5⟩ := h
  rw [show 0 + (2 + 2 + msg.counters.length) = 16 by omega] at h4
  rw [show 0 + (2 + 2 + msg.counters.length + 4) = 20 by omega] at h5
  exact ⟨be16_of_holds h1 (by decide), be16_of_holds h2 (by omega),
    be32_of_holds h4 msg.sourceID_lt, h5⟩

/-- One message. -/
theorem message_at (h : Holds E.mem 0 msg.encode) (ht : Tracks K tb)
    (hlive : setsLive msg.sourceID K msg.sets) (hn : E.parser.callbackInfo[n]? = some ci)
    (ht' : ci.templateCallbackFunction = true) (hd' : ci.dataRecordCallbackFunction = true) :
    ∃ l tb', (Rcv.processMessage E msg.encode.length tb).Returns l (0, tb') ∧
      Tracks (K.message msg) tb' ∧ l.flatMap (Event.observed E.mem n) = msg.announced := by
  suffices hruns : ∃ es tb', Tracks (K.message msg) tb' ∧
      es.flatMap (Event.observed E.mem n) = msg.announced ∧
      ∃ Q, Runs msg.encode.length (Rcv.processMessage E msg.encode.length tb) Q es (0, tb') by
    obtain ⟨es, tb', htb, hes, Q, hr⟩ := hruns
    obtain ⟨l, hl, -, hobs⟩ := hr.observe (Event.observed E.mem n)
    simp only [observed_eq, viewed_seen] at hobs
    rw [← observed_eq] at hobs
    exact ⟨l, tb', hl, htb, hobs.trans hes⟩
  have hl := msg.length_lt
  have hlen := @Message.length_encode msg
  rw [processMessage_cases]
  unfold Known.message Message.announced
  unfold Message.body at hlen
  cases hv : msg.version with
  | ipfix =>
    obtain ⟨h1, h2, h3, h4⟩ := ipfixHeader_at hv h
    rw [hv] at hl hlen
    rw [Message.body, hv] at h4
    rw [← h3] at hlive ⊢
    obtain ⟨Q, es, s, hr, htb, hes⟩ := @ipfixSets_at E msg.encode.length n 16 ci K tb msg.sets h4 hl
      ht hlive hn ht' hd'
    rw [← show msg.encode.length = 16 + _ from hlen] at hr
    refine ⟨es, s.2, htb, hes, ?_⟩
    apply Exists.intro
    apply Does.then runs_ntohs
    rw [if_pos h1]
    apply Does.then runs_ntohs
    rw [if_neg (fun hne => hne h2)]
    exact Does.last hr rfl
  | netflowV9 =>
    obtain ⟨h1, h2, h3, h4⟩ := netflowV9Header_at hv h
    rw [hv] at hl hlen
    rw [Message.body, hv] at h4
    rw [← h3] at hlive ⊢
    obtain ⟨Q, es, tb', hr, htb, hes⟩ := @netflowV9Sets_at E msg.encode.length n 20 ci K tb msg.sets
      h4 hl ht hlive hn ht' hd'
    refine ⟨es, tb', htb, hes, ?_⟩
    apply Exists.intro
    apply Does.then runs_ntohs
    rw [h1, if_neg (by decide), if_pos rfl]
    apply Does.then runs_ntohs
    rw [h2]
    exact Does.last hr rfl

/-- Messages that are received one after the other. -/
inductive Processed (n : Nat) :
    TemplateBuffer → List (Env × Nat) → List Seen → TemplateBuffer → Prop
  | nil (tb : TemplateBuffer) : Processed n tb [] [] tb
  | cons {tb tb' tb'' : TemplateBuffer} {E : Env} {length : Nat} {ms : List (Env × Nat)}
      {l : List Event} {seen : List Seen} :
      (Rcv.processMessage E length tb).Returns l (0, tb') → Processed n tb' ms seen tb'' →
      Processed n tb ((E, length) :: ms) (l.flatMap (Event.observed E.mem n) ++ seen) tb''

theorem tracks_nil : Tracks (fun _ => none) [] :=
  ⟨sound_nil, fun _ _ => rfl, fun _ _ hK => nomatch hK⟩

theorem processed_tracks {P : IpfixParser} (hn : P.callbackInfo[n]? = some ci)
    (ht' : ci.templateCallbackFunction = true) (hd' : ci.dataRecordCallbackFunction = true)
    {ms : List (Env × Message)} (hwf : WellFormed K (ms.map (·.2)))
    (hms : ∀ x, x ∈ ms → x.1.parser = P ∧ Holds x.1.mem 0 x.2.encode) (ht : Tracks K tb) :
    ∃ tb', Processed n tb (ms.map fun x => (x.1, x.2.encode.length))
      ((ms.map (·.2)).flatMap Message.announced) tb' := by
  induction ms generalizing K tb with
  | nil => exact ⟨tb, .nil tb⟩
  | cons x ms ih =>
    obtain ⟨hlive, hwf⟩ := hwf
    obtain ⟨hP, hx⟩ := hms x List.mem_cons_self
    obtain ⟨l, tb', hr, htb, hl⟩ := message_at hx ht hlive (by rw [hP]; exact hn) ht' hd'
    obtain ⟨tb'', h⟩ := ih hwf (fun y hy => hms y (List.mem_cons_of_mem x hy)) htb
    refine ⟨tb'', ?_⟩
    rw [List.map_cons, List.map_cons, List.flatMap_cons, ← hl]
    exact .cons hr h

/-- Every callback set with functions for templates and data records sees exactly
the templates and records that a well-formed list of messages announces. -/
theorem processed_messages (P : IpfixParser) (hn : P.callbackInfo[n]? = some ci)
    (ht' : ci.templateCallbackFunction = true) (hd' : ci.dataRecordCallbackFunction = true)
    (ms : List (Env × Message)) (hwf : WellFormed (fun _ => none) (ms.map (·.2)))
    (hms : ∀ x, x ∈ ms → x.1.parser = P ∧ Holds x.1.mem 0 x.2.encode) :
    ∃ tb, Processed n [] (ms.map fun x => (x.1, x.2.encode.length))
      ((ms.map (·.2)).flatMap Message.announced) tb :=
  processed_tracks hn ht' hd' hwf hms tracks_nil

end Messages

/-- An IPv4 address and an enterprise field of variable length. -/
def addressAndName : Template where
  id := 256
  fields := [.ofWords 8 4 0, .ofWords 0x8001 65535 7]
  le_id := by decide
  id_lt := leastId_lt
  fields_pos := by decide
  fields_lt := by decide
  total_pos := by decide
  total_lt := by decide

/-- The template, a record of it with 3 bytes of padding, and its withdrawal. -/
def addressAndNameMessage : Message where
  version := .ipfix
  sourceID := 1
  counters := List.replicate 8 0
  sets := [.templates [.announce addressAndName] [] (by decide),
    .data addressAndName
      [⟨[⟨[10, 0, 0, 1], false⟩, ⟨[65, 66], true⟩],
        ⟨by unfold Value.Fits; decide, by unfold Value.Fits; decide, trivial⟩, by decide⟩]
      [0, 0, 0] (by decide),
    .templates [.withdraw 256 (by decide)] [] (by decide)]
  sourceID_lt := by decide
  counters_length := rfl
  length_lt := by decide

def addressAndNameEnv : Env where
  parser := packetReaderParser
  mem := ofList addressAndNameMessage.encode fun _ => 0
  time _ := 0
  fresh _ := ⟨⟨0, 0, false, 0⟩, 0⟩

theorem processed_messages_addressAndName :
    ∃ tb, Processed 0 [] [(addressAndNameEnv, 60)]
      [.template 1 256 [(8, 0, 4), (0x8001, 7, 65535)],
        .record 1 256 [(8, 0), (0x8001, 7)] [[10, 0, 0, 1], [65, 66]]] tb := by
  have hci : packetReaderParser.callbackInfo[0]? =
      some ⟨0, true, true, true, true, true, true, true, true, true⟩ := rfl
  refine processed_messages packetReaderParser hci rfl rfl
    [(addressAndNameEnv, addressAndNameMessage)] ⟨⟨trivial, rfl, trivial, trivial⟩, trivial⟩ ?_
  intro x hx
  rw [List.mem_singleton] at hx
  subst hx
  exact ⟨rfl, holds_ofList _ _⟩

end Topas
