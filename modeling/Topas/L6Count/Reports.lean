import Mathlib.Data.List.Sort
import Topas.L6Count.CountStore
import Topas.L6Count.IdmefMessage

/-!
# The reports of the count module

`countmodule/countmodule.cpp`, `CountModule::test`: at the end of an interval every entry of an
enabled table that reaches a threshold is written to the output file and sent as a message.

* `test_eq`: what the messages of a test report. Those of the port tables have the protocol and
  not the port, which is written to the protocol's stream; a rate is reduced to 32 bits.
* `reports_iff`: a test reports what it should exactly if it has nothing to say of a port, and no
  rate that needs more than 32 bits.
-/
namespace Topas

open Text

/-- mirrors detectionmodules/detectionbase/ipaddress.cpp:27-32 -/
def IpAddress.toString (ip : IpAddress) : List Char :=
  dec ip.a.toNat ++ '.' :: dec ip.b.toNat ++ '.' :: dec ip.c.toNat ++ '.' :: dec ip.d.toNat

/-- mirrors detectionmodules/detectionbase/ipaddress.h:80-92 -/
def IpAddress.lt (x ip : IpAddress) : Bool :=
  x.a < ip.a || (x.a = ip.a && x.b < ip.b) || (x.a = ip.a && x.b = ip.b && x.c < ip.c) ||
    (x.a = ip.a && x.b = ip.b && x.c = ip.c && x.d < ip.d)

/-- The entries of a `std::map` in the order of its iterators. -/
def CountMap.iterate {κ : Type} (lt : κ → κ → Bool) (countmap : CountMap κ) : List (κ × Counters) :=
  (countmap.entries.map fun e => (e.1, e.2)).mergeSort fun x y => !lt y.1 x.1

theorem CountMap.mem_iterate {κ : Type} [DecidableEq κ] {lt : κ → κ → Bool} {countmap : CountMap κ}
    {key : κ} {c : Counters} : (key, c) ∈ countmap.iterate lt ↔ countmap.find key = some c := by
  rw [iterate, List.mem_mergeSort, find, ← Option.mem_def, AList.mem_lookup_iff]
  simp only [List.mem_map, Prod.mk.injEq]
  exact ⟨fun ⟨⟨_, _⟩, hmem, hkey, hc⟩ => hkey ▸ hc ▸ hmem, fun hmem => ⟨⟨key, c⟩, hmem, rfl, rfl⟩⟩

/-- The members of the module that a test reads. -/
structure CountModule where
  octetThreshold : UInt64
  packetThreshold : UInt64
  flowThreshold : UInt64
  alarm : UInt32
  origin : IdmefMessage.Origin
  deriving DecidableEq, Repr

namespace CountModule

open IdmefMessage (getNewIdmefMessage Report Endpoint Observed)

structure Streams where
  portStr : List Char
  protoStr : List Char
  ocStr : List Char
  pcStr : List Char
  fcStr : List Char
  orStr : List Char
  prStr : List Char
  deriving DecidableEq, Repr

/-- What `test` works with. `sent` is what was sent so far, with its topics, to all that messages
are published to. -/
structure TestState where
  outfile : List Char
  streams : Streams
  idmefMessage : IdmefMessage
  sent : List (List Char × IdmefMessage)

variable (m : CountModule)

/-- mirrors detectionmodules/countmodule/countmodule.cpp:341-344 -/
def checkThresholds (count : Counters) : Bool :=
  m.octetThreshold ≤ count.octetCount || m.packetThreshold ≤ count.packetCount ||
    m.flowThreshold ≤ count.flowCount

/-- `(unsigned)(count/alarm)`. -/
def rate (count : UInt64) : Option UInt32 :=
  if m.alarm = 0 then none else some (count / m.alarm.toUInt64).toUInt32

/-- mirrors detectionmodules/detectionbase/detectionbase.h:431-436 -/
def sendIdmefMessage (topic : List Char) (t : TestState) : TestState :=
  { t with sent := t.sent ++ [(topic, t.idmefMessage)] }

/-- The counts of an entry, as they follow its key in the output file. -/
def countsText (c : Counters) : List Char :=
  " \to:".toList ++ dec c.octetCount.toNat ++ " \tp:".toList ++ dec c.packetCount.toNat ++
    " \tf:".toList ++ dec c.flowCount.toNat ++ ['\n']

/-- What follows the key in all four loops. A stream is emptied before it is written to.
mirrors detectionmodules/countmodule/countmodule.cpp:246-252,270-276,297-303,324-330 -/
def sendCounts (c : Counters) (t : TestState) : Option TestState := do
  let s := t.streams
  let s := { s with ocStr := dec c.octetCount.toNat }
  let s := { s with pcStr := dec c.packetCount.toNat }
  let s := { s with fcStr := dec c.flowCount.toNat }
  let octetRate ← m.rate c.octetCount
  let s := { s with orStr := dec octetRate.toNat }
  let packetRate ← m.rate c.packetCount
  let s := { s with prStr := dec packetRate.toNat }
  let idmefMessage :=
    t.idmefMessage.createExtStatisticsNode s.ocStr s.pcStr s.fcStr s.orStr s.prStr []
  some (sendIdmefMessage "Dummy".toList { t with streams := s, idmefMessage := idmefMessage })

/-- One entry of an address table.
mirrors detectionmodules/countmodule/countmodule.cpp:241-252,265-276 -/
def reportIp
    (createNode : IdmefMessage → List Char → List Char → List Char → List Char → IdmefMessage)
    (e : IpAddress × Counters) (t : TestState) : Option TestState :=
  let t := { t with outfile := t.outfile ++ e.1.toString ++ countsText e.2 }
  let idmefMessage := getNewIdmefMessage m.origin
  let idmefMessage := createNode idmefMessage "no".toList "ipv4-addr".toList e.1.toString
    "255.255.255.255".toList
  m.sendCounts e.2 { t with idmefMessage := idmefMessage }

/-- One entry of a port table. The port goes to the protocol's stream, which is then emptied.
mirrors detectionmodules/countmodule/countmodule.cpp:289-303,316-330 -/
def reportPort (nodeName : NodeName) (e : UInt32 × Counters) (t : TestState) : Option TestState :=
  let t := { t with
    outfile := t.outfile ++ dec (e.1 >>> 16).toNat ++ '.' :: dec (0x0000FFFF &&& e.1).toNat ++
      countsText e.2 }
  let idmefMessage := getNewIdmefMessage m.origin
  let s := t.streams
  let s := { s with portStr := [] }
  let s := { s with protoStr := s.protoStr ++ dec (0x0000FFFF &&& e.1).toNat }
  let s := { s with protoStr := [] }
  let s := { s with protoStr := s.protoStr ++ dec (e.1 >>> 16).toNat }
  let idmefMessage := idmefMessage.createServiceNode nodeName [] s.portStr [] s.protoStr
  m.sendCounts e.2 { t with streams := s, idmefMessage := idmefMessage }

/-- One of the four loops, behind its heading, if the table is enabled. -/
def reportTable {κ : Type} (enabled : Bool) (report : κ × Counters → TestState → Option TestState)
    (heading : String) (entries : List (κ × Counters)) (t : TestState) : Option TestState :=
  if enabled then
    entries.foldlM (fun t e => if m.checkThresholds e.2 then report e t else some t)
      { t with outfile := t.outfile ++ heading.toList ++ ['\n'] }
  else some t

/-- mirrors detectionmodules/detectionbase/detectionbase.h:418-423 -/
def setNames (analyzerName classification : List Char) : CountModule :=
  { m with origin :=
    { m.origin with analyzerName := analyzerName, classification := classification } }

/-- Up to the loops.
mirrors detectionmodules/countmodule/countmodule.cpp:225-232 -/
def start (outfile : List Char) : TestState :=
  let t : TestState := ⟨outfile, ⟨[], [], [], [], [], [], []⟩, getNewIdmefMessage m.origin, []⟩
  let t := { t with outfile := t.outfile ++ "******************** Report *********************\n".toList }
  { t with outfile := t.outfile ++ "thresholds: octets>=".toList ++ dec m.octetThreshold.toNat ++
    " packets>=".toList ++ dec m.packetThreshold.toNat ++ " flows>=".toList ++ dec m.flowThreshold.toNat ++
    ['\n'] }

/-- mirrors detectionmodules/countmodule/countmodule.cpp:223-339 -/
def test (cfg : CountConfig) (store : CountStore) (outfile : List Char) : Option TestState := do
  let m := m.setNames "Countmodule".toList "threshold detection".toList
  let t := m.start outfile
  let t ← m.reportTable cfg.countPerSrcIp (m.reportIp .createSourceNode) "per source IP address:"
    (store.srcIpCounts.iterate IpAddress.lt) t
  let t ← m.reportTable cfg.countPerDstIp
    (m.reportIp .createTargetNode) "per destination IP address:"
    (store.dstIpCounts.iterate IpAddress.lt) t
  let t ← m.reportTable cfg.countPerSrcPort (m.reportPort .Source) "per source protocol.port:"
    (store.srcPortCounts.iterate fun x y => x < y) t
  let t ← m.reportTable cfg.countPerDstPort (m.reportPort .Target) "per destination protocol.port:"
    (store.dstPortCounts.iterate fun x y => x < y) t
  some
    { t with outfile := t.outfile ++ "********************* End ***********************\n".toList }

/-! ## What is sent -/

section Sent

variable {m : CountModule} {t : TestState}

/-- The counts and the rates of an entry, with 32 bits for a rate. -/
def observed (m : CountModule) (c : Counters) : Observed :=
  ⟨some (dec c.octetCount.toNat), some (dec c.packetCount.toNat), some (dec c.flowCount.toNat),
    some (dec (c.octetCount.toNat / m.alarm.toNat % 2 ^ 32)),
    some (dec (c.packetCount.toNat / m.alarm.toNat % 2 ^ 32))⟩

/-- What the messages report that were sent so far. -/
def reports (t : TestState) : List Report := t.sent.map (·.2.report)

theorem rate_eq (h : 0 < m.alarm) (count : UInt64) :
    ∃ r, m.rate count = some r ∧ r.toNat = count.toNat / m.alarm.toNat % 2 ^ 32 := by
  refine ⟨_, if_neg (UInt32.pos_iff_ne_zero.mp h), ?_⟩
  simp

theorem dec_ne_null (n : Nat) : dec n ≠ IdmefMessage.null := fun h =>
  not_mem_dec (c := 'N') (n := n) rfl (h ▸ by decide)

@[simp] theorem contentOf_dec (n : Nat) : IdmefMessage.contentOf (dec n) = dec n :=
    if_pos (dec_ne_null n)

@[simp] theorem contentOf_toString (ip : IpAddress) :
    IdmefMessage.contentOf ip.toString = ip.toString := by
  refine if_pos fun h => ?_
  have hdot : '.' ∈ IdmefMessage.null := h ▸ by simp [IpAddress.toString]
  exact absurd hdot (by decide)

/-- A step of a test that sends one message, with this report. -/
def Sends (f : TestState → Option TestState) (r : Report) : Prop :=
  ∀ t, ∃ t', f t = some t' ∧ reports t' = reports t ++ [r]

theorem sendCounts_form (h : 0 < m.alarm) (c : Counters) {o : IdmefMessage.Origin}
    {source target : XmlNode}
    (hs : source.name = .Source) (ht : target.name = .Target) (hus : IdmefMessage.Unobserved source)
    (hut : IdmefMessage.Unobserved target)
    (hm : t.idmefMessage = .form o source target IdmefMessage.noData) :
    ∃ t', m.sendCounts c t = some t' ∧ reports t' = reports t ++
      [⟨IdmefMessage.endpointOf source, IdmefMessage.endpointOf target, m.observed c⟩] := by
  obtain ⟨octetRate, hoctet, hor⟩ := rate_eq h c.octetCount
  obtain ⟨packetRate, hpacket, hpr⟩ := rate_eq h c.packetCount
  obtain ⟨t', ht'⟩ : ∃ t', m.sendCounts c t = some t' := by simp [sendCounts, hoctet, hpacket]
  refine ⟨t', ht', ?_⟩
  simp only [sendCounts, hoctet, hpacket, Option.bind_eq_bind, Option.bind_some,
    Option.some.injEq] at ht'
  rw [← ht', hm, IdmefMessage.createExtStatisticsNode_form o hus hut]
  simp [reports, sendIdmefMessage, IdmefMessage.report_form o hs ht, observed, hor, hpr]

theorem reportIp_sends (h : 0 < m.alarm) (e : IpAddress × Counters)
    {createNode : IdmefMessage → List Char → List Char → List Char → List Char → IdmefMessage}
    {source target : XmlNode} (hs : source.name = .Source) (ht : target.name = .Target)
    (hus : IdmefMessage.Unobserved source) (hut : IdmefMessage.Unobserved target)
    (hm : createNode (getNewIdmefMessage m.origin) "no".toList "ipv4-addr".toList e.1.toString
      "255.255.255.255".toList = .form m.origin source target IdmefMessage.noData) :
    Sends (m.reportIp createNode e)
      ⟨IdmefMessage.endpointOf source, IdmefMessage.endpointOf target, m.observed e.2⟩ := by
  intro t
  obtain ⟨t', hsend, hreports⟩ := sendCounts_form h e.2
    (t := ⟨t.outfile ++ e.1.toString ++ countsText e.2, t.streams,
      createNode (getNewIdmefMessage m.origin) "no".toList "ipv4-addr".toList e.1.toString
        "255.255.255.255".toList, t.sent⟩)
    hs ht hus hut hm
  exact ⟨t', hsend, by simpa only [reports] using hreports⟩

theorem reportIp_source (h : 0 < m.alarm) (e : IpAddress × Counters) :
    Sends (m.reportIp .createSourceNode e)
      ⟨⟨some e.1.toString, none, none⟩, ⟨none, none, none⟩, m.observed e.2⟩ := by
  have hsends := @reportIp_sends m h e .createSourceNode _ _ rfl rfl
    (IdmefMessage.unobserved_endNode (.inl rfl) _ _ _ _ _)
      (IdmefMessage.unobserved_noEnd (.inr rfl))
    (IdmefMessage.createSourceNode_new m.origin _ _ _ _)
  simpa using hsends

theorem reportIp_target (h : 0 < m.alarm) (e : IpAddress × Counters) :
    Sends (m.reportIp .createTargetNode e)
      ⟨⟨none, none, none⟩, ⟨some e.1.toString, none, none⟩, m.observed e.2⟩ := by
  have hsends := @reportIp_sends m h e .createTargetNode _ _ rfl rfl
    (IdmefMessage.unobserved_noEnd (.inl rfl))
      (IdmefMessage.unobserved_endNode (.inr rfl) _ _ _ _ _)
    (IdmefMessage.createTargetNode_new m.origin _ _ _ _)
  simpa using hsends

/-- Whatever the streams held, the port's is empty, and the protocol's holds the protocol. -/
theorem reportPort_sends (h : 0 < m.alarm) (e : UInt32 × Counters) {nodeName : NodeName}
    {source target : XmlNode} (hs : source.name = .Source) (ht : target.name = .Target)
    (hus : IdmefMessage.Unobserved source) (hut : IdmefMessage.Unobserved target)
    (hm : (getNewIdmefMessage m.origin).createServiceNode nodeName [] [] []
      (dec (e.1 >>> 16).toNat) =
      .form m.origin source target IdmefMessage.noData) :
    Sends (m.reportPort nodeName e)
      ⟨IdmefMessage.endpointOf source, IdmefMessage.endpointOf target, m.observed e.2⟩ := by
  intro t
  generalize hmsg : (getNewIdmefMessage m.origin).createServiceNode nodeName [] [] []
    (dec (e.1 >>> 16).toNat) = msg at hm
  obtain ⟨t', hsend, hreports⟩ := sendCounts_form h e.2
    (t := ⟨t.outfile ++ dec (e.1 >>> 16).toNat ++ '.' :: dec (0x0000FFFF &&& e.1).toNat ++
      countsText e.2,
      { t.streams with portStr := [], protoStr := dec (e.1 >>> 16).toNat }, msg, t.sent⟩)
    hs ht hus hut hm
  refine ⟨t', ?_, by simpa only [reports] using hreports⟩
  simpa only [reportPort, List.nil_append, hmsg] using hsend

theorem reportPort_source (h : 0 < m.alarm) (e : UInt32 × Counters) :
    Sends (m.reportPort .Source e)
      ⟨⟨none, none, some (dec (e.1.toNat / 65536))⟩, ⟨none, none, none⟩, m.observed e.2⟩ := by
  have hsends := reportPort_sends h e rfl rfl
    (IdmefMessage.unobserved_serviceNode (.inl rfl) _ _) (IdmefMessage.unobserved_noEnd (.inr rfl))
    (IdmefMessage.createServiceNode_source m.origin _ _)
  simpa [dec_ne_nil, Nat.shiftRight_eq_div_pow] using hsends

theorem reportPort_target (h : 0 < m.alarm) (e : UInt32 × Counters) :
    Sends (m.reportPort .Target e)
      ⟨⟨none, none, none⟩, ⟨none, none, some (dec (e.1.toNat / 65536))⟩, m.observed e.2⟩ := by
  have hsends := reportPort_sends h e rfl rfl
    (IdmefMessage.unobserved_noEnd (.inl rfl)) (IdmefMessage.unobserved_serviceNode (.inr rfl) _ _)
    (IdmefMessage.createServiceNode_target m.origin _ _)
  simpa [dec_ne_nil, Nat.shiftRight_eq_div_pow] using hsends

/-- The entries of a table that are reported. -/
def reached {κ : Type} (m : CountModule) (enabled : Bool) (entries : List (κ × Counters)) :
    List (κ × Counters) :=
  if enabled then entries.filter fun e => m.checkThresholds e.2 else []

/-- A loop over a table sends one message for each entry that reaches a threshold. -/
theorem reportTable_reports {κ : Type} {report : κ × Counters → TestState → Option TestState}
    {r : κ × Counters → Report} (hr : ∀ e, Sends (report e) (r e)) (enabled : Bool)
    (heading : String) (entries : List (κ × Counters)) (t : TestState) :
    ∃ t', m.reportTable enabled report heading entries t = some t' ∧
      reports t' = reports t ++ (m.reached enabled entries).map r := by
  cases enabled with
  | false => exact ⟨t, rfl, by simp [reached]⟩
  | true =>
    simp only [reportTable, reached, if_true]
    generalize ht : ({ t with outfile := t.outfile ++ heading.toList ++ ['\n'] } : TestState) = t0
    have hsent : reports t = reports t0 := by rw [← ht]; rfl
    rw [hsent]
    clear ht hsent
    induction entries generalizing t0 with
    | nil => exact ⟨t0, rfl, by simp⟩
    | cons e entries ih =>
      rw [List.foldlM_cons]
      by_cases he : m.checkThresholds e.2 = true
      · obtain ⟨t1, hsend, hreports⟩ := hr e t0
        obtain ⟨t', hloop, ht'⟩ := ih t1
        refine ⟨t', by simpa [he, hsend] using hloop, ?_⟩
        simp [ht', hreports, he]
      · obtain ⟨t', hloop, ht'⟩ := ih t0
        refine ⟨t', by simpa [he] using hloop, ?_⟩
        simp [ht', he]

/-- One report for every entry that reaches a threshold, table by table. -/
def tableReports (m : CountModule) (cfg : CountConfig) (store : CountStore)
    (srcIp dstIp : IpAddress × Counters → Report) (srcPort dstPort : UInt32 × Counters → Report) :
    List Report :=
  (m.reached cfg.countPerSrcIp (store.srcIpCounts.iterate IpAddress.lt)).map srcIp ++
    (m.reached cfg.countPerDstIp (store.dstIpCounts.iterate IpAddress.lt)).map dstIp ++
    (m.reached cfg.countPerSrcPort (store.srcPortCounts.iterate fun x y => x < y)).map srcPort ++
    (m.reached cfg.countPerDstPort (store.dstPortCounts.iterate fun x y => x < y)).map dstPort

/-- What the messages of a test report. -/
theorem test_eq (h : 0 < m.alarm) (cfg : CountConfig) (store : CountStore) (outfile : List Char) :
    ∃ t, m.test cfg store outfile = some t ∧ reports t = m.tableReports cfg store
      (fun e => ⟨⟨some e.1.toString, none, none⟩, ⟨none, none, none⟩, m.observed e.2⟩)
      (fun e => ⟨⟨none, none, none⟩, ⟨some e.1.toString, none, none⟩, m.observed e.2⟩)
      (fun e => ⟨⟨none, none, some (dec (e.1.toNat / 65536))⟩, ⟨none, none, none⟩, m.observed e.2⟩)
      (fun e =>
        ⟨⟨none, none, none⟩, ⟨none, none, some (dec (e.1.toNat / 65536))⟩, m.observed e.2⟩) := by
  -- The names change nothing that the loops look at.
  have h' : 0 < (m.setNames "Countmodule".toList "threshold detection".toList).alarm := h
  generalize hm : m.setNames "Countmodule".toList "threshold detection".toList = m' at h'
  have hobserved : m'.observed = m.observed := hm ▸ rfl
  have hreached : ∀ {κ : Type}, m'.reached (κ := κ) = m.reached (κ := κ) := hm ▸ rfl
  have hstart : reports (m'.start outfile) = [] := rfl
  obtain ⟨t1, h1, hr1⟩ := reportTable_reports (m := m') (reportIp_source h') cfg.countPerSrcIp
    "per source IP address:" (store.srcIpCounts.iterate IpAddress.lt) (m'.start outfile)
  obtain ⟨t2, h2, hr2⟩ := reportTable_reports (m := m') (reportIp_target h') cfg.countPerDstIp
    "per destination IP address:" (store.dstIpCounts.iterate IpAddress.lt) t1
  obtain ⟨t3, h3, hr3⟩ := reportTable_reports (m := m') (reportPort_source h') cfg.countPerSrcPort
    "per source protocol.port:" (store.srcPortCounts.iterate fun x y => x < y) t2
  obtain ⟨t4, h4, hr4⟩ := reportTable_reports (m := m') (reportPort_target h') cfg.countPerDstPort
    "per destination protocol.port:" (store.dstPortCounts.iterate fun x y => x < y) t3
  have htest : m.test cfg store outfile =
      some { t4 with outfile := t4.outfile ++
          "********************* End ***********************\n".toList } := by
    simp only [test, hm, h1, h2, h3, h4, Option.bind_eq_bind, Option.bind_some]
  have hend : reports { t4 with
      outfile := t4.outfile ++ "********************* End ***********************\n".toList } =
        reports t4 := rfl
  refine ⟨_, htest, ?_⟩
  rw [hend, hr4, hr3, hr2, hr1, hstart, List.nil_append, hobserved, hreached, hreached]
  rfl

theorem mem_reached {κ : Type} {enabled : Bool} {entries : List (κ × Counters)} {e : κ × Counters} :
    e ∈ m.reached enabled entries ↔ enabled = true ∧ e ∈ entries ∧
    m.checkThresholds e.2 = true := by
  cases enabled <;> simp [reached]

/-- Two ways to report the same entries agree exactly if they do for every entry. -/
theorem tableReports_inj {cfg : CountConfig} {store : CountStore}
    {srcIp dstIp srcIp' dstIp' : IpAddress × Counters → Report}
    {srcPort dstPort srcPort' dstPort' : UInt32 × Counters → Report} :
    m.tableReports cfg store srcIp dstIp srcPort dstPort =
        m.tableReports cfg store srcIp' dstIp' srcPort' dstPort' ↔
      (∀ e ∈ m.reached cfg.countPerSrcIp (store.srcIpCounts.iterate IpAddress.lt),
        srcIp e = srcIp' e) ∧
      (∀ e ∈ m.reached cfg.countPerDstIp (store.dstIpCounts.iterate IpAddress.lt),
        dstIp e = dstIp' e) ∧
      (∀ e ∈ m.reached cfg.countPerSrcPort (store.srcPortCounts.iterate fun x y => x < y),
        srcPort e = srcPort' e) ∧
      ∀ e ∈ m.reached cfg.countPerDstPort (store.dstPortCounts.iterate fun x y => x < y),
        dstPort e = dstPort' e := by
  unfold tableReports
  refine ⟨fun h => ?_, fun ⟨h1, h2, h3, h4⟩ => ?_⟩
  · obtain ⟨h, h4⟩ := List.append_inj h (by simp)
    obtain ⟨h, h3⟩ := List.append_inj h (by simp)
    obtain ⟨h1, h2⟩ := List.append_inj h (by simp)
    exact ⟨List.map_inj_left.mp h1, List.map_inj_left.mp h2, List.map_inj_left.mp h3,
      List.map_inj_left.mp h4⟩
  · rw [List.map_inj_left.mpr h1, List.map_inj_left.mpr h2, List.map_inj_left.mpr h3,
      List.map_inj_left.mpr h4]

end Sent

/-! ## What should be sent -/

/-- The counts and the rates of an entry. -/
def ownObserved (c : Counters) : Observed :=
  ⟨some (dec c.octetCount.toNat), some (dec c.packetCount.toNat), some (dec c.flowCount.toNat),
    some (dec (c.octetCount.toNat / m.alarm.toNat)),
      some (dec (c.packetCount.toNat / m.alarm.toNat))⟩

def address (ip : IpAddress) : Endpoint := ⟨some ip.toString, none, none⟩

/-- The port is in the lower half of a key, and the protocol in the upper one. -/
def service (key : UInt32) : Endpoint :=
  ⟨none, some (dec (key.toNat % 65536)), some (dec (key.toNat / 65536))⟩

def unknown : Endpoint := ⟨none, none, none⟩

/-- The test sends one report for each entry of an enabled table that reaches a threshold, in the
order of the tables, with the entry's own key, counts and rates. -/
def Reports (cfg : CountConfig) (store : CountStore) (outfile : List Char) : Prop :=
  ∃ t, m.test cfg store outfile = some t ∧ reports t = m.tableReports cfg store
    (fun e => ⟨address e.1, unknown, m.ownObserved e.2⟩)
      (fun e => ⟨unknown, address e.1, m.ownObserved e.2⟩)
    (fun e => ⟨service e.1, unknown, m.ownObserved e.2⟩)
      (fun e => ⟨unknown, service e.1, m.ownObserved e.2⟩)

/-- The rates of an entry need no more than 32 bits. -/
def RatesFit (c : Counters) : Prop :=
  c.octetCount.toNat / m.alarm.toNat < 2 ^ 32 ∧ c.packetCount.toNat / m.alarm.toNat < 2 ^ 32

/-- What an enabled address table has to hold. -/
def AddressesFit (enabled : Bool) (countmap : CountMap IpAddress) : Prop :=
  enabled = true → ∀ ip c, countmap.find ip = some c → m.checkThresholds c = true → m.RatesFit c

/-- No entry of an enabled port table reaches a threshold. -/
def Silent (enabled : Bool) (countmap : CountMap UInt32) : Prop :=
  enabled = true → ∀ key c, countmap.find key = some c → m.checkThresholds c = false

section Result

variable {m}

theorem observed_eq_iff {c : Counters} : m.observed c = m.ownObserved c ↔ m.RatesFit c := by
  have hdec : ∀ a b : Nat, dec a = dec b ↔ a = b := fun a b =>
    ⟨fun h => by simpa using congrArg (Nat.ofDigitChars 10 · 0) h, fun h => h ▸ rfl⟩
  simp only [observed, ownObserved, Observed.mk.injEq, Option.some.injEq, hdec, true_and, RatesFit]
  rw [Nat.mod_eq_iff_lt (by decide), Nat.mod_eq_iff_lt (by decide)]

theorem addressesFit_iff {enabled : Bool} {countmap : CountMap IpAddress} :
    (∀ e ∈ m.reached enabled (countmap.iterate IpAddress.lt), m.observed e.2 = m.ownObserved e.2) ↔
      m.AddressesFit enabled countmap := by
  simp only [mem_reached, Prod.forall, CountMap.mem_iterate, observed_eq_iff, AddressesFit, and_imp]
  exact ⟨fun h he ip c => h ip c he, fun h ip c he => h he ip c⟩

theorem silent_iff {enabled : Bool} {countmap : CountMap UInt32} :
    (∀ e ∈ m.reached enabled (countmap.iterate fun x y => x < y), False) ↔
    m.Silent enabled countmap := by
  simp only [mem_reached, Prod.forall, CountMap.mem_iterate, Silent, imp_false]
  refine ⟨fun h he key c hfind => ?_, fun h key c => ?_⟩
  · exact Bool.eq_false_iff.mpr fun ht => h key c ⟨he, hfind, ht⟩
  · intro hreported
    obtain ⟨he, hfind, ht⟩ := hreported
    exact absurd ht (Bool.eq_false_iff.mp (h he key c hfind))

/-- The reports are right exactly if no port is reported, and the rates of the addresses that are
need no more than 32 bits. -/
theorem reports_iff {m : CountModule} (h : 0 < m.alarm) (cfg : CountConfig) (store : CountStore)
    (outfile : List Char) :
    m.Reports cfg store outfile ↔
      m.AddressesFit cfg.countPerSrcIp store.srcIpCounts ∧
      m.AddressesFit cfg.countPerDstIp store.dstIpCounts ∧
        m.Silent cfg.countPerSrcPort store.srcPortCounts ∧
        m.Silent cfg.countPerDstPort store.dstPortCounts := by
  obtain ⟨t, ht, hreports⟩ := test_eq h cfg store outfile
  have hsame : m.Reports cfg store outfile ↔ reports t = _ :=
    ⟨fun ⟨t', ht', h⟩ => Option.some.inj (ht.symm.trans ht') ▸ h, fun h => ⟨t, ht, h⟩⟩
  rw [hsame, hreports, tableReports_inj, ← addressesFit_iff, ← addressesFit_iff, ← silent_iff,
    ← silent_iff]
  simp [address, service, unknown]

/-- A source address that reaches the octet threshold, and a source port that reaches none. -/
theorem reports_iff_quietPort :
    (⟨1000, 5, 3, 10, ⟨[], [], [], []⟩⟩ : CountModule).Reports ⟨true, false, true, false, 8, 8⟩
      { CountStore.init with
        srcIpCounts := (∅ : CountMap IpAddress).insert ⟨10, 0, 0, 1⟩ ⟨5000, 2, 1⟩
        srcPortCounts := (∅ : CountMap UInt32).insert 0x00060050 ⟨999, 4, 2⟩ } [] := by
  refine (reports_iff (by decide) _ _ _).mpr
    ⟨fun _ ip c hfind _ => ?_, nofun, fun _ key c hfind => ?_, nofun⟩
  · simp only [CountMap.find_insert, CountMap.find_empty, Option.ite_none_right_eq_some,
      Option.some.injEq] at hfind
    rw [← hfind.2]
    simp [RatesFit]
  · simp only [CountMap.find_insert, CountMap.find_empty, Option.ite_none_right_eq_some,
      Option.some.injEq] at hfind
    rw [← hfind.2]
    rfl

/-- **Counterexample**: port 80 of protocol 6 reaches the packet threshold; its report has no port.
-/
theorem reports_not :
    ¬ ∀ (m : CountModule) (cfg : CountConfig) (store : CountStore) (outfile : List Char),
    0 < m.alarm → m.Reports cfg store outfile := by
  intro hall
  let m : CountModule := ⟨1000, 5, 3, 10, ⟨[], [], [], []⟩⟩
  let cfg : CountConfig := ⟨false, false, true, false, 8, 8⟩
  let store :=
    { CountStore.init with srcPortCounts := (∅ : CountMap UInt32).insert 0x00060050 ⟨400, 5, 1⟩ }
  obtain ⟨t, ht, hreports⟩ := hall m cfg store [] (by decide)
  obtain ⟨t', ht', hreports'⟩ := test_eq (m := m) (by decide) cfg store []
  obtain rfl : t' = t := Option.some.inj (ht'.symm.trans ht)
  have hport :=
    (tableReports_inj.mp (hreports'.symm.trans hreports)).2.2.1 (0x00060050, ⟨400, 5, 1⟩)
    (mem_reached.mpr
      ⟨rfl, CountMap.mem_iterate.mpr ((CountMap.find_insert _ _ _ _).trans (if_pos rfl)), rfl⟩)
  simp [service] at hport

end Result

end CountModule

end Topas
