import Topas.L4Module.Callbacks
import Topas.L7Stat.OfflineFile

/-!
# The key of the end points, online and offline

The components that are not in `endpoint_key` are 0 in the end points that are counted.
Offline `operator>>` sets them to 0. Online nothing does: `Stat::init` subscribes to the fields of
the components in the key and to those that the metrics need, and what a record does not hand
over stays 0. A reader that subscribes to nothing is handed everything, however.
-/
namespace Topas.Wkp

open IpfixTypeId

namespace Metric

/-! mirrors detectionmodules/statmodules/wkp-module/stat-main.cpp:108-133 -/

def requiresBytes : Metric → Bool
  | .bytesIn | .bytesOut | .bytesInPerPacketIn | .bytesOutPerPacketOut | .bytesInPerRecordIn
  | .bytesOutPerRecordOut | .bytesOutMinusBytesIn | .bytesInMinusBytesOut => true
  | _ => false

def requiresPackets : Metric → Bool
  | .packetsIn | .packetsOut | .bytesInPerPacketIn | .bytesOutPerPacketOut | .packetsInPerRecordIn
  | .packetsOutPerRecordOut | .packetsOutMinusPacketsIn | .packetsInMinusPacketsOut => true
  | _ => false

end Metric

/-- The calls of `subscribeTypeId`.
mirrors detectionmodules/statmodules/wkp-module/stat-main.cpp:413-418,592-617 -/
def subscriptions (cfg : StoreConfig) (metrics : List Metric) : List Int :=
  metrics.flatMap (fun m =>
    (if m.requiresBytes then [octetDeltaCount] else []) ++
      (if m.requiresPackets then [packetDeltaCount] else [])) ++
  (if cfg.protocolMonitoring then [protocolIdentifier] else []) ++
  (if cfg.ipMonitoring then [sourceIPv4Address, destinationIPv4Address] else []) ++
  (if cfg.portMonitoring then [sourceTransportPort, destinationTransportPort] else [])

/-- The module's reader online. -/
def input (cfg : StoreConfig) (metrics : List Metric) : PacketReader :=
  ⟨subscriptions cfg metrics, true, fun _ => true⟩

/-- What the store is handed of a record. -/
def deliver (cfg : StoreConfig) (metrics : List Metric) (r : StatRecord) : StatRecord :=
  { r with fields := r.fields.filter fun f => (input cfg metrics).isIdInList f.id }

namespace StoreConfig

/-- The components that are not in the key are 0. -/
structure Aggregated (cfg : StoreConfig) (e : EndPoint) : Prop where
  ip : cfg.ipMonitoring = false → e.ipAddr = ⟨0, 0, 0, 0⟩
  port : cfg.portMonitoring = false → e.portNr = 0
  protocol : cfg.protocolMonitoring = false → e.protocolID = 0

/-- The key has a component, or some metric needs bytes or packets. -/
def Subscribes (cfg : StoreConfig) (metrics : List Metric) : Prop :=
  cfg.ipMonitoring = true ∨ cfg.portMonitoring = true ∨ cfg.protocolMonitoring = true ∨
    ∃ m ∈ metrics, m.requiresBytes = true ∨ m.requiresPackets = true

/-- The settings under which traffic is recorded as it comes. -/
def recorder (cfg : StoreConfig) : StoreConfig :=
  { cfg with
    netmask := 32
    ipMonitoring := true
    portMonitoring := true
    protocolMonitoring := true
    monitorEveryEndPoint := true }

end StoreConfig

/-! ## Which fields are handed over -/

variable {cfg : StoreConfig} {metrics : List Metric} {s t : StatStore} {f : DataField}

theorem mem_subscriptions {id : Int} : id ∈ subscriptions cfg metrics ↔
    (id = octetDeltaCount ∧ ∃ m ∈ metrics, m.requiresBytes = true) ∨
    (id = packetDeltaCount ∧ ∃ m ∈ metrics, m.requiresPackets = true) ∨
    (id = protocolIdentifier ∧ cfg.protocolMonitoring = true) ∨
    ((id = sourceIPv4Address ∨ id = destinationIPv4Address) ∧ cfg.ipMonitoring = true) ∨
    ((id = sourceTransportPort ∨ id = destinationTransportPort) ∧ cfg.portMonitoring = true) := by
  have hif : ∀ (b : Bool) (l : List Int), id ∈ (if b = true then l else []) ↔ id ∈ l ∧
      b = true := by
    intro b l
    cases b <;> simp
  simp only [subscriptions, List.mem_append, List.mem_flatMap, hif, List.mem_cons,
    List.not_mem_nil, or_false]
  grind

theorem subscriptions_ne_nil (h : cfg.Subscribes metrics) : subscriptions cfg metrics ≠ [] := by
  obtain ⟨id, hid⟩ : ∃ id, id ∈ subscriptions cfg metrics := by
    simp only [mem_subscriptions]
    rcases h with h | h | h | ⟨m, hm, h | h⟩
    · exact ⟨_, .inr (.inr (.inr (.inl ⟨.inl rfl, h⟩)))⟩
    · exact ⟨_, .inr (.inr (.inr (.inr ⟨.inl rfl, h⟩)))⟩
    · exact ⟨_, .inr (.inr (.inl ⟨rfl, h⟩))⟩
    · exact ⟨_, .inl ⟨rfl, m, hm, h⟩⟩
    · exact ⟨_, .inr (.inl ⟨rfl, m, hm, h⟩)⟩
  exact List.ne_nil_of_mem hid

theorem isIdInList_iff (h : cfg.Subscribes metrics) {id : Int} :
    (input cfg metrics).isIdInList id = true ↔ id ∈ subscriptions cfg metrics := by
  simp [input, PacketReader.isIdInList, subscriptions_ne_nil h]

/-- Without a subscription everything is handed over. -/
theorem isIdInList_of_not_subscribes (h : ¬ cfg.Subscribes metrics) (id : Int) :
    (input cfg metrics).isIdInList id = true := by
  have hnil : subscriptions cfg metrics = [] := by
    simp only [StoreConfig.Subscribes, not_or, not_exists, not_and, Bool.not_eq_true] at h
    obtain ⟨hip, hport, hprotocol, hmetrics⟩ := h
    refine List.eq_nil_iff_forall_not_mem.mpr fun id hid => ?_
    simp only [mem_subscriptions, hip, hport, hprotocol] at hid
    grind
  simp [input, PacketReader.isIdInList, hnil]

/-! ## A record, aggregated or not -/

/-- What is left of a record under a coarser key. -/
def StoreConfig.coarsen (cfg : StoreConfig) (o : Observation) : Observation :=
  ⟨cfg.aggregate o.source, cfg.aggregate o.dest, o.packets, o.bytes⟩

namespace StoreConfig

theorem aggregate_ip (e : EndPoint) (ip : IpAddress) :
    cfg.aggregate { e with ipAddr := ip } =
      if cfg.ipMonitoring then { cfg.aggregate e with ipAddr := ip.remanentMask cfg.netmask }
      else cfg.aggregate e := by
  cases h : cfg.ipMonitoring <;> simp [aggregate, h]

theorem aggregate_port (e : EndPoint) (port : Int32) :
    cfg.aggregate { e with portNr := port } =
      if cfg.portMonitoring then { cfg.aggregate e with portNr := port } else cfg.aggregate e := by
  cases h : cfg.portMonitoring <;> simp [aggregate, h]

theorem aggregate_protocol (e : EndPoint) (protocol : Int32) :
    cfg.aggregate { e with protocolID := protocol } =
      if cfg.protocolMonitoring then { cfg.aggregate e with protocolID := protocol }
      else cfg.aggregate e := by
  cases h : cfg.protocolMonitoring <;> simp [aggregate, h]

end StoreConfig

namespace StatStore

open StoreConfig

/-- A counter is read the same under any key. -/
theorem addFieldData_counter (hid : f.id = octetDeltaCount ∨ f.id = packetDeltaCount) :
    (∃ n, ∀ cfg (s : StatStore), s.addFieldData cfg f = { s with packetNb := n }) ∨
      (∃ n, ∀ cfg (s : StatStore), s.addFieldData cfg f = { s with byteNb := n }) ∨
      ∀ cfg (s : StatStore), s.addFieldData cfg f = s := by
  rcases hid with hid | hid
  all_goals
    simp only [addFieldData, hid, octetDeltaCount, packetDeltaCount, protocolIdentifier,
      sourceIPv4Address,
      destinationIPv4Address, sourceTransportPort, destinationTransportPort, Int.reduceEq,
        if_true, if_false]
    split
  · exact .inr (.inl ⟨_, fun _ _ => rfl⟩)
  · exact .inr (.inr fun _ _ => rfl)
  · exact .inl ⟨_, fun _ _ => rfl⟩
  · exact .inr (.inr fun _ _ => rfl)

/-- A field to which both subscribe. -/
theorem addFieldData_subscribed (hid : f.id ∈ subscriptions cfg metrics)
    (h : s.observation = cfg.coarsen t.observation) :
    (s.addFieldData cfg f).observation = cfg.coarsen
    (t.addFieldData cfg.recorder f).observation := by
  simp only [observation, coarsen, Observation.mk.injEq] at h
  obtain ⟨hs, hd, hp, hb⟩ := h
  have hmask : cfg.recorder.netmask = 32 := rfl
  have hcounter : f.id = octetDeltaCount ∨ f.id = packetDeltaCount →
      (s.addFieldData cfg f).observation = cfg.coarsen
          (t.addFieldData cfg.recorder f).observation := by
    intro hid
    rcases addFieldData_counter hid with ⟨n, hn⟩ | ⟨n, hn⟩ | hsame
    · simp only [hn, observation, coarsen, hs, hd, hb]
    · simp only [hn, observation, coarsen, hs, hd, hp]
    · simp only [hsame, observation, coarsen, hs, hd, hp, hb]
  rcases mem_subscriptions.mp hid with ⟨hid, -⟩ | ⟨hid, -⟩ | ⟨hid, hkey⟩ | ⟨hid | hid, hkey⟩ |
    ⟨hid | hid, hkey⟩
  · exact hcounter (.inl hid)
  · exact hcounter (.inr hid)
  all_goals
    simp only [addFieldData, hid, protocolIdentifier, sourceIPv4Address, destinationIPv4Address,
      sourceTransportPort, destinationTransportPort, Int.reduceEq, if_true, if_false]
    split <;> simp only [observation, coarsen, hs, hd, hp, hb]
  -- the components of the key
  · simp only [aggregate_protocol, if_pos hkey]
  · simp only [aggregate_ip, if_pos hkey, hmask, remanentMask_all]
  · simp only [aggregate_ip, if_pos hkey, hmask, remanentMask_all]
  · simp only [aggregate_port, if_pos hkey]
  · simp only [aggregate_port, if_pos hkey]

/-- A field that only the recorder takes is of a component that is not in the key. -/
theorem addFieldData_unsubscribed (hid : f.id ∉ subscriptions cfg metrics)
    (hrec : f.id ∈ subscriptions cfg.recorder metrics) :
    cfg.coarsen (t.addFieldData cfg.recorder f).observation = cfg.coarsen t.observation := by
  simp only [mem_subscriptions, not_or, not_and] at hid
  obtain ⟨hbytes, hpackets, hprotocol, hip, hport⟩ := hid
  rcases mem_subscriptions.mp hrec with ⟨hid, hm⟩ | ⟨hid, hm⟩ | ⟨hid, -⟩ | ⟨hid | hid, -⟩ |
    ⟨hid | hid, -⟩
  · exact absurd hm (hbytes hid)
  · exact absurd hm (hpackets hid)
  all_goals
    simp only [addFieldData, hid, protocolIdentifier, sourceIPv4Address, destinationIPv4Address,
      sourceTransportPort, destinationTransportPort, Int.reduceEq, if_true, if_false]
    split <;> simp only [observation, coarsen]
  · simp only [aggregate_protocol, if_neg (hprotocol hid)]
  · simp only [aggregate_ip, if_neg (hip (.inl hid))]
  · simp only [aggregate_ip, if_neg (hip (.inr hid))]
  · simp only [aggregate_port, if_neg (hport (.inl hid))]
  · simp only [aggregate_port, if_neg (hport (.inr hid))]

/-- What the recorder takes is at least what is taken under the key. -/
theorem subscriptions_recorder (hid : f.id ∈ subscriptions cfg metrics) :
    f.id ∈ subscriptions cfg.recorder metrics := by
  rcases mem_subscriptions.mp hid with h | h | ⟨h, -⟩ | ⟨h, -⟩ | ⟨h, -⟩
  · exact mem_subscriptions.mpr (.inl h)
  · exact mem_subscriptions.mpr (.inr (.inl h))
  · exact mem_subscriptions.mpr (.inr (.inr (.inl ⟨h, rfl⟩)))
  · exact mem_subscriptions.mpr (.inr (.inr (.inr (.inl ⟨h, rfl⟩))))
  · exact mem_subscriptions.mpr (.inr (.inr (.inr (.inr ⟨h, rfl⟩))))

theorem foldl_deliver (hsub : cfg.Subscribes metrics) (fields : DataRecord)
    (h : s.observation = cfg.coarsen t.observation) :
    ((fields.filter fun f => (input cfg metrics).isIdInList f.id).foldl
      (addFieldData cfg) s).observation =
      cfg.coarsen ((fields.filter fun f => (input cfg.recorder metrics).isIdInList f.id).foldl
        (addFieldData cfg.recorder) t).observation := by
  have hrec : cfg.recorder.Subscribes metrics := .inl rfl
  induction fields generalizing s t with
  | nil => exact h
  | cons f fields ih =>
    by_cases hid : f.id ∈ subscriptions cfg metrics
    · have hid' := subscriptions_recorder hid
      simp only [List.filter_cons, (isIdInList_iff hsub).mpr hid,
        (isIdInList_iff hrec).mpr hid', if_true]
      exact ih (addFieldData_subscribed hid h)
    · have hnot := mt (isIdInList_iff hsub).mp hid
      by_cases hid' : f.id ∈ subscriptions cfg.recorder metrics
      · simp only [List.filter_cons, hnot, (isIdInList_iff hrec).mpr hid', if_true]
        exact ih (h.trans (addFieldData_unsubscribed hid hid').symm)
      · simp only [List.filter_cons, hnot, mt (isIdInList_iff hrec).mp hid']
        exact ih h

end StatStore

/-- A record under the key is the recorded one with the other components set to 0. -/
theorem observe_deliver (hsub : cfg.Subscribes metrics) (r : StatRecord) :
    (deliver cfg metrics r).observe cfg =
      ((deliver cfg.recorder metrics r).observe cfg.recorder).map cfg.coarsen := by
  unfold StatRecord.observe deliver
  cases r.beginMonitoring with
  | false => rfl
  | true =>
    have hzero : (StatStore.new []).observation = cfg.coarsen (StatStore.new []).observation := by
      simp [StatStore.observation, StatStore.new, StoreConfig.coarsen, StoreConfig.aggregate,
        EndPoint.zero,
        IpAddress.remanentMask]
    have := StatStore.foldl_deliver hsub r.fields hzero
    simp only [if_true, Option.map_some, this]

theorem aggregated_aggregate (cfg : StoreConfig) (e : EndPoint) :
    cfg.Aggregated (cfg.aggregate e) where
  ip h := by simp [StoreConfig.aggregate, h]
  port h := by simp [StoreConfig.aggregate, h]
  protocol h := by simp [StoreConfig.aggregate, h]

theorem toInt_toInt32 {x : UInt32} (h : x.toNat < 2 ^ 31) : x.toInt32.toInt = x.toNat := by
  show x.toBitVec.toInt = _
  rw [BitVec.toInt_eq_toNat_of_lt (by rw [UInt32.toNat_toBitVec]; omega), UInt32.toNat_toBitVec]

/-- A port is a number of at most two octets. -/
theorem toInt_port {data : List UInt8} (h : data.length = 2 ∨ data.length = 1) :
    0 ≤ (fieldToInt data).toUInt32.toInt32.toInt ∧
    (fieldToInt data).toUInt32.toInt32.toInt ≤ 65535 := by
  have hlt : (fieldToInt data).toNat < 65536 := by
    match data, h with
    | [a], _ =>
      have := a.toNat_lt
      simp [fieldToInt]
      omega
    | [a, b], _ =>
      have := ntohs_lt a b
      simp only [fieldToInt, UInt64.toNat_ofNat']
      omega
  rw [toInt_toInt32 (by rw [UInt64.toNat_toUInt32]; omega), UInt64.toNat_toUInt32]
  omega

theorem EndPoint.Printable.read {e : EndPoint} (h : e.Printable) (address port : Int)
    (f : DataField) :
    (e.read cfg address port f).Printable := by
  have hprotocol : ∀ p : UInt8, 0 ≤ p.toUInt32.toInt32.toInt ∧ p.toUInt32.toInt32.toInt ≤ 255 := by
    intro p
    have := p.toNat_lt
    rw [toInt_toInt32 (by rw [UInt8.toNat_toUInt32]; omega), UInt8.toNat_toUInt32]
    omega
  refine ⟨?_, ?_⟩
  · unfold EndPoint.read portOf
    split
    · rename_i hlen
      exact toInt_port hlen.2
    · exact h.1
  · unfold EndPoint.read protocolOf
    dsimp only
    split
    · split
      · exact hprotocol _
      · exact h.2
    · exact h.2

theorem StatStore.printable_addFieldData (h : s.eSource.Printable ∧ s.eDest.Printable)
    (f : DataField) :
    (s.addFieldData cfg f).eSource.Printable ∧ (s.addFieldData cfg f).eDest.Printable := by
  rw [addFieldData_eq]
  exact ⟨h.1.read _ _ f, h.2.read _ _ f⟩

/-- What is recorded can be printed. -/
theorem printable_observe {r : StatRecord} {o : Observation} (h : r.observe cfg = some o) :
    o.source.Printable ∧ o.dest.Printable := by
  have hfields : ∀ (fields : DataRecord) (s : StatStore), s.eSource.Printable ∧ s.eDest.Printable →
      (fields.foldl (StatStore.addFieldData cfg) s).eSource.Printable ∧
        (fields.foldl (StatStore.addFieldData cfg) s).eDest.Printable := by
    intro fields
    induction fields with
    | nil => exact fun s hs => hs
    | cons f fields ih => exact fun s hs => ih _ (s.printable_addFieldData hs f)
  unfold StatRecord.observe at h
  split at h
  · cases h
    exact hfields r.fields (.new []) ⟨by decide, by decide⟩
  · cases h

/-! ## The maps of a run -/

/-- The stores of the intervals of a run, each with the list that the one before left. -/
def onlineStores (cfg : StoreConfig) (metrics : List Metric) :
    List EndPoint → List (List StatRecord) → List StatStore
  | _, [] => []
  | endPointList, records :: intervals =>
    let s := StatStore.interval cfg endPointList (records.map (deliver cfg metrics))
    s :: onlineStores cfg metrics s.endPointList intervals

/-- The maps that `Stat::test` is called with online. -/
def onlineMaps (cfg : StoreConfig) (metrics : List Metric) (intervals : List (List StatRecord)) :
    List Interval :=
  (onlineStores cfg metrics [] intervals).map StatStore.data

/-- What the records of an interval post. -/
def postingsOf (cfg : StoreConfig) (metrics : List Metric) (records : List StatRecord) :
    List Entry :=
  ((records.map (deliver cfg metrics)).filterMap (·.observe cfg)).flatMap Observation.postings

theorem postingsOf_aggregate (hsub : cfg.Subscribes metrics) (records : List StatRecord) :
    postingsOf cfg metrics records =
      (postingsOf cfg.recorder metrics records).map fun p => (cfg.aggregate p.1, p.2) := by
  induction records with
  | nil => rfl
  | cons r records ih =>
    simp only [postingsOf, List.map_cons, List.filterMap_cons, observe_deliver hsub] at ih ⊢
    cases (deliver cfg.recorder metrics r).observe cfg.recorder with
    | none => exact ih
    | some o =>
      simp only [Option.map_some, List.flatMap_cons, List.map_append, ih]
      rfl

theorem onlineStores_ledger {endPointList : List EndPoint}
    (h : StatStore.ListSound cfg endPointList) (intervals : List (List StatRecord)) :
    (onlineStores cfg metrics endPointList intervals).map StatStore.ledger =
      Ledger.runs cfg.monitors cfg.maxSize endPointList
      (intervals.map (postingsOf cfg metrics)) := by
  induction intervals generalizing endPointList with
  | nil => rfl
  | cons records intervals ih =>
    have hledger := StatStore.interval_ledger h (records.map (deliver cfg metrics))
    have hbalanced := StatStore.interval_balanced h (records.map (deliver cfg metrics))
    rw [onlineStores, List.map_cons, List.map_cons, Ledger.runs, postingsOf, ← hledger]
    exact congrArg (_ :: ·) (ih hbalanced.toAdmissible)

/-- With room for all end points, each map of a run has the totals of its own interval. -/
theorem onlineMaps_lookup (cfg : StoreConfig) (metrics : List Metric) {known : List EndPoint}
    (hroom : known.dedup.length ≤ cfg.maxSize)
    (intervals : List (List StatRecord))
    (hknown : ∀ records ∈ intervals, ∀ p ∈ postingsOf cfg metrics records, p.1 ∈ known) :
    List.Forall₂ (fun m records => ∀ e, m.lookup e = if cfg.monitors e then
        Ledger.total (postingsOf cfg metrics records) e else none)
      (onlineMaps cfg metrics intervals) intervals := by
  have hempty : StatStore.ListSound cfg [] := StatStore.listSound_listAfter cfg []
  have hruns :=
      Ledger.runs_lookup hempty (by simp) hroom (intervals.map (postingsOf cfg metrics)) (by
    intro ps hps e he
    obtain ⟨records, hrecords, rfl⟩ := List.mem_map.mp hps
    obtain ⟨p, hp, rfl⟩ := List.mem_map.mp he
    exact hknown records hrecords p hp)
  rw [← onlineStores_ledger hempty, List.forall₂_map_left_iff, List.forall₂_map_right_iff] at hruns
  rw [onlineMaps, List.forall₂_map_left_iff]
  exact hruns

/-- The end points of a run, as they come. -/
def endPointsOf (cfg : StoreConfig) (metrics : List Metric) (intervals : List (List StatRecord)) :
    List EndPoint :=
  intervals.flatMap fun records => (postingsOf cfg.recorder metrics records).map Prod.fst

theorem forall₂_comp {α β γ : Type} {R : α → β → Prop} {S : β → γ → Prop} {T : α → γ → Prop}
    (h : ∀ a b c, R a b → S b c → T a c) {as : List α} {bs : List β} {cs : List γ}
    (hR : List.Forall₂ R as bs) (hS : List.Forall₂ S bs cs) : List.Forall₂ T as cs := by
  induction hR generalizing cs with
  | nil =>
    cases hS
    exact .nil
  | cons hab _ ih =>
    cases hS with
    | cons hbc hS => exact .cons (h _ _ _ hab hbc) (ih hS)

/-- What a store has recorded is of the traffic, and can be printed. -/
theorem recorded {m : Interval} {records : List StatRecord}
    (h : ∀ e, m.lookup e = Ledger.total (postingsOf cfg metrics records) e) {p : Entry}
    (hp : p ∈ m.pairs) :
    p.1.Printable ∧ p.1 ∈ (postingsOf cfg metrics records).map Prod.fst := by
  have hposted : p.1 ∈ (postingsOf cfg metrics records).map Prod.fst := by
    by_contra hnot
    have hnone := h p.1
    rw [Ledger.total_eq_none.mpr (Ledger.amounts_eq_nil.mpr hnot), ← Ledger.total_postings,
      Ledger.total_eq_none, Ledger.amounts_eq_nil] at hnone
    exact hnone (List.mem_map_of_mem hp)
  refine ⟨?_, hposted⟩
  obtain ⟨q, hq, hqp⟩ := List.mem_map.mp hposted
  obtain ⟨o, ho, hq⟩ := List.mem_flatMap.mp hq
  obtain ⟨r, -, hr⟩ := List.mem_filterMap.mp ho
  obtain ⟨hsource, hdest⟩ := printable_observe hr
  rw [← hqp]
  rcases List.mem_cons.mp hq with rfl | hq
  · exact hsource
  · rw [List.mem_singleton.mp hq]
    exact hdest

/-- Distinct end points do not become more under a key. -/
theorem length_dedup_map_le (f : EndPoint → EndPoint) (es : List EndPoint) :
    (es.map f).dedup.length ≤ es.dedup.length := by
  have hmap : (es.map f).toFinset = es.toFinset.image f := by
    ext e
    simp
  rw [← List.card_toFinset, ← List.card_toFinset, hmap]
  exact Finset.card_image_le

/-- From a record of the traffic as it comes the reader builds the maps of the store. -/
theorem offline_maps (hsub : cfg.Subscribes metrics) (intervals : List (List StatRecord))
    (ms : List (Interval × Int32))
    (hroom : (endPointsOf cfg metrics intervals).dedup.length ≤ cfg.maxSize)
    (hms : ms.map Prod.fst = onlineMaps cfg.recorder metrics intervals) :
    ∃ read, StatStore.readFile cfg [] (.ofText (storefile ms)) = some read ∧
      List.Forall₂ (fun m n => ∀ e, m.lookup e = n.lookup e) read
      (onlineMaps cfg metrics intervals) := by
  have hposted : ∀ records ∈ intervals, ∀ p ∈ postingsOf cfg.recorder metrics records,
      p.1 ∈ endPointsOf cfg metrics intervals := fun records hrecords p hp =>
    List.mem_flatMap_of_mem hrecords (List.mem_map_of_mem hp)
  -- the recorder monitors everything, and has room
  have hrecorded : List.Forall₂ (fun m records => ∀ e, m.lookup e =
      Ledger.total (postingsOf cfg.recorder metrics records) e) (ms.map Prod.fst) intervals := by
    rw [hms]
    refine (onlineMaps_lookup cfg.recorder metrics hroom intervals hposted).imp
      fun m records h e => ?_
    have hall : cfg.recorder.monitors e = true :=
      by simp [StoreConfig.monitors, StoreConfig.recorder]
    rw [h e, if_pos hall]
  have hpairs : ∀ m ∈ ms.map Prod.fst, ∀ p ∈ m.pairs,
      p.1.Printable ∧ p.1 ∈ endPointsOf cfg metrics intervals := by
    intro m hm p hp
    obtain ⟨i, hi, rfl⟩ := List.getElem_of_mem hm
    have hi' : i < intervals.length := hrecorded.length_eq ▸ hi
    obtain ⟨hprint, hmem⟩ := recorded (hrecorded.get hi hi') hp
    exact ⟨hprint, List.mem_flatMap_of_mem (List.getElem_mem hi') hmem⟩
  have hroom' :
      ((endPointsOf cfg metrics intervals).map cfg.aggregate).dedup.length ≤ cfg.maxSize :=
    (length_dedup_map_le _ _).trans hroom
  have hread := StatStore.readStores_lookup hroom' (ms.map Prod.fst) fun m hm p hp =>
    List.mem_map_of_mem (hpairs m hm p hp).2
  have honline := onlineMaps_lookup cfg metrics hroom' intervals (by
    intro records hrecords p hp
    rw [postingsOf_aggregate hsub] at hp
    obtain ⟨q, hq, rfl⟩ := List.mem_map.mp hp
    exact List.mem_map_of_mem (hposted records hrecords q hq))
  refine ⟨_, StatStore.readFile_storefile [] ms fun m hm p hp => ?_, ?_⟩
  · exact (hpairs m.1 (List.mem_map_of_mem hm) p ((List.perm_insertionSort _ _).mem_iff.mp hp)).1
  · rw [List.forall₂_map_left_iff]
    -- both are the totals of the same postings
    have hoffline := forall₂_comp (T := fun (s : StatStore) records => ∀ e, s.data.lookup e =
      if cfg.monitors e then Ledger.total (postingsOf cfg metrics records) e else none)
      (fun s m records hs hm e => by
        rw [hs e, postingsOf_aggregate hsub]
        congr 1
        exact Ledger.total_map cfg.aggregate hm e) hread hrecorded
    exact forall₂_comp (fun s records n hs hn e => (hs e).trans (hn e).symm) hoffline honline.flip

/-- A record of nothing but a protocol. -/
def protocolRecord : StatRecord := ⟨true, [⟨protocolIdentifier, [6], 0⟩]⟩

/-- The components that are not in the key are 0 online, for every record; and from a file of the
same traffic, recorded as it comes, the reader builds the maps that the store builds online. -/
theorem aggregates_iff (cfg : StoreConfig) (metrics : List Metric) :
    ((∀ (r : StatRecord) (o : Observation), (deliver cfg metrics r).observe cfg = some o →
          cfg.Aggregated o.source ∧ cfg.Aggregated o.dest) ∧
      ∀ (intervals : List (List StatRecord)) (ms : List (Interval × Int32)),
        (endPointsOf cfg metrics intervals).dedup.length ≤ cfg.maxSize →
        ms.map Prod.fst = onlineMaps cfg.recorder metrics intervals →
        ∃ read, StatStore.readFile cfg [] (.ofText (storefile ms)) = some read ∧
          List.Forall₂ (fun m n => ∀ e, m.lookup e = n.lookup e) read
          (onlineMaps cfg metrics intervals)) ↔
    cfg.Subscribes metrics := by
  refine ⟨fun haggregated => ?_, fun hsub => ⟨fun r o ho => ?_, offline_maps hsub⟩⟩
  · by_contra hnot
    have hprotocol : cfg.protocolMonitoring = false := by
      simp only [StoreConfig.Subscribes, not_or, Bool.not_eq_true] at hnot
      exact hnot.2.2.1
    have hobs : (deliver cfg metrics protocolRecord).observe cfg =
        some ⟨⟨⟨0, 0, 0, 0⟩, 0, 6⟩, ⟨⟨0, 0, 0, 0⟩, 0, 6⟩, 0, 0⟩ := by
      simp only [deliver, protocolRecord, List.filter_cons, isIdInList_of_not_subscribes hnot]
      rfl
    have := (haggregated.1 _ _ hobs).1.protocol hprotocol
    cases this
  · rw [observe_deliver hsub] at ho
    obtain ⟨o', -, rfl⟩ := Option.map_eq_some_iff.mp ho
    exact ⟨aggregated_aggregate cfg o'.source, aggregated_aggregate cfg o'.dest⟩

/-- No `endpoint_key`, all traffic at 0.0.0.0:0|0. -/
def noKey : StoreConfig :=
  { oneNetwork with ipMonitoring := false, netmask := 32, endPointListMaxSize := 500 }

/-- With `records_in` as the only metric the store is handed everything, and counts a connection
under its own addresses, ports and protocol; the reader would take these for 0. -/
theorem noKey_not_aggregated :
    let r : StatRecord :=
      ⟨true, [⟨sourceIPv4Address, [10, 0, 0, 1], 0⟩, ⟨sourceTransportPort, [4, 0], 0⟩,
      ⟨destinationIPv4Address, [10, 0, 0, 2], 0⟩, ⟨destinationTransportPort, [80], 0⟩,
      ⟨protocolIdentifier, [6], 0⟩]⟩
    let source : EndPoint := ⟨⟨10, 0, 0, 1⟩, 1024, 6⟩
    (deliver noKey [.recordsIn] r).observe noKey = some ⟨source, ⟨⟨10, 0, 0, 2⟩, 80, 6⟩, 0, 0⟩ ∧
      ¬ noKey.Aggregated source ∧ noKey.aggregate source = .zero ∧
      (StatStore.interval noKey [] [deliver noKey [.recordsIn] r]).endPointList =
        [source, ⟨⟨10, 0, 0, 2⟩, 80, 6⟩] := by
  intro r source
  refine ⟨by decide, fun h => ?_, by decide, by decide⟩
  have := h.protocol rfl
  cases this

end Topas.Wkp
