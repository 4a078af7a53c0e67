import Topas.Core.Machine
import Topas.L7Stat.StatStore

/-!
# Records with a field that cannot be used

`addFieldData` says "Skipping record." of a field whose length it does not support, and returns;
`recordEnd` does not know of it.

* `source_eq`, `dest_eq`: the end points of a record are those of its other fields, the last one of
  each kind, with zeros for what is missing.
* `skipped_iff`: so a record leaves the store as it is exactly if neither end point is counted.
-/
namespace Topas.Wkp

open IpfixTypeId

attribute [ext] EndPoint

/-! ## Fields -/

/-- The lengths that `addFieldData` does not refuse.
mirrors detectionmodules/statmodules/wkp-module/stat-store.cpp:68-161 -/
def Supported (f : DataField) : Prop :=
  if f.id = protocolIdentifier then f.fieldData.length = 1
  else if f.id = sourceIPv4Address ∨ f.id = destinationIPv4Address then f.fieldData.length = 4
  else if f.id = sourceTransportPort ∨ f.id = destinationTransportPort then
    f.fieldData.length = 2 ∨ f.fieldData.length = 1
  else if f.id = packetDeltaCount ∨ f.id = octetDeltaCount then f.fieldData.length = 8
  else True

instance : DecidablePred Supported := fun f => by unfold Supported; infer_instance

/-- The last one of a kind, or the zero of `recordStart`. -/
def lastOf {α : Type} (kind : DataField → Option α) (zero : α) (fields : DataRecord) : α :=
  (fields.filterMap kind).getLast?.getD zero

/-- The end point of these fields that can be used. -/
def endPointOf (cfg : StoreConfig) (address port : Int) (fields : DataRecord) : EndPoint :=
  ⟨lastOf (fun f => (addressOf address f).map (·.remanentMask cfg.netmask)) ⟨0, 0, 0, 0⟩ fields,
    lastOf (portOf port) 0 fields, lastOf protocolOf 0 fields⟩

/-- The source and the destination of these fields. -/
def sourceOf (cfg : StoreConfig) (fields : DataRecord) : EndPoint :=
  endPointOf cfg sourceIPv4Address sourceTransportPort fields

def destOf (cfg : StoreConfig) (fields : DataRecord) : EndPoint :=
  endPointOf cfg destinationIPv4Address destinationTransportPort fields

namespace StatStore

/-- The field is refused, and that is all. -/
theorem addFieldData_unsupported (cfg : StoreConfig) (s : StatStore) {f : DataField}
    (h : ¬ Supported f) :
    s.addFieldData cfg f = s := by
  have hprotocol : protocolOf f = none := by
    unfold protocolOf
    split
    · rename_i hdata
      exact if_neg fun hid => h (by simp [Supported, hid, hdata])
    · rfl
  have haddress : ∀ id, id = sourceIPv4Address ∨ id = destinationIPv4Address →
      addressOf id f = none := by
    intro id hkind
    unfold addressOf
    split
    · rename_i hdata
      exact if_neg fun hid => h (by rcases hkind with rfl | rfl <;> simp [Supported, hid, hdata])
    · rfl
  have hport : ∀ id, id = sourceTransportPort ∨ id = destinationTransportPort →
      portOf id f = none := by
    intro id hkind
    refine if_neg ?_
    intro htaken
    obtain ⟨hid, hlen⟩ := htaken
    refine h ?_
    rcases hkind with rfl | rfl <;> simp [Supported, hid, hlen]
  have hcounter : ∀ id, id = packetDeltaCount ∨ id = octetDeltaCount → counterOf id f = none := by
    intro id hkind
    unfold counterOf
    split
    · rename_i hdata
      exact if_neg fun hid => h (by rcases hkind with rfl | rfl <;> simp [Supported, hid, hdata])
    · rfl
  rw [addFieldData_eq]
  simp only [EndPoint.read, hprotocol, haddress _ (.inl rfl), haddress _ (.inr rfl),
    hport _ (.inl rfl),
    hport _ (.inr rfl), hcounter _ (.inl rfl), hcounter _ (.inr rfl), Option.map_none,
      Option.getD_none]

section Records

variable {cfg : StoreConfig} {s : StatStore} {fields : DataRecord}

/-- The last field of each kind decides. -/
theorem endPoint_eq (address port : Int) (g : StatStore → EndPoint)
    (hread : ∀ s f, g (s.addFieldData cfg f) = (g s).read cfg address port f) (h : g s = .zero) :
    g (fields.foldl (addFieldData cfg) s) = endPointOf cfg address port fields := by
  have hip := Machine.foldl_last (g := fun s : StatStore => (g s).ipAddr)
    (fun s f => congrArg EndPoint.ipAddr (hread s f)) s fields
  have hport := Machine.foldl_last (g := fun s : StatStore => (g s).portNr)
    (fun s f => congrArg EndPoint.portNr (hread s f)) s fields
  have hprotocol := Machine.foldl_last (g := fun s : StatStore => (g s).protocolID)
    (fun s f => congrArg EndPoint.protocolID (hread s f)) s fields
  rw [h] at hip hport hprotocol
  exact EndPoint.ext hip hport hprotocol

theorem source_eq (h : s.eSource = .zero) :
    (fields.foldl (addFieldData cfg) s).eSource = sourceOf cfg fields :=
  endPoint_eq sourceIPv4Address sourceTransportPort eSource (fun s f => by rw [addFieldData_eq]) h

theorem dest_eq (h : s.eDest = .zero) :
    (fields.foldl (addFieldData cfg) s).eDest = destOf cfg fields :=
  endPoint_eq destinationIPv4Address destinationTransportPort eDest
    (fun s f => by rw [addFieldData_eq]) h

/-! ## What is counted -/

/-- The filter lets the end point through, and it is on the list or there is room for it. -/
def Counts (cfg : StoreConfig) (s : StatStore) (e : EndPoint) : Prop :=
  cfg.monitors e = true ∧ (e ∈ s.endPointList ∨ s.endPointList.length < cfg.maxSize)

instance (e : EndPoint) : Decidable (Counts cfg s e) :=
  inferInstanceAs
    (Decidable (cfg.monitors e = true ∧ (e ∈ s.endPointList ∨ s.endPointList.length < cfg.maxSize)))

/-- The interval's map and the list are the same. -/
structure Unchanged (s s' : StatStore) : Prop where
  data : ∀ e, s'.data.lookup e = s.data.lookup e
  endPointList : s'.endPointList = s.endPointList

variable {e : EndPoint} {add : Info → Info} {newinfo : Info}

theorem account_not_counts (h : ¬ Counts cfg s e) : s.account cfg e add newinfo = s := by
  unfold account
  split
  · rename_i hmon
    rw [if_neg fun hlisted => h ⟨hmon, .inl hlisted⟩, if_neg fun hroom => h ⟨hmon, .inr hroom⟩]
  · rfl

/-- A counter that is incremented for a listed end point tells that it was. -/
theorem account_counts (c : Info → UInt64) (h : Counts cfg s e) (hadd : ∀ i, c (add i) = c i + 1)
    (newinfo : Info) :
    s.endPointList.length < (s.account cfg e add newinfo).endPointList.length ∨
      ∃ info, (s.account cfg e add newinfo).data.lookup e = some info ∧
        ∀ old, s.data.lookup e = some old → c old ≠ c info := by
  have hne : ∀ x : UInt64, x ≠ x + 1 := fun x => by simp
  unfold account
  rw [if_pos h.1]
  by_cases hlisted : e ∈ s.endPointList
  · rw [if_pos hlisted]
    right
    cases hlookup : s.data.lookup e with
    | some info =>
      refine ⟨add info, AList.lookup_insert _, fun old hold => ?_⟩
      cases hold
      rw [hadd]
      exact hne _
    | none => exact ⟨add .zero, AList.lookup_insert _, fun old hold => nomatch hold⟩
  · left
    rw [if_neg hlisted, if_pos (h.2.resolve_left hlisted)]
    simp

/-- The other counters are kept, and no end point is taken off the list. -/
theorem account_keeps (cfg : StoreConfig) (s : StatStore) (e : EndPoint) (c : Info → UInt64)
    (hadd : ∀ i, c (add i) = c i) (newinfo : Info) :
    s.endPointList.length ≤ (s.account cfg e add newinfo).endPointList.length ∧
      ∀ e' info, s.data.lookup e' = some info →
        ∃ info', (s.account cfg e add newinfo).data.lookup e' = some info' ∧ c info' = c info := by
  unfold account
  split
  · split
    · cases hlookup : s.data.lookup e with
      | some info =>
        refine ⟨Nat.le_refl _, fun e' old hold => ?_⟩
        by_cases he : e' = e
        · subst he
          cases hlookup.symm.trans hold
          exact ⟨add info, AList.lookup_insert _, hadd info⟩
        · exact ⟨old, (AList.lookup_insert_ne he).trans hold, rfl⟩
      | none =>
        refine ⟨Nat.le_refl _, fun e' old hold => ?_⟩
        have he : e' ≠ e := fun he => by
          rw [he, hlookup] at hold
          cases hold
        exact ⟨old, (AList.lookup_insert_ne he).trans hold, rfl⟩
    · split
      · refine ⟨by simp, fun e' old hold => ?_⟩
        show ∃ info',
          (if (s.data.lookup e).isSome then s.data else s.data.insert e newinfo).lookup e' =
          some info' ∧ _
        split
        · exact ⟨old, hold, rfl⟩
        · rename_i hnone
          have he : e' ≠ e := fun he => hnone (by rw [← he, hold]; rfl)
          exact ⟨old, (AList.lookup_insert_ne he).trans hold, rfl⟩
      · exact ⟨Nat.le_refl _, fun e' old hold => ⟨old, hold, rfl⟩⟩
  · exact ⟨Nat.le_refl _, fun e' old hold => ⟨old, hold, rfl⟩⟩

/-- A counted source shows in the list or in the records that it sent, whatever the second half
does. -/
theorem not_counts_source (h : Unchanged s (s.recordEnd cfg)) : ¬ Counts cfg s s.eSource := by
  intro hc
  unfold recordEnd at h
  extract_lets t at h
  have hadd : ∀ i, (Info.send s.packetNb s.byteNb i).recordsOut = i.recordsOut + 1 := fun _ => rfl
  have hsame : ∀ i, (Info.receive t.packetNb t.byteNb i).recordsOut = i.recordsOut := fun _ => rfl
  obtain ⟨hlen', hentries⟩ := account_keeps cfg t t.eDest _ hsame (.received t.packetNb t.byteNb)
  rcases account_counts _ hc hadd (.sent s.packetNb s.byteNb) with hlen | ⟨info, hinfo, hold⟩
  · rw [h.endPointList] at hlen'
    exact absurd hlen' (Nat.not_le_of_lt hlen)
  · obtain ⟨info', hlookup, hsame⟩ := hentries s.eSource info hinfo
    rw [h.data] at hlookup
    exact hold info' hlookup hsame

/-- `recordEnd` leaves the store as it is exactly if neither end point is counted. -/
theorem recordEnd_unchanged (cfg : StoreConfig) (s : StatStore) :
    Unchanged s (s.recordEnd cfg) ↔ ¬ Counts cfg s s.eSource ∧ ¬ Counts cfg s s.eDest := by
  have hsecond : ¬ Counts cfg s s.eSource → s.recordEnd cfg =
      s.account cfg s.eDest (.receive s.packetNb s.byteNb) (.received s.packetNb s.byteNb) :=
          fun hsource => by
    unfold recordEnd
    simp only [account_not_counts hsource]
  refine ⟨fun h => ⟨not_counts_source h, fun hc => ?_⟩, fun ⟨hsource, hdest⟩ => ?_⟩
  · rw [hsecond (not_counts_source h)] at h
    have hadd : ∀ i, (Info.receive s.packetNb s.byteNb i).recordsIn = i.recordsIn + 1 :=
      fun _ => rfl
    rcases account_counts _ hc hadd (.received s.packetNb s.byteNb) with hlen | ⟨info, hinfo, hold⟩
    · rw [h.endPointList] at hlen
      exact absurd hlen (Nat.lt_irrefl _)
    · rw [h.data] at hinfo
      exact hold info hinfo rfl
  · rw [hsecond hsource, account_not_counts hdest]
    exact ⟨fun _ => rfl, rfl⟩

end Records

end StatStore

/-- A record with an unusable field leaves the interval's map and the list as they are exactly if
nothing is monitored yet, or neither end point of its other fields is counted. -/
theorem skipped_iff (cfg : StoreConfig) (s : StatStore) (beginMonitoring : Bool) {f : DataField}
    (hf : ¬ Supported f) (pre post : DataRecord) :
    StatStore.Unchanged s (s.record cfg ⟨beginMonitoring, pre ++ f :: post⟩) ↔
      beginMonitoring = false ∨
        ¬ s.Counts cfg (sourceOf cfg (pre ++ post)) ∧
        ¬ s.Counts cfg (destOf cfg (pre ++ post)) := by
  unfold StatStore.record StatStore.recordStart
  cases beginMonitoring with
  | false => exact ⟨fun _ => .inl rfl, fun _ => ⟨fun _ => rfl, rfl⟩⟩
  | true =>
    obtain ⟨t, ht⟩ : ∃ t : StatStore,
        t = { s with packetNb := 0, byteNb := 0, eSource := .zero, eDest := .zero } := ⟨_, rfl⟩
    have hskip : (pre ++ f :: post).foldl (StatStore.addFieldData cfg) t =
        (pre ++ post).foldl (StatStore.addFieldData cfg) t := by
      rw [List.foldl_append, List.foldl_cons, StatStore.addFieldData_unsupported cfg _ hf,
        ← List.foldl_append]
    obtain ⟨u, hu⟩ : ∃ u, u = (pre ++ post).foldl (StatStore.addFieldData cfg) t := ⟨_, rfl⟩
    have hsource : u.eSource = sourceOf cfg (pre ++ post) := hu ▸ StatStore.source_eq (by rw [ht])
    have hdest : u.eDest = destOf cfg (pre ++ post) := hu ▸ StatStore.dest_eq (by rw [ht])
    have hledger : u.ledger = s.ledger := by
      rw [hu, (StatStore.foldl_addFieldData cfg (pre ++ post) t t rfl).2, ht]
      rfl
    have hdata : u.data = s.data := congrArg Ledger.book hledger
    have hlist : u.endPointList = s.endPointList := congrArg Ledger.listed hledger
    have hcounts : ∀ e, u.Counts cfg e ↔ s.Counts cfg e := fun e => by
      unfold StatStore.Counts
      rw [hlist]
    have hsame : ∀ v, StatStore.Unchanged s v ↔ StatStore.Unchanged u v := fun v =>
      ⟨fun h => ⟨fun e => hdata ▸ h.data e, hlist ▸ h.endPointList⟩,
        fun h => ⟨fun e => hdata ▸ h.data e, hlist ▸ h.endPointList⟩⟩
    have hend := StatStore.recordEnd_unchanged cfg u
    rw [hcounts, hcounts, hsource, hdest, ← hsame] at hend
    simp only [if_true, ← ht, hskip, ← hu, hend, Bool.true_eq_false, false_or]

/-- Every end point is of interest, and there is room. -/
def everyEndPoint : StoreConfig :=
  { netmask := 32
    ipMonitoring := true
    portMonitoring := true
    protocolMonitoring := true
    endPointListMaxSize := 10
    monitorEveryEndPoint := true
    endPointFilter := [] }

/-- A full list, on which neither end point is. -/
theorem skipped_iff_full :
    StatStore.Unchanged (.new [⟨⟨10, 0, 0, 1⟩, 80, 6⟩])
      ((StatStore.new [⟨⟨10, 0, 0, 1⟩, 80, 6⟩]).record
        { everyEndPoint with endPointListMaxSize := 1 }
        ⟨true, [] ++ ⟨packetDeltaCount, [0, 0, 0, 5], 0⟩ ::
            [⟨sourceIPv4Address, [10, 0, 0, 2], 0⟩]⟩) :=
  (skipped_iff { everyEndPoint with endPointListMaxSize := 1 } _ true (by decide) _ _).mpr
    (.inr (by decide))

/-- **Counterexample**: addresses of 16 octets and a packet count of 4; the record is counted under
0.0.0.0:0|0, with no packets. -/
theorem unusable_counted :
    let fields : DataRecord := [⟨sourceIPv4Address, List.replicate 16 1, 0⟩,
      ⟨destinationIPv4Address, List.replicate 16 2, 0⟩, ⟨packetDeltaCount, [0, 0, 0, 5], 0⟩]
    let s := (StatStore.new []).record everyEndPoint ⟨true, fields⟩
    (∀ f ∈ fields, ¬ Supported f) ∧ s.endPointList = [.zero] ∧
      s.data.lookup .zero = some ⟨0, 0, 0, 0, 1, 1⟩ ∧
      ¬ ∀ (s : StatStore) (r : StatRecord), (∃ f ∈ r.fields, ¬ Supported f) →
        StatStore.Unchanged s (s.record everyEndPoint r) := by
  intro fields s
  refine ⟨by decide, by decide, by decide, fun hall => ?_⟩
  have hlist := (hall (.new []) ⟨true, fields⟩ ⟨_, List.mem_cons_self .., by decide⟩).endPointList
  exact absurd hlist (by decide)

end Topas.Wkp
