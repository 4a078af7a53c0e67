import Topas.L6Count.Totals

/-!
# Flows

A flow counts as new when the Bloom filter does not know its 5-tuple, or an enabled table does
not know its key. The filter may claim to know a 5-tuple that it has never seen, not the other
way round; and what has been seen has its keys in the tables. So a flow never counts twice.

* `Sound`: what holds between two records. All 5-tuples so far are in the filter, and every
  new flow has set a bit or made an entry (`Sound.paid`): there are less than 2^64 of them.
* `flows_counted`: each key has between 1 and as many flows as there are 5-tuples, and as many
  when the filter does not err; in every run exactly if the filter has memory for its bits.
-/
namespace Topas

/-! ## How many keys there are -/

theorem card_le_of_inj {κ : Type} {n : Nat} (f : κ → Nat) (hlt : ∀ k, f k < n)
    (hinj : ∀ k k', f k = f k' → k = k') (keys : Finset κ) : keys.card ≤ n := by
  have hle := Finset.card_le_card_of_injOn (s := keys) (t := Finset.range n) f
    (fun k _ => by simpa using hlt k) (fun k _ k' _ h => hinj k k' h)
  rwa [Finset.card_range] at hle

namespace IpAddress

def toNat (ip : IpAddress) : Nat := ofOctets [ip.a, ip.b, ip.c, ip.d]

theorem toNat_lt (ip : IpAddress) : ip.toNat < 2 ^ 32 := by
  have ha := ip.a.toNat_lt
  have hb := ip.b.toNat_lt
  have hc := ip.c.toNat_lt
  have hd := ip.d.toNat_lt
  simp [toNat, ofOctets]
  omega

theorem toNat_inj {ip ip' : IpAddress} (h : ip.toNat = ip'.toNat) : ip = ip' := by
  obtain ⟨a, b, c, d⟩ := ip
  obtain ⟨a', b', c', d'⟩ := ip'
  have hlt := And.intro (And.intro a.toNat_lt b.toNat_lt) (And.intro c.toNat_lt d.toNat_lt)
  have hlt' := And.intro (And.intro a'.toNat_lt b'.toNat_lt) (And.intro c'.toNat_lt d'.toNat_lt)
  simp [toNat, ofOctets] at h
  simp only [IpAddress.mk.injEq, ← UInt8.toNat_inj]
  omega

theorem card_le (keys : Finset IpAddress) : keys.card ≤ 2 ^ 32 :=
  card_le_of_inj toNat toNat_lt (fun _ _ => toNat_inj) keys

end IpAddress

theorem card_ports_le (keys : Finset UInt32) : keys.card ≤ 2 ^ 32 :=
  card_le_of_inj UInt32.toNat UInt32.toNat_lt (fun _ _ => UInt32.toNat_inj.mp) keys

/-! ## How many bits are set -/

namespace BloomFilter

variable {random : Rng} {input : List UInt8} {bf bf' : BloomFilter}

def setBits (bf : BloomFilter) : Nat :=
  {n ∈ Finset.range bf.filterSize.toNat | bf.filter.bit n = true}.card

theorem setBits_le (bf : BloomFilter) : bf.setBits ≤ 2 ^ 32 := by
  have hle := Finset.card_filter_le (Finset.range bf.filterSize.toNat) (bf.filter.bit · = true)
  have hlt := bf.filterSize.toNat_lt
  rw [Finset.card_range] at hle
  exact Nat.le_trans hle (Nat.le_of_lt hlt)

/-- A key that the filter does not know sets a bit. -/
theorem setBits_insert (h : bf.Works) (hsize : bf'.filterSize = bf.filterSize)
    (hbits : ∀ n, bf'.filter.bit n = (decide (n ∈ bf.bits random input) || bf.filter.bit n)) :
    bf.setBits + (if (bf.bits random input).all bf.filter.bit then 0 else 1) ≤ bf'.setBits := by
  have hsub : {n ∈ Finset.range bf.filterSize.toNat | bf.filter.bit n = true} ⊆
      {n ∈ Finset.range bf'.filterSize.toNat | bf'.filter.bit n = true} := by
    intro n hn
    rw [Finset.mem_filter] at hn ⊢
    exact ⟨hsize ▸ hn.1, by rw [hbits, hn.2, Bool.or_true]⟩
  split
  · exact Finset.card_le_card hsub
  · rename_i hall
    rw [List.all_eq_true] at hall
    push Not at hall
    obtain ⟨n, hn, hbit⟩ := hall
    have hlt := lt_of_mem_bits h hn
    refine Finset.card_lt_card (Finset.ssubset_iff_subset_ne.mpr ⟨hsub, fun heq => hbit ?_⟩)
    have hmem : n ∈ {n ∈ Finset.range bf'.filterSize.toNat | bf'.filter.bit n = true} := by
      rw [Finset.mem_filter, hsize, hbits, decide_eq_true hn, Bool.true_or]
      exact ⟨Finset.mem_range.mpr hlt, rfl⟩
    rw [← heq, Finset.mem_filter] at hmem
    exact hmem.2

end BloomFilter

/-! ## Counting 5-tuples -/

namespace CountStore

section Distinct

variable {l : List (DataRecord × Bool)} {r : DataRecord} {new : Bool}

/-- How many 5-tuples these are. -/
def distinct (l : List (DataRecord × Bool)) : Nat := (l.map (·.1.flowKey)).toFinset.card

def newFlows (l : List (DataRecord × Bool)) : Nat := l.countP (·.2)

theorem newFlows_append : newFlows (l ++ [(r, new)]) = newFlows l + (if new then 1 else 0) := by
  cases new <;> simp [newFlows]

theorem distinct_append :
    distinct (l ++ [(r, new)]) = distinct l +
      (if r.flowKey ∈ l.map (·.1.flowKey) then 0 else 1) := by
  have hset : ((l ++ [(r, new)]).map (·.1.flowKey)).toFinset =
      insert r.flowKey (l.map (·.1.flowKey)).toFinset := by
    ext k
    simp only [List.map_append, List.map_cons, List.map_nil, List.mem_toFinset, List.mem_append,
      List.mem_singleton, Finset.mem_insert]
    exact or_comm
  rw [distinct, hset]
  split
  · rename_i h
    rw [Finset.insert_eq_of_mem (List.mem_toFinset.mpr h)]
    rfl
  · rename_i h
    exact Finset.card_insert_of_notMem (fun hmem => h (List.mem_toFinset.mp hmem))

/-- Records of any kind have at most as many new flows as 5-tuples. -/
def Bounded (l : List (DataRecord × Bool)) : Prop :=
  ∀ p : DataRecord → Bool, newFlows (l.filter (p ·.1)) ≤ distinct (l.filter (p ·.1))

/-- As many, when the 5-tuple says of which kind a record is. -/
def Exact (l : List (DataRecord × Bool)) : Prop :=
  ∀ p : QuintupleKey → Bool,
    newFlows (l.filter (p ·.1.flowKey)) = distinct (l.filter (p ·.1.flowKey))

theorem Bounded.append (h : Bounded l) (hnew : new = true → r.flowKey ∉ l.map (·.1.flowKey)) :
    Bounded (l ++ [(r, new)]) := by
  intro p
  have hle := h p
  rw [List.filter_append]
  cases hp : p r with
  | false => simpa [hp] using hle
  | true =>
    have hfresh : new = true → r.flowKey ∉ (l.filter (p ·.1)).map (·.1.flowKey) := fun hn hmem =>
      hnew hn ((List.filter_sublist.map _).subset hmem)
    rw [List.filter_singleton, hp, Bool.cond_true, newFlows_append, distinct_append]
    split
    · rename_i hn
      rw [if_neg (hfresh hn)]
      omega
    · omega

theorem Exact.append (h : Exact l) (hnew : new = true ↔ r.flowKey ∉ l.map (·.1.flowKey)) :
    Exact (l ++ [(r, new)]) := by
  intro p
  have heq := h p
  rw [List.filter_append]
  cases hp : p r.flowKey with
  | false => simpa [hp] using heq
  | true =>
    have hmem : r.flowKey ∈ (l.filter (p ·.1.flowKey)).map (·.1.flowKey) ↔
        r.flowKey ∈ l.map (·.1.flowKey) := by
      refine ⟨fun hm => (List.filter_sublist.map _).subset hm, fun hm => ?_⟩
      obtain ⟨e, he, hk⟩ := List.mem_map.mp hm
      exact List.mem_map.mpr ⟨e, List.mem_filter.mpr ⟨he, hk ▸ hp⟩, hk⟩
    rw [List.filter_singleton, hp, Bool.cond_true, newFlows_append, distinct_append, heq]
    congr 1
    simp only [hmem, hnew]
    split <;> simp_all

end Distinct

/-! ## How many flows can be new -/

/-- The number of entries, if the table is enabled. -/
def size {κ : Type} [DecidableEq κ] (enabled : Bool) (m : CountMap κ) : Nat :=
  if enabled then m.keys.length else 0

theorem size_counted {κ : Type} [DecidableEq κ] {m : CountMap κ} {enabled : Bool} {maxSize : Nat}
    {zero key : κ} {r : DataRecord} {new : Bool}
    (hroom : enabled = true → m.find key = none → m.keys.length < maxSize - 1) :
    size enabled (CountMap.counted m enabled maxSize zero key r new) =
      size enabled m + (if enabled && (m.find key).isNone then 1 else 0) := by
  cases enabled with
  | false => rfl
  | true =>
    rw [CountMap.counted, if_pos rfl, size, size, if_pos rfl, if_pos rfl, Bool.true_and]
    exact CountMap.length_update (hroom rfl)

theorem size_le {κ : Type} [DecidableEq κ] {enabled : Bool} {m : CountMap κ} {n : Nat}
    (h : ∀ keys : Finset κ, keys.card ≤ n) : size enabled m ≤ n := by
  cases enabled with
  | false => exact Nat.zero_le n
  | true =>
    have hcard := List.toFinset_card_of_nodup m.keys_nodup
    show m.keys.length ≤ n
    exact hcard ▸ h m.keys.toFinset

def entries (cfg : CountConfig) (s : CountStore) : Nat :=
  size cfg.countPerSrcIp s.srcIpCounts + size cfg.countPerDstIp s.dstIpCounts +
    size cfg.countPerSrcPort s.srcPortCounts + size cfg.countPerDstPort s.dstPortCounts

theorem entries_le (cfg : CountConfig) (s : CountStore) : entries cfg s ≤ 4 * 2 ^ 32 := by
  have h1 : size cfg.countPerSrcIp s.srcIpCounts ≤ 2 ^ 32 := size_le IpAddress.card_le
  have h2 : size cfg.countPerDstIp s.dstIpCounts ≤ 2 ^ 32 := size_le IpAddress.card_le
  have h3 : size cfg.countPerSrcPort s.srcPortCounts ≤ 2 ^ 32 := size_le card_ports_le
  have h4 : size cfg.countPerDstPort s.dstPortCounts ≤ 2 ^ 32 := size_le card_ports_le
  unfold entries
  omega

section Sound

variable {cfg : CountConfig} {random : Rng} {bf bf' : BloomFilter} {s : CountStore}
  {l : List (DataRecord × Bool)} {r : DataRecord} {known : Bool} {records : List DataRecord}

/-- Room for all addresses and ports. -/
def Large (cfg : CountConfig) : Prop := 2 ^ 32 < cfg.ipMaxSize ∧ 2 ^ 32 < cfg.portMaxSize

theorem fits_of_large (h : Large cfg) (records : List DataRecord) : Fits cfg records where
  srcIp _ := Nat.lt_of_le_of_lt (IpAddress.card_le _) h.1
  dstIp _ := Nat.lt_of_le_of_lt (IpAddress.card_le _) h.1
  srcPort _ := Nat.lt_of_le_of_lt (card_ports_le _) h.2
  dstPort _ := Nat.lt_of_le_of_lt (card_ports_le _) h.2

/-- A new flow that the filter knows makes an entry. -/
theorem Counted.entries_count (h : Counted cfg s l) (hfits : Fits cfg records)
    (hl : ∀ e ∈ l, e.1 ∈ records) (hr : r ∈ records) (known : Bool) :
    entries cfg s + (if s.new cfg r known then 1 else 0) ≤
      entries cfg (s.count cfg r known) + (if known then 0 else 1) := by
  unfold entries
  rw [srcIpCounts_count, dstIpCounts_count, srcPortCounts_count, dstPortCounts_count,
    size_counted fun he => (h.srcIp he).room hl hr (hfits.srcIp he),
    size_counted fun he => (h.dstIp he).room hl hr (hfits.dstIp he),
    size_counted fun he => (h.srcPort he).room hl hr (hfits.srcPort he),
    size_counted fun he => (h.dstPort he).room hl hr (hfits.dstPort he)]
  unfold CountStore.new
  generalize (cfg.countPerSrcIp && (s.srcIpCounts.find r.srcIp).isNone) = b1
  generalize (cfg.countPerDstIp && (s.dstIpCounts.find r.dstIp).isNone) = b2
  generalize (cfg.countPerSrcPort && (s.srcPortCounts.find r.srcPort).isNone) = b3
  generalize (cfg.countPerDstPort && (s.dstPortCounts.find r.dstPort).isNone) = b4
  cases known <;> cases b1 <;> cases b2 <;> cases b3 <;> cases b4 <;> simp <;> omega

/-- A table that has a record of this 5-tuple has its key. -/
theorem Tallied.isNone_eq_false {κ : Type} [DecidableEq κ] {m : CountMap κ} {key : DataRecord → κ}
    (h : Tallied m key l) {e : DataRecord × Bool} (he : e ∈ l) (hk : key e.1 = key r) :
    (m.find (key r)).isNone = false := by
  have hmem : key r ∈ m.keys := h.mem_keys.mpr ⟨e, he, hk⟩
  cases hfind : m.find (key r) with
  | none => exact absurd hmem (CountMap.find_eq_none.mp hfind)
  | some c => rfl

/-- The 5-tuples of all records are in the filter, and every new flow has set a bit or made an
entry. -/
structure Sound (cfg : CountConfig) (random : Rng) (bf : BloomFilter) (s : CountStore)
    (l : List (DataRecord × Bool)) : Prop where
  counted : Counted cfg s l
  works : bf.Works
  marked : ∀ e ∈ l, ∀ n ∈ bf.bits random e.1.flowKey.data, bf.filter.bit n = true
  bounded : Bounded l
  paid : newFlows l ≤ bf.setBits + entries cfg s

/-- A 5-tuple that has been seen is known, and so are its keys. -/
theorem Sound.not_mem_of_new (h : Sound cfg random bf s l)
    (hnew : s.new cfg r ((bf.bits random r.flowKey.data).all bf.filter.bit) = true) :
    r.flowKey ∉ l.map (·.1.flowKey) := by
  intro hmem
  obtain ⟨e, he, hk⟩ := List.mem_map.mp hmem
  have hk : e.1.flowKey = r.flowKey := hk
  have hall : (bf.bits random r.flowKey.data).all bf.filter.bit = true :=
    List.all_eq_true.mpr fun n hn => h.marked e he n (hk ▸ hn)
  have h1 := fun hen => (h.counted.srcIp hen).isNone_eq_false he (congrArg QuintupleKey.srcIp hk)
  have h2 := fun hen => (h.counted.dstIp hen).isNone_eq_false he (congrArg QuintupleKey.dstIp hk)
  have h3 := fun hen => (h.counted.srcPort hen).isNone_eq_false he
    (congrArg (fun k : QuintupleKey => protoPort k.proto k.srcPort) hk)
  have h4 := fun hen => (h.counted.dstPort hen).isNone_eq_false he
    (congrArg (fun k : QuintupleKey => protoPort k.proto k.dstPort) hk)
  simp only [CountStore.new, hall, Bool.not_true, Bool.false_or, Bool.or_eq_true,
    Bool.and_eq_true] at hnew
  rcases hnew with ((⟨he1, hn⟩ | ⟨he2, hn⟩) | ⟨he3, hn⟩) | ⟨he4, hn⟩
  · exact absurd ((h1 he1).symm.trans hn) Bool.false_ne_true
  · exact absurd ((h2 he2).symm.trans hn) Bool.false_ne_true
  · exact absurd ((h3 he3).symm.trans hn) Bool.false_ne_true
  · exact absurd ((h4 he4).symm.trans hn) Bool.false_ne_true

/-- One record, when the filter has memory: there is a next state, which is sound. -/
theorem Sound.record (h : Sound cfg random bf s l) (hlarge : Large cfg) (r : DataRecord) :
    ∃ bf' known, s.record cfg random bf r = some (bf', s.count cfg r known) ∧
      bf.test random r.flowKey.data = some known ∧
      (s.new cfg r known = true → r.flowKey ∉ l.map (·.1.flowKey)) ∧
      Sound cfg random bf' (s.count cfg r known) (l ++ [(r, s.new cfg r known)]) := by
  obtain ⟨bf', htest, hworks, hsize, hseeds, hbits⟩ :=
    @BloomFilter.testBeforeInsert_spec random r.flowKey.data bf h.works
  have hmem : ∀ e ∈ l, e.1 ∈ l.map (·.1) ++ [r] := fun e he =>
    List.mem_append_left _ (List.mem_map_of_mem he)
  have hr : r ∈ l.map (·.1) ++ [r] := List.mem_append_right _ (List.mem_singleton_self r)
  have hsame : ∀ input, bf'.bits random input = bf.bits random input := fun input => by
    rw [BloomFilter.bits, BloomFilter.bits, hsize, hseeds]
  refine ⟨bf', _, ?_, BloomFilter.test_eq h.works, h.not_mem_of_new,
    h.counted.count (fits_of_large hlarge _) hmem hr _, hworks, fun e he n hn => ?_,
    h.bounded.append h.not_mem_of_new, ?_⟩
  · rw [record_eq h.counted.recordStarted, htest, Option.map_some]
  · rw [hsame] at hn
    rw [hbits]
    rcases List.mem_append.mp he with he | he
    · rw [h.marked e he n hn, Bool.or_true]
    · cases List.mem_singleton.mp he
      rw [decide_eq_true hn, Bool.true_or]
  · have hpaid := h.paid
    have hset := BloomFilter.setBits_insert h.works hsize hbits
    have hentries := h.counted.entries_count (fits_of_large hlarge _) hmem hr
      ((bf.bits random r.flowKey.data).all bf.filter.bit)
    rw [newFlows_append]
    omega

/-- Each 5-tuple tests negative before it comes for the first time. -/
def NewNegative (cfg : CountConfig) (random : Rng) (bf : BloomFilter) (records : List DataRecord) :
    Prop :=
  ∀ pre r post, records = pre ++ r :: post → r.flowKey ∉ pre.map DataRecord.flowKey →
    ∀ bf' s, run cfg random bf pre = some (bf', s) → bf'.test random r.flowKey.data = some false

theorem NewNegative.init (h : NewNegative cfg random bf (records ++ [r])) :
    NewNegative cfg random bf records := by
  intro pre r' post heq hfresh
  exact h pre r' (post ++ [r]) (by rw [heq, List.append_assoc, List.cons_append]) hfresh

theorem sound_run (hlarge : Large cfg) (hworks : bf.Works) (records : List DataRecord) :
    ∃ bf' s l, run cfg random bf records = some (bf', s) ∧ l.map (·.1) = records ∧
      Sound cfg random bf' s l ∧ (NewNegative cfg random bf records → Exact l) := by
  induction records using List.reverseRecOn with
  | nil =>
    refine ⟨bf.clear, init, [], rfl, rfl,
      ⟨counted_init cfg, BloomFilter.works_clear.mpr hworks, ?_, ?_, ?_⟩, ?_⟩
    · exact fun e he => absurd he List.not_mem_nil
    · exact fun p => Nat.zero_le _
    · exact Nat.zero_le _
    · exact fun _ p => rfl
  | append_singleton records r ih =>
    obtain ⟨bf1, s, l, hrun, hl, h, hexact⟩ := ih
    obtain ⟨bf', known, hrecord, htest, hfresh, h'⟩ := h.record hlarge r
    refine ⟨bf', s.count cfg r known, _, ?_, by rw [List.map_append, hl]; rfl, h', fun hneg => ?_⟩
    · rw [run] at hrun ⊢
      simp [List.foldlM_append, hrun, hrecord]
    · refine (hexact hneg.init).append ⟨hfresh, fun hmem => ?_⟩
      have hkeys : records.map DataRecord.flowKey = l.map (·.1.flowKey) := by
        rw [← hl, List.map_map]
        rfl
      have hfalse := hneg records r [] rfl (hkeys ▸ hmem) bf1 s hrun
      have hknown : known = false := Option.some.inj (htest.symm.trans hfalse)
      simp [CountStore.new, hknown]

/-- An entry for the key of each record and no other, with at least one flow, and at most as many
as the records of that key have 5-tuples. -/
def Flows {κ : Type} [DecidableEq κ] (m : CountMap κ) (key : DataRecord → κ)
    (records : List DataRecord) (exact : Prop) : Prop :=
  ∀ k, ((∃ r ∈ records, key r = k) ↔ ∃ c, m.find k = some c) ∧ ∀ c, m.find k = some c →
    let flows := ((records.filter (key · = k)).map DataRecord.flowKey).toFinset.card
    1 ≤ c.flowCount.toNat ∧ c.flowCount.toNat ≤ flows ∧ (exact → c.flowCount.toNat = flows)

/-- So in every enabled table. -/
structure FlowsOf (cfg : CountConfig) (s : CountStore) (records : List DataRecord) (exact : Prop) :
    Prop where
  srcIp : cfg.countPerSrcIp = true → Flows s.srcIpCounts DataRecord.srcIp records exact
  dstIp : cfg.countPerDstIp = true → Flows s.dstIpCounts DataRecord.dstIp records exact
  srcPort : cfg.countPerSrcPort = true → Flows s.srcPortCounts DataRecord.srcPort records exact
  dstPort : cfg.countPerDstPort = true → Flows s.dstPortCounts DataRecord.dstPort records exact

theorem flows_empty {κ : Type} [DecidableEq κ] {key : DataRecord → κ} {exact : Prop} :
    Flows ∅ key [] exact := fun _ =>
  ⟨⟨fun ⟨_, h, _⟩ => absurd h List.not_mem_nil, fun ⟨_, h⟩ => nomatch h⟩, fun _ h => nomatch h⟩

/-- There are too few bits and keys for a flow count to wrap. -/
theorem Sound.newFlows_lt (h : Sound cfg random bf s l) : newFlows l < 2 ^ 64 := by
  have h1 := h.paid
  have h2 := bf.setBits_le
  have h3 := entries_le cfg s
  omega

theorem Sound.flows (h : Sound cfg random bf s l) {κ : Type} [DecidableEq κ] {m : CountMap κ}
    {key : DataRecord → κ} (ht : Tallied m key l) (key' : QuintupleKey → κ)
    (hkey : ∀ r, key r = key' r.flowKey) {exact : Prop} (hexact : exact → Exact l) :
    Flows m key (l.map (·.1)) exact := by
  intro k
  refine ⟨(ht.totals k).1, fun c hc => ?_⟩
  have hne : ofKey key k l ≠ [] := fun hnil => by
    rw [ht.find_eq_none.mpr hnil] at hc
    cases hc
  have hlt : newFlows (ofKey key k l) < 2 ^ 64 :=
    Nat.lt_of_le_of_lt (List.filter_sublist.countP_le) h.newFlows_lt
  have hcount : c.flowCount.toNat = newFlows (ofKey key k l) := by
    rw [ht.find, entry, if_neg hne] at hc
    cases hc
    exact Nat.mod_eq_of_lt hlt
  have hdistinct : (((l.map (·.1)).filter (key · = k)).map DataRecord.flowKey).toFinset.card =
      distinct (ofKey key k l) := by
    simp [distinct, ofKey, List.filter_map, Function.comp_def]
  simp only [hcount, hdistinct]
  refine ⟨ht.first k hne, h.bounded fun r => decide (key r = k), fun he => ?_⟩
  have hofKey : ofKey key k l = l.filter fun e => decide (key' e.1.flowKey = k) := by
    simp only [ofKey, hkey]
  rw [hofKey]
  exact hexact he fun q => decide (key' q = k)

/-- For a filter of a positive size: each key of an enabled table has between 1 and as many flows
as there are 5-tuples, and exactly as many when the filter never errs; unless the filter has hash
functions, but no memory, and there is a record. -/
theorem flows_counted (hlarge : Large cfg) (random : Rng) {size : UInt32} (hpos : 0 < size)
    (seeds : List UInt32) (records : List DataRecord) :
    (∃ bf s, run cfg random (.init size seeds) records = some (bf, s) ∧
      FlowsOf cfg s records (NewNegative cfg random (.init size seeds) records)) ↔
      (seeds ≠ [] → records ≠ [] → size.toNat + 7 < 2 ^ 32) := by
  refine ⟨fun ⟨bf, s, hrun, _⟩ hseeds hrecords => ?_, fun hmem => ?_⟩
  · by_contra hno
    obtain ⟨r, rest, rfl⟩ := List.exists_cons_of_ne_nil hrecords
    have hnil : (BloomFilter.init size seeds).clear.filter.bitmap = [] := by
      have hlen := (Bitmap.resize size).length_bitmap
      rw [Bitmap.resize_empty hno, List.length_nil] at hlen
      show List.replicate (Bitmap.resize size).lenOctets.toNat (0 : UInt8) = []
      rw [← hlen, List.replicate_zero]
    have hnone := @BloomFilter.testBeforeInsert_none random r.flowKey.data
      (BloomFilter.init size seeds).clear hseeds (.inr ⟨rfl, hnil⟩)
    rw [run_eq_tally, List.map_cons, BloomFilter.testAll, hnone] at hrun
    cases hrun
  · by_cases hrecords : records = []
    · subst hrecords
      exact ⟨_, _, rfl, fun _ => flows_empty, fun _ => flows_empty, fun _ => flows_empty,
        fun _ => flows_empty⟩
    · have hworks := (BloomFilter.works_init hpos).mpr fun hseeds => hmem hseeds hrecords
      obtain ⟨bf, s, l, hrun, rfl, h, hexact⟩ := sound_run hlarge hworks records
      refine ⟨bf, s, hrun, fun he => ?_, fun he => ?_, fun he => ?_, fun he => ?_⟩
      · exact h.flows (h.counted.srcIp he) QuintupleKey.srcIp (fun _ => rfl) hexact
      · exact h.flows (h.counted.dstIp he) QuintupleKey.dstIp (fun _ => rfl) hexact
      · exact h.flows (h.counted.srcPort he) (fun q => protoPort q.proto q.srcPort)
          (fun _ => rfl) hexact
      · exact h.flows (h.counted.dstPort he) (fun q => protoPort q.proto q.dstPort)
          (fun _ => rfl) hexact

end Sound

/-- All tables, each with room for 2^57 entries. -/
def largeTables : CountConfig := ⟨true, true, true, true, 2 ^ 57, 2 ^ 57⟩

def lcg : Rng := fun seed i => 1664525 * (seed + UInt32.ofNat i) + 1013904223

theorem flows_counted_threeRecords :
    let records := [udpRecord 53 [1, 0], udpRecord 53 [0, 0, 0, 5], udpRecord 123 [7]]
    ∃ bf s, run largeTables lcg (.init 1024 [1, 2, 3]) records = some (bf, s) ∧
      FlowsOf largeTables s records (NewNegative largeTables lcg (.init 1024 [1, 2, 3]) records) :=
  (flows_counted ⟨by decide, by decide⟩ lcg (by decide) _ _).mpr fun _ _ => by decide

/-- A size of 2^32 - 1, which `bf_size` -1 stands for, leaves the filter without memory: the first
record writes outside of it. -/
theorem flows_uncounted :
    (0 : UInt32) < 4294967295 ∧
      ¬ ∃ bf s, run largeTables lcg (.init 4294967295 [1, 2, 3]) [udpRecord 53 [1]] = some (bf, s) ∧
        FlowsOf largeTables s [udpRecord 53 [1]]
          (NewNegative largeTables lcg (.init 4294967295 [1, 2, 3]) [udpRecord 53 [1]]) := by
  have hnone : run largeTables lcg (.init 4294967295 [1, 2, 3]) [udpRecord 53 [1]] = none :=
    by decide
  refine ⟨by decide, fun ⟨_, _, hrun, _⟩ => ?_⟩
  rw [hnone] at hrun
  cases hrun

end CountStore

end Topas
