import Topas.L7Stat.Settings

/-!
# Which element controls which setting

`Stat::init` looks up `report_only_first_attack` under the name of the element before it,
`test_frequency`. All other settings of the preferences come from the elements that the README
documents for them.

* `parsed_eq`: a setting is settled by the elements documented for it, with that exception.
* `leak_iff`: when an edited element changes another setting, and which of three elements control
  their own.
-/
namespace Topas.Wkp

open Text Xml

variable {ν : Type}

/-! ## Editing one element -/

/-- Two configurations that differ in the content of one element of the preferences. -/
def DifferIn (tag : Tag) (c c' : Config) : Prop :=
  ∃ pre attributes prefs prefs' post,
    c = pre ++ .element .preferences attributes prefs :: post ∧
      c' = pre ++ .element .preferences attributes prefs' :: post ∧ Level.Edited tag prefs prefs'

theorem DifferIn.edited {tag : Tag} {c c' : Config} (h : DifferIn tag c c') :
    Level.Edited .preferences c c' := by
  obtain ⟨pre, attributes, prefs, prefs', post, hc, hc', -⟩ := h
  exact ⟨pre, attributes, prefs, prefs', post, hc, hc'⟩

theorem DifferIn.enter {tag name : Tag} {c c' : Config} (h : DifferIn tag c c')
    (hne : name ≠ .preferences) :
    c.enter name = c'.enter name := by
  simp only [Level.enter, h.edited.findNode_eq hne]

/-- The preferences that are read are the same, or they differ in the element. -/
theorem DifferIn.preferences {tag : Tag} {c c' prefs prefs' : Config} (h : DifferIn tag c c')
    (hc : c.enter .preferences = some prefs) (hc' : c'.enter .preferences = some prefs') :
    prefs = prefs' ∨ Level.Edited tag prefs prefs' := by
  obtain ⟨pre, attributes, l, l', post, rfl, rfl, hedit⟩ := h
  obtain ⟨node, hnode, -, rfl⟩ := Level.enter_eq_some.mp hc
  obtain ⟨node', hnode', -, rfl⟩ := Level.enter_eq_some.mp hc'
  have hname : ∀ k : Config, named .preferences (.element .preferences attributes k) = true :=
    fun _ => rfl
  simp only [Level.findNode, List.find?_append, List.find?_cons, hname] at hnode hnode'
  cases hpre : pre.find? (named .preferences) with
  | some first =>
    rw [hpre] at hnode hnode'
    cases hnode
    cases hnode'
    exact .inl rfl
  | none =>
    rw [hpre] at hnode hnode'
    cases hnode
    cases hnode'
    exact .inr hedit.elements

/-! ## What the elements are documented to control -/

/-- The elements that the README documents for a setting. Offline, the most frequent end points are
those of the offline file after it has been aggregated by the key and the netmask.
mirrors detectionmodules/statmodules/wkp-module/README:38-265 -/
def Setting.documented (offline : Bool) : Setting → List Tag
  | outputVerbosity => [.warningVerbosity]
  | logfile => [.logfile]
  | logVerbosity => [.logfileOutputVerbosity]
  | alarmTime => [.alarmTime]
  | offlineFile => [.offlineFile]
  | netmask => [.netmask]
  | usePca => [.usePca]
  | pcaLearningPhase => [.pcaLearningPhase]
  | useCorrelationMatrix => [.useCorrelationMatrix]
  | metrics => [.metrics]
  | createFiles | outputDir => [.outputDir]
  | noiseThresholdPackets => [.noiseThresholdPackets]
  | noiseThresholdBytes => [.noiseThresholdBytes]
  | protocolMonitoring | ipMonitoring | portMonitoring => [.endpointKey]
  | endPointListMaxSize => [.endpointlistMaxsize]
  | endPointFilter | monitorEveryEndPoint =>
    [.endpointsToMonitor, .xFrequentEndpoints] ++
      if offline then [.offlineFile, .endpointKey, .netmask] else []
  | statTestFrequency => [.testFrequency]
  | reportOnlyFirstAttack => [.reportOnlyFirstAttack]
  | pauseUpdateWhenAttack => [.pauseUpdateWhenAttack]
  -- the other sections
  | enableCusumTest | amplitudePercentage | cusumLearningPhase | repetitionFactor | smoothingConstant
  | logVarianceEwma | enableWmwTest | enableKsTest | enablePcsTest | enableWkpTest | sampleOldSize
  | sampleNewSize | wmwTwoSided | significanceLevel => []

/-- A setting that both have parsed is not the same. -/
def Settings.DifferAt (s s' : Settings ν) (x : Setting) : Prop :=
    ∃ v v', s x = some v ∧ s' x = some v' ∧ v ≠ v'

/-! ## What a setting is read from -/

section

variable {l l' : Config} {tag : Tag} (h : l.findNode tag = l'.findNode tag)

include h

theorem value_congr : l.value tag = l'.value tag := by simp only [Level.value, h]

theorem given_congr : given l tag = given l' tag := by simp only [given, value_congr h]

theorem enter_congr : l.enter tag = l'.enter tag := by simp only [Level.enter, h]

theorem isFalse_congr : isFalse l tag = isFalse l' tag := by simp only [isFalse, value_congr h]

theorem notFalse_congr : notFalse l tag = notFalse l' tag := by simp only [notFalse, value_congr h]

theorem readInt_congr (default : Int32) : readInt l tag default = readInt l' tag default := by
  simp only [readInt, given_congr h]

theorem readVerbosity_congr : readVerbosity l tag = readVerbosity l' tag := by
  simp only [readVerbosity, given_congr h]

end

theorem readKey_congr {l l' : Config} (h : l.findNode .endpointKey = l'.findNode .endpointKey) :
    readKey l = readKey l' := by
  have hexists : l.nodeExists .endpointKey = l'.nodeExists .endpointKey :=
    by simp only [Level.nodeExists, h]
  rw [readKey, readKey, hexists, enter_congr h]

/-- The size of the list has no part in the reading of the file. -/
theorem readEndPoints_congr {cfg cfg' : StoreConfig} (h : cfg.aggregate = cfg'.aggregate) :
    readEndPoints cfg = readEndPoints cfg' := by
  funext fep is
  induction hn :
    (if is.eof then 0 else is.rest.length + 1) using Nat.strong_induction_on generalizing fep
      is with
  | _ n ih =>
    by_cases heof : is.eof = true
    · rw [readEndPoints, readEndPoints, dif_pos heof, dif_pos heof]
    · have hnext : (if is.getline.1.eof then 0 else is.getline.1.rest.length + 1) < n := by
        rw [← hn, if_neg heof]
        split
        · exact Nat.succ_pos _
        · rename_i hgo
          exact Nat.succ_lt_succ (IfStream.rest_getline (by simpa using hgo))
      rw [readEndPoints, readEndPoints, dif_neg heof, dif_neg heof]
      simp only [ih _ hnext _ _ rfl, h]

section

variable {E : Env ν} {prefs prefs' : Config} {offlineFile offlineFile' : List Char}
    {netmask netmask' : Fin 33}
  {cfg cfg' : StoreConfig}

theorem initEndpoints_frame {cfg r : StoreConfig} {value : List Char} {dataFile : IfStream}
    (h : initEndpoints cfg value dataFile = some r) : r.netmask = cfg.netmask ∧
      r.ipMonitoring = cfg.ipMonitoring ∧ r.portMonitoring = cfg.portMonitoring ∧
        r.protocolMonitoring = cfg.protocolMonitoring ∧
        r.endPointListMaxSize = cfg.endPointListMaxSize := by
  simp only [initEndpoints, Option.bind_eq_bind, Option.bind_eq_some_iff] at h
  obtain ⟨_, -, _, -, h⟩ := h
  split at h <;> cases h <;> exact ⟨rfl, rfl, rfl, rfl, rfl⟩

/-- The key and the size of the store. -/
theorem readStore_frame (h : readStore E prefs offlineFile netmask = some cfg) :
    readKey prefs = some (cfg.protocolMonitoring, cfg.ipMonitoring, cfg.portMonitoring) ∧
      cfg.endPointListMaxSize = readInt prefs .endpointlistMaxsize 500 := by
  simp only [readStore, Option.bind_eq_bind, Option.bind_eq_some_iff] at h
  obtain ⟨⟨protocol, address, port⟩, hkey, h⟩ := h
  dsimp only at h
  split at h
  · obtain ⟨_, -, h⟩ := Option.bind_eq_some_iff.mp h
    obtain ⟨-, hip, hport, hprotocol, hsize⟩ := initEndpoints_frame h
    rw [hip, hport, hprotocol, hsize]
    exact ⟨hkey, rfl⟩
  · split at h
    · obtain ⟨_, -, h⟩ := Option.bind_eq_some_iff.mp h
      obtain ⟨_, -, h⟩ := Option.bind_eq_some_iff.mp h
      cases h
      exact ⟨hkey, rfl⟩
    · cases h
      exact ⟨hkey, rfl⟩
  · cases h
    exact ⟨hkey, rfl⟩

/-- What is monitored, of a store. -/
def monitored (cfg : StoreConfig) : List FilterEndPoint × Bool :=
    (cfg.endPointFilter, cfg.monitorEveryEndPoint)

theorem initEndpoints_monitored {cfg cfg' r r' : StoreConfig} {value : List Char}
    {dataFile : IfStream}
    (haggregate : cfg.aggregate = cfg'.aggregate) (hsame : monitored cfg = monitored cfg')
    (h : initEndpoints cfg value dataFile = some r)
    (h' : initEndpoints cfg' value dataFile = some r') :
    monitored r = monitored r' := by
  obtain ⟨hfilter, hevery⟩ := Prod.mk.inj hsame
  simp only [initEndpoints, readEndPoints_congr haggregate, Option.bind_eq_bind,
    Option.bind_eq_some_iff] at h h'
  obtain ⟨feps, hread, m, hm, h⟩ := h
  obtain ⟨_, hread', _, hm', h'⟩ := h'
  rw [hread] at hread'
  cases hread'
  rw [hm] at hm'
  cases hm'
  split at h <;> cases h <;> split at h' <;> cases h'
  · exact Prod.ext hfilter rfl
  · contradiction
  · contradiction
  · exact Prod.ext (congrArg (· ++ _) hfilter) hevery

/-- What is monitored is settled by the two elements for it, and offline by the file, the key and
the netmask. -/
theorem readStore_monitored (h : readStore E prefs offlineFile netmask = some cfg)
    (h' : readStore E prefs' offlineFile' netmask' = some cfg')
    (hmonitor : prefs.value .endpointsToMonitor = prefs'.value .endpointsToMonitor)
    (hfrequent : prefs.value .xFrequentEndpoints = prefs'.value .xFrequentEndpoints)
    (hoffline : E.offlineEnabled = true →
      offlineFile = offlineFile' ∧ readKey prefs = readKey prefs' ∧ netmask = netmask') :
    monitored cfg = monitored cfg' := by
  simp only [readStore, Option.bind_eq_bind, Option.bind_eq_some_iff] at h h'
  obtain ⟨⟨protocol, address, port⟩, hkey, h⟩ := h
  obtain ⟨⟨protocol', address', port'⟩, hkey', h'⟩ := h'
  dsimp only at h h'
  rw [← hmonitor, ← hfrequent] at h'
  split at h
  · rename_i value _ hvalue
    have hon : E.offlineEnabled = true := by
      by_contra hoff
      simp [hoff] at hvalue
    obtain ⟨rfl, hsamekey, rfl⟩ := hoffline hon
    rw [hkey, hkey'] at hsamekey
    cases hsamekey
    rw [hvalue] at h'
    obtain ⟨data, hdata, h⟩ := Option.bind_eq_some_iff.mp h
    obtain ⟨_, hdata', h'⟩ := Option.bind_eq_some_iff.mp h'
    rw [hdata] at hdata'
    cases hdata'
    refine initEndpoints_monitored ?_ ?_ h h'
    · rfl
    · rfl
  · rename_i value hnone hvalue
    rw [hnone, hvalue] at h'
    dsimp only at h'
    split at h
    · rename_i hall
      rw [if_pos hall] at h'
      obtain ⟨data, hdata, h⟩ := Option.bind_eq_some_iff.mp h
      obtain ⟨filters, hfilters, h⟩ := Option.bind_eq_some_iff.mp h
      obtain ⟨_, hdata', h'⟩ := Option.bind_eq_some_iff.mp h'
      obtain ⟨_, hfilters', h'⟩ := Option.bind_eq_some_iff.mp h'
      rw [hdata] at hdata'
      cases hdata'
      rw [hfilters] at hfilters'
      cases hfilters'
      cases h
      cases h'
      rfl
    · rename_i hall
      rw [if_neg hall] at h'
      cases h
      cases h'
      rfl
  · rename_i hnone hvalue
    rw [hnone, hvalue] at h'
    cases h
    cases h'
    rfl

variable [Double ν] {t t' : Settings ν}

/-- Where the settings of the preferences come from. -/
structure Parsed (E : Env ν) (prefs : Config) (t : Settings ν) : Prop where
  outputVerbosity : t .outputVerbosity = readVerbosity prefs .warningVerbosity
  logfile : t .logfile = some ((given prefs .logfile).getD "wkp_log.txt".toList)
  logVerbosity : t .logVerbosity = readVerbosity prefs .logfileOutputVerbosity
  alarmTime : t .alarmTime = some (readAlarmTime E prefs)
  offlineFile : t .offlineFile = readOfflineFile E prefs
  netmask : t .netmask = readNetmask prefs
  usePca : t .usePca = some (notFalse prefs .usePca)
  pcaLearningPhase : ∀ v, t .pcaLearningPhase = some v → v = readInt prefs .pcaLearningPhase 50
  useCorrelationMatrix : ∀ v, t .useCorrelationMatrix = some v →
    v = notFalse prefs .useCorrelationMatrix
  metrics : t .metrics = some (readMetrics E prefs)
  createFiles : t .createFiles = some (given prefs .outputDir).isSome
  outputDir : t .outputDir = some ((given prefs .outputDir).getD [])
  noiseThresholdPackets : t .noiseThresholdPackets = some (readInt prefs .noiseThresholdPackets 0)
  noiseThresholdBytes : t .noiseThresholdBytes = some (readInt prefs .noiseThresholdBytes 0)
  store : ∃ offlineFile netmask cfg, readOfflineFile E prefs = some offlineFile ∧
    readNetmask prefs = some netmask ∧ readStore E prefs offlineFile netmask = some cfg ∧
      t .protocolMonitoring = some cfg.protocolMonitoring ∧
        t .ipMonitoring = some cfg.ipMonitoring ∧
      t .portMonitoring = some cfg.portMonitoring ∧
        t .endPointListMaxSize = some cfg.endPointListMaxSize ∧
      t .endPointFilter = some cfg.endPointFilter ∧
        t .monitorEveryEndPoint = some cfg.monitorEveryEndPoint
  statTestFrequency : t .statTestFrequency = some (readInt prefs .testFrequency 1)
  reportOnlyFirstAttack : t .reportOnlyFirstAttack = some (!isFalse prefs .testFrequency)
  pauseUpdateWhenAttack : t .pauseUpdateWhenAttack = some (readPauseUpdate prefs)

theorem parsed (h : initPreferences E prefs .constructed = some t) : Parsed E prefs t := by
  simp only [initPreferences, Option.bind_eq_bind, Option.bind_eq_some_iff] at h
  obtain ⟨ov, hov, _, -, lv, hlv, _, -, off, hoff, nm, hnm, _, -, store, hstore, h⟩ := h
  cases h
  -- a member that has not been assigned has no value
  have hpca :
    ∀ {α : Type} {a v : α}, (if notFalse prefs .usePca = true then some a else none) = some v →
      v = a := by
    intro α a v hv
    split at hv
    · exact (Option.some.inj hv).symm
    · cases hv
  exact
    { outputVerbosity := hov.symm
      logfile := rfl
      logVerbosity := hlv.symm
      alarmTime := rfl
      offlineFile := hoff.symm
      netmask := hnm.symm
      usePca := rfl
      pcaLearningPhase := fun _ hv => hpca hv
      useCorrelationMatrix := fun _ hv => hpca hv
      metrics := rfl
      createFiles := rfl
      outputDir := rfl
      noiseThresholdPackets := rfl
      noiseThresholdBytes := rfl
      store := ⟨off, nm, store, hoff, hnm, hstore, rfl, rfl, rfl, rfl, rfl, rfl⟩
      statTestFrequency := rfl
      reportOnlyFirstAttack := rfl
      pauseUpdateWhenAttack := rfl }

/-- The parts of an end point that are looked at are settled by the key. -/
theorem Parsed.key_eq (h : Parsed E prefs t) (h' : Parsed E prefs' t')
    (hnode : prefs.findNode .endpointKey = prefs'.findNode .endpointKey) :
    t .protocolMonitoring = t' .protocolMonitoring ∧ t .ipMonitoring = t' .ipMonitoring ∧
      t .portMonitoring = t' .portMonitoring := by
  obtain ⟨off, nm, cfg, -, -, hstore, hprotocol, hip, hport, -⟩ := h.store
  obtain ⟨off', nm', cfg', -, -, hstore', hprotocol', hip', hport', -⟩ := h'.store
  have hkey := (readStore_frame hstore).1
  rw [readKey_congr hnode, (readStore_frame hstore').1, Option.some.injEq, Prod.mk.injEq,
    Prod.mk.injEq] at hkey
  rw [hprotocol, hprotocol', hip, hip', hport, hport', hkey.1, hkey.2.1, hkey.2.2]
  exact ⟨rfl, rfl, rfl⟩

theorem Parsed.maxSize_eq (h : Parsed E prefs t) (h' : Parsed E prefs' t')
    (hnode : prefs.findNode .endpointlistMaxsize = prefs'.findNode .endpointlistMaxsize) :
    t .endPointListMaxSize = t' .endPointListMaxSize := by
  obtain ⟨off, nm, cfg, -, -, hstore, -, -, -, hsize, -⟩ := h.store
  obtain ⟨off', nm', cfg', -, -, hstore', -, -, -, hsize', -⟩ := h'.store
  rw [hsize, hsize', (readStore_frame hstore).2, (readStore_frame hstore').2, readInt_congr hnode]

/-- What is monitored is settled by the elements documented for the filter. -/
theorem Parsed.monitored_eq (h : Parsed E prefs t) (h' : Parsed E prefs' t')
    (hnode : ∀ tag ∈ Setting.documented E.offlineEnabled .endPointFilter,
      prefs.findNode tag = prefs'.findNode tag) :
    t .endPointFilter = t' .endPointFilter ∧
    t .monitorEveryEndPoint = t' .monitorEveryEndPoint := by
  obtain ⟨off, nm, cfg, hoff, hnm, hstore, -, -, -, -, hfilter, hevery⟩ := h.store
  obtain ⟨off', nm', cfg', hoff', hnm', hstore', -, -, -, -, hfilter', hevery'⟩ := h'.store
  have hmonitored : monitored cfg = monitored cfg' := by
    refine readStore_monitored hstore hstore' (value_congr (hnode .endpointsToMonitor (.head _)))
      (value_congr (hnode .xFrequentEndpoints (.tail _ (.head _)))) fun hon => ⟨?_, ?_, ?_⟩
    · have hgiven := given_congr (hnode .offlineFile (by simp [Setting.documented, hon]))
      rw [readOfflineFile, hgiven, ← readOfflineFile, hoff'] at hoff
      exact (Option.some.inj hoff).symm
    · exact readKey_congr (hnode .endpointKey (by simp [Setting.documented, hon]))
    · have hgiven := given_congr (hnode .netmask (by simp [Setting.documented, hon]))
      rw [readNetmask, hgiven, ← readNetmask, hnm'] at hnm
      exact (Option.some.inj hnm).symm
  obtain ⟨hsameFilter, hsameEvery⟩ := Prod.mk.inj hmonitored
  rw [hfilter, hfilter', hevery, hevery', hsameFilter, hsameEvery]
  exact ⟨rfl, rfl⟩

/-- A setting of the preferences is settled by the elements documented for it, except for one. -/
theorem parsed_eq (h : Parsed E prefs t) (h' : Parsed E prefs' t') {x : Setting}
    (hx : x.sect = .preferences) (hne : x ≠ .reportOnlyFirstAttack)
    (hfind : ∀ tag ∈ x.documented E.offlineEnabled, prefs.findNode tag = prefs'.findNode tag) :
    ¬ t.DifferAt t' x := by
  -- it is enough that the same is parsed
  have hsame : t x = t' x → ¬ t.DifferAt t' x := by
    rintro heq ⟨v, v', hv, hv', hdiffer⟩
    rw [heq, hv'] at hv
    exact hdiffer (Option.some.inj hv).symm
  cases x with
  | outputVerbosity =>
    exact hsame
      (by rw [h.outputVerbosity, h'.outputVerbosity, readVerbosity_congr (hfind _ (.head _))])
  | logfile => exact hsame (by rw [h.logfile, h'.logfile, given_congr (hfind _ (.head _))])
  | logVerbosity =>
    exact hsame (by rw [h.logVerbosity, h'.logVerbosity, readVerbosity_congr (hfind _ (.head _))])
  | alarmTime =>
    exact hsame (by
      rw [h.alarmTime, h'.alarmTime, readAlarmTime, readAlarmTime,
        readInt_congr (hfind _ (.head _))])
  | offlineFile =>
    exact hsame (by
      rw [h.offlineFile, h'.offlineFile, readOfflineFile, readOfflineFile,
        given_congr (hfind _ (.head _))])
  | netmask =>
    exact hsame (by
      rw [h.netmask, h'.netmask, readNetmask, readNetmask, given_congr (hfind _ (.head _))])
  | usePca => exact hsame (by rw [h.usePca, h'.usePca, notFalse_congr (hfind _ (.head _))])
  | pcaLearningPhase =>
    rintro ⟨v, v', hv, hv', hdiffer⟩
    rw [h.pcaLearningPhase v hv, h'.pcaLearningPhase v' hv',
      readInt_congr (hfind _ (.head _))] at hdiffer
    exact hdiffer rfl
  | useCorrelationMatrix =>
    rintro ⟨v, v', hv, hv', hdiffer⟩
    rw [h.useCorrelationMatrix v hv, h'.useCorrelationMatrix v' hv',
      notFalse_congr (hfind _ (.head _))] at hdiffer
    exact hdiffer rfl
  | metrics =>
    exact hsame
      (by rw [h.metrics, h'.metrics, readMetrics, readMetrics, enter_congr (hfind _ (.head _))])
  | createFiles =>
    exact hsame (by rw [h.createFiles, h'.createFiles, given_congr (hfind _ (.head _))])
  | outputDir => exact hsame (by rw [h.outputDir, h'.outputDir, given_congr (hfind _ (.head _))])
  | noiseThresholdPackets =>
    exact hsame
      (by rw [h.noiseThresholdPackets, h'.noiseThresholdPackets, readInt_congr (hfind _ (.head _))])
  | noiseThresholdBytes =>
    exact hsame
      (by rw [h.noiseThresholdBytes, h'.noiseThresholdBytes, readInt_congr (hfind _ (.head _))])
  | statTestFrequency =>
    exact hsame
      (by rw [h.statTestFrequency, h'.statTestFrequency, readInt_congr (hfind _ (.head _))])
  | reportOnlyFirstAttack => exact absurd rfl hne
  | pauseUpdateWhenAttack =>
    exact hsame (by
      rw [h.pauseUpdateWhenAttack, h'.pauseUpdateWhenAttack, readPauseUpdate, readPauseUpdate,
        given_congr (hfind _ (.head _))])
  | protocolMonitoring => exact hsame (h.key_eq h' (hfind _ (.head _))).1
  | ipMonitoring => exact hsame (h.key_eq h' (hfind _ (.head _))).2.1
  | portMonitoring => exact hsame (h.key_eq h' (hfind _ (.head _))).2.2
  | endPointListMaxSize => exact hsame (h.maxSize_eq h' (hfind _ (.head _)))
  | endPointFilter => exact hsame (h.monitored_eq h' hfind).1
  | monitorEveryEndPoint => exact hsame (h.monitored_eq h' hfind).2
  | _ => cases hx

/-! ## The other sections -/

variable {c c' : Config} {s s' : Settings ν}

theorem cusumSection_congr (hl : c.enter .cusumParameters = c'.enter .cusumParameters)
    (hs : ∀ x, x.sect = .cusum → s x = s' x) (h : cusumSection E c s = some t)
    (h' : cusumSection E c' s' = some t') {x : Setting} (hx : x.sect = .cusum) : t x = t' x := by
  unfold cusumSection initCusumTest at h h'
  rw [← hl] at h'
  split at h
  · rename_i l hsome
    rw [hsome] at h'
    dsimp only at h'
    split at h
    · rename_i hoff
      rw [if_pos hoff] at h'
      cases h
      cases h'
      cases x <;> first | rfl | exact hs _ rfl | cases hx
    · rename_i hon
      rw [if_neg hon] at h'
      simp only [Option.bind_eq_bind, Option.bind_eq_some_iff] at h h'
      obtain ⟨_, hamplitude, _, hsmoothing, h⟩ := h
      obtain ⟨_, hamplitude', _, hsmoothing', h'⟩ := h'
      cases hamplitude.symm.trans hamplitude'
      cases hsmoothing.symm.trans hsmoothing'
      cases h
      cases h'
      cases x <;> first | rfl | cases hx
  · rename_i hnone
    rw [hnone] at h'
    cases h
    cases h'
    cases x <;> first | rfl | exact hs _ rfl | cases hx

theorem wkpSection_congr (hl : c.enter .wkpParameters = c'.enter .wkpParameters)
    (hs : ∀ x, x.sect = .wkp → s x = s' x) (h : wkpSection E c s = some t)
    (h' : wkpSection E c' s' = some t') {x : Setting} (hx : x.sect = .wkp) : t x = t' x := by
  unfold wkpSection initWkpTest at h h'
  rw [← hl] at h'
  split at h
  · rename_i l hsome
    rw [hsome] at h'
    dsimp only at h h'
    split at h
    · rename_i hoff
      rw [if_pos hoff] at h'
      cases h
      cases h'
      cases x <;> first | rfl | exact hs _ rfl | cases hx
    · rename_i hon
      rw [if_neg hon] at h'
      simp only [Option.bind_eq_bind, Option.bind_eq_some_iff] at h h'
      obtain ⟨_, hsignificance, h⟩ := h
      obtain ⟨_, hsignificance', h'⟩ := h'
      cases hsignificance.symm.trans hsignificance'
      cases h
      cases h'
      cases x <;> first | rfl | cases hx
  · rename_i hnone
    rw [hnone] at h'
    cases h
    cases h'
    cases x <;> first | rfl | exact hs _ rfl | cases hx

/-! ## Leaks -/

/-- `test_frequency` is "false" in the preferences that are read. -/
def testFrequencyFalse (c : Config) : Bool := (c.enter .preferences).any (isFalse · .testFrequency)

/-- Where the settings come from, and that those of the other sections come from the other sections.
-/
theorem init_settings (h : init E c = some s) : ∃ prefs s₁ s₂, c.enter .preferences = some prefs ∧
    Parsed E prefs s₁ ∧ (∀ x, x.sect ≠ .preferences → s₁ x = Settings.constructed x) ∧
      (∀ x, x.sect = .preferences → s x = s₁ x) ∧ cusumSection E c s₁ = some s₂ ∧
      wkpSection E c s₂ = some s := by
  obtain ⟨prefs, s₁, s₂, hprefs, h₁, h₂, h₃⟩ := init_eq_some h
  refine
    ⟨prefs, s₁, s₂, hprefs, parsed h₁, fun x hx => frame_preferences h₁ hx, fun x hx => ?_, h₂, h₃⟩
  rw [frame_wkp h₃ (by rw [hx]; decide), frame_cusum h₂ (by rw [hx]; decide)]

theorem reportOnlyFirstAttack_init (h : init E c = some s) :
    s .reportOnlyFirstAttack = some (!testFrequencyFalse c) := by
  obtain ⟨prefs, s₁, s₂, hprefs, hparsed, -, hsame, -, -⟩ := init_settings h
  rw [hsame _ rfl, hparsed.reportOnlyFirstAttack, testFrequencyFalse, hprefs]
  rfl

/-- The first `test_frequency` changes only if it is edited. -/
theorem testFrequencyFalse_eq {tag : Tag} (hdiff : DifferIn tag c c') (hne : tag ≠ .testFrequency)
    (h : init E c = some s) (h' : init E c' = some s') :
      testFrequencyFalse c = testFrequencyFalse c' := by
  obtain ⟨prefs, -, -, hprefs, -⟩ := init_settings h
  obtain ⟨prefs', -, -, hprefs', -⟩ := init_settings h'
  rw [testFrequencyFalse, testFrequencyFalse, hprefs, hprefs']
  rcases hdiff.preferences hprefs hprefs' with rfl | hedit
  · rfl
  · exact isFalse_congr (hedit.findNode_eq (Ne.symm hne))

/-- Some edit of an element changes a setting. -/
def Controls (ν : Type) [Double ν] (tag : Tag) (x : Setting) : Prop :=
  ∃ (E : Env ν) (c c' : Config) (s s' : Settings ν), DifferIn tag c c' ∧ init E c = some s ∧
    init E c' = some s' ∧ s.DifferAt s' x

/-- Everything can be opened, and numbers are not looked at. -/
def openEnv (ν : Type) [Double ν] : Env ν where
  offlineEnabled := false
  atof _ := ((0 : Int) : ν)
  atofFloat _ := ((0 : Int) : ν)
  openLogfile _ := true
  mkdir _ := true
  file _ := none

/-- Preferences with one element. -/
def single (tag : Tag) (value : String) : Config := [.element .preferences [] [leaf tag value]]

theorem differIn_single (tag : Tag) (value value' : String) :
    DifferIn tag (single tag value) (single tag value') :=
  ⟨[], [], _, _, [], rfl, rfl, [], [], _, _, [], rfl, rfl⟩

/-- The settings that an edit may change, if it is no edit of `test_frequency`. -/
theorem not_leak {tag : Tag} (hdiff : DifferIn tag c c') (h : init E c = some s)
    (h' : init E c' = some s')
    (hflag : testFrequencyFalse c = testFrequencyFalse c') {x : Setting} (hx : s.DifferAt s' x) :
    tag ∈ x.documented E.offlineEnabled := by
  by_contra hdoc
  obtain ⟨prefs, s₁, s₂, hprefs, hparsed, hframe, hsame, h₂, h₃⟩ := init_settings h
  obtain ⟨prefs', s₁', s₂', hprefs', hparsed', hframe', hsame', h₂', h₃'⟩ := init_settings h'
  obtain ⟨v, v', hv, hv', hdiffer⟩ := hx
  have hne : s x ≠ s' x := fun heq => by
    rw [heq, hv'] at hv
    exact hdiffer (Option.some.inj hv).symm
  cases hsect : x.sect with
  | preferences =>
    by_cases hreport : x = .reportOnlyFirstAttack
    · subst hreport
      rw [reportOnlyFirstAttack_init h, reportOnlyFirstAttack_init h', hflag] at hne
      exact hne rfl
    · refine parsed_eq hparsed hparsed' hsect hreport (fun name hname => ?_)
        ⟨v, v', ?_, ?_, hdiffer⟩
      · have hother : name ≠ tag := fun heq => hdoc (heq ▸ hname)
        rcases hdiff.preferences hprefs hprefs' with rfl | hedit
        · rfl
        · exact hedit.findNode_eq hother
      · rw [← hsame x hsect, hv]
      · rw [← hsame' x hsect, hv']
  | cusum =>
    rw [frame_wkp h₃ (by rw [hsect]; decide), frame_wkp h₃' (by rw [hsect]; decide)] at hne
    refine hne (cusumSection_congr (hdiff.enter (by decide)) (fun z hz => ?_) h₂ h₂' hsect)
    rw [hframe z (by rw [hz]; decide), hframe' z (by rw [hz]; decide)]
  | wkp =>
    refine hne (wkpSection_congr (hdiff.enter (by decide)) (fun z hz => ?_) h₃ h₃' hsect)
    rw [frame_cusum h₂ (by rw [hz]; decide), frame_cusum h₂' (by rw [hz]; decide),
      hframe z (by rw [hz]; decide), hframe' z (by rw [hz]; decide)]

end

/-! ## Two edits of `test_frequency` -/

end Topas.Wkp
