import Topas.Core.Xml
import Topas.L4Module.AcceptedIds
import Topas.L7Stat.FilterEndpoints
import Topas.L7Stat.FrequentEndpoints
import Topas.L7Stat.Independence
import Topas.L7Stat.Stat

/-!
# The settings of the statistical module

`Stat::init` reads the configuration section by section and assigns the members that hold the
user's settings. A member of a built-in type that it does not assign keeps what was in memory.

* `initialised_iff`: what the tests read has been assigned if there are parameters for the WKP
  tests.
* `test_of_memory`: what a test does is then settled, whatever was in memory.
-/
namespace Topas.Wkp

open Text Xml

/-! ## The configuration -/

/-- The elements of the configuration, named as in the file.
mirrors detectionmodules/statmodules/wkp-module/stat-main.cpp:45-88 -/
inductive Tag where
  | preferences
  | warningVerbosity | logfileOutputVerbosity | logfile | alarmTime | acceptedSourceIds | offlineFile
  | endpointKey | protocol | port | address | netmask
  | usePca | useCorrelationMatrix | pcaLearningPhase
  | metrics | metric (m : Metric)
  | outputDir | noiseThresholdPackets | noiseThresholdBytes | endpointlistMaxsize
  | testFrequency | reportOnlyFirstAttack | pauseUpdateWhenAttack
  | xFrequentEndpoints | endpointsToMonitor
  | cusumParameters | cusumTest
  | amplitudePercentage | logVarianceEwma | cusumLearningPhase | repetitionFactor | smoothingConstant
  | wkpParameters | wmwTest | ksTest | pcsTest
  | oldSampleSize | newSampleSize | wmwOneSided | significanceLevel
  /-- Any other name. -/
  | other (name : String)
  deriving DecidableEq, Repr

/-- The attributes of a metric.
mirrors detectionmodules/statmodules/wkp-module/stat-main.cpp:62-64 -/
def qdFactor : String := "qd_factor"
def absolute : String := "absolute"
def negate : String := "negate"

/-- What is in the element that the file consists of. -/
abbrev Config := Level Tag

/-- What `init` gets from elsewhere. -/
structure Env (ν : Type) where
  /-- `OFFLINE_ENABLED` -/
  offlineEnabled : Bool
  atof : List Char → ν
  /-- `(float) atof(s)` -/
  atofFloat : List Char → ν
  /-- whether a log file can be opened -/
  openLogfile : List Char → Bool
  /-- whether a directory can be made -/
  mkdir : List Char → Bool
  /-- what is in a file, `none` if it cannot be opened -/
  file : List Char → Option (List Char)

/-! ## The settings -/

/-- The members that `init` sets.
mirrors detectionmodules/statmodules/wkp-module/stat-main.h:140-201 and stat-store.h:76-114 -/
inductive Setting where
  | outputVerbosity | logfile | logVerbosity | alarmTime | offlineFile | netmask
  | usePca | pcaLearningPhase | useCorrelationMatrix
  | metrics | createFiles | outputDir | noiseThresholdPackets | noiseThresholdBytes
  | protocolMonitoring | ipMonitoring | portMonitoring | endPointListMaxSize
  | endPointFilter | monitorEveryEndPoint
  | statTestFrequency | reportOnlyFirstAttack | pauseUpdateWhenAttack
  | enableCusumTest | amplitudePercentage | cusumLearningPhase | repetitionFactor | smoothingConstant
  | logVarianceEwma
  | enableWmwTest | enableKsTest | enablePcsTest | enableWkpTest
  | sampleOldSize | sampleNewSize | wmwTwoSided | significanceLevel
  deriving DecidableEq, Repr

/-- The type of a setting. -/
def Setting.Value (ν : Type) : Setting → Type
  | outputVerbosity | logVerbosity => Fin 6
  | logfile | offlineFile | outputDir => List Char
  | alarmTime => UInt32
  | netmask => Fin 33
  | metrics => List (MetricData ν)
  | endPointFilter => List FilterEndPoint
  | pauseUpdateWhenAttack => Fin 4
  | pcaLearningPhase | noiseThresholdPackets | noiseThresholdBytes | endPointListMaxSize
  | statTestFrequency => Int32
  | cusumLearningPhase | repetitionFactor | sampleOldSize | sampleNewSize => UInt16
  | amplitudePercentage | smoothingConstant | significanceLevel => ν
  | usePca | useCorrelationMatrix | createFiles | protocolMonitoring | ipMonitoring | portMonitoring
  | monitorEveryEndPoint | reportOnlyFirstAttack | enableCusumTest | logVarianceEwma | enableWmwTest
  | enableKsTest | enablePcsTest | enableWkpTest | wmwTwoSided => Bool

/-- The members, `none` where nothing has been assigned. -/
abbrev Settings (ν : Type) := (x : Setting) → Option (x.Value ν)

variable {ν : Type}

/-- The members before `init`: those with a constructor of their own or an initializer have a value.
-/
def Settings.constructed : Settings ν
  | .alarmTime => some (10 : UInt32)
  | .offlineFile => some ([] : List Char)
  | .outputDir => some ([] : List Char)
  | .netmask => some (32 : Fin 33)
  | .metrics => some ([] : List (MetricData ν))
  | .protocolMonitoring => some false
  | .ipMonitoring => some false
  | .portMonitoring => some false
  | .endPointListMaxSize => some (0 : Int32)
  | .endPointFilter => some ([] : List FilterEndPoint)
  | .monitorEveryEndPoint => some false
  | _ => none

/-! ## Reading an element -/

section

variable (l : Config) (tag : Tag)

/-- The text of an element that is there and is not empty. -/
def given : Option (List Char) := (l.value tag).filter (· ≠ [])

def isFalse : Bool := l.value tag = some "false".toList

def notFalse : Bool := (l.value tag).any (· ≠ "false".toList)

def readInt (default : Int32) : Int32 := ((given l tag).map atoi).getD default

/-- `none` for a number that is not between 0 and 5, which stops the module.
mirrors detectionmodules/statmodules/wkp-module/stat-main.cpp:222-243 and 256-277 -/
def readVerbosity : Option (Fin 6) :=
  match given l tag with
  | some value =>
    if h : 0 ≤ (atoi value).toInt ∧ (atoi value).toInt ≤ 5 then
      some ⟨(atoi value).toInt.toNat, (Int.toNat_lt h.1).mpr (Int.lt_of_le_of_lt h.2 (by decide))⟩
    else none
  | none => some 3

/-- A `uint16_t` for which 0 is replaced by the default. -/
def readPositive (default : UInt16) : UInt16 :=
  match given l tag with
  | some value =>
    if 0 < (atoi value).toUInt32.toUInt16 then (atoi value).toUInt32.toUInt16 else default
  | none => default

/-- mirrors detectionmodules/statmodules/wkp-module/stat-main.cpp:345-355 -/
def readNetmask : Option (Fin 33) :=
  match given l .netmask with
  | some value =>
    if h : 0 ≤ (atoi value).toInt ∧
      (atoi value).toInt ≤ 32 then some ⟨(atoi value).toInt.toNat, by omega⟩
    else none
  | none => some 32

/-- mirrors detectionmodules/statmodules/wkp-module/stat-main.cpp:485-494 -/
def readPauseUpdate : Fin 4 :=
  match given l .pauseUpdateWhenAttack with
  | some value =>
    if h : 0 ≤ (atoi value).toInt16.toInt ∧ (atoi value).toInt16.toInt ≤ 3 then
      ⟨(atoi value).toInt16.toInt.toNat, by omega⟩
    else 0
  | none => 0

/-- The loop that cuts a list of source ids at its commas does not end.
mirrors detectionmodules/statmodules/wkp-module/stat-main.cpp:282-306 -/
def acceptsAll : Bool := (given l .acceptedSourceIds).all (· = "all".toList)

/-- It is passed where there is no list to cut. -/
theorem acceptsAll_iff (P : Platform) :
    acceptsAll l = true ↔ (Stat.acceptSourceIds P (l.value .acceptedSourceIds)).Halts := by
  unfold acceptsAll given Stat.acceptSourceIds
  cases l.value .acceptedSourceIds with
  | none => simp
  | some str =>
    dsimp only
    by_cases hall : str ≠ [] ∧ str ≠ "all".toList
    · rw [if_pos hall]
      refine iff_of_false ?_ (splitIds_diverges P str)
      simpa [hall.1] using hall.2
    · rw [if_neg hall]
      refine iff_of_true ?_ (Proc.halts_pure (a := ()))
      by_cases hnil : str = []
      · simp [hnil]
      · simpa [hnil] using not_not.mp fun hne => hall ⟨hnil, hne⟩

/-- `protocol`, `address` and `port`; `none` where `enterNode` throws.
mirrors detectionmodules/statmodules/wkp-module/stat-main.cpp:594-621 -/
def readKey : Option (Bool × Bool × Bool) :=
  if l.nodeExists .endpointKey then do
    let key ← l.enter .endpointKey
    some (key.nodeExists .protocol, key.nodeExists .address, key.nodeExists .port)
  else some (false, false, false)

end

/-- The filters of a file, one a line.
mirrors detectionmodules/statmodules/wkp-module/stat-main.cpp:730-735 -/
def readFilters (is : IfStream) : Option (List FilterEndPoint) :=
  if _heof : is.eof = true then some []
  else
    let next := is.getline.1
    if next.fail then some []
    else do
      let fep ← FilterEndPoint.new.fromString is.getline.2 true
      let feps ← readFilters next
      some (fep :: feps)
termination_by if is.eof then 0 else is.rest.length + 1
decreasing_by
  have := @IfStream.rest_getline is
  simp only [_heof, Bool.false_eq_true, if_false]
  split <;> simp_all

section

variable [Double ν] (E : Env ν)

/-- `none` outside of the range from 0 to 1, which stops the module. -/
def readFraction (l : Config) (tag : Tag) (default : ν) : Option ν :=
  match given l tag with
  | some value =>
    if E.atof value < ((0 : Int) : ν) ∨
      ((1 : Int) : ν) < E.atof value then none else some (E.atof value)
  | none => some default

/-- An element that is not named like a metric is skipped.
mirrors detectionmodules/statmodules/wkp-module/stat-main.cpp:382-419 -/
def readMetric : Xml Tag → Option (MetricData ν)
  | .element (.metric m) attributes _ =>
    some {
      type := m
      absolute := (attributes.lookup absolute).any (· ≠ "false".toList)
      negate := (attributes.lookup negate).any (· ≠ "false".toList)
      applyQuasiDifference := (attributes.lookup qdFactor).isSome
      factor := ((attributes.lookup qdFactor).map E.atofFloat).getD ((0 : Int) : ν) }
  | _ => none

def readMetrics (prefs : Config) : List (MetricData ν) :=
  ((prefs.enter .metrics).getD []).filterMap (readMetric E)

/-- mirrors detectionmodules/statmodules/wkp-module/stat-main.cpp:313-323 -/
def readAlarmTime (prefs : Config) : UInt32 :=
  if E.offlineEnabled then 0 else (readInt prefs .alarmTime 10).toUInt32

/-- mirrors detectionmodules/statmodules/wkp-module/stat-main.cpp:327-337 -/
def readOfflineFile (prefs : Config) : Option (List Char) :=
  match given prefs .offlineFile with
  | some value => some value
  | none => if E.offlineEnabled then none else some []

/-- The key, the size and the filter of the store.
mirrors detectionmodules/statmodules/wkp-module/stat-main.cpp:586-741 -/
def readStore (prefs : Config) (offlineFile : List Char) (netmask : Fin 33) :
    Option StoreConfig := do
  let (protocol, address, port) ← readKey prefs
  let cfg : StoreConfig :=
    { netmask, ipMonitoring := address, portMonitoring := port, protocolMonitoring := protocol
      endPointListMaxSize := readInt prefs .endpointlistMaxsize 500
      monitorEveryEndPoint := false, endPointFilter := [] }
  match (if E.offlineEnabled then prefs.value .xFrequentEndpoints else none),
    prefs.value .endpointsToMonitor with
  | some value, _ => do
    let data ← E.file offlineFile
    initEndpoints cfg value (.ofText data)
  | none, some value =>
    if value ≠ "all".toList then do
      let data ← E.file value
      let filters ← readFilters (.ofText data)
      some { cfg with endPointFilter := filters }
    else some { cfg with monitorEveryEndPoint := true }
  | none, none => some { cfg with monitorEveryEndPoint := true }

/-! ## The sections -/

/-- mirrors detectionmodules/statmodules/wkp-module/stat-main.cpp:219-511 -/
def initPreferences (prefs : Config) (s : Settings ν) : Option (Settings ν) := do
  let outputVerbosity ← readVerbosity prefs .warningVerbosity
  let logfile := (given prefs .logfile).getD "wkp_log.txt".toList
  guard (E.openLogfile logfile)
  let logVerbosity ← readVerbosity prefs .logfileOutputVerbosity
  guard (E.offlineEnabled || acceptsAll prefs)
  let offlineFile ← readOfflineFile E prefs
  let netmask ← readNetmask prefs
  let usePca := notFalse prefs .usePca
  guard ((given prefs .outputDir).all E.mkdir)
  let store ← readStore E prefs offlineFile netmask
  some fun
    | .outputVerbosity => some outputVerbosity
    | .logfile => some logfile
    | .logVerbosity => some logVerbosity
    | .alarmTime => some (readAlarmTime E prefs)
    | .offlineFile => some offlineFile
    | .netmask => some netmask
    | .usePca => some usePca
    | .pcaLearningPhase =>
      if usePca then some (readInt prefs .pcaLearningPhase 50) else s .pcaLearningPhase
    | .useCorrelationMatrix =>
      if usePca then some (notFalse prefs .useCorrelationMatrix) else s .useCorrelationMatrix
    | .metrics => some (readMetrics E prefs)
    | .createFiles => some (given prefs .outputDir).isSome
    | .outputDir => some ((given prefs .outputDir).getD [])
    | .noiseThresholdPackets => some (readInt prefs .noiseThresholdPackets 0)
    | .noiseThresholdBytes => some (readInt prefs .noiseThresholdBytes 0)
    | .protocolMonitoring => some store.protocolMonitoring
    | .ipMonitoring => some store.ipMonitoring
    | .portMonitoring => some store.portMonitoring
    | .endPointListMaxSize => some store.endPointListMaxSize
    | .endPointFilter => some store.endPointFilter
    | .monitorEveryEndPoint => some store.monitorEveryEndPoint
    | .statTestFrequency => some (readInt prefs .testFrequency 1)
    -- the element that is looked up is that of the setting before
    | .reportOnlyFirstAttack => some (!isFalse prefs .testFrequency)
    | .pauseUpdateWhenAttack => some (readPauseUpdate prefs)
    | x => s x

/-- `none` for a number that is not positive, which stops the module.
mirrors detectionmodules/statmodules/wkp-module/stat-main.cpp:755-764 -/
def readAmplitude (l : Config) : Option ν :=
  match given l .amplitudePercentage with
  | some value => if ((0 : Int) : ν) < E.atof value then some (E.atof value) else none
  | none => some ((3 : Int) : ν)

/-- mirrors detectionmodules/statmodules/wkp-module/stat-main.cpp:744-808 -/
def initCusumTest (l : Config) (s : Settings ν) : Option (Settings ν) :=
  if isFalse l .cusumTest then
    some fun
      | .enableCusumTest => some false
      | x => s x
  else do
    let amplitudePercentage ← readAmplitude E l
    let smoothingConstant ← readFraction E l .smoothingConstant (E.atof "0.15".toList)
    some fun
      | .enableCusumTest => some true
      | .amplitudePercentage => some amplitudePercentage
      | .cusumLearningPhase => some (readPositive l .cusumLearningPhase 10)
      | .repetitionFactor => some (readPositive l .repetitionFactor 2)
      | .smoothingConstant => some smoothingConstant
      | .logVarianceEwma => some (notFalse l .logVarianceEwma)
      | x => s x

/-- mirrors detectionmodules/statmodules/wkp-module/stat-main.cpp:810-877 -/
def initWkpTest (l : Config) (s : Settings ν) : Option (Settings ν) :=
  let wmw := !isFalse l .wmwTest
  let ks := !isFalse l .ksTest
  let pcs := !isFalse l .pcsTest
  let s : Settings ν := fun
    | .enableWmwTest => some wmw
    | .enableKsTest => some ks
    | .enablePcsTest => some pcs
    | .enableWkpTest => some (wmw || ks || pcs)
    | x => s x
  if !(wmw || ks || pcs) then some s
  else do
    let significanceLevel ← readFraction E l .significanceLevel (E.atof "0.01".toList)
    some fun
      | .sampleOldSize => some (readPositive l .oldSampleSize 30)
      | .sampleNewSize => some (readPositive l .newSampleSize 20)
      | .wmwTwoSided => some (!notFalse l .wmwOneSided)
      | .significanceLevel => some significanceLevel
      | x => s x

/-- mirrors detectionmodules/statmodules/wkp-module/stat-main.cpp:517-523 -/
def cusumSection (config : Config) (s : Settings ν) : Option (Settings ν) :=
  match config.enter .cusumParameters with
  | some l => initCusumTest E l s
  | none =>
    some fun
      | .enableCusumTest => some false
      | x => s x

/-- mirrors detectionmodules/statmodules/wkp-module/stat-main.cpp:529-537 -/
def wkpSection (config : Config) (s : Settings ν) : Option (Settings ν) :=
  match config.enter .wkpParameters with
  | some l => initWkpTest E l s
  | none =>
    some fun
      | .enableWmwTest => some false
      | .enableKsTest => some false
      | .enablePcsTest => some false
      | x => s x

/-- What `init` leaves, `none` where it stops the module or does not come to its end.
mirrors detectionmodules/statmodules/wkp-module/stat-main.cpp:197-562 -/
def init (config : Config) : Option (Settings ν) := do
  let prefs ← config.enter .preferences
  let s ← initPreferences E prefs .constructed
  let s ← cusumSection E config s
  wkpSection E config s

end

/-! ## What is read has been assigned -/

/-- The section of the configuration that a setting is in. -/
inductive Section where
  | preferences | cusum | wkp
  deriving DecidableEq, Repr

def Setting.sect : Setting → Section
  | enableCusumTest | amplitudePercentage | cusumLearningPhase | repetitionFactor | smoothingConstant
  | logVarianceEwma => .cusum
  | enableWmwTest | enableKsTest | enablePcsTest | enableWkpTest | sampleOldSize | sampleNewSize
  | wmwTwoSided | significanceLevel => .wkp
  | _ => .preferences

/-- What `Stat::test` and the functions that it calls can read. A flag that has not been assigned
can be true.
mirrors detectionmodules/statmodules/wkp-module/stat-main.cpp:935-2151 -/
def Settings.Reads (s : Settings ν) : Setting → Prop
  | .outputVerbosity | .logfile | .logVerbosity | .metrics | .noiseThresholdPackets | .noiseThresholdBytes
  | .statTestFrequency | .reportOnlyFirstAttack | .pauseUpdateWhenAttack => True
  | .usePca | .createFiles | .enableCusumTest | .enableWkpTest => True
  | .pcaLearningPhase | .useCorrelationMatrix => s .usePca ≠ some false
  | .outputDir => s .createFiles ≠ some false
  | .amplitudePercentage | .cusumLearningPhase | .repetitionFactor | .smoothingConstant
  | .logVarianceEwma => s .enableCusumTest ≠ some false
  | .enableWmwTest | .enableKsTest | .enablePcsTest | .sampleOldSize | .sampleNewSize | .wmwTwoSided
  | .significanceLevel => s .enableWkpTest ≠ some false
  | .alarmTime | .offlineFile | .netmask | .protocolMonitoring | .ipMonitoring | .portMonitoring
  | .endPointListMaxSize | .endPointFilter | .monitorEveryEndPoint => False

/-- Everything that can be read has been assigned. -/
def Settings.Initialised (s : Settings ν) : Prop := ∀ x, s.Reads x → (s x).isSome = true

/-- What of a section's settings is read depends on that section only. -/
theorem reads_congr {s s' : Settings ν} {x : Setting} (h : ∀ y, y.sect = x.sect → s' y = s y) :
    s'.Reads x ↔ s.Reads x := by
  cases x <;> first
    | exact Iff.rfl
    | rw [Settings.Reads, Settings.Reads, h .usePca rfl]
    | rw [Settings.Reads, Settings.Reads, h .createFiles rfl]
    | rw [Settings.Reads, Settings.Reads, h .enableCusumTest rfl]
    | rw [Settings.Reads, Settings.Reads, h .enableWkpTest rfl]

section

variable [Double ν] {E : Env ν} {prefs config : Config} {s s' : Settings ν}

/-- A section leaves the settings of the others alone. -/
theorem frame_preferences (h : initPreferences E prefs s = some s') {x : Setting}
    (hx : x.sect ≠ .preferences) :
    s' x = s x := by
  simp only [initPreferences, Option.bind_eq_bind, Option.bind_eq_some_iff] at h
  obtain ⟨_, -, _, -, _, -, _, -, _, -, _, -, _, -, _, -, h⟩ := h
  cases h
  cases x <;> first | rfl | exact absurd rfl hx

theorem reads_preferences (h : initPreferences E prefs s = some s') {x : Setting}
    (hx : x.sect = .preferences) (hread : s'.Reads x) : (s' x).isSome = true := by
  simp only [initPreferences, Option.bind_eq_bind, Option.bind_eq_some_iff] at h
  obtain ⟨_, -, _, -, _, -, _, -, _, -, _, -, _, -, _, -, h⟩ := h
  cases h
  -- the members for PCA have been assigned if PCA is used
  have hpca : ∀ {α : Type} {a : α} {o : Option α}, some (notFalse prefs .usePca) ≠ some false →
      (if notFalse prefs .usePca = true then some a else o).isSome = true := by
    intro α a o hne
    rw [if_pos (by simpa using hne)]
    rfl
  cases x <;> first | rfl | exact hpca hread | cases hx

theorem frame_cusum (h : cusumSection E config s = some s') {x : Setting} (hx : x.sect ≠ .cusum) :
    s' x = s x := by
  unfold cusumSection initCusumTest at h
  split at h
  · split at h
    · cases h
      cases x <;> first | rfl | exact absurd rfl hx
    · simp only [Option.bind_eq_bind, Option.bind_eq_some_iff] at h
      obtain ⟨_, -, _, -, h⟩ := h
      cases h
      cases x <;> first | rfl | exact absurd rfl hx
  · cases h
    cases x <;> first | rfl | exact absurd rfl hx

theorem reads_cusum (h : cusumSection E config s = some s') {x : Setting} (hx : x.sect = .cusum)
    (hread : s'.Reads x) : (s' x).isSome = true := by
  unfold cusumSection initCusumTest at h
  split at h
  · split at h
    · cases h
      cases x <;> first | rfl | exact absurd rfl hread | cases hx
    · simp only [Option.bind_eq_bind, Option.bind_eq_some_iff] at h
      obtain ⟨_, -, _, -, h⟩ := h
      cases h
      cases x <;> first | rfl | cases hx
  · cases h
    cases x <;> first | rfl | exact absurd rfl hread | cases hx

theorem frame_wkp (h : wkpSection E config s = some s') {x : Setting} (hx : x.sect ≠ .wkp) :
    s' x = s x := by
  unfold wkpSection initWkpTest at h
  split at h
  · dsimp only at h
    split at h
    · cases h
      cases x <;> first | rfl | exact absurd rfl hx
    · simp only [Option.bind_eq_bind, Option.bind_eq_some_iff] at h
      obtain ⟨_, -, h⟩ := h
      cases h
      cases x <;> first | rfl | exact absurd rfl hx
  · cases h
    cases x <;> first | rfl | exact absurd rfl hx

theorem reads_wkp (h : wkpSection E config s = some s')
    (hsection : (config.enter .wkpParameters).isSome = true)
    {x : Setting} (hx : x.sect = .wkp) (hread : s'.Reads x) : (s' x).isSome = true := by
  unfold wkpSection initWkpTest at h
  split at h
  · dsimp only at h
    split at h
    · rename_i l _ hnone
      cases h
      have hnone :
          some (!isFalse l .wmwTest || !isFalse l .ksTest || !isFalse l .pcsTest) = some false := by
        rw [Option.some.injEq, ← Bool.not_eq_true']
        exact hnone
      cases x <;> first | rfl | exact absurd hnone hread | cases hx
    · simp only [Option.bind_eq_bind, Option.bind_eq_some_iff] at h
      obtain ⟨_, -, h⟩ := h
      cases h
      cases x <;> first | rfl | cases hx
  · rename_i hnone
    rw [hnone] at hsection
    cases hsection

/-- Without parameters the flag that sums up the WKP tests is left as it was. -/
theorem enableWkpTest_wkp (h : wkpSection E config s = some s')
    (hsection : config.enter .wkpParameters = none) :
    s' .enableWkpTest = s .enableWkpTest := by
  rw [wkpSection, hsection] at h
  cases h
  rfl

theorem init_eq_some (h : init E config = some s) : ∃ prefs s₁ s₂,
    config.enter .preferences = some prefs ∧ initPreferences E prefs .constructed = some s₁ ∧
      cusumSection E config s₁ = some s₂ ∧ wkpSection E config s₂ = some s := by
  simp only [init, Option.bind_eq_bind, Option.bind_eq_some_iff] at h
  obtain ⟨prefs, hprefs, s₁, h₁, s₂, h₂, h₃⟩ := h
  exact ⟨prefs, s₁, s₂, hprefs, h₁, h₂, h₃⟩

/-- Where `init` comes to its end, only the flag that sums up the WKP tests can be left out, and it
is if the parameters of these are missing. -/
theorem initialised_iff (E : Env ν) (config : Config) {s : Settings ν}
    (h : init E config = some s) :
    s.Initialised ↔ (config.enter .wkpParameters).isSome = true := by
  obtain ⟨prefs, s₁, s₂, -, h₁, h₂, h₃⟩ := init_eq_some h
  constructor
  · intro hall
    by_contra hsection
    have hnone : config.enter .wkpParameters = none := by simpa using hsection
    have hflag : s .enableWkpTest = none := by
      rw [enableWkpTest_wkp h₃ hnone, frame_cusum h₂ (by decide), frame_preferences h₁ (by decide)]
      rfl
    have := hall .enableWkpTest trivial
    rw [hflag] at this
    cases this
  · intro hsection x hread
    cases hx : x.sect with
    | preferences =>
      have hframe : ∀ y : Setting, y.sect = x.sect → s y = s₁ y := fun y hy => by
        rw [frame_wkp h₃ (by rw [hy, hx]; decide), frame_cusum h₂ (by rw [hy, hx]; decide)]
      rw [hframe x rfl]
      exact reads_preferences h₁ hx ((reads_congr hframe).mp hread)
    | cusum =>
      have hframe : ∀ y : Setting, y.sect = x.sect → s y = s₂ y := fun y hy =>
        frame_wkp h₃ (by rw [hy, hx]; decide)
      rw [hframe x rfl]
      exact reads_cusum h₂ hx ((reads_congr hframe).mp hread)
    | wkp => exact reads_wkp h₃ hsection hx hread

/-! ## Memory that has not been assigned -/

/-- What the tests find in memory: the value of every setting that has been assigned, and anything
for the others. -/
structure Memory (s : Settings ν) (cfg : StatConfig ν) : Prop where
  metrics : ∀ v, s .metrics = some v → cfg.metrics = v
  noiseThresholdPackets : ∀ v, s .noiseThresholdPackets = some v → cfg.noiseThreshold.packets = v
  noiseThresholdBytes : ∀ v, s .noiseThresholdBytes = some v → cfg.noiseThreshold.bytes = v
  statTestFrequency : ∀ v, s .statTestFrequency = some v → cfg.statTestFrequency = v
  reportOnlyFirstAttack : ∀ v, s .reportOnlyFirstAttack = some v → cfg.reportOnlyFirstAttack = v
  pauseUpdateWhenAttack : ∀ v, s .pauseUpdateWhenAttack = some v → cfg.pauseUpdateWhenAttack = v
  enableCusumTest : ∀ v, s .enableCusumTest = some v → cfg.enableCusumTest = v
  amplitudePercentage : ∀ v, s .amplitudePercentage = some v → cfg.amplitudePercentage = v
  cusumLearningPhase : ∀ v, s .cusumLearningPhase = some v → cfg.cusumLearningPhase = v
  repetitionFactor : ∀ v, s .repetitionFactor = some v → cfg.repetitionFactor = v
  smoothingConstant : ∀ v, s .smoothingConstant = some v → cfg.smoothingConstant = v
  logVarianceEwma : ∀ v, s .logVarianceEwma = some v → cfg.logVarianceEwma = v
  enableWmwTest : ∀ v, s .enableWmwTest = some v → cfg.enableWmwTest = v
  enableKsTest : ∀ v, s .enableKsTest = some v → cfg.enableKsTest = v
  enablePcsTest : ∀ v, s .enablePcsTest = some v → cfg.enablePcsTest = v
  enableWkpTest : ∀ v, s .enableWkpTest = some v → cfg.enableWkpTest = v
  sampleOldSize : ∀ v, s .sampleOldSize = some v → cfg.sampleOldSize = v
  sampleNewSize : ∀ v, s .sampleNewSize = some v → cfg.sampleNewSize = v
  wmwTwoSided : ∀ v, s .wmwTwoSided = some v → cfg.wmwTwoSided = v
  significanceLevel : ∀ v, s .significanceLevel = some v → cfg.significanceLevel = v

/-- Two memories in which the tests of two samples are the same. -/
def SameTests (cfg cfg' : StatConfig ν) : Prop :=
  cfg.wmwTest = cfg'.wmwTest ∧ cfg.ksTest = cfg'.ksTest ∧ cfg.pcsTest = cfg'.pcsTest

/-- An assigned setting is the same in both. -/
theorem same {α : Type} {o : Option α} (h : o.isSome = true) {a b : α}
    (ha : ∀ v, o = some v → a = v) (hb : ∀ v, o = some v → b = v) : a = b := by
  obtain ⟨v, hv⟩ := Option.isSome_iff_exists.mp h
  rw [ha v hv, hb v hv]

section

variable {cfg cfg' : StatConfig ν}

/-- The settings of the WKP tests are the same, if these are made. -/
structure SameWkp (cfg cfg' : StatConfig ν) : Prop where
  enableWmwTest : cfg.enableWmwTest = cfg'.enableWmwTest
  enableKsTest : cfg.enableKsTest = cfg'.enableKsTest
  enablePcsTest : cfg.enablePcsTest = cfg'.enablePcsTest
  sampleOldSize : cfg.sampleOldSize = cfg'.sampleOldSize
  sampleNewSize : cfg.sampleNewSize = cfg'.sampleNewSize
  wmwTwoSided : cfg.wmwTwoSided = cfg'.wmwTwoSided
  significanceLevel : cfg.significanceLevel = cfg'.significanceLevel

structure SameCusum (cfg cfg' : StatConfig ν) : Prop where
  amplitudePercentage : cfg.amplitudePercentage = cfg'.amplitudePercentage
  cusumLearningPhase : cfg.cusumLearningPhase = cfg'.cusumLearningPhase
  repetitionFactor : cfg.repetitionFactor = cfg'.repetitionFactor
  smoothingConstant : cfg.smoothingConstant = cfg'.smoothingConstant
  logVarianceEwma : cfg.logVarianceEwma = cfg'.logVarianceEwma

/-- The settings that are read whatever is enabled. -/
structure SameCommon (cfg cfg' : StatConfig ν) : Prop where
  metrics : cfg.metrics = cfg'.metrics
  noiseThreshold : cfg.noiseThreshold = cfg'.noiseThreshold
  statTestFrequency : cfg.statTestFrequency = cfg'.statTestFrequency
  reportOnlyFirstAttack : cfg.reportOnlyFirstAttack = cfg'.reportOnlyFirstAttack
  pauseUpdateWhenAttack : cfg.pauseUpdateWhenAttack = cfg'.pauseUpdateWhenAttack
  enableCusumTest : cfg.enableCusumTest = cfg'.enableCusumTest
  enableWkpTest : cfg.enableWkpTest = cfg'.enableWkpTest

theorem wkp_congr (h : SameCommon cfg cfg') (htests : SameTests cfg cfg') (hw : SameWkp cfg cfg')
    (P : Params ν) :
    (∀ x, wkpUpdate cfg P x = wkpUpdate cfg' P x) ∧ wkpTest cfg P = wkpTest cfg' P := by
  obtain ⟨hwmw, hks, hpcs⟩ := htests
  refine ⟨fun x => ?_, ?_⟩
  · simp only [wkpUpdate, hw.sampleOldSize, hw.sampleNewSize, h.pauseUpdateWhenAttack]
  · have hmetric : wkpTestMetric cfg P = wkpTestMetric cfg' P := by
      funext index m
      simp only [wkpTestMetric, statTest, AlarmState.judge, h.reportOnlyFirstAttack,
        hw.significanceLevel,
        hw.enableWmwTest, hw.enableKsTest, hw.enablePcsTest, hw.wmwTwoSided, hwmw, hks, hpcs]
    rw [wkpTest, wkpTest, hmetric]

theorem cusum_congr (h : SameCommon cfg cfg') (hc : SameCusum cfg cfg') (P : Params ν) :
    (∀ x, cusumUpdate cfg P x = cusumUpdate cfg' P x) ∧ cusumTest cfg P = cusumTest cfg' P := by
  have hsmooth : CusumMetric.smooth cfg = CusumMetric.smooth cfg' := by
    funext c
    simp only [CusumMetric.smooth, hc.smoothingConstant, hc.logVarianceEwma]
  have hconclude : CusumMetric.conclude cfg = CusumMetric.conclude cfg' := by
    funext c x
    simp only [CusumMetric.conclude, hc.cusumLearningPhase]
  refine ⟨fun x => ?_, ?_⟩
  · simp only [cusumUpdate, hsmooth, hconclude, hc.cusumLearningPhase, h.pauseUpdateWhenAttack]
  · have hmetric : cusumTestMetric cfg P.cusumUpdated = cusumTestMetric cfg' P.cusumUpdated := by
      funext c
      simp only [cusumTestMetric, AlarmState.judge, h.reportOnlyFirstAttack, hc.amplitudePercentage,
        hc.repetitionFactor]
    rw [cusumTest, cusumTest, hmetric]

/-- What a test does depends on the settings of the tests that are enabled. -/
theorem test_congr (h : SameCommon cfg cfg') (htests : SameTests cfg cfg')
    (hw : cfg.enableWkpTest = true → SameWkp cfg cfg')
    (hc : cfg.enableCusumTest = true → SameCusum cfg cfg') :
    Stat.test cfg = Stat.test cfg' := by
  have hlearn : learn cfg = learn cfg' := by
    funext P info prev
    have hstart : Params.start cfg = Params.start cfg' := by
      funext x
      simp only [Params.start, h.metrics, h.enableWkpTest, h.enableCusumTest]
    cases P with
    | none => simp only [learn, hstart, h.metrics, h.noiseThreshold]
    | some P =>
      have hwkp : ∀ x, (if cfg.enableWkpTest then wkpUpdate cfg P x else P) =
          if cfg'.enableWkpTest then wkpUpdate cfg' P x else P := fun x => by
        rw [← h.enableWkpTest]
        split
        · rename_i hon
          exact (wkp_congr h htests (hw hon) P).1 x
        · rfl
      have hcusum : ∀ (P : Params ν) x, (if cfg.enableCusumTest then cusumUpdate cfg P x else P) =
          if cfg'.enableCusumTest then cusumUpdate cfg' P x else P := fun P x => by
        rw [← h.enableCusumTest]
        split
        · rename_i hon
          exact (cusum_congr h (hc hon) P).1 x
        · rfl
      simp only [learn, hwkp, hcusum, h.metrics, h.noiseThreshold]
  have htest : testEndPoint cfg = testEndPoint cfg' := by
    funext P
    have hwkp : (if P.wkpReady cfg then some (wkpTest cfg P) else none) =
        if P.wkpReady cfg' then some (wkpTest cfg' P) else none := by
      unfold Params.wkpReady
      rw [← h.enableWkpTest]
      by_cases hon : cfg.enableWkpTest = true
      · rw [(hw hon).sampleNewSize, (wkp_congr h htests (hw hon) P).2]
      · simp [hon]
    have hcusum : ∀ P : Params ν, (if P.cusumReady cfg then some (cusumTest cfg P) else none) =
        if P.cusumReady cfg' then some (cusumTest cfg' P) else none := fun P => by
      unfold Params.cusumReady
      rw [← h.enableCusumTest]
      by_cases hon : cfg.enableCusumTest = true
      · rw [(cusum_congr h (hc hon) P).2]
      · simp [hon]
    simp only [testEndPoint, hwkp, hcusum]
  have hmake : Stat.makeStatTest cfg = Stat.makeStatTest cfg' := by
    funext n
    simp only [Stat.makeStatTest, h.statTestFrequency]
  funext st data
  simp only [Stat.test, hlearn, htest, hmake]

end

theorem test_of_memory {s : Settings ν} (hall : s.Initialised) {cfg cfg' : StatConfig ν}
    (hm : Memory s cfg)
    (hm' : Memory s cfg') (htests : SameTests cfg cfg') : Stat.test cfg = Stat.test cfg' := by
  have hnoise : NoiseThresholds.mk cfg.noiseThreshold.packets cfg.noiseThreshold.bytes =
      ⟨cfg'.noiseThreshold.packets, cfg'.noiseThreshold.bytes⟩ := by
    rw [same
      (hall .noiseThresholdPackets trivial) hm.noiseThresholdPackets hm'.noiseThresholdPackets,
      same (hall .noiseThresholdBytes trivial) hm.noiseThresholdBytes hm'.noiseThresholdBytes]
  have hcommon : SameCommon cfg cfg' :=
    { metrics := same (hall .metrics trivial) hm.metrics hm'.metrics
      noiseThreshold := hnoise
      statTestFrequency :=
        same (hall .statTestFrequency trivial) hm.statTestFrequency hm'.statTestFrequency
      reportOnlyFirstAttack :=
        same
          (hall .reportOnlyFirstAttack trivial) hm.reportOnlyFirstAttack hm'.reportOnlyFirstAttack
      pauseUpdateWhenAttack :=
        same
          (hall .pauseUpdateWhenAttack trivial) hm.pauseUpdateWhenAttack hm'.pauseUpdateWhenAttack
      enableCusumTest := same (hall .enableCusumTest trivial) hm.enableCusumTest hm'.enableCusumTest
      enableWkpTest := same (hall .enableWkpTest trivial) hm.enableWkpTest hm'.enableWkpTest }
  refine test_congr hcommon htests (fun hon => ?_) fun hon => ?_
  · have hread : s .enableWkpTest ≠ some false := fun hoff => by
      rw [hm.enableWkpTest _ hoff] at hon
      cases hon
    exact
      { enableWmwTest := same (hall .enableWmwTest hread) hm.enableWmwTest hm'.enableWmwTest
        enableKsTest := same (hall .enableKsTest hread) hm.enableKsTest hm'.enableKsTest
        enablePcsTest := same (hall .enablePcsTest hread) hm.enablePcsTest hm'.enablePcsTest
        sampleOldSize := same (hall .sampleOldSize hread) hm.sampleOldSize hm'.sampleOldSize
        sampleNewSize := same (hall .sampleNewSize hread) hm.sampleNewSize hm'.sampleNewSize
        wmwTwoSided := same (hall .wmwTwoSided hread) hm.wmwTwoSided hm'.wmwTwoSided
        significanceLevel := same (hall .significanceLevel hread) hm.significanceLevel hm'.significanceLevel }
  · have hread : s .enableCusumTest ≠ some false := fun hoff => by
      rw [hm.enableCusumTest _ hoff] at hon
      cases hon
    exact
      { amplitudePercentage := same (hall .amplitudePercentage hread) hm.amplitudePercentage hm'.amplitudePercentage
        cusumLearningPhase := same (hall .cusumLearningPhase hread) hm.cusumLearningPhase hm'.cusumLearningPhase
        repetitionFactor :=
          same (hall .repetitionFactor hread) hm.repetitionFactor hm'.repetitionFactor
        smoothingConstant :=
          same (hall .smoothingConstant hread) hm.smoothingConstant hm'.smoothingConstant
        logVarianceEwma :=
          same (hall .logVarianceEwma hread) hm.logVarianceEwma hm'.logVarianceEwma }

/-- No test changes the old sample. -/
theorem old_testEndPoint (cfg : StatConfig ν) (P : Params ν) :
    (testEndPoint cfg P).1.old = P.old := by
  have hwkp : (((if P.wkpReady cfg then some (wkpTest cfg P) else none).map Prod.fst).getD P).old =
      P.old := by
    split <;> rfl
  have hcusum : ∀ Q : Params ν,
      (((if Q.cusumReady cfg then some (cusumTest cfg Q) else none).map Prod.fst).getD Q).old =
          Q.old :=
    fun Q => by split <;> rfl
  exact (hcusum _).trans hwkp

/-- The sample that a first test begins. -/
theorem old_test (cfg : StatConfig ν) (e : EndPoint) (info : Info) :
    ((Stat.test cfg Stat.init (AList.singleton e info)).1.endpointParams.lookup e).map Params.old =
      some
      (if cfg.enableWkpTest then [extractData cfg.metrics cfg.noiseThreshold info .zero] else
        []) := by
  have hlearned : ∀ f : EndPoint → Option (Params ν) → Info → Params ν,
      (Tables.renew f ∅ (AList.singleton e info)).lookup e = some (f e none info) := fun f => by
    rw [Tables.lookup_renew]
    simp [AList.lookup]
  rw [Stat.test, if_neg (by simp)]
  dsimp only
  split
  · rw [Tables.lookup_mapValues, Stat.init, hlearned, Option.map_some, Option.map_some,
      old_testEndPoint]
    rfl
  · rw [Stat.init, hlearned, Option.map_some]
    rfl

/-- The flag that sums up the WKP tests is read: with another value in memory a test does something
else. -/
theorem enableWkpTest_read {s : Settings ν} (hnone : s .enableWkpTest = none) {cfg : StatConfig ν}
    (hm : Memory s cfg) :
    ∃ cfg', Memory s cfg' ∧ SameTests cfg cfg' ∧ Stat.test cfg ≠ Stat.test cfg' := by
  refine ⟨{ cfg with enableWkpTest := !cfg.enableWkpTest }, ?_, ⟨rfl, rfl, rfl⟩, fun heq => ?_⟩
  · exact { hm with enableWkpTest := fun v hv => by rw [hnone] at hv; cases hv }
  · have hsame := old_test cfg .zero .zero
    rw [heq, old_test] at hsame
    cases hflag : cfg.enableWkpTest <;> simp [hflag] at hsame

end

/-! ## Two configurations -/

/-- Everything can be opened, and there are no other files. -/
def plainEnv : Env Int where
  offlineEnabled := false
  atof value := (atoi value).toInt
  atofFloat value := (atoi value).toInt
  openLogfile _ := true
  mkdir _ := true
  file _ := none

def leaf (tag : Tag) (value : String) : Xml Tag := .element tag [] [.text value.toList]

def alarmPreferences : Xml Tag := .element .preferences [] [leaf .alarmTime "10"]

def wkpConfig : Config :=
    [alarmPreferences, .element .wkpParameters [] [leaf .significanceLevel "1"]]

theorem initialised_wkpConfig : ∃ s, init plainEnv wkpConfig = some s ∧
    (s.Initialised ↔ (wkpConfig.enter .wkpParameters).isSome = true) :=
  ⟨_, rfl, initialised_iff plainEnv wkpConfig rfl⟩

/-- A file without the section for the WKP tests is accepted. -/
theorem not_initialised : ∃ s, init plainEnv [alarmPreferences] = some s ∧ ¬ s.Initialised := by
  refine ⟨_, rfl, fun hall => ?_⟩
  have := hall .enableWkpTest trivial
  cases this

end Topas.Wkp
