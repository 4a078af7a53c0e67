import Topas.Core.Machine
import Topas.Core.Tables
import Topas.L7Stat.Metrics

/-!
# The statistical detection module

`statmodules/wkp-module/stat-main.cpp` without PCA: for every end point the samples of the
Wilcoxon-Mann-Whitney, Kolmogorov-Smirnov and Pearson chi-square tests and the state of the
CUSUM test. `Stat::test` is called once an interval with the interval's map. It adds to the
samples of the end points that are in the map, and then tests all end points that it knows;
from a map without entries it returns at once.

What `std::vector`s hold per metric at one index is one record here. The three tests of two
samples come in as functions (`wmwTest`, `ksTest`, `pcsTest`). Logs, files and messages are
left out; what they say about a test is in its `Report`.
-/
namespace Topas.Wkp

variable {ν : Type}

/-- For the literals of `pauseUpdateWhenAttack`. -/
instance neZeroPause : NeZero 4 := ⟨by decide⟩

/-- The user's settings, as `Stat::init` leaves them, and the tests of two samples.
mirrors detectionmodules/statmodules/wkp-module/stat-main.h:170-207 -/
structure StatConfig (ν : Type) where
  metrics : List (MetricData ν)
  noiseThreshold : NoiseThresholds
  statTestFrequency : Int32
  reportOnlyFirstAttack : Bool
  /-- `init` replaces other values by 0. -/
  pauseUpdateWhenAttack : Fin 4
  enableCusumTest : Bool
  amplitudePercentage : ν
  logVarianceEwma : Bool
  repetitionFactor : UInt16
  cusumLearningPhase : UInt16
  smoothingConstant : ν
  enableWmwTest : Bool
  enableKsTest : Bool
  enablePcsTest : Bool
  enableWkpTest : Bool
  sampleOldSize : UInt16
  sampleNewSize : UInt16
  wmwTwoSided : Bool
  significanceLevel : ν
  wmwTest : List Int64 → List Int64 → Bool → ν
  ksTest : List Int64 → List Int64 → ν
  pcsTest : List Int64 → List Int64 → ν

/-- `last_*_test_was_attack` and `*_alarms` of one test for one metric. -/
structure AlarmState where
  lastWasAttack : Bool
  alarms : Nat
  deriving DecidableEq, Repr

structure WkpMetric where
  wmw : AlarmState
  ks : AlarmState
  pcs : AlarmState
  deriving DecidableEq, Repr

structure CusumMetric (ν : Type) where
  mean : ν
  variance : ν
  g : ν
  xCurr : Int32
  alarm : AlarmState
  deriving DecidableEq, Repr

/-- mirrors detectionmodules/statmodules/wkp-module/params.h:15-112 -/
structure Params (ν : Type) where
  old : List (List Int64)
  new : List (List Int64)
  wkp : List WkpMetric
  cusum : List (CusumMetric ν)
  cusumLearningPhaseNr : Nat
  readyToTest : Bool
  wkpUpdated : Bool
  cusumUpdated : Bool
  deriving DecidableEq, Repr

/-- One test of one metric: the p-value, or the statistic `g` of CUSUM, the verdict, and the
alarms so far. -/
structure TestResult (ν : Type) where
  statistic : ν
  attack : Bool
  alarms : Nat
  deriving DecidableEq, Repr

structure WkpResult (ν : Type) where
  wmw : TestResult ν
  ks : TestResult ν
  pcs : TestResult ν
  deriving DecidableEq, Repr

/-- The tests of one end point in one interval; `none` where they are not made. -/
structure Report (ν : Type) where
  wkp : Option (List (WkpResult ν))
  cusum : Option (List (TestResult ν))
  deriving DecidableEq, Repr

def Report.none : Report ν := ⟨.none, .none⟩

section

variable [Double ν]

/-! ## Learning and updates -/

/-- `P.mean.at(i) += new_value.at(i)`, and the square, which is an `int64_t` product. -/
def CusumMetric.accumulate (c : CusumMetric ν) (x : Int64) : CusumMetric ν :=
  { c with
    mean := c.mean + (x.toInt : ν)
    variance := c.variance + ((x * x).toInt : ν) }

/-- Mean and variance from the sums. -/
def CusumMetric.conclude (cfg : StatConfig ν) (c : CusumMetric ν) (x : Int64) : CusumMetric ν :=
  let n := (cfg.cusumLearningPhase.toNat : Int)
  let mean := c.mean / (n : ν)
  { c with
    mean
    variance := (c.variance - mean * mean / (n : ν)) / ((n - 1 : Int) : ν)
    xCurr := x.toInt32 }

/-- The next value without an update of mean and variance. -/
def CusumMetric.setX (c : CusumMetric ν) (x : Int64) : CusumMetric ν :=
    { c with xCurr := x.toInt32 }

/-- Mean and variance follow the value of the last time, with the mean already new. -/
def CusumMetric.smooth (cfg : StatConfig ν) (c : CusumMetric ν) : CusumMetric ν :=
  let α := cfg.smoothingConstant
  let β := ((1 : Int) : ν) - α
  let x := (c.xCurr.toInt : ν)
  let mean := c.mean * β + x * α
  { c with
    mean
    variance :=
      if cfg.logVarianceEwma then
        Double.exp (Double.log c.variance * β + Double.log ((x - mean) * (x - mean)) * α)
      else c.variance * β + (x - mean) * (x - mean) * α }

/-- mirrors detectionmodules/statmodules/wkp-module/stat-main.cpp:1647-1757 -/
def cusumUpdate (cfg : StatConfig ν) (P : Params ν) (newValue : List Int64) : Params ν :=
  let P := { P with cusumUpdated := true }
  if !P.readyToTest then
    if P.cusumLearningPhaseNr < cfg.cusumLearningPhase.toNat then
      { P with
        cusum := P.cusum.zipWith .accumulate newValue
        cusumLearningPhaseNr := P.cusumLearningPhaseNr + 1 }
    else
      { P with
        cusum := P.cusum.zipWith (.conclude cfg) newValue
        readyToTest := true }
  else
    let atLeastOneTestWasAttack := P.cusum.any (·.alarm.lastWasAttack)
    let allTestsWereAttacks := P.cusum.all (·.alarm.lastWasAttack)
    if cfg.pauseUpdateWhenAttack = 1 && atLeastOneTestWasAttack then
      { P with cusum := P.cusum.zipWith .setX newValue }
    else if cfg.pauseUpdateWhenAttack = 2 && allTestsWereAttacks then
      { P with cusum := P.cusum.zipWith .setX newValue }
    else if cfg.pauseUpdateWhenAttack = 3 && atLeastOneTestWasAttack then
      { P with
        cusum := P.cusum.zipWith
          (fun c x => if c.alarm.lastWasAttack then c.setX x else (c.smooth cfg).setX x) newValue }
    else { P with cusum := P.cusum.zipWith (fun c x => (c.smooth cfg).setX x) newValue }

/-- mirrors detectionmodules/statmodules/wkp-module/stat-main.cpp:1546-1643 -/
def wkpUpdate (cfg : StatConfig ν) (P : Params ν) (newValue : List Int64) : Params ν :=
  if P.old.length ≠ cfg.sampleOldSize.toNat then { P with old := P.old ++ [newValue] }
  else if P.new.length ≠ cfg.sampleNewSize.toNat then { P with new := P.new ++ [newValue] }
  else
    let wmw := P.wkp.any (·.wmw.lastWasAttack)
    let ks := P.wkp.any (·.ks.lastWasAttack)
    let pcs := P.wkp.any (·.pcs.lastWasAttack)
    if cfg.pauseUpdateWhenAttack = 1 && (wmw || ks || pcs) ||
        cfg.pauseUpdateWhenAttack = 2 && (wmw && ks && pcs) then
      { P with
        new := P.new.tail ++ [newValue]
        wkpUpdated := true }
    else
      { P with
        old := P.old.tail ++ P.new.head?.toList
        new := P.new.tail ++ [newValue]
        wkpUpdated := true }

/-- The parameters of an end point that is seen for the first time.
mirrors detectionmodules/statmodules/wkp-module/stat-main.cpp:1003-1056 -/
def Params.start (cfg : StatConfig ν) (metricData : List Int64) : Params ν where
  old := if cfg.enableWkpTest then [metricData] else []
  new := []
  wkp :=
    if cfg.enableWkpTest then .replicate cfg.metrics.length
      ⟨⟨false, 0⟩, ⟨false, 0⟩, ⟨false, 0⟩⟩ else []
  cusum :=
    if cfg.enableCusumTest then
      metricData.map fun x => ⟨(x.toInt : ν), ((x * x).toInt : ν), ((0 : Int) : ν), 0, ⟨false, 0⟩⟩
    else []
  cusumLearningPhaseNr := if cfg.enableCusumTest then 1 else 0
  readyToTest := false
  wkpUpdated := false
  cusumUpdated := false

/-- What the loop over the interval's map makes of the parameters of one of its end points.
mirrors detectionmodules/statmodules/wkp-module/stat-main.cpp:977-1099 -/
def learn (cfg : StatConfig ν) (P : Option (Params ν)) (info prev : Info) : Params ν :=
  let metricData := extractData cfg.metrics cfg.noiseThreshold info prev
  match P with
  | none => .start cfg metricData
  | some P =>
    let P := if cfg.enableWkpTest then wkpUpdate cfg P metricData else P
    if cfg.enableCusumTest then cusumUpdate cfg P metricData else P

/-! ## Tests -/

/-- What an alarm state becomes by a verdict. -/
def AlarmState.judge (cfg : StatConfig ν) (a : AlarmState) (attack : Bool) : AlarmState where
  lastWasAttack := attack
  alarms :=
    if attack && (!cfg.reportOnlyFirstAttack || !a.lastWasAttack) then a.alarms + 1 else a.alarms

/-- What `wkp_test` does with each of its three tests; `p` is called where the test is enabled and
the samples are new. `stat_test_wmw` and the two like it only look at the p-value and set the flag.
-/
def statTest (cfg : StatConfig ν) (enabled updated : Bool) (p : ν) (a : AlarmState) :
    TestResult ν × AlarmState :=
  if enabled && updated then
    let a := a.judge cfg (decide (p < cfg.significanceLevel))
    (⟨p, a.lastWasAttack, a.alarms⟩, a)
  else
    let a := if updated then a else { a with lastWasAttack := false }
    (⟨((1 : Int) : ν), a.lastWasAttack, a.alarms⟩, a)

/-- mirrors detectionmodules/statmodules/wkp-module/stat-main.cpp:2003-2011 -/
def getSingleMetric (l : List (List Int64)) (i : Nat) : List Int64 := l.map (·.getD i 0)

/-- One round of the loop of `wkp_test`. -/
def wkpTestMetric (cfg : StatConfig ν) (P : Params ν) (index : Nat) (m : WkpMetric) :
    WkpResult ν × WkpMetric :=
  let sampleOld := getSingleMetric P.old index
  let sampleNew := getSingleMetric P.new index
  let updated := P.wkpUpdated
  let wmw :=
    statTest cfg cfg.enableWmwTest updated (cfg.wmwTest sampleOld sampleNew cfg.wmwTwoSided) m.wmw
  let ks := statTest cfg cfg.enableKsTest updated (cfg.ksTest sampleOld sampleNew) m.ks
  let pcs := statTest cfg cfg.enablePcsTest updated (cfg.pcsTest sampleOld sampleNew) m.pcs
  (⟨wmw.1, ks.1, pcs.1⟩, ⟨wmw.2, ks.2, pcs.2⟩)

/-- mirrors detectionmodules/statmodules/wkp-module/stat-main.cpp:1764-1877 -/
def wkpTest (cfg : StatConfig ν) (P : Params ν) : Params ν × List (WkpResult ν) :=
  let tested := P.wkp.mapIdx (wkpTestMetric cfg P)
  ({ P with wkp := tested.map Prod.snd, wkpUpdated := false }, tested.map Prod.fst)

/-- mirrors detectionmodules/statmodules/wkp-module/cusum-test.cpp:4-13 -/
def cusum (X : Int64) (beta g : ν) : ν :=
  let g := g + ((X.toInt : ν) - beta)
  if g < ((0 : Int) : ν) then ((0 : Int) : ν) else g

/-- One round of the loop of `cusum_test`, and the flag that the loop after it sets. -/
def cusumTestMetric (cfg : StatConfig ν) (updated : Bool) (c : CusumMetric ν) :
    TestResult ν × CusumMetric ν :=
  let half := cfg.amplitudePercentage * Double.sqrt c.variance / ((2 : Int) : ν)
  let N := ((cfg.repetitionFactor.toNat : Int) : ν) * half
  let beta := c.mean + half
  let g := if updated then cusum c.xCurr.toInt64 beta c.g else ((0 : Int) : ν)
  let alarm := c.alarm.judge cfg (updated && decide (N < g))
  (⟨g, alarm.lastWasAttack, alarm.alarms⟩, { c with g, alarm })

/-- mirrors detectionmodules/statmodules/wkp-module/stat-main.cpp:1881-2000 -/
def cusumTest (cfg : StatConfig ν) (P : Params ν) : Params ν × List (TestResult ν) :=
  let tested := P.cusum.map (cusumTestMetric cfg P.cusumUpdated)
  ({ P with cusum := tested.map Prod.snd, cusumUpdated := false }, tested.map Prod.fst)

/-- Whether the samples of an end point are full. -/
def Params.wkpReady (cfg : StatConfig ν) (P : Params ν) : Bool :=
  cfg.enableWkpTest && P.new.length = cfg.sampleNewSize.toNat

def Params.cusumReady (cfg : StatConfig ν) (P : Params ν) : Bool :=
    cfg.enableCusumTest && P.readyToTest

/-- What the loop of the test phase does with one end point.
mirrors detectionmodules/statmodules/wkp-module/stat-main.cpp:1207-1221 -/
def testEndPoint (cfg : StatConfig ν) (P : Params ν) : Params ν × Report ν :=
  let wkp := if P.wkpReady cfg then some (wkpTest cfg P) else none
  let P := (wkp.map Prod.fst).getD P
  let cusum := if P.cusumReady cfg then some (cusumTest cfg P) else none
  ((cusum.map Prod.fst).getD P, ⟨wkp.map Prod.snd, cusum.map Prod.snd⟩)

end

/-! ## The module -/

/-- `previousData` is a static member of `StatStore`, which `~StatStore` sets. -/
structure Stat (ν : Type) where
  endpointParams : AList fun _ : EndPoint => Params ν
  previousData : Interval
  testCounter : Int32

/-- What was reported on the end points that were tested. -/
abbrev Reports (ν : Type) := AList fun _ : EndPoint => Report ν

/-- The report on one of them. -/
def Reports.on (r : Reports ν) (e : EndPoint) : Report ν := (r.lookup e).getD .none

namespace Stat

def init : Stat ν := ⟨∅, ∅, 0⟩

/-- `PreviousData[e]`. -/
def prev (s : Stat ν) (e : EndPoint) : Info := (s.previousData.lookup e).getD .zero

/-- mirrors detectionmodules/statmodules/wkp-module/stat-main.cpp:1190-1194 -/
def makeStatTest (cfg : StatConfig ν) (testCounter : Int32) : Bool :=
  cfg.statTestFrequency ≠ 0 && testCounter % cfg.statTestFrequency = 0

variable [Double ν]

/-- mirrors detectionmodules/statmodules/wkp-module/stat-main.cpp:935-1229 -/
def test (cfg : StatConfig ν) (s : Stat ν) (data : Interval) : Stat ν × Reports ν :=
  -- the store is not deleted on this path, so `previousData` stays
  if data.entries.isEmpty then ({ s with testCounter := s.testCounter + 1 }, ∅)
  else
    let learned := Tables.renew (fun e P info => learn cfg P info (s.prev e)) s.endpointParams data
    let tested :=
      if makeStatTest cfg s.testCounter then
        (Tables.mapValues (fun P => (testEndPoint cfg P).1) learned,
          Tables.mapValues (fun P => (testEndPoint cfg P).2) learned)
      else (learned, ∅)
    (⟨tested.1, data, s.testCounter + 1⟩, tested.2)

/-- What is reported in the intervals of a run. -/
def run (cfg : StatConfig ν) (intervals : List Interval) : List (Reports ν) :=
  Machine.outputs (test cfg) init intervals

end Stat

end Topas.Wkp
