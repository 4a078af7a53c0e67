import Mathlib.Data.List.AList
import Topas.L6Count.CountStore

/-!
# End points and their metrics

`statmodules/wkp-module/shared.h` and `Stat::extract_data`: from the counters that an end
point has in this interval and had in the one before, one number a metric. Counters are
`uint64_t`, metrics `int64_t`; differences and conversions wrap.

Floating point comes in as `Double`, whose operations are left open.
-/
namespace Topas.Wkp

/-- The operations on `double` that the statistical tests use. -/
class Double (ν : Type) extends Add ν, Sub ν, Mul ν, Div ν, IntCast ν, LT ν where
  sqrt : ν → ν
  exp : ν → ν
  log : ν → ν
  decidableLT : DecidableRel (α := ν) (· < ·)
  /-- `(int64_t) (newValue - factor * prev)`, which the code computes in single precision. -/
  quasiDifference : Int64 → ν → Int64 → Int64

instance instDecidableRelLt {ν : Type} [Double ν] : DecidableRel (α := ν) (· < ·) :=
    Double.decidableLT

/-- Traffic of one node in one interval.
mirrors detectionmodules/statmodules/wkp-module/shared.h:37-44 -/
structure Info where
  packetsIn : UInt64
  packetsOut : UInt64
  bytesIn : UInt64
  bytesOut : UInt64
  recordsIn : UInt64
  recordsOut : UInt64
  deriving DecidableEq, Repr

/-- What `std::map` puts where it has no entry. -/
def Info.zero : Info := ⟨0, 0, 0, 0, 0, 0⟩

/-- mirrors detectionmodules/statmodules/wkp-module/shared.h:48-131 -/
structure EndPoint where
  ipAddr : IpAddress
  portNr : Int32
  protocolID : Int32
  deriving DecidableEq, Repr

/-- The map of an interval. The order of its entries, here the order in which they were made, has
no part in what follows. -/
abbrev Interval := AList fun _ : EndPoint => Info

/-- mirrors detectionmodules/statmodules/wkp-module/stat-main.h:37-57 -/
inductive Metric where
  | bytesIn | bytesOut
  | packetsIn | packetsOut
  | recordsIn | recordsOut
  | bytesInPerPacketIn | bytesOutPerPacketOut
  | bytesInPerRecordIn | bytesOutPerRecordOut
  | packetsInPerRecordIn | packetsOutPerRecordOut
  | bytesOutMinusBytesIn
  | packetsOutMinusPacketsIn
  | recordsOutMinusRecordsIn
  | bytesInMinusBytesOut
  | packetsInMinusPacketsOut
  | recordsInMinusRecordsOut
  deriving DecidableEq, Repr

/-- `noise_threshold_packets` and `noise_threshold_bytes`. -/
structure NoiseThresholds where
  packets : Int32
  bytes : Int32
  deriving DecidableEq, Repr

namespace NoiseThresholds

/-- An `int` that is compared with a `uint64_t` is converted to that. -/
def packetsReached (noise : NoiseThresholds) (x : UInt64) : Bool :=
    noise.packets.toInt64.toUInt64 ≤ x

def bytesReached (noise : NoiseThresholds) (x : UInt64) : Bool := noise.bytes.toInt64.toUInt64 ≤ x

end NoiseThresholds

/-- A quotient, or 0 instead of a division by 0. -/
def quotient (x y : UInt64) : Int64 := if y = 0 then 0 else (x / y).toInt64

/-- mirrors detectionmodules/statmodules/wkp-module/stat-main.cpp:1236-1387 -/
def getMetric (noise : NoiseThresholds) (info : Info) : Metric → Int64
  | .packetsIn => if noise.packetsReached info.packetsIn then info.packetsIn.toInt64 else 0
  | .packetsOut => if noise.packetsReached info.packetsOut then info.packetsOut.toInt64 else 0
  | .bytesIn => if noise.bytesReached info.bytesIn then info.bytesIn.toInt64 else 0
  | .bytesOut => if noise.bytesReached info.bytesOut then info.bytesOut.toInt64 else 0
  | .recordsIn => info.recordsIn.toInt64
  | .recordsOut => info.recordsOut.toInt64
  | .bytesInPerPacketIn =>
    if noise.packetsReached info.packetsIn || noise.bytesReached info.bytesIn then
      quotient info.bytesIn info.packetsIn
    else 0
  | .bytesOutPerPacketOut =>
    if noise.packetsReached info.packetsOut || noise.bytesReached info.bytesOut then
      quotient info.bytesOut info.packetsOut
    else 0
  | .packetsInPerRecordIn =>
    if noise.packetsReached info.packetsIn then quotient info.packetsIn info.recordsIn else 0
  | .packetsOutPerRecordOut =>
    if noise.packetsReached info.packetsOut then quotient info.packetsOut info.recordsOut else 0
  | .bytesInPerRecordIn =>
    if noise.bytesReached info.bytesIn then quotient info.bytesIn info.recordsIn else 0
  | .bytesOutPerRecordOut =>
    if noise.bytesReached info.bytesOut then quotient info.bytesOut info.recordsOut else 0
  | .packetsOutMinusPacketsIn =>
    if noise.packetsReached info.packetsOut || noise.packetsReached info.packetsIn then
      (info.packetsOut - info.packetsIn).toInt64
    else 0
  | .bytesOutMinusBytesIn =>
    if noise.bytesReached info.bytesOut || noise.bytesReached info.bytesIn then
      (info.bytesOut - info.bytesIn).toInt64
    else 0
  | .recordsOutMinusRecordsIn => (info.recordsOut - info.recordsIn).toInt64
  | .packetsInMinusPacketsOut =>
    if noise.packetsReached info.packetsOut || noise.packetsReached info.packetsIn then
      (info.packetsIn - info.packetsOut).toInt64
    else 0
  | .bytesInMinusBytesOut =>
    if noise.bytesReached info.bytesOut || noise.bytesReached info.bytesIn then
      (info.bytesIn - info.bytesOut).toInt64
    else 0
  | .recordsInMinusRecordsOut => (info.recordsIn - info.recordsOut).toInt64

/-- mirrors detectionmodules/statmodules/wkp-module/stat-main.h:71-78 -/
structure MetricData (ν : Type) where
  type : Metric
  absolute : Bool
  negate : Bool
  applyQuasiDifference : Bool
  factor : ν
  deriving DecidableEq, Repr

section

variable {ν : Type} [Double ν]

/-- What the loop of `extract_data` makes of one metric. -/
def MetricData.extract (it : MetricData ν) (noise : NoiseThresholds) (info prev : Info) : Int64 :=
  let newValue := getMetric noise info it.type
  let newValue :=
    if it.applyQuasiDifference then
      Double.quasiDifference newValue it.factor (getMetric noise prev it.type)
    else newValue
  let newValue := if it.absolute then newValue.abs else newValue
  if it.negate then -newValue else newValue

/-- mirrors detectionmodules/statmodules/wkp-module/stat-main.cpp:1391-1415 -/
def extractData (metrics : List (MetricData ν)) (noise : NoiseThresholds) (info prev : Info) :
    List Int64 :=
  metrics.map (·.extract noise info prev)

/-- Whether some metric is taken against the interval before. -/
def usesPrevious (metrics : List (MetricData ν)) : Bool := metrics.any (·.applyQuasiDifference)

theorem extractData_congr {metrics : List (MetricData ν)} {noise : NoiseThresholds}
    {info prev prev' : Info}
    (h : usesPrevious metrics = true → prev = prev') :
    extractData metrics noise info prev = extractData metrics noise info prev' := by
  by_cases hu : usesPrevious metrics = true
  · rw [h hu]
  · apply List.map_congr_left
    intro it hit
    have hq : it.applyQuasiDifference = false := by
      simp only [usesPrevious, List.any_eq_true, not_exists, not_and] at hu
      simpa using hu it hit
    simp [MetricData.extract, hq]

@[simp] theorem length_extractData (metrics : List (MetricData ν)) (noise : NoiseThresholds)
    (info prev : Info) : (extractData metrics noise info prev).length = metrics.length :=
  List.length_map _

end

end Topas.Wkp
