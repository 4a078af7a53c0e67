import Topas.L7Stat.Samples

/-!
# Differences against the interval before

A metric with `applyQuasiDifference` is taken against the same metric of the interval before, which
`~StatStore` leaves in the static map `PreviousData`. From an empty map `Stat::test` returns without
deleting the store.

* `prev_eq`: what `PreviousData` has of an end point is from the last interval with entries, not
  from the last interval.
* `differences`: the difference is the one with the interval before, unless that was empty and the
  one with entries before it had something of the metric; then it is the difference with that one.
-/
namespace Topas.Wkp

variable {ν : Type}

namespace Interval

/-- What was counted for an end point; without an entry 0. -/
def counters (data : Interval) (e : EndPoint) : Info := (data.lookup e).getD .zero

/-- What was counted in the last of some intervals; before the first one 0. -/
def last (intervals : List Interval) (e : EndPoint) : Info :=
  (intervals.getLast?.map (counters · e)).getD .zero

/-- The intervals whose map has entries. -/
def nonempty (intervals : List Interval) : List Interval :=
    intervals.filter fun data => !data.entries.isEmpty

theorem nonempty_append (intervals : List Interval) (data : Interval) :
    nonempty (intervals ++ [data]) = nonempty intervals ++ if data.entries.isEmpty then [] else
      [data] := by
  cases h : data.entries.isEmpty <;> simp [nonempty, h]

theorem last_append (intervals : List Interval) (data : Interval) (e : EndPoint) :
    last (intervals ++ [data]) e = counters data e := by
  simp [last]

/-- The map of an interval in which the end point is observed has entries. -/
theorem entries_of_lookup {data : Interval} {e : EndPoint} {info : Info}
    (h : data.lookup e = some info) :
    data.entries.isEmpty = false := by
  cases hempty : data.entries.isEmpty with
  | false => rfl
  | true =>
    rw [List.isEmpty_iff] at hempty
    simp [AList.lookup, hempty] at h

end Interval

/-- Whatever the noise thresholds are. -/
theorem getMetric_zero (noise : NoiseThresholds) (m : Metric) : getMetric noise .zero m = 0 := by
  cases m <;> simp [getMetric, Info.zero, quotient]

/-- What the other two options of a metric make of its value. -/
def MetricData.signed (it : MetricData ν) (value : Int64) : Int64 :=
  let value := if it.absolute then value.abs else value
  if it.negate then -value else value

variable [Double ν]

/-- The metric of an interval less `factor` times the metric of another. -/
def MetricData.difference (cfg : StatConfig ν) (it : MetricData ν) (info prev : Info) : Int64 :=
  it.signed (Double.quasiDifference (getMetric cfg.noiseThreshold info it.type) it.factor
    (getMetric cfg.noiseThreshold prev it.type))

theorem extract_difference (cfg : StatConfig ν) {it : MetricData ν}
    (hquasi : it.applyQuasiDifference = true) (info prev : Info) :
    it.extract cfg.noiseThreshold info prev = it.difference cfg info prev := by
  simp only [MetricData.extract, MetricData.difference, MetricData.signed, hquasi, if_true]

/-- Only the metric of the other interval matters. -/
theorem difference_congr (cfg : StatConfig ν) {it : MetricData ν} {info prev prev' : Info}
    (h : getMetric cfg.noiseThreshold prev it.type = getMetric cfg.noiseThreshold prev' it.type) :
    it.difference cfg info prev = it.difference cfg info prev' := by
  rw [MetricData.difference, MetricData.difference, h]

namespace Stat

/-- The state after some intervals. -/
def after (cfg : StatConfig ν) (intervals : List Interval) : Stat ν :=
    Machine.final (test cfg) init intervals

theorem after_append (cfg : StatConfig ν) (intervals : List Interval) (data : Interval) :
    after cfg (intervals ++ [data]) = (test cfg (after cfg intervals) data).1 := by
  rw [after, Machine.final, List.foldl_append]
  rfl

/-- An empty map is not kept. -/
theorem prev_test (cfg : StatConfig ν) (s : Stat ν) (data : Interval) (e : EndPoint) :
    (test cfg s data).1.prev e = if data.entries.isEmpty then s.prev e else
      Interval.counters data e := by
  unfold test
  split
  · rfl
  · rfl

/-- `PreviousData` is the last map with entries. -/
theorem prev_eq (cfg : StatConfig ν) (intervals : List Interval) (e : EndPoint) :
    (after cfg intervals).prev e = Interval.last (Interval.nonempty intervals) e := by
  induction intervals using List.reverseRecOn with
  | nil => rfl
  | append_singleton intervals data ih =>
    rw [after_append, prev_test, Interval.nonempty_append, ih]
    split
    · rw [List.append_nil]
    · rw [Interval.last_append]

/-- The map of the interval before was kept, or the one that was kept had nothing of the metric. -/
def Recalls (cfg : StatConfig ν) (intervals : List Interval) (e : EndPoint) (m : Metric) : Prop :=
  (∀ data ∈ intervals.getLast?, data.entries.isEmpty = false) ∨
    getMetric cfg.noiseThreshold (Interval.last (Interval.nonempty intervals) e) m = 0

omit [Double ν] in
/-- Where the map of the interval before was not kept, it had nothing. -/
theorem last_of_dropped {intervals : List Interval} {data : Interval}
    (hlast : intervals.getLast? = some data)
    (hempty : data.entries.isEmpty = true) (e : EndPoint) : Interval.last intervals e = .zero := by
  rw [List.isEmpty_iff] at hempty
  simp [Interval.last, hlast, Interval.counters, AList.lookup, hempty]

omit [Double ν] in
theorem last_of_kept {intervals : List Interval}
    (h : ∀ data ∈ intervals.getLast?, data.entries.isEmpty = false) (e : EndPoint) :
    Interval.last (Interval.nonempty intervals) e = Interval.last intervals e := by
  rcases List.eq_nil_or_concat' intervals with rfl | ⟨earlier, data, rfl⟩
  · rfl
  · have hdata : data.entries.isEmpty = false := h data (by simp)
    rw [Interval.nonempty_append, hdata, Interval.last_append]
    exact Interval.last_append _ _ _

/-- A difference metric in any interval of any run: where the map before was kept, or had nothing
that matters, the value is the difference with the interval before. Elsewhere the interval before
had nothing, and it is the difference with an older one, whose metric is not 0. -/
theorem differences (cfg : StatConfig ν) (intervals : List Interval) {data : Interval}
    {e : EndPoint} {info : Info} (hinfo : data.lookup e = some info) {i : ℕ} {it : MetricData ν}
    (hit : cfg.metrics[i]? = some it) (hquasi : it.applyQuasiDifference = true) :
    ∃ values tests, ((after cfg intervals).view e).visits cfg data.entries.isEmpty (data.lookup e) =
        .learn values :: tests ∧
      (Recalls cfg intervals e it.type →
        values[i]? = some (it.difference cfg info (Interval.last intervals e))) ∧
      (¬ Recalls cfg intervals e it.type → Interval.last intervals e = .zero ∧
        ∃ old, getMetric cfg.noiseThreshold old it.type ≠ 0 ∧
          values[i]? = some (it.difference cfg info old)) := by
  have hvalue :
    (extractData cfg.metrics cfg.noiseThreshold info ((after cfg intervals).prev e))[i]? =
      some (it.difference cfg info (Interval.last (Interval.nonempty intervals) e)) := by
    rw [extractData, List.getElem?_map, hit, Option.map_some, prev_eq,
      extract_difference cfg hquasi]
  rw [Interval.entries_of_lookup hinfo, hinfo]
  refine ⟨_, _, rfl, fun hrecalls => ?_, fun hdropped => ?_⟩
  · refine hvalue.trans (congrArg some (difference_congr cfg ?_))
    rcases hrecalls with hlast | hzero
    · rw [last_of_kept hlast]
    · by_cases hlast : ∀ data ∈ intervals.getLast?, data.entries.isEmpty = false
      · rw [last_of_kept hlast]
      · -- neither interval had anything of the metric
        push Not at hlast
        obtain ⟨dropped, hdropped, hempty⟩ := hlast
        rw [hzero, last_of_dropped hdropped (by simpa using hempty), getMetric_zero]
  · unfold Recalls at hdropped
    push Not at hdropped
    obtain ⟨⟨dropped, hlast, hempty⟩, hold⟩ := hdropped
    exact ⟨last_of_dropped hlast (by simpa using hempty) e, _, hold, hvalue⟩

/-- How many more packets come in than in the interval before. -/
def increase : StatConfig Int := { cusumOnly with metrics := [⟨.packetsIn, false, false, true, 1⟩] }

/-- Five packets, none next to another end point's, an interval without entries, and seven packets.
-/
theorem differences_idle : ∃ values tests,
    ((after increase [alone 5, other, ∅]).view (host 1)).visits increase (alone 7).entries.isEmpty
        ((alone 7).lookup (host 1)) = .learn values :: tests ∧ values[0]? = some 7 := by
  have hrecalls : Recalls increase [alone 5, other, ∅] (host 1) .packetsIn := .inr rfl
  obtain ⟨values, tests, hvisits, hvalue, -⟩ := differences increase [alone 5, other, ∅]
    (rfl : (alone 7).lookup (host 1) = some (traffic 7))
    (rfl : increase.metrics[0]? = some ⟨.packetsIn, false, false, true, 1⟩) rfl
  exact ⟨values, tests, hvisits, hvalue hrecalls⟩

/-- **Counterexample**: five packets, an interval without entries, and seven packets, which count as
two more than before. -/
theorem differences_stale : ¬ ∀ (cfg : StatConfig Int) (intervals : List Interval) (data : Interval)
    (e : EndPoint) (info : Info) (i : ℕ) (it : MetricData Int), data.lookup e = some info →
    cfg.metrics[i]? = some it → it.applyQuasiDifference = true →
    ∃ values tests, ((after cfg intervals).view e).visits cfg data.entries.isEmpty (data.lookup e) =
        .learn values :: tests ∧
      values[i]? = some (it.difference cfg info (Interval.last intervals e)) := by
  intro hall
  obtain ⟨values, tests, hvisits, hvalue⟩ :=
    hall increase [alone 5, ∅] (alone 7) (host 1) (traffic 7) 0 _
    rfl rfl rfl
  have hstale :
    ((after increase [alone 5, ∅]).view (host 1)).visits increase (alone 7).entries.isEmpty
      ((alone 7).lookup (host 1)) = [.learn [2], .test] := by decide
  obtain ⟨rfl, rfl⟩ := List.cons_eq_cons.mp (hstale.symm.trans hvisits) |>.imp_left Visit.learn.inj
  exact absurd hvalue (by decide)

end Stat

end Topas.Wkp
