import Topas.L7Stat.Stat

/-!
# The module as one end point sees it

Of the module's state an end point sees its own parameters, its counters of the interval
before, and the number of the interval.

* `view_test`: an interval acts on the view through the end point's own counters and through
  one bit more, whether the map is empty.
* `sized`: after any run the vectors of every end point have one entry a metric, so that no
  `.at(i)` is out of range.
-/
namespace Topas.Wkp

variable {ν : Type}

structure View (ν : Type) where
  params : Option (Params ν)
  prev : Info
  testCounter : Int32

def Stat.view (s : Stat ν) (e : EndPoint) : View ν :=
  ⟨s.endpointParams.lookup e, s.prev e, s.testCounter⟩

variable [Double ν]

namespace View

/-- An interval in which the end point has the counters `own`, if it is in the map. -/
def test (cfg : StatConfig ν) (v : View ν) (empty : Bool) (own : Option Info) : View ν × Report ν :=
  if empty then ({ v with testCounter := v.testCounter + 1 }, .none)
  else
    let params := (own.map fun info => learn cfg v.params info v.prev).or v.params
    if Stat.makeStatTest cfg v.testCounter then
      let tested := params.map (testEndPoint cfg)
      (⟨tested.map Prod.fst, own.getD .zero, v.testCounter + 1⟩, (tested.map Prod.snd).getD .none)
    else (⟨params, own.getD .zero, v.testCounter + 1⟩, .none)

end View

/-- The other end points are seen in nothing but the emptiness of the map. -/
theorem Stat.view_test (cfg : StatConfig ν) (s : Stat ν) (data : Interval) (e : EndPoint) :
    (s.test cfg data).1.view e = ((s.view e).test cfg data.entries.isEmpty (data.lookup e)).1 ∧
      (s.test cfg data).2.on e = ((s.view e).test cfg data.entries.isEmpty (data.lookup e)).2 := by
  by_cases hempty : data.entries.isEmpty = true
  · simp [Stat.test, View.test, hempty, Stat.view, Stat.prev, Reports.on]
  · by_cases htest : Stat.makeStatTest cfg s.testCounter = true
    · simp [Stat.test, View.test, hempty, htest, Stat.view, Stat.prev, Reports.on,
        Tables.lookup_renew,
        Function.comp_def]
    · simp [Stat.test, View.test, hempty, htest, Stat.view, Stat.prev, Reports.on,
        Tables.lookup_renew]

/-! ## Sizes -/

/-- One entry a metric in the vectors of each enabled test. -/
structure Params.Sized (cfg : StatConfig ν) (P : Params ν) : Prop where
  wkp : P.wkp.length = if cfg.enableWkpTest then cfg.metrics.length else 0
  cusum : P.cusum.length = if cfg.enableCusumTest then cfg.metrics.length else 0
  old : ∀ v ∈ P.old, v.length = cfg.metrics.length
  new : ∀ v ∈ P.new, v.length = cfg.metrics.length

namespace Params.Sized

variable {cfg : StatConfig ν} {P : Params ν} {newValue : List Int64}

theorem start (h : newValue.length = cfg.metrics.length) :
    (Params.start cfg newValue).Sized cfg where
  wkp := by cases hw : cfg.enableWkpTest <;> simp [Params.start, hw]
  cusum := by cases hc : cfg.enableCusumTest <;> simp [Params.start, hc, h]
  old v hv := by
    cases hw : cfg.enableWkpTest <;> simp [Params.start, hw] at hv
    rw [hv, h]
  new v hv := by simp [Params.start] at hv

omit [Double ν] in
theorem wkpUpdate (h : P.Sized cfg) (hv : newValue.length = cfg.metrics.length) :
    (wkpUpdate cfg P newValue).Sized cfg := by
  have hpush : ∀ {l : List (List Int64)}, (∀ v ∈ l, v.length = cfg.metrics.length) →
      ∀ v ∈ l ++ [newValue], v.length = cfg.metrics.length := by
    intro l hl v hmem
    rcases List.mem_append.mp hmem with hmem | hmem
    · exact hl v hmem
    · rw [List.mem_singleton.mp hmem, hv]
  have hnew : ∀ v ∈ P.new.tail ++ [newValue], v.length = cfg.metrics.length :=
    hpush fun v hmem => h.new v (List.mem_of_mem_tail hmem)
  unfold Wkp.wkpUpdate
  split
  · exact ⟨h.wkp, h.cusum, hpush h.old, h.new⟩
  split
  · exact ⟨h.wkp, h.cusum, h.old, hpush h.new⟩
  dsimp only
  split
  · exact ⟨h.wkp, h.cusum, h.old, hnew⟩
  · refine ⟨h.wkp, h.cusum, ?_, hnew⟩
    intro v hmem
    rcases List.mem_append.mp hmem with hmem | hmem
    · exact h.old v (List.mem_of_mem_tail hmem)
    · exact h.new v (List.mem_of_mem_head? (Option.mem_toList.mp hmem))

theorem cusumUpdate (h : P.Sized cfg) (hv : newValue.length = cfg.metrics.length) :
    (cusumUpdate cfg P newValue).Sized cfg := by
  have hzip : ∀ f : CusumMetric ν → Int64 → CusumMetric ν,
      (P.cusum.zipWith f newValue).length = if cfg.enableCusumTest then
          cfg.metrics.length else 0 := by
    intro f
    rw [List.length_zipWith, h.cusum, hv]
    split <;> simp
  unfold Wkp.cusumUpdate
  dsimp only
  split
  · split <;> exact ⟨h.wkp, hzip _, h.old, h.new⟩
  · split
    · exact ⟨h.wkp, hzip _, h.old, h.new⟩
    split
    · exact ⟨h.wkp, hzip _, h.old, h.new⟩
    split <;> exact ⟨h.wkp, hzip _, h.old, h.new⟩

theorem learn {info prev : Info} {P : Option (Params ν)} (h : ∀ Q ∈ P, Q.Sized cfg) :
    (learn cfg P info prev).Sized cfg := by
  have hlen := length_extractData cfg.metrics cfg.noiseThreshold info prev
  cases P with
  | none => exact start hlen
  | some P =>
    have hP := h P rfl
    have hwkp : (if cfg.enableWkpTest then
        Wkp.wkpUpdate cfg P (extractData cfg.metrics cfg.noiseThreshold info prev) else P).Sized
            cfg := by
      split
      · exact hP.wkpUpdate hlen
      · exact hP
    simp only [Wkp.learn]
    split
    · exact hwkp.cusumUpdate hlen
    · exact hwkp

theorem wkpTest (h : P.Sized cfg) : (wkpTest cfg P).1.Sized cfg :=
  ⟨by simp [Wkp.wkpTest, h.wkp], h.cusum, h.old, h.new⟩

theorem cusumTest (h : P.Sized cfg) : (cusumTest cfg P).1.Sized cfg :=
  ⟨h.wkp, by simp [Wkp.cusumTest, h.cusum], h.old, h.new⟩

theorem testEndPoint (h : P.Sized cfg) : (testEndPoint cfg P).1.Sized cfg := by
  have hwkp :
      ((if P.wkpReady cfg then some (Wkp.wkpTest cfg P) else none).map Prod.fst |>.getD P).Sized
          cfg := by
    split
    · exact h.wkpTest
    · exact h
  have hcusum : ∀ {Q : Params ν}, Q.Sized cfg → ((if Q.cusumReady cfg then
      some (Wkp.cusumTest cfg Q) else none).map Prod.fst |>.getD Q).Sized cfg := by
    intro Q hQ
    split
    · exact hQ.cusumTest
    · exact hQ
  exact hcusum hwkp

end Params.Sized

theorem View.sized_test {cfg : StatConfig ν} {v : View ν} {empty : Bool} {own : Option Info}
    (h : ∀ P ∈ v.params, P.Sized cfg) : ∀ P ∈ (v.test cfg empty own).1.params, P.Sized cfg := by
  have hlearn : ∀ P ∈ (own.map fun info => learn cfg v.params info v.prev).or v.params,
      P.Sized cfg := by
    cases own with
    | none => exact h
    | some info =>
      rintro P ⟨⟩
      exact .learn h
  intro P hP
  unfold View.test at hP
  split at hP
  · exact h P hP
  · dsimp only at hP
    split at hP
    · rw [Option.mem_def, Option.map_map, Option.map_eq_some_iff] at hP
      obtain ⟨Q, hQ, rfl⟩ := hP
      exact (hlearn Q hQ).testEndPoint
    · exact hlearn P hP

/-- No vector of an end point is too short or too long, after any run. -/
theorem Stat.sized (cfg : StatConfig ν) (intervals : List Interval) (e : EndPoint) :
    ∀ P ∈ (Machine.final (test cfg) init intervals).endpointParams.lookup e, P.Sized cfg := by
  have hstep : ∀ (s : Stat ν) (data : Interval), (∀ P ∈ (s.view e).params, P.Sized cfg) →
      ∀ P ∈ ((s.test cfg data).1.view e).params, P.Sized cfg := by
    intro s data h
    rw [(view_test cfg s data e).1]
    exact View.sized_test h
  exact Machine.final_keeps (C := fun s => ∀ P ∈ (view s e).params, P.Sized cfg) hstep
    (fun P hP => by cases hP) intervals

end Topas.Wkp
