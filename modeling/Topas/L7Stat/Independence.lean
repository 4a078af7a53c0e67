import Mathlib.Data.Int.Sqrt
import Topas.L7Stat.View

/-!
# What the tests of one end point depend on

The other end points enter a `View` only by the emptiness of the interval's map.

* `endpoint_independent`: two runs that give an end point the same counters report the same
  on it, as long as every interval is empty in both or in neither, or else finds the end
  point with no test due and nothing to forget (`View.Insensitive`).
* `View.report_lost`: otherwise, where a test is due, the run whose map is empty leaves it out.

From an empty map `Stat::test` returns before the test phase and without deleting the store.
So CUSUM is not reset for the end points that had no traffic, "no attack" is not noted for
them, and the next interval is compared with an older one.
-/
namespace Topas.Wkp

variable {ν : Type}

namespace View

/-- Where an interval in which nothing is known of the end point changes nothing for it: no test of
its samples is due, and the interval before is not asked for, or had no traffic. -/
structure Insensitive (cfg : StatConfig ν) (v : View ν) : Prop where
  untested : Stat.makeStatTest cfg v.testCounter = true →
    ∀ P ∈ v.params, P.wkpReady cfg = false ∧ P.cusumReady cfg = false
  prev : usesPrevious cfg.metrics = true → v.prev = .zero

instance (cfg : StatConfig ν) (v : View ν) : Decidable (v.Insensitive cfg) :=
  decidable_of_iff _ ⟨fun h => Insensitive.mk h.1 h.2, fun h => And.intro h.untested h.prev⟩

/-- The same to all tests that are still to come. -/
structure Agree (cfg : StatConfig ν) (v w : View ν) : Prop where
  params : v.params = w.params
  testCounter : v.testCounter = w.testCounter
  prev : usesPrevious cfg.metrics = true → v.prev = w.prev

variable {cfg : StatConfig ν} {v w u : View ν}

theorem Agree.refl (v : View ν) : v.Agree cfg v := ⟨rfl, rfl, fun _ => rfl⟩

theorem Agree.symm (h : v.Agree cfg w) : w.Agree cfg v :=
  ⟨h.params.symm, h.testCounter.symm, fun hu => (h.prev hu).symm⟩

theorem Agree.trans (h : v.Agree cfg w) (h' : w.Agree cfg u) : v.Agree cfg u :=
  ⟨h.params.trans h'.params, h.testCounter.trans h'.testCounter,
    fun hu => (h.prev hu).trans (h'.prev hu)⟩

end View

variable [Double ν]

theorem learn_congr {cfg : StatConfig ν} {P : Option (Params ν)} {info prev prev' : Info}
    (h : usesPrevious cfg.metrics = true → prev = prev') :
    learn cfg P info prev = learn cfg P info prev' := by
  unfold learn
  rw [extractData_congr h]

theorem testEndPoint_of_not_ready {cfg : StatConfig ν} {P : Params ν}
    (hwkp : P.wkpReady cfg = false)
    (hcusum : P.cusumReady cfg = false) : testEndPoint cfg P = (P, .none) := by
  simp [testEndPoint, hwkp, hcusum, Report.none]

namespace View

variable {cfg : StatConfig ν} {v w : View ν}

/-- Views that agree are tested alike. -/
theorem Agree.test (h : v.Agree cfg w) (empty : Bool) (own : Option Info) :
    (v.test cfg empty own).1.Agree cfg (w.test cfg empty own).1 ∧
      (v.test cfg empty own).2 = (w.test cfg empty own).2 := by
  obtain ⟨params, prev, testCounter⟩ := v
  obtain ⟨params', prev', testCounter'⟩ := w
  obtain ⟨hparams, hcounter, hprev⟩ := h
  dsimp only at hparams hcounter hprev
  subst hparams hcounter
  have hlearn : (fun info => learn cfg params info prev) = fun info =>
      learn cfg params info prev' :=
    funext fun info => learn_congr hprev
  cases empty with
  | true => exact ⟨⟨rfl, rfl, hprev⟩, rfl⟩
  | false =>
    simp only [View.test, hlearn]
    exact ⟨Agree.refl _, rfl⟩

/-- Without traffic of its own nothing of the view changes but what it forgets. -/
theorem Insensitive.test_eq (h : v.Insensitive cfg) :
    v.test cfg false none = (⟨v.params, .zero, v.testCounter + 1⟩, .none) := by
  by_cases htest : Stat.makeStatTest cfg v.testCounter = true
  · cases hP : v.params with
    | none => simp [View.test, htest, hP]
    | some P =>
      obtain ⟨hwkp, hcusum⟩ := h.untested htest P hP
      simp [View.test, htest, hP, testEndPoint_of_not_ready hwkp hcusum]
  · simp [View.test, htest]

/-- It does not matter then whether the map is empty. -/
theorem Insensitive.test (h : v.Insensitive cfg) (empty empty' : Bool) :
    (v.test cfg empty none).1.Agree cfg (v.test cfg empty' none).1 ∧
      (v.test cfg empty none).2 = (v.test cfg empty' none).2 := by
  have hprev : usesPrevious cfg.metrics = true → Info.zero = v.prev := fun hu => (h.prev hu).symm
  have hagree : (v.test cfg false none).1.Agree cfg (v.test cfg true none).1 := by
    rw [h.test_eq]
    exact ⟨rfl, rfl, hprev⟩
  have hreport : (v.test cfg false none).2 = (v.test cfg true none).2 := by
    rw [h.test_eq]
    rfl
  cases empty <;> cases empty'
  · exact ⟨Agree.refl _, rfl⟩
  · exact ⟨hagree, hreport⟩
  · exact ⟨hagree.symm, hreport.symm⟩
  · exact ⟨Agree.refl _, rfl⟩

/-- Where the end point is tested, an empty map leaves the test out. -/
theorem report_lost {P : Params ν} (htest : Stat.makeStatTest cfg v.testCounter = true)
    (hP : v.params = some P) (hready : P.wkpReady cfg = true ∨ P.cusumReady cfg = true) :
    (v.test cfg true none).2 ≠ (v.test cfg false none).2 := by
  have hreport : (v.test cfg false none).2 = (testEndPoint cfg P).2 :=
    by simp [View.test, htest, hP]
  rw [hreport]
  intro hnone
  by_cases hwkp : P.wkpReady cfg = true
  · simp [View.test, Report.none, testEndPoint, hwkp] at hnone
  · have hcusum := hready.resolve_left hwkp
    simp [View.test, Report.none, testEndPoint, hwkp, hcusum] at hnone

end View

/-- An end point that has the same entry in a map with entries and in one without has none. -/
theorem Interval.lookup_of_lone {a b : Interval} {e : EndPoint} (hown : a.lookup e = b.lookup e)
    (hne : a.entries.isEmpty ≠ b.entries.isEmpty) : a.lookup e = none := by
  have hnone : ∀ c : Interval, c.entries.isEmpty = true → c.lookup e = none := by
    intro c hc
    rw [List.isEmpty_iff] at hc
    simp [AList.lookup, hc]
  cases ha : a.entries.isEmpty with
  | true => exact hnone a ha
  | false =>
    have hb : b.entries.isEmpty = true := by simpa [ha] using hne
    rw [hown]
    exact hnone b hb

namespace Stat

/-- One interval of each of two runs. -/
theorem test_agree {cfg : StatConfig ν} {e : EndPoint} {s t : Stat ν} {a b : Interval}
    (hR : (s.view e).Agree cfg (t.view e)) (hown : a.lookup e = b.lookup e)
    (hempty : a.entries.isEmpty = b.entries.isEmpty ∨ (s.view e).Insensitive cfg) :
    ((s.test cfg a).1.view e).Agree cfg ((t.test cfg b).1.view e) ∧
      (s.test cfg a).2.on e = (t.test cfg b).2.on e := by
  obtain ⟨ha, har⟩ := view_test cfg s a e
  obtain ⟨hb, hbr⟩ := view_test cfg t b e
  rw [ha, har, hb, hbr, ← hown]
  obtain ⟨hagree, hreport⟩ := hR.test b.entries.isEmpty (a.lookup e)
  by_cases heq : a.entries.isEmpty = b.entries.isEmpty
  · rw [heq]
    exact ⟨hagree, hreport⟩
  · -- one map is empty, so the end point is in neither
    rw [Interval.lookup_of_lone hown heq] at hagree hreport ⊢
    obtain ⟨hagree', hreport'⟩ :=
      (hempty.resolve_left heq).test a.entries.isEmpty b.entries.isEmpty
    exact ⟨hagree'.trans hagree, hreport'.trans hreport⟩

/-- What is reported on an end point, and what is kept for it. -/
theorem endpoint_independent (cfg : StatConfig ν) (e : EndPoint) (runs : List (Interval × Interval))
    (hown : ∀ p ∈ runs, p.1.lookup e = p.2.lookup e)
    (hempty : LTS.Permits
      (fun s p => p.1.entries.isEmpty = p.2.entries.isEmpty ∨ (s.view e).Insensitive cfg)
      (fun s p => (test cfg s p.1).1) init runs) :
    (run cfg (runs.map Prod.fst)).map (·.on e) = (run cfg (runs.map Prod.snd)).map (·.on e) ∧
      (Machine.final (test cfg) init (runs.map Prod.fst)).endpointParams.lookup e =
        (Machine.final (test cfg) init (runs.map Prod.snd)).endpointParams.lookup e := by
  obtain ⟨hreports, hfinal⟩ := Machine.agree
    (R := fun s t : Stat ν => (s.view e).Agree cfg (t.view e))
    (G := fun (s : Stat ν) (a b : Interval) => a.lookup e = b.lookup e ∧
      (a.entries.isEmpty = b.entries.isEmpty ∨ (s.view e).Insensitive cfg))
    (q := (·.on e)) (fun s t a b hR hG => test_agree hR hG.1 hG.2) (View.Agree.refl _)
      (hempty.and hown)
  exact ⟨hreports, hfinal.params⟩

/-! ### Runs -/

/-- Whole numbers, for runs in which every quotient and square root comes out even and the variance
is not smoothed on a logarithmic scale. -/
instance : Double Int where
  sqrt := Int.sqrt
  exp _ := 0
  log _ := 0
  decidableLT := inferInstance
  quasiDifference x factor prev := Int64.ofInt (x.toInt - factor * prev.toInt)

/-- CUSUM of the packets that come in, with a learning phase of two intervals. -/
def cusumOnly : StatConfig Int where
  metrics := [⟨.packetsIn, false, false, false, 0⟩]
  noiseThreshold := ⟨0, 0⟩
  statTestFrequency := 1
  reportOnlyFirstAttack := true
  pauseUpdateWhenAttack := 0
  enableCusumTest := true
  amplitudePercentage := 1
  logVarianceEwma := false
  repetitionFactor := 2
  cusumLearningPhase := 2
  smoothingConstant := 0
  enableWmwTest := false
  enableKsTest := false
  enablePcsTest := false
  enableWkpTest := false
  sampleOldSize := 1
  sampleNewSize := 1
  wmwTwoSided := false
  significanceLevel := 0
  wmwTest _ _ _ := 1
  ksTest _ _ := 1
  pcsTest _ _ := 1

def host (n : UInt8) : EndPoint := ⟨⟨10, 0, 0, n⟩, 0, 0⟩

/-- One packet out, and `packets` in. -/
def traffic (packets : UInt64) : Info := ⟨packets, 1, 40 * packets, 40, 1, 1⟩

def alone (packets : UInt64) : Interval := .singleton (host 1) (traffic packets)

def other : Interval := .singleton (host 2) (traffic 1)

def both (packets : UInt64) : Interval := (alone packets).insert (host 2) (traffic 1)

/-- The end point is learned, attacked, idle and attacked; another has traffic or not. An interval
that is empty in one run only finds the end point while it is learned. -/
theorem endpoint_independent_attack :
    let runs :=
      [(alone 0, both 0), (∅, other), (both 0, alone 0), (alone 5, both 5), (other, other),
      (alone 5, both 5)]
    (run cusumOnly (runs.map Prod.fst)).map (·.on (host 1)) =
        (run cusumOnly (runs.map Prod.snd)).map (·.on (host 1)) ∧
      ((run cusumOnly (runs.map Prod.fst)).map (·.on (host 1))).getLast? =
        some ⟨none, some [⟨5, true, 2⟩]⟩ :=
  ⟨(endpoint_independent cusumOnly (host 1)
    [(alone 0, both 0), (∅, other), (both 0, alone 0), (alone 5, both 5), (other, other),
      (alone 5, both 5)]
    (by decide) (by decide)).1, by decide⟩

/-- The idle interval is without any traffic in one run, and with traffic of another end point in
the other: the statistic is not reset, and the second attack is not counted. -/
theorem endpoint_dependent :
    let runs :=
      [(alone 0, alone 0), (alone 0, alone 0), (alone 5, alone 5), (∅, other), (alone 5, alone 5)]
    (∀ p ∈ runs, p.1.lookup (host 1) = p.2.lookup (host 1)) ∧
      (run cusumOnly (runs.map Prod.fst)).map (·.on (host 1)) =
        [.none, .none, ⟨none, some [⟨5, true, 1⟩]⟩, .none, ⟨none, some [⟨10, true, 1⟩]⟩] ∧
      (run cusumOnly (runs.map Prod.snd)).map (·.on (host 1)) =
        [.none, .none, ⟨none, some [⟨5, true, 1⟩]⟩, ⟨none, some [⟨0, false, 1⟩]⟩,
          ⟨none, some [⟨5, true, 2⟩]⟩] := by
  decide

end Stat

end Topas.Wkp
