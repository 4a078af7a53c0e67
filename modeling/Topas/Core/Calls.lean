import Topas.Core.LTS

/-!
# Calls on an object, one at a time

An object of type `σ` is used through calls. A call with the argument `m` starts at
`enter m`, takes any number of steps on the object (`step`), each with its own locals
of type `τ`, and returns where `returned` holds. `Serves s ms s'` says that the calls
`ms`, one after the other, take the object from `s` to `s'`; `InCall s ms s' t` that
the last of them is still under way.

What a caller must know of a lock around the object is in `InCall.step`,
`Serves.begins` and `InCall.returns`: as long as calls do not overlap, the object is
always at a point of a run of calls one after the other.
-/
namespace Topas

/-- What a call on an object of type `σ` with an argument of type `μ` does. -/
structure Calls (σ μ τ : Type) where
  enter : μ → τ
  step : σ → τ → σ → τ → Prop
  returned : τ → Prop

namespace Calls

variable {σ μ τ : Type} {C : Calls σ μ τ}

/-- The steps of one call. -/
inductive Steps (C : Calls σ μ τ) : σ → τ → σ → τ → Prop where
  | refl (s : σ) (t : τ) : Steps C s t s t
  | tail {s s' s'' : σ} {t t' t'' : τ} :
      Steps C s t s' t' → C.step s' t' s'' t'' → Steps C s t s'' t''

/-- One whole call. -/
def Call (C : Calls σ μ τ) (s : σ) (m : μ) (s' : σ) : Prop :=
  ∃ t, C.Steps s (C.enter m) s' t ∧ C.returned t

/-- The calls of a list, one after the other. -/
inductive Serves (C : Calls σ μ τ) : σ → List μ → σ → Prop where
  | nil (s : σ) : Serves C s [] s
  | snoc {s s' s'' : σ} {ms : List μ} {m : μ} :
      Serves C s ms s' → C.Call s' m s'' → Serves C s (ms ++ [m]) s''

/-- The last call of the list is under way, with the locals `t`. -/
def InCall (C : Calls σ μ τ) (s : σ) (ms : List μ) (s' : σ) (t : τ) : Prop :=
  ∃ pre m mid, ms = pre ++ [m] ∧ C.Serves s pre mid ∧ C.Steps mid (C.enter m) s' t

theorem Steps.trans {s s' s'' : σ} {t t' t'' : τ} (h : C.Steps s t s' t')
    (h' : C.Steps s' t' s'' t'') :
    C.Steps s t s'' t'' := by
  induction h' with
  | refl => exact h
  | tail _ hs ih => exact .tail (ih h) hs

/-- What is passed back over one step is passed back over many. -/
theorem Steps.back {R : σ → τ → Prop}
    (hR : ∀ s t s' t', C.step s t s' t' → R s' t' → R s t) {s s' : σ}
    {t t' : τ} (h : C.Steps s t s' t') (h' : R s' t') : R s t := by
  induction h with
  | refl => exact h'
  | tail _ hs ih => exact ih (hR _ _ _ _ hs h')

theorem Serves.begins {s s' : σ} {ms : List μ} (h : C.Serves s ms s') (m : μ) :
    C.InCall s (ms ++ [m]) s' (C.enter m) :=
  ⟨ms, m, s', rfl, h, .refl _ _⟩

theorem InCall.step {s s' s'' : σ} {ms : List μ} {t t' : τ} (h : C.InCall s ms s' t)
    (hs : C.step s' t s'' t') : C.InCall s ms s'' t' := by
  obtain ⟨pre, m, mid, hms, hpre, hsteps⟩ := h
  exact ⟨pre, m, mid, hms, hpre, .tail hsteps hs⟩

theorem InCall.returns {s s' : σ} {ms : List μ} {t : τ} (h : C.InCall s ms s' t)
    (ht : C.returned t) : C.Serves s ms s' := by
  obtain ⟨pre, m, mid, rfl, hpre, hsteps⟩ := h
  exact .snoc hpre ⟨t, hsteps, ht⟩

/-- Calls that are steps of a system make runs of it. -/
theorem Serves.run {T : LTS σ μ} (hT : ∀ s m s', C.Call s m s' → T.step s m s') {s s' : σ}
    {ms : List μ} (h : C.Serves s ms s') : T.Run s ms s' := by
  induction h with
  | nil => exact .nil _
  | snoc _ hcall ih => exact ih.append (.cons (hT _ _ _ hcall) (.nil _))

end Calls

end Topas
