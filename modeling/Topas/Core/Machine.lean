import Topas.Core.LTS

/-!
# Machines with an output a step

`agree` compares two runs of one machine: where a relation between the states survives a
step whenever the two inputs are as `G` asks, and the two steps then give one output, the
runs give the same outputs. `foldl_last` is about a component that a step either sets or leaves
alone: the last input that sets it decides.
-/
namespace Topas.Machine

variable {S I O : Type}

/-- What the steps of a run give, one output for every input. -/
def outputs (step : S → I → S × O) : S → List I → List O
  | _, [] => []
  | s, i :: is => (step s i).2 :: outputs step (step s i).1 is

/-- The state that a run ends in. -/
def final (step : S → I → S × O) (s : S) (is : List I) : S := is.foldl (fun s i => (step s i).1) s

/-- What every step keeps, a run keeps. -/
theorem final_keeps {step : S → I → S × O} {C : S → Prop} (hstep : ∀ s i, C s → C (step s i).1)
    {s : S} (h : C s) (is : List I) : C (final step s is) := by
  induction is generalizing s with
  | nil => exact h
  | cons i is ih => exact ih (hstep s i h)

theorem foldl_last {A : Type} {step : S → I → S} {g : S → A} {u : I → Option A}
    (h : ∀ s i, g (step s i) = (u i).getD (g s)) (s : S) (is : List I) :
    g (is.foldl step s) = (is.filterMap u).getLast?.getD (g s) := by
  induction is generalizing s with
  | nil => rfl
  | cons i is ih =>
    rw [List.foldl_cons, ih, h]
    cases hi : u i with
    | none => rw [List.filterMap_cons_none hi, Option.getD_none]
    | some a =>
      rw [List.filterMap_cons_some hi, List.getLast?_cons, Option.getD_some, Option.getD_some]

variable {P : Type} {step : S → I → S × O} {R : S → S → Prop} {G : S → I → I → Prop} {q : O → P}

theorem agree
    (hstep : ∀ s t i j, R s t → G s i j → R (step s i).1 (step t j).1 ∧
      q (step s i).2 = q (step t j).2)
    {s t : S} {ps : List (I × I)} (hR : R s t)
    (hG : LTS.Permits (fun s p => G s p.1 p.2) (fun s p => (step s p.1).1) s ps) :
    (outputs step s (ps.map Prod.fst)).map q = (outputs step t (ps.map Prod.snd)).map q ∧
      R (final step s (ps.map Prod.fst)) (final step t (ps.map Prod.snd)) := by
  induction ps generalizing s t with
  | nil => exact ⟨rfl, hR⟩
  | cons p ps ih =>
    obtain ⟨hp, hps⟩ := hG
    obtain ⟨hnext, hout⟩ := hstep _ _ _ _ hR hp
    obtain ⟨houts, hfinal⟩ := ih hnext hps
    simp only [List.map_cons, outputs]
    exact ⟨by rw [hout, houts], hfinal⟩

end Topas.Machine
