import Mathlib.Logic.Relation

/-!
# Transition relations

Runs of a system in which any of several parties may take the next step.  An
invariant is proved for one step, and a run that must end reaches a state in
which no step is left.
-/

namespace VgcMalloc.Program

open Relation

variable {σ : Type} {step : σ → σ → Prop} {first last : σ}

/-- No party can take a step. -/
def Stuck (step : σ → σ → Prop) (state : σ) : Prop := ∀ after, ¬step state after

/-- Every run from the state ends. -/
def Ends (step : σ → σ → Prop) (state : σ) : Prop :=
  Acc (fun after before => step before after) state

/-- What holds of the first state and is preserved by every step, holds of
every state that is reached. -/
theorem invariant_of_reach (Good : σ → Prop) (base : Good first)
    (preserved : ∀ state after, Good state → step state after → Good after)
    (reach : ReflTransGen step first last) : Good last := by
  induction reach with
  | refl => exact base
  | tail _ taken ih => exact preserved _ _ ih taken

/-- A run that must end gets stuck somewhere. -/
theorem Ends.exists_stuck (ends : Ends step first) :
    ∃ last, ReflTransGen step first last ∧ Stuck step last := by
  induction ends with
  | intro state _ ih =>
      by_cases moves : ∃ after, step state after
      · obtain ⟨after, taken⟩ := moves
        obtain ⟨last, reach, stuck⟩ := ih after taken
        exact ⟨last, .head taken reach, stuck⟩
      · exact ⟨state, .refl, fun after taken => moves ⟨after, taken⟩⟩

/-- A state whose only step leads to a state from which every run ends. -/
theorem Ends.of_only {middle : σ} (only : ∀ after, step first after → after = middle)
    (ends : Ends step middle) : Ends step first := by
  refine .intro first fun after taken => ?_
  rw [only after taken]
  exact ends

/-- A stuck state ends every run. -/
theorem Ends.of_stuck (stuck : Stuck step first) : Ends step first :=
  .intro first fun after taken => absurd taken (stuck after)

/-- Every run ends from where an invariant holds under which each step makes a
measure smaller. -/
theorem Ends.of_measure (Good : σ → Prop) (measure : σ → Nat)
    (shrinks : ∀ state after, Good state → step state after →
      Good after ∧ measure after < measure state) (good : Good first) : Ends step first := by
  induction size : measure first using Nat.strongRecOn generalizing first with
  | ind bound ih =>
      refine .intro first fun after taken => ?_
      obtain ⟨next, smaller⟩ := shrinks first after good taken
      exact ih (measure after) (size ▸ smaller) next rfl

/-- A run that passes through a state with one step reaches that state only,
or goes on from the next one. -/
theorem reach_of_only {middle : σ} (only : ∀ after, step first after → after = middle)
    (reach : ReflTransGen step first last) :
    last = first ∨ ReflTransGen step middle last := by
  rcases ReflTransGen.cases_head reach with same | ⟨after, taken, rest⟩
  · exact Or.inl same.symm
  · rw [only after taken] at rest
    exact Or.inr rest

/-- A run from a stuck state stays there. -/
theorem reach_of_stuck (stuck : Stuck step first) (reach : ReflTransGen step first last) :
    last = first := by
  rcases ReflTransGen.cases_head reach with same | ⟨after, taken, _⟩
  · exact same.symm
  · exact absurd taken (stuck after)

end VgcMalloc.Program
