import VgcMalloc.Program.Core

/-!
# Runs of calls

A client calls programs of a family one after the other.  A run is a sequence
of calls that ended normally, each of them allowed in the state it was made
in.  Facts about runs follow from facts about one call by the two rules at the
end.
-/

namespace VgcMalloc.Program

variable {ρ ε σ ι α : Type}

/-- A call that has ended, with the states around it. -/
structure Event (σ ι α : Type) where
  before : σ
  call : ι
  result : α
  after : σ

/-- The runs of a family of programs from an initial state, newest call
first. -/
inductive Run (program : ι → Program ρ ε σ α) (env : ρ) (allowed : σ → ι → Prop) (initial : σ) :
    List (Event σ ι α) → σ → Prop where
  | start : Run program env allowed initial [] initial
  | step {trace : List (Event σ ι α)} {state after : σ} {call : ι} {result : α}
      (run : Run program env allowed initial trace state) (lawful : allowed state call)
      (ended : program call env state = .ok result after) :
      Run program env allowed initial (⟨state, call, result, after⟩ :: trace) after

variable {program : ι → Program ρ ε σ α} {env : ρ} {allowed wider : σ → ι → Prop}
  {initial state : σ} {trace : List (Event σ ι α)}

/-- What holds of the trace and the state, holds of every run, when it holds
initially and every call preserves it. -/
theorem Run.induct (Good : List (Event σ ι α) → σ → Prop) (base : Good [] initial)
    (preserved : ∀ trace state call result after, Good trace state → allowed state call →
      program call env state = .ok result after →
        Good (⟨state, call, result, after⟩ :: trace) after)
    (run : Run program env allowed initial trace state) : Good trace state := by
  induction run with
  | start => exact base
  | step run lawful ended ih => exact preserved _ _ _ _ _ ih lawful ended

/-- An invariant of single calls is an invariant of runs. -/
theorem Run.invariant (Good : σ → Prop) (base : Good initial)
    (preserved : ∀ state call result after, Good state → allowed state call →
      program call env state = .ok result after → Good after)
    (run : Run program env allowed initial trace state) : Good state := by
  induction run with
  | start => exact base
  | step run lawful ended ih => exact preserved _ _ _ _ ih lawful ended

/-- Runs that are allowed less are allowed more. -/
theorem Run.mono (run : Run program env allowed initial trace state)
    (weaker : ∀ state call, allowed state call → wider state call) :
    Run program env wider initial trace state := by
  induction run with
  | start => exact .start
  | step run lawful ended ih => exact .step ih (weaker _ _ lawful) ended

/-- Make the calls one after the other, as long as they are allowed and end
normally. -/
def replay (program : ι → Program ρ ε σ α) (env : ρ) (allowed : σ → ι → Prop)
    [∀ state call, Decidable (allowed state call)] :
    List (Event σ ι α) → σ → List ι → Option (List (Event σ ι α) × σ)
  | trace, state, [] => some (trace, state)
  | trace, state, call :: rest =>
      if allowed state call then
        match program call env state with
        | .ok result after =>
            replay program env allowed (⟨state, call, result, after⟩ :: trace) after rest
        | _ => none
      else
        none

/-- What can be replayed is a run. -/
theorem Run.replay [∀ state call, Decidable (allowed state call)] {calls : List ι}
    {final : List (Event σ ι α) × σ} (run : Run program env allowed initial trace state)
    (found : replay program env allowed trace state calls = some final) :
    Run program env allowed initial final.1 final.2 := by
  induction calls generalizing trace state with
  | nil =>
      cases found
      exact run
  | cons call rest ih =>
      rw [Program.replay] at found
      split at found
      · rename_i lawful
        split at found
        · rename_i result after ended
          exact ih (run.step lawful ended) found
        · cases found
      · cases found

end VgcMalloc.Program
