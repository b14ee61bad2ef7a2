import VgcMalloc.Program.Runs

/-!
# Machines that answer calls

A machine answers every call by a result and a next state.  A family of
programs follows a machine when related states stay related and the results are
the same; then every run of the programs shows the answers of the machine, and
calls of which the machine takes no note can be left out.
-/

namespace VgcMalloc.Program

/-- A machine that answers calls. -/
structure Machine (S ι α : Type) where
  initial : S
  step : S → ι → α × S

variable {ρ ε σ ι α S : Type}

namespace Machine

/-- The state after some calls, newest call first. -/
def after (machine : Machine S ι α) : List ι → S
  | [] => machine.initial
  | call :: earlier => (machine.step (machine.after earlier) call).2

/-- The calls with their answers, newest call first. -/
def replies (machine : Machine S ι α) : List ι → List (ι × α)
  | [] => []
  | call :: earlier =>
      (call, (machine.step (machine.after earlier) call).1) :: machine.replies earlier

/-- The machine takes no note of these calls. -/
def Ignores (machine : Machine S ι α) (ignored : ι → Bool) : Prop :=
  ∀ state call, ignored call = true → (machine.step state call).2 = state

variable {machine : Machine S ι α} {ignored : ι → Bool}

theorem Ignores.after_filter (ignores : machine.Ignores ignored) (calls : List ι) :
    machine.after (calls.filter fun call => !ignored call) = machine.after calls := by
  induction calls with
  | nil => rfl
  | cons call earlier ih =>
      cases silent : ignored call with
      | true =>
          rw [List.filter_cons_of_neg (by simp [silent]), ih, after, ignores _ call silent]
      | false =>
          rw [List.filter_cons_of_pos (by simp [silent]), after, after, ih]

/-- The answers to the other calls do not depend on the ignored ones. -/
theorem Ignores.replies_filter (ignores : machine.Ignores ignored) (calls : List ι) :
    (machine.replies calls).filter (fun reply => !ignored reply.1) =
      machine.replies (calls.filter fun call => !ignored call) := by
  induction calls with
  | nil => rfl
  | cons call earlier ih =>
      cases silent : ignored call with
      | true =>
          rw [replies, List.filter_cons_of_neg (by simp [silent]),
            List.filter_cons_of_neg (by simp [silent]), ih]
      | false =>
          rw [replies, List.filter_cons_of_pos (by simp [silent]),
            List.filter_cons_of_pos (by simp [silent]), replies, ih, ignores.after_filter]

end Machine

/-- The calls of a trace with their results. -/
def answered (trace : List (Event σ ι α)) : List (ι × α) :=
  trace.map fun event => (event.call, event.result)

variable {program : ι → Program ρ ε σ α} {env : ρ} {allowed : σ → ι → Prop} {initial state : σ}
  {trace : List (Event σ ι α)} {machine : Machine S ι α}

/-- One step of the programs is one step of the machine. -/
def Follows (program : ι → Program ρ ε σ α) (env : ρ) (allowed : σ → ι → Prop)
    (machine : Machine S ι α) (Shows : σ → S → Prop) : Prop :=
  ∀ state call result last shown, Shows state shown → allowed state call →
    program call env state = .ok result last →
      result = (machine.step shown call).1 ∧ Shows last (machine.step shown call).2

/-- A run of programs that follow a machine shows the state of the machine and
its answers. -/
theorem Run.follows {Shows : σ → S → Prop} (base : Shows initial machine.initial)
    (follows : Follows program env allowed machine Shows)
    (run : Run program env allowed initial trace state) :
    Shows state (machine.after (trace.map Event.call)) ∧
      answered trace = machine.replies (trace.map Event.call) := by
  refine Run.induct (fun trace state => Shows state (machine.after (trace.map Event.call)) ∧
    answered trace = machine.replies (trace.map Event.call)) ⟨base, rfl⟩ ?_ run
  rintro trace state call result last ⟨shows, same⟩ lawful ended
  obtain ⟨resultEq, next⟩ := follows state call result last _ shows lawful ended
  refine ⟨next, ?_⟩
  rw [answered, List.map_cons, List.map_cons, Machine.replies, ← same, resultEq]
  rfl

end VgcMalloc.Program
