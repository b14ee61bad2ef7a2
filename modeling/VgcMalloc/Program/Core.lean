/-!
# Stateful programs that may stop

A program reads an environment and transforms a state.  It ends normally with
a value, stops at a fault, or runs forever; the last two outcomes are kept
apart and neither is totalized to a default value.

Two rules of postconditions are provided.  `Returns` promises a normal end,
`Ensures` only speaks about normal ends.  Both compose along `bind`.
-/

namespace VgcMalloc

universe u

/-- The three ways in which a program ends. -/
inductive Outcome (ε σ α : Type) where
  | ok (value : α) (state : σ)
  | fault (reason : ε)
  | diverge

/-- The value and the state of a normal end. -/
def Outcome.normal {ε σ α : Type} : Outcome ε σ α → Option (α × σ)
  | .ok value state => some (value, state)
  | .fault _ => none
  | .diverge => none

theorem Outcome.normal_eq_some_iff {ε σ α : Type} {outcome : Outcome ε σ α} {final : α × σ} :
    outcome.normal = some final ↔ outcome = .ok final.1 final.2 := by
  cases outcome with
  | ok value state =>
      rw [normal, Option.some.injEq, Outcome.ok.injEq, Prod.ext_iff]
  | fault reason => simp [normal]
  | diverge => simp [normal]

/-- A program over environments `ρ` and states `σ` that faults with `ε`. -/
def Program (ρ ε σ α : Type) := ρ → σ → Outcome ε σ α

namespace Program

variable {ρ ε σ α β : Type}

/-- Return a value and keep the state. -/
protected def pure (value : α) : Program ρ ε σ α :=
  fun _ state => .ok value state

/-- Run a program and continue from its value; faults and divergence
propagate. -/
protected def bind (program : Program ρ ε σ α) (next : α → Program ρ ε σ β) :
    Program ρ ε σ β :=
  fun env state =>
    match program env state with
    | .ok value middle => next value env middle
    | .fault reason => .fault reason
    | .diverge => .diverge

instance : Monad (Program ρ ε σ) where
  pure := Program.pure
  bind := Program.bind

@[simp]
theorem pure_apply (value : α) (env : ρ) (state : σ) :
    (pure value : Program ρ ε σ α) env state = .ok value state :=
  rfl

theorem bind_apply (program : Program ρ ε σ α) (next : α → Program ρ ε σ β)
    (env : ρ) (state : σ) :
    (program >>= next) env state =
      match program env state with
      | .ok value middle => next value env middle
      | .fault reason => .fault reason
      | .diverge => .diverge :=
  rfl

/-- A normal first end hands its value and state to the continuation. -/
theorem bind_of_ok {program : Program ρ ε σ α} {next : α → Program ρ ε σ β}
    {env : ρ} {state middle : σ} {value : α}
    (first : program env state = .ok value middle) :
    (program >>= next) env state = next value env middle := by
  rw [bind_apply, first]

/-- A sequence ends normally exactly when both of its parts do. -/
theorem bind_eq_ok_iff {program : Program ρ ε σ α} {next : α → Program ρ ε σ β}
    {env : ρ} {state final : σ} {result : β} :
    (program >>= next) env state = .ok result final ↔
      ∃ value middle, program env state = .ok value middle ∧
        next value env middle = .ok result final := by
  rw [bind_apply]
  cases first : program env state with
  | ok value middle =>
      constructor
      · intro rest
        exact ⟨value, middle, rfl, rest⟩
      · rintro ⟨_, _, ended, rest⟩
        cases ended
        exact rest
  | fault reason => simp
  | diverge => simp

/-- A sequence runs forever exactly when its first part does, or its second
part after the first. -/
theorem bind_eq_diverge_iff {program : Program ρ ε σ α} {next : α → Program ρ ε σ β}
    {env : ρ} {state : σ} :
    (program >>= next) env state = .diverge ↔
      program env state = .diverge ∨
        ∃ value middle, program env state = .ok value middle ∧
          next value env middle = .diverge := by
  rw [bind_apply]
  cases first : program env state with
  | ok value middle =>
      constructor
      · intro rest
        exact Or.inr ⟨value, middle, rfl, rest⟩
      · rintro (impossible | ⟨_, _, ended, rest⟩)
        · cases impossible
        · cases ended
          exact rest
  | fault reason => simp
  | diverge => simp

protected theorem bind_pure (program : Program ρ ε σ α) : program.bind pure = program := by
  funext env state
  unfold Program.bind
  cases program env state <;> rfl

protected theorem bind_assoc {γ : Type} (program : Program ρ ε σ α)
    (next : α → Program ρ ε σ β) (last : β → Program ρ ε σ γ) :
    (program.bind next).bind last = program.bind fun value => (next value).bind last := by
  funext env state
  unfold Program.bind
  cases program env state <;> rfl

instance : LawfulMonad (Program ρ ε σ) :=
  .mk' (Program ρ ε σ) Program.bind_pure (fun _ _ => rfl) Program.bind_assoc

/-- Run the program only when the condition holds. -/
def when (condition : Prop) [Decidable condition] (program : Program ρ ε σ Unit) :
    Program ρ ε σ Unit :=
  if condition then program else pure ()

/-! ## Postconditions -/

/-- The program ends normally, with a value and a state that satisfy `post`. -/
def Returns (program : Program ρ ε σ α) (env : ρ) (state : σ)
    (post : α → σ → Prop) : Prop :=
  ∃ value final, program env state = .ok value final ∧ post value final

/-- Every normal end of the program satisfies `post`. -/
def Ensures (program : Program ρ ε σ α) (env : ρ) (state : σ)
    (post : α → σ → Prop) : Prop :=
  ∀ value final, program env state = .ok value final → post value final

variable {program : Program ρ ε σ α} {next : α → Program ρ ε σ β} {env : ρ}
  {state : σ} {post post' : α → σ → Prop} {result : β → σ → Prop}

theorem Returns.pure {value : α} (holds : post value state) :
    Returns (pure value : Program ρ ε σ α) env state post :=
  ⟨value, state, rfl, holds⟩

theorem Returns.bind
    (first : Returns program env state fun value middle =>
      Returns (next value) env middle result) :
    Returns (program >>= next) env state result := by
  obtain ⟨value, middle, firstEnd, output, final, secondEnd, holds⟩ := first
  exact ⟨output, final, (bind_of_ok firstEnd).trans secondEnd, holds⟩

theorem Returns.mono (first : Returns program env state post)
    (weaker : ∀ value final, post value final → post' value final) :
    Returns program env state post' := by
  obtain ⟨value, final, ended, holds⟩ := first
  exact ⟨value, final, ended, weaker value final holds⟩

/-- Run one program with a known postcondition, then continue. -/
theorem Returns.seq (first : Returns program env state post)
    (rest : ∀ value middle, post value middle →
      Returns (next value) env middle result) :
    Returns (program >>= next) env state result :=
  Returns.bind (first.mono rest)

theorem Ensures.pure {value : α} (holds : post value state) :
    Ensures (pure value : Program ρ ε σ α) env state post := by
  intro output final ended
  cases ended
  exact holds

theorem Ensures.seq (first : Ensures program env state post)
    (rest : ∀ value middle, post value middle →
      Ensures (next value) env middle result) :
    Ensures (program >>= next) env state result := by
  intro output final ended
  obtain ⟨value, middle, firstEnd, secondEnd⟩ := bind_eq_ok_iff.mp ended
  exact rest value middle (first value middle firstEnd) output final secondEnd

theorem Ensures.mono (first : Ensures program env state post)
    (weaker : ∀ value final, post value final → post' value final) :
    Ensures program env state post' :=
  fun value final ended => weaker value final (first value final ended)

/-- Programs are deterministic, so a promised end is the only end. -/
theorem Returns.ensures (first : Returns program env state post) :
    Ensures program env state post := by
  intro value final ended
  obtain ⟨actual, actualFinal, actualEnd, holds⟩ := first
  rw [actualEnd] at ended
  cases ended
  exact holds

end Program

end VgcMalloc
