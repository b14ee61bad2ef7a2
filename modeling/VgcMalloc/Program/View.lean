import VgcMalloc.Program.Core

/-!
# Postconditions over a view of the state

Many facts about a program concern only a part of its state.  A view projects
that part; `Yields` and `Allows` are the two rules of postconditions for
programs whose pre- and postconditions only mention the view.  `Settles` lies
between them: the program ends, and it faults only for the given reasons.
-/

namespace VgcMalloc.Program

variable {ρ ε σ α β V : Type}

/-- From every state with the view `seen` the program ends normally, with a
value and a view that satisfy `post`. -/
def Yields (view : σ → V) (program : Program ρ ε σ α) (env : ρ) (seen : V)
    (post : α → V → Prop) : Prop :=
  ∀ state, view state = seen →
    Returns program env state fun value final => post value (view final)

/-- Every normal end from a state with the view `seen` satisfies `post`. -/
def Allows (view : σ → V) (program : Program ρ ε σ α) (env : ρ) (seen : V)
    (post : α → V → Prop) : Prop :=
  ∀ state, view state = seen →
    Ensures program env state fun value final => post value (view final)

/-- From every state with the view `seen` the program ends normally with
`post`, or it faults for a reason that is `stuck`. -/
def Settles (view : σ → V) (stuck : ε → Prop) (program : Program ρ ε σ α) (env : ρ) (seen : V)
    (post : α → V → Prop) : Prop :=
  ∀ state, view state = seen →
    Returns program env state (fun value final => post value (view final)) ∨
      ∃ reason, stuck reason ∧ program env state = .fault reason

variable {view : σ → V} {program : Program ρ ε σ α} {next : α → Program ρ ε σ β}
  {env : ρ} {seen : V} {post post' : α → V → Prop} {result : β → V → Prop}

theorem Yields.pure {value : α} (holds : post value seen) :
    Yields view (Pure.pure value : Program ρ ε σ α) env seen post := by
  intro state viewEq
  apply Returns.pure
  rw [viewEq]
  exact holds

theorem Yields.seq (first : Yields view program env seen post)
    (rest : ∀ value middle, post value middle →
      Yields view (next value) env middle result) :
    Yields view (program >>= next) env seen result := by
  intro state viewEq
  exact (first state viewEq).seq fun value middle holds => rest value _ holds middle rfl

theorem Yields.mono (first : Yields view program env seen post)
    (weaker : ∀ value final, post value final → post' value final) :
    Yields view program env seen post' :=
  fun state viewEq => (first state viewEq).mono fun value final => weaker value (view final)

/-- A program that only runs under a condition. -/
theorem Yields.when {condition : Prop} [Decidable condition] {body : Program ρ ε σ Unit}
    {post : Unit → V → Prop}
    (taken : condition → Yields view body env seen post)
    (skipped : ¬condition → post () seen) :
    Yields view (Program.when condition body) env seen post := by
  unfold Program.when
  split
  · exact taken ‹_›
  · exact Yields.pure (skipped ‹_›)

theorem Yields.ite {condition : Prop} [Decidable condition]
    {first second : Program ρ ε σ α}
    (taken : condition → Yields view first env seen post)
    (skipped : ¬condition → Yields view second env seen post) :
    Yields view (if condition then first else second) env seen post := by
  split
  · exact taken ‹_›
  · exact skipped ‹_›

theorem Allows.pure {value : α} (holds : post value seen) :
    Allows view (Pure.pure value : Program ρ ε σ α) env seen post := by
  intro state viewEq
  apply Ensures.pure
  rw [viewEq]
  exact holds

theorem Allows.seq (first : Allows view program env seen post)
    (rest : ∀ value middle, post value middle →
      Allows view (next value) env middle result) :
    Allows view (program >>= next) env seen result := by
  intro state viewEq
  exact (first state viewEq).seq fun value middle holds => rest value _ holds middle rfl

theorem Allows.mono (first : Allows view program env seen post)
    (weaker : ∀ value final, post value final → post' value final) :
    Allows view program env seen post' :=
  fun state viewEq => (first state viewEq).mono fun value final => weaker value (view final)

theorem Allows.ite {condition : Prop} [Decidable condition]
    {first second : Program ρ ε σ α}
    (taken : condition → Allows view first env seen post)
    (skipped : ¬condition → Allows view second env seen post) :
    Allows view (if condition then first else second) env seen post := by
  split
  · exact taken ‹_›
  · exact skipped ‹_›

theorem Allows.when {condition : Prop} [Decidable condition] {body : Program ρ ε σ Unit}
    {post : Unit → V → Prop}
    (taken : condition → Allows view body env seen post)
    (skipped : ¬condition → post () seen) :
    Allows view (Program.when condition body) env seen post :=
  Allows.ite taken fun not => Allows.pure (skipped not)

/-- Programs are deterministic, so a promised end is the only end. -/
theorem Yields.allows (first : Yields view program env seen post) :
    Allows view program env seen post :=
  fun state viewEq => (first state viewEq).ensures

/-- A promised end also has every property that all normal ends have. -/
theorem Yields.and (first : Yields view program env seen post)
    (also : Allows view program env seen post') :
    Yields view program env seen fun value final => post value final ∧ post' value final := by
  intro state viewEq
  obtain ⟨value, final, ended, holds⟩ := first state viewEq
  exact ⟨value, final, ended, holds, also state viewEq value final ended⟩

/-- Two properties of all normal ends hold together. -/
theorem Allows.and (first : Allows view program env seen post)
    (also : Allows view program env seen post') :
    Allows view program env seen fun value final => post value final ∧ post' value final :=
  fun state viewEq value final ended =>
    ⟨first state viewEq value final ended, also state viewEq value final ended⟩

/-- A program that faults allows every postcondition. -/
theorem Allows.of_fault (reason : ε)
    (stops : ∀ state, view state = seen → program env state = .fault reason) :
    Allows view program env seen post := by
  intro state viewEq value final ended
  rw [stops state viewEq] at ended
  cases ended

/-! ## Conditional faults -/

variable {stuck : ε → Prop}

theorem Yields.settles (first : Yields view program env seen post) :
    Settles view stuck program env seen post :=
  fun state viewEq => Or.inl (first state viewEq)

theorem Settles.pure {value : α} (holds : post value seen) :
    Settles view stuck (Pure.pure value : Program ρ ε σ α) env seen post :=
  (Yields.pure holds).settles

theorem Settles.seq (first : Settles view stuck program env seen post)
    (rest : ∀ value middle, post value middle →
      Settles view stuck (next value) env middle result) :
    Settles view stuck (program >>= next) env seen result := by
  intro state viewEq
  rcases first state viewEq with ⟨value, middle, ended, holds⟩ | ⟨reason, bad, stopped⟩
  · rcases rest value _ holds middle rfl with ⟨output, final, finished, done⟩ | faulted
    · exact Or.inl ⟨output, final, (bind_of_ok ended).trans finished, done⟩
    · rw [bind_of_ok ended]
      exact Or.inr faulted
  · exact Or.inr ⟨reason, bad, by rw [bind_apply, stopped]⟩

theorem Settles.mono (first : Settles view stuck program env seen post)
    (weaker : ∀ value final, post value final → post' value final) :
    Settles view stuck program env seen post' := by
  intro state viewEq
  rcases first state viewEq with ends | faulted
  · exact Or.inl (ends.mono fun value final => weaker value (view final))
  · exact Or.inr faulted

theorem Settles.ite {condition : Prop} [Decidable condition]
    {first second : Program ρ ε σ α}
    (taken : condition → Settles view stuck first env seen post)
    (skipped : ¬condition → Settles view stuck second env seen post) :
    Settles view stuck (if condition then first else second) env seen post := by
  split
  · exact taken ‹_›
  · exact skipped ‹_›

/-- A program that is known to fault. -/
theorem Settles.of_fault (reason : ε) (bad : stuck reason)
    (stops : ∀ state, view state = seen → program env state = .fault reason) :
    Settles view stuck program env seen post :=
  fun state viewEq => Or.inr ⟨reason, bad, stops state viewEq⟩

theorem Settles.allows (first : Settles view stuck program env seen post) :
    Allows view program env seen post := by
  intro state viewEq value final ended
  rcases first state viewEq with ends | ⟨reason, _, stopped⟩
  · exact ends.ensures value final ended
  · rw [stopped] at ended
    cases ended

theorem Settles.yields (first : Settles view stuck program env seen post)
    (clear : ∀ reason, ¬stuck reason) : Yields view program env seen post :=
  fun state viewEq => (first state viewEq).resolve_right fun ⟨reason, bad, _⟩ => clear reason bad

end VgcMalloc.Program
