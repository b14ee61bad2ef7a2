import VgcMalloc.Program.View

/-!
# What a program records

Some facts are not about the end of a program but about what it does on the
way.  A state that records every action, newest first, makes them facts about
the end.  `Keeps` is the rule for programs that leave some part of the state as
it is, `Adds` the one for a counter, and `Records` the rule for programs all of
whose actions are good.
-/

namespace VgcMalloc.Program

variable {ρ ε σ α β V X A : Type}

/-! ## Parts that are kept -/

/-- Every normal end of the program has the same `part` as its start. -/
def Keeps (part : σ → X) (program : Program ρ ε σ α) : Prop :=
  ∀ env state value final, program env state = .ok value final → part final = part state

section Keeps

variable {part : σ → X} {program : Program ρ ε σ α} {next : α → Program ρ ε σ β}

theorem Keeps.pure (value : α) : Keeps part (Pure.pure value : Program ρ ε σ α) := by
  intro env state result final ended
  cases ended
  rfl

theorem Keeps.bind (first : Keeps part program) (rest : ∀ value, Keeps part (next value)) :
    Keeps part (program >>= next) := by
  intro env state result final ended
  obtain ⟨value, middle, firstEnd, secondEnd⟩ := bind_eq_ok_iff.mp ended
  rw [rest value env middle result final secondEnd, first env state value middle firstEnd]

theorem Keeps.ite {condition : Prop} [Decidable condition] {first second : Program ρ ε σ α}
    (taken : Keeps part first) (skipped : Keeps part second) :
    Keeps part (if condition then first else second) := by
  split
  · exact taken
  · exact skipped

theorem Keeps.when {condition : Prop} [Decidable condition] {body : Program ρ ε σ Unit}
    (kept : Keeps part body) : Keeps part (Program.when condition body) :=
  Keeps.ite kept (Keeps.pure ())

end Keeps

/-! ## Counters -/

/-- Every normal end of the program has counted `amount` more than its
start. -/
def Adds (counter : σ → Nat) (amount : Nat) (program : Program ρ ε σ α) : Prop :=
  ∀ env state value final, program env state = .ok value final →
    counter final = counter state + amount

section Adds

variable {counter : σ → Nat} {amount : Nat} {program : Program ρ ε σ α}
  {next : α → Program ρ ε σ β} {view : σ → V} {env : ρ} {seen : V} {post : α → V → Prop}

theorem Keeps.adds (kept : Keeps counter program) : Adds counter 0 program :=
  kept

/-- Only the first part of a sequence counts. -/
theorem Adds.bind_keeps (first : Adds counter amount program)
    (rest : ∀ value, Keeps counter (next value)) : Adds counter amount (program >>= next) := by
  intro env state result final ended
  obtain ⟨value, middle, firstEnd, secondEnd⟩ := bind_eq_ok_iff.mp ended
  rw [rest value env middle result final secondEnd, first env state value middle firstEnd]

/-- Only the second part of a sequence counts. -/
theorem Keeps.bind_adds (first : Keeps counter program)
    (rest : ∀ value, Adds counter amount (next value)) :
    Adds counter amount (program >>= next) := by
  intro env state result final ended
  obtain ⟨value, middle, firstEnd, secondEnd⟩ := bind_eq_ok_iff.mp ended
  rw [rest value env middle result final secondEnd, first env state value middle firstEnd]

/-- The counter can be shown next to any view. -/
theorem Adds.allows (adds : Adds counter amount program) (count : Nat) :
    Allows (fun state => (view state, counter state)) program env (seen, count)
      fun _ after => after.2 = count + amount := by
  intro state viewEq value final ended
  obtain ⟨rfl, rfl⟩ := Prod.mk.inj viewEq
  exact adds env state value final ended

theorem Yields.uncounted (yields : Yields view program env seen post) (count : Nat) :
    Yields (fun state => (view state, counter state)) program env (seen, count)
      fun value after => post value after.1 :=
  fun state viewEq => yields state (congrArg Prod.fst viewEq)

/-- A part that is kept can be shown next to a known view. -/
theorem Yields.silently {last : V} {part : σ → X} {known : α → Prop}
    (yields : Yields view program env seen fun value after => known value ∧ after = last)
    (kept : Keeps part program) (old : X) :
    Yields (fun state => (view state, part state)) program env (seen, old)
      fun value after => known value ∧ after = (last, old) := by
  intro state viewEq
  obtain ⟨rfl, rfl⟩ := Prod.mk.inj viewEq
  obtain ⟨value, final, ended, holds, same⟩ := yields state rfl
  exact ⟨value, final, ended, holds, Prod.ext same (kept env state value final ended)⟩

/-- A program that does not count can be run next to a counter. -/
theorem Yields.quietly (yields : Yields view program env seen post) (kept : Keeps counter program)
    (count : Nat) :
    Yields (fun state => (view state, counter state)) program env (seen, count)
      fun value after => post value after.1 ∧ after.2 = count := by
  apply ((yields.uncounted count).and (kept.adds.allows count)).mono
  rintro _ _ ⟨holds, same⟩
  exact ⟨holds, same⟩

theorem Yields.counting (yields : Yields view program env seen post)
    (adds : Adds counter amount program) (count : Nat) :
    Yields (fun state => (view state, counter state)) program env (seen, count)
      fun value after => post value after.1 ∧ after.2 = count + amount :=
  (yields.uncounted count).and (adds.allows count)

end Adds

/-- Every normal end of the program has counted no less than its start. -/
def Grows (counter : σ → Nat) (program : Program ρ ε σ α) : Prop :=
  ∀ env state value final, program env state = .ok value final → counter state ≤ counter final

section Grows

variable {counter : σ → Nat} {program : Program ρ ε σ α} {next : α → Program ρ ε σ β}

theorem Keeps.grows (kept : Keeps counter program) : Grows counter program :=
  fun env state value final ended => Nat.le_of_eq (kept env state value final ended).symm

theorem Grows.bind (first : Grows counter program) (rest : ∀ value, Grows counter (next value)) :
    Grows counter (program >>= next) := by
  intro env state result final ended
  obtain ⟨value, middle, firstEnd, secondEnd⟩ := bind_eq_ok_iff.mp ended
  exact Nat.le_trans (first env state value middle firstEnd)
    (rest value env middle result final secondEnd)

theorem Grows.ite {condition : Prop} [Decidable condition] {first second : Program ρ ε σ α}
    (taken : Grows counter first) (skipped : Grows counter second) :
    Grows counter (if condition then first else second) := by
  split
  · exact taken
  · exact skipped

end Grows

/-! ## Records -/

/-- Every normal end from a state with the view `seen` satisfies `post`, and
all that the program has added to the record is `good`. -/
def Records (record : σ → List A) (good : A → Prop) (view : σ → V) (program : Program ρ ε σ α)
    (env : ρ) (seen : V) (post : α → V → Prop) : Prop :=
  ∀ state, view state = seen → ∀ value final, program env state = .ok value final →
    post value (view final) ∧
      ∃ fresh, record final = fresh ++ record state ∧ ∀ action ∈ fresh, good action

variable {record : σ → List A} {good : A → Prop} {view : σ → V} {program : Program ρ ε σ α}
  {next : α → Program ρ ε σ β} {env : ρ} {seen : V} {post post' : α → V → Prop}
  {result : β → V → Prop}

theorem Records.pure {value : α} (holds : post value seen) :
    Records record good view (Pure.pure value : Program ρ ε σ α) env seen post := by
  intro state viewEq result final ended
  cases ended
  exact ⟨viewEq ▸ holds, [], rfl, by simp⟩

theorem Records.seq (first : Records record good view program env seen post)
    (rest : ∀ value middle, post value middle →
      Records record good view (next value) env middle result) :
    Records record good view (program >>= next) env seen result := by
  intro state viewEq output final ended
  obtain ⟨value, middle, firstEnd, secondEnd⟩ := bind_eq_ok_iff.mp ended
  obtain ⟨holds, earlier, firstRecord, earlierGood⟩ := first state viewEq value middle firstEnd
  obtain ⟨done, later, secondRecord, laterGood⟩ :=
    rest value _ holds middle rfl output final secondEnd
  refine ⟨done, later ++ earlier, ?_, ?_⟩
  · rw [secondRecord, firstRecord, List.append_assoc]
  · intro action member
    rcases List.mem_append.mp member with new | old
    · exact laterGood action new
    · exact earlierGood action old

theorem Records.mono (first : Records record good view program env seen post)
    (weaker : ∀ value final, post value final → post' value final) :
    Records record good view program env seen post' := by
  intro state viewEq value final ended
  obtain ⟨holds, recorded⟩ := first state viewEq value final ended
  exact ⟨weaker value _ holds, recorded⟩

theorem Records.ite {condition : Prop} [Decidable condition] {first second : Program ρ ε σ α}
    (taken : condition → Records record good view first env seen post)
    (skipped : ¬condition → Records record good view second env seen post) :
    Records record good view (if condition then first else second) env seen post := by
  split
  · exact taken ‹_›
  · exact skipped ‹_›

theorem Records.when {condition : Prop} [Decidable condition] {body : Program ρ ε σ Unit}
    {post : Unit → V → Prop}
    (taken : condition → Records record good view body env seen post)
    (skipped : ¬condition → post () seen) :
    Records record good view (Program.when condition body) env seen post := by
  unfold Program.when
  split
  · exact taken ‹_›
  · exact Records.pure (skipped ‹_›)

/-- A program that records nothing. -/
theorem Allows.records (allows : Allows view program env seen post)
    (silent : Keeps record program) : Records record good view program env seen post := by
  intro state viewEq value final ended
  refine ⟨allows state viewEq value final ended, [], ?_, by simp⟩
  rw [silent env state value final ended, List.nil_append]

end VgcMalloc.Program
