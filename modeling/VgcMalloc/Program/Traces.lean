import VgcMalloc.Program.Record

/-!
# Records that an automaton reads

`Records` is about actions that are good by themselves.  Here the record is read
by an automaton whose state is the view: every program leads it from the view of
its start to the view of its end.
-/

namespace VgcMalloc.Program

variable {ρ ε σ α β V A : Type}

/-- Every normal end from a state with the view `seen` satisfies `post`, and the
automaton reads what the program has added to the record, newest first, from the
oldest on. -/
def Traces (record : σ → List A) (read : V → A → Option V) (view : σ → V)
    (program : Program ρ ε σ α) (env : ρ) (seen : V) (post : α → V → Prop) : Prop :=
  ∀ state, view state = seen → ∀ value final, program env state = .ok value final →
    post value (view final) ∧ ∃ added : List A, record final = added.reverse ++ record state ∧
      added.foldlM read seen = some (view final)

variable {record : σ → List A} {read : V → A → Option V} {view : σ → V}
  {program : Program ρ ε σ α} {next : α → Program ρ ε σ β} {env : ρ} {seen : V}
  {post post' : α → V → Prop} {result : β → V → Prop}

theorem Traces.pure {value : α} (holds : post value seen) :
    Traces record read view (Pure.pure value : Program ρ ε σ α) env seen post := by
  intro state viewEq result final ended
  cases ended
  exact ⟨viewEq ▸ holds, [], rfl, congrArg some viewEq.symm⟩

theorem Traces.seq (first : Traces record read view program env seen post)
    (rest : ∀ value middle, post value middle →
      Traces record read view (next value) env middle result) :
    Traces record read view (program >>= next) env seen result := by
  intro state viewEq output final ended
  obtain ⟨value, middle, firstEnd, secondEnd⟩ := bind_eq_ok_iff.mp ended
  obtain ⟨holds, earlier, firstRecord, firstRead⟩ := first state viewEq value middle firstEnd
  obtain ⟨done, later, secondRecord, secondRead⟩ :=
    rest value _ holds middle rfl output final secondEnd
  refine ⟨done, earlier ++ later, ?_, ?_⟩
  · rw [secondRecord, firstRecord, List.reverse_append, List.append_assoc]
  · rw [List.foldlM_append, firstRead]
    exact secondRead

theorem Traces.mono (first : Traces record read view program env seen post)
    (weaker : ∀ value final, post value final → post' value final) :
    Traces record read view program env seen post' := by
  intro state viewEq value final ended
  obtain ⟨holds, traced⟩ := first state viewEq value final ended
  exact ⟨weaker value _ holds, traced⟩

theorem Traces.ite {condition : Prop} [Decidable condition] {first second : Program ρ ε σ α}
    (taken : condition → Traces record read view first env seen post)
    (skipped : ¬condition → Traces record read view second env seen post) :
    Traces record read view (if condition then first else second) env seen post := by
  split
  · exact taken ‹_›
  · exact skipped ‹_›

/-- A program that keeps view and record. -/
theorem Keeps.traces (kept : Keeps (fun state => (view state, record state)) program) :
    Traces record read view program env seen fun _ after => after = seen := by
  intro state viewEq value final ended
  obtain ⟨sameView, sameRecord⟩ := Prod.mk.inj (kept env state value final ended)
  refine ⟨sameView.trans viewEq, [], sameRecord, ?_⟩
  rw [sameView, viewEq]
  rfl

/-- A program that keeps view and record, and one after it. -/
theorem Keeps.traces_seq (kept : Keeps (fun state => (view state, record state)) program)
    (rest : ∀ value, Traces record read view (next value) env seen result) :
    Traces record read view (program >>= next) env seen result := by
  apply Traces.seq kept.traces
  rintro value _ rfl
  exact rest value

end VgcMalloc.Program
