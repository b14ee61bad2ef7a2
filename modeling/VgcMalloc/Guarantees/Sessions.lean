import Mathlib.Data.List.Count
import Mathlib.Data.Nat.Find
import VgcMalloc.Guarantees.Framing
import VgcMalloc.Model.Server

/-!
# Sessions of the serving thread

A session ends at the first turn that takes an exit of the inner loop.  At the
end of the file no exit is taken: `do_read` succeeds with no bytes, and the
loop goes on.  Two exits close the descriptor, which is closed behind the loop
again.
-/

namespace VgcMalloc

variable {pid : UInt32} {results : TurnResults} {calls : ThreadCalls} {number fd index count : Nat}
  {place : Place} {events : List ServerEvent}

/-! ## One turn -/

namespace TurnResults

theorem serve_leaves_iff : (results.serve pid).2 = true ↔ results.Leaves pid := by
  unfold serve Leaves
  cases read : results.read with
  | false => simp
  | true =>
      simp only [Bool.not_true, Bool.false_eq_true, if_false, false_or, reduceCtorEq]
      by_cases empty : results.readBytes = 0
      · simp [empty]
      · by_cases own : pid = results.block.sourcePID
        · simp [empty, own]
        · cases applied : results.applied with
          | false =>
              by_cases guard : results.block.prot = protNone <;> simp [empty, own, guard]
          | true =>
              cases answered : results.answered <;> simp [empty, own]

theorem change_ne_close (block : MProtectBlock) : block.change ≠ .close := by
  unfold MProtectBlock.change
  split <;> simp

/-- A turn that closes the descriptor does so once. -/
theorem count_close_of_closesItself (closes : results.ClosesItself pid) :
    (results.serve pid).1.count .close = 1 := by
  unfold serve
  cases read : results.read with
  | false => rfl
  | true =>
      rw [ClosesItself, read] at closes
      obtain ⟨⟨some, foreign⟩, applied, unanswered⟩ := closes.resolve_left Bool.noConfusion
      have change : (results.block.change == ServerAction.close) = false :=
        beq_false_of_ne (change_ne_close results.block)
      simp [some, foreign, applied, unanswered, List.count_cons, change]

theorem count_close_of_not_closesItself (open_ : ¬results.ClosesItself pid) :
    (results.serve pid).1.count .close = 0 := by
  have change : (results.block.change == ServerAction.close) = false :=
    beq_false_of_ne (change_ne_close results.block)
  unfold ClosesItself Foreign at open_
  unfold serve
  cases read : results.read with
  | false => exact absurd (Or.inl read) open_
  | true =>
      simp only [Bool.not_true, Bool.false_eq_true, if_false]
      by_cases empty : results.readBytes = 0
      · simp [empty]
      · by_cases own : pid = results.block.sourcePID
        · simp [empty, own]
        · cases applied : results.applied with
          | false =>
              by_cases guard : results.block.prot = protNone <;>
                simp [empty, own, guard, List.count_cons, change]
          | true =>
              cases answered : results.answered with
              | false => exact absurd (Or.inr ⟨⟨empty, own⟩, applied, answered⟩) open_
              | true => simp [empty, own, List.count_cons, change]

/-- A turn that does not leave the loop closes nothing. -/
theorem not_closesItself_of_stays (stays : ¬results.Leaves pid) : ¬results.ClosesItself pid := by
  rintro (failed | ⟨⟨some, _⟩, _, unanswered⟩)
  · exact stays (Or.inl failed)
  · exact stays (Or.inr ⟨some, Or.inr (Or.inr unanswered)⟩)

end TurnResults

/-- Closes of the descriptor among what is done with it. -/
theorem count_close_map (fd : Nat) (actions : List ServerAction) :
    (actions.map (ServerEvent.acted fd)).count (.acted fd .close) = actions.count .close := by
  have injective : Function.Injective (ServerEvent.acted fd) :=
    fun first second same => (ServerEvent.acted.inj same).2
  exact List.count_map_of_injective actions _ injective .close

/-! ## Runs of the thread -/

namespace ThreadCalls

/-- The session ends at this turn: it is the first one that takes an exit. -/
def EndsAt (calls : ThreadCalls) (pid : UInt32) (number index : Nat) : Prop :=
  (∀ earlier < index, ¬(calls.turn number earlier).Leaves pid) ∧
    (calls.turn number index).Leaves pid

theorem exists_endsAt (leaves : (calls.turn number index).Leaves pid) :
    ∃ first, calls.EndsAt pid number first := by
  classical
  have exit : ∃ first, (calls.turn number first).Leaves pid := ⟨index, leaves⟩
  exact ⟨Nat.find exit, fun earlier before => Nat.find_min exit before, Nat.find_spec exit⟩

theorem EndsAt.unique {other : Nat} (ends : calls.EndsAt pid number index)
    (again : calls.EndsAt pid number other) : index = other := by
  rcases Nat.lt_trichotomy index other with before | same | behind
  · exact absurd ends.2 (again.1 index before)
  · exact same
  · exact absurd again.2 (ends.1 other behind)

theorem run_succ : calls.run pid (count + 1) place =
    ((calls.run pid count (calls.step pid place).1).1,
      (calls.step pid place).2 ++ (calls.run pid count (calls.step pid place).1).2) :=
  rfl

theorem run_add (first second : Nat) : calls.run pid (first + second) place =
    ((calls.run pid second (calls.run pid first place).1).1,
      (calls.run pid first place).2 ++ (calls.run pid second (calls.run pid first place).1).2) := by
  induction first generalizing place with
  | zero =>
      rw [Nat.zero_add]
      rfl
  | succ first ih =>
      rw [Nat.succ_add, run_succ, ih, run_succ, List.append_assoc]

theorem step_accepting (accepted : calls.accept number = some fd) :
    calls.step pid (.accepting number) = (.looping number fd 0, [.accepted fd]) := by
  rw [step, accepted]

/-- A turn that takes no exit. -/
theorem step_looping_of_stays (stays : ¬(calls.turn number index).Leaves pid) :
    calls.step pid (.looping number fd index) = (.looping number fd (index + 1),
      ((calls.turn number index).serve pid).1.map (.acted fd)) := by
  rw [← TurnResults.serve_leaves_iff, Bool.not_eq_true] at stays
  simp only [step, stays, Bool.false_eq_true, if_false]

/-- A turn that takes an exit. -/
theorem step_looping_of_leaves (leaves : (calls.turn number index).Leaves pid) :
    calls.step pid (.looping number fd index) = (.accepting (number + 1),
      (((calls.turn number index).serve pid).1 ++ [ServerAction.close]).map (.acted fd)) := by
  rw [← TurnResults.serve_leaves_iff] at leaves
  simp only [step, leaves, if_true]

/-- Turns that take no exit keep the thread in the session, and the descriptor
open. -/
theorem run_looping (stays : ∀ turn < index + count, ¬(calls.turn number turn).Leaves pid) :
    (calls.run pid count (.looping number fd index)).1 = .looping number fd (index + count) ∧
      (calls.run pid count (.looping number fd index)).2.count (.acted fd .close) = 0 := by
  induction count generalizing index with
  | zero => exact ⟨rfl, rfl⟩
  | succ count ih =>
      have here := stays index (by omega)
      obtain ⟨place, closes⟩ := @ih (index + 1) fun turn bound => stays turn (by omega)
      rw [run_succ, step_looping_of_stays here]
      constructor
      · rw [place]
        congr 1
        omega
      · have open_ := TurnResults.not_closesItself_of_stays here
        rw [List.count_append, closes, count_close_map,
          TurnResults.count_close_of_not_closesItself open_]

/-- A session from its `do_accept` to the next one. -/
theorem run_session (accepted : calls.accept number = some fd)
    (ends : calls.EndsAt pid number index) :
    (calls.run pid (1 + index + 1) (.accepting number)).1 = .accepting (number + 1) ∧
      (calls.run pid (1 + index + 1) (.accepting number)).2.count (.acted fd .close) =
        ((calls.turn number index).serve pid).1.count .close + 1 := by
  have loops : (calls.run pid index (.looping number fd 0)).1 = .looping number fd (0 + index) ∧
      (calls.run pid index (.looping number fd 0)).2.count (.acted fd .close) = 0 :=
    run_looping fun turn before => ends.1 turn (by omega)
  obtain ⟨place, closes⟩ := loops
  rw [Nat.zero_add] at place
  have reached : calls.run pid (1 + index) (.accepting number) = (.looping number fd index,
      .accepted fd :: (calls.run pid index (.looping number fd 0)).2) := by
    rw [Nat.add_comm, run_succ, step_accepting accepted, place]
    rfl
  rw [run_add, reached, run_succ, step_looping_of_leaves ends.2]
  constructor
  · rfl
  · rw [List.count_append, List.count_cons, closes, List.count_append, count_close_map,
      List.count_append]
    simp [run]

/-! ## The order of the sessions -/

/-- The session has been accepted. -/
def Past (number : Nat) : Place → Prop
  | .accepting session => number < session
  | .looping session _ _ => number ≤ session
  | .returned => True

theorem past_step (past : Past number place) : Past number (calls.step pid place).1 := by
  cases place with
  | accepting session =>
      have before : number < session := past
      rw [step]
      split
      · trivial
      · exact Nat.le_of_lt before
  | looping session fd turn =>
      have before : number ≤ session := past
      rw [step]
      split
      split
      · exact Nat.lt_succ_of_le before
      · exact before
  | returned => trivial

theorem past_run (past : Past number place) :
    Past number (calls.run pid count place).1 := by
  induction count generalizing place with
  | zero => exact past
  | succ count ih => exact ih (past_step past)

/-- Every session is accepted once. -/
theorem run_accepting_ne (positive : count ≠ 0) :
    (calls.run pid count (.accepting number)).1 ≠ .accepting number := by
  obtain ⟨count, rfl⟩ := Nat.exists_eq_succ_of_ne_zero positive
  have accepted : Past number (calls.step pid (.accepting number)).1 := by
    rw [step]
    split
    · trivial
    · exact Nat.le_refl number
  intro again
  rw [run_succ] at again
  have past : Past number (calls.run pid count (calls.step pid (.accepting number)).1).1 :=
    past_run accepted
  rw [again] at past
  exact Nat.lt_irrefl number past

/-- The thread gets from one `do_accept` to the next only through an exit of
the inner loop, and in this many steps. -/
theorem exists_of_run_session (accepted : calls.accept number = some fd)
    (ended : (calls.run pid count (.accepting number)).1 = .accepting (number + 1)) :
    ∃ index, calls.EndsAt pid number index ∧ count = 1 + index + 1 := by
  cases count with
  | zero =>
      have same : number = number + 1 := Place.accepting.inj ended
      omega
  | succ count =>
      have exit : ∃ index, (calls.turn number index).Leaves pid := by
        by_contra none
        have place : (calls.run pid count (.looping number fd 0)).1 =
            .looping number fd (0 + count) :=
          (run_looping fun turn _ leaves => none ⟨turn, leaves⟩).1
        rw [run_succ, step_accepting accepted] at ended
        exact absurd (place.symm.trans ended) Place.noConfusion
      obtain ⟨_, leaves⟩ := exit
      obtain ⟨index, ends⟩ := exists_endsAt leaves
      refine ⟨index, ends, ?_⟩
      rcases Nat.lt_trichotomy (count + 1) (1 + index + 1) with before | same | behind
      · have place : (calls.run pid count (.looping number fd 0)).1 =
            .looping number fd (0 + count) :=
          (run_looping fun turn bound => ends.1 turn (by omega)).1
        rw [run_succ, step_accepting accepted] at ended
        exact absurd (place.symm.trans ended) Place.noConfusion
      · exact same
      · obtain ⟨rest, total⟩ := Nat.exists_eq_add_of_lt behind
        rw [total, Nat.add_assoc, run_add, (run_session accepted ends).1] at ended
        exact absurd ended (run_accepting_ne (Nat.succ_ne_zero rest))

/-! ## Back to `do_accept` -/

/-- The inner loop of a session ends, and the thread goes back to
`do_accept`. -/
def GoesBack (calls : ThreadCalls) (pid : UInt32) (number : Nat) : Prop :=
  ∃ count, (calls.run pid count (.accepting number)).1 = .accepting (number + 1)

/-- The thread comes to read the connection. -/
def Serves (calls : ThreadCalls) (pid : UInt32) (number : Nat) : Prop :=
  ∃ count fd, (calls.run pid count (.accepting 0)).1 = .looping number fd 0

theorem goesBack_iff (accepted : calls.accept number = some fd) :
    calls.GoesBack pid number ↔ ∃ index, (calls.turn number index).Leaves pid := by
  constructor
  · rintro ⟨count, ended⟩
    obtain ⟨index, ends, _⟩ := exists_of_run_session accepted ended
    exact ⟨index, ends.2⟩
  · rintro ⟨_, leaves⟩
    obtain ⟨index, ends⟩ := exists_endsAt leaves
    exact ⟨_, (run_session accepted ends).1⟩

/-- A session without an exit is the last one. -/
theorem run_stuck (accepted : calls.accept number = some fd)
    (stays : ∀ index, ¬(calls.turn number index).Leaves pid) (positive : count ≠ 0) :
    ∃ index, (calls.run pid count (.accepting number)).1 = .looping number fd index := by
  obtain ⟨count, rfl⟩ := Nat.exists_eq_succ_of_ne_zero positive
  refine ⟨0 + count, ?_⟩
  rw [run_succ, step_accepting accepted]
  exact (run_looping fun turn _ => stays turn).1

theorem exists_run_accepting (back : ∀ earlier < number, calls.GoesBack pid earlier) :
    ∃ count, (calls.run pid count (.accepting 0)).1 = .accepting number := by
  induction number with
  | zero => exact ⟨0, rfl⟩
  | succ number ih =>
      obtain ⟨first, reached⟩ := ih fun earlier before => back earlier (by omega)
      obtain ⟨second, ended⟩ := back number (Nat.lt_succ_self number)
      refine ⟨first + second, ?_⟩
      rw [run_add, reached]
      exact ended

/-- A connection is read exactly when the thread goes back to `do_accept` after
every earlier one. -/
theorem serves_iff (accepts : ∀ session, ∃ fd, calls.accept session = some fd) :
    calls.Serves pid number ↔ ∀ earlier < number, calls.GoesBack pid earlier := by
  constructor
  · rintro ⟨count, fd, reading⟩ earlier
    induction earlier using Nat.strong_induction_on with
    | h earlier ih =>
        intro before
        obtain ⟨own, accepted⟩ := accepts earlier
        rw [goesBack_iff accepted]
        by_contra none
        rw [not_exists] at none
        have back : ∀ other < earlier, calls.GoesBack pid other :=
          fun other less => ih other less (by omega)
        obtain ⟨first, reached⟩ := exists_run_accepting back
        rcases Nat.lt_or_ge first count with later | sooner
        · obtain ⟨rest, rfl⟩ := Nat.exists_eq_add_of_lt later
          rw [Nat.add_assoc, run_add, reached] at reading
          obtain ⟨index, stuck⟩ := run_stuck accepted none (Nat.succ_ne_zero rest)
          have same : Place.looping number fd 0 = .looping earlier own index :=
            reading.symm.trans stuck
          have numbers := (Place.looping.inj same).1
          omega
        · obtain ⟨rest, rfl⟩ := Nat.exists_eq_add_of_le sooner
          rw [run_add, reading] at reached
          have past : Past number (calls.run pid rest (.looping number fd 0)).1 :=
            past_run (Nat.le_refl number)
          rw [reached] at past
          have behind : number < earlier := past
          omega
  · intro back
    obtain ⟨count, reached⟩ := exists_run_accepting back
    obtain ⟨fd, accepted⟩ := accepts number
    refine ⟨count + 1, fd, ?_⟩
    rw [run_add, reached, run_succ, step_accepting accepted]
    rfl

theorem ofConnections_turn {fds : Nat → Nat} {connections : Nat → List Turn} :
    (ofConnections fds connections).turn number index =
      ((connections number)[index]?.getD endOfFile).results := by
  rw [← List.getD_eq_getElem?_getD]
  rfl

/-- The end of the file is no exit. -/
theorem exists_ofConnections_leaves {fds : Nat → Nat} {connections : Nat → List Turn} :
    (∃ index, ((ofConnections fds connections).turn number index).Leaves pid) ↔
      ∃ turn ∈ connections number, turn.results.Leaves pid := by
  have finished : ¬endOfFile.results.Leaves pid := by
    rintro (failed | ⟨some, _⟩)
    · exact Bool.noConfusion failed
    · exact some rfl
  constructor
  · rintro ⟨index, leaves⟩
    rw [ofConnections_turn] at leaves
    cases found : (connections number)[index]? with
    | none =>
        rw [found] at leaves
        exact absurd leaves finished
    | some turn =>
        rw [found] at leaves
        exact ⟨turn, List.mem_of_getElem? found, leaves⟩
  · rintro ⟨turn, member, leaves⟩
    obtain ⟨index, found⟩ := List.mem_iff_getElem?.mp member
    refine ⟨index, ?_⟩
    rw [ofConnections_turn, found]
    exact leaves

end ThreadCalls

/-- The thread goes back to `do_accept` after a connection exactly when one of
the reads, before the end of the file, takes an exit of the inner loop; and it
comes to read a connection exactly when that is so of all earlier ones. -/
theorem servesConnections_iff (pid : UInt32) (fds : Nat → Nat) (connections : Nat → List Turn)
    (number : Nat) :
    ((ThreadCalls.ofConnections fds connections).GoesBack pid number ↔
      ∃ turn ∈ connections number, turn.results.Leaves pid) ∧
    ((ThreadCalls.ofConnections fds connections).Serves pid number ↔
      ∀ earlier < number, ∃ turn ∈ connections earlier, turn.results.Leaves pid) := by
  have back : ∀ session, (ThreadCalls.ofConnections fds connections).GoesBack pid session ↔
      ∃ turn ∈ connections session, turn.results.Leaves pid := by
    intro session
    have accepted : (ThreadCalls.ofConnections fds connections).accept session =
        some (fds session) := rfl
    exact (ThreadCalls.goesBack_iff accepted).trans ThreadCalls.exists_ofConnections_leaves
  constructor
  · exact back number
  · rw [ThreadCalls.serves_iff fun session => ⟨fds session, rfl⟩]
    simp only [back]

/-- One record of another process, applied and answered, and then the end of
the file. -/
theorem not_servesConnections :
    ¬∀ pid fds connections number,
      (ThreadCalls.ofConnections fds connections).GoesBack pid number ∧
        (ThreadCalls.ofConnections fds connections).Serves pid (number + 1) := by
  intro claim
  let block : MProtectBlock := ⟨0x10001000, protNone, 9⟩
  obtain ⟨back, _⟩ := claim 7 (fun _ => 4) (fun _ => [⟨.data block.encode, true, true⟩]) 0
  obtain ⟨index, leaves⟩ := (ThreadCalls.goesBack_iff rfl).mp back
  obtain ⟨turn, member, exit⟩ := ThreadCalls.exists_ofConnections_leaves.mp ⟨index, leaves⟩
  rw [List.mem_singleton] at member
  subst member
  revert exit
  decide

/-! ## The descriptor of a session -/

/-- A session whose inner loop ends closes its descriptor exactly once, before
the next `do_accept`, unless it ends with a read that fails or with the answer
to a change that cannot be written. -/
theorem closedOnce_iff (accepted : calls.accept number = some fd)
    (ended : calls.run pid count (.accepting number) = (.accepting (number + 1), events)) :
    events.count (.acted fd .close) = 1 ↔
      ¬∃ index, calls.EndsAt pid number index ∧ (calls.turn number index).ClosesItself pid := by
  obtain ⟨index, ends, rfl⟩ :=
    ThreadCalls.exists_of_run_session accepted (congrArg Prod.fst ended)
  have closes := (ThreadCalls.run_session accepted ends).2
  rw [ended] at closes
  simp only at closes
  rw [closes]
  constructor
  · rintro once ⟨other, again, itself⟩
    rw [← ends.unique again] at itself
    rw [TurnResults.count_close_of_closesItself itself] at once
    exact absurd once (by decide)
  · intro never
    rw [TurnResults.count_close_of_not_closesItself fun itself => never ⟨index, ends, itself⟩]

/-- A session of one record. -/
def oneTurn (results : TurnResults) : ThreadCalls := ⟨fun _ => some 4, fun _ _ => results⟩

theorem closedOnce_iff_sample :
    ∃ events, (oneTurn ⟨true, ⟨0x10001000, protNone, 7⟩, 16, true, true⟩).run 7 2 (.accepting 0) =
      (.accepting 1, events) ∧ (events.count (.acted 4 .close) = 1 ↔
        ¬∃ index, (oneTurn ⟨true, ⟨0x10001000, protNone, 7⟩, 16, true, true⟩).EndsAt 7 0 index ∧
          ((oneTurn ⟨true, ⟨0x10001000, protNone, 7⟩, 16, true, true⟩).turn 0 index).ClosesItself
            7) := by
  have ended : (oneTurn ⟨true, ⟨0x10001000, protNone, 7⟩, 16, true, true⟩).run 7 2 (.accepting 0) =
      (.accepting 1, [.accepted 4, .acted 4 .close]) := rfl
  exact ⟨_, ended, closedOnce_iff rfl ended⟩

/-- The answer to a change cannot be written: the descriptor is closed in the
loop and behind it. -/
theorem not_closedOnce :
    ¬∀ (calls : ThreadCalls) pid number fd count events, calls.accept number = some fd →
      calls.run pid count (.accepting number) = (.accepting (number + 1), events) →
        events.count (.acted fd .close) = 1 := by
  intro claim
  have once := claim (oneTurn ⟨true, ⟨0x10001000, protNone, 9⟩, 16, true, false⟩) 7 0 4 2 _ rfl rfl
  exact absurd once (by decide)

end VgcMalloc
