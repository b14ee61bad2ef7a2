import Mathlib.Algebra.Order.BigOperators.Group.Finset
import Mathlib.Data.Fintype.Defs
import VgcMalloc.Guarantees.Locking
import VgcMalloc.Refine.Locks

/-!
# No deadlock among dying processes

Any number of processes call the library, each of them with memory in any
state, and die at any time.  A process waits for the mutex of an MMAP only while
it holds the shared mutex or nothing, and who holds the mutex of an MMAP without
the shared one gives it back next; so some process can always go on, and all
calls get through to their end.
-/

namespace VgcMalloc

open Program Relation

/-! ## Processes in calls -/

/-- The mutex calls of a call of the library that returns, oldest first.  The
memory that it finds is any. -/
def Call.Makes (call : Call) (events : List LockEvent) : Prop :=
  ∃ env state value final, Env.LocksWork env ∧ state.held = [] ∧
    call.program env state = .ok value final ∧ eventLog final = events.reverse ++ eventLog state

/-- Processes that are in calls of the library: what is left of the mutex calls
that each of them is to make, and the mutexes. -/
structure Callers (ι : Type) where
  locking : Locking ι Mutex
  left : ι → List LockEvent

namespace Callers

variable {ι : Type} [DecidableEq ι]

/-- No process is in a call. -/
def start (attr : MutexAttr) : Callers ι := ⟨.start attr, fun _ => []⟩

/-- The next mutex call of a process, or its second half. -/
inductive Act : Callers ι → Callers ι → Prop where
  | lock {callers : Callers ι} {process : ι} {mutex : Mutex} {result : Bool}
      {rest : List LockEvent} {after : Locking ι Mutex}
      (ready : callers.locking.stage process = .running)
      (left : callers.left process = (.lock mutex, result) :: rest)
      (called : callers.locking.lock process mutex = some after) :
      Act callers ⟨after, Function.update callers.left process rest⟩
  | unlock {callers : Callers ι} {process : ι} {mutex : Mutex} {result : Bool}
      {rest : List LockEvent} (ready : callers.locking.stage process = .running)
      (left : callers.left process = (.unlock mutex, result) :: rest) :
      Act callers ⟨callers.locking.unlock process mutex, Function.update callers.left process rest⟩
  | repair {callers : Callers ι} {process : ι} {mutex : Mutex}
      (between : callers.locking.stage process = .repairing mutex) :
      Act callers ⟨callers.locking.repair process mutex, callers.left⟩

/-- A process goes on, begins a call of the library, or dies. -/
inductive Turn : Callers ι → Callers ι → Prop where
  | act {callers after : Callers ι} (taken : Act callers after) : Turn callers after
  | call {callers : Callers ι} {process : ι} {call : Call} {events : List LockEvent}
      (ready : callers.locking.stage process = .running) (idle : callers.left process = [])
      (makes : call.Makes events) :
      Turn callers ⟨callers.locking, Function.update callers.left process events⟩
  | die {callers : Callers ι} {process : ι} (living : callers.locking.stage process ≠ .dead) :
      Turn callers ⟨callers.locking.setStage process .dead, callers.left⟩

/-! ## What is promised -/

/-- The process has made all the mutex calls of its call, and holds nothing. -/
def Finished (callers : Callers ι) (process : ι) : Prop :=
  callers.locking.stage process = .running ∧ callers.left process = [] ∧
    callers.locking.held process = []

/-- The mutexes do what they should, all mutex calls get the answers that the
library's calls go by, and unless new calls are made, all calls get through to
their end in the end. -/
structure Live (callers : Callers ι) : Prop where
  sound : callers.locking.Sound
  agrees : ∀ process call result rest, callers.locking.stage process = .running →
    callers.left process = (call, result) :: rest →
      result = call.succeeds (callers.locking.held process)
  ends : Ends Act callers
  finishes : ∀ last, ReflTransGen Act callers last → Stuck Act last →
    ∀ process, last.locking.alive process = true → last.Finished process

/-! ## Mutexes that a process has taken -/

end Callers

namespace Locking

variable {ι μ : Type} [DecidableEq ι] [DecidableEq μ] {locking after : Locking ι μ}
  {process : ι} {mutex : μ}

/-- The mutexes that a process holds or is about to get. -/
def taken (locking : Locking ι μ) (process : ι) : List μ :=
  match locking.stage process with
  | .repairing mutex => mutex :: locking.held process
  | _ => locking.held process

omit [DecidableEq ι] [DecidableEq μ] in
theorem taken_of_running (running : locking.stage process = .running) :
    locking.taken process = locking.held process := by
  rw [taken, running]

omit [DecidableEq ι] [DecidableEq μ] in
theorem taken_of_repairing (between : locking.stage process = .repairing mutex) :
    locking.taken process = mutex :: locking.held process := by
  rw [taken, between]

omit [DecidableEq ι] in
theorem claims_iff : locking.Claims process mutex ↔
    locking.alive process = true ∧ mutex ∈ locking.taken process := by
  rw [Claims, and_congr_right_iff]
  intro _
  cases stage : locking.stage process with
  | running => simp [taken_of_running stage]
  | repairing other => simp [taken_of_repairing stage, or_comm, eq_comm]
  | dead => simp [taken, stage]

/-- A step of one process, and the mutexes that it has taken then. -/
structure Moves (locking after : Locking ι μ) (process : ι) (mutexes : List μ) : Prop where
  taken : after.taken process = mutexes
  parties : ∀ other, other ≠ process →
    after.held other = locking.held other ∧ after.stage other = locking.stage other

theorem Inv.moves_lock (inv : locking.Inv) (running : locking.stage process = .running)
    (called : locking.lock process mutex = some after) :
    locking.Moves after process ((LockCall.lock mutex).next (locking.held process)) := by
  rcases inv.lock_cases running called with
    ⟨unheld, _, _, rfl⟩ | ⟨held, reports, rfl⟩ | ⟨unheld, _, rfl⟩
  · constructor
    · rw [LockCall.next, if_neg unheld, taken_of_running (by simpa using running)]
      simp
    · intro other different
      simp [different]
  · constructor
    · rw [LockCall.next, if_pos held, taken_of_running (by simpa using running)]
      rfl
    · intro other _
      exact ⟨rfl, rfl⟩
  · constructor
    · rw [LockCall.next, if_neg unheld]
      exact taken_of_repairing (by simp)
    · intro other different
      simp [different]

theorem Inv.moves_repair (inv : locking.Inv) (between : locking.stage process = .repairing mutex) :
    locking.Moves (locking.repair process mutex) process (locking.taken process) := by
  obtain ⟨_, _, reports, same⟩ := inv.repair_eq between
  rw [same, taken_of_repairing between]
  constructor
  · rw [taken_of_running (by simp)]
    simp
  · intro other different
    simp [different]

theorem Inv.moves_unlock (inv : locking.Inv) (running : locking.stage process = .running) :
    locking.Moves (locking.unlock process mutex) process
      ((LockCall.unlock mutex).next (locking.held process)) := by
  rcases inv.unlock_cases mutex running with ⟨_, reports, same⟩ | ⟨unheld, reports, same⟩
  · rw [same]
    constructor
    · rw [taken_of_running (by simpa using running)]
      simp [LockCall.next]
    · intro other different
      simp [different]
  · rw [same]
    constructor
    · rw [LockCall.next, List.erase_of_not_mem unheld, taken_of_running (by simpa using running)]
      rfl
    · intro other _
      exact ⟨rfl, rfl⟩

end Locking

namespace Callers

variable {ι : Type} {callers after : Callers ι} {process : ι}

/-! ## Calls in order -/

/-- The first call is in order and gets its answer, and the rest is in order
after it. -/
theorem foldlM_read_cons {held : List Mutex} {call : LockCall Mutex} {result : Bool}
    {rest : List LockEvent}
    (order : ((call, result) :: rest).foldlM LockEvent.read held = some []) :
    call.InOrder held ∧ result = call.succeeds held ∧
      rest.foldlM LockEvent.read (call.next held) = some [] := by
  rw [List.foldlM_cons, LockEvent.read] at order
  split at order
  · rename_i good
    exact ⟨good.1, good.2, order⟩
  · cases order

/-- What is left of every call is in order. -/
structure Inv (callers : Callers ι) : Prop where
  locking : callers.locking.Inv
  order : ∀ process, callers.locking.alive process = true →
    (callers.left process).foldlM LockEvent.read (callers.locking.taken process) = some []

/-- The mutex calls of the library are in order. -/
theorem order_of_makes {call : Call} {events : List LockEvent} (makes : call.Makes events) :
    events.foldlM LockEvent.read [] = some [] := by
  obtain ⟨env, state, value, final, works, unheld, ended, recorded⟩ := makes
  obtain ⟨released, added, addedRecorded, read⟩ :=
    orders_program works call state unheld value final ended
  have same : added.reverse = events.reverse :=
    List.append_cancel_right (addedRecorded.symm.trans recorded)
  rw [← List.reverse_injective same, read, released]

variable [DecidableEq ι]

/-- One process has gone on. -/
theorem Inv.go {locking : Locking ι Mutex} {mutexes : List Mutex} {rest : List LockEvent}
    (inv : callers.Inv) (kept : locking.Inv)
    (moves : callers.locking.Moves locking process mutexes)
    (order : rest.foldlM LockEvent.read mutexes = some []) :
    Inv ⟨locking, Function.update callers.left process rest⟩ where
  locking := kept
  order other living := by
    simp only at living ⊢
    by_cases own : other = process
    · subst own
      rw [Function.update_self, moves.taken]
      exact order
    · obtain ⟨held, stage⟩ := moves.parties other own
      rw [Locking.alive_iff, stage, ← Locking.alive_iff] at living
      rw [Function.update_of_ne own, Locking.taken, held, stage]
      exact inv.order other living

omit [DecidableEq ι] in
/-- The order of a process between two mutex calls. -/
theorem Inv.order_of_running (inv : callers.Inv)
    (running : callers.locking.stage process = .running) :
    (callers.left process).foldlM LockEvent.read (callers.locking.held process) = some [] := by
  rw [← Locking.taken_of_running running]
  exact inv.order process (Locking.alive_of_running running)

theorem Inv.act (inv : callers.Inv) (taken : Act callers after) : after.Inv := by
  cases taken with
  | lock ready left called =>
      have order := inv.order_of_running ready
      rw [left] at order
      exact inv.go (inv.locking.lock ready called) (inv.locking.moves_lock ready called)
        (foldlM_read_cons order).2.2
  | unlock ready left =>
      have order := inv.order_of_running ready
      rw [left] at order
      exact inv.go (inv.locking.unlock ready) (inv.locking.moves_unlock ready)
        (foldlM_read_cons order).2.2
  | repair between =>
      have living := Locking.alive_iff.mpr (by rw [between]; nofun)
      have went := inv.go (inv.locking.repair between) (inv.locking.moves_repair between)
        (inv.order _ living)
      rwa [Function.update_eq_self] at went

theorem Inv.turn (inv : callers.Inv) (taken : Turn callers after) : after.Inv := by
  cases taken with
  | act taken => exact inv.act taken
  | call ready idle makes =>
      have order := inv.order_of_running ready
      rw [idle] at order
      have unheld : callers.locking.taken _ = [] :=
        (Locking.taken_of_running ready).trans (Option.some.inj order)
      exact inv.go inv.locking ⟨unheld, fun _ _ => ⟨rfl, rfl⟩⟩ (order_of_makes makes)
  | die living =>
      rename_i party
      refine ⟨inv.locking.die, ?_⟩
      intro other alive
      rw [Locking.alive_iff, Locking.setStage_stage] at alive
      have different : other ≠ party := by
        rintro rfl
        simp at alive
      rw [Function.update_of_ne different] at alive
      rw [Locking.taken, Locking.setStage_stage, Function.update_of_ne different]
      exact inv.order other (Locking.alive_iff.mpr alive)

/-! ## Nobody waits for ever -/

omit [DecidableEq ι] in
theorem Inv.held_of_idle (inv : callers.Inv) (running : callers.locking.stage process = .running)
    (idle : callers.left process = []) : callers.locking.held process = [] := by
  have order := inv.order_of_running running
  rw [idle] at order
  exact Option.some.inj order

/-- A process in a call is about to unlock, and can, or is about to lock. -/
theorem Inv.exists_act_or_lock (inv : callers.Inv)
    (living : callers.locking.alive process = true) (unfinished : ¬callers.Finished process) :
    (∃ after, Act callers after) ∨ callers.locking.stage process = .running ∧
      ∃ mutex, (LockCall.lock mutex).InOrder (callers.locking.taken process) ∧
        ∃ other, other ≠ process ∧ callers.locking.Claims other mutex := by
  cases stage : callers.locking.stage process with
  | dead => exact absurd stage (Locking.alive_iff.mp living)
  | repairing mutex => exact Or.inl ⟨_, .repair stage⟩
  | running =>
      have order := inv.order_of_running stage
      cases left : callers.left process with
      | nil => exact absurd ⟨stage, left, inv.held_of_idle stage left⟩ unfinished
      | cons event rest =>
          obtain ⟨call, result⟩ := event
          cases call with
          | unlock mutex => exact Or.inl ⟨_, .unlock stage left⟩
          | lock mutex =>
              rcases inv.locking.sound.moves process mutex stage with moves | waits
              · obtain ⟨after, called⟩ := Option.isSome_iff_exists.mp moves
                exact Or.inl ⟨_, .lock stage left called⟩
              · rw [left, ← Locking.taken_of_running stage] at order
                exact Or.inr ⟨rfl, mutex, (foldlM_read_cons order).1, waits⟩

/-- Who has the mutex of an MMAP without the shared one goes on. -/
theorem Inv.exists_act_of_alone (inv : callers.Inv)
    (living : callers.locking.alive process = true) (some : callers.locking.taken process ≠ [])
    (alone : .shared ∉ callers.locking.taken process) : ∃ after, Act callers after := by
  have unfinished : ¬callers.Finished process := by
    rintro ⟨running, _, unheld⟩
    exact some ((Locking.taken_of_running running).trans unheld)
  rcases inv.exists_act_or_lock living unfinished with acts | ⟨_, mutex, order, _⟩
  · exact acts
  · cases mutex with
    | shared => exact absurd order some
    | mmapBlock address => exact absurd order (not_or.mpr ⟨some, alone⟩)

/-- Who has the shared mutex goes on, or waits for one who goes on. -/
theorem Inv.exists_act_of_shared (inv : callers.Inv)
    (claims : callers.locking.Claims process .shared) : ∃ after, Act callers after := by
  obtain ⟨living, shared⟩ := Locking.claims_iff.mp claims
  have some : callers.locking.taken process ≠ [] := List.ne_nil_of_mem shared
  have unfinished : ¬callers.Finished process := by
    rintro ⟨running, _, unheld⟩
    exact some ((Locking.taken_of_running running).trans unheld)
  rcases inv.exists_act_or_lock living unfinished with
    acts | ⟨_, mutex, order, other, different, otherClaims⟩
  · exact acts
  · obtain ⟨otherLiving, taken⟩ := Locking.claims_iff.mp otherClaims
    refine inv.exists_act_of_alone otherLiving (List.ne_nil_of_mem taken) fun both => ?_
    exact different (inv.locking.sound.exclusive .shared other process
      (Locking.claims_iff.mpr ⟨otherLiving, both⟩) claims)

/-- As long as a living process is in a call, some process goes on. -/
theorem Inv.exists_act (inv : callers.Inv) (living : callers.locking.alive process = true)
    (unfinished : ¬callers.Finished process) : ∃ after, Act callers after := by
  rcases inv.exists_act_or_lock living unfinished with acts | ⟨_, mutex, _, other, _, claims⟩
  · exact acts
  · obtain ⟨otherLiving, taken⟩ := Locking.claims_iff.mp claims
    by_cases shared : .shared ∈ callers.locking.taken other
    · exact inv.exists_act_of_shared (Locking.claims_iff.mpr ⟨otherLiving, shared⟩)
    · exact inv.exists_act_of_alone otherLiving (List.ne_nil_of_mem taken) shared

/-! ## Runs without new calls -/

/-- What a process has to do before it is out of its call. -/
def weight (callers : Callers ι) (process : ι) : Nat :=
  2 * (callers.left process).length +
    match callers.locking.stage process with
    | .repairing _ => 1
    | _ => 0

/-- Every step leaves one process with less to do, and the others with as
much. -/
theorem Inv.weight_lt (inv : callers.Inv) (taken : Act callers after) :
    ∃ process, after.weight process < callers.weight process ∧
      ∀ other, other ≠ process → after.weight other = callers.weight other := by
  have others : ∀ {locking : Locking ι Mutex} {process : ι} {mutexes : List Mutex}
      {rest : List LockEvent}, callers.locking.Moves locking process mutexes →
        ∀ other, other ≠ process →
          weight ⟨locking, Function.update callers.left process rest⟩ other =
            callers.weight other := by
    intro locking process mutexes rest moves other different
    simp only [weight, Function.update_of_ne different, (moves.parties other different).2]
  cases taken with
  | lock ready left called =>
      refine ⟨_, ?_, others (inv.locking.moves_lock ready called)⟩
      simp only [weight, Function.update_self, left, ready, List.length_cons]
      split
      · omega
      · omega
  | unlock ready left =>
      refine ⟨_, ?_, others (inv.locking.moves_unlock ready)⟩
      simp only [weight, Function.update_self, left, ready, List.length_cons]
      split
      · omega
      · omega
  | repair between =>
      rename_i party mutex
      have moves := inv.locking.moves_repair between
      obtain ⟨_, _, reports, same⟩ := inv.locking.repair_eq between
      refine ⟨party, ?_, ?_⟩
      · simp [weight, same, between]
      · intro other different
        simp only [weight, (moves.parties other different).2]

theorem Inv.ends [Fintype ι] (inv : callers.Inv) : Ends Act callers := by
  refine Ends.of_measure Inv (fun callers => ∑ process, callers.weight process) ?_ inv
  intro before later good taken
  obtain ⟨process, less, same⟩ := good.weight_lt taken
  refine ⟨good.act taken, Finset.sum_lt_sum ?_ ⟨process, Finset.mem_univ process, less⟩⟩
  intro other _
  by_cases own : other = process
  · rw [own]
    exact less.le
  · exact (same other own).le

/-- All that is promised follows from the invariant. -/
theorem Inv.live [Fintype ι] (inv : callers.Inv) : callers.Live where
  sound := inv.locking.sound
  agrees process call result rest running left := by
    have order := inv.order_of_running running
    rw [left] at order
    exact (foldlM_read_cons order).2.1
  ends := inv.ends
  finishes last reach stuck process living := by
    have final : last.Inv :=
      invariant_of_reach Inv inv (fun _ _ good taken => good.act taken) reach
    by_contra unfinished
    obtain ⟨after, taken⟩ := final.exists_act living unfinished
    exact stuck after taken

omit [DecidableEq ι] in
theorem inv_start {attr : MutexAttr} (robust : attr.robust = true)
    (errorCheck : attr.errorCheck = true) : (start attr : Callers ι).Inv where
  locking := Locking.inv_start robust errorCheck
  order _ _ := rfl

/-- Any number of processes make any calls of the library, and die at any
time. -/
theorem live_of_reach [Fintype ι] {init setrobust setpshared settype : Errno}
    (works : (Pthread.mutexattrInit init setrobust setpshared settype).1.1 = true)
    (reach : ReflTransGen Turn
      (start (Pthread.mutexattrInit init setrobust setpshared settype).2) callers) :
    callers.Live := by
  rw [Pthread.attr_of_mutexattrInit works] at reach
  exact (invariant_of_reach Inv (inv_start rfl rfl) (fun _ _ inv taken => inv.turn taken)
    reach).live

/-- A call of `vgc_malloc` that creates the first MMAP. -/
theorem makes_sample : Call.Makes (.malloc 5)
    [(.lock (.mmapBlock 268435456), true), (.unlock (.mmapBlock 268435456), true),
      (.lock .shared, true), (.lock (.mmapBlock 268435456), true),
      (.unlock (.mmapBlock 268435456), true), (.unlock .shared, true)] := by
  have evaluated : (Call.program (.malloc 5) generousEnv
      (VgcMalloc.start .default false)).normal.map (fun final => eventLog final.2) =
        some [(.unlock .shared, true), (.unlock (.mmapBlock 268435456), true),
          (.lock (.mmapBlock 268435456), true), (.lock .shared, true),
          (.unlock (.mmapBlock 268435456), true), (.lock (.mmapBlock 268435456), true)] := by
    decide +kernel
  obtain ⟨final, ended, logged⟩ := Option.map_eq_some_iff.mp evaluated
  exact ⟨_, _, final.1, final.2, ⟨fun _ => rfl, fun _ => rfl⟩, rfl,
    Outcome.normal_eq_some_iff.mp ended, logged⟩

/-- Process `false` dies with the shared mutex, which process `true` is about to
get. -/
theorem live_of_reach_sample : ∃ callers : Callers Bool,
    ReflTransGen Turn (start (Pthread.mutexattrInit .ok .ok .ok .ok).2) callers ∧
      callers.locking.stage false = .dead ∧ callers.locking.stage true = .repairing .shared ∧
        callers.Live := by
  have entered := (((ReflTransGen.single (@Turn.call Bool _
    (start (Pthread.mutexattrInit .ok .ok .ok .ok).2) false _ _ rfl rfl makes_sample)).tail
      (.act (@Act.lock Bool _ _ false _ _ _ _ rfl rfl rfl))).tail
        (.act (@Act.unlock Bool _ _ false _ _ _ rfl rfl))).tail
          (.act (@Act.lock Bool _ _ false _ _ _ _ rfl rfl rfl))
  have died := entered.tail (@Turn.die Bool _ _ false nofun)
  have inherited := (((died.tail (@Turn.call Bool _ _ true _ _ rfl rfl makes_sample)).tail
    (.act (@Act.lock Bool _ _ true _ _ _ _ rfl rfl rfl))).tail
      (.act (@Act.unlock Bool _ _ true _ _ _ rfl rfl))).tail
        (.act (@Act.lock Bool _ _ true _ _ _ _ rfl rfl rfl))
  exact ⟨_, inherited, rfl, rfl, live_of_reach rfl inherited⟩

end Callers

end VgcMalloc
