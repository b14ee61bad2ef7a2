import VgcMalloc.Model.Pthread
import VgcMalloc.Program.Steps

/-!
# Mutual exclusion with dying processes

The attributes that `PTHREAD_mutexattrInit` sets make every mutex robust, and
`PTHREAD_mutexLock` declares the mutex of a dead owner consistent before it
returns.  So a mutex never gets lost, wherever processes die: at most one living
process holds it, and who asks for it gets it unless a living process has it.
-/

namespace VgcMalloc

open Program Relation

variable {ι μ : Type} [DecidableEq ι] [DecidableEq μ] {locking after : Locking ι μ}
  {process other : ι} {mutex : μ}

/-! ## Attributes -/

/-- Attributes that have been initialised without an error. -/
theorem Pthread.attr_of_mutexattrInit {init setrobust setpshared settype : Errno}
    (works : (Pthread.mutexattrInit init setrobust setpshared settype).1.1 = true) :
    (Pthread.mutexattrInit init setrobust setpshared settype).2 = ⟨true, true, true⟩ := by
  have first : ∀ function call known code,
      (Pthread.answered function call known code).1 = true ↔ code = .ok := by
    intro function call known code
    unfold Pthread.answered
    split
    · simp [*]
    · simp [*]
  unfold Pthread.mutexattrInit at works ⊢
  split at works
  · rename_i failed
    exact absurd ((first ..).mp works) failed
  · rename_i inited
    rw [if_neg inited]
    simp only at works ⊢
    split at works
    · cases works
    · rename_i robust
      rw [if_neg robust]
      split at works
      · cases works
      · rename_i shared
        rw [if_neg shared, works]

/-! ## What is promised -/

/-- What a call should return: a mutex that the process does not hold can be
locked, and one that it holds can be unlocked. -/
def LockAnswer.entitled (answer : LockAnswer ι μ) : Bool := answer.call.succeeds answer.held

namespace Locking

/-- A living process holds the mutex, or it is about to get it. -/
def Claims (locking : Locking ι μ) (process : ι) (mutex : μ) : Prop :=
  locking.alive process = true ∧
    (mutex ∈ locking.held process ∨ locking.stage process = .repairing mutex)

/-- Every mutex is claimed by one process at most, is never lost, and is given to
who asks for it unless another one claims it; all answers are as they should
be. -/
structure Sound (locking : Locking ι μ) : Prop where
  exclusive : ∀ mutex first second, locking.Claims first mutex → locking.Claims second mutex →
    first = second
  usable : ∀ mutex, (locking.mutex mutex).Usable
  moves : ∀ process mutex, locking.stage process = .running →
    (locking.lock process mutex).isSome ∨ ∃ other, other ≠ process ∧ locking.Claims other mutex
  answers : ∀ answer ∈ locking.answers, answer.result = answer.entitled

/-! ## Fields -/

section Fields

variable {call : LockCall μ} {result : Bool} {reports : List PthreadReport} {mutexes : List μ}
  {stage : LockStage μ} {taken : RobustMutex ι}

omit [DecidableEq ι] in
@[simp]
theorem setMutex_mutex : (locking.setMutex mutex taken).mutex =
    Function.update locking.mutex mutex taken :=
  rfl

omit [DecidableEq ι] in
@[simp]
theorem setMutex_held : (locking.setMutex mutex taken).held = locking.held :=
  rfl

omit [DecidableEq ι] in
@[simp]
theorem setMutex_stage : (locking.setMutex mutex taken).stage = locking.stage :=
  rfl

omit [DecidableEq μ] in
@[simp]
theorem setStage_mutex : (locking.setStage process stage).mutex = locking.mutex :=
  rfl

omit [DecidableEq μ] in
@[simp]
theorem setStage_held : (locking.setStage process stage).held = locking.held :=
  rfl

omit [DecidableEq μ] in
@[simp]
theorem setStage_stage : (locking.setStage process stage).stage =
    Function.update locking.stage process stage :=
  rfl

omit [DecidableEq μ] in
@[simp]
theorem setHeld_mutex : (locking.setHeld process mutexes).mutex = locking.mutex :=
  rfl

omit [DecidableEq μ] in
@[simp]
theorem setHeld_held : (locking.setHeld process mutexes).held =
    Function.update locking.held process mutexes :=
  rfl

omit [DecidableEq μ] in
@[simp]
theorem setHeld_stage : (locking.setHeld process mutexes).stage = locking.stage :=
  rfl

omit [DecidableEq ι] [DecidableEq μ] in
@[simp]
theorem answer_mutex : (locking.answer process call result reports).mutex = locking.mutex :=
  rfl

omit [DecidableEq ι] [DecidableEq μ] in
@[simp]
theorem answer_held : (locking.answer process call result reports).held = locking.held :=
  rfl

omit [DecidableEq ι] [DecidableEq μ] in
@[simp]
theorem answer_stage : (locking.answer process call result reports).stage = locking.stage :=
  rfl

omit [DecidableEq μ] in
@[simp]
theorem given_mutex : (locking.given process mutex reports).mutex = locking.mutex :=
  rfl

omit [DecidableEq μ] in
@[simp]
theorem given_held : (locking.given process mutex reports).held =
    Function.update locking.held process (mutex :: locking.held process) :=
  rfl

omit [DecidableEq μ] in
@[simp]
theorem given_stage : (locking.given process mutex reports).stage = locking.stage :=
  rfl

omit [DecidableEq ι] in
theorem alive_iff : locking.alive process = true ↔ locking.stage process ≠ .dead := by
  simp [alive]

omit [DecidableEq ι] in
/-- A process between two calls is alive. -/
theorem alive_of_running (running : locking.stage process = .running) :
    locking.alive process = true := by
  rw [alive_iff, running]
  nofun

end Fields

/-! ## The owner of a mutex -/

/-- The owner has the mutex for sure, or is about to declare it consistent. -/
inductive Owns (locking : Locking ι μ) (owner : ι) (mutex : μ) : Prop where
  | holds (held : mutex ∈ locking.held owner)
      (stage : locking.stage owner ≠ .repairing mutex)
      (consistent : (locking.mutex mutex).inconsistent = false)
  | repairs (stage : locking.stage owner = .repairing mutex)
      (unheld : mutex ∉ locking.held owner)
      (inconsistent : (locking.mutex mutex).inconsistent = true)

/-- Nobody but the owner of the mutex claims it. -/
structure Owned (locking : Locking ι μ) (mutex : μ) : Prop where
  only : ∀ process, locking.Claims process mutex →
    (locking.mutex mutex).owner = some process
  owner : ∀ process, (locking.mutex mutex).owner = some process →
    locking.alive process = true → locking.Owns process mutex
  consistent : (locking.mutex mutex).owner = none → (locking.mutex mutex).inconsistent = false

/-- What every step keeps. -/
structure Inv (locking : Locking ι μ) : Prop where
  usable : ∀ mutex, (locking.mutex mutex).Usable
  owned : ∀ mutex, locking.Owned mutex
  nodup : ∀ process, (locking.held process).Nodup
  answers : ∀ answer ∈ locking.answers, answer.result = answer.entitled

omit [DecidableEq ι] in
theorem inv_start {attr : MutexAttr} (robust : attr.robust = true)
    (errorCheck : attr.errorCheck = true) : (start attr : Locking ι μ).Inv where
  usable _ := RobustMutex.usable_create robust errorCheck
  owned mutex := by
    refine ⟨?_, nofun, fun _ => rfl⟩
    rintro process ⟨_, held | repairing⟩
    · cases held
    · cases repairing
  nodup _ := List.nodup_nil
  answers _ member := absurd member List.not_mem_nil

/-- The promises follow from the invariant. -/
theorem Inv.sound (inv : locking.Inv) : locking.Sound where
  exclusive mutex first second firstClaims secondClaims :=
    Option.some.inj (((inv.owned mutex).only first firstClaims).symm.trans
      ((inv.owned mutex).only second secondClaims))
  usable := inv.usable
  answers := inv.answers
  moves process mutex running := by
    have owned := inv.owned mutex
    rw [Locking.lock, (inv.usable mutex).lock_eq, Option.isSome_map]
    cases owner : (locking.mutex mutex).owner with
    | none => exact Or.inl rfl
    | some other =>
        simp only
        split
        · exact Or.inl rfl
        · rename_i different
          split
          · exact Or.inl rfl
          · rename_i living
            have alive : locking.alive other = true := by simpa using living
            refine Or.inr ⟨other, different, alive, ?_⟩
            cases owned.owner other owner alive with
            | holds held _ _ => exact Or.inl held
            | repairs stage _ _ => exact Or.inr stage

/-! ## One step -/

omit [DecidableEq ι] in
/-- A mutex that no living process has touched. -/
theorem Owned.frame (owned : locking.Owned mutex) (same : after.mutex mutex = locking.mutex mutex)
    (kept : ∀ process, after.alive process = true → locking.alive process = true ∧
      (mutex ∈ after.held process ↔ mutex ∈ locking.held process) ∧
        (after.stage process = .repairing mutex ↔ locking.stage process = .repairing mutex)) :
    after.Owned mutex := by
  refine ⟨?_, ?_, ?_⟩
  · rintro process ⟨living, claims⟩
    obtain ⟨alive, held, stage⟩ := kept process living
    rw [held, stage] at claims
    rw [same]
    exact owned.only process ⟨alive, claims⟩
  · intro process owner living
    obtain ⟨alive, held, stage⟩ := kept process living
    rw [same] at owner
    cases owned.owner process owner alive with
    | holds member apart consistent =>
        exact .holds (held.mpr member) (fun repairing => apart (stage.mp repairing))
          (same ▸ consistent)
    | repairs repairing unheld inconsistent =>
        exact .repairs (stage.mpr repairing) (fun member => unheld (held.mp member))
          (same ▸ inconsistent)
  · rw [same]
    exact owned.consistent

/-- A process that dies claims nothing. -/
theorem Inv.die (inv : locking.Inv) : (locking.setStage process .dead).Inv where
  usable := inv.usable
  nodup := inv.nodup
  answers := inv.answers
  owned mutex := by
    refine (inv.owned mutex).frame rfl fun other living => ?_
    rw [alive_iff, setStage_stage] at living
    have different : other ≠ process := by
      rintro rfl
      simp at living
    rw [Function.update_of_ne different] at living
    refine ⟨alive_iff.mpr living, Iff.rfl, ?_⟩
    rw [setStage_stage, Function.update_of_ne different]

omit [DecidableEq ι] in
/-- A call that changes nothing but has the right answer. -/
theorem Inv.answer {call : LockCall μ} {result : Bool} {reports : List PthreadReport}
    (inv : locking.Inv)
    (right : result =
      LockAnswer.entitled ⟨process, call, locking.held process, result, reports⟩) :
    (locking.answer process call result reports).Inv where
  usable := inv.usable
  owned mutex := (inv.owned mutex).frame rfl fun _ living => ⟨living, Iff.rfl, Iff.rfl⟩
  nodup := inv.nodup
  answers := List.forall_mem_cons.mpr ⟨right, inv.answers⟩

/-- A step of one process that has to do with one mutex. -/
structure Touches (locking after : Locking ι μ) (process : ι) (mutex : μ) : Prop where
  living : locking.alive process = true
  mutexes : ∀ other, other ≠ mutex → after.mutex other = locking.mutex other
  parties : ∀ other, other ≠ process →
    after.held other = locking.held other ∧ after.stage other = locking.stage other
  held : ∀ other, other ≠ mutex →
    (other ∈ after.held process ↔ other ∈ locking.held process)
  stage : ∀ other, other ≠ mutex →
    (after.stage process = .repairing other ↔ locking.stage process = .repairing other)

omit [DecidableEq ι] in
/-- What the other processes claim, they claimed before. -/
theorem Touches.claims {party : ι} (touches : locking.Touches after process mutex)
    (different : party ≠ process) {other : μ} (claims : after.Claims party other) :
    locking.Claims party other := by
  obtain ⟨held, stage⟩ := touches.parties party different
  obtain ⟨living, claims⟩ := claims
  rw [alive_iff, stage] at living
  rw [held, stage] at claims
  exact ⟨alive_iff.mpr living, claims⟩

/-- Such a step has to be looked at for that mutex only. -/
theorem Touches.inv (touches : locking.Touches after process mutex) (inv : locking.Inv)
    (usable : (after.mutex mutex).Usable) (owned : after.Owned mutex)
    (nodup : (after.held process).Nodup)
    (answers : ∀ answer ∈ after.answers, answer.result = answer.entitled) : after.Inv where
  usable other := by
    by_cases same : other = mutex
    · exact same ▸ usable
    · rw [touches.mutexes other same]
      exact inv.usable other
  owned other := by
    by_cases same : other = mutex
    · exact same ▸ owned
    · refine (inv.owned other).frame (touches.mutexes other same) fun party living => ?_
      by_cases own : party = process
      · subst own
        exact ⟨touches.living, touches.held other same, touches.stage other same⟩
      · obtain ⟨held, stage⟩ := touches.parties party own
        rw [alive_iff, stage, ← alive_iff] at living
        rw [held, stage]
        exact ⟨living, Iff.rfl, Iff.rfl⟩
  nodup party := by
    by_cases own : party = process
    · exact own ▸ nodup
    · rw [(touches.parties party own).1]
      exact inv.nodup party
  answers := answers

/-- A process gets a mutex that nobody else claims. -/
theorem Inv.take {taken : RobustMutex ι} {reports : List PthreadReport} (inv : locking.Inv)
    (stage : locking.stage process = .running ∨ locking.stage process = .repairing mutex)
    (usable : taken.Usable) (owner : taken.owner = some process)
    (consistent : taken.inconsistent = false) (unheld : mutex ∉ locking.held process)
    (alone : ∀ other, locking.Claims other mutex → other = process) :
    (((locking.setMutex mutex taken).setStage process .running).given process mutex
      reports).Inv := by
  have touches : locking.Touches (((locking.setMutex mutex taken).setStage process .running).given
      process mutex reports) process mutex := by
    refine ⟨?_, fun other different => by simp [different], fun other different =>
      by simp [different], fun other different => by simp [different], ?_⟩
    · rw [alive_iff]
      rcases stage with running | repairing
      · rw [running]; nofun
      · rw [repairing]; nofun
    · intro other different
      rcases stage with running | repairing
      · simp [running]
      · simp [repairing, Ne.symm different]
  refine touches.inv inv (by simpa using usable) ⟨?_, ?_, ?_⟩
    (by simpa using ⟨unheld, inv.nodup process⟩) (List.forall_mem_cons.mpr ⟨?_, inv.answers⟩)
  · intro party claims
    have own : party = process := by
      by_contra different
      exact different (alone party (touches.claims different claims))
    subst own
    simpa using owner
  · intro party owns _
    obtain rfl : party = process := by
      simp only [given_mutex, setStage_mutex, setMutex_mutex, Function.update_self,
        owner] at owns
      exact (Option.some.inj owns).symm
    exact .holds (by simp) (by simp) (by simpa using consistent)
  · intro none
    simp [owner] at none
  · simp [LockAnswer.entitled, LockCall.succeeds, unheld]

/-- A process finds that the owner of the mutex has died. -/
theorem Inv.inherit (inv : locking.Inv) (running : locking.stage process = .running)
    (unheld : mutex ∉ locking.held process)
    (alone : ∀ other, ¬locking.Claims other mutex) :
    ((locking.setMutex mutex { locking.mutex mutex with
      owner := some process, inconsistent := true }).setStage process
        (.repairing mutex)).Inv := by
  have touches : locking.Touches ((locking.setMutex mutex { locking.mutex mutex with
      owner := some process, inconsistent := true }).setStage process (.repairing mutex))
        process mutex :=
    ⟨alive_of_running running, fun other different => by simp [different],
      fun other different => by simp [different], fun _ _ => Iff.rfl,
      fun other different => by simp [running, Ne.symm different]⟩
  obtain ⟨robust, errorCheck, initialised, recoverable⟩ := inv.usable mutex
  refine touches.inv inv (by simpa using ⟨robust, errorCheck, initialised, recoverable⟩)
    ⟨?_, ?_, ?_⟩ (inv.nodup process) inv.answers
  · intro party claims
    have own : party = process := by
      by_contra different
      exact alone party (touches.claims different claims)
    subst own
    simp
  · intro party owns _
    obtain rfl : party = process := by
      simp only [setStage_mutex, setMutex_mutex, Function.update_self] at owns
      exact (Option.some.inj owns).symm
    exact .repairs (by simp) (by simpa using unheld) (by simp)
  · intro none
    simp at none

/-- A process gives back a mutex that it holds. -/
theorem Inv.give {reports : List PthreadReport} (inv : locking.Inv)
    (running : locking.stage process = .running) (held : mutex ∈ locking.held process) :
    (((locking.setMutex mutex { locking.mutex mutex with owner := none }).answer process
      (.unlock mutex) true reports).setHeld process ((locking.held process).erase mutex)).Inv := by
  have claims : locking.Claims process mutex := ⟨alive_of_running running, Or.inl held⟩
  have owner := (inv.owned mutex).only process claims
  have touches : locking.Touches (((locking.setMutex mutex { locking.mutex mutex with
      owner := none }).answer process (.unlock mutex) true reports).setHeld process
        ((locking.held process).erase mutex)) process mutex :=
    ⟨claims.1, fun other different => by simp [different],
      fun other different => by simp [different],
      fun other different => by simp [List.mem_erase_of_ne different], fun _ _ => Iff.rfl⟩
  have released : mutex ∉ (locking.held process).erase mutex :=
    (inv.nodup process).not_mem_erase
  obtain ⟨robust, errorCheck, initialised, recoverable⟩ := inv.usable mutex
  refine touches.inv inv (by simpa using ⟨robust, errorCheck, initialised, recoverable⟩)
    ⟨?_, ?_, ?_⟩ (by simpa using (inv.nodup process).erase mutex)
    (List.forall_mem_cons.mpr ⟨?_, inv.answers⟩)
  · intro party stillClaims
    by_cases own : party = process
    · subst own
      obtain ⟨_, member | repairing⟩ := stillClaims
      · simp [released] at member
      · simp [running] at repairing
    · have same := (inv.owned mutex).only party (touches.claims own stillClaims)
      exact absurd (Option.some.inj (same.symm.trans owner)) own
  · intro party owns _
    simp at owns
  · intro _
    cases (inv.owned mutex).owner process owner claims.1 with
    | holds _ _ consistent => simpa using consistent
    | repairs repairing _ _ =>
        rw [running] at repairing
        cases repairing
  · simp [LockAnswer.entitled, LockCall.succeeds, held]

omit [DecidableEq μ] in
theorem setStage_self {stage : LockStage μ} (same : locking.stage process = stage) :
    locking.setStage process stage = locking := by
  rw [setStage, ← same, Function.update_eq_self]

omit [DecidableEq ι] in
theorem setMutex_self : locking.setMutex mutex (locking.mutex mutex) = locking := by
  rw [setMutex, Function.update_eq_self]

/-- `PTHREAD_mutexLock` takes a mutex that is free, refuses one that the process
has already, and inherits one from a dead process. -/
theorem Inv.lock_cases (inv : locking.Inv) (running : locking.stage process = .running)
    (called : locking.lock process mutex = some after) :
    (mutex ∉ locking.held process ∧ (∀ other, ¬locking.Claims other mutex) ∧
      (locking.mutex mutex).owner = none ∧
        after = (locking.setMutex mutex { locking.mutex mutex with
          owner := some process }).given process mutex []) ∨
    (mutex ∈ locking.held process ∧
      ∃ reports, after = locking.answer process (.lock mutex) false reports) ∨
    (mutex ∉ locking.held process ∧ (∀ other, ¬locking.Claims other mutex) ∧
      after = (locking.setMutex mutex { locking.mutex mutex with
        owner := some process, inconsistent := true }).setStage process (.repairing mutex)) := by
  have owned := inv.owned mutex
  have alive := alive_of_running running
  rw [Locking.lock, (inv.usable mutex).lock_eq] at called
  cases owner : (locking.mutex mutex).owner with
  | none =>
      have alone : ∀ other, ¬locking.Claims other mutex := by
        intro other claims
        simpa [owner] using owned.only other claims
      refine Or.inl ⟨fun held => alone process ⟨alive, Or.inl held⟩, alone, rfl, ?_⟩
      simpa [owner, Pthread.mutexLock] using called.symm
  | some other =>
      rw [owner] at called
      simp only at called
      split at called
      · rename_i own
        subst own
        refine Or.inr (Or.inl ⟨?_, _,
          by simpa [Pthread.mutexLock, setMutex_self] using called.symm⟩)
        cases owned.owner other owner alive with
        | holds held _ _ => exact held
        | repairs repairing _ _ =>
            rw [running] at repairing
            cases repairing
      · split at called
        · rename_i dead
          have alone : ∀ party, ¬locking.Claims party mutex := by
            intro party claims
            obtain rfl : other = party :=
              Option.some.inj (owner.symm.trans (owned.only party claims))
            exact absurd claims.1 (by simp [dead])
          refine Or.inr (Or.inr ⟨fun held => alone process ⟨alive, Or.inl held⟩, alone, ?_⟩)
          simpa [Pthread.mutexLock] using called.symm
        · cases called

/-- The rest of `PTHREAD_mutexLock` gets the mutex. -/
theorem Inv.repair_eq (inv : locking.Inv) (between : locking.stage process = .repairing mutex) :
    mutex ∉ locking.held process ∧ (locking.mutex mutex).owner = some process ∧
      ∃ reports, locking.repair process mutex =
        ((locking.setMutex mutex { locking.mutex mutex with
          inconsistent := false }).setStage process .running).given process mutex reports := by
  have owned := inv.owned mutex
  have claims : locking.Claims process mutex :=
    ⟨alive_iff.mpr (by rw [between]; nofun), Or.inr between⟩
  have owner := owned.only process claims
  cases owned.owner process owner claims.1 with
  | holds _ apart _ => exact absurd between apart
  | repairs _ unheld inconsistent =>
      refine ⟨unheld, owner,
        (Pthread.mutexLock .ownerDead).2 ++ (Pthread.mutexConsistent .ok).2, ?_⟩
      rw [Locking.repair, (inv.usable mutex).consistent_eq inconsistent]
      rfl

/-- `PTHREAD_mutexUnlock` gives back what the process holds, and nothing else. -/
theorem Inv.unlock_cases (inv : locking.Inv) (mutex : μ)
    (running : locking.stage process = .running) :
    (mutex ∈ locking.held process ∧ ∃ reports, locking.unlock process mutex =
      ((locking.setMutex mutex { locking.mutex mutex with owner := none }).answer process
        (.unlock mutex) true reports).setHeld process ((locking.held process).erase mutex)) ∨
    (mutex ∉ locking.held process ∧ ∃ reports, locking.unlock process mutex =
      locking.answer process (.unlock mutex) false reports) := by
  have owned := inv.owned mutex
  have alive := alive_of_running running
  by_cases owner : (locking.mutex mutex).owner = some process
  · cases owned.owner process owner alive with
    | holds held _ consistent =>
        refine Or.inl ⟨held, (Pthread.mutexUnlock .ok).2, ?_⟩
        rw [Locking.unlock, RobustMutex.unlock_of_owner owner consistent]
        rfl
    | repairs repairing _ _ =>
        rw [running] at repairing
        cases repairing
  · refine Or.inr ⟨fun held => owner (owned.only process ⟨alive, Or.inl held⟩),
      (Pthread.mutexUnlock .perm).2, ?_⟩
    rw [Locking.unlock, RobustMutex.unlock_of_other owner]
    simp only [setMutex_self]
    rfl

theorem Inv.lock (inv : locking.Inv) (running : locking.stage process = .running)
    (called : locking.lock process mutex = some after) : after.Inv := by
  obtain ⟨robust, errorCheck, initialised, recoverable⟩ := inv.usable mutex
  rcases inv.lock_cases running called with
    ⟨unheld, alone, owner, rfl⟩ | ⟨held, reports, rfl⟩ | ⟨unheld, alone, rfl⟩
  · have still : (locking.setMutex mutex { locking.mutex mutex with
        owner := some process }).setStage process .running = _ := setStage_self running
    rw [← still]
    exact inv.take (Or.inl running) ⟨robust, errorCheck, initialised, recoverable⟩ rfl
      ((inv.owned mutex).consistent owner) unheld
      fun other claims => absurd claims (alone other)
  · exact inv.answer (by simp [LockAnswer.entitled, LockCall.succeeds, held])
  · exact inv.inherit running unheld alone

theorem Inv.repair (inv : locking.Inv) (between : locking.stage process = .repairing mutex) :
    (locking.repair process mutex).Inv := by
  obtain ⟨robust, errorCheck, initialised, recoverable⟩ := inv.usable mutex
  obtain ⟨unheld, owner, reports, same⟩ := inv.repair_eq between
  rw [same]
  exact inv.take (Or.inr between) ⟨robust, errorCheck, initialised, recoverable⟩ owner rfl unheld
    fun party claims => Option.some.inj (((inv.owned mutex).only party claims).symm.trans owner)

theorem Inv.unlock (inv : locking.Inv) (running : locking.stage process = .running) :
    (locking.unlock process mutex).Inv := by
  rcases inv.unlock_cases mutex running with
    ⟨held, reports, same⟩ | ⟨unheld, reports, same⟩
  · rw [same]
    exact inv.give running held
  · rw [same]
    exact inv.answer (by simp [LockAnswer.entitled, LockCall.succeeds, unheld])

/-- Every step keeps the invariant. -/
theorem Inv.step (inv : locking.Inv) (taken : Step locking after) : after.Inv := by
  cases taken with
  | lock ready called => exact inv.lock ready called
  | repair between => exact inv.repair between
  | unlock ready => exact inv.unlock ready
  | die living => exact inv.die

/-! ## Runs -/

/-- With the attributes that `PTHREAD_mutexattrInit` has set, any number of
processes can lock and unlock any mutexes in any order, and die at any time. -/
theorem sound_of_reach {init setrobust setpshared settype : Errno}
    (works : (Pthread.mutexattrInit init setrobust setpshared settype).1.1 = true)
    (reach : ReflTransGen Step
      (start (Pthread.mutexattrInit init setrobust setpshared settype).2) locking) :
    locking.Sound := by
  rw [Pthread.attr_of_mutexattrInit works] at reach
  exact (invariant_of_reach Inv (inv_start rfl rfl) (fun _ _ inv taken => inv.step taken)
    reach).sound

/-- Process `true` gets the mutex that process `false` has held when it died. -/
theorem sound_of_reach_sample : ∃ locking : Locking Bool Unit,
    ReflTransGen Step (start (Pthread.mutexattrInit .ok .ok .ok .ok).2) locking ∧
      locking.stage false = .dead ∧ locking.held true = [()] ∧
        locking.answers.map (·.result) = [true, true] ∧ locking.Sound := by
  have locked := ReflTransGen.single (@Step.lock Bool Unit _ _
    (start (Pthread.mutexattrInit .ok .ok .ok .ok).2) _ false () rfl rfl)
  have died := locked.tail (@Step.die _ _ _ _ _ false nofun)
  have inherited := died.tail (@Step.lock _ _ _ _ _ _ true () rfl rfl)
  have repaired := inherited.tail (@Step.repair _ _ _ _ _ true () rfl)
  exact ⟨_, repaired, rfl, rfl, rfl, sound_of_reach rfl repaired⟩

end Locking

end VgcMalloc
