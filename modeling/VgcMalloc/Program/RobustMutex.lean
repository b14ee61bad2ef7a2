import Mathlib.Logic.Function.Basic

/-!
# Robust mutexes

Mutexes that several processes share, as POSIX threads document them.  A robust
mutex whose owner has died goes to the next process that locks it, which is told
so and has to declare the mutex consistent; when it unlocks the mutex without
doing that, the mutex is of no use any more.
-/

namespace VgcMalloc.Program

/-- The answers of the calls. -/
inductive Errno where
  | ok
  | ownerDead
  | notRecoverable
  | again
  | deadlock
  | noMemory
  | perm
  | busy
  | invalid
  | fault
  | other
  deriving DecidableEq, Repr

/-- The attributes of a mutex. -/
structure MutexAttr where
  robust : Bool
  shared : Bool
  errorCheck : Bool
  deriving DecidableEq, Repr

/-- A mutex; it is `inconsistent` from when a process gets it from a dead one
until it is declared consistent, and `ruined` when it can not be recovered. -/
structure RobustMutex (ι : Type) where
  attr : MutexAttr
  initialised : Bool
  owner : Option ι
  inconsistent : Bool
  ruined : Bool
  deriving DecidableEq, Repr

namespace RobustMutex

variable {ι : Type}

/-- A mutex that has been initialised with these attributes. -/
def create (attr : MutexAttr) : RobustMutex ι := ⟨attr, true, none, false, false⟩

/-- Lock the mutex, which answers with nothing while the process is to wait. -/
def lock [DecidableEq ι] (alive : ι → Bool) (self : ι) (mutex : RobustMutex ι) :
    Option (Errno × RobustMutex ι) :=
  if mutex.initialised = false then some (.invalid, mutex)
  else if mutex.ruined then some (.notRecoverable, mutex)
  else match mutex.owner with
    | none => some (.ok, { mutex with owner := some self })
    | some owner =>
        if owner = self then
          if mutex.attr.errorCheck then some (.deadlock, mutex) else none
        else if mutex.attr.robust ∧ alive owner = false then
          some (.ownerDead, { mutex with owner := some self, inconsistent := true })
        else none

/-- Declare the mutex consistent. -/
def consistent (mutex : RobustMutex ι) : Errno × RobustMutex ι :=
  if mutex.attr.robust ∧ mutex.inconsistent then
    (.ok, { mutex with inconsistent := false })
  else (.invalid, mutex)

/-- Unlock the mutex. -/
def unlock [DecidableEq ι] (self : ι) (mutex : RobustMutex ι) : Errno × RobustMutex ι :=
  if mutex.owner = some self then
    (.ok, { mutex with
      owner := none
      inconsistent := false
      ruined := mutex.ruined || mutex.inconsistent })
  else (.perm, mutex)

/-- Destroy the mutex. -/
def destroy (mutex : RobustMutex ι) : Errno × RobustMutex ι :=
  if mutex.owner.isSome then (.busy, mutex) else (.ok, { mutex with initialised := false })

/-! ## Mutexes that are used as they should be -/

/-- The mutex is robust and checks errors, and it can be locked. -/
structure Usable (mutex : RobustMutex ι) : Prop where
  robust : mutex.attr.robust = true
  errorCheck : mutex.attr.errorCheck = true
  initialised : mutex.initialised = true
  recoverable : mutex.ruined = false

theorem usable_create {attr : MutexAttr} (robust : attr.robust = true)
    (errorCheck : attr.errorCheck = true) : (create attr : RobustMutex ι).Usable :=
  ⟨robust, errorCheck, rfl, rfl⟩

variable {mutex : RobustMutex ι}

theorem Usable.consistent_eq (usable : mutex.Usable) (inconsistent : mutex.inconsistent = true) :
    mutex.consistent = (.ok, { mutex with inconsistent := false }) := by
  rw [consistent, if_pos ⟨usable.robust, inconsistent⟩]

variable [DecidableEq ι] {alive : ι → Bool} {self : ι}

/-- A usable mutex is taken when it is free, or from a dead owner; its own owner
is refused, and all others wait. -/
theorem Usable.lock_eq (usable : mutex.Usable) :
    mutex.lock alive self =
      match mutex.owner with
      | none => some (.ok, { mutex with owner := some self })
      | some owner =>
          if owner = self then some (.deadlock, mutex)
          else if alive owner = false then
            some (.ownerDead, { mutex with owner := some self, inconsistent := true })
          else none := by
  obtain ⟨robust, errorCheck, initialised, recoverable⟩ := usable
  unfold lock
  simp [robust, errorCheck, initialised, recoverable]

/-- Who owns a consistent mutex can unlock it. -/
theorem unlock_of_owner (owns : mutex.owner = some self) (consistent : mutex.inconsistent = false) :
    mutex.unlock self = (.ok, { mutex with owner := none }) := by
  rw [unlock, if_pos owns]
  simp [consistent]

theorem unlock_of_other (other : mutex.owner ≠ some self) :
    mutex.unlock self = (.perm, mutex) :=
  if_neg other

end RobustMutex

end VgcMalloc.Program
