import VgcMalloc.Program.RobustMutex

/-!
# The wrappers of the thread library

The functions of `vgc_pthread.c` for mutexes and their attributes: each of them
turns the answer of a call into a truth value and reports every answer but
zero.  `PTHREAD_mutexLock` makes a second call when the owner of the mutex has
died, so a process can be between the two.
-/

namespace VgcMalloc

open Program

/-! ## Answers and reports -/

/-- A call of `vgc_message` at the error level: function, title, subtitle and
status. -/
structure PthreadReport where
  function : String
  title : String
  subtitle : String
  status : String
  deriving DecidableEq, Repr

namespace Pthread

/-- The `switch` of a wrapper over the answer of the call it wraps: true for
zero, and an error for the known answers and all others. -/
def answered (function call : String) (known : List (Errno × String)) (code : Errno) :
    Bool × List PthreadReport :=
  if code = .ok then (true, [])
  else (false, [⟨function, call, "Error", (known.lookup code).getD "unknown error"⟩])

/-- `PTHREAD_mutexUnlock`. -/
def mutexUnlock (code : Errno) : Bool × List PthreadReport :=
  answered "PTHREAD_mutexUnlock" "pthread_mutex_unlock" [(.perm, "status EPERM")] code

/-- `PTHREAD_mutexInit`. -/
def mutexInit (code : Errno) : Bool × List PthreadReport :=
  answered "PTHREAD_mutexInit" "pthread_mutex_init"
    [(.busy, "status EBUSY"), (.invalid, "status EINVAL"), (.fault, "status FAULT")] code

/-- `PTHREAD_mutexDestroy`. -/
def mutexDestroy (code : Errno) : Bool × List PthreadReport :=
  answered "PTHREAD_mutexDestroy" "pthread_mutex_destroy" [(.invalid, "status EINVAL")] code

/-- `PTHREAD_mutexConsistent`. -/
def mutexConsistent (code : Errno) : Bool × List PthreadReport :=
  answered "PTHREAD_mutexConsistent" "pthread_mutex_consistent" [(.invalid, "status EINVAL")] code

/-- `PTHREAD_mutexattrSetrobust`. -/
def mutexattrSetrobust (code : Errno) : Bool × List PthreadReport :=
  answered "PTHREAD_mutexattrSetrobust" "pthread_mutexattr_setrobust"
    [(.invalid, "status EINVAL")] code

/-- `PTHREAD_mutexattrSetpshared`. -/
def mutexattrSetpshared (code : Errno) : Bool × List PthreadReport :=
  answered "PTHREAD_mutexattrSetpshared" "pthread_mutexattr_setpshared"
    [(.invalid, "status EINVAL")] code

/-- `PTHREAD_mutexattrSettype`. -/
def mutexattrSettype (code : Errno) : Bool × List PthreadReport :=
  answered "PTHREAD_mutexattrSettype" "pthread_mutexattr_settype"
    [(.invalid, "status EINVAL")] code

/-- `PTHREAD_mutexattrInit` for the answers of its four calls: each of them is
made when all before it have succeeded, and sets one of the attributes. -/
def mutexattrInit (init setrobust setpshared settype : Errno) :
    (Bool × List PthreadReport) × MutexAttr :=
  if init ≠ .ok then
    (answered "PTHREAD_mutexattrInit" "pthread_mutexattr_init" [(.noMemory, "status ENOMEM")] init,
      ⟨false, false, false⟩)
  else
    let (robust, first) := mutexattrSetrobust setrobust
    if robust = false then ((false, first), ⟨false, false, false⟩)
    else
      let (shared, second) := mutexattrSetpshared setpshared
      if shared = false then ((false, first ++ second), ⟨true, false, false⟩)
      else
        let (errorCheck, third) := mutexattrSettype settype
        ((errorCheck, first ++ second ++ third), ⟨true, true, errorCheck⟩)

/-- What `PTHREAD_mutexLock` does with the answer of `pthread_mutex_lock`. -/
inductive LockBranch where
  | returns (result : Bool)
  | consistent
  | destroy
  deriving DecidableEq, Repr

/-- The `switch` of `PTHREAD_mutexLock`. -/
def mutexLock (code : Errno) : LockBranch × List PthreadReport :=
  let report (subtitle status : String) : PthreadReport :=
    ⟨"PTHREAD_mutexLock", "pthread_mutex_lock", subtitle, status⟩
  match code with
  | .ok => (.returns true, [])
  | .ownerDead => (.consistent, [report "Warning" "status EOWNERDEAD"])
  | .notRecoverable => (.destroy, [report "Error" "status ENOTRECOVERABLE"])
  | .again => (.returns false, [report "Error" "status EAGAIN"])
  | .deadlock => (.returns false, [report "Error" "status EDEADLK"])
  | .noMemory => (.returns false, [report "Error" "status ENOMEM"])
  | _ => (.returns false, [report "Error" "unknown error"])

end Pthread

/-! ## Processes that lock -/

/-- Where a process is: outside of the wrappers, between the two calls of
`PTHREAD_mutexLock`, or dead. -/
inductive LockStage (μ : Type) where
  | running
  | repairing (mutex : μ)
  | dead
  deriving DecidableEq, Repr

/-- A call of `PTHREAD_mutexLock` or `PTHREAD_mutexUnlock`. -/
inductive LockCall (μ : Type) where
  | lock (mutex : μ)
  | unlock (mutex : μ)
  deriving DecidableEq, Repr

section Held

variable {μ : Type} [DecidableEq μ]

/-- A mutex that is not held can be locked, and one that is held unlocked. -/
def LockCall.succeeds (held : List μ) : LockCall μ → Bool
  | .lock mutex => mutex ∉ held
  | .unlock mutex => mutex ∈ held

/-- The mutexes held after the call. -/
def LockCall.next (held : List μ) : LockCall μ → List μ
  | .lock mutex => if mutex ∈ held then held else mutex :: held
  | .unlock mutex => held.erase mutex

end Held

/-- A call that has returned, with the mutexes that the process held before. -/
structure LockAnswer (ι μ : Type) where
  process : ι
  call : LockCall μ
  held : List μ
  result : Bool
  reports : List PthreadReport
  deriving DecidableEq, Repr

/-- Processes and their mutexes: the mutexes that a process holds are those that
`PTHREAD_mutexLock` has given it. -/
structure Locking (ι μ : Type) where
  mutex : μ → RobustMutex ι
  stage : ι → LockStage μ
  held : ι → List μ
  answers : List (LockAnswer ι μ)

namespace Locking

variable {ι μ : Type} [DecidableEq ι] [DecidableEq μ]

/-- All mutexes have been initialised with the same attributes. -/
def start (attr : MutexAttr) : Locking ι μ :=
  ⟨fun _ => .create attr, fun _ => .running, fun _ => [], []⟩

/-- The process has not died. -/
def alive (locking : Locking ι μ) (process : ι) : Bool := locking.stage process != .dead

/-- A call has returned. -/
def answer (locking : Locking ι μ) (process : ι) (call : LockCall μ) (result : Bool)
    (reports : List PthreadReport) : Locking ι μ :=
  { locking with answers := ⟨process, call, locking.held process, result, reports⟩ ::
      locking.answers }

/-- The mutexes that a process holds. -/
def setHeld (locking : Locking ι μ) (process : ι) (mutexes : List μ) : Locking ι μ :=
  { locking with held := Function.update locking.held process mutexes }

/-- The mutex after a call. -/
def setMutex (locking : Locking ι μ) (mutex : μ) (after : RobustMutex ι) : Locking ι μ :=
  { locking with mutex := Function.update locking.mutex mutex after }

/-- Where the process is. -/
def setStage (locking : Locking ι μ) (process : ι) (stage : LockStage μ) : Locking ι μ :=
  { locking with stage := Function.update locking.stage process stage }

/-- `PTHREAD_mutexLock` gives the mutex to the process. -/
def given (locking : Locking ι μ) (process : ι) (mutex : μ) (reports : List PthreadReport) :
    Locking ι μ :=
  (locking.answer process (.lock mutex) true reports).setHeld process
    (mutex :: locking.held process)

/-- `PTHREAD_mutexLock` up to where it returns or calls
`PTHREAD_mutexConsistent`; nothing while the process is to wait. -/
def lock (locking : Locking ι μ) (process : ι) (mutex : μ) : Option (Locking ι μ) :=
  ((locking.mutex mutex).lock locking.alive process).map fun (code, after) =>
    let called := locking.setMutex mutex after
    match Pthread.mutexLock code with
    | (.returns true, reports) => called.given process mutex reports
    | (.returns false, reports) => called.answer process (.lock mutex) false reports
    | (.consistent, _) => called.setStage process (.repairing mutex)
    | (.destroy, reports) =>
        let (code, destroyed) := after.destroy
        (called.setMutex mutex destroyed).answer process (.lock mutex) false
          (reports ++ (Pthread.mutexDestroy code).2)

/-- The rest of `PTHREAD_mutexLock` after the owner of the mutex has died. -/
def repair (locking : Locking ι μ) (process : ι) (mutex : μ) : Locking ι μ :=
  let (code, after) := (locking.mutex mutex).consistent
  let called := (locking.setMutex mutex after).setStage process .running
  let reports := (Pthread.mutexLock .ownerDead).2 ++ (Pthread.mutexConsistent code).2
  if (Pthread.mutexConsistent code).1 then called.given process mutex reports
  else called.answer process (.lock mutex) false reports

/-- `PTHREAD_mutexUnlock`. -/
def unlock (locking : Locking ι μ) (process : ι) (mutex : μ) : Locking ι μ :=
  let (code, after) := (locking.mutex mutex).unlock process
  let called := (locking.setMutex mutex after).answer process (.unlock mutex)
    (Pthread.mutexUnlock code).1 (Pthread.mutexUnlock code).2
  if (Pthread.mutexUnlock code).1 then
    called.setHeld process ((locking.held process).erase mutex)
  else called

/-- One step of one process, which can die at any time. -/
inductive Step : Locking ι μ → Locking ι μ → Prop where
  | lock {locking after : Locking ι μ} {process : ι} {mutex : μ}
      (ready : locking.stage process = .running)
      (called : locking.lock process mutex = some after) : Step locking after
  | repair {locking : Locking ι μ} {process : ι} {mutex : μ}
      (between : locking.stage process = .repairing mutex) :
      Step locking (locking.repair process mutex)
  | unlock {locking : Locking ι μ} {process : ι} {mutex : μ}
      (ready : locking.stage process = .running) :
      Step locking (locking.unlock process mutex)
  | die {locking : Locking ι μ} {process : ι} (living : locking.stage process ≠ .dead) :
      Step locking (locking.setStage process .dead)

end Locking

end VgcMalloc
