import Mathlib.Logic.Function.Basic
import VgcMalloc.Model.Client

/-!
# Two processes

Two processes that share the heap call `vgc_malloc` and `vgc_free`.  A call
takes effect in steps, between which the other process can do any number of its
own: the accesses to `mmapBlockFirst` that are made without a mutex, and the
sections under a mutex.  Every section gives back the mutexes that it takes.

There is one list of mappings: every MMAP is mapped in both, as it is when they
are threads of one process, or when the second one is forked after the last
`mmap`.  An MMAP that is mapped after the fork is missing in the other process.
-/

namespace VgcMalloc

open Program

/-! ## The steps of `vgc_malloc` -/

/-- The test whether there is a first MMAP. -/
def testFirst : Vgc Bool := do
  let shared ← getShared
  return shared.mmapBlockFirst ≠ 0

/-- The creation of the first MMAP, which no other process knows yet. -/
def createFirst : Vgc Nat := do
  let shared ← getShared
  mmapBlockAllocate shared.mmapBlockSize 0

/-- The store of the first MMAP. -/
def storeFirst (mmapBlock : Nat) : Vgc Unit :=
  modifyShared fun shared => { shared with mmapBlockFirst := mmapBlock }

/-- The checks of the size, with the read of `maxSize`: the aligned size, or
none when the request is refused. -/
def checkSize (size : Nat) : Vgc (Option Nat) := do
  if size = 0 then
    vgcMessage errorLevel "vgc_malloc" "size" "Warning" "size is zero" []
    return none
  let shared ← getShared
  let size := alignSize shared size
  let first ← readMmapHeader shared.mmapBlockFirst
  if size ≥ first.maxSize then
    vgcMessage errorLevel "vgc_malloc" "size" "Error" "size is too big" [size]
    return none
  return some size

/-- What a process does behind the test. -/
def prepareFirst (present : Bool) : Vgc Bool := do
  if present then
    return true
  let mmapBlock ← createFirst
  storeFirst mmapBlock
  return mmapBlock ≠ mapFailed

/-- What a process does behind the checks. -/
def searchMMAPs : Option Nat → Vgc Nat
  | none => return 0
  | some size => mallocInMMAPs size

theorem getShared_bind {α : Type} (next : Shared → Vgc α) (env : Env) (state : State) :
    (getShared >>= next) env state = next state.heap.shared env state :=
  rfl

theorem initialiseFirstMMAP_eq : initialiseFirstMMAP = testFirst >>= prepareFirst := by
  funext env state
  unfold initialiseFirstMMAP testFirst prepareFirst createFirst storeFirst
  rw [bind_assoc, getShared_bind, getShared_bind]
  by_cases null : state.heap.shared.mmapBlockFirst = 0
  · simp [null, getShared_bind, bind_assoc]
  · simp [null]

/-- A process that takes the steps one after the other, without the other one
in between, runs `vgc_malloc`. -/
theorem vgcMalloc_eq_steps (size : Nat) :
    vgcMalloc size = (do
      let present ← testFirst
      let ready ← prepareFirst present
      if !ready then
        return 0
      let checked ← checkSize size
      searchMMAPs checked) := by
  unfold vgcMalloc
  rw [initialiseFirstMMAP_eq, bind_assoc]
  apply bind_congr
  intro present
  apply bind_congr
  intro ready
  cases ready with
  | false => rfl
  | true =>
      unfold checkSize
      by_cases zero : size = 0
      · simp only [zero, if_true, bind_assoc, pure_bind]
        rfl
      · simp only [zero, if_false, bind_assoc]
        apply bind_congr
        intro shared
        apply bind_congr
        intro first
        by_cases big : alignSize shared size ≥ first.maxSize
        · simp only [big, if_true, bind_assoc, pure_bind]
          rfl
        · simp only [big, if_false, pure_bind]
          rfl

/-! ## The system -/

/-- The two processes. -/
inductive Process where
  | master
  | child
  deriving DecidableEq

/-- How far a process is in `vgc_malloc`: the step that it takes next. -/
inductive CallPhase where
  | idle
  | testing (size : Nat)
  | creating (size : Nat)
  | storing (size mmapBlock : Nat)
  | checking (size : Nat)
  | searching (size : Nat)
  deriving DecidableEq

/-- The heap with its processes.  `granted` records the pointers handed out,
each with the heap in which the shared mutex was given back. -/
structure Sharing where
  state : State
  phase : Process → CallPhase
  granted : List (Nat × Heap)

/-- A move of a process: to call `vgc_malloc`, to take the next step of it, or
to call `vgc_free`. -/
inductive Move where
  | malloc (process : Process) (size : Nat)
  | step (process : Process)
  | free (process : Process) (ptr : Nat)
  deriving DecidableEq

/-- The process goes on with another phase. -/
def Sharing.become (sharing : Sharing) (process : Process) (phase : CallPhase) (state : State) :
    Sharing :=
  { sharing with state := state, phase := Function.update sharing.phase process phase }

/-- Record a pointer that is handed out. -/
def Sharing.grant (sharing : Sharing) (memory : Nat) : Sharing :=
  if memory = 0 then sharing
  else { sharing with granted := (memory, sharing.state.heap) :: sharing.granted }

/-- The next step of a process; none when it faults, or when `mmap` fails in
the creation of the first MMAP. -/
def Sharing.advance (env : Env) (sharing : Sharing) (process : Process) : Option Sharing :=
  match sharing.phase process with
  | .idle => none
  | .testing size =>
      (testFirst env sharing.state).normal.map fun last =>
        sharing.become process (if last.1 then .checking size else .creating size) last.2
  | .creating size =>
      (createFirst env sharing.state).normal.bind fun last =>
        if last.1 = mapFailed then none
        else some (sharing.become process (.storing size last.1) last.2)
  | .storing size mmapBlock =>
      (storeFirst mmapBlock env sharing.state).normal.map fun last =>
        sharing.become process (.checking size) last.2
  | .checking size =>
      (checkSize size env sharing.state).normal.map fun last =>
        sharing.become process (last.1.elim .idle .searching) last.2
  | .searching size =>
      (mallocInMMAPs size env sharing.state).normal.map fun last =>
        (sharing.become process .idle last.2).grant last.1

/-- The result of a move; a process starts a call when it is in no other. -/
def Sharing.move (env : Env) (sharing : Sharing) : Move → Option Sharing
  | .malloc process size =>
      if sharing.phase process = .idle then
        some (sharing.become process (.testing size) sharing.state)
      else none
  | .step process => sharing.advance env process
  | .free process ptr =>
      if sharing.phase process = .idle then
        (vgcFree ptr env sharing.state).normal.map fun last =>
          sharing.become process .idle last.2
      else none

/-- `vgc_free` is called with a pointer that resolves to a block in use or is
recognised as wrong; a live pointer of a whole number of pages need be
neither. -/
def Sharing.Lawful (sharing : Sharing) : Move → Prop
  | .free _ ptr => sharing.state.heap.Resolves ptr ∨ sharing.state.heap.Rejects ptr
  | _ => True

instance (sharing : Sharing) : (move : Move) → Decidable (sharing.Lawful move)
  | .malloc _ _ => .isTrue trivial
  | .step _ => .isTrue trivial
  | .free _ _ => inferInstanceAs (Decidable (_ ∨ _))

/-- The processes after the library has been loaded. -/
def Sharing.start (pages : MmapPages) (isMprotectEnabled : Bool) : Sharing :=
  ⟨VgcMalloc.start pages isMprotectEnabled, fun _ => .idle, []⟩

/-- One of the processes makes an allowed move. -/
def Sharing.Step (env : Env) (allowed : Sharing → Move → Prop) (sharing after : Sharing) : Prop :=
  ∃ move, allowed sharing move ∧ sharing.move env move = some after

/-- Make the moves one after the other, as long as they are allowed. -/
def Sharing.play (env : Env) (allowed : Sharing → Move → Prop)
    [∀ sharing move, Decidable (allowed sharing move)] (sharing : Sharing) :
    List Move → Option Sharing
  | [] => some sharing
  | move :: rest =>
      if allowed sharing move then
        (sharing.move env move).bind fun after => after.play env allowed rest
      else none

end VgcMalloc
