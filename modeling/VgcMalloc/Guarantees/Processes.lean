import VgcMalloc.Guarantees.Contents
import VgcMalloc.Model.Sharing

/-!
# Any number of processes

Any number of processes share the heap, with one list of mappings: they are
threads of one process, or every MMAP is mapped in all of them.  A call of
`vgc_malloc` takes effect in steps: the accesses to `mmapBlockFirst` that are
made without a mutex, and the sections under a mutex.
-/

namespace VgcMalloc

open Program

/-- How far a process is in `vgc_malloc`, with the size that it asks for. -/
inductive Stage where
  | idle
  | testing (size : Nat)
  | creating (size : Nat)
  | storing (size mmapBlock : Nat)
  | retesting (size : Nat)
  | checking (size : Nat)
  | searching (size need : Nat)
  deriving DecidableEq

/-- The test whether the creation has failed, which reads `mmapBlockFirst`
again. -/
def retestFirst : Vgc Bool := do
  let shared ← getShared
  return shared.mmapBlockFirst ≠ mapFailed

/-- What a process does behind the first test, with all of its reads. -/
def prepareStages (present : Bool) : Vgc Bool := do
  if present then
    return true
  let mmapBlock ← createFirst
  storeFirst mmapBlock
  retestFirst

theorem prepareFirst_eq_stages (present : Bool) : prepareFirst present = prepareStages present := by
  cases present with
  | true => rfl
  | false => exact bind_congr fun _ => rfl

/-- A process that takes the steps one after the other, without any other one
in between, runs `vgc_malloc`. -/
theorem vgcMalloc_eq_stages (size : Nat) :
    vgcMalloc size = (do
      let present ← testFirst
      let ready ← prepareStages present
      if !ready then
        return 0
      let checked ← checkSize size
      searchMMAPs checked) := by
  simp only [vgcMalloc_eq_steps, prepareFirst_eq_stages]

/-- The heap with its processes, and the calls and stores that they have
finished, newest first. -/
structure Processes (ι : Type) where
  state : State
  stage : ι → Stage
  trace : List Done

/-- A turn of a process: to call `vgc_malloc`, to take the next step of it, to
call `vgc_free`, or to store a byte.  The stores of `vgc_calloc` and
`vgc_realloc` count as stores of the process. -/
inductive Processes.Turn (ι : Type) where
  | malloc (process : ι) (size : Nat)
  | step (process : ι)
  | free (process : ι) (ptr : Nat)
  | store (process : ι) (address value : Nat)

namespace Processes

variable {ι : Type} [DecidableEq ι]

/-- The process goes on. -/
def reach (all : Processes ι) (process : ι) (stage : Stage) (state : State) : Processes ι :=
  { all with state := state, stage := Function.update all.stage process stage }

/-- The process is done with a deed. -/
def finish (all : Processes ι) (process : ι) (deed : Deed) (result : Nat) (state : State) :
    Processes ι where
  state := state
  stage := Function.update all.stage process .idle
  trace := ⟨all.state, deed, result, state⟩ :: all.trace

/-- The next step of a process in `vgc_malloc`; none when it faults. -/
def advance (env : Env) (all : Processes ι) (process : ι) : Option (Processes ι) :=
  match all.stage process with
  | .idle => none
  | .testing size =>
      (testFirst env all.state).normal.map fun last =>
        all.reach process (if last.1 then .checking size else .creating size) last.2
  | .creating size =>
      (createFirst env all.state).normal.map fun last =>
        all.reach process (.storing size last.1) last.2
  | .storing size mmapBlock =>
      (storeFirst mmapBlock env all.state).normal.map fun last =>
        all.reach process (.retesting size) last.2
  | .retesting size =>
      (retestFirst env all.state).normal.map fun last =>
        if last.1 then all.reach process (.checking size) last.2
        else all.finish process (.call (.malloc size)) 0 last.2
  | .checking size =>
      (checkSize size env all.state).normal.map fun last =>
        match last.1 with
        | none => all.finish process (.call (.malloc size)) 0 last.2
        | some need => all.reach process (.searching size need) last.2
  | .searching size need =>
      (mallocInMMAPs need env all.state).normal.map fun last =>
        all.finish process (.call (.malloc size)) last.1 last.2

/-- The result of a turn; a process starts something new when it is in no
call. -/
def take (env : Env) (all : Processes ι) : Turn ι → Option (Processes ι)
  | .malloc process size =>
      if all.stage process = .idle then some (all.reach process (.testing size) all.state)
      else none
  | .step process => all.advance env process
  | .free process ptr =>
      if all.stage process = .idle then
        (vgcFree ptr env all.state).normal.map fun last =>
          all.finish process (.call (.free ptr)) 0 last.2
      else none
  | .store process address value =>
      if all.stage process = .idle then
        (storeByte address value env all.state).normal.map fun last =>
          all.finish process (.store address value) 0 last.2
      else none

/-- Processes free what resolves to a block in use or is recognised as wrong,
and store to blocks in use.  A live pointer of a whole number of pages need be
neither, and its release can damage the lists. -/
def Lawful (all : Processes ι) : Turn ι → Prop
  | .free _ ptr => all.state.heap.Resolves ptr ∨ all.state.heap.Rejects ptr
  | .store _ address _ => all.state.heap.InPayload address
  | _ => True

instance (all : Processes ι) : (turn : Turn ι) → Decidable (all.Lawful turn)
  | .malloc _ _ => .isTrue trivial
  | .step _ => .isTrue trivial
  | .free _ _ => inferInstanceAs (Decidable (_ ∨ _))
  | .store _ _ _ => inferInstanceAs (Decidable (Heap.InPayload _ _))

/-- The processes after the library has been loaded. -/
def start (pages : MmapPages) (guarded : Bool) : Processes ι :=
  ⟨VgcMalloc.start pages guarded, fun _ => .idle, []⟩

/-- One of the processes takes an allowed turn. -/
def Step (env : Env) (allowed : Processes ι → Turn ι → Prop) (all after : Processes ι) : Prop :=
  ∃ turn, allowed all turn ∧ all.take env turn = some after

/-- Take the turns one after the other, as long as they are allowed. -/
def play (env : Env) (allowed : Processes ι → Turn ι → Prop)
    [∀ all turn, Decidable (allowed all turn)] (all : Processes ι) :
    List (Turn ι) → Option (Processes ι)
  | [] => some all
  | turn :: rest =>
      if allowed all turn then
        (all.take env turn).bind fun after => after.play env allowed rest
      else none

end Processes

end VgcMalloc
