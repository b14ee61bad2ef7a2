import Mathlib.Data.Finset.Basic
import VgcMalloc.Model.Exchange

/-!
# The table of server threads

`startChildMprotect` and `stopChildMprotect` register and remove the server
thread of a process in the table that all processes share.  The table outlives
the processes, so `mprotectDistribute` and `stopMprotect` remove entries of
other processes too; they do it with the descriptors and threads of the process
that they run in.
-/

namespace VgcMalloc

/-! ## Registration -/

/-- The position of the first free slot. -/
def freeChild (children : List DebugChild) : Option Nat :=
  children.findIdx? fun child => child.pid == 0

/-- `findFreeChild` with the position that it returns: the process takes the
first free slot unless it has one. -/
def claimChild (pid : UInt32) (children : List DebugChild) : Option (Nat × List DebugChild) :=
  if isChild pid children then none
  else (freeChild children).map fun pos =>
    (pos, children.modify pos fun child => { child with pid })

theorem takeFreeChild_eq (pid : UInt32) (children : List DebugChild) :
    takeFreeChild pid children = (freeChild children).map fun pos =>
      children.modify pos fun child => { child with pid } := by
  induction children with
  | nil => rfl
  | cons child rest ih =>
      rw [takeFreeChild, freeChild, List.findIdx?_cons]
      by_cases free : child.pid = 0
      · simp [free]
      · rw [if_neg free, if_neg (by simpa using free), ih, freeChild, Option.map_map,
          Option.map_map]
        rfl

/-- The two passes of `findFreeChild`. -/
theorem findFreeChild_eq (pid : UInt32) (children : List DebugChild) :
    findFreeChild pid children = (claimChild pid children).map Prod.snd := by
  unfold findFreeChild claimChild
  split
  · rfl
  · rw [takeFreeChild_eq, Option.map_map]
    rfl

/-- `countChildren`. -/
def countChildren (children : List DebugChild) : Nat :=
  children.countP fun child => child.pid ≠ 0

/-- What has become of the server thread of a slot. -/
inductive SlotEvent where
  | started (slot : Nat)
  | removed (slot : Nat)
  deriving DecidableEq, Repr

/-- The slot that the event is about. -/
def SlotEvent.slot : SlotEvent → Nat
  | started slot => slot
  | removed slot => slot

/-- The table that the processes share, and the threads that were started and
removed so far, newest first. -/
structure ServerTable where
  children : List DebugChild
  isFather : Bool
  history : List SlotEvent

namespace ServerTable

/-- The table after `initChildDebugCorruption`. -/
def empty (maxProcesses : Nat) : ServerTable :=
  ⟨List.replicate maxProcesses ⟨0, 0⟩, false, []⟩

/-- The slot becomes free, and its thread is gone. -/
def remove (table : ServerTable) (pos : Nat) : ServerTable :=
  { table with
    children := table.children.modify pos removeChildThread
    history := .removed pos :: table.history }

/-- `startChildThread`; `created` is the thread that `PTHREAD_create` makes, or
none when it fails. -/
def startChildThread (table : ServerTable) (pos : Nat) (created : Option UInt64) :
    Bool × ServerTable :=
  match created with
  | none => (false, table)
  | some thread =>
      (true, { table with
        children := table.children.modify pos fun child => { child with thread }
        history := .started pos :: table.history })

/-- `startChildDebugCorruption` as called by the process `pid`, with what the
two calls of `PTHREAD_create` would make. -/
def startChildDebugCorruption (table : ServerTable) (pid : UInt32)
    (created createdFather : Option UInt64) : ServerTable :=
  match claimChild pid table.children with
  | none => table
  | some (pos, children) =>
      let (succeeds, table) := { table with children }.startChildThread pos created
      if !succeeds then table
      else if countChildren table.children > 1 ∧ table.isFather = false then
        let table := { table with isFather := true }
        match claimChild pid table.children with
        | none => table
        | some (pos, children) => ({ table with children }.startChildThread pos createdFather).2
      else table

/-- `stopChildDebugCorruption` as called by the process `pid`. -/
def stopChildDebugCorruption (table : ServerTable) (pid : UInt32) : ServerTable :=
  match table.children.findIdx? fun child => child.pid == pid with
  | none => table
  | some pos => table.remove pos

end ServerTable

/-- The slot that the loop of `mprotectDistribute` removes. -/
def removedFrom (network : Nat → Attempt) (block : MProtectBlock) :
    Nat → List DebugChild → Option Nat
  | _, [] => none
  | slot, child :: rest =>
      if child.pid = 0 ∨ child.pid = block.sourcePID then
        (removedFrom network block (slot + 1) rest).map (· + 1)
      else if !(network slot).socket then none
      else if !(network slot).connect then some 0
      else if !(network slot).write then some 0
      else if !(doRead answerSize (network slot).read).1 then some 0
      else (removedFrom network block (slot + 1) rest).map (· + 1)

/-- The loop changes the table in that slot only. -/
theorem distributeFrom_eq (network : Nat → Attempt) (block : MProtectBlock) (slot : Nat)
    (children : List DebugChild) :
    (distributeFrom network block slot children).1 =
      match removedFrom network block slot children with
      | none => children
      | some pos => children.modify pos removeChildThread := by
  have shift : ∀ (child : DebugChild) (rest : List DebugChild) (found : Option Nat),
      (match found.map (· + 1) with
        | none => child :: rest
        | some pos => (child :: rest).modify pos removeChildThread) =
      child :: match found with
        | none => rest
        | some pos => rest.modify pos removeChildThread := by
    intro child rest found
    cases found <;> rfl
  induction children generalizing slot with
  | nil => rfl
  | cons child rest ih =>
      rw [distributeFrom, removedFrom]
      split
      · rw [shift, ← ih]
      split
      · rfl
      split
      · rfl
      split
      · rfl
      split
      · rfl
      · rw [shift, ← ih]

/-! ## Calls of all processes -/

/-- A process id of `getpid`. -/
abbrev ProcessId := { pid : UInt32 // pid ≠ 0 }

/-- A call that concerns the table: one process starts or stops its server, or
distributes a change. -/
inductive TableCall where
  | start (pid : ProcessId) (created createdFather : Option UInt64)
  | stop (pid : ProcessId)
  | distribute (pid : ProcessId) (network : Nat → Attempt) (header : UInt64) (prot : UInt32)

namespace ServerTable

/-- The table after `mprotectDistribute`. -/
def distribute (table : ServerTable) (network : Nat → Attempt) (block : MProtectBlock) :
    ServerTable :=
  match removedFrom network block 0 table.children with
  | none => table
  | some pos => table.remove pos

/-- The entries are those that `mprotectDistribute` leaves. -/
theorem children_distribute (table : ServerTable) (network : Nat → Attempt) (self : UInt32)
    (header : UInt64) (prot : UInt32) :
    (table.distribute network ⟨header, prot, self⟩).children =
      (mprotectDistribute network self header prot table.children).1 := by
  rw [mprotectDistribute, distributeFrom_eq, distribute]
  split <;> rfl

/-- The table after a call. -/
def call (table : ServerTable) : TableCall → ServerTable
  | .start pid created createdFather =>
      table.startChildDebugCorruption pid created createdFather
  | .stop pid => table.stopChildDebugCorruption pid
  | .distribute pid network header prot => table.distribute network ⟨header, prot, pid⟩

/-- The table after calls, one at a time. -/
def after (table : ServerTable) (calls : List TableCall) : ServerTable :=
  calls.foldl call table

end ServerTable

end VgcMalloc
