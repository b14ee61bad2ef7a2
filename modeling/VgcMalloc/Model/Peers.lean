import Mathlib.Data.Finset.Basic
import VgcMalloc.Model.Children

/-!
# Descriptors and threads of peers

An entry of the table names a socket and a thread of the process that it stands
for.  `removeChildThread` closes and cancels them in the process that it runs
in, where the same numbers may stand for something else.  For a thread handle
that is none of its own, the standard leaves `pthread_cancel` and `pthread_join`
undefined: they may report `ESRCH`, and they may end the process.
-/

namespace VgcMalloc

/-- `VGC_mallocDebugChild` with the descriptor of its socket. -/
structure PeerSlot extends DebugChild where
  socketFD : Nat
  deriving DecidableEq, Repr

/-- The open descriptors and the running threads of a process. -/
structure Resources where
  descriptors : Finset Nat
  threads : Finset UInt64

/-- The table that all processes share, and what each of them has. -/
structure PeerWorld where
  slots : List PeerSlot
  resources : UInt32 → Resources

/-- What the processes rely on.  `newFD` chooses the descriptor of a new socket,
never one that is open.  `stranger` is what `PTHREAD_cancel` and `PTHREAD_join`
make of a handle that is no running thread of the process: what the process has
afterwards, or none when it dies of it.  It gets nothing new from them. -/
structure Kernel where
  newFD : Finset Nat → Nat
  fresh : ∀ descriptors, newFD descriptors ∉ descriptors
  stranger : UInt64 → Resources → Option Resources
  loses : ∀ thread own left, stranger thread own = some left →
    left.descriptors ⊆ own.descriptors ∧ left.threads ⊆ own.threads

namespace PeerWorld

/-- Change what one process has. -/
def change (world : PeerWorld) (self : UInt32) (effect : Resources → Resources) : PeerWorld :=
  { world with
    resources := Function.update world.resources self (effect (world.resources self)) }

/-- A descriptor of the process is opened. -/
def openFD (world : PeerWorld) (self : UInt32) (fd : Nat) : PeerWorld :=
  world.change self fun own => { own with descriptors := insert fd own.descriptors }

/-- `close`; a descriptor that is not open in the process is an error. -/
def closeFD (world : PeerWorld) (self : UInt32) (fd : Nat) : PeerWorld :=
  world.change self fun own => { own with descriptors := own.descriptors.erase fd }

/-- `PTHREAD_cancel` and `PTHREAD_join`: a thread of the process ends. -/
def cancel (kernel : Kernel) (world : PeerWorld) (self : UInt32) (thread : UInt64) :
    Option PeerWorld :=
  if thread ∈ (world.resources self).threads then
    some (world.change self fun own => { own with threads := own.threads.erase thread })
  else
    (kernel.stranger thread (world.resources self)).map fun left => world.change self fun _ => left

/-- The slot becomes free. -/
def clear (world : PeerWorld) (pos : Nat) : PeerWorld :=
  { world with slots := world.slots.modify pos fun child => { child with pid := 0, thread := 0 } }

/-- `removeChildThread` in the process `self`; none when the process dies. -/
def removeChildThread (kernel : Kernel) (world : PeerWorld) (self : UInt32) (pos : Nat)
    (child : PeerSlot) : Option PeerWorld :=
  (world.cancel kernel self child.thread).map fun world =>
    (world.clear pos).closeFD self child.socketFD

/-- The loop of `mprotectDistribute` in the process `self` over the slots at
these positions, and the slot that it removes. -/
def distributeOver (kernel : Kernel) (network : Nat → Attempt) (self : UInt32) :
    List Nat → PeerWorld → Option PeerWorld × Option Nat
  | [], world => (some world, none)
  | pos :: rest, world =>
      match world.slots[pos]? with
      | none => (some world, none)
      | some child =>
          if child.pid = 0 ∨ child.pid = self then
            distributeOver kernel network self rest world
          else if !(network pos).socket then (some world, none)
          else
            let fd := kernel.newFD (world.resources self).descriptors
            let closed := (world.openFD self fd).closeFD self fd
            if !(network pos).connect then
              (closed.removeChildThread kernel self pos child, some pos)
            else if !(network pos).write then
              (closed.removeChildThread kernel self pos child, some pos)
            else if !(doRead answerSize (network pos).read).1 then
              (closed.removeChildThread kernel self pos child, some pos)
            else distributeOver kernel network self rest closed

/-- `mprotectDistribute` in the process `self`. -/
def mprotectDistribute (kernel : Kernel) (network : Nat → Attempt) (self : UInt32)
    (world : PeerWorld) : Option PeerWorld × Option Nat :=
  distributeOver kernel network self (List.range world.slots.length) world

end PeerWorld

/-- The removal of an entry, with the world before it, and after it unless the
process dies. -/
structure Removal where
  pos : Nat
  before : PeerWorld
  after : Option PeerWorld

namespace PeerWorld

/-- The loop of `stopMprotect` in the process `self` over the slots at these
positions, and the entries of other processes that it removes. -/
def stopOver (kernel : Kernel) (self : UInt32) :
    List Nat → PeerWorld → Option PeerWorld × List Removal
  | [], world => (some world, [])
  | pos :: rest, world =>
      match world.slots[pos]? with
      | none => (some world, [])
      | some child =>
          if child.pid = 0 then stopOver kernel self rest world
          else if child.pid ≠ self then
            match world.removeChildThread kernel self pos child with
            | none => (none, [⟨pos, world, none⟩])
            | some after =>
                let (last, removals) := stopOver kernel self rest after
                (last, ⟨pos, world, some after⟩ :: removals)
          else stopOver kernel self rest ((world.clear pos).closeFD self child.socketFD)

/-- `stopMprotect` in the process `self`. -/
def stopMprotect (kernel : Kernel) (self : UInt32) (world : PeerWorld) :
    Option PeerWorld × List Removal :=
  stopOver kernel self (List.range world.slots.length) world

end PeerWorld

/-- A call that removes entries of other processes. -/
inductive PeerCall where
  | distribute (network : Nat → Attempt)
  | stop

/-- The removals that a call of the process `self` makes.  A distribution makes
at most one, at its end. -/
def PeerWorld.removals (world : PeerWorld) (kernel : Kernel) (self : UInt32) :
    PeerCall → List Removal
  | .distribute network =>
      let (after, removed) := world.mprotectDistribute kernel network self
      removed.toList.map fun pos => ⟨pos, world, after⟩
  | .stop => (world.stopMprotect kernel self).2

end VgcMalloc
