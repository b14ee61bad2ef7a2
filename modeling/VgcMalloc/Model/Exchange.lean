import Mathlib.Logic.Function.Basic
import VgcMalloc.Model.Network

/-!
# The exchange of protection changes

The processes of the build with `VGC_MALLOC_MPROTECT_MP` as a system of
threads.  In every process the calling thread runs `VGC_mprotect` or
`VGC_munprotect`, and one thread serves the connections of its process with
`manageCorruptionThread`.  A thread inside `mprotectDistribute` writes one
record to each peer in turn and waits for its answer before the next one.  All
peers are alive: `socket`, `connect`, `write` and the reads of the two sides
succeed, so that `mprotectDistribute` does not leave its loop early.
-/

namespace VgcMalloc

/-! ## The table -/

/-- The processes that have a slot. -/
def registered (children : List DebugChild) : List UInt32 :=
  (children.map DebugChild.pid).filter fun pid => pid ≠ 0

/-- The processes that `mprotectDistribute` writes to, in order. -/
def recipients (children : List DebugChild) (sender : UInt32) : List UInt32 :=
  (registered children).filter fun pid => pid ≠ sender

/-- The table of processes, none of which has two slots. -/
structure ChildTable where
  children : List DebugChild
  distinct : (registered children).Nodup

theorem registered_cons (child : DebugChild) (rest : List DebugChild) :
    registered (child :: rest) =
      if child.pid = 0 then registered rest else child.pid :: registered rest := by
  by_cases free : child.pid = 0 <;> simp [registered, free]

/-- A free slot that is taken registers the process. -/
theorem takeFreeChild_perm {pid : UInt32} {children taken : List DebugChild} (nonzero : pid ≠ 0)
    (found : takeFreeChild pid children = some taken) :
    (registered taken).Perm (pid :: registered children) := by
  induction children generalizing taken with
  | nil => cases found
  | cons child rest ih =>
      rw [takeFreeChild] at found
      by_cases free : child.pid = 0
      · rw [if_pos free, Option.some.injEq] at found
        subst found
        rw [registered_cons, registered_cons, if_neg nonzero, if_pos free]
      · rw [if_neg free, Option.map_eq_some_iff] at found
        obtain ⟨later, taking, rfl⟩ := found
        rw [registered_cons, registered_cons, if_neg free, if_neg free]
        exact ((ih taking).cons child.pid).trans (.swap ..)

/-- `findFreeChild` gives no process a second slot. -/
theorem nodup_of_findFreeChild {pid : UInt32} {children taken : List DebugChild}
    (nonzero : pid ≠ 0) (found : findFreeChild pid children = some taken)
    (distinct : (registered children).Nodup) : (registered taken).Nodup := by
  rw [findFreeChild] at found
  split at found
  · cases found
  · rename_i new
    have absent : pid ∉ registered children := by
      intro member
      obtain ⟨child, childMem, same⟩ := List.mem_map.mp (List.mem_filter.mp member).1
      exact new (List.any_eq_true.mpr ⟨child, childMem, beq_iff_eq.mpr same⟩)
    rw [(takeFreeChild_perm nonzero found).nodup_iff, List.nodup_cons]
    exact ⟨absent, distinct⟩

/-- Register a process, as `startChildDebugCorruption` does. -/
def ChildTable.register (table : ChildTable) (pid : UInt32) (nonzero : pid ≠ 0) :
    Option ChildTable :=
  match found : findFreeChild pid table.children with
  | none => none
  | some children => some ⟨children, nodup_of_findFreeChild nonzero found table.distinct⟩

/-! ## Threads -/

/-- A thread of a process: its caller, or the one that serves its socket. -/
structure ThreadId where
  pid : UInt32
  serving : Bool
  deriving DecidableEq, Repr

/-- What a thread is doing.  A thread that serves a connection knows the thread
that waits for the answer on it. -/
inductive Activity where
  | idle
  | distributing (block : MProtectBlock) (rest : List UInt32) (client : Option ThreadId)
  | awaiting (block : MProtectBlock) (rest : List UInt32) (client : Option ThreadId)
  | reading (client : ThreadId)
  deriving DecidableEq, Repr

/-- The answer has been read, or the connection was closed: `do_read` succeeds
in both cases, and the loop of `mprotectDistribute` goes on. -/
def Activity.resume : Activity → Activity
  | awaiting block rest client => distributing block rest client
  | other => other

/-- A connection with a record that has not been read. -/
structure Connection where
  client : ThreadId
  block : MProtectBlock
  deriving DecidableEq, Repr

/-- A record on its way: the thread that wrote it and the process it is for. -/
structure Sent where
  thread : ThreadId
  peer : UInt32
  block : MProtectBlock
  deriving DecidableEq, Repr

/-- The state of all threads, the connections that wait for `accept`, oldest
first, and what has been sent and applied so far, newest first. -/
structure Exchange where
  activity : ThreadId → Activity
  waiting : UInt32 → List Connection
  sent : List Sent
  applied : List (UInt32 × MProtectBlock)

namespace Exchange

/-- Change what one thread is doing. -/
def become (exchange : Exchange) (thread : ThreadId) (activity : Activity) : Exchange :=
  { exchange with activity := Function.update exchange.activity thread activity }

/-- Let the client of a connection go on. -/
def resume (exchange : Exchange) (client : ThreadId) : Exchange :=
  exchange.become client (exchange.activity client).resume

/-- Write a record to a new connection of a peer. -/
def write (exchange : Exchange) (thread : ThreadId) (peer : UInt32) (block : MProtectBlock) :
    Exchange :=
  { exchange with
    waiting := Function.update exchange.waiting peer
      (exchange.waiting peer ++ [⟨thread, block⟩])
    sent := ⟨thread, peer, block⟩ :: exchange.sent }

/-- Accept the oldest connection of a process. -/
def accepted (exchange : Exchange) (pid : UInt32) (rest : List Connection) : Exchange :=
  { exchange with waiting := Function.update exchange.waiting pid rest }

/-- The change is made in one process. -/
def apply (exchange : Exchange) (pid : UInt32) (block : MProtectBlock) : Exchange :=
  { exchange with applied := (pid, block) :: exchange.applied }

/-- The body of `VGC_mprotect` and `VGC_munprotect`: when `mprotect` succeeds
in the own process, distribute the change under the own process id. -/
def protect (table : ChildTable) (exchange : Exchange) (thread : ThreadId)
    (block : MProtectBlock) (client : Option ThreadId) : Exchange :=
  exchange.become thread (.distributing { block with sourcePID := thread.pid }
    (recipients table.children thread.pid) client)

/-- What the serving thread does with the record of a connection.  A record of
its own process, and a change that fails, close the connection. -/
def handle (table : ChildTable) (works : UInt32 → Bool) (exchange : Exchange) (pid : UInt32)
    (connection : Connection) : Exchange :=
  if pid = connection.block.sourcePID then
    exchange.resume connection.client
  else if works pid then
    (exchange.apply pid connection.block).protect table ⟨pid, true⟩ connection.block
      (some connection.client)
  else
    exchange.resume connection.client

/-- One step of one thread. -/
inductive Step (table : ChildTable) (works : UInt32 → Bool) : Exchange → Exchange → Prop where
  | send {exchange : Exchange} {thread : ThreadId} {block : MProtectBlock} {peer : UInt32}
      {rest : List UInt32} {client : Option ThreadId}
      (sending : exchange.activity thread = .distributing block (peer :: rest) client) :
      Step table works exchange
        ((exchange.write thread peer block).become thread (.awaiting block rest client))
  | accept {exchange : Exchange} {pid : UInt32} {connection : Connection}
      {rest : List Connection} (free : exchange.activity ⟨pid, true⟩ = .idle)
      (queued : exchange.waiting pid = connection :: rest) :
      Step table works exchange
        ((exchange.accepted pid rest).handle table works pid connection)
  /-- The answer is written.  The client then closes the connection, and the
  loop reads its end of file over and over. -/
  | answer {exchange : Exchange} {thread client : ThreadId} {block : MProtectBlock}
      (done : exchange.activity thread = .distributing block [] (some client)) :
      Step table works exchange ((exchange.resume client).become thread (.reading client))
  | return {exchange : Exchange} {thread : ThreadId} {block : MProtectBlock}
      (done : exchange.activity thread = .distributing block [] none) :
      Step table works exchange (exchange.become thread .idle)

/-- No thread is doing anything. -/
def quiet : Exchange := ⟨fun _ => .idle, fun _ => [], [], []⟩

/-- The system after the calling thread of a process has called `VGC_mprotect`
or `VGC_munprotect`, and before it distributes the change. -/
def called (table : ChildTable) (works : UInt32 → Bool) (caller : UInt32) (header : UInt64)
    (prot : UInt32) : Exchange :=
  if works caller then quiet.protect table ⟨caller, false⟩ ⟨header, prot, caller⟩ none
  else quiet

/-- The exchange after the calling thread of a process has called `VGC_mprotect`
or `VGC_munprotect`, and before it distributes the change. -/
def calls (table : ChildTable) (works : UInt32 → Bool) (exchange : Exchange) (caller : UInt32)
    (header : UInt64) (prot : UInt32) : Exchange :=
  if works caller then exchange.protect table ⟨caller, false⟩ ⟨header, prot, caller⟩ none
  else exchange

/-- One of the callers makes its next call, or a thread takes a step. -/
inductive Act (table : ChildTable) (works : UInt32 → Bool) (callers : List UInt32) :
    Exchange → Exchange → Prop where
  | call {exchange : Exchange} {caller : UInt32} (header : UInt64) (prot : UInt32)
      (member : caller ∈ callers) (free : exchange.activity ⟨caller, false⟩ = .idle) :
      Act table works callers exchange (exchange.calls table works caller header prot)
  | step {exchange after : Exchange} (taken : Step table works exchange after) :
      Act table works callers exchange after

end Exchange

end VgcMalloc
