import VgcMalloc.Model.Network

/-!
# The serving thread

`manageCorruptionThread` from its first `do_accept` on: every connection is a
session, read by the inner loop until one of its exits is taken.  The results
of the calls are given, and the thread is run step by step: one `do_accept`, or
one turn of the inner loop.
-/

namespace VgcMalloc

/-! ## One turn of the inner loop -/

/-- The results of the calls in one turn: of `do_read`, with the record and the
number of bytes that it leaves, of `VGC_mprotect` or `VGC_munprotect`, and of
the `do_write` of an answer. -/
structure TurnResults where
  read : Bool
  block : MProtectBlock
  readBytes : Nat
  applied : Bool
  answered : Bool

/-- The results of a turn whose `do_read` gets this answer of `read`. -/
def Turn.results (turn : Turn) : TurnResults :=
  let (read, buffer, readBytes) := doRead MProtectBlock.sizeof turn.read
  ⟨read, .decode buffer, readBytes, turn.applied, turn.answered⟩

namespace TurnResults

/-- One turn of the inner loop: what the thread does, and whether it leaves the
loop. -/
def serve (pid : UInt32) (results : TurnResults) : List ServerAction × Bool :=
  if !results.read then ([.close], true)
  else if results.readBytes = 0 then ([], false)
  else if pid = results.block.sourcePID then ([], true)
  else if !results.applied then
    if results.block.prot = protNone then ([results.block.change], true)
    else ([results.block.change, .answer 0], true)
  else if !results.answered then ([results.block.change, .answer 1, .close], true)
  else ([results.block.change, .answer 1], false)

/-- The turn brings a record of another process. -/
def Foreign (pid : UInt32) (results : TurnResults) : Prop :=
  results.readBytes ≠ 0 ∧ pid ≠ results.block.sourcePID

/-- The turn takes one of the exits of the inner loop: the read fails, the
record is one of the own process, or the change or its answer fails. -/
def Leaves (pid : UInt32) (results : TurnResults) : Prop :=
  results.read = false ∨ results.readBytes ≠ 0 ∧
    (pid = results.block.sourcePID ∨ results.applied = false ∨ results.answered = false)

/-- The turn takes an exit that closes the descriptor: the read fails, or the
answer to a change cannot be written. -/
def ClosesItself (pid : UInt32) (results : TurnResults) : Prop :=
  results.read = false ∨ results.Foreign pid ∧ results.applied = true ∧ results.answered = false

instance (pid : UInt32) (results : TurnResults) : Decidable (results.Leaves pid) :=
  inferInstanceAs (Decidable (_ ∨ _))

instance (pid : UInt32) (results : TurnResults) : Decidable (results.ClosesItself pid) :=
  inferInstanceAs (Decidable (_ ∨ (_ ∧ _) ∧ _))

end TurnResults

/-- The actions of the inner loop on a connection, with the `close` behind
it. -/
def session (pid : UInt32) : List TurnResults → List ServerAction
  | [] => []
  | results :: rest =>
      let (actions, leaves) := results.serve pid
      actions ++ if leaves then [.close] else session pid rest

/-- The thread that is left with its reads acts as `manageCorruption`. -/
theorem map_manageCorruption (pid : UInt32) (turns : List Turn) :
    (manageCorruption pid turns).map Prod.snd = session pid (turns.map Turn.results) := by
  induction turns with
  | nil => rfl
  | cons turn rest ih =>
      rw [List.map_cons, session, manageCorruption, Turn.results]
      generalize doRead MProtectBlock.sizeof turn.read = outcome
      obtain ⟨read, buffer, readBytes⟩ := outcome
      simp only [TurnResults.serve]
      split
      · rfl
      split
      · simpa using ih
      split
      · rfl
      split
      · split <;> rfl
      split
      · rfl
      · simpa using ih

/-! ## The thread -/

/-- The results of the calls of the thread: the descriptor of each `do_accept`
that succeeds, and the turns of each session. -/
structure ThreadCalls where
  accept : Nat → Option Nat
  turn : Nat → Nat → TurnResults

/-- Where the thread is: before the `do_accept` of a session, before a turn of
its inner loop, or at its end. -/
inductive Place where
  | accepting (session : Nat)
  | looping (session fd turn : Nat)
  | returned
  deriving DecidableEq, Repr

/-- What the thread does with a descriptor. -/
inductive ServerEvent where
  | accepted (fd : Nat)
  | acted (fd : Nat) (action : ServerAction)
  deriving DecidableEq, Repr

/-- The next step of the thread. -/
def ThreadCalls.step (calls : ThreadCalls) (pid : UInt32) : Place → Place × List ServerEvent
  | .accepting session =>
      match calls.accept session with
      | none => (.returned, [])
      | some fd => (.looping session fd 0, [.accepted fd])
  | .looping session fd turn =>
      let (actions, leaves) := (calls.turn session turn).serve pid
      if leaves then
        (.accepting (session + 1), (actions ++ [ServerAction.close]).map (.acted fd))
      else (.looping session fd (turn + 1), actions.map (.acted fd))
  | .returned => (.returned, [])

/-- So many steps of the thread. -/
def ThreadCalls.run (calls : ThreadCalls) (pid : UInt32) : Nat → Place → Place × List ServerEvent
  | 0, place => (place, [])
  | count + 1, place =>
      let (next, events) := calls.step pid place
      let (last, rest) := calls.run pid count next
      (last, events ++ rest)

/-- What a turn brings when its `read` is at the end of the file. -/
def endOfFile : Turn := ⟨.data [], true, true⟩

/-- The calls of a thread whose connections all deliver what their peers have
written and are then at the end of the file. -/
def ThreadCalls.ofConnections (fds : Nat → Nat) (connections : Nat → List Turn) : ThreadCalls where
  accept session := some (fds session)
  turn session index := ((connections session).getD index endOfFile).results

end VgcMalloc
