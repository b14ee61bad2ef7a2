import VgcMalloc.Guarantees.Delivery
import VgcMalloc.Model.Exchange
import VgcMalloc.Program.Steps

/-!
# Distribution of a protection change

One change of a protection is to reach every other process once and to stop
there.  A thread that applies a change it received calls `VGC_mprotect` or
`VGC_munprotect` like any other, and these distribute the change again under
the process id of the receiver.  So the exchange only stops by itself when at
most one process is registered.
-/

namespace VgcMalloc

open Program Relation

variable {table : ChildTable} {works : UInt32 → Bool} {caller other pid : UInt32}
  {header : UInt64} {prot : UInt32} {exchange after : Exchange}

/-! ## Recipients -/

/-- In a network of live peers `mprotectDistribute` writes to the recipients,
in the order of the table. -/
theorem sent_eq_recipients {network : Nat → Attempt} {sender : UInt32}
    {children : List DebugChild} (alive : ∀ slot, (network slot).Passes) :
    (mprotectDistribute network sender header prot children).2.filterMap
        (fun slot => children[slot]?.map DebugChild.pid) = recipients children sender := by
  have all : ∀ (rest front : List DebugChild),
      (distributeFrom network ⟨header, prot, sender⟩ front.length rest).2.filterMap
          (fun slot => (front ++ rest)[slot]?.map DebugChild.pid) = recipients rest sender := by
    intro rest
    induction rest with
    | nil =>
        intro front
        rfl
    | cons child rest ih =>
        intro front
        have later := ih (front ++ [child])
        rw [List.length_append, List.append_assoc] at later
        change (distributeFrom network ⟨header, prot, sender⟩ (front.length + 1) rest).2.filterMap
          (fun slot => (front ++ child :: rest)[slot]?.map DebugChild.pid) = _ at later
        by_cases peer : child.IsPeer sender
        · obtain ⟨nonzero, different⟩ := not_or.mp peer
          have step := @distributeFrom_pass network ⟨header, prot, sender⟩ rest child front.length
            peer (alive _)
          rw [step, List.filterMap_cons, later]
          simp [recipients, registered, nonzero, different]
        · rw [distributeFrom_skip peer, later]
          rcases not_not.mp peer with zero | same
          · simp [recipients, registered, zero]
          · by_cases zero : child.pid = 0 <;> simp_all [recipients, registered]
  exact all children []

theorem mem_recipients_iff {sender : UInt32} :
    pid ∈ recipients table.children sender ↔ pid ∈ registered table.children ∧ pid ≠ sender := by
  simp [recipients]

/-! ## Activities -/

namespace Exchange

@[simp]
theorem become_activity (exchange : Exchange) (thread target : ThreadId) (activity : Activity) :
    (exchange.become target activity).activity thread =
      if thread = target then activity else exchange.activity thread :=
  Function.update_apply ..

@[simp]
theorem become_waiting (exchange : Exchange) (target : ThreadId) (activity : Activity) :
    (exchange.become target activity).waiting = exchange.waiting :=
  rfl

@[simp]
theorem become_sent (exchange : Exchange) (target : ThreadId) (activity : Activity) :
    (exchange.become target activity).sent = exchange.sent :=
  rfl

@[simp]
theorem become_applied (exchange : Exchange) (target : ThreadId) (activity : Activity) :
    (exchange.become target activity).applied = exchange.applied :=
  rfl

@[simp]
theorem write_activity (exchange : Exchange) (target : ThreadId) (peer : UInt32)
    (block : MProtectBlock) : (exchange.write target peer block).activity = exchange.activity :=
  rfl

@[simp]
theorem accepted_activity (exchange : Exchange) (pid : UInt32) (rest : List Connection) :
    (exchange.accepted pid rest).activity = exchange.activity :=
  rfl

@[simp]
theorem apply_activity (exchange : Exchange) (pid : UInt32) (block : MProtectBlock) :
    (exchange.apply pid block).activity = exchange.activity :=
  rfl

@[simp]
theorem quiet_activity (thread : ThreadId) : quiet.activity thread = .idle :=
  rfl

/-! ## Steps of a system with one busy thread -/

/-- No thread other than this one distributes a change. -/
def OnlyBusy (exchange : Exchange) (thread : ThreadId) : Prop :=
  ∀ busy block rest client, exchange.activity busy = .distributing block rest client →
    busy = thread

/-- No connection waits for a thread that is free. -/
def NothingWaits (exchange : Exchange) : Prop :=
  ∀ pid, exchange.activity ⟨pid, true⟩ = .idle → exchange.waiting pid = []

theorem step_send {thread : ThreadId} {block : MProtectBlock} {peer : UInt32}
    {rest : List UInt32} {client : Option ThreadId}
    (sending : exchange.activity thread = .distributing block (peer :: rest) client)
    (only : exchange.OnlyBusy thread) (none : exchange.NothingWaits)
    (taken : Step table works exchange after) :
    after = (exchange.write thread peer block).become thread (.awaiting block rest client) := by
  cases taken with
  | send busy =>
      obtain rfl := only _ _ _ _ busy
      cases sending.symm.trans busy
      rfl
  | accept free queued => cases (none _ free).symm.trans queued
  | answer busy =>
      obtain rfl := only _ _ _ _ busy
      cases sending.symm.trans busy
  | «return» busy =>
      obtain rfl := only _ _ _ _ busy
      cases sending.symm.trans busy

theorem step_accept {connection : Connection}
    (idle : ∀ thread block rest client,
      exchange.activity thread ≠ .distributing block rest client)
    (queued : exchange.waiting pid = [connection])
    (only : ∀ pid', exchange.activity ⟨pid', true⟩ = .idle → pid' ≠ pid →
      exchange.waiting pid' = [])
    (taken : Step table works exchange after) :
    after = (exchange.accepted pid []).handle table works pid connection := by
  cases taken with
  | send busy => exact absurd busy (idle _ _ _ _)
  | @accept pid' _ _ free waits =>
      by_cases same : pid' = pid
      · subst same
        cases queued.symm.trans waits
        rfl
      · cases (only _ free same).symm.trans waits
  | answer busy => exact absurd busy (idle _ _ _ _)
  | «return» busy => exact absurd busy (idle _ _ _ _)

theorem step_answer {thread client : ThreadId} {block : MProtectBlock}
    (done : exchange.activity thread = .distributing block [] (some client))
    (only : exchange.OnlyBusy thread) (none : exchange.NothingWaits)
    (taken : Step table works exchange after) :
    after = (exchange.resume client).become thread (.reading client) := by
  cases taken with
  | send busy =>
      obtain rfl := only _ _ _ _ busy
      cases done.symm.trans busy
  | accept free queued => cases (none _ free).symm.trans queued
  | answer busy =>
      obtain rfl := only _ _ _ _ busy
      cases done.symm.trans busy
      rfl
  | «return» busy =>
      obtain rfl := only _ _ _ _ busy
      cases done.symm.trans busy

theorem step_return {thread : ThreadId} {block : MProtectBlock}
    (done : exchange.activity thread = .distributing block [] none)
    (only : exchange.OnlyBusy thread) (none : exchange.NothingWaits)
    (taken : Step table works exchange after) : after = exchange.become thread .idle := by
  cases taken with
  | send busy =>
      obtain rfl := only _ _ _ _ busy
      cases done.symm.trans busy
  | accept free queued => cases (none _ free).symm.trans queued
  | answer busy =>
      obtain rfl := only _ _ _ _ busy
      cases done.symm.trans busy
  | «return» busy =>
      obtain rfl := only _ _ _ _ busy
      rfl

theorem stuck_of_idle
    (idle : ∀ thread block rest client,
      exchange.activity thread ≠ .distributing block rest client)
    (none : exchange.NothingWaits) : Stuck (Step table works) exchange := by
  intro after taken
  cases taken with
  | send busy => exact idle _ _ _ _ busy
  | accept free queued => cases (none _ free).symm.trans queued
  | answer busy => exact idle _ _ _ _ busy
  | «return» busy => exact idle _ _ _ _ busy

theorem stuck_quiet : Stuck (Step table works) quiet := by
  apply stuck_of_idle
  · intro thread block rest client busy
    cases busy
  · intro pid free
    rfl

/-! ## Applied changes -/

/-- Changes are only applied where the kernel grants them. -/
theorem applied_works
    (reach : ReflTransGen (Step table works) (called table works caller header prot) exchange) :
    ∀ entry ∈ exchange.applied, works entry.1 = true := by
  refine invariant_of_reach (fun exchange => ∀ entry ∈ exchange.applied, works entry.1 = true)
    ?_ ?_ reach
  · have empty : (called table works caller header prot).applied = [] := by
      unfold called
      split <;> rfl
    rw [empty]
    exact fun entry member => absurd member List.not_mem_nil
  · intro before after good taken
    cases taken with
    | send sending => exact good
    | answer done => exact good
    | «return» done => exact good
    | @accept pid connection rest free queued =>
        unfold handle
        split
        · exact good
        · split
          · rename_i granted
            intro entry member
            rcases List.mem_cons.mp member with rfl | old
            · exact granted
            · exact good entry old
          · exact good

end Exchange

open Exchange

/-! ## One change -/

/-- The call ends, only its own thread writes records, and in the end every
other process has been sent the change once and has applied it once. -/
structure ExactlyOnce (table : ChildTable) (works : UInt32 → Bool) (caller : UInt32)
    (header : UInt64) (prot : UInt32) : Prop where
  ends : Ends (Step table works) (called table works caller header prot)
  onlyCaller : ∀ exchange,
    ReflTransGen (Step table works) (called table works caller header prot) exchange →
      ∀ message ∈ exchange.sent, message.thread = ⟨caller, false⟩
  told : ∀ exchange,
    ReflTransGen (Step table works) (called table works caller header prot) exchange →
      Stuck (Step table works) exchange → ∀ pid ∈ recipients table.children caller,
        exchange.sent.filter (fun message => message.peer = pid) =
            [⟨⟨caller, false⟩, pid, ⟨header, prot, caller⟩⟩] ∧
          exchange.applied.filter (fun entry => entry.1 = pid) =
            [(pid, ⟨header, prot, caller⟩)]

/-- At most one process is registered, and the kernel grants the change in the
caller and in that process. -/
def AtMostOneRegistered (table : ChildTable) (works : UInt32 → Bool) (caller : UInt32) : Prop :=
  (registered table.children).length ≤ 1 ∧
    ∀ pid ∈ recipients table.children caller, works caller = true ∧ works pid = true

/-! ## Nobody else is registered -/

/-- Without recipients the call returns at once. -/
theorem exactlyOnce_of_nobody (nobody : recipients table.children caller = []) :
    ExactlyOnce table works caller header prot := by
  have told : ∀ exchange : Exchange, ∀ pid ∈ recipients table.children caller,
      exchange.sent.filter (fun message => message.peer = pid) =
          [⟨⟨caller, false⟩, pid, ⟨header, prot, caller⟩⟩] ∧
        exchange.applied.filter (fun entry => entry.1 = pid) =
          [(pid, ⟨header, prot, caller⟩)] := by
    intro exchange pid member
    rw [nobody] at member
    exact absurd member List.not_mem_nil
  have silent : ∀ message ∈ quiet.sent, message.thread = ⟨caller, false⟩ :=
    fun message member => absurd member List.not_mem_nil
  cases granted : works caller with
  | false =>
      have start : called table works caller header prot = quiet := by
        rw [called, granted, if_neg Bool.false_ne_true]
      refine ⟨?_, ?_, fun exchange _ _ => told exchange⟩
      · rw [start]
        exact .of_stuck stuck_quiet
      · rw [start]
        intro exchange reach
        rw [reach_of_stuck stuck_quiet reach]
        exact silent
  | true =>
      have start : called table works caller header prot =
          quiet.become ⟨caller, false⟩ (.distributing ⟨header, prot, caller⟩ [] none) := by
        rw [called, granted, if_pos rfl, protect, nobody]
      have idle :
          (quiet.become ⟨caller, false⟩ (.distributing ⟨header, prot, caller⟩ [] none)).become
          ⟨caller, false⟩ .idle = quiet := by
        have same : ((quiet.become ⟨caller, false⟩
            (.distributing ⟨header, prot, caller⟩ [] none)).become
              ⟨caller, false⟩ .idle).activity = quiet.activity := by
          funext thread
          by_cases own : thread = ⟨caller, false⟩ <;> simp [own]
        exact congrArg (fun activity => Exchange.mk activity _ _ _) same
      have returns : ∀ after, Step table works (called table works caller header prot) after →
          after = quiet := by
        intro after taken
        rw [start] at taken
        have done : (quiet.become ⟨caller, false⟩
            (.distributing ⟨header, prot, caller⟩ [] none)).activity ⟨caller, false⟩ =
              .distributing ⟨header, prot, caller⟩ [] none := by
          simp
        refine (step_return done ?_ ?_ taken).trans idle
        · intro busy block rest client distributing
          by_contra own
          simp [own] at distributing
        · intro pid free
          rfl
      refine ⟨.of_only returns (.of_stuck stuck_quiet), ?_, fun exchange _ _ => told exchange⟩
      intro exchange reach
      rcases reach_of_only returns reach with rfl | rest
      · rw [start]
        exact silent
      · rw [reach_of_stuck stuck_quiet rest]
        exact silent

/-! ## One other process is registered -/

/-- The states that a change runs through when one other process is registered:
the call, the record written, the record accepted, its answer, the return. -/
inductive Phase where
  | called
  | written
  | accepted
  | answered
  | returned

namespace Phase

variable (caller other : UInt32) (block : MProtectBlock)

/-- The caller is about to write its record. -/
def calledExchange : Exchange :=
  quiet.become ⟨caller, false⟩ (.distributing block [other] none)

/-- The record waits for the other process. -/
def writtenExchange : Exchange :=
  ((calledExchange caller other block).write ⟨caller, false⟩ other block).become
    ⟨caller, false⟩ (.awaiting block [] none)

/-- The other process has applied the change and has nobody to tell. -/
def acceptedExchange : Exchange :=
  (((writtenExchange caller other block).accepted other []).apply other block).become
    ⟨other, true⟩ (.distributing { block with sourcePID := other } [] (some ⟨caller, false⟩))

/-- The other process has answered. -/
def answeredExchange : Exchange :=
  ((acceptedExchange caller other block).resume ⟨caller, false⟩).become ⟨other, true⟩
    (.reading ⟨caller, false⟩)

/-- The state of the system in a phase. -/
def system : Phase → Exchange
  | called => calledExchange caller other block
  | written => writtenExchange caller other block
  | accepted => acceptedExchange caller other block
  | answered => answeredExchange caller other block
  | returned => (answeredExchange caller other block).become ⟨caller, false⟩ .idle

/-- What the calling thread does in a phase. -/
def client : Phase → Activity
  | called => .distributing block [other] none
  | written | accepted => .awaiting block [] none
  | answered => .distributing block [] none
  | returned => .idle

/-- What the serving thread of the other process does in a phase. -/
def server : Phase → Activity
  | called | written => .idle
  | accepted => .distributing { block with sourcePID := other } [] (some ⟨caller, false⟩)
  | answered | returned => .reading ⟨caller, false⟩

variable {caller other block}

theorem activity_eq (phase : Phase) (thread : ThreadId) :
    (system caller other block phase).activity thread =
      if thread = ⟨other, true⟩ then server caller other block phase
      else if thread = ⟨caller, false⟩ then client other block phase else .idle := by
  cases phase <;> by_cases serving : thread = ⟨other, true⟩ <;>
    by_cases calling : thread = ⟨caller, false⟩ <;>
      simp [system, calledExchange, writtenExchange, acceptedExchange, answeredExchange, client,
        server, Exchange.resume, Activity.resume, serving, calling]

theorem waiting_eq (phase : Phase) (pid : UInt32) :
    (system caller other block phase).waiting pid =
      match phase with
      | written => if pid = other then [⟨⟨caller, false⟩, block⟩] else []
      | _ => [] := by
  cases phase <;> by_cases same : pid = other <;>
    simp [system, calledExchange, writtenExchange, acceptedExchange, answeredExchange,
      Exchange.resume, Exchange.write, Exchange.accepted, Exchange.apply, quiet, same]

theorem sent_eq (phase : Phase) :
    (system caller other block phase).sent =
      match phase with
      | called => []
      | _ => [⟨⟨caller, false⟩, other, block⟩] := by
  cases phase <;> rfl

/-- A thread that distributes is one of the two. -/
theorem distributing_cases {phase : Phase} {thread : ThreadId} {record : MProtectBlock}
    {rest : List UInt32} {waiter : Option ThreadId}
    (busy : (system caller other block phase).activity thread =
      .distributing record rest waiter) :
    (thread = ⟨other, true⟩ ∧ server caller other block phase = .distributing record rest waiter) ∨
      thread = ⟨caller, false⟩ ∧ client other block phase = .distributing record rest waiter := by
  rw [activity_eq] at busy
  split at busy
  · exact Or.inl ⟨‹_›, busy⟩
  · split at busy
    · exact Or.inr ⟨‹_›, busy⟩
    · cases busy

/-- Only the calling thread is busy while the serving thread is not. -/
theorem onlyBusy_client {phase : Phase}
    (none : ∀ record rest waiter,
      server caller other block phase ≠ .distributing record rest waiter) :
    (system caller other block phase).OnlyBusy ⟨caller, false⟩ := by
  intro busy record rest waiter distributing
  rcases distributing_cases distributing with ⟨_, serving⟩ | ⟨same, _⟩
  · exact absurd serving (none _ _ _)
  · exact same

theorem called_sending : (system caller other block called).activity ⟨caller, false⟩ =
    .distributing block [other] none := by
  rw [activity_eq]
  simp [client]

theorem written_free : (system caller other block written).activity ⟨other, true⟩ = .idle := by
  rw [activity_eq, if_pos rfl]
  rfl

theorem written_queued : (system caller other block written).waiting other =
    [⟨⟨caller, false⟩, block⟩] := by
  rw [waiting_eq]
  exact if_pos rfl

theorem accepted_done : (system caller other block accepted).activity ⟨other, true⟩ =
    .distributing { block with sourcePID := other } [] (some ⟨caller, false⟩) := by
  rw [activity_eq, if_pos rfl]
  rfl

theorem answered_done : (system caller other block answered).activity ⟨caller, false⟩ =
    .distributing block [] none := by
  rw [activity_eq]
  simp [client]

theorem step_called {after : Exchange}
    (taken : Step table works (system caller other block called) after) :
    after = system caller other block written := by
  have only : (system caller other block called).OnlyBusy ⟨caller, false⟩ := by
    apply onlyBusy_client
    intro record rest waiter serving
    cases serving
  have none : (system caller other block called).NothingWaits :=
    fun pid _ => waiting_eq called pid
  exact step_send called_sending only none taken

theorem step_written {after : Exchange} (nobody : recipients table.children other = [])
    (otherWorks : works other = true) (foreign : other ≠ block.sourcePID)
    (taken : Step table works (system caller other block written) after) :
    after = system caller other block accepted := by
  have handled : ((system caller other block written).accepted other []).handle table works
      other ⟨⟨caller, false⟩, block⟩ = system caller other block accepted := by
    rw [handle, if_neg foreign, if_pos otherWorks, protect, nobody]
    rfl
  have idle : ∀ thread record rest waiter, (system caller other block written).activity thread ≠
      .distributing record rest waiter := by
    intro thread record rest waiter distributing
    rcases distributing_cases distributing with ⟨_, serving⟩ | ⟨_, calling⟩
    · cases serving
    · cases calling
  have alone : ∀ pid, (system caller other block written).activity ⟨pid, true⟩ = .idle →
      pid ≠ other → (system caller other block written).waiting pid = [] := by
    intro pid _ different
    rw [waiting_eq]
    exact if_neg different
  rw [← handled]
  exact step_accept idle written_queued alone taken

theorem step_accepted {after : Exchange}
    (taken : Step table works (system caller other block accepted) after) :
    after = system caller other block answered := by
  have only : (system caller other block accepted).OnlyBusy ⟨other, true⟩ := by
    intro busy record rest waiter distributing
    rcases distributing_cases distributing with ⟨same, _⟩ | ⟨_, calling⟩
    · exact same
    · cases calling
  have none : (system caller other block accepted).NothingWaits :=
    fun pid _ => waiting_eq accepted pid
  exact step_answer accepted_done only none taken

theorem step_answered {after : Exchange}
    (taken : Step table works (system caller other block answered) after) :
    after = system caller other block returned := by
  have only : (system caller other block answered).OnlyBusy ⟨caller, false⟩ := by
    apply onlyBusy_client
    intro record rest waiter serving
    cases serving
  have none : (system caller other block answered).NothingWaits :=
    fun pid _ => waiting_eq answered pid
  exact step_return answered_done only none taken

/-- The exchange does not get stuck before the call returns. -/
theorem eq_returned_of_stuck {phase : Phase}
    (stuck : Stuck (Step table works) (system caller other block phase)) : phase = returned := by
  cases phase with
  | called => exact absurd (.send called_sending) (stuck _)
  | written => exact absurd (.accept written_free written_queued) (stuck _)
  | accepted => exact absurd (.answer accepted_done) (stuck _)
  | answered => exact absurd (.return answered_done) (stuck _)
  | returned => rfl

theorem stuck_returned : Stuck (Step table works) (system caller other block returned) := by
  apply stuck_of_idle
  · intro thread record rest waiter distributing
    rcases distributing_cases distributing with ⟨_, serving⟩ | ⟨_, calling⟩
    · cases serving
    · cases calling
  · intro pid _
    exact waiting_eq returned pid

end Phase

/-- The call with one recipient, which has no recipients itself: the record is
written, accepted and answered, and the call returns. -/
theorem exactlyOnce_of_single (single : recipients table.children caller = [other])
    (nobody : recipients table.children other = []) (callerWorks : works caller = true)
    (otherWorks : works other = true) (different : other ≠ caller) :
    ExactlyOnce table works caller header prot := by
  have start : called table works caller header prot =
      Phase.system caller other ⟨header, prot, caller⟩ .called := by
    rw [called, callerWorks, if_pos rfl, protect, single]
    rfl
  have written : ∀ after, Step table works
      (Phase.system caller other ⟨header, prot, caller⟩ .written) after →
        after = Phase.system caller other ⟨header, prot, caller⟩ .accepted :=
    fun _ => Phase.step_written nobody otherWorks different
  have phases : ∀ exchange,
      ReflTransGen (Step table works) (called table works caller header prot) exchange →
        ∃ phase : Phase, exchange = Phase.system caller other ⟨header, prot, caller⟩ phase := by
    intro exchange reach
    rw [start] at reach
    rcases reach_of_only (fun _ => Phase.step_called) reach with same | reach
    · exact ⟨_, same⟩
    rcases reach_of_only written reach with same | reach
    · exact ⟨_, same⟩
    rcases reach_of_only (fun _ => Phase.step_accepted) reach with same | reach
    · exact ⟨_, same⟩
    rcases reach_of_only (fun _ => Phase.step_answered) reach with same | reach
    · exact ⟨_, same⟩
    · exact ⟨_, reach_of_stuck Phase.stuck_returned reach⟩
  refine ⟨?_, ?_, ?_⟩
  · rw [start]
    exact .of_only (fun _ => Phase.step_called) (.of_only written (.of_only
      (fun _ => Phase.step_accepted) (.of_only (fun _ => Phase.step_answered)
        (.of_stuck Phase.stuck_returned))))
  · intro exchange reach message member
    obtain ⟨phase, rfl⟩ := phases exchange reach
    rw [Phase.sent_eq] at member
    cases phase with
    | called => exact absurd member List.not_mem_nil
    | _ => rw [List.mem_singleton.mp member]
  · intro exchange reach stuck pid member
    rw [single, List.mem_singleton] at member
    subst member
    obtain ⟨phase, rfl⟩ := phases exchange reach
    obtain rfl := Phase.eq_returned_of_stuck stuck
    constructor
    · rw [Phase.sent_eq]
      simp
    · have applied : (Phase.system caller pid ⟨header, prot, caller⟩ .returned).applied =
          [(pid, ⟨header, prot, caller⟩)] := rfl
      rw [applied]
      simp

/-! ## The general case -/

/-- All of the distinct registered processes are the same one. -/
theorem length_registered_le_one (only : ∀ pid ∈ registered table.children, pid = other) :
    (registered table.children).length ≤ 1 := by
  have distinct := table.distinct
  cases pids : registered table.children with
  | nil => exact Nat.zero_le 1
  | cons first rest =>
      rw [pids] at only distinct
      rw [List.forall_mem_cons] at only
      cases rest with
      | nil => exact Nat.le_refl 1
      | cons second rest =>
          have repeated : second = first := (only.2 second List.mem_cons_self).trans only.1.symm
          rw [repeated, List.nodup_cons] at distinct
          exact absurd List.mem_cons_self distinct.1

/-- The state in which the caller waits for the first of its recipients. -/
def firstWritten (caller first : UInt32) (rest : List UInt32) (block : MProtectBlock) : Exchange :=
  ((quiet.become ⟨caller, false⟩ (.distributing block (first :: rest) none)).write
    ⟨caller, false⟩ first block).become ⟨caller, false⟩ (.awaiting block rest none)

/-- A change that is distributed exactly once is applied by the first recipient,
and nobody else is registered. -/
theorem ExactlyOnce.of_cons {first : UInt32} {rest : List UInt32}
    (once : ExactlyOnce table works caller header prot)
    (found : recipients table.children caller = first :: rest) :
    works caller = true ∧ works first = true ∧
      ∀ pid ∈ registered table.children, pid = first := by
  obtain ⟨ends, onlyCaller, told⟩ := once
  have member : first ∈ recipients table.children caller := by
    rw [found]
    exact List.mem_cons_self
  have foreign : first ≠ caller := (mem_recipients_iff.mp member).2
  obtain ⟨last, reachLast, stuckLast⟩ := ends.exists_stuck
  obtain ⟨sentLast, appliedLast⟩ := told last reachLast stuckLast first member
  have firstWorks : works first = true := by
    have entry : (first, MProtectBlock.mk header prot caller) ∈
        last.applied.filter fun entry => entry.1 = first := by
      rw [appliedLast]
      exact List.mem_cons_self
    exact applied_works reachLast _ (List.mem_filter.mp entry).1
  have callerWorks : works caller = true := by
    by_contra refused
    have start : called table works caller header prot = quiet := if_neg refused
    obtain ⟨sent, _⟩ := told quiet (start ▸ .refl) stuck_quiet first member
    cases sent
  refine ⟨callerWorks, firstWorks, ?_⟩
  have start : called table works caller header prot = quiet.become ⟨caller, false⟩
      (.distributing ⟨header, prot, caller⟩ (first :: rest) none) := by
    rw [called, callerWorks, if_pos rfl, protect, found]
  have written : Step table works (called table works caller header prot)
      (firstWritten caller first rest ⟨header, prot, caller⟩) := by
    rw [start]
    apply Step.send
    simp
  have free : (firstWritten caller first rest ⟨header, prot, caller⟩).activity ⟨first, true⟩ =
      .idle := by
    simp [firstWritten]
  have queued : (firstWritten caller first rest ⟨header, prot, caller⟩).waiting first =
      [⟨⟨caller, false⟩, ⟨header, prot, caller⟩⟩] := by
    simp [firstWritten, Exchange.write, quiet]
  have accepted := @Step.accept table works _ _ _ _ free queued
  rw [handle, if_neg foreign, if_pos firstWorks] at accepted
  cases again : recipients table.children first with
  | nil =>
      intro pid isRegistered
      by_contra different
      have recipient := mem_recipients_iff.mpr ⟨isRegistered, different⟩
      rw [again] at recipient
      exact absurd recipient List.not_mem_nil
  | cons peer more =>
      -- the first recipient tells the next process of the change it was told of
      rw [protect, again] at accepted
      obtain ⟨middle, taken, busy⟩ : ∃ middle, Step table works
          (firstWritten caller first rest ⟨header, prot, caller⟩) middle ∧
            middle.activity ⟨first, true⟩ =
              .distributing ⟨header, prot, first⟩ (peer :: more) (some ⟨caller, false⟩) :=
        ⟨_, accepted, by simp⟩
      have forwarded : Step table works middle _ := .send busy
      have forwarder := onlyCaller _ (((ReflTransGen.single written).tail taken).tail forwarded)
        ⟨⟨first, true⟩, peer, ⟨header, prot, first⟩⟩ List.mem_cons_self
      cases forwarder

/-- The exchange is exactly once exactly when at most one process is
registered. -/
theorem exactlyOnce_iff_atMostOneRegistered :
    ExactlyOnce table works caller header prot ↔ AtMostOneRegistered table works caller := by
  constructor
  · intro once
    cases found : recipients table.children caller with
    | nil =>
        constructor
        · apply @length_registered_le_one table caller
          intro pid isRegistered
          by_contra different
          have recipient := mem_recipients_iff.mpr ⟨isRegistered, different⟩
          rw [found] at recipient
          exact absurd recipient List.not_mem_nil
        · intro pid member
          rw [found] at member
          exact absurd member List.not_mem_nil
    | cons first rest =>
        obtain ⟨callerWorks, firstWorks, only⟩ := once.of_cons found
        refine ⟨length_registered_le_one only, ?_⟩
        intro pid member
        rw [only pid (mem_recipients_iff.mp member).1]
        exact ⟨callerWorks, firstWorks⟩
  · rintro ⟨few, granted⟩
    cases found : recipients table.children caller with
    | nil => exact exactlyOnce_of_nobody found
    | cons first rest =>
        have member : first ∈ recipients table.children caller := by
          rw [found]
          exact List.mem_cons_self
        obtain ⟨isRegistered, different⟩ := mem_recipients_iff.mp member
        obtain ⟨callerWorks, firstWorks⟩ := granted first member
        have alone : registered table.children = [first] := by
          obtain ⟨pid, same⟩ := List.length_eq_one_iff.mp
            (Nat.le_antisymm few (List.length_pos_of_mem isRegistered))
          rw [same, List.mem_singleton] at isRegistered
          rw [same, isRegistered]
        have single : recipients table.children caller = [first] := by
          simp [recipients, alone, different]
        have nobody : recipients table.children first = [] := by
          simp [recipients, alone]
        exact exactlyOnce_of_single single nobody callerWorks firstWorks different

/-- Two processes are registered and one of them protects a header: the other
one sends the change back. -/
theorem not_exactlyOnce_of_pair :
    ¬∀ table works caller header prot, (∀ pid, works pid = true) →
      ExactlyOnce table works caller header prot := by
  intro claim
  have once := claim ⟨[⟨1, 11⟩, ⟨2, 12⟩], by decide⟩ (fun _ => true) 1 0x10001000 protNone
    (fun _ => rfl)
  have found : recipients [⟨1, 11⟩, ⟨2, 12⟩] 1 = [2] := by decide
  obtain ⟨_, _, only⟩ := once.of_cons found
  have same := only 1 (by decide)
  revert same
  decide

end VgcMalloc
