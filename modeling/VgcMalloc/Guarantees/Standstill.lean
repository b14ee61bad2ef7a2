import VgcMalloc.Guarantees.Distribution
import Mathlib.Algebra.Order.BigOperators.Group.List
import Mathlib.Algebra.Order.Ring.Nat

/-!
# The exchange comes to a standstill

When two or more processes are registered and the kernel grants every change,
whoever is told of a change distributes it again and waits for an answer.  All
of the peers are waiting too in the end: no call of `VGC_mprotect` or
`VGC_munprotect` ever returns, in any order of the steps.
-/

namespace VgcMalloc

open Program Relation

variable {table : ChildTable} {works : UInt32 → Bool} {callers : List UInt32} {pid : UInt32}
  {exchange after later : Exchange} {thread : ThreadId}

namespace Exchange

/-- The exchange never gets anywhere: all runs end, a thread that has begun is
never done, no thread writes a second record, and no process is told of a second
change. -/
structure Standstill (table : ChildTable) (works : UInt32 → Bool) (callers : List UInt32)
    (exchange : Exchange) : Prop where
  ends : Ends (Act table works callers) exchange
  busy : ∀ later, ReflTransGen (Act table works callers) exchange later →
    ∀ thread, exchange.activity thread ≠ .idle → later.activity thread ≠ .idle
  waits : Stuck (Act table works callers) exchange → ∀ caller ∈ callers, ∃ block rest,
    exchange.activity ⟨caller, false⟩ = .awaiting block rest none
  written : (exchange.sent.map Sent.thread).Nodup
  applied : (exchange.applied.map Prod.fst).Nodup

/-! ## The invariant -/

/-- The threads that may have something to do. -/
def threads (table : ChildTable) (callers : List UInt32) : List ThreadId :=
  callers.map (fun caller => ⟨caller, false⟩) ++
    (registered table.children).map fun pid => ⟨pid, true⟩

/-- What a thread can be doing before anything has been answered: a thread that
distributes has not written anything yet, and only calling threads have nobody
to answer. -/
inductive Unanswered (table : ChildTable) (sent : List ThreadId) (thread : ThreadId) :
    Activity → Prop where
  | idle (none : thread ∉ sent) : Unanswered table sent thread .idle
  | distributing {block : MProtectBlock} {rest : List UInt32} {client : Option ThreadId}
      (none : thread ∉ sent) (all : rest = recipients table.children thread.pid)
      (own : block.sourcePID = thread.pid) (calling : thread.serving = false → client = .none) :
      Unanswered table sent thread (.distributing block rest client)
  | awaiting {block : MProtectBlock} {rest : List UInt32} {client : Option ThreadId}
      (calling : thread.serving = false → client = .none) :
      Unanswered table sent thread (.awaiting block rest client)

/-- Nothing has been answered. -/
structure Clogged (table : ChildTable) (callers : List UInt32) (exchange : Exchange) : Prop where
  activity : ∀ thread, Unanswered table (exchange.sent.map Sent.thread) thread
    (exchange.activity thread)
  known : ∀ thread, exchange.activity thread ≠ .idle → thread ∈ threads table callers
  foreign : ∀ pid, ∀ connection ∈ exchange.waiting pid,
    pid ∈ registered table.children ∧ pid ≠ connection.block.sourcePID
  written : (exchange.sent.map Sent.thread).Nodup
  told : ∀ entry ∈ exchange.applied, exchange.activity ⟨entry.1, true⟩ ≠ .idle
  applied : (exchange.applied.map Prod.fst).Nodup

theorem clogged_quiet : Clogged table callers quiet where
  activity _ := .idle List.not_mem_nil
  known _ busy := absurd rfl busy
  foreign _ _ waits := absurd waits List.not_mem_nil
  written := List.nodup_nil
  told _ member := absurd member List.not_mem_nil
  applied := List.nodup_nil

/-- With two processes registered everyone has somebody to tell. -/
theorem recipients_ne_nil (two : 2 ≤ (registered table.children).length) (sender : UInt32) :
    recipients table.children sender ≠ [] := by
  intro nobody
  have only : ∀ pid ∈ registered table.children, pid = sender := by
    intro pid member
    by_contra different
    have recipient := mem_recipients_iff.mpr ⟨member, different⟩
    rw [nobody] at recipient
    exact absurd recipient List.not_mem_nil
  have few := length_registered_le_one only
  omega

/-- So no thread is ever done with its distribution. -/
theorem Clogged.not_done {block : MProtectBlock} {client : Option ThreadId}
    (inv : Clogged table callers exchange) (two : 2 ≤ (registered table.children).length) :
    exchange.activity thread ≠ .distributing block [] client := by
  intro done
  have state := inv.activity thread
  rw [done] at state
  cases state with
  | distributing _ all _ _ => exact recipients_ne_nil two thread.pid all.symm

/-! ## What is left to do -/

/-- The steps that are left for a thread, unless it is resumed. -/
def stepsLeft : Activity → Nat
  | .idle => 2
  | .distributing _ _ _ => 1
  | _ => 0

/-- The steps that are left for all threads. -/
def left (table : ChildTable) (callers : List UInt32) (exchange : Exchange) : Nat :=
  ((threads table callers).map fun thread => stepsLeft (exchange.activity thread)).sum

/-- A thread that takes one of its steps makes less of them. -/
theorem left_become {activity : Activity} (member : thread ∈ threads table callers)
    (fewer : stepsLeft activity < stepsLeft (exchange.activity thread)) :
    left table callers (exchange.become thread activity) < left table callers exchange := by
  refine List.sum_lt_sum _ _ ?_ ⟨thread, member, ?_⟩
  · intro other _
    rw [become_activity]
    split
    · rename_i same
      rw [same]
      exact Nat.le_of_lt fewer
    · exact Nat.le_refl _
  · rw [become_activity, if_pos rfl]
    exact fewer

/-! ## One step -/

/-- A thread that begins to distribute keeps the exchange clogged. -/
theorem Clogged.protect {block : MProtectBlock} {client : Option ThreadId}
    (inv : Clogged table callers exchange) (free : exchange.activity thread = .idle)
    (member : thread ∈ threads table callers)
    (calling : thread.serving = false → client = .none) :
    Clogged table callers (exchange.protect table thread block client) ∧
      left table callers (exchange.protect table thread block client) <
        left table callers exchange := by
  have silent : thread ∉ exchange.sent.map Sent.thread := by
    have state := inv.activity thread
    rw [free] at state
    cases state with
    | idle none => exact none
  refine ⟨⟨?_, ?_, inv.foreign, inv.written, ?_, inv.applied⟩, ?_⟩
  · intro other
    simp only [Exchange.protect, become_activity, become_sent]
    split
    · rename_i same
      subst same
      exact .distributing silent rfl rfl calling
    · exact inv.activity other
  · intro other busy
    simp only [Exchange.protect, become_activity] at busy
    split at busy
    · rename_i same
      exact same ▸ member
    · exact inv.known other busy
  · intro entry told
    simp only [Exchange.protect, become_activity]
    split
    · exact Activity.noConfusion
    · exact inv.told entry told
  · apply left_become member
    rw [free]
    exact Nat.lt_succ_self 1

/-- A change that a busy process has been told of for the first time. -/
theorem Clogged.apply {block : MProtectBlock} (inv : Clogged table callers exchange)
    (busy : exchange.activity ⟨pid, true⟩ ≠ .idle)
    (new : pid ∉ exchange.applied.map Prod.fst) :
    Clogged table callers (exchange.apply pid block) :=
  ⟨inv.activity, inv.known, inv.foreign, inv.written,
    List.forall_mem_cons.mpr ⟨busy, inv.told⟩, List.nodup_cons.mpr ⟨new, inv.applied⟩⟩

theorem Clogged.accepted {connection : Connection} {rest : List Connection}
    (inv : Clogged table callers exchange)
    (queued : exchange.waiting pid = connection :: rest) :
    Clogged table callers (exchange.accepted pid rest) := by
  refine ⟨inv.activity, inv.known, ?_, inv.written, inv.told, inv.applied⟩
  intro other later waits
  by_cases same : other = pid
  · subst same
    simp only [Exchange.accepted, Function.update_self] at waits
    exact inv.foreign other later (by rw [queued]; exact List.mem_cons_of_mem _ waits)
  · simp only [Exchange.accepted, Function.update_of_ne same] at waits
    exact inv.foreign other later waits

/-- The record that a thread writes is its only one. -/
theorem Clogged.send {block : MProtectBlock} {peer : UInt32} {rest : List UInt32}
    {client : Option ThreadId} (inv : Clogged table callers exchange)
    (sending : exchange.activity thread = .distributing block (peer :: rest) client) :
    Clogged table callers
        ((exchange.write thread peer block).become thread (.awaiting block rest client)) ∧
      left table callers
          ((exchange.write thread peer block).become thread (.awaiting block rest client)) <
        left table callers exchange := by
  have state := inv.activity thread
  have member : thread ∈ threads table callers :=
    inv.known thread (by rw [sending]; exact Activity.noConfusion)
  rw [sending] at state
  cases state with
  | distributing silent all own calling =>
      have recipient : peer ∈ recipients table.children thread.pid := by
        rw [← all]
        exact List.mem_cons_self
      obtain ⟨isRegistered, different⟩ := mem_recipients_iff.mp recipient
      refine ⟨⟨?_, ?_, ?_, ?_, ?_, inv.applied⟩, ?_⟩
      · intro other
        rw [become_activity]
        split
        · rename_i same
          subst same
          exact .awaiting calling
        · rename_i different
          have fresh : ∀ sent : List ThreadId, other ∉ sent → other ∉ thread :: sent :=
            fun sent none => by simp [different, none]
          have before := inv.activity other
          rw [write_activity]
          generalize exchange.activity other = activity at before
          cases before with
          | idle none => exact .idle (fresh _ none)
          | distributing none all own calling => exact .distributing (fresh _ none) all own calling
          | awaiting calling => exact .awaiting calling
      · intro other busy
        rw [become_activity] at busy
        split at busy
        · rename_i same
          exact same ▸ member
        · exact inv.known other busy
      · intro other connection waits
        by_cases same : other = peer
        · subst same
          simp only [become_waiting, Exchange.write, Function.update_self] at waits
          rcases List.mem_append.mp waits with old | new
          · exact inv.foreign other connection old
          · rw [List.mem_singleton.mp new]
            exact ⟨isRegistered, own ▸ different⟩
        · simp only [become_waiting, Exchange.write, Function.update_of_ne same] at waits
          exact inv.foreign other connection waits
      · exact List.nodup_cons.mpr ⟨silent, inv.written⟩
      · intro entry told
        rw [become_activity]
        split
        · exact Activity.noConfusion
        · exact inv.told entry told
      · apply left_become member
        rw [write_activity, sending]
        exact Nat.one_pos

/-- Every step keeps the exchange clogged and leaves fewer to take. -/
theorem Clogged.act (inv : Clogged table callers exchange)
    (two : 2 ≤ (registered table.children).length) (granted : ∀ pid, works pid = true)
    (taken : Act table works callers exchange after) :
    Clogged table callers after ∧ left table callers after < left table callers exchange := by
  cases taken with
  | @call caller header prot member free =>
      have known : ⟨caller, false⟩ ∈ threads table callers :=
        List.mem_append_left _ (List.mem_map.mpr ⟨caller, member, rfl⟩)
      rw [calls, if_pos (granted caller)]
      exact inv.protect free known fun _ => rfl
  | step taken =>
      cases taken with
      | send sending => exact inv.send sending
      | answer done => exact absurd done (inv.not_done two)
      | «return» done => exact absurd done (inv.not_done two)
      | @accept pid connection rest free queued =>
          have foreign := inv.foreign pid connection (by rw [queued]; exact List.mem_cons_self)
          have known : ⟨pid, true⟩ ∈ threads table callers :=
            List.mem_append_right _ (List.mem_map.mpr ⟨pid, foreign.1, rfl⟩)
          have new : pid ∉ exchange.applied.map Prod.fst := by
            intro member
            obtain ⟨entry, told, same⟩ := List.mem_map.mp member
            exact inv.told entry told (same ▸ free)
          obtain ⟨begun, fewer⟩ := @Clogged.protect _ _ _ _ connection.block
            (some connection.client) (inv.accepted queued) free known (by simp)
          rw [handle, if_neg foreign.2, if_pos (granted pid)]
          refine ⟨begun.apply ?_ new, fewer⟩
          simp [Exchange.protect]

/-- A thread that has begun is not done after the step either. -/
theorem Clogged.busy (inv : Clogged table callers exchange)
    (two : 2 ≤ (registered table.children).length) (granted : ∀ pid, works pid = true)
    (taken : Act table works callers exchange after)
    (busy : exchange.activity thread ≠ .idle) : after.activity thread ≠ .idle := by
  have become : ∀ (other : ThreadId) (activity : Activity), activity ≠ .idle →
      (if thread = other then activity else exchange.activity thread) ≠ .idle := by
    intro other activity begun
    split
    · exact begun
    · exact busy
  cases taken with
  | @call caller header prot member free =>
      rw [calls, if_pos (granted caller), Exchange.protect, become_activity]
      exact become _ _ Activity.noConfusion
  | step taken =>
      cases taken with
      | send sending =>
          rw [become_activity, write_activity]
          exact become _ _ Activity.noConfusion
      | answer done => exact absurd done (inv.not_done two)
      | «return» done => exact absurd done (inv.not_done two)
      | @accept pid connection rest free queued =>
          have foreign := inv.foreign pid connection (by rw [queued]; exact List.mem_cons_self)
          rw [handle, if_neg foreign.2, if_pos (granted pid), Exchange.protect, become_activity]
          exact become _ _ Activity.noConfusion

/-! ## Runs -/

/-- Where two processes are registered and the kernel grants every change, no
call of `VGC_mprotect` or `VGC_munprotect` ever returns, in any order of any
calls.  All registered processes are alive and every call on a socket succeeds:
the error exits of `mprotectDistribute`, which let a call return, are not
taken. -/
theorem standstill_of_reach (two : 2 ≤ (registered table.children).length)
    (granted : ∀ pid, works pid = true)
    (reach : ReflTransGen (Act table works callers) quiet exchange) :
    Standstill table works callers exchange := by
  have inv : Clogged table callers exchange := invariant_of_reach (Clogged table callers)
    clogged_quiet (fun _ _ inv taken => (inv.act two granted taken).1) reach
  refine ⟨?_, ?_, ?_, inv.written, inv.applied⟩
  · exact Ends.of_measure (Clogged table callers) (left table callers)
      (fun _ _ inv taken => inv.act two granted taken) inv
  · intro later rest thread busy
    have both : Clogged table callers later ∧ later.activity thread ≠ .idle :=
      invariant_of_reach
        (fun exchange => Clogged table callers exchange ∧ exchange.activity thread ≠ .idle)
        ⟨inv, busy⟩ (fun _ _ both taken => ⟨(both.1.act two granted taken).1,
          both.1.busy two granted taken both.2⟩) rest
    exact both.2
  · intro stuck caller member
    have state := inv.activity ⟨caller, false⟩
    generalize activity : exchange.activity ⟨caller, false⟩ = what at state
    cases state with
    | idle none => exact absurd (.call 0 0 member activity) (stuck _)
    | @distributing block rest client none all own calling =>
        cases rest with
        | nil => exact absurd activity (inv.not_done two)
        | cons peer rest => exact absurd (.step (.send activity)) (stuck _)
    | @awaiting block rest client calling => exact ⟨block, rest, by rw [calling rfl]⟩

/-- The change of one process is told to the other one, which tells it back, and
both of them wait. -/
theorem standstill_of_reach_sample :
    ∃ exchange, ReflTransGen (Act ⟨[⟨1, 11⟩, ⟨2, 12⟩], by decide⟩ (fun _ => true) [1]) quiet
        exchange ∧ exchange.sent.map Sent.thread = [⟨1, false⟩] ∧
      Standstill ⟨[⟨1, 11⟩, ⟨2, 12⟩], by decide⟩ (fun _ => true) [1] exchange := by
  have called := @Act.call ⟨[⟨1, 11⟩, ⟨2, 12⟩], by decide⟩ (fun _ => true) [1] quiet 1 0x10001000
    protNone List.mem_cons_self rfl
  have found : recipients [⟨1, 11⟩, ⟨2, 12⟩] 1 = [2] := by decide
  rw [calls, if_pos rfl, Exchange.protect, found] at called
  have sent := (ReflTransGen.single called).tail (.step (.send (Function.update_self ..)))
  exact ⟨_, sent, rfl, standstill_of_reach (by decide) (fun _ => rfl) sent⟩

end Exchange

end VgcMalloc
