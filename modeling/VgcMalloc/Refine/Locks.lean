import VgcMalloc.Model.Client
import VgcMalloc.Model.Pthread
import VgcMalloc.Program.Traces
import VgcMalloc.Refine.Actions

/-!
# The order of the mutexes

Whatever memory looks like, a call locks the shared mutex only when it holds
nothing, and the mutex of an MMAP only under the shared one or, while it creates
the first MMAP, alone.  It unlocks what it holds, the shared mutex last, and
returns with nothing held.
-/

namespace VgcMalloc

open Program

/-! ## Mutex calls -/

/-- A mutex call with its answer. -/
abbrev LockEvent : Type := LockCall Mutex × Bool

/-- The mutex call that an action is. -/
def Action.event : Action → Option LockEvent
  | .lock mutex succeeded _ _ => some (.lock mutex, succeeded)
  | .unlock mutex succeeded _ => some (.unlock mutex, succeeded)
  | _ => none

/-- The mutex calls of a thread, newest first. -/
def eventLog (state : State) : List LockEvent := state.actions.filterMap Action.event

namespace LockCall

/-- The call is in order for a thread that holds these mutexes. -/
def InOrder (held : List Mutex) : LockCall Mutex → Prop
  | .lock .shared => held = []
  | .lock (.mmapBlock _) => held = [] ∨ .shared ∈ held
  | .unlock .shared => held = [.shared]
  | .unlock (.mmapBlock address) => .mmapBlock address ∈ held

instance (held : List Mutex) : (call : LockCall Mutex) → Decidable (call.InOrder held)
  | .lock .shared => inferInstanceAs (Decidable (held = []))
  | .lock (.mmapBlock _) => inferInstanceAs (Decidable (held = [] ∨ .shared ∈ held))
  | .unlock .shared => inferInstanceAs (Decidable (held = [.shared]))
  | .unlock (.mmapBlock address) => inferInstanceAs (Decidable (.mmapBlock address ∈ held))

end LockCall

/-- The automaton of the calls that are in order, over the mutexes held. -/
def LockEvent.read (held : List Mutex) (event : LockEvent) : Option (List Mutex) :=
  if event.1.InOrder held ∧ event.2 = event.1.succeeds held then some (event.1.next held) else none

/-- Mutexes are locked and unlocked without errors. -/
structure Env.LocksWork (env : Env) : Prop where
  lock : ∀ call, env.mutexLock call = true
  unlock : ∀ call, env.mutexUnlock call = true

variable {α : Type} {env : Env} {held : List Mutex} {mutex : Mutex}

/-- A program without mutex calls. -/
abbrev Unlocked (program : Vgc α) : Prop := Keeps (fun state => (state.held, eventLog state)) program

/-- All mutex calls of the program are in order. -/
abbrev Orders (program : Vgc α) (env : Env) (held : List Mutex)
    (post : α → List Mutex → Prop) : Prop :=
  Traces eventLog LockEvent.read State.held program env held post

/-! ## Programs without mutexes -/

theorem Quiet.unlocked {program : Vgc α} (quiet : Quiet program) : Unlocked program := by
  intro env state value final ended
  have same := quiet env state value final ended
  simp only [quietPart, Prod.mk.injEq] at same
  simp only [eventLog, same.2.1, same.2.2]

theorem unlocked_vgcMessage {level : Nat} {function title subtitle status : String}
    {args : List Nat} : Unlocked (vgcMessage level function title subtitle status args) :=
  quiet_vgcMessage.unlocked

theorem unlocked_answer (choose : Env → Nat → α) : Unlocked (answer choose) :=
  (quiet_answer choose).unlocked

theorem unlocked_orReport {call : Vgc Bool} {function title status : String}
    (unlocked : Unlocked call) : Unlocked (orReport call function title status) :=
  Keeps.orReport unlocked fun message => (quiet_emit message).unlocked

theorem unlocked_writeMmapField (mmapBlock : Nat) (field : MmapField) (value : Nat) :
    Unlocked (writeMmapField mmapBlock field value) := by
  intro env state result final ended
  unfold writeMmapField at ended
  split at ended
  · cases ended
    rfl
  · cases ended

theorem unlocked_writeMallocField (block : Nat) (field : MallocField) (value : Nat) :
    Unlocked (writeMallocField block field value) := by
  intro env state result final ended
  unfold writeMallocField at ended
  split at ended
  · cases ended
    rfl
  · cases ended

theorem unlocked_writeMallocFields (block : Nat) (fields : List (MallocField × Nat)) :
    Unlocked (writeMallocFields block fields) := by
  induction fields with
  | nil => exact Keeps.pure ()
  | cons first rest ih =>
      apply Keeps.bind (unlocked_writeMallocField block first.1 first.2)
      intro _
      exact ih

theorem unlocked_writeMmapFields (mmapBlock : Nat) (fields : List (MmapField × Nat)) :
    Unlocked (writeMmapFields mmapBlock fields) := by
  induction fields with
  | nil => exact Keeps.pure ()
  | cons first rest ih =>
      apply Keeps.bind (unlocked_writeMmapField mmapBlock first.1 first.2)
      intro _
      exact ih

theorem unlocked_mmap (length : Nat) : Unlocked (mmap length) := by
  intro env state value final ended
  unfold mmap at ended
  simp only at ended
  split at ended
  · split at ended
    · cases ended
      rfl
    · cases ended
      rfl
  · cases ended
    rfl

theorem unlocked_munmap (base length : Nat) : Unlocked (munmap base length) := by
  apply Keeps.bind (unlocked_answer _)
  intro succeeds
  apply Keeps.ite
  · intro env state value final ended
    cases ended
    rfl
  · exact Keeps.pure false

theorem unlocked_mprotect (base length : Nat) (none : Bool) :
    Unlocked (mprotect base length none) := by
  apply Keeps.bind (unlocked_answer _)
  intro succeeds env state value final ended
  simp only at ended
  split at ended
  · cases ended
    rfl
  · cases ended
    rfl

theorem unlocked_doMprotect (page length : Nat) (none : Bool) :
    Unlocked (doMprotect page length none) := by
  apply Keeps.bind (unlocked_mprotect page length none)
  intro succeeds
  apply Keeps.ite
  · exact Keeps.pure true
  · apply Keeps.bind unlocked_vgcMessage
    intro _
    exact Keeps.pure false

theorem unlocked_vgcMprotect (header : Nat) : Unlocked (vgcMprotect header) := by
  apply Keeps.bind keeps_getShared
  intro shared
  exact unlocked_doMprotect header shared.pageSize true

theorem unlocked_vgcMunprotect (header : Nat) : Unlocked (vgcMunprotect header) := by
  apply Keeps.bind keeps_getShared
  intro shared
  exact unlocked_doMprotect header shared.pageSize false

theorem unlocked_memset (target length : Nat) : Unlocked (memset target length) := by
  intro env state value final ended
  unfold memset at ended
  split at ended
  · cases ended
    rfl
  · cases ended

theorem unlocked_memcpy (target source length : Nat) : Unlocked (memcpy target source length) := by
  intro env state value final ended
  unfold memcpy at ended
  split at ended
  · cases ended
    rfl
  · cases ended

theorem unlocked_unmapOrReport (function : String) (mmapBlock : Nat) :
    Unlocked (unmapOrReport function mmapBlock) := by
  apply Keeps.bind (keeps_readMmapHeader mmapBlock)
  intro header
  exact unlocked_orReport (unlocked_munmap mmapBlock header.size)

theorem unlocked_initialiseMMAP (length last mmapBlock : Nat) :
    Unlocked (initialiseMMAP length last mmapBlock) := by
  apply Keeps.bind (unlocked_writeMmapFields _ _)
  intro _
  apply Keeps.bind (Keeps.when (unlocked_writeMmapField _ _ _))
  intro _
  apply Keeps.bind (unlocked_writeMmapFields _ _)
  intro _
  apply Keeps.bind unlocked_vgcMessage
  intro _
  apply Keeps.bind (keeps_readMmapHeader mmapBlock)
  intro header
  apply Keeps.bind (unlocked_writeMallocFields _ _)
  intro _
  apply Keeps.bind (unlocked_vgcMprotect _)
  intro _
  exact Keeps.pure ()

theorem unlocked_grantBlock (mmapBlock block length : Nat) :
    Unlocked (grantBlock mmapBlock block length) := by
  apply Keeps.bind (keeps_readMallocHeader block)
  intro header
  apply Keeps.bind
  · apply Keeps.when
    apply Keeps.bind (unlocked_writeMallocFields _ _)
    intro _
    apply Keeps.bind (unlocked_vgcMprotect _)
    intro _
    exact Keeps.pure ()
  intro _
  apply Keeps.bind (keeps_readMmapHeader mmapBlock)
  intro mmapHeader
  apply Keeps.bind (unlocked_writeMmapField _ _ _)
  intro _
  apply Keeps.bind (unlocked_writeMallocFields _ _)
  intro _
  apply Keeps.bind
  · apply Keeps.when
    apply Keeps.bind (keeps_readMallocHeader _)
    intro nextHeader
    exact Keeps.when (unlocked_writeMallocField _ _ _)
  intro _
  apply Keeps.bind (unlocked_writeMallocFields _ _)
  intro _
  exact Keeps.pure _

theorem unlocked_vgcStacktraceSave (block : Nat) : Unlocked (vgcStacktraceSave block) := by
  apply Keeps.bind (unlocked_answer _)
  intro frames
  apply Keeps.bind (unlocked_writeMallocFields _ _)
  intro _
  exact unlocked_writeMallocFields _ _

theorem unlocked_absorbBlock (keeper gone : Nat) : Unlocked (absorbBlock keeper gone) := by
  apply Keeps.bind (unlocked_vgcMunprotect gone)
  intro _
  apply Keeps.bind (keeps_readMallocHeader keeper)
  intro keeperHeader
  apply Keeps.bind (keeps_readMallocHeader gone)
  intro goneHeader
  apply Keeps.bind (unlocked_writeMallocFields _ _)
  intro _
  exact Keeps.when (unlocked_writeMallocField _ _ _)

theorem unlocked_releaseBlock (block : Nat) : Unlocked (releaseBlock block) := by
  apply Keeps.bind (unlocked_writeMallocField _ _ _)
  intro _
  apply Keeps.bind (unlocked_vgcMunprotect block)
  intro _
  apply Keeps.bind
  · apply Keeps.bind (keeps_readMallocHeader block)
    intro header
    apply Keeps.when
    apply Keeps.bind (keeps_readMallocHeader _)
    intro nextHeader
    exact Keeps.when (unlocked_absorbBlock _ _)
  · intro _
    apply Keeps.bind (keeps_readMallocHeader block)
    intro header
    apply Keeps.when
    apply Keeps.bind (keeps_readMallocHeader _)
    intro prevHeader
    exact Keeps.when (unlocked_absorbBlock _ _)

theorem unlocked_modifyShared (change : Shared → Shared) : Unlocked (modifyShared change) := by
  intro env state value final ended
  cases ended
  rfl

theorem unlocked_readMallocSize (block : Nat) : Unlocked (readMallocSize block) := by
  intro env state value final ended
  unfold readMallocSize at ended
  split at ended
  · cases ended
    rfl
  · cases ended

theorem unlocked_freeMMAP (mmapBlock : Nat) : Unlocked (freeMMAP mmapBlock) := by
  apply Keeps.bind (keeps_readMmapHeader mmapBlock)
  intro header
  apply Keeps.bind unlocked_vgcMessage
  intro _
  apply Keeps.bind (unlocked_modifyShared _)
  intro _
  exact unlocked_unmapOrReport "freeMMAP" mmapBlock

/-! ## Rules for mutexes -/

theorem LockCall.InOrder.mem (order : (LockCall.unlock mutex).InOrder held) : mutex ∈ held := by
  cases mutex with
  | shared =>
      rw [show held = [.shared] from order]
      exact List.mem_cons_self
  | mmapBlock address => exact order

/-- A call in order is read. -/
theorem LockEvent.read_eq {call : LockCall Mutex} (order : call.InOrder held) :
    [(call, call.succeeds held)].foldlM LockEvent.read held = some (call.next held) := by
  rw [List.foldlM_cons, LockEvent.read, if_pos ⟨order, rfl⟩]
  rfl

variable (works : env.LocksWork)

include works

theorem orders_lock (order : (LockCall.lock mutex).InOrder held) :
    Orders (pthreadMutexLock mutex) env held fun value after =>
      value = (LockCall.lock mutex).succeeds held ∧ after = (LockCall.lock mutex).next held := by
  intro state viewEq value final ended
  obtain ⟨succeeds, middle, answered, rest⟩ := bind_eq_ok_iff.mp ended
  cases answered
  subst viewEq
  simp only [works.lock, true_and] at rest
  split at rest
  · split at rest
    · rename_i unheld
      cases rest
      refine ⟨⟨by simpa [LockCall.succeeds] using unheld, (if_neg unheld).symm⟩, [(.lock mutex,
        (LockCall.lock mutex).succeeds state.held)], ?_, ?_⟩
      · simp [eventLog, Action.event, LockCall.succeeds, unheld]
      · exact (LockEvent.read_eq order).trans (congrArg some (if_neg unheld))
    · rename_i known
      have member : mutex ∈ state.held := not_not.mp known
      cases rest
      refine ⟨⟨by simpa [LockCall.succeeds] using member, (if_pos member).symm⟩, [(.lock mutex,
        (LockCall.lock mutex).succeeds state.held)], ?_, ?_⟩
      · simp [eventLog, Action.event, LockCall.succeeds, member]
      · exact (LockEvent.read_eq order).trans (congrArg some (if_pos member))
  · cases rest

/-- A mutex that is not held can be locked. -/
theorem orders_lock_unheld (order : (LockCall.lock mutex).InOrder held) (unheld : mutex ∉ held) :
    Orders (pthreadMutexLock mutex) env held fun value after =>
      value = true ∧ after = mutex :: held := by
  refine (orders_lock works order).mono ?_
  rintro _ _ ⟨rfl, rfl⟩
  exact ⟨decide_eq_true unheld, if_neg unheld⟩

theorem orders_lockShared :
    Orders (pthreadMutexLock .shared) env [] fun value after =>
      value = true ∧ after = [.shared] :=
  orders_lock_unheld works rfl List.not_mem_nil

theorem orders_lockMmapBlock {address : Nat} (order : held = [] ∨ .shared ∈ held)
    (unheld : .mmapBlock address ∉ held) :
    Orders (pthreadMutexLock (.mmapBlock address)) env held fun value after =>
      value = true ∧ after = .mmapBlock address :: held :=
  orders_lock_unheld works order unheld

theorem orders_unlock (order : (LockCall.unlock mutex).InOrder held) :
    Orders (pthreadMutexUnlock mutex) env held fun value after =>
      value = true ∧ after = held.erase mutex := by
  intro state viewEq value final ended
  obtain ⟨succeeds, middle, answered, rest⟩ := bind_eq_ok_iff.mp ended
  cases answered
  subst viewEq
  have member := order.mem
  simp only [works.unlock, true_and, if_pos member] at rest
  split at rest
  · cases rest
    refine ⟨⟨rfl, rfl⟩, [(.unlock mutex, (LockCall.unlock mutex).succeeds state.held)], ?_, ?_⟩
    · simp [eventLog, Action.event, LockCall.succeeds, member]
    · exact LockEvent.read_eq order
  · cases rest

/-- An unlock whose failure would only be reported. -/
theorem orders_orReport_unlock {function title status : String}
    (order : (LockCall.unlock mutex).InOrder held) :
    Orders (orReport (pthreadMutexUnlock mutex) function title status) env held
      fun _ after => after = held.erase mutex := by
  apply Traces.seq (orders_unlock works order)
  rintro _ _ ⟨rfl, rfl⟩
  exact Traces.pure rfl

/-- The mutex of an MMAP that was locked last. -/
theorem orders_orReport_unlockMmapBlock {address : Nat} {function title status : String} :
    Orders (orReport (pthreadMutexUnlock (.mmapBlock address)) function title status) env
      (.mmapBlock address :: held) fun _ after => after = held := by
  refine (orders_orReport_unlock works List.mem_cons_self).mono ?_
  rintro _ _ rfl
  exact List.erase_cons_head ..

/-- The shared mutex, when nothing else is held. -/
theorem orders_orReport_unlockShared {function title status : String} :
    Orders (orReport (pthreadMutexUnlock .shared) function title status) env [.shared]
      fun _ after => after = [] :=
  orders_orReport_unlock works rfl

omit works in
theorem orders_message {β : Type} {level : Nat} {function title subtitle status : String}
    {args : List Nat} {rest : Vgc β} {post : β → List Mutex → Prop}
    (after : Orders rest env held post) :
    Orders (vgcMessage level function title subtitle status args >>= fun _ => rest) env held
      post :=
  unlocked_vgcMessage.traces_seq fun _ => after

/-! ## Allocation -/

theorem orders_allocMMAP {length last : Nat} (unheld : ∀ base, .mmapBlock base ∉ held)
    (order : held = [] ∨ .shared ∈ held) :
    Orders (allocMMAP length last) env held fun _ after => after = held := by
  have unmapped : ∀ mmapBlock, Orders (do
      unmapOrReport "allocMMAP" mmapBlock
      return mapFailed : Vgc Nat) env held fun _ after => after = held := by
    intro mmapBlock
    apply (unlocked_unmapOrReport "allocMMAP" mmapBlock).traces_seq
    intro _
    exact Traces.pure rfl
  unfold allocMMAP
  apply (unlocked_mmap length).traces_seq
  intro mmapBlock
  apply Traces.ite
  · intro _
    exact orders_message (Traces.pure rfl)
  intro _
  apply (unlocked_answer _).traces_seq
  intro attributed
  apply Traces.ite
  · intro _
    exact orders_message (unmapped mmapBlock)
  intro _
  apply (unlocked_answer _).traces_seq
  intro initialised
  apply Traces.ite
  · intro _
    apply orders_message
    apply (unlocked_orReport (unlocked_answer _)).traces_seq
    intro _
    exact unmapped mmapBlock
  intro _
  apply Traces.seq (orders_lockMmapBlock works order (unheld mmapBlock))
  rintro _ _ ⟨rfl, rfl⟩
  apply (unlocked_initialiseMMAP length last mmapBlock).traces_seq
  intro _
  apply Traces.seq (orders_unlock works List.mem_cons_self)
  rintro _ _ ⟨rfl, rfl⟩
  rw [List.erase_cons_head]
  apply (unlocked_modifyShared _).traces_seq
  intro _
  exact Traces.pure rfl

theorem orders_mmapBlockAllocate {length last : Nat} (unheld : ∀ base, .mmapBlock base ∉ held)
    (order : held = [] ∨ .shared ∈ held) :
    Orders (mmapBlockAllocate length last) env held fun _ after => after = held := by
  unfold mmapBlockAllocate
  apply Traces.seq (orders_allocMMAP works unheld order)
  rintro mmapBlock _ rfl
  apply Traces.ite
  · intro _
    exact Traces.pure rfl
  intro _
  apply Traces.seq (orders_allocMMAP works unheld order)
  rintro smaller _ rfl
  apply Keeps.traces_seq (Keeps.when unlocked_vgcMessage)
  intro _
  exact Traces.pure rfl

theorem orders_allocMallocBlock {mmapBlock length : Nat} :
    Orders (allocMallocBlock mmapBlock length) env [.shared] fun _ after => after = [.shared] := by
  unfold allocMallocBlock
  apply Traces.seq (orders_lockMmapBlock works (Or.inr List.mem_cons_self) (by simp))
  rintro _ _ ⟨rfl, rfl⟩
  apply Keeps.traces_seq keeps_findFreeBlock
  intro block
  apply Traces.ite
  · intro _
    apply Traces.seq (orders_orReport_unlockMmapBlock works)
    rintro _ _ rfl
    exact Traces.pure rfl
  intro _
  apply quiet_checkMmapBlock.unlocked.traces_seq
  intro passed
  apply Traces.ite
  · intro _
    apply Traces.seq (orders_orReport_unlockMmapBlock works)
    rintro _ _ rfl
    exact orders_message (Traces.pure rfl)
  intro _
  apply Keeps.traces_seq keeps_getShared
  intro shared
  apply (unlocked_grantBlock _ _ _).traces_seq
  intro granted
  apply (unlocked_vgcStacktraceSave _).traces_seq
  intro _
  apply Traces.seq (orders_orReport_unlockMmapBlock works)
  rintro _ _ rfl
  apply Keeps.traces_seq (keeps_readMmapHeader _)
  intro mmapHeader
  apply orders_message
  apply Keeps.traces_seq (Keeps.when (Keeps.bind (keeps_readMallocHeader _) fun _ =>
    unlocked_vgcMessage))
  intro _
  exact Traces.pure rfl

theorem orders_mallocInList {size fuel mmapBlock last : Nat} :
    Orders (mallocInList size fuel mmapBlock last) env [.shared]
      fun _ after => after = [.shared] := by
  induction fuel generalizing mmapBlock last with
  | zero =>
      intro state _ value final ended
      cases ended
  | succ fuel ih =>
      unfold mallocInList
      apply Traces.ite
      · intro _
        exact Traces.pure rfl
      intro _
      apply Traces.seq (orders_allocMallocBlock works)
      rintro memory _ rfl
      apply Traces.ite
      · intro _
        exact Traces.pure rfl
      intro _
      apply Keeps.traces_seq (keeps_readMmapHeader _)
      intro header
      exact ih

theorem orders_mallocInMMAPs {size : Nat} :
    Orders (mallocInMMAPs size) env [] fun _ after => after = [] := by
  unfold mallocInMMAPs
  apply Traces.seq (orders_lockShared works)
  rintro _ _ ⟨rfl, rfl⟩
  apply Keeps.traces_seq keeps_getShared
  intro shared
  apply Traces.seq (orders_mallocInList works)
  rintro ⟨memory, last⟩ _ rfl
  apply Traces.ite
  · intro _
    apply Traces.seq (orders_orReport_unlockShared works)
    rintro _ _ rfl
    exact Traces.pure rfl
  intro _
  apply Traces.seq (orders_mmapBlockAllocate works (by simp) (Or.inr List.mem_cons_self))
  rintro next _ rfl
  apply Traces.ite
  · intro _
    apply Traces.seq (orders_orReport_unlockShared works)
    rintro _ _ rfl
    exact Traces.pure rfl
  intro _
  apply Traces.seq (orders_allocMallocBlock works)
  rintro memory _ rfl
  apply Traces.seq (orders_orReport_unlockShared works)
  rintro _ _ rfl
  exact Traces.pure rfl

theorem orders_initialiseFirstMMAP :
    Orders initialiseFirstMMAP env [] fun _ after => after = [] := by
  unfold initialiseFirstMMAP
  apply Keeps.traces_seq keeps_getShared
  intro shared
  apply Traces.ite
  · intro _
    exact Traces.pure rfl
  intro none
  apply Traces.seq (orders_mmapBlockAllocate works (by simp) (Or.inl rfl))
  rintro mmapBlock _ rfl
  apply (unlocked_modifyShared _).traces_seq
  intro _
  exact Traces.pure rfl

theorem orders_vgcMalloc {size : Nat} :
    Orders (vgcMalloc size) env [] fun _ after => after = [] := by
  unfold vgcMalloc
  apply Traces.seq (orders_initialiseFirstMMAP works)
  rintro ready _ rfl
  apply Traces.ite
  · intro _
    exact Traces.pure rfl
  intro _
  apply Traces.ite
  · intro _
    exact orders_message (Traces.pure rfl)
  intro _
  apply Keeps.traces_seq keeps_getShared
  intro shared
  apply Keeps.traces_seq (keeps_readMmapHeader _)
  intro header
  apply Traces.ite
  · intro _
    exact orders_message (Traces.pure rfl)
  intro _
  exact orders_mallocInMMAPs works

/-! ## Release -/

theorem orders_unlockShared : Orders unlockShared env [.shared] fun _ after => after = [] :=
  orders_orReport_unlockShared works

theorem orders_unlockMmapBlock {mmapBlock : Nat} :
    Orders (unlockMmapBlock mmapBlock) env (.mmapBlock mmapBlock :: held)
      fun _ after => after = held :=
  orders_orReport_unlockMmapBlock works

/-- Both mutexes are unlocked in front of a report. -/
theorem orders_giveUp {mmapBlock : Nat} {title status : String} :
    Orders (do
      unlockMmapBlock mmapBlock
      unlockShared
      vgcMessage errorLevel "vgc_free" title "Error" status []
      return false : Vgc Bool) env [.mmapBlock mmapBlock, .shared]
        fun value after => value = false ∧ after = [] := by
  apply Traces.seq (orders_unlockMmapBlock works)
  rintro _ _ rfl
  apply Traces.seq (orders_unlockShared works)
  rintro _ _ rfl
  exact orders_message (Traces.pure ⟨rfl, rfl⟩)

/-- The neighbour of an MMAP is locked while a field of it is set; a neighbour
that is the MMAP itself can not be locked. -/
theorem orders_unlinkNeighbour {mmapBlock neighbour : Nat} {store : Vgc Unit}
    {title status : String} (unlocked : Unlocked store) :
    Orders (do
      if !(← pthreadMutexLock (.mmapBlock neighbour)) then
        unlockMmapBlock mmapBlock
        unlockShared
        vgcMessage errorLevel "vgc_free" "PTHREAD_mutexLock" "Error" title []
        return false
      store
      orReport (pthreadMutexUnlock (.mmapBlock neighbour)) "vgc_free" "PTHREAD_mutexUnlock" status
      return true : Vgc Bool) env [.mmapBlock mmapBlock, .shared] fun value after =>
        value = true ∧ after = [.mmapBlock mmapBlock, .shared] ∨ value = false ∧ after = [] := by
  have order : (LockCall.lock (.mmapBlock neighbour)).InOrder [.mmapBlock mmapBlock, .shared] :=
    Or.inr (by simp)
  apply Traces.seq (orders_lock works order)
  rintro _ _ ⟨rfl, rfl⟩
  by_cases itself : Mutex.mmapBlock neighbour ∈ [.mmapBlock mmapBlock, .shared]
  · rw [LockCall.succeeds, decide_eq_false (not_not.mpr itself), LockCall.next, if_pos itself]
    refine (orders_giveUp works).mono ?_
    exact fun _ _ => Or.inr
  · rw [LockCall.succeeds, decide_eq_true itself, LockCall.next, if_neg itself]
    apply unlocked.traces_seq
    intro _
    apply Traces.seq (orders_orReport_unlockMmapBlock works)
    rintro _ _ rfl
    exact Traces.pure (Or.inl ⟨rfl, rfl⟩)

theorem orders_unlinkFromNext {mmapBlock : Nat} :
    Orders (unlinkFromNext mmapBlock) env [.mmapBlock mmapBlock, .shared] fun value after =>
      value = true ∧ after = [.mmapBlock mmapBlock, .shared] ∨ value = false ∧ after = [] := by
  unfold unlinkFromNext
  apply Keeps.traces_seq (keeps_readMmapHeader _)
  intro header
  apply Traces.ite
  · intro _
    exact Traces.pure (Or.inl ⟨rfl, rfl⟩)
  intro _
  exact orders_unlinkNeighbour works (unlocked_writeMmapField _ _ _)

theorem orders_unlinkFromPrev {mmapBlock : Nat} :
    Orders (unlinkFromPrev mmapBlock) env [.mmapBlock mmapBlock, .shared] fun value after =>
      value = true ∧ after = [.mmapBlock mmapBlock, .shared] ∨ value = false ∧ after = [] := by
  unfold unlinkFromPrev
  apply Keeps.traces_seq (keeps_readMmapHeader _)
  intro header
  apply Traces.ite
  · intro _
    exact Traces.pure (Or.inl ⟨rfl, rfl⟩)
  intro _
  exact orders_unlinkNeighbour works (unlocked_writeMmapField _ _ _)

theorem orders_releaseMMAP {mmapBlock : Nat} :
    Orders (releaseMMAP mmapBlock) env [.mmapBlock mmapBlock, .shared]
      fun _ after => after = [] := by
  unfold releaseMMAP
  apply Traces.seq (orders_unlinkFromNext works)
  rintro _ _ (⟨rfl, rfl⟩ | ⟨rfl, rfl⟩)
  · apply Traces.seq (orders_unlinkFromPrev works)
    rintro _ _ (⟨rfl, rfl⟩ | ⟨rfl, rfl⟩)
    · apply Traces.seq (orders_unlockMmapBlock works)
      rintro _ _ rfl
      apply (unlocked_orReport (unlocked_answer _)).traces_seq
      intro _
      apply (unlocked_orReport (unlocked_answer _)).traces_seq
      intro _
      apply (unlocked_freeMMAP mmapBlock).traces_seq
      intro _
      exact orders_unlockShared works
    · exact Traces.pure rfl
  · exact Traces.pure rfl

theorem orders_freeInMmapBlock {ptr mallocBlock mmapBlock : Nat} :
    Orders (freeInMmapBlock ptr mallocBlock mmapBlock) env [.shared] fun _ after => after = [] := by
  unfold freeInMmapBlock
  apply Keeps.traces_seq (keeps_readMmapHeader _)
  intro mmapHeader
  apply (unlocked_writeMmapField _ _ _).traces_seq
  intro _
  apply Keeps.traces_seq (keeps_readMallocHeader _)
  intro header
  apply orders_message
  apply Traces.seq (orders_lockMmapBlock works (Or.inr List.mem_cons_self) (by simp))
  rintro _ _ ⟨rfl, rfl⟩
  apply quiet_checkMmapBlock.unlocked.traces_seq
  intro passed
  apply Traces.ite
  · intro _
    apply Traces.seq (orders_unlockMmapBlock works)
    rintro _ _ rfl
    apply Traces.seq (orders_unlockShared works)
    rintro _ _ rfl
    exact orders_message (Traces.pure rfl)
  intro _
  apply Keeps.traces_seq keeps_getShared
  intro shared
  apply Keeps.traces_seq (Keeps.when unlocked_vgcMessage)
  intro _
  apply (unlocked_releaseBlock mallocBlock).traces_seq
  intro _
  apply Keeps.traces_seq (keeps_readMallocHeader _)
  intro first
  apply Traces.ite
  · intro _
    apply Traces.seq (orders_releaseMMAP works)
    rintro _ _ rfl
    exact Traces.pure rfl
  intro _
  apply Traces.seq (orders_unlockMmapBlock works)
  rintro _ _ rfl
  exact orders_unlockShared works

theorem orders_reportChecksum {title : String} {size ptr checkStart address dumped : Nat} :
    Orders (reportChecksum title size ptr checkStart address dumped) env [.shared]
      fun _ after => after = [] := by
  unfold reportChecksum
  apply Traces.seq (orders_unlockShared works)
  rintro _ _ rfl
  apply orders_message
  apply orders_message
  exact (keeps_dumpMmapBlock fun message => (quiet_emit message).unlocked).traces

theorem orders_vgcFree {ptr : Nat} : Orders (vgcFree ptr) env [] fun _ after => after = [] := by
  unfold vgcFree
  apply Traces.ite
  · intro _
    exact orders_message (Traces.pure rfl)
  intro _
  apply Traces.seq (orders_lockShared works)
  rintro _ _ ⟨rfl, rfl⟩
  apply Keeps.traces_seq keeps_isInMmapBlock
  intro inside
  apply Traces.ite
  · intro _
    apply Traces.seq (orders_unlockShared works)
    rintro _ _ rfl
    exact orders_message (Traces.pure rfl)
  intro _
  apply Keeps.traces_seq keeps_getShared
  intro shared
  apply Keeps.traces_seq (keeps_readMallocHeader _)
  intro header
  apply Traces.ite
  · intro _
    apply Traces.seq (orders_reportChecksum works)
    rintro _ _ rfl
    exact Traces.pure rfl
  intro _
  apply Keeps.traces_seq (keeps_readMmapHeader _)
  intro mmapHeader
  apply Traces.ite
  · intro _
    apply Traces.seq (orders_reportChecksum works)
    rintro _ _ rfl
    exact Traces.pure rfl
  intro _
  exact orders_freeInMmapBlock works

/-! ## Calls -/

theorem orders_vgcCalloc {nmemb size : Nat} :
    Orders (vgcCalloc nmemb size) env [] fun _ after => after = [] := by
  unfold vgcCalloc
  apply Traces.ite
  · intro _
    exact orders_message (Traces.pure rfl)
  intro _
  apply Traces.seq (orders_vgcMalloc works)
  rintro ptr _ rfl
  apply Traces.ite
  · intro _
    exact Traces.pure rfl
  intro _
  apply (unlocked_memset ptr _).traces_seq
  intro _
  exact Traces.pure rfl

theorem orders_vgcRealloc {ptr size : Nat} :
    Orders (vgcRealloc ptr size) env [] fun _ after => after = [] := by
  unfold vgcRealloc
  apply Traces.ite
  · intro _
    apply Traces.seq (Traces.ite (fun _ => orders_vgcFree works) fun _ => Traces.pure rfl)
    rintro _ _ rfl
    exact Traces.pure rfl
  intro _
  apply Traces.ite
  · intro _
    exact orders_vgcMalloc works
  intro _
  apply Traces.seq (orders_vgcMalloc works)
  rintro new _ rfl
  apply Traces.ite
  · intro _
    exact Traces.pure rfl
  intro _
  apply (unlocked_readMallocSize _).traces_seq
  intro oldSize
  apply (unlocked_memcpy _ _ _).traces_seq
  intro _
  apply Traces.seq (orders_vgcFree works)
  rintro _ _ rfl
  exact Traces.pure rfl

/-- Every call of the library has its mutex calls in order. -/
theorem orders_program (call : Call) :
    Orders call.program env [] fun _ after => after = [] := by
  cases call with
  | malloc size => exact orders_vgcMalloc works
  | calloc nmemb size => exact orders_vgcCalloc works
  | realloc ptr size => exact orders_vgcRealloc works
  | free ptr =>
      apply Traces.seq (orders_vgcFree works)
      rintro _ _ rfl
      exact Traces.pure rfl

end VgcMalloc
