import VgcMalloc.Program.Record
import VgcMalloc.Refine.Calls

/-!
# What the programs do on the way

Reading, reporting and asking the environment leave heap, mutexes and the
record of actions as they are; every store, change of protection and mutex
call is recorded.
-/

namespace VgcMalloc

open Program

variable {α : Type} {env : Env} {heap : Heap} {held : List Mutex}

/-! ## Parts that reading and reporting keep -/

section Reports

variable {X : Type} {part : State → X}

theorem keeps_getShared : Keeps part getShared := by
  intro env state value final ended
  cases ended
  rfl

theorem keeps_diverge : Keeps part (diverge : Vgc α) := by
  intro env state value final ended
  cases ended

theorem keeps_readMmapHeader (mmapBlock : Nat) : Keeps part (readMmapHeader mmapBlock) := by
  intro env state value final ended
  unfold readMmapHeader at ended
  split at ended
  · cases ended
    rfl
  · cases ended

theorem keeps_readMallocHeader (block : Nat) : Keeps part (readMallocHeader block) := by
  intro env state value final ended
  unfold readMallocHeader at ended
  split at ended
  · cases ended
    rfl
  · cases ended

theorem keeps_readMallocFields (fields : List MallocField) (block : Nat) :
    Keeps part (readMallocFields fields block) := by
  intro env state value final ended
  unfold readMallocFields at ended
  split at ended
  · cases ended
    rfl
  · cases ended

theorem keeps_isFreeBlock (length block : Nat) : Keeps part (isFreeBlock length block) := by
  apply Keeps.bind (keeps_readMallocFields _ block)
  intro header
  apply Keeps.ite
  · exact Keeps.bind (keeps_readMallocFields _ block) fun _ => Keeps.pure _
  · exact Keeps.pure false

theorem keeps_findFreeBlock {length fuel block : Nat} :
    Keeps part (findFreeBlock length fuel block) := by
  induction fuel generalizing block with
  | zero => exact keeps_diverge
  | succ fuel ih =>
      rw [findFreeBlock]
      apply Keeps.ite (Keeps.pure 0)
      apply Keeps.bind (keeps_isFreeBlock length block)
      intro fits
      apply Keeps.ite (Keeps.pure block)
      apply Keeps.bind (keeps_readMallocFields _ block)
      intro header
      exact ih

theorem keeps_isInMmapBlockFrom {ptr fuel mmapBlock : Nat} :
    Keeps part (isInMmapBlockFrom ptr fuel mmapBlock) := by
  induction fuel generalizing mmapBlock with
  | zero => exact keeps_diverge
  | succ fuel ih =>
      rw [isInMmapBlockFrom]
      apply Keeps.ite (Keeps.pure false)
      apply Keeps.bind keeps_getShared
      intro shared
      apply Keeps.ite (Keeps.pure true)
      apply Keeps.bind (keeps_readMmapHeader mmapBlock)
      intro header
      exact ih

theorem keeps_isInMmapBlock {ptr : Nat} : Keeps part (isInMmapBlock ptr) := by
  apply Keeps.bind keeps_getShared
  intro shared
  exact keeps_isInMmapBlockFrom

/-- A call that is only reported when it fails keeps what the call keeps. -/
theorem Keeps.orReport {call : Vgc Bool} {function title status : String}
    (kept : Keeps part call) (message : ∀ text, Keeps part (emit text)) :
    Keeps part (orReport call function title status) := by
  apply Keeps.bind kept
  intro succeeds
  apply Keeps.ite
  · exact Keeps.pure ()
  · exact message _

theorem keeps_dumpBlocks {fuel index block : Nat} {totals : Totals}
    (message : ∀ text, Keeps part (emit text)) :
    Keeps part (dumpBlocks fuel index block totals) := by
  induction fuel generalizing index block totals with
  | zero => exact keeps_diverge
  | succ fuel ih =>
      rw [dumpBlocks]
      apply Keeps.ite
      · exact Keeps.pure totals
      · apply Keeps.bind (keeps_readMallocFields _ block)
        intro header
        apply Keeps.bind (message _)
        intro _
        exact ih

theorem keeps_dumpMmapBlock {str desc : String} {mmapBlock : Nat}
    (message : ∀ text, Keeps part (emit text)) :
    Keeps part (dumpMmapBlock str mmapBlock desc) := by
  unfold dumpMmapBlock
  apply Keeps.ite
  · exact Keeps.pure ()
  · apply Keeps.bind (message _)
    intro _
    apply Keeps.bind (message _)
    intro _
    apply Keeps.bind (keeps_dumpBlocks message)
    intro totals
    apply Keeps.bind keeps_getShared
    intro shared
    apply Keeps.bind (message _)
    intro _
    apply Keeps.bind (message _)
    intro _
    apply Keeps.bind (message _)
    intro _
    apply Keeps.bind (message _)
    intro _
    exact message _

theorem keeps_checkBlocks {str : String} {mmapBlock fuel block : Nat} {totals : Totals}
    (message : ∀ text, Keeps part (emit text)) :
    Keeps part (checkBlocks str mmapBlock fuel block totals) := by
  have complaint : ∀ {title desc : String} {args : List Nat},
      Keeps part (do
        vgcMessage errorLevel "checkMmapBlock" str title "Error" args
        dumpMmapBlock str mmapBlock desc
        return none : Vgc (Option Totals)) := by
    intro title desc args
    apply Keeps.bind (message _)
    intro _
    apply Keeps.bind (keeps_dumpMmapBlock message)
    intro _
    exact Keeps.pure none
  induction fuel generalizing block totals with
  | zero => exact keeps_diverge
  | succ fuel ih =>
      rw [checkBlocks]
      apply Keeps.ite
      · exact Keeps.pure (some totals)
      · apply Keeps.bind (keeps_readMallocFields _ block)
        intro header
        apply Keeps.bind (keeps_readMmapHeader mmapBlock)
        intro mmapHeader
        apply Keeps.bind keeps_getShared
        intro shared
        apply Keeps.ite complaint
        apply Keeps.ite complaint
        apply Keeps.ite (Keeps.pure _)
        apply Keeps.bind (keeps_readMallocFields _ header.next)
        intro nextHeader
        apply Keeps.ite complaint
        exact ih

theorem keeps_checkMmapBlock {str : String} {mmapBlock : Nat}
    (message : ∀ text, Keeps part (emit text)) :
    Keeps part (checkMmapBlock str mmapBlock) := by
  unfold checkMmapBlock
  apply Keeps.bind (keeps_checkBlocks message)
  intro found
  cases found with
  | none => exact Keeps.pure false
  | some totals =>
      apply Keeps.bind keeps_getShared
      intro shared
      apply Keeps.bind
      · apply Keeps.when
        apply Keeps.bind (message _)
        intro _
        exact keeps_dumpMmapBlock message
      · intro _
        exact Keeps.pure true

end Reports

/-! ## Quiet programs -/

/-- The part of a state that only actions change. -/
def quietPart (state : State) : Heap × List Mutex × List Action :=
  (state.heap, state.held, state.actions)

/-- A program that does nothing to heap and mutexes. -/
abbrev Quiet (program : Vgc α) : Prop := Keeps quietPart program

theorem Quiet.silent {program : Vgc α} (quiet : Quiet program) : Keeps State.actions program :=
  fun env state value final ended =>
    congrArg (fun part => part.2.2) (quiet env state value final ended)

theorem quiet_emit (message : Message) : Quiet (emit message) := by
  intro env state value final ended
  cases ended
  rfl

theorem quiet_vgcMessage {level : Nat} {function title subtitle status : String}
    {args : List Nat} : Quiet (vgcMessage level function title subtitle status args) :=
  quiet_emit _

theorem quiet_answer (choose : Env → Nat → α) : Quiet (answer choose) := by
  intro env state value final ended
  cases ended
  rfl

theorem quiet_checkMmapBlock {str : String} {mmapBlock : Nat} :
    Quiet (checkMmapBlock str mmapBlock) :=
  keeps_checkMmapBlock quiet_emit

/-! ## Recorded actions -/

section Records

variable {good : Action → Prop}

/-- Every action of the program is good. -/
abbrev Acts (good : Action → Prop) (program : Vgc α) (env : Env) (heap : Heap)
    (held : List Mutex) (post : α → Heap × List Mutex → Prop) : Prop :=
  Records State.actions good seen program env (heap, held) post

/-- A quiet program keeps the view. -/
theorem Quiet.acts {program : Vgc α} (quiet : Quiet program) :
    Acts good program env heap held fun _ after => after = (heap, held) := by
  refine Allows.records ?_ quiet.silent
  intro state viewEq value final ended
  have same := quiet env state value final ended
  simp only [quietPart, Prod.mk.injEq] at same
  rw [← viewEq, seen, seen, same.1, same.2.1]

/-- A quiet program whose end is known. -/
theorem Quiet.acts_of_allows {program : Vgc α} {post : α → Heap × List Mutex → Prop}
    (quiet : Quiet program) (allows : Allows seen program env (heap, held) post) :
    Acts good program env heap held post :=
  allows.records quiet.silent

theorem acts_message {β : Type} {level : Nat} {function title subtitle status : String}
    {args : List Nat} {rest : Vgc β} {post : β → Heap × List Mutex → Prop}
    (after : Acts good rest env heap held post) :
    Acts good (vgcMessage level function title subtitle status args >>= fun _ => rest) env heap
      held post := by
  apply Records.seq quiet_vgcMessage.acts
  rintro _ _ rfl
  exact after

theorem acts_getShared :
    Acts good getShared env heap held fun value after =>
      value = heap.shared ∧ after = (heap, held) :=
  Quiet.acts_of_allows keeps_getShared yields_getShared.allows

theorem acts_readMallocHeader {block : Nat} :
    Acts good (readMallocHeader block) env heap held fun value after =>
      value = heap.mallocHeader block ∧ after = (heap, held) := by
  refine Quiet.acts_of_allows (keeps_readMallocHeader block) ?_
  intro state viewEq value final ended
  unfold readMallocHeader at ended
  split at ended
  · cases ended
    rw [viewEq]
    exact ⟨congrArg (fun view => view.1.mallocHeader block) viewEq, rfl⟩
  · cases ended

theorem acts_readMmapHeader {mmapBlock : Nat} :
    Acts good (readMmapHeader mmapBlock) env heap held fun value after =>
      value = heap.mmapHeader mmapBlock ∧ after = (heap, held) := by
  refine Quiet.acts_of_allows (keeps_readMmapHeader mmapBlock) ?_
  intro state viewEq value final ended
  unfold readMmapHeader at ended
  split at ended
  · cases ended
    rw [viewEq]
    exact ⟨congrArg (fun view => view.1.mmapHeader mmapBlock) viewEq, rfl⟩
  · cases ended

theorem acts_writeMallocField {block value : Nat} {field : MallocField}
    (holds : good (.storeMalloc block field (heap.setMallocField block field value))) :
    Acts good (writeMallocField block field value) env heap held fun _ after =>
      after = (heap.setMallocField block field value, held) := by
  intro state viewEq result final ended
  obtain ⟨rfl, rfl⟩ := Prod.mk.inj viewEq
  unfold writeMallocField at ended
  split at ended
  · cases ended
    exact ⟨rfl, [_], rfl, by simpa using holds⟩
  · cases ended

theorem acts_writeMmapField {mmapBlock value : Nat} {field : MmapField}
    (holds : good (.storeMmap mmapBlock field (heap.setMmapField mmapBlock field value))) :
    Acts good (writeMmapField mmapBlock field value) env heap held fun _ after =>
      after = (heap.setMmapField mmapBlock field value, held) := by
  intro state viewEq result final ended
  obtain ⟨rfl, rfl⟩ := Prod.mk.inj viewEq
  unfold writeMmapField at ended
  split at ended
  · cases ended
    exact ⟨rfl, [_], rfl, by simpa using holds⟩
  · cases ended

theorem acts_writeMallocFields {block : Nat} {fields : List (MallocField × Nat)}
    (holds : ∀ front field value back, fields = front ++ (field, value) :: back →
      good (.storeMalloc block field (heap.setMallocFields block (front ++ [(field, value)])))) :
    Acts good (writeMallocFields block fields) env heap held fun _ after =>
      after = (heap.setMallocFields block fields, held) := by
  induction fields generalizing heap with
  | nil => exact Records.pure rfl
  | cons first rest ih =>
      apply Records.seq (acts_writeMallocField (holds [] first.1 first.2 rest rfl))
      rintro _ _ rfl
      apply ih
      intro front field value back split
      exact holds (first :: front) field value back (by rw [split]; rfl)

theorem acts_mprotect {page length : Nat} {none : Bool}
    (holds : ∀ protNone, good (.protect page { heap with protNone := protNone })) :
    Acts good (mprotect page length none) env heap held fun _ after =>
      ∃ protNone, after = ({ heap with protNone := protNone }, held) := by
  apply Records.seq (quiet_answer Env.mprotect).acts
  rintro succeeds _ rfl state viewEq value final ended
  obtain ⟨rfl, rfl⟩ := Prod.mk.inj viewEq
  simp only at ended
  split at ended
  · cases ended
    have set := holds (state.heap.setProtection page length none).protNone
    exact ⟨⟨_, rfl⟩, [_], rfl, List.forall_mem_singleton.mpr set⟩
  · cases ended
    exact ⟨⟨state.heap.protNone, rfl⟩, [], rfl, by simp⟩

theorem acts_doMprotect {page length : Nat} {none : Bool}
    (holds : ∀ protNone, good (.protect page { heap with protNone := protNone })) :
    Acts good (doMprotect page length none) env heap held fun _ after =>
      ∃ protNone, after = ({ heap with protNone := protNone }, held) := by
  apply Records.seq (acts_mprotect holds)
  rintro succeeds _ ⟨protNone, rfl⟩
  apply Records.ite
  · intro _
    exact Records.pure ⟨protNone, rfl⟩
  · intro _
    exact acts_message (Records.pure ⟨protNone, rfl⟩)

theorem acts_vgcMprotect {header : Nat}
    (holds : ∀ protNone, good (.protect header { heap with protNone := protNone })) :
    Acts good (vgcMprotect header) env heap held fun _ after =>
      ∃ protNone, after = ({ heap with protNone := protNone }, held) := by
  apply Records.seq acts_getShared
  rintro _ _ ⟨rfl, rfl⟩
  exact acts_doMprotect holds

theorem acts_vgcMunprotect {header : Nat}
    (holds : ∀ protNone, good (.protect header { heap with protNone := protNone })) :
    Acts good (vgcMunprotect header) env heap held fun _ after =>
      ∃ protNone, after = ({ heap with protNone := protNone }, held) := by
  apply Records.seq acts_getShared
  rintro _ _ ⟨rfl, rfl⟩
  exact acts_doMprotect holds

/-- An attempt to lock adds the mutex to those held, or changes nothing. -/
theorem acts_pthreadMutexLock {mutex : Mutex}
    (holds : ∀ succeeded, good (.lock mutex succeeded heap held)) :
    Acts good (pthreadMutexLock mutex) env heap held fun value after =>
      value = true ∧ mutex ∉ held ∧ after = (heap, mutex :: held) ∨
        value = false ∧ after = (heap, held) := by
  apply Records.seq (quiet_answer Env.mutexLock).acts
  rintro succeeds _ rfl state viewEq value final ended
  obtain ⟨rfl, rfl⟩ := Prod.mk.inj viewEq
  simp only at ended
  split at ended
  · split at ended
    · rename_i free
      cases ended
      exact ⟨Or.inl ⟨rfl, free.2, rfl⟩, [_], rfl, by simpa using holds true⟩
    · cases ended
      exact ⟨Or.inr ⟨rfl, rfl⟩, [_], rfl, by simpa using holds false⟩
  · cases ended

/-- An attempt to unlock takes the mutex from those held, or changes
nothing. -/
theorem acts_pthreadMutexUnlock {mutex : Mutex}
    (holds : ∀ succeeded, good (.unlock mutex succeeded held)) :
    Acts good (pthreadMutexUnlock mutex) env heap held fun value after =>
      value = true ∧ after = (heap, held.erase mutex) ∨
        value = false ∧ after = (heap, held) ∧
          ¬((∀ call, env.mutexUnlock call = true) ∧ mutex ∈ held) := by
  apply Records.seq ((quiet_answer Env.mutexUnlock).acts_of_allows
    (yields_answer Env.mutexUnlock).allows)
  rintro succeeds _ ⟨⟨call, answered⟩, rfl⟩ state viewEq value final ended
  obtain ⟨rfl, rfl⟩ := Prod.mk.inj viewEq
  simp only at ended
  split at ended
  · split at ended
    · cases ended
      exact ⟨Or.inl ⟨rfl, rfl⟩, [_], rfl, by simpa using holds true⟩
    · rename_i failed
      cases ended
      refine ⟨Or.inr ⟨rfl, rfl, ?_⟩, [_], rfl, by simpa using holds false⟩
      rintro ⟨works, member⟩
      exact failed ⟨answered.trans (works call), member⟩
  · cases ended

/-- An unlock whose failure is only reported keeps the heap. -/
theorem acts_orReport_unlock {mutex : Mutex} {function title status : String}
    (holds : ∀ succeeded, good (.unlock mutex succeeded held)) :
    Acts good (orReport (pthreadMutexUnlock mutex) function title status) env heap held
      fun _ after => after.1 = heap ∧
        ((∀ call, env.mutexUnlock call = true) → mutex ∈ held → after.2 = held.erase mutex) := by
  apply Records.seq (acts_pthreadMutexUnlock holds)
  rintro value _ (⟨rfl, rfl⟩ | ⟨rfl, rfl, failed⟩)
  · exact Records.pure ⟨rfl, fun _ _ => rfl⟩
  · refine quiet_vgcMessage.acts.mono ?_
    rintro _ _ rfl
    exact ⟨rfl, fun works member => absurd ⟨works, member⟩ failed⟩

end Records

end VgcMalloc
