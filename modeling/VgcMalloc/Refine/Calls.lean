import VgcMalloc.Program.View
import VgcMalloc.Model.Free

/-!
# What the primitive operations do

Postconditions of the accesses and system calls over the view of a state that
matters to the heap: the heap itself and the mutexes held.  Messages and the
number of answered calls are left out, so an operation that only reports is
invisible.
-/

namespace VgcMalloc

open Program

/-- The part of the state that the allocator's postconditions speak about. -/
def seen (state : State) : Heap × List Mutex := (state.heap, state.held)

/-- Every mutex operation of the environment succeeds. -/
structure MutexCallsSucceed (env : Env) : Prop where
  lock : ∀ call, env.mutexLock call = true
  unlock : ∀ call, env.mutexUnlock call = true
  init : ∀ call, env.mutexInit call = true
  destroy : ∀ call, env.mutexDestroy call = true
  attrInit : ∀ call, env.mutexattrInit call = true
  attrDestroy : ∀ call, env.mutexattrDestroy call = true

/-- Every `mprotect` of the environment succeeds. -/
def MprotectCallsSucceed (env : Env) : Prop := ∀ call, env.mprotect call = true

variable {env : Env} {heap after : Heap} {held : List Mutex} {block : Nat}

/-! ## Headers that can be accessed -/

namespace Heap

/-- The places where a header is probed. -/
theorem mallocAccessible_iff : heap.mallocAccessible block = true ↔
    ∀ offset ∈ [4096, 4104, 4111, 4112, 4115, 4128, 4135, 4136, 4143, 4239],
      heap.isAccessible (block + offset) = true := by
  simp only [mallocAccessible, linksAccessible, fieldAccessible, MallocField.links,
    MallocField.offset, MallocField.width, List.all_cons, List.all_nil, Bool.and_eq_true,
    List.forall_mem_cons, List.not_mem_nil, false_implies, implies_true, Nat.reduceSub,
    Nat.reduceAdd, and_true, and_assoc]

/-- What lets every byte of a header be accessed does so for the header. -/
theorem mallocAccessible_mono (open_ : heap.mallocAccessible block = true)
    (opens : ∀ x, block + 4096 ≤ x → x < block + 4240 → heap.isAccessible x = true →
      after.isAccessible x = true) : after.mallocAccessible block = true := by
  rw [mallocAccessible_iff] at open_ ⊢
  intro offset member
  have bounds : 4096 ≤ offset ∧ offset < 4240 := by
    simp only [List.mem_cons, List.not_mem_nil, or_false] at member
    omega
  exact opens _ (by omega) (by omega) (open_ offset member)

theorem mallocAccessible_of
    (opens : ∀ x, block + 4096 ≤ x → x < block + 4240 → heap.isAccessible x = true) :
    heap.mallocAccessible block = true := by
  rw [mallocAccessible_iff]
  intro offset member
  simp only [List.mem_cons, List.not_mem_nil, or_false] at member
  exact opens _ (by omega) (by omega)

theorem mallocAccessible_congr
    (same : ∀ x, block + 4096 ≤ x → x < block + 4240 →
      after.isAccessible x = heap.isAccessible x) :
    after.mallocAccessible block = heap.mallocAccessible block := by
  rw [Bool.eq_iff_iff]
  constructor
  · intro open_
    refine mallocAccessible_mono open_ fun x low high there => ?_
    rwa [← same x low high]
  · intro open_
    refine mallocAccessible_mono open_ fun x low high there => ?_
    rwa [same x low high]

/-- The fields of a header that the walks read. -/
theorem linksAccessible_of_mallocAccessible (open_ : heap.mallocAccessible block = true) :
    heap.linksAccessible block = true := by
  rw [mallocAccessible, Bool.and_eq_true, Bool.and_eq_true] at open_
  exact open_.1.2

/-- Any of these fields. -/
theorem fieldsAccessible {fields : List MallocField} (links : fields ⊆ MallocField.links)
    (open_ : heap.linksAccessible block = true) :
    fields.all (heap.fieldAccessible block) = true :=
  List.all_eq_true.mpr fun field member => List.all_eq_true.mp open_ field (links member)

end Heap

/-! ## Accesses -/

theorem yields_getShared :
    Yields seen getShared env (heap, held) fun value after =>
      value = heap.shared ∧ after = (heap, held) := by
  rintro state viewEq
  cases viewEq
  exact ⟨_, _, rfl, rfl, rfl⟩

theorem yields_modifyShared (change : Shared → Shared) :
    Yields seen (modifyShared change) env (heap, held) fun _ after =>
      after = ({ heap with shared := change heap.shared }, held) := by
  rintro state viewEq
  cases viewEq
  exact ⟨_, _, rfl, rfl⟩

theorem yields_readMmapHeader {mmapBlock : Nat}
    (accessible : heap.mmapAccessible mmapBlock = true) :
    Yields seen (readMmapHeader mmapBlock) env (heap, held) fun value after =>
      value = heap.mmapHeader mmapBlock ∧ after = (heap, held) := by
  rintro state viewEq
  cases viewEq
  exact ⟨_, _, by rw [readMmapHeader, if_pos accessible], rfl, rfl⟩

theorem yields_readMallocHeader {block : Nat}
    (accessible : heap.mallocAccessible block = true) :
    Yields seen (readMallocHeader block) env (heap, held) fun value after =>
      value = heap.mallocHeader block ∧ after = (heap, held) := by
  rintro state viewEq
  cases viewEq
  exact ⟨_, _, by rw [readMallocHeader, if_pos accessible], rfl, rfl⟩

theorem yields_readMallocFields {fields : List MallocField}
    (accessible : fields.all (heap.fieldAccessible block) = true) :
    Yields seen (readMallocFields fields block) env (heap, held) fun value after =>
      value = heap.mallocHeader block ∧ after = (heap, held) := by
  rintro state viewEq
  cases viewEq
  exact ⟨_, _, by rw [readMallocFields, if_pos accessible], rfl, rfl⟩

/-- The test of the scan. -/
theorem yields_isFreeBlock (length : Nat) (accessible : heap.linksAccessible block = true) :
    Yields seen (isFreeBlock length block) env (heap, held) fun value after =>
      value = decide ((heap.mallocHeader block).status = .free ∧
        (heap.mallocHeader block).size ≥ length) ∧ after = (heap, held) := by
  unfold isFreeBlock
  refine Yields.seq (yields_readMallocFields (Heap.fieldsAccessible (by simp [MallocField.links])
    accessible)) ?_
  rintro _ _ ⟨rfl, rfl⟩
  refine Yields.ite ?_ ?_
  · intro free
    refine Yields.seq (yields_readMallocFields (Heap.fieldsAccessible (by simp [MallocField.links])
      accessible)) ?_
    rintro _ _ ⟨rfl, rfl⟩
    exact Yields.pure ⟨by simp [free], rfl⟩
  · intro busy
    exact Yields.pure ⟨by simp [busy], rfl⟩

theorem yields_writeMmapField {mmapBlock : Nat} (field : MmapField) (value : Nat)
    (accessible : heap.mmapAccessible mmapBlock = true) :
    Yields seen (writeMmapField mmapBlock field value) env (heap, held) fun _ after =>
      after = (heap.setMmapField mmapBlock field value, held) := by
  rintro state viewEq
  cases viewEq
  exact ⟨_, _, by rw [writeMmapField, if_pos accessible], rfl⟩

theorem yields_writeMallocField {block : Nat} (field : MallocField) (value : Nat)
    (accessible : heap.mallocAccessible block = true) :
    Yields seen (writeMallocField block field value) env (heap, held) fun _ after =>
      after = (heap.setMallocField block field value, held) := by
  rintro state viewEq
  cases viewEq
  exact ⟨_, _, by rw [writeMallocField, if_pos accessible], rfl⟩

/-- Store to several fields of a block header, in order. -/
def Heap.setMallocFields (heap : Heap) (block : Nat) : List (MallocField × Nat) → Heap
  | [] => heap
  | (field, value) :: rest => (heap.setMallocField block field value).setMallocFields block rest

/-- Store to several fields of an MMAP header, in order. -/
def Heap.setMmapFields (heap : Heap) (mmapBlock : Nat) : List (MmapField × Nat) → Heap
  | [] => heap
  | (field, value) :: rest => (heap.setMmapField mmapBlock field value).setMmapFields mmapBlock rest

theorem yields_writeMallocFields {block : Nat} (fields : List (MallocField × Nat))
    (accessible : heap.mallocAccessible block = true) :
    Yields seen (writeMallocFields block fields) env (heap, held) fun _ after =>
      after = (heap.setMallocFields block fields, held) := by
  induction fields generalizing heap with
  | nil => exact Yields.pure rfl
  | cons first rest ih =>
      refine Yields.seq (yields_writeMallocField first.1 first.2 accessible) ?_
      rintro _ _ rfl
      exact ih accessible

theorem yields_writeMmapFields {mmapBlock : Nat} (fields : List (MmapField × Nat))
    (accessible : heap.mmapAccessible mmapBlock = true) :
    Yields seen (writeMmapFields mmapBlock fields) env (heap, held) fun _ after =>
      after = (heap.setMmapFields mmapBlock fields, held) := by
  induction fields generalizing heap with
  | nil => exact Yields.pure rfl
  | cons first rest ih =>
      refine Yields.seq (yields_writeMmapField first.1 first.2 accessible) ?_
      rintro _ _ rfl
      exact ih accessible

/-! ## Messages and answers -/

theorem yields_emit (message : Message) :
    Yields seen (emit message) env (heap, held) fun _ after => after = (heap, held) := by
  rintro state viewEq
  cases viewEq
  exact ⟨_, _, rfl, rfl⟩

theorem yields_vgcMessage {level : Nat} {function title subtitle status : String}
    {args : List Nat} :
    Yields seen (vgcMessage level function title subtitle status args) env (heap, held)
      fun _ after => after = (heap, held) :=
  yields_emit _

theorem yields_answer {α : Type} (choose : Env → Nat → α) :
    Yields seen (answer choose) env (heap, held) fun value after =>
      (∃ call, value = choose env call) ∧ after = (heap, held) := by
  rintro state viewEq
  cases viewEq
  exact ⟨_, _, rfl, ⟨_, rfl⟩, rfl⟩

/-- A call that always answers true. -/
theorem yields_answer_true {choose : Env → Nat → Bool} (succeeds : ∀ call, choose env call = true) :
    Yields seen (answer choose) env (heap, held) fun value after =>
      value = true ∧ after = (heap, held) := by
  refine (yields_answer choose).mono ?_
  rintro value after ⟨⟨call, rfl⟩, viewEq⟩
  exact ⟨succeeds call, viewEq⟩

/-- After a call that succeeds nothing is reported. -/
theorem yields_orReport {call : Vgc Bool} {post : Heap × List Mutex → Prop}
    (function title status : String)
    (succeeds : Yields seen call env (heap, held) fun value after => value = true ∧ post after) :
    Yields seen (orReport call function title status) env (heap, held)
      fun _ after => post after := by
  refine Yields.seq succeeds ?_
  rintro value after ⟨rfl, holds⟩
  exact Yields.pure holds

/-! ## Mutexes -/

theorem yields_pthreadMutexLock {mutex : Mutex} (mutexes : MutexCallsSucceed env)
    (accessible : mutexAccessible heap mutex = true) (unheld : mutex ∉ held) :
    Yields seen (pthreadMutexLock mutex) env (heap, held) fun value after =>
      value = true ∧ after = (heap, mutex :: held) := by
  refine Yields.seq (yields_answer_true mutexes.lock) ?_
  rintro _ _ ⟨rfl, rfl⟩ state viewEq
  cases viewEq
  exact ⟨_, _, (if_pos accessible).trans (if_pos ⟨rfl, unheld⟩), rfl, rfl⟩

theorem yields_pthreadMutexUnlock {mutex : Mutex} (mutexes : MutexCallsSucceed env)
    (accessible : mutexAccessible heap mutex = true) :
    Yields seen (pthreadMutexUnlock mutex) env (heap, mutex :: held) fun value after =>
      value = true ∧ after = (heap, held) := by
  refine Yields.seq (yields_answer_true mutexes.unlock) ?_
  rintro _ _ ⟨rfl, rfl⟩ state viewEq
  obtain ⟨heapEq, heldEq⟩ := Prod.mk.inj viewEq
  have holds : mutex ∈ state.held := heldEq ▸ List.mem_cons_self
  refine ⟨true, _, (if_pos (heapEq ▸ accessible)).trans (if_pos ⟨rfl, holds⟩), rfl, ?_⟩
  rw [seen, heapEq, heldEq, List.erase_cons_head]

/-! ## Guard pages -/

/-- The heap after an attempt to set the protection of one page. -/
structure GuardStep (env : Env) (page : Nat) (none : Bool) (before after : Heap) : Prop where
  same : ∃ protNone, after = { before with protNone := protNone }
  others : ∀ x, x % 4096 = 0 → x ≠ page → after.protNone x = before.protNone x
  either : after.protNone page = before.protNone page ∨ after.protNone page = none
  done : MprotectCallsSucceed env → page % 4096 = 0 → before.isMapped page = true →
    after.protNone page = none

theorem GuardStep.refl_of_failed {page : Nat} {none : Bool} {succeeds : Bool}
    (known : MprotectCallsSucceed env → succeeds = true)
    (failed : ¬(succeeds = true ∧ page % systemPageSize = 0 ∧ heap.isMapped page = true)) :
    GuardStep env page none heap heap where
  same := ⟨heap.protNone, rfl⟩
  others _ _ _ := rfl
  either := Or.inl rfl
  done works aligned mapped := absurd ⟨known works, aligned, mapped⟩ failed

theorem guardStep_setProtection {page : Nat} (none : Bool) (aligned : page % 4096 = 0) :
    GuardStep env page none heap (heap.setProtection page 4096 none) := by
  have range : pageRound 4096 = 4096 := rfl
  have hit : (heap.setProtection page 4096 none).protNone page = none := by
    simp [Heap.setProtection, range]
  refine ⟨⟨_, rfl⟩, ?_, Or.inr hit, fun _ _ _ => hit⟩
  intro x xAligned ne
  have outside : ¬(page ≤ x ∧ x < page + 4096) := by omega
  simp only [Heap.setProtection, range, if_neg outside]

theorem yields_doMprotect {page : Nat} (none : Bool) :
    Yields seen (doMprotect page 4096 none) env (heap, held) fun _ after =>
      GuardStep env page none heap after.1 ∧ after.2 = held := by
  have attempt : Yields seen (mprotect page 4096 none) env (heap, held) fun _ after =>
      GuardStep env page none heap after.1 ∧ after.2 = held := by
    refine Yields.seq (yields_answer Env.mprotect) ?_
    rintro succeeds _ ⟨⟨call, answered⟩, rfl⟩ state viewEq
    cases viewEq
    by_cases works : succeeds = true ∧ page % systemPageSize = 0 ∧
        state.heap.isMapped page = true
    · exact ⟨_, _, if_pos works, guardStep_setProtection none works.2.1, rfl⟩
    · refine ⟨_, _, if_neg works, GuardStep.refl_of_failed ?_ works, rfl⟩
      exact fun all => answered.trans (all call)
  refine Yields.seq attempt ?_
  rintro succeeds ⟨after, afterHeld⟩ ⟨step, rfl⟩
  refine Yields.ite (fun _ => Yields.pure ⟨step, rfl⟩) fun _ => ?_
  refine Yields.seq (yields_vgcMessage) ?_
  rintro _ _ rfl
  exact Yields.pure ⟨step, rfl⟩

theorem yields_vgcMprotect {header : Nat} (pageSize : heap.shared.pageSize = 4096) :
    Yields seen (vgcMprotect header) env (heap, held) fun _ after =>
      GuardStep env header true heap after.1 ∧ after.2 = held := by
  refine Yields.seq yields_getShared ?_
  rintro _ _ ⟨rfl, rfl⟩
  rw [pageSize]
  exact yields_doMprotect true

theorem yields_vgcMunprotect {header : Nat} (pageSize : heap.shared.pageSize = 4096) :
    Yields seen (vgcMunprotect header) env (heap, held) fun _ after =>
      GuardStep env header false heap after.1 ∧ after.2 = held := by
  refine Yields.seq yields_getShared ?_
  rintro _ _ ⟨rfl, rfl⟩
  rw [pageSize]
  exact yields_doMprotect false

/-! ## Mappings -/

/-- The kernel's choice for the next `mmap`: a placement it can use, or none. -/
def Heap.placement (heap : Heap) (env : Env) (length : Nat) : Option Nat :=
  (env.mmap heap.mmapCalls).filter fun base => heap.isPlaceable base length

/-- The heap after a call of `mmap` has been answered. -/
def Heap.asked (heap : Heap) : Heap := { heap with mmapCalls := heap.mmapCalls + 1 }

theorem yields_mmap (length : Nat) :
    Yields seen (mmap length) env (heap, held) fun value after =>
      (∃ base, heap.placement env length = some base ∧ value = base ∧
          after = (heap.asked.addRegion base length, held)) ∨
        heap.placement env length = none ∧ value = mapFailed ∧ after = (heap.asked, held) := by
  rintro state viewEq
  cases viewEq
  unfold Returns mmap
  cases proposed : env.mmap state.heap.mmapCalls with
  | none =>
      refine ⟨_, _, rfl, Or.inr ⟨?_, rfl, rfl⟩⟩
      simp [Heap.placement, proposed]
  | some base =>
      by_cases placeable : state.heap.isPlaceable base length = true
      · refine ⟨_, _, if_pos placeable, Or.inl ⟨base, ?_, rfl, rfl⟩⟩
        simp [Heap.placement, proposed, placeable]
      · refine ⟨_, _, if_neg placeable, Or.inr ⟨?_, rfl, rfl⟩⟩
        simp [Heap.placement, proposed, placeable]

end VgcMalloc
