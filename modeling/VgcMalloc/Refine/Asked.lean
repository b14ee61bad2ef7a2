import VgcMalloc.Refine.Actions
import VgcMalloc.Refine.Malloc

/-!
# How often the kernel is asked for memory

`mmap` is called in the creation of an MMAP only: once, or a second time when
the kernel refuses the full size.  Everything else that the calls do leaves the
number of its calls as it is.
-/

namespace VgcMalloc

open Program

variable {α : Type} {env : Env} {heap after : Heap} {held : List Mutex} {pages : MmapPages}
  {guarded : Bool} {abstract : AbstractHeap} {need last : Nat}

/-- The number of calls of `mmap`. -/
def State.mmapCalls (state : State) : Nat := state.heap.mmapCalls

/-! ## Programs that do not ask -/

/-- What keeps the heap keeps the number of calls. -/
theorem Quiet.keeps_mmapCalls {program : Vgc α} (quiet : Quiet program) :
    Keeps State.mmapCalls program := by
  intro env state value final ended
  have same := congrArg (fun part => part.1.mmapCalls) (quiet env state value final ended)
  exact same

theorem keeps_mmapCalls_orReport {call : Vgc Bool} {function title status : String}
    (kept : Keeps State.mmapCalls call) :
    Keeps State.mmapCalls (orReport call function title status) :=
  VgcMalloc.Keeps.orReport kept fun text => (quiet_emit text).keeps_mmapCalls

theorem keeps_mmapCalls_message {level : Nat} {function title subtitle status : String}
    {args : List Nat} :
    Keeps State.mmapCalls (vgcMessage level function title subtitle status args) :=
  (quiet_emit _).keeps_mmapCalls

theorem keeps_mmapCalls_modifyShared (change : Shared → Shared) :
    Keeps State.mmapCalls (modifyShared change) := by
  intro env state value final ended
  cases ended
  rfl

theorem keeps_mmapCalls_writeMallocField (block : Nat) (field : MallocField) (value : Nat) :
    Keeps State.mmapCalls (writeMallocField block field value) := by
  intro env state result final ended
  unfold writeMallocField at ended
  split at ended
  · cases ended
    rfl
  · cases ended

theorem keeps_mmapCalls_writeMmapField (mmapBlock : Nat) (field : MmapField) (value : Nat) :
    Keeps State.mmapCalls (writeMmapField mmapBlock field value) := by
  intro env state result final ended
  unfold writeMmapField at ended
  split at ended
  · cases ended
    rfl
  · cases ended

theorem keeps_mmapCalls_writeMallocFields (block : Nat) (fields : List (MallocField × Nat)) :
    Keeps State.mmapCalls (writeMallocFields block fields) := by
  induction fields with
  | nil => exact Keeps.pure ()
  | cons first rest ih =>
      exact Keeps.bind (keeps_mmapCalls_writeMallocField block first.1 first.2) fun _ => ih

theorem keeps_mmapCalls_writeMmapFields (mmapBlock : Nat) (fields : List (MmapField × Nat)) :
    Keeps State.mmapCalls (writeMmapFields mmapBlock fields) := by
  induction fields with
  | nil => exact Keeps.pure ()
  | cons first rest ih =>
      exact Keeps.bind (keeps_mmapCalls_writeMmapField mmapBlock first.1 first.2) fun _ => ih

theorem keeps_mmapCalls_doMprotect (page length : Nat) (none : Bool) :
    Keeps State.mmapCalls (doMprotect page length none) := by
  have protect : Keeps State.mmapCalls (mprotect page length none) := by
    apply Keeps.bind (quiet_answer _).keeps_mmapCalls
    intro succeeds env state value final ended
    simp only at ended
    split at ended
    · cases ended
      rfl
    · cases ended
      rfl
  apply Keeps.bind protect
  intro succeeds
  apply Keeps.ite (Keeps.pure true)
  exact Keeps.bind keeps_mmapCalls_message fun _ => Keeps.pure false

theorem keeps_mmapCalls_vgcMprotect (header : Nat) : Keeps State.mmapCalls (vgcMprotect header) :=
  Keeps.bind keeps_getShared fun _ => keeps_mmapCalls_doMprotect _ _ _

theorem keeps_mmapCalls_vgcMunprotect (header : Nat) :
    Keeps State.mmapCalls (vgcMunprotect header) :=
  Keeps.bind keeps_getShared fun _ => keeps_mmapCalls_doMprotect _ _ _

theorem keeps_mmapCalls_lock (mutex : Mutex) : Keeps State.mmapCalls (pthreadMutexLock mutex) := by
  apply Keeps.bind (quiet_answer _).keeps_mmapCalls
  intro succeeds env state value final ended
  simp only at ended
  split at ended
  · split at ended
    · cases ended
      rfl
    · cases ended
      rfl
  · cases ended

theorem keeps_mmapCalls_unlock (mutex : Mutex) :
    Keeps State.mmapCalls (pthreadMutexUnlock mutex) := by
  apply Keeps.bind (quiet_answer _).keeps_mmapCalls
  intro succeeds env state value final ended
  simp only at ended
  split at ended
  · split at ended
    · cases ended
      rfl
    · cases ended
      rfl
  · cases ended

theorem keeps_mmapCalls_munmap (base length : Nat) :
    Keeps State.mmapCalls (munmap base length) := by
  apply Keeps.bind (quiet_answer _).keeps_mmapCalls
  intro succeeds
  apply Keeps.ite
  · intro env state value final ended
    cases ended
    rfl
  · exact Keeps.pure false

theorem keeps_mmapCalls_unmapOrReport (function : String) (mmapBlock : Nat) :
    Keeps State.mmapCalls (unmapOrReport function mmapBlock) :=
  Keeps.bind (keeps_readMmapHeader mmapBlock) fun _ =>
    keeps_mmapCalls_orReport (keeps_mmapCalls_munmap _ _)

theorem keeps_mmapCalls_checkMmapBlock (str : String) (mmapBlock : Nat) :
    Keeps State.mmapCalls (checkMmapBlock str mmapBlock) :=
  quiet_checkMmapBlock.keeps_mmapCalls

/-! ## Allocation in one MMAP -/

theorem keeps_mmapCalls_grantBlock (mmapBlock mallocBlock length : Nat) :
    Keeps State.mmapCalls (grantBlock mmapBlock mallocBlock length) := by
  unfold grantBlock
  apply Keeps.bind (keeps_readMallocHeader _)
  intro header
  apply Keeps.bind
  · apply Keeps.when
    apply Keeps.bind (keeps_mmapCalls_writeMallocFields _ _)
    intro _
    exact Keeps.bind (keeps_mmapCalls_vgcMprotect _) fun _ => Keeps.pure ()
  intro _
  apply Keeps.bind (keeps_readMmapHeader _)
  intro mmapHeader
  apply Keeps.bind (keeps_mmapCalls_writeMmapField _ _ _)
  intro _
  apply Keeps.bind (keeps_mmapCalls_writeMallocFields _ _)
  intro _
  apply Keeps.bind
  · apply Keeps.when
    apply Keeps.bind (keeps_readMallocHeader _)
    intro nextHeader
    exact Keeps.when (keeps_mmapCalls_writeMallocField _ _ _)
  intro _
  exact Keeps.bind (keeps_mmapCalls_writeMallocFields _ _) fun _ => Keeps.pure _

theorem keeps_mmapCalls_allocMallocBlock (mmapBlock length : Nat) :
    Keeps State.mmapCalls (allocMallocBlock mmapBlock length) := by
  have unlocks : ∀ {function title status : String}, Keeps State.mmapCalls
      (orReport (pthreadMutexUnlock (.mmapBlock mmapBlock)) function title status) :=
    keeps_mmapCalls_orReport (keeps_mmapCalls_unlock _)
  unfold allocMallocBlock
  apply Keeps.bind (keeps_mmapCalls_lock _)
  intro locked
  apply Keeps.ite
  · exact Keeps.bind keeps_mmapCalls_message fun _ => Keeps.pure 0
  apply Keeps.bind keeps_findFreeBlock
  intro mallocBlock
  apply Keeps.ite
  · exact Keeps.bind unlocks fun _ => Keeps.pure 0
  apply Keeps.bind (keeps_mmapCalls_checkMmapBlock _ _)
  intro sound
  apply Keeps.ite
  · apply Keeps.bind unlocks
    intro _
    exact Keeps.bind keeps_mmapCalls_message fun _ => Keeps.pure 0
  apply Keeps.bind keeps_getShared
  intro shared
  apply Keeps.bind (keeps_mmapCalls_grantBlock _ _ _)
  intro granted
  apply Keeps.bind
  · unfold vgcStacktraceSave
    apply Keeps.bind (quiet_answer _).keeps_mmapCalls
    intro frames
    exact Keeps.bind (keeps_mmapCalls_writeMallocFields _ _) fun _ =>
      keeps_mmapCalls_writeMallocFields _ _
  intro _
  apply Keeps.bind unlocks
  intro _
  apply Keeps.bind (keeps_readMmapHeader _)
  intro mmapHeader
  apply Keeps.bind keeps_mmapCalls_message
  intro _
  apply Keeps.bind
  · apply Keeps.when
    exact Keeps.bind (keeps_readMallocHeader _) fun _ => keeps_mmapCalls_message
  intro _
  exact Keeps.pure _

theorem keeps_mmapCalls_mallocInList {fuel mmapBlock : Nat} (size : Nat) :
    Keeps State.mmapCalls (mallocInList size fuel mmapBlock last) := by
  induction fuel generalizing mmapBlock last with
  | zero => exact keeps_diverge
  | succ fuel ih =>
      rw [mallocInList]
      apply Keeps.ite (Keeps.pure _)
      apply Keeps.bind (keeps_mmapCalls_allocMallocBlock _ _)
      intro memory
      apply Keeps.ite (Keeps.pure _)
      exact Keeps.bind (keeps_readMmapHeader _) fun _ => ih

/-! ## Release -/

theorem keeps_mmapCalls_absorbBlock (keeper gone : Nat) :
    Keeps State.mmapCalls (absorbBlock keeper gone) := by
  unfold absorbBlock
  apply Keeps.bind (keeps_mmapCalls_vgcMunprotect _)
  intro _
  apply Keeps.bind (keeps_readMallocHeader _)
  intro keeperHeader
  apply Keeps.bind (keeps_readMallocHeader _)
  intro goneHeader
  exact Keeps.bind (keeps_mmapCalls_writeMallocFields _ _) fun _ =>
    Keeps.when (keeps_mmapCalls_writeMallocField _ _ _)

theorem keeps_mmapCalls_releaseBlock (mallocBlock : Nat) :
    Keeps State.mmapCalls (releaseBlock mallocBlock) := by
  unfold releaseBlock
  apply Keeps.bind (keeps_mmapCalls_writeMallocField _ _ _)
  intro _
  apply Keeps.bind (keeps_mmapCalls_vgcMunprotect _)
  intro _
  apply Keeps.bind
  · unfold freeBlocksNext
    apply Keeps.bind (keeps_readMallocHeader _)
    intro header
    apply Keeps.when
    exact Keeps.bind (keeps_readMallocHeader _) fun _ => Keeps.when (keeps_mmapCalls_absorbBlock _ _)
  intro _
  unfold freeBlocksPrev
  apply Keeps.bind (keeps_readMallocHeader _)
  intro header
  apply Keeps.when
  exact Keeps.bind (keeps_readMallocHeader _) fun _ => Keeps.when (keeps_mmapCalls_absorbBlock _ _)

theorem keeps_mmapCalls_unlockMmapBlock (mmapBlock : Nat) :
    Keeps State.mmapCalls (unlockMmapBlock mmapBlock) :=
  keeps_mmapCalls_orReport (keeps_mmapCalls_unlock _)

theorem keeps_mmapCalls_unlockShared : Keeps State.mmapCalls unlockShared :=
  keeps_mmapCalls_orReport (keeps_mmapCalls_unlock _)

/-- `vgc_free` gives up when a neighbour cannot be locked. -/
theorem keeps_mmapCalls_giveUp {mmapBlock : Nat} {title status : String} :
    Keeps State.mmapCalls (do
      unlockMmapBlock mmapBlock
      unlockShared
      vgcMessage errorLevel "vgc_free" title "Error" status []
      return false : Vgc Bool) := by
  apply Keeps.bind (keeps_mmapCalls_unlockMmapBlock _)
  intro _
  apply Keeps.bind keeps_mmapCalls_unlockShared
  intro _
  exact Keeps.bind keeps_mmapCalls_message fun _ => Keeps.pure false

theorem keeps_mmapCalls_releaseMMAP (mmapBlock : Nat) :
    Keeps State.mmapCalls (releaseMMAP mmapBlock) := by
  unfold releaseMMAP
  apply Keeps.bind
  · unfold unlinkFromNext
    apply Keeps.bind (keeps_readMmapHeader _)
    intro header
    apply Keeps.ite (Keeps.pure true)
    apply Keeps.bind (keeps_mmapCalls_lock _)
    intro locked
    apply Keeps.ite keeps_mmapCalls_giveUp
    apply Keeps.bind (keeps_mmapCalls_writeMmapField _ _ _)
    intro _
    exact Keeps.bind (keeps_mmapCalls_orReport (keeps_mmapCalls_unlock _)) fun _ => Keeps.pure true
  intro next
  apply Keeps.ite (Keeps.pure ())
  apply Keeps.bind
  · unfold unlinkFromPrev
    apply Keeps.bind (keeps_readMmapHeader _)
    intro header
    apply Keeps.ite (Keeps.pure true)
    apply Keeps.bind (keeps_mmapCalls_lock _)
    intro locked
    apply Keeps.ite keeps_mmapCalls_giveUp
    apply Keeps.bind (keeps_mmapCalls_writeMmapField _ _ _)
    intro _
    exact Keeps.bind (keeps_mmapCalls_orReport (keeps_mmapCalls_unlock _)) fun _ => Keeps.pure true
  intro prev
  apply Keeps.ite (Keeps.pure ())
  apply Keeps.bind (keeps_mmapCalls_unlockMmapBlock _)
  intro _
  apply Keeps.bind (keeps_mmapCalls_orReport (quiet_answer _).keeps_mmapCalls)
  intro _
  apply Keeps.bind (keeps_mmapCalls_orReport (quiet_answer _).keeps_mmapCalls)
  intro _
  apply Keeps.bind
  · unfold freeMMAP
    apply Keeps.bind (keeps_readMmapHeader _)
    intro header
    apply Keeps.bind keeps_mmapCalls_message
    intro _
    exact Keeps.bind (keeps_mmapCalls_modifyShared _) fun _ => keeps_mmapCalls_unmapOrReport _ _
  intro _
  exact keeps_mmapCalls_unlockShared

theorem keeps_mmapCalls_freeInMmapBlock (ptr mallocBlock mmapBlock : Nat) :
    Keeps State.mmapCalls (freeInMmapBlock ptr mallocBlock mmapBlock) := by
  unfold freeInMmapBlock
  apply Keeps.bind (keeps_readMmapHeader _)
  intro mmapHeader
  apply Keeps.bind (keeps_mmapCalls_writeMmapField _ _ _)
  intro _
  apply Keeps.bind (keeps_readMallocHeader _)
  intro header
  apply Keeps.bind keeps_mmapCalls_message
  intro _
  apply Keeps.bind (keeps_mmapCalls_lock _)
  intro locked
  apply Keeps.ite
  · apply Keeps.bind keeps_mmapCalls_unlockShared
    intro _
    exact Keeps.bind keeps_mmapCalls_message fun _ => Keeps.pure ()
  apply Keeps.bind (keeps_mmapCalls_checkMmapBlock _ _)
  intro sound
  apply Keeps.ite
  · apply Keeps.bind (keeps_mmapCalls_unlockMmapBlock _)
    intro _
    apply Keeps.bind keeps_mmapCalls_unlockShared
    intro _
    exact Keeps.bind keeps_mmapCalls_message fun _ => Keeps.pure ()
  apply Keeps.bind keeps_getShared
  intro shared
  apply Keeps.bind (Keeps.when keeps_mmapCalls_message)
  intro _
  apply Keeps.bind (keeps_mmapCalls_releaseBlock _)
  intro _
  apply Keeps.bind (keeps_readMallocHeader _)
  intro first
  apply Keeps.ite
  · exact Keeps.bind (keeps_mmapCalls_releaseMMAP _) fun _ => Keeps.pure ()
  exact Keeps.bind (keeps_mmapCalls_unlockMmapBlock _) fun _ => keeps_mmapCalls_unlockShared

/-- `vgc_free` asks for no memory. -/
theorem keeps_mmapCalls_vgcFree (ptr : Nat) : Keeps State.mmapCalls (vgcFree ptr) := by
  have report : ∀ title size checkStart address rounded dumped,
      Keeps State.mmapCalls (do
        reportChecksum title size rounded checkStart address dumped
        return () : Vgc Unit) := by
    intro title size checkStart address rounded dumped
    unfold reportChecksum
    simp only [bind_assoc]
    apply Keeps.bind keeps_mmapCalls_unlockShared
    intro _
    apply Keeps.bind keeps_mmapCalls_message
    intro _
    apply Keeps.bind keeps_mmapCalls_message
    intro _
    exact Keeps.bind (keeps_dumpMmapBlock fun text => (quiet_emit text).keeps_mmapCalls) fun _ =>
      Keeps.pure ()
  unfold vgcFree
  apply Keeps.ite
  · exact Keeps.bind keeps_mmapCalls_message fun _ => Keeps.pure ()
  apply Keeps.bind (keeps_mmapCalls_lock _)
  intro locked
  apply Keeps.ite
  · exact Keeps.bind keeps_mmapCalls_message fun _ => Keeps.pure ()
  apply Keeps.bind keeps_isInMmapBlock
  intro inside
  apply Keeps.ite
  · apply Keeps.bind keeps_mmapCalls_unlockShared
    intro _
    exact Keeps.bind keeps_mmapCalls_message fun _ => Keeps.pure ()
  apply Keeps.bind keeps_getShared
  intro shared
  apply Keeps.bind (keeps_readMallocHeader _)
  intro header
  apply Keeps.ite (report _ _ _ _ _ _)
  apply Keeps.bind (keeps_readMmapHeader _)
  intro mmapHeader
  apply Keeps.ite (report _ _ _ _ _ _)
  exact keeps_mmapCalls_freeInMmapBlock _ _ _

/-! ## Creation -/

/-- How often `mmapBlockAllocate` asks. -/
def Heap.asks (heap : Heap) (env : Env) (pages : MmapPages) : Nat :=
  if (heap.placement env pages.bytes).isSome then 1 else 2

theorem adds_mmapCalls_mmap (length : Nat) : Adds State.mmapCalls 1 (mmap length) := by
  intro env state value final ended
  unfold mmap at ended
  simp only at ended
  split at ended
  · split at ended
    · cases ended
      rfl
    · cases ended
      rfl
  · cases ended
    rfl

theorem keeps_mmapCalls_initialiseMMAP (size lastBlock mmapBlock : Nat) :
    Keeps State.mmapCalls (initialiseMMAP size lastBlock mmapBlock) := by
  unfold initialiseMMAP
  apply Keeps.bind (keeps_mmapCalls_writeMmapFields _ _)
  intro _
  apply Keeps.bind (Keeps.when (keeps_mmapCalls_writeMmapField _ _ _))
  intro _
  apply Keeps.bind (keeps_mmapCalls_writeMmapFields _ _)
  intro _
  apply Keeps.bind keeps_mmapCalls_message
  intro _
  apply Keeps.bind (keeps_readMmapHeader _)
  intro header
  apply Keeps.bind (keeps_mmapCalls_writeMallocFields _ _)
  intro _
  exact Keeps.bind (keeps_mmapCalls_vgcMprotect _) fun _ => Keeps.pure ()

/-- `allocMMAP` asks once, and every failure behind that only undoes. -/
theorem adds_mmapCalls_allocMMAP (size lastBlock : Nat) :
    Adds State.mmapCalls 1 (allocMMAP size lastBlock) := by
  have undo : ∀ {title status : String} {mmapBlock : Nat}, Keeps State.mmapCalls (do
      vgcMessage errorLevel "allocMMAP" title "Error" status []
      unmapOrReport "allocMMAP" mmapBlock
      return mapFailed : Vgc Nat) := by
    intro title status mmapBlock
    apply Keeps.bind keeps_mmapCalls_message
    intro _
    exact Keeps.bind (keeps_mmapCalls_unmapOrReport _ _) fun _ => Keeps.pure _
  unfold allocMMAP
  apply (adds_mmapCalls_mmap size).bind_keeps
  intro mmapBlock
  apply Keeps.ite
  · exact Keeps.bind keeps_mmapCalls_message fun _ => Keeps.pure _
  apply Keeps.bind (quiet_answer _).keeps_mmapCalls
  intro attr
  apply Keeps.ite undo
  apply Keeps.bind (quiet_answer _).keeps_mmapCalls
  intro made
  apply Keeps.ite
  · apply Keeps.bind keeps_mmapCalls_message
    intro _
    apply Keeps.bind (keeps_mmapCalls_orReport (quiet_answer _).keeps_mmapCalls)
    intro _
    exact Keeps.bind (keeps_mmapCalls_unmapOrReport _ _) fun _ => Keeps.pure _
  apply Keeps.bind (keeps_mmapCalls_lock _)
  intro locked
  apply Keeps.ite undo
  apply Keeps.bind (keeps_mmapCalls_initialiseMMAP _ _ _)
  intro _
  apply Keeps.bind (keeps_mmapCalls_unlock _)
  intro unlocked
  apply Keeps.ite undo
  exact Keeps.bind (keeps_mmapCalls_modifyShared _) fun _ => Keeps.pure _

/-- A count that every end of a program adds can be read off the view. -/
theorem counts_of_adds {program : Vgc α} {amount : Nat}
    (adds : Adds State.mmapCalls amount program) :
    Allows seen program env (heap, held) fun _ final =>
      final.1.mmapCalls = heap.mmapCalls + amount := by
  intro state viewEq value final ended
  obtain ⟨rfl, rfl⟩ := Prod.mk.inj viewEq
  exact adds env state value final ended

/-- `mmapBlockAllocate` asks again when the kernel refuses the full size. -/
theorem counts_mmapBlockAllocate (mutexes : MutexCallsSucceed env)
    (stands : Stands pages guarded heap abstract)
    (unheld : ∀ base, Mutex.mmapBlock base ∉ held) :
    Allows seen (mmapBlockAllocate pages.bytes abstract.lastListed) env (heap, held)
      fun _ final => final.1.mmapCalls = heap.mmapCalls + heap.asks env pages := by
  unfold mmapBlockAllocate Heap.asks
  have first := (yields_allocMMAP mutexes stands (Or.inl rfl) unheld).allows
  have once : Allows seen (allocMMAP pages.bytes abstract.lastListed) env (heap, held) _ :=
    counts_of_adds (adds_mmapCalls_allocMMAP _ _)
  apply Allows.seq (first.and once)
  rintro value ⟨middle, free⟩ ⟨⟨_, ⟨base, chosen, rfl, created⟩ | ⟨none, rfl, _⟩⟩, count⟩
  · have user := (placement_placed (Or.inl rfl) chosen).1.user
    simp only at user
    rw [if_pos (by rw [mapFailed_eq]; omega)]
    apply Allows.pure
    rw [count, chosen]
    rfl
  · rw [if_neg (not_not_intro rfl)]
    have again : Allows seen (allocMMAP (pages.bytes / 10) abstract.lastListed) env
        (middle, free) _ := counts_of_adds (adds_mmapCalls_allocMMAP _ _)
    apply Allows.seq again
    rintro value ⟨final, _⟩ twice
    have same : final.mmapCalls = heap.mmapCalls + 2 := by
      rw [twice, count]
    rw [none]
    intro state viewEq result last ended
    have kept : Keeps State.mmapCalls (do
        when (value = mapFailed) (vgcMessage errorLevel "mmapBlockAllocate" "allocMMAP" "Error"
          "can't get enough memory for MMAP" [])
        return value : Vgc Nat) :=
      Keeps.bind (Keeps.when keeps_mmapCalls_message) fun _ => Keeps.pure _
    have before : state.heap = final := congrArg Prod.fst viewEq
    have stays := kept env state result last ended
    rw [State.mmapCalls, State.mmapCalls, before, same] at stays
    exact stays

/-- Initialisation asks when there is no first MMAP. -/
theorem counts_initialiseFirstMMAP (mutexes : MutexCallsSucceed env)
    (rep : Represents pages guarded heap abstract) (empty : abstract.listed = []) :
    Allows seen initialiseFirstMMAP env (heap, []) fun _ final =>
      final.1.mmapCalls = heap.mmapCalls + heap.asks env pages := by
  have null : heap.shared.mmapBlockFirst = 0 := by
    rw [rep.first, empty]
    rfl
  have last : abstract.lastListed = 0 := by
    rw [AbstractHeap.lastListed, empty]
    rfl
  have allocated : Allows seen (mmapBlockAllocate pages.bytes abstract.lastListed) env
      (heap, []) _ := counts_mmapBlockAllocate mutexes rep.toStands (by simp)
  rw [last] at allocated
  unfold initialiseFirstMMAP
  apply Allows.seq yields_getShared.allows
  rintro _ _ ⟨rfl, rfl⟩
  rw [if_neg (not_not_intro null), rep.blockSize]
  apply Allows.seq allocated
  rintro mmapBlock ⟨grown, _⟩ count
  apply Allows.seq (yields_modifyShared _).allows
  rintro _ _ rfl
  exact Allows.pure count

/-- The search asks when no listed block fits. -/
theorem counts_mallocInMMAPs (mutexes : MutexCallsSucceed env)
    (rep : Represents pages guarded heap abstract) (bound : need < 2 ^ 62) :
    Allows seen (mallocInMMAPs need) env (heap, []) fun _ final =>
      final.1.mmapCalls = heap.mmapCalls +
        if abstract.malloc need (AbstractHeap.grantLength guarded need) = none then
          heap.asks env pages
        else 0 := by
  have keeps : ∀ {β : Type} {program : Vgc β} {heap : Heap} {held : List Mutex},
      Keeps State.mmapCalls program → Allows seen program env (heap, held) fun _ final =>
        final.1.mmapCalls = heap.mmapCalls :=
    fun kept => counts_of_adds kept.adds
  have returns : ∀ {value : Nat}, Keeps State.mmapCalls (do
      orReport (pthreadMutexUnlock .shared) "vgc_malloc" "PTHREAD_mutexUnlock"
        "can't unlock shared mutex"
      return value : Vgc Nat) :=
    Keeps.bind (keeps_mmapCalls_orReport (keeps_mmapCalls_unlock _)) fun _ => Keeps.pure _
  unfold mallocInMMAPs
  apply Allows.seq (yields_pthreadMutexLock mutexes rfl List.not_mem_nil).allows
  rintro _ _ ⟨rfl, rfl⟩
  simp only [Bool.not_true, Bool.false_eq_true, if_false]
  apply Allows.seq yields_getShared.allows
  rintro _ _ ⟨rfl, rfl⟩
  rw [rep.first]
  have searched : Settles seen (fun _ => True) (mallocInList need walkFuel
      (abstract.listed.headD 0) 0) env (heap, [.shared]) _ :=
    settles_mallocInList mutexes rep.toStands rep.links (fun _ member => member) (by simp) bound
      (fun _ _ _ => trivial) rep.listed_length
  have kept : Allows seen (mallocInList need walkFuel (abstract.listed.headD 0) 0) env
      (heap, [.shared]) _ := keeps (keeps_mmapCalls_mallocInList need)
  apply Allows.seq (searched.allows.and kept)
  rintro ⟨memory, last⟩ ⟨middle, middleHeld⟩
    ⟨⟨rfl, ⟨unfit, valueEq, same⟩ | ⟨there, region, entry, previous, rest, front, back, found⟩⟩,
      count⟩
  · obtain ⟨rfl, rfl⟩ := Prod.mk.inj valueEq
    obtain rfl : heap = middle := same.symm
    have none : abstract.malloc need (AbstractHeap.grantLength guarded need) = none :=
      AbstractHeap.malloc_eq_none_iff.mpr unfit
    simp only [ne_eq, not_true_eq_false, if_false, none, if_true]
    rw [rep.blockSize]
    apply Allows.seq (counts_mmapBlockAllocate mutexes rep.toStands (fun base => by simp))
    rintro next ⟨grown, _⟩ asked
    rw [← asked]
    apply Allows.ite
    · exact fun _ => keeps returns
    · exact fun _ => keeps (Keeps.bind (keeps_mmapCalls_allocMallocBlock _ _) fun _ => returns)
  · have fits := found.served.found
    simp only at there
    simp only [if_pos there, fits, reduceCtorEq, if_false, Nat.add_zero]
    simp only at count
    rw [← count]
    exact keeps returns

end VgcMalloc
