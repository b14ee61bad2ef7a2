import VgcMalloc.Refine.Actions
import VgcMalloc.Refine.Release

/-!
# Answers by number

The environment answers the calls in the order in which they are made.  Which
answer a lock gets depends on how many calls came before it, so the calls of a
release are counted: there is one for every block that it changes.
-/

namespace VgcMalloc

open Program Tiling Linked

variable {α : Type} {env : Env} {heap after : Heap} {held : List Mutex} {calls : Nat}
  {pages : MmapPages} {guarded : Bool} {abstract : AbstractHeap} {region : Region}
  {front back : List Entry} {entry keeper gone : Entry}

/-! ## Calls -/

/-- The heap, the mutexes held and the number of answered calls. -/
abbrev counted (state : State) : (Heap × List Mutex) × Nat := (seen state, state.calls)

/-- The mutex can be locked by the call of this number. -/
def Env.Locks (env : Env) (held : List Mutex) (call : Nat) (mutex : Mutex) : Prop :=
  env.mutexLock call = true ∧ mutex ∉ held

theorem Env.locks_congr {held' : List Mutex} {call : Nat} {mutex : Mutex}
    (same : mutex ∈ held' ↔ mutex ∈ held) :
    env.Locks held' call mutex ↔ env.Locks held call mutex :=
  and_congr_right fun _ => not_congr same

instance (held : List Mutex) (call : Nat) (mutex : Mutex) : Decidable (env.Locks held call mutex) :=
  inferInstanceAs (Decidable (_ ∧ _))

/-- Every normal end of the program has made this many calls. -/
abbrev Takes (amount : Nat) (program : Vgc α) : Prop := Adds State.calls amount program

theorem silent_emit (message : Message) : Keeps State.calls (emit message) := by
  intro env state value final ended
  cases ended
  rfl

theorem silent_writeMallocField {block value : Nat} {field : MallocField} :
    Keeps State.calls (writeMallocField block field value) := by
  intro env state value final ended
  unfold writeMallocField at ended
  split at ended
  · cases ended
    rfl
  · cases ended

theorem silent_writeMallocFields {block : Nat} {fields : List (MallocField × Nat)} :
    Keeps State.calls (writeMallocFields block fields) := by
  induction fields with
  | nil => exact Keeps.pure ()
  | cons first rest ih => exact Keeps.bind silent_writeMallocField fun _ => ih

theorem silent_writeMmapField {mmapBlock value : Nat} {field : MmapField} :
    Keeps State.calls (writeMmapField mmapBlock field value) := by
  intro env state value final ended
  unfold writeMmapField at ended
  split at ended
  · cases ended
    rfl
  · cases ended

theorem silent_modifyShared {change : Shared → Shared} :
    Keeps State.calls (modifyShared change) := by
  intro env state value final ended
  cases ended
  rfl

theorem takes_answer (choose : Env → Nat → α) : Takes 1 (answer choose) := by
  intro env state value final ended
  cases ended
  rfl

theorem takes_doMprotect {page length : Nat} {none : Bool} :
    Takes 1 (doMprotect page length none) := by
  apply Adds.bind_keeps
  · apply (takes_answer Env.mprotect).bind_keeps
    intro succeeds env state value final ended
    simp only at ended
    split at ended
    · cases ended
      rfl
    · cases ended
      rfl
  · intro succeeds
    apply Keeps.ite (Keeps.pure true)
    apply Keeps.bind (silent_emit _)
    intro _
    exact Keeps.pure false

theorem takes_vgcMprotect {header : Nat} : Takes 1 (vgcMprotect header) :=
  keeps_getShared.bind_adds fun _ => takes_doMprotect

theorem takes_vgcMunprotect {header : Nat} : Takes 1 (vgcMunprotect header) :=
  keeps_getShared.bind_adds fun _ => takes_doMprotect

/-! ## Answers by number -/

theorem counted_answer (choose : Env → Nat → α) :
    Yields counted (answer choose) env ((heap, held), calls) fun value after =>
      value = choose env calls ∧ after = ((heap, held), calls + 1) := by
  intro state viewEq
  cases viewEq
  exact ⟨_, _, rfl, rfl, rfl⟩

theorem counted_vgcMessage {level : Nat} {function title subtitle status : String}
    {args : List Nat} :
    Yields counted (vgcMessage level function title subtitle status args) env
      ((heap, held), calls) fun _ after => after = ((heap, held), calls) := by
  intro state viewEq
  cases viewEq
  exact ⟨_, _, rfl, rfl⟩

theorem counted_vgcMessage_seq {level : Nat} {function title subtitle status : String}
    {args : List Nat} {next : Unit → Vgc α} {post : α → (Heap × List Mutex) × Nat → Prop}
    (rest : Yields counted (next ()) env ((heap, held), calls) post) :
    Yields counted (vgcMessage level function title subtitle status args >>= next) env
      ((heap, held), calls) post := by
  apply Yields.seq counted_vgcMessage
  rintro _ _ rfl
  exact rest

/-- A call that goes on after a failure. -/
theorem counted_orReport {call : Vgc Bool} {function title status : String}
    {post : (Heap × List Mutex) × Nat → Prop}
    (ends : Yields counted call env ((heap, held), calls) fun _ after => post after) :
    Yields counted (orReport call function title status) env ((heap, held), calls)
      fun _ after => post after := by
  apply Yields.seq ends
  rintro succeeds ⟨⟨heap, held⟩, calls⟩ holds
  apply Yields.ite
  · intro _
    exact Yields.pure holds
  · intro _
    apply counted_vgcMessage.mono
    rintro _ _ rfl
    exact holds

theorem counted_pthreadMutexLock {mutex : Mutex} (accessible : mutexAccessible heap mutex = true) :
    Yields counted (pthreadMutexLock mutex) env ((heap, held), calls) fun value after =>
      value = decide (env.Locks held calls mutex) ∧
        after =
          ((heap, if env.Locks held calls mutex then mutex :: held else held), calls + 1) := by
  apply Yields.seq (counted_answer Env.mutexLock)
  rintro _ _ ⟨rfl, rfl⟩
  by_cases locks : env.Locks held calls mutex
  · rintro ⟨_, _, _, _, _⟩ viewEq
    cases viewEq
    refine ⟨_, _, (if_pos accessible).trans (if_pos locks), ?_, ?_⟩
    · exact (decide_eq_true locks).symm
    · rw [if_pos locks]
      rfl
  · rintro ⟨_, _, _, _, _⟩ viewEq
    cases viewEq
    refine ⟨_, _, (if_pos accessible).trans (if_neg locks), ?_, ?_⟩
    · exact (decide_eq_false locks).symm
    · rw [if_neg locks]
      rfl

theorem counted_pthreadMutexUnlock {mutex : Mutex}
    (accessible : mutexAccessible heap mutex = true) :
    Yields counted (pthreadMutexUnlock mutex) env ((heap, mutex :: held), calls)
      fun value after => value = env.mutexUnlock calls ∧
        after = ((heap, if env.mutexUnlock calls = true then held else mutex :: held),
          calls + 1) := by
  apply Yields.seq (counted_answer Env.mutexUnlock)
  rintro _ _ ⟨rfl, rfl⟩ ⟨_, _, _, _, _⟩ viewEq
  cases viewEq
  cases unlocks : env.mutexUnlock calls with
  | true =>
      refine ⟨_, _, (if_pos accessible).trans (if_pos ⟨rfl, List.mem_cons_self⟩), rfl, ?_⟩
      simp [seen]
  | false =>
      exact ⟨_, _, (if_pos accessible).trans (if_neg (by simp)), rfl, rfl⟩

/-- Giving a mutex back concerns no other mutex. -/
theorem counted_unlock {mutex : Mutex} {function title status : String}
    (accessible : mutexAccessible heap mutex = true) :
    Yields counted (orReport (pthreadMutexUnlock mutex) function title status) env
      ((heap, held), calls) fun _ after => after.1.1 = heap ∧ after.2 = calls + 1 ∧
        (∀ other, other ≠ mutex → (other ∈ after.1.2 ↔ other ∈ held)) ∧
        ((∀ call, env.mutexUnlock call = true) → after.1.2 = held.erase mutex) := by
  apply counted_orReport
  apply Yields.seq (counted_answer Env.mutexUnlock)
  rintro _ _ ⟨rfl, rfl⟩
  by_cases unlocks : env.mutexUnlock calls = true ∧ mutex ∈ held
  · rintro ⟨_, _, _, _, _⟩ viewEq
    cases viewEq
    refine ⟨_, _, (if_pos accessible).trans (if_pos unlocks), rfl, rfl, ?_, fun _ => rfl⟩
    intro other ne
    exact List.mem_erase_of_ne ne
  · rintro ⟨_, _, _, _, _⟩ viewEq
    cases viewEq
    refine ⟨_, _, (if_pos accessible).trans (if_neg unlocks), rfl, rfl, fun _ _ => Iff.rfl, ?_⟩
    intro all
    exact (List.erase_of_not_mem fun holds => unlocks ⟨all _, holds⟩).symm

/-- The heap after a call of `munmap` with this number. -/
def Heap.unmapped (heap : Heap) (env : Env) (call base length : Nat) : Heap :=
  if env.munmap call = true ∧ length ≠ 0 ∧ base % systemPageSize = 0 then
    heap.removeRegion base length
  else heap

theorem counted_munmap (base length : Nat) :
    Yields counted (munmap base length) env ((heap, held), calls) fun _ after =>
      after = ((heap.unmapped env calls base length, held), calls + 1) := by
  apply Yields.seq (counted_answer Env.munmap)
  rintro _ _ ⟨rfl, rfl⟩
  apply Yields.ite
  · rintro works ⟨_, _, _, _, _⟩ viewEq
    cases viewEq
    refine ⟨_, _, rfl, ?_⟩
    rw [Heap.unmapped, if_pos works]
    rfl
  · intro fails
    apply Yields.pure
    rw [Heap.unmapped, if_neg fails]

/-- The cleanup passes the size that the header holds. -/
theorem counted_unmapOrReport {function : String} {base : Nat}
    (readable : heap.mmapAccessible base = true) :
    Yields counted (unmapOrReport function base) env ((heap, held), calls) fun _ after =>
      after = ((heap.unmapped env calls base (heap.mmapHeader base).size, held), calls + 1) := by
  apply Yields.seq ((yields_readMmapHeader readable).silently (keeps_readMmapHeader base) calls)
  rintro _ _ ⟨rfl, rfl⟩
  apply counted_orReport
  exact counted_munmap base _

/-! ## Merges -/

/-- A merge makes one call. -/
theorem takes_absorbBlock {keeper gone : Nat} : Takes 1 (absorbBlock keeper gone) := by
  apply takes_vgcMunprotect.bind_keeps
  intro _
  apply Keeps.bind (keeps_readMallocHeader keeper)
  intro keeperHeader
  apply Keeps.bind (keeps_readMallocHeader gone)
  intro goneHeader
  apply Keeps.bind silent_writeMallocFields
  intro _
  exact Keeps.when silent_writeMallocField

/-! ## The calls of a release -/

theorem counted_readMallocHeader {block : Nat} (accessible : heap.mallocAccessible block = true) :
    Yields counted (readMallocHeader block) env ((heap, held), calls) fun value after =>
      value = heap.mallocHeader block ∧ after = ((heap, held), calls) :=
  (yields_readMallocHeader accessible).silently (keeps_readMallocHeader block) calls

/-- Merging with the next block makes one call for the block that goes. -/
theorem calls_freeBlocksNext {base : Nat} (nonzero : ∀ x ∈ back, x.addr ≠ 0)
    (rep : BlockRep heap base 0 (front ++ keeper :: back)) :
    Allows counted (freeBlocksNext keeper.addr) env ((heap, held), calls) fun _ after =>
      after.2 + (absorb 8192 keeper back).length = calls + (back.length + 1) := by
  have header := rep.headers keeper (by simp)
  have links := rep.links
  rw [List.map_append, List.map_cons] at links
  have next : (heap.mallocHeader keeper.addr).next = (back.map Entry.addr).headD 0 :=
    links.links.2
  unfold freeBlocksNext
  apply Allows.seq (counted_readMallocHeader header.accessible).allows
  rintro _ _ ⟨rfl, rfl⟩
  rw [next]
  cases back with
  | nil => exact Allows.when (fun present => absurd rfl present) fun _ => rfl
  | cons gone rest =>
      have goneHeader := rep.headers gone (by simp)
      apply Allows.when _ fun null => absurd null (not_not_intro (nonzero gone List.mem_cons_self))
      intro _
      rw [List.map_cons, List.headD_cons]
      apply Allows.seq (counted_readMallocHeader goneHeader.accessible).allows
      rintro _ _ ⟨rfl, rfl⟩
      rw [goneHeader.status]
      cases busy : gone.busy with
      | true =>
          rw [absorb, if_pos busy]
          exact Allows.when (fun free => absurd free (by decide)) fun _ => rfl
      | false =>
          rw [absorb, if_neg (by simp [busy])]
          apply Allows.when _ fun used => absurd rfl used
          intro _
          refine (takes_absorbBlock.allows calls).mono ?_
          intro _ after more
          rw [more, List.length_cons, List.length_cons]
          omega

/-- Merging with the previous block makes one call when that one is free. -/
theorem calls_freeBlocksPrev_busy {base : Nat} (nonzero : ∀ x ∈ front, x.addr ≠ 0)
    (rep : BlockRep heap base 0 (front ++ keeper :: back))
    (before : ∀ x ∈ front.getLast?, x.busy = true) :
    Allows counted (freeBlocksPrev keeper.addr) env ((heap, held), calls) fun _ after =>
      after.2 = calls := by
  have header := rep.headers keeper (by simp)
  have links := rep.links
  rw [List.map_append, List.map_cons] at links
  have prev : (heap.mallocHeader keeper.addr).prev = (front.map Entry.addr).getLastD 0 :=
    links.links.1
  unfold freeBlocksPrev
  apply Allows.seq (counted_readMallocHeader header.accessible).allows
  rintro _ _ ⟨rfl, rfl⟩
  rw [prev]
  rcases List.eq_nil_or_concat front with rfl | ⟨front', left, rfl⟩
  · exact Allows.when (fun present => absurd rfl present) fun _ => rfl
  · have leftHeader := rep.headers left (by simp)
    have last : ((front'.concat left).map Entry.addr).getLastD 0 = left.addr := by simp
    rw [last]
    apply Allows.when _ fun null => absurd null (not_not_intro (nonzero left (by simp)))
    intro _
    apply Allows.seq (counted_readMallocHeader leftHeader.accessible).allows
    rintro _ _ ⟨rfl, rfl⟩
    rw [leftHeader.status, before left (by simp)]
    exact Allows.when (fun free => absurd free (by decide)) fun _ => rfl

theorem calls_freeBlocksPrev_free {base : Nat} (nonzero : keeper.addr ≠ 0)
    (rep : BlockRep heap base 0 (front ++ keeper :: gone :: back)) (free : keeper.busy = false) :
    Allows counted (freeBlocksPrev gone.addr) env ((heap, held), calls) fun _ after =>
      after.2 = calls + 1 := by
  have keeperHeader := rep.headers keeper (by simp)
  have header := rep.headers gone (by simp)
  have links := rep.links
  rw [List.map_append, List.map_cons, List.map_cons] at links
  have prev : (heap.mallocHeader gone.addr).prev = keeper.addr :=
    (segment_append.mp links).2.2.2.1
  unfold freeBlocksPrev
  apply Allows.seq (counted_readMallocHeader header.accessible).allows
  rintro _ _ ⟨rfl, rfl⟩
  rw [prev]
  apply Allows.when _ fun null => absurd null (not_not_intro nonzero)
  intro _
  apply Allows.seq (counted_readMallocHeader keeperHeader.accessible).allows
  rintro _ _ ⟨rfl, rfl⟩
  rw [keeperHeader.status, free]
  apply Allows.when _ fun used => absurd rfl used
  intro _
  exact takes_absorbBlock.allows calls

/-- A release makes one call for its block and one for every block that
goes. -/
theorem calls_releaseBlock (placed : region.Placed pages.bytes) (mapped : region ∈ heap.mapped)
    (pageSize : heap.shared.pageSize = 4096)
    (tiles : Contiguous 8192 (region.base + 4096) (front ++ entry :: back)
      (region.base + region.length))
    (rep : BlockRep heap region.base 0 (front ++ entry :: back)) :
    Allows counted (releaseBlock entry.addr) env ((heap, held), calls) fun _ after =>
      after.2 + (release 8192 entry.addr (front ++ entry :: back)).length =
        calls + 1 + (front ++ entry :: back).length := by
  have positive : ∀ x ∈ front ++ entry :: back, x.addr ≠ 0 := by
    intro x member
    have bounds := tiles.bounds member
    omega
  have split : releaseBlock entry.addr =
      ((do
        writeMallocField entry.addr .status MallocStatus.free.toWord
        let _ ← vgcMunprotect entry.addr
        return ()) >>= fun _ => freeBlocksNext entry.addr >>= fun _ =>
          freeBlocksPrev entry.addr) := by
    simp only [bind_assoc, pure_bind]
    rfl
  have marked : Yields seen (do
      writeMallocField entry.addr .status MallocStatus.free.toWord
      let _ ← vgcMunprotect entry.addr
      return ()) env (heap, held) fun _ after => after.2 = held ∧
        BlockStep env region (front ++ entry :: back) (front ++ entry.freed :: back)
          (fun page => page = entry.addr) heap after.1 :=
    yields_markFree placed mapped pageSize tiles rep fun _ step => Yields.pure ⟨rfl, step⟩
  rw [split]
  apply Allows.seq (marked.counting (silent_writeMallocField.bind_adds fun _ =>
    takes_vgcMunprotect.bind_keeps fun _ => Keeps.pure ()) calls).allows
  rintro _ ⟨⟨middle, held⟩, _⟩ ⟨⟨_, freed⟩, rfl⟩
  have freedTiles := tiles.freed
  have middleMapped : region ∈ middle.mapped := freed.lifts.mapped.symm ▸ mapped
  have merges : Yields seen (freeBlocksNext entry.freed.addr) env (middle, held) _ :=
    yields_freeBlocksNext placed middleMapped (freed.lifts.pageSize pageSize) freedTiles
      freed.blocks
  have behind : ∀ x ∈ back, x.addr ≠ 0 := fun x member => positive x (by simp [member])
  apply Allows.seq ((merges.uncounted (calls + 1)).and
    (calls_freeBlocksNext behind freed.blocks)).allows
  rintro _ ⟨⟨last, held⟩, count⟩ ⟨⟨_, absorbed⟩, more⟩
  have blocks := absorbed.blocks
  obtain ⟨size, rest, shape⟩ := exists_absorb_eq 8192 entry.freed back
  simp only at more
  rw [shape] at blocks
  rcases release_cases (by decide) tiles with ⟨before, released⟩ |
    ⟨front', left, rfl, free, released⟩
  · have kept : Allows counted (freeBlocksPrev (⟨entry.addr, size, false⟩ : Entry).addr) env
        ((last, held), count) _ := calls_freeBlocksPrev_busy
      (fun x member => positive x (by simp [member])) blocks before
    refine kept.mono ?_
    intro _ after same
    rw [same, released, List.length_append, List.length_append, List.length_cons]
    omega
  · rw [List.append_assoc, List.singleton_append] at blocks
    have taken : Allows counted (freeBlocksPrev (⟨entry.addr, size, false⟩ : Entry).addr) env
        ((last, held), count) _ := calls_freeBlocksPrev_free (positive left (by simp)) blocks free
    refine taken.mono ?_
    intro _ after same
    rw [shape, List.length_cons] at more
    rw [same, released, shape, absorb, if_neg (by simp)]
    simp only [List.length_append, List.length_cons, List.length_nil]
    omega

end VgcMalloc
