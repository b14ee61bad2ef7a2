import VgcMalloc.Refine.Free
import VgcMalloc.Refine.Malloc

/-!
# Runs of the allocator

The lists that are found by following the links in memory are the lists of the
represented abstract heap.  Every state of a run of `vgc_malloc` and
`vgc_free` represents the abstract heap that its lists show, unless the first
MMAP could not be created, which leaves `mmapBlockFirst` at `MAP_FAILED` for
good.
-/

namespace VgcMalloc

open Program Tiling Linked

variable {env : Env} {heap after : Heap} {pages : MmapPages} {guarded : Bool}
  {abstract : AbstractHeap} {region : Region}

/-! ## What the links show -/

/-- The abstract heap that the lists in memory show. -/
def Heap.abstraction (heap : Heap) : AbstractHeap where
  regions := heap.mapped
  listed := heap.mmaps
  entries := heap.blocks

@[simp]
theorem abstraction_regions (heap : Heap) : heap.abstraction.regions = heap.mapped :=
  rfl

@[simp]
theorem abstraction_listed (heap : Heap) : heap.abstraction.listed = heap.mmaps :=
  rfl

@[simp]
theorem abstraction_entries (heap : Heap) : heap.abstraction.entries = heap.blocks :=
  rfl

/-- A debugger sees the represented list as long as it finds the same forward
links. -/
theorem Represents.mmaps_of_next (rep : Represents pages guarded heap abstract)
    (first : after.shared.mmapBlockFirst = heap.shared.mmapBlockFirst)
    (next : ∀ base ∈ abstract.listed, after.nextMmap base = heap.nextMmap base) :
    after.mmaps = abstract.listed := by
  have links : Segment after.nextMmap heap.prevMmap 0 abstract.listed 0 :=
    rep.links.congr next fun _ _ => rfl
  unfold Heap.mmaps
  rw [first, rep.first]
  refine links.follow_eq (by simp) ?_ (Nat.le_of_lt rep.listed_length)
  intro base member
  obtain ⟨region, regionMem, rfl⟩ := rep.listed member
  have placed := rep.wellFormed.placed region regionMem
  have positive := placed.positive
  have user := placed.user
  have nonnull : region.base ≠ 0 := by omega
  simp only [mapFailed_eq, Bool.or_eq_false_iff, beq_eq_false_iff_ne]
  exact ⟨nonnull, by omega⟩

theorem Represents.mmaps_eq (rep : Represents pages guarded heap abstract) :
    heap.mmaps = abstract.listed :=
  rep.mmaps_of_next rfl fun _ _ => rfl

/-- A represented header is seen as its block. -/
theorem HeaderRep.entryAt_eq {base : Nat} {entry : Entry} (rep : HeaderRep heap base entry) :
    heap.entryAt entry.addr = entry := by
  have busy : (statusOf entry.busy == MallocStatus.busy) = entry.busy := by
    cases entry.busy <;> rfl
  rw [Heap.entryAt, rep.size, rep.status, busy]

/-- A debugger sees the represented blocks as long as it finds the same
headers. -/
theorem Stands.blocks_of_headers (stands : Stands pages guarded heap abstract)
    (member : region ∈ abstract.regions)
    (same : ∀ entry ∈ abstract.entries region.base,
      after.mallocHeader entry.addr = heap.mallocHeader entry.addr) :
    after.blocks region.base = abstract.entries region.base := by
  have walk := (stands.site member).walkable
  have links : Segment after.nextBlock after.prevBlock 0
      ((abstract.entries region.base).map Entry.addr) 0 := by
    apply walk.rep.links.congr
    · intro node nodeMem
      obtain ⟨entry, entryMem, rfl⟩ := List.mem_map.mp nodeMem
      exact congrArg MallocHeader.next (same entry entryMem)
    · intro node nodeMem
      obtain ⟨entry, entryMem, rfl⟩ := List.mem_map.mp nodeMem
      exact congrArg MallocHeader.prev (same entry entryMem)
  have found : follow after.nextBlock (fun block => block == 0) walkFuel
      (firstMallocHeaderInMMAP region.base) = (abstract.entries region.base).map Entry.addr := by
    rw [walk.first]
    refine links.follow_eq (by simp) ?_ ?_
    · intro block blockMem
      obtain ⟨entry, entryMem, rfl⟩ := List.mem_map.mp blockMem
      simpa using walk.nonzero entry entryMem
    · rw [List.length_map]
      exact Nat.le_of_lt walk.enough
  unfold Heap.blocks
  rw [found, List.map_map]
  refine (List.map_congr_left fun entry entryMem => ?_).trans (List.map_id _)
  have seenSame : after.entryAt entry.addr = heap.entryAt entry.addr := by
    rw [Heap.entryAt, Heap.entryAt, same entry entryMem]
  exact seenSame.trans (walk.rep.headers entry entryMem).entryAt_eq

theorem Stands.blocks_eq (stands : Stands pages guarded heap abstract)
    (member : region ∈ abstract.regions) :
    heap.blocks region.base = abstract.entries region.base :=
  stands.blocks_of_headers member fun _ _ => rfl

/-- A heap stands for what its lists show when it stands for anything with the
same list of MMAPs. -/
theorem Stands.abstraction (stands : Stands pages guarded heap abstract)
    (listed : heap.mmaps = abstract.listed) : Stands pages guarded heap heap.abstraction := by
  have regions : heap.abstraction.regions = abstract.regions := stands.mapped
  have entries : ∀ region ∈ abstract.regions,
      heap.abstraction.entries region.base = abstract.entries region.base := by
    intro region member
    rw [abstraction_entries]
    exact stands.blocks_eq member
  refine ⟨stands.wellFormed.congr regions listed entries, rfl, ?_, ?_, stands.pageSize,
    stands.blockSize, stands.mode⟩
  · rw [regions]
    intro region member
    rw [entries region member]
    exact stands.regions region member
  · rw [abstraction_listed, listed]
    exact stands.links

theorem Represents.abstraction (rep : Represents pages guarded heap abstract) :
    Represents pages guarded heap heap.abstraction := by
  refine ⟨rep.toStands.abstraction rep.mmaps_eq, ?_⟩
  rw [abstraction_listed, rep.mmaps_eq]
  exact rep.first

/-- Nothing is listed when the first MMAP could not be created. -/
theorem mmaps_eq_nil (failed : heap.shared.mmapBlockFirst = mapFailed) : heap.mmaps = [] := by
  unfold Heap.mmaps
  rw [failed]
  exact follow_of_stop (by simp) _

/-- Nothing is listed while there is no first MMAP. -/
theorem mmaps_eq_nil_of_null (null : heap.shared.mmapBlockFirst = 0) : heap.mmaps = [] := by
  unfold Heap.mmaps
  rw [null]
  exact follow_of_stop (by simp) _

/-! ## Valid heaps -/

/-- The heap stands for what its lists show, and they start at
`mmapBlockFirst` unless that is `MAP_FAILED`. -/
inductive Valid (pages : MmapPages) (guarded : Bool) (heap : Heap) : Prop where
  | live (rep : Represents pages guarded heap heap.abstraction)
  | dead (stands : Stands pages guarded heap heap.abstraction)
      (failed : heap.shared.mmapBlockFirst = mapFailed)

theorem Valid.stands (valid : Valid pages guarded heap) :
    Stands pages guarded heap heap.abstraction := by
  cases valid with
  | live rep => exact rep.toStands
  | dead stands => exact stands

/-- The library starts with nothing mapped. -/
theorem represents_start (pages : MmapPages) (guarded : Bool) :
    Represents pages guarded (start pages guarded).heap ⟨[], [], fun _ => []⟩ := by
  refine ⟨⟨.empty _, rfl, by simp, trivial, rfl, ?_, rfl⟩, rfl⟩
  have bounded := pages.bounded
  exact mul64_of_lt (by rw [systemPageSize_eq]; omega)

theorem valid_start (pages : MmapPages) (guarded : Bool) :
    Valid pages guarded (start pages guarded).heap :=
  .live (represents_start pages guarded).abstraction

/-! ## The effect of a call -/

/-- What a call of `vgc_malloc` or `vgc_free` does to a valid heap. -/
inductive Effect (env : Env) (pages : MmapPages) (guarded : Bool) (heap : Heap) :
    Call → Nat → Heap → Prop where
  | malloc {size memory : Nat} {after : Heap}
      (rep : Represents pages guarded heap heap.abstraction)
      (outcome : MallocOutcome env pages guarded size heap.abstraction heap after memory) :
      Effect env pages guarded heap (.malloc size) memory after
  | free {ptr : Nat} {region : Region} {entry : Entry} {after : Heap}
      (rep : Represents pages guarded heap heap.abstraction) (member : region ∈ heap.mapped)
      (listed : region.base ∈ heap.mmaps) (entryMem : entry ∈ heap.blocks region.base)
      (busy : entry.busy = true) (bound : ptr < 2 ^ 64)
      (resolved : headerOf heap.shared ptr = entry.addr)
      (outcome : FreeOutcome env pages guarded heap.abstraction region entry heap after) :
      Effect env pages guarded heap (.free ptr) 0 after
  | nothing {call : Call}
      (idle : (∃ ptr, call = .free ptr ∧ heap.Rejects ptr) ∨
        heap.shared.mmapBlockFirst = mapFailed) :
      Effect env pages guarded heap call 0 heap

/-- No mapping reaches `MAP_FAILED`. -/
theorem Stands.faults_mapFailed (stands : Stands pages guarded heap abstract)
    {held : List Mutex} :
    Allows seen (readMmapHeader mapFailed) env (heap, held) fun _ _ => False := by
  have unmapped : heap.isMapped mapFailed = false := by
    refine List.any_eq_false.mpr ?_
    intro region member
    have user := (stands.wellFormed.placed region (stands.mapped ▸ member)).user
    rw [mapFailed_eq]
    simp only [decide_eq_true_eq, not_and]
    omega
  refine Allows.of_fault mapFailed ?_
  intro state viewEq
  obtain ⟨rfl, rfl⟩ := Prod.mk.inj viewEq
  refine if_neg ?_
  rw [Heap.mmapAccessible, Heap.isAccessible, unmapped]
  simp only [Bool.false_and, Bool.false_eq_true, not_false_eq_true]

theorem allows_vgcMalloc_dead {size : Nat} (stands : Stands pages guarded heap abstract)
    (failed : heap.shared.mmapBlockFirst = mapFailed) :
    Allows seen (vgcMalloc size) env (heap, []) fun memory final =>
      memory = 0 ∧ final = (heap, []) := by
  have ready : Yields seen initialiseFirstMMAP env (heap, []) fun value after =>
      value = true ∧ after = (heap, []) := by
    unfold initialiseFirstMMAP
    refine Yields.seq yields_getShared ?_
    rintro _ _ ⟨rfl, rfl⟩
    rw [failed, if_pos (by decide)]
    exact Yields.pure ⟨rfl, rfl⟩
  unfold vgcMalloc
  refine Allows.seq ready.allows ?_
  rintro _ _ ⟨rfl, rfl⟩
  simp only [Bool.not_true, Bool.false_eq_true, if_false]
  refine Allows.ite ?_ ?_
  · intro _
    refine Allows.seq yields_vgcMessage.allows ?_
    rintro _ _ rfl
    exact Allows.pure ⟨rfl, rfl⟩
  · intro _
    refine Allows.seq yields_getShared.allows ?_
    rintro _ _ ⟨rfl, rfl⟩
    rw [failed]
    exact Allows.seq stands.faults_mapFailed fun _ _ impossible => impossible.elim

/-- The membership test leaves mapped memory when the first MMAP could not be
created. -/
theorem Stands.faults_isInMmapBlock {ptr : Nat} {held : List Mutex}
    (stands : Stands pages guarded heap abstract)
    (failed : heap.shared.mmapBlockFirst = mapFailed) :
    Allows seen (isInMmapBlock ptr) env (heap, held) fun _ _ => False := by
  unfold isInMmapBlock
  refine Allows.seq yields_getShared.allows ?_
  rintro _ _ ⟨rfl, rfl⟩
  rw [failed]
  cases walkFuel with
  | zero =>
      intro state _ value final ended
      cases ended
  | succ fuel =>
      rw [isInMmapBlockFrom, if_neg (by decide)]
      refine Allows.seq yields_getShared.allows ?_
      rintro _ _ ⟨rfl, rfl⟩
      have missed : ¬(ptr > mapFailed ∧ ptr < add64 mapFailed heap.shared.mmapBlockSize) := by
        have wrapped : add64 mapFailed heap.shared.mmapBlockSize < 2 ^ 64 :=
          Nat.mod_lt _ (by decide)
        rw [mapFailed_eq] at wrapped ⊢
        omega
      rw [if_neg missed]
      exact Allows.seq stands.faults_mapFailed fun _ _ impossible => impossible.elim

theorem allows_vgcFree_dead {ptr : Nat} (mutexes : MutexCallsSucceed env)
    (stands : Stands pages guarded heap abstract)
    (failed : heap.shared.mmapBlockFirst = mapFailed) :
    Allows seen (vgcFree ptr) env (heap, []) fun _ final => final = (heap, []) := by
  unfold vgcFree
  refine Allows.ite ?_ ?_
  · intro _
    refine Allows.seq yields_vgcMessage.allows ?_
    rintro _ _ rfl
    exact Allows.pure rfl
  · intro _
    refine Allows.seq (yields_pthreadMutexLock mutexes rfl List.not_mem_nil).allows ?_
    rintro _ _ ⟨rfl, rfl⟩
    simp only [Bool.not_true, Bool.false_eq_true, if_false]
    refine Allows.seq (stands.faults_isInMmapBlock failed) ?_
    intro _ _ impossible
    exact impossible.elim

/-- A finished `vgc_free` has no result. -/
theorem Call.free_ended {state last : State} {ptr result : Nat}
    (ended : (Call.free ptr).program env state = .ok result last) :
    result = 0 ∧ vgcFree ptr env state = .ok () last := by
  obtain ⟨_, middle, freed, returned⟩ := bind_eq_ok_iff.mp ended
  cases returned
  exact ⟨rfl, freed⟩

/-- Every allowed call has one of the effects. -/
theorem Valid.effect {state : State} {call : Call} {result : Nat} {last : State}
    (valid : Valid pages guarded state.heap) (mutexes : MutexCallsSucceed env)
    (free : state.held = []) (lawful : MallocAndFree state call)
    (ended : call.program env state = .ok result last) :
    last.held = [] ∧ Effect env pages guarded state.heap call result last.heap := by
  have viewEq : seen state = (state.heap, []) := by rw [seen, free]
  cases call with
  | malloc size =>
      cases valid with
      | live rep =>
          have settled : Settles seen (fun _ => True) (vgcMalloc size) env
              (state.heap, []) _ :=
            settles_vgcMalloc mutexes rep fun _ _ _ => trivial
          obtain ⟨unlocked, outcome⟩ := settled.allows state viewEq result last ended
          exact ⟨unlocked, .malloc rep outcome⟩
      | dead stands failed =>
          obtain ⟨rfl, same⟩ := allows_vgcMalloc_dead stands failed state viewEq result last ended
          obtain ⟨heapEq, heldEq⟩ := Prod.mk.inj same
          have kept : last.heap = state.heap := heapEq
          rw [kept]
          exact ⟨heldEq, .nothing (Or.inr failed)⟩
  | free ptr =>
      obtain ⟨rfl, freed⟩ := Call.free_ended ended
      have idle : seen last = (state.heap, []) → ((∃ p, Call.free ptr = .free p ∧
          state.heap.Rejects p) ∨ state.heap.shared.mmapBlockFirst = mapFailed) →
            last.held = [] ∧ Effect env pages guarded state.heap (.free ptr) 0 last.heap := by
        intro same reason
        obtain ⟨heapEq, heldEq⟩ := Prod.mk.inj same
        have kept : last.heap = state.heap := heapEq
        rw [kept]
        exact ⟨heldEq, .nothing reason⟩
      cases valid with
      | dead stands failed =>
          exact idle (allows_vgcFree_dead mutexes stands failed state viewEq _ last freed)
            (Or.inr failed)
      | live rep =>
          rcases lawful with ⟨bound, base, listed, entry, entryMem, busy, resolved⟩ | wrong
          · obtain ⟨region, member, rfl⟩ := rep.listed listed
            rw [← abstraction_entries] at entryMem
            obtain ⟨unlocked, outcome⟩ := (yields_vgcFree mutexes rep member listed entryMem busy
              bound resolved).allows state viewEq _ last freed
            rw [abstraction_entries] at entryMem
            exact ⟨unlocked, .free rep member listed entryMem busy bound resolved outcome⟩
          · exact idle (allows_vgcFree_ignored mutexes rep wrong state viewEq _ last freed)
              (Or.inl ⟨ptr, rfl, wrong⟩)
  | calloc nmemb size => exact lawful.elim
  | realloc ptr size => exact lawful.elim

/-! ## Valid heaps stay valid -/

/-- In guarded mode the bytes of a served request are not zero. -/
theorem alignSize_pos {heap : Heap} {size : Nat} (mode : heap.shared.isMprotectEnabled = guarded)
    (positive : size ≠ 0) : guarded = true → 0 < alignSize heap.shared size := by
  intro guardedEq
  rw [alignSize_of_guarded (mode.trans guardedEq)]
  omega

/-- After a request the heap is represented, or nothing could be mapped. -/
theorem MallocOutcome.represents {size memory : Nat}
    (rep : Represents pages guarded heap abstract)
    (outcome : MallocOutcome env pages guarded size abstract heap after memory) :
    (∃ abstract', Represents pages guarded after abstract') ∨
      abstract.listed = [] ∧ memory = 0 ∧ after = heap.asked.asked.setFirst mapFailed := by
  cases outcome with
  | poisoned empty refused null same => exact Or.inr ⟨empty, null, same⟩
  | refused abstract' extended => exact Or.inl ⟨abstract', extended.represents rep⟩
  | served extendedHeap abstract' middle region entry extended served positive small =>
      exact Or.inl ⟨abstract', served.represents (extended.represents rep)
        (alignSize_pos rep.mode positive)⟩

theorem FreeOutcome.represents {entry : Entry} (rep : Represents pages guarded heap abstract)
    (member : region ∈ abstract.regions) (entryMem : entry ∈ abstract.entries region.base)
    (outcome : FreeOutcome env pages guarded abstract region entry heap after) :
    ∃ abstract', Represents pages guarded after abstract' := by
  cases outcome with
  | released others step => exact ⟨_, rep.free member entryMem step⟩
  | vanished only middle abstract' step vanished => exact ⟨abstract', vanished.represents⟩

theorem Effect.valid {call : Call} {result : Nat} (valid : Valid pages guarded heap)
    (effect : Effect env pages guarded heap call result after) : Valid pages guarded after := by
  cases effect with
  | malloc rep outcome =>
      rcases outcome.represents rep with ⟨abstract', afterRep⟩ | ⟨empty, _, rfl⟩
      · exact .live afterRep.abstraction
      · have stands := rep.toStands.asked.asked.setFirst mapFailed
        refine .dead (stands.abstraction ?_) rfl
        rw [empty]
        exact mmaps_eq_nil rfl
  | free rep member listed entryMem busy bound resolved outcome =>
      rw [← abstraction_entries] at entryMem
      obtain ⟨abstract', afterRep⟩ := outcome.represents rep member entryMem
      exact .live afterRep.abstraction
  | nothing => exact valid

/-- A request that has been served had a represented heap to serve it from. -/
theorem Effect.of_malloc {size memory : Nat}
    (effect : Effect env pages guarded heap (.malloc size) memory after) (served : memory ≠ 0) :
    Represents pages guarded heap heap.abstraction ∧
      MallocOutcome env pages guarded size heap.abstraction heap after memory := by
  cases effect with
  | malloc rep outcome => exact ⟨rep, outcome⟩
  | nothing => exact absurd rfl served

/-- An invariant of valid heaps under the effects of allowed calls holds in
every state of a run. -/
theorem run_invariant {allowed : State → Call → Prop} (Good : Heap → Prop)
    {trace : List Finished} {state : State} (mutexes : MutexCallsSucceed env)
    (lawful : ∀ state call, allowed state call → MallocAndFree state call)
    (base : Good (start pages guarded).heap)
    (preserved : ∀ state call result after, Valid pages guarded state.heap → Good state.heap →
      allowed state call → Effect env pages guarded state.heap call result after → Good after)
    (run : ClientRun env pages guarded allowed trace state) :
    state.held = [] ∧ Valid pages guarded state.heap ∧ Good state.heap := by
  refine Run.invariant (fun state =>
    state.held = [] ∧ Valid pages guarded state.heap ∧ Good state.heap) ?_ ?_ run
  · exact ⟨rfl, valid_start pages guarded, base⟩
  · rintro state call result after ⟨free, valid, good⟩ allows ended
    obtain ⟨unlocked, effect⟩ := valid.effect mutexes free (lawful _ _ allows) ended
    exact ⟨unlocked, effect.valid valid, preserved _ _ _ _ valid good allows effect⟩

/-- Every state of a run is valid. -/
theorem run_valid {allowed : State → Call → Prop} {trace : List Finished} {state : State}
    (mutexes : MutexCallsSucceed env)
    (lawful : ∀ state call, allowed state call → MallocAndFree state call)
    (run : ClientRun env pages guarded allowed trace state) :
    state.held = [] ∧ Valid pages guarded state.heap := by
  have all := run_invariant (fun _ => True) mutexes lawful trivial
    (fun _ _ _ _ _ _ _ _ => trivial) run
  exact ⟨all.1, all.2.1⟩

/-- While some MMAP is listed the heap is represented. -/
theorem Valid.represents {base : Nat} (valid : Valid pages guarded heap)
    (listed : base ∈ heap.mmaps) : Represents pages guarded heap heap.abstraction := by
  cases valid with
  | live rep => exact rep
  | dead stands failed =>
      rw [mmaps_eq_nil failed] at listed
      exact absurd listed List.not_mem_nil

/-- Listed MMAPs are mapped regions. -/
theorem Valid.listed {base : Nat} (valid : Valid pages guarded heap) (member : base ∈ heap.mmaps) :
    ∃ region ∈ heap.mapped, region.base = base :=
  valid.stands.listed member

/-- `vgc_free` of a pointer that resolves to a block in use ends. -/
theorem Valid.free_returns {state : State} {ptr : Nat} {entry : Entry}
    (valid : Valid pages guarded state.heap) (mutexes : MutexCallsSucceed env)
    (free : state.held = []) (listed : region.base ∈ state.heap.mmaps)
    (member : region ∈ state.heap.mapped) (entryMem : entry ∈ state.heap.blocks region.base)
    (busy : entry.busy = true) (bound : ptr < 2 ^ 64)
    (resolved : headerOf state.heap.shared ptr = entry.addr) :
    ∃ last, vgcFree ptr env state = .ok () last ∧
      FreeOutcome env pages guarded state.heap.abstraction region entry state.heap last.heap := by
  have rep := valid.represents listed
  have viewEq : seen state = (state.heap, []) := by rw [seen, free]
  rw [← abstraction_entries] at entryMem
  obtain ⟨value, last, ended, _, outcome⟩ :=
    yields_vgcFree mutexes rep member listed entryMem busy bound resolved state viewEq
  exact ⟨last, ended, outcome⟩

end VgcMalloc
