import VgcMalloc.Guarantees.Contents
import VgcMalloc.Guarantees.Sharing

/-!
# Steps between those of other processes

What the steps of `vgc_malloc` do to a valid heap in which other processes have
created MMAPs that nobody lists yet, have replaced the first MMAP, or have
cleared it.
-/

namespace VgcMalloc

open Program Tiling Linked

variable {env : Env} {heap after middle : Heap} {held : List Mutex} {pages : MmapPages}
  {guarded : Bool} {abstract : AbstractHeap} {region : Region} {entry x : Entry}
  {need memory size : Nat}

/-! ## What every step keeps -/

/-- The blocks in use stay in use with the bytes of their payloads. -/
def Undisturbed (heap after : Heap) : Prop :=
  ∀ x, heap.Busy x → after.Busy x ∧ SamePayload heap after x

theorem Undisturbed.refl (heap : Heap) : Undisturbed heap heap :=
  fun _ busy => ⟨busy, fun _ _ _ => rfl⟩

theorem Undisturbed.trans {last : Heap} (first : Undisturbed heap middle)
    (second : Undisturbed middle last) : Undisturbed heap last := by
  intro x busy
  obtain ⟨stays, same⟩ := first x busy
  obtain ⟨still, again⟩ := second x stays
  exact ⟨still, same.trans again⟩

/-- A heap that stands for some lists is valid when they start at
`mmapBlockFirst`. -/
theorem Stands.valid (stands : Stands pages guarded heap abstract)
    (first : heap.shared.mmapBlockFirst = abstract.listed.headD 0 ∨
      heap.shared.mmapBlockFirst = mapFailed ∧ abstract.listed = []) :
    Valid pages guarded heap ∧ heap.mmaps = abstract.listed := by
  rcases first with first | ⟨failed, empty⟩
  · have rep : Represents pages guarded heap abstract := ⟨stands, first⟩
    exact ⟨.live rep.abstraction, rep.mmaps_eq⟩
  · have none : heap.mmaps = abstract.listed := by
      rw [empty]
      exact mmaps_eq_nil failed
    exact ⟨.dead (stands.abstraction none) failed, none⟩

theorem Valid.first (valid : Valid pages guarded heap) :
    heap.shared.mmapBlockFirst = heap.mmaps.headD 0 ∨
      heap.shared.mmapBlockFirst = mapFailed ∧ heap.mmaps = [] := by
  cases valid with
  | live rep => exact Or.inl rep.first
  | dead stands failed => exact Or.inr ⟨failed, mmaps_eq_nil failed⟩

/-- MMAPs in waiting stay when nobody lists them and their links stay. -/
theorem sparesKept_of_links
    (mapped : ∀ region ∈ heap.mapped, region.base ∉ heap.mmaps → region ∈ after.mapped)
    (unlisted : ∀ mmapBlock ∈ after.mmaps, ¬heap.Spare mmapBlock)
    (links : ∀ region ∈ heap.mapped, region.base ∉ heap.mmaps →
      after.nextMmap region.base = heap.nextMmap region.base ∧
        after.prevMmap region.base = heap.prevMmap region.base) :
    SparesKept heap after := by
  intro mmapBlock spare
  obtain ⟨⟨other, otherMem, rfl⟩, lost, next, prev⟩ := id spare
  obtain ⟨nextEq, prevEq⟩ := links other otherMem lost
  exact ⟨⟨other, mapped other otherMem lost, rfl⟩, fun again => unlisted _ again spare,
    nextEq.trans next, prevEq.trans prev⟩

/-- What the steps do that take no block into use. -/
structure KeepsBlocks (pages : MmapPages) (guarded : Bool) (heap after : Heap) : Prop where
  valid : Valid pages guarded after
  spares : SparesKept heap after
  undisturbed : Undisturbed heap after
  old : ∀ x, after.Busy x → heap.Busy x

theorem KeepsBlocks.busy_iff (keeps : KeepsBlocks pages guarded heap after) :
    after.Busy x ↔ heap.Busy x :=
  ⟨keeps.old x, fun busy => (keeps.undisturbed x busy).1⟩

/-- The kernel has refused both lengths. -/
theorem Valid.asked (valid : Valid pages guarded heap) :
    KeepsBlocks pages guarded heap heap.asked.asked := by
  have stands : Stands pages guarded heap.asked.asked heap.abstraction := valid.stands.asked.asked
  obtain ⟨valid', mmaps⟩ := stands.valid valid.first
  have busyIff : ∀ x, heap.asked.asked.Busy x ↔ heap.Busy x := fun x =>
    stands.busy_iff.trans valid.stands.busy_iff.symm
  refine ⟨valid', ?_, ?_, fun x => (busyIff x).mp⟩
  · apply sparesKept_of_links
    · exact fun _ member _ => member
    · intro base listed spare
      rw [mmaps] at listed
      exact spare.unlisted listed
    · exact fun _ _ _ => ⟨rfl, rfl⟩
  · exact fun x busy => ⟨(busyIff x).mpr busy, fun _ _ _ => rfl⟩

/-! ## Reservations -/

/-- What the creation of an MMAP that nobody lists yet does to the heap. -/
structure Reserves (pages : MmapPages) (guarded : Bool) (region : Region) (heap after : Heap) :
    Prop where
  stands : Stands pages guarded after
    { (heap.abstraction.create region) with listed := heap.mmaps }
  keeps : KeepsBlocks pages guarded heap after
  spare : after.Spare region.base
  fresh : ¬heap.Spare region.base

theorem Valid.reserves (valid : Valid pages guarded heap)
    (chosen : heap.newRegion env pages = some region) (created : Created env region 0 heap after) :
    Reserves pages guarded region heap after := by
  have stands := valid.stands
  obtain ⟨placed, _, apart⟩ := newRegion_placed chosen
  have alone : Stands pages guarded heap { heap.abstraction with listed := [] } :=
    stands.relist (by simp) List.nodup_nil segment_nil
  have grown := alone.create placed apart created
  have headers : ∀ other ∈ heap.mapped, after.mmapHeader other.base = heap.mmapHeader other.base :=
    fun other otherMem => created.header_eq (apart other otherMem)
      (stands.wellFormed.placed other otherMem) fun present => absurd rfl present
  have next : ∀ other ∈ heap.mapped, after.nextMmap other.base = heap.nextMmap other.base :=
    fun other otherMem => congrArg MmapHeader.next (headers other otherMem)
  have prev : ∀ other ∈ heap.mapped, after.prevMmap other.base = heap.prevMmap other.base :=
    fun other otherMem => congrArg MmapHeader.prev (headers other otherMem)
  have links : Segment after.nextMmap after.prevMmap 0 heap.mmaps 0 := by
    apply stands.links.congr
    · intro base listed
      obtain ⟨other, otherMem, rfl⟩ := stands.listed listed
      exact next other otherMem
    · intro base listed
      obtain ⟨other, otherMem, rfl⟩ := stands.listed listed
      exact prev other otherMem
  have known : ∀ base ∈ heap.mmaps, ∃ other ∈ region :: heap.mapped, other.base = base := by
    intro base listed
    obtain ⟨other, otherMem, same⟩ := stands.wellFormed.mapped base listed
    exact ⟨other, List.mem_cons_of_mem _ otherMem, same⟩
  have relisted := grown.relist known stands.wellFormed.nodup links
  have first : after.shared.mmapBlockFirst = heap.shared.mmapBlockFirst := by
    rw [created.shared]
  obtain ⟨valid', mmaps⟩ := relisted.valid (first ▸ valid.first)
  simp only at mmaps
  have unlisted := stands.wellFormed.base_not_mem_listed placed apart
  have busyIff : ∀ x, after.Busy x ↔ heap.Busy x := by
    intro x
    rw [relisted.busy_iff, stands.busy_iff]
    exact AbstractHeap.busy_create_iff alone.wellFormed placed apart
  refine ⟨relisted, ⟨valid', ?_, ?_, fun x => (busyIff x).mp⟩,
    ⟨⟨region, ?_, rfl⟩, ?_, ?_, ?_⟩, ?_⟩
  · apply sparesKept_of_links
    · intro other otherMem _
      rw [created.mapped]
      exact List.mem_cons_of_mem _ otherMem
    · rintro base listed spare
      rw [mmaps] at listed
      exact spare.unlisted listed
    · exact fun other otherMem _ => ⟨next other otherMem, prev other otherMem⟩
  · intro x busy
    refine ⟨(busyIff x).mpr busy, ?_⟩
    intro address low high
    obtain ⟨owner, ownerMem, xMem, _⟩ := busy
    have bounds := (stands.wellFormed.tiles owner ownerMem).bounds xMem
    have disjoint := apart owner ownerMem
    unfold Region.Disjoint at disjoint
    rw [mallocHeaderSize_eq] at low high
    exact created.memory address (by omega) fun present => absurd rfl present
  · rw [created.mapped]
    exact List.mem_cons_self
  · rw [mmaps]
    exact unlisted
  · rw [Heap.nextMmap, created.mmap]
  · rw [Heap.prevMmap, created.mmap]
  · rintro ⟨⟨other, otherMem, same⟩, _⟩
    exact stands.wellFormed.base_ne placed apart otherMem same

/-! ## Stores of the first MMAP -/

/-- No mapping starts at `MAP_FAILED`. -/
theorem Valid.not_spare_mapFailed (valid : Valid pages guarded heap) : ¬heap.Spare mapFailed := by
  rintro ⟨⟨region, member, base⟩, _⟩
  have user := (valid.stands.wellFormed.placed region member).user
  rw [mapFailed_eq] at base
  omega

/-- The blocks in use do not depend on the list of MMAPs. -/
theorem Stands.undisturbed_setFirst {listed : List Nat} {first : Nat}
    (stands : Stands pages guarded heap abstract)
    (relisted : Stands pages guarded (heap.setFirst first) { abstract with listed := listed }) :
    Undisturbed heap (heap.setFirst first) ∧ ∀ x, (heap.setFirst first).Busy x → heap.Busy x := by
  have same : ∀ x, (heap.setFirst first).Busy x ↔ heap.Busy x := fun x =>
    relisted.busy_iff.trans stands.busy_iff.symm
  exact ⟨fun x busy => ⟨(same x).mpr busy, fun _ _ _ => rfl⟩, fun x busy => (same x).mp busy⟩

/-- The store of an MMAP in waiting or of `MAP_FAILED`. -/
theorem Valid.stored (valid : Valid pages guarded heap) {first : Nat}
    (known : heap.Spare first ∨ first = mapFailed) :
    Valid pages guarded (heap.setFirst first) ∧ Undisturbed heap (heap.setFirst first) ∧
      (∀ x, (heap.setFirst first).Busy x → heap.Busy x) ∧
      ∀ mmapBlock, mmapBlock ≠ first → heap.Spare mmapBlock →
        (heap.setFirst first).Spare mmapBlock := by
  have stands := valid.stands
  rcases known with ⟨mapped, unlisted, next, prev⟩ | failed
  · have alone : Stands pages guarded heap { heap.abstraction with listed := [first] } :=
      stands.relist (by simpa using mapped) (List.nodup_singleton _) ⟨prev, next, segment_nil⟩
    have relisted := alone.setFirst first
    obtain ⟨valid', mmaps⟩ := relisted.valid (Or.inl rfl)
    obtain ⟨kept, old⟩ := stands.undisturbed_setFirst relisted
    refine ⟨valid', kept, old, ?_⟩
    intro mmapBlock ne spare
    refine ⟨spare.mapped, ?_, spare.next, spare.prev⟩
    rw [mmaps]
    simpa using ne
  · have cleared : Stands pages guarded heap { heap.abstraction with listed := [] } :=
      stands.relist (by simp) List.nodup_nil segment_nil
    have relisted := cleared.setFirst first
    obtain ⟨valid', mmaps⟩ := relisted.valid (Or.inr ⟨failed, rfl⟩)
    obtain ⟨kept, old⟩ := stands.undisturbed_setFirst relisted
    refine ⟨valid', kept, old, ?_⟩
    intro mmapBlock _ spare
    refine ⟨spare.mapped, ?_, spare.next, spare.prev⟩
    rw [mmaps]
    exact List.not_mem_nil

/-! ## Grants -/

/-- What a search does to the heap, for a process that asks for `need`
bytes. -/
structure Searches (pages : MmapPages) (guarded : Bool) (need : Nat) (heap after : Heap)
    (memory : Nat) : Prop where
  valid : Valid pages guarded after
  spares : SparesKept heap after
  undisturbed : Undisturbed heap after
  result : (memory = 0 ∧ ∀ x, after.Busy x → heap.Busy x) ∨
    memory ≠ 0 ∧ ∃ granted, (∀ x, heap.Busy x → x.addr ≠ granted.addr) ∧
      (∀ x, after.Busy x ↔ heap.Busy x ∨ x = granted) ∧
      memory = AbstractHeap.pointerOf guarded granted.addr need ∧ need ≤ granted.size

/-- What has been done to the heap before a search. -/
theorem Searches.after_step (keeps : KeepsBlocks pages guarded heap middle)
    (searches : Searches pages guarded need middle after memory) :
    Searches pages guarded need heap after memory := by
  refine ⟨searches.valid, keeps.spares.trans searches.spares,
    keeps.undisturbed.trans searches.undisturbed, ?_⟩
  simpa only [keeps.busy_iff] using searches.result

/-- A search that finds nothing. -/
theorem KeepsBlocks.searches (keeps : KeepsBlocks pages guarded heap after) (null : memory = 0) :
    Searches pages guarded need heap after memory :=
  ⟨keeps.valid, keeps.spares, keeps.undisturbed, Or.inl ⟨null, keeps.old⟩⟩

/-- The blocks in use after a grant from a block of any mapped region. -/
theorem AbstractHeap.busy_grant_iff {front back : List Entry} {length : Nat}
    (member : region ∈ abstract.regions)
    (split : abstract.entries region.base = front ++ entry :: back) (isFree : entry.busy = false) :
    (abstract.setEntries region.base (front ++ grantEntry 8192 length entry ++ back)).Busy x ↔
      abstract.Busy x ∨ x = grantedEntry 8192 length entry := by
  have old := @busy_setEntries_iff region x abstract (front ++ entry :: back) member
  rw [← split, setEntries_self, split] at old
  rw [busy_setEntries_iff member, old]
  by_cases busy : x.busy = true
  · simp only [mem_grantEntry_busy isFree busy, busy, and_true, or_assoc]
  · have ne : x ≠ grantedEntry 8192 length entry := by
      rintro rfl
      exact busy rfl
    simp [busy, ne]

/-- A block that is granted has the bytes that were asked for. -/
theorem AbstractHeap.le_grantedEntry_size (enough : need ≤ entry.size) :
    need ≤ (grantedEntry 8192 (grantLength guarded need) entry).size := by
  unfold grantedEntry grantLength
  cases guarded with
  | true =>
      simp only [if_true]
      split
      · omega
      · exact enough
  | false =>
      simp only [Bool.false_eq_true, if_false]
      split
      · exact Nat.le_refl _
      · exact enough

/-- No block in use starts where a free one does. -/
theorem Stands.addr_ne_of_free (stands : Stands pages guarded heap abstract)
    (member : region ∈ abstract.regions) (entryMem : entry ∈ abstract.entries region.base)
    (isFree : entry.busy = false) (busy : heap.Busy x) : x.addr ≠ entry.addr := by
  intro sameAddr
  obtain ⟨other, otherMem, xMem, xBusy⟩ := stands.busy_iff.mp busy
  rcases stands.blocks_disjoint otherMem xMem member entryMem with rfl | apart
  · rw [isFree] at xBusy
    cases xBusy
  · omega

/-- A grant from a block of any mapped region, listed or not. -/
theorem Represents.grants {front back : List Entry} (rep : Represents pages guarded heap abstract)
    (member : region ∈ abstract.regions)
    (split : abstract.entries region.base = front ++ entry :: back) (fits : Fits need entry)
    (positive : guarded = true → 0 < need)
    (pointer : memory = AbstractHeap.pointerOf guarded entry.addr need)
    (step : RegionStep env region (abstract.entries region.base)
      (front ++ grantEntry 8192 (AbstractHeap.grantLength guarded need) entry ++ back)
      (fun _ => False) heap after) :
    Searches pages guarded need heap after memory := by
  have wf := rep.wellFormed
  have wellFormed : (abstract.setEntries region.base
      (front ++ grantEntry 8192 (AbstractHeap.grantLength guarded need) entry ++ back)).WellFormed
        pages.bytes guarded := by
    apply wf.grant member split fits.1
    rintro rfl
    exact AbstractHeap.grantLength_whole (positive rfl)
  have finalRep := rep.edit member wellFormed step
  have busyIff : ∀ x, after.Busy x ↔ heap.Busy x ∨
      x = grantedEntry 8192 (AbstractHeap.grantLength guarded need) entry := by
    intro x
    rw [finalRep.busy_iff, rep.busy_iff]
    exact AbstractHeap.busy_grant_iff member split fits.1
  have entryMem : entry ∈ abstract.entries region.base := by simp [split]
  refine ⟨.live finalRep.abstraction, ?_, ?_, Or.inr ⟨?_, _, ?_, busyIff, pointer, ?_⟩⟩
  · apply sparesKept_of_links
    · intro other otherMem _
      rw [finalRep.mapped]
      exact rep.mapped ▸ otherMem
    · intro base listed spare
      rw [finalRep.mmaps_eq] at listed
      exact spare.unlisted (rep.mmaps_eq ▸ listed)
    · intro other otherMem _
      rw [rep.mapped] at otherMem
      by_cases same : region = other
      · subst same
        exact step.links
      · have tiles' := wellFormed.tiles region member
        rw [AbstractHeap.setEntries_entries] at tiles'
        have room := (wf.placed other otherMem).room
        have header : after.mmapHeader other.base = heap.mmapHeader other.base := by
          apply Bytes.mmapHeader_congr
          intro x low high
          exact (step.outside (wf.placed region member) (wf.placed other otherMem)
            (wf.disjoint_of_ne member otherMem same) (wf.tiles region member) tiles' low
            (by omega)).1
        exact ⟨congrArg MmapHeader.next header, congrArg MmapHeader.prev header⟩
  · intro x busy
    have stays := (busyIff x).mpr (Or.inl busy)
    exact ⟨stays, (rep.sameBehind_step member wellFormed step (rep.busy_iff.mp busy)
      (finalRep.busy_iff.mp stays)).payload⟩
  · rw [pointer, AbstractHeap.pointerOf]
    omega
  · intro x busy
    have apart : x.addr ≠ entry.addr := rep.addr_ne_of_free member entryMem fits.1 busy
    exact apart
  · exact AbstractHeap.le_grantedEntry_size fits.2

/-! ## Searches -/

/-- The creation of an MMAP that nobody lists yet. -/
theorem Valid.yields_mmapBlockAllocate (valid : Valid pages guarded heap)
    (mutexes : MutexCallsSucceed env) (unheld : ∀ base, Mutex.mmapBlock base ∉ held) :
    Yields seen (mmapBlockAllocate pages.bytes 0) env (heap, held) fun value final =>
      final.2 = held ∧ CreateOutcome env pages 0 heap final.1 value := by
  have alone : Stands pages guarded heap { heap.abstraction with listed := [] } :=
    valid.stands.relist (by simp) List.nodup_nil segment_nil
  have none : ({ heap.abstraction with listed := [] } : AbstractHeap).lastListed = 0 := rfl
  have created := VgcMalloc.yields_mmapBlockAllocate mutexes alone unheld
  rw [none] at created
  exact created

/-- `createFirst` fails, or adds an MMAP that waits for its store. -/
theorem Valid.yields_createFirst (valid : Valid pages guarded heap)
    (mutexes : MutexCallsSucceed env) :
    Yields seen createFirst env (heap, []) fun value final => final.2 = [] ∧
      KeepsBlocks pages guarded heap final.1 ∧
        final.1.shared.mmapBlockFirst = heap.shared.mmapBlockFirst ∧
          (value = mapFailed ∨ final.1.Spare value ∧ ¬heap.Spare value) := by
  unfold createFirst
  apply Yields.seq yields_getShared
  rintro _ _ ⟨rfl, rfl⟩
  rw [valid.stands.blockSize]
  apply (valid.yields_mmapBlockAllocate mutexes (fun base => List.not_mem_nil)).mono
  rintro value ⟨final, _⟩ ⟨rfl, outcome⟩
  refine ⟨rfl, ?_⟩
  cases outcome with
  | failed refused failed same =>
      simp only at same
      subst same
      exact ⟨valid.asked, rfl, Or.inl failed⟩
  | created region chosen address created =>
      subst address
      have reserves := valid.reserves chosen created
      have first : final.shared.mmapBlockFirst = heap.shared.mmapBlockFirst := by
        rw [created.shared]
      exact ⟨reserves.keeps, first, Or.inr ⟨reserves.spare, reserves.fresh⟩⟩

/-- The creation of an MMAP by a search. -/
theorem Extended.keepsBlocks (rep : Represents pages guarded heap heap.abstraction)
    (extended : Extended env pages guarded need heap.abstraction abstract heap after) :
    KeepsBlocks pages guarded heap after := by
  have grownRep := extended.represents rep
  have busyIff : ∀ x, after.Busy x ↔ heap.Busy x := by
    intro x
    rw [grownRep.busy_iff, extended.busy_iff rep, rep.busy_iff]
  refine ⟨.live grownRep.abstraction, extended.sparesKept rep, ?_, fun x => (busyIff x).mp⟩
  intro x busy
  exact ⟨(busyIff x).mpr busy, (extended.sameBehind rep (rep.busy_iff.mp busy)).payload⟩

/-- A search through a list of MMAPs that is not empty. -/
theorem ListOutcome.searches (rep : Represents pages guarded heap heap.abstraction)
    (positive : guarded = true → 0 < need)
    (outcome : ListOutcome env pages guarded need heap.abstraction heap after memory) :
    Searches pages guarded need heap after memory := by
  cases outcome with
  | refused grown extended null => exact (extended.keepsBlocks rep).searches null
  | served grown next middle region entry extended served =>
      obtain ⟨before, rest, front, back, _, _, split, _, fits, rfl⟩ :=
        AbstractHeap.malloc_eq_some_iff.mp served.found
      have step := served.step
      rw [AbstractHeap.setEntries_entries] at step
      exact Searches.after_step (extended.keepsBlocks rep)
        ((extended.represents rep).grants served.member split fits positive served.pointer step)

/-- A search when no MMAP is listed: an MMAP is created, and it stays
unlisted. -/
theorem Represents.allows_mallocInMMAPs_empty (rep : Represents pages guarded heap heap.abstraction)
    (mutexes : MutexCallsSucceed env) (empty : heap.mmaps = []) (bound : need < 2 ^ 62)
    (positive : guarded = true → 0 < need) :
    Allows seen (mallocInMMAPs need) env (heap, []) fun memory final =>
      final.2 = [] ∧ Searches pages guarded need heap final.1 memory := by
  have sharedOpen : ∀ heap : Heap, mutexAccessible heap .shared = true := fun _ => rfl
  have valid : Valid pages guarded heap := .live rep
  have null : heap.shared.mmapBlockFirst = 0 := by
    rw [rep.first, abstraction_listed, empty]
    rfl
  have walked : mallocInList need walkFuel 0 0 = pure (0, 0) := rfl
  unfold mallocInMMAPs
  apply Allows.seq (yields_pthreadMutexLock mutexes (sharedOpen heap) List.not_mem_nil).allows
  rintro _ _ ⟨rfl, rfl⟩
  simp only [Bool.not_true, Bool.false_eq_true, if_false]
  apply Allows.seq yields_getShared.allows
  rintro _ _ ⟨rfl, rfl⟩
  rw [null, walked, pure_bind]
  simp only [ne_eq, not_true_eq_false, if_false]
  rw [rep.blockSize]
  apply Allows.seq (valid.yields_mmapBlockAllocate mutexes (fun base => by simp)).allows
  rintro value ⟨grown, _⟩ ⟨rfl, outcome⟩
  cases outcome with
  | failed refused failed same =>
      subst failed
      simp only at same
      subst same
      rw [if_pos rfl]
      apply Allows.seq (yields_orReport _ _ _
        (yields_pthreadMutexUnlock mutexes (sharedOpen _))).allows
      rintro _ _ rfl
      exact Allows.pure ⟨rfl, valid.asked.searches rfl⟩
  | created region chosen address created =>
      subst address
      have reserves := valid.reserves chosen created
      have user := (newRegion_placed chosen).1.user
      have grownRep : Represents pages guarded grown _ :=
        ⟨reserves.stands, by rw [created.shared]; exact rep.first⟩
      have member : region ∈ ({ (heap.abstraction.create region) with
          listed := heap.mmaps } : AbstractHeap).regions := List.mem_cons_self
      rw [if_neg (by rw [mapFailed_eq]; omega)]
      have allocates : Settles seen (fun _ => True) (allocMallocBlock region.base need) env
          (grown, [Mutex.shared]) _ :=
        settles_allocMallocBlock mutexes (reserves.stands.site member) reserves.stands.mode
          (by simp) bound fun _ _ _ => trivial
      apply Allows.seq allocates.allows
      rintro memory ⟨final, _⟩ ⟨rfl, outcome⟩
      apply Allows.seq (yields_orReport _ _ _
        (yields_pthreadMutexUnlock mutexes (sharedOpen _))).allows
      rintro _ _ rfl
      apply Allows.pure
      refine ⟨rfl, ?_⟩
      cases outcome with
      | refused unfit null same =>
          simp only at same
          subst same
          exact reserves.keeps.searches null
      | granted front back entry split skipped fits pointer restOpen step =>
          exact Searches.after_step reserves.keeps
            (grownRep.grants member split fits positive pointer step)

/-- Nothing is mapped at the null pointer. -/
theorem Stands.faults_null (stands : Stands pages guarded heap abstract) :
    Allows seen (readMmapHeader 0) env (heap, held) fun _ _ => False := by
  have unmapped : heap.isMapped 0 = false := by
    apply List.any_eq_false.mpr
    intro region member
    have positive := (stands.wellFormed.placed region (stands.mapped ▸ member)).positive
    simp only [decide_eq_true_eq, not_and]
    omega
  apply Allows.of_fault 0
  intro state viewEq
  obtain ⟨rfl, rfl⟩ := Prod.mk.inj viewEq
  apply if_neg
  rw [Heap.mmapAccessible, Heap.isAccessible, unmapped]
  simp only [Bool.false_and, Bool.false_eq_true, not_false_eq_true]

/-- A search faults when the first MMAP could not be created. -/
theorem Stands.faults_mallocInMMAPs (stands : Stands pages guarded heap abstract)
    (mutexes : MutexCallsSucceed env) (failed : heap.shared.mmapBlockFirst = mapFailed) :
    Allows seen (mallocInMMAPs need) env (heap, []) fun _ _ => False := by
  have unmapped : heap.isMapped mapFailed = false := by
    apply List.any_eq_false.mpr
    intro region member
    have user := (stands.wellFormed.placed region (stands.mapped ▸ member)).user
    rw [mapFailed_eq]
    simp only [decide_eq_true_eq, not_and]
    omega
  have locks : Allows seen (pthreadMutexLock (.mmapBlock mapFailed)) env
      (heap, [Mutex.shared]) fun _ _ => False := by
    apply Allows.seq (yields_answer_true mutexes.lock).allows
    rintro _ _ ⟨rfl, rfl⟩
    apply Allows.of_fault mapFailed
    intro state viewEq
    obtain ⟨heapEq, _⟩ := Prod.mk.inj viewEq
    apply if_neg
    rw [heapEq, mutexAccessible, Heap.mmapAccessible, Heap.isAccessible, unmapped]
    simp only [Bool.false_and, Bool.false_eq_true, not_false_eq_true]
  have allocates : Allows seen (allocMallocBlock mapFailed need) env (heap, [Mutex.shared])
      fun _ _ => False := Allows.seq locks fun _ _ impossible => impossible.elim
  have walks : Allows seen (mallocInList need walkFuel mapFailed 0) env (heap, [Mutex.shared])
      fun _ _ => False := by
    have walk : walkFuel = (walkFuel - 1) + 1 := rfl
    rw [walk, mallocInList, if_neg (by decide)]
    exact Allows.seq allocates fun _ _ impossible => impossible.elim
  unfold mallocInMMAPs
  apply Allows.seq (yields_pthreadMutexLock mutexes rfl List.not_mem_nil).allows
  rintro _ _ ⟨rfl, rfl⟩
  simp only [Bool.not_true, Bool.false_eq_true, if_false]
  apply Allows.seq yields_getShared.allows
  rintro _ _ ⟨rfl, rfl⟩
  rw [failed]
  exact Allows.seq walks fun _ _ impossible => impossible.elim

/-- The checks, whatever the first MMAP has become. -/
theorem Valid.allows_checkSize (valid : Valid pages guarded heap) :
    Allows seen (checkSize size) env (heap, held) fun checked final => final = (heap, held) ∧
      ∀ need, checked = some need → size ≠ 0 ∧ need = alignSize heap.shared size ∧
        need < 2 ^ 62 := by
  have stands := valid.stands
  unfold checkSize
  apply Allows.ite
  · intro zero
    exact (yields_vgcMessage_seq (Yields.pure ⟨rfl, fun need none => by cases none⟩)).allows
  · intro positive
    apply Allows.seq yields_getShared.allows
    rintro _ _ ⟨rfl, rfl⟩
    have reads : Allows seen (readMmapHeader heap.shared.mmapBlockFirst) env (heap, held)
        fun header final => final = (heap, held) ∧ header.maxSize < 2 ^ 62 := by
      rcases valid.first with first | ⟨failed, _⟩
      · cases listed : heap.mmaps with
        | nil =>
            rw [listed] at first
            rw [first]
            exact stands.faults_null.mono fun _ _ impossible => impossible.elim
        | cons base rest =>
            obtain ⟨region, member, rfl⟩ := stands.listed
              (by rw [abstraction_listed, listed]; exact List.mem_cons_self : base ∈ _)
            have mmap := (stands.regions region member).mmap
            have user := (stands.wellFormed.placed region member).user
            rw [first, listed]
            apply (yields_readMmapHeader mmap.accessible).allows.mono
            rintro _ _ ⟨rfl, rfl⟩
            refine ⟨rfl, ?_⟩
            have limit := mmap.maxSize
            omega
      · rw [failed]
        exact stands.faults_mapFailed.mono fun _ _ impossible => impossible.elim
    apply Allows.seq reads
    rintro header _ ⟨rfl, small⟩
    apply Allows.ite
    · intro big
      exact (yields_vgcMessage_seq (Yields.pure ⟨rfl, fun need none => by cases none⟩)).allows
    · intro fits
      apply Allows.pure
      refine ⟨rfl, ?_⟩
      rintro need same
      obtain rfl := Option.some.inj same
      exact ⟨positive, rfl, by omega⟩

/-- The search, whatever the first MMAP has become. -/
theorem Valid.allows_mallocInMMAPs (valid : Valid pages guarded heap)
    (mutexes : MutexCallsSucceed env) (bound : need < 2 ^ 62)
    (positive : guarded = true → 0 < need) :
    Allows seen (mallocInMMAPs need) env (heap, []) fun memory final =>
      final.2 = [] ∧ Searches pages guarded need heap final.1 memory := by
  cases valid with
  | live rep =>
      by_cases empty : heap.mmaps = []
      · exact rep.allows_mallocInMMAPs_empty mutexes empty bound positive
      · have settled : Settles seen (fun _ => True) (mallocInMMAPs need) env (heap, []) _ :=
          settles_mallocInMMAPs mutexes rep empty bound fun _ _ _ => trivial
        apply settled.allows.mono
        rintro memory ⟨final, _⟩ ⟨rfl, outcome⟩
        exact ⟨rfl, outcome.searches rep positive⟩
  | dead stands failed =>
      exact (stands.faults_mallocInMMAPs mutexes failed).mono
        fun _ _ impossible => impossible.elim

end VgcMalloc
