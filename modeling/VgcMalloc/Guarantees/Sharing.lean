import VgcMalloc.Guarantees.Tiling
import VgcMalloc.Model.Sharing
import VgcMalloc.Program.Steps
import VgcMalloc.Refine.Requests

/-!
# Two processes on one heap

`vgc_malloc` looks at `mmapBlockFirst` before it takes the shared mutex.  What
it finds there stays as long as the other process does not release the last
block in use of the first MMAP, which clears `mmapBlockFirst`.
-/

namespace VgcMalloc

open Program Tiling Linked Relation

variable {env : Env} {heap after middle : Heap} {held : List Mutex} {pages : MmapPages}
  {guarded : Bool} {abstract abstract' : AbstractHeap} {region : Region} {entry : Entry}
  {need memory mmapBlock base ptr : Nat} {sharing last : Sharing} {process : Process}

/-! ## MMAPs in waiting -/

/-- The same regions with other ones listed. -/
theorem Stands.relist {listed : List Nat} (stands : Stands pages guarded heap abstract)
    (mapped : ∀ base ∈ listed, ∃ region ∈ abstract.regions, region.base = base)
    (nodup : listed.Nodup) (links : Segment heap.nextMmap heap.prevMmap 0 listed 0) :
    Stands pages guarded heap { abstract with listed := listed } where
  wellFormed := { stands.wellFormed with mapped := mapped, nodup := nodup }
  mapped := stands.mapped
  regions := stands.regions
  links := links
  pageSize := stands.pageSize
  blockSize := stands.blockSize
  mode := stands.mode

/-- A mapped MMAP that is not listed and links to no other. -/
structure Heap.Spare (heap : Heap) (mmapBlock : Nat) : Prop where
  mapped : ∃ region ∈ heap.mapped, region.base = mmapBlock
  unlisted : mmapBlock ∉ heap.mmaps
  next : heap.nextMmap mmapBlock = 0
  prev : heap.prevMmap mmapBlock = 0

/-- MMAPs in waiting stay what they are. -/
def SparesKept (heap after : Heap) : Prop :=
  ∀ mmapBlock, heap.Spare mmapBlock → after.Spare mmapBlock

theorem SparesKept.trans {final : Heap} (first : SparesKept heap middle)
    (second : SparesKept middle final) : SparesKept heap final :=
  fun mmapBlock spare => second mmapBlock (first mmapBlock spare)

/-- They do so when their headers are kept and no one lists them. -/
theorem sparesKept_of (rep : Represents pages guarded heap abstract)
    (afterRep : Represents pages guarded after abstract')
    (kept : ∀ other ∈ abstract.regions, other.base ∉ abstract.listed → other ∈ abstract'.regions ∧
      other.base ∉ abstract'.listed ∧ after.mmapHeader other.base = heap.mmapHeader other.base) :
    SparesKept heap after := by
  rintro mmapBlock ⟨⟨other, otherMem, rfl⟩, unlisted, next, prev⟩
  rw [rep.mapped] at otherMem
  rw [rep.mmaps_eq] at unlisted
  obtain ⟨stays, still, header⟩ := kept other otherMem unlisted
  rw [← afterRep.mapped] at stays
  rw [← afterRep.mmaps_eq] at still
  refine ⟨⟨other, stays, rfl⟩, still, ?_, ?_⟩
  · rw [Heap.nextMmap, header]
    exact next
  · rw [Heap.prevMmap, header]
    exact prev

/-! ## Creation and store -/

/-- A header that lies outside of a created region and is not the last one. -/
theorem Created.header_eq {last : Nat} {other : Region}
    (created : Created env region last heap after) (apart : region.Disjoint other)
    (placed : other.Placed pages.bytes)
    (away : last ≠ 0 → last + 105 ≤ other.base ∨ other.base + 105 ≤ last) :
    after.mmapHeader other.base = heap.mmapHeader other.base := by
  have room := placed.room
  unfold Region.Disjoint at apart
  apply Bytes.mmapHeader_congr
  intro x low high
  apply created.memory x
  · omega
  · intro present
    have side := away present
    omega

/-- `createFirst` adds an MMAP that waits for its store. -/
theorem yields_createFirst (mutexes : MutexCallsSucceed env)
    (rep : Represents pages guarded heap abstract) :
    Yields seen createFirst env (heap, []) fun value final => final.2 = [] ∧
      (value ≠ mapFailed → ∃ abstract', Represents pages guarded final.1 abstract' ∧
        abstract'.listed = abstract.listed ∧ final.1.Spare value ∧ ¬heap.Spare value ∧
        SparesKept heap final.1) := by
  have alone : Stands pages guarded heap { abstract with listed := [] } :=
    rep.relist (by simp) List.nodup_nil segment_nil
  have allocated : Yields seen (mmapBlockAllocate pages.bytes
      ({ abstract with listed := [] } : AbstractHeap).lastListed) env (heap, []) _ :=
    yields_mmapBlockAllocate mutexes alone (by simp)
  unfold createFirst
  apply Yields.seq yields_getShared
  rintro _ _ ⟨rfl, rfl⟩
  rw [rep.blockSize]
  apply allocated.mono
  rintro value ⟨final, _⟩ ⟨rfl, outcome⟩
  refine ⟨rfl, ?_⟩
  intro there
  cases outcome with
  | failed refused null same => exact absurd null there
  | created region chosen address created =>
      subst address
      obtain ⟨placed, _, apart⟩ := newRegion_placed chosen
      rw [rep.mapped] at apart
      have stands := alone.create placed apart created
      have fresh := rep.wellFormed.base_not_mem_listed placed apart
      have headers : ∀ other ∈ abstract.regions,
          final.mmapHeader other.base = heap.mmapHeader other.base := by
        intro other otherMem
        apply created.header_eq (apart other otherMem) (rep.wellFormed.placed other otherMem)
        intro present
        exact absurd rfl present
      have links : Segment final.nextMmap final.prevMmap 0 abstract.listed 0 := by
        apply rep.links.congr
        · intro base listed
          obtain ⟨other, otherMem, rfl⟩ := rep.listed listed
          exact congrArg MmapHeader.next (headers other otherMem)
        · intro base listed
          obtain ⟨other, otherMem, rfl⟩ := rep.listed listed
          exact congrArg MmapHeader.prev (headers other otherMem)
      have known : ∀ base ∈ abstract.listed, ∃ other ∈ region :: abstract.regions,
          other.base = base := by
        intro base listed
        obtain ⟨other, otherMem, same⟩ := rep.wellFormed.mapped base listed
        exact ⟨other, List.mem_cons_of_mem _ otherMem, same⟩
      have relisted := stands.relist known rep.wellFormed.nodup links
      have first : final.shared.mmapBlockFirst = abstract.listed.headD 0 := by
        rw [created.shared, ← rep.first]
      have finalRep : Represents pages guarded final _ := ⟨relisted, first⟩
      refine ⟨_, finalRep, rfl, ?_, ?_, ?_⟩
      · refine ⟨⟨region, ?_, rfl⟩, ?_, ?_, ?_⟩
        · rw [created.mapped]
          exact List.mem_cons_self
        · rw [finalRep.mmaps_eq]
          exact fresh
        · rw [Heap.nextMmap, created.mmap]
        · rw [Heap.prevMmap, created.mmap]
          rfl
      · rintro ⟨⟨other, otherMem, same⟩, _⟩
        rw [rep.mapped] at otherMem
        have disjoint := apart other otherMem
        have room := placed.room
        have otherRoom := (rep.wellFormed.placed other otherMem).room
        unfold Region.Disjoint at disjoint
        omega
      · apply sparesKept_of rep finalRep
        intro other otherMem unlisted
        exact ⟨List.mem_cons_of_mem _ otherMem, unlisted, headers other otherMem⟩

/-- The store of an MMAP in waiting makes it the only one that is listed. -/
theorem Represents.storeFirst (rep : Represents pages guarded heap abstract)
    (spare : heap.Spare mmapBlock) :
    Represents pages guarded (heap.setFirst mmapBlock) { abstract with listed := [mmapBlock] } := by
  obtain ⟨mapped, _, next, prev⟩ := spare
  rw [rep.mapped] at mapped
  have known : ∀ base ∈ [mmapBlock], ∃ region ∈ abstract.regions, region.base = base := by
    simpa using mapped
  have relisted := rep.relist known (List.nodup_singleton _) ⟨prev, next, segment_nil⟩
  exact ⟨relisted.setFirst mmapBlock, rfl⟩

/-! ## The search -/

/-- A step of a listed region. -/
theorem RegionStep.sparesKept {entries' : List Entry} {cleared : Nat → Prop}
    (rep : Represents pages guarded heap abstract) (member : region ∈ abstract.regions)
    (listed : region.base ∈ abstract.listed)
    (afterRep : Represents pages guarded after (abstract.setEntries region.base entries'))
    (step : RegionStep env region (abstract.entries region.base) entries' cleared heap after) :
    SparesKept heap after := by
  have tiles' := afterRep.wellFormed.tiles region member
  rw [AbstractHeap.setEntries_entries] at tiles'
  apply sparesKept_of rep afterRep
  intro other otherMem unlisted
  have ne : region ≠ other := by
    rintro rfl
    exact unlisted listed
  have room := (rep.wellFormed.placed other otherMem).room
  refine ⟨otherMem, unlisted, Bytes.mmapHeader_congr ?_⟩
  intro x low high
  exact (step.outside (rep.wellFormed.placed region member) (rep.wellFormed.placed other otherMem)
    (rep.wellFormed.disjoint_of_ne member otherMem ne) (rep.wellFormed.tiles region member) tiles'
    low (by omega)).1

/-- The creation of an MMAP by a search. -/
theorem Extended.sparesKept (rep : Represents pages guarded heap abstract)
    (extended : Extended env pages guarded need abstract abstract' heap after) :
    SparesKept heap after := by
  have afterRep := extended.represents rep
  cases extended with
  | kept same heapSame =>
      subst heapSame
      exact fun _ spare => spare
  | refused unfit refused same heapSame =>
      subst same heapSame
      apply sparesKept_of rep afterRep
      intro other otherMem unlisted
      exact ⟨otherMem, unlisted, rfl⟩
  | created unfit region middle chosen same created heapSame =>
      subst same heapSame
      obtain ⟨placed, _, apart⟩ := newRegion_placed chosen
      rw [rep.mapped] at apart
      apply sparesKept_of rep afterRep
      intro other otherMem unlisted
      have ne : other.base ≠ region.base := by
        intro same
        have disjoint := apart other otherMem
        have room := placed.room
        have otherRoom := (rep.wellFormed.placed other otherMem).room
        unfold Region.Disjoint at disjoint
        omega
      refine ⟨List.mem_cons_of_mem _ otherMem, ?_, ?_⟩
      · rintro again
        rcases List.mem_append.mp again with old | new
        · exact unlisted old
        · exact ne (List.mem_singleton.mp new)
      · apply created.header_eq (apart other otherMem) (rep.wellFormed.placed other otherMem)
        intro present
        obtain ⟨owner, ownerMem, ownerBase⟩ :=
          rep.listed (AbstractHeap.lastListed_mem present)
        have different : owner ≠ other := by
          rintro rfl
          exact unlisted (ownerBase ▸ AbstractHeap.lastListed_mem present)
        have disjoint := rep.wellFormed.disjoint_of_ne ownerMem otherMem different
        have ownerRoom := (rep.wellFormed.placed owner ownerMem).room
        have otherRoom := (rep.wellFormed.placed other otherMem).room
        unfold Region.Disjoint at disjoint
        omega

/-- The pointer was handed out for a block in use of a listed MMAP. -/
def Heap.Reaches (heap : Heap) (memory : Nat) : Prop :=
  ∃ base ∈ heap.mmaps, ∃ block ∈ heap.blocks base, block.busy = true ∧
    block.addr + mallocHeaderSize ≤ memory ∧
    memory ≤ block.addr + mallocHeaderSize + systemPageSize

/-- A served request lies in a listed MMAP. -/
theorem Served.reaches (afterRep : Represents pages guarded after abstract')
    (served : Served env guarded need abstract abstract' heap after memory region entry) :
    after.Reaches memory := by
  obtain ⟨before, rest, front, back, listedEq, _, split, _, fits, rfl⟩ :=
    AbstractHeap.malloc_eq_some_iff.mp served.found
  have listed : region.base ∈ abstract.listed := by simp [listedEq]
  have member : region ∈
      (abstract.setEntries region.base (front ++ grantEntry mallocHeaderSize
        (AbstractHeap.grantLength guarded need) entry ++ back)).regions := served.member
  have pointer := served.pointer
  unfold AbstractHeap.pointerOf at pointer
  refine ⟨region.base, ?_, grantedEntry 8192 (AbstractHeap.grantLength guarded need) entry, ?_,
    rfl, ?_, ?_⟩
  · rw [afterRep.mmaps_eq]
    exact listed
  · rw [afterRep.blocks_eq member, AbstractHeap.setEntries_entries]
    exact (mem_grantEntry_busy fits.1 rfl).mpr (Or.inr rfl)
  · rw [mallocHeaderSize_eq, pointer]
    exact Nat.le_add_right _ _
  · rw [mallocHeaderSize_eq, systemPageSize_eq, pointer]
    have shift : (if guarded = true then 4096 - need % 4096 else 0) ≤ 4096 := by
      split
      · exact Nat.sub_le _ _
      · exact Nat.zero_le _
    exact Nat.add_le_add_left shift _

/-- A served request keeps the MMAPs in waiting and the list. -/
theorem Served.kept (rep : Represents pages guarded heap abstract)
    (afterRep : Represents pages guarded after abstract')
    (served : Served env guarded need abstract abstract' heap after memory region entry) :
    SparesKept heap after ∧ abstract'.listed = abstract.listed := by
  have step := served.step
  obtain ⟨before, rest, front, back, split, _, _, _, _, rfl⟩ :=
    AbstractHeap.malloc_eq_some_iff.mp served.found
  have listed : region.base ∈ abstract.listed := by simp [split]
  rw [AbstractHeap.setEntries_entries] at step
  exact ⟨step.sparesKept rep served.member listed afterRep, rfl⟩

theorem Represents.first_ne_zero_iff (rep : Represents pages guarded heap abstract) :
    heap.shared.mmapBlockFirst ≠ 0 ↔ abstract.listed ≠ [] := by
  rw [rep.first]
  cases listed : abstract.listed with
  | nil => simp
  | cons base rest =>
      obtain ⟨region, member, same⟩ := rep.listed (listed ▸ List.mem_cons_self : base ∈ _)
      have positive := (rep.wellFormed.placed region member).positive
      simp only [List.headD_cons, ne_eq, reduceCtorEq, not_false_eq_true, iff_true]
      omega

/-- The first MMAP of a list that is not empty. -/
theorem Represents.exists_first (rep : Represents pages guarded heap abstract)
    (present : heap.shared.mmapBlockFirst ≠ 0) :
    ∃ region ∈ abstract.regions, region.base = heap.shared.mmapBlockFirst := by
  have nonempty := rep.first_ne_zero_iff.mp present
  rw [rep.first]
  cases listed : abstract.listed with
  | nil => exact absurd listed nonempty
  | cons base rest =>
      exact rep.listed (listed ▸ List.mem_cons_self : base ∈ abstract.listed)

/-- The checks read `maxSize` of the first MMAP only. -/
theorem allows_checkSize (rep : Represents pages guarded heap abstract) {size : Nat}
    (present : size ≠ 0 → heap.shared.mmapBlockFirst ≠ 0) :
    Allows seen (checkSize size) env (heap, held) fun value final => final = (heap, held) ∧
      ∀ need, value = some need → heap.shared.mmapBlockFirst ≠ 0 ∧ need < 2 ^ 62 ∧
        (guarded = true → 0 < need) := by
  unfold checkSize
  apply Allows.ite
  · intro zero
    exact (yields_vgcMessage_seq (Yields.pure ⟨rfl, fun need none => by cases none⟩)).allows
  · intro positive
    obtain ⟨region, member, base⟩ := rep.exists_first (present positive)
    have mmap := (rep.regions region member).mmap
    have placed := rep.wellFormed.placed region member
    have user := placed.user
    apply Allows.seq yields_getShared.allows
    rintro _ _ ⟨rfl, rfl⟩
    rw [← base]
    apply Allows.seq (yields_readMmapHeader mmap.accessible).allows
    rintro _ _ ⟨rfl, rfl⟩
    apply Allows.ite
    · intro big
      exact (yields_vgcMessage_seq (Yields.pure ⟨rfl, fun need none => by cases none⟩)).allows
    · intro fits
      rw [mmap.maxSize] at fits
      apply Allows.pure
      refine ⟨rfl, ?_⟩
      rintro need same
      obtain rfl := Option.some.inj same
      exact ⟨base ▸ present positive, by omega, alignSize_pos rep.mode positive⟩

/-- What a search does for the other process and for its own. -/
structure Searched (pages : MmapPages) (guarded : Bool) (heap after : Heap) (memory : Nat) :
    Prop where
  represents : ∃ abstract', Represents pages guarded after abstract'
  spares : SparesKept heap after
  present : after.shared.mmapBlockFirst ≠ 0
  reaches : memory ≠ 0 → after.Reaches memory

/-- The search through a list that is not empty. -/
theorem allows_mallocInMMAPs (mutexes : MutexCallsSucceed env)
    (rep : Represents pages guarded heap abstract) (present : heap.shared.mmapBlockFirst ≠ 0)
    (bound : need < 2 ^ 62) (positive : guarded = true → 0 < need) :
    Allows seen (mallocInMMAPs need) env (heap, []) fun memory final =>
      final.2 = [] ∧ Searched pages guarded heap final.1 memory := by
  have nonempty := rep.first_ne_zero_iff.mp present
  obtain ⟨base, listed⟩ := List.exists_mem_of_ne_nil _ nonempty
  have settled : Settles seen (fun _ => True) (mallocInMMAPs need) env (heap, []) _ :=
    settles_mallocInMMAPs mutexes rep nonempty bound fun _ _ _ => trivial
  apply settled.allows.mono
  rintro memory ⟨final, _⟩ ⟨rfl, outcome⟩
  refine ⟨rfl, ?_⟩
  cases outcome with
  | refused grown extended null =>
      have grownRep := extended.represents rep
      have still := (extended.listed_kept rep listed).1
      exact ⟨⟨_, grownRep⟩, extended.sparesKept rep,
        grownRep.first_ne_zero_iff.mpr (List.ne_nil_of_mem still), fun there => absurd null there⟩
  | served grown abstract' middle region entry extended served =>
      have grownRep := extended.represents rep
      have still := (extended.listed_kept rep listed).1
      have finalRep := served.represents grownRep positive
      obtain ⟨kept, same⟩ := served.kept grownRep finalRep
      rw [← same] at still
      exact ⟨⟨_, finalRep⟩, (extended.sparesKept rep).trans kept,
        finalRep.first_ne_zero_iff.mpr (List.ne_nil_of_mem still),
        fun _ => served.reaches finalRep⟩

/-! ## Releases -/

/-- The header of an MMAP that is not listed is kept when another one is taken
off the list. -/
theorem Stands.mmapHeader_unlink {other : Region} (stands : Stands pages guarded heap abstract)
    (listed : base ∈ abstract.listed) (otherMem : other ∈ abstract.regions)
    (unlisted : other.base ∉ abstract.listed) :
    (heap.unlinkMmap base).mmapHeader other.base = heap.mmapHeader other.base := by
  have near := stands.neighbours listed
  obtain ⟨nextListed, prevListed⟩ := stands.neighbours_listed listed
  rw [Heap.mmapHeader_unlinkMmap rfl rfl (near.nextHome.bound stands) (near.prevHome.bound stands)
    (near.nextHome.separate stands otherMem) (near.prevHome.separate stands otherMem)]
  have notNext : ¬(other.base = heap.nextMmap base ∧ heap.nextMmap base ≠ 0) := by
    rintro ⟨same, present⟩
    exact unlisted (same ▸ nextListed present)
  have notPrev : ¬(other.base = heap.prevMmap base ∧ heap.prevMmap base ≠ 0) := by
    rintro ⟨same, present⟩
    exact unlisted (same ▸ prevListed present)
  rw [if_neg notNext, if_neg notPrev]
  rfl

theorem Heap.uncount_memory (heap : Heap) (mmapBlock : Nat) :
    (heap.uncount mmapBlock).memory = heap.memory :=
  rfl

theorem Heap.unmapped_memory (heap : Heap) (env : Env) (call base length : Nat) :
    (heap.unmapped env call base length).memory = heap.memory := by
  unfold Heap.unmapped
  split
  · rfl
  · rfl

/-- An MMAP that vanishes is none of those in waiting. -/
theorem Represents.vanish_sparesKept (rep : Represents pages guarded heap abstract)
    (member : region ∈ abstract.regions) (listed : region.base ∈ abstract.listed) (call : Nat) :
    SparesKept heap (((heap.unlinkMmap region.base).uncount region.base).unmapped env call
      region.base region.length) := by
  apply sparesKept_of rep (rep.vanished member listed call).represents
  intro other otherMem unlisted
  have ne : other.base ≠ region.base := by
    intro same
    exact unlisted (same ▸ listed)
  have still : other.base ∉ (abstract.unlink region.base).listed := fun again =>
    unlisted (AbstractHeap.mem_listed_unlink rep.wellFormed.nodup again).1
  have header : (((heap.unlinkMmap region.base).uncount region.base).unmapped env call
      region.base region.length).mmapHeader other.base = heap.mmapHeader other.base := by
    rw [← rep.toStands.mmapHeader_unlink listed otherMem unlisted, Heap.mmapHeader,
      Heap.unmapped_memory, Heap.uncount_memory, ← Heap.mmapHeader]
  unfold AbstractHeap.vanish
  split
  · exact ⟨List.mem_filter.mpr ⟨otherMem, by simpa using ne⟩, still, header⟩
  · exact ⟨otherMem, still, header⟩

theorem AbstractHeap.listed_vanish (abstract : AbstractHeap) (unmaps : Bool) (base : Nat) :
    (abstract.vanish unmaps base).listed = (abstract.unlink base).listed := by
  unfold AbstractHeap.vanish
  split
  · rfl
  · rfl

/-- The list of MMAPs is cleared when the first one vanishes. -/
theorem Represents.vanish_first (rep : Represents pages guarded heap abstract)
    (listed : region.base ∈ abstract.listed) {unmaps : Bool}
    (afterRep : Represents pages guarded after (abstract.vanish unmaps region.base)) :
    after.shared.mmapBlockFirst = heap.shared.mmapBlockFirst ∨
      region.base = heap.shared.mmapBlockFirst := by
  rw [afterRep.first, AbstractHeap.listed_vanish, unlink_headD rep.wellFormed listed, ← rep.first]
  split
  · exact Or.inr ‹_›
  · exact Or.inl rfl

/-- What `vgc_free` does for the other process: MMAPs in waiting are kept, and
the list of MMAPs is cleared only with the last block in use of the first
one. -/
structure Outlived (pages : MmapPages) (guarded : Bool) (abstract : AbstractHeap)
    (region : Region) (heap after : Heap) : Prop where
  represents : ∃ abstract', Represents pages guarded after abstract'
  spares : SparesKept heap after
  head : after.shared.mmapBlockFirst = heap.shared.mmapBlockFirst ∨
    region.base = heap.shared.mmapBlockFirst ∧ busyCount (abstract.entries region.base) = 1

/-- The MMAP vanishes after its last block in use has been released. -/
theorem Outlived.vanish {freed : AbstractHeap} {call : Nat}
    (rep : Represents pages guarded middle freed) (member : region ∈ freed.regions)
    (listed : region.base ∈ freed.listed) (kept : SparesKept heap middle)
    (same : middle.shared.mmapBlockFirst = heap.shared.mmapBlockFirst)
    (only : busyCount (abstract.entries region.base) = 1) :
    Outlived pages guarded abstract region heap
      (((middle.unlinkMmap region.base).uncount region.base).unmapped env call region.base
        region.length) := by
  have gone : Represents pages guarded _ (freed.vanish (env.munmap call) region.base) :=
    (rep.vanished member listed call).represents
  refine ⟨⟨_, gone⟩, kept.trans (rep.vanish_sparesKept member listed call), ?_⟩
  rw [← same]
  exact (rep.vanish_first listed gone).imp_right fun first => ⟨first, only⟩

/-- Every end of `vgc_free` is one of these when the mutex calls succeed. -/
theorem FreeEnd.outlived {calls count : Nat} (mutexes : MutexCallsSucceed env)
    (rep : Represents pages guarded heap abstract) (member : region ∈ abstract.regions)
    (listed : region.base ∈ abstract.listed) (entryMem : entry ∈ abstract.entries region.base)
    (ends : FreeEnd env abstract region entry heap [] calls after count) :
    Outlived pages guarded abstract region heap after := by
  have locks : ∀ {call mutex}, env.Locks [] call mutex := ⟨mutexes.lock _, List.not_mem_nil⟩
  cases ends with
  | unlocked _ refused => exact absurd locks refused
  | uncounted _ shared refused => exact absurd locks refused
  | released _ _ shared own others step =>
      have freed := rep.free member entryMem step
      refine ⟨⟨_, freed⟩, step.sparesKept rep member listed freed, Or.inl ?_⟩
      rw [freed.first, rep.first]
      rfl
  | emptied middle _ _ shared own only step ends =>
      have freed := rep.free member entryMem step
      have kept := step.sparesKept rep member listed freed
      have same : middle.shared.mmapBlockFirst = heap.shared.mmapBlockFirst := by
        rw [freed.first, rep.first]
        rfl
      cases ends with
      | stuckNext present refused => exact absurd locks refused
      | stuckPrev next present refused => exact absurd locks refused
      | unlinked next prev =>
          exact .vanish freed member listed kept same only

/-- `vgc_free` of a pointer that resolves to a block in use. -/
theorem allows_vgcFree_resolved (mutexes : MutexCallsSucceed env)
    (rep : Represents pages guarded heap abstract) (member : region ∈ abstract.regions)
    (listed : region.base ∈ abstract.listed) (entryMem : entry ∈ abstract.entries region.base)
    (busy : entry.busy = true) (bound : ptr < 2 ^ 64)
    (resolved : headerOf heap.shared ptr = entry.addr) :
    Allows seen (vgcFree ptr) env (heap, []) fun _ final =>
      final.2 = [] ∧ Outlived pages guarded abstract region heap final.1 := by
  intro state viewEq
  obtain ⟨value, final, ended, ends, unlocked⟩ :=
    counted_vgcFree rep member listed entryMem busy bound resolved state (Prod.ext viewEq rfl)
  have returns : Returns (vgcFree ptr) env state fun _ last =>
      (seen last).2 = [] ∧ Outlived pages guarded abstract region heap (seen last).1 :=
    ⟨value, final, ended, unlocked mutexes.unlock,
      ends.outlived mutexes rep member listed entryMem⟩
  exact returns.ensures

/-! ## Phases -/

namespace CallPhase

variable {phase : CallPhase}

/-- What a process relies on before its next step. -/
def Ready (guarded : Bool) (heap : Heap) : CallPhase → Prop
  | storing _ mmapBlock => heap.Spare mmapBlock
  | checking size => size ≠ 0 → heap.shared.mmapBlockFirst ≠ 0
  | searching need =>
      heap.shared.mmapBlockFirst ≠ 0 ∧ need < 2 ^ 62 ∧ (guarded = true → 0 < need)
  | _ => True

/-- The process has seen a first MMAP and is going to use it. -/
def Exposed : CallPhase → Prop
  | checking size => size ≠ 0
  | searching _ => True
  | _ => False

instance : (phase : CallPhase) → Decidable phase.Exposed
  | checking _ => inferInstanceAs (Decidable (_ ≠ _))
  | searching _ => .isTrue trivial
  | idle | testing _ | creating _ | storing _ _ => .isFalse id

/-- A process is not disturbed by a step that keeps the MMAPs in waiting and,
when it relies on it, the first MMAP. -/
theorem Ready.mono (ready : phase.Ready guarded heap) (spares : SparesKept heap after)
    (head : phase.Exposed → heap.shared.mmapBlockFirst ≠ 0 → after.shared.mmapBlockFirst ≠ 0) :
    phase.Ready guarded after := by
  cases phase with
  | idle => trivial
  | testing size => trivial
  | creating size => trivial
  | storing size mmapBlock => exact spares mmapBlock ready
  | checking size => exact fun positive => head positive (ready positive)
  | searching need => exact ⟨head trivial ready.1, ready.2⟩

end CallPhase

namespace Sharing

/-- The invariant of the calls that are under way. -/
structure Inv (pages : MmapPages) (guarded : Bool) (sharing : Sharing) : Prop where
  unlocked : sharing.state.held = []
  represents : ∃ abstract, Represents pages guarded sharing.state.heap abstract
  ready : ∀ process, (sharing.phase process).Ready guarded sharing.state.heap
  apart : ∀ process other size length mmapBlock, process ≠ other →
    sharing.phase process = .storing size mmapBlock →
      sharing.phase other ≠ .storing length mmapBlock
  granted : ∀ grant ∈ sharing.granted, grant.2.Reaches grant.1

variable {state : State} {phase : CallPhase} {size : Nat}

@[simp]
theorem become_phase_self : (sharing.become process phase state).phase process = phase := by
  simp [become]

theorem become_phase_of_ne {other : Process} (ne : other ≠ process) :
    (sharing.become process phase state).phase other = sharing.phase other :=
  Function.update_of_ne ne _ _

/-- The process goes on while the other one keeps what it relies on. -/
theorem Inv.become (inv : sharing.Inv pages guarded) (unlocked : state.held = [])
    (represents : ∃ abstract, Represents pages guarded state.heap abstract)
    (others : ∀ other, other ≠ process → (sharing.phase other).Ready guarded state.heap)
    (ready : phase.Ready guarded state.heap)
    (apart : ∀ size mmapBlock, phase = .storing size mmapBlock → ∀ other, other ≠ process →
      ∀ length, sharing.phase other ≠ .storing length mmapBlock) :
    (sharing.become process phase state).Inv pages guarded where
  unlocked := unlocked
  represents := represents
  ready other := by
    by_cases same : other = process
    · subst same
      rw [become_phase_self]
      exact ready
    · rw [become_phase_of_ne same]
      exact others other same
  apart first second size length mmapBlock ne here there := by
    by_cases isFirst : first = process
    · subst isFirst
      rw [become_phase_self] at here
      rw [become_phase_of_ne ne.symm] at there
      exact apart size mmapBlock here second ne.symm length there
    · rw [become_phase_of_ne isFirst] at here
      by_cases isSecond : second = process
      · subst isSecond
        rw [become_phase_self] at there
        exact apart length mmapBlock there first ne size here
      · rw [become_phase_of_ne isSecond] at there
        exact inv.apart first second size length mmapBlock ne here there
  granted := inv.granted

/-- The view of a state in which no mutex is held. -/
theorem Inv.seen_eq (inv : sharing.Inv pages guarded) :
    seen sharing.state = (sharing.state.heap, []) :=
  Prod.ext rfl inv.unlocked

/-- A state that differs only outside of the heap and the mutexes. -/
theorem Inv.become_same (inv : sharing.Inv pages guarded)
    (same : seen state = (sharing.state.heap, []))
    (ready : phase.Ready guarded sharing.state.heap)
    (waits : ∀ size mmapBlock, phase ≠ .storing size mmapBlock) :
    (sharing.become process phase state).Inv pages guarded := by
  obtain ⟨heapEq, heldEq⟩ := Prod.mk.inj same
  apply inv.become heldEq
  · rw [heapEq]
    exact inv.represents
  · intro other _
    rw [heapEq]
    exact inv.ready other
  · rw [heapEq]
    exact ready
  · intro size mmapBlock storing
    exact absurd storing (waits size mmapBlock)

/-! ## Steps -/

/-- The test. -/
theorem Inv.tested (inv : sharing.Inv pages guarded) {present : Bool}
    (ended : testFirst env sharing.state = .ok present state) :
    (sharing.become process (if present then .checking size else .creating size) state).Inv
      pages guarded := by
  obtain ⟨presentEq, rfl⟩ : decide (sharing.state.heap.shared.mmapBlockFirst ≠ 0) = present ∧
      sharing.state = state := by
    cases ended
    exact ⟨rfl, rfl⟩
  apply inv.become_same inv.seen_eq
  · cases present with
    | false => trivial
    | true => exact fun _ => of_decide_eq_true presentEq
  · intro length mmapBlock
    cases present <;> simp

/-- The creation. -/
theorem Inv.created (inv : sharing.Inv pages guarded) (mutexes : MutexCallsSucceed env)
    (ended : createFirst env sharing.state = .ok mmapBlock state) (there : mmapBlock ≠ mapFailed) :
    (sharing.become process (.storing size mmapBlock) state).Inv pages guarded := by
  obtain ⟨abstract, rep⟩ := inv.represents
  obtain ⟨unlocked, made⟩ :=
    (yields_createFirst mutexes rep).allows _ inv.seen_eq mmapBlock state ended
  obtain ⟨grown, grownRep, sameList, spare, fresh, kept⟩ := made there
  have head : sharing.state.heap.shared.mmapBlockFirst ≠ 0 →
      state.heap.shared.mmapBlockFirst ≠ 0 := by
    intro present
    apply grownRep.first_ne_zero_iff.mpr
    rw [sameList]
    exact rep.first_ne_zero_iff.mp present
  apply inv.become unlocked ⟨grown, grownRep⟩
  · exact fun other _ => (inv.ready other).mono kept fun _ => head
  · exact spare
  · rintro length other same waiting _ size storing
    obtain ⟨rfl, rfl⟩ := CallPhase.storing.inj same
    have ready := inv.ready waiting
    rw [storing] at ready
    exact fresh ready

/-- The store. -/
theorem Inv.stored (inv : sharing.Inv pages guarded)
    (storing : sharing.phase process = .storing size mmapBlock)
    (ended : storeFirst mmapBlock env sharing.state = .ok () state) :
    (sharing.become process (.checking size) state).Inv pages guarded := by
  obtain ⟨abstract, rep⟩ := inv.represents
  have spare := inv.ready process
  rw [storing] at spare
  obtain ⟨heapEq, heldEq⟩ : state.heap = sharing.state.heap.setFirst mmapBlock ∧
      state.held = sharing.state.held := by
    cases ended
    exact ⟨rfl, rfl⟩
  have stored := rep.storeFirst spare
  have present : (sharing.state.heap.setFirst mmapBlock).shared.mmapBlockFirst ≠ 0 :=
    stored.first_ne_zero_iff.mpr (List.cons_ne_nil _ _)
  rw [← heapEq] at stored present
  apply inv.become (heldEq.trans inv.unlocked) ⟨_, stored⟩
  · intro other ne
    have ready := inv.ready other
    cases waiting : sharing.phase other with
    | idle => trivial
    | testing size => trivial
    | creating size => trivial
    | checking size => exact fun _ => present
    | searching need =>
        rw [waiting] at ready
        exact ⟨present, ready.2⟩
    | storing length second =>
        rw [waiting] at ready
        have different : second ≠ mmapBlock := by
          rintro rfl
          exact inv.apart process other size length second ne.symm storing waiting
        refine ⟨?_, ?_, ?_, ?_⟩
        · rw [heapEq]
          exact ready.mapped
        · rw [stored.mmaps_eq]
          simpa using different
        · rw [heapEq]
          exact ready.next
        · rw [heapEq]
          exact ready.prev
  · exact fun _ => present
  · intro length other same
    cases same

/-- The checks. -/
theorem Inv.checked (inv : sharing.Inv pages guarded) {checked : Option Nat}
    (checking : sharing.phase process = .checking size)
    (ended : checkSize size env sharing.state = .ok checked state) :
    (sharing.become process (checked.elim .idle .searching) state).Inv pages guarded := by
  obtain ⟨abstract, rep⟩ := inv.represents
  have ready := inv.ready process
  rw [checking] at ready
  obtain ⟨same, passed⟩ := allows_checkSize rep ready _ inv.seen_eq checked state ended
  apply inv.become_same same
  · cases checked with
    | none => trivial
    | some need => exact passed need rfl
  · intro length mmapBlock
    cases checked <;> simp

/-- The search. -/
theorem Inv.searched (inv : sharing.Inv pages guarded) (mutexes : MutexCallsSucceed env)
    (searching : sharing.phase process = .searching need)
    (ended : mallocInMMAPs need env sharing.state = .ok memory state) :
    ((sharing.become process .idle state).grant memory).Inv pages guarded := by
  obtain ⟨abstract, rep⟩ := inv.represents
  have ready := inv.ready process
  rw [searching] at ready
  obtain ⟨present, bound, positive⟩ := ready
  obtain ⟨unlocked, outcome⟩ :=
    allows_mallocInMMAPs mutexes rep present bound positive _ inv.seen_eq memory state ended
  have next : (sharing.become process .idle state).Inv pages guarded := by
    apply inv.become unlocked outcome.represents
    · exact fun other _ => (inv.ready other).mono outcome.spares fun _ _ => outcome.present
    · trivial
    · intro length mmapBlock same
      cases same
  unfold grant
  split
  · exact next
  · rename_i there
    refine ⟨next.unlocked, next.represents, next.ready, next.apart, ?_⟩
    exact List.forall_mem_cons.mpr ⟨outcome.reaches there, next.granted⟩

/-- Every step of `vgc_malloc` keeps the invariant. -/
theorem Inv.advance (inv : sharing.Inv pages guarded) (mutexes : MutexCallsSucceed env)
    (moves : sharing.advance env process = some last) : last.Inv pages guarded := by
  unfold Sharing.advance at moves
  cases phase : sharing.phase process with
  | idle =>
      rw [phase] at moves
      cases moves
  | testing size =>
      rw [phase] at moves
      obtain ⟨final, normal, rfl⟩ := Option.map_eq_some_iff.mp moves
      exact inv.tested (Outcome.normal_eq_some_iff.mp normal)
  | creating size =>
      rw [phase] at moves
      obtain ⟨final, normal, rest⟩ := Option.bind_eq_some_iff.mp moves
      split at rest
      · cases rest
      · rename_i there
        obtain rfl := Option.some.inj rest
        exact inv.created mutexes (Outcome.normal_eq_some_iff.mp normal) there
  | storing size mmapBlock =>
      rw [phase] at moves
      obtain ⟨final, normal, rfl⟩ := Option.map_eq_some_iff.mp moves
      exact inv.stored phase (Outcome.normal_eq_some_iff.mp normal)
  | checking size =>
      rw [phase] at moves
      obtain ⟨final, normal, rfl⟩ := Option.map_eq_some_iff.mp moves
      exact inv.checked phase (Outcome.normal_eq_some_iff.mp normal)
  | searching need =>
      rw [phase] at moves
      obtain ⟨final, normal, rfl⟩ := Option.map_eq_some_iff.mp moves
      exact inv.searched mutexes phase (Outcome.normal_eq_some_iff.mp normal)

end Sharing

/-! ## Releases in between -/

/-- The pointer resolves to the only block in use of the first MMAP. -/
def Heap.Clears (heap : Heap) (ptr : Nat) : Prop :=
  busyCount (heap.blocks heap.shared.mmapBlockFirst) = 1 ∧
    ∃ entry ∈ heap.blocks heap.shared.mmapBlockFirst,
      entry.busy = true ∧ headerOf heap.shared ptr = entry.addr

instance (heap : Heap) (ptr : Nat) : Decidable (heap.Clears ptr) :=
  inferInstanceAs (Decidable (_ ∧ _))

/-- The move is allowed, and it does not release the last block in use of the
first MMAP while a process is going to use that MMAP. -/
def Sharing.Calm (sharing : Sharing) (move : Move) : Prop :=
  sharing.Lawful move ∧
    match move with
    | .free _ ptr => sharing.state.heap.Clears ptr → ∀ process, ¬(sharing.phase process).Exposed
    | _ => True

instance Process.decidableForall (predicate : Process → Prop)
    [∀ process, Decidable (predicate process)] : Decidable (∀ process, predicate process) :=
  decidable_of_iff (predicate .master ∧ predicate .child)
    ⟨fun both process => by cases process; exacts [both.1, both.2],
      fun all => ⟨all .master, all .child⟩⟩

instance (sharing : Sharing) : (move : Move) → Decidable (sharing.Calm move)
  | .malloc _ _ => .isTrue ⟨trivial, trivial⟩
  | .step _ => .isTrue ⟨trivial, trivial⟩
  | .free _ _ => inferInstanceAs (Decidable (_ ∧ (_ → _)))

/-- A calm release. -/
theorem Sharing.Inv.freed {state : State} (inv : sharing.Inv pages guarded)
    (mutexes : MutexCallsSucceed env) (calm : sharing.Calm (.free process ptr))
    (ended : vgcFree ptr env sharing.state = .ok () state) :
    (sharing.become process .idle state).Inv pages guarded := by
  obtain ⟨abstract, rep⟩ := inv.represents
  obtain ⟨⟨bound, base, listed, entry, entryMem, busy, resolved⟩ | wrong, quiet⟩ := calm
  · rw [rep.mmaps_eq] at listed
    obtain ⟨region, member, rfl⟩ := rep.listed listed
    have blocks := rep.blocks_eq member
    rw [blocks] at entryMem
    obtain ⟨unlocked, outlived⟩ := allows_vgcFree_resolved mutexes rep member listed entryMem busy
      bound resolved _ inv.seen_eq () state ended
    apply inv.become unlocked outlived.represents
    · intro other _
      apply (inv.ready other).mono outlived.spares
      intro exposed present
      rcases outlived.head with same | ⟨first, only⟩
      · exact same.symm ▸ present
      · rw [← blocks, first] at only
        rw [← blocks, first] at entryMem
        exact absurd exposed (quiet ⟨only, entry, entryMem, busy, resolved⟩ other)
    · trivial
    · intro size mmapBlock same
      cases same
  · unfold Heap.Rejects at wrong
    rw [rep.mmaps_eq] at wrong
    apply inv.become_same
      (allows_vgcFree_ignored mutexes rep wrong _ inv.seen_eq () state ended)
    · trivial
    · intro size mmapBlock same
      cases same

/-- Every calm move keeps the invariant. -/
theorem Sharing.Inv.move {move : Move} (inv : sharing.Inv pages guarded)
    (mutexes : MutexCallsSucceed env) (calm : sharing.Calm move)
    (moves : sharing.move env move = some last) : last.Inv pages guarded := by
  cases move with
  | malloc process size =>
      rw [Sharing.move] at moves
      split at moves
      · obtain rfl := Option.some.inj moves
        apply inv.become_same inv.seen_eq
        · trivial
        · intro length mmapBlock same
          cases same
      · cases moves
  | step process => exact inv.advance mutexes moves
  | free process ptr =>
      rw [Sharing.move] at moves
      split at moves
      · obtain ⟨final, normal, rfl⟩ := Option.map_eq_some_iff.mp moves
        exact inv.freed mutexes calm (Outcome.normal_eq_some_iff.mp normal)
      · cases moves

/-! ## Runs -/

/-- No process is about to dereference a first MMAP that is null or unmapped,
and every block was handed out in a listed MMAP. -/
structure Sharing.Safe (sharing : Sharing) : Prop where
  checking : ∀ process size, sharing.phase process = .checking size → size ≠ 0 →
    sharing.state.heap.shared.mmapBlockFirst ≠ 0 ∧
      sharing.state.heap.mmapAccessible sharing.state.heap.shared.mmapBlockFirst = true
  searching : ∀ process size, sharing.phase process = .searching size →
    sharing.state.heap.shared.mmapBlockFirst ≠ 0 →
      sharing.state.heap.mmapAccessible sharing.state.heap.shared.mmapBlockFirst = true
  granted : ∀ grant ∈ sharing.granted, grant.2.Reaches grant.1

theorem Sharing.Inv.safe (inv : sharing.Inv pages guarded) : sharing.Safe := by
  obtain ⟨abstract, rep⟩ := inv.represents
  have mapped : sharing.state.heap.shared.mmapBlockFirst ≠ 0 →
      sharing.state.heap.mmapAccessible sharing.state.heap.shared.mmapBlockFirst = true := by
    intro present
    obtain ⟨region, member, base⟩ := rep.exists_first present
    rw [← base]
    exact (rep.regions region member).mmap.accessible
  refine ⟨?_, fun _ _ _ => mapped, inv.granted⟩
  intro process size checking positive
  have ready := inv.ready process
  rw [checking] at ready
  exact ⟨ready positive, mapped (ready positive)⟩

/-- In every run of two processes in which no release takes the first MMAP from
a process that has seen it, `vgc_malloc` finds it in place and hands out blocks
of listed MMAPs. -/
theorem safe_of_reach (mutexes : MutexCallsSucceed env)
    (reach : ReflTransGen (Sharing.Step env Sharing.Calm) (Sharing.start pages guarded) sharing) :
    sharing.Safe := by
  have start : (Sharing.start pages guarded).Inv pages guarded :=
    ⟨rfl, ⟨_, represents_start pages guarded⟩, fun _ => trivial,
      fun _ _ _ _ _ _ here => CallPhase.noConfusion here, by simp [Sharing.start]⟩
  have inv : sharing.Inv pages guarded := by
    apply invariant_of_reach (fun sharing : Sharing => sharing.Inv pages guarded) start _ reach
    rintro before last inv ⟨move, calm, moves⟩
    exact inv.move mutexes calm moves
  exact inv.safe

/-- A run that is played is a run. -/
theorem Sharing.reach_of_play {allowed : Sharing → Move → Prop}
    [∀ sharing move, Decidable (allowed sharing move)] {moves : List Move}
    (played : sharing.play env allowed moves = some last) :
    ReflTransGen (Sharing.Step env allowed) sharing last := by
  induction moves generalizing sharing with
  | nil =>
      obtain rfl := Option.some.inj played
      exact .refl
  | cons move rest ih =>
      rw [Sharing.play] at played
      split at played
      · obtain ⟨after, moved, later⟩ := Option.bind_eq_some_iff.mp played
        exact .head ⟨move, ‹_›, moved⟩ (ih later)
      · cases played

/-- The master allocates a block, and the child sees the first MMAP. -/
def overlapping : List Move :=
  [.malloc .master 8, .step .master, .step .master, .step .master, .step .master, .step .master,
    .malloc .child 8, .step .child]

theorem safe_of_reach_sample :
    ∃ sharing, ReflTransGen (Sharing.Step generousEnv Sharing.Calm)
        (Sharing.start .default false) sharing ∧
      sharing.phase .child = .checking 8 ∧ sharing.granted.length = 1 ∧ sharing.Safe := by
  have found : ((Sharing.start .default false).play generousEnv Sharing.Calm overlapping).map
      (fun last => (last.phase .child, last.granted.length)) = some (.checking 8, 1) := by
    decide +kernel
  obtain ⟨last, played, same⟩ := Option.map_eq_some_iff.mp found
  obtain ⟨phase, granted⟩ := Prod.mk.inj same
  have reach := Sharing.reach_of_play played
  exact ⟨last, reach, phase, granted, safe_of_reach generousEnv_mutexes reach⟩

/-- The master releases its block after the child has seen the first MMAP. -/
theorem not_safe_of_reach :
    ¬∀ env pages guarded sharing, MutexCallsSucceed env → (∀ call, env.mmap call ≠ none) →
      ReflTransGen (Sharing.Step env Sharing.Lawful) (Sharing.start pages guarded) sharing →
        sharing.Safe := by
  intro claim
  have found : ((Sharing.start .default false).play generousEnv Sharing.Lawful
      (overlapping ++ [.free .master 268447744])).map
        (fun last => (last.phase .child, last.state.heap.shared.mmapBlockFirst)) =
      some (.checking 8, 0) := by decide +kernel
  obtain ⟨last, played, same⟩ := Option.map_eq_some_iff.mp found
  obtain ⟨phase, first⟩ := Prod.mk.inj same
  have safe := claim generousEnv .default false last generousEnv_mutexes
    (fun _ => Option.some_ne_none _) (Sharing.reach_of_play played)
  exact (safe.checking .child 8 phase (by decide)).1 first

end VgcMalloc
