import VgcMalloc.Refine.Edit

/-!
# Creating an MMAP

`allocMMAP` maps a region, sets up its header and one free block, and links it
behind the last MMAP.  The full size is tried first, then one tenth of it.
-/

namespace VgcMalloc

open Program Tiling Linked

variable {env : Env} {heap after : Heap} {held : List Mutex} {pages : MmapPages}
  {guarded : Bool} {abstract : AbstractHeap} {region : Region} {last : Nat}

/-! ## The stores of `allocMMAP` -/

/-- What `initialiseMMAP` leaves behind in a region that has been mapped. -/
structure Initialised (env : Env) (region : Region) (last : Nat) (heap after : Heap) :
    Prop where
  shared : after.shared = heap.shared
  mapped : after.mapped = heap.mapped
  mmapCalls : after.mmapCalls = heap.mmapCalls
  mmap : after.mmapHeader region.base =
    ⟨checksum, region.length, region.length - 12288, 0, last, 0, checksum⟩
  block : after.mallocHeader (region.base + 4096) =
    ⟨checksum, region.length - 12288, .free, region.base, 0, 0, checksum⟩
  link : last ≠ 0 →
    after.mmapHeader last = { heap.mmapHeader last with next := region.base }
  memory : ∀ x, (x < region.base ∨ region.base + region.length ≤ x) →
    (last ≠ 0 → x < last ∨ last + 105 ≤ x) → after.memory x = heap.memory x
  guard : GuardStep env (region.base + 4096) true
    { heap with memory := after.memory } after

namespace Heap

/-- The stores to the header of a new MMAP and to the one in front. -/
def headMmap (heap : Heap) (region : Region) (last : Nat) : Heap :=
  ((heap.setMmapFields region.base [(.size, region.length), (.maxSize, region.length - 12288),
    (.prev, last), (.next, 0)]).relinkMmap last .next region.base).setMmapFields region.base
      [(.elements, 0), (.checkStart, checksum), (.checkEnd, checksum)]

/-- The stores to the only block of a new MMAP behind them. -/
def fillMmap (heap : Heap) (region : Region) (last : Nat) : Heap :=
  (heap.headMmap region last).setMallocFields (region.base + 4096)
    [(.size, region.length - 12288), (.status, MallocStatus.free.toWord),
      (.mmapBlock, region.base), (.prev, 0), (.next, 0), (.checkStart, checksum),
      (.checkEnd, checksum)]

/-- Only the memory changes. -/
theorem fillMmap_eq (heap : Heap) (region : Region) (last : Nat) :
    heap.fillMmap region last = { heap with memory := (heap.fillMmap region last).memory } := by
  rw [fillMmap, setMallocFields_eq, headMmap, setMmapFields_eq, relinkMmap_eq, setMmapFields_eq]

@[simp]
theorem isAccessible_headMmap (x : Nat) :
    (heap.headMmap region last).isAccessible x = heap.isAccessible x := by
  simp [headMmap]

/-- The header of the new MMAP. -/
theorem mmapHeader_headMmap (placed : region.Placed pages.bytes)
    (apart : last ≠ 0 → last + 105 ≤ region.base ∨ region.base + region.length ≤ last)
    (lastBound : last < 2 ^ 64) :
    (heap.headMmap region last).mmapHeader region.base =
      ⟨checksum, region.length, region.length - 12288, 0, last, 0, checksum⟩ := by
  have room := placed.room
  have user := placed.user
  have positive := placed.positive
  have lengthBound : region.length < 2 ^ 64 := by omega
  have maxBound : region.length - 12288 < 2 ^ 64 := by omega
  have other : ¬(region.base = last ∧ last ≠ 0) := by
    rintro ⟨same, present⟩
    have sides := apart present
    omega
  have separate : region.base + 105 ≤ last ∨ last + 105 ≤ region.base ∨ region.base = last := by
    by_cases null : last = 0
    · have aligned := placed.aligned
      omega
    · have sides := apart null
      omega
  rw [headMmap, mmapHeader_setMmapFields, mmapHeader_relinkMmap separate, if_neg other,
    mmapHeader_setMmapFields]
  simpa [MmapHeader.set] using And.intro lengthBound (And.intro maxBound lastBound)

/-- The MMAP in front gets its forward link. -/
theorem mmapHeader_headMmap_last (placed : region.Placed pages.bytes) (present : last ≠ 0)
    (apart : last + 105 ≤ region.base ∨ region.base + region.length ≤ last) :
    (heap.headMmap region last).mmapHeader last =
      { heap.mmapHeader last with next := region.base } := by
  have room := placed.room
  have user := placed.user
  have baseBound : region.base < 2 ^ 64 := by omega
  rw [headMmap, mmapHeader_setMmapFields_apart _ (by omega), mmapHeader_relinkMmap (by omega),
    if_pos ⟨rfl, present⟩, mmapHeader_setMmapFields_apart _ (by omega)]
  simpa [MmapHeader.set] using baseBound

/-- The header of the only block. -/
theorem mallocHeader_fillMmap (placed : region.Placed pages.bytes) :
    (heap.fillMmap region last).mallocHeader (region.base + 4096) =
      ⟨checksum, region.length - 12288, .free, region.base, 0, 0, checksum⟩ := by
  have user := placed.user
  have lengthBound : region.length - 12288 < 2 ^ 64 := by omega
  have baseBound : region.base < 2 ^ 64 := by omega
  rw [fillMmap, mallocHeader_setMallocFields]
  simpa [MallocHeader.set, MallocStatus.toWord, MallocStatus.ofWord]
    using And.intro lengthBound baseBound

/-- The stores stay in the region and in the header in front. -/
theorem memory_fillMmap {x : Nat} (placed : region.Placed pages.bytes)
    (outside : x < region.base ∨ region.base + region.length ≤ x)
    (away : last ≠ 0 → x < last ∨ last + 105 ≤ x) :
    (heap.fillMmap region last).memory x = heap.memory x := by
  have room := placed.room
  have clear : last = 0 ∨ x < last ∨ last + 105 ≤ x :=
    or_iff_not_imp_left.mpr away
  rw [fillMmap, memory_setMallocFields _ (by omega), headMmap, memory_setMmapFields _ (by omega),
    memory_relinkMmap clear, memory_setMmapFields _ (by omega)]

end Heap

/-- The stores and the guard of the block's header set up the MMAP. -/
theorem initialised_fillMmap (placed : region.Placed pages.bytes)
    (lastApart : last ≠ 0 → last + 105 ≤ region.base ∨ region.base + region.length ≤ last)
    (lastBound : last < 2 ^ 64)
    (step : GuardStep env (region.base + 4096) true (heap.fillMmap region last) after) :
    Initialised env region last heap after := by
  have filled := heap.fillMmap_eq region last
  have kept : ∀ base, (base + 105 ≤ region.base + 8192 ∨ region.base + 8336 ≤ base) →
      (heap.fillMmap region last).mmapHeader base = (heap.headMmap region last).mmapHeader base :=
    fun base away => Heap.mmapHeader_setMallocFields _ (by omega)
  have room := placed.room
  refine ⟨?_, ?_, ?_, ?_, ?_, ?_, ?_, ?_⟩
  · rw [step.shared, filled]
  · rw [step.mapped, filled]
  · rw [step.mmapCalls, filled]
  · rw [step.mmapHeader, kept _ (by omega), Heap.mmapHeader_headMmap placed lastApart lastBound]
  · rw [step.mallocHeader, Heap.mallocHeader_fillMmap placed]
  · intro present
    have apart := lastApart present
    rw [step.mmapHeader, kept _ (by omega), Heap.mmapHeader_headMmap_last placed present apart]
  · intro x outside away
    rw [step.memory, Heap.memory_fillMmap placed outside away]
  · rw [step.memory, ← filled]
    exact step

/-- The store of the forward link, when there is an MMAP in front. -/
theorem yields_relinkMmap (field : MmapField) (value : Nat)
    (opened : last ≠ 0 → heap.mmapAccessible last = true) :
    Yields seen (when (last ≠ 0) (writeMmapField last field value)) env (heap, held)
      fun _ final => final = (heap.relinkMmap last field value, held) := by
  refine Yields.when ?_ ?_
  · intro present
    refine (yields_writeMmapField field value (opened present)).mono ?_
    rintro _ _ rfl
    rw [Heap.relinkMmap, if_neg present]
    rfl
  · intro null
    rw [Heap.relinkMmap, if_pos (not_not.mp null)]

theorem yields_initialiseMMAP (placed : region.Placed pages.bytes)
    (mmapOpen : heap.mmapAccessible region.base = true)
    (blockOpen : heap.mallocAccessible (region.base + 4096) = true)
    (lastOpen : last ≠ 0 → heap.mmapAccessible last = true)
    (lastApart : last ≠ 0 → last + 105 ≤ region.base ∨ region.base + region.length ≤ last)
    (lastBound : last < 2 ^ 64) (pageSize : heap.shared.pageSize = 4096) :
    Yields seen (initialiseMMAP region.length last region.base) env (heap, held)
      fun _ final => final.2 = held ∧ Initialised env region last heap final.1 := by
  have room := placed.room
  have user := placed.user
  have maxEq : sub64 (sub64 region.length mmapHeaderSize) mallocHeaderSize =
      region.length - 12288 := by
    have inner : sub64 region.length 4096 = region.length - 4096 :=
      sub64_of_le (by omega) (by omega)
    rw [mmapHeaderSize_eq, mallocHeaderSize_eq, inner, sub64_of_le (by omega) (by omega)]
    omega
  have firstEq : add64 region.base mmapHeaderSize = region.base + 4096 := by
    rw [mmapHeaderSize_eq]
    exact add64_of_lt (by omega)
  unfold initialiseMMAP
  rw [maxEq, firstEq]
  simp only
  refine Yields.seq (yields_writeMmapFields _ mmapOpen) ?_
  rintro _ _ rfl
  refine Yields.seq (yields_relinkMmap .next region.base fun present => ?_) ?_
  · simpa [Heap.mmapAccessible] using lastOpen present
  rintro _ _ rfl
  refine Yields.seq (yields_writeMmapFields _ (by simpa [Heap.mmapAccessible] using mmapOpen)) ?_
  rintro _ headed rfl
  refine yields_vgcMessage_seq ?_
  have opened : (heap.headMmap region last).mmapAccessible region.base = true := by
    simpa [Heap.mmapAccessible] using mmapOpen
  refine Yields.seq (yields_readMmapHeader opened) ?_
  rintro _ _ ⟨rfl, rfl⟩
  rw [← Heap.headMmap, Heap.mmapHeader_headMmap placed lastApart lastBound]
  have fillable : (heap.headMmap region last).mallocAccessible (region.base + 4096) = true := by
    rw [Heap.mallocAccessible_congr fun x _ _ => heap.isAccessible_headMmap x]
    exact blockOpen
  refine Yields.seq (yields_writeMallocFields _ fillable) ?_
  rintro _ _ rfl
  rw [← Heap.fillMmap]
  have sized : (heap.fillMmap region last).shared.pageSize = 4096 := by
    rw [heap.fillMmap_eq]
    exact pageSize
  refine Yields.seq (yields_vgcMprotect sized) ?_
  rintro _ _ ⟨step, same⟩
  exact Yields.pure ⟨same, initialised_fillMmap placed lastApart lastBound step⟩

/-! ## The mapped region -/

/-- A region created behind the MMAP `last`. -/
structure Created (env : Env) (region : Region) (last : Nat) (heap after : Heap) : Prop where
  shared : after.shared = { heap.shared with mmapBlockCount := heap.shared.mmapBlockCount + 1 }
  mapped : after.mapped = region :: heap.mapped
  mmap : after.mmapHeader region.base =
    ⟨checksum, region.length, region.length - 12288, 0, last, 0, checksum⟩
  block : after.mallocHeader (region.base + 4096) =
    ⟨checksum, region.length - 12288, .free, region.base, 0, 0, checksum⟩
  link : last ≠ 0 →
    after.mmapHeader last = { heap.mmapHeader last with next := region.base }
  memory : ∀ x, (x < region.base ∨ region.base + region.length ≤ x) →
    (last ≠ 0 → x < last ∨ last + 105 ≤ x) → after.memory x = heap.memory x
  outside : ∀ page, page % 4096 = 0 →
    (page < region.base ∨ region.base + region.length ≤ page) →
      after.protNone page = heap.protNone page
  inside : ∀ page, page % 4096 = 0 → region.base ≤ page →
    page < region.base + region.length → page ≠ region.base + 4096 → after.protNone page = false
  guard : MprotectCallsSucceed env → after.protNone (region.base + 4096) = true

theorem pageRound_of_whole {length : Nat} (whole : length % 4096 = 0) :
    pageRound length = length := by
  simp only [pageRound, systemPageSize_eq]
  omega

theorem addRegion_mapped (placed : region.Placed pages.bytes) :
    (heap.addRegion region.base region.length).mapped = region :: heap.mapped := by
  rw [Heap.addRegion, pageRound_of_whole placed.whole]

theorem addRegion_protNone (placed : region.Placed pages.bytes) (page : Nat) :
    (heap.addRegion region.base region.length).protNone page =
      if region.base ≤ page ∧ page < region.base + region.length then false
      else heap.protNone page := by
  rw [Heap.addRegion, pageRound_of_whole placed.whole]

theorem addRegion_memory (placed : region.Placed pages.bytes) {x : Nat}
    (outside : x < region.base ∨ region.base + region.length ≤ x) :
    (heap.addRegion region.base region.length).memory x = heap.memory x := by
  rw [Heap.addRegion, pageRound_of_whole placed.whole]
  exact if_neg (by omega)

/-- Every address of a fresh region is accessible. -/
theorem addRegion_isAccessible (placed : region.Placed pages.bytes) {x : Nat}
    (low : region.base ≤ x) (high : x < region.base + region.length) :
    (heap.addRegion region.base region.length).isAccessible x = true := by
  have page := pageBase_mem placed low high
  have member : region ∈ (heap.addRegion region.base region.length).mapped := by
    rw [addRegion_mapped placed]
    exact List.mem_cons_self
  rw [Heap.isAccessible, isMapped_of_mem member low high, addRegion_protNone placed,
    if_pos page]
  rfl

/-- A new mapping leaves the addresses of other regions accessible. -/
theorem addRegion_isAccessible_other {other : Region} (placed : region.Placed pages.bytes)
    (otherPlaced : other.Placed pages.bytes) (apart : region.Disjoint other)
    (member : other ∈ heap.mapped) {x : Nat} (low : other.base ≤ x)
    (high : x < other.base + other.length) :
    (heap.addRegion region.base region.length).isAccessible x = heap.isAccessible x := by
  have page := pageBase_mem otherPlaced low high
  have kept : other ∈ (heap.addRegion region.base region.length).mapped := by
    rw [addRegion_mapped placed]
    exact List.mem_cons_of_mem _ member
  unfold Region.Disjoint at apart
  rw [Heap.isAccessible, Heap.isAccessible, isMapped_of_mem member low high,
    isMapped_of_mem kept low high, addRegion_protNone placed, if_neg (by omega)]

theorem Initialised.created (placed : region.Placed pages.bytes)
    (lastApart : last ≠ 0 → last + 105 ≤ region.base ∨ region.base + region.length ≤ last)
    (init : Initialised env region last (heap.addRegion region.base region.length) after) :
    Created env region last heap { after with
      shared := { after.shared with mmapBlockCount := after.shared.mmapBlockCount + 1 } } := by
  have room := placed.room
  have guardMapped : Heap.isMapped { heap.addRegion region.base region.length with
      memory := after.memory } (region.base + 4096) = true := by
    have member : region ∈ ({ heap.addRegion region.base region.length with
        memory := after.memory } : Heap).mapped := by
      rw [addRegion_mapped placed]
      exact List.mem_cons_self
    exact isMapped_of_mem member (by omega) (by omega)
  have aligned := placed.aligned
  refine ⟨?_, ?_, init.mmap, init.block, ?_, ?_, ?_, ?_, ?_⟩
  · rw [init.shared]
    rfl
  · exact init.mapped.trans (addRegion_mapped placed)
  · intro present
    have apart := lastApart present
    have same : (heap.addRegion region.base region.length).mmapHeader last =
        heap.mmapHeader last :=
      Bytes.mmapHeader_congr fun x low high => addRegion_memory placed (by omega)
    rw [← same]
    exact init.link present
  · intro x outside away
    exact (init.memory x outside away).trans (addRegion_memory placed outside)
  · intro page pageAligned outside
    have other : page ≠ region.base + 4096 := by omega
    refine (init.guard.others page pageAligned other).trans ?_
    rw [addRegion_protNone placed, if_neg (by omega)]
  · intro page pageAligned low high other
    refine (init.guard.others page pageAligned other).trans ?_
    rw [addRegion_protNone placed, if_pos ⟨low, high⟩]
  · intro works
    exact init.guard.done works (by omega) guardMapped

/-- The links of the MMAPs after one has been appended. -/
theorem Created.links (created : Created env region abstract.lastListed heap after)
    (segment : Segment heap.nextMmap heap.prevMmap 0 abstract.listed 0)
    (nodup : abstract.listed.Nodup)
    (others : ∀ base ∈ abstract.listed, base ≠ abstract.lastListed →
      after.mmapHeader base = heap.mmapHeader base)
    (nonzero : ∀ base ∈ abstract.listed, base ≠ 0) :
    Segment after.nextMmap after.prevMmap 0 (abstract.listed ++ [region.base]) 0 := by
  rw [segment_append]
  constructor
  · rcases List.eq_nil_or_concat abstract.listed with empty | ⟨front, node, shape⟩
    · rw [empty]
      exact segment_nil
    · rw [List.concat_eq_append] at shape
      have lastEq : abstract.lastListed = node := by
        rw [AbstractHeap.lastListed, shape, List.getLastD_concat]
      have present : abstract.lastListed ≠ 0 := by
        rw [lastEq]
        exact nonzero node (by simp [shape])
      have link := created.link present
      rw [lastEq] at link
      have frontOther : ∀ base ∈ front, after.mmapHeader base = heap.mmapHeader base := by
        intro base member
        refine others base (by simp [shape, member]) ?_
        rintro rfl
        rw [shape, List.nodup_append] at nodup
        exact nodup.2.2 _ member node (by simp) lastEq
      rw [shape] at segment ⊢
      refine segment.retail ?_ ?_ ?_
      · rw [Heap.nextMmap, link]
        rfl
      · exact fun base member => congrArg MmapHeader.next (frontOther base member)
      · intro base member
        rcases List.mem_append.mp member with inFront | isNode
        · exact congrArg MmapHeader.prev (frontOther base inFront)
        · rw [List.mem_singleton.mp isNode, Heap.prevMmap, link]
          rfl
  · refine ⟨?_, ?_, segment_nil⟩
    · rw [Heap.prevMmap, created.mmap]
      rfl
    · rw [Heap.nextMmap, created.mmap]
      rfl

/-- Only the guard page of a new region can be out of reach. -/
theorem Created.isAccessible (created : Created env region last heap after)
    (placed : region.Placed pages.bytes) {x : Nat} (low : region.base ≤ x)
    (high : x < region.base + region.length)
    (away : x < region.base + 4096 ∨ region.base + 8192 ≤ x) : after.isAccessible x = true := by
  have aligned := placed.aligned
  have member : region ∈ after.mapped := by
    rw [created.mapped]
    exact List.mem_cons_self
  have page := pageBase_mem placed low high
  have other : pageBase x ≠ region.base + 4096 := by
    simp only [pageBase, systemPageSize_eq]
    omega
  rw [Heap.isAccessible, isMapped_of_mem member low high,
    created.inside _ (pageBase_mod x) page.1 page.2 other]
  rfl

/-- The new region represents its single free block. -/
theorem Created.fresh (created : Created env region last heap after)
    (placed : region.Placed pages.bytes) :
    RegionRep after region (AbstractHeap.freshEntries region) := by
  have room := placed.room
  have accessible : ∀ x, region.base ≤ x → x < region.base + region.length →
      (x < region.base + 4096 ∨ region.base + 8192 ≤ x) → after.isAccessible x = true :=
    fun x low high away => created.isAccessible placed low high away
  constructor
  · refine ⟨?_, ?_, ?_, ?_, ?_, ?_⟩
    all_goals first
      | rw [created.mmap]
      | skip
    · rfl
    · rw [Heap.mmapAccessible, accessible _ (by omega) (by omega) (by omega),
        accessible _ (by omega) (by omega) (by omega)]
      rfl
  · constructor
    · refine ⟨?_, ?_, segment_nil⟩
      · rw [Heap.prevBlock, created.block]
      · rw [Heap.nextBlock, created.block]
        rfl
    · intro entry entryMem
      rw [List.mem_singleton.mp entryMem]
      refine ⟨?_, ?_, ?_, ?_, ?_, ?_⟩
      all_goals first
        | rw [created.block]
        | skip
      · rfl
      · simp only
        exact Heap.mallocAccessible_of fun x low high =>
          accessible x (by omega) (by omega) (by omega)

/-- A created region joins the represented heap. -/
theorem Stands.create (stands : Stands pages guarded heap abstract)
    (placed : region.Placed pages.bytes)
    (apart : ∀ other ∈ abstract.regions, region.Disjoint other)
    (created : Created env region abstract.lastListed heap after) :
    Stands pages guarded after (abstract.create region) := by
  have wf := stands.wellFormed
  have room := placed.room
  have aligned := placed.aligned
  -- the header of the last MMAP lies in a region of its own
  have lastRegion : abstract.lastListed ≠ 0 →
      ∃ other ∈ abstract.regions, other.base = abstract.lastListed := fun present =>
    stands.listed (AbstractHeap.lastListed_mem present)
  have kept : ∀ other ∈ abstract.regions, ∀ x, other.base ≤ x →
      x < other.base + other.length → (other.base + 105 ≤ x ∨ other.base ≠ abstract.lastListed) →
        after.memory x = heap.memory x := by
    intro other otherMem x low high away
    have disjoint := apart other otherMem
    unfold Region.Disjoint at disjoint
    refine created.memory x (by omega) ?_
    intro present
    obtain ⟨owner, ownerMem, ownerBase⟩ := lastRegion present
    by_cases same : other = owner
    · subst same
      omega
    · have between := wf.disjoint_of_ne otherMem ownerMem same
      have ownerRoom := (wf.placed owner ownerMem).room
      unfold Region.Disjoint at between
      omega
  have accessible : ∀ other ∈ abstract.regions, ∀ x, other.base ≤ x →
      x < other.base + other.length → after.isAccessible x = heap.isAccessible x := by
    intro other otherMem x low high
    have disjoint := apart other otherMem
    unfold Region.Disjoint at disjoint
    have page := pageBase_mem (wf.placed other otherMem) low high
    have member : other ∈ heap.mapped := stands.mapped.symm ▸ otherMem
    have memberAfter : other ∈ after.mapped := by
      rw [created.mapped]
      exact List.mem_cons_of_mem _ member
    rw [Heap.isAccessible, Heap.isAccessible, isMapped_of_mem member low high,
      isMapped_of_mem memberAfter low high,
      created.outside _ (pageBase_mod x) (by omega)]
  have sameHeader : ∀ other ∈ abstract.regions, other.base ≠ abstract.lastListed →
      after.mmapHeader other.base = heap.mmapHeader other.base := by
    intro other otherMem ne
    have otherRoom := (wf.placed other otherMem).room
    exact Bytes.mmapHeader_congr fun x low high =>
      kept other otherMem x low (by omega) (Or.inr ne)
  refine ⟨wf.create placed apart, ?_, ?_, ?_, ?_, ?_, ?_⟩
  · rw [created.mapped, stands.mapped]
    rfl
  · refine List.forall_mem_cons.mpr ⟨?_, ?_⟩
    · simpa [AbstractHeap.create] using created.fresh placed
    · intro other otherMem
      have disjoint := apart other otherMem
      have otherRoom := (wf.placed other otherMem).room
      have baseNe : other.base ≠ region.base := by
        unfold Region.Disjoint at disjoint
        omega
      have entriesEq : (abstract.create region).entries other.base =
          abstract.entries other.base := by simp [AbstractHeap.create, baseNe]
      rw [entriesEq]
      have rep := stands.regions other otherMem
      have tiles := wf.tiles other otherMem
      have header : after.mmapHeader other.base = { heap.mmapHeader other.base with
          prev := (heap.mmapHeader other.base).prev
          next := if other.base = abstract.lastListed then region.base
            else (heap.mmapHeader other.base).next } := by
        by_cases isLast : other.base = abstract.lastListed
        · have present : abstract.lastListed ≠ 0 := by
            have positive := (wf.placed other otherMem).positive
            omega
          rw [if_pos isLast, isLast, created.link present]
        · rw [if_neg isLast, sameHeader other otherMem isLast]
      refine rep.relink header ?_ ?_ ?_
      · intro x xMem
        have bounds := tiles.bounds xMem
        exact Bytes.mallocHeader_congr fun y low high =>
          kept other otherMem y (by omega) (by omega) (Or.inl (by omega))
      · rw [Heap.mmapAccessible, accessible other otherMem _ (by omega) (by omega),
          accessible other otherMem _ (by omega) (by omega)]
        exact rep.mmap.accessible
      · intro x xMem
        have bounds := tiles.bounds xMem
        rw [Heap.mallocAccessible_congr fun y low high =>
          accessible other otherMem y (by omega) (by omega)]
        exact (rep.blocks.headers x xMem).accessible
  · refine created.links stands.links wf.nodup ?_ ?_
    · intro base member ne
      obtain ⟨other, otherMem, rfl⟩ := stands.listed member
      exact sameHeader other otherMem ne
    · intro base member
      obtain ⟨other, otherMem, rfl⟩ := stands.listed member
      exact Nat.ne_of_gt (wf.placed other otherMem).positive
  · rw [created.shared]
    exact stands.pageSize
  · rw [created.shared]
    exact stands.blockSize
  · rw [created.shared]
    exact stands.mode

/-! ## `allocMMAP` -/

/-- What the kernel's acceptance of a placement means. -/
theorem placement_eq_some {length base : Nat} (chosen : heap.placement env length = some base) :
    base % 4096 = 0 ∧ 0 < base ∧ base + pageRound length ≤ 2 ^ 47 ∧
      ∀ region ∈ heap.mapped, base + pageRound length ≤ region.base ∨
        region.base + region.length ≤ base := by
  unfold Heap.placement at chosen
  obtain ⟨_, placeable⟩ := Option.filter_eq_some_iff.mp chosen
  simp only [Heap.isPlaceable, Bool.and_eq_true, beq_iff_eq, List.all_eq_true,
    systemPageSize_eq] at placeable
  obtain ⟨⟨⟨⟨aligned, positive⟩, _⟩, user⟩, apart⟩ := placeable
  exact ⟨aligned, of_decide_eq_true positive, of_decide_eq_true user,
    fun region member => of_decide_eq_true (apart region member)⟩

theorem Stands.asked (stands : Stands pages guarded heap abstract) :
    Stands pages guarded heap.asked abstract :=
  ⟨stands.wellFormed, stands.mapped, fun region member =>
    (stands.regions region member).of_headers rfl (fun _ _ => rfl) fun _ accessible => accessible,
    stands.links, stands.pageSize, stands.blockSize, stands.mode⟩

/-- The region that the next call of `mmapBlockAllocate` maps, if any: one of
full size, else one of a tenth. -/
def Heap.newRegion (heap : Heap) (env : Env) (pages : MmapPages) : Option Region :=
  match heap.placement env pages.bytes with
  | some base => some ⟨base, pages.bytes⟩
  | none => (heap.asked.placement env (pages.bytes / 10)).map fun base =>
      ⟨base, pages.bytes / 10⟩

/-- A length that `mmapBlockAllocate` asks for. -/
def MmapPages.Asks (pages : MmapPages) (length : Nat) : Prop :=
  length = pages.bytes ∨ length = pages.bytes / 10

theorem placement_placed {length base : Nat} (asks : pages.Asks length)
    (chosen : heap.placement env length = some base) :
    (⟨base, length⟩ : Region).Placed pages.bytes ∧
      ∀ other ∈ heap.mapped, (⟨base, length⟩ : Region).Disjoint other := by
  have bytes := pages.bytes_bounds
  have whole : length % 4096 = 0 := by
    rcases asks with rfl | rfl
    · exact bytes.2.2.1
    · exact bytes.2.2.2
  have bounds : 16384 ≤ length ∧ length ≤ pages.bytes := by
    rcases asks with rfl | rfl
    · omega
    · omega
  obtain ⟨aligned, positive, user, apart⟩ := placement_eq_some chosen
  rw [pageRound_of_whole whole] at user apart
  exact ⟨⟨aligned, positive, user, whole, bounds.1, bounds.2⟩, apart⟩

/-- `allocMMAP` on a represented heap. -/
theorem yields_allocMMAP {length : Nat} (mutexes : MutexCallsSucceed env)
    (stands : Stands pages guarded heap abstract) (asks : pages.Asks length)
    (unheld : ∀ base, Mutex.mmapBlock base ∉ held) :
    Yields seen (allocMMAP length abstract.lastListed) env (heap, held) fun value final =>
      final.2 = held ∧
        ((∃ base, heap.placement env length = some base ∧ value = base ∧
            Created env ⟨base, length⟩ abstract.lastListed heap.asked final.1) ∨
          heap.placement env length = none ∧ value = mapFailed ∧ final.1 = heap.asked) := by
  unfold allocMMAP
  refine Yields.seq (yields_mmap length) ?_
  rintro base _ (⟨_, chosen, rfl, rfl⟩ | ⟨none, rfl, rfl⟩)
  · obtain ⟨placed, apart⟩ := placement_placed asks chosen
    have user := placed.user
    have room := placed.room
    simp only at user room
    rw [if_neg (by rw [mapFailed_eq]; omega)]
    refine Yields.seq (yields_answer_true mutexes.attrInit) ?_
    rintro _ _ ⟨rfl, rfl⟩
    simp only [Bool.not_true, Bool.false_eq_true, if_false]
    refine Yields.seq (yields_answer_true mutexes.init) ?_
    rintro _ _ ⟨rfl, rfl⟩
    simp only [Bool.not_true, Bool.false_eq_true, if_false]
    generalize regionEq : (⟨base, length⟩ : Region) = region at placed apart
    have baseEq : base = region.base := congrArg Region.base regionEq
    have lengthEq : length = region.length := congrArg Region.length regionEq
    subst baseEq lengthEq
    have opens : ∀ x, region.base ≤ x → x < region.base + region.length →
        (heap.asked.addRegion region.base region.length).isAccessible x = true :=
      fun x low high => addRegion_isAccessible placed low high
    have mmapOpen : (heap.asked.addRegion region.base region.length).mmapAccessible
        region.base = true := by
      rw [Heap.mmapAccessible, opens _ (by omega) (by omega), opens _ (by omega) (by omega)]
      rfl
    have blockOpen : (heap.asked.addRegion region.base region.length).mallocAccessible
        (region.base + 4096) = true :=
      Heap.mallocAccessible_of fun x low high => opens x (by omega) (by omega)
    have owner : abstract.lastListed ≠ 0 → ∃ other ∈ abstract.regions,
        other.base = abstract.lastListed := fun present =>
      stands.listed (AbstractHeap.lastListed_mem present)
    have lastOpen : abstract.lastListed ≠ 0 →
        (heap.asked.addRegion region.base region.length).mmapAccessible
          abstract.lastListed = true := by
      intro present
      obtain ⟨other, otherMem, otherBase⟩ := owner present
      have otherPlaced := stands.wellFormed.placed other otherMem
      have otherRoom := otherPlaced.room
      have otherMapped : other ∈ heap.asked.mapped := stands.mapped.symm ▸ otherMem
      have disjoint := apart other otherMapped
      have before := (stands.asked.regions other otherMem).mmap.accessible
      rw [← otherBase, Heap.mmapAccessible,
        addRegion_isAccessible_other placed otherPlaced disjoint otherMapped (by omega)
          (by omega),
        addRegion_isAccessible_other placed otherPlaced disjoint otherMapped (by omega)
          (by omega)]
      exact before
    have lastApart : abstract.lastListed ≠ 0 →
        abstract.lastListed + 105 ≤ region.base ∨
          region.base + region.length ≤ abstract.lastListed := by
      intro present
      obtain ⟨other, otherMem, otherBase⟩ := owner present
      have otherRoom := (stands.wellFormed.placed other otherMem).room
      have disjoint := apart other (stands.mapped.symm ▸ otherMem)
      unfold Region.Disjoint at disjoint
      omega
    have lastBound : abstract.lastListed < 2 ^ 64 := by
      by_cases null : abstract.lastListed = 0
      · omega
      · obtain ⟨other, otherMem, otherBase⟩ := owner null
        have otherPlaced := stands.wellFormed.placed other otherMem
        have otherUser := otherPlaced.user
        omega
    have mutexOpen : mutexAccessible (heap.asked.addRegion region.base region.length)
        (.mmapBlock region.base) = true := mmapOpen
    refine Yields.seq (yields_pthreadMutexLock mutexes mutexOpen (unheld _)) ?_
    rintro _ _ ⟨rfl, rfl⟩
    simp only [Bool.not_true, Bool.false_eq_true, if_false]
    refine Yields.seq (yields_initialiseMMAP placed mmapOpen blockOpen lastOpen lastApart
      lastBound stands.pageSize) ?_
    rintro _ ⟨middle, middleHeld⟩ ⟨rfl, init⟩
    have created := init.created placed lastApart
    have endOpen : mutexAccessible middle (.mmapBlock region.base) = true := by
      have guard := init.guard
      have same : ∀ x, (x < region.base + 4096 ∨ region.base + 4096 + 4096 ≤ x) →
          middle.isAccessible x =
            (heap.asked.addRegion region.base region.length).isAccessible x := by
        intro x outside
        rw [guard.isAccessible_of_outside outside]
        rfl
      rw [mutexAccessible, Heap.mmapAccessible, same _ (by omega), same _ (by omega)]
      exact mmapOpen
    refine Yields.seq (yields_pthreadMutexUnlock mutexes endOpen) ?_
    rintro _ _ ⟨rfl, rfl⟩
    simp only [Bool.not_true, Bool.false_eq_true, if_false]
    refine Yields.seq (yields_modifyShared _) ?_
    rintro _ _ rfl
    exact Yields.pure ⟨rfl, Or.inl ⟨region.base, chosen, rfl, regionEq ▸ created⟩⟩
  · rw [if_pos rfl]
    refine yields_vgcMessage_seq (Yields.pure ⟨rfl, Or.inr ⟨none, rfl, rfl⟩⟩)

/-! ## `mmapBlockAllocate` -/

theorem newRegion_placed (chosen : heap.newRegion env pages = some region) :
    region.Placed pages.bytes ∧ pages.Asks region.length ∧
      ∀ other ∈ heap.mapped, region.Disjoint other := by
  unfold Heap.newRegion at chosen
  cases full : heap.placement env pages.bytes with
  | some base =>
      rw [full] at chosen
      cases chosen
      obtain ⟨placed, apart⟩ := placement_placed (Or.inl rfl) full
      exact ⟨placed, Or.inl rfl, apart⟩
  | none =>
      rw [full] at chosen
      obtain ⟨base, tenth, rfl⟩ := Option.map_eq_some_iff.mp chosen
      obtain ⟨placed, apart⟩ := placement_placed (Or.inr rfl) tenth
      exact ⟨placed, Or.inr rfl, apart⟩

/-- A request that the kernel refuses changes nothing that a creation sees. -/
theorem Created.of_asked (created : Created env region last heap.asked after) :
    Created env region last heap after :=
  ⟨created.shared, created.mapped, created.mmap, created.block, created.link, created.memory,
    created.outside, created.inside, created.guard⟩

/-- The result of `mmapBlockAllocate`. -/
inductive CreateOutcome (env : Env) (pages : MmapPages) (last : Nat) (heap after : Heap)
    (value : Nat) : Prop where
  | failed (refused : heap.newRegion env pages = none) (null : value = mapFailed)
      (same : after = heap.asked.asked)
  | created (region : Region) (chosen : heap.newRegion env pages = some region)
      (address : value = region.base) (created : Created env region last heap after)

theorem yields_mmapBlockAllocate (mutexes : MutexCallsSucceed env)
    (stands : Stands pages guarded heap abstract)
    (unheld : ∀ base, Mutex.mmapBlock base ∉ held) :
    Yields seen (mmapBlockAllocate pages.bytes abstract.lastListed) env (heap, held)
      fun value final => final.2 = held ∧
        CreateOutcome env pages abstract.lastListed heap final.1 value := by
  unfold mmapBlockAllocate
  refine Yields.seq (yields_allocMMAP mutexes stands (Or.inl rfl) unheld) ?_
  rintro value ⟨middle, middleHeld⟩
    ⟨rfl, ⟨base, full, rfl, created⟩ | ⟨noFull, rfl, rfl⟩⟩
  · have user := (placement_placed (Or.inl rfl) full).1.user
    simp only at user
    rw [if_pos (by rw [mapFailed_eq]; omega)]
    refine Yields.pure ⟨rfl, .created ⟨value, pages.bytes⟩ ?_ rfl created.of_asked⟩
    rw [Heap.newRegion, full]
  · rw [if_neg (not_not_intro rfl)]
    refine Yields.seq (yields_allocMMAP mutexes stands.asked (Or.inr rfl) unheld) ?_
    rintro value ⟨middle, middleHeld⟩
      ⟨rfl, ⟨base, tenth, rfl, created⟩ | ⟨noTenth, rfl, rfl⟩⟩
    · have user := (placement_placed (Or.inr rfl) tenth).1.user
      simp only at user
      have there : ¬value = mapFailed := by
        rw [mapFailed_eq]
        omega
      refine Yields.seq (?_ : Yields seen _ env _ fun _ final => final = (middle, middleHeld)) ?_
      · exact Yields.when (fun failed => absurd failed there) fun _ => rfl
      rintro _ _ rfl
      refine Yields.pure ⟨rfl, .created ⟨value, pages.bytes / 10⟩ ?_ rfl
        created.of_asked.of_asked⟩
      rw [Heap.newRegion, noFull, tenth]
      rfl
    · refine Yields.seq (?_ : Yields seen _ env _
        fun _ final => final = (heap.asked.asked, middleHeld)) ?_
      · exact Yields.when (fun _ => yields_vgcMessage) fun _ => rfl
      rintro _ _ rfl
      refine Yields.pure ⟨rfl, .failed ?_ rfl rfl⟩
      rw [Heap.newRegion, noFull, noTenth]
      rfl

end VgcMalloc
