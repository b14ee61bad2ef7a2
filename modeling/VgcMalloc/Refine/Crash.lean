import VgcMalloc.Refine.Actions
import VgcMalloc.Refine.Runs

/-!
# Lists left by a dead owner

The robust mutex of an MMAP hands its block list to the next process as the
dead one has left it.  `checkMmapBlock` is the only thing between that list and
its next change.  It accepts every list that is linked both ways, whether or
not the blocks tile the MMAP, and refuses a list with a missing back link.
-/

namespace VgcMalloc

open Program Tiling Linked

/-! ## Recovery -/

/-- The block list of an MMAP is exactly tiled and linked both ways. -/
structure TiledList (heap : Heap) (mmapBlock : Nat) : Prop where
  first : (heap.blocks mmapBlock).head?.map Entry.addr = some (mmapBlock + mmapHeaderSize)
  tiles : Contiguous mallocHeaderSize (mmapBlock + mmapHeaderSize) (heap.blocks mmapBlock)
    (mmapBlock + (heap.mmapHeader mmapBlock).size)
  links : Segment heap.nextBlock heap.prevBlock 0 ((heap.blocks mmapBlock).map Entry.addr) 0

/-- A later process finds the memory of the heap, under any page protections of
its own; when `checkMmapBlock` returns true to it, the list that it goes on to
modify is exactly tiled and linked both ways. -/
def Recoverable (heap : Heap) (mmapBlock : Nat) : Prop :=
  ∀ env str (state last : State), state.heap.memory = heap.memory →
    state.heap.shared = heap.shared → state.heap.mapped = heap.mapped →
      checkMmapBlock str mmapBlock env state = .ok true last → TiledList heap mmapBlock

variable {env : Env} {heap before after : Heap} {held : List Mutex} {pages : MmapPages}
  {guarded : Bool} {abstract : AbstractHeap} {region : Region} {front back entries : List Entry}
  {entry : Entry}

theorem TiledList.recoverable {mmapBlock : Nat} (tiled : TiledList heap mmapBlock) :
    Recoverable heap mmapBlock :=
  fun _ _ _ _ _ _ _ _ => tiled

/-! ## Linked regions -/

/-- The headers of a region are in place and linked both ways; their sizes stay
inside of the region, but may leave gaps or overlap. -/
structure LinkedRegion (pages : MmapPages) (heap : Heap) (region : Region)
    (entries : List Entry) : Prop where
  placed : region.Placed pages.bytes
  mapped : region ∈ heap.mapped
  blockSize : heap.shared.mmapBlockSize = pages.bytes
  size : (heap.mmapHeader region.base).size = region.length
  maxSize : (heap.mmapHeader region.base).maxSize = region.length - 12288
  first : (entries.map Entry.addr).headD 0 = region.base + 4096
  chain : Chain heap 0 entries
  spread : entries.Pairwise fun left right => left.addr + 8192 ≤ right.addr
  inside : ∀ x ∈ entries, region.base + 4096 ≤ x.addr ∧
    x.addr + 8192 + x.size ≤ region.base + region.length

/-- Every region of a well-formed heap is linked. -/
theorem Stands.linkedRegion (stands : Stands pages guarded heap abstract)
    (member : region ∈ abstract.regions) :
    LinkedRegion pages heap region (abstract.entries region.base) where
  placed := stands.wellFormed.placed region member
  mapped := stands.mapped.symm ▸ member
  blockSize := stands.blockSize
  size := (stands.regions region member).mmap.size
  maxSize := (stands.regions region member).mmap.maxSize
  first := by
    have walk := (stands.site member).walkable
    have user := walk.placed.user
    have room := walk.placed.room
    rw [← walk.first, firstMallocHeaderInMMAP, mmapHeaderSize_eq, add64_of_lt (by omega)]
  chain := (stands.regions region member).blocks.chain
  spread := by
    apply (stands.wellFormed.tiles region member).pairwise.imp
    intro left right ordered
    omega
  inside x xMem := (stands.wellFormed.tiles region member).bounds xMem

namespace LinkedRegion

/-- Two headers are the same or lie apart. -/
theorem apart (linked : LinkedRegion pages heap region entries) {x y : Entry}
    (xMem : x ∈ entries) (yMem : y ∈ entries) :
    x = y ∨ x.addr + 8192 ≤ y.addr ∨ y.addr + 8192 ≤ x.addr := by
  obtain ⟨front, back, rfl⟩ := List.append_of_mem xMem
  have ordered := List.pairwise_append.mp linked.spread
  rcases mem_append_cons.mp yMem with rfl | other
  · exact Or.inl rfl
  · rcases List.mem_append.mp other with inFront | inBack
    · exact Or.inr (Or.inr (ordered.2.2 y inFront x List.mem_cons_self))
    · exact Or.inr (Or.inl (List.rel_of_pairwise_cons ordered.2.1 inBack))

theorem nonzero (linked : LinkedRegion pages heap region entries) :
    ∀ x ∈ entries, x.addr ≠ 0 := by
  intro x member
  have bounds := linked.inside x member
  omega

/-- Two linked headers are at least as far apart as they are long, so there are
fewer of them than addresses. -/
theorem enough (linked : LinkedRegion pages heap region entries) :
    entries.length < walkFuel := by
  have user := linked.placed.user
  have distinct : (entries.map Entry.addr).Nodup := by
    rw [List.nodup_iff_pairwise_ne, List.pairwise_map]
    apply linked.spread.imp
    intro left right ordered
    omega
  have below : ∀ x ∈ entries.map Entry.addr, x ∈ List.range (2 ^ 47) := by
    intro x member
    obtain ⟨y, yMem, rfl⟩ := List.mem_map.mp member
    have bounds := linked.inside y yMem
    exact List.mem_range.mpr (by omega)
  have count := (List.subperm_of_subset distinct below).length_le
  rw [List.length_range, List.length_map] at count
  rw [walkFuel, wordRange_eq]
  omega

theorem firstEq (linked : LinkedRegion pages heap region entries) :
    firstMallocHeaderInMMAP region.base = (entries.map Entry.addr).headD 0 := by
  have user := linked.placed.user
  have room := linked.placed.room
  rw [linked.first, firstMallocHeaderInMMAP, mmapHeaderSize_eq, add64_of_lt (by omega)]

/-- The blocks that a debugger sees. -/
theorem blocks_eq (linked : LinkedRegion pages heap region entries) :
    heap.blocks region.base = entries.map fun x => heap.entryAt x.addr := by
  have found : follow heap.nextBlock (fun block => block == 0) walkFuel
      (firstMallocHeaderInMMAP region.base) = entries.map Entry.addr := by
    rw [linked.firstEq]
    refine linked.chain.links.follow_eq (by simp) ?_ ?_
    · intro block blockMem
      obtain ⟨x, xMem, rfl⟩ := List.mem_map.mp blockMem
      simpa using linked.nonzero x xMem
    · rw [List.length_map]
      exact Nat.le_of_lt linked.enough
  unfold Heap.blocks
  rw [found, List.map_map]
  rfl

/-- The list is exactly tiled when the addresses and sizes of its blocks are. -/
theorem tiledList_iff (linked : LinkedRegion pages heap region entries) :
    TiledList heap region.base ↔
      Contiguous 8192 (region.base + 4096) entries (region.base + region.length) := by
  have same : ∀ x ∈ entries, (heap.entryAt x.addr).addr = x.addr ∧
      (heap.entryAt x.addr).size = x.size :=
    fun x member => ⟨heap.entryAt_addr x.addr, linked.chain.sizes x member⟩
  have seen : Contiguous 8192 (region.base + 4096)
      (entries.map fun x => heap.entryAt x.addr) (region.base + region.length) ↔
        Contiguous 8192 (region.base + 4096) entries (region.base + region.length) :=
    contiguous_map same
  constructor
  · intro tiled
    have tiles := tiled.tiles
    rw [linked.blocks_eq, linked.size] at tiles
    exact seen.mp tiles
  · intro tiles
    refine ⟨?_, ?_, ?_⟩
    · have first := linked.first
      have placed := linked.placed
      rw [linked.blocks_eq, mmapHeaderSize_eq, ← first]
      cases entries with
      | nil =>
          rw [List.map_nil, List.headD_nil] at first
          omega
      | cons x rest => simp
    · rw [linked.blocks_eq, linked.size]
      exact seen.mpr tiles
    · have addrs : (entries.map fun x => heap.entryAt x.addr).map Entry.addr =
          entries.map Entry.addr := by simp
      rw [linked.blocks_eq, addrs]
      exact linked.chain.links

end LinkedRegion

/-- The heap of a process that has lifted all guards. -/
def Heap.opened (heap : Heap) : Heap := { heap with protNone := fun _ => false }

theorem Heap.isAccessible_opened {x : Nat} (mapped : region ∈ heap.mapped)
    (low : region.base ≤ x) (high : x < region.base + region.length) :
    heap.opened.isAccessible x = true := by
  have isMapped : heap.opened.isMapped x = true := isMapped_of_mem mapped low high
  rw [Heap.isAccessible, isMapped]
  rfl

namespace LinkedRegion

/-- The checks can read a linked region once its guards are lifted. -/
theorem readable (linked : LinkedRegion pages heap region entries) :
    Readable pages heap.opened region entries where
  placed := linked.placed
  chain := ⟨linked.chain.links, linked.chain.sizes⟩
  opened x member := by
    have bounds := linked.inside x member
    exact Heap.mallocAccessible_of fun y low high =>
      Heap.isAccessible_opened linked.mapped (by omega) (by omega)
  inside := linked.inside
  first := linked.firstEq
  enough := linked.enough
  maxSize := linked.maxSize
  accessible := by
    have room := linked.placed.room
    rw [Heap.mmapAccessible, Bool.and_eq_true]
    exact ⟨Heap.isAccessible_opened linked.mapped (by omega) (by omega),
      Heap.isAccessible_opened linked.mapped (by omega) (by omega)⟩

/-- The check accepts a linked region, so recovery is right only when the
region is tiled. -/
theorem recoverable_iff (linked : LinkedRegion pages heap region entries) :
    Recoverable heap region.base ↔
      Contiguous 8192 (region.base + 4096) entries (region.base + region.length) := by
  rw [← linked.tiledList_iff]
  constructor
  · intro recoverable
    have accepted : Yields seen (checkMmapBlock "vgc_malloc" region.base) generousEnv
        (heap.opened, []) fun value after => value = true ∧ after = (heap.opened, []) :=
      yields_checkMmapBlock linked.readable linked.blockSize
    obtain ⟨_, last, ended, rfl, _⟩ := accepted ⟨heap.opened, [], 0, [], []⟩ rfl
    exact recoverable _ _ _ last rfl rfl rfl ended
  · exact TiledList.recoverable

end LinkedRegion

/-! ## Missing back links -/

/-- The loop of `checkMmapBlock` goes on from a block only when the next one
points back to it. -/
theorem allows_checkBlocks_step {str : String} {mmapBlock fuel block next : Nat} {totals : Totals}
    (present : block ≠ 0) (nextEq : heap.nextBlock block = next) (more : next ≠ 0)
    (rest : heap.prevBlock next = block → ∀ fuel totals,
      Allows seen (checkBlocks str mmapBlock fuel next totals) env (heap, held)
        fun value _ => value = none) :
    Allows seen (checkBlocks str mmapBlock fuel block totals) env (heap, held)
      fun value _ => value = none := by
  have complaint : ∀ {title desc : String} {args : List Nat},
      Allows seen (do
        vgcMessage errorLevel "checkMmapBlock" str title "Error" args
        dumpMmapBlock str mmapBlock desc
        return none : Vgc (Option Totals)) env (heap, held) fun value _ => value = none := by
    intro title desc args
    apply Allows.seq yields_vgcMessage.allows
    rintro _ _ rfl
    apply Allows.seq allows_dumpMmapBlock
    rintro _ _ rfl
    exact Allows.pure rfl
  have nextIs : (heap.mallocHeader block).next = next := nextEq
  cases fuel with
  | zero =>
      intro state _ value final ended
      cases ended
  | succ fuel =>
      rw [checkBlocks, if_neg present]
      apply Allows.seq allows_readMallocFields
      rintro _ _ ⟨rfl, rfl⟩
      apply Allows.seq allows_readMmapHeader
      rintro _ _ ⟨rfl, rfl⟩
      apply Allows.seq yields_getShared.allows
      rintro _ _ ⟨rfl, rfl⟩
      apply Allows.ite (fun _ => complaint) fun _ => ?_
      apply Allows.ite (fun _ => complaint) fun _ => ?_
      rw [nextIs, if_neg more]
      apply Allows.seq allows_readMallocFields
      rintro _ _ ⟨rfl, rfl⟩
      apply Allows.ite (fun _ => complaint) fun back => ?_
      exact rest (not_ne_iff.mp back).symm fuel _

/-- The loop of `checkMmapBlock` finds the missing back link of the node behind
a segment. -/
theorem allows_checkBlocks_of_broken {str : String} {mmapBlock fuel : Nat} {totals : Totals}
    {start node stop : Nat} {nodes : List Nat}
    (links : Segment heap.nextBlock heap.prevBlock start (nodes ++ [node]) stop)
    (nonzero : ∀ x ∈ nodes ++ [node], x ≠ 0) (present : stop ≠ 0)
    (broken : heap.prevBlock stop ≠ node) :
    Allows seen (checkBlocks str mmapBlock fuel ((nodes ++ [node]).headD stop) totals) env
      (heap, held) fun value _ => value = none := by
  induction nodes generalizing start fuel totals with
  | nil =>
      apply allows_checkBlocks_step (nonzero node (by simp)) links.2.1 present
      intro back
      exact absurd back broken
  | cons first rest ih =>
      have more : (rest ++ [node]).headD stop ≠ 0 := by
        cases rest with
        | nil => exact nonzero node (by simp)
        | cons second rest => exact nonzero second (by simp)
      apply allows_checkBlocks_step (nonzero first (by simp)) links.2.1 more
      intro _ fuel totals
      exact ih links.2.2 fun x member => nonzero x (List.mem_cons_of_mem _ member)

/-- A list with a missing back link is refused. -/
theorem recoverable_of_broken {mmapBlock : Nat} (nodes : List Nat) (node stop : Nat)
    (first : (nodes ++ [node]).headD stop = firstMallocHeaderInMMAP mmapBlock)
    (links : Segment heap.nextBlock heap.prevBlock 0 (nodes ++ [node]) stop)
    (nonzero : ∀ x ∈ nodes ++ [node], x ≠ 0) (present : stop ≠ 0)
    (broken : heap.prevBlock stop ≠ node) : Recoverable heap mmapBlock := by
  intro env str state last memory _ _ ended
  have next : state.heap.nextBlock = heap.nextBlock := by
    funext x
    rw [Heap.nextBlock, Heap.nextBlock, Heap.mallocHeader, Heap.mallocHeader, memory]
  have prev : state.heap.prevBlock = heap.prevBlock := by
    funext x
    rw [Heap.prevBlock, Heap.prevBlock, Heap.mallocHeader, Heap.mallocHeader, memory]
  rw [← next, ← prev] at links
  rw [← prev] at broken
  have refused : Allows seen (checkMmapBlock str mmapBlock) env (state.heap, state.held)
      fun value _ => value = false := by
    unfold checkMmapBlock
    rw [← first]
    apply Allows.seq (allows_checkBlocks_of_broken links nonzero present broken)
    rintro _ after rfl
    exact Allows.pure rfl
  exact absurd (refused state rfl true last ended) (by simp)

end VgcMalloc
