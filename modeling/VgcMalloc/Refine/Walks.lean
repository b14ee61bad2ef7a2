import VgcMalloc.Refine.Checks
import VgcMalloc.Refine.Represent

/-!
# Walks over represented lists

The loops of the allocator over the blocks of an MMAP and over the MMAPs end,
stay inside the represented lists, and change nothing.  A dump that starts at
an arbitrary address changes nothing either, when it ends.
-/

namespace VgcMalloc

open Program Tiling Linked

variable {env : Env} {heap : Heap} {held : List Mutex} {pages : MmapPages} {guarded : Bool}
  {base before fuel : Nat} {entries : List Entry} {region : Region}

/-! ## Lists of blocks -/

/-- The list behind the first block is represented too. -/
theorem BlockRep.tail {entry : Entry} (rep : BlockRep heap base before (entry :: entries)) :
    BlockRep heap base entry.addr entries :=
  ⟨rep.links.2.2, fun x member => rep.headers x (List.mem_cons_of_mem _ member)⟩

theorem BlockRep.head {entry : Entry} (rep : BlockRep heap base before (entry :: entries)) :
    HeaderRep heap base entry :=
  rep.headers entry List.mem_cons_self

/-- The headers of the blocks are linked both ways and hold their sizes. -/
structure Chain (heap : Heap) (before : Nat) (entries : List Entry) : Prop where
  links : Segment heap.nextBlock heap.prevBlock before (entries.map Entry.addr) 0
  sizes : ∀ x ∈ entries, (heap.mallocHeader x.addr).size = x.size

theorem Chain.tail {entry : Entry} (chain : Chain heap before (entry :: entries)) :
    Chain heap entry.addr entries :=
  ⟨chain.links.2.2, fun x member => chain.sizes x (List.mem_cons_of_mem _ member)⟩

theorem BlockRep.chain (rep : BlockRep heap base before entries) : Chain heap before entries :=
  ⟨rep.links, fun x member => (rep.headers x member).size⟩

/-- The scan of `allocMallocBlock` finds the first block that fits. -/
theorem yields_findFreeBlock {need : Nat} (rep : BlockRep heap base before entries)
    (nonzero : ∀ entry ∈ entries, entry.addr ≠ 0) (enough : entries.length < fuel) :
    Yields seen (findFreeBlock need fuel ((entries.map Entry.addr).headD 0)) env (heap, held)
      fun value after => after = (heap, held) ∧
        ((∀ entry ∈ entries, ¬Fits need entry) ∧ value = 0 ∨
          ∃ front chosen back, entries = front ++ chosen :: back ∧
            (∀ entry ∈ front, ¬Fits need entry) ∧ Fits need chosen ∧ value = chosen.addr) := by
  induction entries generalizing before fuel with
  | nil =>
      cases fuel with
      | zero => simp at enough
      | succ fuel => exact Yields.pure ⟨rfl, Or.inl ⟨by simp, rfl⟩⟩
  | cons entry rest ih =>
      cases fuel with
      | zero => simp at enough
      | succ fuel =>
          have header := rep.head
          have next : (heap.mallocHeader entry.addr).next = (rest.map Entry.addr).headD 0 :=
            rep.links.2.1
          have taken : ((heap.mallocHeader entry.addr).status = .free ∧
              (heap.mallocHeader entry.addr).size ≥ need) ↔ Fits need entry := by
            rw [header.status, header.size, Fits, statusOf]
            cases entry.busy <;> simp
          rw [List.map_cons, List.headD_cons, findFreeBlock,
            if_neg (nonzero entry List.mem_cons_self)]
          have links := Heap.linksAccessible_of_mallocAccessible header.accessible
          refine Yields.seq (yields_isFreeBlock need links) ?_
          rintro _ _ ⟨rfl, rfl⟩
          refine Yields.ite ?_ ?_
          · intro holds
            have fits := taken.mp (of_decide_eq_true holds)
            exact Yields.pure ⟨rfl, Or.inr ⟨[], entry, rest, rfl, by simp, fits, rfl⟩⟩
          · intro fails
            have unfit : ¬Fits need entry :=
              fun fits => fails (decide_eq_true (taken.mpr fits))
            refine Yields.seq (yields_readMallocFields
              (Heap.fieldsAccessible (by simp [MallocField.links]) links)) ?_
            rintro _ _ ⟨rfl, rfl⟩
            rw [next]
            refine (ih rep.tail (fun x member => nonzero x (List.mem_cons_of_mem _ member))
              (Nat.lt_of_succ_lt_succ enough)).mono ?_
            rintro value after ⟨same, none | ⟨front, chosen, back, split, skipped, fits, found⟩⟩
            · exact ⟨same, Or.inl ⟨List.forall_mem_cons.mpr ⟨unfit, none.1⟩, none.2⟩⟩
            · exact ⟨same, Or.inr ⟨entry :: front, chosen, back, by rw [split]; rfl,
                List.forall_mem_cons.mpr ⟨unfit, skipped⟩, fits, found⟩⟩

/-- The loop of `dumpMmapBlock` ends on a list that passes the tests of
`checkMmapBlock`. -/
theorem yields_dumpBlocks {index mmapBlock : Nat} {totals : Totals} {nodes : List Nat}
    (passes : heap.Passes mmapBlock nodes) (enough : nodes.length < fuel) :
    Yields seen (dumpBlocks fuel index (nodes.headD 0) totals) env (heap, held)
      fun _ after => after = (heap, held) := by
  induction nodes generalizing fuel index totals with
  | nil =>
      cases fuel with
      | zero => simp at enough
      | succ fuel => exact Yields.pure rfl
  | cons block rest ih =>
      cases fuel with
      | zero => simp at enough
      | succ fuel =>
          obtain ⟨before, links⟩ := passes.links
          have next : (heap.mallocHeader block).next = rest.headD 0 := links.2.1
          rw [List.headD_cons, dumpBlocks, if_neg (passes.nonnull block List.mem_cons_self)]
          refine Yields.seq (yields_readMallocFields
            (passes.readable block List.mem_cons_self)) ?_
          rintro _ _ ⟨rfl, rfl⟩
          refine Yields.seq (yields_emit _) ?_
          rintro _ _ rfl
          rw [next]
          exact ih passes.tail (Nat.lt_of_succ_lt_succ enough)

/-- Messages in a row change nothing. -/
theorem yields_vgcMessage_seq {α : Type} {level : Nat} {function title subtitle status : String}
    {args : List Nat} {rest : Vgc α} {post : α → Heap × List Mutex → Prop}
    (after : Yields seen rest env (heap, held) post) :
    Yields seen (vgcMessage level function title subtitle status args >>= fun _ => rest) env
      (heap, held) post := by
  refine Yields.seq yields_vgcMessage ?_
  rintro _ _ rfl
  exact after

/-- What the checks need to know about a region: its place, and headers inside
of it that are linked and can be read. -/
structure Readable (pages : MmapPages) (heap : Heap) (region : Region)
    (entries : List Entry) : Prop where
  placed : region.Placed pages.bytes
  chain : Chain heap 0 entries
  opened : ∀ entry ∈ entries, heap.mallocAccessible entry.addr = true
  inside : ∀ entry ∈ entries, region.base + 4096 ≤ entry.addr ∧
    entry.addr + 8192 + entry.size ≤ region.base + region.length
  first : firstMallocHeaderInMMAP region.base = (entries.map Entry.addr).headD 0
  enough : entries.length < walkFuel
  maxSize : (heap.mmapHeader region.base).maxSize = region.length - 12288
  accessible : heap.mmapAccessible region.base = true

theorem Readable.nonzero (readable : Readable pages heap region entries) :
    ∀ entry ∈ entries, entry.addr ≠ 0 := by
  intro entry member
  have bounds := readable.inside entry member
  omega

/-- What the walks need to know about a region: its place, its tiling and its
headers. -/
structure Walkable (pages : MmapPages) (heap : Heap) (region : Region)
    (entries : List Entry) : Prop where
  placed : region.Placed pages.bytes
  tiles : Contiguous 8192 (region.base + 4096) entries (region.base + region.length)
  rep : BlockRep heap region.base 0 entries
  maxSize : (heap.mmapHeader region.base).maxSize = region.length - 12288
  accessible : heap.mmapAccessible region.base = true

/-- A tiled region has fewer blocks than there are addresses. -/
theorem tiles_length_lt (placed : region.Placed pages.bytes)
    (tiles : Contiguous 8192 (region.base + 4096) entries (region.base + region.length)) :
    entries.length < walkFuel := by
  have count := tiles.length_mul_le
  have user := placed.user
  simp only [walkFuel, wordRange_eq]
  omega

/-- The first header of a tiled region is where the code looks for it. -/
theorem tiles_first (placed : region.Placed pages.bytes)
    (tiles : Contiguous 8192 (region.base + 4096) entries (region.base + region.length)) :
    firstMallocHeaderInMMAP region.base = (entries.map Entry.addr).headD 0 := by
  have user := placed.user
  have room := placed.room
  rw [firstMallocHeaderInMMAP, mmapHeaderSize_eq, add64_of_lt (by omega)]
  cases entries with
  | nil =>
      have ends : region.base + 4096 = region.base + region.length := tiles
      omega
  | cons entry rest => exact tiles.1.symm

namespace Walkable

theorem nonzero (walk : Walkable pages heap region entries) :
    ∀ entry ∈ entries, entry.addr ≠ 0 := by
  intro entry member
  have bounds := walk.tiles.bounds member
  omega

theorem enough (walk : Walkable pages heap region entries) : entries.length < walkFuel :=
  tiles_length_lt walk.placed walk.tiles

theorem first (walk : Walkable pages heap region entries) :
    firstMallocHeaderInMMAP region.base = (entries.map Entry.addr).headD 0 :=
  tiles_first walk.placed walk.tiles

theorem readable (walk : Walkable pages heap region entries) :
    Readable pages heap region entries where
  placed := walk.placed
  chain := walk.rep.chain
  opened entry member := (walk.rep.headers entry member).accessible
  inside _ member := walk.tiles.bounds member
  first := walk.first
  enough := walk.enough
  maxSize := walk.maxSize
  accessible := walk.accessible

end Walkable

theorem yields_dumpMmapBlock {str desc : String} {mmapBlock : Nat} {nodes : List Nat}
    (nonnull : mmapBlock ≠ 0) (passes : heap.Passes mmapBlock nodes)
    (first : firstMallocHeaderInMMAP mmapBlock = nodes.headD 0)
    (enough : nodes.length < walkFuel) :
    Yields seen (dumpMmapBlock str mmapBlock desc) env (heap, held)
      fun _ after => after = (heap, held) := by
  rw [dumpMmapBlock, if_neg nonnull]
  refine yields_vgcMessage_seq (yields_vgcMessage_seq ?_)
  rw [first]
  refine Yields.seq (yields_dumpBlocks passes enough) ?_
  rintro _ _ rfl
  refine Yields.seq yields_getShared ?_
  rintro _ _ ⟨rfl, rfl⟩
  refine yields_vgcMessage_seq (yields_vgcMessage_seq (yields_vgcMessage_seq
    (yields_vgcMessage_seq yields_vgcMessage)))

/-- `checkMmapBlock` accepts every list that passes its tests, whether or not
the sums agree. -/
theorem yields_checkMmapBlock_of_passes {str : String} {mmapBlock : Nat} {nodes : List Nat}
    (nonnull : mmapBlock ≠ 0) (opened : heap.mmapAccessible mmapBlock = true)
    (passes : heap.Passes mmapBlock nodes)
    (first : firstMallocHeaderInMMAP mmapBlock = nodes.headD 0)
    (enough : nodes.length < walkFuel) :
    Yields seen (checkMmapBlock str mmapBlock) env (heap, held)
      fun value after => value = true ∧ after = (heap, held) := by
  have checked : Yields seen (checkBlocks str mmapBlock walkFuel
      (firstMallocHeaderInMMAP mmapBlock) .zero) env (heap, held) fun value after =>
        value = some (heap.totals .zero nodes) ∧ after = (heap, held) := by
    rintro state viewEq
    cases viewEq
    rw [first]
    exact ⟨_, _, checkBlocks_of_passes passes opened enough, rfl, rfl⟩
  rw [checkMmapBlock]
  refine Yields.seq checked ?_
  rintro _ _ ⟨rfl, rfl⟩
  refine Yields.seq yields_getShared ?_
  rintro _ _ ⟨rfl, rfl⟩
  refine Yields.seq (?_ : Yields seen _ env _ fun _ after => after = (heap, held)) ?_
  · refine Yields.when (fun _ => ?_) fun _ => rfl
    exact yields_vgcMessage_seq (yields_dumpMmapBlock nonnull passes first enough)
  · rintro _ _ rfl
    exact Yields.pure ⟨rfl, rfl⟩

/-- The headers of a linked region pass the tests of `checkMmapBlock`. -/
theorem Readable.passes (readable : Readable pages heap region entries)
    (blockSize : heap.shared.mmapBlockSize = pages.bytes) :
    heap.Passes region.base (entries.map Entry.addr) := by
  have small := readable.placed.small
  have user := readable.placed.user
  have limit := pages.bytes_bounds
  have limitEq : add64 region.base pages.bytes = region.base + pages.bytes :=
    add64_of_lt (by omega)
  refine ⟨⟨0, readable.chain.links⟩, ?_, ?_, ?_, ?_⟩
  · exact List.forall_mem_map.mpr readable.nonzero
  · refine List.forall_mem_map.mpr fun entry member => ?_
    exact Heap.linksAccessible_of_mallocAccessible (readable.opened entry member)
  · refine List.forall_mem_map.mpr fun entry member => ?_
    have bounds := readable.inside entry member
    rw [readable.chain.sizes entry member, readable.maxSize]
    omega
  · refine List.forall_mem_map.mpr fun entry member => ?_
    have bounds := readable.inside entry member
    rw [blockSize, limitEq]
    omega

/-- `checkMmapBlock` accepts a linked list, whether or not its blocks tile the
MMAP. -/
theorem yields_checkMmapBlock {str : String} (readable : Readable pages heap region entries)
    (blockSize : heap.shared.mmapBlockSize = pages.bytes) :
    Yields seen (checkMmapBlock str region.base) env (heap, held)
      fun value after => value = true ∧ after = (heap, held) := by
  apply yields_checkMmapBlock_of_passes (Nat.ne_of_gt readable.placed.positive)
    readable.accessible (readable.passes blockSize) readable.first
  rw [List.length_map]
  exact readable.enough

/-! ## Dumps of arbitrary addresses -/

theorem allows_readMallocHeader {block : Nat} :
    Allows seen (readMallocHeader block) env (heap, held) fun value after =>
      value = heap.mallocHeader block ∧ after = (heap, held) := by
  by_cases accessible : heap.mallocAccessible block = true
  · exact (yields_readMallocHeader accessible).allows
  · refine Allows.of_fault block ?_
    intro state viewEq
    obtain ⟨rfl, rfl⟩ := Prod.mk.inj viewEq
    exact if_neg accessible

theorem allows_readMallocFields {fields : List MallocField} {block : Nat} :
    Allows seen (readMallocFields fields block) env (heap, held) fun value after =>
      value = heap.mallocHeader block ∧ after = (heap, held) := by
  by_cases accessible : fields.all (heap.fieldAccessible block) = true
  · exact (yields_readMallocFields accessible).allows
  · refine Allows.of_fault block ?_
    intro state viewEq
    obtain ⟨rfl, rfl⟩ := Prod.mk.inj viewEq
    exact if_neg accessible

theorem allows_readMmapHeader {mmapBlock : Nat} :
    Allows seen (readMmapHeader mmapBlock) env (heap, held) fun value after =>
      value = heap.mmapHeader mmapBlock ∧ after = (heap, held) := by
  by_cases accessible : heap.mmapAccessible mmapBlock = true
  · exact (yields_readMmapHeader accessible).allows
  · refine Allows.of_fault mmapBlock ?_
    intro state viewEq
    obtain ⟨rfl, rfl⟩ := Prod.mk.inj viewEq
    exact if_neg accessible

theorem allows_dumpBlocks {index block : Nat} {totals : Totals} :
    Allows seen (dumpBlocks fuel index block totals) env (heap, held)
      fun _ after => after = (heap, held) := by
  induction fuel generalizing index block totals with
  | zero =>
      intro state _ value final ended
      cases ended
  | succ fuel ih =>
      rw [dumpBlocks]
      refine Allows.ite (fun _ => Allows.pure rfl) fun _ => ?_
      refine Allows.seq allows_readMallocFields ?_
      rintro _ _ ⟨rfl, rfl⟩
      refine Allows.seq (yields_emit _).allows ?_
      rintro _ _ rfl
      exact ih

/-- A dump changes nothing, wherever it starts. -/
theorem allows_dumpMmapBlock {str desc : String} {mmapBlock : Nat} :
    Allows seen (dumpMmapBlock str mmapBlock desc) env (heap, held)
      fun _ after => after = (heap, held) := by
  have message : ∀ {α : Type} {level : Nat} {function title subtitle status : String}
      {args : List Nat} {rest : Vgc α} {post : α → Heap × List Mutex → Prop},
      Allows seen rest env (heap, held) post →
      Allows seen (vgcMessage level function title subtitle status args >>= fun _ => rest) env
        (heap, held) post := by
    intro α level function title subtitle status args rest post after
    refine Allows.seq yields_vgcMessage.allows ?_
    rintro _ _ rfl
    exact after
  rw [dumpMmapBlock]
  refine Allows.ite (fun _ => Allows.pure rfl) fun _ => ?_
  refine message (message (Allows.seq allows_dumpBlocks ?_))
  rintro _ _ rfl
  refine Allows.seq yields_getShared.allows ?_
  rintro _ _ ⟨rfl, rfl⟩
  exact message (message (message (message yields_vgcMessage.allows)))

/-! ## The list of MMAPs -/

/-- The membership test of `vgc_free` compares with the full MMAP size at every
listed MMAP. -/
theorem yields_isInMmapBlockFrom {ptr : Nat} {bases : List Nat}
    (links : Segment heap.nextMmap heap.prevMmap before bases 0)
    (nonzero : ∀ base ∈ bases, base ≠ 0)
    (accessible : ∀ base ∈ bases, heap.mmapAccessible base = true)
    (bounded : ∀ base ∈ bases, base + heap.shared.mmapBlockSize < 2 ^ 64)
    (enough : bases.length < fuel) :
    Yields seen (isInMmapBlockFrom ptr fuel (bases.headD 0)) env (heap, held)
      fun value after => after = (heap, held) ∧
        (value = true ↔ ∃ base ∈ bases, base < ptr ∧
          ptr < base + heap.shared.mmapBlockSize) := by
  induction bases generalizing before fuel with
  | nil =>
      cases fuel with
      | zero => simp at enough
      | succ fuel => exact Yields.pure ⟨rfl, by simp⟩
  | cons base rest ih =>
      cases fuel with
      | zero => simp at enough
      | succ fuel =>
          have next : (heap.mmapHeader base).next = rest.headD 0 := links.2.1
          rw [List.headD_cons, isInMmapBlockFrom, if_neg (nonzero base List.mem_cons_self)]
          refine Yields.seq yields_getShared ?_
          rintro _ _ ⟨rfl, rfl⟩
          rw [add64_of_lt (bounded base List.mem_cons_self)]
          refine Yields.ite ?_ ?_
          · intro hit
            exact Yields.pure ⟨rfl, fun _ => ⟨base, List.mem_cons_self, hit.1, hit.2⟩,
              fun _ => rfl⟩
          · intro miss
            refine Yields.seq (yields_readMmapHeader (accessible base List.mem_cons_self)) ?_
            rintro _ _ ⟨rfl, rfl⟩
            rw [next]
            refine (ih links.2.2 (fun x member => nonzero x (List.mem_cons_of_mem _ member))
              (fun x member => accessible x (List.mem_cons_of_mem _ member))
              (fun x member => bounded x (List.mem_cons_of_mem _ member))
              (Nat.lt_of_succ_lt_succ enough)).mono ?_
            rintro value after ⟨same, hit⟩
            refine ⟨same, hit.trans ?_⟩
            simp only [List.mem_cons, exists_eq_or_imp]
            exact (or_iff_right fun found => miss ⟨found.1, found.2⟩).symm

end VgcMalloc
