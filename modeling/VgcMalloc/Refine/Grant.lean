import VgcMalloc.Refine.Edit

/-!
# Granting a block

The two branches of `allocMallocBlock` in memory: taking a free block whole,
and splitting it.  Both leave a region that represents the granted list.
-/

namespace VgcMalloc

open Program Tiling Linked

variable {env : Env} {heap middle : Heap} {held : List Mutex} {pages : MmapPages}
  {region : Region} {entries front back : List Entry} {entry x : Entry} {length : Nat}

/-! ## Separation of headers -/

/-- Where the headers of a placed region lie. -/
theorem header_bounds (placed : region.Placed pages.bytes)
    (tiles : Contiguous 8192 (region.base + 4096) entries (region.base + region.length))
    (member : x ∈ entries) :
    4096 ≤ region.base ∧ region.base + 4096 ≤ x.addr ∧
      x.addr + 8192 + x.size ≤ region.base + region.length ∧
      region.base + region.length ≤ 2 ^ 47 := by
  have aligned := placed.aligned
  have positive := placed.positive
  have bounds := tiles.bounds member
  exact ⟨by omega, bounds.1, bounds.2, placed.user⟩

/-- A header is separate from every other one, and from null. -/
theorem header_separate {target : Nat} (placed : region.Placed pages.bytes)
    (tiles : Contiguous 8192 (region.base + 4096) entries (region.base + region.length))
    (member : x ∈ entries)
    (targetMem : target = 0 ∨ ∃ y ∈ entries, y.addr = target) :
    x.addr = target ∨ x.addr + 8192 ≤ target ∨ target + 8192 ≤ x.addr := by
  have bounds := header_bounds placed tiles member
  rcases targetMem with rfl | ⟨y, yMem, rfl⟩
  · omega
  · rcases tiles.disjoint member yMem with rfl | apart
    · exact Or.inl rfl
    · omega

/-- The first address of a list of blocks, or null. -/
theorem headD_addr_mem (entries : List Entry) :
    (entries.map Entry.addr).headD 0 = 0 ∨
      ∃ y ∈ entries, y.addr = (entries.map Entry.addr).headD 0 := by
  cases entries with
  | nil => exact Or.inl rfl
  | cons y rest => exact Or.inr ⟨y, List.mem_cons_self, rfl⟩

/-- What is null or the address of a block of a part is so for the whole
list. -/
theorem home_of_part {part whole : List Entry} {target : Nat} (inside : ∀ y ∈ part, y ∈ whole)
    (home : target = 0 ∨ ∃ y ∈ part, y.addr = target) :
    target = 0 ∨ ∃ y ∈ whole, y.addr = target := by
  rcases home with null | ⟨y, member, same⟩
  · exact Or.inl null
  · exact Or.inr ⟨y, inside y member, same⟩

/-- The blocks other than one of them do not lie at its address. -/
theorem apart_of_mem_sides (tiles : Contiguous 8192 (region.base + 4096)
      (front ++ entry :: back) (region.base + region.length)) (member : x ∈ front ++ back) :
    x.addr + 8192 + x.size ≤ entry.addr ∨ entry.addr + 8192 + entry.size ≤ x.addr := by
  have ordered := List.pairwise_append.mp tiles.pairwise
  rcases List.mem_append.mp member with inFront | inBack
  · exact Or.inl (ordered.2.2 x inFront entry List.mem_cons_self)
  · exact Or.inr (List.rel_of_pairwise_cons ordered.2.1 inBack)

/-! ## Taking a block whole -/

/-- The block behind the next one, which `allocMallocBlock` points back to the
next one. -/
def Heap.nextOrNull (heap : Heap) (block : Nat) : Nat :=
  if block = 0 then 0 else heap.nextBlock block

theorem nextOrNull_eq (rep : BlockRep heap region.base 0 (front ++ entry :: back))
    (nonzero : ∀ y ∈ back, y.addr ≠ 0) :
    heap.nextOrNull (heap.nextBlock entry.addr) = (back.tail.map Entry.addr).headD 0 := by
  have links := rep.links
  rw [List.map_append, List.map_cons] at links
  have nextEq := links.links.2
  rw [nextEq]
  cases back with
  | nil => rfl
  | cons y rest =>
      have tail := (segment_append.mp links).2.2.2
      have present : y.addr ≠ 0 := nonzero y List.mem_cons_self
      rw [List.map_cons, List.headD_cons, Heap.nextOrNull, if_neg present]
      exact tail.2.1

/-- The block behind the next one already points back to the next one. -/
theorem prev_nextOrNull (rep : BlockRep heap region.base 0 (front ++ entry :: back))
    (present : (back.tail.map Entry.addr).headD 0 ≠ 0) :
    heap.prevBlock ((back.tail.map Entry.addr).headD 0) = heap.nextBlock entry.addr := by
  have links := rep.links
  rw [List.map_append, List.map_cons] at links
  rw [links.links.2]
  cases back with
  | nil => exact absurd rfl present
  | cons y rest =>
      cases rest with
      | nil => exact absurd rfl present
      | cons z rest => exact (segment_append.mp links).2.2.2.2.2.1

/-- Taking a free block into use, with free blocks split off, counts one
more. -/
theorem busyCount_taken (front back extra : List Entry) (size : Nat)
    (free : entry.busy = false) (extraFree : ∀ y ∈ extra, y.busy = false) :
    busyCount (front ++ ⟨entry.addr, size, true⟩ :: (extra ++ back)) =
      busyCount (front ++ entry :: back) + 1 := by
  have none : extra.countP Entry.busy = 0 := by
    rw [List.countP_eq_zero]
    intro y member
    simp [extraFree y member]
  simp only [busyCount, List.countP_append, List.countP_cons, free, none]
  simp
  omega

/-- The MMAP header after a block has been taken into use. -/
theorem MmapRep.takeBlock {count block size next target : Nat} (rep : MmapRep heap region count)
    (home : region.base + 4096 ≤ block)
    (targetHome : target = 0 ∨ region.base + 4096 ≤ target) (bound : count + 1 < 2 ^ 64) :
    MmapRep (heap.takeBlock region.base block size next target) region (count + 1) := by
  have header := heap.mmapHeader_takeBlock size next home targetHome (rep.elements.symm ▸ bound)
  refine ⟨?_, ?_, ?_, ?_, ?_, ?_⟩
  · rw [header]
    exact rep.size
  · rw [header]
    exact rep.maxSize
  · rw [header]
    simp [rep.elements]
  · rw [header]
    exact rep.checkStart
  · rw [header]
    exact rep.checkEnd
  · simpa [Heap.mmapAccessible] using rep.accessible

/-- The number of blocks in use of a placed region is a word. -/
theorem busyCount_bound (placed : region.Placed pages.bytes)
    (tiles : Contiguous 8192 (region.base + 4096) entries (region.base + region.length)) :
    busyCount entries + 1 < 2 ^ 64 := by
  have total := tiles.length_mul_le
  have user := placed.user
  have most : busyCount entries ≤ entries.length := List.countP_le_length
  omega

/-- Taking a free block whole. -/
theorem RegionRep.takeWhole (placed : region.Placed pages.bytes)
    (tiles : Contiguous 8192 (region.base + 4096) (front ++ entry :: back)
      (region.base + region.length))
    (rep : RegionRep heap region (front ++ entry :: back)) (free : entry.busy = false) :
    RegionRep
      (heap.takeBlock region.base entry.addr entry.size (heap.nextBlock entry.addr)
        ((back.tail.map Entry.addr).headD 0))
      region (front ++ ⟨entry.addr, entry.size, true⟩ :: back) := by
  have entryMem : entry ∈ front ++ entry :: back := by simp
  have bounds := header_bounds placed tiles entryMem
  have header := rep.blocks.headers entry entryMem
  have targetMem : (back.tail.map Entry.addr).headD 0 = 0 ∨
      ∃ y ∈ back, y.addr = (back.tail.map Entry.addr).headD 0 := by
    rcases headD_addr_mem back.tail with null | ⟨y, yMem, yEq⟩
    · exact Or.inl null
    · exact Or.inr ⟨y, List.mem_of_mem_tail yMem, yEq⟩
  generalize targetEq : (back.tail.map Entry.addr).headD 0 = target at targetMem
  have apart : entry.addr + 8192 ≤ target ∨ target + 8192 ≤ entry.addr := by
    rcases targetMem with rfl | ⟨y, yMem, rfl⟩
    · omega
    · rcases apart_of_mem_sides tiles (List.mem_append_right front yMem) with left | right
      · omega
      · omega
  have targetHome : target = 0 ∨ region.base + 4096 ≤ target := by
    rcases targetMem with rfl | ⟨y, yMem, rfl⟩
    · exact Or.inl rfl
    · exact Or.inr (tiles.bounds (by simp [yMem])).1
  have nextMem := headD_addr_mem back
  have nextEq : heap.nextBlock entry.addr = (back.map Entry.addr).headD 0 := by
    have links := rep.blocks.links
    rw [List.map_append, List.map_cons] at links
    exact links.links.2
  have nextBound : heap.nextBlock entry.addr < 2 ^ 64 := by
    rw [nextEq]
    rcases nextMem with null | ⟨y, yMem, yEq⟩
    · omega
    · have yWhole : y ∈ front ++ entry :: back := by simp [yMem]
      have yBounds := header_bounds placed tiles yWhole
      omega
  have others : ∀ x ∈ front ++ back,
      (heap.takeBlock region.base entry.addr entry.size (heap.nextBlock entry.addr)
        target).mallocHeader x.addr = heap.mallocHeader x.addr := by
    intro x member
    have whole : x ∈ front ++ entry :: back := by
      rcases List.mem_append.mp member with inFront | inBack
      · simp [inFront]
      · simp [inBack]
    have xBounds := header_bounds placed tiles whole
    have sides := apart_of_mem_sides tiles member
    have separate := header_separate placed tiles whole
      (home_of_part (fun y yMem => by simp [yMem]) targetMem)
    rw [Heap.mallocHeader_takeBlock_other xBounds.2.1 (by omega) separate nextBound]
    by_cases hit : x.addr = target ∧ target ≠ 0
    · have present : (back.tail.map Entry.addr).headD 0 ≠ 0 := targetEq ▸ hit.2
      have kept : heap.prevBlock x.addr = heap.nextBlock entry.addr := by
        rw [hit.1, ← targetEq]
        exact prev_nextOrNull rep.blocks present
      rw [if_pos hit, ← kept]
      rfl
    · rw [if_neg hit]
  have self := heap.mallocHeader_takeBlock_self entry.size (heap.nextBlock entry.addr)
    bounds.2.1 apart (by omega) (by omega) nextBound
  constructor
  · have count := busyCount_taken front back [] entry.size free (by simp)
    rw [List.nil_append] at count
    rw [count]
    exact rep.mmap.takeBlock bounds.2.1 targetHome (busyCount_bound placed tiles)
  · refine rep.blocks.replace rfl others ?_ ?_ (by rw [Heap.nextBlock, self]) ?_
    · intro x accessible
      simpa using accessible
    · refine ⟨?_, ?_, ?_, ?_, ?_, ?_⟩
      all_goals simp only [self]
      · rfl
      · simpa using header.accessible
    · rw [Heap.prevBlock, self]
      rfl

/-! ## Splitting a block -/

/-- The first block behind `entry`, which a split points back to the rest. -/
theorem nextBlock_eq {base before : Nat}
    (rep : BlockRep heap base before (front ++ entry :: back)) :
    heap.nextBlock entry.addr = (back.map Entry.addr).headD 0 := by
  have links := rep.links
  rw [List.map_append, List.map_cons] at links
  exact links.links.2

/-- The blocks other than the first one of `back` lie at other addresses. -/
theorem addr_ne_next (between : List Entry)
    (tiles : Contiguous 8192 (region.base + 4096) (front ++ (between ++ back))
      (region.base + region.length)) (member : x ∈ front ++ back.tail)
    (present : (back.map Entry.addr).headD 0 ≠ 0) :
    x.addr ≠ (back.map Entry.addr).headD 0 := by
  cases back with
  | nil => exact absurd rfl present
  | cons y rest =>
      rw [List.map_cons, List.headD_cons]
      have ordered := List.pairwise_append.mp tiles.pairwise
      rcases List.mem_append.mp member with inFront | inRest
      · have gap := ordered.2.2 x inFront y (by simp)
        omega
      · have behind := (List.pairwise_append.mp ordered.2.1).2.1
        have gap := List.rel_of_pairwise_cons behind inRest
        omega

/-- The blocks of both sides keep their headers, but for the link back of the
first one of `back`. -/
def RelinkedBack (heap after : Heap) (link : Nat) (front back : List Entry) : Prop :=
  ∀ x ∈ front ++ back, after.mallocHeader x.addr =
    { heap.mallocHeader x.addr with
      prev := if x.addr = (back.map Entry.addr).headD 0 ∧ (back.map Entry.addr).headD 0 ≠ 0
        then link else (heap.mallocHeader x.addr).prev }

namespace RelinkedBack

variable {after : Heap} {link : Nat}

theorem header {base : Nat} (relinked : RelinkedBack heap after link front back)
    (member : x ∈ front ++ back) (rep : HeaderRep heap base x)
    (opened : after.mallocAccessible x.addr = true) : HeaderRep after base x := by
  refine ⟨?_, ?_, ?_, ?_, ?_, opened⟩
  all_goals rw [relinked x member]
  · exact rep.size
  · exact rep.status
  · exact rep.mmapBlock
  · exact rep.checkStart
  · exact rep.checkEnd

theorem nextBlock (relinked : RelinkedBack heap after link front back)
    (member : x ∈ front ++ back) : after.nextBlock x.addr = heap.nextBlock x.addr := by
  rw [Heap.nextBlock, relinked x member]
  rfl

theorem prev_head (relinked : RelinkedBack heap after link front back)
    (present : ∀ y ∈ back, y.addr ≠ 0) {node : Nat} (isHead : node ∈ (back.map Entry.addr).head?) :
    after.prevBlock node = link := by
  cases back with
  | nil => simp at isHead
  | cons y tail =>
      rw [List.map_cons, List.head?_cons, Option.mem_some_iff] at isHead
      subst isHead
      have there := present y List.mem_cons_self
      rw [Heap.prevBlock, relinked y (by simp), List.map_cons, List.headD_cons,
        if_pos ⟨rfl, there⟩]

theorem prev_other (relinked : RelinkedBack heap after link front back) (between : List Entry)
    (tiles : Contiguous 8192 (region.base + 4096) (front ++ (between ++ back))
      (region.base + region.length)) (member : x ∈ front ++ back.tail) :
    after.prevBlock x.addr = heap.prevBlock x.addr := by
  have inList : x ∈ front ++ back := by
    rcases List.mem_append.mp member with inFront | inTail
    · exact List.mem_append_left _ inFront
    · exact List.mem_append_right _ (List.mem_of_mem_tail inTail)
  have miss : ¬(x.addr = (back.map Entry.addr).headD 0 ∧ (back.map Entry.addr).headD 0 ≠ 0) :=
    fun hit => addr_ne_next between tiles member hit.2 hit.1
  rw [Heap.prevBlock, relinked x inList, if_neg miss]
  rfl

end RelinkedBack

/-- The first block behind `entry` is null or lies behind its payload. -/
theorem nextBlock_side (tiles : Contiguous 8192 (region.base + 4096) (front ++ entry :: back)
      (region.base + region.length))
    (rep : BlockRep heap region.base 0 (front ++ entry :: back)) :
    heap.nextBlock entry.addr = 0 ∨
      entry.addr + 8192 + entry.size ≤ heap.nextBlock entry.addr := by
  rw [nextBlock_eq rep]
  rcases headD_addr_mem back with null | ⟨y, yMem, yEq⟩
  · exact Or.inl null
  · have ordered := (List.pairwise_append.mp tiles.pairwise).2.1
    exact Or.inr (yEq ▸ List.rel_of_pairwise_cons ordered yMem)

/-- What the stores of a split leave of the headers: `entry` is taken, the header
of the rest stands as before, and the other blocks keep all but the link back of
the one behind the rest. -/
structure SplitHeaders (heap after : Heap) (base length : Nat) (front : List Entry)
    (entry : Entry) (back : List Entry) : Prop where
  taken : after.mallocHeader entry.addr =
    { heap.mallocHeader entry.addr with
      checkStart := checksum, size := length, status := .busy, mmapBlock := base,
      next := entry.addr + 8192 + length, checkEnd := checksum }
  rest : after.mallocHeader (entry.addr + 8192 + length) =
    heap.mallocHeader (entry.addr + 8192 + length)
  others : RelinkedBack heap after (entry.addr + 8192 + length) front back
  accessible : ∀ x, heap.mallocAccessible x = true → after.mallocAccessible x = true

theorem splitHeaders_takeBlock (placed : region.Placed pages.bytes)
    (tiles : Contiguous 8192 (region.base + 4096) (front ++ entry :: back)
      (region.base + region.length))
    (rep : BlockRep heap region.base 0 (front ++ entry :: back))
    (left : length + 8192 < entry.size) :
    SplitHeaders heap
      (heap.takeBlock region.base entry.addr length (entry.addr + 8192 + length)
        (heap.nextBlock entry.addr))
      region.base length front entry back := by
  have bounds := header_bounds placed tiles (mem_append_cons.mpr (Or.inl rfl))
  have side := nextBlock_side tiles rep
  have restBound : entry.addr + 8192 + length < 2 ^ 64 := by omega
  constructor
  · exact heap.mallocHeader_takeBlock_self length (entry.addr + 8192 + length) bounds.2.1
      (by omega) (by omega) (by omega) restBound
  · rw [Heap.mallocHeader_takeBlock_other (by omega) (by omega) (by omega) restBound,
      if_neg (by omega)]
  · intro x member
    have whole : x ∈ front ++ entry :: back := mem_append_cons.mpr (Or.inr member)
    have xBounds := header_bounds placed tiles whole
    have sides : x.addr + 8192 ≤ entry.addr ∨ entry.addr + 8192 ≤ x.addr := by
      have apart := apart_of_mem_sides tiles member
      omega
    have nextMem := headD_addr_mem back
    have separate := header_separate placed tiles whole
      (home_of_part (fun y yMem => by simp [yMem]) nextMem)
    rw [nextBlock_eq rep]
    exact Heap.mallocHeader_takeBlock_other xBounds.2.1 sides separate restBound
  · intro x opened
    simpa using opened

/-- The links after a split lead over the rest. -/
theorem SplitHeaders.segment {after : Heap} (placed : region.Placed pages.bytes)
    (tiles : Contiguous 8192 (region.base + 4096) (front ++ entry :: back)
      (region.base + region.length))
    (rep : BlockRep heap region.base 0 (front ++ entry :: back))
    (headers : SplitHeaders heap after region.base length front entry back)
    (restNext : heap.nextBlock (entry.addr + 8192 + length) = heap.nextBlock entry.addr)
    (restPrev : heap.prevBlock (entry.addr + 8192 + length) = entry.addr) :
    Segment after.nextBlock after.prevBlock 0
      (front.map Entry.addr ++ entry.addr :: (entry.addr + 8192 + length) ::
        back.map Entry.addr) 0 := by
  have links := rep.links
  rw [List.map_append, List.map_cons] at links
  refine links.insertAfter ?_ ?_ ?_ ?_ ?_ ?_
  · rw [Heap.nextBlock, headers.taken]
  · rw [Heap.prevBlock, headers.rest]
    exact restPrev
  · rw [Heap.nextBlock, headers.rest]
    exact restNext
  · intro node isHead
    refine headers.others.prev_head (fun y member => ?_) isHead
    have bounds := header_bounds placed tiles (mem_append_cons.mpr (Or.inr
      (List.mem_append_right front member)))
    omega
  · intro node member
    rw [← List.map_append] at member
    obtain ⟨x, xMem, rfl⟩ := List.mem_map.mp member
    exact headers.others.nextBlock xMem
  · intro node member
    rw [← List.map_tail] at member
    rcases List.mem_append.mp member with inFront | inBack
    · obtain ⟨x, xMem, rfl⟩ := List.mem_map.mp inFront
      exact headers.others.prev_other [entry] tiles (List.mem_append_left _ xMem)
    · rcases List.mem_cons.mp inBack with rfl | inTail
      · rw [Heap.prevBlock, headers.taken]
        rfl
      · obtain ⟨x, xMem, rfl⟩ := List.mem_map.mp inTail
        exact headers.others.prev_other [entry] tiles (List.mem_append_right _ xMem)

/-- The blocks after a split. -/
theorem SplitHeaders.blocks {after : Heap} (placed : region.Placed pages.bytes)
    (tiles : Contiguous 8192 (region.base + 4096) (front ++ entry :: back)
      (region.base + region.length))
    (rep : BlockRep heap region.base 0 (front ++ entry :: back))
    (headers : SplitHeaders heap after region.base length front entry back)
    (rest : HeaderRep heap region.base
      ⟨entry.addr + 8192 + length, entry.size - (length + 8192), false⟩)
    (restNext : heap.nextBlock (entry.addr + 8192 + length) = heap.nextBlock entry.addr)
    (restPrev : heap.prevBlock (entry.addr + 8192 + length) = entry.addr) :
    BlockRep after region.base 0 (front ++ ⟨entry.addr, length, true⟩ ::
      ⟨entry.addr + 8192 + length, entry.size - (length + 8192), false⟩ :: back) := by
  have walked := headers.segment placed tiles rep restNext restPrev
  constructor
  · rw [List.map_append, List.map_cons, List.map_cons]
    exact walked
  · intro x member
    rcases mem_append_cons.mp member with rfl | other
    · have header := rep.headers entry (by simp)
      refine ⟨?_, ?_, ?_, ?_, ?_, headers.accessible _ header.accessible⟩
      all_goals simp only [headers.taken]
      rfl
    · rcases mem_append_cons.mp other with rfl | old
      · exact rest.congr headers.rest (headers.accessible _ rest.accessible)
      · have kept := rep.headers x (mem_append_cons.mpr (Or.inr old))
        exact headers.others.header old kept (headers.accessible _ kept.accessible)

/-- Splitting a free block whose rest has a header already. -/
theorem RegionRep.takeSplit (placed : region.Placed pages.bytes)
    (tiles : Contiguous 8192 (region.base + 4096) (front ++ entry :: back)
      (region.base + region.length))
    (rep : RegionRep heap region (front ++ entry :: back)) (free : entry.busy = false)
    (left : length + 8192 < entry.size)
    (rest : HeaderRep heap region.base
      ⟨entry.addr + 8192 + length, entry.size - (length + 8192), false⟩)
    (restNext : heap.nextBlock (entry.addr + 8192 + length) = heap.nextBlock entry.addr)
    (restPrev : heap.prevBlock (entry.addr + 8192 + length) = entry.addr) :
    RegionRep
      (heap.takeBlock region.base entry.addr length (entry.addr + 8192 + length)
        (heap.nextBlock entry.addr))
      region
      (front ++ ⟨entry.addr, length, true⟩ ::
        ⟨entry.addr + 8192 + length, entry.size - (length + 8192), false⟩ :: back) := by
  have bounds := header_bounds placed tiles (mem_append_cons.mpr (Or.inl rfl))
  have side := nextBlock_side tiles rep.blocks
  have headers := splitHeaders_takeBlock placed tiles rep.blocks left
  refine ⟨?_, headers.blocks placed tiles rep.blocks rest restNext restPrev⟩
  have count := busyCount_taken front back
    [⟨entry.addr + 8192 + length, entry.size - (length + 8192), false⟩] length free (by simp)
  rw [List.singleton_append] at count
  rw [count]
  exact rep.mmap.takeBlock bounds.2.1 (side.imp id fun far => by omega)
    (busyCount_bound placed tiles)

/-! ## The code -/

theorem yields_linkBack {target value : Nat}
    (accessible : target ≠ 0 → heap.mallocAccessible target = true) :
    Yields seen (when (target ≠ 0) (writeMallocField target .prev value)) env (heap, held)
      fun _ after => after = (heap.linkBack target value, held) := by
  refine Yields.when ?_ ?_
  · intro present
    refine (yields_writeMallocField .prev value (accessible present)).mono ?_
    rintro _ _ rfl
    rw [Heap.linkBack, if_neg present]
    rfl
  · intro null
    rw [Heap.linkBack, if_pos (not_not.mp null)]

/-- The stores of `allocMallocBlock` behind the split. -/
theorem yields_takeBlock {mmapBlock block granted next target : Nat}
    (mmapOpen : heap.mmapAccessible mmapBlock = true)
    (blockOpen : heap.mallocAccessible block = true)
    (nextOpen : next ≠ 0 → heap.mallocAccessible next = true)
    (targetOpen : target ≠ 0 → heap.mallocAccessible target = true)
    (apart : next ≠ 0 → mmapBlock + 4096 ≤ next ∧
      (next + 8192 ≤ block ∨ block + 8192 ≤ next))
    (targetEq : heap.nextOrNull next = target) :
    Yields seen (do
        let mmapHeader ← readMmapHeader mmapBlock
        writeMmapField mmapBlock .elements (add64 mmapHeader.elements 1)
        writeMallocFields block
          [(.mmapBlock, mmapBlock), (.size, granted), (.status, MallocStatus.busy.toWord),
            (.next, next)]
        when (next ≠ 0) do
          let nextHeader ← readMallocHeader next
          when (nextHeader.next ≠ 0) (writeMallocField nextHeader.next .prev next)
        writeMallocFields block [(.checkStart, checksum), (.checkEnd, checksum)]
        return granted) env (heap, held) fun value after =>
      value = granted ∧ after = (heap.takeBlock mmapBlock block granted next target, held) := by
  refine Yields.seq (yields_readMmapHeader mmapOpen) ?_
  rintro _ _ ⟨rfl, rfl⟩
  refine Yields.seq (yields_writeMmapField _ _ mmapOpen) ?_
  rintro _ _ rfl
  refine Yields.seq (yields_writeMallocFields _ blockOpen) ?_
  rintro _ _ rfl
  generalize takenEq : Heap.setMallocFields _ block _ = taken
  have opens : ∀ x, taken.mallocAccessible x = heap.mallocAccessible x := by
    intro x
    rw [← takenEq]
    exact Heap.mallocAccessible_congr fun y _ _ => Heap.isAccessible_setMallocFields _ y
  have linked : Yields seen (when (next ≠ 0) do
      let nextHeader ← readMallocHeader next
      when (nextHeader.next ≠ 0) (writeMallocField nextHeader.next .prev next)) env
      (taken, held) fun _ after => after = (taken.linkBack target next, held) := by
    refine Yields.when ?_ ?_
    · intro present
      have sameNext : (taken.mallocHeader next).next = target := by
        rw [← takenEq, Heap.mallocHeader_setMallocFields_apart _ (apart present).2]
        have home := (apart present).1
        have same : (heap.setMmapFields mmapBlock
            [(.elements, add64 (heap.mmapHeader mmapBlock).elements 1)]).mallocHeader next =
              heap.mallocHeader next :=
          Heap.mallocHeader_setMmapFields _ (by omega)
        rw [← targetEq, Heap.nextOrNull, if_neg present]
        exact congrArg MallocHeader.next same
      refine Yields.seq (yields_readMallocHeader ((opens next).trans (nextOpen present))) ?_
      rintro _ _ ⟨rfl, rfl⟩
      rw [sameNext]
      exact yields_linkBack fun there => (opens target).trans (targetOpen there)
    · intro null
      have none : target = 0 := by
        rw [← targetEq, Heap.nextOrNull, if_pos (not_not.mp null)]
      rw [none, Heap.linkBack, if_pos rfl]
  refine Yields.seq linked ?_
  rintro _ _ rfl
  have lastOpen : (taken.linkBack target next).mallocAccessible block = true := by
    rw [Heap.mallocAccessible_linkBack, opens, blockOpen]
  refine Yields.seq (yields_writeMallocFields _ lastOpen) ?_
  rintro _ _ rfl
  refine Yields.pure ⟨rfl, ?_⟩
  rw [← takenEq]
  rfl

/-- Stores to a block header end, or fault when the header is out of reach. -/
theorem settles_writeMallocFields {stuck : Nat → Prop} {block : Nat}
    (first : MallocField × Nat) (rest : List (MallocField × Nat))
    (blocked : ¬heap.mallocAccessible block = true → stuck block) :
    Settles seen stuck (writeMallocFields block (first :: rest)) env (heap, held)
      fun _ after => heap.mallocAccessible block = true ∧
        after = (heap.setMallocFields block (first :: rest), held) := by
  by_cases accessible : heap.mallocAccessible block = true
  · refine (yields_writeMallocFields _ accessible).settles.mono ?_
    rintro _ _ rfl
    exact ⟨accessible, rfl⟩
  · refine Settles.of_fault block (blocked accessible) ?_
    intro state viewEq
    obtain ⟨rfl, rfl⟩ := Prod.mk.inj viewEq
    have stops : writeMallocField block first.1 first.2 env state = .fault block :=
      if_neg accessible
    rw [writeMallocFields, bind_apply, stops]

/-- The fields of the header behind a split. -/
def restFields (mmapBlock size prev next : Nat) : List (MallocField × Nat) :=
  [(.mmapBlock, mmapBlock), (.size, size), (.status, MallocStatus.free.toWord),
    (.prev, prev), (.next, next), (.checkStart, checksum), (.checkEnd, checksum)]

theorem mallocHeader_restFields (heap : Heap) {block mmapBlock size prev next : Nat}
    (mmapBound : mmapBlock < 2 ^ 64) (sizeBound : size < 2 ^ 64) (prevBound : prev < 2 ^ 64)
    (nextBound : next < 2 ^ 64) :
    (heap.setMallocFields block (restFields mmapBlock size prev next)).mallocHeader block =
      ⟨checksum, size, .free, mmapBlock, prev, next, checksum⟩ := by
  rw [Heap.mallocHeader_setMallocFields]
  simpa [restFields, MallocHeader.set, MallocStatus.toWord, MallocStatus.ofWord]
    using And.intro sizeBound (And.intro mmapBound (And.intro prevBound nextBound))

/-- A new header inside a free block leaves the region as it represents it. -/
theorem RegionRep.writeRest {block mmapBlock size prev next : Nat}
    (rep : RegionRep heap region entries)
    (home : region.base + 4096 ≤ block)
    (apart : ∀ x ∈ entries, x.addr + 8192 ≤ block ∨ block + 8192 ≤ x.addr)
    (step : GuardStep env block true
      (heap.setMallocFields block (restFields mmapBlock size prev next)) middle) :
    RegionRep middle region entries := by
  have memory : ∀ x, (x < block + 4096 ∨ block + 4240 ≤ x) →
      middle.memory x = heap.memory x := by
    intro x outside
    rw [step.memory, Heap.memory_setMallocFields _ outside]
  have accessible : ∀ x, (x < block ∨ block + 4096 ≤ x) →
      middle.isAccessible x = heap.isAccessible x := by
    intro x outside
    rw [step.isAccessible_of_outside outside, Heap.isAccessible_setMallocFields]
  constructor
  · apply rep.mmap.congr
    · exact Bytes.mmapHeader_congr fun x low high => memory x (by omega)
    · rw [Heap.mmapAccessible, accessible _ (by omega), accessible _ (by omega)]
      exact rep.mmap.accessible
  · apply rep.blocks.congr
    · intro x member
      have sides := apart x member
      exact Bytes.mallocHeader_congr fun y low high => memory y (by omega)
    · intro x member
      have sides := apart x member
      rw [Heap.mallocAccessible_congr fun y low high => accessible y (by omega)]
      exact (rep.blocks.headers x member).accessible

/-- What the two branches of a grant have in common. -/
structure GrantSite (pages : MmapPages) (heap : Heap) (region : Region) (front : List Entry)
    (entry : Entry) (back : List Entry) : Prop
    extends RegionSite pages heap region (front ++ entry :: back) where
  free : entry.busy = false

/-- The header of the block that is granted. -/
theorem GrantSite.header (site : GrantSite pages heap region front entry back) :
    HeaderRep heap region.base entry :=
  site.rep.blocks.headers entry (by simp)

theorem GrantSite.bounds (site : GrantSite pages heap region front entry back) :
    4096 ≤ region.base ∧ region.base + 4096 ≤ entry.addr ∧
      entry.addr + 8192 + entry.size ≤ region.base + region.length ∧
      region.base + region.length ≤ 2 ^ 47 :=
  header_bounds site.placed site.tiles (by simp)

theorem GrantSite.present (site : GrantSite pages heap region front entry back)
    (member : x ∈ front ++ entry :: back) : x.addr ≠ 0 := by
  have bounds := header_bounds site.placed site.tiles member
  omega

/-- The grant of a block that is not split. -/
theorem yields_grantBlock_whole (site : GrantSite pages heap region front entry back)
    (tight : ¬length + 8192 < entry.size) (bound : length + 8192 < 2 ^ 64) :
    Yields seen (grantBlock region.base entry.addr length) env (heap, held)
      fun value after => value = entry.size ∧ after.2 = held ∧
        RegionStep env region (front ++ entry :: back)
          (front ++ ⟨entry.addr, entry.size, true⟩ :: back) (fun _ => False) heap after.1 := by
  have header := site.header
  have bounds := site.bounds
  have nextEq := nextBlock_eq site.rep.blocks
  have backPresent : ∀ y ∈ back, y.addr ≠ 0 := fun y member => site.present (by simp [member])
  have targetEq := nextOrNull_eq site.rep.blocks backPresent
  have small : ¬(heap.mallocHeader entry.addr).size > length + 8192 := by
    rw [header.size]
    exact tight
  refine Yields.seq (yields_readMallocHeader header.accessible) ?_
  rintro _ _ ⟨rfl, rfl⟩
  rw [mallocHeaderSize_eq, add64_of_lt bound]
  simp only
  generalize nextIs : (if (heap.mallocHeader entry.addr).size > length + 8192 then
    add64 entry.addr (length + 8192) else (heap.mallocHeader entry.addr).next) = next
  rw [if_neg small] at nextIs
  subst nextIs
  rw [if_neg small]
  refine Yields.seq (?_ : Yields seen _ env _ fun _ after => after = (heap, held)) ?_
  · exact Yields.when (fun taken => absurd taken small) fun _ => rfl
  rintro _ _ rfl
  have headMem : ∀ list : List Entry, (∀ y ∈ list, y ∈ back) →
      (list.map Entry.addr).headD 0 ≠ 0 → ∃ y ∈ back, y.addr = (list.map Entry.addr).headD 0 := by
    intro list part there
    rcases headD_addr_mem list with null | ⟨y, yMem, yEq⟩
    · exact absurd null there
    · exact ⟨y, part y yMem, yEq⟩
  have nextMem := headMem back fun y member => member
  have targetMem := headMem back.tail fun y member => List.mem_of_mem_tail member
  have opens : ∀ {address : Nat}, (∃ y ∈ back, y.addr = address) →
      heap.mallocAccessible address = true := by
    rintro address ⟨y, yMem, rfl⟩
    exact (site.rep.blocks.headers y (by simp [yMem])).accessible
  refine (yields_takeBlock site.rep.mmap.accessible header.accessible ?_ ?_ ?_ targetEq).mono ?_
  · intro there
    exact opens (nextEq.symm ▸ nextMem (nextEq ▸ there))
  · intro there
    exact opens (targetMem there)
  · intro there
    obtain ⟨y, yMem, yEq⟩ := nextMem (nextEq ▸ there)
    have sides := apart_of_mem_sides site.tiles (List.mem_append_right front yMem)
    have yBounds := site.tiles.bounds (mem_append_cons.mpr (Or.inr
      (List.mem_append_right front yMem)))
    rw [← nextEq] at yEq
    exact ⟨by omega, by omega⟩
  · rintro value after ⟨rfl, rfl⟩
    refine ⟨header.size, rfl, ?_⟩
    rw [header.size]
    have same : addresses (front ++ ⟨entry.addr, entry.size, true⟩ :: back) =
        addresses (front ++ entry :: back) := by simp [addresses]
    have countBound : (heap.mmapHeader region.base).elements + 1 < 2 ^ 64 :=
      site.rep.mmap.elements.symm ▸ busyCount_bound site.placed site.tiles
    have targetHome : (back.tail.map Entry.addr).headD 0 = 0 ∨
        region.base + 4096 ≤ (back.tail.map Entry.addr).headD 0 := by
      by_cases null : (back.tail.map Entry.addr).headD 0 = 0
      · exact Or.inl null
      · obtain ⟨y, yMem, yEq⟩ := targetMem null
        have yBounds := site.tiles.bounds (mem_append_cons.mpr (Or.inr
          (List.mem_append_right front yMem)))
        exact Or.inr (yEq ▸ yBounds.1)
    refine ⟨RegionRep.takeWhole site.placed site.tiles site.rep site.free, ?_,
      heap.links_takeBlock _ _ bounds.2.1 targetHome countBound, ?_, ?_⟩
    · apply WritesOnly.takeBlock
      · exact Or.inl (List.mem_map.mpr ⟨entry, by simp, rfl⟩)
      · intro there
        obtain ⟨y, yMem, yEq⟩ := targetMem there
        exact Or.inl (List.mem_map.mpr ⟨y, by simp [yMem], yEq⟩)
    · intro page _ _ _
      rw [Heap.takeBlock_protNone]
    · intro _ page _
      rw [same]
      simp

/-! ## The grant of a block that is split -/

/-- The header of the rest lies apart from all others. -/
theorem GrantSite.rest_apart (site : GrantSite pages heap region front entry back)
    (left : length + 8192 < entry.size) (member : x ∈ front ++ entry :: back) :
    x.addr + 8192 ≤ entry.addr + 8192 + length ∨
      entry.addr + 8192 + length + 8192 ≤ x.addr := by
  rcases mem_append_cons.mp member with rfl | other
  · exact Or.inl (by omega)
  · have sides := apart_of_mem_sides site.tiles other
    omega

/-- The block behind the one that is granted. -/
theorem GrantSite.next_mem (site : GrantSite pages heap region front entry back)
    (present : heap.nextBlock entry.addr ≠ 0) :
    ∃ y ∈ back, y.addr = heap.nextBlock entry.addr := by
  rw [nextBlock_eq site.rep.blocks] at present ⊢
  exact (headD_addr_mem back).resolve_left present

theorem GrantSite.next_bound (site : GrantSite pages heap region front entry back) :
    heap.nextBlock entry.addr < 2 ^ 64 := by
  by_cases null : heap.nextBlock entry.addr = 0
  · omega
  · obtain ⟨y, yMem, yEq⟩ := site.next_mem null
    have bounds := header_bounds site.placed site.tiles
      (mem_append_cons.mpr (Or.inr (List.mem_append_right front yMem)))
    omega

/-- The header of the rest has been stored, and its guard set if the kernel
granted it. -/
structure RestStored (env : Env) (region : Region) (entry : Entry) (length : Nat)
    (heap middle : Heap) : Prop where
  opened : heap.mallocAccessible (entry.addr + 8192 + length) = true
  step : GuardStep env (entry.addr + 8192 + length) true
    (heap.setMallocFields (entry.addr + 8192 + length)
      (restFields region.base (entry.size - (length + 8192)) entry.addr
        (heap.nextBlock entry.addr))) middle

theorem settles_storeRest {stuck : Nat → Prop} {mmapBlock block size prev next : Nat}
    (pageSize : heap.shared.pageSize = 4096)
    (blocked : ¬heap.mallocAccessible block = true → stuck block) :
    Settles seen stuck (do
        writeMallocFields block (restFields mmapBlock size prev next)
        let _ ← vgcMprotect block) env (heap, held) fun _ after =>
      heap.mallocAccessible block = true ∧ after.2 = held ∧
        GuardStep env block true
          (heap.setMallocFields block (restFields mmapBlock size prev next)) after.1 := by
  refine Settles.seq (settles_writeMallocFields _ _ blocked) ?_
  rintro _ _ ⟨accessible, rfl⟩
  refine Settles.seq (yields_vgcMprotect ?_).settles ?_
  · rw [Heap.setMallocFields_shared]
    exact pageSize
  · rintro _ after ⟨step, same⟩
    exact Settles.pure ⟨accessible, same, step⟩

namespace RestStored

/-- The list is as it was. -/
theorem rep (written : RestStored env region entry length heap middle)
    (site : GrantSite pages heap region front entry back) (left : length + 8192 < entry.size) :
    RegionRep middle region (front ++ entry :: back) := by
  have bounds := site.bounds
  exact site.rep.writeRest (by omega) (fun _ member => site.rest_apart left member) written.step

theorem header_rest (written : RestStored env region entry length heap middle)
    (site : GrantSite pages heap region front entry back) (left : length + 8192 < entry.size) :
    middle.mallocHeader (entry.addr + 8192 + length) =
      ⟨checksum, entry.size - (length + 8192), .free, region.base, entry.addr,
        heap.nextBlock entry.addr, checksum⟩ := by
  have bounds := site.bounds
  rw [written.step.mallocHeader]
  exact mallocHeader_restFields heap (by omega) (by omega) (by omega) site.next_bound

theorem nextBlock_entry (written : RestStored env region entry length heap middle)
    (site : GrantSite pages heap region front entry back) (left : length + 8192 < entry.size) :
    middle.nextBlock entry.addr = heap.nextBlock entry.addr := by
  rw [Heap.nextBlock, written.step.mallocHeader,
    Heap.mallocHeader_setMallocFields_apart _ (site.rest_apart left (by simp))]
  rfl

theorem mmapHeader_eq (written : RestStored env region entry length heap middle)
    (site : GrantSite pages heap region front entry back) :
    middle.mmapHeader region.base = heap.mmapHeader region.base := by
  have bounds := site.bounds
  rw [written.step.mmapHeader, Heap.mmapHeader_setMallocFields _ (by omega)]

/-- A guard page does not keep the fields of its header from being written. -/
theorem stays_open (written : RestStored env region entry length heap middle) :
    middle.mallocAccessible (entry.addr + 8192 + length) = true := by
  refine Heap.mallocAccessible_mono written.opened fun x low high there => ?_
  rwa [written.step.isAccessible_of_outside (by omega), Heap.isAccessible_setMallocFields]

/-- The header of the rest represents a free block. -/
theorem rest (written : RestStored env region entry length heap middle)
    (site : GrantSite pages heap region front entry back) (left : length + 8192 < entry.size) :
    HeaderRep middle region.base
      ⟨entry.addr + 8192 + length, entry.size - (length + 8192), false⟩ := by
  refine ⟨?_, ?_, ?_, ?_, ?_, written.stays_open⟩
  all_goals simp only [written.header_rest site left]
  rfl

/-- The list after the block has been taken. -/
theorem taken_rep (written : RestStored env region entry length heap middle)
    (site : GrantSite pages heap region front entry back) (left : length + 8192 < entry.size) :
    RegionRep
      (middle.takeBlock region.base entry.addr length (entry.addr + 8192 + length)
        (heap.nextBlock entry.addr)) region
      (front ++ ⟨entry.addr, length, true⟩ ::
        ⟨entry.addr + 8192 + length, entry.size - (length + 8192), false⟩ :: back) := by
  rw [← written.nextBlock_entry site left]
  refine RegionRep.takeSplit site.placed site.tiles (written.rep site left) site.free left
    (written.rest site left) ?_ ?_
  · rw [written.nextBlock_entry site left, Heap.nextBlock, written.header_rest site left]
  · rw [Heap.prevBlock, written.header_rest site left]

/-- The MMAP keeps its place in the list. -/
theorem taken_links (written : RestStored env region entry length heap middle)
    (site : GrantSite pages heap region front entry back) (left : length + 8192 < entry.size) :
    (middle.takeBlock region.base entry.addr length (entry.addr + 8192 + length)
        (heap.nextBlock entry.addr)).nextMmap region.base = heap.nextMmap region.base ∧
      (middle.takeBlock region.base entry.addr length (entry.addr + 8192 + length)
        (heap.nextBlock entry.addr)).prevMmap region.base = heap.prevMmap region.base := by
  have bounds := site.bounds
  have side := nextBlock_side site.tiles site.rep.blocks
  have count : (middle.mmapHeader region.base).elements + 1 < 2 ^ 64 :=
    (written.rep site left).mmap.elements.symm ▸ busyCount_bound site.placed site.tiles
  have kept := middle.links_takeBlock length (entry.addr + 8192 + length) bounds.2.1
    (side.imp id fun far => by omega) count
  have same := written.mmapHeader_eq site
  exact ⟨kept.1.trans (congrArg MmapHeader.next same),
    kept.2.trans (congrArg MmapHeader.prev same)⟩

end RestStored

/-- A split adds the header of the rest. -/
theorem mem_addresses_split {page taken rest room : Nat} :
    page ∈ addresses (front ++ ⟨entry.addr, taken, true⟩ :: ⟨rest, room, false⟩ :: back) ↔
      page = rest ∨ page ∈ addresses (front ++ entry :: back) := by
  simp only [addresses, List.map_append, List.map_cons, List.mem_append, List.mem_cons]
  constructor
  · rintro (inFront | rfl | rfl | inBack)
    · exact Or.inr (Or.inl inFront)
    · exact Or.inr (Or.inr (Or.inl rfl))
    · exact Or.inl rfl
    · exact Or.inr (Or.inr (Or.inr inBack))
  · rintro (rfl | inFront | rfl | inBack)
    · exact Or.inr (Or.inr (Or.inl rfl))
    · exact Or.inl inFront
    · exact Or.inr (Or.inl rfl)
    · exact Or.inr (Or.inr (Or.inr inBack))

theorem GrantSite.rest_fresh (site : GrantSite pages heap region front entry back)
    (left : length + 8192 < entry.size) :
    entry.addr + 8192 + length ∉ addresses (front ++ entry :: back) := by
  intro member
  obtain ⟨x, xMem, xEq⟩ := List.mem_map.mp member
  have sides := site.rest_apart left xMem
  omega

/-- The guards that are set: that of the rest is new. -/
theorem RestStored.protNone_iff (written : RestStored env region entry length heap middle)
    (site : GrantSite pages heap region front entry back) (left : length + 8192 < entry.size)
    (works : MprotectCallsSucceed env) {page : Nat} (aligned : page % 4096 = 0) :
    middle.protNone page = true ↔
      heap.protNone page = true ∨ page = entry.addr + 8192 + length := by
  have bounds := site.bounds
  have restMapped : (heap.setMallocFields (entry.addr + 8192 + length)
      (restFields region.base (entry.size - (length + 8192)) entry.addr
        (heap.nextBlock entry.addr))).isMapped (entry.addr + 8192 + length) = true := by
    have member : region ∈ (heap.setMallocFields (entry.addr + 8192 + length)
        (restFields region.base (entry.size - (length + 8192)) entry.addr
          (heap.nextBlock entry.addr))).mapped := by
      rw [Heap.setMallocFields_mapped]
      exact site.mapped
    exact isMapped_of_mem member (by omega) (by omega)
  rw [written.step.protNone_iff works restMapped aligned, Heap.setMallocFields_protNone]
  by_cases hit : page = entry.addr + 8192 + length
  · simp [hit]
  · simp [hit]

/-- The stores of a split are a step of the region. -/
theorem RestStored.regionStep (written : RestStored env region entry length heap middle)
    (site : GrantSite pages heap region front entry back) (left : length + 8192 < entry.size) :
    RegionStep env region (front ++ entry :: back)
      (front ++ ⟨entry.addr, length, true⟩ ::
        ⟨entry.addr + 8192 + length, entry.size - (length + 8192), false⟩ :: back)
      (fun _ => False) heap
      (middle.takeBlock region.base entry.addr length (entry.addr + 8192 + length)
        (heap.nextBlock entry.addr)) := by
  refine ⟨written.taken_rep site left, ?_, written.taken_links site left, ?_, ?_⟩
  · have restMem : entry.addr + 8192 + length ∈ addresses (front ++
        ⟨entry.addr, length, true⟩ :: ⟨entry.addr + 8192 + length,
          entry.size - (length + 8192), false⟩ :: back) := by simp [addresses]
    refine ((WritesOnly.setMallocFields _ (Or.inr restMem)).trans
      (WritesOnly.guardStep written.step)).trans (WritesOnly.takeBlock ?_ ?_)
    · exact Or.inl (by simp [addresses])
    · intro there
      obtain ⟨y, yMem, yEq⟩ := site.next_mem there
      exact Or.inl (List.mem_map.mpr ⟨y, by simp [yMem], yEq⟩)
  · intro page aligned _ fresh
    have other : page ≠ entry.addr + 8192 + length := by
      intro equal
      exact fresh (by simp [addresses, equal])
    rw [Heap.takeBlock_protNone, written.step.others page aligned other,
      Heap.setMallocFields_protNone]
  · intro works page aligned
    have fresh := site.rest_fresh left
    rw [Heap.takeBlock_protNone, written.protNone_iff site left works aligned,
      mem_addresses_split]
    by_cases hit : page = entry.addr + 8192 + length
    · simp [hit, fresh]
    · simp [hit]

/-- The grant of a block that is split. -/
theorem settles_grantBlock_split {stuck : Nat → Prop}
    (site : GrantSite pages heap region front entry back)
    (left : length + 8192 < entry.size)
    (blocked : ¬heap.mallocAccessible (entry.addr + 8192 + length) = true →
      stuck (entry.addr + 8192 + length)) :
    Settles seen stuck (grantBlock region.base entry.addr length) env (heap, held)
      fun _ after => after.2 = held ∧ heap.mallocAccessible (entry.addr + 8192 + length) = true ∧
        RegionStep env region (front ++ entry :: back)
          (front ++ ⟨entry.addr, length, true⟩ ::
            ⟨entry.addr + 8192 + length, entry.size - (length + 8192), false⟩ :: back)
          (fun _ => False) heap after.1 := by
  have header := site.header
  have bounds := site.bounds
  have lengthBound : length + 8192 < 2 ^ 64 := by omega
  have restBound : entry.addr + 8192 + length < 2 ^ 64 := by omega
  have restEq : add64 entry.addr (length + 8192) = entry.addr + 8192 + length := by
    rw [Nat.add_assoc, Nat.add_comm 8192]
    exact add64_of_lt (by rw [Nat.add_comm length, ← Nat.add_assoc]; exact restBound)
  have large : (heap.mallocHeader entry.addr).size > length + 8192 := by
    rw [header.size]
    exact left
  refine Settles.seq (yields_readMallocHeader header.accessible).settles ?_
  rintro _ _ ⟨rfl, rfl⟩
  rw [mallocHeaderSize_eq, add64_of_lt lengthBound]
  simp only
  generalize nextIs : (if (heap.mallocHeader entry.addr).size > length + 8192 then
    add64 entry.addr (length + 8192) else (heap.mallocHeader entry.addr).next) = next
  rw [if_pos large, restEq] at nextIs
  subst nextIs
  rw [if_pos large, header.size, sub64_of_le (by omega) (by omega), when, if_pos left]
  refine Settles.seq (settles_storeRest site.pageSize blocked) ?_
  rintro _ ⟨middle, middleHeld⟩ ⟨opened, rfl, step⟩
  have written : RestStored env region entry length heap middle := ⟨opened, step⟩
  have rep := written.rep site left
  have targetEq : middle.nextOrNull (entry.addr + 8192 + length) = heap.nextBlock entry.addr := by
    rw [Heap.nextOrNull, if_neg (by omega), Heap.nextBlock, written.header_rest site left]
  refine (yields_takeBlock rep.mmap.accessible (rep.blocks.headers entry (by simp)).accessible
    (fun _ => written.stays_open) ?_ (fun _ => ⟨by omega, by omega⟩) targetEq).settles.mono ?_
  · intro there
    obtain ⟨y, yMem, yEq⟩ := site.next_mem there
    exact yEq ▸ (rep.blocks.headers y (by simp [yMem])).accessible
  · rintro value after ⟨_, rfl⟩
    exact ⟨rfl, opened, written.regionStep site left⟩

/-- The header that a grant of `length` bytes splits off a block can be
written. -/
def Heap.RestOpen (heap : Heap) (length : Nat) (entry : Entry) : Prop :=
  length + 8192 < entry.size → heap.mallocAccessible (entry.addr + 8192 + length) = true

instance (heap : Heap) (length : Nat) (entry : Entry) : Decidable (heap.RestOpen length entry) :=
  inferInstanceAs (Decidable (_ → _))

/-- A grant acts on the represented list as `grantEntry`. -/
theorem settles_grantBlock {stuck : Nat → Prop}
    (site : GrantSite pages heap region front entry back) (bound : length + 8192 < 2 ^ 64)
    (blocked : ¬heap.RestOpen length entry → stuck (entry.addr + 8192 + length)) :
    Settles seen stuck (grantBlock region.base entry.addr length) env (heap, held)
      fun _ after => after.2 = held ∧ heap.RestOpen length entry ∧
        RegionStep env region (front ++ entry :: back)
          (front ++ grantEntry 8192 length entry ++ back) (fun _ => False) heap after.1 := by
  unfold grantEntry
  by_cases left : length + 8192 < entry.size
  · rw [if_pos left, List.append_assoc, List.cons_append, List.singleton_append]
    refine (settles_grantBlock_split site left fun closed => ?_).mono ?_
    · exact blocked fun open_ => closed (open_ left)
    · rintro _ _ ⟨same, restOpen, step⟩
      exact ⟨same, fun _ => restOpen, step⟩
  · rw [if_neg left, List.append_assoc, List.singleton_append]
    refine (yields_grantBlock_whole site left bound).settles.mono ?_
    rintro _ _ ⟨_, same, step⟩
    exact ⟨same, fun more => absurd more left, step⟩

end VgcMalloc
