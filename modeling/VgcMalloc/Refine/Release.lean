import VgcMalloc.Refine.Grant

/-!
# Releasing a block

Marking a block free and merging it with its free neighbours, in memory.  Each
merge takes one header out of the list and lifts its guard.
-/

namespace VgcMalloc

open Program Tiling Linked

variable {env : Env} {heap middle after : Heap} {held : List Mutex} {pages : MmapPages}
  {region : Region} {entries entries' front back : List Entry} {entry keeper gone x : Entry}

/-! ## Lifting guards -/

/-- Only headers have been written to, the MMAP header is as before, and the
guards of the `lifted` pages are gone when every `mprotect` succeeds. -/
structure Lifts (env : Env) (region : Region) (headers lifted : Nat → Prop)
    (before after : Heap) : Prop where
  writes : WritesOnly region headers before after
  mmapHeader : after.mmapHeader region.base = before.mmapHeader region.base
  accessible : ∀ x, before.isAccessible x = true → after.isAccessible x = true
  untouched : ∀ page, page % 4096 = 0 → ¬lifted page → after.protNone page = before.protNone page
  works : MprotectCallsSucceed env → ∀ page, page % 4096 = 0 → lifted page →
    after.protNone page = false

namespace Lifts

variable {headers lifted more : Nat → Prop}

theorem refl (heap : Heap) (none : ∀ page, ¬lifted page) :
    Lifts env region headers lifted heap heap :=
  ⟨WritesOnly.refl heap, rfl, fun _ accessible => accessible, fun _ _ _ => rfl,
    fun _ page _ lift => absurd lift (none page)⟩

theorem trans (first : Lifts env region headers lifted heap middle)
    (second : Lifts env region headers more middle after) :
    Lifts env region headers (fun page => lifted page ∨ more page) heap after where
  writes := first.writes.trans second.writes
  mmapHeader := second.mmapHeader.trans first.mmapHeader
  accessible x open_ := second.accessible x (first.accessible x open_)
  untouched page aligned kept :=
    (second.untouched page aligned fun lift => kept (Or.inr lift)).trans
      (first.untouched page aligned fun lift => kept (Or.inl lift))
  works succeeds page aligned lift := by
    by_cases later : more page
    · exact second.works succeeds page aligned later
    · rw [second.untouched page aligned later]
      exact first.works succeeds page aligned (lift.resolve_right later)

theorem congr {same : Nat → Prop} (lifts : Lifts env region headers lifted heap after)
    (iff : ∀ page, lifted page ↔ same page) : Lifts env region headers same heap after where
  writes := lifts.writes
  mmapHeader := lifts.mmapHeader
  accessible := lifts.accessible
  untouched page aligned kept :=
    lifts.untouched page aligned fun lift => kept ((iff page).mp lift)
  works succeeds page aligned lift := lifts.works succeeds page aligned ((iff page).mpr lift)

theorem mono {wider : Nat → Prop} (lifts : Lifts env region headers lifted heap after)
    (weaker : ∀ header, headers header → wider header) :
    Lifts env region wider lifted heap after where
  writes := lifts.writes.mono weaker
  mmapHeader := lifts.mmapHeader
  accessible := lifts.accessible
  untouched := lifts.untouched
  works := lifts.works

theorem setMallocFields {block : Nat} (fields : List (MallocField × Nat))
    (member : headers block) (home : region.base + 4096 ≤ block) :
    Lifts env region headers (fun _ => False) heap (heap.setMallocFields block fields) where
  writes := WritesOnly.setMallocFields fields member
  mmapHeader := Heap.mmapHeader_setMallocFields fields (by omega)
  accessible x open_ := by simpa using open_
  untouched page _ _ := by simp
  works _ _ _ lift := lift.elim

theorem linkBack {target value : Nat}
    (member : target ≠ 0 → headers target ∧ region.base + 4096 ≤ target) :
    Lifts env region headers (fun _ => False) heap (heap.linkBack target value) := by
  unfold Heap.linkBack
  split
  · exact refl heap fun _ lift => lift
  · exact setMallocFields _ (member ‹_›).1 (member ‹_›).2

theorem guardStep {page : Nat} (step : GuardStep env page false heap after)
    (mapped : heap.isMapped page = true) :
    Lifts env region headers (fun other => other = page) heap after where
  writes := WritesOnly.guardStep step
  mmapHeader := step.mmapHeader region.base
  accessible _ open_ := step.isAccessible_of_unprotect open_
  untouched other aligned kept := step.others other aligned kept
  works succeeds other aligned lift := by
    subst lift
    exact step.done succeeds aligned mapped

/-- What can be accessed stays accessible, header by header. -/
theorem mallocAccessible (lifts : Lifts env region headers lifted heap after) {block : Nat}
    (open_ : heap.mallocAccessible block = true) : after.mallocAccessible block = true :=
  Heap.mallocAccessible_mono open_ fun x _ _ => lifts.accessible x

theorem mmapAccessible (lifts : Lifts env region headers lifted heap after) {block : Nat}
    (open_ : heap.mmapAccessible block = true) : after.mmapAccessible block = true := by
  simp only [Heap.mmapAccessible, Bool.and_eq_true] at open_ ⊢
  exact ⟨lifts.accessible _ open_.1, lifts.accessible _ open_.2⟩

end Lifts

/-! ## Merging two blocks -/

/-- The stores of `absorbBlock`. -/
def Heap.absorbBlock (heap : Heap) (keeper gone size : Nat) : Heap :=
  (heap.setMallocFields keeper [(.size, size), (.next, heap.nextBlock gone)]).linkBack
    (heap.nextBlock gone) keeper

/-- The block that has taken over the one behind it. -/
def merged (keeper gone : Entry) : Entry :=
  ⟨keeper.addr, keeper.size + (gone.size + 8192), keeper.busy⟩

/-- What the stores of a merge leave of the headers: the keeper has a new size
and link, and the other blocks keep all but the link back of the one behind the
block that has gone. -/
structure MergedHeaders (heap after : Heap) (front : List Entry) (keeper gone : Entry)
    (back : List Entry) : Prop where
  kept : after.mallocHeader keeper.addr =
    { heap.mallocHeader keeper.addr with
      size := keeper.size + (gone.size + 8192), next := heap.nextBlock gone.addr }
  others : RelinkedBack heap after keeper.addr front back
  accessible : ∀ x, heap.mallocAccessible x = true → after.mallocAccessible x = true

/-- The blocks on both sides of two neighbours are blocks of the list. -/
theorem mem_of_mem_sides (keeper gone : Entry) (member : x ∈ front ++ back) :
    x ∈ front ++ keeper :: gone :: back := by
  rcases List.mem_append.mp member with inFront | inBack
  · exact List.mem_append_left _ inFront
  · exact List.mem_append_right _ (List.mem_cons_of_mem _ (List.mem_cons_of_mem _ inBack))

/-- The block behind two neighbours. -/
theorem nextBlock_gone {base : Nat}
    (rep : BlockRep heap base 0 (front ++ keeper :: gone :: back)) :
    heap.nextBlock gone.addr = (back.map Entry.addr).headD 0 := by
  have shifted : BlockRep heap base 0 ((front ++ [keeper]) ++ gone :: back) := by
    simpa using rep
  exact nextBlock_eq shifted

theorem mergedHeaders_absorbBlock (placed : region.Placed pages.bytes)
    (tiles : Contiguous 8192 (region.base + 4096) (front ++ keeper :: gone :: back)
      (region.base + region.length))
    (rep : BlockRep heap region.base 0 (front ++ keeper :: gone :: back)) :
    MergedHeaders heap
      (heap.absorbBlock keeper.addr gone.addr (keeper.size + (gone.size + 8192)))
      front keeper gone back := by
  have ordered := List.pairwise_append.mp tiles.pairwise
  have keeperGone : keeper.addr + 8192 + keeper.size ≤ gone.addr :=
    List.rel_of_pairwise_cons ordered.2.1 List.mem_cons_self
  have keeperBounds := header_bounds placed tiles (x := keeper) (by simp)
  have goneBounds := header_bounds placed tiles (x := gone) (by simp)
  have keeperBound : keeper.addr < 2 ^ 64 := by omega
  have sizeBound : keeper.size + (gone.size + 8192) < 2 ^ 64 := by omega
  have nextEq := nextBlock_gone rep
  have nextMem := headD_addr_mem back
  rw [← nextEq] at nextMem
  have far : heap.nextBlock gone.addr = 0 ∨
      gone.addr + 8192 + gone.size ≤ heap.nextBlock gone.addr := by
    rcases nextMem with null | ⟨y, yMem, yEq⟩
    · exact Or.inl null
    · have behind := (List.pairwise_cons.mp ordered.2.1).2
      exact Or.inr (yEq ▸ List.rel_of_pairwise_cons behind yMem)
  have nextBound : heap.nextBlock gone.addr < 2 ^ 64 := by
    rcases nextMem with null | ⟨y, yMem, yEq⟩
    · omega
    · have yBounds := header_bounds placed tiles (x := y) (by simp [yMem])
      omega
  constructor
  · rw [Heap.absorbBlock, Heap.mallocHeader_linkBack keeperBound (by omega),
      Heap.mallocHeader_setMallocFields, if_neg (by omega)]
    simpa [MallocHeader.set] using And.intro sizeBound nextBound
  · intro x member
    have whole := mem_of_mem_sides keeper gone member
    have separate := header_separate placed tiles whole
      (home_of_part (fun y yMem => by simp [yMem]) nextMem)
    have sides : x.addr + 8192 ≤ keeper.addr ∨ keeper.addr + 8192 ≤ x.addr := by
      rcases List.mem_append.mp member with inFront | inBack
      · have gap := ordered.2.2 x inFront keeper List.mem_cons_self
        omega
      · have gap := List.rel_of_pairwise_cons ordered.2.1 (List.mem_cons_of_mem gone inBack)
        omega
    rw [Heap.absorbBlock, Heap.mallocHeader_linkBack keeperBound separate,
      Heap.mallocHeader_setMallocFields_apart _ sides, nextEq]
  · intro x opened
    simpa [Heap.absorbBlock] using opened

/-- The links after a merge lead past the block that has gone. -/
theorem MergedHeaders.segment {after : Heap} (placed : region.Placed pages.bytes)
    (tiles : Contiguous 8192 (region.base + 4096) (front ++ keeper :: gone :: back)
      (region.base + region.length))
    (rep : BlockRep heap region.base 0 (front ++ keeper :: gone :: back))
    (headers : MergedHeaders heap after front keeper gone back) :
    Segment after.nextBlock after.prevBlock 0
      (front.map Entry.addr ++ keeper.addr :: back.map Entry.addr) 0 := by
  have links := rep.links
  rw [List.map_append, List.map_cons, List.map_cons] at links
  refine links.removeAfter ?_ ?_ ?_ ?_
  · rw [Heap.nextBlock, headers.kept]
  · intro node isHead
    refine headers.others.prev_head (fun y member => ?_) isHead
    have bounds := header_bounds placed tiles (x := y) (by simp [member])
    omega
  · intro node member
    rw [← List.map_append] at member
    obtain ⟨x, xMem, rfl⟩ := List.mem_map.mp member
    exact headers.others.nextBlock xMem
  · intro node member
    rw [← List.map_tail] at member
    rcases List.mem_append.mp member with inFront | inBack
    · obtain ⟨x, xMem, rfl⟩ := List.mem_map.mp inFront
      exact headers.others.prev_other [keeper, gone] tiles (List.mem_append_left _ xMem)
    · rcases List.mem_cons.mp inBack with rfl | inTail
      · rw [Heap.prevBlock, headers.kept]
        rfl
      · obtain ⟨x, xMem, rfl⟩ := List.mem_map.mp inTail
        exact headers.others.prev_other [keeper, gone] tiles (List.mem_append_right _ xMem)

/-- Two neighbours merged in the represented list. -/
theorem BlockRep.absorbBlock (placed : region.Placed pages.bytes)
    (tiles : Contiguous 8192 (region.base + 4096) (front ++ keeper :: gone :: back)
      (region.base + region.length))
    (rep : BlockRep heap region.base 0 (front ++ keeper :: gone :: back)) :
    BlockRep (heap.absorbBlock keeper.addr gone.addr (keeper.size + (gone.size + 8192)))
      region.base 0 (front ++ merged keeper gone :: back) := by
  have headers := mergedHeaders_absorbBlock placed tiles rep
  have walked := headers.segment placed tiles rep
  constructor
  · rw [List.map_append, List.map_cons]
    exact walked
  · intro x member
    rcases mem_append_cons.mp member with rfl | other
    · have header := rep.headers keeper (by simp)
      refine ⟨?_, ?_, ?_, ?_, ?_, headers.accessible _ header.accessible⟩
      all_goals simp only [merged, headers.kept]
      · exact header.status
      · exact header.mmapBlock
      · exact header.checkStart
      · exact header.checkEnd
    · have whole := mem_of_mem_sides keeper gone other
      have header := rep.headers x whole
      exact headers.others.header other header (headers.accessible _ header.accessible)

/-- The blocks of a region while a block is released: the headers in memory,
and the guards lifted so far. -/
structure BlockStep (env : Env) (region : Region) (entries entries' : List Entry)
    (lifted : Nat → Prop) (heap after : Heap) : Prop where
  blocks : BlockRep after region.base 0 entries'
  lifts : Lifts env region (fun header => header ∈ addresses entries) lifted heap after

/-- The headers that a change of the list drops. -/
def Dropped (entries entries' : List Entry) (page : Nat) : Prop :=
  page ∈ addresses entries ∧ page ∉ addresses entries'

theorem BlockStep.refl (blocks : BlockRep heap region.base 0 entries) :
    BlockStep env region entries entries (Dropped entries entries) heap heap :=
  ⟨blocks, Lifts.refl heap fun _ lift => lift.2 lift.1⟩

/-- A merge drops exactly the header that vanishes. -/
theorem dropped_merged_iff
    (tiles : Contiguous 8192 (region.base + 4096) (front ++ keeper :: gone :: back)
      (region.base + region.length)) (page : Nat) :
    page = gone.addr ↔
      Dropped (front ++ keeper :: gone :: back) (front ++ merged keeper gone :: back) page := by
  have ordered := List.pairwise_append.mp tiles.pairwise
  have others : ∀ x ∈ front ++ keeper :: back, x.addr ≠ gone.addr := by
    intro x member
    rcases List.mem_append.mp member with inFront | inBack
    · have gap := ordered.2.2 x inFront gone (by simp)
      omega
    · rcases List.mem_cons.mp inBack with rfl | inBack
      · have gap := List.rel_of_pairwise_cons ordered.2.1 List.mem_cons_self
        omega
      · have gap := List.rel_of_pairwise_cons (List.pairwise_cons.mp ordered.2.1).2 inBack
        omega
  have after : addresses (front ++ merged keeper gone :: back) =
      addresses (front ++ keeper :: back) := by simp [addresses, merged]
  unfold Dropped
  rw [after]
  constructor
  · rintro rfl
    refine ⟨by simp [addresses], ?_⟩
    intro member
    obtain ⟨x, xMem, xEq⟩ := List.mem_map.mp member
    exact others x xMem xEq
  · rintro ⟨member, vanished⟩
    obtain ⟨x, xMem, rfl⟩ := List.mem_map.mp member
    have split : x = gone ∨ x ∈ front ++ keeper :: back := by
      rcases List.mem_append.mp xMem with inFront | inBack
      · exact Or.inr (List.mem_append_left _ inFront)
      · rcases List.mem_cons.mp inBack with rfl | inBack
        · exact Or.inr (by simp)
        · rcases List.mem_cons.mp inBack with rfl | inBack
          · exact Or.inl rfl
          · exact Or.inr (by simp [inBack])
    rcases split with rfl | kept
    · rfl
    · exact absurd (List.mem_map.mpr ⟨x, kept, rfl⟩) vanished

theorem yields_absorbBlock (placed : region.Placed pages.bytes) (mapped : region ∈ heap.mapped)
    (pageSize : heap.shared.pageSize = 4096)
    (tiles : Contiguous 8192 (region.base + 4096) (front ++ keeper :: gone :: back)
      (region.base + region.length))
    (rep : BlockRep heap region.base 0 (front ++ keeper :: gone :: back)) :
    Yields seen (absorbBlock keeper.addr gone.addr) env (heap, held) fun _ final =>
      final.2 = held ∧
        BlockStep env region (front ++ keeper :: gone :: back)
          (front ++ merged keeper gone :: back)
          (Dropped (front ++ keeper :: gone :: back) (front ++ merged keeper gone :: back)) heap
          final.1 := by
  have keeperMem : keeper ∈ front ++ keeper :: gone :: back := by simp
  have goneMem : gone ∈ front ++ keeper :: gone :: back := by simp
  have keeperBounds := header_bounds placed tiles keeperMem
  have goneBounds := header_bounds placed tiles goneMem
  have goneMapped : heap.isMapped gone.addr = true :=
    isMapped_of_mem mapped (by omega) (by omega)
  have backHome : heap.nextBlock gone.addr = 0 ∨
      ∃ y ∈ back, y.addr = heap.nextBlock gone.addr := by
    rw [nextBlock_gone rep]
    exact headD_addr_mem back
  unfold absorbBlock
  refine Yields.seq (yields_vgcMunprotect pageSize) ?_
  rintro _ ⟨middle, middleHeld⟩ ⟨step, rfl⟩
  have lifted : Lifts env region
      (fun header => header ∈ addresses (front ++ keeper :: gone :: back))
      (fun other => other = gone.addr) heap middle := Lifts.guardStep step goneMapped
  have middleRep : BlockRep middle region.base 0 (front ++ keeper :: gone :: back) :=
    rep.congr (fun x _ => step.mallocHeader x.addr)
      fun x member => lifted.mallocAccessible (rep.headers x member).accessible
  have keeperHeader := middleRep.headers keeper keeperMem
  have goneHeader := middleRep.headers gone goneMem
  refine Yields.seq (yields_readMallocHeader keeperHeader.accessible) ?_
  rintro _ _ ⟨rfl, rfl⟩
  refine Yields.seq (yields_readMallocHeader goneHeader.accessible) ?_
  rintro _ _ ⟨rfl, rfl⟩
  have goneSize : add64 gone.size mallocHeaderSize = gone.size + 8192 := by
    rw [mallocHeaderSize_eq]
    exact add64_of_lt (by omega)
  have sizeBound : keeper.size + gone.size + 8192 < 2 ^ 64 := by
    have gap := List.rel_of_pairwise_cons (List.pairwise_append.mp tiles.pairwise).2.1
      List.mem_cons_self
    omega
  have sizeEq : add64 keeper.size (gone.size + 8192) = keeper.size + (gone.size + 8192) :=
    add64_of_lt (by rw [← Nat.add_assoc]; exact sizeBound)
  rw [keeperHeader.size, goneHeader.size, goneSize, sizeEq]
  have sameNext : (middle.mallocHeader gone.addr).next = heap.nextBlock gone.addr :=
    congrArg MallocHeader.next (step.mallocHeader gone.addr)
  refine Yields.seq (yields_writeMallocFields _ keeperHeader.accessible) ?_
  rintro _ _ rfl
  generalize writtenEq : middle.setMallocFields keeper.addr _ = written
  have written_opens : ∀ x, middle.mallocAccessible x = true →
      written.mallocAccessible x = true := by
    intro x open_
    rw [← writtenEq]
    simpa using open_
  have targetOpen : (middle.mallocHeader gone.addr).next ≠ 0 →
      written.mallocAccessible (middle.mallocHeader gone.addr).next = true := by
    intro present
    rw [sameNext] at present ⊢
    rcases backHome with null | ⟨y, yMem, yEq⟩
    · exact absurd null present
    · rw [← yEq]
      exact written_opens _ (middleRep.headers y (by simp [yMem])).accessible
  refine (yields_linkBack targetOpen).mono ?_
  rintro _ _ rfl
  have finalEq : written.linkBack (middle.mallocHeader gone.addr).next keeper.addr =
      middle.absorbBlock keeper.addr gone.addr (keeper.size + (gone.size + 8192)) := by
    rw [← writtenEq, Heap.absorbBlock, Heap.nextBlock]
  refine ⟨rfl, ?_, ?_⟩
  · simp only
    rw [finalEq]
    exact BlockRep.absorbBlock placed tiles middleRep
  · have keeperIn : keeper.addr ∈ addresses (front ++ keeper :: gone :: back) :=
      List.mem_map.mpr ⟨keeper, keeperMem, rfl⟩
    have stores : Lifts env region
        (fun header => header ∈ addresses (front ++ keeper :: gone :: back))
        (fun _ => False) middle written := by
      rw [← writtenEq]
      exact Lifts.setMallocFields _ keeperIn keeperBounds.2.1
    have linked : Lifts env region
        (fun header => header ∈ addresses (front ++ keeper :: gone :: back))
        (fun _ => False) written
        (written.linkBack (middle.mallocHeader gone.addr).next keeper.addr) := by
      refine Lifts.linkBack ?_
      intro present
      rw [sameNext] at present ⊢
      rcases backHome with null | ⟨y, yMem, yEq⟩
      · exact absurd null present
      · have yWhole : y ∈ front ++ keeper :: gone :: back := by simp [yMem]
        rw [← yEq]
        exact ⟨List.mem_map.mpr ⟨y, yWhole, rfl⟩, (tiles.bounds yWhole).1⟩
    have whole := (lifted.trans stores).trans linked
    simp only
    refine whole.congr ?_
    intro page
    rw [← dropped_merged_iff tiles]
    simp

/-! ## The two coalescing routines -/

theorem Lifts.mapped {headers lifted : Nat → Prop}
    (lifts : Lifts env region headers lifted heap after) : after.mapped = heap.mapped :=
  lifts.writes.mapped

theorem Lifts.pageSize {headers lifted : Nat → Prop}
    (lifts : Lifts env region headers lifted heap after)
    (pageSize : heap.shared.pageSize = 4096) : after.shared.pageSize = 4096 := by
  rw [lifts.writes.shared]
  exact pageSize

theorem BlockStep.trans {entries'' : List Entry} {lifted more : Nat → Prop}
    (first : BlockStep env region entries entries' lifted heap middle)
    (second : BlockStep env region entries' entries'' more middle after)
    (fewer : ∀ header, header ∈ addresses entries' → header ∈ addresses entries) :
    BlockStep env region entries entries'' (fun page => lifted page ∨ more page) heap after :=
  ⟨second.blocks, first.lifts.trans (second.lifts.mono fewer)⟩

/-- `freeBlocksNext` absorbs a free right neighbour. -/
theorem yields_freeBlocksNext (placed : region.Placed pages.bytes)
    (mapped : region ∈ heap.mapped) (pageSize : heap.shared.pageSize = 4096)
    (tiles : Contiguous 8192 (region.base + 4096) (front ++ keeper :: back)
      (region.base + region.length))
    (rep : BlockRep heap region.base 0 (front ++ keeper :: back)) :
    Yields seen (freeBlocksNext keeper.addr) env (heap, held) fun _ final =>
      final.2 = held ∧
        BlockStep env region (front ++ keeper :: back) (front ++ absorb 8192 keeper back)
          (Dropped (front ++ keeper :: back) (front ++ absorb 8192 keeper back)) heap
          final.1 := by
  have header := rep.headers keeper (by simp)
  have links := rep.links
  rw [List.map_append, List.map_cons] at links
  have next : (heap.mallocHeader keeper.addr).next = (back.map Entry.addr).headD 0 :=
    links.links.2
  unfold freeBlocksNext
  refine Yields.seq (yields_readMallocHeader header.accessible) ?_
  rintro _ _ ⟨rfl, rfl⟩
  rw [next]
  cases back with
  | nil =>
      refine Yields.when (fun present => absurd rfl present) fun _ => ?_
      exact ⟨rfl, BlockStep.refl rep⟩
  | cons gone rest =>
      have goneMem : gone ∈ front ++ keeper :: gone :: rest := by simp
      have goneHeader := rep.headers gone goneMem
      have goneBounds := header_bounds placed tiles goneMem
      rw [List.map_cons, List.headD_cons]
      refine Yields.when (fun _ => ?_) fun null => absurd null (not_not_intro (by omega))
      refine Yields.seq (yields_readMallocHeader goneHeader.accessible) ?_
      rintro _ _ ⟨rfl, rfl⟩
      rw [goneHeader.status]
      cases busy : gone.busy with
      | true =>
          have kept : absorb 8192 keeper (gone :: rest) = keeper :: gone :: rest := by
            rw [absorb, if_pos busy]
          rw [kept]
          refine Yields.when (fun free => ?_) fun _ => ⟨rfl, BlockStep.refl rep⟩
          exact absurd free (by decide)
      | false =>
          have taken : absorb 8192 keeper (gone :: rest) = merged keeper gone :: rest := by
            rw [absorb, if_neg (by simp [busy])]
            rfl
          rw [taken]
          refine Yields.when (fun _ => ?_) fun used => absurd rfl used
          exact yields_absorbBlock placed mapped pageSize tiles rep

/-- `freeBlocksPrev` does nothing behind a block in use. -/
theorem yields_freeBlocksPrev_busy
    (rep : BlockRep heap region.base 0 (front ++ keeper :: back))
    (before : ∀ x ∈ front.getLast?, x.busy = true) :
    Yields seen (freeBlocksPrev keeper.addr) env (heap, held) fun _ final =>
      final.2 = held ∧ final.1 = heap := by
  have header := rep.headers keeper (by simp)
  have links := rep.links
  rw [List.map_append, List.map_cons] at links
  have prev : (heap.mallocHeader keeper.addr).prev = (front.map Entry.addr).getLastD 0 :=
    links.links.1
  unfold freeBlocksPrev
  refine Yields.seq (yields_readMallocHeader header.accessible) ?_
  rintro _ _ ⟨rfl, rfl⟩
  rw [prev]
  rcases List.eq_nil_or_concat front with rfl | ⟨front', left, rfl⟩
  · refine Yields.when (fun present => absurd rfl present) fun _ => ⟨rfl, rfl⟩
  · simp only [List.concat_eq_append] at rep before ⊢
    have leftMem : left ∈ (front' ++ [left]) ++ keeper :: back := by simp
    have leftHeader := rep.headers left leftMem
    have busy : left.busy = true := before left (by simp)
    have last : ((front' ++ [left]).map Entry.addr).getLastD 0 = left.addr := by simp
    rw [last]
    refine Yields.when (fun _ => ?_) fun _ => ⟨rfl, rfl⟩
    refine Yields.seq (yields_readMallocHeader leftHeader.accessible) ?_
    rintro _ _ ⟨rfl, rfl⟩
    rw [leftHeader.status, busy]
    refine Yields.when (fun free => ?_) fun _ => ⟨rfl, rfl⟩
    exact absurd free (by decide)

/-- `freeBlocksPrev` lets a free left neighbour take over the block. -/
theorem yields_freeBlocksPrev_free (placed : region.Placed pages.bytes)
    (mapped : region ∈ heap.mapped) (pageSize : heap.shared.pageSize = 4096)
    (tiles : Contiguous 8192 (region.base + 4096) (front ++ keeper :: gone :: back)
      (region.base + region.length))
    (rep : BlockRep heap region.base 0 (front ++ keeper :: gone :: back))
    (free : keeper.busy = false) :
    Yields seen (freeBlocksPrev gone.addr) env (heap, held) fun _ final =>
      final.2 = held ∧
        BlockStep env region (front ++ keeper :: gone :: back)
          (front ++ merged keeper gone :: back)
          (Dropped (front ++ keeper :: gone :: back) (front ++ merged keeper gone :: back)) heap
          final.1 := by
  have keeperMem : keeper ∈ front ++ keeper :: gone :: back := by simp
  have keeperHeader := rep.headers keeper keeperMem
  have keeperBounds := header_bounds placed tiles keeperMem
  have goneHeader := rep.headers gone (by simp)
  have links := rep.links
  rw [List.map_append, List.map_cons, List.map_cons] at links
  have prev : (heap.mallocHeader gone.addr).prev = keeper.addr :=
    (segment_append.mp links).2.2.2.1
  unfold freeBlocksPrev
  refine Yields.seq (yields_readMallocHeader goneHeader.accessible) ?_
  rintro _ _ ⟨rfl, rfl⟩
  rw [prev]
  refine Yields.when (fun _ => ?_) fun null => absurd null (not_not_intro (by omega))
  refine Yields.seq (yields_readMallocHeader keeperHeader.accessible) ?_
  rintro _ _ ⟨rfl, rfl⟩
  rw [keeperHeader.status, free]
  refine Yields.when (fun _ => ?_) fun used => absurd rfl used
  exact yields_absorbBlock placed mapped pageSize tiles rep

/-! ## `releaseBlock` -/

/-- The headers dropped by two changes of the list, one after the other. -/
theorem dropped_trans_iff {entries'' : List Entry} {page : Nat}
    (first : ∀ header, header ∈ addresses entries' → header ∈ addresses entries)
    (second : ∀ header, header ∈ addresses entries'' → header ∈ addresses entries') :
    Dropped entries entries' page ∨ Dropped entries' entries'' page ↔
      Dropped entries entries'' page := by
  unfold Dropped
  constructor
  · rintro (⟨member, gone⟩ | ⟨member, gone⟩)
    · exact ⟨member, fun kept => gone (second page kept)⟩
    · exact ⟨first page member, gone⟩
  · rintro ⟨member, gone⟩
    by_cases between : page ∈ addresses entries'
    · exact Or.inr ⟨between, gone⟩
    · exact Or.inl ⟨member, between⟩

/-- Absorbing makes no new headers. -/
theorem addresses_absorb {header : Nat}
    (member : header ∈ addresses (front ++ absorb 8192 keeper back)) :
    header ∈ addresses (front ++ keeper :: back) := by
  obtain ⟨x, xMem, rfl⟩ := List.mem_map.mp member
  rcases List.mem_append.mp xMem with inFront | inner
  · exact List.mem_map.mpr ⟨x, List.mem_append_left _ inFront, rfl⟩
  · obtain ⟨y, yMem, addrEq⟩ := exists_addr_eq_of_mem_absorb inner
    exact List.mem_map.mpr ⟨y, List.mem_append_right _ yMem, addrEq⟩

theorem addresses_freed (front back : List Entry) (entry : Entry) :
    addresses (front ++ entry.freed :: back) = addresses (front ++ entry :: back) := by
  simp [addresses]

/-- The first two statements of `releaseBlock`: the block is marked free and
its guard is lifted. -/
theorem yields_markFree {rest : Vgc Unit} {post : Unit → Heap × List Mutex → Prop}
    (placed : region.Placed pages.bytes) (mapped : region ∈ heap.mapped)
    (pageSize : heap.shared.pageSize = 4096)
    (tiles : Contiguous 8192 (region.base + 4096) (front ++ entry :: back)
      (region.base + region.length))
    (rep : BlockRep heap region.base 0 (front ++ entry :: back))
    (next : ∀ middle, BlockStep env region (front ++ entry :: back)
        (front ++ entry.freed :: back) (fun page => page = entry.addr) heap middle →
      Yields seen rest env (middle, held) post) :
    Yields seen (do
      writeMallocField entry.addr .status MallocStatus.free.toWord
      let _ ← vgcMunprotect entry.addr
      rest) env (heap, held) post := by
  have entryMem : entry ∈ front ++ entry :: back := by simp
  have header := rep.headers entry entryMem
  have bounds := header_bounds placed tiles entryMem
  have member : entry.addr ∈ addresses (front ++ entry :: back) :=
    List.mem_map.mpr ⟨entry, entryMem, rfl⟩
  refine Yields.seq (yields_writeMallocField _ _ header.accessible) ?_
  rintro _ _ rfl
  have self : (heap.setMallocField entry.addr .status MallocStatus.free.toWord).mallocHeader
      entry.addr = { heap.mallocHeader entry.addr with status := .free } := by
    rw [Heap.mallocHeader_setMallocField]
    simp [MallocHeader.set, MallocStatus.toWord, MallocStatus.ofWord]
  have stores : Lifts env region (fun header => header ∈ addresses (front ++ entry :: back))
      (fun _ => False) heap
      (heap.setMallocField entry.addr .status MallocStatus.free.toWord) :=
    Lifts.setMallocFields [(.status, MallocStatus.free.toWord)] member bounds.2.1
  have apart : ∀ x ∈ front ++ back,
      (heap.setMallocField entry.addr .status MallocStatus.free.toWord).mallocHeader x.addr =
        heap.mallocHeader x.addr := by
    intro x xMem
    have sides := apart_of_mem_sides tiles xMem
    exact Heap.mallocHeader_setMallocFields_apart [(.status, MallocStatus.free.toWord)]
      (by omega)
  generalize heap.setMallocField entry.addr .status MallocStatus.free.toWord = marked
    at self stores apart
  have markedRep : BlockRep marked region.base 0 (front ++ entry.freed :: back) := by
    refine rep.replace rfl apart (fun x open_ => stores.mallocAccessible open_) ?_ ?_ ?_
    · refine ⟨?_, ?_, ?_, ?_, ?_, stores.mallocAccessible header.accessible⟩
      all_goals simp only [Entry.freed_addr, self]
      · exact header.size
      · rfl
      · exact header.mmapBlock
      · exact header.checkStart
      · exact header.checkEnd
    · rw [Heap.nextBlock, self]
      rfl
    · rw [Heap.prevBlock, self]
      rfl
  have markedMapped : marked.isMapped entry.addr = true := by
    have member : region ∈ marked.mapped := stores.mapped.symm ▸ mapped
    exact isMapped_of_mem member (by omega) (by omega)
  refine Yields.seq (yields_vgcMunprotect (stores.pageSize pageSize)) ?_
  rintro _ ⟨middle, middleHeld⟩ ⟨step, rfl⟩
  have lifted : Lifts env region (fun header => header ∈ addresses (front ++ entry :: back))
      (fun page => page = entry.addr) marked middle := Lifts.guardStep step markedMapped
  refine next middle ⟨?_, ?_⟩
  · exact markedRep.congr (fun x _ => step.mallocHeader x.addr)
      fun x xMem => lifted.mallocAccessible (markedRep.headers x xMem).accessible
  · exact (stores.trans lifted).congr fun page => by simp

/-- `releaseBlock` releases the block in the represented list. -/
theorem yields_releaseBlock (placed : region.Placed pages.bytes)
    (mapped : region ∈ heap.mapped) (pageSize : heap.shared.pageSize = 4096)
    (tiles : Contiguous 8192 (region.base + 4096) (front ++ entry :: back)
      (region.base + region.length))
    (rep : BlockRep heap region.base 0 (front ++ entry :: back)) :
    Yields seen (releaseBlock entry.addr) env (heap, held) fun _ final =>
      final.2 = held ∧
        BlockStep env region (front ++ entry :: back)
          (release 8192 entry.addr (front ++ entry :: back))
          (fun page => page = entry.addr ∨ Dropped (front ++ entry :: back)
            (release 8192 entry.addr (front ++ entry :: back)) page) heap final.1 := by
  unfold releaseBlock
  refine yields_markFree placed mapped pageSize tiles rep ?_
  intro marked freed
  have freedTiles := tiles.freed
  have absorbedTiles := freedTiles.absorb
  have sameAddresses : ∀ header, header ∈ addresses (front ++ entry.freed :: back) →
      header ∈ addresses (front ++ entry :: back) := by
    intro header member
    rwa [addresses_freed] at member
  have droppedSame : ∀ after page, Dropped (front ++ entry.freed :: back) after page ↔
      Dropped (front ++ entry :: back) after page := by
    intro after page
    rw [Dropped, Dropped, addresses_freed]
  have markedMapped : region ∈ marked.mapped := freed.lifts.mapped.symm ▸ mapped
  have absorbs : Yields seen (freeBlocksNext entry.freed.addr) env (marked, held) _ :=
    yields_freeBlocksNext placed markedMapped (freed.lifts.pageSize pageSize) freedTiles
      freed.blocks
  refine Yields.seq absorbs ?_
  rintro _ ⟨middle, middleHeld⟩ ⟨rfl, absorbed⟩
  have soFar := freed.trans absorbed sameAddresses
  have middleMapped : region ∈ middle.mapped := soFar.lifts.mapped.symm ▸ mapped
  obtain ⟨size, rest, shape⟩ := exists_absorb_eq 8192 entry.freed back
  rcases release_cases (by decide) tiles with ⟨before, released⟩ |
    ⟨front', left, rfl, free, released⟩
  · rw [released]
    have blocks := soFar.blocks
    rw [shape] at blocks
    have keeps : Yields seen (freeBlocksPrev (⟨entry.addr, size, false⟩ : Entry).addr) env
        (middle, middleHeld) _ := yields_freeBlocksPrev_busy blocks before
    refine keeps.mono ?_
    rintro _ ⟨final, finalHeld⟩ ⟨rfl, rfl⟩
    refine ⟨rfl, soFar.blocks, soFar.lifts.congr fun page => ?_⟩
    rw [droppedSame]
  · rw [released]
    have joined : (front' ++ [left]) ++ absorb 8192 entry.freed back =
        front' ++ left :: (⟨entry.addr, size, false⟩ : Entry) :: rest := by
      rw [shape]
      simp
    have taken : front' ++ absorb 8192 left (absorb 8192 entry.freed back) =
        front' ++ merged left ⟨entry.addr, size, false⟩ :: rest := by
      rw [shape]
      rfl
    have blocks := soFar.blocks
    have joinedTiles := absorbedTiles
    rw [joined] at blocks joinedTiles
    have fewer : ∀ header,
        header ∈ addresses (front' ++ absorb 8192 left (absorb 8192 entry.freed back)) →
          header ∈ addresses ((front' ++ [left]) ++ absorb 8192 entry.freed back) := by
      intro header member
      have inner := addresses_absorb member
      simpa using inner
    have merge : Yields seen (freeBlocksPrev (⟨entry.addr, size, false⟩ : Entry).addr) env
        (middle, middleHeld) _ :=
      yields_freeBlocksPrev_free placed middleMapped (soFar.lifts.pageSize pageSize) joinedTiles
        blocks free
    refine merge.mono ?_
    rintro _ ⟨final, finalHeld⟩ ⟨rfl, last⟩
    rw [← joined, ← taken] at last
    have whole := soFar.trans last fun header member =>
      sameAddresses header (addresses_absorb member)
    refine ⟨rfl, whole.blocks, whole.lifts.congr fun page => ?_⟩
    rw [droppedSame, or_assoc, dropped_trans_iff (fun header member =>
      sameAddresses header (addresses_absorb member)) fewer]

/-! ## The release as a step of the region -/

/-- The MMAP counts one block in use less. -/
def Heap.countDown (heap : Heap) (mmapBlock : Nat) : Heap :=
  heap.setMmapFields mmapBlock [(.elements, sub64 (heap.mmapHeader mmapBlock).elements 1)]

theorem Heap.mmapHeader_countDown {mmapBlock : Nat}
    (positive : 1 ≤ (heap.mmapHeader mmapBlock).elements)
    (bound : (heap.mmapHeader mmapBlock).elements < 2 ^ 64) :
    (heap.countDown mmapBlock).mmapHeader mmapBlock =
      { heap.mmapHeader mmapBlock with
        elements := (heap.mmapHeader mmapBlock).elements - 1 } := by
  have small : (heap.mmapHeader mmapBlock).elements - 1 < 2 ^ 64 := by omega
  rw [Heap.countDown, Heap.mmapHeader_setMmapFields, sub64_of_le positive bound]
  simpa [MmapHeader.set] using small

/-- The headers and their accessibility do not depend on the count. -/
theorem BlockRep.countDown (placed : region.Placed pages.bytes)
    (tiles : Contiguous 8192 (region.base + 4096) entries (region.base + region.length))
    (rep : BlockRep heap region.base 0 entries) :
    BlockRep (heap.countDown region.base) region.base 0 entries := by
  refine rep.congr ?_ ?_
  · intro x member
    have bounds := header_bounds placed tiles member
    exact Heap.mallocHeader_setMmapFields _ (by omega)
  · intro x member
    have open_ := (rep.headers x member).accessible
    simpa [Heap.countDown] using open_

/-- A block counted down and released is a step of its region. -/
theorem BlockStep.regionStep (site : RegionSite pages heap region (front ++ entry :: back))
    (busy : entry.busy = true)
    (step : BlockStep env region (front ++ entry :: back)
      (release 8192 entry.addr (front ++ entry :: back))
      (fun page => page = entry.addr ∨ Dropped (front ++ entry :: back)
        (release 8192 entry.addr (front ++ entry :: back)) page)
      (heap.countDown region.base) after) :
    RegionStep env region (front ++ entry :: back)
      (release 8192 entry.addr (front ++ entry :: back)) (fun page => page = entry.addr) heap
      after := by
  have count := busyCount_release (by decide) site.tiles busy
  have bound := busyCount_bound site.placed site.tiles
  have elements := site.rep.mmap.elements
  have entryMem : entry.addr ∈ addresses (front ++ entry :: back) := by simp [addresses]
  have counted : (heap.countDown region.base).mmapHeader region.base =
      { heap.mmapHeader region.base with
        elements := busyCount (release 8192 entry.addr (front ++ entry :: back)) } := by
    rw [Heap.mmapHeader_countDown (by omega) (by omega), elements, ← count]
    rfl
  have header := step.lifts.mmapHeader.trans counted
  have kept : ∀ page, (heap.countDown region.base).protNone page = heap.protNone page := by
    simp [Heap.countDown]
  have known : ∀ page, page % 4096 = 0 → page ∉ addresses (front ++ entry :: back) →
      ¬(page = entry.addr ∨ Dropped (front ++ entry :: back)
        (release 8192 entry.addr (front ++ entry :: back)) page) := by
    rintro page _ outside (rfl | dropped)
    · exact outside entryMem
    · exact outside dropped.1
  constructor
  · refine ⟨⟨?_, ?_, ?_, ?_, ?_, ?_⟩, step.blocks⟩
    · rw [header]
      exact site.rep.mmap.size
    · rw [header]
      exact site.rep.mmap.maxSize
    · rw [header]
    · rw [header]
      exact site.rep.mmap.checkStart
    · rw [header]
      exact site.rep.mmap.checkEnd
    · refine step.lifts.mmapAccessible ?_
      simpa [Heap.countDown, Heap.mmapAccessible] using site.rep.mmap.accessible
  · exact (WritesOnly.setMmapFields _).trans (step.lifts.writes.mono fun _ => Or.inl)
  · rw [Heap.nextMmap, Heap.prevMmap, header]
    exact ⟨rfl, rfl⟩
  · intro page aligned outside _
    rw [step.lifts.untouched page aligned (known page aligned outside), kept]
  · intro works page aligned
    by_cases lifted : page = entry.addr ∨ Dropped (front ++ entry :: back)
        (release 8192 entry.addr (front ++ entry :: back)) page
    · rw [step.lifts.works works page aligned lifted]
      simp only [Bool.false_eq_true, false_iff, not_and, not_not]
      intro _
      exact lifted
    · rw [step.lifts.untouched page aligned lifted, kept]
      constructor
      · exact fun guarded => ⟨Or.inl guarded, lifted⟩
      · rintro ⟨guarded | ⟨inside, outside⟩, _⟩
        · exact guarded
        · obtain ⟨x, xMem, rfl⟩ := List.mem_map.mp inside
          obtain ⟨y, yMem, addrEq⟩ :=
            exists_addr_eq_of_mem_release (by decide) site.tiles xMem
          exact absurd (List.mem_map.mpr ⟨y, yMem, addrEq⟩) outside

end VgcMalloc
