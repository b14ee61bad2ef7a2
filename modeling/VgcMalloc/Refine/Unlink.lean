import VgcMalloc.Refine.Answers
import VgcMalloc.Refine.Create

/-!
# Unlinking an MMAP

The branch of `vgc_free` for an MMAP without blocks in use: its neighbours are
linked to each other, the head of the list is cleared when the MMAP came
first, and the mapping is removed when the kernel agrees.
-/

namespace VgcMalloc

open Program Tiling Linked

variable {env : Env} {heap after : Heap} {held : List Mutex} {pages : MmapPages}
  {guarded : Bool} {abstract : AbstractHeap} {region : Region}

/-! ## The stores -/

namespace Heap

variable {mmapBlock x : Nat}

/-- The stores of `vgc_free` that take an MMAP off the list. -/
def unlinkMmap (heap : Heap) (mmapBlock : Nat) : Heap :=
  (heap.relinkMmap (heap.nextMmap mmapBlock) .prev (heap.prevMmap mmapBlock)).relinkMmap
    (heap.prevMmap mmapBlock) .next (heap.nextMmap mmapBlock)

/-- Only links of the two neighbours change. -/
theorem mmapHeader_unlinkMmap {next prev : Nat} (nextEq : heap.nextMmap mmapBlock = next)
    (prevEq : heap.prevMmap mmapBlock = prev)
    (nextBound : next < 2 ^ 64) (prevBound : prev < 2 ^ 64)
    (nextSeparate : x + 105 ≤ next ∨ next + 105 ≤ x ∨ x = next)
    (prevSeparate : x + 105 ≤ prev ∨ prev + 105 ≤ x ∨ x = prev) :
    (heap.unlinkMmap mmapBlock).mmapHeader x =
      { heap.mmapHeader x with
        prev := if x = next ∧ next ≠ 0 then prev else heap.prevMmap x
        next := if x = prev ∧ prev ≠ 0 then next else heap.nextMmap x } := by
  rw [unlinkMmap, nextEq, prevEq, mmapHeader_relinkMmap prevSeparate,
    mmapHeader_relinkMmap nextSeparate]
  by_cases isPrev : x = prev ∧ prev ≠ 0
  · by_cases isNext : x = next ∧ next ≠ 0
    · simp only [if_pos isPrev, if_pos isNext, MmapHeader.set, word_mod nextBound,
        word_mod prevBound]
    · simp only [if_pos isPrev, if_neg isNext, MmapHeader.set, word_mod nextBound]
      rfl
  · by_cases isNext : x = next ∧ next ≠ 0
    · simp only [if_neg isPrev, if_pos isNext, MmapHeader.set, word_mod prevBound]
      rfl
    · simp only [if_neg isPrev, if_neg isNext]
      rfl

end Heap

/-! ## The list without the MMAP -/

/-- A neighbour in the list of MMAPs is null or another region. -/
def IsHome (abstract : AbstractHeap) (target : Nat) : Prop :=
  target = 0 ∨ ∃ region ∈ abstract.regions, region.base = target

theorem Stands.isHome_headD (stands : Stands pages guarded heap abstract) {bases : List Nat}
    (listed : ∀ base ∈ bases, base ∈ abstract.listed) : IsHome abstract (bases.headD 0) := by
  cases bases with
  | nil => exact Or.inl rfl
  | cons base rest => exact Or.inr (stands.listed (listed base List.mem_cons_self))

theorem Stands.isHome_getLastD (stands : Stands pages guarded heap abstract) {bases : List Nat}
    (listed : ∀ base ∈ bases, base ∈ abstract.listed) : IsHome abstract (bases.getLastD 0) := by
  rcases List.eq_nil_or_concat bases with rfl | ⟨rest, base, rfl⟩
  · exact Or.inl rfl
  · simp only [List.concat_eq_append] at listed ⊢
    have last : (rest ++ [base]).getLastD 0 = base := by simp
    rw [last]
    exact Or.inr (stands.listed (listed base (by simp)))

theorem IsHome.bound {target : Nat} (stands : Stands pages guarded heap abstract)
    (home : IsHome abstract target) : target < 2 ^ 64 := by
  rcases home with rfl | ⟨region, member, rfl⟩
  · omega
  · have user := (stands.wellFormed.placed region member).user
    omega

/-- Headers of neighbours are headers of regions. -/
theorem IsHome.outside {target x : Nat} (home : IsHome abstract target)
    (outside : ∀ other ∈ abstract.regions, x < other.base ∨ other.base + 105 ≤ x) :
    target = 0 ∨ x < target ∨ target + 105 ≤ x := by
  rcases home with null | ⟨other, otherMem, rfl⟩
  · exact Or.inl null
  · exact Or.inr (outside other otherMem)

/-- The header of a neighbour is separate from the headers of every region. -/
theorem IsHome.separate {target : Nat} (stands : Stands pages guarded heap abstract)
    (home : IsHome abstract target) (member : region ∈ abstract.regions) :
    region.base + 105 ≤ target ∨ target + 105 ≤ region.base ∨ region.base = target := by
  have placed := stands.wellFormed.placed region member
  have aligned := placed.aligned
  have positive := placed.positive
  have room := placed.room
  rcases home with rfl | ⟨other, otherMem, rfl⟩
  · omega
  · by_cases same : region = other
    · exact Or.inr (Or.inr (congrArg Region.base same))
    · have apart := stands.wellFormed.disjoint_of_ne member otherMem same
      have otherRoom := (stands.wellFormed.placed other otherMem).room
      unfold Region.Disjoint at apart
      omega

theorem IsHome.apart {target : Nat} {x : Entry} (stands : Stands pages guarded heap abstract)
    (home : IsHome abstract target) (member : region ∈ abstract.regions)
    (xMem : x ∈ abstract.entries region.base) :
    target = 0 ∨ target + 105 ≤ x.addr + 4096 ∨ x.addr + 4240 ≤ target := by
  have bounds := (stands.wellFormed.tiles region member).bounds xMem
  rcases home with rfl | ⟨other, otherMem, rfl⟩
  · exact Or.inl rfl
  · by_cases same : region = other
    · subst same
      omega
    · have apart := stands.wellFormed.disjoint_of_ne member otherMem same
      have otherRoom := (stands.wellFormed.placed other otherMem).room
      unfold Region.Disjoint at apart
      omega

/-- The list closes behind the MMAP `left` when its neighbour `base` is taken
off. -/
theorem segment_unlink {base left : Nat} {front back : List Nat}
    (stands : Stands pages guarded heap abstract)
    (split : abstract.listed = front ++ left :: base :: back)
    (links : Segment heap.nextMmap heap.prevMmap 0 (front ++ left :: base :: back) 0)
    (header : ∀ region ∈ abstract.regions, after.mmapHeader region.base =
      { heap.mmapHeader region.base with
        prev := if region.base = back.headD 0 ∧ back.headD 0 ≠ 0 then left
          else heap.prevMmap region.base
        next := if region.base = left ∧ left ≠ 0 then back.headD 0
          else heap.nextMmap region.base }) :
    Segment after.nextMmap after.prevMmap 0 (front ++ left :: back) 0 := by
  have nodup := stands.wellFormed.nodup
  rw [split] at nodup
  have listed : ∀ other ∈ front ++ left :: base :: back,
      other ≠ 0 ∧
        after.nextMmap other = (if other = left then back.headD 0 else heap.nextMmap other) ∧
        after.prevMmap other = (if other = back.headD 0 then left else heap.prevMmap other) := by
    intro other member
    obtain ⟨region, regionMem, rfl⟩ := stands.listed (split ▸ member)
    have positive := (stands.wellFormed.placed region regionMem).positive
    have nonzero : region.base ≠ 0 := by omega
    rw [Heap.nextMmap, Heap.prevMmap, header region regionMem]
    dsimp only
    refine ⟨nonzero, ?_, ?_⟩
    · by_cases same : region.base = left
      · rw [if_pos ⟨same, same ▸ nonzero⟩, if_pos same]
      · rw [if_neg fun both => same both.1, if_neg same]
    · by_cases same : region.base = back.headD 0
      · rw [if_pos ⟨same, same ▸ nonzero⟩, if_pos same]
      · rw [if_neg fun both => same both.1, if_neg same]
  have nextBase : heap.nextMmap base = back.headD 0 :=
    (segment_append.mp links).2.2.2.2.1
  have parts := List.nodup_append.mp nodup
  have tail := List.nodup_cons.mp parts.2.1
  have backNodup := List.nodup_cons.mp tail.2
  refine links.removeAfter ?_ ?_ ?_ ?_
  · rw [(listed left (by simp)).2.1, if_pos rfl, nextBase]
  · intro x isHead
    have headEq : back.headD 0 = x := by
      rw [List.headD_eq_head?_getD, Option.mem_def.mp isHead]
      rfl
    rw [(listed x (by simp [List.mem_of_mem_head? isHead])).2.2, headEq, if_pos rfl]
  · intro x member
    rcases List.mem_append.mp member with inFront | inBack
    · have ne : x ≠ left := parts.2.2 x inFront left List.mem_cons_self
      rw [(listed x (by simp [inFront])).2.1, if_neg ne]
    · have ne : x ≠ left := fun same => tail.1 (by simp [← same, inBack])
      rw [(listed x (by simp [inBack])).2.1, if_neg ne]
  · intro x member
    have ne : x ≠ back.headD 0 := by
      cases back with
      | nil =>
          have nonzero := (listed x (by
            rcases List.mem_append.mp member with inFront | inRest
            · simp [inFront]
            · simp only [List.tail_nil, List.mem_singleton] at inRest
              simp [inRest])).1
          exact nonzero
      | cons head rest =>
          rw [List.headD_cons]
          rintro rfl
          rcases List.mem_append.mp member with inFront | inRest
          · exact parts.2.2 x inFront x (by simp) rfl
          · rcases List.mem_cons.mp inRest with rfl | inTail
            · exact tail.1 (by simp)
            · exact (List.nodup_cons.mp backNodup.2).1 inTail
    have whole : x ∈ front ++ left :: base :: back := by
      rcases List.mem_append.mp member with inFront | inRest
      · simp [inFront]
      · rcases List.mem_cons.mp inRest with rfl | inTail
        · simp
        · simp [List.mem_of_mem_tail inTail]
    rw [(listed x whole).2.2, if_neg ne]

/-- Taking a listed MMAP off the list. -/
theorem Stands.unlink {base : Nat} (stands : Stands pages guarded heap abstract)
    (member : base ∈ abstract.listed) :
    Stands pages guarded (heap.unlinkMmap base) (abstract.unlink base) := by
  obtain ⟨front, back, split⟩ := List.append_of_mem member
  have nodup := stands.wellFormed.nodup
  have links := stands.links
  rw [split] at links
  have prevEq : heap.prevMmap base = front.getLastD 0 := links.links.1
  have nextEq : heap.nextMmap base = back.headD 0 := links.links.2
  have prevHome : IsHome abstract (front.getLastD 0) :=
    stands.isHome_getLastD fun other inFront => by simp [split, inFront]
  have nextHome : IsHome abstract (back.headD 0) :=
    stands.isHome_headD fun other inBack => by simp [split, inBack]
  have header : ∀ region ∈ abstract.regions,
      (heap.unlinkMmap base).mmapHeader region.base =
        { heap.mmapHeader region.base with
          prev := if region.base = back.headD 0 ∧ back.headD 0 ≠ 0 then front.getLastD 0
            else heap.prevMmap region.base
          next := if region.base = front.getLastD 0 ∧ front.getLastD 0 ≠ 0 then back.headD 0
            else heap.nextMmap region.base } := fun region regionMem =>
    Heap.mmapHeader_unlinkMmap nextEq prevEq (nextHome.bound stands) (prevHome.bound stands)
      (nextHome.separate stands regionMem) (prevHome.separate stands regionMem)
  refine ⟨stands.wellFormed.unlink base, ?_, ?_, ?_, ?_, ?_, ?_⟩
  · have same : (abstract.unlink base).regions = abstract.regions := rfl
    rw [same, ← stands.mapped]
    simp [Heap.unlinkMmap]
  · intro region regionMem
    have rep := stands.regions region regionMem
    refine rep.relink (header region regionMem) ?_ ?_ ?_
    · intro x xMem
      rw [Heap.unlinkMmap, nextEq, prevEq,
        Heap.mallocHeader_relinkMmap (prevHome.apart stands regionMem xMem),
        Heap.mallocHeader_relinkMmap (nextHome.apart stands regionMem xMem)]
    · simpa [Heap.unlinkMmap, Heap.mmapAccessible] using rep.mmap.accessible
    · intro x xMem
      have open_ := (rep.blocks.headers x xMem).accessible
      simpa [Heap.unlinkMmap] using open_
  · rw [AbstractHeap.unlink_listed_of_split nodup split]
    rcases List.eq_nil_or_concat front with rfl | ⟨front', left, rfl⟩
    · exact segment_nil
    · simp only [List.concat_eq_append] at *
      have last : (front' ++ [left]).getLastD 0 = left := by simp
      rw [last] at header prevEq
      rw [if_neg (by simp), List.append_assoc, List.singleton_append]
      rw [List.append_assoc, List.singleton_append] at split links
      exact segment_unlink stands split links header
  · simpa [Heap.unlinkMmap] using stands.pageSize
  · simpa [Heap.unlinkMmap] using stands.blockSize
  · simpa [Heap.unlinkMmap] using stands.mode

/-! ## The mapping -/

/-- The kernel removes exactly the region. -/
theorem Stands.removeRegion_mapped (stands : Stands pages guarded heap abstract)
    (member : region ∈ abstract.regions) :
    (heap.removeRegion region.base region.length).mapped =
      (abstract.unmap region.base).regions := by
  have placed := stands.wellFormed.placed region member
  rw [Heap.removeRegion, AbstractHeap.unmap, stands.mapped]
  refine List.filter_congr ?_
  intro other otherMem
  have room := placed.room
  have otherRoom := (stands.wellFormed.placed other otherMem).room
  rw [pageRound_of_whole placed.whole]
  by_cases same : other = region
  · simp [same]
  · have apart := stands.wellFormed.disjoint_of_ne otherMem member same
    unfold Region.Disjoint at apart
    have ne : other.base ≠ region.base := by omega
    have outside : ¬(region.base ≤ other.base ∧
        other.base + other.length ≤ region.base + region.length) := by omega
    simp [ne, outside]

theorem Heap.removeRegion_protNone {base length page : Nat} (whole : length % 4096 = 0)
    (outside : page < base ∨ base + length ≤ page) :
    (heap.removeRegion base length).protNone page = heap.protNone page := by
  have missed : ¬(base ≤ page ∧ page < base + length) := by omega
  simp only [Heap.removeRegion, pageRound_of_whole whole, if_neg missed]

/-- Removing the mapping of an MMAP that is not listed. -/
theorem Stands.unmap (stands : Stands pages guarded heap abstract)
    (member : region ∈ abstract.regions) (unlisted : region.base ∉ abstract.listed) :
    Stands pages guarded (heap.removeRegion region.base region.length)
      (abstract.unmap region.base) := by
  have mapped := stands.removeRegion_mapped member
  have placed := stands.wellFormed.placed region member
  refine ⟨stands.wellFormed.unmap unlisted, mapped, ?_, stands.links, stands.pageSize,
    stands.blockSize, stands.mode⟩
  intro other otherMem
  have old := (List.mem_filter.mp otherMem).1
  have ne : other ≠ region := by
    rintro rfl
    simp [AbstractHeap.unmap] at otherMem
  have apart := stands.wellFormed.disjoint_of_ne old member ne
  have otherPlaced := stands.wellFormed.placed other old
  unfold Region.Disjoint at apart
  refine (stands.regions other old).congr (stands.wellFormed.tiles other old) otherPlaced.room
    (fun _ _ _ => rfl) ?_
  intro x low high open_
  have page := pageBase_mem otherPlaced low high
  rw [Heap.isAccessible, Bool.and_eq_true] at open_ ⊢
  refine ⟨isMapped_of_mem (mapped ▸ otherMem) low high, ?_⟩
  rw [Heap.removeRegion_protNone placed.whole (by omega)]
  exact open_.2

/-! ## The neighbours in the list -/

/-- The neighbours of a listed MMAP are other MMAPs, or null. -/
structure Neighbours (heap : Heap) (abstract : AbstractHeap) (base : Nat) : Prop where
  nextHome : IsHome abstract (heap.nextMmap base)
  prevHome : IsHome abstract (heap.prevMmap base)
  nextNe : heap.nextMmap base ≠ base
  prevNe : heap.prevMmap base ≠ base

/-- The MMAPs on both sides of a listed one are listed. -/
theorem Stands.neighbours_listed {base : Nat} (stands : Stands pages guarded heap abstract)
    (listed : base ∈ abstract.listed) :
    (heap.nextMmap base ≠ 0 → heap.nextMmap base ∈ abstract.listed) ∧
      (heap.prevMmap base ≠ 0 → heap.prevMmap base ∈ abstract.listed) := by
  obtain ⟨front, back, split⟩ := List.append_of_mem listed
  have links := stands.links
  rw [split] at links
  have prevEq : heap.prevMmap base = front.getLastD 0 := links.links.1
  have nextEq : heap.nextMmap base = back.headD 0 := links.links.2
  rw [prevEq, nextEq]
  constructor
  · intro present
    cases back with
    | nil => exact absurd rfl present
    | cons next back => simp [split]
  · intro present
    rcases List.eq_nil_or_concat front with rfl | ⟨front', prev, rfl⟩
    · exact absurd rfl present
    · simp [split]

theorem Stands.neighbours {base : Nat} (stands : Stands pages guarded heap abstract)
    (listed : base ∈ abstract.listed) : Neighbours heap abstract base := by
  obtain ⟨region, member, rfl⟩ := stands.listed listed
  have positive := (stands.wellFormed.placed region member).positive
  obtain ⟨front, back, split⟩ := List.append_of_mem listed
  have nodup := stands.wellFormed.nodup
  have links := stands.links
  rw [split] at nodup links
  have parts := List.nodup_append.mp nodup
  have prevEq : heap.prevMmap region.base = front.getLastD 0 := links.links.1
  have nextEq : heap.nextMmap region.base = back.headD 0 := links.links.2
  refine ⟨?_, ?_, ?_, ?_⟩
  · rw [nextEq]
    exact stands.isHome_headD fun other inBack => by simp [split, inBack]
  · rw [prevEq]
    exact stands.isHome_getLastD fun other inFront => by simp [split, inFront]
  · rw [nextEq]
    cases back with
    | nil =>
        rw [List.headD_nil]
        omega
    | cons other rest =>
        rintro rfl
        exact (List.nodup_cons.mp parts.2.1).1 List.mem_cons_self
  · rw [prevEq]
    rcases List.eq_nil_or_concat front with rfl | ⟨front', left, rfl⟩
    · rw [List.getLastD_nil]
      omega
    · intro same
      have last : (front'.concat left).getLastD 0 = left := by simp
      rw [last] at same
      exact parts.2.2 left (by simp) region.base List.mem_cons_self same

/-- The neighbours of a listed MMAP differ. -/
theorem Stands.neighbours_ne {base : Nat} (stands : Stands pages guarded heap abstract)
    (listed : base ∈ abstract.listed) (present : heap.prevMmap base ≠ 0) :
    heap.prevMmap base ≠ heap.nextMmap base := by
  obtain ⟨front, back, split⟩ := List.append_of_mem listed
  have nodup := stands.wellFormed.nodup
  have links := stands.links
  rw [split] at nodup links
  have prevEq : heap.prevMmap base = front.getLastD 0 := links.links.1
  have nextEq : heap.nextMmap base = back.headD 0 := links.links.2
  rw [prevEq] at present ⊢
  rw [nextEq]
  rcases List.eq_nil_or_concat front with rfl | ⟨front', left, rfl⟩
  · exact absurd rfl present
  · have last : (front'.concat left).getLastD 0 = left := by simp
    rw [last] at present ⊢
    cases back with
    | nil => exact present
    | cons next rest => exact (List.nodup_append.mp nodup).2.2 left (by simp) next (by simp)

/-- The header of a neighbour can be accessed. -/
theorem IsHome.accessible {target : Nat} (stands : Stands pages guarded heap abstract)
    (home : IsHome abstract target) (present : target ≠ 0) :
    heap.mmapAccessible target = true := by
  rcases home with null | ⟨other, otherMem, rfl⟩
  · exact absurd null present
  · exact (stands.regions other otherMem).mmap.accessible

/-! ## The branch of `vgc_free` -/

/-- The statements that `unlinkFromNext` and `unlinkFromPrev` share: lock a
neighbour and store one of its links. -/
def relinkNeighbour (mmapBlock target : Nat) (field : MmapField) (value : Nat)
    (locked unlocked : String) : Vgc Bool := do
  if target = 0 then
    return true
  if !(← pthreadMutexLock (.mmapBlock target)) then
    unlockMmapBlock mmapBlock
    unlockShared
    vgcMessage errorLevel "vgc_free" "PTHREAD_mutexLock" "Error" locked []
    return false
  writeMmapField target field value
  orReport (pthreadMutexUnlock (.mmapBlock target)) "vgc_free" "PTHREAD_mutexUnlock" unlocked
  return true

theorem unlinkFromNext_eq (mmapBlock : Nat) :
    unlinkFromNext mmapBlock = readMmapHeader mmapBlock >>= fun header =>
      relinkNeighbour mmapBlock header.next .prev header.prev
        "can't get lock on mmapBlock->next" "can't unlock mmapBlock->next mutex" :=
  rfl

theorem unlinkFromPrev_eq (mmapBlock : Nat) :
    unlinkFromPrev mmapBlock = readMmapHeader mmapBlock >>= fun header =>
      relinkNeighbour mmapBlock header.prev .next header.next
        "can't get lock on mmapBlock->prev" "can't unlock mmapBlock->prev mutex" :=
  rfl

/-- The neighbour is missing, or its mutex can be locked. -/
def Env.Reaches (env : Env) (held : List Mutex) (call target : Nat) : Prop :=
  target = 0 ∨ env.Locks held call (.mmapBlock target)

/-- The calls that it takes to change a neighbour. -/
def relinkCalls (target : Nat) : Nat := if target = 0 then 0 else 2

/-- What a change of a neighbour leaves when it succeeds. -/
structure Relinked (env : Env) (heap : Heap) (held : List Mutex) (calls target : Nat)
    (field : MmapField) (value : Nat) (after : (Heap × List Mutex) × Nat) : Prop where
  reached : env.Reaches held calls target
  heap : after.1.1 = heap.relinkMmap target field value
  calls : after.2 = calls + relinkCalls target
  others : ∀ mutex, mutex ≠ .mmapBlock target → (mutex ∈ after.1.2 ↔ mutex ∈ held)
  held : (∀ call, env.mutexUnlock call = true) → after.1.2 = held

/-- What it leaves when the neighbour cannot be locked. -/
structure Unreached (env : Env) (heap : Heap) (held rest : List Mutex) (calls target : Nat)
    (after : (Heap × List Mutex) × Nat) : Prop where
  present : target ≠ 0
  refused : ¬env.Locks held calls (.mmapBlock target)
  heap : after.1.1 = heap
  held : (∀ call, env.mutexUnlock call = true) → after.1.2 = rest

theorem counted_relinkNeighbour {base target value : Nat} {field : MmapField}
    {locked unlocked : String} (accessible : heap.mmapAccessible base = true)
    (opens : target ≠ 0 → heap.mmapAccessible target = true) :
    Yields counted (relinkNeighbour base target field value locked unlocked) env
      ((heap, held), calls) fun done after =>
        (done = true → Relinked env heap held calls target field value after) ∧
        (done = false → Unreached env heap held ((held.erase (.mmapBlock base)).erase .shared) calls
          target after) := by
  unfold relinkNeighbour
  apply Yields.ite
  · intro null
    apply Yields.pure
    constructor
    · intro _
      refine ⟨Or.inl null, ?_, ?_, fun _ _ => Iff.rfl, fun _ => rfl⟩
      · rw [Heap.relinkMmap, if_pos null]
      · rw [relinkCalls, if_pos null]
        rfl
    · intro impossible
      cases impossible
  · intro present
    have targetOpen : mutexAccessible heap (.mmapBlock target) = true := opens present
    have baseOpen : mutexAccessible heap (.mmapBlock base) = true := accessible
    apply Yields.seq (counted_pthreadMutexLock targetOpen)
    rintro _ _ ⟨rfl, rfl⟩
    apply Yields.ite
    · intro fails
      have refused : ¬env.Locks held calls (.mmapBlock target) := by
        simpa using fails
      rw [if_neg refused]
      apply Yields.seq (counted_unlock baseOpen)
      rintro _ ⟨⟨_, ownHeld⟩, _⟩ ⟨rfl, rfl, _, own⟩
      apply Yields.seq (counted_unlock rfl)
      rintro _ ⟨⟨_, sharedHeld⟩, _⟩ ⟨rfl, rfl, _, shared⟩
      apply counted_vgcMessage_seq
      apply Yields.pure
      constructor
      · intro impossible
        cases impossible
      · intro _
        refine ⟨present, refused, rfl, ?_⟩
        intro unlocks
        exact (shared unlocks).trans (congrArg (List.erase · .shared) (own unlocks))
    · intro locks
      have reached : env.Locks held calls (.mmapBlock target) := by
        simpa using locks
      rw [if_pos reached]
      apply Yields.seq ((yields_writeMmapField field value (opens present)).quietly
        silent_writeMmapField (calls + 1))
      rintro _ ⟨_, _⟩ ⟨rfl, rfl⟩
      have storedOpen : mutexAccessible (heap.setMmapField target field value)
          (.mmapBlock target) = true := targetOpen
      apply Yields.seq (counted_unlock storedOpen)
      rintro _ ⟨⟨_, last⟩, _⟩ ⟨rfl, rfl, others, all⟩
      apply Yields.pure
      constructor
      · intro _
        refine ⟨Or.inr reached, ?_, ?_, ?_, ?_⟩
        · rw [Heap.relinkMmap, if_neg present]
          rfl
        · rw [relinkCalls, if_neg present]
        · intro mutex ne
          rw [others mutex ne, List.mem_cons]
          exact or_iff_right ne
        · intro unlocks
          rw [all unlocks, List.erase_cons_head]
      · intro impossible
        cases impossible

/-- The shared record after `freeMMAP`. -/
def Heap.uncount (heap : Heap) (mmapBlock : Nat) : Heap :=
  { heap with shared := { heap.shared with
      mmapBlockCount := heap.shared.mmapBlockCount - 1
      mmapBlockFirst :=
        if mmapBlock = heap.shared.mmapBlockFirst then 0 else heap.shared.mmapBlockFirst } }

theorem Heap.uncount_shared (heap : Heap) (mmapBlock : Nat) :
    (heap.uncount mmapBlock).shared = { heap.shared with
      mmapBlockCount := heap.shared.mmapBlockCount - 1
      mmapBlockFirst :=
        if mmapBlock = heap.shared.mmapBlockFirst then 0 else heap.shared.mmapBlockFirst } :=
  rfl

@[simp]
theorem Heap.uncount_protNone (heap : Heap) (mmapBlock : Nat) :
    (heap.uncount mmapBlock).protNone = heap.protNone :=
  rfl

@[simp]
theorem Heap.removeRegion_shared (heap : Heap) (base length : Nat) :
    (heap.removeRegion base length).shared = heap.shared :=
  rfl

/-- Removing a mapping protects no page. -/
theorem Heap.protNone_of_removeRegion {base length page : Nat}
    (guardedPage : (heap.removeRegion base length).protNone page = true) :
    heap.protNone page = true := by
  simp only [Heap.removeRegion] at guardedPage
  split at guardedPage
  · exact absurd guardedPage (by decide)
  · exact guardedPage

/-- `freeMMAP` removes the mapping, or reports that it cannot. -/
theorem counted_freeMMAP (accessible : heap.mmapAccessible region.base = true)
    (size : (heap.mmapHeader region.base).size = region.length) :
    Yields counted (freeMMAP region.base) env ((heap, held), calls) fun _ after =>
      after = (((heap.uncount region.base).unmapped env calls region.base region.length, held),
        calls + 1) := by
  unfold freeMMAP
  apply Yields.seq ((yields_readMmapHeader accessible).silently
    (keeps_readMmapHeader region.base) calls)
  rintro _ _ ⟨rfl, rfl⟩
  apply counted_vgcMessage_seq
  apply Yields.seq ((yields_modifyShared _).quietly silent_modifyShared calls)
  rintro _ ⟨_, _⟩ ⟨rfl, rfl⟩
  have sizeNow : ((heap.uncount region.base).mmapHeader region.base).size = region.length := size
  rw [← sizeNow]
  exact counted_unmapOrReport accessible

/-- An MMAP taken off the list; it is unmapped too when `munmap` succeeds. -/
structure Vanished (env : Env) (pages : MmapPages) (guarded : Bool)
    (abstract abstract' : AbstractHeap) (region : Region) (heap after : Heap) : Prop where
  represents : Represents pages guarded after abstract'
  either : abstract' = (abstract.unlink region.base).unmap region.base ∨
    abstract' = abstract.unlink region.base
  unmapped : (∀ call, env.munmap call = true) →
    abstract' = (abstract.unlink region.base).unmap region.base
  count : after.shared.mmapBlockCount = heap.shared.mmapBlockCount - 1
  untouched : ∀ page, (page < region.base ∨ region.base + region.length ≤ page) →
    after.protNone page = heap.protNone page
  lifted : ∀ page, after.protNone page = true → heap.protNone page = true
  memory : ∀ x, (∀ other ∈ abstract.regions, x < other.base ∨ other.base + 105 ≤ x) →
    after.memory x = heap.memory x

theorem Stands.uncount (stands : Stands pages guarded heap abstract) (mmapBlock : Nat) :
    Stands pages guarded (heap.uncount mmapBlock) abstract :=
  ⟨stands.wellFormed, stands.mapped, fun region member =>
    (stands.regions region member).of_headers rfl (fun _ _ => rfl) fun _ accessible => accessible,
    stands.links, stands.pageSize, stands.blockSize, stands.mode⟩

/-- The head of the list after an unlink. -/
theorem unlink_headD (wf : abstract.WellFormed pages.bytes guarded) {base : Nat}
    (member : base ∈ abstract.listed) :
    (abstract.unlink base).listed.headD 0 =
      if base = abstract.listed.headD 0 then 0 else abstract.listed.headD 0 := by
  obtain ⟨front, back, split⟩ := List.append_of_mem member
  have nodup := wf.nodup
  rw [AbstractHeap.unlink_listed_of_split nodup split, split]
  rw [split] at nodup
  cases front with
  | nil => simp
  | cons first rest =>
      have ne : base ≠ first := fun same =>
        (List.nodup_cons.mp nodup).1 (by simp [← same])
      simp [ne]

/-- The MMAP at `base` is taken off the list and unmapped if the kernel
agrees. -/
def AbstractHeap.vanish (abstract : AbstractHeap) (unmaps : Bool) (base : Nat) : AbstractHeap :=
  if unmaps then (abstract.unlink base).unmap base else abstract.unlink base

/-- Taking an MMAP off the list in memory takes it off the represented list. -/
theorem Represents.vanished (rep : Represents pages guarded heap abstract)
    (member : region ∈ abstract.regions) (listed : region.base ∈ abstract.listed) (call : Nat) :
    Vanished env pages guarded abstract (abstract.vanish (env.munmap call) region.base) region heap
      (((heap.unlinkMmap region.base).uncount region.base).unmapped env call region.base
        region.length) := by
  have placed := rep.wellFormed.placed region member
  have room := placed.room
  have stands := (rep.toStands.unlink listed).uncount region.base
  have sharedSame : (heap.unlinkMmap region.base).shared = heap.shared := by
    simp [Heap.unlinkMmap]
  have protSame : (heap.unlinkMmap region.base).protNone = heap.protNone := by
    simp [Heap.unlinkMmap]
  have bytesSame : ∀ x, (∀ other ∈ abstract.regions, x < other.base ∨ other.base + 105 ≤ x) →
      (heap.unlinkMmap region.base).memory x = heap.memory x := by
    intro x outside
    have near := rep.toStands.neighbours listed
    rw [Heap.unlinkMmap, Heap.memory_relinkMmap (near.prevHome.outside outside),
      Heap.memory_relinkMmap (near.nextHome.outside outside)]
  generalize heap.unlinkMmap region.base = unlinked at stands sharedSame protSame bytesSame
  have first : (unlinked.uncount region.base).shared.mmapBlockFirst =
      (abstract.unlink region.base).listed.headD 0 := by
    rw [unlink_headD rep.wellFormed listed, Heap.uncount_shared, sharedSame, ← rep.first]
  have count : (unlinked.uncount region.base).shared.mmapBlockCount =
      heap.shared.mmapBlockCount - 1 := by
    rw [Heap.uncount_shared, sharedSame]
  have protKept : (unlinked.uncount region.base).protNone = heap.protNone := protSame
  have bytesKept : ∀ x, (∀ other ∈ abstract.regions, x < other.base ∨ other.base + 105 ≤ x) →
      (unlinked.uncount region.base).memory x = heap.memory x := bytesSame
  generalize unlinked.uncount region.base = uncounted at stands first count protKept bytesKept
  cases works : env.munmap call with
  | true =>
      have unlisted : region.base ∉ (abstract.unlink region.base).listed := fun again =>
        (AbstractHeap.mem_listed_unlink rep.wellFormed.nodup again).2 rfl
      have able : env.munmap call = true ∧ region.length ≠ 0 ∧ region.base % systemPageSize = 0 :=
        ⟨works, by omega, placed.aligned⟩
      rw [Heap.unmapped, if_pos able]
      refine ⟨⟨stands.unmap member unlisted, first⟩, Or.inl rfl, fun _ => rfl, count, ?_, ?_,
        bytesKept⟩
      · intro page outside
        rw [Heap.removeRegion_protNone placed.whole outside, protKept]
      · intro page guardedPage
        rw [← protKept]
        exact Heap.protNone_of_removeRegion guardedPage
  | false =>
      rw [Heap.unmapped, if_neg (by simp [works])]
      refine ⟨⟨stands, first⟩, Or.inr rfl, ?_, count, ?_, ?_, bytesKept⟩
      · intro all
        exact absurd (works.symm.trans (all call)) (by decide)
      · intro page _
        rw [protKept]
      · intro page guardedPage
        rwa [protKept] at guardedPage

/-- The ends of the branch of `vgc_free` for an MMAP without blocks in use. -/
inductive UnlinkEnd (env : Env) (heap : Heap) (held : List Mutex) (calls : Nat) (region : Region) :
    Heap → Prop where
  | stuckNext (present : heap.nextMmap region.base ≠ 0)
      (refused : ¬env.Locks held calls (.mmapBlock (heap.nextMmap region.base))) :
      UnlinkEnd env heap held calls region heap
  | stuckPrev (next : env.Reaches held calls (heap.nextMmap region.base))
      (present : heap.prevMmap region.base ≠ 0)
      (refused : ¬env.Locks held (calls + relinkCalls (heap.nextMmap region.base))
        (.mmapBlock (heap.prevMmap region.base))) :
      UnlinkEnd env heap held calls region
        (heap.relinkMmap (heap.nextMmap region.base) .prev (heap.prevMmap region.base))
  | unlinked (next : env.Reaches held calls (heap.nextMmap region.base))
      (prev : env.Reaches held (calls + relinkCalls (heap.nextMmap region.base))
        (heap.prevMmap region.base)) :
      UnlinkEnd env heap held calls region
        (((heap.unlinkMmap region.base).uncount region.base).unmapped env
          (calls + relinkCalls (heap.nextMmap region.base) +
            relinkCalls (heap.prevMmap region.base) + 3) region.base region.length)

/-- The end of the branch, once the MMAP is off the list. -/
theorem counted_leaveMMAP (accessible : heap.mmapAccessible region.base = true)
    (size : (heap.mmapHeader region.base).size = region.length) :
    Yields counted (do
        unlockMmapBlock region.base
        orReport pthreadMutexDestroy "vgc_free" "PTHREAD_mutexDestroy"
          "can't destroy mmapBlock mutex"
        orReport pthreadMutexattrDestroy "vgc_free" "PTHREAD_mutexattrDestroy"
          "can't destroy attr mmapBlock mutex"
        freeMMAP region.base
        unlockShared) env ((heap, held), calls) fun _ after =>
      after.1.1 = (heap.uncount region.base).unmapped env (calls + 3) region.base region.length ∧
        ((∀ call, env.mutexUnlock call = true) →
          after.1.2 = (held.erase (.mmapBlock region.base)).erase .shared) := by
  have ownOpen : mutexAccessible heap (.mmapBlock region.base) = true := accessible
  apply Yields.seq (counted_unlock ownOpen)
  rintro _ ⟨⟨_, shared⟩, _⟩ ⟨rfl, rfl, _, own⟩
  apply Yields.seq (counted_orReport
    ((counted_answer Env.mutexDestroy).mono fun _ _ ends => ends.2))
  rintro _ _ rfl
  apply Yields.seq (counted_orReport
    ((counted_answer Env.mutexattrDestroy).mono fun _ _ ends => ends.2))
  rintro _ _ rfl
  apply Yields.seq (counted_freeMMAP accessible size)
  rintro _ _ rfl
  apply (counted_unlock rfl).mono
  rintro _ ⟨⟨_, none⟩, _⟩ ⟨rfl, _, _, last⟩
  refine ⟨rfl, ?_⟩
  intro unlocks
  exact (last unlocks).trans (congrArg (List.erase · .shared) (own unlocks))

/-- The branch of `vgc_free` for an MMAP without blocks in use. -/
theorem counted_releaseMMAP (rep : Represents pages guarded heap abstract)
    (member : region ∈ abstract.regions) (listed : region.base ∈ abstract.listed) :
    Yields counted (releaseMMAP region.base) env
      ((heap, .mmapBlock region.base :: .shared :: held), calls) fun _ after =>
        UnlinkEnd env heap held calls region after.1.1 ∧
          ((∀ call, env.mutexUnlock call = true) → after.1.2 = held) := by
  have accessible := (rep.regions region member).mmap.accessible
  have near := rep.toStands.neighbours listed
  have locks_iff : ∀ {call target : Nat}, target ≠ region.base →
      (env.Locks (.mmapBlock region.base :: .shared :: held) call (.mmapBlock target) ↔
        env.Locks held call (.mmapBlock target)) := by
    intro call target ne
    apply Env.locks_congr
    simp [ne]
  unfold releaseMMAP
  rw [unlinkFromNext_eq, unlinkFromPrev_eq, bind_assoc]
  apply Yields.seq ((yields_readMmapHeader accessible).silently
    (keeps_readMmapHeader region.base) calls)
  rintro _ _ ⟨rfl, rfl⟩
  apply Yields.seq (counted_relinkNeighbour accessible (near.nextHome.accessible rep.toStands))
  rintro done ⟨⟨middle, taken⟩, later⟩ ⟨relinked, unreached⟩
  cases done with
  | false =>
      obtain ⟨present, refused, rfl, rest⟩ := unreached rfl
      apply Yields.pure
      refine ⟨.stuckNext present fun locks => refused ((locks_iff near.nextNe).mpr locks), ?_⟩
      intro unlocks
      simpa using rest unlocks
  | true =>
      obtain ⟨reached, middleEq, laterEq, others, all⟩ := relinked rfl
      simp only at middleEq laterEq others all
      have next : env.Reaches held calls (heap.nextMmap region.base) :=
        reached.imp_right (locks_iff near.nextNe).mp
      simp only [Bool.not_true, Bool.false_eq_true, if_false, bind_assoc]
      -- the header of the MMAP itself is not one of the two that change
      have selfHeader : middle.mmapHeader region.base = heap.mmapHeader region.base := by
        rw [middleEq, Heap.mmapHeader_relinkMmap (near.nextHome.separate rep.toStands member),
          if_neg fun both => near.nextNe both.1.symm]
      have opens : ∀ target, heap.mmapAccessible target = true →
          middle.mmapAccessible target = true := by
        intro target open_
        rw [middleEq]
        simpa [Heap.mmapAccessible] using open_
      have unlinkedEq : middle.relinkMmap (heap.prevMmap region.base) .next
          (heap.nextMmap region.base) = heap.unlinkMmap region.base := by
        rw [middleEq]
        rfl
      have middleOpen := opens _ accessible
      apply Yields.seq ((yields_readMmapHeader middleOpen).silently
        (keeps_readMmapHeader region.base) later)
      rintro _ _ ⟨rfl, rfl⟩
      rw [selfHeader]
      have prevOpen : heap.prevMmap region.base ≠ 0 →
          middle.mmapAccessible (heap.prevMmap region.base) = true := fun present =>
        opens _ (near.prevHome.accessible rep.toStands present)
      apply Yields.seq (counted_relinkNeighbour middleOpen prevOpen)
      rintro done ⟨⟨last, rest⟩, further⟩ ⟨relinked, unreached⟩
      have prevLocks : heap.prevMmap region.base ≠ 0 →
          (env.Locks taken later (.mmapBlock (heap.prevMmap region.base)) ↔
            env.Locks held later (.mmapBlock (heap.prevMmap region.base))) := by
        intro present
        have ne := rep.toStands.neighbours_ne listed present
        apply Env.locks_congr
        rw [others _ (by simpa using ne)]
        simp [near.prevNe]
      cases done with
      | false =>
          obtain ⟨present, refused, lastEq, stuck⟩ := unreached rfl
          simp only at lastEq stuck
          have ends : UnlinkEnd env heap held calls region last := by
            rw [laterEq] at refused prevLocks
            rw [lastEq, middleEq]
            exact .stuckPrev next present fun locks => refused ((prevLocks present).mpr locks)
          apply Yields.pure
          refine ⟨ends, ?_⟩
          intro unlocks
          have back := stuck unlocks
          rw [all unlocks] at back
          simpa using back
      | true =>
          obtain ⟨reachedPrev, lastEq, furtherEq, _, allPrev⟩ := relinked rfl
          simp only at lastEq furtherEq allPrev
          have prev : env.Reaches held (calls + relinkCalls (heap.nextMmap region.base))
              (heap.prevMmap region.base) := by
            rw [← laterEq]
            rcases reachedPrev with null | locks
            · exact Or.inl null
            · by_cases null : heap.prevMmap region.base = 0
              · exact Or.inl null
              · exact Or.inr ((prevLocks null).mp locks)
          have ends := UnlinkEnd.unlinked next prev
          have unlinked : last = heap.unlinkMmap region.base := lastEq.trans unlinkedEq
          rw [unlinked, furtherEq, laterEq]
          simp only [Bool.not_true, Bool.false_eq_true, if_false]
          have unlinkedRep := ((rep.toStands.unlink listed).regions region member).mmap
          generalize heap.unlinkMmap region.base = unlinked at unlinkedRep ends
          apply (counted_leaveMMAP unlinkedRep.accessible unlinkedRep.size).mono
          rintro _ ⟨⟨_, none⟩, _⟩ ⟨rfl, back⟩
          refine ⟨ends, ?_⟩
          intro unlocks
          have given := back unlocks
          rw [allPrev unlocks, all unlocks] at given
          simpa using given

end VgcMalloc
