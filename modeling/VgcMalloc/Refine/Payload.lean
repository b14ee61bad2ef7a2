import VgcMalloc.Refine.Runs

/-!
# Blocks in use

A call of `vgc_malloc` takes at most one block into use and a call of
`vgc_free` takes one out of use.  All other blocks in use stay as they are, and
so do the bytes of their payloads.
-/

namespace VgcMalloc

open Program Tiling Linked

variable {env : Env} {heap after middle : Heap} {pages : MmapPages} {guarded : Bool}
  {abstract abstract' : AbstractHeap} {region : Region} {entry x : Entry} {need : Nat}

/-! ## Blocks in use of an abstract heap -/

namespace AbstractHeap

/-- A block in use of a mapped region. -/
def Busy (heap : AbstractHeap) (entry : Entry) : Prop :=
  ∃ region ∈ heap.regions, entry ∈ heap.entries region.base ∧ entry.busy = true

/-- The blocks in use after the blocks of one region have been replaced. -/
theorem busy_setEntries_iff {heap : AbstractHeap} {entries : List Entry}
    (member : region ∈ heap.regions) :
    (heap.setEntries region.base entries).Busy x ↔
      (∃ other ∈ heap.regions, other.base ≠ region.base ∧ x ∈ heap.entries other.base ∧
          x.busy = true) ∨ x ∈ entries ∧ x.busy = true := by
  constructor
  · rintro ⟨other, otherMem, xMem, busy⟩
    by_cases same : other.base = region.base
    · rw [same, setEntries_entries] at xMem
      exact Or.inr ⟨xMem, busy⟩
    · rw [setEntries_entries_of_ne _ _ same] at xMem
      exact Or.inl ⟨other, otherMem, same, xMem, busy⟩
  · rintro (⟨other, otherMem, ne, xMem, busy⟩ | ⟨xMem, busy⟩)
    · refine ⟨other, otherMem, ?_, busy⟩
      rw [setEntries_entries_of_ne _ _ ne]
      exact xMem
    · refine ⟨region, member, ?_, busy⟩
      rw [setEntries_entries]
      exact xMem

theorem setEntries_self (heap : AbstractHeap) (base : Nat) :
    heap.setEntries base (heap.entries base) = heap := by
  unfold setEntries
  rw [Function.update_eq_self]

theorem busy_create_iff {heap : AbstractHeap} {limit : Nat} (wf : heap.WellFormed limit guarded)
    (placed : region.Placed limit) (apart : ∀ other ∈ heap.regions, region.Disjoint other) :
    (heap.create region).Busy x ↔ heap.Busy x := by
  constructor
  · rintro ⟨other, otherMem, xMem, busy⟩
    rcases List.mem_cons.mp otherMem with rfl | old
    · rw [create_entries] at xMem
      rw [List.mem_singleton.mp xMem] at busy
      cases busy
    · rw [create_entries_of_ne _ (wf.base_ne placed apart old)] at xMem
      exact ⟨other, old, xMem, busy⟩
  · rintro ⟨other, otherMem, xMem, busy⟩
    refine ⟨other, List.mem_cons_of_mem _ otherMem, ?_, busy⟩
    rw [create_entries_of_ne _ (wf.base_ne placed apart otherMem)]
    exact xMem

theorem busy_malloc_iff {heap after : AbstractHeap} {limit length base : Nat}
    (wf : heap.WellFormed limit guarded)
    (found : heap.malloc need length = some (base, entry, after)) :
    after.Busy x ↔ heap.Busy x ∨ x = grantedEntry 8192 length entry := by
  obtain ⟨before, rest, front, back, listed, _, split, _, fits, rfl⟩ :=
    malloc_eq_some_iff.mp found
  obtain ⟨region, member, rfl⟩ := wf.mapped base (by simp [listed])
  have old := @busy_setEntries_iff region x heap (front ++ entry :: back) member
  rw [← split, setEntries_self, split] at old
  rw [busy_setEntries_iff member, old]
  by_cases busy : x.busy = true
  · simp only [mem_grantEntry_busy fits.1 busy, busy, and_true, or_assoc]
  · have ne : x ≠ grantedEntry 8192 length entry := by
      rintro rfl
      exact busy rfl
    simp [busy, ne]

/-- Blocks of a region do not occur in another one. -/
theorem WellFormed.not_mem_other {heap : AbstractHeap} {limit : Nat} {other : Region}
    (wf : heap.WellFormed limit guarded) (member : region ∈ heap.regions)
    (otherMem : other ∈ heap.regions) (ne : other.base ≠ region.base)
    (entryMem : entry ∈ heap.entries region.base) : entry ∉ heap.entries other.base := by
  intro again
  have apart := wf.disjoint_of_ne otherMem member fun same => ne (congrArg Region.base same)
  have here := (wf.tiles region member).bounds entryMem
  have there := (wf.tiles other otherMem).bounds again
  unfold Region.Disjoint at apart
  omega

theorem busy_free_iff {heap : AbstractHeap} {limit : Nat} (wf : heap.WellFormed limit guarded)
    (member : region ∈ heap.regions) (entryMem : entry ∈ heap.entries region.base) :
    (heap.free region.base entry.addr).Busy x ↔ heap.Busy x ∧ x ≠ entry := by
  obtain ⟨front, back, split⟩ := List.append_of_mem entryMem
  have tiles := wf.tiles region member
  rw [split] at tiles
  have old := @busy_setEntries_iff region x heap (front ++ entry :: back) member
  rw [← split, setEntries_self, split] at old
  have sides : x ∈ front ++ back → x ≠ entry := by
    rintro inside rfl
    have ordered := List.pairwise_append.mp tiles.pairwise
    rcases List.mem_append.mp inside with inFront | inBack
    · have before := ordered.2.2 x inFront x List.mem_cons_self
      omega
    · have behind := List.rel_of_pairwise_cons ordered.2.1 inBack
      omega
  have elsewhere : (∃ other ∈ heap.regions, other.base ≠ region.base ∧
      x ∈ heap.entries other.base ∧ x.busy = true) → x ≠ entry := by
    rintro ⟨other, otherMem, ne, xMem, _⟩ rfl
    exact wf.not_mem_other member otherMem ne entryMem xMem
  rw [free, busy_setEntries_iff member, old, split, mallocHeaderSize_eq]
  constructor
  · rintro (there | ⟨inside, busy⟩)
    · exact ⟨Or.inl there, elsewhere there⟩
    · rw [mem_release_busy (by decide) tiles busy] at inside
      exact ⟨Or.inr ⟨mem_append_cons.mpr (Or.inr inside), busy⟩, sides inside⟩
  · rintro ⟨there | ⟨inside, busy⟩, ne⟩
    · exact Or.inl there
    · refine Or.inr ⟨?_, busy⟩
      rw [mem_release_busy (by decide) tiles busy]
      exact (mem_append_cons.mp inside).resolve_left ne

theorem busy_unmap_iff {heap : AbstractHeap} {base : Nat}
    (idle : ∀ x ∈ heap.entries base, x.busy = false) : (heap.unmap base).Busy x ↔ heap.Busy x := by
  constructor
  · rintro ⟨other, otherMem, xMem, busy⟩
    exact ⟨other, (List.mem_filter.mp otherMem).1, xMem, busy⟩
  · rintro ⟨other, otherMem, xMem, busy⟩
    refine ⟨other, List.mem_filter.mpr ⟨otherMem, ?_⟩, xMem, busy⟩
    have ne : other.base ≠ base := by
      rintro rfl
      rw [idle x xMem] at busy
      cases busy
    simpa using ne

end AbstractHeap

/-! ## Blocks in use in memory -/

/-- A block in use of a mapped MMAP. -/
def Heap.Busy (heap : Heap) (entry : Entry) : Prop :=
  ∃ region ∈ heap.mapped, entry ∈ heap.blocks region.base ∧ entry.busy = true

theorem Stands.busy_iff (stands : Stands pages guarded heap abstract) :
    heap.Busy x ↔ abstract.Busy x := by
  unfold Heap.Busy AbstractHeap.Busy
  rw [stands.mapped]
  constructor
  · rintro ⟨region, member, xMem, busy⟩
    rw [stands.blocks_eq member] at xMem
    exact ⟨region, member, xMem, busy⟩
  · rintro ⟨region, member, xMem, busy⟩
    rw [← stands.blocks_eq member] at xMem
    exact ⟨region, member, xMem, busy⟩

/-- Two blocks are the same or do not overlap. -/
theorem Stands.blocks_disjoint {y : Entry} {other : Region}
    (stands : Stands pages guarded heap abstract) (member : region ∈ abstract.regions)
    (xMem : x ∈ abstract.entries region.base) (otherMem : other ∈ abstract.regions)
    (yMem : y ∈ abstract.entries other.base) :
    x = y ∨ x.addr + 8192 + x.size ≤ y.addr ∨ y.addr + 8192 + y.size ≤ x.addr := by
  by_cases same : region = other
  · subst same
    exact (stands.wellFormed.tiles region member).disjoint xMem yMem
  · have apart := stands.wellFormed.disjoint_of_ne member otherMem same
    have xBounds := (stands.wellFormed.tiles region member).bounds xMem
    have yBounds := (stands.wellFormed.tiles other otherMem).bounds yMem
    unfold Region.Disjoint at apart
    omega

theorem Stands.busy_disjoint {y : Entry} (stands : Stands pages guarded heap abstract)
    (first : abstract.Busy x) (second : abstract.Busy y) :
    x = y ∨ x.addr + 8192 + x.size ≤ y.addr ∨ y.addr + 8192 + y.size ≤ x.addr := by
  obtain ⟨region, member, xMem, _⟩ := first
  obtain ⟨other, otherMem, yMem, _⟩ := second
  exact stands.blocks_disjoint member xMem otherMem yMem

/-- The payload of the block holds the same bytes. -/
def SamePayload (heap after : Heap) (entry : Entry) : Prop :=
  Bytes.AgreeOn after.memory heap.memory (entry.addr + mallocHeaderSize)
    (entry.addr + mallocHeaderSize + entry.size)

theorem SamePayload.trans {last : Heap} (first : SamePayload heap after entry)
    (second : SamePayload after last entry) : SamePayload heap last entry :=
  fun address low high => (second address low high).trans (first address low high)

/-- The block holds the same bytes behind the fields of its header. -/
def SameBehind (heap after : Heap) (entry : Entry) : Prop :=
  Bytes.AgreeOn after.memory heap.memory (entry.addr + 4240)
    (entry.addr + mallocHeaderSize + entry.size)

theorem SameBehind.trans {last : Heap} (first : SameBehind heap after entry)
    (second : SameBehind after last entry) : SameBehind heap last entry :=
  fun address low high => (second address low high).trans (first address low high)

theorem SameBehind.payload (same : SameBehind heap after entry) : SamePayload heap after entry := by
  intro address low high
  rw [mallocHeaderSize_eq] at low
  exact same address (by omega) high

/-- Blocks lie outside of the headers of MMAPs. -/
theorem Stands.block_outside {address : Nat} (stands : Stands pages guarded heap abstract)
    (busy : abstract.Busy x) (low : x.addr ≤ address)
    (high : address < x.addr + 8192 + x.size) {other : Region}
    (otherMem : other ∈ abstract.regions) : address < other.base ∨ other.base + 105 ≤ address := by
  obtain ⟨region, member, xMem, _⟩ := busy
  have bounds := (stands.wellFormed.tiles region member).bounds xMem
  by_cases same : region = other
  · subst same
    omega
  · have apart := stands.wellFormed.disjoint_of_ne member otherMem same
    have room := (stands.wellFormed.placed other otherMem).room
    unfold Region.Disjoint at apart
    omega

/-- A step of one region keeps the bytes of every block in use that stays. -/
theorem Represents.sameBehind_step {entries' : List Entry} {cleared : Nat → Prop}
    (rep : Represents pages guarded heap abstract) (member : region ∈ abstract.regions)
    (wellFormed : (abstract.setEntries region.base entries').WellFormed pages.bytes guarded)
    (step : RegionStep env region (abstract.entries region.base) entries' cleared heap after)
    (busy : abstract.Busy x) (stays : (abstract.setEntries region.base entries').Busy x) :
    SameBehind heap after x := by
  have tiles := rep.wellFormed.tiles region member
  have tiles' := wellFormed.tiles region member
  rw [AbstractHeap.setEntries_entries] at tiles'
  intro address low high
  rw [mallocHeaderSize_eq] at high
  have home := rep.block_outside busy (by omega) high member
  obtain ⟨other, otherMem, xMem, xBusy⟩ := busy
  by_cases same : other = region
  · subst same
    have inside : x ∈ entries' := by
      rcases (AbstractHeap.busy_setEntries_iff otherMem).mp stays with ⟨third, thirdMem, ne, again,
        _⟩ | ⟨inside, _⟩
      · exact absurd again (rep.wellFormed.not_mem_other otherMem thirdMem ne xMem)
      · exact inside
    refine step.writes.memory address home ?_
    rintro header (old | new)
    · obtain ⟨y, yMem, rfl⟩ := List.mem_map.mp old
      rcases tiles.disjoint xMem yMem with rfl | apart
      · omega
      · omega
    · obtain ⟨y, yMem, rfl⟩ := List.mem_map.mp new
      rcases tiles'.disjoint inside yMem with rfl | apart
      · omega
      · omega
  · have bounds := (rep.wellFormed.tiles other otherMem).bounds xMem
    exact (step.outside (rep.wellFormed.placed region member) (rep.wellFormed.placed other otherMem)
      (rep.wellFormed.disjoint_of_ne member otherMem (Ne.symm same)) tiles tiles'
      (by omega) (by omega)).1

/-! ## Blocks in use of a valid heap -/

/-- Blocks in use are determined by their headers. -/
theorem Valid.busy_unique {y : Entry} (valid : Valid pages guarded heap)
    (first : heap.Busy x) (second : heap.Busy y) (addrEq : x.addr = y.addr) : x = y := by
  rw [valid.stands.busy_iff] at first second
  rcases valid.stands.busy_disjoint first second with same | apart
  · exact same
  · omega

/-- Blocks in use are made of whole pages. -/
theorem Valid.dvd_size (valid : Valid pages true heap) (busy : heap.Busy x) : 4096 ∣ x.size := by
  obtain ⟨region, member, xMem, _⟩ := busy
  exact (valid.stands.wellFormed.aligned rfl region member x xMem).2.1

/-- Headers of blocks in use lie at whole pages of user memory. -/
theorem Valid.header_bounds (valid : Valid pages true heap) (busy : heap.Busy x) :
    4096 ∣ x.addr ∧ 0 < x.addr ∧ x.addr < 2 ^ 47 := by
  obtain ⟨region, member, xMem, _⟩ := busy
  have user := (valid.stands.wellFormed.placed region member).user
  have bounds := (valid.stands.wellFormed.tiles region member).bounds xMem
  have aligned := valid.stands.wellFormed.aligned rfl region member x xMem
  exact ⟨aligned.1, by omega, by omega⟩

/-! ## Requests -/

/-- The pointer handed out for a block, and what is left behind the bytes. -/
theorem pointerOf_add (header size : Nat) :
    AbstractHeap.pointerOf true header size + size =
      header + 8192 + if size % 4096 = 0 then size + 4096
        else AbstractHeap.grantLength true size := by
  unfold AbstractHeap.pointerOf AbstractHeap.grantLength
  simp only [if_true]
  split
  · omega
  · omega

/-- The size of the block that a request is granted from: the first listed one
that fits, or else the only one of a new MMAP. -/
def Heap.offered (heap : Heap) (env : Env) (pages : MmapPages) (need : Nat) : Option Nat :=
  match heap.abstraction.firstFit need heap.mmaps with
  | some entry => some entry.size
  | none => (heap.newRegion env pages).map fun region => region.length - 12288

/-- A block taken into use for a request; when the offered one has been split,
the rest follows it. -/
structure Granted (env : Env) (pages : MmapPages) (guarded : Bool) (heap after : Heap)
    (need memory : Nat) (granted : Entry) : Prop where
  pointer : memory = AbstractHeap.pointerOf guarded granted.addr need
  size : ∃ offered, heap.offered env pages need = some offered ∧ need ≤ offered ∧
    granted.size = if AbstractHeap.grantLength guarded need + 8192 < offered then
      AbstractHeap.grantLength guarded need else offered
  fresh : ∀ x, heap.Busy x → x.addr ≠ granted.addr
  split : ∀ offered, heap.offered env pages need = some offered →
    AbstractHeap.grantLength guarded need + 8192 < offered →
      granted.size = AbstractHeap.grantLength guarded need ∧
        ∃ region ∈ after.mapped, granted ∈ after.blocks region.base ∧
          ∃ rest ∈ after.blocks region.base, granted.addr + 8192 + granted.size = rest.addr

/-- A granted block has the bytes that were asked for. -/
theorem Granted.need_le {memory : Nat} {granted : Entry}
    (grant : Granted env pages guarded heap after need memory granted) : need ≤ granted.size := by
  obtain ⟨offered, _, enough, sizeEq⟩ := grant.size
  rw [sizeEq, AbstractHeap.grantLength]
  cases guarded with
  | true =>
      simp only [if_true]
      split
      · omega
      · exact enough
  | false =>
      simp only [Bool.false_eq_true, if_false]
      split
      · exact Nat.le_refl _
      · exact enough

/-- Creating an MMAP concerns no block in use. -/
theorem Extended.busy_iff (rep : Represents pages guarded heap abstract)
    (extended : Extended env pages guarded need abstract abstract' heap after) :
    abstract'.Busy x ↔ abstract.Busy x := by
  cases extended with
  | kept same =>
      subst same
      exact Iff.rfl
  | refused unfit refused same =>
      subst same
      exact Iff.rfl
  | created unfit region middle chosen same =>
      subst same
      obtain ⟨placed, _, apart⟩ := newRegion_placed chosen
      rw [rep.mapped] at apart
      exact AbstractHeap.busy_create_iff rep.wellFormed placed apart

theorem Extended.sameBehind (rep : Represents pages guarded heap abstract)
    (extended : Extended env pages guarded need abstract abstract' heap after)
    (busy : abstract.Busy x) : SameBehind heap after x := by
  cases extended with
  | kept same heapSame =>
      subst heapSame
      exact fun _ _ _ => rfl
  | refused unfit refused same heapSame =>
      subst heapSame
      exact fun _ _ _ => rfl
  | created unfit region middle chosen same created heapSame =>
      subst heapSame
      obtain ⟨placed, _, apart⟩ := newRegion_placed chosen
      rw [rep.mapped] at apart
      intro address low high
      rw [mallocHeaderSize_eq] at high
      have outside : ∀ other ∈ abstract.regions, address < other.base ∨
          other.base + 105 ≤ address := fun other otherMem =>
        rep.block_outside busy (by omega) high otherMem
      obtain ⟨owner, ownerMem, xMem, _⟩ := busy
      have bounds := (rep.wellFormed.tiles owner ownerMem).bounds xMem
      have disjoint := apart owner ownerMem
      unfold Region.Disjoint at disjoint
      refine created.memory address (by omega) fun present => ?_
      obtain ⟨last, lastMem, lastBase⟩ := rep.listed (AbstractHeap.lastListed_mem present)
      rw [← lastBase]
      exact outside last lastMem

/-- What is offered to a request is what its block is taken from. -/
theorem offered_of_extended {base length : Nat} {abstract'' : AbstractHeap}
    (rep : Represents pages guarded heap heap.abstraction)
    (extended : Extended env pages guarded need heap.abstraction abstract' heap after)
    (found : abstract'.malloc need length = some (base, entry, abstract'')) :
    heap.offered env pages need = some entry.size := by
  have first := AbstractHeap.firstFit_of_malloc found
  unfold Heap.offered
  cases extended with
  | kept same =>
      subst same
      rw [abstraction_listed] at first
      rw [first]
  | refused unfit refused same =>
      subst same
      have none := AbstractHeap.malloc_eq_none_iff.mp unfit
      obtain ⟨other, otherMem, chosen⟩ := List.exists_of_findSome?_eq_some first
      have fits := List.find?_some chosen
      exact absurd (of_decide_eq_true fits) (none other otherMem entry
        (List.mem_of_find?_eq_some chosen))
  | created unfit region middle chosen same =>
      subst same
      have none := AbstractHeap.malloc_eq_none_iff.mp unfit
      obtain ⟨placed, _, apart⟩ := newRegion_placed chosen
      rw [rep.mapped] at apart
      have old : ∀ other ∈ heap.abstraction.listed,
          Tiling.firstFit need ((heap.abstraction.create region).entries other) = Option.none := by
        intro other listed
        refine firstFit_eq_none_iff.mpr ?_
        rw [AbstractHeap.create_entries_of_ne]
        · exact none other listed
        · rintro rfl
          exact rep.wellFormed.base_not_mem_listed placed apart listed
      have missing : heap.abstraction.firstFit need heap.mmaps = Option.none := by
        refine List.findSome?_eq_none_iff.mpr ?_
        intro other listed
        exact firstFit_eq_none_iff.mpr (none other listed)
      rw [missing, chosen]
      obtain ⟨other, otherMem, picked⟩ := List.exists_of_findSome?_eq_some first
      rcases List.mem_append.mp otherMem with listed | new
      · rw [old other listed] at picked
        cases picked
      · rw [List.mem_singleton.mp new, AbstractHeap.create_entries] at picked
        have only := List.mem_singleton.mp (List.mem_of_find?_eq_some picked)
        rw [only]
        rfl

/-- A request takes no block into use, or the one it returns a pointer into. -/
theorem MallocOutcome.busy {size memory : Nat}
    (rep : Represents pages guarded heap heap.abstraction)
    (outcome : MallocOutcome env pages guarded size heap.abstraction heap after memory) :
    (memory = 0 ∧ ∀ x, after.Busy x ↔ heap.Busy x) ∨
      memory ≠ 0 ∧ size ≠ 0 ∧ ∃ granted,
        Granted env pages guarded heap after (alignSize heap.shared size) memory granted ∧
          ∀ x, after.Busy x ↔ heap.Busy x ∨ x = granted := by
  cases outcome with
  | poisoned empty refused null same =>
      subst same
      exact Or.inl ⟨null, fun x => (rep.toStands.asked.asked.setFirst mapFailed).busy_iff.trans
        rep.toStands.busy_iff.symm⟩
  | refused abstract' extended null =>
      exact Or.inl ⟨null, fun x => (extended.represents rep).busy_iff.trans
        ((extended.busy_iff rep).trans rep.toStands.busy_iff.symm)⟩
  | served extendedHeap abstract' middle region entry extended served positive small =>
      have extendedRep := extended.represents rep
      have afterRep := served.represents extendedRep (alignSize_pos rep.mode positive)
      have offers := offered_of_extended rep extended served.found
      have blocksEq : region ∈ abstract'.regions →
          after.blocks region.base = abstract'.entries region.base := afterRep.blocks_eq
      obtain ⟨_, _, front, back, listed, _, split, _, fits, rfl⟩ :=
        AbstractHeap.malloc_eq_some_iff.mp served.found
      refine Or.inr ⟨served.memory_ne, positive, grantedEntry 8192
        (AbstractHeap.grantLength guarded (alignSize heap.shared size)) entry, ⟨served.pointer,
          ⟨entry.size, offers, fits.2, rfl⟩, ?_, ?_⟩, ?_⟩
      · intro x busy sameAddr
        rw [rep.toStands.busy_iff, ← extended.busy_iff rep] at busy
        obtain ⟨other, otherMem, xMem, xBusy⟩ := busy
        have entryMem : entry ∈ extendedHeap.entries region.base := by simp [split]
        have sameEntry : x = entry := by
          by_cases same : other = region
          · subst same
            exact (extendedRep.wellFormed.tiles other otherMem).eq_of_addr_eq (by decide) xMem
              entryMem sameAddr
          · have apart := extendedRep.wellFormed.disjoint_of_ne otherMem served.member same
            have xBounds := (extendedRep.wellFormed.tiles other otherMem).bounds xMem
            have bounds := (extendedRep.wellFormed.tiles region served.member).bounds entryMem
            have addrEq : x.addr = entry.addr := sameAddr
            unfold Region.Disjoint at apart
            omega
        rw [sameEntry, fits.1] at xBusy
        cases xBusy
      · intro offered found left
        obtain rfl : entry.size = offered := Option.some.inj (offers.symm.trans found)
        rw [AbstractHeap.setEntries_entries] at blocksEq
        have granted : (grantedEntry 8192 (AbstractHeap.grantLength guarded
            (alignSize heap.shared size)) entry).size = _ := if_pos left
        refine ⟨granted, region, afterRep.mapped ▸ served.member, ?_⟩
        rw [blocksEq served.member, grantEntry_eq_of_lt left, granted]
        exact ⟨by simp, _, List.mem_append_left _ (List.mem_append_right _
          (List.mem_cons_of_mem _ List.mem_cons_self)), rfl⟩
      · intro x
        rw [afterRep.busy_iff, AbstractHeap.busy_malloc_iff extendedRep.wellFormed served.found,
          extended.busy_iff rep, rep.toStands.busy_iff]

/-- A request keeps the bytes of every block in use. -/
theorem MallocOutcome.sameBehind {size memory : Nat}
    (rep : Represents pages guarded heap heap.abstraction) (busy : heap.Busy x)
    (outcome : MallocOutcome env pages guarded size heap.abstraction heap after memory) :
    SameBehind heap after x := by
  rw [rep.toStands.busy_iff] at busy
  cases outcome with
  | poisoned empty refused null same =>
      subst same
      exact fun _ _ _ => rfl
  | refused abstract' extended => exact extended.sameBehind rep busy
  | served extendedHeap abstract' middle region entry extended served positive small =>
      have extendedRep := extended.represents rep
      have afterRep := served.represents extendedRep (alignSize_pos rep.mode positive)
      have extendedBusy := (extended.busy_iff rep).mpr busy
      have stays := (AbstractHeap.busy_malloc_iff extendedRep.wellFormed served.found).mpr
        (Or.inl extendedBusy)
      refine (extended.sameBehind rep busy).trans ?_
      obtain ⟨_, _, front, back, _, _, _, _, _, rfl⟩ :=
        AbstractHeap.malloc_eq_some_iff.mp served.found
      have step := served.step
      rw [AbstractHeap.setEntries_entries] at step
      exact extendedRep.sameBehind_step served.member afterRep.wellFormed step extendedBusy stays

/-! ## Releases -/

/-- A region left without blocks in use. -/
theorem idle_of_free (rep : Represents pages guarded heap abstract)
    (member : region ∈ abstract.regions) (entryMem : entry ∈ abstract.entries region.base)
    (busy : entry.busy = true) (only : busyCount (abstract.entries region.base) = 1) :
    ∀ x ∈ (abstract.free region.base entry.addr).entries region.base, x.busy = false := by
  obtain ⟨front, back, split⟩ := List.append_of_mem entryMem
  have tiles := rep.wellFormed.tiles region member
  rw [split] at tiles only
  intro x xMem
  by_contra xBusy
  rw [AbstractHeap.free, AbstractHeap.setEntries_entries, split, mallocHeaderSize_eq,
    mem_release_busy (by decide) tiles ((Bool.not_eq_false _).mp xBusy)] at xMem
  have count : busyCount (front ++ back) = 0 := by
    simp only [busyCount, List.countP_append, List.countP_cons, busy, if_true] at only ⊢
    omega
  exact List.countP_eq_zero.mp count x xMem ((Bool.not_eq_false _).mp xBusy)

/-- A release takes its block out of use. -/
theorem FreeOutcome.busy_iff (rep : Represents pages guarded heap heap.abstraction)
    (member : region ∈ heap.mapped) (entryMem : entry ∈ heap.blocks region.base)
    (busy : entry.busy = true)
    (outcome : FreeOutcome env pages guarded heap.abstraction region entry heap after) :
    after.Busy x ↔ heap.Busy x ∧ x ≠ entry := by
  rw [← abstraction_entries] at entryMem
  rw [rep.toStands.busy_iff, ← AbstractHeap.busy_free_iff rep.wellFormed member entryMem]
  cases outcome with
  | released others step => exact (rep.free member entryMem step).busy_iff
  | vanished only middle abstract' step vanished =>
      have idle := idle_of_free rep member entryMem busy only
      rw [vanished.represents.busy_iff]
      rcases vanished.either with same | same
      · subst same
        exact AbstractHeap.busy_unmap_iff idle
      · subst same
        exact Iff.rfl

/-- A release keeps the payload of every other block in use. -/
theorem FreeOutcome.samePayload (rep : Represents pages guarded heap heap.abstraction)
    (member : region ∈ heap.mapped) (entryMem : entry ∈ heap.blocks region.base)
    (busy : heap.Busy x) (ne : x ≠ entry)
    (outcome : FreeOutcome env pages guarded heap.abstraction region entry heap after) :
    SamePayload heap after x := by
  rw [← abstraction_entries] at entryMem
  rw [rep.toStands.busy_iff] at busy
  have stays := (AbstractHeap.busy_free_iff rep.wellFormed member entryMem).mpr ⟨busy, ne⟩
  have stepped : ∀ last, RegionStep env region (heap.abstraction.entries region.base)
      (release 8192 entry.addr (heap.abstraction.entries region.base))
      (fun page => page = entry.addr) heap last → SamePayload heap last x := by
    intro last step
    exact (rep.sameBehind_step member (rep.wellFormed.free member entryMem) step busy stays).payload
  cases outcome with
  | released others step => exact stepped _ step
  | vanished only middle abstract' step vanished =>
      have freed := rep.free member entryMem step
      refine (stepped _ step).trans ?_
      intro address low high
      rw [mallocHeaderSize_eq] at low high
      exact vanished.memory address fun other otherMem =>
        freed.block_outside stays (by omega) high otherMem

end VgcMalloc
