import VgcMalloc.Refine.Walks
import Mathlib.Data.List.Perm.Subperm

/-!
# Edits of one region

What an edit of the block list of one MMAP promises: the region represents the
new list, only headers are written to, and the guard pages follow the headers.
The stores of a grant and of a merge are given as functions on the heap, with
the headers they leave behind.
-/

namespace VgcMalloc

open Program Tiling Linked

variable {env : Env} {heap after last : Heap} {held : List Mutex} {region : Region}
  {entries : List Entry}

/-- A region inside the heap of the allocator. -/
structure RegionSite (pages : MmapPages) (heap : Heap) (region : Region)
    (entries : List Entry) : Prop where
  placed : region.Placed pages.bytes
  tiles : Contiguous 8192 (region.base + 4096) entries (region.base + region.length)
  rep : RegionRep heap region entries
  mapped : region ∈ heap.mapped
  pageSize : heap.shared.pageSize = 4096
  blockSize : heap.shared.mmapBlockSize = pages.bytes

theorem RegionSite.walkable {pages : MmapPages} (site : RegionSite pages heap region entries) :
    Walkable pages heap region entries :=
  ⟨site.placed, site.tiles, site.rep.blocks, site.rep.mmap.maxSize, site.rep.mmap.accessible⟩

/-! ## Frames -/

/-- Only the header of the MMAP and block headers at the given addresses have
been written to. -/
structure WritesOnly (region : Region) (headers : Nat → Prop) (before after : Heap) :
    Prop where
  shared : after.shared = before.shared
  mapped : after.mapped = before.mapped
  mmapCalls : after.mmapCalls = before.mmapCalls
  memory : ∀ x, (x < region.base ∨ region.base + 105 ≤ x) →
    (∀ header, headers header → x < header + 4096 ∨ header + 4240 ≤ x) →
      after.memory x = before.memory x

namespace WritesOnly

variable {headers : Nat → Prop}

theorem refl (heap : Heap) : WritesOnly region headers heap heap :=
  ⟨rfl, rfl, rfl, fun _ _ _ => rfl⟩

theorem trans (first : WritesOnly region headers heap after)
    (second : WritesOnly region headers after last) : WritesOnly region headers heap last where
  shared := second.shared.trans first.shared
  mapped := second.mapped.trans first.mapped
  mmapCalls := second.mmapCalls.trans first.mmapCalls
  memory x outside apart :=
    (second.memory x outside apart).trans (first.memory x outside apart)

theorem mono {more : Nat → Prop} (writes : WritesOnly region headers heap after)
    (weaker : ∀ header, headers header → more header) : WritesOnly region more heap after where
  shared := writes.shared
  mapped := writes.mapped
  mmapCalls := writes.mmapCalls
  memory x outside apart :=
    writes.memory x outside fun header member => apart header (weaker header member)

theorem setMallocFields {block : Nat} (fields : List (MallocField × Nat))
    (member : headers block) :
    WritesOnly region headers heap (heap.setMallocFields block fields) where
  shared := by simp
  mapped := by simp
  mmapCalls := by simp
  memory x _ apart := Heap.memory_setMallocFields fields (apart block member)

theorem setMmapFields (fields : List (MmapField × Nat)) :
    WritesOnly region headers heap (heap.setMmapFields region.base fields) where
  shared := by simp
  mapped := by simp
  mmapCalls := by simp
  memory x outside _ := Heap.memory_setMmapFields fields outside

theorem guardStep {page : Nat} {none : Bool} (step : GuardStep env page none heap after) :
    WritesOnly region headers heap after := by
  obtain ⟨protNone, rfl⟩ := step.same
  exact ⟨rfl, rfl, rfl, fun _ _ _ => rfl⟩

end WritesOnly

/-- The addresses of the blocks. -/
def addresses (entries : List Entry) : List Nat := entries.map Entry.addr

/-- The blocks of a region changed from `entries` to `entries'`; the MMAP keeps
its place in the list, and only pages of headers change their protection.
When every `mprotect` succeeds, new headers become guarded, and headers that
vanish or are `cleared` lose their guard. -/
structure RegionStep (env : Env) (region : Region) (entries entries' : List Entry)
    (cleared : Nat → Prop) (heap after : Heap) : Prop where
  rep : RegionRep after region entries'
  writes : WritesOnly region (fun header => header ∈ addresses entries ∨
    header ∈ addresses entries') heap after
  links : after.nextMmap region.base = heap.nextMmap region.base ∧
    after.prevMmap region.base = heap.prevMmap region.base
  untouched : ∀ page, page % 4096 = 0 → page ∉ addresses entries → page ∉ addresses entries' →
    after.protNone page = heap.protNone page
  guards : MprotectCallsSucceed env → ∀ page, page % 4096 = 0 →
    (after.protNone page = true ↔
      (heap.protNone page = true ∨ page ∈ addresses entries' ∧ page ∉ addresses entries) ∧
        ¬(cleared page ∨ page ∈ addresses entries ∧ page ∉ addresses entries'))

/-- A change of one guard page that is known to succeed. -/
theorem GuardStep.protNone_iff {page x : Nat} {none : Bool}
    (step : GuardStep env page none heap after) (works : MprotectCallsSucceed env)
    (mapped : heap.isMapped page = true) (aligned : x % 4096 = 0) :
    after.protNone x = true ↔ if x = page then none = true else heap.protNone x = true := by
  by_cases same : x = page
  · subst same
    rw [if_pos rfl, step.done works aligned mapped]
  · rw [if_neg same, step.others x aligned same]

/-- A member of a list with one element singled out. -/
theorem mem_append_cons {α : Type} {x y : α} {front back : List α} :
    x ∈ front ++ y :: back ↔ x = y ∨ x ∈ front ++ back := by
  simp only [List.mem_append, List.mem_cons]
  exact or_left_comm

/-- Replace one block by another one at the same address with the same
links. -/
theorem BlockRep.replace {base before : Nat} {front back : List Entry} {entry fresh : Entry}
    (rep : BlockRep heap base before (front ++ entry :: back)) (addrEq : fresh.addr = entry.addr)
    (others : ∀ x ∈ front ++ back, after.mallocHeader x.addr = heap.mallocHeader x.addr)
    (accessible : ∀ x, heap.mallocAccessible x = true → after.mallocAccessible x = true)
    (freshRep : HeaderRep after base fresh)
    (sameNext : after.nextBlock entry.addr = heap.nextBlock entry.addr)
    (samePrev : after.prevBlock entry.addr = heap.prevBlock entry.addr) :
    BlockRep after base before (front ++ fresh :: back) := by
  constructor
  · have links := rep.links
    have same : (front ++ fresh :: back).map Entry.addr =
        (front ++ entry :: back).map Entry.addr := by simp [addrEq]
    rw [same]
    refine links.congr ?_ ?_
    · intro node member
      obtain ⟨x, xMem, rfl⟩ := List.mem_map.mp member
      rcases mem_append_cons.mp xMem with rfl | other
      · exact sameNext
      · exact congrArg MallocHeader.next (others x other)
    · intro node member
      obtain ⟨x, xMem, rfl⟩ := List.mem_map.mp member
      rcases mem_append_cons.mp xMem with rfl | other
      · exact samePrev
      · exact congrArg MallocHeader.prev (others x other)
  · intro x member
    rcases mem_append_cons.mp member with rfl | other
    · exact freshRep
    · have old := rep.headers x (mem_append_cons.mpr (Or.inr other))
      exact old.congr (others x other) (accessible _ old.accessible)

/-- An address of a mapped region is mapped. -/
theorem isMapped_of_mem {address : Nat} (member : region ∈ heap.mapped)
    (low : region.base ≤ address) (high : address < region.base + region.length) :
    heap.isMapped address = true :=
  List.any_eq_true.mpr ⟨region, member, by simp [low, high]⟩

/-- A region is still represented when its headers can be read as before. -/
theorem RegionRep.of_headers (rep : RegionRep heap region entries)
    (mmapHeader : after.mmapHeader region.base = heap.mmapHeader region.base)
    (headers : ∀ x ∈ entries, after.mallocHeader x.addr = heap.mallocHeader x.addr)
    (accessible : ∀ x, heap.isAccessible x = true → after.isAccessible x = true) :
    RegionRep after region entries := by
  constructor
  · apply rep.mmap.congr mmapHeader
    have before := rep.mmap.accessible
    simp only [Heap.mmapAccessible, Bool.and_eq_true] at before ⊢
    exact ⟨accessible _ before.1, accessible _ before.2⟩
  · apply rep.blocks.congr headers
    intro x member
    exact Heap.mallocAccessible_mono (rep.blocks.headers x member).accessible
      fun y _ _ => accessible y

/-- A region is still represented when its MMAP has moved in the list and all
of its other bytes are kept. -/
theorem RegionRep.relink {prev next : Nat} (rep : RegionRep heap region entries)
    (mmapHeader : after.mmapHeader region.base =
      { heap.mmapHeader region.base with prev := prev, next := next })
    (headers : ∀ x ∈ entries, after.mallocHeader x.addr = heap.mallocHeader x.addr)
    (mmapOpen : after.mmapAccessible region.base = true)
    (accessible : ∀ x ∈ entries, after.mallocAccessible x.addr = true) :
    RegionRep after region entries := by
  refine ⟨⟨?_, ?_, ?_, ?_, ?_, mmapOpen⟩, rep.blocks.congr headers accessible⟩
  all_goals rw [mmapHeader]
  · exact rep.mmap.size
  · exact rep.mmap.maxSize
  · exact rep.mmap.elements
  · exact rep.mmap.checkStart
  · exact rep.mmap.checkEnd

/-! ## Edits of the whole heap -/

section Whole

variable {pages : MmapPages} {guarded : Bool} {abstract : AbstractHeap}

theorem Stands.site (rep : Stands pages guarded heap abstract)
    (member : region ∈ abstract.regions) :
    RegionSite pages heap region (abstract.entries region.base) where
  placed := rep.wellFormed.placed region member
  tiles := rep.wellFormed.tiles region member
  rep := rep.regions region member
  mapped := rep.mapped.symm ▸ member
  pageSize := rep.pageSize
  blockSize := rep.blockSize

/-- A listed MMAP is a mapped region. -/
theorem Stands.listed {base : Nat} (stands : Stands pages guarded heap abstract)
    (member : base ∈ abstract.listed) : ∃ region ∈ abstract.regions, region.base = base :=
  stands.wellFormed.mapped base member

/-- There are fewer listed MMAPs than addresses. -/
theorem Stands.listed_length (stands : Stands pages guarded heap abstract) :
    abstract.listed.length < walkFuel := by
  have below : ∀ base ∈ abstract.listed, base ∈ List.range (2 ^ 47) := by
    intro base member
    obtain ⟨region, regionMem, rfl⟩ := stands.listed member
    have placed := stands.wellFormed.placed region regionMem
    have user := placed.user
    have room := placed.room
    exact List.mem_range.mpr (by omega)
  have count := (List.subperm_of_subset stands.wellFormed.nodup below).length_le
  rw [List.length_range] at count
  rw [walkFuel, wordRange_eq]
  omega

/-- The page of an address of a placed region lies in the region. -/
theorem pageBase_mem {x : Nat} (placed : region.Placed pages.bytes) (low : region.base ≤ x)
    (high : x < region.base + region.length) :
    region.base ≤ pageBase x ∧ pageBase x < region.base + region.length := by
  have aligned := placed.aligned
  simp only [pageBase, systemPageSize_eq]
  omega

/-- Headers of a tiled region lie behind its own header. -/
theorem addresses_bounds
    (tiles : Contiguous 8192 (region.base + 4096) entries (region.base + region.length))
    {header : Nat} (member : header ∈ addresses entries) :
    region.base + 4096 ≤ header ∧ header + 8192 ≤ region.base + region.length := by
  obtain ⟨x, xMem, rfl⟩ := List.mem_map.mp member
  have bounds := tiles.bounds xMem
  omega

/-- Everything outside of the region of a step is as before. -/
theorem RegionStep.outside {cleared : Nat → Prop} {entries' : List Entry} {other : Region}
    (step : RegionStep env region entries entries' cleared heap after)
    (placed : region.Placed pages.bytes) (otherPlaced : other.Placed pages.bytes)
    (apart : region.Disjoint other)
    (tiles : Contiguous 8192 (region.base + 4096) entries (region.base + region.length))
    (tiles' : Contiguous 8192 (region.base + 4096) entries' (region.base + region.length))
    {x : Nat} (low : other.base ≤ x) (high : x < other.base + other.length) :
    after.memory x = heap.memory x ∧ after.isAccessible x = heap.isAccessible x := by
  have room := placed.room
  unfold Region.Disjoint at apart
  constructor
  · refine step.writes.memory x (by omega) ?_
    rintro header (member | member)
    · have bounds := addresses_bounds tiles member
      omega
    · have bounds := addresses_bounds tiles' member
      omega
  · have page := pageBase_mem otherPlaced low high
    have same : after.protNone (pageBase x) = heap.protNone (pageBase x) := by
      refine step.untouched _ (pageBase_mod x) ?_ ?_
      · intro member
        have bounds := addresses_bounds tiles member
        omega
      · intro member
        have bounds := addresses_bounds tiles' member
        omega
    rw [Heap.isAccessible, Heap.isAccessible, Heap.isMapped, Heap.isMapped,
      step.writes.mapped, same]

/-- A step of one region acts on the whole heap by replacing its blocks. -/
theorem Represents.edit {cleared : Nat → Prop} {entries' : List Entry}
    (rep : Represents pages guarded heap abstract) (member : region ∈ abstract.regions)
    (wellFormed : (abstract.setEntries region.base entries').WellFormed pages.bytes guarded)
    (step : RegionStep env region (abstract.entries region.base) entries' cleared heap after) :
    Represents pages guarded after (abstract.setEntries region.base entries') := by
  have placed := rep.wellFormed.placed
  have tiles := rep.wellFormed.tiles region member
  have tiles' := wellFormed.tiles region member
  rw [AbstractHeap.setEntries_entries] at tiles'
  have outside : ∀ other ∈ abstract.regions, other ≠ region → ∀ x, other.base ≤ x →
      x < other.base + other.length →
        after.memory x = heap.memory x ∧ after.isAccessible x = heap.isAccessible x := by
    intro other otherMem ne x low high
    exact step.outside (placed region member) (placed other otherMem)
      (rep.wellFormed.disjoint_of_ne member otherMem (Ne.symm ne)) tiles tiles' low high
  have sameLinks : ∀ base ∈ abstract.listed,
      after.nextMmap base = heap.nextMmap base ∧ after.prevMmap base = heap.prevMmap base := by
    intro base baseMem
    obtain ⟨other, otherMem, rfl⟩ := rep.wellFormed.mapped base baseMem
    by_cases same : other = region
    · exact same ▸ step.links
    · have room := (placed other otherMem).room
      have header : after.mmapHeader other.base = heap.mmapHeader other.base :=
        Bytes.mmapHeader_congr fun x low high =>
          (outside other otherMem same x low (by omega)).1
      exact ⟨congrArg MmapHeader.next header, congrArg MmapHeader.prev header⟩
  refine ⟨⟨wellFormed, ?_, ?_, ?_, ?_, ?_, ?_⟩, ?_⟩
  · exact step.writes.mapped.trans rep.mapped
  · intro other otherMem
    by_cases same : other = region
    · subst same
      rw [AbstractHeap.setEntries_entries]
      exact step.rep
    · have baseNe : other.base ≠ region.base := fun equal =>
        same (rep.wellFormed.region_eq otherMem member equal)
      rw [AbstractHeap.setEntries_entries_of_ne _ _ baseNe]
      exact (rep.regions other otherMem).congr (rep.wellFormed.tiles other otherMem)
        (placed other otherMem).room
        (fun x low high => (outside other otherMem same x low high).1)
        (fun x low high accessible =>
          (outside other otherMem same x low high).2.trans accessible)
  · exact rep.links.congr (fun base baseMem => (sameLinks base baseMem).1)
      fun base baseMem => (sameLinks base baseMem).2
  · rw [step.writes.shared]
    exact rep.pageSize
  · rw [step.writes.shared]
    exact rep.blockSize
  · rw [step.writes.shared]
    exact rep.mode
  · rw [step.writes.shared]
    exact rep.first

end Whole

/-! ## The stores of a grant and of a merge -/

namespace Heap

variable {mmapBlock block target value x : Nat}

/-- Let the block at `target`, if there is one, point back to `value`. -/
def linkBack (heap : Heap) (target value : Nat) : Heap :=
  if target = 0 then heap else heap.setMallocFields target [(.prev, value)]

/-- The stores of `allocMallocBlock` that take a block into use. -/
def takeBlock (heap : Heap) (mmapBlock block size next target : Nat) : Heap :=
  ((((heap.setMmapFields mmapBlock
      [(.elements, add64 (heap.mmapHeader mmapBlock).elements 1)]).setMallocFields block
        [(.mmapBlock, mmapBlock), (.size, size), (.status, MallocStatus.busy.toWord),
          (.next, next)]).linkBack target next).setMallocFields block
            [(.checkStart, checksum), (.checkEnd, checksum)])

@[simp]
theorem linkBack_mapped : (heap.linkBack target value).mapped = heap.mapped := by
  unfold linkBack
  split <;> simp

@[simp]
theorem linkBack_shared : (heap.linkBack target value).shared = heap.shared := by
  unfold linkBack
  split <;> simp

@[simp]
theorem linkBack_protNone : (heap.linkBack target value).protNone = heap.protNone := by
  unfold linkBack
  split <;> simp

@[simp]
theorem isAccessible_linkBack (x : Nat) :
    (heap.linkBack target value).isAccessible x = heap.isAccessible x :=
  isAccessible_congr (by simp) (by simp) x

@[simp]
theorem mallocAccessible_linkBack (x : Nat) :
    (heap.linkBack target value).mallocAccessible x = heap.mallocAccessible x :=
  mallocAccessible_congr fun y _ _ => isAccessible_linkBack y

/-- Only the back link of the target changes. -/
theorem mallocHeader_linkBack (bound : value < 2 ^ 64)
    (separate : x = target ∨ x + 8192 ≤ target ∨ target + 8192 ≤ x) :
    (heap.linkBack target value).mallocHeader x =
      { heap.mallocHeader x with
        prev := if x = target ∧ target ≠ 0 then value else (heap.mallocHeader x).prev } := by
  unfold linkBack
  by_cases null : target = 0
  · simp [null]
  · rw [if_neg null]
    rcases separate with rfl | apart
    · simpa [MallocHeader.set, null] using bound
    · have ne : x ≠ target := by omega
      rw [mallocHeader_setMallocFields_apart _ apart]
      simp [ne]

theorem mmapHeader_linkBack (apart : target = 0 ∨ mmapBlock + 4096 ≤ target) :
    (heap.linkBack target value).mmapHeader mmapBlock = heap.mmapHeader mmapBlock := by
  unfold linkBack
  split
  · rfl
  · exact mmapHeader_setMallocFields _ (by omega)

@[simp]
theorem isAccessible_takeBlock (size next : Nat) (x : Nat) :
    (heap.takeBlock mmapBlock block size next target).isAccessible x = heap.isAccessible x := by
  simp [takeBlock]

@[simp]
theorem mallocAccessible_takeBlock (size next : Nat) (x : Nat) :
    (heap.takeBlock mmapBlock block size next target).mallocAccessible x =
      heap.mallocAccessible x :=
  mallocAccessible_congr fun y _ _ => isAccessible_takeBlock size next y

@[simp]
theorem takeBlock_protNone (size next : Nat) :
    (heap.takeBlock mmapBlock block size next target).protNone = heap.protNone := by
  simp [takeBlock]

/-- The header of the block taken into use. -/
theorem mallocHeader_takeBlock_self (heap : Heap) (size next : Nat)
    (home : mmapBlock + 4096 ≤ block) (apart : block + 8192 ≤ target ∨ target + 8192 ≤ block)
    (blockBound : block < 2 ^ 64)
    (sizeBound : size < 2 ^ 64) (nextBound : next < 2 ^ 64) :
    (heap.takeBlock mmapBlock block size next target).mallocHeader block =
      { heap.mallocHeader block with
        checkStart := checksum, size := size, status := .busy, mmapBlock := mmapBlock,
        next := next, checkEnd := checksum } := by
  have ne : block ≠ target := by omega
  have mmapBound : mmapBlock < 2 ^ 64 := by omega
  rw [takeBlock, mallocHeader_setMallocFields,
    mallocHeader_linkBack nextBound (Or.inr apart), mallocHeader_setMallocFields,
    mallocHeader_setMmapFields _ (by omega)]
  simpa [MallocHeader.set, ne, MallocStatus.toWord, MallocStatus.ofWord]
    using And.intro sizeBound (And.intro mmapBound nextBound)

/-- The other headers keep all but the back link of the target. -/
theorem mallocHeader_takeBlock_other {size next : Nat} (home : mmapBlock + 4096 ≤ x)
    (apart : x + 8192 ≤ block ∨ block + 8192 ≤ x)
    (separate : x = target ∨ x + 8192 ≤ target ∨ target + 8192 ≤ x)
    (nextBound : next < 2 ^ 64) :
    (heap.takeBlock mmapBlock block size next target).mallocHeader x =
      { heap.mallocHeader x with
        prev := if x = target ∧ target ≠ 0 then next else (heap.mallocHeader x).prev } := by
  rw [takeBlock, mallocHeader_setMallocFields_apart _ apart,
    mallocHeader_linkBack nextBound separate, mallocHeader_setMallocFields_apart _ apart,
    mallocHeader_setMmapFields _ (by omega)]

/-- The MMAP counts one more block in use. -/
theorem mmapHeader_takeBlock (heap : Heap) (size next : Nat)
    (home : mmapBlock + 4096 ≤ block) (targetHome : target = 0 ∨ mmapBlock + 4096 ≤ target)
    (bound : (heap.mmapHeader mmapBlock).elements + 1 < 2 ^ 64) :
    (heap.takeBlock mmapBlock block size next target).mmapHeader mmapBlock =
      { heap.mmapHeader mmapBlock with
        elements := (heap.mmapHeader mmapBlock).elements + 1 } := by
  rw [takeBlock, mmapHeader_setMallocFields _ (by omega), mmapHeader_linkBack targetHome,
    mmapHeader_setMallocFields _ (by omega), mmapHeader_setMmapFields, add64_of_lt bound]
  simpa [MmapHeader.set] using bound

/-! ## Links of MMAPs -/

variable {field : MmapField}

/-- Store a link of the MMAP at `target`, if there is one. -/
def relinkMmap (heap : Heap) (target : Nat) (field : MmapField) (value : Nat) : Heap :=
  if target = 0 then heap else heap.setMmapFields target [(field, value)]

theorem relinkMmap_eq (heap : Heap) (target : Nat) (field : MmapField) (value : Nat) :
    heap.relinkMmap target field value =
      { heap with memory := (heap.relinkMmap target field value).memory } := by
  unfold relinkMmap
  split
  · rfl
  · exact setMmapFields_eq heap target _

@[simp]
theorem relinkMmap_shared : (heap.relinkMmap target field value).shared = heap.shared := by
  rw [relinkMmap_eq]

@[simp]
theorem relinkMmap_mapped : (heap.relinkMmap target field value).mapped = heap.mapped := by
  rw [relinkMmap_eq]

@[simp]
theorem relinkMmap_protNone : (heap.relinkMmap target field value).protNone = heap.protNone := by
  rw [relinkMmap_eq]

@[simp]
theorem isAccessible_relinkMmap (x : Nat) :
    (heap.relinkMmap target field value).isAccessible x = heap.isAccessible x :=
  isAccessible_congr (by simp) (by simp) x

@[simp]
theorem mallocAccessible_relinkMmap (x : Nat) :
    (heap.relinkMmap target field value).mallocAccessible x = heap.mallocAccessible x :=
  mallocAccessible_congr fun y _ _ => isAccessible_relinkMmap y

theorem mmapHeader_relinkMmap (separate : x + 105 ≤ target ∨ target + 105 ≤ x ∨ x = target) :
    (heap.relinkMmap target field value).mmapHeader x =
      if x = target ∧ target ≠ 0 then (heap.mmapHeader x).set field value
      else heap.mmapHeader x := by
  unfold relinkMmap
  by_cases null : target = 0
  · simp [null]
  · rw [if_neg null]
    by_cases same : x = target
    · subst same
      rw [if_pos ⟨rfl, null⟩, mmapHeader_setMmapFields]
      rfl
    · rw [if_neg (by simp [same]), mmapHeader_setMmapFields_apart _ (by omega)]

theorem memory_relinkMmap (outside : target = 0 ∨ x < target ∨ target + 105 ≤ x) :
    (heap.relinkMmap target field value).memory x = heap.memory x := by
  unfold relinkMmap
  split
  · rfl
  · exact memory_setMmapFields _ (by omega)

theorem mallocHeader_relinkMmap
    (apart : target = 0 ∨ target + 105 ≤ block + 4096 ∨ block + 4240 ≤ target) :
    (heap.relinkMmap target field value).mallocHeader block = heap.mallocHeader block := by
  unfold relinkMmap
  split
  · rfl
  · exact mallocHeader_setMmapFields _ (by omega)

end Heap

/-- The MMAP keeps its place in the list. -/
theorem Heap.links_takeBlock (heap : Heap) {mmapBlock block target : Nat} (size next : Nat)
    (home : mmapBlock + 4096 ≤ block) (targetHome : target = 0 ∨ mmapBlock + 4096 ≤ target)
    (bound : (heap.mmapHeader mmapBlock).elements + 1 < 2 ^ 64) :
    (heap.takeBlock mmapBlock block size next target).nextMmap mmapBlock =
        heap.nextMmap mmapBlock ∧
      (heap.takeBlock mmapBlock block size next target).prevMmap mmapBlock =
        heap.prevMmap mmapBlock := by
  rw [Heap.nextMmap, Heap.prevMmap,
    Heap.mmapHeader_takeBlock heap size next home targetHome bound]
  exact ⟨rfl, rfl⟩

theorem WritesOnly.linkBack {headers : Nat → Prop} {target value : Nat}
    (member : target ≠ 0 → headers target) :
    WritesOnly region headers heap (heap.linkBack target value) := by
  unfold Heap.linkBack
  split
  · exact WritesOnly.refl heap
  · exact WritesOnly.setMallocFields _ (member ‹_›)

theorem WritesOnly.takeBlock {headers : Nat → Prop} {block size next target : Nat}
    (member : headers block) (targetMember : target ≠ 0 → headers target) :
    WritesOnly region headers heap (heap.takeBlock region.base block size next target) :=
  (((WritesOnly.setMmapFields _).trans (WritesOnly.setMallocFields _ member)).trans
    (WritesOnly.linkBack targetMember)).trans (WritesOnly.setMallocFields _ member)

end VgcMalloc
