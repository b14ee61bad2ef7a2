import VgcMalloc.Abstract.Heap
import VgcMalloc.Linked.Segment
import VgcMalloc.Model.Start
import VgcMalloc.Refine.Calls

/-!
# Memory that represents an abstract heap

Every block of the abstract heap is a header in memory, the headers of a
region are linked both ways, and so are the listed MMAPs.  The first part says
what stores to headers and changes of page protections leave alone.
-/

namespace VgcMalloc

open Tiling Linked

/-! ## Stores to headers -/

namespace Heap

variable {heap : Heap} {block other mmapBlock x : Nat}

theorem setMallocFields_eq (heap : Heap) (block : Nat) (fields : List (MallocField × Nat)) :
    heap.setMallocFields block fields =
      { heap with memory := (heap.setMallocFields block fields).memory } := by
  induction fields generalizing heap with
  | nil => rfl
  | cons first rest ih =>
      rw [setMallocFields, ih]
      rfl

theorem setMmapFields_eq (heap : Heap) (mmapBlock : Nat) (fields : List (MmapField × Nat)) :
    heap.setMmapFields mmapBlock fields =
      { heap with memory := (heap.setMmapFields mmapBlock fields).memory } := by
  induction fields generalizing heap with
  | nil => rfl
  | cons first rest ih =>
      rw [setMmapFields, ih]
      rfl

@[simp]
theorem setMallocFields_shared (fields : List (MallocField × Nat)) :
    (heap.setMallocFields block fields).shared = heap.shared  := by
  rw [setMallocFields_eq]

@[simp]
theorem setMallocFields_mapped (fields : List (MallocField × Nat)) :
    (heap.setMallocFields block fields).mapped = heap.mapped  := by
  rw [setMallocFields_eq]

@[simp]
theorem setMallocFields_protNone (fields : List (MallocField × Nat)) :
    (heap.setMallocFields block fields).protNone = heap.protNone  := by
  rw [setMallocFields_eq]

@[simp]
theorem setMmapFields_shared (fields : List (MmapField × Nat)) :
    (heap.setMmapFields mmapBlock fields).shared = heap.shared  := by
  rw [setMmapFields_eq]

@[simp]
theorem setMmapFields_mapped (fields : List (MmapField × Nat)) :
    (heap.setMmapFields mmapBlock fields).mapped = heap.mapped  := by
  rw [setMmapFields_eq]

@[simp]
theorem setMmapFields_protNone (fields : List (MmapField × Nat)) :
    (heap.setMmapFields mmapBlock fields).protNone = heap.protNone  := by
  rw [setMmapFields_eq]

@[simp]
theorem setMallocFields_mmapCalls (fields : List (MallocField × Nat)) :
    (heap.setMallocFields block fields).mmapCalls = heap.mmapCalls := by
  rw [setMallocFields_eq]

@[simp]
theorem setMmapFields_mmapCalls (fields : List (MmapField × Nat)) :
    (heap.setMmapFields mmapBlock fields).mmapCalls = heap.mmapCalls := by
  rw [setMmapFields_eq]

/-- Two heaps with the same mappings and protections can access the same
addresses. -/
theorem isAccessible_congr {after : Heap} (mapped : after.mapped = heap.mapped)
    (protNone : after.protNone = heap.protNone) (x : Nat) :
    after.isAccessible x = heap.isAccessible x := by
  rw [isAccessible, isAccessible, isMapped, isMapped, mapped, protNone]

@[simp]
theorem isAccessible_setMallocFields (fields : List (MallocField × Nat)) (x : Nat) :
    (heap.setMallocFields block fields).isAccessible x = heap.isAccessible x :=
  isAccessible_congr (by simp) (by simp) x

@[simp]
theorem isAccessible_setMmapFields (fields : List (MmapField × Nat)) (x : Nat) :
    (heap.setMmapFields mmapBlock fields).isAccessible x = heap.isAccessible x :=
  isAccessible_congr (by simp) (by simp) x

@[simp]
theorem mallocAccessible_setMallocFields (fields : List (MallocField × Nat)) (x : Nat) :
    (heap.setMallocFields block fields).mallocAccessible x = heap.mallocAccessible x :=
  mallocAccessible_congr fun y _ _ => isAccessible_setMallocFields fields y

@[simp]
theorem mallocAccessible_setMmapFields (fields : List (MmapField × Nat)) (x : Nat) :
    (heap.setMmapFields mmapBlock fields).mallocAccessible x = heap.mallocAccessible x :=
  mallocAccessible_congr fun y _ _ => isAccessible_setMmapFields fields y

/-- Stores to a block header change bytes of its second page only. -/
theorem memory_setMallocFields (fields : List (MallocField × Nat))
    (outside : x < block + 4096 ∨ block + 4240 ≤ x) :
    (heap.setMallocFields block fields).memory x = heap.memory x := by
  induction fields generalizing heap with
  | nil => rfl
  | cons first rest ih =>
      rw [setMallocFields, ih]
      exact heap.memory.setMallocField_of_outside block first.1 first.2 outside

/-- Stores to an MMAP header change bytes of the header only. -/
theorem memory_setMmapFields (fields : List (MmapField × Nat))
    (outside : x < mmapBlock ∨ mmapBlock + 105 ≤ x) :
    (heap.setMmapFields mmapBlock fields).memory x = heap.memory x := by
  induction fields generalizing heap with
  | nil => rfl
  | cons first rest ih =>
      rw [setMmapFields, ih]
      exact heap.memory.setMmapField_of_outside mmapBlock first.1 first.2 outside

theorem mallocHeader_setMallocField (heap : Heap) (block : Nat) (field : MallocField)
    (value : Nat) :
    (heap.setMallocField block field value).mallocHeader block =
      (heap.mallocHeader block).set field value :=
  heap.memory.mallocHeader_setMallocField_same block field value

theorem mmapHeader_setMmapField (heap : Heap) (mmapBlock : Nat) (field : MmapField)
    (value : Nat) :
    (heap.setMmapField mmapBlock field value).mmapHeader mmapBlock =
      (heap.mmapHeader mmapBlock).set field value :=
  heap.memory.mmapHeader_setMmapField_same mmapBlock field value

/-- The header that is stored to. -/
@[simp]
theorem mallocHeader_setMallocFields (heap : Heap) (block : Nat)
    (fields : List (MallocField × Nat)) :
    (heap.setMallocFields block fields).mallocHeader block =
      fields.foldl (fun header field => header.set field.1 field.2)
        (heap.mallocHeader block) := by
  induction fields generalizing heap with
  | nil => rfl
  | cons first rest ih =>
      rw [setMallocFields, ih, List.foldl_cons, mallocHeader_setMallocField]

/-- The MMAP header that is stored to. -/
@[simp]
theorem mmapHeader_setMmapFields (heap : Heap) (mmapBlock : Nat)
    (fields : List (MmapField × Nat)) :
    (heap.setMmapFields mmapBlock fields).mmapHeader mmapBlock =
      fields.foldl (fun header field => header.set field.1 field.2)
        (heap.mmapHeader mmapBlock) := by
  induction fields generalizing heap with
  | nil => rfl
  | cons first rest ih =>
      rw [setMmapFields, ih, List.foldl_cons, mmapHeader_setMmapField]

theorem mallocHeader_setMallocFields_apart (fields : List (MallocField × Nat))
    (apart : other + 8192 ≤ block ∨ block + 8192 ≤ other) :
    (heap.setMallocFields block fields).mallocHeader other = heap.mallocHeader other := by
  apply Bytes.mallocHeader_congr
  intro x low high
  exact memory_setMallocFields fields (by omega)

theorem mmapHeader_setMallocFields (fields : List (MallocField × Nat))
    (apart : mmapBlock + 105 ≤ block + 4096 ∨ block + 4240 ≤ mmapBlock) :
    (heap.setMallocFields block fields).mmapHeader mmapBlock = heap.mmapHeader mmapBlock := by
  apply Bytes.mmapHeader_congr
  intro x low high
  exact memory_setMallocFields fields (by omega)

theorem mallocHeader_setMmapFields (fields : List (MmapField × Nat))
    (apart : mmapBlock + 105 ≤ block + 4096 ∨ block + 4240 ≤ mmapBlock) :
    (heap.setMmapFields mmapBlock fields).mallocHeader block = heap.mallocHeader block := by
  apply Bytes.mallocHeader_congr
  intro x low high
  exact memory_setMmapFields fields (by omega)

theorem mmapHeader_setMmapFields_apart (fields : List (MmapField × Nat))
    (apart : other + 105 ≤ mmapBlock ∨ mmapBlock + 105 ≤ other) :
    (heap.setMmapFields mmapBlock fields).mmapHeader other = heap.mmapHeader other := by
  apply Bytes.mmapHeader_congr
  intro x low high
  exact memory_setMmapFields fields (by omega)

end Heap

/-! ## Changes of protection -/

theorem pageBase_mod (x : Nat) : pageBase x % 4096 = 0 := by
  simp only [pageBase, systemPageSize_eq]
  omega

namespace GuardStep

variable {env : Env} {page x : Nat} {none : Bool} {before after : Heap}

theorem isMapped (step : GuardStep env page none before after) (x : Nat) :
    after.isMapped x = before.isMapped x := by
  obtain ⟨protNone, rfl⟩ := step.same
  rfl

theorem memory (step : GuardStep env page none before after) :
    after.memory = before.memory := by
  obtain ⟨protNone, rfl⟩ := step.same
  rfl

theorem mapped (step : GuardStep env page none before after) :
    after.mapped = before.mapped := by
  obtain ⟨protNone, rfl⟩ := step.same
  rfl

theorem shared (step : GuardStep env page none before after) :
    after.shared = before.shared := by
  obtain ⟨protNone, rfl⟩ := step.same
  rfl

theorem mmapCalls (step : GuardStep env page none before after) :
    after.mmapCalls = before.mmapCalls := by
  obtain ⟨protNone, rfl⟩ := step.same
  rfl

theorem mallocHeader (step : GuardStep env page none before after) (block : Nat) :
    after.mallocHeader block = before.mallocHeader block := by
  rw [Heap.mallocHeader, Heap.mallocHeader, step.memory]

theorem mmapHeader (step : GuardStep env page none before after) (mmapBlock : Nat) :
    after.mmapHeader mmapBlock = before.mmapHeader mmapBlock := by
  rw [Heap.mmapHeader, Heap.mmapHeader, step.memory]

/-- Addresses outside of the guard page stay as accessible as they were. -/
theorem isAccessible_of_outside (step : GuardStep env page none before after)
    (outside : x < page ∨ page + 4096 ≤ x) : after.isAccessible x = before.isAccessible x := by
  have other : pageBase x ≠ page := by
    simp only [pageBase, systemPageSize_eq]
    omega
  rw [Heap.isAccessible, Heap.isAccessible, step.isMapped, step.others _ (pageBase_mod x) other]

/-- Lifting a protection makes nothing inaccessible. -/
theorem isAccessible_of_unprotect (step : GuardStep env page false before after)
    (accessible : before.isAccessible x = true) : after.isAccessible x = true := by
  simp only [Heap.isAccessible, Bool.and_eq_true, Bool.not_eq_true'] at accessible ⊢
  refine ⟨(step.isMapped x).trans accessible.1, ?_⟩
  by_cases same : pageBase x = page
  · rw [same] at accessible ⊢
    rcases step.either with kept | lifted
    · exact kept.trans accessible.2
    · exact lifted
  · exact (step.others _ (pageBase_mod x) same).trans accessible.2

end GuardStep

/-! ## Representation -/

/-- The bytes of an MMAP of full size. -/
def MmapPages.bytes (pages : MmapPages) : Nat := pages.count * 4096

theorem MmapPages.bytes_bounds (pages : MmapPages) :
    163840 ≤ pages.bytes ∧ pages.bytes ≤ 2 ^ 44 ∧ pages.bytes % 4096 = 0 ∧
      pages.bytes / 10 % 4096 = 0 := by
  obtain ⟨count, tenth, room, bounded⟩ := pages
  simp only [bytes]
  omega

/-- The status of a block. -/
def statusOf (busy : Bool) : MallocStatus := if busy then .busy else .free

/-- The header at the address of a block of the region at `base`. -/
structure HeaderRep (heap : Heap) (base : Nat) (entry : Entry) : Prop where
  size : (heap.mallocHeader entry.addr).size = entry.size
  status : (heap.mallocHeader entry.addr).status = statusOf entry.busy
  mmapBlock : (heap.mallocHeader entry.addr).mmapBlock = base
  checkStart : (heap.mallocHeader entry.addr).checkStart = checksum
  checkEnd : (heap.mallocHeader entry.addr).checkEnd = checksum
  accessible : heap.mallocAccessible entry.addr = true

/-- The headers of the blocks, linked from `before` to the end of the list. -/
structure BlockRep (heap : Heap) (base before : Nat) (entries : List Entry) : Prop where
  links : Segment heap.nextBlock heap.prevBlock before (entries.map Entry.addr) 0
  headers : ∀ entry ∈ entries, HeaderRep heap base entry

/-- The header of an MMAP with `count` blocks in use. -/
structure MmapRep (heap : Heap) (region : Region) (count : Nat) : Prop where
  size : (heap.mmapHeader region.base).size = region.length
  maxSize : (heap.mmapHeader region.base).maxSize = region.length - 12288
  elements : (heap.mmapHeader region.base).elements = count
  checkStart : (heap.mmapHeader region.base).checkStart = checksum
  checkEnd : (heap.mmapHeader region.base).checkEnd = checksum
  accessible : heap.mmapAccessible region.base = true

/-- A region with its header and its blocks. -/
structure RegionRep (heap : Heap) (region : Region) (entries : List Entry) : Prop where
  mmap : MmapRep heap region (busyCount entries)
  blocks : BlockRep heap region.base 0 entries

/-- The regions and links in memory stand for a well-formed abstract heap. -/
structure Stands (pages : MmapPages) (guarded : Bool) (heap : Heap)
    (abstract : AbstractHeap) : Prop where
  wellFormed : abstract.WellFormed pages.bytes guarded
  mapped : heap.mapped = abstract.regions
  regions : ∀ region ∈ abstract.regions,
    RegionRep heap region (abstract.entries region.base)
  links : Segment heap.nextMmap heap.prevMmap 0 abstract.listed 0
  pageSize : heap.shared.pageSize = 4096
  blockSize : heap.shared.mmapBlockSize = pages.bytes
  mode : heap.shared.isMprotectEnabled = guarded

/-- The heap in memory represents an abstract heap: its list of MMAPs starts at
`mmapBlockFirst`. -/
structure Represents (pages : MmapPages) (guarded : Bool) (heap : Heap)
    (abstract : AbstractHeap) : Prop extends Stands pages guarded heap abstract where
  first : heap.shared.mmapBlockFirst = abstract.listed.headD 0

theorem HeaderRep.congr {heap after : Heap} {base : Nat} {entry : Entry}
    (rep : HeaderRep heap base entry)
    (same : after.mallocHeader entry.addr = heap.mallocHeader entry.addr)
    (accessible : after.mallocAccessible entry.addr = true) : HeaderRep after base entry :=
  ⟨same ▸ rep.size, same ▸ rep.status, same ▸ rep.mmapBlock, same ▸ rep.checkStart,
    same ▸ rep.checkEnd, accessible⟩

theorem BlockRep.congr {heap after : Heap} {base before : Nat} {entries : List Entry}
    (rep : BlockRep heap base before entries)
    (same : ∀ entry ∈ entries, after.mallocHeader entry.addr = heap.mallocHeader entry.addr)
    (accessible : ∀ entry ∈ entries, after.mallocAccessible entry.addr = true) :
    BlockRep after base before entries := by
  constructor
  · apply rep.links.congr
    · intro node member
      obtain ⟨entry, entryMem, rfl⟩ := List.mem_map.mp member
      exact congrArg MallocHeader.next (same entry entryMem)
    · intro node member
      obtain ⟨entry, entryMem, rfl⟩ := List.mem_map.mp member
      exact congrArg MallocHeader.prev (same entry entryMem)
  · intro entry member
    exact (rep.headers entry member).congr (same entry member) (accessible entry member)

theorem MmapRep.congr {heap after : Heap} {region : Region} {count : Nat}
    (rep : MmapRep heap region count)
    (same : after.mmapHeader region.base = heap.mmapHeader region.base)
    (accessible : after.mmapAccessible region.base = true) : MmapRep after region count :=
  ⟨same ▸ rep.size, same ▸ rep.maxSize, same ▸ rep.elements, same ▸ rep.checkStart,
    same ▸ rep.checkEnd, accessible⟩

/-- A tiled region only depends on its own bytes and their protection. -/
theorem RegionRep.congr {heap after : Heap} {region : Region} {entries : List Entry}
    (rep : RegionRep heap region entries)
    (tiles : Contiguous 8192 (region.base + 4096) entries (region.base + region.length))
    (room : 16384 ≤ region.length)
    (memory : ∀ x, region.base ≤ x → x < region.base + region.length →
      after.memory x = heap.memory x)
    (accessible : ∀ x, region.base ≤ x → x < region.base + region.length →
      heap.isAccessible x = true → after.isAccessible x = true) :
    RegionRep after region entries := by
  constructor
  · apply rep.mmap.congr
    · exact Bytes.mmapHeader_congr fun x low high => memory x low (by omega)
    · have before := rep.mmap.accessible
      simp only [Heap.mmapAccessible, Bool.and_eq_true] at before ⊢
      exact ⟨accessible _ (by omega) (by omega) before.1,
        accessible _ (by omega) (by omega) before.2⟩
  · apply rep.blocks.congr
    · intro entry member
      have bounds := tiles.bounds member
      exact Bytes.mallocHeader_congr fun x low high => memory x (by omega) (by omega)
    · intro entry member
      have bounds := tiles.bounds member
      exact Heap.mallocAccessible_mono (rep.blocks.headers entry member).accessible
        fun x low high => accessible x (by omega) (by omega)

end VgcMalloc
