import VgcMalloc.Abstract.Heap

/-!
# The list allocator

The allocator as rewriting of block lists: a request rewrites the first block
that fits in the first MMAP that has one, and a release marks one block and
merges it with its neighbours.  The transitions of the abstract heap act in
this way on the lists of its listed regions.
-/

namespace VgcMalloc

open Tiling

/-- The listed MMAPs, each with its blocks, in list order. -/
abbrev MmapLists := List (Nat × List Entry)

namespace MmapLists

/-- Grant a request from the first MMAP that has a block for it. -/
def malloc (need length : Nat) : MmapLists → Option MmapLists
  | [] => none
  | (base, entries) :: rest =>
      match grant mallocHeaderSize need length entries with
      | some (_, after) => some ((base, after) :: rest)
      | none => (malloc need length rest).map fun others => (base, entries) :: others

/-- Release the block at an address of the MMAP at `base`. -/
def free (base addr : Nat) (lists : MmapLists) : MmapLists :=
  lists.map fun mmap =>
    if mmap.1 = base then (base, release mallocHeaderSize addr mmap.2) else mmap

variable {need length : Nat}

theorem malloc_append {before rest : MmapLists} {base : Nat} {entries after : List Entry}
    {entry : Entry}
    (skipped : ∀ mmap ∈ before, grant mallocHeaderSize need length mmap.2 = none)
    (found : grant mallocHeaderSize need length entries = some (entry, after)) :
    malloc need length (before ++ (base, entries) :: rest) =
      some (before ++ (base, after) :: rest) := by
  induction before with
  | nil => rw [List.nil_append, List.nil_append, malloc, found]
  | cons mmap before ih =>
      have none := skipped mmap List.mem_cons_self
      have tail := ih fun other member => skipped other (List.mem_cons_of_mem _ member)
      rw [List.cons_append, malloc, none]
      simp [tail]

end MmapLists

namespace AbstractHeap

/-- The lists of the listed regions. -/
def lists (heap : AbstractHeap) : MmapLists :=
  heap.listed.map fun base => (base, heap.entries base)

variable {heap after : AbstractHeap} {need length base : Nat} {entry : Entry}

/-- A grant rewrites the lists. -/
theorem lists_malloc (nodup : heap.listed.Nodup)
    (found : heap.malloc need length = some (base, entry, after)) :
    heap.lists.malloc need length = some after.lists := by
  obtain ⟨before, rest, front, back, split, none, entriesEq, skipped, fits, rfl⟩ :=
    malloc_eq_some_iff.mp found
  have granted : grant mallocHeaderSize need length (heap.entries base) =
      some (entry, front ++ grantEntry 8192 length entry ++ back) :=
    grant_eq_some_iff.mpr ⟨front, back, entriesEq, skipped, fits, rfl⟩
  have same : ∀ other ∈ before ++ rest,
      (heap.setEntries base (front ++ grantEntry 8192 length entry ++ back)).entries other =
        heap.entries other := by
    intro other member
    refine setEntries_entries_of_ne heap _ ?_
    rintro rfl
    rw [split] at nodup
    have parts := List.nodup_append.mp nodup
    rcases List.mem_append.mp member with inBefore | inRest
    · exact parts.2.2 other inBefore other List.mem_cons_self rfl
    · exact (List.nodup_cons.mp parts.2.1).1 inRest
  have listed : (heap.setEntries base (front ++ grantEntry 8192 length entry ++ back)).listed =
      before ++ base :: rest := split
  unfold lists
  rw [listed, split, List.map_append, List.map_cons, List.map_append, List.map_cons,
    setEntries_entries]
  have beforeSame : before.map (fun other => (other,
      (heap.setEntries base (front ++ grantEntry 8192 length entry ++ back)).entries other)) =
        before.map fun other => (other, heap.entries other) :=
    List.map_congr_left fun other member =>
      congrArg _ (same other (List.mem_append_left _ member))
  have restSame : rest.map (fun other => (other,
      (heap.setEntries base (front ++ grantEntry 8192 length entry ++ back)).entries other)) =
        rest.map fun other => (other, heap.entries other) :=
    List.map_congr_left fun other member =>
      congrArg _ (same other (List.mem_append_right _ member))
  rw [beforeSame, restSame]
  refine MmapLists.malloc_append ?_ granted
  intro mmap member
  obtain ⟨other, otherMem, rfl⟩ := List.mem_map.mp member
  exact grant_eq_none_iff.mpr (none other otherMem)

/-- A release rewrites the lists. -/
theorem lists_free (heap : AbstractHeap) (base addr : Nat) :
    (heap.free base addr).lists = heap.lists.free base addr := by
  unfold lists MmapLists.free
  rw [List.map_map]
  refine List.map_congr_left fun other _ => ?_
  by_cases same : other = base
  · subst same
    simp [free]
  · simp [free, setEntries_entries_of_ne heap _ same, same]

end AbstractHeap

end VgcMalloc
