import VgcMalloc.Model.State
import VgcMalloc.Tiling.Blocks
import Mathlib.Data.List.Nodup
import Mathlib.Data.List.Pairwise
import Mathlib.Logic.Function.Basic

/-!
# The abstract allocator

What the allocator is for, without pointers: a set of mapped regions, each
tiled by blocks, and the list of the regions that take part in allocation.
Its transitions: a region is created, bytes are granted from a block, a block
is released, a region is unlinked and unmapped.  All of them keep the heap
well formed.
-/

namespace VgcMalloc

open Tiling

/-- The mapped regions, the listed ones in list order, and the blocks of the
region at a base address. -/
structure AbstractHeap where
  regions : List Region
  listed : List Nat
  entries : Nat → List Entry

/-- The two regions share no address. -/
def Region.Disjoint (first second : Region) : Prop :=
  first.base + first.length ≤ second.base ∨ second.base + second.length ≤ first.base

instance : Std.Symm Region.Disjoint where
  symm _ _ apart := Or.symm apart

/-- A region of whole pages of user memory that is no larger than `limit` and
holds both headers and a page of payload. -/
structure Region.Placed (limit : Nat) (region : Region) : Prop where
  aligned : region.base % 4096 = 0
  positive : 0 < region.base
  user : region.base + region.length ≤ 2 ^ 47
  whole : region.length % 4096 = 0
  room : 16384 ≤ region.length
  small : region.length ≤ limit

namespace AbstractHeap

/-- The blocks of a region of which nothing has been granted. -/
def freshEntries (region : Region) : List Entry :=
  [⟨region.base + 4096, region.length - 12288, false⟩]

/-- The last listed region, null when there is none. -/
def lastListed (heap : AbstractHeap) : Nat := heap.listed.getLastD 0

/-- Replace the blocks of the region at `base`. -/
def setEntries (heap : AbstractHeap) (base : Nat) (entries : List Entry) : AbstractHeap :=
  { heap with entries := Function.update heap.entries base entries }

/-- Add a region at the end of the list. -/
def create (heap : AbstractHeap) (region : Region) : AbstractHeap where
  regions := region :: heap.regions
  listed := heap.listed ++ [region.base]
  entries := Function.update heap.entries region.base (freshEntries region)

/-- The bytes granted for a request: whole pages when blocks are guarded. -/
def grantLength (guarded : Bool) (need : Nat) : Nat :=
  if guarded then (need + 4095) / 4096 * 4096 else need

/-- The pointer handed out for a block: behind its header, and moved up in the
first page of its payload when blocks are guarded. -/
def pointerOf (guarded : Bool) (addr need : Nat) : Nat :=
  addr + 8192 + if guarded then 4096 - need % 4096 else 0

/-- Grant `length` bytes from the first listed block of at least `need`
bytes: the region, the chosen block and the heap afterwards. -/
def malloc (heap : AbstractHeap) (need length : Nat) : Option (Nat × Entry × AbstractHeap) :=
  heap.listed.findSome? fun base =>
    (grant mallocHeaderSize need length (heap.entries base)).map fun found =>
      (base, found.1, heap.setEntries base found.2)

/-- The first block of the regions at `bases` that fits. -/
def firstFit (heap : AbstractHeap) (need : Nat) (bases : List Nat) : Option Entry :=
  bases.findSome? fun base => Tiling.firstFit need (heap.entries base)

/-- Release the block at an address of the region at `base`. -/
def free (heap : AbstractHeap) (base addr : Nat) : AbstractHeap :=
  heap.setEntries base (release mallocHeaderSize addr (heap.entries base))

/-- Take the region at `base` off the list; the list loses all of its other
regions too when that one came first. -/
def unlink (heap : AbstractHeap) (base : Nat) : AbstractHeap :=
  { heap with listed := if heap.listed.head? = some base then [] else heap.listed.erase base }

/-- Remove the region at `base` from the mapped ones. -/
def unmap (heap : AbstractHeap) (base : Nat) : AbstractHeap :=
  { heap with regions := heap.regions.filter fun region => region.base ≠ base }

/-- The invariant of the abstract allocator; block sizes are whole pages when
the blocks are guarded. -/
structure WellFormed (limit : Nat) (guarded : Bool) (heap : AbstractHeap) : Prop where
  placed : ∀ region ∈ heap.regions, region.Placed limit
  disjoint : heap.regions.Pairwise Region.Disjoint
  tiles : ∀ region ∈ heap.regions,
    Contiguous 8192 (region.base + 4096) (heap.entries region.base)
      (region.base + region.length)
  coalesced : ∀ region ∈ heap.regions, Coalesced (heap.entries region.base)
  inside : ∀ region ∈ heap.regions,
    Inside 8192 (region.base + region.length) (heap.entries region.base)
  aligned : guarded = true → ∀ region ∈ heap.regions, Aligned 4096 (heap.entries region.base)
  mapped : ∀ base ∈ heap.listed, ∃ region ∈ heap.regions, region.base = base
  nodup : heap.listed.Nodup

variable {limit : Nat} {guarded : Bool} {heap : AbstractHeap}

@[simp]
theorem setEntries_entries (heap : AbstractHeap) (base : Nat) (entries : List Entry) :
    (heap.setEntries base entries).entries base = entries :=
  Function.update_self ..

theorem setEntries_entries_of_ne (heap : AbstractHeap) {base other : Nat}
    (entries : List Entry) (ne : other ≠ base) :
    (heap.setEntries base entries).entries other = heap.entries other :=
  Function.update_of_ne ne ..

@[simp]
theorem create_entries (heap : AbstractHeap) (region : Region) :
    (heap.create region).entries region.base = freshEntries region :=
  Function.update_self ..

theorem create_entries_of_ne (heap : AbstractHeap) {region : Region} {other : Nat}
    (ne : other ≠ region.base) : (heap.create region).entries other = heap.entries other :=
  Function.update_of_ne ne ..

theorem lastListed_mem (present : heap.lastListed ≠ 0) : heap.lastListed ∈ heap.listed := by
  unfold lastListed at present ⊢
  cases shape : heap.listed with
  | nil => simp [shape] at present
  | cons first rest =>
      rw [List.getLastD_eq_getLast?, List.getLast?_eq_some_getLast (List.cons_ne_nil _ _)]
      exact List.getLast_mem _

theorem WellFormed.empty (entries : Nat → List Entry) :
    WellFormed limit guarded ⟨[], [], entries⟩ where
  placed := by simp
  disjoint := List.Pairwise.nil
  tiles := by simp
  coalesced := by simp
  inside := by simp
  aligned := by simp
  mapped := by simp
  nodup := List.nodup_nil

/-- The invariant only concerns the blocks of mapped regions. -/
theorem WellFormed.congr {other : AbstractHeap} (wf : WellFormed limit guarded heap)
    (regions : other.regions = heap.regions) (listed : other.listed = heap.listed)
    (entries : ∀ region ∈ heap.regions,
      other.entries region.base = heap.entries region.base) :
    WellFormed limit guarded other := by
  constructor
  · rw [regions]
    exact wf.placed
  · rw [regions]
    exact wf.disjoint
  · rw [regions]
    intro region member
    rw [entries region member]
    exact wf.tiles region member
  · rw [regions]
    intro region member
    rw [entries region member]
    exact wf.coalesced region member
  · rw [regions]
    intro region member
    rw [entries region member]
    exact wf.inside region member
  · rw [regions]
    intro guardedEq region member
    rw [entries region member]
    exact wf.aligned guardedEq region member
  · rw [regions, listed]
    exact wf.mapped
  · rw [listed]
    exact wf.nodup

/-- Distinct regions are disjoint. -/
theorem WellFormed.disjoint_of_ne (wf : WellFormed limit guarded heap)
    {first second : Region} (firstMem : first ∈ heap.regions)
    (secondMem : second ∈ heap.regions) (ne : first ≠ second) : first.Disjoint second :=
  wf.disjoint.forall firstMem secondMem ne

/-- A region is determined by its base. -/
theorem WellFormed.region_eq (wf : WellFormed limit guarded heap) {first second : Region}
    (firstMem : first ∈ heap.regions) (secondMem : second ∈ heap.regions)
    (baseEq : first.base = second.base) : first = second := by
  by_contra ne
  have apart := wf.disjoint_of_ne firstMem secondMem ne
  have firstRoom := (wf.placed first firstMem).room
  have secondRoom := (wf.placed second secondMem).room
  unfold Region.Disjoint at apart
  omega

/-- Replacing the blocks of one region by blocks that satisfy the invariant. -/
theorem WellFormed.setEntries (wf : WellFormed limit guarded heap) {region : Region}
    (member : region ∈ heap.regions) {entries : List Entry}
    (tiles : Contiguous 8192 (region.base + 4096) entries (region.base + region.length))
    (coalesced : Coalesced entries) (inside : Inside 8192 (region.base + region.length) entries)
    (aligned : guarded = true → Aligned 4096 entries) :
    WellFormed limit guarded (heap.setEntries region.base entries) where
  placed := wf.placed
  disjoint := wf.disjoint
  tiles other otherMem := by
    by_cases baseEq : other.base = region.base
    · have equal := wf.region_eq otherMem member baseEq
      subst equal
      simpa [AbstractHeap.setEntries] using tiles
    · simpa [AbstractHeap.setEntries, baseEq] using wf.tiles other otherMem
  coalesced other otherMem := by
    by_cases baseEq : other.base = region.base
    · simpa [AbstractHeap.setEntries, baseEq] using coalesced
    · simpa [AbstractHeap.setEntries, baseEq] using wf.coalesced other otherMem
  inside other otherMem := by
    by_cases baseEq : other.base = region.base
    · have equal := wf.region_eq otherMem member baseEq
      subst equal
      simpa [AbstractHeap.setEntries] using inside
    · simpa [AbstractHeap.setEntries, baseEq] using wf.inside other otherMem
  aligned guardedEq other otherMem := by
    by_cases baseEq : other.base = region.base
    · simpa [AbstractHeap.setEntries, baseEq] using aligned guardedEq
    · simpa [AbstractHeap.setEntries, baseEq] using wf.aligned guardedEq other otherMem
  mapped := wf.mapped
  nodup := wf.nodup

theorem contiguous_freshEntries {region : Region} (placed : region.Placed limit) :
    Contiguous 8192 (region.base + 4096) (freshEntries region)
      (region.base + region.length) := by
  have room := placed.room
  refine ⟨rfl, ?_⟩
  simp only [Contiguous]
  omega

theorem inside_freshEntries {region : Region} (placed : region.Placed limit) :
    Inside 8192 (region.base + region.length) (freshEntries region) := by
  have room := placed.room
  intro entry member
  rw [List.mem_singleton.mp member]
  simp only
  omega

theorem aligned_freshEntries {region : Region} (placed : region.Placed limit) :
    Aligned 4096 (freshEntries region) := by
  intro entry member
  have baseUnit := placed.aligned
  have whole := placed.whole
  have room := placed.room
  simp only [freshEntries, List.mem_singleton] at member
  subst member
  refine ⟨?_, ?_, ?_⟩
  · exact Nat.dvd_of_mod_eq_zero (by simp only; omega)
  · exact Nat.dvd_of_mod_eq_zero (by simp only; omega)
  · simp only
    omega

/-- A region apart from all others has a base of its own. -/
theorem WellFormed.base_ne (wf : WellFormed limit guarded heap) {region other : Region}
    (placed : region.Placed limit)
    (apart : ∀ other ∈ heap.regions, region.Disjoint other) (member : other ∈ heap.regions) :
    other.base ≠ region.base := by
  intro baseEq
  have disjoint := apart other member
  have room := placed.room
  have otherRoom := (wf.placed other member).room
  unfold Region.Disjoint at disjoint
  omega

/-- The base of a region apart from all others is not listed. -/
theorem WellFormed.base_not_mem_listed (wf : WellFormed limit guarded heap) {region : Region}
    (placed : region.Placed limit)
    (apart : ∀ other ∈ heap.regions, region.Disjoint other) : region.base ∉ heap.listed := by
  intro listed
  obtain ⟨other, member, baseEq⟩ := wf.mapped region.base listed
  exact wf.base_ne placed apart member baseEq

/-- A freshly placed region keeps the heap well formed. -/
theorem WellFormed.create (wf : WellFormed limit guarded heap) {region : Region}
    (placed : region.Placed limit)
    (apart : ∀ other ∈ heap.regions, region.Disjoint other) :
    WellFormed limit guarded (heap.create region) := by
  have fresh : ∀ other ∈ heap.regions, other.base ≠ region.base :=
    fun other member => wf.base_ne placed apart member
  refine ⟨?_, ?_, ?_, ?_, ?_, ?_, ?_, ?_⟩
  · exact List.forall_mem_cons.mpr ⟨placed, wf.placed⟩
  · exact List.pairwise_cons.mpr ⟨apart, wf.disjoint⟩
  · refine List.forall_mem_cons.mpr ⟨?_, ?_⟩
    · simpa [AbstractHeap.create] using contiguous_freshEntries placed
    · intro other member
      simpa [AbstractHeap.create, fresh other member] using wf.tiles other member
  · refine List.forall_mem_cons.mpr ⟨?_, ?_⟩
    · simp [AbstractHeap.create, freshEntries, Coalesced]
    · intro other member
      simpa [AbstractHeap.create, fresh other member] using wf.coalesced other member
  · refine List.forall_mem_cons.mpr ⟨?_, ?_⟩
    · simpa [AbstractHeap.create] using inside_freshEntries placed
    · intro other member
      simpa [AbstractHeap.create, fresh other member] using wf.inside other member
  · intro guardedEq
    refine List.forall_mem_cons.mpr ⟨?_, ?_⟩
    · simpa [AbstractHeap.create] using aligned_freshEntries placed
    · intro other member
      simpa [AbstractHeap.create, fresh other member] using
        wf.aligned guardedEq other member
  · intro base member
    rcases List.mem_append.mp member with old | new
    · obtain ⟨other, otherMem, baseEq⟩ := wf.mapped base old
      exact ⟨other, List.mem_cons_of_mem _ otherMem, baseEq⟩
    · exact ⟨region, List.mem_cons_self, (List.mem_singleton.mp new).symm⟩
  · refine List.nodup_append.mpr ⟨wf.nodup, List.nodup_singleton _, ?_⟩
    intro base member other new
    obtain ⟨old, oldMem, baseEq⟩ := wf.mapped base member
    rw [List.mem_singleton.mp new, ← baseEq]
    exact fresh old oldMem

/-- The blocks of a region after a grant. -/
theorem WellFormed.grant (wf : WellFormed limit guarded heap) {region : Region}
    (member : region ∈ heap.regions) {front back : List Entry} {entry : Entry} {length : Nat}
    (split : heap.entries region.base = front ++ entry :: back) (isFree : entry.busy = false)
    (whole : guarded = true → 4096 ∣ length ∧ 0 < length) :
    WellFormed limit guarded
      (heap.setEntries region.base (front ++ grantEntry 8192 length entry ++ back)) := by
  have tiles := wf.tiles region member
  have coalesced := wf.coalesced region member
  have inside := wf.inside region member
  rw [split] at tiles coalesced inside
  refine wf.setEntries member (tiles.grantEntry length) (coalesced.grantEntry length isFree)
    (inside.grantEntry length tiles) ?_
  intro guardedEq
  have aligned := wf.aligned guardedEq region member
  rw [split] at aligned
  exact aligned.grantEntry (by decide) (whole guardedEq).1 (whole guardedEq).2

/-- First fit over the list fails exactly when no listed block fits. -/
theorem malloc_eq_none_iff {need length : Nat} :
    heap.malloc need length = none ↔
      ∀ base ∈ heap.listed, ∀ entry ∈ heap.entries base, ¬Fits need entry := by
  unfold malloc
  simp only [List.findSome?_eq_none_iff, Option.map_eq_none_iff, grant_eq_none_iff]

/-- First fit over the list grants the first block that fits, in the first
region that has one. -/
theorem malloc_eq_some_iff {need length base : Nat} {entry : Entry} {after : AbstractHeap} :
    heap.malloc need length = some (base, entry, after) ↔
      ∃ before rest front back, heap.listed = before ++ base :: rest ∧
        (∀ other ∈ before, ∀ x ∈ heap.entries other, ¬Fits need x) ∧
        heap.entries base = front ++ entry :: back ∧ (∀ x ∈ front, ¬Fits need x) ∧
        Fits need entry ∧
        after = heap.setEntries base (front ++ grantEntry 8192 length entry ++ back) := by
  unfold malloc
  rw [List.findSome?_eq_some_iff]
  constructor
  · rintro ⟨before, chosen, rest, split, found, none⟩
    obtain ⟨⟨picked, list⟩, granted, same⟩ := Option.map_eq_some_iff.mp found
    obtain ⟨front, back, entriesEq, skipped, fits, rfl⟩ := grant_eq_some_iff.mp granted
    obtain ⟨rfl, rfl, rfl⟩ : chosen = base ∧ picked = entry ∧ _ = after := by
      simpa only [Prod.mk.injEq] using same
    refine ⟨before, rest, front, back, split, ?_, entriesEq, skipped, fits, rfl⟩
    intro other member
    exact grant_eq_none_iff.mp (Option.map_eq_none_iff.mp (none other member))
  · rintro ⟨before, rest, front, back, split, none, entriesEq, skipped, fits, rfl⟩
    refine ⟨before, base, rest, split, ?_, ?_⟩
    · refine Option.map_eq_some_iff.mpr ⟨(entry, front ++ grantEntry 8192 length entry ++ back),
        ?_, rfl⟩
      exact grant_eq_some_iff.mpr ⟨front, back, entriesEq, skipped, fits, rfl⟩
    · intro other member
      exact Option.map_eq_none_iff.mpr (grant_eq_none_iff.mpr (none other member))

theorem firstFit_cons (heap : AbstractHeap) (need base : Nat) (rest : List Nat) :
    heap.firstFit need (base :: rest) =
      (Tiling.firstFit need (heap.entries base)).or (heap.firstFit need rest) := by
  rw [firstFit, List.findSome?_cons]
  cases Tiling.firstFit need (heap.entries base) <;> rfl

/-- A request is granted from the first block that fits. -/
theorem firstFit_of_malloc {need length base : Nat} {entry : Entry} {after : AbstractHeap}
    (found : heap.malloc need length = some (base, entry, after)) :
    heap.firstFit need heap.listed = some entry := by
  obtain ⟨before, rest, front, back, split, none, entriesEq, skipped, fits, _⟩ :=
    malloc_eq_some_iff.mp found
  refine List.findSome?_eq_some_iff.mpr ⟨before, base, rest, split, ?_, ?_⟩
  · rw [entriesEq]
    exact firstFit_of_split skipped fits
  · intro other member
    exact firstFit_eq_none_iff.mpr (none other member)

/-- The pointer length of a guarded request is made of whole pages. -/
theorem grantLength_whole {need : Nat} (positive : 0 < need) :
    4096 ∣ grantLength true need ∧ 0 < grantLength true need := by
  simp only [grantLength, if_true]
  exact ⟨Nat.dvd_mul_left _ _, by omega⟩

/-- Granting keeps the heap well formed. -/
theorem WellFormed.malloc (wf : WellFormed limit guarded heap) {need base : Nat} {entry : Entry}
    {after : AbstractHeap} (positive : guarded = true → 0 < need)
    (found : heap.malloc need (grantLength guarded need) = some (base, entry, after)) :
    WellFormed limit guarded after := by
  obtain ⟨before, rest, front, back, split, _, entriesEq, _, fits, rfl⟩ :=
    malloc_eq_some_iff.mp found
  obtain ⟨region, member, rfl⟩ := wf.mapped base (by simp [split])
  refine wf.grant member entriesEq fits.1 ?_
  intro guardedEq
  subst guardedEq
  exact grantLength_whole (positive rfl)

/-- The blocks of a region after a release. -/
theorem WellFormed.free (wf : WellFormed limit guarded heap) {region : Region}
    (member : region ∈ heap.regions) {entry : Entry}
    (entryMem : entry ∈ heap.entries region.base) :
    WellFormed limit guarded (heap.free region.base entry.addr) := by
  obtain ⟨front, back, split⟩ := List.append_of_mem entryMem
  have tiles := wf.tiles region member
  have coalesced := wf.coalesced region member
  have inside := wf.inside region member
  rw [split] at tiles coalesced inside
  unfold AbstractHeap.free
  rw [split]
  refine wf.setEntries member (tiles.release (by decide))
    (coalesced.release (by decide) tiles) (inside.release (by decide) tiles) ?_
  intro guardedEq
  have aligned := wf.aligned guardedEq region member
  rw [split] at aligned
  exact aligned.release (by decide) (by decide) tiles

/-- The list after unlinking contains only listed regions other than the
unlinked one. -/
theorem mem_listed_unlink {base other : Nat} (nodup : heap.listed.Nodup)
    (member : other ∈ (heap.unlink base).listed) : other ∈ heap.listed ∧ other ≠ base := by
  unfold unlink at member
  split at member
  · simp at member
  · exact ⟨List.mem_of_mem_erase member, fun equal =>
      (List.Nodup.not_mem_erase nodup) (equal ▸ member)⟩

/-- The list after unlinking, by the place of the unlinked region. -/
theorem unlink_listed_of_split {base : Nat} {front back : List Nat} (nodup : heap.listed.Nodup)
    (split : heap.listed = front ++ base :: back) :
    (heap.unlink base).listed = if front = [] then [] else front ++ back := by
  unfold unlink
  rw [split] at nodup ⊢
  cases front with
  | nil => simp
  | cons first rest =>
      have parts := List.nodup_append.mp nodup
      have missing : base ∉ first :: rest :=
        fun member => parts.2.2 base member base List.mem_cons_self rfl
      have ne : ¬some first = some base := fun same =>
        missing (Option.some.inj same ▸ List.mem_cons_self)
      rw [if_neg (List.cons_ne_nil _ _), List.cons_append, List.head?_cons, if_neg ne,
        ← List.cons_append, List.erase_append_right _ missing, List.erase_cons_head]

/-- Unlinking keeps the heap well formed. -/
theorem WellFormed.unlink (wf : WellFormed limit guarded heap) (base : Nat) :
    WellFormed limit guarded (heap.unlink base) where
  placed := wf.placed
  disjoint := wf.disjoint
  tiles := wf.tiles
  coalesced := wf.coalesced
  inside := wf.inside
  aligned := wf.aligned
  mapped other member := wf.mapped other (mem_listed_unlink wf.nodup member).1
  nodup := by
    unfold AbstractHeap.unlink
    split
    · exact List.nodup_nil
    · exact wf.nodup.erase base

/-- Unmapping an unlisted region keeps the heap well formed. -/
theorem WellFormed.unmap (wf : WellFormed limit guarded heap) {base : Nat}
    (unlisted : base ∉ heap.listed) : WellFormed limit guarded (heap.unmap base) where
  placed region member := wf.placed region (List.mem_filter.mp member).1
  disjoint := wf.disjoint.filter _
  tiles region member := wf.tiles region (List.mem_filter.mp member).1
  coalesced region member := wf.coalesced region (List.mem_filter.mp member).1
  inside region member := wf.inside region (List.mem_filter.mp member).1
  aligned guardedEq region member :=
    wf.aligned guardedEq region (List.mem_filter.mp member).1
  mapped other member := by
    obtain ⟨region, regionMem, baseEq⟩ := wf.mapped other member
    have ne : other ≠ base := fun equal => unlisted (equal ▸ member)
    exact ⟨region, List.mem_filter.mpr ⟨regionMem, by simpa [baseEq] using ne⟩, baseEq⟩
  nodup := wf.nodup

end AbstractHeap

end VgcMalloc
