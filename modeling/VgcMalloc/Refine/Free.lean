import VgcMalloc.Model.Client
import VgcMalloc.Refine.Unlink

/-!
# `vgc_free`

The call on a represented heap: a pointer that resolves to a block in use
releases it, and an MMAP left without blocks in use disappears.  Pointers that
the call recognises as wrong change nothing.
-/

namespace VgcMalloc

open Program Tiling Linked

variable {env : Env} {heap after : Heap} {held : List Mutex} {pages : MmapPages}
  {guarded : Bool} {abstract : AbstractHeap} {region : Region} {entry : Entry} {ptr calls : Nat}

/-! ## Rounding of pointers -/

/-- The mask clears the offset in the page. -/
theorem pageMask_eq (bound : ptr < 2 ^ 64) : pageMask 4096 ptr = ptr - ptr % 4096 := by
  have mask : wordRange - 1 - (4096 - 1) = (2 ^ 52 - 1) <<< 12 := by decide
  have whole : ptr - ptr % 4096 = (ptr >>> 12) <<< 12 := by
    rw [Nat.shiftLeft_eq, Nat.shiftRight_eq_div_pow]
    omega
  rw [pageMask, mask, whole]
  apply Nat.eq_of_testBit_eq
  intro i
  rw [Nat.testBit_and, Nat.testBit_shiftLeft, Nat.testBit_shiftLeft, Nat.testBit_shiftRight,
    Nat.testBit_two_pow_sub_one]
  by_cases high : 12 ≤ i
  · have index : 12 + (i - 12) = i := by omega
    rw [index]
    by_cases inside : i - 12 < 52
    · simp [high, inside]
    · have zero : ptr.testBit i = false :=
        Nat.testBit_lt_two_pow (Nat.lt_of_lt_of_le bound (Nat.pow_le_pow_right (by decide)
          (by omega)))
      simp [zero]
  · simp [high]

/-- Where the pointers that resolve to a header lie. -/
theorem headerOf_bounds {shared : Shared} {addr : Nat} (bound : ptr < 2 ^ 64)
    (pageSize : shared.pageSize = 4096) (fits : addr + 8192 < 2 ^ 64)
    (resolved : headerOf shared ptr = addr) :
    addr + 8192 ≤ ptr ∧
      ptr < addr + 8192 + (if shared.isMprotectEnabled then 4096 - addr % 4096 else 1) := by
  have back : ∀ rounded, rounded < 2 ^ 64 → sub64 rounded 8192 = addr →
      rounded = addr + 8192 := by
    intro rounded small same
    simp only [sub64, wordRange_eq] at same
    omega
  unfold headerOf roundPointer at resolved
  rw [pageSize, mallocHeaderSize_eq] at resolved
  cases mode : shared.isMprotectEnabled with
  | false =>
      rw [mode] at resolved
      have same := back ptr bound resolved
      simp only [Bool.false_eq_true, if_false]
      omega
  | true =>
      rw [mode] at resolved
      simp only [if_true] at resolved ⊢
      rw [pageMask_eq bound] at resolved
      have same := back _ (by omega) resolved
      omega

/-! ## Outcomes -/

/-- A block in use has been released; its MMAP disappears when it was the only
one in use. -/
inductive FreeOutcome (env : Env) (pages : MmapPages) (guarded : Bool)
    (abstract : AbstractHeap) (region : Region) (entry : Entry) (heap after : Heap) : Prop where
  | released (others : busyCount (abstract.entries region.base) ≠ 1)
      (step : RegionStep env region (abstract.entries region.base)
        (release 8192 entry.addr (abstract.entries region.base)) (fun page => page = entry.addr)
        heap after)
  | vanished (only : busyCount (abstract.entries region.base) = 1) (middle : Heap)
      (abstract' : AbstractHeap)
      (step : RegionStep env region (abstract.entries region.base)
        (release 8192 entry.addr (abstract.entries region.base)) (fun page => page = entry.addr)
        heap middle)
      (vanished : Vanished env pages guarded (abstract.free region.base entry.addr) abstract'
        region middle after)

/-- A released block is released in the represented heap. -/
theorem Represents.free (rep : Represents pages guarded heap abstract)
    (member : region ∈ abstract.regions) (entryMem : entry ∈ abstract.entries region.base)
    (step : RegionStep env region (abstract.entries region.base)
      (release 8192 entry.addr (abstract.entries region.base)) (fun page => page = entry.addr)
      heap after) :
    Represents pages guarded after (abstract.free region.base entry.addr) := by
  have wellFormed := rep.wellFormed.free member entryMem
  unfold AbstractHeap.free at wellFormed ⊢
  rw [mallocHeaderSize_eq] at wellFormed ⊢
  exact rep.edit member wellFormed step

@[simp]
theorem Heap.countDown_shared (heap : Heap) (mmapBlock : Nat) :
    (heap.countDown mmapBlock).shared = heap.shared := by
  simp [Heap.countDown]

@[simp]
theorem Heap.countDown_mapped (heap : Heap) (mmapBlock : Nat) :
    (heap.countDown mmapBlock).mapped = heap.mapped := by
  simp [Heap.countDown]

/-- The region can still be walked when its count has changed. -/
theorem RegionSite.countDown {entries : List Entry}
    (site : RegionSite pages heap region entries) :
    Walkable pages (heap.countDown region.base) region entries where
  placed := site.placed
  tiles := site.tiles
  rep := BlockRep.countDown site.placed site.tiles site.rep.blocks
  maxSize := by
    simp [Heap.countDown, MmapHeader.set, site.rep.mmap.maxSize]
  accessible := by
    simpa [Heap.countDown, Heap.mmapAccessible] using site.rep.mmap.accessible

/-- `releaseBlock` on an MMAP whose count has been lowered. -/
theorem yields_releaseCounted (site : RegionSite pages heap region (abstract.entries region.base))
    (entryMem : entry ∈ abstract.entries region.base) (busy : entry.busy = true) :
    Yields seen (releaseBlock entry.addr) env (heap.countDown region.base, held) fun _ final =>
      final.2 = held ∧ RegionStep env region (abstract.entries region.base)
        (release 8192 entry.addr (abstract.entries region.base)) (fun page => page = entry.addr)
        heap final.1 := by
  have walk := site.countDown
  obtain ⟨front, back, split⟩ := List.append_of_mem entryMem
  rw [split] at site walk ⊢
  have mapped : region ∈ (heap.countDown region.base).mapped := by
    simpa using site.mapped
  have pageSize : (heap.countDown region.base).shared.pageSize = 4096 := by
    simpa using site.pageSize
  refine (yields_releaseBlock site.placed mapped pageSize site.tiles walk.rep).mono ?_
  rintro _ final ⟨same, step⟩
  exact ⟨same, step.regionStep site busy⟩

/-- The first header of a represented MMAP tells whether it is the only one. -/
theorem RegionRep.first_next_iff {entries : List Entry} (placed : region.Placed pages.bytes)
    (tiles : Contiguous 8192 (region.base + 4096) entries (region.base + region.length))
    (rep : RegionRep heap region entries) :
    heap.mallocAccessible (firstMallocHeaderInMMAP region.base) = true ∧
      ((heap.mallocHeader (firstMallocHeaderInMMAP region.base)).next = 0 ↔
        entries.length = 1) := by
  have walk : Walkable pages heap region entries :=
    ⟨placed, tiles, rep.blocks, rep.mmap.maxSize, rep.mmap.accessible⟩
  have room := placed.room
  rw [walk.first]
  cases entries with
  | nil =>
      have ends : region.base + 4096 = region.base + region.length := tiles
      omega
  | cons first rest =>
      have next : (heap.mallocHeader first.addr).next = (rest.map Entry.addr).headD 0 :=
        rep.blocks.links.2.1
      rw [List.map_cons, List.headD_cons, next]
      refine ⟨rep.blocks.head.accessible, ?_⟩
      cases rest with
      | nil => simp
      | cons second rest =>
          have nonzero := walk.nonzero second (by simp)
          simp [nonzero]

/-- `releaseBlock` on an MMAP whose count has been lowered, with its calls. -/
theorem counted_releaseCounted
    (site : RegionSite pages heap region (abstract.entries region.base))
    (entryMem : entry ∈ abstract.entries region.base) (busy : entry.busy = true) :
    Yields counted (releaseBlock entry.addr) env ((heap.countDown region.base, held), calls)
      fun _ after => (after.1.2 = held ∧ RegionStep env region (abstract.entries region.base)
        (release 8192 entry.addr (abstract.entries region.base)) (fun page => page = entry.addr)
        heap after.1.1) ∧
          after.2 + (release 8192 entry.addr (abstract.entries region.base)).length =
            calls + 1 + (abstract.entries region.base).length := by
  have released : Yields seen (releaseBlock entry.addr) env (heap.countDown region.base, held) _ :=
    yields_releaseCounted site entryMem busy
  apply (released.uncounted calls).and
  have walk := site.countDown
  have tiles := site.tiles
  obtain ⟨front, back, split⟩ := List.append_of_mem entryMem
  rw [split] at walk tiles ⊢
  have mapped : region ∈ (heap.countDown region.base).mapped := by
    simpa using site.mapped
  have pageSize : (heap.countDown region.base).shared.pageSize = 4096 := by
    simpa using site.pageSize
  exact calls_releaseBlock site.placed mapped pageSize tiles walk.rep

/-- How `vgc_free` of a pointer to a block in use ends, whatever its calls
answer, and the number of calls made by then. -/
inductive FreeEnd (env : Env) (abstract : AbstractHeap) (region : Region) (entry : Entry)
    (heap : Heap) (held : List Mutex) (calls : Nat) : Heap → Nat → Prop where
  | unlocked (count : Nat) (refused : ¬env.Locks held calls .shared) :
      FreeEnd env abstract region entry heap held calls heap count
  | uncounted (count : Nat) (shared : env.Locks held calls .shared)
      (refused : ¬env.Locks held (calls + 1) (.mmapBlock region.base)) :
      FreeEnd env abstract region entry heap held calls (heap.countDown region.base) count
  | released (after : Heap) (count : Nat) (shared : env.Locks held calls .shared)
      (own : env.Locks held (calls + 1) (.mmapBlock region.base))
      (others : busyCount (abstract.entries region.base) ≠ 1)
      (step : RegionStep env region (abstract.entries region.base)
        (release 8192 entry.addr (abstract.entries region.base)) (fun page => page = entry.addr)
        heap after)
      (counts : count + (release 8192 entry.addr (abstract.entries region.base)).length =
        calls + 5 + (abstract.entries region.base).length) :
      FreeEnd env abstract region entry heap held calls after count
  | emptied (middle after : Heap) (count : Nat) (shared : env.Locks held calls .shared)
      (own : env.Locks held (calls + 1) (.mmapBlock region.base))
      (only : busyCount (abstract.entries region.base) = 1)
      (step : RegionStep env region (abstract.entries region.base)
        (release 8192 entry.addr (abstract.entries region.base)) (fun page => page = entry.addr)
        heap middle)
      (ends : UnlinkEnd env middle held (calls + 2 + (abstract.entries region.base).length) region
        after) :
      FreeEnd env abstract region entry heap held calls after count

/-! ## The checks of `vgc_free` -/

theorem yields_isInMmapBlock (rep : Represents pages guarded heap abstract) :
    Yields seen (isInMmapBlock ptr) env (heap, held) fun value after =>
      after = (heap, held) ∧
        (value = true ↔ ∃ base ∈ abstract.listed, heap.InRange ptr base) := by
  have home : ∀ base ∈ abstract.listed, base ≠ 0 ∧ heap.mmapAccessible base = true ∧
      base + heap.shared.mmapBlockSize < 2 ^ 64 := by
    intro base member
    obtain ⟨region, regionMem, rfl⟩ := rep.listed member
    have placed := rep.wellFormed.placed region regionMem
    have positive := placed.positive
    have user := placed.user
    have limit := pages.bytes_bounds
    rw [rep.blockSize]
    exact ⟨by omega, (rep.regions region regionMem).mmap.accessible, by omega⟩
  unfold isInMmapBlock
  refine Yields.seq yields_getShared ?_
  rintro _ _ ⟨rfl, rfl⟩
  rw [rep.first]
  exact yields_isInMmapBlockFrom rep.links (fun base member => (home base member).1)
    (fun base member => (home base member).2.1) (fun base member => (home base member).2.2)
    rep.listed_length

/-- A pointer that resolves to a block lies in the range of its MMAP. -/
theorem inRange_of_headerOf (rep : Represents pages guarded heap abstract)
    (member : region ∈ abstract.regions) (entryMem : entry ∈ abstract.entries region.base)
    (bound : ptr < 2 ^ 64) (resolved : headerOf heap.shared ptr = entry.addr) :
    heap.InRange ptr region.base := by
  have placed := rep.wellFormed.placed region member
  have tileBounds := header_bounds placed (rep.wellFormed.tiles region member) entryMem
  have inside := rep.wellFormed.inside region member entry entryMem
  have bounds := headerOf_bounds bound rep.pageSize (by omega) resolved
  have small := placed.small
  have baseAligned := placed.aligned
  have whole := placed.whole
  rw [rep.mode] at bounds
  unfold Heap.InRange
  rw [rep.blockSize]
  cases guarded with
  | false =>
      simp only [Bool.false_eq_true, if_false] at bounds
      omega
  | true =>
      have unit := (rep.wellFormed.aligned rfl region member entry entryMem).1
      have aligned : entry.addr % 4096 = 0 := Nat.mod_eq_zero_of_dvd unit
      simp only [if_true] at bounds
      omega

/-! ## `vgc_free` in parts -/

/-- The checks of `vgc_free` on its pointer, in front of what releases the
block. -/
def freeAround (release : Nat → Nat → Nat → Vgc Unit) (ptr : Nat) : Vgc Unit := do
  if ptr = 0 then
    vgcMessage errorLevel "vgc_free" "ptr" "Warning" "variable points to zero" []
    return ()
  if !(← pthreadMutexLock .shared) then
    vgcMessage errorLevel "vgc_free" "PTHREAD_mutexLock" "Error"
      "can't get lock on shared mutex" []
    return ()
  if !(← isInMmapBlock ptr) then
    unlockShared
    vgcMessage errorLevel "vgc_free" "isInMmapBlock" "Error" "points outside of MMAP at" [ptr]
    return ()
  let shared ← getShared
  let rounded := roundPointer shared ptr
  let mallocBlock := headerOf shared ptr
  let header ← readMallocHeader mallocBlock
  if header.checkStart ≠ checksum ∨ header.checkEnd ≠ checksum then
    reportChecksum "mallocBlock" header.size rounded header.checkStart rounded header.mmapBlock
    return ()
  let mmapHeader ← readMmapHeader header.mmapBlock
  if mmapHeader.checkStart ≠ checksum ∨ mmapHeader.checkEnd ≠ checksum then
    reportChecksum "mmapBlock" header.size rounded mmapHeader.checkStart header.mmapBlock
      header.mmapBlock
    return ()
  release rounded mallocBlock header.mmapBlock

/-- The release up to the lock of the MMAP, in front of what is done under
it. -/
def releaseAround (inside : MallocHeader → Vgc Unit) (ptr mallocBlock mmapBlock : Nat) :
    Vgc Unit := do
  let mmapHeader ← readMmapHeader mmapBlock
  writeMmapField mmapBlock .elements (sub64 mmapHeader.elements 1)
  let header ← readMallocHeader mallocBlock
  vgcMessage vgcMallocDebugLevel "vgc_free" "Free" "" ""
    [header.size, ptr, sub64 mmapHeader.elements 1]
  if !(← pthreadMutexLock (.mmapBlock mmapBlock)) then
    unlockShared
    vgcMessage errorLevel "vgc_free" "PTHREAD_mutexLock" "Error"
      "can't get lock on mmapBlock" []
    return ()
  inside header

/-- The release under the lock of the MMAP, behind a check of its list. -/
def releaseChecked (check : Vgc Bool) (ptr mallocBlock mmapBlock : Nat) (header : MallocHeader) :
    Vgc Unit := do
  if !(← check) then
    unlockMmapBlock mmapBlock
    unlockShared
    vgcMessage errorLevel "vgc_free" "checkMmapBlock" "Error"
      "The MMAP for vgc_free is unstable while freeing memory" []
    return ()
  let shared ← getShared
  when shared.isMprotectEnabled
    (vgcMessage vgcMallocDebugLevel "vgc_free" "Unprotect" "" ""
      [mallocBlock, ptr, add64 ptr header.size, header.size])
  releaseBlock mallocBlock
  let first ← readMallocHeader (firstMallocHeaderInMMAP mmapBlock)
  if first.next = 0 then
    releaseMMAP mmapBlock
    return ()
  unlockMmapBlock mmapBlock
  unlockShared

/-- `vgc_free` with another check in the place of `checkMmapBlock`. -/
def vgcFreeWith (check : Nat → Vgc Bool) (ptr : Nat) : Vgc Unit :=
  freeAround (fun rounded mallocBlock mmapBlock =>
    releaseAround (releaseChecked (check mmapBlock) rounded mallocBlock mmapBlock) rounded
      mallocBlock mmapBlock) ptr

theorem vgcFree_eq (ptr : Nat) : vgcFree ptr = vgcFreeWith (checkMmapBlock "vgc_free") ptr :=
  rfl

/-- A pointer to a block in use passes the checks. -/
theorem counted_freeAround {release : Nat → Nat → Nat → Vgc Unit}
    {property : Unit → (Heap × List Mutex) × Nat → Prop}
    (rep : Represents pages guarded heap abstract)
    (member : region ∈ abstract.regions) (listed : region.base ∈ abstract.listed)
    (entryMem : entry ∈ abstract.entries region.base) (bound : ptr < 2 ^ 64)
    (resolved : headerOf heap.shared ptr = entry.addr)
    (unlocked : ¬env.Locks held calls .shared → property () ((heap, held), calls + 1))
    (released : env.Locks held calls .shared →
      Yields counted (release (roundPointer heap.shared ptr) entry.addr region.base) env
        ((heap, .shared :: held), calls + 1) property) :
    Yields counted (freeAround release ptr) env ((heap, held), calls) property := by
  have inRange := inRange_of_headerOf rep member entryMem bound resolved
  have regionRep := rep.regions region member
  have header := regionRep.blocks.headers entry entryMem
  unfold freeAround
  rw [if_neg (Nat.ne_of_gt (Nat.lt_of_le_of_lt (Nat.zero_le _) inRange.1))]
  apply Yields.seq (counted_pthreadMutexLock rfl)
  rintro _ _ ⟨rfl, rfl⟩
  apply Yields.ite
  · intro fails
    have refused : ¬env.Locks held calls .shared := by
      simpa using fails
    rw [if_neg refused]
    apply counted_vgcMessage_seq
    apply Yields.pure
    exact unlocked refused
  intro locks
  have shared : env.Locks held calls .shared := by
    simpa using locks
  rw [if_pos shared]
  apply Yields.seq ((yields_isInMmapBlock rep).quietly keeps_isInMmapBlock (calls + 1))
  rintro value ⟨_, _⟩ ⟨⟨rfl, hit⟩, rfl⟩
  rw [hit.mpr ⟨region.base, listed, inRange⟩]
  simp only [Bool.not_true, Bool.false_eq_true, if_false]
  apply Yields.seq (yields_getShared.silently keeps_getShared (calls + 1))
  rintro _ _ ⟨rfl, rfl⟩
  rw [resolved]
  apply Yields.seq ((yields_readMallocHeader header.accessible).silently
    (keeps_readMallocHeader entry.addr) (calls + 1))
  rintro _ _ ⟨rfl, rfl⟩
  rw [header.checkStart, header.checkEnd, header.mmapBlock, if_neg (by simp)]
  apply Yields.seq ((yields_readMmapHeader regionRep.mmap.accessible).silently
    (keeps_readMmapHeader region.base) (calls + 1))
  rintro _ _ ⟨rfl, rfl⟩
  rw [regionRep.mmap.checkStart, regionRep.mmap.checkEnd, if_neg (by simp)]
  exact released shared

/-- The count is lowered before the MMAP is locked. -/
theorem counted_releaseAround {inside : MallocHeader → Vgc Unit} {rounded : Nat}
    {property : Unit → (Heap × List Mutex) × Nat → Prop}
    (site : RegionSite pages heap region (abstract.entries region.base))
    (entryMem : entry ∈ abstract.entries region.base)
    (refused : ∀ rest count, ¬env.Locks held (calls + 1) (.mmapBlock region.base) →
      ((∀ call, env.mutexUnlock call = true) → rest = held) →
        property () ((heap.countDown region.base, rest), count))
    (locked : ∀ header, env.Locks held (calls + 1) (.mmapBlock region.base) →
      Yields counted (inside header) env
        ((heap.countDown region.base, .mmapBlock region.base :: .shared :: held), calls + 2)
        property) :
    Yields counted (releaseAround inside rounded entry.addr region.base) env
      ((heap, .shared :: held), calls + 1) property := by
  have walk := site.countDown
  have locks_iff : env.Locks (.shared :: held) (calls + 1) (.mmapBlock region.base) ↔
      env.Locks held (calls + 1) (.mmapBlock region.base) := by
    apply Env.locks_congr
    simp
  unfold releaseAround
  apply Yields.seq ((yields_readMmapHeader site.rep.mmap.accessible).silently
    (keeps_readMmapHeader region.base) (calls + 1))
  rintro _ _ ⟨rfl, rfl⟩
  apply Yields.seq ((yields_writeMmapField _ _ site.rep.mmap.accessible).quietly
    silent_writeMmapField (calls + 1))
  rintro _ ⟨_, _⟩ ⟨rfl, rfl⟩
  have counts : heap.setMmapField region.base .elements
      (sub64 (heap.mmapHeader region.base).elements 1) = heap.countDown region.base := rfl
  rw [counts]
  generalize heap.countDown region.base = lowered at walk refused locked
  apply Yields.seq ((yields_readMallocHeader (walk.rep.headers entry entryMem).accessible).silently
    (keeps_readMallocHeader entry.addr) (calls + 1))
  rintro _ _ ⟨rfl, rfl⟩
  apply counted_vgcMessage_seq
  have ownOpen : mutexAccessible lowered (.mmapBlock region.base) = true := walk.accessible
  apply Yields.seq (counted_pthreadMutexLock ownOpen)
  rintro _ _ ⟨rfl, rfl⟩
  apply Yields.ite
  · intro fails
    have unlocked : ¬env.Locks (.shared :: held) (calls + 1) (.mmapBlock region.base) := by
      simpa using fails
    rw [if_neg unlocked]
    apply Yields.seq (counted_unlock rfl)
    rintro _ ⟨⟨_, rest⟩, count⟩ ⟨rfl, _, _, back⟩
    apply counted_vgcMessage_seq
    apply Yields.pure
    apply refused rest count (mt locks_iff.mpr unlocked)
    intro unlocks
    exact (back unlocks).trans (by simp)
  · intro locks
    have own : env.Locks (.shared :: held) (calls + 1) (.mmapBlock region.base) := by
      simpa using locks
    rw [if_pos own]
    exact locked _ (locks_iff.mp own)

/-- When the check fails, the mutexes are given back. -/
theorem counted_releaseChecked_false {rounded : Nat} {header : MallocHeader} {base : Nat}
    (accessible : heap.mmapAccessible base = true) :
    Yields counted (releaseChecked (pure false) rounded entry.addr base header) env
      ((heap, .mmapBlock base :: .shared :: held), calls) fun _ final =>
        final.1.1 = heap ∧ ((∀ call, env.mutexUnlock call = true) → final.1.2 = held) := by
  have open_ : mutexAccessible heap (.mmapBlock base) = true := accessible
  have fails : Yields counted (pure false : Vgc Bool) env
      ((heap, .mmapBlock base :: .shared :: held), calls) fun value after =>
        value = false ∧ after = ((heap, .mmapBlock base :: .shared :: held), calls) :=
    Yields.pure ⟨rfl, rfl⟩
  unfold releaseChecked
  apply Yields.seq fails
  rintro _ _ ⟨rfl, rfl⟩
  simp only [Bool.not_false, if_true]
  apply Yields.seq (counted_unlock open_)
  rintro _ ⟨⟨_, rest⟩, _⟩ ⟨rfl, _, _, own⟩
  apply Yields.seq (counted_unlock rfl)
  rintro _ ⟨⟨_, last⟩, _⟩ ⟨rfl, _, _, shared⟩
  apply counted_vgcMessage_seq
  apply Yields.pure
  refine ⟨rfl, ?_⟩
  intro unlocks
  have outer : rest = _ := own unlocks
  rw [outer] at shared
  exact (shared unlocks).trans (by simp)

/-- The statements of `vgc_free` under the lock of the MMAP. -/
theorem counted_releaseChecked {rounded : Nat} {header : MallocHeader}
    (rep : Represents pages guarded heap abstract)
    (member : region ∈ abstract.regions) (listed : region.base ∈ abstract.listed)
    (entryMem : entry ∈ abstract.entries region.base) (busy : entry.busy = true)
    (shared : env.Locks held calls .shared)
    (own : env.Locks held (calls + 1) (.mmapBlock region.base)) :
    Yields counted (releaseChecked (checkMmapBlock "vgc_free" region.base) rounded entry.addr
        region.base header) env
      ((heap.countDown region.base, .mmapBlock region.base :: .shared :: held), calls + 2)
      fun _ final =>
        FreeEnd env abstract region entry heap held calls final.1.1 final.2 ∧
          ((∀ call, env.mutexUnlock call = true) → final.1.2 = held) := by
  have site := rep.toStands.site member
  have walk := site.countDown
  have releases : Yields counted (releaseBlock entry.addr) env
      ((heap.countDown region.base, .mmapBlock region.base :: .shared :: held), calls + 2) _ :=
    counted_releaseCounted site entryMem busy
  have blockSize : (heap.countDown region.base).shared.mmapBlockSize = pages.bytes := by
    simpa using site.blockSize
  have single : (release 8192 entry.addr (abstract.entries region.base)).length = 1 ↔
      busyCount (abstract.entries region.base) = 1 := by
    obtain ⟨front, back, split⟩ := List.append_of_mem entryMem
    have tiles := site.tiles
    have coalesced := rep.wellFormed.coalesced region member
    rw [split] at tiles coalesced ⊢
    exact release_length_eq_one_iff (by decide) tiles coalesced busy
  unfold releaseChecked
  generalize heap.countDown region.base = lowered at walk releases blockSize
  apply Yields.seq ((yields_checkMmapBlock walk.readable blockSize).silently
    (keeps_checkMmapBlock silent_emit) (calls + 2))
  rintro _ _ ⟨rfl, rfl⟩
  simp only [Bool.not_true, Bool.false_eq_true, if_false]
  apply Yields.seq (yields_getShared.silently keeps_getShared (calls + 2))
  rintro _ _ ⟨rfl, rfl⟩
  have unchanged : Yields counted (when (lowered.shared.isMprotectEnabled = true)
      (vgcMessage vgcMallocDebugLevel "vgc_free" "Unprotect" "" ""
        [entry.addr, rounded, add64 rounded header.size, header.size])) env
      ((lowered, .mmapBlock region.base :: .shared :: held), calls + 2) fun _ after =>
        after = ((lowered, .mmapBlock region.base :: .shared :: held), calls + 2) :=
    Yields.when (fun _ => counted_vgcMessage) fun _ => rfl
  apply Yields.seq unchanged
  rintro _ _ rfl
  apply Yields.seq releases
  rintro _ ⟨⟨middle, _⟩, count⟩ ⟨⟨rfl, step⟩, counts⟩
  simp only at counts
  have freed := rep.free member entryMem step
  have freedTiles := freed.wellFormed.tiles region member
  have freedEntries : (abstract.free region.base entry.addr).entries region.base =
      release 8192 entry.addr (abstract.entries region.base) := by
    rw [AbstractHeap.free, AbstractHeap.setEntries_entries, mallocHeaderSize_eq]
  rw [freedEntries] at freedTiles
  obtain ⟨firstOpen, firstNext⟩ := step.rep.first_next_iff site.placed freedTiles
  apply Yields.seq ((yields_readMallocHeader firstOpen).silently (keeps_readMallocHeader _) count)
  rintro _ _ ⟨rfl, rfl⟩
  apply Yields.ite
  · intro only
    have one := single.mp (firstNext.mp only)
    have length := single.mpr one
    obtain rfl : count = calls + 2 + (abstract.entries region.base).length := by omega
    apply Yields.seq (counted_releaseMMAP freed member listed)
    rintro _ ⟨⟨last, rest⟩, final⟩ ⟨ends, back⟩
    apply Yields.pure
    exact ⟨.emptied middle last final shared own one step ends, back⟩
  · intro more
    have many : busyCount (abstract.entries region.base) ≠ 1 := fun one =>
      more (firstNext.mpr (single.mpr one))
    have middleOpen : mutexAccessible middle (.mmapBlock region.base) = true :=
      step.rep.mmap.accessible
    apply Yields.seq (counted_unlock middleOpen)
    rintro _ ⟨⟨_, taken⟩, _⟩ ⟨rfl, rfl, _, first⟩
    apply (counted_unlock rfl).mono
    rintro _ ⟨⟨_, rest⟩, final⟩ ⟨rfl, finalEq, _, second⟩
    simp only at finalEq second first
    refine ⟨.released _ final shared own many step (by omega), ?_⟩
    intro unlocks
    rw [second unlocks, first unlocks]
    simp

/-- `vgc_free` of a pointer that resolves to a block in use of a listed MMAP,
whatever its calls answer. -/
theorem counted_vgcFree (rep : Represents pages guarded heap abstract)
    (member : region ∈ abstract.regions) (listed : region.base ∈ abstract.listed)
    (entryMem : entry ∈ abstract.entries region.base) (busy : entry.busy = true)
    (bound : ptr < 2 ^ 64) (resolved : headerOf heap.shared ptr = entry.addr) :
    Yields counted (vgcFree ptr) env ((heap, held), calls) fun _ final =>
      FreeEnd env abstract region entry heap held calls final.1.1 final.2 ∧
        ((∀ call, env.mutexUnlock call = true) → final.1.2 = held) := by
  rw [vgcFree_eq]
  apply counted_freeAround rep member listed entryMem bound resolved
  · intro refused
    exact ⟨.unlocked _ refused, fun _ => rfl⟩
  intro shared
  apply counted_releaseAround (rep.toStands.site member) entryMem
  · intro rest count refused back
    exact ⟨.uncounted count shared refused, back⟩
  · intro header own
    exact counted_releaseChecked rep member listed entryMem busy shared own

/-- When the mutex calls succeed, the block is released. -/
theorem FreeEnd.outcome {count : Nat} (mutexes : MutexCallsSucceed env)
    (rep : Represents pages guarded heap abstract) (member : region ∈ abstract.regions)
    (listed : region.base ∈ abstract.listed) (entryMem : entry ∈ abstract.entries region.base)
    (ends : FreeEnd env abstract region entry heap [] calls after count) :
    FreeOutcome env pages guarded abstract region entry heap after := by
  have locks : ∀ {call mutex}, env.Locks [] call mutex := ⟨mutexes.lock _, List.not_mem_nil⟩
  cases ends with
  | unlocked _ refused => exact absurd locks refused
  | uncounted _ shared refused => exact absurd locks refused
  | released _ _ shared own others step => exact .released others step
  | emptied middle _ _ shared own only step ends =>
      have freed := rep.free member entryMem step
      cases ends with
      | stuckNext present refused => exact absurd locks refused
      | stuckPrev next present refused => exact absurd locks refused
      | unlinked next prev => exact .vanished only middle _ step (freed.vanished member listed _)

/-- `vgc_free` of a pointer that resolves to a block in use of a listed
MMAP. -/
theorem yields_vgcFree (mutexes : MutexCallsSucceed env)
    (rep : Represents pages guarded heap abstract) (member : region ∈ abstract.regions)
    (listed : region.base ∈ abstract.listed)
    (entryMem : entry ∈ abstract.entries region.base) (busy : entry.busy = true)
    (bound : ptr < 2 ^ 64) (resolved : headerOf heap.shared ptr = entry.addr) :
    Yields seen (vgcFree ptr) env (heap, []) fun _ final =>
      final.2 = [] ∧ FreeOutcome env pages guarded abstract region entry heap final.1 := by
  intro state viewEq
  obtain ⟨value, final, ended, ends, unlocked⟩ :=
    counted_vgcFree rep member listed entryMem busy bound resolved state (Prod.ext viewEq rfl)
  exact ⟨value, final, ended, unlocked mutexes.unlock,
    ends.outcome mutexes rep member listed entryMem⟩

/-- `vgc_free` of a pointer that it recognises as wrong: null, outside of the
range of every listed MMAP, or behind a wrong checksum. -/
theorem allows_vgcFree_ignored (mutexes : MutexCallsSucceed env)
    (rep : Represents pages guarded heap abstract)
    (wrong : ptr = 0 ∨ (∀ base ∈ abstract.listed, ¬heap.InRange ptr base) ∨
      (heap.mallocHeader (headerOf heap.shared ptr)).checkStart ≠ checksum ∨
      (heap.mallocHeader (headerOf heap.shared ptr)).checkEnd ≠ checksum) :
    Allows seen (vgcFree ptr) env (heap, []) fun _ final => final = (heap, []) := by
  have unlock : Yields seen unlockShared env (heap, [.shared]) fun _ after =>
      after = (heap, []) :=
    yields_orReport _ _ _ (yields_pthreadMutexUnlock mutexes rfl)
  unfold vgcFree
  refine Allows.ite ?_ ?_
  · intro _
    refine Allows.seq yields_vgcMessage.allows ?_
    rintro _ _ rfl
    exact Allows.pure rfl
  intro present
  refine Allows.seq (yields_pthreadMutexLock mutexes rfl List.not_mem_nil).allows ?_
  rintro _ _ ⟨rfl, rfl⟩
  simp only [Bool.not_true, Bool.false_eq_true, if_false]
  refine Allows.seq (yields_isInMmapBlock rep).allows ?_
  rintro value _ ⟨rfl, hit⟩
  refine Allows.ite ?_ ?_
  · intro _
    refine Allows.seq unlock.allows ?_
    rintro _ _ rfl
    refine Allows.seq yields_vgcMessage.allows ?_
    rintro _ _ rfl
    exact Allows.pure rfl
  · intro found
    simp only [Bool.not_eq_true', Bool.not_eq_false] at found
    obtain ⟨base, baseMem, inRange⟩ := hit.mp found
    have checks := (wrong.resolve_left present).resolve_left fun outside =>
      outside base baseMem inRange
    refine Allows.seq yields_getShared.allows ?_
    rintro _ _ ⟨rfl, rfl⟩
    refine Allows.seq allows_readMallocHeader ?_
    rintro _ _ ⟨rfl, rfl⟩
    rw [if_pos checks]
    unfold reportChecksum
    refine Allows.seq (?_ : Allows seen _ env _ fun _ after => after = (heap, [])) ?_
    · refine Allows.seq unlock.allows ?_
      rintro _ _ rfl
      refine Allows.seq yields_vgcMessage.allows ?_
      rintro _ _ rfl
      refine Allows.seq yields_vgcMessage.allows ?_
      rintro _ _ rfl
      exact allows_dumpMmapBlock
    · rintro _ _ rfl
      exact Allows.pure rfl

end VgcMalloc
