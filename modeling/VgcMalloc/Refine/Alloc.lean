import VgcMalloc.Refine.Grant

/-!
# Allocation in one MMAP

`allocMallocBlock` on a represented region: first fit, the grant, the saved
stack trace, and the pointer that is handed out.
-/

namespace VgcMalloc

open Program Tiling Linked

variable {env : Env} {heap after : Heap} {held : List Mutex} {pages : MmapPages}
  {guarded : Bool} {region : Region} {entries entries' : List Entry} {need : Nat}

/-! ## Sizes and pointers -/

theorem roundToPages_eq (bound : need < 2 ^ 62) :
    roundToPages 4096 need = (need + 4095) / 4096 * 4096 := by
  unfold roundToPages
  split
  · omega
  · rw [add64_of_lt (by omega), mul64_of_lt (by omega)]
    omega

/-- A `size_t` keeps its offset in a page through `int`. -/
theorem ofInt32_toInt32_mod (value : Nat) : ofInt32 (toInt32 value) % 4096 = value % 4096 := by
  have parts : toInt32 value + 4294967296 * Int.bdiv value 4294967296 = value :=
    Int.bmod_add_bdiv value 4294967296
  have word : ofInt32 (toInt32 value) = (toInt32 value % 18446744073709551616).toNat := rfl
  rw [word]
  generalize toInt32 value = signed at parts
  omega

theorem memoryOf_eq {shared : Shared} {block : Nat} (pageSize : shared.pageSize = 4096)
    (bound : block + 12288 < 2 ^ 64) :
    memoryOf shared block (toInt32 need) =
      AbstractHeap.pointerOf shared.isMprotectEnabled block need := by
  unfold memoryOf AbstractHeap.pointerOf
  rw [pageSize, ofInt32_toInt32_mod, mallocHeaderSize_eq, add64_of_lt (by omega)]
  cases shared.isMprotectEnabled with
  | false => simp
  | true =>
      have pageInt : 4096 % 2 ^ 32 = 4096 := by decide
      simp only [if_true]
      rw [pageInt, sub64_of_le (by omega) (by omega), add64_of_lt (by omega)]

/-! ## The saved stack trace -/

/-- Fields of the saved stack trace are no part of the header. -/
theorem foldl_set_trace (header : MallocHeader) (saved : List (Fin 10 × Nat)) :
    (saved.map fun frame => (MallocField.btArray frame.1, frame.2)).foldl
      (fun header field => header.set field.1 field.2) header = header := by
  induction saved with
  | nil => rfl
  | cons frame rest ih => exact ih

theorem yields_vgcStacktraceSave {entry : Entry} (placed : region.Placed pages.bytes)
    (tiles : Contiguous 8192 (region.base + 4096) entries (region.base + region.length))
    (rep : RegionRep heap region entries) (member : entry ∈ entries) :
    Yields seen (vgcStacktraceSave entry.addr) env (heap, held) fun _ last =>
      last.2 = held ∧ RegionRep last.1 region entries ∧
        last.1.mmapHeader region.base = heap.mmapHeader region.base ∧
        WritesOnly region (fun header => header ∈ addresses entries) heap last.1 ∧
        last.1.protNone = heap.protNone := by
  have open_ := (rep.blocks.headers entry member).accessible
  have entryMem : entry.addr ∈ addresses entries := List.mem_map.mpr ⟨entry, member, rfl⟩
  have bounds := header_bounds placed tiles member
  refine Yields.seq (yields_answer Env.backtrace) ?_
  rintro frames _ ⟨_, rfl⟩
  generalize (List.finRange 10).zip frames = saved
  refine Yields.seq (yields_writeMallocFields _ open_) ?_
  rintro _ _ rfl
  have nextOpen : (heap.setMallocFields entry.addr (saved.map fun frame =>
      (MallocField.btArray frame.1, frame.2))).mallocAccessible entry.addr = true := by
    simpa using open_
  refine (yields_writeMallocFields _ nextOpen).mono ?_
  rintro _ _ rfl
  have mmapSame : ((heap.setMallocFields entry.addr (saved.map fun frame =>
      (MallocField.btArray frame.1, frame.2))).setMallocFields entry.addr
        [(.btArraySize, saved.length)]).mmapHeader region.base = heap.mmapHeader region.base := by
    rw [Heap.mmapHeader_setMallocFields _ (by omega),
      Heap.mmapHeader_setMallocFields _ (by omega)]
  refine ⟨rfl, ?_, mmapSame, ?_, by simp⟩
  · refine rep.of_headers mmapSame ?_ fun x accessible => by simpa using accessible
    · intro x xMem
      rcases tiles.disjoint xMem member with rfl | apart
      · rw [Heap.mallocHeader_setMallocFields, Heap.mallocHeader_setMallocFields,
          foldl_set_trace]
        rfl
      · rw [Heap.mallocHeader_setMallocFields_apart _ (by omega),
          Heap.mallocHeader_setMallocFields_apart _ (by omega)]
  · exact (WritesOnly.setMallocFields _ entryMem).trans (WritesOnly.setMallocFields _ entryMem)

/-! ## `allocMallocBlock` -/

/-- A step of one region followed by stores that keep its headers. -/
theorem RegionStep.then_writes {cleared : Nat → Prop} {last : Heap}
    (step : RegionStep env region entries entries' cleared heap after)
    (rep : RegionRep last region entries')
    (mmapHeader : last.mmapHeader region.base = after.mmapHeader region.base)
    (writes : WritesOnly region (fun header => header ∈ addresses entries') after last)
    (protNone : last.protNone = after.protNone) :
    RegionStep env region entries entries' cleared heap last where
  rep := rep
  writes := step.writes.trans (writes.mono fun _ member => Or.inr member)
  links := by
    rw [Heap.nextMmap, Heap.prevMmap, mmapHeader]
    exact step.links
  untouched := by
    rw [protNone]
    exact step.untouched
  guards := by
    rw [protNone]
    exact step.guards

theorem exists_mem_grantEntry_addr (gap length : Nat) (entry : Entry) :
    ∃ x ∈ grantEntry gap length entry, x.addr = entry.addr := by
  unfold grantEntry
  split
  · exact ⟨_, List.mem_cons_self, rfl⟩
  · exact ⟨_, List.mem_cons_self, rfl⟩

/-- How a request was answered in one MMAP. -/
inductive AllocOutcome (env : Env) (guarded : Bool) (region : Region) (entries : List Entry)
    (need : Nat) (heap after : Heap) (memory : Nat) : Prop where
  | refused (unfit : ∀ x ∈ entries, ¬Fits need x) (null : memory = 0) (same : after = heap)
  | granted (front back : List Entry) (entry : Entry) (split : entries = front ++ entry :: back)
      (skipped : ∀ x ∈ front, ¬Fits need x) (fits : Fits need entry)
      (pointer : memory = AbstractHeap.pointerOf guarded entry.addr need)
      (restOpen : heap.RestOpen (AbstractHeap.grantLength guarded need) entry)
      (step : RegionStep env region entries
        (front ++ grantEntry 8192 (AbstractHeap.grantLength guarded need) entry ++ back)
        (fun _ => False) heap after)

theorem settles_allocMallocBlock {stuck : Nat → Prop} (mutexes : MutexCallsSucceed env)
    (site : RegionSite pages heap region entries)
    (mode : heap.shared.isMprotectEnabled = guarded)
    (unheld : Mutex.mmapBlock region.base ∉ held) (bound : need < 2 ^ 62)
    (blocked : ∀ x, firstFit need entries = some x →
      ¬heap.RestOpen (AbstractHeap.grantLength guarded need) x →
        stuck (x.addr + 8192 + AbstractHeap.grantLength guarded need)) :
    Settles seen stuck (allocMallocBlock region.base need) env (heap, held)
      fun memory last => last.2 = held ∧
        AllocOutcome env guarded region entries need heap last.1 memory := by
  have walk := site.walkable
  have mmapOpen := site.rep.mmap.accessible
  unfold allocMallocBlock
  have mutexOpen : mutexAccessible heap (.mmapBlock region.base) = true := mmapOpen
  refine Settles.seq (yields_pthreadMutexLock mutexes mutexOpen unheld).settles ?_
  rintro _ _ ⟨rfl, rfl⟩
  have firstEq : add64 region.base mmapHeaderSize = (entries.map Entry.addr).headD 0 :=
    walk.first
  simp only [Bool.not_true, Bool.false_eq_true, if_false]
  rw [firstEq]
  refine Settles.seq (yields_findFreeBlock walk.rep walk.nonzero walk.enough).settles ?_
  rintro block _ ⟨rfl, ⟨unfit, rfl⟩ | ⟨front, entry, back, split, skipped, fits, rfl⟩⟩
  · rw [if_pos rfl]
    refine Settles.seq (yields_orReport _ _ _
      (yields_pthreadMutexUnlock mutexes mutexOpen)).settles ?_
    rintro _ _ rfl
    exact Settles.pure ⟨rfl, .refused unfit rfl rfl⟩
  · subst split
    have entryMem : entry ∈ front ++ entry :: back := by simp
    rw [if_neg (walk.nonzero entry entryMem)]
    refine Settles.seq (yields_checkMmapBlock walk.readable site.blockSize).settles ?_
    rintro _ _ ⟨rfl, rfl⟩
    simp only [Bool.not_true, Bool.false_eq_true, if_false]
    refine Settles.seq yields_getShared.settles ?_
    rintro _ _ ⟨rfl, rfl⟩
    have roundedEq : (if heap.shared.isMprotectEnabled = true then
        roundToPages heap.shared.pageSize need else need) =
          AbstractHeap.grantLength guarded need := by
      rw [mode, site.pageSize, roundToPages_eq bound, AbstractHeap.grantLength]
    have lengthBound : AbstractHeap.grantLength guarded need + 8192 < 2 ^ 64 := by
      unfold AbstractHeap.grantLength
      split <;> omega
    have entryBounds := header_bounds site.placed site.tiles entryMem
    have memoryEq : memoryOf heap.shared entry.addr (toInt32 need) =
        AbstractHeap.pointerOf guarded entry.addr need := by
      rw [memoryOf_eq site.pageSize (by omega), mode]
    rw [roundedEq]
    simp only [memoryEq]
    have grantBlocked := blocked entry (firstFit_of_split skipped fits)
    generalize lengthEq : AbstractHeap.grantLength guarded need = length at lengthBound grantBlocked
    have grantSite : GrantSite pages heap region front entry back := ⟨site, fits.1⟩
    refine Settles.seq (settles_grantBlock grantSite lengthBound grantBlocked) ?_
    rintro granted ⟨middle, middleHeld⟩ ⟨rfl, restOpen, step⟩
    have tiles := site.tiles.grantEntry length
    obtain ⟨x, xMem, xEq⟩ := exists_mem_grantEntry_addr 8192 length entry
    have saved : Yields seen (vgcStacktraceSave x.addr) env
        (middle, .mmapBlock region.base :: held) _ :=
      yields_vgcStacktraceSave site.placed tiles step.rep
        (List.mem_append_left _ (List.mem_append_right _ xMem))
    rw [xEq] at saved
    refine Settles.seq saved.settles ?_
    rintro _ ⟨last, lastHeld⟩ ⟨rfl, rep, mmapSame, writes, protNone⟩
    have lastOpen : mutexAccessible last (.mmapBlock region.base) = true := rep.mmap.accessible
    refine Settles.seq (yields_orReport _ _ _
      (yields_pthreadMutexUnlock mutexes lastOpen)).settles ?_
    rintro _ _ rfl
    refine Settles.seq (yields_readMmapHeader rep.mmap.accessible).settles ?_
    rintro _ _ ⟨rfl, rfl⟩
    refine Settles.seq yields_vgcMessage.settles ?_
    rintro _ _ rfl
    have blockOpen := (rep.blocks.headers x
      (List.mem_append_left _ (List.mem_append_right _ xMem))).accessible
    rw [xEq] at blockOpen
    have reported : Yields seen (when (heap.shared.isMprotectEnabled = true) do
        let header ← readMallocHeader entry.addr
        vgcMessage vgcMallocDebugLevel "vgc_malloc" "Protect" "" ""
          [entry.addr, AbstractHeap.pointerOf guarded entry.addr need,
            add64 (AbstractHeap.pointerOf guarded entry.addr need) header.size, header.size])
        env (last, held) fun _ final => final = (last, held) := by
      refine Yields.when (fun _ => ?_) fun _ => rfl
      refine Yields.seq (yields_readMallocHeader blockOpen) ?_
      rintro _ _ ⟨rfl, rfl⟩
      exact yields_vgcMessage
    refine Settles.seq reported.settles ?_
    rintro _ _ rfl
    refine Settles.pure ⟨rfl, .granted front back entry rfl skipped fits rfl ?_ ?_⟩
    · rw [lengthEq]
      exact restOpen
    · rw [lengthEq]
      exact step.then_writes rep mmapSame writes protNone

end VgcMalloc
