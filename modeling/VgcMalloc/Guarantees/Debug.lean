import VgcMalloc.Guarantees.Progress
import VgcMalloc.Guarantees.Readback

/-!
# The debug report shows the heap

`vgc_mallocCheckMMAP` changes nothing and leaves no mutex locked.  When its
buffer has room, the text that it appends can be read back to the MMAPs and
blocks of the heap, after every run of a client.
-/

namespace VgcMalloc

open Program Text Tiling Linked

variable {env : Env} {pages : MmapPages} {guarded : Bool} {heap : Heap} {held : List Mutex}
  {region : Region} {state : State} {trace : List Done} {response : List Char} {size : Nat}

/-! ## One MMAP -/

/-- An MMAP with the headers at the given addresses, as a dump reads it. -/
def Heap.dumped (heap : Heap) (mmapBlock : Nat) (nodes : List Nat) : DumpedMmap where
  mmapBlock := mmapBlock
  maxSize := (heap.mmapHeader mmapBlock).maxSize
  blocks := nodes.map fun block => (block, heap.mallocHeader block)

/-- The loop of `dumpMmapBlock` with a response appends the lines of the headers
that it comes to. -/
theorem yields_dumpBlocksInto {mmapBlock fuel index : Nat} {totals : Totals} {nodes : List Nat}
    (passes : heap.Passes mmapBlock nodes) (enough : nodes.length < fuel) :
    Yields seen (dumpBlocksInto size fuel index (nodes.headD 0) totals response) env (heap, held)
      fun value after => value = appendBlocks size index totals response
        (nodes.map fun block => (block, heap.mallocHeader block)) ∧ after = (heap, held) := by
  induction nodes generalizing fuel index totals response with
  | nil =>
      cases fuel with
      | zero => exact absurd enough (Nat.not_lt_zero _)
      | succ fuel => exact Yields.pure ⟨rfl, rfl⟩
  | cons block rest ih =>
      cases fuel with
      | zero => exact absurd enough (Nat.not_lt_zero _)
      | succ fuel =>
          obtain ⟨before, links⟩ := passes.links
          have next : (heap.mallocHeader block).next = rest.headD 0 := links.2.1
          rw [List.headD_cons, dumpBlocksInto, if_neg (passes.nonnull block List.mem_cons_self),
            List.map_cons, appendBlocks]
          refine Yields.seq (yields_readMallocFields
            (passes.readable block List.mem_cons_self)) ?_
          rintro _ _ ⟨rfl, rfl⟩
          cases appendLine size response
              (snprintf 200 (blockLine index block (heap.mallocHeader block))) with
          | error truncated => exact Yields.pure ⟨rfl, rfl⟩
          | ok response =>
              rw [next]
              exact ih passes.tail (Nat.lt_of_succ_lt_succ enough)

/-- `dumpMmapBlock` leaves in its buffer what its lines do. -/
theorem yields_dumpMmapInto {mmapBlock : Nat} {nodes : List Nat} (nonnull : mmapBlock ≠ 0)
    (opened : heap.mmapAccessible mmapBlock = true) (passes : heap.Passes mmapBlock nodes)
    (first : firstMallocHeaderInMMAP mmapBlock = nodes.headD 0)
    (enough : nodes.length < walkFuel) :
    Yields seen (dumpMmapInto size mmapBlock response) env (heap, held) fun value after =>
      value = ended (appendDump response size heap.shared.mmapBlockSize
        (heap.dumped mmapBlock nodes)) ∧ after = (heap, held) := by
  rw [dumpMmapInto, if_neg nonnull]
  refine Yields.seq (yields_readMmapHeader opened) ?_
  rintro _ _ ⟨rfl, rfl⟩
  rw [first]
  refine Yields.seq (yields_dumpBlocksInto passes enough) ?_
  rintro _ _ ⟨rfl, rfl⟩
  have head : (headLines mmapBlock).foldl (printLine (heap.mmapHeader mmapBlock).maxSize) response =
      printHead response (heap.dumped mmapBlock nodes) := rfl
  have blocks : nodes.map (fun block => (block, heap.mallocHeader block)) =
      (heap.dumped mmapBlock nodes).blocks := rfl
  rw [head, blocks, appendDump]
  cases appendBlocks size 0 .zero (printHead response (heap.dumped mmapBlock nodes))
      (heap.dumped mmapBlock nodes).blocks with
  | error truncated => exact Yields.pure ⟨rfl, rfl⟩
  | ok counted =>
      refine Yields.seq yields_getShared ?_
      rintro _ _ ⟨rfl, rfl⟩
      exact Yields.pure ⟨rfl, rfl⟩

/-- The head of a dump is printed in full when `maxSize` is no smaller than its
lines. -/
theorem printHead_eq {mmap : DumpedMmap} (user : mmap.mmapBlock < 2 ^ 64)
    (wide : 100 ≤ mmap.maxSize) :
    printHead response mmap = response ++ (headLines mmap.mmapBlock).flatten := by
  have address : (hex 12 mmap.mmapBlock).length ≤ 16 := length_hex_le (by decide) (by decide) user
  have first :
      ("\nMMAP at 0x".toList ++ hex 12 mmap.mmapBlock ++ ['\n']).length < mmap.maxSize := by
    have start : "\nMMAP at 0x".toList.length = 11 := by decide
    rw [List.length_append, List.length_append, start, List.length_singleton]
    omega
  have second : " ID memory         prev           next           status    size\n".toList.length <
      mmap.maxSize :=
    lt_of_lt_of_le (by decide) wide
  have third : (dashes ++ ['\n']).length < mmap.maxSize := lt_of_lt_of_le (by decide) wide
  simp only [printHead, headLines, printLine, List.foldl_cons, List.foldl_nil, List.flatten_cons,
    List.flatten_nil, List.append_assoc, List.append_nil]
  rw [← List.append_assoc "\nMMAP at 0x".toList, snprintf_of_lt first, snprintf_of_lt second,
    snprintf_of_lt third]
  simp only [List.append_assoc]

/-- A dump with room for its text is not cut. -/
theorem ended_appendDump {mmapBlockSize : Nat} {mmap : DumpedMmap}
    (user : mmap.mmapBlock < 2 ^ 64) (wide : 100 ≤ mmap.maxSize) (int : size ≤ 2 ^ 31)
    (room : response.length + (dumpText mmapBlockSize mmap).length < size) :
    ended (appendDump response size mmapBlockSize mmap) =
      some (response ++ dumpText mmapBlockSize mmap) := by
  rw [dumpText, List.length_append] at room
  rw [appendDump_eq, printHead_eq user wide, appendLines_eq_ok int, ended, dumpText,
    List.append_assoc]
  rw [List.length_append]
  omega

/-- The body of the loop checks and dumps an MMAP and unlocks it again. -/
theorem yields_checkAndDump {entries : List Entry} (mutexes : MutexCallsSucceed env)
    (readable : Readable pages heap region entries)
    (blockSize : heap.shared.mmapBlockSize = pages.bytes) :
    Yields seen (checkAndDump size region.base response) env (heap, [.shared])
      fun value after => value = ended (appendDump response size pages.bytes
        (heap.dumped region.base (entries.map Entry.addr))) ∧ after = (heap, [.shared]) := by
  have unheld : Mutex.mmapBlock region.base ∉ [Mutex.shared] := by
    simp only [List.mem_singleton, reduceCtorEq, not_false_eq_true]
  have enough : (entries.map Entry.addr).length < walkFuel := by
    rw [List.length_map]
    exact readable.enough
  unfold checkAndDump
  refine Yields.seq (yields_orReport _ _ _
    (yields_pthreadMutexLock mutexes readable.accessible unheld)) ?_
  rintro _ _ rfl
  refine Yields.seq (yields_checkMmapBlock readable blockSize) ?_
  rintro _ _ ⟨rfl, rfl⟩
  refine Yields.seq (yields_dumpMmapInto (Nat.ne_of_gt readable.placed.positive)
    readable.accessible (readable.passes blockSize) readable.first enough) ?_
  rintro _ _ ⟨rfl, rfl⟩
  refine Yields.seq (yields_orReport _ _ _
    (yields_pthreadMutexUnlock mutexes readable.accessible)) ?_
  rintro _ _ rfl
  exact Yields.pure ⟨by rw [blockSize], rfl⟩

/-! ## All MMAPs -/

/-- A listed MMAP as a dump reads it. -/
def Heap.listedMmap (heap : Heap) (base : Nat) : DumpedMmap :=
  heap.dumped base ((heap.blocks base).map Entry.addr)

/-- The loop of `vgc_mallocCheckMMAP` appends the dumps of all MMAPs. -/
theorem yields_checkAndDumpFrom {bases : List Nat} {before fuel : Nat}
    (mutexes : MutexCallsSucceed env)
    (links : Segment heap.nextMmap heap.prevMmap before bases 0)
    (known : ∀ base ∈ bases, ∃ region, region.base = base ∧
      Readable pages heap region (heap.blocks base))
    (blockSize : heap.shared.mmapBlockSize = pages.bytes) (enough : bases.length < fuel)
    (int : size ≤ 2 ^ 31)
    (room : response.length +
      (bases.map fun base => dumpText pages.bytes (heap.listedMmap base)).flatten.length < size) :
    Yields seen (checkAndDumpFrom size fuel (bases.headD 0) response) env (heap, [.shared])
      fun value after => value = some (response ++
        (bases.map fun base => dumpText pages.bytes (heap.listedMmap base)).flatten) ∧
          after = (heap, [.shared]) := by
  induction bases generalizing before fuel response with
  | nil =>
      cases fuel with
      | zero => exact absurd enough (Nat.not_lt_zero _)
      | succ fuel => exact Yields.pure ⟨congrArg some (List.append_nil response).symm, rfl⟩
  | cons base rest ih =>
      cases fuel with
      | zero => exact absurd enough (Nat.not_lt_zero _)
      | succ fuel =>
          obtain ⟨here, later⟩ := List.forall_mem_cons.mp known
          obtain ⟨region, rfl, readable⟩ := here
          have next : (heap.mmapHeader region.base).next = rest.headD 0 := links.2.1
          have placed := readable.placed
          have user := placed.user
          have wide := placed.room
          have maxSize : (heap.listedMmap region.base).maxSize = region.length - 12288 :=
            readable.maxSize
          rw [List.map_cons, List.flatten_cons, List.length_append] at room
          have shown := @ended_appendDump response size pages.bytes (heap.listedMmap region.base)
            (show region.base < 2 ^ 64 by omega) (by rw [maxSize]; omega) int (by omega)
          rw [List.headD_cons, checkAndDumpFrom, if_neg (Nat.ne_of_gt placed.positive)]
          refine Yields.seq (yields_checkAndDump mutexes readable blockSize) ?_
          rintro _ _ ⟨rfl, rfl⟩
          rw [← Heap.listedMmap, shown]
          refine Yields.seq (yields_readMmapHeader readable.accessible) ?_
          rintro _ _ ⟨rfl, rfl⟩
          rw [next]
          refine (ih links.2.2 later (Nat.lt_of_succ_lt_succ enough) ?_).mono ?_
          · rw [List.length_append]
            omega
          · rintro _ _ ⟨rfl, rfl⟩
            rw [List.map_cons, List.flatten_cons, List.append_assoc]
            exact ⟨rfl, rfl⟩

/-- `vgc_mallocCheckMMAP` changes nothing and appends the dumps of all MMAPs. -/
theorem yields_vgcMallocCheckMMAP (mutexes : MutexCallsSucceed env)
    (rep : Represents pages guarded heap heap.abstraction) (int : size ≤ 2 ^ 31)
    (room : response.length +
      (heap.mmaps.map fun base => dumpText pages.bytes (heap.listedMmap base)).flatten.length <
        size) :
    Yields seen (vgcMallocCheckMMAP response size) env (heap, []) fun value after =>
      value = some (response ++
        (heap.mmaps.map fun base => dumpText pages.bytes (heap.listedMmap base)).flatten) ∧
          after = (heap, []) := by
  have known : ∀ base ∈ heap.mmaps, ∃ region, region.base = base ∧
      Readable pages heap region (heap.blocks base) := by
    intro base listed
    obtain ⟨region, member, rfl⟩ := rep.listed listed
    exact ⟨region, rfl, (rep.site member).walkable.readable⟩
  unfold vgcMallocCheckMMAP
  refine Yields.seq (yields_orReport _ _ _
    (yields_pthreadMutexLock mutexes rfl List.not_mem_nil)) ?_
  rintro _ _ rfl
  refine Yields.seq yields_getShared ?_
  rintro _ _ ⟨rfl, rfl⟩
  rw [rep.first]
  refine Yields.seq (yields_checkAndDumpFrom mutexes rep.links known rep.blockSize
    rep.listed_length int room) ?_
  rintro _ _ ⟨rfl, rfl⟩
  refine Yields.seq (yields_orReport _ _ _ (yields_pthreadMutexUnlock mutexes rfl)) ?_
  rintro _ _ rfl
  exact Yields.pure ⟨rfl, rfl⟩

/-! ## Reports of running clients -/

/-- Room that is enough for the report. -/
def Heap.reportRoom (heap : Heap) : Nat :=
  (heap.mmaps.map fun base => 1000 + 200 * (heap.blocks base).length).sum

/-- The lines of an MMAP show the blocks that a debugger sees. -/
theorem shown_listedMmap (heap : Heap) (base : Nat) :
    (heap.listedMmap base).blocks.map shown = heap.blocks base := by
  have same : ∀ entry ∈ heap.blocks base, heap.entryAt entry.addr = entry := by
    intro entry member
    unfold Heap.blocks at member
    obtain ⟨block, _, rfl⟩ := List.mem_map.mp member
    rw [heap.entryAt_addr]
  rw [Heap.listedMmap, Heap.dumped, List.map_map, List.map_map]
  exact (List.map_congr_left same).trans (List.map_id _)

theorem printable_listedMmap (readable : Readable pages heap region (heap.blocks region.base))
    (modest : pages.bytes < 2 ^ 31) :
    ∀ block ∈ (heap.listedMmap region.base).blocks, Printable block := by
  intro block member
  obtain ⟨address, inside, rfl⟩ := List.mem_map.mp member
  obtain ⟨entry, entryMem, rfl⟩ := List.mem_map.mp inside
  have bounds := readable.inside entry entryMem
  have user := readable.placed.user
  have small := readable.placed.small
  have size := readable.chain.sizes entry entryMem
  exact ⟨by dsimp only; omega, by dsimp only; omega⟩

theorem length_report_le {bases : List Nat} (user : ∀ base ∈ bases, base < 2 ^ 64) :
    (bases.map fun base => dumpText pages.bytes (heap.listedMmap base)).flatten.length ≤
      (bases.map fun base => 1000 + 200 * (heap.blocks base).length).sum := by
  induction bases with
  | nil => exact Nat.le_refl 0
  | cons base rest ih =>
      obtain ⟨here, later⟩ := List.forall_mem_cons.mp user
      have one := @length_dumpText_le (heap.listedMmap base) pages.bytes here
      have count : (heap.listedMmap base).blocks.length = (heap.blocks base).length := by
        rw [Heap.listedMmap, Heap.dumped, List.length_map, List.length_map]
      have more := ih later
      rw [List.map_cons, List.flatten_cons, List.length_append, List.map_cons, List.sum_cons]
      omega

/-- After every run of a client, a report with enough room changes nothing,
leaves no mutex locked, and shows exactly the MMAPs and blocks of the heap. -/
theorem shows_of_run (mutexes : MutexCallsSucceed env) (modest : pages.bytes < 2 ^ 31)
    (run : DeedRun env pages guarded trace state)
    (alive : state.heap.shared.mmapBlockFirst ≠ mapFailed) (int : size < 2 ^ 31)
    (room : response.length + state.heap.reportRoom < size) :
    ∃ text last,
      vgcMallocCheckMMAP response size env state = .ok (some (response ++ text)) last ∧
      last.heap = state.heap ∧ last.held = [] ∧
        readReport text = state.heap.mmaps.map fun base => (base, state.heap.blocks base) := by
  obtain ⟨unlocked, valid, _⟩ :=
    deed_invariant (fun _ => True) mutexes trivial (fun _ _ _ _ _ => trivial) run
  have rep : Represents pages guarded state.heap state.heap.abstraction := by
    cases valid with
    | live rep => exact rep
    | dead stands failed => exact absurd failed alive
  have regions : ∀ base ∈ state.heap.mmaps, ∃ region, region.base = base ∧
      Readable pages state.heap region (state.heap.blocks base) := by
    intro base listed
    obtain ⟨region, member, rfl⟩ := rep.listed listed
    exact ⟨region, rfl, (rep.site member).walkable.readable⟩
  have user : ∀ base ∈ state.heap.mmaps, base < 2 ^ 64 := by
    intro base listed
    obtain ⟨region, rfl, readable⟩ := regions base listed
    have bound := readable.placed.user
    omega
  have short := @length_report_le pages state.heap state.heap.mmaps user
  have enough : response.length + (state.heap.mmaps.map fun base =>
      dumpText pages.bytes (state.heap.listedMmap base)).flatten.length < size :=
    lt_of_le_of_lt (Nat.add_le_add_left short _) room
  obtain ⟨_, last, ended, rfl, same⟩ := yields_vgcMallocCheckMMAP mutexes rep
    (Nat.le_of_lt int) enough state (by rw [seen, unlocked])
  obtain ⟨heapEq, heldEq⟩ := Prod.mk.inj same
  refine ⟨_, last, ended, heapEq, heldEq, ?_⟩
  have listed : (state.heap.mmaps.map fun base =>
      dumpText pages.bytes (state.heap.listedMmap base)) =
        (state.heap.mmaps.map state.heap.listedMmap).map (dumpText pages.bytes) := by
    rw [List.map_map]
    rfl
  rw [listed, readReport_flatten, List.map_map]
  · refine List.map_congr_left fun base _ => ?_
    exact congrArg (Prod.mk base) (shown_listedMmap state.heap base)
  · refine List.forall_mem_map.mpr fun base member => ?_
    obtain ⟨region, rfl, readable⟩ := regions base member
    exact printable_listedMmap readable modest

theorem shows_of_run_sample :
    ∃ trace state, DeedRun generousEnv .default true trace state ∧
      state.heap.blocks 268435456 =
        [⟨268439552, 4096, true⟩, ⟨268451840, 32743424, false⟩] ∧
      ∃ text last, vgcMallocCheckMMAP [] 4096 generousEnv state = .ok (some ([] ++ text)) last ∧
        last.heap = state.heap ∧ last.held = [] ∧
          readReport text = state.heap.mmaps.map fun base => (base, state.heap.blocks base) := by
  have found : (replay Deed.program generousEnv TameDeed [] (start .default true)
      [.call (.malloc 10), .store 268451830 1]).map (fun final =>
        (decide (final.2.heap.shared.mmapBlockFirst = mapFailed), final.2.heap.reportRoom,
          final.2.heap.blocks 268435456)) =
      some (false, 1400, [⟨268439552, 4096, true⟩, ⟨268451840, 32743424, false⟩]) := by
    decide +kernel
  obtain ⟨final, replayed, same⟩ := Option.map_eq_some_iff.mp found
  simp only [Prod.mk.injEq, decide_eq_false_iff_not] at same
  obtain ⟨alive, room, blocks⟩ := same
  have run := Run.start.replay replayed
  exact ⟨_, _, run, blocks, shows_of_run generousEnv_mutexes (by decide) run alive (by decide)
    (by rw [room]; decide)⟩

end VgcMalloc
