import VgcMalloc.Guarantees.Refusals
import VgcMalloc.Refine.Requests

/-!
# Sizes and alignment of granted blocks

The bytes that `vgc_calloc` asks for are the array's only if their product does
not wrap.  With guard pages all headers and sizes are whole pages, so a block
that holds the bytes of a request also holds its pages.  The pointer of a
guarded block is as far from a whole page as the size of the request.
-/

namespace VgcMalloc

open Program Tiling Linked

variable {env : Env} {pages : MmapPages} {guarded : Bool} {trace : List Finished}
  {state last : State} {heap after : Heap} {result : Nat}

/-! ## Arrays -/

/-- A range that can be accessed ends below the limit of user memory. -/
theorem Stands.le_userLimit_of_range {abstract : AbstractHeap} {target length : Nat}
    (stands : Stands pages guarded heap abstract) (positive : length ≠ 0)
    (accessible : heap.rangeAccessible target length = true) : target + length ≤ 2 ^ 47 := by
  unfold Heap.rangeAccessible at accessible
  rw [Bool.or_eq_true, beq_iff_eq] at accessible
  have all := List.all_eq_true.mp (accessible.resolve_left positive)
  have reached := all ((target + length - 1) / 4096) (by
    rw [systemPageSize_eq, List.mem_range'_1]
    have ordered : target / 4096 ≤ (target + length - 1) / 4096 :=
      Nat.div_le_div_right (by omega)
    omega)
  rw [Heap.isAccessible, Bool.and_eq_true, Heap.isMapped, List.any_eq_true] at reached
  obtain ⟨region, member, inside⟩ := reached.1
  have placed := stands.wellFormed.placed region (stands.mapped ▸ member)
  have user := placed.user
  have whole := placed.whole
  have aligned := placed.aligned
  rw [decide_eq_true_eq, systemPageSize_eq] at inside
  omega

/-- The call of `vgc_malloc` inside `vgc_calloc` asks for the whole array, and
the block that it takes into use holds it. -/
def AllocatesArray (env : Env) (state : State) (nmemb size result : Nat) : Prop :=
  mul64 nmemb size = nmemb * size ∧
    ∃ granted block, vgcMalloc (mul64 nmemb size) env state = .ok result granted ∧
      granted.heap.Busy block ∧ ¬state.heap.Busy block ∧ nmemb * size ≤ block.size

/-- In every state of a run, the pointer that `vgc_calloc` returns is that of a
block for the whole array exactly when the bytes of the array can be
counted. -/
theorem allocatesArray_iff {nmemb size : Nat} (mutexes : MutexCallsSucceed env)
    (run : ClientRun env pages guarded Tame trace state)
    (ended : vgcCalloc nmemb size env state = .ok result last) (served : result ≠ 0) :
    AllocatesArray env state nmemb size result ↔ nmemb * size < 2 ^ 64 := by
  obtain ⟨unlocked, valid⟩ := tame_valid mutexes run
  constructor
  · rintro ⟨exact, _⟩
    rw [← exact]
    exact Nat.mod_lt _ (by decide)
  · intro countable
    have product : mul64 nmemb size = nmemb * size := mul64_of_lt countable
    rcases vgcCalloc_ended ended with ⟨_, null, _⟩ | ⟨positive, granted, asked, rest⟩
    · exact absurd null served
    obtain ⟨_, effect⟩ := valid.malloc_effect mutexes unlocked asked
    obtain ⟨rep, outcome⟩ := effect.of_malloc served
    have reachable : result + mul64 nmemb size ≤ 2 ^ 47 := by
      rcases rest with ⟨null, _⟩ | ⟨_, filled⟩
      · exact absurd null served
      · exact (effect.valid valid).stands.le_userLimit_of_range positive (memset_ended filled).1
    rcases outcome.busy rep with ⟨null, _⟩ | ⟨_, _, block, grant, blocks⟩
    · exact absurd null served
    refine ⟨product, granted, block, asked, (blocks block).mpr (Or.inr rfl), ?_, ?_⟩
    · intro old
      exact grant.fresh block old rfl
    · have enough := grant.need_le
      have aligned : nmemb * size ≤ alignSize state.heap.shared (mul64 nmemb size) := by
        rw [product] at reachable ⊢
        exact le_alignSize (by omega)
      exact Nat.le_trans aligned enough

theorem allocatesArray_iff_sample :
    ∃ trace state result last, ClientRun generousEnv .default true Tame trace state ∧
      vgcCalloc 3 10 generousEnv state = .ok result last ∧ result ≠ 0 ∧
        (AllocatesArray generousEnv state 3 10 result ↔ 3 * 10 < 2 ^ 64) := by
  have found : (replay Call.program generousEnv Tame [] (start .default true)
      [.malloc 10]).bind (fun final => (vgcCalloc 3 10 generousEnv final.2).normal.map Prod.fst) =
        some 0x10006FE2 := by decide +kernel
  obtain ⟨final, replayed, same⟩ := Option.bind_eq_some_iff.mp found
  obtain ⟨⟨result, last⟩, ended, served⟩ := Option.map_eq_some_iff.mp same
  have run := Run.start.replay replayed
  have ends := Outcome.normal_eq_some_iff.mp ended
  have present : result ≠ 0 := by
    rw [show result = _ from served]
    decide
  exact ⟨_, _, _, _, run, ends, present, allocatesArray_iff generousEnv_mutexes run ends present⟩

/-- An array of more bytes than can be counted is given a block of 16 bytes. -/
theorem not_allocatesArray :
    ¬∀ env pages guarded trace state last nmemb size result, MutexCallsSucceed env →
      ClientRun env pages guarded Tame trace state → nmemb < 2 ^ 64 → size < 2 ^ 64 →
        vgcCalloc nmemb size env state = .ok result last → result ≠ 0 →
          AllocatesArray env state nmemb size result := by
  intro claim
  have found : (vgcCalloc (2 ^ 60 + 1) 16 generousEnv (start .default true)).normal.map
      Prod.fst = some 0x10003FF0 := by decide +kernel
  obtain ⟨⟨result, last⟩, ended, served⟩ := Option.map_eq_some_iff.mp found
  have present : result ≠ 0 := by
    rw [show result = _ from served]
    decide
  have allocates := claim generousEnv .default true [] _ last (2 ^ 60 + 1) 16 result
    generousEnv_mutexes .start (by decide) (by decide) (Outcome.normal_eq_some_iff.mp ended) present
  exact absurd allocates.1 (by decide)

/-! ## Rounded sizes -/

/-- The call took a block into use that starts with its header right before
the pointer and has a payload of the size of the request. -/
def GrantsSize (heap after : Heap) (size memory : Nat) : Prop :=
  ∃ block, after.Busy block ∧ ¬heap.Busy block ∧ memory = block.addr + mallocHeaderSize ∧
    size ≤ block.size

/-- The payload of a block in use is small. -/
theorem Valid.size_lt {entry : Entry} (valid : Valid pages guarded heap)
    (busy : heap.Busy entry) : entry.size < 2 ^ 47 := by
  have stands := valid.stands
  obtain ⟨region, member, entryMem, _⟩ := busy
  rw [← abstraction_entries] at entryMem
  rw [stands.mapped] at member
  have bounds := (stands.wellFormed.tiles region member).bounds entryMem
  have user := (stands.wellFormed.placed region member).user
  omega

theorem GrantsSize.size_lt {size memory : Nat} (valid : Valid pages guarded after)
    (grants : GrantsSize heap after size memory) : size < 2 ^ 47 := by
  obtain ⟨block, busy, _, _, enough⟩ := grants
  exact Nat.lt_of_le_of_lt enough (valid.size_lt busy)

/-- In every state of a run without guard pages, the block that `vgc_malloc`
grants has the size of the request exactly when rounding the size up to whole
words does not wrap. -/
theorem grantsSize_iff {size memory : Nat} (mutexes : MutexCallsSucceed env)
    (run : ClientRun env pages false Tame trace state) (word : size < 2 ^ 64)
    (ended : vgcMalloc size env state = .ok memory last) (served : memory ≠ 0) :
    GrantsSize state.heap last.heap size memory ↔ size ≤ 2 ^ 64 - pointerSize := by
  obtain ⟨unlocked, valid⟩ := tame_valid mutexes run
  obtain ⟨_, effect⟩ := valid.malloc_effect mutexes unlocked ended
  have validAfter := effect.valid valid
  obtain ⟨rep, outcome⟩ := effect.of_malloc served
  rw [pointerSize_eq]
  constructor
  · intro grants
    have small := grants.size_lt validAfter
    omega
  · intro representable
    rcases outcome.busy rep with ⟨null, _⟩ | ⟨_, _, block, grant, blocks⟩
    · exact absurd null served
    refine ⟨block, (blocks block).mpr (Or.inr rfl), ?_, grant.pointer, ?_⟩
    · intro old
      exact grant.fresh block old rfl
    · have aligned : size ≤ alignSize state.heap.shared size := le_alignSize (by omega)
      exact Nat.le_trans aligned grant.need_le

theorem grantsSize_iff_sample :
    ∃ trace state memory last, ClientRun generousEnv .default false Tame trace state ∧
      vgcMalloc 13 generousEnv state = .ok memory last ∧ memory ≠ 0 ∧
        (GrantsSize state.heap last.heap 13 memory ↔ 13 ≤ 2 ^ 64 - pointerSize) := by
  have found : (replay Call.program generousEnv Tame [] (start .default false)
      [.malloc 10]).bind (fun final => (vgcMalloc 13 generousEnv final.2).normal.map Prod.fst) =
        some 0x10005010 := by decide +kernel
  obtain ⟨final, replayed, same⟩ := Option.bind_eq_some_iff.mp found
  obtain ⟨⟨memory, last⟩, ended, served⟩ := Option.map_eq_some_iff.mp same
  have run := Run.start.replay replayed
  have ends := Outcome.normal_eq_some_iff.mp ended
  have present : memory ≠ 0 := by
    rw [show memory = _ from served]
    decide
  exact ⟨_, _, _, _, run, ends, present,
    grantsSize_iff generousEnv_mutexes run (by decide) ends present⟩

/-- The largest size of all is rounded up to zero, and served. -/
theorem not_grantsSize :
    ¬∀ env pages trace state last size memory, MutexCallsSucceed env →
      ClientRun env pages false Tame trace state → 0 < size → size < 2 ^ 64 →
        vgcMalloc size env state = .ok memory last → memory ≠ 0 →
          GrantsSize state.heap last.heap size memory := by
  intro claim
  have found : (vgcMalloc (2 ^ 64 - 1) generousEnv (start .default false)).normal.map
      Prod.fst = some 0x10003000 := by decide +kernel
  obtain ⟨⟨memory, last⟩, ended, served⟩ := Option.map_eq_some_iff.mp found
  have present : memory ≠ 0 := by
    rw [show memory = _ from served]
    decide
  have ends := Outcome.normal_eq_some_iff.mp ended
  have grants := claim generousEnv .default [] _ last _ memory generousEnv_mutexes .start
    (by decide) (by decide) ends present
  have valid := valid_start .default false
  obtain ⟨_, effect⟩ := valid.malloc_effect generousEnv_mutexes rfl ends
  exact absurd (grants.size_lt (effect.valid valid)) (by decide)

/-! ## Alignment for pointers -/

theorem WordAddressed.change (words : WordAddressed heap.abstraction)
    (valid : Valid pages guarded heap) (change : Change env pages guarded heap after) :
    WordAddressed after.abstraction := by
  cases change with
  | effect happened => exact words.effect happened
  | write writes =>
      exact WordAddressed.abstraction (valid.stands.writesPayload writes) words

/-- In every state of a run, the pointer that a call returns is aligned for
pointers exactly when blocks are not guarded or the size of the request is
aligned. -/
theorem aligned_iff {call : Call} (mutexes : MutexCallsSucceed env)
    (run : ClientRun env pages guarded Tame trace state)
    (ended : call.program env state = .ok result last) (served : result ≠ 0) :
    pointerSize ∣ result ↔ (guarded = true → pointerSize ∣ call.requested) := by
  have none : WordAddressed (start pages guarded).heap.abstraction := by
    intro region member
    exact absurd member List.not_mem_nil
  obtain ⟨unlocked, valid, words⟩ := tame_invariant (fun heap => WordAddressed heap.abstraction)
    mutexes (fun _ _ tame => tame) none
    (fun _ _ valid words change => words.change valid change) run
  obtain ⟨granted, asked⟩ := Call.of_served ended served
  obtain ⟨_, effect⟩ := valid.malloc_effect mutexes unlocked asked
  obtain ⟨rep, outcome⟩ := effect.of_malloc served
  rcases outcome.busy rep with ⟨null, _⟩ | ⟨_, _, block, grant, blocks⟩
  · exact absurd null served
  have busy := (blocks block).mpr (Or.inr rfl)
  have word : 8 ∣ block.addr := by
    obtain ⟨region, member, blockMem, _⟩ := busy
    exact words.effect effect region member block blockMem
  rw [grant.pointer, AbstractHeap.pointerOf, pointerSize_eq]
  cases guarded with
  | false =>
      simp only [Bool.false_eq_true, if_false, false_implies, iff_true]
      omega
  | true =>
      rw [alignSize_of_guarded rep.mode]
      simp only [if_true, forall_const]
      omega

theorem aligned_iff_sample :
    ∃ trace state result last, ClientRun generousEnv .default true Tame trace state ∧
      (Call.realloc 0x10003FF6 24).program generousEnv state = .ok result last ∧ result ≠ 0 ∧
        (pointerSize ∣ result ↔ (true = true → pointerSize ∣ 24)) := by
  have found : (replay Call.program generousEnv Tame [] (start .default true) [.malloc 10]).bind
      (fun final => ((Call.realloc 0x10003FF6 24).program generousEnv final.2).normal.map
        Prod.fst) = some 0x10006FE8 := by decide +kernel
  obtain ⟨final, replayed, same⟩ := Option.bind_eq_some_iff.mp found
  obtain ⟨⟨result, last⟩, ended, served⟩ := Option.map_eq_some_iff.mp same
  have run := Run.start.replay replayed
  have ends := Outcome.normal_eq_some_iff.mp ended
  have present : result ≠ 0 := by
    rw [show result = _ from served]
    decide
  exact ⟨_, _, _, _, run, ends, present, aligned_iff generousEnv_mutexes run ends present⟩

/-- With guard pages the pointer of a single byte is the last byte of a
page. -/
theorem not_aligned :
    ¬∀ env pages guarded trace state last (call : Call) result, MutexCallsSucceed env →
      ClientRun env pages guarded Tame trace state → 0 < call.requested →
        call.program env state = .ok result last → result ≠ 0 → pointerSize ∣ result := by
  intro claim
  have found : ((Call.malloc 1).program generousEnv (start .default true)).normal.map
      Prod.fst = some 0x10003FFF := by decide +kernel
  obtain ⟨⟨result, last⟩, ended, served⟩ := Option.map_eq_some_iff.mp found
  have same : result = 0x10003FFF := served
  have aligned := claim generousEnv .default true [] _ last (.malloc 1) result
    generousEnv_mutexes .start (by decide) (Outcome.normal_eq_some_iff.mp ended)
    (by rw [same]; decide)
  rw [same] at aligned
  exact absurd aligned (by decide)

/-! ## Whole pages -/

/-- The block holds the pages of a request of `length` bytes, and what a split
would leave of it is what `allocMallocBlock` computes. -/
structure Heap.HoldsPages (heap : Heap) (length block : Nat) : Prop where
  rounded : roundToPages heap.shared.pageSize length ≤ (heap.mallocHeader block).size
  rest : (heap.mallocHeader block).size >
      add64 (roundToPages heap.shared.pageSize length) mallocHeaderSize →
    roundToPages heap.shared.pageSize length + mallocHeaderSize +
      sub64 (heap.mallocHeader block).size
        (add64 (roundToPages heap.shared.pageSize length) mallocHeaderSize) =
      (heap.mallocHeader block).size

/-- All headers and sizes are whole pages, so the scan accepts only blocks that
hold the pages of a request, and grants them with at most one header more. -/
structure WholePages (env : Env) (state : State) : Prop where
  headers : ∀ region ∈ state.heap.mapped, ∀ block ∈ state.heap.blocks region.base,
    systemPageSize ∣ block.addr ∧ systemPageSize ∣ block.size ∧ 0 < block.size
  accepted : ∀ base ∈ state.heap.mmaps, ∀ length block last,
    findFreeBlock length walkFuel (firstMallocHeaderInMMAP base) env state = .ok block last →
      block ≠ 0 → state.heap.HoldsPages length block
  granted : ∀ size memory last, vgcMalloc size env state = .ok memory last → memory ≠ 0 →
    ∃ block, last.heap.Busy block ∧ ¬state.heap.Busy block ∧
      roundToPages state.heap.shared.pageSize size ≤ block.size ∧
      block.size ≤ roundToPages state.heap.shared.pageSize size + mallocHeaderSize

/-- A block of whole pages that holds some bytes also holds their pages. -/
theorem Stands.holdsPages {abstract : AbstractHeap} {region : Region} {entry : Entry}
    {length : Nat} (stands : Stands pages true heap abstract)
    (member : region ∈ abstract.regions) (entryMem : entry ∈ abstract.entries region.base)
    (enough : length ≤ entry.size) : heap.HoldsPages length entry.addr := by
  have bounds := (stands.wellFormed.tiles region member).bounds entryMem
  have user := (stands.wellFormed.placed region member).user
  have whole := (stands.wellFormed.aligned rfl region member entry entryMem).2.1
  have size := ((stands.regions region member).blocks.headers entry entryMem).size
  have rounded : roundToPages 4096 length = (length + 4095) / 4096 * 4096 :=
    roundToPages_eq (by omega)
  constructor
  · rw [size, stands.pageSize, rounded]
    omega
  · rw [size, stands.pageSize, rounded, mallocHeaderSize_eq, add64_of_lt (by omega)]
    intro left
    rw [sub64_of_le (by omega) (by omega)]
    omega

/-- With guard pages, all sizes and headers of every state of a run are whole
pages. -/
theorem wholePages_of_run (mutexes : MutexCallsSucceed env)
    (run : ClientRun env pages true Tame trace state) : WholePages env state := by
  obtain ⟨unlocked, valid⟩ := tame_valid mutexes run
  have stands := valid.stands
  constructor
  · intro region member block blockMem
    exact stands.wellFormed.aligned rfl region member block blockMem
  · intro base listed length block last scanned present
    obtain ⟨region, member, rfl⟩ := valid.listed listed
    have walk := (stands.site member).walkable
    have start := walk.first
    rw [start] at scanned
    have scan : Yields seen (findFreeBlock length _ _) env (state.heap, []) _ :=
      yields_findFreeBlock walk.rep walk.nonzero walk.enough
    obtain ⟨_, none | chosen⟩ := scan.allows state (by rw [seen, unlocked]) block last scanned
    · exact absurd none.2 present
    · obtain ⟨front, entry, back, split, _, fits, rfl⟩ := chosen
      have entryMem : entry ∈ state.heap.abstraction.entries region.base := by
        rw [split]
        exact List.mem_append_right _ List.mem_cons_self
      exact stands.holdsPages member entryMem fits.2
  · intro size memory last ended served
    obtain ⟨_, effect⟩ := valid.malloc_effect mutexes unlocked ended
    obtain ⟨rep, outcome⟩ := effect.of_malloc served
    rcases outcome.busy rep with ⟨null, _⟩ | ⟨_, _, block, grant, blocks⟩
    · exact absurd null served
    have busy := (blocks block).mpr (Or.inr rfl)
    have enough := grant.need_le
    have whole := (effect.valid valid).dvd_size busy
    obtain ⟨offered, _, _, sizeEq⟩ := grant.size
    have small : block.size < 2 ^ 47 := by
      obtain ⟨region, member, blockMem, _⟩ := busy
      have bounds := ((effect.valid valid).stands.wellFormed.tiles region member).bounds blockMem
      have user := ((effect.valid valid).stands.wellFormed.placed region member).user
      omega
    rw [alignSize_of_guarded rep.mode] at enough sizeEq
    have rounded : roundToPages 4096 size = (size + 4095) / 4096 * 4096 :=
      roundToPages_eq (by omega)
    refine ⟨block, busy, fun old => grant.fresh block old rfl, ?_, ?_⟩
    · rw [stands.pageSize, rounded]
      omega
    · rw [stands.pageSize, rounded, mallocHeaderSize_eq, sizeEq, AbstractHeap.grantLength]
      simp only [if_true]
      split
      · omega
      · omega

theorem wholePages_of_run_sample :
    ∃ trace state, ClientRun generousEnv .default true Tame trace state ∧
      state.heap.blocks 0x10000000 =
        [⟨0x10001000, 4096, true⟩, ⟨0x10004000, 8192, false⟩, ⟨0x10008000, 4096, true⟩,
          ⟨0x1000B000, 32714752, false⟩] ∧ WholePages generousEnv state := by
  have found : (replay Call.program generousEnv Tame [] (start .default true)
      [.malloc 10, .malloc 5000, .malloc 1, .free 0x10006C78]).map
        (fun final => final.2.heap.blocks 0x10000000) = some
        [⟨0x10001000, 4096, true⟩, ⟨0x10004000, 8192, false⟩, ⟨0x10008000, 4096, true⟩,
          ⟨0x1000B000, 32714752, false⟩] := by decide +kernel
  obtain ⟨final, replayed, blocks⟩ := Option.map_eq_some_iff.mp found
  have run := Run.start.replay replayed
  exact ⟨_, _, run, blocks, wholePages_of_run generousEnv_mutexes run⟩

end VgcMalloc
