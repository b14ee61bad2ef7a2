import VgcMalloc.Guarantees.Tiling
import VgcMalloc.Refine.Payload

/-!
# Pointers handed out in a run

With guard pages, the pointer of an allocation is moved up so that the
requested bytes end with a page.  A size that is a multiple of the page moves
the pointer one page too far: the bytes may then run over the end of the block,
and `vgc_free` looks for the header one page behind it.
-/

namespace VgcMalloc

open Program Tiling Linked

variable {env : Env} {pages : MmapPages} {trace : List Finished} {state : State}
  {heap after : Heap} {x : Entry}

/-! ## Live allocations -/

/-- An allocation as the client knows it, and the header it was granted
with. -/
structure Allocation where
  ptr : Nat
  size : Nat
  header : Nat
  deriving DecidableEq

/-- The blocks in use of all mapped MMAPs. -/
def Heap.busyBlocks (heap : Heap) : List Entry :=
  heap.mapped.flatMap fun region => (heap.blocks region.base).filter Entry.busy

theorem mem_busyBlocks : x ∈ heap.busyBlocks ↔ heap.Busy x := by
  simp only [Heap.busyBlocks, List.mem_flatMap, List.mem_filter, Heap.Busy]

/-- There is a block in use with this header. -/
def Heap.InUse (heap : Heap) (header : Nat) : Prop :=
  ∃ entry ∈ heap.busyBlocks, entry.addr = header

instance (heap : Heap) (header : Nat) : Decidable (heap.InUse header) :=
  inferInstanceAs (Decidable (∃ entry ∈ heap.busyBlocks, entry.addr = header))

theorem inUse_iff {header : Nat} :
    heap.InUse header ↔ ∃ entry, heap.Busy entry ∧ entry.addr = header := by
  simp only [Heap.InUse, mem_busyBlocks]

/-- The block that a finished call took into use. -/
def taken (event : Finished) : Option Entry :=
  event.after.heap.busyBlocks.find? fun entry => decide ¬event.before.heap.InUse entry.addr

/-- The allocation that a finished call made. -/
def allocated (event : Finished) : List Allocation :=
  match event.call with
  | .malloc size =>
      if event.result = 0 then []
      else (taken event).toList.map fun entry => ⟨event.result, size, entry.addr⟩
  | _ => []

/-- The allocations of a run whose blocks have been in use ever since, newest
first. -/
def live : List Finished → List Allocation
  | [] => []
  | event :: earlier =>
      allocated event ++
        (live earlier).filter fun a => decide (event.after.heap.InUse a.header)

/-! ## What is known of live allocations -/

/-- Every live allocation and its block are related, and no two allocations
share a block. -/
structure LiveKept (Placed : Allocation → Entry → Prop) (heap : Heap)
    (allocations : List Allocation) : Prop where
  block : ∀ a ∈ allocations, ∃ x, heap.Busy x ∧ x.addr = a.header ∧ Placed a x
  distinct : allocations.Pairwise fun a b => a.header ≠ b.header

variable {Placed : Allocation → Entry → Prop}

/-- In guarded mode a size is not aligned to pointers. -/
theorem Valid.alignSize_eq (valid : Valid pages true heap) (size : Nat) :
    alignSize heap.shared size = size :=
  alignSize_of_guarded valid.stands.mode size

/-- The block found for a request is the one it was granted. -/
theorem taken_eq {event : Finished} {granted : Entry}
    (fresh : ∀ x, event.before.heap.Busy x → x.addr ≠ granted.addr)
    (blocks : ∀ x, event.after.heap.Busy x ↔ event.before.heap.Busy x ∨ x = granted) :
    taken event = some granted := by
  have unused : ¬event.before.heap.InUse granted.addr := by
    rw [inUse_iff]
    rintro ⟨x, busy, same⟩
    exact fresh x busy same
  have member : granted ∈ event.after.heap.busyBlocks :=
    mem_busyBlocks.mpr ((blocks granted).mpr (Or.inr rfl))
  cases found : taken event with
  | none => exact absurd (List.find?_eq_none.mp found granted member) (by simpa using unused)
  | some y =>
      have picked := List.find?_some found
      have busy := mem_busyBlocks.mp (List.mem_of_find?_eq_some found)
      rcases (blocks y).mp busy with old | same
      · have used : event.before.heap.InUse y.addr := inUse_iff.mpr ⟨y, old, rfl⟩
        exact absurd used (of_decide_eq_true picked)
      · rw [same]

/-- Allocations whose blocks stay in use stay related to them. -/
theorem LiveKept.filter {allocations : List Allocation} (kept : LiveKept Placed heap allocations)
    (unique : ∀ x y, heap.Busy x → heap.Busy y → x.addr = y.addr → x = y)
    (old : ∀ x, after.Busy x → ∀ y, heap.Busy y → x.addr = y.addr → heap.Busy x) :
    LiveKept Placed after (allocations.filter fun a => decide (after.InUse a.header)) := by
  refine ⟨?_, kept.distinct.filter _⟩
  intro a member
  obtain ⟨before, inUse⟩ := List.mem_filter.mp member
  obtain ⟨y, busy, addrEq, placed⟩ := kept.block a before
  obtain ⟨x, xBusy, xAddr⟩ := inUse_iff.mp (of_decide_eq_true inUse)
  have xOld := old x xBusy y busy (xAddr.trans addrEq.symm)
  have same := unique x y xOld busy (xAddr.trans addrEq.symm)
  subst same
  exact ⟨x, xBusy, xAddr, placed⟩

/-- What a request that is served adds to the live allocations. -/
theorem allocated_eq {event : Finished} {granted : Entry} {size : Nat}
    (call : event.call = .malloc size) (served : event.result ≠ 0)
    (fresh : ∀ x, event.before.heap.Busy x → x.addr ≠ granted.addr)
    (blocks : ∀ x, event.after.heap.Busy x ↔ event.before.heap.Busy x ∨ x = granted) :
    allocated event = [⟨event.result, size, granted.addr⟩] := by
  unfold allocated
  rw [call]
  simp only
  rw [if_neg served, taken_eq fresh blocks]
  rfl

theorem allocated_eq_nil {event : Finished} (null : event.result = 0) : allocated event = [] := by
  unfold allocated
  split
  · exact if_pos null
  · rfl

/-- The event is no request, or the block that it took into use is related to
the allocation. -/
def Places (env : Env) (pages : MmapPages) (Placed : Allocation → Entry → Prop)
    (event : Finished) : Prop :=
  ∀ size granted, event.call = .malloc size → size ≠ 0 →
    Granted env pages true event.before.heap event.after.heap size event.result granted →
      4096 ∣ granted.size → Placed ⟨event.result, size, granted.addr⟩ granted

/-- One request or release keeps what is known of the live allocations. -/
theorem LiveKept.effect {allocations : List Allocation} {event : Finished}
    (valid : Valid pages true event.before.heap)
    (kept : LiveKept Placed event.before.heap allocations)
    (places : Places env pages Placed event)
    (effect : Effect env pages true event.before.heap event.call event.result event.after.heap) :
    LiveKept Placed event.after.heap (allocated event ++
      allocations.filter fun a => decide (event.after.heap.InUse a.header)) := by
  have validAfter := effect.valid valid
  have unique : ∀ x y, event.before.heap.Busy x → event.before.heap.Busy y → x.addr = y.addr →
      x = y := fun _ _ => valid.busy_unique
  unfold Places at places
  obtain ⟨before, call, result, ⟨last, held, calls, messages, actions⟩⟩ := event
  simp only at valid kept effect unique validAfter places ⊢
  cases effect with
  | malloc rep outcome =>
      rcases outcome.busy rep with ⟨null, same⟩ | ⟨served, positive, granted, grant, blocks⟩
      · rw [allocated_eq_nil null]
        exact kept.filter unique fun x busy _ _ _ => (same x).mp busy
      · rw [valid.alignSize_eq] at grant
        rw [allocated_eq rfl served grant.fresh blocks, List.singleton_append]
        have taken := (blocks granted).mpr (Or.inr rfl)
        have old := kept.filter unique fun x busy y oldBusy addrEq => by
          rcases (blocks x).mp busy with before | rfl
          · exact before
          · exact absurd addrEq.symm (grant.fresh y oldBusy)
        constructor
        · intro a member
          rcases List.mem_cons.mp member with rfl | earlier
          · exact ⟨granted, taken, rfl,
              places _ granted rfl positive grant (validAfter.dvd_size taken)⟩
          · exact old.block a earlier
        · apply List.pairwise_cons.mpr
          refine ⟨?_, old.distinct⟩
          intro a member
          obtain ⟨y, busy, addrEq, _⟩ := kept.block a (List.mem_filter.mp member).1
          simp only
          rw [← addrEq]
          exact (grant.fresh y busy).symm
  | free rep member listed entryMem busy bound resolved outcome =>
      rw [allocated_eq_nil rfl]
      exact kept.filter unique fun x xBusy _ _ _ =>
        ((outcome.busy_iff rep member entryMem busy).mp xBusy).1
  | nothing =>
      rw [allocated_eq_nil rfl]
      exact kept.filter unique fun x busy _ _ _ => busy

/-- In every run whose calls place the allocations as wanted, all live ones
stay so. -/
theorem liveKept_of_run (mutexes : MutexCallsSucceed env)
    (run : ClientRun env pages true MallocAndFree trace state)
    (places : ∀ event ∈ trace, Places env pages Placed event) :
    state.held = [] ∧ Valid pages true state.heap ∧ LiveKept Placed state.heap (live trace) := by
  refine Run.induct (fun trace state => (∀ event ∈ trace, Places env pages Placed event) →
    state.held = [] ∧ Valid pages true state.heap ∧ LiveKept Placed state.heap (live trace))
      ?_ ?_ run places
  · intro _
    exact ⟨rfl, valid_start pages true, by simp [live], List.Pairwise.nil⟩
  · intro trace state call result after before lawful ended places
    obtain ⟨unlocked, valid, kept⟩ := before fun event member =>
      places event (List.mem_cons_of_mem _ member)
    obtain ⟨held, effect⟩ := valid.effect mutexes unlocked lawful ended
    exact ⟨held, effect.valid valid, @LiveKept.effect _ _ _ _ ⟨state, call, result, after⟩ valid
      kept (places _ List.mem_cons_self) effect⟩

/-! ## Inside the blocks -/

/-- All bytes of the allocation lie in the payload of its block. -/
def InsidePayload (a : Allocation) (entry : Entry) : Prop :=
  entry.addr + mallocHeaderSize ≤ a.ptr ∧
    a.ptr + a.size ≤ entry.addr + mallocHeaderSize + entry.size

/-- The live allocations lie inside the payloads of their blocks, in mapped
memory, apart from one another and from every header. -/
structure Separate (heap : Heap) (allocations : List Allocation) : Prop where
  inside : ∀ a ∈ allocations, ∃ entry ∈ heap.busyBlocks, entry.addr = a.header ∧
    InsidePayload a entry
  disjoint : allocations.Pairwise fun a b => a.ptr + a.size ≤ b.ptr ∨ b.ptr + b.size ≤ a.ptr
  mapped : ∀ a ∈ allocations, ∃ region ∈ heap.mapped, region.base ≤ a.ptr ∧
    a.ptr + a.size ≤ region.base + region.length
  mallocHeaders : ∀ a ∈ allocations, ∀ region ∈ heap.mapped, ∀ entry ∈ heap.blocks region.base,
    a.ptr + a.size ≤ entry.addr ∨ entry.addr + mallocHeaderSize ≤ a.ptr
  mmapHeaders : ∀ a ∈ allocations, ∀ region ∈ heap.mapped,
    a.ptr + a.size ≤ region.base ∨ region.base + mmapHeaderSize ≤ a.ptr

/-- The size of a request is not made of whole pages, or the block it is
granted from has a page to spare and is not split. -/
def LeavesRoom (env : Env) (pages : MmapPages) (state : State) : Call → Prop
  | .malloc size => size % systemPageSize ≠ 0 ∨
      ∀ offered, state.heap.offered env pages size = some offered →
        size + systemPageSize ≤ offered ∧ offered ≤ size + mallocHeaderSize
  | _ => True

/-- The bytes of a request lie in the block that is granted for it exactly when
the request leaves room. -/
theorem Granted.inside_iff {size memory : Nat} {granted : Entry}
    (grant : Granted env pages true state.heap after size memory granted)
    (whole : 4096 ∣ granted.size) :
    InsidePayload ⟨memory, size, granted.addr⟩ granted ↔
      LeavesRoom env pages state (.malloc size) := by
  obtain ⟨offered, found, enough, sizeEq⟩ := grant.size
  have pointer := pointerOf_add granted.addr size
  rw [← grant.pointer] at pointer
  have low : granted.addr + 8192 ≤ memory := by
    rw [grant.pointer]
    unfold AbstractHeap.pointerOf
    omega
  unfold InsidePayload LeavesRoom
  simp only [found, Option.some.injEq, forall_eq', mallocHeaderSize_eq, systemPageSize_eq, low,
    pointer, true_and]
  have round : AbstractHeap.grantLength true size = (size + 4095) / 4096 * 4096 := if_pos rfl
  rw [round] at sizeEq ⊢
  split at sizeEq
  · split
    · omega
    · omega
  · split
    · omega
    · omega

theorem LiveKept.separate {allocations : List Allocation} (valid : Valid pages true heap)
    (kept : LiveKept InsidePayload heap allocations) : Separate heap allocations := by
  have stands := valid.stands
  unfold InsidePayload at kept
  simp only [mallocHeaderSize_eq] at kept
  constructor
  · intro a member
    obtain ⟨x, busy, addrEq, inside⟩ := kept.block a member
    exact ⟨x, mem_busyBlocks.mpr busy, addrEq, inside⟩
  · apply kept.distinct.imp_of_mem
    intro a b aMem bMem ne
    obtain ⟨x, xBusy, xAddr, xInside⟩ := kept.block a aMem
    obtain ⟨y, yBusy, yAddr, yInside⟩ := kept.block b bMem
    rcases stands.busy_disjoint (stands.busy_iff.mp xBusy) (stands.busy_iff.mp yBusy) with
      rfl | apart
    · exact absurd (xAddr.symm.trans yAddr) ne
    · omega
  · intro a member
    obtain ⟨x, ⟨region, regionMem, xMem, _⟩, _, inside⟩ := kept.block a member
    have bounds := (stands.wellFormed.tiles region regionMem).bounds xMem
    refine ⟨region, regionMem, ?_, ?_⟩
    · omega
    · omega
  · intro a member other otherMem entry entryMem
    obtain ⟨x, ⟨region, regionMem, xMem, _⟩, _, inside⟩ := kept.block a member
    rw [mallocHeaderSize_eq]
    rcases stands.blocks_disjoint regionMem xMem otherMem entryMem with rfl | apart
    · exact Or.inr inside.1
    · omega
  · intro a member other otherMem
    obtain ⟨x, busy, _, inside⟩ := kept.block a member
    obtain ⟨region, regionMem, xMem, _⟩ := busy
    have bounds := (stands.wellFormed.tiles region regionMem).bounds xMem
    rw [mmapHeaderSize_eq]
    by_cases same : region = other
    · subst same
      omega
    · have apart := stands.wellFormed.disjoint_of_ne regionMem otherMem same
      have room := (stands.wellFormed.placed other otherMem).room
      unfold Region.Disjoint at apart
      omega

/-- In every state of a run the bytes of a served request lie inside the block
it has taken into use exactly when the request leaves room; where all requests
of the run do, the live allocations are separate. -/
theorem separate_of_run (mutexes : MutexCallsSucceed env)
    (run : ClientRun env pages true MallocAndFree trace state) :
    (∀ size memory last, vgcMalloc size env state = .ok memory last → memory ≠ 0 →
      ∃ block ∈ last.heap.busyBlocks, ¬state.heap.InUse block.addr ∧
        allocated ⟨state, .malloc size, memory, last⟩ = [⟨memory, size, block.addr⟩] ∧
        (InsidePayload ⟨memory, size, block.addr⟩ block ↔
          LeavesRoom env pages state (.malloc size))) ∧
      ((∀ event ∈ trace, LeavesRoom env pages event.before event.call) →
        Separate state.heap (live trace)) := by
  constructor
  · obtain ⟨unlocked, valid⟩ := run_valid mutexes (fun _ _ allowed => allowed) run
    intro size memory last ended served
    have lawful : MallocAndFree state (.malloc size) := trivial
    obtain ⟨_, effect⟩ := valid.effect mutexes unlocked lawful ended
    obtain ⟨rep, outcome⟩ := effect.of_malloc served
    rcases outcome.busy rep with ⟨null, _⟩ | ⟨_, positive, granted, grant, blocks⟩
    · exact absurd null served
    · rw [valid.alignSize_eq] at grant
      have taken := (blocks granted).mpr (Or.inr rfl)
      refine ⟨granted, mem_busyBlocks.mpr taken, ?_, allocated_eq rfl served grant.fresh blocks,
        grant.inside_iff ((effect.valid valid).dvd_size taken)⟩
      rw [inUse_iff]
      rintro ⟨x, busy, same⟩
      exact grant.fresh x busy same
  · intro room
    have places : ∀ event ∈ trace, Places env pages InsidePayload event := by
      intro event member size granted call _ grant whole
      have leaves := room event member
      rw [call] at leaves
      exact (grant.inside_iff whole).mpr leaves
    obtain ⟨_, valid, kept⟩ := liveKept_of_run mutexes run places
    exact kept.separate valid

theorem separate_of_run_sample :
    ∃ trace state, ClientRun generousEnv .default true MallocAndFree trace state ∧
      live trace = [⟨268463224, 5000, 268451840⟩] ∧ Separate state.heap (live trace) ∧
      ∀ size memory last, vgcMalloc size generousEnv state = .ok memory last → memory ≠ 0 →
        ∃ block ∈ last.heap.busyBlocks, ¬state.heap.InUse block.addr ∧
          allocated ⟨state, .malloc size, memory, last⟩ = [⟨memory, size, block.addr⟩] ∧
          (InsidePayload ⟨memory, size, block.addr⟩ block ↔
            LeavesRoom generousEnv .default state (.malloc size)) := by
  have found : (replay Call.program generousEnv MallocAndFree [] (start .default true)
      [.malloc 10, .malloc 5000, .free 268451830]).map
        (fun final => (live final.1, final.1.map Event.call)) =
          some ([⟨268463224, 5000, 268451840⟩], [.free 268451830, .malloc 5000, .malloc 10]) := by
    decide +kernel
  obtain ⟨final, replayed, same⟩ := Option.map_eq_some_iff.mp found
  obtain ⟨alive, calls⟩ := Prod.mk.inj same
  have run := Run.start.replay replayed
  obtain ⟨served, separate⟩ := separate_of_run generousEnv_mutexes run
  refine ⟨_, _, run, alive, separate ?_, served⟩
  intro event member
  have called := List.mem_map_of_mem (f := Event.call) member
  rw [calls] at called
  simp only [List.mem_cons, List.not_mem_nil, or_false] at called
  rcases called with call | call | call
  · rw [call]
    trivial
  · rw [call]
    exact Or.inl (by decide)
  · rw [call]
    exact Or.inl (by decide)

/-- The bytes of a request of one page lie a page too far. -/
theorem not_inside_of_run :
    ¬∀ env pages trace state size memory last, MutexCallsSucceed env →
      ClientRun env pages true MallocAndFree trace state → size ≠ 0 →
        vgcMalloc size env state = .ok memory last → memory ≠ 0 →
          ∃ block ∈ last.heap.busyBlocks, ¬state.heap.InUse block.addr ∧
            InsidePayload ⟨memory, size, block.addr⟩ block := by
  intro claim
  have found : (vgcMalloc 4096 generousEnv (start .default true)).normal.map
      (fun final => (final.1, final.2.heap.busyBlocks)) =
        some (268451840, [⟨268439552, 4096, true⟩]) := by decide +kernel
  obtain ⟨⟨memory, last⟩, ended, same⟩ := Option.map_eq_some_iff.mp found
  obtain ⟨rfl, blocks⟩ := Prod.mk.inj same
  obtain ⟨block, member, _, inside⟩ := claim _ _ _ _ _ _ _ generousEnv_mutexes .start (by decide)
    (Outcome.normal_eq_some_iff.mp ended) (by simp)
  rw [blocks] at member
  rw [List.mem_singleton.mp member] at inside
  exact absurd inside.2 (by simp)

/-! ## Finding the header again -/

/-- `vgc_free` of the pointer finds the header of the allocation and takes the
block out of use; all other blocks in use are kept. -/
structure Recovers (env : Env) (state : State) (a : Allocation) : Prop where
  header : headerOf state.heap.shared a.ptr = a.header
  frees : ∃ last, vgcFree a.ptr env state = .ok () last ∧ ¬last.heap.InUse a.header ∧
    ∀ block ∈ state.heap.busyBlocks, block.addr ≠ a.header →
      block ∈ last.heap.busyBlocks ∧ SamePayload state.heap last.heap block

/-- The pointer of a live allocation is the one that `allocMallocBlock` has
returned for its block. -/
def PointsInto (a : Allocation) (entry : Entry) : Prop :=
  a.ptr = AbstractHeap.pointerOf true a.header a.size ∧ a.size ≤ entry.size

theorem pointsInto_of_run (mutexes : MutexCallsSucceed env)
    (run : ClientRun env pages true MallocAndFree trace state) :
    state.held = [] ∧ Valid pages true state.heap ∧
      LiveKept PointsInto state.heap (live trace) := by
  apply liveKept_of_run mutexes run
  intro event member size granted call positive grant whole
  exact ⟨grant.pointer, grant.need_le⟩

/-- The page mask leads back to the header unless the size is made of whole
pages. -/
theorem headerOf_pointerOf {header : Nat} (size : Nat)
    (stands : Stands pages true heap heap.abstraction) (aligned : 4096 ∣ header)
    (bound : header < 2 ^ 47) :
    headerOf heap.shared (AbstractHeap.pointerOf true header size) =
      if size % 4096 = 0 then header + 4096 else header := by
  have pointer : AbstractHeap.pointerOf true header size =
      header + 8192 + (4096 - size % 4096) := rfl
  rw [pointer, headerOf, roundPointer, stands.mode, if_pos rfl, stands.pageSize,
    pageMask_eq (by omega), sub64_of_le (by rw [mallocHeaderSize_eq]; omega) (by omega),
    mallocHeaderSize_eq]
  split
  · omega
  · omega

/-- In every state of a run `vgc_free` recovers the header of a live allocation
in a listed MMAP exactly when its size is not made of whole pages. -/
theorem recovers_iff_of_run (mutexes : MutexCallsSucceed env)
    (run : ClientRun env pages true MallocAndFree trace state) :
    ∀ a ∈ live trace, ∀ base ∈ state.heap.mmaps,
      (∃ block ∈ state.heap.blocks base, block.busy = true ∧ block.addr = a.header) →
        (Recovers env state a ↔ a.size % systemPageSize ≠ 0) := by
  obtain ⟨unlocked, valid, kept⟩ := pointsInto_of_run mutexes run
  rintro a member base listed ⟨block, blockMem, busy, addrEq⟩
  obtain ⟨_, _, _, pointer, _⟩ := kept.block a member
  obtain ⟨region, regionMem, rfl⟩ := valid.listed listed
  have inUse : state.heap.Busy block := ⟨region, regionMem, blockMem, busy⟩
  obtain ⟨aligned, _, bound⟩ := valid.header_bounds inUse
  have found := headerOf_pointerOf a.size valid.stands aligned bound
  rw [addrEq, ← pointer] at found
  rw [systemPageSize_eq]
  constructor
  · intro recovers whole
    rw [if_pos whole] at found
    have header := recovers.header
    omega
  · intro broken
    rw [if_neg broken] at found
    have small : a.ptr < 2 ^ 64 := by
      rw [pointer, ← addrEq]
      unfold AbstractHeap.pointerOf
      simp only [if_true]
      omega
    obtain ⟨last, freed, outcome⟩ := valid.free_returns mutexes unlocked listed regionMem blockMem
      busy small (found.trans addrEq.symm)
    have rep := valid.represents listed
    have blocks := fun x => outcome.busy_iff (x := x) rep regionMem blockMem busy
    refine ⟨found, last, freed, ?_, ?_⟩
    · rw [inUse_iff]
      rintro ⟨x, xBusy, same⟩
      obtain ⟨before, ne⟩ := (blocks x).mp xBusy
      exact ne (valid.busy_unique before inUse (same.trans addrEq.symm))
    · intro other otherMem ne
      rw [mem_busyBlocks] at otherMem ⊢
      have apart : other ≠ block := by
        rintro rfl
        exact ne addrEq
      exact ⟨(blocks other).mpr ⟨otherMem, apart⟩,
        outcome.samePayload rep regionMem blockMem otherMem apart⟩

theorem recovers_iff_of_run_sample :
    ∃ trace state, ClientRun generousEnv .default true MallocAndFree trace state ∧
      live trace = [⟨268463224, 5000, 268451840⟩, ⟨268451830, 10, 268439552⟩] ∧
      ∀ a ∈ live trace, ∀ base ∈ state.heap.mmaps,
        (∃ block ∈ state.heap.blocks base, block.busy = true ∧ block.addr = a.header) →
          (Recovers generousEnv state a ↔ a.size % systemPageSize ≠ 0) := by
  have found : (replay Call.program generousEnv MallocAndFree [] (start .default true)
      [.malloc 10, .malloc 5000]).map (fun final => live final.1) =
        some [⟨268463224, 5000, 268451840⟩, ⟨268451830, 10, 268439552⟩] := by decide +kernel
  obtain ⟨final, replayed, same⟩ := Option.map_eq_some_iff.mp found
  have run := Run.start.replay replayed
  exact ⟨_, _, run, same, recovers_iff_of_run generousEnv_mutexes run⟩

/-- The pointer of a page is not taken for its block. -/
theorem not_recovers_of_run :
    ¬∀ env pages trace state, MutexCallsSucceed env →
      ClientRun env pages true MallocAndFree trace state →
        ∀ a ∈ live trace, ∀ base ∈ state.heap.mmaps,
          (∃ block ∈ state.heap.blocks base, block.busy = true ∧ block.addr = a.header) →
            Recovers env state a := by
  intro claim
  have found : (replay Call.program generousEnv MallocAndFree [] (start .default true)
      [.malloc 4096]).map (fun final => (live final.1, final.2.heap.mmaps,
        final.2.heap.blocks 0x10000000, headerOf final.2.heap.shared 268451840)) =
      some ([⟨268451840, 4096, 268439552⟩], [0x10000000],
        [⟨268439552, 4096, true⟩, ⟨268451840, 32743424, false⟩], 268443648) := by decide +kernel
  obtain ⟨final, replayed, same⟩ := Option.map_eq_some_iff.mp found
  simp only [Prod.mk.injEq] at same
  obtain ⟨alive, listed, blocks, header⟩ := same
  have run := Run.start.replay replayed
  have recovers := claim _ _ _ _ generousEnv_mutexes run ⟨268451840, 4096, 268439552⟩
    (by simp [alive]) 0x10000000 (by simp [listed])
    ⟨⟨268439552, 4096, true⟩, by simp [blocks], rfl, rfl⟩
  exact absurd (header.symm.trans recovers.header) (by decide)

/-! ## Where the bytes end -/

/-- The header behind a block of an MMAP starts where its payload ends. -/
theorem Valid.nextBlock_eq {region : Region} {entry : Entry} {guarded : Bool}
    (valid : Valid pages guarded heap) (member : region ∈ heap.mapped)
    (entryMem : entry ∈ heap.blocks region.base) :
    heap.nextBlock entry.addr =
      if entry.addr + 8192 + entry.size = region.base + region.length then 0
        else entry.addr + 8192 + entry.size := by
  have tiles := valid.stands.wellFormed.tiles region member
  have links := (valid.stands.regions region member).blocks.links
  rw [abstraction_entries] at tiles links
  obtain ⟨front, back, split⟩ := List.append_of_mem entryMem
  rw [split] at tiles links
  have behind := tiles.next_addr
  rw [List.map_append, List.map_cons] at links
  rw [links.links.2]
  cases back with
  | nil =>
      rw [List.map_nil, List.headD_nil] at behind ⊢
      rw [if_pos behind.symm]
  | cons next rest =>
      have nextMem : next ∈ front ++ entry :: next :: rest := by simp
      have bounds := tiles.bounds nextMem
      rw [List.map_cons, List.headD_cons] at behind ⊢
      rw [if_neg (by omega), behind]

/-- The bytes of a live allocation end with the whole pages that were granted
for it. -/
structure EndsWithPages (heap : Heap) (a : Allocation) (block : Entry) : Prop where
  ends : a.ptr + a.size = block.addr + mallocHeaderSize + pageRound a.size
  next_iff : (heap.nextBlock block.addr ≠ 0 ∧ a.ptr + a.size = heap.nextBlock block.addr) ↔
    heap.nextBlock block.addr ≠ 0 ∧ block.size = pageRound a.size

theorem pageRound_eq (size : Nat) : pageRound size = AbstractHeap.grantLength true size :=
  rfl

theorem Valid.endsWithPages {a : Allocation} (valid : Valid pages true heap)
    (busy : heap.Busy x) (broken : a.size % 4096 ≠ 0)
    (pointer : a.ptr = AbstractHeap.pointerOf true x.addr a.size) : EndsWithPages heap a x := by
  have ends := pointerOf_add x.addr a.size
  rw [if_neg broken, ← pointer, ← pageRound_eq] at ends
  refine ⟨ends, ?_⟩
  obtain ⟨region, member, xMem, _⟩ := busy
  rw [valid.nextBlock_eq member xMem]
  apply and_congr_right
  intro present
  split at present
  · exact absurd rfl present
  · rename_i inside
    rw [if_neg inside, ends]
    omega

/-- In every state of a run the bytes of a live allocation whose size is not
made of whole pages end with its pages, and a block that was split for a
request ends there, too. -/
theorem endsWithPages_of_run (mutexes : MutexCallsSucceed env)
    (run : ClientRun env pages true MallocAndFree trace state) :
    (∀ a ∈ live trace, a.size % systemPageSize ≠ 0 →
      ∃ block ∈ state.heap.busyBlocks, block.addr = a.header ∧
        EndsWithPages state.heap a block) ∧
      ∀ size memory last offered, size % systemPageSize ≠ 0 →
        vgcMalloc size env state = .ok memory last → memory ≠ 0 →
          state.heap.offered env pages size = some offered →
            pageRound size + mallocHeaderSize < offered →
              ∃ header, allocated ⟨state, .malloc size, memory, last⟩ =
                  [⟨memory, size, header⟩] ∧ last.heap.nextBlock header ≠ 0 ∧
                memory + size = last.heap.nextBlock header := by
  obtain ⟨unlocked, valid, kept⟩ := pointsInto_of_run mutexes run
  constructor
  · intro a member broken
    obtain ⟨block, busy, addrEq, pointer, _⟩ := kept.block a member
    rw [← addrEq] at pointer
    exact ⟨block, mem_busyBlocks.mpr busy, addrEq, valid.endsWithPages busy broken pointer⟩
  · intro size memory last offered broken ended served found left
    have lawful : MallocAndFree state (.malloc size) := trivial
    obtain ⟨_, effect⟩ := valid.effect mutexes unlocked lawful ended
    obtain ⟨rep, outcome⟩ := effect.of_malloc served
    rcases outcome.busy rep with ⟨null, _⟩ | ⟨_, positive, granted, grant, blocks⟩
    · exact absurd null served
    · rw [valid.alignSize_eq] at grant
      have afterValid := effect.valid valid
      have taken := (blocks granted).mpr (Or.inr rfl)
      have ends := afterValid.endsWithPages (a := ⟨memory, size, granted.addr⟩) taken broken
        grant.pointer
      obtain ⟨exactly, region, regionMem, grantedMem, rest, restMem, follows⟩ :=
        grant.split offered found left
      have bounds := (afterValid.stands.wellFormed.tiles region regionMem).bounds restMem
      have present : last.heap.nextBlock granted.addr ≠ 0 := by
        rw [afterValid.nextBlock_eq regionMem grantedMem, if_neg (by omega)]
        have placed := (afterValid.stands.wellFormed.placed region regionMem).positive
        omega
      exact ⟨granted.addr, allocated_eq rfl served grant.fresh blocks,
        ends.next_iff.mpr ⟨present, exactly⟩⟩

theorem endsWithPages_of_run_sample :
    ∃ trace state, ClientRun generousEnv .default true MallocAndFree trace state ∧
      live trace = [⟨268447745, 32755711, 268439552⟩] ∧
      (∀ a ∈ live trace, a.size % systemPageSize ≠ 0 →
        ∃ block ∈ state.heap.busyBlocks, block.addr = a.header ∧
          EndsWithPages state.heap a block) ∧
      ∀ size memory last offered, size % systemPageSize ≠ 0 →
        vgcMalloc size generousEnv state = .ok memory last → memory ≠ 0 →
          state.heap.offered generousEnv .default size = some offered →
            pageRound size + mallocHeaderSize < offered →
              ∃ header, allocated ⟨state, .malloc size, memory, last⟩ =
                  [⟨memory, size, header⟩] ∧ last.heap.nextBlock header ≠ 0 ∧
                memory + size = last.heap.nextBlock header := by
  have found : (replay Call.program generousEnv MallocAndFree [] (start .default true)
      [.malloc 32755711]).map (fun final => live final.1) =
        some [⟨268447745, 32755711, 268439552⟩] := by decide +kernel
  obtain ⟨final, replayed, same⟩ := Option.map_eq_some_iff.mp found
  have run := Run.start.replay replayed
  exact ⟨_, _, run, same, endsWithPages_of_run generousEnv_mutexes run⟩

/-- A block that takes all of an MMAP has no next header. -/
theorem not_endsAtHeader_of_run :
    ¬∀ env pages trace state, MutexCallsSucceed env →
      ClientRun env pages true MallocAndFree trace state →
        ∀ a ∈ live trace, state.heap.nextBlock a.header ≠ 0 ∧
          a.ptr + a.size = state.heap.nextBlock a.header := by
  intro claim
  have found : (replay Call.program generousEnv MallocAndFree [] (start .default true)
      [.malloc 32755711]).map (fun final => (live final.1,
        final.2.heap.nextBlock 268439552)) =
          some ([⟨268447745, 32755711, 268439552⟩], 0) := by decide +kernel
  obtain ⟨final, replayed, same⟩ := Option.map_eq_some_iff.mp found
  obtain ⟨alive, last⟩ := Prod.mk.inj same
  have run := Run.start.replay replayed
  obtain ⟨present, _⟩ := claim _ _ _ _ generousEnv_mutexes run
    ⟨268447745, 32755711, 268439552⟩ (by simp [alive])
  exact present last

end VgcMalloc
