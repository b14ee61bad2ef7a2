import VgcMalloc.Guarantees.Guards
import VgcMalloc.Guarantees.Pointers
import VgcMalloc.Refine.Requests

/-!
# Contents across `vgc_realloc`

`vgc_realloc` copies as many bytes as the size of the old block says, but reads
that size relative to the client's pointer, which `vgc_malloc` has moved up in
its page.  The contents survive when the word found there is by chance no
smaller than needed and does not lead out of the block.
-/

namespace VgcMalloc

open Program Tiling Linked

/-- The allocations that a finished deed got from `vgc_malloc`. -/
def obtained (event : Done) : List Allocation :=
  match event.call with
  | .call request => allocated ⟨event.before, request, event.result, event.after⟩
  | .store _ _ => []

/-- The allocations got from `vgc_malloc` whose blocks have been in use ever
since, newest first. -/
def liveAfter : List Done → List Allocation
  | [] => []
  | event :: earlier =>
      obtained event ++
        (liveAfter earlier).filter fun a => decide (event.after.heap.InUse a.header)

variable {env : Env} {pages : MmapPages} {guarded : Bool} {heap after middle : Heap}
  {entry x : Entry} {size : Nat} {state last : State} {Placed : Allocation → Entry → Prop}

/-! ## Live allocations -/

/-- All blocks in use were so before, or have new headers. -/
def OldOrNew (heap after : Heap) : Prop :=
  ∀ x, after.Busy x → heap.Busy x ∨ ∀ y, heap.Busy y → y.addr ≠ x.addr

theorem Effect.oldOrNew {call : Call} {result : Nat}
    (effect : Effect env pages guarded heap call result after) : OldOrNew heap after := by
  intro x busy
  cases effect with
  | malloc rep outcome =>
      rcases outcome.busy rep with ⟨_, same⟩ | ⟨_, _, granted, grant, blocks⟩
      · exact Or.inl ((same x).mp busy)
      · rcases (blocks x).mp busy with old | rfl
        · exact Or.inl old
        · exact Or.inr grant.fresh
  | free rep member listed entryMem isBusy bound resolved outcome =>
      exact Or.inl ((outcome.busy_iff rep member entryMem isBusy).mp busy).1
  | nothing => exact Or.inl busy

theorem Effect.busy_of_free {ptr : Nat} (effect : Effect env pages guarded heap (.free ptr) 0 after)
    (busy : after.Busy x) : heap.Busy x := by
  cases effect with
  | free rep member listed entryMem isBusy bound resolved outcome =>
      exact ((outcome.busy_iff rep member entryMem isBusy).mp busy).1
  | nothing => exact busy

theorem Course.oldOrNew {call : Call} {result : Nat} (valid : Valid pages guarded heap)
    (course : Course env pages guarded heap call result after) : OldOrNew heap after := by
  intro x busy
  cases course with
  | idle null kept same =>
      rw [same] at busy
      exact Or.inl busy
  | asked asks kept request written =>
      rcases written with rfl | ⟨entry, writes⟩
      · exact request.oldOrNew x busy
      · exact request.oldOrNew x ((writes.busy_iff (request.valid valid)).mp busy)
  | freed null frees release => exact Or.inl (release.busy_of_free busy)
  | moved asks frees request writes resolves release =>
      have before := release.busy_of_free busy
      exact request.oldOrNew x ((writes.busy_iff (request.valid valid)).mp before)

theorem LiveKept.oldOrNew {allocations : List Allocation} (valid : Valid pages guarded heap)
    (kept : LiveKept Placed heap allocations) (change : OldOrNew heap after) :
    LiveKept Placed after (allocations.filter fun a => decide (after.InUse a.header)) := by
  refine kept.filter (fun _ _ => valid.busy_unique) ?_
  intro x busy y old same
  rcases change x busy with before | new
  · exact before
  · exact absurd same.symm (new y old)

/-- One deed keeps what is known of the live allocations. -/
theorem LiveKept.deed {event : Done} {allocations : List Allocation}
    (mutexes : MutexCallsSucceed env) (unlocked : event.before.held = [])
    (valid : Valid pages true event.before.heap)
    (kept : LiveKept PointsInto event.before.heap allocations)
    (tame : TameDeed event.before event.call)
    (ended : event.call.program env event.before = .ok event.result event.after) :
    event.after.held = [] ∧ Valid pages true event.after.heap ∧
      LiveKept PointsInto event.after.heap (obtained event ++
        allocations.filter fun a => decide (event.after.heap.InUse a.header)) := by
  obtain ⟨before, deed, result, last⟩ := event
  simp only at unlocked valid kept tame ended ⊢
  cases deed with
  | store address value =>
      obtain ⟨_, middle, stored, returned⟩ := bind_eq_ok_iff.mp ended
      cases returned
      obtain ⟨held, entry, writes⟩ := storeByte_ended valid tame stored
      refine ⟨held.trans unlocked, valid.writesPayload writes, ?_⟩
      exact kept.oldOrNew valid fun x busy => Or.inl ((writes.busy_iff valid).mp busy)
  | call request =>
      obtain ⟨held, course⟩ := valid.course mutexes unlocked tame ended
      refine ⟨held, course.valid valid, ?_⟩
      cases request with
      | malloc size =>
          obtain ⟨_, effect⟩ := valid.malloc_effect mutexes unlocked ended
          refine @LiveKept.effect env pages _ _ ⟨before, .malloc size, result, last⟩ valid kept ?_
            effect
          intro size granted call positive grant whole
          exact ⟨grant.pointer, grant.need_le⟩
      | calloc nmemb size => exact kept.oldOrNew valid (course.oldOrNew valid)
      | realloc ptr size => exact kept.oldOrNew valid (course.oldOrNew valid)
      | free ptr => exact kept.oldOrNew valid (course.oldOrNew valid)

/-- Every live allocation of a run points into its block. -/
theorem pointsInto_of_deeds {trace : List Done} {state : State} (mutexes : MutexCallsSucceed env)
    (run : DeedRun env pages true trace state) :
    state.held = [] ∧ Valid pages true state.heap ∧
      LiveKept PointsInto state.heap (liveAfter trace) := by
  refine Run.induct (fun trace state => state.held = [] ∧ Valid pages true state.heap ∧
    LiveKept PointsInto state.heap (liveAfter trace)) ?_ ?_ run
  · exact ⟨rfl, valid_start pages true, by simp [liveAfter], List.Pairwise.nil⟩
  · rintro trace state deed result last ⟨unlocked, valid, kept⟩ tame ended
    exact @LiveKept.deed env pages ⟨state, deed, result, last⟩ _ mutexes unlocked valid kept tame
      ended

/-! ## What `vgc_realloc` promises -/

/-- The word that `vgc_realloc` takes for the size of the block of a
pointer. -/
def Heap.shownSize (heap : Heap) (ptr : Nat) : Nat :=
  (heap.mallocHeader (sub64 ptr mallocHeaderSize)).size

/-- The bytes lie in the block, its header included. -/
def InsideBlock (address length : Nat) (entry : Entry) : Prop :=
  entry.addr ≤ address ∧ address + length ≤ entry.addr + mallocHeaderSize + entry.size

/-- A `vgc_realloc` that moves an allocation is a `vgc_malloc`, a copy and a
`vgc_free`; the size is read in the old block, and the bytes are copied from the
old block to the payload of the new one. -/
def CopiesInside (env : Env) (state last : State) (a : Allocation) (size memory : Nat) : Prop :=
  ∃ middle copied, vgcMalloc size env state = .ok memory middle ∧
    memcpy memory a.ptr (min (middle.heap.shownSize a.ptr) size) env middle = .ok () copied ∧
    vgcFree a.ptr env copied = .ok () last ∧
    (∃ old ∈ state.heap.busyBlocks, old.addr = a.header ∧
      InsideBlock (sub64 a.ptr mallocHeaderSize + MallocField.size.offset)
        MallocField.size.width old ∧
      InsidePayload ⟨a.ptr, min (middle.heap.shownSize a.ptr) size, a.header⟩ old) ∧
    ∃ new ∈ middle.heap.busyBlocks, ¬state.heap.InUse new.addr ∧ last.heap.InUse new.addr ∧
      InsidePayload ⟨memory, min (middle.heap.shownSize a.ptr) size, new.addr⟩ new

/-- What `vgc_realloc` of a live allocation promises. -/
structure Reallocates (env : Env) (state : State) (a : Allocation) (size : Nat) : Prop where
  moved : ∀ memory last, vgcRealloc a.ptr size env state = .ok memory last → memory ≠ 0 →
    (∀ i < min a.size size, last.heap.memory (memory + i) = state.heap.memory (a.ptr + i)) ∧
      CopiesInside env state last a size memory ∧ ¬last.heap.InUse a.header
  refused : ∀ last, vgcRealloc a.ptr size env state = .ok 0 last →
    ∃ block ∈ state.heap.busyBlocks, block.addr = a.header ∧ block ∈ last.heap.busyBlocks ∧
      SamePayload state.heap last.heap block
  others : ∀ memory last, vgcRealloc a.ptr size env state = .ok memory last →
    ∀ block ∈ state.heap.busyBlocks, block.addr ≠ a.header →
      block ∈ last.heap.busyBlocks ∧ SamePayload state.heap last.heap block

/-- The word that is read as the size of the block lies behind the fields of the
header, and as many bytes as it says are enough and lie in the block. -/
structure ShowsEnough (heap : Heap) (a : Allocation) (size : Nat) : Prop where
  behind : sub64 a.ptr mallocHeaderSize + MallocField.size.offset ≥
    a.header + MallocField.btArraySize.offset + MallocField.btArraySize.width
  enough : min a.size size ≤ heap.shownSize a.ptr
  inside : ∃ block ∈ heap.busyBlocks, block.addr = a.header ∧
    InsidePayload ⟨a.ptr, min (heap.shownSize a.ptr) size, a.header⟩ block

/-- The size reaches the limit of the first MMAP, or no block is offered that
holds it. -/
def Heap.Declines (heap : Heap) (env : Env) (pages : MmapPages) (size : Nat) : Prop :=
  (∃ first ∈ heap.mmaps.head?, (heap.mmapHeader first).maxSize ≤ alignSize heap.shared size) ∨
    ∀ offered ∈ heap.offered env pages (alignSize heap.shared size),
      offered < alignSize heap.shared size

/-- The request is declined, or both pointers lead into their blocks and enough
bytes are moved. -/
def Transfers (env : Env) (pages : MmapPages) (state : State) (a : Allocation) (size : Nat) :
    Prop :=
  state.heap.Declines env pages size ∨
    state.heap.Resolves a.ptr ∧ LeavesRoom env pages state (.malloc size) ∧
      ShowsEnough state.heap a size

/-! ## Requests -/

/-- A request that is served takes a new block into use, which holds its bytes
when it leaves room. -/
theorem MallocOutcome.granted {memory : Nat}
    (rep : Represents pages true state.heap state.heap.abstraction)
    (outcome : MallocOutcome env pages true size state.heap.abstraction state.heap after memory)
    (served : memory ≠ 0) (room : LeavesRoom env pages state (.malloc size)) :
    ∃ granted, after.Busy granted ∧ (∀ y, state.heap.Busy y → y.addr ≠ granted.addr) ∧
      InsidePayload ⟨memory, size, granted.addr⟩ granted := by
  have valid : Valid pages true after := Effect.valid (.live rep) (.malloc rep outcome)
  rcases outcome.busy rep with ⟨null, _⟩ | ⟨_, _, granted, grant, blocks⟩
  · exact absurd null served
  · have busy := (blocks granted).mpr (Or.inr rfl)
    rw [alignSize_of_guarded rep.mode] at grant
    exact ⟨granted, busy, grant.fresh, (grant.inside_iff (valid.dvd_size busy)).mpr room⟩

/-- The limit of the first MMAP holds for every request that is served. -/
theorem MallocOutcome.small {memory first : Nat}
    (rep : Represents pages guarded heap heap.abstraction)
    (outcome : MallocOutcome env pages guarded size heap.abstraction heap after memory)
    (served : memory ≠ 0) (head : heap.mmaps.head? = some first) :
    alignSize heap.shared size < (heap.mmapHeader first).maxSize := by
  have listed : first ∈ heap.abstraction.listed := List.mem_of_head? head
  have limit : ∀ region ∈ heap.abstraction.regions, region.base = first →
      (heap.mmapHeader first).maxSize = region.length - 12288 := by
    rintro region member rfl
    exact (rep.regions region member).mmap.maxSize
  have front : heap.abstraction.listed.headD 0 = first := by
    rw [abstraction_listed, List.headD_eq_head?_getD, head]
    rfl
  cases outcome with
  | poisoned empty refused null => exact absurd null served
  | refused abstract' extended null => exact absurd null served
  | served extendedHeap abstract' middle region entry extended granted positive small =>
      obtain ⟨region, member, same, below⟩ := small
      cases extended with
      | kept equal =>
          subst equal
          rw [limit region member (same.trans front)]
          exact below
      | refused unfit refused equal =>
          subst equal
          rw [limit region member (same.trans front)]
          exact below
      | created unfit fresh between chosen equal =>
          subst equal
          obtain ⟨placed, _, apart⟩ := newRegion_placed chosen
          rw [rep.mapped] at apart
          have base : region.base = first := by
            rw [same, ← front]
            simp [AbstractHeap.create, List.headD_eq_head?_getD, head]
          rcases List.mem_cons.mp member with rfl | old
          · rw [← base] at listed
            exact absurd listed (rep.wellFormed.base_not_mem_listed placed apart)
          · rw [limit region old base]
            exact below

/-- A request that is declined is refused. -/
theorem MallocOutcome.not_declines {memory : Nat}
    (rep : Represents pages guarded heap heap.abstraction)
    (outcome : MallocOutcome env pages guarded size heap.abstraction heap after memory)
    (served : memory ≠ 0) : ¬heap.Declines env pages size := by
  rintro (⟨first, head, big⟩ | less)
  · have small := outcome.small rep served head
    omega
  · rcases outcome.busy rep with ⟨null, _⟩ | ⟨_, _, granted, grant, _⟩
    · exact absurd null served
    · obtain ⟨offered, found, enough, _⟩ := grant.size
      have small := less offered found
      omega

/-! ## The three steps of a move -/

/-- A release takes the block that its pointer resolves to out of use and keeps
the payloads of the others. -/
theorem Effect.frees {ptr : Nat} (valid : Valid pages guarded heap) (busy : heap.Busy x)
    (resolves : heap.Resolves ptr) (resolved : headerOf heap.shared ptr = x.addr)
    (effect : Effect env pages guarded heap (.free ptr) 0 after) :
    ¬after.InUse x.addr ∧
      ∀ y, heap.Busy y → y.addr ≠ x.addr → after.Busy y ∧ SamePayload heap after y := by
  cases effect with
  | free rep member listed entryMem isBusy bound found outcome =>
      have same := valid.busy_unique ⟨_, member, entryMem, isBusy⟩ busy (found.symm.trans resolved)
      subst same
      have blocks := fun y => outcome.busy_iff (x := y) rep member entryMem isBusy
      constructor
      · rw [inUse_iff]
        rintro ⟨y, yBusy, addrEq⟩
        obtain ⟨before, ne⟩ := (blocks y).mp yBusy
        exact ne (valid.busy_unique before busy addrEq)
      · intro y yBusy ne
        have apart : y ≠ _ := fun same => ne (congrArg Entry.addr same)
        exact ⟨(blocks y).mpr ⟨yBusy, apart⟩,
          outcome.samePayload rep member entryMem yBusy apart⟩
  | nothing idle =>
      rcases idle with ⟨_, same, wrong⟩ | failed
      · cases same
        exact absurd wrong (valid.not_rejects resolves)
      · exact absurd resolves (not_resolves_of_nil (mmaps_eq_nil failed))

/-- What the three steps do to the blocks in use. -/
structure Moves (heap middle last : Heap) (memory source length header : Nat)
    (granted : Entry) : Prop where
  busy : middle.Busy granted
  fresh : ¬heap.InUse granted.addr
  stays : last.Busy granted
  covers : InsidePayload ⟨memory, length, granted.addr⟩ granted
  copied : ∀ i < length, last.memory (memory + i) = middle.memory (source + i)
  freed : ¬last.InUse header
  others : ∀ y, heap.Busy y → y.addr ≠ header → last.Busy y ∧ SamePayload heap last y

theorem Valid.moves {memory length ptr : Nat} {asked copied : State}
    (valid : Valid pages true state.heap) (mutexes : MutexCallsSucceed env)
    (unlocked : state.held = []) (room : LeavesRoom env pages state (.malloc size))
    (busy : state.heap.Busy x) (resolves : state.heap.Resolves ptr)
    (resolved : headerOf state.heap.shared ptr = x.addr) (served : memory ≠ 0)
    (fits : length ≤ size) (request : vgcMalloc size env state = .ok memory asked)
    (copies : memcpy memory ptr length env asked = .ok () copied)
    (frees : vgcFree ptr env copied = .ok () last) :
    ∃ granted, Moves state.heap asked.heap last.heap memory ptr length x.addr granted := by
  obtain ⟨held, effect⟩ := valid.malloc_effect mutexes unlocked request
  obtain ⟨rep, outcome⟩ := effect.of_malloc served
  have grown := effect.valid valid
  obtain ⟨granted, taken, fresh, inside⟩ := outcome.granted rep served room
  obtain ⟨low, high⟩ := inside
  simp only [mallocHeaderSize_eq] at low high
  obtain ⟨heldEq, range⟩ := memcpy_ended copies
  have writes := range.payload taken low (by omega)
  have written := grown.writesPayload writes
  have stays := grown.resolves_writesPayload writes (outcome.resolves rep resolves)
  obtain ⟨_, release⟩ := written.free_effect mutexes (heldEq.trans held) (Or.inl stays) frees
  have old := fun y (yBusy : state.heap.Busy y) => effect.keeps yBusy
  have found : headerOf copied.heap.shared ptr = x.addr := by
    rw [written.stands.headerOf_eq, ← valid.stands.headerOf_eq, resolved]
  obtain ⟨freed, kept⟩ := release.frees written ((writes.busy_iff grown).mpr (old x busy).1) stays
    found
  have grantedStays := kept granted ((writes.busy_iff grown).mpr taken) (fresh x busy).symm
  refine ⟨granted, taken, ?_, grantedStays.1, ?_, ?_, freed, ?_⟩
  · rw [inUse_iff]
    rintro ⟨y, yBusy, same⟩
    exact fresh y yBusy same
  · unfold InsidePayload
    rw [mallocHeaderSize_eq]
    simp only
    omega
  · intro i inside
    rw [← memcpy_copied copies i inside]
    exact grantedStays.2 (memory + i) (by rw [mallocHeaderSize_eq]; omega)
      (by rw [mallocHeaderSize_eq]; omega)
  · intro y yBusy ne
    obtain ⟨yStays, ySame⟩ := old y yBusy
    have apart := writes.samePayload grown yStays (fresh y yBusy)
    obtain ⟨yLast, yKept⟩ := kept y ((writes.busy_iff grown).mpr yStays) ne
    exact ⟨yLast, (ySame.payload.trans apart).trans yKept⟩

/-! ## Reading the size -/

/-- A pointer that resolves is not made for whole pages and leads back to the
block of its allocation. -/
theorem PointsInto.headerOf_eq {a : Allocation} (placed : PointsInto a x)
    (addrEq : x.addr = a.header) (valid : Valid pages true heap) (busy : heap.Busy x)
    (resolves : heap.Resolves a.ptr) :
    a.size % 4096 ≠ 0 ∧ headerOf heap.shared a.ptr = x.addr := by
  obtain ⟨aligned, _, bound⟩ := valid.header_bounds busy
  have found := headerOf_pointerOf a.size valid.stands aligned bound
  rw [addrEq, ← placed.1, ← addrEq] at found
  obtain ⟨_, base, listed, y, yMem, yBusy, resolved⟩ := resolves
  obtain ⟨region, member, rfl⟩ := valid.listed listed
  have yInUse : heap.Busy y := ⟨region, member, yMem, yBusy⟩
  split at found
  · -- the pointer of whole pages would lead into the middle of the block
    have behind : y.addr = x.addr + 4096 := resolved.symm.trans found
    rcases valid.stands.busy_disjoint (valid.stands.busy_iff.mp yInUse)
      (valid.stands.busy_iff.mp busy) with same | apart
    · rw [same] at behind
      omega
    · omega
  · rename_i broken
    exact ⟨broken, found⟩

/-- The word that is read as the size lies in the block. -/
theorem PointsInto.shown_inside {a : Allocation} (placed : PointsInto a x)
    (addrEq : x.addr = a.header) (valid : Valid pages true heap) (busy : heap.Busy x)
    (broken : a.size % 4096 ≠ 0) :
    InsideBlock (sub64 a.ptr mallocHeaderSize + MallocField.size.offset)
      MallocField.size.width x := by
  obtain ⟨_, _, bound⟩ := valid.header_bounds busy
  have pointer : a.ptr = a.header + 8192 + (4096 - a.size % 4096) := placed.1
  have word : sub64 a.ptr mallocHeaderSize = x.addr + 4096 - a.size % 4096 := by
    rw [mallocHeaderSize_eq, sub64_of_le (by omega) (by omega)]
    omega
  have whole := valid.dvd_size busy
  have fits := placed.2
  unfold InsideBlock
  simp only [MallocField.offset, MallocField.width]
  rw [word, mallocHeaderSize_eq]
  omega

/-- The word is kept with the bytes behind the fields of the header. -/
theorem SameBehind.shownSize_eq {ptr : Nat} (same : SameBehind heap after x)
    (low : x.addr + 4240 ≤ sub64 ptr mallocHeaderSize + 4104)
    (inside : InsideBlock (sub64 ptr mallocHeaderSize + MallocField.size.offset)
      MallocField.size.width x) : after.shownSize ptr = heap.shownSize ptr := by
  have high : sub64 ptr mallocHeaderSize + 4104 + 8 ≤ x.addr + mallocHeaderSize + x.size := inside.2
  unfold Heap.shownSize Heap.mallocHeader Bytes.mallocHeader
  exact Bytes.load_congr fun address lower upper => same address (by omega) (by omega)

/-- A finished `vgc_realloc` of an allocation is a refused `vgc_malloc`, or moves
as many bytes as the header that it reads says. -/
theorem vgcRealloc_moves {ptr memory : Nat} (present : ptr ≠ 0) (positive : size ≠ 0)
    (ended : vgcRealloc ptr size env state = .ok memory last) :
    memory = 0 ∧ vgcMalloc size env state = .ok 0 last ∨
      memory ≠ 0 ∧ ∃ middle copied, vgcMalloc size env state = .ok memory middle ∧
        memcpy memory ptr (min (middle.heap.shownSize ptr) size) env middle = .ok () copied ∧
        vgcFree ptr env copied = .ok () last := by
  rcases vgcRealloc_ended ended with ⟨zero, _⟩ | ⟨_, middle, asked, ⟨null, rfl⟩ |
    ⟨_, served, old, read, copied, sized, copies, frees⟩⟩
  · exact absurd zero positive
  · have refused := null.resolve_left present
    exact Or.inl ⟨refused, refused ▸ asked⟩
  · obtain ⟨rfl, rfl⟩ := readMallocSize_ended sized
    exact Or.inr ⟨served, read, copied, asked, copies, frees⟩

/-- A `vgc_realloc` that returns a new pointer has moved the bytes of the
allocation. -/
theorem PointsInto.moves {a : Allocation} {memory : Nat} (placed : PointsInto a x)
    (addrEq : x.addr = a.header) (valid : Valid pages true state.heap)
    (mutexes : MutexCallsSucceed env) (unlocked : state.held = []) (busy : state.heap.Busy x)
    (present : a.ptr ≠ 0) (positive : size ≠ 0) (transfers : Transfers env pages state a size)
    (ended : vgcRealloc a.ptr size env state = .ok memory last) (served : memory ≠ 0) :
    CopiesInside env state last a size memory ∧ ShowsEnough state.heap a size ∧
      ∃ middle granted, SameBehind state.heap middle x ∧
        Moves state.heap middle last.heap memory a.ptr (min (state.heap.shownSize a.ptr) size)
          x.addr granted := by
  rcases vgcRealloc_moves present positive ended with ⟨null, _⟩ |
    ⟨_, middle, copied, asked, copies, frees⟩
  · exact absurd null served
  have effect := (valid.malloc_effect mutexes unlocked asked).2
  obtain ⟨rep, outcome⟩ := effect.of_malloc served
  obtain ⟨resolves, room, shows⟩ := transfers.resolve_left (outcome.not_declines rep served)
  obtain ⟨broken, resolved⟩ := placed.headerOf_eq addrEq valid busy resolves
  have same := (effect.keeps busy).2
  have read := placed.shown_inside addrEq valid busy broken
  have shown : middle.heap.shownSize a.ptr = state.heap.shownSize a.ptr := by
    refine same.shownSize_eq ?_ read
    rw [addrEq]
    exact shows.behind
  obtain ⟨granted, moved⟩ := valid.moves mutexes unlocked room busy resolves resolved served
    (Nat.min_le_right _ size) asked copies frees
  obtain ⟨block, blockMem, blockAddr, inside⟩ := shows.inside
  obtain rfl := valid.busy_unique (mem_busyBlocks.mp blockMem) busy (blockAddr.trans addrEq.symm)
  refine ⟨⟨middle, copied, asked, copies, frees, ⟨block, blockMem, addrEq, read, ?_⟩, granted,
    mem_busyBlocks.mpr moved.busy, moved.fresh, inUse_iff.mpr ⟨granted, moved.stays, rfl⟩,
    moved.covers⟩, shows, middle.heap, granted, same, ?_⟩
  · rw [shown]
    exact inside
  · rw [← shown]
    exact moved

/-- A `vgc_realloc` that returns null has changed no block in use. -/
theorem Valid.realloc_refused {ptr : Nat} (valid : Valid pages guarded state.heap)
    (mutexes : MutexCallsSucceed env) (unlocked : state.held = []) (present : ptr ≠ 0)
    (positive : size ≠ 0) (ended : vgcRealloc ptr size env state = .ok 0 last)
    (busy : state.heap.Busy x) : last.heap.Busy x ∧ SamePayload state.heap last.heap x := by
  rcases vgcRealloc_moves present positive ended with ⟨_, asked⟩ | ⟨served, _⟩
  · obtain ⟨stays, same⟩ := (valid.malloc_effect mutexes unlocked asked).2.keeps busy
    exact ⟨stays, same.payload⟩
  · exact absurd rfl served

theorem PointsInto.reallocates {a : Allocation} (placed : PointsInto a x)
    (addrEq : x.addr = a.header) (valid : Valid pages true state.heap)
    (mutexes : MutexCallsSucceed env) (unlocked : state.held = []) (busy : state.heap.Busy x)
    (positive : size ≠ 0) (transfers : Transfers env pages state a size) :
    Reallocates env state a size := by
  have present : a.ptr ≠ 0 := by
    have pointer : a.ptr = a.header + 8192 + (4096 - a.size % 4096) := placed.1
    omega
  constructor
  · intro memory last ended served
    obtain ⟨copies, shows, middle, granted, same, moved⟩ := placed.moves addrEq valid mutexes
      unlocked busy present positive transfers ended served
    refine ⟨?_, copies, ?_⟩
    · intro i within
      have enough := shows.enough
      obtain ⟨block, blockMem, blockAddr, inside⟩ := shows.inside
      obtain rfl := valid.busy_unique (mem_busyBlocks.mp blockMem) busy
        (blockAddr.trans addrEq.symm)
      rw [moved.copied i (by omega)]
      exact same.payload (a.ptr + i) (Nat.le_add_right_of_le inside.1)
        (lt_of_lt_of_le (by simp only; omega) inside.2)
    · rw [← addrEq]
      exact moved.freed
  · intro last ended
    obtain ⟨stays, same⟩ := valid.realloc_refused mutexes unlocked present positive ended busy
    exact ⟨x, mem_busyBlocks.mpr busy, addrEq, mem_busyBlocks.mpr stays, same⟩
  · intro memory last ended y yMem ne
    have yBusy := mem_busyBlocks.mp yMem
    rw [mem_busyBlocks]
    by_cases null : memory = 0
    · rw [null] at ended
      exact valid.realloc_refused mutexes unlocked present positive ended yBusy
    · obtain ⟨_, _, _, _, _, moved⟩ := placed.moves addrEq valid mutexes unlocked busy present
        positive transfers ended null
      exact moved.others y yBusy (by rw [addrEq]; exact ne)

/-- In every state of a run `vgc_realloc` of a live allocation keeps its promise
when it is declined, or both pointers lead into their blocks and the word that
it reads as the old size is large enough and does not lead out of the block. -/
theorem reallocates_of_run {trace : List Done} (mutexes : MutexCallsSucceed env)
    (run : DeedRun env pages true trace state) :
    ∀ a ∈ liveAfter trace, ∀ size, size ≠ 0 → Transfers env pages state a size →
      Reallocates env state a size := by
  obtain ⟨unlocked, valid, kept⟩ := pointsInto_of_deeds mutexes run
  intro a member size positive transfers
  obtain ⟨x, busy, addrEq, placed⟩ := kept.block a member
  exact placed.reallocates addrEq valid mutexes unlocked busy positive transfers

theorem reallocates_of_run_sample :
    ∃ trace state, DeedRun generousEnv .default true trace state ∧
      liveAfter trace = [⟨268464124, 4, 268451840⟩, ⟨268451830, 10, 268439552⟩] ∧
      (∃ last, vgcRealloc 268464124 3 generousEnv state = .ok 268476413 last) ∧
      Reallocates generousEnv state ⟨268464124, 4, 268451840⟩ 3 := by
  have found : (replay Deed.program generousEnv TameDeed [] (start .default true)
      [.call (.malloc 10), .call (.malloc 8190), .store 268460036 3, .call (.free 268460034),
        .call (.malloc 4)]).map (fun final => (liveAfter final.1,
          final.2.heap.shownSize 268464124, final.2.heap.busyBlocks,
          decide (final.2.heap.Resolves 268464124),
          (vgcRealloc 268464124 3 generousEnv final.2).normal.map Prod.fst)) =
      some ([⟨268464124, 4, 268451840⟩, ⟨268451830, 10, 268439552⟩], 3,
        [⟨268439552, 4096, true⟩, ⟨268451840, 4096, true⟩], true, some 268476413) := by
    decide +kernel
  obtain ⟨final, replayed, same⟩ := Option.map_eq_some_iff.mp found
  simp only [Prod.mk.injEq, decide_eq_true_eq] at same
  obtain ⟨alive, shown, blocks, resolves, moved⟩ := same
  obtain ⟨⟨memory, last⟩, ended, rfl⟩ := Option.map_eq_some_iff.mp moved
  have run := Run.start.replay replayed
  refine ⟨_, _, run, alive, ⟨last, Outcome.normal_eq_some_iff.mp ended⟩, reallocates_of_run
    generousEnv_mutexes run _ (by simp [alive]) 3 (by decide) (Or.inr ⟨resolves, Or.inl (by decide),
      by decide, ?_, ?_⟩)⟩
  · simp [shown]
  · refine ⟨⟨268451840, 4096, true⟩, by simp [blocks], rfl, ?_⟩
    simp [InsidePayload, shown]

/-- The byte that the client has stored is lost. -/
theorem not_reallocates_of_run :
    ¬∀ env pages trace state, MutexCallsSucceed env → MprotectCallsSucceed env →
      DeedRun env pages true trace state →
        ∀ a ∈ liveAfter trace, ∀ size, size ≠ 0 → Reallocates env state a size := by
  intro claim
  have found : (replay Deed.program generousEnv TameDeed [] (start .default true)
      [.call (.malloc 10), .store 268451830 1]).map (fun final => (liveAfter final.1,
        final.2.heap.memory 268451830,
        (vgcRealloc 268451830 20 generousEnv final.2).normal.map fun moved =>
          (moved.1, moved.2.heap.memory moved.1))) =
      some ([⟨268451830, 10, 268439552⟩], 1, some (268464108, 0)) := by decide +kernel
  obtain ⟨final, replayed, same⟩ := Option.map_eq_some_iff.mp found
  simp only [Prod.mk.injEq] at same
  obtain ⟨alive, before, moved⟩ := same
  obtain ⟨⟨memory, last⟩, ended, after⟩ := Option.map_eq_some_iff.mp moved
  obtain ⟨rfl, lost⟩ := Prod.mk.inj after
  have run := Run.start.replay replayed
  have reallocates := claim _ _ _ _ generousEnv_mutexes generousEnv_mprotects run
    ⟨268451830, 10, 268439552⟩ (by simp [alive]) 20 (by decide)
  have kept := (reallocates.moved _ _ (Outcome.normal_eq_some_iff.mp ended) (by simp)).1 0 (by simp)
  rw [Nat.add_zero, Nat.add_zero, before] at kept
  exact absurd (lost.symm.trans kept) (by decide)

end VgcMalloc
