import VgcMalloc.Guarantees.Copies

/-!
# Contents of blocks

What a client has stored in a block stays there as long as the block is in
use, whatever the client and the library do meanwhile.  `vgc_calloc` adds
zeros to what is known, and without guard pages `vgc_realloc` carries it over
to the new block.
-/

namespace VgcMalloc

open Program Tiling Linked

variable {env : Env} {pages : MmapPages} {guarded : Bool} {heap after middle : Heap}
  {entry x y : Entry} {state last : State} {result size ptr memory : Nat}

/-! ## What is known -/

/-- The address lies in the payload of a block in use. -/
def Heap.InPayload (heap : Heap) (address : Nat) : Prop :=
  ∃ entry ∈ heap.busyBlocks, entry.addr + mallocHeaderSize ≤ address ∧
    address < entry.addr + mallocHeaderSize + entry.size

instance (heap : Heap) (address : Nat) : Decidable (heap.InPayload address) :=
  inferInstanceAs (Decidable (∃ entry ∈ heap.busyBlocks, _ ∧ _))

/-- The bytes that `vgc_realloc` carries over from a block without guard
pages. -/
def Heap.carried (heap : Heap) (ptr size : Nat) : Nat :=
  if heap.shared.isMprotectEnabled then 0 else min (heap.shownSize ptr) size

/-- What a finished deed adds to the bytes that are known. -/
def learn (event : Done) (known : Nat → Option UInt8) (address : Nat) : Option UInt8 :=
  match event.call with
  | .store target value => if address = target then some (.ofNat value) else known address
  | .call (.calloc nmemb size) =>
      if event.result ≠ 0 ∧ event.result ≤ address ∧
          address < event.result + mul64 nmemb size then
        some 0
      else known address
  | .call (.realloc ptr size) =>
      if ptr ≠ 0 ∧ event.result ≠ 0 ∧ event.result ≤ address ∧
          address < event.result + event.before.heap.carried ptr size then
        known (ptr + (address - event.result))
      else known address
  | .call _ => known address

/-- The bytes that a client knows after its deeds: those that it has stored, or
that the library has promised, in blocks that have been in use ever since. -/
def known : List Done → Nat → Option UInt8
  | [], _ => none
  | event :: earlier, address =>
      if event.after.heap.InPayload address then learn event (known earlier) address else none

/-- What is known is what the memory holds, in blocks in use. -/
def Heap.Agrees (heap : Heap) (known : Nat → Option UInt8) : Prop :=
  ∀ address byte, known address = some byte →
    heap.InPayload address ∧ heap.memory address = byte

/-! ## Blocks before and after -/

theorem inPayload_iff {address : Nat} :
    heap.InPayload address ↔ ∃ x, heap.Busy x ∧ x.addr + 8192 ≤ address ∧
      address < x.addr + 8192 + x.size := by
  simp only [Heap.InPayload, mem_busyBlocks, mallocHeaderSize_eq]

/-- Between the states around a call there is one in which the blocks in use of
both are in use. -/
theorem Course.between {call : Call} (valid : Valid pages guarded heap)
    (course : Course env pages guarded heap call result after) :
    ∃ middle, Valid pages guarded middle ∧ (∀ x, heap.Busy x → middle.Busy x) ∧
      ∀ y, after.Busy y → middle.Busy y := by
  cases course with
  | idle null kept same =>
      rw [same]
      exact ⟨heap, valid, fun _ busy => busy, fun _ busy => busy⟩
  | @asked size middle asks kept request written =>
      refine ⟨middle, request.valid valid, fun x busy => (request.keeps busy).1, ?_⟩
      rcases written with rfl | ⟨entry, writes⟩
      · exact fun _ busy => busy
      · exact fun y busy => (writes.busy_iff (request.valid valid)).mp busy
  | freed null frees release =>
      exact ⟨heap, valid, fun _ busy => busy, fun y busy => release.busy_of_free busy⟩
  | @moved ptr size middle written entry asks frees request writes resolves release =>
      have grown := request.valid valid
      refine ⟨middle, grown, fun x busy => (request.keeps busy).1, fun y busy => ?_⟩
      exact (writes.busy_iff grown).mp (release.busy_of_free busy)

/-- A byte that lies in a block in use before and after a call lies in the same
block. -/
theorem Course.same_block {call : Call} {address : Nat} (valid : Valid pages guarded heap)
    (course : Course env pages guarded heap call result after) (before : heap.Busy x)
    (behind : after.Busy y) (xLow : x.addr + 8192 ≤ address)
    (xHigh : address < x.addr + 8192 + x.size) (yLow : y.addr + 8192 ≤ address)
    (yHigh : address < y.addr + 8192 + y.size) : x = y := by
  obtain ⟨middle, grown, old, new⟩ := course.between valid
  have stands := grown.stands
  rcases stands.busy_disjoint (stands.busy_iff.mp (old x before))
    (stands.busy_iff.mp (new y behind)) with same | apart
  · exact same
  · omega

/-! ## Fresh blocks -/

/-- A request that is served takes a new block into use, which holds its
bytes. -/
structure Serves (heap after : Heap) (memory size : Nat) (granted : Entry) : Prop where
  busy : after.Busy granted
  fresh : ∀ x, heap.Busy x → x.addr ≠ granted.addr
  low : granted.addr + 8192 ≤ memory
  high : memory + size ≤ granted.addr + 8192 + granted.size

theorem Effect.serves (valid : Valid pages guarded heap)
    (effect : Effect env pages guarded heap (.malloc size) memory after) (served : memory ≠ 0)
    (contains : heap.shared.Contains size) : ∃ granted, Serves heap after memory size granted := by
  obtain ⟨rep, outcome⟩ := effect.of_malloc served
  have grown := effect.valid valid
  rcases outcome.busy rep with ⟨null, _⟩ | ⟨_, _, granted, grant, blocks⟩
  · exact absurd null served
  · have busy := (blocks granted).mpr (Or.inr rfl)
    have covers := grant.covers rep.mode (fun mode => by subst mode; exact grown.dvd_size busy)
      contains
    exact ⟨granted, busy, grant.fresh, covers.1, covers.2⟩

/-- What is written to a fresh block is written to no other one. -/
theorem Serves.samePayload {target length : Nat} {granted : Entry}
    (serves : Serves heap middle memory size granted) (grown : Valid pages guarded middle)
    (effect : Effect env pages guarded heap (.malloc size) memory middle)
    (writes : WritesRange middle after target length) (low : memory ≤ target)
    (high : target + length ≤ memory + size) (busy : heap.Busy x) : SamePayload heap after x := by
  obtain ⟨stays, same⟩ := effect.keeps busy
  have payload := writes.payload serves.busy (serves.low.trans low) (high.trans serves.high)
  exact same.payload.trans (payload.samePayload grown stays (serves.fresh x busy))

/-- A release keeps the bytes of the blocks that stay in use. -/
theorem Effect.free_samePayload
    (effect : Effect env pages guarded heap (.free ptr) 0 after) (busy : heap.Busy x)
    (stays : after.Busy x) : SamePayload heap after x := by
  cases effect with
  | free rep member listed entryMem isBusy bound resolved outcome =>
      have ne := ((outcome.busy_iff rep member entryMem isBusy).mp stays).2
      exact outcome.samePayload rep member entryMem busy ne
  | nothing => exact fun _ _ _ => rfl

/-! ## Moves -/

/-- The three steps of a `vgc_realloc` that moves a block. -/
theorem Valid.carries {asked copied : State} {length : Nat}
    (valid : Valid pages guarded state.heap) (mutexes : MutexCallsSucceed env)
    (unlocked : state.held = []) (contains : state.heap.shared.Contains size)
    (resolves : state.heap.Resolves ptr) (served : memory ≠ 0) (fits : length ≤ size)
    (request : vgcMalloc size env state = .ok memory asked)
    (copies : memcpy memory ptr length env asked = .ok () copied)
    (frees : vgcFree ptr env copied = .ok () last) :
    (∀ x, state.heap.Busy x → last.heap.Busy x → SamePayload state.heap last.heap x) ∧
      ∀ i < length, last.heap.InPayload (memory + i) →
        last.heap.memory (memory + i) = asked.heap.memory (ptr + i) := by
  obtain ⟨held, effect⟩ := valid.malloc_effect mutexes unlocked request
  obtain ⟨rep, outcome⟩ := effect.of_malloc served
  have grown := effect.valid valid
  obtain ⟨granted, serves⟩ := effect.serves valid served contains
  obtain ⟨heldEq, range⟩ := memcpy_ended copies
  have low := serves.low
  have high := serves.high
  have writes := range.payload serves.busy low (by omega)
  have written := grown.writesPayload writes
  have stays := grown.resolves_writesPayload writes (outcome.resolves rep resolves)
  obtain ⟨_, release⟩ := written.free_effect mutexes (heldEq.trans held) (Or.inl stays) frees
  constructor
  · intro x busy still
    have same := serves.samePayload grown effect range (Nat.le_refl _) (by omega) busy
    exact same.trans (release.free_samePayload (release.busy_of_free still) still)
  · intro i inside there
    rw [← memcpy_copied copies i inside]
    obtain ⟨y, busy, yLow, yHigh⟩ := inPayload_iff.mp there
    exact release.free_samePayload (release.busy_of_free busy) busy (memory + i)
      (by rw [mallocHeaderSize_eq]; omega) (by rw [mallocHeaderSize_eq]; omega)

/-- A call keeps the bytes of the blocks that are in use before and after. -/
theorem Valid.call_samePayload {call : Call} (valid : Valid pages guarded state.heap)
    (mutexes : MutexCallsSucceed env) (unlocked : state.held = []) (tame : Tame state call)
    (ended : call.program env state = .ok result last) (busy : state.heap.Busy x)
    (stays : last.heap.Busy x) : SamePayload state.heap last.heap x := by
  cases call with
  | malloc size =>
      exact ((valid.malloc_effect mutexes unlocked ended).2.keeps busy).2.payload
  | free ptr =>
      obtain ⟨_, freed⟩ := Call.free_ended ended
      exact (valid.free_effect mutexes unlocked tame freed).2.free_samePayload busy stays
  | calloc nmemb size =>
      rcases vgcCalloc_ended ended with ⟨_, _, same⟩ | ⟨positive, middle, asked, rest⟩
      · have heapEq : last.heap = state.heap := congrArg Prod.fst same
        rw [heapEq]
        exact fun _ _ _ => rfl
      · have effect := (valid.malloc_effect mutexes unlocked asked).2
        rcases rest with ⟨_, rfl⟩ | ⟨served, filled⟩
        · exact (effect.keeps busy).2.payload
        · obtain ⟨granted, serves⟩ :=
            effect.serves valid served (tame.resolve_left positive)
          exact serves.samePayload (effect.valid valid) effect (memset_ended filled).2.2
            (Nat.le_refl _) (Nat.le_refl _) busy
  | realloc ptr size =>
      obtain ⟨pointer, fits⟩ := tame
      rcases vgcRealloc_ended ended with ⟨zero, null, ⟨nothing, rfl⟩ | freed⟩ |
        ⟨positive, middle, asked, rest⟩
      · exact fun _ _ _ => rfl
      · have lawful : state.heap.Resolves ptr ∨ state.heap.Rejects ptr :=
          pointer.symm.imp_right Or.inl
        exact (valid.free_effect mutexes unlocked lawful freed).2.free_samePayload busy stays
      · rcases rest with ⟨_, rfl⟩ | ⟨present, served, old, read, copied, sized, copies, frees⟩
        · exact ((valid.malloc_effect mutexes unlocked asked).2.keeps busy).2.payload
        · obtain ⟨rfl, _⟩ := readMallocSize_ended sized
          exact (valid.carries mutexes unlocked (fits.resolve_left positive)
            (pointer.resolve_left present) served (Nat.min_le_right old size) asked copies
            frees).1 x busy stays

/-- Without guard pages `vgc_realloc` reads the size of the block that its
pointer resolves to. -/
theorem Valid.shownSize_eq (valid : Valid pages false heap) (busy : heap.Busy x)
    (bound : ptr < 2 ^ 64) (resolved : headerOf heap.shared ptr = x.addr) :
    ptr = x.addr + 8192 ∧ heap.shownSize ptr = x.size := by
  have stands := valid.stands
  obtain ⟨region, member, xMem, _⟩ := busy
  have user := (stands.wellFormed.placed region member).user
  have bounds := (stands.wellFormed.tiles region member).bounds xMem
  have header : sub64 ptr mallocHeaderSize = x.addr := by
    rw [headerOf, roundPointer, stands.mode] at resolved
    exact resolved
  have pointer : ptr = x.addr + 8192 := by
    rw [sub64, mallocHeaderSize_eq, wordRange_eq] at header
    omega
  have size := ((stands.regions region member).blocks.headers x xMem).size
  refine ⟨pointer, ?_⟩
  rw [Heap.shownSize, header]
  exact size

/-- The bytes that are carried over were known at the old pointer. -/
theorem Valid.realloc_carries {address : Nat} (valid : Valid pages guarded state.heap)
    (mutexes : MutexCallsSucceed env) (unlocked : state.held = [])
    (tame : Tame state (.realloc ptr size)) (present : ptr ≠ 0) (served : memory ≠ 0)
    (ended : vgcRealloc ptr size env state = .ok memory last) (low : memory ≤ address)
    (high : address < memory + state.heap.carried ptr size) (there : last.heap.InPayload address) :
    last.heap.memory address = state.heap.memory (ptr + (address - memory)) := by
  obtain ⟨pointer, fits⟩ := tame
  have resolves := pointer.resolve_left present
  rw [Heap.carried, valid.stands.mode] at high
  cases guarded with
  | true =>
      simp only [if_true] at high
      omega
  | false =>
      simp only [Bool.false_eq_true, if_false] at high
      rcases vgcRealloc_ended ended with ⟨_, null, _⟩ | ⟨positive, asked, request, ⟨null, _⟩ |
        ⟨_, _, old, read, copied, sized, copies, frees⟩⟩
      · exact absurd null served
      · exact absurd (null.resolve_left present) served
      · obtain ⟨rfl, rfl⟩ := readMallocSize_ended sized
        obtain ⟨bound, base, listed, x, xMem, isBusy, resolved⟩ := resolves
        obtain ⟨region, member, rfl⟩ := valid.listed listed
        have busy : state.heap.Busy x := ⟨region, member, xMem, isBusy⟩
        have effect := (valid.malloc_effect mutexes unlocked request).2
        have grown := effect.valid valid
        obtain ⟨stays, same⟩ := effect.keeps busy
        have found : headerOf read.heap.shared ptr = x.addr := by
          rw [grown.stands.headerOf_eq, ← valid.stands.headerOf_eq, resolved]
        obtain ⟨pointerEq, shown⟩ := valid.shownSize_eq busy bound resolved
        have shownLater : (read.heap.mallocHeader (sub64 ptr mallocHeaderSize)).size = x.size :=
          (grown.shownSize_eq stays bound found).2
        rw [shown] at high
        have carried := (valid.carries mutexes unlocked (fits.resolve_left positive)
          (pointer.resolve_left present) served (Nat.min_le_right _ size) request copies frees).2
        have copiedByte := carried (address - memory) (by rw [shownLater]; omega)
          (by rw [Nat.add_sub_cancel' low]; exact there)
        rw [Nat.add_sub_cancel' low] at copiedByte
        rw [copiedByte]
        exact same.payload (ptr + (address - memory)) (by rw [mallocHeaderSize_eq]; omega)
          (by rw [mallocHeaderSize_eq]; omega)

/-- The bytes of a served `vgc_calloc` are zero. -/
theorem vgcCalloc_zero {nmemb address : Nat}
    (ended : vgcCalloc nmemb size env state = .ok memory last) (served : memory ≠ 0)
    (low : memory ≤ address) (high : address < memory + mul64 nmemb size) :
    last.heap.memory address = 0 := by
  rcases vgcCalloc_ended ended with ⟨_, null, _⟩ | ⟨_, middle, _, ⟨null, _⟩ | ⟨_, filled⟩⟩
  · exact absurd null served
  · exact absurd null served
  · unfold memset at filled
    split at filled
    · cases filled
      exact if_pos ⟨low, high⟩
    · cases filled

/-! ## Runs -/

/-- One deed keeps what is known and adds what it has done. -/
theorem Heap.Agrees.deed {event : Done} {knows : Nat → Option UInt8}
    (agrees : event.before.heap.Agrees knows) (valid : Valid pages guarded event.before.heap)
    (mutexes : MutexCallsSucceed env) (unlocked : event.before.held = [])
    (tame : TameDeed event.before event.call)
    (ended : event.call.program env event.before = .ok event.result event.after) {address : Nat}
    {byte : UInt8} (there : event.after.heap.InPayload address)
    (learned : learn event knows address = some byte) : event.after.heap.memory address = byte := by
  obtain ⟨before, deed, result, last⟩ := event
  simp only at agrees valid unlocked tame ended there ⊢
  cases deed with
  | store target value =>
      obtain ⟨_, middle, stored, returned⟩ := bind_eq_ok_iff.mp ended
      cases returned
      unfold storeByte at stored
      split at stored
      · cases stored
        simp only [learn] at learned
        split at learned
        · rename_i same
          subst same
          cases learned
          simp [Bytes.store]
        · rename_i ne
          rw [← (agrees address byte learned).2]
          exact before.heap.memory.store_of_outside (by omega)
      · cases stored
  | call request =>
      obtain ⟨_, course⟩ := valid.course mutexes unlocked tame ended
      -- a byte that is known from before lies in a block that has stayed in use
      have old : knows address = some byte → last.heap.memory address = byte := by
        intro before
        obtain ⟨inside, here⟩ := agrees address byte before
        obtain ⟨x, busy, low, high⟩ := inPayload_iff.mp inside
        obtain ⟨y, stays, yLow, yHigh⟩ := inPayload_iff.mp there
        have same := course.same_block valid busy stays low high yLow yHigh
        subst same
        rw [← here]
        exact valid.call_samePayload mutexes unlocked tame ended busy stays address
          (by rw [mallocHeaderSize_eq]; omega) (by rw [mallocHeaderSize_eq]; omega)
      cases request with
      | malloc size => exact old learned
      | free ptr => exact old learned
      | calloc nmemb size =>
          simp only [learn] at learned
          split at learned
          · rename_i cleared
            cases learned
            exact vgcCalloc_zero ended cleared.1 cleared.2.1 cleared.2.2
          · exact old learned
      | realloc ptr size =>
          simp only [learn] at learned
          split at learned
          · rename_i moved
            obtain ⟨present, served, low, high⟩ := moved
            rw [valid.realloc_carries mutexes unlocked tame present served ended low high there]
            exact (agrees _ byte learned).2
          · exact old learned

/-- In every state of a run the memory holds what the client knows. -/
theorem known_of_run {trace : List Done} (mutexes : MutexCallsSucceed env)
    (run : DeedRun env pages guarded trace state) : state.heap.Agrees (known trace) := by
  have all : state.held = [] ∧ Valid pages guarded state.heap ∧
      state.heap.Agrees (known trace) := by
    refine Run.induct (fun trace state => state.held = [] ∧ Valid pages guarded state.heap ∧
      state.heap.Agrees (known trace)) ?_ ?_ run
    · refine ⟨rfl, valid_start pages guarded, ?_⟩
      intro address byte impossible
      cases impossible
    · rintro trace state deed result last ⟨unlocked, valid, agrees⟩ tame ended
      obtain ⟨held, grown⟩ := valid.deed mutexes unlocked tame ended
      refine ⟨held, grown, ?_⟩
      intro address byte learned
      rw [known] at learned
      split at learned
      · rename_i there
        exact ⟨there, @Heap.Agrees.deed env pages guarded ⟨state, deed, result, last⟩ _ agrees
          valid mutexes unlocked tame ended address byte there learned⟩
      · cases learned
  exact all.2.2

/-- A byte is stored in a block that `vgc_realloc` moves. -/
theorem known_of_run_sample :
    ∃ trace state, DeedRun generousEnv .default false trace state ∧
      known trace 268455944 = some 7 ∧ known trace 268447744 = none ∧
        state.heap.Agrees (known trace) := by
  have found : (replay Deed.program generousEnv TameDeed [] (start .default false)
      [.call (.malloc 8), .store 268447744 7, .call (.realloc 268447744 24)]).map
        (fun final => (known final.1 268455944, known final.1 268447744)) =
      some (some 7, none) := by decide +kernel
  obtain ⟨final, replayed, same⟩ := Option.map_eq_some_iff.mp found
  obtain ⟨new, old⟩ := Prod.mk.inj same
  have run := Run.start.replay replayed
  exact ⟨_, _, run, new, old, known_of_run generousEnv_mutexes run⟩

end VgcMalloc
