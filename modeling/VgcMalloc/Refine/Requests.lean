import Mathlib.Logic.Relation
import VgcMalloc.Refine.Payload

/-!
# Calls of all four entry points

`vgc_calloc` and `vgc_realloc` are made of `vgc_malloc`, `vgc_free` and a write
to the block that was granted.  A write that stays in the payload of a block in
use touches no header, so runs of all four calls keep the heap valid as long as
the requests reach the bytes of their own blocks only.
-/

namespace VgcMalloc

open Program Tiling Linked Relation

variable {env : Env} {heap after middle : Heap} {pages : MmapPages} {guarded : Bool}
  {abstract : AbstractHeap} {region : Region} {entry x : Entry} {state last : State}
  {result : Nat}

/-! ## Writes to payloads -/

/-- Only bytes in the payload of a block in use have changed. -/
structure WritesPayload (heap after : Heap) (entry : Entry) : Prop where
  busy : heap.Busy entry
  same : after = { heap with memory := after.memory }
  outside : ∀ address,
    address < entry.addr + 8192 ∨ entry.addr + 8192 + entry.size ≤ address →
      after.memory address = heap.memory address

namespace WritesPayload

theorem mapped (writes : WritesPayload heap after entry) : after.mapped = heap.mapped := by
  rw [writes.same]

theorem shared (writes : WritesPayload heap after entry) : after.shared = heap.shared := by
  rw [writes.same]

theorem isAccessible (writes : WritesPayload heap after entry) (address : Nat) :
    after.isAccessible address = heap.isAccessible address := by
  rw [writes.same]
  rfl

theorem mmapHeader (writes : WritesPayload heap after entry)
    (stands : Stands pages guarded heap abstract) (member : region ∈ abstract.regions) :
    after.mmapHeader region.base = heap.mmapHeader region.base := by
  have busy := stands.busy_iff.mp writes.busy
  apply Bytes.mmapHeader_congr
  intro address low high
  apply writes.outside
  by_contra inside
  have lower : entry.addr + 8192 ≤ address := by omega
  have upper : address < entry.addr + 8192 + entry.size := by omega
  rcases stands.block_outside busy (by omega) upper member with before | behind
  · omega
  · omega

theorem mallocHeader (writes : WritesPayload heap after entry)
    (stands : Stands pages guarded heap abstract) (member : region ∈ abstract.regions)
    (xMem : x ∈ abstract.entries region.base) :
    after.mallocHeader x.addr = heap.mallocHeader x.addr := by
  obtain ⟨owner, ownerMem, entryMem, _⟩ := stands.busy_iff.mp writes.busy
  apply Bytes.mallocHeader_congr
  intro address low high
  apply writes.outside
  rcases stands.blocks_disjoint ownerMem entryMem member xMem with rfl | apart
  · omega
  · omega

end WritesPayload

theorem Stands.writesPayload (stands : Stands pages guarded heap abstract)
    (writes : WritesPayload heap after entry) : Stands pages guarded after abstract := by
  refine ⟨stands.wellFormed, writes.mapped.trans stands.mapped, ?_, ?_, ?_, ?_, ?_⟩
  · intro region member
    refine (stands.regions region member).of_headers (writes.mmapHeader stands member)
      (fun x xMem => writes.mallocHeader stands member xMem) ?_
    intro address accessible
    rw [writes.isAccessible]
    exact accessible
  · apply stands.links.congr
    · intro base listed
      obtain ⟨region, member, rfl⟩ := stands.listed listed
      exact congrArg MmapHeader.next (writes.mmapHeader stands member)
    · intro base listed
      obtain ⟨region, member, rfl⟩ := stands.listed listed
      exact congrArg MmapHeader.prev (writes.mmapHeader stands member)
  · rw [writes.shared]
    exact stands.pageSize
  · rw [writes.shared]
    exact stands.blockSize
  · rw [writes.shared]
    exact stands.mode

theorem Represents.writesPayload (rep : Represents pages guarded heap abstract)
    (writes : WritesPayload heap after entry) : Represents pages guarded after abstract := by
  refine ⟨rep.toStands.writesPayload writes, ?_⟩
  rw [writes.shared]
  exact rep.first

theorem Valid.writesPayload (valid : Valid pages guarded heap)
    (writes : WritesPayload heap after entry) : Valid pages guarded after := by
  cases valid with
  | live rep => exact .live (rep.writesPayload writes).abstraction
  | dead stands failed =>
      have stays : after.shared.mmapBlockFirst = mapFailed := by
        rw [writes.shared]
        exact failed
      refine .dead ((stands.writesPayload writes).abstraction ?_) stays
      rw [abstraction_listed, mmaps_eq_nil stays, mmaps_eq_nil failed]

theorem WritesPayload.busy_iff (valid : Valid pages guarded heap)
    (writes : WritesPayload heap after entry) : after.Busy x ↔ heap.Busy x :=
  (valid.stands.writesPayload writes).busy_iff.trans valid.stands.busy_iff.symm

theorem WritesPayload.samePayload (valid : Valid pages guarded heap) (busy : heap.Busy x)
    (ne : x.addr ≠ entry.addr) (writes : WritesPayload heap after entry) :
    SamePayload heap after x := by
  have stands := valid.stands
  rcases stands.busy_disjoint (stands.busy_iff.mp busy) (stands.busy_iff.mp writes.busy) with
    rfl | apart
  · exact absurd rfl ne
  · intro address low high
    rw [mallocHeaderSize_eq] at low high
    exact writes.outside address (by omega)

/-- Only bytes of one range have changed. -/
structure WritesRange (heap after : Heap) (target length : Nat) : Prop where
  same : after = { heap with memory := after.memory }
  outside : ∀ address, address < target ∨ target + length ≤ address →
    after.memory address = heap.memory address

/-- The range lies in the payload of a block in use. -/
theorem WritesRange.payload {target length : Nat} (writes : WritesRange heap after target length)
    (busy : heap.Busy entry) (low : entry.addr + 8192 ≤ target)
    (high : target + length ≤ entry.addr + 8192 + entry.size) :
    WritesPayload heap after entry := by
  refine ⟨busy, writes.same, ?_⟩
  intro address apart
  apply writes.outside
  omega

theorem memset_ended {target length : Nat}
    (ended : memset target length env state = .ok () last) :
    state.heap.rangeAccessible target length = true ∧ last.held = state.held ∧
      WritesRange state.heap last.heap target length := by
  unfold memset at ended
  split at ended
  · rename_i accessible
    cases ended
    exact ⟨accessible, rfl, rfl, fun _ outside => if_neg (by omega)⟩
  · cases ended

theorem memcpy_ended {target source length : Nat}
    (ended : memcpy target source length env state = .ok () last) :
    last.held = state.held ∧ WritesRange state.heap last.heap target length := by
  unfold memcpy at ended
  split at ended
  · cases ended
    exact ⟨rfl, rfl, fun _ outside => if_neg (by omega)⟩
  · cases ended

/-- The copied bytes. -/
theorem memcpy_copied {target source length : Nat}
    (ended : memcpy target source length env state = .ok () last) :
    ∀ i < length, last.heap.memory (target + i) = state.heap.memory (source + i) := by
  intro i inside
  unfold memcpy at ended
  split at ended
  · cases ended
    have here : target ≤ target + i ∧ target + i < target + length := by omega
    simp only [Bytes.copy, if_pos here, Nat.add_sub_cancel_left]
  · cases ended

theorem readMallocSize_ended {block value : Nat}
    (ended : readMallocSize block env state = .ok value last) :
    last = state ∧ value = (state.heap.mallocHeader block).size := by
  unfold readMallocSize at ended
  split at ended
  · cases ended
    exact ⟨rfl, rfl⟩
  · cases ended

/-! ## What the calls are made of -/

/-- A finished `vgc_calloc` has asked for nothing, or is a `vgc_malloc` whose
bytes have been cleared. -/
theorem vgcCalloc_ended {nmemb size : Nat}
    (ended : vgcCalloc nmemb size env state = .ok result last) :
    mul64 nmemb size = 0 ∧ result = 0 ∧ seen last = seen state ∨
      mul64 nmemb size ≠ 0 ∧ ∃ middle, vgcMalloc (mul64 nmemb size) env state = .ok result middle ∧
        (result = 0 ∧ last = middle ∨
          result ≠ 0 ∧ memset result (mul64 nmemb size) env middle = .ok () last) := by
  unfold vgcCalloc at ended
  split at ended
  · rename_i nothing
    obtain ⟨_, middle, told, done⟩ := bind_eq_ok_iff.mp ended
    cases told
    cases done
    exact Or.inl ⟨nothing, rfl, rfl⟩
  · rename_i positive
    obtain ⟨ptr, middle, served, rest⟩ := bind_eq_ok_iff.mp ended
    split at rest
    · rename_i null
      cases rest
      exact Or.inr ⟨positive, _, null ▸ served, Or.inl ⟨rfl, rfl⟩⟩
    · rename_i present
      obtain ⟨_, cleared, filled, done⟩ := bind_eq_ok_iff.mp rest
      cases done
      exact Or.inr ⟨positive, middle, served, Or.inr ⟨present, filled⟩⟩

/-- A finished `vgc_realloc` is a `vgc_free`, a `vgc_malloc`, or a `vgc_malloc`
followed by a copy and a `vgc_free`. -/
theorem vgcRealloc_ended {ptr size : Nat}
    (ended : vgcRealloc ptr size env state = .ok result last) :
    size = 0 ∧ result = 0 ∧ (ptr = 0 ∧ last = state ∨ vgcFree ptr env state = .ok () last) ∨
      size ≠ 0 ∧ ∃ middle, vgcMalloc size env state = .ok result middle ∧
        ((ptr = 0 ∨ result = 0) ∧ last = middle ∨
          ptr ≠ 0 ∧ result ≠ 0 ∧ ∃ old read copied,
            readMallocSize (sub64 ptr mallocHeaderSize) env middle = .ok old read ∧
              memcpy result ptr (min old size) env read = .ok () copied ∧
              vgcFree ptr env copied = .ok () last) := by
  unfold vgcRealloc at ended
  split at ended
  · rename_i nothing
    obtain ⟨_, middle, freed, done⟩ := bind_eq_ok_iff.mp ended
    cases done
    unfold when at freed
    split at freed
    · exact Or.inl ⟨nothing, rfl, Or.inr freed⟩
    · rename_i null
      cases freed
      exact Or.inl ⟨nothing, rfl, Or.inl ⟨not_ne_iff.mp null, rfl⟩⟩
  · rename_i positive
    split at ended
    · rename_i null
      exact Or.inr ⟨positive, last, ended, Or.inl ⟨Or.inl null, rfl⟩⟩
    · rename_i present
      obtain ⟨new, middle, served, rest⟩ := bind_eq_ok_iff.mp ended
      split at rest
      · rename_i refused
        cases rest
        exact Or.inr ⟨positive, _, refused ▸ served, Or.inl ⟨Or.inr rfl, rfl⟩⟩
      · rename_i granted
        obtain ⟨old, read, sized, rest⟩ := bind_eq_ok_iff.mp rest
        obtain ⟨_, copied, copies, rest⟩ := bind_eq_ok_iff.mp rest
        obtain ⟨_, freed, frees, done⟩ := bind_eq_ok_iff.mp rest
        cases done
        exact Or.inr ⟨positive, middle, served, Or.inr ⟨present, granted, old, read, copied, sized,
          copies, frees⟩⟩

/-- The bytes that a call asks `vgc_malloc` for. -/
def Call.requested : Call → Nat
  | .malloc size => size
  | .calloc nmemb size => mul64 nmemb size
  | .realloc _ size => size
  | .free _ => 0

/-- A pointer that a call returns comes from `vgc_malloc`. -/
theorem Call.of_served {call : Call} (ended : call.program env state = .ok result last)
    (served : result ≠ 0) :
    ∃ middle, vgcMalloc call.requested env state = .ok result middle := by
  cases call with
  | malloc size => exact ⟨last, ended⟩
  | calloc nmemb size =>
      rcases vgcCalloc_ended ended with ⟨_, null, _⟩ | ⟨_, middle, asked, _⟩
      · exact absurd null served
      · exact ⟨middle, asked⟩
  | realloc ptr size =>
      rcases vgcRealloc_ended ended with ⟨_, null, _⟩ | ⟨_, middle, asked, _⟩
      · exact absurd null served
      · exact ⟨middle, asked⟩
  | free ptr => exact absurd (Call.free_ended ended).1 served

/-! ## Granted bytes -/

/-- Aligning a size that does not wrap makes it no smaller. -/
theorem le_alignSize {shared : Shared} {size : Nat} (fits : size + 8 ≤ 2 ^ 64) :
    size ≤ alignSize shared size := by
  unfold alignSize
  split
  · exact Nat.le_refl _
  · rw [pointerSize_eq]
    split
    · rw [add64_of_lt (by omega)]
      exact Nat.le_add_right _ _
    · rw [add64_of_lt (by omega)]
      exact Nat.le_add_right _ _

/-- The bytes of a contained request lie in the payload of the granted block. -/
theorem Granted.covers {size memory : Nat} {granted : Entry}
    (grant : Granted env pages guarded heap after (alignSize heap.shared size) memory granted)
    (mode : heap.shared.isMprotectEnabled = guarded)
    (whole : guarded = true → 4096 ∣ granted.size) (contains : heap.shared.Contains size) :
    granted.addr + 8192 ≤ memory ∧ memory + size ≤ granted.addr + 8192 + granted.size := by
  have enough := grant.need_le
  have aligned : size ≤ alignSize heap.shared size := le_alignSize contains.1
  have pointer := grant.pointer
  unfold AbstractHeap.pointerOf at pointer
  cases guarded with
  | false =>
      simp only [Bool.false_eq_true, if_false] at pointer
      omega
  | true =>
      have notWhole := contains.2 mode
      have divides := whole rfl
      rw [alignSize_of_guarded mode] at enough pointer
      rw [systemPageSize_eq] at notWhole
      simp only [if_true] at pointer
      omega

/-- A request that is served leaves its pointer in a block in use that holds
its bytes. -/
theorem MallocOutcome.covered {size memory : Nat}
    (rep : Represents pages guarded heap heap.abstraction)
    (outcome : MallocOutcome env pages guarded size heap.abstraction heap after memory)
    (served : memory ≠ 0) (contains : heap.shared.Contains size) :
    ∃ granted, after.Busy granted ∧ granted.addr + 8192 ≤ memory ∧
      memory + size ≤ granted.addr + 8192 + granted.size := by
  rcases outcome.busy rep with ⟨null, _⟩ | ⟨_, _, granted, grant, blocks⟩
  · exact absurd null served
  · have busy := (blocks granted).mpr (Or.inr rfl)
    refine ⟨granted, busy, grant.covers rep.mode ?_ contains⟩
    rintro rfl
    have valid : Valid pages true after := Effect.valid (.live rep) (.malloc rep outcome)
    exact valid.dvd_size busy

/-! ## Changes of the heap -/

/-- A step of a tame call: an effect of `vgc_malloc` or `vgc_free`, or a write
to a payload. -/
inductive Change (env : Env) (pages : MmapPages) (guarded : Bool) (heap after : Heap) : Prop where
  | effect {call : Call} {result : Nat}
      (happened : Effect env pages guarded heap call result after)
  | write {entry : Entry} (writes : WritesPayload heap after entry)

theorem Change.valid (valid : Valid pages guarded heap)
    (change : Change env pages guarded heap after) : Valid pages guarded after := by
  cases change with
  | effect happened => exact happened.valid valid
  | write writes => exact valid.writesPayload writes

/-- A listed MMAP stays listed with its blocks when another one is created. -/
theorem Extended.listed_kept {abstract abstract' : AbstractHeap} {need base : Nat}
    (rep : Represents pages guarded heap abstract)
    (extended : Extended env pages guarded need abstract abstract' heap after)
    (listed : base ∈ abstract.listed) :
    base ∈ abstract'.listed ∧ abstract'.entries base = abstract.entries base := by
  cases extended with
  | kept same =>
      subst same
      exact ⟨listed, rfl⟩
  | refused unfit refused same =>
      subst same
      exact ⟨listed, rfl⟩
  | created unfit region middle chosen same =>
      subst same
      obtain ⟨placed, _, apart⟩ := newRegion_placed chosen
      rw [rep.mapped] at apart
      refine ⟨List.mem_append_left _ listed, AbstractHeap.create_entries_of_ne _ ?_⟩
      rintro rfl
      exact rep.wellFormed.base_not_mem_listed placed apart listed

/-- A pointer resolves in the same way in all heaps of one mode. -/
theorem Stands.headerOf_eq {ptr : Nat} (stands : Stands pages guarded heap abstract) :
    headerOf heap.shared ptr = headerOf ⟨4096, 0, 0, 0, guarded⟩ ptr := by
  unfold headerOf roundPointer
  rw [stands.mode, stands.pageSize]

/-- What the client knows of a pointer when it is in use. -/
theorem Represents.resolves_iff {ptr : Nat} (rep : Represents pages guarded heap abstract) :
    heap.Resolves ptr ↔ ptr < 2 ^ 64 ∧ ∃ base ∈ abstract.listed,
      ∃ x ∈ abstract.entries base, x.busy = true ∧
        headerOf ⟨4096, 0, 0, 0, guarded⟩ ptr = x.addr := by
  unfold Heap.Resolves
  rw [rep.mmaps_eq, rep.headerOf_eq]
  constructor
  · rintro ⟨bound, base, listed, x, xMem, rest⟩
    obtain ⟨owner, member, rfl⟩ := rep.listed listed
    rw [rep.blocks_eq member] at xMem
    exact ⟨bound, owner.base, listed, x, xMem, rest⟩
  · rintro ⟨bound, base, listed, x, xMem, rest⟩
    obtain ⟨owner, member, rfl⟩ := rep.listed listed
    rw [← rep.blocks_eq member] at xMem
    exact ⟨bound, owner.base, listed, x, xMem, rest⟩

/-- A request keeps the pointers of blocks in use. -/
theorem MallocOutcome.resolves {size memory ptr : Nat}
    (rep : Represents pages guarded heap heap.abstraction) (resolves : heap.Resolves ptr)
    (outcome : MallocOutcome env pages guarded size heap.abstraction heap after memory) :
    after.Resolves ptr := by
  obtain ⟨bound, base, listed, x, xMem, busy, resolved⟩ := rep.resolves_iff.mp resolves
  cases outcome with
  | poisoned empty =>
      rw [empty] at listed
      exact absurd listed List.not_mem_nil
  | refused abstract' extended =>
      obtain ⟨stays, same⟩ := extended.listed_kept rep listed
      rw [← same] at xMem
      exact (extended.represents rep).resolves_iff.mpr ⟨bound, base, stays, x, xMem, busy, resolved⟩
  | served extendedHeap abstract' middle region entry extended served positive small =>
      obtain ⟨stays, same⟩ := extended.listed_kept rep listed
      rw [← same] at xMem
      have extendedRep := extended.represents rep
      have afterRep := served.represents extendedRep (alignSize_pos rep.mode positive)
      obtain ⟨_, _, front, back, _, _, split, _, fits, rfl⟩ :=
        AbstractHeap.malloc_eq_some_iff.mp served.found
      refine afterRep.resolves_iff.mpr ⟨bound, base, stays, x, ?_, busy, resolved⟩
      by_cases here : base = region.base
      · rw [here, split] at xMem
        rw [here, AbstractHeap.setEntries_entries]
        exact (mem_grantEntry_busy fits.1 busy).mpr (Or.inl xMem)
      · rw [AbstractHeap.setEntries_entries_of_ne _ _ here]
        exact xMem

theorem Valid.resolves_writesPayload {ptr : Nat} (valid : Valid pages guarded heap)
    (writes : WritesPayload heap after entry) (resolves : heap.Resolves ptr) :
    after.Resolves ptr := by
  have rep : Represents pages guarded heap heap.abstraction := by
    obtain ⟨_, base, listed, _⟩ := resolves
    exact valid.represents listed
  exact (rep.writesPayload writes).resolves_iff.mpr (rep.resolves_iff.mp resolves)

/-! ## Tame calls -/

theorem Valid.malloc_effect {size : Nat} (valid : Valid pages guarded state.heap)
    (mutexes : MutexCallsSucceed env) (free : state.held = [])
    (ended : vgcMalloc size env state = .ok result last) :
    last.held = [] ∧ Effect env pages guarded state.heap (.malloc size) result last.heap := by
  have lawful : MallocAndFree state (.malloc size) := trivial
  exact valid.effect mutexes free lawful ended

theorem Valid.free_effect {ptr : Nat} (valid : Valid pages guarded state.heap)
    (mutexes : MutexCallsSucceed env) (free : state.held = [])
    (lawful : state.heap.Resolves ptr ∨ state.heap.Rejects ptr)
    (ended : vgcFree ptr env state = .ok () last) :
    last.held = [] ∧ Effect env pages guarded state.heap (.free ptr) 0 last.heap := by
  have called : (Call.free ptr).program env state = .ok 0 last := bind_of_ok ended
  exact valid.effect mutexes free lawful called

/-- What the library itself writes for a request lies in the block that is
granted for it. -/
theorem Effect.writes {size target length : Nat}
    (effect : Effect env pages guarded heap (.malloc size) target middle) (served : target ≠ 0)
    (contains : heap.shared.Contains size) (fits : length ≤ size)
    (writes : WritesRange middle after target length) :
    ∃ entry, WritesPayload middle after entry := by
  obtain ⟨rep, outcome⟩ := effect.of_malloc served
  obtain ⟨granted, busy, low, high⟩ := outcome.covered rep served contains
  exact ⟨granted, writes.payload busy low (by omega)⟩

/-- A request keeps the blocks in use and what they hold behind their fields. -/
theorem Effect.keeps {size memory : Nat}
    (effect : Effect env pages guarded heap (.malloc size) memory after) (busy : heap.Busy x) :
    after.Busy x ∧ SameBehind heap after x := by
  cases effect with
  | malloc rep outcome =>
      refine ⟨?_, outcome.sameBehind rep busy⟩
      rcases outcome.busy rep with ⟨_, same⟩ | ⟨_, _, granted, _, blocks⟩
      · exact (same x).mpr busy
      · exact (blocks x).mpr (Or.inl busy)
  | nothing => exact ⟨busy, fun _ _ _ => rfl⟩

/-- The header of the block that a call with this result releases: `vgc_free`
and `vgc_realloc` release the block that their pointer resolves to, the latter
unless its request has failed. -/
def Call.releases (call : Call) (heap : Heap) (result : Nat) : Option Nat :=
  match call with
  | .free ptr => if heap.Resolves ptr then some (headerOf heap.shared ptr) else none
  | .realloc ptr size =>
      if heap.Resolves ptr ∧ (size = 0 ∨ result ≠ 0) then some (headerOf heap.shared ptr) else none
  | _ => none

/-- A pointer that resolves to a block is not recognised as wrong. -/
theorem Valid.not_rejects {ptr : Nat} (valid : Valid pages guarded heap)
    (resolves : heap.Resolves ptr) : ¬heap.Rejects ptr := by
  obtain ⟨bound, base, listed, block, blockMem, busy, resolved⟩ := resolves
  have rep := valid.represents listed
  obtain ⟨region, member, rfl⟩ := rep.listed listed
  have inRange := inRange_of_headerOf rep member blockMem bound resolved
  have header := (rep.regions region member).blocks.headers block blockMem
  unfold Heap.Rejects
  rw [resolved, header.checkStart, header.checkEnd]
  rintro (null | outside | wrong | wrong)
  · have low := inRange.1
    omega
  · exact outside region.base listed inRange
  · exact wrong rfl
  · exact wrong rfl

/-- Nothing resolves while nothing is listed. -/
theorem not_resolves_of_nil {ptr : Nat} (empty : heap.mmaps = []) : ¬heap.Resolves ptr := by
  rintro ⟨_, base, listed, _⟩
  rw [empty] at listed
  exact absurd listed List.not_mem_nil

/-- The size that a call asks `vgc_malloc` for. -/
def Call.asks : Call → Option Nat
  | .malloc size => some size
  | .calloc nmemb size => if mul64 nmemb size = 0 then none else some (mul64 nmemb size)
  | .realloc _ size => if size = 0 then none else some size
  | .free _ => none

/-- The calls of `vgc_malloc` and `vgc_free` that a tame call is made of. -/
inductive Course (env : Env) (pages : MmapPages) (guarded : Bool) (heap : Heap) (call : Call)
    (result : Nat) (after : Heap) : Prop where
  | idle (null : result = 0) (kept : call.releases heap 0 = none) (same : after = heap)
  | asked {size : Nat} {middle : Heap} (asks : call.asks = some size)
      (kept : call.releases heap result = none)
      (request : Effect env pages guarded heap (.malloc size) result middle)
      (written : after = middle ∨ ∃ entry, WritesPayload middle after entry)
  | freed {ptr : Nat} (null : result = 0)
      (frees : call.releases heap 0 = (Call.free ptr).releases heap 0)
      (release : Effect env pages guarded heap (.free ptr) 0 after)
  | moved {ptr size : Nat} {middle written : Heap} {entry : Entry} (asks : call.asks = some size)
      (frees : call.releases heap result = (Call.free ptr).releases heap 0)
      (request : Effect env pages guarded heap (.malloc size) result middle)
      (writes : WritesPayload middle written entry)
      (resolves : heap.Resolves ptr ∧ written.Resolves ptr)
      (release : Effect env pages guarded written (.free ptr) 0 after)

theorem Valid.course {call : Call} {state final : State} {result : Nat}
    (valid : Valid pages guarded state.heap) (mutexes : MutexCallsSucceed env)
    (unlocked : state.held = []) (tame : Tame state call)
    (ended : call.program env state = .ok result final) :
    final.held = [] ∧ Course env pages guarded state.heap call result final.heap := by
  cases call with
  | malloc size =>
      obtain ⟨held, request⟩ := valid.malloc_effect mutexes unlocked ended
      exact ⟨held, .asked rfl rfl request (Or.inl rfl)⟩
  | free ptr =>
      obtain ⟨null, freed⟩ := Call.free_ended ended
      obtain ⟨held, release⟩ := valid.free_effect mutexes unlocked tame freed
      exact ⟨held, .freed null rfl release⟩
  | calloc nmemb size =>
      rcases vgcCalloc_ended ended with ⟨_, null, same⟩ | ⟨positive, middle, asked, rest⟩
      · obtain ⟨heapEq, heldEq⟩ := Prod.mk.inj same
        exact ⟨heldEq.trans unlocked, .idle null rfl heapEq⟩
      · obtain ⟨held, request⟩ := valid.malloc_effect mutexes unlocked asked
        have asks : (Call.calloc nmemb size).asks = some (mul64 nmemb size) := if_neg positive
        rcases rest with ⟨_, rfl⟩ | ⟨served, filled⟩
        · exact ⟨held, .asked asks rfl request (Or.inl rfl)⟩
        · obtain ⟨_, heldEq, cleared⟩ := memset_ended filled
          have writes := request.writes served (tame.resolve_left positive) (Nat.le_refl _) cleared
          exact ⟨heldEq.trans held, .asked asks rfl request (Or.inr writes)⟩
  | realloc ptr size =>
      obtain ⟨pointer, fits⟩ := tame
      have unresolved : ¬state.heap.Resolves 0 := fun resolves =>
        valid.not_rejects resolves (Or.inl rfl)
      rcases vgcRealloc_ended ended with ⟨zero, null, ⟨nothing, rfl⟩ | freed⟩ |
        ⟨positive, middle, asked, rest⟩
      · refine ⟨unlocked, .idle null (if_neg ?_) rfl⟩
        rw [nothing]
        exact fun both => unresolved both.1
      · have lawful : state.heap.Resolves ptr ∨ state.heap.Rejects ptr := by
          rcases pointer with null | resolves
          · exact Or.inr (Or.inl null)
          · exact Or.inl resolves
        obtain ⟨held, release⟩ := valid.free_effect mutexes unlocked lawful freed
        refine ⟨held, .freed null ?_ release⟩
        simp only [Call.releases, zero, true_or, and_true]
      · obtain ⟨held, request⟩ := valid.malloc_effect mutexes unlocked asked
        have asks : (Call.realloc ptr size).asks = some size := if_neg positive
        rcases rest with ⟨reason, rfl⟩ | ⟨present, served, old, read, copied, sized, copies, frees⟩
        · refine ⟨held, .asked asks (if_neg ?_) request (Or.inl rfl)⟩
          rintro ⟨resolves, zero | served⟩
          · exact positive zero
          · rw [reason.resolve_right served] at resolves
            exact unresolved resolves
        · obtain ⟨rfl, _⟩ := readMallocSize_ended sized
          obtain ⟨heldEq, moved⟩ := memcpy_ended copies
          obtain ⟨entry, writes⟩ := request.writes served (fits.resolve_left positive)
            (Nat.min_le_right old size) moved
          obtain ⟨rep, outcome⟩ := request.of_malloc served
          have resolves := pointer.resolve_left present
          have grown := request.valid valid
          have stays := grown.resolves_writesPayload writes (outcome.resolves rep resolves)
          obtain ⟨released, release⟩ := (grown.writesPayload writes).free_effect mutexes
            (heldEq.trans held) (Or.inl stays) frees
          refine ⟨released, .moved asks ?_ request writes ⟨resolves, stays⟩ release⟩
          simp only [Call.releases, ne_eq, served, not_false_eq_true, or_true, and_true]

theorem Course.valid {call : Call} {result : Nat} (valid : Valid pages guarded heap)
    (course : Course env pages guarded heap call result after) : Valid pages guarded after := by
  cases course with
  | idle null kept same =>
      rw [same]
      exact valid
  | asked asks kept request written =>
      rcases written with rfl | ⟨entry, writes⟩
      · exact request.valid valid
      · exact (request.valid valid).writesPayload writes
  | freed null frees release => exact release.valid valid
  | moved asks frees request writes resolves release =>
      exact release.valid ((request.valid valid).writesPayload writes)

theorem Course.changes {call : Call}
    (course : Course env pages guarded heap call result after) :
    ReflTransGen (Change env pages guarded) heap after := by
  cases course with
  | idle null kept same =>
      rw [same]
  | asked asks kept request written =>
      rcases written with rfl | ⟨entry, writes⟩
      · exact .single (.effect request)
      · exact .tail (.single (.effect request)) (.write writes)
  | freed null frees release => exact .single (.effect release)
  | moved asks frees request writes resolves release =>
      exact .tail (.tail (.single (.effect request)) (.write writes)) (.effect release)

/-- A tame call ends with no mutex held and has changed the heap in steps. -/
theorem Valid.changes {call : Call} (valid : Valid pages guarded state.heap)
    (mutexes : MutexCallsSucceed env) (free : state.held = []) (tame : Tame state call)
    (ended : call.program env state = .ok result last) :
    last.held = [] ∧ ReflTransGen (Change env pages guarded) state.heap last.heap := by
  obtain ⟨unlocked, course⟩ := valid.course mutexes free tame ended
  exact ⟨unlocked, course.changes⟩

/-- What every change of a valid heap keeps is kept by several. -/
theorem Valid.preserved (Good : Heap → Prop) (valid : Valid pages guarded heap)
    (good : Good heap)
    (preserved : ∀ heap after, Valid pages guarded heap → Good heap →
      Change env pages guarded heap after → Good after)
    (changes : ReflTransGen (Change env pages guarded) heap after) :
    Valid pages guarded after ∧ Good after := by
  induction changes with
  | refl => exact ⟨valid, good⟩
  | tail _ change ih => exact ⟨change.valid ih.1, preserved _ _ ih.1 ih.2 change⟩

/-- An invariant of valid heaps under the changes of tame calls holds in every
state of a run. -/
theorem tame_invariant {allowed : State → Call → Prop} (Good : Heap → Prop)
    {trace : List Finished} (mutexes : MutexCallsSucceed env)
    (tame : ∀ state call, allowed state call → Tame state call)
    (base : Good (start pages guarded).heap)
    (preserved : ∀ heap after, Valid pages guarded heap → Good heap →
      Change env pages guarded heap after → Good after)
    (run : ClientRun env pages guarded allowed trace state) :
    state.held = [] ∧ Valid pages guarded state.heap ∧ Good state.heap := by
  refine Run.invariant (fun state =>
    state.held = [] ∧ Valid pages guarded state.heap ∧ Good state.heap) ?_ ?_ run
  · exact ⟨rfl, valid_start pages guarded, base⟩
  · rintro state call result after ⟨free, valid, good⟩ allows ended
    obtain ⟨unlocked, changes⟩ := valid.changes mutexes free (tame _ _ allows) ended
    exact ⟨unlocked, valid.preserved Good good preserved changes⟩

/-- Every state of a tame run is valid. -/
theorem tame_valid {trace : List Finished} (mutexes : MutexCallsSucceed env)
    (run : ClientRun env pages guarded Tame trace state) :
    state.held = [] ∧ Valid pages guarded state.heap := by
  have all := tame_invariant (fun _ => True) mutexes (fun _ _ tame => tame) trivial
    (fun _ _ _ _ _ => trivial) run
  exact ⟨all.1, all.2.1⟩

/-! ## Runs of clients that write -/

/-- A store of a tame client. -/
theorem storeByte_ended {state last : State} {address value : Nat}
    (valid : Valid pages guarded state.heap) (tame : TameDeed state (.store address value))
    (ended : storeByte address value env state = .ok () last) :
    last.held = state.held ∧ ∃ entry, WritesPayload state.heap last.heap entry := by
  unfold storeByte at ended
  split at ended
  · cases ended
    obtain ⟨base, listed, entry, entryMem, busy, low, high⟩ := tame
    obtain ⟨region, member, rfl⟩ := valid.listed listed
    rw [mallocHeaderSize_eq] at low high
    refine ⟨rfl, entry, ⟨region, member, entryMem, busy⟩, rfl, ?_⟩
    intro other outside
    exact state.heap.memory.store_of_outside (by omega)
  · cases ended

/-- A deed of a tame client changes a valid heap in steps. -/
theorem Valid.deed_changes {deed : Deed} (valid : Valid pages guarded state.heap)
    (mutexes : MutexCallsSucceed env) (unlocked : state.held = []) (tame : TameDeed state deed)
    (ended : deed.program env state = .ok result last) :
    last.held = [] ∧ ReflTransGen (Change env pages guarded) state.heap last.heap := by
  cases deed with
  | call request => exact valid.changes mutexes unlocked tame ended
  | store address value =>
      obtain ⟨_, middle, stored, returned⟩ := bind_eq_ok_iff.mp ended
      cases returned
      obtain ⟨held, entry, writes⟩ := storeByte_ended valid tame stored
      exact ⟨held.trans unlocked, .single (.write writes)⟩

/-- One deed keeps the heap valid and leaves no mutex locked. -/
theorem Valid.deed {deed : Deed} (valid : Valid pages guarded state.heap)
    (mutexes : MutexCallsSucceed env) (unlocked : state.held = []) (tame : TameDeed state deed)
    (ended : deed.program env state = .ok result last) :
    last.held = [] ∧ Valid pages guarded last.heap := by
  obtain ⟨free, changes⟩ := valid.deed_changes mutexes unlocked tame ended
  exact ⟨free, (valid.preserved (fun _ => True) trivial (fun _ _ _ _ _ => trivial) changes).1⟩

/-- An invariant of valid heaps under changes holds in every state of a run of
deeds. -/
theorem deed_invariant (Good : Heap → Prop) {trace : List Done}
    (mutexes : MutexCallsSucceed env) (base : Good (start pages guarded).heap)
    (preserved : ∀ heap after, Valid pages guarded heap → Good heap →
      Change env pages guarded heap after → Good after)
    (run : DeedRun env pages guarded trace state) :
    state.held = [] ∧ Valid pages guarded state.heap ∧ Good state.heap := by
  refine Run.invariant (fun state =>
    state.held = [] ∧ Valid pages guarded state.heap ∧ Good state.heap) ?_ ?_ run
  · exact ⟨rfl, valid_start pages guarded, base⟩
  · rintro state deed result after ⟨unlocked, valid, good⟩ tame ended
    obtain ⟨free, changes⟩ := valid.deed_changes mutexes unlocked tame ended
    exact ⟨free, valid.preserved Good good preserved changes⟩

/-- Every state of a run of deeds is valid. -/
theorem deed_valid {trace : List Done} (mutexes : MutexCallsSucceed env)
    (run : DeedRun env pages guarded trace state) :
    state.held = [] ∧ Valid pages guarded state.heap := by
  have all := deed_invariant (fun _ => True) mutexes trivial (fun _ _ _ _ _ => trivial) run
  exact ⟨all.1, all.2.1⟩

end VgcMalloc
