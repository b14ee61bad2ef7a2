import VgcMalloc.Guarantees.Processes
import VgcMalloc.Guarantees.Reservations

/-!
# Isolation

Any number of processes may find that there is no first MMAP and create one,
and MMAPs can be lost that way.  But no process disturbs the blocks of another
one, whatever the interleaving, as long as all of them have every MMAP mapped.
-/

namespace VgcMalloc

open Program Tiling Relation

variable {env : Env} {heap after : Heap} {pages : MmapPages} {guarded : Bool} {entry x : Entry}
  {need memory ptr size : Nat}

/-! ## Processes in the middle of a call -/

/-- What a process relies on before its next step. -/
def Stage.Ready (guarded : Bool) (heap : Heap) : Stage → Prop
  | .storing _ mmapBlock => heap.Spare mmapBlock ∨ mmapBlock = mapFailed
  | .searching size need => size ≠ 0 ∧ need < 2 ^ 62 ∧
      ∀ shared : Shared, shared.isMprotectEnabled = guarded → need = alignSize shared size
  | _ => True

variable {ι : Type} [DecidableEq ι] {stages : ι → Stage} {stage : Stage} {process : ι}
  {all last : Processes ι} {state : State}

/-- Every process has what it relies on, and no two of them are going to store
the same MMAP. -/
structure Waiting (guarded : Bool) (heap : Heap) (stages : ι → Stage) : Prop where
  ready : ∀ process, (stages process).Ready guarded heap
  apart : ∀ process other size length mmapBlock, process ≠ other →
    stages process = .storing size mmapBlock → stages other = .storing length mmapBlock →
      mmapBlock = mapFailed

/-- A process goes on and leaves the others what they rely on. -/
theorem Waiting.update (waiting : Waiting guarded heap stages)
    (others : ∀ other size mmapBlock, other ≠ process → stages other = .storing size mmapBlock →
      heap.Spare mmapBlock → after.Spare mmapBlock)
    (ready : stage.Ready guarded after)
    (fresh : ∀ size mmapBlock, stage = .storing size mmapBlock →
      mmapBlock = mapFailed ∨ ¬heap.Spare mmapBlock) :
    Waiting guarded after (Function.update stages process stage) := by
  have clash : ∀ other size length mmapBlock, other ≠ process →
      stage = .storing size mmapBlock → stages other = .storing length mmapBlock →
        mmapBlock = mapFailed := by
    intro other size length mmapBlock _ here there
    have known := waiting.ready other
    rw [there] at known
    rcases fresh size mmapBlock here with failed | unused
    · exact failed
    · exact known.resolve_left unused
  constructor
  · intro other
    by_cases same : other = process
    · subst same
      rw [Function.update_self]
      exact ready
    · rw [Function.update_of_ne same]
      have known := waiting.ready other
      cases there : stages other with
      | storing size mmapBlock =>
          rw [there] at known
          exact known.imp_left (others other size mmapBlock same there)
      | searching size need =>
          rw [there] at known
          exact known
      | idle => trivial
      | testing size => trivial
      | creating size => trivial
      | retesting size => trivial
      | checking size => trivial
  · intro first second size length mmapBlock ne here there
    by_cases isFirst : first = process
    · subst isFirst
      rw [Function.update_self] at here
      rw [Function.update_of_ne ne.symm] at there
      exact clash second size length mmapBlock ne.symm here there
    · rw [Function.update_of_ne isFirst] at here
      by_cases isSecond : second = process
      · subst isSecond
        rw [Function.update_self] at there
        exact clash first length size mmapBlock ne there here
      · rw [Function.update_of_ne isSecond] at there
        exact waiting.apart first second size length mmapBlock ne here there

/-- A step that keeps the MMAPs in waiting. -/
theorem Waiting.next (waiting : Waiting guarded heap stages) (spares : SparesKept heap after)
    (ready : stage.Ready guarded after)
    (idle : ∀ size mmapBlock, stage ≠ .storing size mmapBlock) :
    Waiting guarded after (Function.update stages process stage) :=
  waiting.update (fun _ _ mmapBlock _ _ => spares mmapBlock) ready
    fun size mmapBlock storing => absurd storing (idle size mmapBlock)

/-! ## What the processes know -/

/-- A request that the mode of the heap can hold got its bytes inside of its
block. -/
def HoldsBytes (guarded : Bool) (a : Allocation) (entry : Entry) : Prop :=
  ∀ shared : Shared, shared.isMprotectEnabled = guarded → shared.Contains a.size →
    InsidePayload a entry

/-- What is known of the memory and of the allocations that are in use. -/
structure Knows (guarded : Bool) (heap : Heap) (trace : List Done) : Prop where
  agrees : heap.Agrees (known trace)
  live : LiveKept (HoldsBytes guarded) heap (liveAfter trace)

/-- Steps that disturb no block. -/
theorem Knows.undisturbed {trace : List Done} (knows : Knows guarded heap trace)
    (undisturbed : Undisturbed heap after) : Knows guarded after trace := by
  refine ⟨?_, ?_, knows.live.distinct⟩
  · intro address byte learned
    obtain ⟨inside, here⟩ := knows.agrees address byte learned
    obtain ⟨x, busy, low, high⟩ := inPayload_iff.mp inside
    obtain ⟨stays, same⟩ := undisturbed x busy
    refine ⟨inPayload_iff.mpr ⟨x, stays, low, high⟩, ?_⟩
    rw [← here]
    exact same address (by rw [mallocHeaderSize_eq]; omega) (by rw [mallocHeaderSize_eq]; omega)
  · intro a member
    obtain ⟨x, busy, rest⟩ := knows.live.block a member
    exact ⟨x, (undisturbed x busy).1, rest⟩

/-- The bytes of a request lie in its block. -/
theorem holdsBytes_of_pointer (aligned : ∀ shared : Shared, shared.isMprotectEnabled = guarded →
      need = alignSize shared size)
    (pointer : memory = AbstractHeap.pointerOf guarded entry.addr need)
    (enough : need ≤ entry.size) (whole : guarded = true → 4096 ∣ entry.size) :
    HoldsBytes guarded ⟨memory, size, entry.addr⟩ entry := by
  intro shared mode contains
  have bytes : size ≤ alignSize shared size := le_alignSize contains.1
  rw [← aligned shared mode] at bytes
  unfold AbstractHeap.pointerOf at pointer
  unfold InsidePayload
  simp only [mallocHeaderSize_eq]
  cases guarded with
  | false =>
      simp only [Bool.false_eq_true, if_false] at pointer
      omega
  | true =>
      have divides := whole rfl
      have notWhole : size % systemPageSize ≠ 0 := contains.2 mode
      rw [systemPageSize_eq] at notWhole
      rw [aligned shared mode, alignSize_of_guarded mode] at pointer enough
      simp only [if_true] at pointer
      omega

theorem obtained_malloc (before after : State) (size memory : Nat) :
    obtained ⟨before, .call (.malloc size), memory, after⟩ =
      allocated ⟨before, .malloc size, memory, after⟩ :=
  rfl

/-- A request that is refused, or served from a fresh block. -/
theorem Knows.requested {before after : State} {trace : List Done}
    (valid : Valid pages guarded before.heap) (knows : Knows guarded before.heap trace)
    (aligned : ∀ shared : Shared, shared.isMprotectEnabled = guarded →
      need = alignSize shared size)
    (searches : Searches pages guarded need before.heap after.heap memory) :
    Knows guarded after.heap (⟨before, .call (.malloc size), memory, after⟩ :: trace) := by
  have later := knows.undisturbed searches.undisturbed
  constructor
  · intro address byte learned
    rw [known] at learned
    split at learned
    · exact later.agrees address byte learned
    · cases learned
  · rcases searches.result with ⟨null, old⟩ | ⟨served, granted, fresh, blocks, pointer, enough⟩
    · have none : allocated ⟨before, .malloc size, memory, after⟩ = [] := allocated_eq_nil null
      rw [liveAfter, obtained_malloc, none, List.nil_append]
      exact knows.live.oldOrNew valid fun x busy => Or.inl (old x busy)
    · have got : allocated ⟨before, .malloc size, memory, after⟩ =
          [⟨memory, size, granted.addr⟩] := allocated_eq rfl served fresh blocks
      have busy := (blocks granted).mpr (Or.inr rfl)
      have rest := knows.live.oldOrNew valid fun x there => by
        rcases (blocks x).mp there with before | rfl
        · exact Or.inl before
        · exact Or.inr fresh
      rw [liveAfter, obtained_malloc, got, List.singleton_append]
      constructor
      · intro a member
        rcases List.mem_cons.mp member with rfl | earlier
        · exact ⟨granted, busy, rfl, holdsBytes_of_pointer aligned pointer enough
            fun mode => by subst mode; exact searches.valid.dvd_size busy⟩
        · exact rest.block a earlier
      · apply List.pairwise_cons.mpr
        refine ⟨?_, rest.distinct⟩
        intro a member
        obtain ⟨y, there, addrEq, _⟩ := knows.live.block a (List.mem_filter.mp member).1
        have apart := fresh y there
        rw [addrEq] at apart
        exact apart.symm

/-- A request that ends before its search. -/
theorem Knows.refused {before after : State} {trace : List Done}
    (valid : Valid pages guarded before.heap) (knows : Knows guarded before.heap trace)
    (same : after.heap = before.heap) :
    Knows guarded after.heap (⟨before, .call (.malloc size), 0, after⟩ :: trace) := by
  constructor
  · intro address byte learned
    rw [known] at learned
    split at learned
    · rw [same]
      exact knows.agrees address byte learned
    · cases learned
  · have none : allocated ⟨before, .malloc size, 0, after⟩ = [] := allocated_eq_nil rfl
    rw [liveAfter, obtained_malloc, none, List.nil_append]
    apply knows.live.oldOrNew valid
    simp only [same]
    exact fun x busy => Or.inl busy

/-- A release. -/
theorem Knows.freed {before after : State} {trace : List Done}
    (valid : Valid pages guarded before.heap) (mutexes : MutexCallsSucceed env)
    (unlocked : before.held = []) (knows : Knows guarded before.heap trace)
    (lawful : before.heap.Resolves ptr ∨ before.heap.Rejects ptr)
    (ended : vgcFree ptr env before = .ok () after) :
    Knows guarded after.heap (⟨before, .call (.free ptr), 0, after⟩ :: trace) := by
  obtain ⟨_, effect⟩ := valid.free_effect mutexes unlocked lawful ended
  have called : (Call.free ptr).program env before = .ok 0 after := bind_of_ok ended
  constructor
  · intro address byte learned
    rw [known] at learned
    split at learned
    · rename_i there
      exact ⟨there, @Heap.Agrees.deed env pages guarded ⟨before, .call (.free ptr), 0, after⟩ _
        knows.agrees valid mutexes unlocked lawful called address byte there learned⟩
    · cases learned
  · exact knows.live.oldOrNew valid effect.oldOrNew

/-- A store changes one byte of the payload of a block in use. -/
theorem Heap.InPayload.stored {last : State} {address value : Nat}
    (inside : state.heap.InPayload address)
    (ended : storeByte address value env state = .ok () last) :
    last.held = state.held ∧ ∃ entry, WritesPayload state.heap last.heap entry := by
  unfold storeByte at ended
  split at ended
  · cases ended
    obtain ⟨entry, busy, low, high⟩ := inPayload_iff.mp inside
    refine ⟨rfl, entry, busy, rfl, ?_⟩
    intro other outside
    exact state.heap.memory.store_of_outside (by omega)
  · cases ended

/-- A store. -/
theorem Knows.stored {before after : State} {trace : List Done} {address value : Nat}
    (valid : Valid pages guarded before.heap) (knows : Knows guarded before.heap trace)
    (writes : WritesPayload before.heap after.heap entry)
    (ended : storeByte address value env before = .ok () after) :
    Knows guarded after.heap (⟨before, .store address value, 0, after⟩ :: trace) := by
  constructor
  · intro target byte learned
    rw [known] at learned
    split at learned
    · rename_i there
      refine ⟨there, ?_⟩
      unfold storeByte at ended
      split at ended
      · cases ended
        simp only [learn] at learned
        split at learned
        · rename_i same
          subst same
          cases learned
          simp [Bytes.store]
        · rename_i ne
          rw [← (knows.agrees target byte learned).2]
          exact before.heap.memory.store_of_outside (by omega)
      · cases ended
    · cases learned
  · exact knows.live.oldOrNew valid fun x busy => Or.inl ((writes.busy_iff valid).mp busy)

/-! ## Turns -/

/-- A release keeps the MMAPs in waiting. -/
theorem Valid.free_spares {last : State} (valid : Valid pages guarded state.heap)
    (mutexes : MutexCallsSucceed env) (unlocked : state.held = [])
    (lawful : state.heap.Resolves ptr ∨ state.heap.Rejects ptr)
    (ended : vgcFree ptr env state = .ok () last) : SparesKept state.heap last.heap := by
  have view : seen state = (state.heap, []) := by rw [seen, unlocked]
  have unchanged : seen last = (state.heap, []) → SparesKept state.heap last.heap := by
    intro same
    have heapEq : last.heap = state.heap := congrArg Prod.fst same
    rw [heapEq]
    exact fun _ spare => spare
  cases valid with
  | dead stands failed =>
      exact unchanged (allows_vgcFree_dead mutexes stands failed state view () last ended)
  | live rep =>
      rcases lawful with ⟨bound, base, listed, entry, entryMem, busy, resolved⟩ | wrong
      · obtain ⟨region, member, rfl⟩ := rep.listed listed
        exact (allows_vgcFree_resolved mutexes rep member listed entryMem busy bound resolved
          state view () last ended).2.spares
      · exact unchanged (allows_vgcFree_ignored mutexes rep wrong state view () last ended)

/-- So does a store to a payload. -/
theorem Valid.writes_spares (valid : Valid pages guarded heap)
    (writes : WritesPayload heap after entry) : SparesKept heap after := by
  have stands := valid.stands
  have later := stands.writesPayload writes
  have first : after.shared.mmapBlockFirst = heap.abstraction.listed.headD 0 ∨
      after.shared.mmapBlockFirst = mapFailed ∧ heap.abstraction.listed = [] := by
    rw [writes.shared]
    exact valid.first
  have mmaps := (later.valid first).2
  apply sparesKept_of_links
  · intro region member _
    rw [writes.mapped]
    exact member
  · intro base listed spare
    rw [mmaps] at listed
    exact spare.unlisted listed
  · intro region member _
    have header := writes.mmapHeader stands member
    exact ⟨congrArg MmapHeader.next header, congrArg MmapHeader.prev header⟩

namespace Processes

/-- The invariant of all processes. -/
structure Inv (pages : MmapPages) (guarded : Bool) (all : Processes ι) : Prop where
  unlocked : all.state.held = []
  valid : Valid pages guarded all.state.heap
  waiting : Waiting guarded all.state.heap all.stage
  knows : Knows guarded all.state.heap all.trace

omit [DecidableEq ι] in
theorem Inv.view (inv : all.Inv pages guarded) : seen all.state = (all.state.heap, []) := by
  rw [seen, inv.unlocked]

/-- A step that changes neither the heap nor the mutexes. -/
theorem Inv.same (inv : all.Inv pages guarded) (same : seen state = (all.state.heap, []))
    (ready : stage.Ready guarded all.state.heap)
    (idle : ∀ size mmapBlock, stage ≠ .storing size mmapBlock) :
    (all.reach process stage state).Inv pages guarded := by
  obtain ⟨heapEq, heldEq⟩ := Prod.mk.inj same
  have waiting : Waiting guarded all.state.heap (Function.update all.stage process stage) :=
    inv.waiting.next (fun _ spare => spare) ready idle
  refine ⟨heldEq, ?_, ?_, ?_⟩
  · exact heapEq ▸ inv.valid
  · exact heapEq ▸ waiting
  · exact heapEq ▸ inv.knows

/-- A call that ends before its search. -/
theorem Inv.refused (inv : all.Inv pages guarded) (same : seen state = (all.state.heap, [])) :
    (all.finish process (.call (.malloc size)) 0 state).Inv pages guarded := by
  obtain ⟨heapEq, heldEq⟩ := Prod.mk.inj same
  have waiting : Waiting guarded all.state.heap (Function.update all.stage process .idle) :=
    inv.waiting.next (fun _ spare => spare) trivial (by simp)
  refine ⟨heldEq, heapEq ▸ inv.valid, heapEq ▸ waiting, ?_⟩
  exact inv.knows.refused inv.valid heapEq

/-- Every step of `vgc_malloc` keeps the invariant. -/
theorem Inv.advance (inv : all.Inv pages guarded) (mutexes : MutexCallsSucceed env)
    (moves : all.advance env process = some last) : last.Inv pages guarded := by
  have waits := inv.waiting.ready process
  unfold Processes.advance at moves
  cases stage : all.stage process with
  | idle =>
      rw [stage] at moves
      cases moves
  | testing size =>
      rw [stage] at moves
      obtain ⟨⟨present, final⟩, normal, rfl⟩ := Option.map_eq_some_iff.mp moves
      have ended := Outcome.normal_eq_some_iff.mp normal
      have same : all.state = final := by
        cases ended
        rfl
      cases present with
      | false => exact inv.same (same ▸ inv.view) trivial (by simp)
      | true => exact inv.same (same ▸ inv.view) trivial (by simp)
  | creating size =>
      rw [stage] at moves
      obtain ⟨final, normal, rfl⟩ := Option.map_eq_some_iff.mp moves
      have ended := Outcome.normal_eq_some_iff.mp normal
      obtain ⟨unlocked, keeps, _, made⟩ := (inv.valid.yields_createFirst mutexes).allows all.state
        inv.view final.1 final.2 ended
      refine ⟨unlocked, keeps.valid, ?_, inv.knows.undisturbed keeps.undisturbed⟩
      apply inv.waiting.update (fun _ _ mmapBlock _ _ => keeps.spares mmapBlock)
      · exact made.symm.imp_left And.left
      · rintro length mmapBlock same
        obtain ⟨rfl, rfl⟩ := Stage.storing.inj same
        exact made.imp_right And.right
  | storing size mmapBlock =>
      rw [stage] at moves waits
      obtain ⟨⟨_, final⟩, normal, rfl⟩ := Option.map_eq_some_iff.mp moves
      have ended := Outcome.normal_eq_some_iff.mp normal
      obtain ⟨heapEq, heldEq⟩ : final.heap = all.state.heap.setFirst mmapBlock ∧
          final.held = all.state.held := by
        cases ended
        exact ⟨rfl, rfl⟩
      obtain ⟨valid, undisturbed, old, spares⟩ := inv.valid.stored waits
      rw [← heapEq] at valid undisturbed spares
      refine ⟨heldEq.trans inv.unlocked, valid, ?_, inv.knows.undisturbed undisturbed⟩
      apply inv.waiting.update
      · intro other length second ne there spare
        apply spares second _ spare
        rintro rfl
        have failed := inv.waiting.apart other process length size second ne there stage
        exact inv.valid.not_spare_mapFailed (failed ▸ spare)
      · trivial
      · simp
  | retesting size =>
      rw [stage] at moves
      obtain ⟨⟨created, final⟩, normal, rfl⟩ := Option.map_eq_some_iff.mp moves
      have ended := Outcome.normal_eq_some_iff.mp normal
      have same : all.state = final := by
        cases ended
        rfl
      cases created with
      | false => exact inv.refused (same ▸ inv.view)
      | true => exact inv.same (same ▸ inv.view) trivial (by simp)
  | checking size =>
      rw [stage] at moves
      obtain ⟨final, normal, rfl⟩ := Option.map_eq_some_iff.mp moves
      have ended := Outcome.normal_eq_some_iff.mp normal
      obtain ⟨same, passed⟩ :=
        inv.valid.allows_checkSize all.state inv.view final.1 final.2 ended
      cases checked : final.1 with
      | none => exact inv.refused same
      | some need =>
          obtain ⟨positive, aligned, bound⟩ := passed need checked
          apply inv.same same
          · refine ⟨positive, bound, ?_⟩
            intro shared mode
            rw [aligned]
            exact alignSize_congr (inv.valid.stands.mode.trans mode.symm) size
          · simp
  | searching size need =>
      rw [stage] at moves waits
      obtain ⟨final, normal, rfl⟩ := Option.map_eq_some_iff.mp moves
      have ended := Outcome.normal_eq_some_iff.mp normal
      obtain ⟨positive, bound, aligned⟩ := waits
      have bytes : guarded = true → 0 < need := by
        rw [aligned all.state.heap.shared inv.valid.stands.mode]
        exact alignSize_pos inv.valid.stands.mode positive
      obtain ⟨unlocked, searches⟩ := inv.valid.allows_mallocInMMAPs mutexes bound bytes all.state
        inv.view final.1 final.2 ended
      exact ⟨unlocked, searches.valid, inv.waiting.next searches.spares trivial (by simp),
        inv.knows.requested inv.valid aligned searches⟩

/-- Every lawful turn keeps the invariant. -/
theorem Inv.take {turn : Turn ι} (inv : all.Inv pages guarded) (mutexes : MutexCallsSucceed env)
    (lawful : all.Lawful turn) (moves : all.take env turn = some last) :
    last.Inv pages guarded := by
  cases turn with
  | malloc process size =>
      rw [Processes.take] at moves
      split at moves
      · obtain rfl := Option.some.inj moves
        exact inv.same inv.view trivial (by simp)
      · cases moves
  | step process => exact inv.advance mutexes moves
  | free process ptr =>
      rw [Processes.take] at moves
      split at moves
      · obtain ⟨⟨_, final⟩, normal, rfl⟩ := Option.map_eq_some_iff.mp moves
        have ended := Outcome.normal_eq_some_iff.mp normal
        obtain ⟨unlocked, effect⟩ := inv.valid.free_effect mutexes inv.unlocked lawful ended
        have spares := inv.valid.free_spares mutexes inv.unlocked lawful ended
        exact ⟨unlocked, effect.valid inv.valid, inv.waiting.next spares trivial (by simp),
          inv.knows.freed inv.valid mutexes inv.unlocked lawful ended⟩
      · cases moves
  | store process address value =>
      rw [Processes.take] at moves
      split at moves
      · obtain ⟨⟨_, final⟩, normal, rfl⟩ := Option.map_eq_some_iff.mp moves
        have ended := Outcome.normal_eq_some_iff.mp normal
        obtain ⟨held, entry, writes⟩ := Heap.InPayload.stored lawful ended
        exact ⟨held.trans inv.unlocked, inv.valid.writesPayload writes,
          inv.waiting.next (inv.valid.writes_spares writes) trivial (by simp),
          inv.knows.stored inv.valid writes ended⟩
      · cases moves

omit [DecidableEq ι] in
theorem inv_start (pages : MmapPages) (guarded : Bool) :
    (start pages guarded : Processes ι).Inv pages guarded where
  unlocked := rfl
  valid := valid_start pages guarded
  waiting := ⟨fun _ => trivial, fun _ _ _ _ _ _ idle => by cases idle⟩
  knows := ⟨fun _ _ impossible => (by cases impossible), by simp [start, liveAfter],
    List.Pairwise.nil⟩

/-- The invariant holds in every interleaving. -/
theorem inv_of_reach (mutexes : MutexCallsSucceed env)
    (reached : ReflTransGen (Step env Lawful) (start pages guarded) all) :
    all.Inv pages guarded := by
  refine invariant_of_reach (Inv pages guarded) (inv_start pages guarded) ?_ reached
  rintro before after inv ⟨turn, lawful, moves⟩
  exact inv.take mutexes lawful moves

/-! ## Isolation -/

/-- Memory holds what the processes have stored in their blocks, and no two
allocations overlap. -/
structure Isolated (all : Processes ι) : Prop where
  contents : all.state.heap.Agrees (known all.trace)
  inside : ∀ a ∈ liveAfter all.trace, all.state.heap.shared.Contains a.size →
    ∃ entry ∈ all.state.heap.busyBlocks, entry.addr = a.header ∧ InsidePayload a entry
  disjoint : (liveAfter all.trace).Pairwise fun a b =>
    all.state.heap.shared.Contains a.size → all.state.heap.shared.Contains b.size →
      a.ptr + a.size ≤ b.ptr ∨ b.ptr + b.size ≤ a.ptr

omit [DecidableEq ι] in
theorem Inv.isolated (inv : all.Inv pages guarded) : all.Isolated := by
  have stands := inv.valid.stands
  have live := inv.knows.live
  refine ⟨inv.knows.agrees, ?_, ?_⟩
  · intro a member contains
    obtain ⟨x, busy, addrEq, holds⟩ := live.block a member
    exact ⟨x, mem_busyBlocks.mpr busy, addrEq, holds _ stands.mode contains⟩
  · apply live.distinct.imp_of_mem
    intro a b aMem bMem ne aContains bContains
    obtain ⟨x, xBusy, xAddr, xHolds⟩ := live.block a aMem
    obtain ⟨y, yBusy, yAddr, yHolds⟩ := live.block b bMem
    have xInside := xHolds _ stands.mode aContains
    have yInside := yHolds _ stands.mode bContains
    unfold InsidePayload at xInside yInside
    rw [mallocHeaderSize_eq] at xInside yInside
    rcases stands.busy_disjoint (stands.busy_iff.mp xBusy) (stands.busy_iff.mp yBusy) with
      rfl | apart
    · exact absurd (xAddr.symm.trans yAddr) ne
    · omega

/-- In every interleaving of lawful turns, whoever creates the first MMAP and
whatever the kernel refuses, the processes are isolated. -/
theorem isolated_of_reach (mutexes : MutexCallsSucceed env)
    (reached : ReflTransGen (Step env Lawful) (start pages guarded) all) : all.Isolated :=
  (inv_of_reach mutexes reached).isolated

/-- Turns that can be played lead to a state that is reached. -/
theorem reach_of_play {allowed : Processes ι → Turn ι → Prop}
    [∀ all turn, Decidable (allowed all turn)] {turns : List (Turn ι)} {first : Processes ι}
    (played : first.play env allowed turns = some last) :
    ReflTransGen (Step env allowed) first last := by
  induction turns generalizing first with
  | nil =>
      obtain rfl := Option.some.inj played
      exact .refl
  | cons turn rest ih =>
      rw [play] at played
      split at played
      · rename_i lawful
        obtain ⟨next, taken, later⟩ := Option.bind_eq_some_iff.mp played
        exact .head ⟨turn, lawful, taken⟩ (ih later)
      · cases played

/-- Both processes find no first MMAP; the child replaces that of the master,
which has allocated in it and stored a byte. -/
def race : List (Turn Process) :=
  [.malloc .master 8, .malloc .child 24, .step .master, .step .child, .step .master, .step .child,
    .step .master, .step .master, .step .master, .step .master, .store .master 268447744 7,
    .step .child, .step .child, .step .child, .step .child, .store .child 536883200 9]

/-- The MMAP of the master is lost, its byte is not. -/
theorem isolated_of_reach_sample :
    ∃ all : Processes Process,
      ReflTransGen (Step generousEnv Lawful) (start .default false) all ∧
        all.state.heap.mmaps = [0x20000000] ∧ known all.trace 268447744 = some 7 ∧
          all.Isolated := by
  have found : ((start .default false).play generousEnv Lawful race).map
      (fun all => (all.state.heap.mmaps, known all.trace 268447744)) =
        some ([0x20000000], some 7) := by decide +kernel
  obtain ⟨all, played, same⟩ := Option.map_eq_some_iff.mp found
  obtain ⟨mmaps, byte⟩ := Prod.mk.inj same
  have reached := reach_of_play played
  exact ⟨all, reached, mmaps, byte, isolated_of_reach generousEnv_mutexes reached⟩

end Processes

end VgcMalloc
