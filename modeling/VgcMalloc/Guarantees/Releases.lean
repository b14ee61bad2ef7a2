import VgcMalloc.Guarantees.Tiling
import VgcMalloc.Refine.Requests
import VgcMalloc.Tiling.Canonical

/-!
# What releases leave

The lists of an MMAP after a release are the canonical form of those before
with the block marked.  So a release undoes the request that was granted the
block, and several releases have the same result in every order.
-/

namespace VgcMalloc

open Program Tiling Linked

variable {env : Env} {heap after : Heap} {held : List Mutex} {pages : MmapPages}
  {guarded : Bool} {abstract abstract' : AbstractHeap} {region : Region} {entry other : Entry}
  {state served last : State} {trace : List Finished} {size memory base : Nat}

/-! ## Heaps with the same lists -/

/-- Two heaps have the same blocks in an MMAP, with the same headers and as
many elements. -/
structure SameBlocks (heap after : Heap) (base : Nat) : Prop where
  blocks : after.blocks base = heap.blocks base
  headers : ∀ block ∈ heap.blocks base, after.mallocHeader block.addr = heap.mallocHeader block.addr
  elements : (after.mmapHeader base).elements = (heap.mmapHeader base).elements

theorem HeaderRep.header_eq (first : HeaderRep heap base entry)
    (second : HeaderRep after base entry)
    (links : after.nextBlock entry.addr = heap.nextBlock entry.addr ∧
      after.prevBlock entry.addr = heap.prevBlock entry.addr) :
    after.mallocHeader entry.addr = heap.mallocHeader entry.addr := by
  have start := second.checkStart.trans first.checkStart.symm
  have size := second.size.trans first.size.symm
  have status := second.status.trans first.status.symm
  have owner := second.mmapBlock.trans first.mmapBlock.symm
  have stop := second.checkEnd.trans first.checkEnd.symm
  unfold Heap.nextBlock Heap.prevBlock at links
  generalize after.mallocHeader entry.addr = new at start size status owner stop links ⊢
  generalize heap.mallocHeader entry.addr = old at start size status owner stop links ⊢
  cases new
  cases old
  simp only at start size status owner stop links
  subst start size status owner stop
  rw [links.1, links.2]

/-- The block list of an MMAP determines its headers and its counter. -/
theorem Stands.sameBlocks (first : Stands pages guarded heap abstract)
    (second : Stands pages guarded after abstract') (member : region ∈ abstract.regions)
    (stays : region ∈ abstract'.regions)
    (same : abstract'.entries region.base = abstract.entries region.base) :
    SameBlocks heap after region.base := by
  have old := first.regions region member
  have new := second.regions region stays
  rw [same] at new
  constructor
  · rw [first.blocks_eq member, second.blocks_eq stays, same]
  · intro block blockMem
    rw [first.blocks_eq member] at blockMem
    exact (old.blocks.headers block blockMem).header_eq (new.blocks.headers block blockMem)
      (old.blocks.links.agree new.blocks.links (List.mem_map_of_mem blockMem))
  · rw [old.mmap.elements, new.mmap.elements]

/-! ## A request and its release -/

theorem AbstractHeap.setEntries_setEntries (heap : AbstractHeap) (base : Nat)
    (first second : List Entry) :
    (heap.setEntries base first).setEntries base second = heap.setEntries base second := by
  unfold setEntries
  rw [Function.update_idem]

/-- The block that a request took from a listed MMAP. -/
theorem MallocOutcome.taken (rep : Represents pages guarded heap heap.abstraction)
    (outcome : MallocOutcome env pages guarded size heap.abstraction heap after memory)
    (nonnull : memory ≠ 0) (listed : base ∈ heap.mmaps) (entryMem : entry ∈ after.blocks base)
    (busy : entry.busy = true) (fresh : entry ∉ heap.blocks base) :
    memory < 2 ^ 64 ∧ ∃ front chosen back length, heap.blocks base = front ++ chosen :: back ∧
      chosen.busy = false ∧ entry = grantedEntry 8192 length chosen ∧
      Represents pages guarded after
        (heap.abstraction.setEntries base (front ++ grantEntry 8192 length chosen ++ back)) := by
  cases outcome with
  | poisoned empty refused null => exact absurd null nonnull
  | refused abstract' extended null => exact absurd null nonnull
  | served extendedHeap abstract' middle region chosen extended served positive small =>
      have afterRep := served.represents (extended.represents rep) (alignSize_pos rep.mode positive)
      obtain ⟨_, _, front, back, _, _, split, _, fits, rfl⟩ :=
        AbstractHeap.malloc_eq_some_iff.mp served.found
      obtain ⟨home, homeMem, rfl⟩ := rep.listed listed
      rw [← abstraction_listed] at listed
      obtain ⟨stays, same⟩ := extended.listed_kept rep listed
      obtain ⟨after', afterMem, baseEq⟩ := afterRep.listed stays
      rw [← baseEq, afterRep.blocks_eq afterMem, baseEq] at entryMem
      rw [← abstraction_entries] at fresh ⊢
      -- the other MMAPs keep their blocks
      have here : home.base = region.base := by
        by_contra elsewhere
        rw [AbstractHeap.setEntries_entries_of_ne _ _ elsewhere, same] at entryMem
        exact fresh entryMem
      rw [here] at fresh entryMem same listed ⊢
      rw [same] at split
      -- a block that fits is granted before an MMAP is created
      have served' : heap.abstraction.malloc (alignSize heap.shared size)
          (AbstractHeap.grantLength guarded (alignSize heap.shared size)) ≠ none := by
        intro unfit
        exact AbstractHeap.malloc_eq_none_iff.mp unfit region.base listed chosen (by simp [split])
          fits
      obtain ⟨rfl, rfl⟩ := extended.kept_of_fits served'
      rw [AbstractHeap.setEntries_entries] at entryMem
      have bound : memory < 2 ^ 64 := by
        have tiles := rep.wellFormed.tiles region served.member
        rw [split] at tiles
        have bounds := tiles.bounds (List.mem_append_right front List.mem_cons_self)
        have user := (rep.wellFormed.placed region served.member).user
        have pointer := served.pointer
        unfold AbstractHeap.pointerOf at pointer
        split at pointer
        · omega
        · omega
      refine ⟨bound, front, chosen, back, _, split, fits.1, ?_, afterRep⟩
      rcases (mem_grantEntry_busy fits.1 busy).mp entryMem with old | granted
      · exact absurd (split ▸ old) fresh
      · exact granted

/-- Freeing a block that a request has just taken from a listed MMAP brings
all lists back. -/
theorem free_undoes_malloc {trace : List Done} (mutexes : MutexCallsSucceed env)
    (run : DeedRun env pages guarded trace state)
    (granted : vgcMalloc size env state = .ok memory served) (nonnull : memory ≠ 0)
    (listed : base ∈ state.heap.mmaps) (entryMem : entry ∈ served.heap.blocks base)
    (busy : entry.busy = true) (fresh : entry ∉ state.heap.blocks base)
    (otherMem : other ∈ state.heap.blocks base) (otherBusy : other.busy = true)
    (resolved : headerOf served.heap.shared memory = entry.addr) :
    ∃ last, vgcFree memory env served = .ok () last ∧
      last.heap.mmaps = state.heap.mmaps ∧
      ∀ base ∈ state.heap.mmaps, SameBlocks state.heap last.heap base := by
  obtain ⟨unlocked, valid⟩ := deed_valid mutexes run
  obtain ⟨unlocked', effect⟩ := valid.malloc_effect mutexes unlocked granted
  obtain ⟨rep, outcome⟩ := effect.of_malloc nonnull
  obtain ⟨bound, front, chosen, back, length, split, free, rfl, grantedRep⟩ :=
    outcome.taken rep nonnull listed entryMem busy fresh
  obtain ⟨region, member, rfl⟩ := rep.listed listed
  have tiles := rep.wellFormed.tiles region member
  have coalesced := rep.wellFormed.coalesced region member
  rw [abstraction_entries, split] at tiles coalesced
  rw [grantedRep.blocks_eq member, AbstractHeap.setEntries_entries] at entryMem
  have several : busyCount (front ++ grantEntry 8192 length chosen ++ back) ≠ 1 := by
    have positive : 0 < busyCount (state.heap.blocks region.base) :=
      List.countP_pos_iff.mpr ⟨other, otherMem, otherBusy⟩
    rw [split] at positive
    rw [busyCount_grantEntry length front back free]
    omega
  have undone : release 8192 (grantedEntry 8192 length chosen).addr
      (front ++ grantEntry 8192 length chosen ++ back) = front ++ chosen :: back :=
    release_grantEntry (by decide) tiles coalesced free
  have viewEq : seen served = (served.heap, []) := by rw [seen, unlocked']
  obtain ⟨_, last, freed, _, outcome⟩ := yields_vgcFree mutexes grantedRep member listed
    (by rw [AbstractHeap.setEntries_entries]; exact entryMem) busy bound resolved served viewEq
  refine ⟨last, freed, ?_⟩
  cases outcome with
  | vanished only =>
      rw [AbstractHeap.setEntries_entries] at only
      exact absurd only several
  | released others step =>
      have freedRep := grantedRep.free member
        (by rw [AbstractHeap.setEntries_entries]; exact entryMem) step
      rw [AbstractHeap.free, AbstractHeap.setEntries_entries, mallocHeaderSize_eq, undone,
        AbstractHeap.setEntries_setEntries, ← split, ← abstraction_entries,
        AbstractHeap.setEntries_self] at freedRep
      have same : Represents pages guarded last.heap state.heap.abstraction := freedRep
      refine ⟨same.mmaps_eq, ?_⟩
      intro base listed
      obtain ⟨home, homeMem, rfl⟩ := rep.listed listed
      exact rep.toStands.sameBlocks same.toStands homeMem homeMem rfl

theorem free_undoes_malloc_sample :
    ∃ trace state served last, DeedRun generousEnv .default true trace state ∧
      vgcMalloc 20 generousEnv state = .ok 0x10006fec served ∧
      vgcFree 0x10006fec generousEnv served = .ok () last ∧
      last.heap.mmaps = state.heap.mmaps ∧
      ∀ base ∈ state.heap.mmaps, SameBlocks state.heap last.heap base := by
  have found : (replay Deed.program generousEnv TameDeed [] (start .default true)
    [.call (.malloc 10), .store 0x10003ff6 1]).map (fun final => (final.2.heap.mmaps, final.2.heap.blocks 0x10000000,
        (vgcMalloc 20 generousEnv final.2).normal.map fun served =>
          (served.1, served.2.heap.blocks 0x10000000,
            headerOf served.2.heap.shared served.1))) =
      some ([0x10000000], [⟨0x10001000, 4096, true⟩, ⟨0x10004000, 32743424, false⟩],
        some (0x10006fec, [⟨0x10001000, 4096, true⟩, ⟨0x10004000, 4096, true⟩,
          ⟨0x10007000, 32731136, false⟩], 0x10004000)) := by decide +kernel
  obtain ⟨⟨trace, state⟩, replayed, same⟩ := Option.map_eq_some_iff.mp found
  simp only [Prod.mk.injEq] at same
  obtain ⟨mmaps, blocks, called⟩ := same
  obtain ⟨⟨memory, served⟩, ended, same⟩ := Option.map_eq_some_iff.mp called
  simp only [Prod.mk.injEq] at same
  obtain ⟨rfl, after, resolved⟩ := same
  have run := Run.start.replay replayed
  have granted := Outcome.normal_eq_some_iff.mp ended
  have nonnull : 0x10006fec ≠ 0 := by decide
  obtain ⟨last, freed, undone⟩ := free_undoes_malloc generousEnv_mutexes run granted nonnull
    (by rw [mmaps]; exact List.mem_singleton_self _)
    (by rw [after]; exact List.mem_cons_of_mem _ List.mem_cons_self) rfl
    (by rw [blocks]; decide)
    (by rw [blocks]; exact List.mem_cons_self) rfl resolved
  exact ⟨trace, state, served, last, run, granted, freed, undone⟩

/-- A careful client can reach a state with two free blocks side by side, the
release of 4096 bytes having merged blocks of a list long gone: a release that
merges both of them does not undo the request. -/
theorem not_free_undoes_malloc :
    ¬∀ env pages trace state size memory served base entry other, MutexCallsSucceed env →
      CarefulRun env pages true trace state → vgcMalloc size env state = .ok memory served →
      memory ≠ 0 → base ∈ state.heap.mmaps → entry ∈ served.heap.blocks base →
      entry.busy = true → entry ∉ state.heap.blocks base → other ∈ state.heap.blocks base →
      other.busy = true → headerOf served.heap.shared memory = entry.addr →
        ∃ last, vgcFree memory env served = .ok () last ∧
          ∀ base ∈ state.heap.mmaps, SameBlocks state.heap last.heap base := by
  intro claim
  have found : (replay Deed.program generousEnv (fun _ _ => True) [] (start .default true)
      ([.malloc 5000, .malloc 10, .malloc 10, .malloc 10, .free 0x10003c78, .free 0x10007ff6,
        .free 0x1000aff6, .malloc 10, .malloc 4096, .free 0x1000dff6, .free 0x10003ff6,
        .free 0x10007000, .malloc 10].map Deed.call)).bind (fun final =>
          (vgcMalloc 20000 generousEnv final.2).normal.bind fun served =>
            (vgcFree 0x1000d1e0 generousEnv served.2).normal.map fun ended =>
              (decide (Careful final.1), final.2.heap.lists,
                decide (served.1 = 0x1000d1e0 ∧ headerOf served.2.heap.shared 0x1000d1e0 =
                  0x1000b000 ∧ ⟨0x1000b000, 20480, true⟩ ∈ served.2.heap.blocks 0x10000000),
                decide (ended.2.heap.blocks 0x10000000 = final.2.heap.blocks 0x10000000))) =
      some (true, [(0x10000000, [⟨0x10001000, 4096, true⟩, ⟨0x10004000, 16384, false⟩,
        ⟨0x1000b000, 32714752, false⟩])], true, false) := by decide +kernel
  obtain ⟨final, replayed, found⟩ := Option.bind_eq_some_iff.mp found
  obtain ⟨⟨memory, served⟩, called, found⟩ := Option.bind_eq_some_iff.mp found
  obtain ⟨⟨_, last⟩, freed, same⟩ := Option.map_eq_some_iff.mp found
  simp only [Prod.mk.injEq, decide_eq_true_eq, decide_eq_false_iff_not] at same
  obtain ⟨careful, shown, ⟨rfl, resolved, entryMem⟩, differs⟩ := same
  have run : CarefulRun generousEnv .default true final.1 final.2 :=
    ⟨Run.start.replay replayed, careful⟩
  obtain ⟨listed, blocks⟩ := Heap.lists_eq_singleton shown
  have member : 0x10000000 ∈ final.2.heap.mmaps := listed ▸ List.mem_singleton_self _
  have nonnull : 0x1000d1e0 ≠ 0 := by decide
  obtain ⟨other, ended, undone⟩ := claim _ _ _ _ _ _ _ _ _ ⟨0x10001000, 4096, true⟩
    generousEnv_mutexes run (Outcome.normal_eq_some_iff.mp called) nonnull member entryMem rfl
    (by rw [blocks]; decide) (by rw [blocks]; exact List.mem_cons_self) rfl resolved
  obtain ⟨_, rfl⟩ :=
    (Outcome.ok.injEq _ _ _ _).mp ((Outcome.normal_eq_some_iff.mp freed).symm.trans ended)
  exact differs (undone _ member).blocks

/-! ## Several releases -/

/-- Free several pointers, one after the other. -/
def vgcFreeAll : List Nat → Vgc Unit
  | [] => pure ()
  | ptr :: rest => do
      vgcFree ptr
      vgcFreeAll rest

/-- The blocks at some addresses of the MMAP at `base` are marked as free and
the list is brought into canonical form; an MMAP that is emptied vanishes. -/
def AbstractHeap.freeAll (abstract : AbstractHeap) (unmaps : Bool) (base : Nat)
    (addrs : List Nat) : AbstractHeap :=
  let freed := abstract.setEntries base (coalesce 8192 (markFree addrs (abstract.entries base)))
  if addrs ≠ [] ∧ busyCount (freed.entries base) = 0 then freed.vanish unmaps base else freed

/-- The call of `munmap` after several releases that empty an MMAP. -/
def Heap.unmapCall (heap : Heap) (base blocks releases calls : Nat) : Nat :=
  calls + 5 * releases + blocks + relinkCalls (heap.nextMmap base) +
    relinkCalls (heap.prevMmap base)

/-- A block in use whose pointer is the only one to be freed. -/
theorem eq_nil_of_busyCount_eq_one {front back : List Entry} {addrs : List Nat}
    (busy : entry.busy = true)
    (only : busyCount (front ++ entry :: back) = 1)
    (others : ∀ addr ∈ addrs, ∃ x ∈ front ++ back, x.busy = true ∧ x.addr = addr) : addrs = [] := by
  cases addrs with
  | nil => rfl
  | cons addr addrs =>
      obtain ⟨x, member, xBusy, _⟩ := others addr List.mem_cons_self
      have positive : 0 < busyCount (front ++ back) := List.countP_pos_iff.mpr ⟨x, member, xBusy⟩
      simp only [busyCount, List.countP_append, List.countP_cons, busy, if_true] at only positive
      omega

section FreeAll

variable {front back : List Entry} {addrs : List Nat} {unmaps : Bool} {start stop : Nat}

/-- The lists after several releases are those after the first one and then
the others. -/
theorem AbstractHeap.coalesce_free (split : abstract.entries base = front ++ entry :: back)
    (tiles : Contiguous 8192 start (front ++ entry :: back) stop)
    (coalesced : Coalesced (front ++ entry :: back)) :
    coalesce 8192 (markFree addrs ((abstract.free base entry.addr).entries base)) =
      coalesce 8192 (markFree (entry.addr :: addrs) (abstract.entries base)) := by
  rw [AbstractHeap.free, AbstractHeap.setEntries_entries, mallocHeaderSize_eq, split,
    release_eq_coalesce (by decide) tiles coalesced, coalesce_markFree_coalesce, markFree_markFree,
    List.singleton_append]

theorem AbstractHeap.freeAll_cons (split : abstract.entries base = front ++ entry :: back)
    (tiles : Contiguous 8192 start (front ++ entry :: back) stop)
    (coalesced : Coalesced (front ++ entry :: back))
    (more : busyCount (release 8192 entry.addr (front ++ entry :: back)) ≠ 0) :
    (abstract.free base entry.addr).freeAll unmaps base addrs =
      abstract.freeAll unmaps base (entry.addr :: addrs) := by
  have lists := @coalesce_free _ _ _ _ _ addrs _ _ split tiles coalesced
  unfold AbstractHeap.freeAll
  rw [lists]
  simp only [AbstractHeap.free, AbstractHeap.setEntries_setEntries,
    AbstractHeap.setEntries_entries]
  cases addrs with
  | nil =>
      rw [split, ← release_eq_coalesce (by decide) tiles coalesced]
      simp [more]
  | cons addr addrs => simp

theorem AbstractHeap.freeAll_singleton (split : abstract.entries base = front ++ entry :: back)
    (tiles : Contiguous 8192 start (front ++ entry :: back) stop)
    (coalesced : Coalesced (front ++ entry :: back))
    (empty : busyCount (release 8192 entry.addr (front ++ entry :: back)) = 0) :
    abstract.freeAll unmaps base [entry.addr] =
      (abstract.free base entry.addr).vanish unmaps base := by
  unfold AbstractHeap.freeAll AbstractHeap.free
  rw [mallocHeaderSize_eq, split, ← release_eq_coalesce (by decide) tiles coalesced]
  simp [empty]

end FreeAll

/-- Several releases of blocks in use of one MMAP. -/
theorem counted_vgcFreeAll {ptrs : List Nat} {calls : Nat} (mutexes : MutexCallsSucceed env)
    (rep : Represents pages guarded heap abstract) (member : region ∈ abstract.regions)
    (listed : region.base ∈ abstract.listed)
    (owned : ∀ ptr ∈ ptrs, ptr < 2 ^ 64 ∧ ∃ x ∈ abstract.entries region.base,
      x.busy = true ∧ x.addr = headerOf ⟨4096, 0, 0, 0, guarded⟩ ptr)
    (nodup : (ptrs.map (headerOf ⟨4096, 0, 0, 0, guarded⟩)).Nodup) :
    Yields counted (vgcFreeAll ptrs) env ((heap, []), calls) fun _ after =>
      Represents pages guarded after.1.1 (abstract.freeAll
        (env.munmap (heap.unmapCall region.base (abstract.entries region.base).length ptrs.length
          calls)) region.base (ptrs.map (headerOf ⟨4096, 0, 0, 0, guarded⟩))) := by
  induction ptrs generalizing heap abstract calls with
  | nil =>
      apply Yields.pure
      have kept : markFree [] (abstract.entries region.base) = abstract.entries region.base :=
        List.map_id _
      have canonical : coalesce 8192 (abstract.entries region.base) = _ :=
        (rep.wellFormed.coalesced region member).coalesce_eq
      unfold AbstractHeap.freeAll
      rw [List.map_nil, kept, canonical, AbstractHeap.setEntries_self]
      simpa using rep
  | cons ptr ptrs ih =>
      obtain ⟨bound, entry, entryMem, busy, addrEq⟩ := owned ptr List.mem_cons_self
      have entriesMem := entryMem
      obtain ⟨front, back, split⟩ := List.append_of_mem entryMem
      have tiles := rep.wellFormed.tiles region member
      have coalesced := rep.wellFormed.coalesced region member
      rw [split] at tiles coalesced
      have count := busyCount_release (by decide) tiles busy
      have locks : ∀ {call mutex}, env.Locks [] call mutex := ⟨mutexes.lock _, List.not_mem_nil⟩
      have others : ∀ other ∈ ptrs, ∃ x ∈ front ++ back,
          x.busy = true ∧ x.addr = headerOf ⟨4096, 0, 0, 0, guarded⟩ other := by
        intro other otherMem
        obtain ⟨_, x, xMem, xBusy, same⟩ := owned other (List.mem_cons_of_mem _ otherMem)
        refine ⟨x, ?_, xBusy, same⟩
        have ne : x ≠ entry := by
          rintro rfl
          rw [List.map_cons, ← addrEq, same] at nodup
          exact (List.nodup_cons.mp nodup).1 (List.mem_map_of_mem otherMem)
        rw [split] at xMem
        simpa [ne] using xMem
      rw [List.map_cons, ← addrEq, List.length_cons]
      apply Yields.seq (counted_vgcFree rep member listed entriesMem busy bound
        (rep.headerOf_eq.trans addrEq.symm))
      rintro _ ⟨⟨middle, held⟩, later⟩ ⟨ends, unlocked⟩
      simp only at ends unlocked
      obtain rfl := unlocked mutexes.unlock
      cases ends with
      | unlocked _ refused => exact absurd locks refused
      | uncounted _ shared refused => exact absurd locks refused
      | released _ _ shared own several step counts =>
          have freed := rep.free member entriesMem step
          have more : busyCount (release 8192 entry.addr (front ++ entry :: back)) ≠ 0 := by
            rw [split] at several
            omega
          have freedEntries : (abstract.free region.base entry.addr).entries region.base =
              release 8192 entry.addr (front ++ entry :: back) := by
            rw [AbstractHeap.free, AbstractHeap.setEntries_entries, mallocHeaderSize_eq, split]
          rw [← AbstractHeap.freeAll_cons split tiles coalesced more]
          have call : heap.unmapCall region.base (abstract.entries region.base).length
              (ptrs.length + 1) calls = middle.unmapCall region.base
                ((abstract.free region.base entry.addr).entries region.base).length
                ptrs.length later := by
            unfold Heap.unmapCall
            rw [step.links.1, step.links.2, freedEntries]
            rw [split] at counts ⊢
            omega
          rw [call]
          apply ih freed member listed
          · intro other otherMem
            refine ⟨(owned other (List.mem_cons_of_mem _ otherMem)).1, ?_⟩
            obtain ⟨x, xMem, xBusy, same⟩ := others other otherMem
            rw [freedEntries]
            exact ⟨x, (mem_release_busy (by decide) tiles xBusy).mpr xMem, xBusy, same⟩
          · exact (List.nodup_cons.mp nodup).2
      | emptied middle _ _ shared own only step ends =>
          have freed := rep.free member entriesMem step
          rw [split] at only
          have none : ptrs = [] := by
            apply List.map_eq_nil_iff.mp
            apply eq_nil_of_busyCount_eq_one busy only
            intro addr addrMem
            obtain ⟨other, otherMem, rfl⟩ := List.mem_map.mp addrMem
            exact others other otherMem
          subst none
          have empty : busyCount (release 8192 entry.addr (front ++ entry :: back)) = 0 := by
            omega
          apply Yields.pure
          rw [List.map_nil, AbstractHeap.freeAll_singleton split tiles coalesced empty]
          cases ends with
          | stuckNext present refused => exact absurd locks refused
          | stuckPrev next present refused => exact absurd locks refused
          | unlinked next prev =>
              have call : heap.unmapCall region.base (abstract.entries region.base).length
                  (([] : List Nat).length + 1) calls =
                    calls + 2 + (abstract.entries region.base).length +
                    relinkCalls (middle.nextMmap region.base) +
                      relinkCalls (middle.prevMmap region.base) + 3 := by
                unfold Heap.unmapCall
                rw [step.links.1, step.links.2, List.length_nil]
                omega
              rw [call]
              exact (freed.vanished member listed _).represents

/-! ## Their order -/

/-- Only the set of addresses matters. -/
theorem AbstractHeap.freeAll_perm {unmaps : Bool} {first second : List Nat}
    (perm : first.Perm second) :
    abstract.freeAll unmaps base first = abstract.freeAll unmaps base second := by
  have empty : first = [] ↔ second = [] := by
    constructor
    · rintro rfl
      exact List.nil_perm.mp perm
    · rintro rfl
      exact List.perm_nil.mp perm
  unfold freeAll
  rw [markFree_congr (fun _ => perm.mem_iff)]
  simp only [ne_eq, empty]

/-- Releases unmap at most the MMAP of their blocks. -/
theorem AbstractHeap.freeAll_regions {unmaps : Bool} {addrs : List Nat} :
    (abstract.freeAll unmaps base addrs).regions = abstract.regions ∨
      (abstract.freeAll unmaps base addrs).regions = (abstract.unmap base).regions := by
  unfold freeAll
  dsimp only
  split
  · cases unmaps with
    | true => exact Or.inr rfl
    | false => exact Or.inl rfl
  · exact Or.inl rfl

/-- Two heaps list the same MMAPs, and one MMAP has the same lists in both
unless it is unmapped in both. -/
structure SameEnds (first second : Heap) (base : Nat) : Prop where
  mmaps : second.mmaps = first.mmaps
  lists : SameBlocks first second base ∨
    (first.isMapped base = false ∧ second.isMapped base = false)

/-- An MMAP that is not among the regions of a heap is unmapped. -/
theorem Stands.isMapped_unmapped (stands : Stands pages guarded heap abstract)
    (member : region ∈ abstract.regions)
    (mapped : after.mapped = (abstract.unmap region.base).regions) :
    after.isMapped region.base = false := by
  apply List.any_eq_false.mpr
  intro other otherMem
  rw [mapped] at otherMem
  obtain ⟨old, ne⟩ := List.mem_filter.mp otherMem
  have apart := stands.wellFormed.disjoint_of_ne old member (by rintro rfl; simp at ne)
  have room := (stands.wellFormed.placed region member).room
  unfold Region.Disjoint at apart
  simp only [decide_eq_true_eq, not_and, not_lt]
  omega

/-- Releases in two orders that leave the same abstract heap. -/
theorem Represents.sameEnds {first second : Heap} {unmaps : Bool} {addrs : List Nat}
    (rep : Represents pages guarded heap abstract) (member : region ∈ abstract.regions)
    (one : Represents pages guarded first (abstract.freeAll unmaps region.base addrs))
    (two : Represents pages guarded second (abstract.freeAll unmaps region.base addrs)) :
    SameEnds first second region.base := by
  constructor
  · rw [one.mmaps_eq, two.mmaps_eq]
  · rcases AbstractHeap.freeAll_regions with same | unmapped
    · have stays : region ∈ (abstract.freeAll unmaps region.base addrs).regions := by
        rw [same]
        exact member
      exact Or.inl (one.toStands.sameBlocks two.toStands stays stays rfl)
    · apply Or.inr
      constructor
      · exact rep.toStands.isMapped_unmapped member (one.mapped.trans unmapped)
      · exact rep.toStands.isMapped_unmapped member (two.mapped.trans unmapped)

/-- Blocks of one MMAP can be freed in any order. -/
theorem vgcFreeAll_perm {trace : List Done} {ptrs ptrs' : List Nat} (mutexes : MutexCallsSucceed env)
    (run : DeedRun env pages guarded trace state) (listed : base ∈ state.heap.mmaps)
    (owned : ∀ ptr ∈ ptrs, ptr < 2 ^ 64 ∧ ∃ block ∈ state.heap.blocks base,
      block.busy = true ∧ headerOf state.heap.shared ptr = block.addr)
    (nodup : (ptrs.map (headerOf state.heap.shared)).Nodup) (perm : ptrs.Perm ptrs') :
    ∃ first second, vgcFreeAll ptrs env state = .ok () first ∧
      vgcFreeAll ptrs' env state = .ok () second ∧ SameEnds first.heap second.heap base := by
  obtain ⟨unlocked, valid⟩ := deed_valid mutexes run
  have rep := valid.represents listed
  obtain ⟨region, member, rfl⟩ := rep.listed listed
  have viewEq : counted state = ((state.heap, []), state.calls) := by
    rw [counted, seen, unlocked]
  have header : headerOf state.heap.shared = headerOf ⟨4096, 0, 0, 0, guarded⟩ :=
    funext fun _ => rep.headerOf_eq
  rw [header] at owned nodup
  rw [← abstraction_listed] at listed
  rw [← abstraction_entries] at owned
  have pointers : ∀ ptr ∈ ptrs, ptr < 2 ^ 64 ∧ ∃ x ∈ state.heap.abstraction.entries region.base,
      x.busy = true ∧ x.addr = headerOf ⟨4096, 0, 0, 0, guarded⟩ ptr := by
    intro ptr ptrMem
    obtain ⟨bound, block, blockMem, busy, resolved⟩ := owned ptr ptrMem
    exact ⟨bound, block, blockMem, busy, resolved.symm⟩
  obtain ⟨_, first, freed, one⟩ :=
    counted_vgcFreeAll mutexes rep member listed pointers nodup state viewEq
  obtain ⟨_, second, freed', two⟩ :=
    counted_vgcFreeAll mutexes rep member listed
      (fun ptr ptrMem => pointers ptr (perm.mem_iff.mpr ptrMem))
      ((perm.map _).nodup_iff.mp nodup) state viewEq
  refine ⟨first, second, freed, freed', ?_⟩
  rw [← perm.length_eq, ← AbstractHeap.freeAll_perm (perm.map _)] at two
  exact rep.sameEnds member one two

theorem vgcFreeAll_perm_sample :
    ∃ trace state first second, DeedRun generousEnv .default true trace state ∧
      vgcFreeAll [0x10003ff6, 0x10006fec] generousEnv state = .ok () first ∧
      vgcFreeAll [0x10006fec, 0x10003ff6] generousEnv state = .ok () second ∧
      SameEnds first.heap second.heap 0x10000000 := by
  have found : (replay Deed.program generousEnv TameDeed [] (start .default true)
      ([.malloc 10, .malloc 20, .malloc 30].map Deed.call)).map (fun final => (final.2.heap.mmaps,
        final.2.heap.blocks 0x10000000,
        [0x10003ff6, 0x10006fec].map (headerOf final.2.heap.shared))) =
      some ([0x10000000], [⟨0x10001000, 4096, true⟩, ⟨0x10004000, 4096, true⟩,
        ⟨0x10007000, 4096, true⟩, ⟨0x1000a000, 32718848, false⟩],
          [0x10001000, 0x10004000]) := by decide +kernel
  obtain ⟨⟨trace, state⟩, replayed, same⟩ := Option.map_eq_some_iff.mp found
  simp only [Prod.mk.injEq] at same
  obtain ⟨mmaps, blocks, headers⟩ := same
  have run := Run.start.replay replayed
  simp only [List.map_cons, List.map_nil, List.cons.injEq, and_true] at headers
  have listed : 0x10000000 ∈ state.heap.mmaps := by
    rw [mmaps]
    exact List.mem_singleton_self _
  have swapped : [0x10003ff6, 0x10006fec].Perm [0x10006fec, 0x10003ff6] := List.Perm.swap _ _ _
  obtain ⟨first, second, freed, freed', ends⟩ := vgcFreeAll_perm generousEnv_mutexes run listed
    (by
      rw [blocks]
      intro ptr member
      simp only [List.mem_cons, List.not_mem_nil, or_false] at member
      rcases member with rfl | rfl
      · exact ⟨by decide, _, List.mem_cons_self, rfl, headers.1⟩
      · exact ⟨by decide, _, List.mem_cons_of_mem _ List.mem_cons_self, rfl, headers.2⟩)
    (by simp [headers.1, headers.2]) swapped
  exact ⟨trace, state, first, second, run, freed, freed', ends⟩

/-- A careful client can reach a state in which the size of a free block is one
of its own bytes, where the release of 4096 bytes found an old header: two
releases then unmap the MMAP in one order only. -/
theorem not_vgcFreeAll_perm :
    ¬∀ env pages trace state base ptrs ptrs', MutexCallsSucceed env →
      CarefulRun env pages true trace state → base ∈ state.heap.mmaps →
      (∀ ptr ∈ ptrs, ptr < 2 ^ 64 ∧ ∃ block ∈ state.heap.blocks base,
        block.busy = true ∧ headerOf state.heap.shared ptr = block.addr) →
      (ptrs.map (headerOf state.heap.shared)).Nodup → ptrs.Perm ptrs' →
        ∃ first second, vgcFreeAll ptrs env state = .ok () first ∧
          vgcFreeAll ptrs' env state = .ok () second ∧ SameEnds first.heap second.heap base := by
  intro claim
  have found : (replay Deed.program generousEnv (fun _ _ => True) [] (start .default true)
      [.call (.malloc 10), .call (.malloc 5000), .call (.malloc 10), .call (.malloc 10),
        .call (.free 0x10006c78), .call (.free 0x1000aff6), .call (.malloc 20479),
        .store 0x1000900b 1, .call (.free 0x10006001), .call (.malloc 10), .call (.malloc 4096),
        .call (.free 0x10006ff6), .call (.free 0x1000a000)]).bind (fun final =>
          (vgcFreeAll [0x1000dff6, 0x10003ff6] generousEnv final.2).normal.bind fun first =>
            (vgcFreeAll [0x10003ff6, 0x1000dff6] generousEnv final.2).normal.map fun second =>
              (decide (Careful final.1), final.2.heap.lists,
                [0x1000dff6, 0x10003ff6].map (headerOf final.2.heap.shared),
                decide (second.2.heap.mmaps = first.2.heap.mmaps))) =
      some (true, [(0x10000000, [⟨0x10001000, 4096, true⟩, ⟨0x10004000, 16793600, false⟩,
        ⟨0x1000b000, 4096, true⟩, ⟨0x1000e000, 32702464, false⟩])],
        [0x1000b000, 0x10001000], false) := by decide +kernel
  obtain ⟨final, replayed, found⟩ := Option.bind_eq_some_iff.mp found
  obtain ⟨⟨_, first⟩, freed, found⟩ := Option.bind_eq_some_iff.mp found
  obtain ⟨⟨_, second⟩, freed', same⟩ := Option.map_eq_some_iff.mp found
  simp only [Prod.mk.injEq, decide_eq_true_eq, decide_eq_false_iff_not] at same
  obtain ⟨careful, shown, headers, differs⟩ := same
  have run : CarefulRun generousEnv .default true final.1 final.2 :=
    ⟨Run.start.replay replayed, careful⟩
  obtain ⟨listed, blocks⟩ := Heap.lists_eq_singleton shown
  have nodup : ([0x1000dff6, 0x10003ff6].map (headerOf final.2.heap.shared)).Nodup := by
    rw [headers]
    decide
  simp only [List.map_cons, List.map_nil, List.cons.injEq, and_true] at headers
  have owned : ∀ ptr ∈ [0x1000dff6, 0x10003ff6], ptr < 2 ^ 64 ∧
      ∃ block ∈ final.2.heap.blocks 0x10000000, block.busy = true ∧
        headerOf final.2.heap.shared ptr = block.addr := by
    rw [blocks]
    intro ptr member
    simp only [List.mem_cons, List.not_mem_nil, or_false] at member
    rcases member with rfl | rfl
    · exact ⟨by decide, ⟨0x1000b000, 4096, true⟩, by simp, rfl, headers.1⟩
    · exact ⟨by decide, ⟨0x10001000, 4096, true⟩, by simp, rfl, headers.2⟩
  obtain ⟨one, two, ended, ended', ends⟩ := claim _ _ _ _ _ _ [0x10003ff6, 0x1000dff6]
    generousEnv_mutexes run (listed ▸ List.mem_singleton_self _) owned nodup
    (List.Perm.swap _ _ _)
  obtain ⟨_, rfl⟩ :=
    (Outcome.ok.injEq _ _ _ _).mp ((Outcome.normal_eq_some_iff.mp freed).symm.trans ended)
  obtain ⟨_, rfl⟩ :=
    (Outcome.ok.injEq _ _ _ _).mp ((Outcome.normal_eq_some_iff.mp freed').symm.trans ended')
  exact differs ends.mmaps

end VgcMalloc
