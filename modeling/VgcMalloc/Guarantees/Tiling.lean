import VgcMalloc.Abstract.Lists
import VgcMalloc.Refine.Requests

/-!
# Block lists in every run

In every state of a run of `vgc_malloc` and `vgc_free` the listed MMAPs are
tiled by their blocks, free blocks are coalesced, and the counts are right.
The calls act on the block lists as the list allocator does, also between
stores of the client.
-/

namespace VgcMalloc

open Program Tiling Linked

variable {env : Env} {pages : MmapPages} {guarded : Bool} {trace : List Finished} {state : State}
  {heap after : Heap}

theorem generousEnv_mutexes : MutexCallsSucceed generousEnv :=
  ⟨fun _ => rfl, fun _ => rfl, fun _ => rfl, fun _ => rfl, fun _ => rfl, fun _ => rfl⟩

/-- The blocks of an MMAP, followed along `next` from its first header, fill it
exactly: `prev` mirrors `next`, the list ends with null, and every header names
the MMAP. -/
structure ExactlyTiled (heap : Heap) (mmapBlock : Nat) : Prop where
  first : (heap.blocks mmapBlock).head?.map Entry.addr = some (mmapBlock + mmapHeaderSize)
  tiles : Contiguous mallocHeaderSize (mmapBlock + mmapHeaderSize) (heap.blocks mmapBlock)
    (mmapBlock + (heap.mmapHeader mmapBlock).size)
  links : Segment heap.nextBlock heap.prevBlock 0 ((heap.blocks mmapBlock).map Entry.addr) 0
  named : ∀ entry ∈ heap.blocks mmapBlock, (heap.mallocHeader entry.addr).mmapBlock = mmapBlock

/-- Every mapped region of a valid heap is exactly tiled. -/
theorem Valid.exactlyTiled {region : Region} (valid : Valid pages guarded heap)
    (member : region ∈ heap.mapped) : ExactlyTiled heap region.base := by
  have stands := valid.stands
  have tiles := stands.wellFormed.tiles region member
  have rep := stands.regions region member
  have room := (stands.wellFormed.placed region member).room
  rw [abstraction_entries] at tiles rep
  refine ⟨?_, ?_, rep.blocks.links, fun entry entryMem =>
    (rep.blocks.headers entry entryMem).mmapBlock⟩
  · cases shape : heap.blocks region.base with
    | nil =>
        rw [shape] at tiles
        have ends : region.base + 4096 = region.base + region.length := tiles
        omega
    | cons entry rest =>
        rw [shape] at tiles
        exact congrArg some tiles.1
  · rw [rep.mmap.size]
    exact tiles

/-- In every state of a run every MMAP reached from `mmapBlockFirst` is exactly
tiled. -/
theorem exactlyTiled_of_run (mutexes : MutexCallsSucceed env)
    (run : ClientRun env pages true MallocAndFree trace state) :
    ∀ base ∈ state.heap.mmaps, ExactlyTiled state.heap base := by
  intro base listed
  have valid := (run_valid mutexes (fun _ _ allowed => allowed) run).2
  obtain ⟨region, member, rfl⟩ := valid.listed listed
  exact valid.exactlyTiled member

theorem exactlyTiled_of_run_sample :
    ∃ trace state, ClientRun generousEnv .default true MallocAndFree trace state ∧
      state.heap.mmaps = [0x10000000] ∧
      ∀ base ∈ state.heap.mmaps, ExactlyTiled state.heap base := by
  have found : (replay Call.program generousEnv MallocAndFree [] (start .default true)
      [.malloc 10, .malloc 5000, .free 268451830]).map (fun final => final.2.heap.mmaps) =
        some [0x10000000] := by decide +kernel
  obtain ⟨final, replayed, listed⟩ := Option.map_eq_some_iff.mp found
  have run := Run.start.replay replayed
  exact ⟨_, _, run, listed, exactlyTiled_of_run generousEnv_mutexes run⟩

/-! ## Coalescing and unmapping -/

/-- A release keeps its MMAP listed and mapped unless it releases the only
block in use; then the MMAP is taken off the list, and it is unmapped when
`munmap` succeeds. -/
structure UnmapsWhenEmpty (env : Env) (heap after : Heap) (mmapBlock : Nat) : Prop where
  unlisted_iff : mmapBlock ∉ after.mmaps ↔ busyCount (heap.blocks mmapBlock) = 1
  empty_of_unmapped : (∀ region ∈ after.mapped, region.base ≠ mmapBlock) →
    busyCount (heap.blocks mmapBlock) = 1
  unmapped_of_empty : (∀ call, env.munmap call = true) →
    busyCount (heap.blocks mmapBlock) = 1 → ∀ region ∈ after.mapped, region.base ≠ mmapBlock

theorem FreeOutcome.unmapsWhenEmpty {region : Region} {entry : Entry}
    (rep : Represents pages guarded heap heap.abstraction) (member : region ∈ heap.mapped)
    (listed : region.base ∈ heap.mmaps) (entryMem : entry ∈ heap.blocks region.base)
    (outcome : FreeOutcome env pages guarded heap.abstraction region entry heap after) :
    UnmapsWhenEmpty env heap after region.base := by
  rw [← abstraction_entries] at entryMem
  cases outcome with
  | released others step =>
      have freed := rep.free member entryMem step
      have kept : region.base ∈ after.mmaps := by
        rw [freed.mmaps_eq]
        exact listed
      have stays : region ∈ after.mapped := by
        rw [freed.mapped]
        exact member
      exact ⟨⟨fun gone => absurd kept gone, fun only => absurd only others⟩,
        fun gone => absurd rfl (gone region stays), fun _ only => absurd only others⟩
  | vanished only middle abstract' step vanished =>
      have freed := rep.free member entryMem step
      refine ⟨⟨fun _ => only, fun _ => ?_⟩, fun _ => only, fun works _ => ?_⟩
      · rw [vanished.represents.mmaps_eq]
        intro again
        have inUnlink : region.base ∈
            ((heap.abstraction.free region.base entry.addr).unlink region.base).listed := by
          rcases vanished.either with same | same
          · rw [same] at again
            exact again
          · rw [same] at again
            exact again
        exact (AbstractHeap.mem_listed_unlink freed.wellFormed.nodup inUnlink).2 rfl
      · intro other otherMem
        rw [vanished.represents.mapped, vanished.unmapped works] at otherMem
        simpa [AbstractHeap.unmap] using (List.mem_filter.mp otherMem).2

/-- The blocks of an MMAP are coalesced, its `elements` field counts its blocks
in use, and `vgc_free` of a block in use unmaps it exactly when no other block
of it is in use. -/
structure WellKept (env : Env) (state : State) (mmapBlock : Nat) : Prop where
  coalesced : Coalesced (state.heap.blocks mmapBlock)
  elements : (state.heap.mmapHeader mmapBlock).elements =
    busyCount (state.heap.blocks mmapBlock)
  unmaps : ∀ entry ∈ state.heap.blocks mmapBlock, entry.busy = true → ∀ ptr < 2 ^ 64,
    headerOf state.heap.shared ptr = entry.addr →
      ∃ last, vgcFree ptr env state = .ok () last ∧
        UnmapsWhenEmpty env state.heap last.heap mmapBlock

theorem wellKept_of_run (mutexes : MutexCallsSucceed env)
    (run : ClientRun env pages guarded MallocAndFree trace state) :
    ∀ base ∈ state.heap.mmaps, WellKept env state base := by
  intro base listed
  obtain ⟨unlocked, valid⟩ := run_valid mutexes (fun _ _ allowed => allowed) run
  obtain ⟨region, member, rfl⟩ := valid.listed listed
  have stands := valid.stands
  have coalesced := stands.wellFormed.coalesced region member
  have elements := (stands.regions region member).mmap.elements
  rw [abstraction_entries] at coalesced elements
  refine ⟨coalesced, elements, ?_⟩
  intro entry entryMem busy ptr bound resolved
  obtain ⟨last, ended, outcome⟩ :=
    valid.free_returns mutexes unlocked listed member entryMem busy bound resolved
  exact ⟨last, ended,
    outcome.unmapsWhenEmpty (valid.represents listed) member listed entryMem⟩

theorem wellKept_of_run_sample :
    ∃ trace state, ClientRun generousEnv .default true MallocAndFree trace state ∧
      state.heap.blocks 0x10000000 =
        [⟨0x10001000, 4096, true⟩, ⟨0x10004000, 8192, true⟩, ⟨0x10008000, 32727040, false⟩] ∧
      ∀ base ∈ state.heap.mmaps, WellKept generousEnv state base := by
  have found : (replay Call.program generousEnv MallocAndFree [] (start .default true)
      [.malloc 10, .malloc 5000]).map (fun final => final.2.heap.blocks 0x10000000) = some
        [⟨0x10001000, 4096, true⟩, ⟨0x10004000, 8192, true⟩, ⟨0x10008000, 32727040, false⟩] := by
    decide +kernel
  obtain ⟨final, replayed, blocks⟩ := Option.map_eq_some_iff.mp found
  have run := Run.start.replay replayed
  exact ⟨_, _, run, blocks, wellKept_of_run generousEnv_mutexes run⟩

/-! ## The list allocator -/

/-- The lists of the listed MMAPs. -/
def Heap.lists (heap : Heap) : MmapLists :=
  heap.mmaps.map fun base => (base, heap.blocks base)

/-- The lists of a single MMAP. -/
theorem Heap.lists_eq_singleton {base : Nat} {entries : List Entry}
    (shown : heap.lists = [(base, entries)]) : heap.mmaps = [base] ∧ heap.blocks base = entries := by
  obtain ⟨other, listed, same⟩ := List.map_eq_singleton_iff.mp shown
  obtain ⟨rfl, blocks⟩ := Prod.mk.inj same
  exact ⟨listed, blocks⟩

theorem Represents.lists_eq {abstract : AbstractHeap}
    (rep : Represents pages guarded heap abstract) : heap.lists = abstract.lists := by
  unfold Heap.lists AbstractHeap.lists
  rw [rep.mmaps_eq]
  refine List.map_congr_left fun base listed => ?_
  obtain ⟨region, member, rfl⟩ := rep.listed listed
  rw [rep.blocks_eq member]

/-- A request served without a new MMAP is granted by the list allocator. -/
theorem MallocOutcome.lists {size memory : Nat}
    (rep : Represents pages guarded heap heap.abstraction) (served : memory ≠ 0)
    (same : after.mmaps = heap.mmaps)
    (outcome : MallocOutcome env pages guarded size heap.abstraction heap after memory) :
    heap.lists.malloc (alignSize heap.shared size)
      (AbstractHeap.grantLength guarded (alignSize heap.shared size)) = some after.lists := by
  cases outcome with
  | poisoned empty refused null => exact absurd null served
  | refused abstract' extended null => exact absurd null served
  | served extendedHeap abstract' middle region entry extended granted positive small =>
      have afterRep := granted.represents (extended.represents rep)
        (alignSize_pos rep.mode positive)
      rw [afterRep.lists_eq, rep.lists_eq]
      cases extended with
      | kept sameHeap =>
          subst sameHeap
          exact AbstractHeap.lists_malloc rep.wellFormed.nodup granted.found
      | refused unfit refused sameHeap =>
          subst sameHeap
          rw [granted.found] at unfit
          cases unfit
      | created unfit fresh grown chosen sameHeap =>
          subst sameHeap
          have listed : abstract'.listed = heap.mmaps ++ [fresh.base] := by
            obtain ⟨_, _, _, _, _, _, _, _, _, shape⟩ :=
              AbstractHeap.malloc_eq_some_iff.mp granted.found
            rw [shape]
            rfl
          rw [afterRep.mmaps_eq, listed] at same
          simp at same

theorem FreeOutcome.lists {region : Region} {entry : Entry}
    (rep : Represents pages guarded heap heap.abstraction) (member : region ∈ heap.mapped)
    (entryMem : entry ∈ heap.blocks region.base) (others : busyCount (heap.blocks region.base) ≠ 1)
    (outcome : FreeOutcome env pages guarded heap.abstraction region entry heap after) :
    after.lists = heap.lists.free region.base entry.addr := by
  rw [← abstraction_entries] at entryMem
  cases outcome with
  | released _ step =>
      rw [(rep.free member entryMem step).lists_eq, AbstractHeap.lists_free, rep.lists_eq]
  | vanished only => exact absurd only others

/-- The calls act on the block lists as the list allocator does: `vgc_malloc`
when it needs no new MMAP, and `vgc_free` when the MMAP keeps a block in
use. -/
structure RefinesLists (env : Env) (state : State) : Prop where
  malloc : ∀ size memory last, vgcMalloc size env state = .ok memory last → memory ≠ 0 →
    last.heap.mmaps = state.heap.mmaps →
      state.heap.lists.malloc size (AbstractHeap.grantLength true size) = some last.heap.lists
  free : ∀ base ∈ state.heap.mmaps, ∀ entry ∈ state.heap.blocks base, entry.busy = true →
    busyCount (state.heap.blocks base) ≠ 1 → ∀ ptr < 2 ^ 64,
      headerOf state.heap.shared ptr = entry.addr →
        ∃ last, vgcFree ptr env state = .ok () last ∧
          last.heap.lists = state.heap.lists.free base entry.addr

/-- In every state of a run of tame calls and stores, the pointer-level calls act
as those on lists. -/
theorem refinesLists_of_run {trace : List Done} (mutexes : MutexCallsSucceed env)
    (run : DeedRun env pages true trace state) : RefinesLists env state := by
  obtain ⟨unlocked, valid⟩ := deed_valid mutexes run
  refine ⟨?_, ?_⟩
  · intro size memory last ended served same
    have lawful : MallocAndFree state (.malloc size) := trivial
    obtain ⟨_, effect⟩ := valid.effect mutexes unlocked lawful ended
    obtain ⟨rep, outcome⟩ := effect.of_malloc served
    have granted := outcome.lists rep served same
    rwa [alignSize_of_guarded rep.mode] at granted
  · intro base listed entry entryMem busy others ptr bound resolved
    obtain ⟨region, member, rfl⟩ := valid.listed listed
    obtain ⟨last, ended, outcome⟩ :=
      valid.free_returns mutexes unlocked listed member entryMem busy bound resolved
    exact ⟨last, ended, outcome.lists (valid.represents listed) member entryMem others⟩

theorem refinesLists_of_run_sample :
    ∃ trace state, DeedRun generousEnv .default true trace state ∧
      state.heap.lists = [(0x10000000,
        [⟨0x10001000, 4096, true⟩, ⟨0x10004000, 8192, true⟩, ⟨0x10008000, 32727040, false⟩])] ∧
      RefinesLists generousEnv state := by
  have found : (replay Deed.program generousEnv TameDeed [] (start .default true)
      [.call (.malloc 10), .store 0x10003ff6 1, .call (.malloc 5000)]).map
        (fun final => final.2.heap.lists) = some [(0x10000000,
          [⟨0x10001000, 4096, true⟩, ⟨0x10004000, 8192, true⟩, ⟨0x10008000, 32727040, false⟩])] := by
    decide +kernel
  obtain ⟨final, replayed, lists⟩ := Option.map_eq_some_iff.mp found
  have run := Run.start.replay replayed
  exact ⟨_, _, run, lists, refinesLists_of_run generousEnv_mutexes run⟩

/-- A careful client can reach a state in which `vgc_free` of a block in use
leaves the lists as they are: the release of 4096 bytes has cut a link back. -/
theorem not_refinesLists_of_run :
    ¬∀ env pages trace state, MutexCallsSucceed env → CarefulRun env pages true trace state →
      RefinesLists env state := by
  intro claim
  have found : (replay Deed.program generousEnv (fun _ _ => True) [] (start .default true)
      ([.malloc 5000, .malloc 10, .malloc 10, .malloc 10, .free 0x10003c78, .free 0x10007ff6,
        .malloc 10, .malloc 4096, .free 0x1000aff6, .free 0x10007000].map Deed.call)).bind
        (fun final => (vgcFree 0x1000dff6 generousEnv final.2).normal.map fun ended =>
          (decide (Careful final.1), final.2.heap.lists,
            decide (ended.2.heap.lists = final.2.heap.lists),
            headerOf final.2.heap.shared 0x1000dff6)) =
      some (true, [(0x10000000, [⟨0x10001000, 4096, true⟩, ⟨0x10004000, 8192, true⟩,
          ⟨0x10008000, 4096, false⟩, ⟨0x1000b000, 4096, true⟩, ⟨0x1000e000, 32702464, false⟩])],
        true, 0x1000b000) := by decide +kernel
  obtain ⟨final, replayed, freed⟩ := Option.bind_eq_some_iff.mp found
  obtain ⟨⟨_, last⟩, normal, same⟩ := Option.map_eq_some_iff.mp freed
  simp only [Prod.mk.injEq, decide_eq_true_eq] at same
  obtain ⟨careful, shown, kept, resolved⟩ := same
  have run : CarefulRun generousEnv .default true final.1 final.2 :=
    ⟨Run.start.replay replayed, careful⟩
  obtain ⟨listed, blocks⟩ := Heap.lists_eq_singleton shown
  obtain ⟨other, ended, lists⟩ := (claim _ _ _ _ generousEnv_mutexes run).free 0x10000000
    (by rw [listed]; exact List.mem_singleton_self _) ⟨0x1000b000, 4096, true⟩
    (by rw [blocks]; decide) rfl (by rw [blocks]; decide) 0x1000dff6 (by decide) resolved
  obtain ⟨_, rfl⟩ :=
    (Outcome.ok.injEq _ _ _ _).mp ((Outcome.normal_eq_some_iff.mp normal).symm.trans ended)
  rw [kept, shown] at lists
  revert lists
  decide

end VgcMalloc
