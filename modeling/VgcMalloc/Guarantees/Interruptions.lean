import VgcMalloc.Guarantees.Tiling
import VgcMalloc.Refine.Requests

/-!
# Releases that are interrupted

`vgc_free` returns early when it cannot lock a mutex or when the check of the
block list fails.  Most of these returns leave consistent lists.  Two do not:
the count is already lowered when the MMAP cannot be locked or its list fails
the check, and the next MMAP is already relinked when the previous one cannot
be locked.
-/

namespace VgcMalloc

open Program Tiling Linked

variable {env : Env} {heap after middle : Heap} {held : List Mutex} {calls : Nat}
  {pages : MmapPages} {guarded : Bool} {abstract abstract' : AbstractHeap} {region : Region}
  {entry block : Entry} {state : State} {base ptr : Nat}

/-! ## What should be left -/

/-- All lists, headers and counters of the listed MMAPs are as before. -/
structure SameHeaders (heap after : Heap) : Prop where
  mmaps : after.mmaps = heap.mmaps
  mmapHeaders : ∀ base ∈ heap.mmaps, after.mmapHeader base = heap.mmapHeader base
  blocks : ∀ base ∈ heap.mmaps, after.blocks base = heap.blocks base
  mallocHeaders : ∀ base ∈ heap.mmaps, ∀ block ∈ heap.blocks base,
    after.mallocHeader block.addr = heap.mallocHeader block.addr

theorem SameHeaders.refl (heap : Heap) : SameHeaders heap heap :=
  ⟨rfl, fun _ _ => rfl, fun _ _ => rfl, fun _ _ _ _ => rfl⟩

/-- The listed MMAPs are doubly linked, and their counters are right. -/
structure Heap.Coherent (heap : Heap) : Prop where
  links : ∀ first ∈ heap.mmaps, ∀ second ∈ heap.mmaps,
    heap.nextMmap first = second ↔ heap.prevMmap second = first
  elements : ∀ base ∈ heap.mmaps, (heap.mmapHeader base).elements = busyCount (heap.blocks base)

/-- A release of the pointer that has not marked its block leaves everything as
it was, and one that has leaves coherent lists. -/
structure AtomicFree (ptr : Nat) (heap after : Heap) : Prop where
  unmarked : after.Resolves ptr → SameHeaders heap after
  marked : ¬after.Resolves ptr → after.Coherent

/-- The answers to the attempts to lock, and of the check, that interrupt a
release where the lists are wrong. -/
def Env.Interrupts (env : Env) (heap : Heap) (held : List Mutex) (calls base : Nat)
    (checkFails : Bool) : Prop :=
  env.Locks held calls .shared ∧
    (¬env.Locks held (calls + 1) (.mmapBlock base) ∨ checkFails = true ∨
      (busyCount (heap.blocks base) = 1 ∧ heap.nextMmap base ≠ 0 ∧ heap.prevMmap base ≠ 0 ∧
        env.Locks held (calls + 2 + (heap.blocks base).length) (.mmapBlock (heap.nextMmap base)) ∧
        ¬env.Locks held (calls + 4 + (heap.blocks base).length)
          (.mmapBlock (heap.prevMmap base))))

/-- `checkMmapBlock` of `vgc_free`, or a check that fails. -/
def checkOrFail (fails : Bool) (mmapBlock : Nat) : Vgc Bool :=
  if fails then pure false else checkMmapBlock "vgc_free" mmapBlock

/-! ## Coherent lists -/

theorem Represents.nonnull (rep : Represents pages guarded heap abstract) :
    0 ∉ abstract.listed := by
  intro member
  obtain ⟨region, regionMem, null⟩ := rep.listed member
  have positive := (rep.wellFormed.placed region regionMem).positive
  omega

/-- A heap with an invariant is coherent. -/
theorem Represents.coherent (rep : Represents pages guarded heap abstract) : heap.Coherent := by
  have nonnull := rep.nonnull
  constructor
  · intro first firstMem second secondMem
    rw [rep.mmaps_eq] at firstMem secondMem
    exact rep.links.next_eq_iff nonnull nonnull firstMem secondMem
  · intro base listed
    rw [rep.mmaps_eq] at listed
    obtain ⟨region, member, rfl⟩ := rep.listed listed
    rw [rep.blocks_eq member]
    exact (rep.regions region member).mmap.elements

/-- The MMAP behind a listed one is listed. -/
theorem Represents.next_mem (rep : Represents pages guarded heap abstract)
    (listed : base ∈ abstract.listed) (present : heap.nextMmap base ≠ 0) :
    heap.nextMmap base ∈ abstract.listed :=
  (rep.toStands.neighbours_listed listed).1 present

/-! ## Where the lists are wrong -/

/-- A lowered count changes no link. -/
theorem Represents.countDown_nextMmap (rep : Represents pages guarded heap abstract)
    (member : region ∈ abstract.regions) (listed : base ∈ abstract.listed) :
    (heap.countDown region.base).nextMmap base = heap.nextMmap base := by
  obtain ⟨other, otherMem, rfl⟩ := rep.listed listed
  rw [Heap.nextMmap, Heap.nextMmap, Heap.countDown]
  by_cases same : other = region
  · subst same
    rw [Heap.mmapHeader_setMmapFields]
    simp [MmapHeader.set]
  · have apart := rep.wellFormed.disjoint_of_ne otherMem member same
    have room := (rep.wellFormed.placed region member).room
    have otherRoom := (rep.wellFormed.placed other otherMem).room
    unfold Region.Disjoint at apart
    rw [Heap.mmapHeader_setMmapFields_apart _ (by omega)]

theorem Represents.countDown_mmaps (rep : Represents pages guarded heap abstract)
    (member : region ∈ abstract.regions) :
    (heap.countDown region.base).mmaps = abstract.listed := by
  apply Represents.mmaps_of_next rep
  · rw [Heap.countDown_shared]
  · intro base listed
    exact rep.countDown_nextMmap member listed

theorem Represents.countDown_blocks (rep : Represents pages guarded heap abstract)
    (member : region ∈ abstract.regions) :
    (heap.countDown region.base).blocks region.base = abstract.entries region.base := by
  apply rep.blocks_of_headers member
  intro x xMem
  have bounds := header_bounds (rep.wellFormed.placed region member)
    (rep.wellFormed.tiles region member) xMem
  exact Heap.mallocHeader_setMmapFields _ (by omega)

/-- A release that has only lowered the count is not atomic. -/
theorem not_atomicFree_countDown (rep : Represents pages guarded heap abstract)
    (member : region ∈ abstract.regions) (listed : region.base ∈ abstract.listed)
    (entryMem : entry ∈ abstract.entries region.base) (busy : entry.busy = true) :
    ¬AtomicFree ptr heap (heap.countDown region.base) := by
  intro atomic
  have mmaps := rep.countDown_mmaps member
  have blocks := rep.countDown_blocks member
  have elements := (rep.regions region member).mmap.elements
  have positive : 0 < busyCount (abstract.entries region.base) :=
    List.countP_pos_iff.mpr ⟨entry, entryMem, busy⟩
  have bound : busyCount (abstract.entries region.base) < 2 ^ 64 :=
    Nat.lt_of_le_of_lt List.countP_le_length (rep.toStands.site member).walkable.enough
  have lowered : ((heap.countDown region.base).mmapHeader region.base).elements =
      busyCount (abstract.entries region.base) - 1 := by
    rw [Heap.mmapHeader_countDown (by omega) (by omega), elements]
  by_cases resolves : (heap.countDown region.base).Resolves ptr
  · have same := (atomic.unmarked resolves).mmapHeaders region.base (rep.mmaps_eq ▸ listed)
    rw [same, elements] at lowered
    omega
  · have right := (atomic.marked resolves).elements region.base (mmaps ▸ listed)
    rw [lowered, blocks] at right
    omega

/-- Neither is one that has relinked the next MMAP only. -/
theorem not_atomicFree_relink (rep : Represents pages guarded heap abstract)
    (middleRep : Represents pages guarded middle abstract')
    (listedEq : abstract'.listed = abstract.listed)
    (listed : base ∈ abstract.listed)
    (links : middle.nextMmap base = heap.nextMmap base ∧
      middle.prevMmap base = heap.prevMmap base)
    (next : middle.nextMmap base ≠ 0) :
    ¬AtomicFree ptr heap
      (middle.relinkMmap (middle.nextMmap base) .prev (middle.prevMmap base)) := by
  rw [← listedEq] at listed
  have near := middleRep.toStands.neighbours listed
  have nextMem := middleRep.next_mem listed next
  have separate : ∀ other ∈ abstract'.listed, other + 105 ≤ middle.nextMmap base ∨
      middle.nextMmap base + 105 ≤ other ∨ other = middle.nextMmap base := by
    intro other otherMem
    obtain ⟨region, member, rfl⟩ := middleRep.listed otherMem
    exact near.nextHome.separate middleRep.toStands member
  have nextSame : ∀ other ∈ abstract'.listed,
      (middle.relinkMmap (middle.nextMmap base) .prev (middle.prevMmap base)).nextMmap other =
        middle.nextMmap other := by
    intro other otherMem
    rw [Heap.nextMmap, Heap.mmapHeader_relinkMmap (separate other otherMem)]
    split
    · rfl
    · rfl
  have prevNow : (middle.relinkMmap (middle.nextMmap base) .prev
      (middle.prevMmap base)).prevMmap (middle.nextMmap base) = middle.prevMmap base := by
    rw [Heap.prevMmap, Heap.mmapHeader_relinkMmap (separate _ nextMem), if_pos ⟨rfl, next⟩,
      MmapHeader.set]
    exact word_mod (near.prevHome.bound middleRep.toStands)
  have mmaps : (middle.relinkMmap (middle.nextMmap base) .prev (middle.prevMmap base)).mmaps =
      abstract'.listed := middleRep.mmaps_of_next (by simp) nextSame
  have nextStill := nextSame base listed
  generalize middle.relinkMmap (middle.nextMmap base) .prev (middle.prevMmap base) = after at *
  intro atomic
  by_cases resolves : after.Resolves ptr
  · -- before, the next MMAP pointed back to the one that is released
    have old := (rep.coherent.links base (by rw [rep.mmaps_eq, ← listedEq]; exact listed)
      (middle.nextMmap base) (by rw [rep.mmaps_eq, ← listedEq]; exact nextMem)).mp links.1.symm
    have same := (atomic.unmarked resolves).mmapHeaders (middle.nextMmap base)
      (by rw [rep.mmaps_eq, ← listedEq]; exact nextMem)
    rw [Heap.prevMmap, same] at prevNow
    exact near.prevNe (prevNow.symm.trans old)
  · have back := ((atomic.marked resolves).links base (mmaps ▸ listed) (middle.nextMmap base)
      (mmaps ▸ nextMem)).mp nextStill
    exact near.prevNe (prevNow.symm.trans back)

/-! ## Where they are right -/

/-- A represented heap in which the block is no longer in use. -/
theorem Represents.atomicFree (rep : Represents pages guarded heap abstract)
    (afterRep : Represents pages guarded after abstract')
    (resolved : headerOf heap.shared ptr = entry.addr)
    (gone : ∀ x, abstract'.Busy x → x.addr ≠ entry.addr) : AtomicFree ptr heap after := by
  constructor
  · intro resolves
    obtain ⟨_, base, listed, x, xMem, busy, same⟩ := afterRep.resolves_iff.mp resolves
    obtain ⟨region, member, rfl⟩ := afterRep.listed listed
    rw [rep.toStands.headerOf_eq, same] at resolved
    exact absurd resolved (gone x ⟨region, member, xMem, busy⟩)
  · intro _
    exact afterRep.coherent

/-- The block is no longer in use once it has been released. -/
theorem Represents.gone (rep : Represents pages guarded heap abstract)
    (member : region ∈ abstract.regions) (entryMem : entry ∈ abstract.entries region.base)
    (busy : entry.busy = true) :
    ∀ x, (abstract.free region.base entry.addr).Busy x → x.addr ≠ entry.addr := by
  intro x xBusy same
  obtain ⟨old, ne⟩ := (AbstractHeap.busy_free_iff rep.wellFormed member entryMem).mp xBusy
  rcases rep.toStands.busy_disjoint old ⟨region, member, entryMem, busy⟩ with equal | apart
  · exact ne equal
  · omega

theorem AbstractHeap.Busy.of_vanish {unmaps : Bool} {x : Entry}
    (busy : (abstract.vanish unmaps base).Busy x) : abstract.Busy x := by
  obtain ⟨region, member, xMem, xBusy⟩ := busy
  cases unmaps with
  | true => exact ⟨region, (List.mem_filter.mp member).1, xMem, xBusy⟩
  | false => exact ⟨region, member, xMem, xBusy⟩

/-! ## Every end of a release -/

/-- What the check does when it fails: the count stays lowered. -/
theorem counted_vgcFreeWith_fails (rep : Represents pages guarded heap abstract)
    (member : region ∈ abstract.regions) (listed : region.base ∈ abstract.listed)
    (entryMem : entry ∈ abstract.entries region.base) (bound : ptr < 2 ^ 64)
    (resolved : headerOf heap.shared ptr = entry.addr) :
    Yields counted (vgcFreeWith (checkOrFail true) ptr) env ((heap, held), calls) fun _ final =>
      (¬env.Locks held calls .shared ∧ final.1.1 = heap) ∨
        (env.Locks held calls .shared ∧ final.1.1 = heap.countDown region.base) := by
  have site := rep.toStands.site member
  apply counted_freeAround rep member listed entryMem bound resolved
  · intro refused
    exact Or.inl ⟨refused, rfl⟩
  intro shared
  apply counted_releaseAround site entryMem
  · intro rest count refused _
    exact Or.inr ⟨shared, rfl⟩
  · intro header own
    have accessible : (heap.countDown region.base).mmapAccessible region.base = true :=
      site.countDown.accessible
    apply (counted_releaseChecked_false accessible).mono
    rintro _ final ⟨same, _⟩
    exact Or.inr ⟨shared, same⟩

/-- The removal of an MMAP is interrupted when only the next one can be
locked. -/
theorem UnlinkEnd.atomicFree_iff {later : Nat} (rep : Represents pages guarded heap abstract)
    (freed : Represents pages guarded middle (abstract.free region.base entry.addr))
    (member : region ∈ abstract.regions) (listed : region.base ∈ abstract.listed)
    (resolved : headerOf heap.shared ptr = entry.addr)
    (links : middle.nextMmap region.base = heap.nextMmap region.base ∧
      middle.prevMmap region.base = heap.prevMmap region.base)
    (gone : ∀ x, (abstract.free region.base entry.addr).Busy x → x.addr ≠ entry.addr)
    (ends : UnlinkEnd env middle held later region after) :
    AtomicFree ptr heap after ↔
      ¬(middle.nextMmap region.base ≠ 0 ∧ middle.prevMmap region.base ≠ 0 ∧
        env.Locks held later (.mmapBlock (middle.nextMmap region.base)) ∧
        ¬env.Locks held (later + 2) (.mmapBlock (middle.prevMmap region.base))) := by
  cases ends with
  | stuckNext present refused =>
      constructor
      · rintro _ ⟨_, _, locks, _⟩
        exact refused locks
      · intro _
        exact rep.atomicFree freed resolved gone
  | stuckPrev next present refused =>
      by_cases nextEq : middle.nextMmap region.base = 0
      · rw [nextEq]
        constructor
        · rintro _ ⟨ne, _⟩
          exact ne rfl
        · intro _
          exact rep.atomicFree freed resolved gone
      · rw [relinkCalls, if_neg nextEq] at refused
        constructor
        · intro atomic
          exact absurd atomic (not_atomicFree_relink rep freed rfl listed links nextEq)
        · intro calm
          exact absurd ⟨nextEq, present, next.resolve_left nextEq, refused⟩ calm
  | unlinked next prev =>
      constructor
      · rintro _ ⟨nextEq, prevEq, _, refused⟩
        rw [relinkCalls, if_neg nextEq] at prev
        exact refused (prev.resolve_left prevEq)
      · intro _
        apply rep.atomicFree (freed.vanished member listed _).represents resolved
        intro x busy
        exact gone x busy.of_vanish

/-- The ends of a release are atomic unless one of these answers interrupts
it. -/
theorem FreeEnd.atomicFree_iff {count : Nat} (rep : Represents pages guarded heap abstract)
    (member : region ∈ abstract.regions) (listed : region.base ∈ abstract.listed)
    (entryMem : entry ∈ abstract.entries region.base) (busy : entry.busy = true)
    (resolved : headerOf heap.shared ptr = entry.addr)
    (ends : FreeEnd env abstract region entry heap held calls after count) :
    AtomicFree ptr heap after ↔ ¬env.Interrupts heap held calls region.base false := by
  have gone := rep.gone member entryMem busy
  unfold Env.Interrupts
  rw [rep.blocks_eq member]
  cases ends with
  | unlocked _ refused =>
      constructor
      · rintro _ ⟨shared, _⟩
        exact refused shared
      · intro _
        exact ⟨fun _ => SameHeaders.refl heap, fun _ => rep.coherent⟩
  | uncounted _ shared refused =>
      constructor
      · intro atomic
        exact absurd atomic (not_atomicFree_countDown rep member listed entryMem busy)
      · intro calm
        exact absurd ⟨shared, Or.inl refused⟩ calm
  | released _ _ shared own others step counts =>
      have freed := rep.free member entryMem step
      constructor
      · rintro _ ⟨_, refused | impossible | ⟨only, _⟩⟩
        · exact refused own
        · cases impossible
        · exact others only
      · intro _
        exact rep.atomicFree freed resolved gone
  | emptied middle _ _ shared own only step ends =>
      have freed := rep.free member entryMem step
      have position : calls + 2 + (abstract.entries region.base).length + 2 =
          calls + 4 + (abstract.entries region.base).length := by omega
      rw [ends.atomicFree_iff rep freed member listed resolved step.links gone, position,
        step.links.1, step.links.2]
      apply not_congr
      constructor
      · intro stuck
        exact ⟨shared, Or.inr (Or.inr ⟨only, stuck⟩)⟩
      · rintro ⟨_, refused | impossible | ⟨_, stuck⟩⟩
        · exact absurd own refused
        · cases impossible
        · exact stuck

/-- A release is atomic exactly when it is not interrupted behind the lowered
count or between the links of the two neighbours, whatever the mutexes and the
check answer. -/
theorem vgcFree_atomic_iff (checkFails : Bool)
    (rep : Represents pages guarded state.heap abstract) (listed : base ∈ state.heap.mmaps)
    (blockMem : block ∈ state.heap.blocks base) (busy : block.busy = true)
    (bound : ptr < 2 ^ 64) (resolved : headerOf state.heap.shared ptr = block.addr) :
    ∃ last, vgcFreeWith (checkOrFail checkFails) ptr env state = .ok () last ∧
      (checkFails = false → vgcFree ptr env state = .ok () last) ∧
      (AtomicFree ptr state.heap last.heap ↔
        ¬env.Interrupts state.heap state.held state.calls base checkFails) := by
  rw [rep.mmaps_eq] at listed
  obtain ⟨region, member, rfl⟩ := rep.listed listed
  rw [rep.blocks_eq member] at blockMem
  have viewEq : counted state = ((state.heap, state.held), state.calls) := rfl
  cases checkFails with
  | false =>
      obtain ⟨_, last, freed, ends, _⟩ :=
        counted_vgcFree rep member listed blockMem busy bound resolved state viewEq
      exact ⟨last, freed, fun _ => freed,
        ends.atomicFree_iff rep member listed blockMem busy resolved⟩
  | true =>
      obtain ⟨_, last, freed, ends⟩ :=
        counted_vgcFreeWith_fails rep member listed blockMem bound resolved state viewEq
      refine ⟨last, freed, nofun, ?_⟩
      rcases ends with ⟨refused, same⟩ | ⟨shared, lowered⟩
      · have unchanged : last.heap = state.heap := same
        rw [unchanged]
        constructor
        · rintro _ ⟨shared, _⟩
          exact refused shared
        · intro _
          exact ⟨fun _ => SameHeaders.refl state.heap, fun _ => rep.coherent⟩
      · have counted : last.heap = state.heap.countDown region.base := lowered
        rw [counted]
        constructor
        · intro atomic
          exact absurd atomic (not_atomicFree_countDown rep member listed blockMem busy)
        · intro calm
          exact absurd ⟨shared, Or.inr (Or.inl rfl)⟩ calm

/-- A kernel whose mutexes can be locked except by the call with this
number. -/
def contendedEnv (refused : Nat) : Env :=
  { generousEnv with mutexLock := fun call => call != refused }

/-- The MMAP cannot be locked by the `vgc_free` that follows two requests. -/
theorem twice_refused :
    ∃ trace state last, ClientRun generousEnv .default true Tame trace state ∧
      state.heap.mmaps = [0x10000000] ∧
      (⟨0x10001000, 4096, true⟩ : Entry) ∈ state.heap.blocks 0x10000000 ∧
      headerOf state.heap.shared 0x10003ff6 = 0x10001000 ∧
      vgcFree 0x10003ff6 (contendedEnv 18) state = .ok () last ∧
      last.heap.Resolves 0x10003ff6 ∧
      (state.heap.mmapHeader 0x10000000).elements = 2 ∧
      (last.heap.mmapHeader 0x10000000).elements = 1 := by
  have found : (replay Call.program generousEnv Tame [] (start .default true)
      [.malloc 10, .malloc 20]).map (fun final => (final.2.heap.mmaps,
        decide (⟨0x10001000, 4096, true⟩ ∈ final.2.heap.blocks 0x10000000),
        [headerOf final.2.heap.shared 0x10003ff6, (final.2.heap.mmapHeader 0x10000000).elements],
        (vgcFree 0x10003ff6 (contendedEnv 18) final.2).normal.map fun last =>
          (decide (last.2.heap.Resolves 0x10003ff6),
            (last.2.heap.mmapHeader 0x10000000).elements))) =
      some ([0x10000000], true, [0x10001000, 2], some (true, 1)) := by decide +kernel
  obtain ⟨⟨trace, state⟩, replayed, same⟩ := Option.map_eq_some_iff.mp found
  simp only [Prod.mk.injEq, decide_eq_true_eq, List.cons.injEq, and_true] at same
  obtain ⟨mmaps, blockMem, ⟨resolved, elements⟩, called⟩ := same
  obtain ⟨⟨_, last⟩, ended, same⟩ := Option.map_eq_some_iff.mp called
  simp only [Prod.mk.injEq, decide_eq_true_eq] at same
  exact ⟨trace, state, last, Run.start.replay replayed, mmaps, blockMem, resolved,
    Outcome.normal_eq_some_iff.mp ended, same.1, elements, same.2⟩

theorem vgcFree_atomic_iff_sample :
    ∃ state last, vgcFree 0x10003ff6 (contendedEnv 18) state = .ok () last ∧
      (AtomicFree 0x10003ff6 state.heap last.heap ↔
        ¬(contendedEnv 18).Interrupts state.heap state.held state.calls 0x10000000 false) := by
  obtain ⟨trace, state, _, run, mmaps, blockMem, resolved, _⟩ := twice_refused
  have listed : 0x10000000 ∈ state.heap.mmaps := by
    rw [mmaps]
    exact List.mem_singleton_self _
  have rep := (tame_valid generousEnv_mutexes run).2.represents listed
  obtain ⟨last, _, freed, atomic⟩ :=
    vgcFree_atomic_iff false rep listed blockMem rfl (by decide) resolved
  exact ⟨state, last, freed rfl, atomic⟩

/-- A failing lock of the MMAP leaves its counter lowered. -/
theorem not_vgcFree_atomic :
    ¬∀ env pages guarded state abstract base block ptr last,
      Represents pages guarded state.heap abstract → base ∈ state.heap.mmaps →
      block ∈ state.heap.blocks base → block.busy = true → ptr < 2 ^ 64 →
      headerOf state.heap.shared ptr = block.addr → vgcFree ptr env state = .ok () last →
        AtomicFree ptr state.heap last.heap := by
  intro claim
  obtain ⟨trace, state, last, run, mmaps, blockMem, resolved, freed, live, two, one⟩ :=
    twice_refused
  have listed : 0x10000000 ∈ state.heap.mmaps := by
    rw [mmaps]
    exact List.mem_singleton_self _
  have rep := (tame_valid generousEnv_mutexes run).2.represents listed
  have atomic := claim (contendedEnv 18) _ _ state _ _ _ _ last rep listed blockMem rfl
    (by decide) resolved freed
  have same := (atomic.unmarked live).mmapHeaders 0x10000000 listed
  rw [same, two] at one
  cases one

end VgcMalloc
