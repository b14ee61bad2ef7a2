import VgcMalloc.Abstract.Allocator
import VgcMalloc.Guarantees.Contents
import VgcMalloc.Guarantees.Exhaustion
import VgcMalloc.Guarantees.Sharing
import VgcMalloc.Program.Machines
import VgcMalloc.Refine.Asked

/-!
# The code follows the machine

Every step of `vgc_malloc` and `vgc_free` acts on a heap in memory as the
machine acts on its lists of blocks, and hands out the same pointers.
-/

namespace VgcMalloc

open Program Tiling

variable {env : Env} {pages : MmapPages} {guarded : Bool} {heap after : Heap}
  {shown : Allocator} {need size ptr memory : Nat} {held : List Mutex} {region : Region}

/-- The setting of the machine. -/
def settingOf (env : Env) (pages : MmapPages) (guarded : Bool) : Setting :=
  ⟨env.mmap, pages.bytes, guarded⟩

/-- The heap in memory shows a state of the machine. -/
structure Shows (pages : MmapPages) (guarded : Bool) (heap : Heap) (shown : Allocator) : Prop where
  stands : Stands pages guarded heap shown.heap
  first : heap.shared.mmapBlockFirst =
    if shown.failed then mapFailed else shown.heap.listed.headD 0
  unlisted : shown.failed = true → shown.heap.listed = []
  asked : heap.mmapCalls = shown.asked

theorem Shows.represents (shows : Shows pages guarded heap shown) (alive : shown.failed = false) :
    Represents pages guarded heap shown.heap := by
  refine ⟨shows.stands, ?_⟩
  rw [shows.first, alive]
  rfl

theorem Shows.of_represents (rep : Represents pages guarded heap shown.heap)
    (alive : shown.failed = false) (asked : heap.mmapCalls = shown.asked) :
    Shows pages guarded heap shown where
  stands := rep.toStands
  first := by
    rw [alive]
    exact rep.first
  unlisted failed := by
    rw [alive] at failed
    cases failed
  asked := asked

/-! ## Creation -/

/-- The kernel answers both in the same way. -/
theorem Shows.placement_eq (env : Env) (shows : Shows pages guarded heap shown) (length : Nat) :
    (settingOf env pages guarded).placement shown.heap.regions shown.asked length =
      heap.placement env length := by
  rw [← shows.stands.mapped, ← shows.asked]
  rfl

theorem Shows.placement_asked (env : Env) (shows : Shows pages guarded heap shown)
    (length : Nat) :
    (settingOf env pages guarded).placement shown.heap.regions (shown.asked + 1) length =
      heap.asked.placement env length := by
  rw [← shows.stands.mapped, ← shows.asked]
  rfl

/-- The machine creates the region that `mmapBlockAllocate` maps. -/
theorem Shows.extend_of_some (shows : Shows pages guarded heap shown)
    (chosen : heap.newRegion env pages = some region) :
    shown.extend (settingOf env pages guarded) =
      (true, { shown with
        heap := shown.heap.create region
        asked := shown.asked + heap.asks env pages }) := by
  unfold Heap.newRegion at chosen
  unfold Allocator.extend Heap.asks
  have full := shows.placement_eq env pages.bytes
  have tenth := shows.placement_asked env (pages.bytes / 10)
  cases placed : heap.placement env pages.bytes with
  | some base =>
      rw [placed] at chosen full
      obtain rfl := Option.some.inj chosen
      rw [settingOf] at full ⊢
      rw [full]
      rfl
  | none =>
      rw [placed] at chosen full
      obtain ⟨base, second, rfl⟩ := Option.map_eq_some_iff.mp chosen
      rw [second] at tenth
      rw [settingOf] at full tenth ⊢
      rw [full]
      simp only
      rw [tenth]
      rfl

theorem Shows.extend_of_none (shows : Shows pages guarded heap shown)
    (refused : heap.newRegion env pages = none) :
    shown.extend (settingOf env pages guarded) =
      (false, { shown with asked := shown.asked + 2 }) := by
  unfold Heap.newRegion at refused
  unfold Allocator.extend
  have full := shows.placement_eq env pages.bytes
  have tenth := shows.placement_asked env (pages.bytes / 10)
  cases placed : heap.placement env pages.bytes with
  | some base =>
      rw [placed] at refused
      cases refused
  | none =>
      rw [placed] at refused full
      rw [Option.map_eq_none_iff.mp refused] at tenth
      rw [settingOf] at full tenth ⊢
      rw [full]
      simp only
      rw [tenth]

theorem Allocator.extend_failed (shown : Allocator) (setting : Setting) :
    (shown.extend setting).2.failed = shown.failed := by
  unfold extend
  split
  · rfl
  · split
    · rfl
    · rfl

/-- A created region is listed. -/
theorem Allocator.extend_listed (shown : Allocator) (setting : Setting) :
    (shown.extend setting).1 = true → (shown.extend setting).2.heap.listed ≠ [] := by
  unfold extend
  split
  · simp [AbstractHeap.create]
  · split
    · simp [AbstractHeap.create]
    · simp

theorem asks_pos : 0 < heap.asks env pages := by
  unfold Heap.asks
  split
  · exact Nat.one_pos
  · exact Nat.two_pos

/-! ## The search -/

theorem Allocator.grant_of_none {setting : Setting}
    (unfit : shown.heap.malloc need (AbstractHeap.grantLength setting.guarded need) = none) :
    shown.grant setting need = none := by
  rw [grant, unfit]
  rfl

theorem Allocator.grant_of_some {setting : Setting} {base : Nat} {entry : Entry}
    {next : AbstractHeap}
    (found : shown.heap.malloc need (AbstractHeap.grantLength setting.guarded need) =
      some (base, entry, next)) :
    shown.grant setting need =
      some (AbstractHeap.pointerOf setting.guarded entry.addr need,
        { shown with heap := next }) := by
  rw [grant, found]
  rfl

/-- `mallocInMMAPs` searches as the machine does. -/
theorem Shows.search (mutexes : MutexCallsSucceed env) (shows : Shows pages guarded heap shown)
    (alive : shown.failed = false) (nonempty : shown.heap.listed ≠ []) (bound : need < 2 ^ 62)
    (positive : guarded = true → 0 < need) :
    Allows seen (mallocInMMAPs need) env (heap, []) fun memory final =>
      final.2 = [] ∧ memory = (shown.search (settingOf env pages guarded) need).1 ∧
        Shows pages guarded final.1 (shown.search (settingOf env pages guarded) need).2 := by
  have rep := shows.represents alive
  have settled : Settles seen (fun _ => True) (mallocInMMAPs need) env (heap, []) _ :=
    settles_mallocInMMAPs mutexes rep nonempty bound fun _ _ _ => trivial
  apply (settled.allows.and (counts_mallocInMMAPs mutexes rep bound)).mono
  rintro memory ⟨final, _⟩ ⟨⟨rfl, outcome⟩, count⟩
  refine ⟨rfl, ?_⟩
  simp only at outcome count
  unfold Allocator.search
  cases outcome with
  | refused grown extended null unfit =>
      have grownRep := extended.represents rep
      cases extended with
      | kept same heapSame =>
          -- the search would have asked for an MMAP
          subst same heapSame
          rw [if_pos unfit] at count
          have positive := @asks_pos env pages final
          omega
      | refused none refused same heapSame =>
          subst same
          rw [Allocator.grant_of_none none, shows.extend_of_none refused]
          refine ⟨null, Shows.of_represents grownRep alive ?_⟩
          rw [heapSame]
          exact congrArg (· + 2) shows.asked
      | created none region middle chosen same created heapSame =>
          subst same
          rw [Allocator.grant_of_none none, shows.extend_of_some chosen]
          simp only
          rw [Allocator.grant_of_none unfit]
          refine ⟨null, Shows.of_represents grownRep alive ?_⟩
          rw [count, if_pos none, shows.asked]
          rfl
  | served grown next middle region entry extended served =>
      have grownRep := extended.represents rep
      have finalRep := served.represents grownRep positive
      cases extended with
      | kept same heapSame =>
          subst same
          rw [Allocator.grant_of_some served.found]
          refine ⟨served.pointer, Shows.of_represents finalRep alive ?_⟩
          rw [count, if_neg (by rw [served.found]; simp)]
          exact shows.asked
      | refused none refused same heapSame =>
          subst same
          rw [served.found] at none
          cases none
      | created none fresh between chosen same created heapSame =>
          subst same
          rw [Allocator.grant_of_none none, shows.extend_of_some chosen]
          simp only
          rw [Allocator.grant_of_some served.found]
          refine ⟨served.pointer, Shows.of_represents finalRep alive ?_⟩
          rw [count, if_pos none, shows.asked]
          rfl

/-! ## The checks -/

/-- The limit that `vgc_malloc` reads in the first MMAP. -/
theorem Represents.limit_eq (rep : Represents pages guarded heap shown.heap)
    (member : region ∈ shown.heap.regions) (base : region.base = shown.heap.listed.headD 0) :
    shown.limit = region.length - 12288 := by
  have found : shown.heap.regions.find? (fun other =>
      decide (other.base = shown.heap.listed.headD 0)) = some region := by
    cases search : shown.heap.regions.find? (fun other =>
        decide (other.base = shown.heap.listed.headD 0)) with
    | none =>
        have missing := List.find?_eq_none.mp search region member
        simp [base] at missing
    | some other =>
        have same := List.find?_some search
        rw [decide_eq_true_eq, ← base] at same
        rw [rep.wellFormed.region_eq (List.mem_of_find?_eq_some search) member same]
  rw [Allocator.limit, found, Option.map_some, Option.getD_some]

/-- The size that is searched for depends on the mode only. -/
theorem Shows.need_eq (env : Env) (shows : Shows pages guarded heap shown) (size : Nat) :
    alignSize heap.shared size = (settingOf env pages guarded).need size :=
  alignSize_congr shows.stands.mode size

/-- The checks let pass what the machine searches for. -/
theorem Shows.checkSize (shows : Shows pages guarded heap shown) (alive : shown.failed = false)
    (nonempty : shown.heap.listed ≠ []) :
    Allows seen (checkSize size) env (heap, held) fun checked final => final = (heap, held) ∧
      checked = if size = 0 ∨ shown.limit ≤ (settingOf env pages guarded).need size then none
        else some ((settingOf env pages guarded).need size) := by
  have rep := shows.represents alive
  obtain ⟨first, rest, shape⟩ := List.exists_cons_of_ne_nil nonempty
  obtain ⟨region, member, base⟩ := rep.listed (by rw [shape]; exact List.mem_cons_self)
  have head : region.base = shown.heap.listed.headD 0 := by rw [base, shape]; rfl
  have mmap := (rep.regions region member).mmap
  unfold VgcMalloc.checkSize
  apply Allows.ite
  · intro zero
    refine (yields_vgcMessage_seq (Yields.pure ⟨rfl, ?_⟩)).allows
    rw [if_pos (Or.inl zero)]
  · intro positive
    apply Allows.seq yields_getShared.allows
    rintro _ _ ⟨rfl, rfl⟩
    rw [rep.first, ← head]
    apply Allows.seq (yields_readMmapHeader mmap.accessible).allows
    rintro _ _ ⟨rfl, rfl⟩
    rw [mmap.maxSize, ← rep.limit_eq member head, shows.need_eq env size]
    apply Allows.ite
    · intro big
      refine (yields_vgcMessage_seq (Yields.pure ⟨rfl, ?_⟩)).allows
      rw [if_pos (Or.inr big)]
    · intro small
      apply Allows.pure
      refine ⟨rfl, ?_⟩
      rw [if_neg]
      exact fun either => either.elim positive small

/-! ## `vgc_malloc` -/

/-- The machine serves what the code serves when there is a first MMAP. -/
theorem Shows.serve (mutexes : MutexCallsSucceed env) (shows : Shows pages guarded heap shown)
    (alive : shown.failed = false) (nonempty : shown.heap.listed ≠ []) :
    Allows seen (VgcMalloc.checkSize size >>= searchMMAPs) env (heap, []) fun memory final =>
      final.2 = [] ∧ memory = (shown.serve (settingOf env pages guarded) size).1 ∧
        Shows pages guarded final.1 (shown.serve (settingOf env pages guarded) size).2 := by
  have rep := shows.represents alive
  have present := rep.first_ne_zero_iff.mpr nonempty
  have bounds : Allows seen (VgcMalloc.checkSize size) env (heap, []) _ :=
    allows_checkSize rep fun _ => present
  apply Allows.seq (bounds.and (shows.checkSize alive nonempty))
  rintro checked _ ⟨⟨rfl, passed⟩, _, outcome⟩
  unfold Allocator.serve
  by_cases refused : size = 0 ∨ shown.limit ≤ (settingOf env pages guarded).need size
  · rw [if_pos refused] at outcome ⊢
    subst outcome
    exact Allows.pure ⟨rfl, rfl, shows⟩
  · rw [if_neg refused] at outcome ⊢
    obtain ⟨_, bound, positive⟩ := passed _ outcome
    subst outcome
    exact shows.search mutexes alive nonempty bound positive

/-- The first MMAP, or the failure to create it. -/
theorem Shows.initialise (mutexes : MutexCallsSucceed env)
    (shows : Shows pages guarded heap shown) (alive : shown.failed = false) :
    Allows seen initialiseFirstMMAP env (heap, []) fun ready final => final.2 = [] ∧
      if shown.heap.listed = [] then
        ready = (shown.extend (settingOf env pages guarded)).1 ∧
          Shows pages guarded final.1 { (shown.extend (settingOf env pages guarded)).2 with
            failed := !ready }
      else ready = true ∧ final.1 = heap := by
  have rep := shows.represents alive
  have count : Allows seen initialiseFirstMMAP env (heap, []) fun _ final =>
      shown.heap.listed = [] → final.1.mmapCalls = heap.mmapCalls + heap.asks env pages :=
    fun state viewEq value final ended empty =>
      counts_initialiseFirstMMAP mutexes rep empty state viewEq value final ended
  apply ((yields_initialiseFirstMMAP mutexes rep).allows.and count).mono
  rintro ready ⟨final, _⟩ ⟨⟨rfl, ⟨nonempty, rfl, same⟩ | ⟨empty, refused, rfl, same⟩ |
    ⟨empty, region, middle, chosen, created, rfl, same⟩⟩, asked⟩
  · rw [if_neg nonempty]
    exact ⟨rfl, rfl, same⟩
  · rw [if_pos empty, shows.extend_of_none refused]
    simp only at same
    subst same
    refine ⟨rfl, rfl, ?_⟩
    exact ⟨rep.toStands.asked.asked.setFirst mapFailed, rfl, fun _ => empty,
      congrArg (· + 2) shows.asked⟩
  · obtain ⟨placed, _, apart⟩ := newRegion_placed chosen
    rw [rep.mapped] at apart
    have count := asked empty
    simp only at same count
    rw [if_pos empty, shows.extend_of_some chosen]
    refine ⟨rfl, rfl, ?_⟩
    refine Shows.of_represents ⟨?_, ?_⟩ rfl ?_
    · rw [same]
      exact (rep.toStands.create placed apart created).setFirst region.base
    · rw [same, AbstractHeap.create, empty]
      rfl
    · rw [count, shows.asked]

/-- `vgc_malloc` follows the machine. -/
theorem Shows.malloc (mutexes : MutexCallsSucceed env) (shows : Shows pages guarded heap shown) :
    Allows seen (vgcMalloc size) env (heap, []) fun memory final =>
      final.2 = [] ∧ memory = (shown.malloc (settingOf env pages guarded) size).1 ∧
        Shows pages guarded final.1 (shown.malloc (settingOf env pages guarded) size).2 := by
  unfold Allocator.malloc
  cases alive : shown.failed with
  | true =>
      have failed : heap.shared.mmapBlockFirst = mapFailed := by
        rw [shows.first, alive]
        rfl
      apply (allows_vgcMalloc_dead shows.stands failed).mono
      rintro memory _ ⟨rfl, rfl⟩
      exact ⟨rfl, rfl, shows⟩
  | false =>
      rw [vgcMalloc_eq_steps]
      simp only [Bool.false_eq_true, if_false]
      rw [← bind_assoc, ← initialiseFirstMMAP_eq]
      apply Allows.seq (shows.initialise mutexes alive)
      rintro ready ⟨middle, _⟩ ⟨rfl, begun⟩
      by_cases empty : shown.heap.listed = []
      · rw [if_pos empty] at begun ⊢
        have failed := shown.extend_failed (settingOf env pages guarded)
        have listed := shown.extend_listed (settingOf env pages guarded)
        obtain ⟨made, grown⟩ := begun
        generalize shown.extend (settingOf env pages guarded) = answer at made grown failed listed
        obtain ⟨created, next⟩ := answer
        simp only at made grown failed listed
        subst made
        rw [alive] at failed
        cases ready with
        | false =>
            simp only [Bool.not_false, if_true]
            exact Allows.pure ⟨rfl, rfl, grown⟩
        | true =>
            have same : { next with failed := false } = next := by
              rw [← failed]
            rw [Bool.not_true, same] at grown
            simp only [Bool.not_true, Bool.false_eq_true, if_false]
            exact grown.serve mutexes failed (listed rfl)
      · rw [if_neg empty] at begun ⊢
        obtain ⟨rfl, rfl⟩ := begun
        exact shows.serve mutexes alive empty

/-! ## `vgc_free` -/

/-- `munmap` always succeeds. -/
def MunmapCallsSucceed (env : Env) : Prop := ∀ call, env.munmap call = true

/-- The block that the machine finds for a pointer. -/
theorem Allocator.target_eq_some {setting : Setting} {base : Nat} {entry : Entry}
    (found : shown.target setting ptr = some (base, entry)) :
    ptr < 2 ^ 64 ∧ base ∈ shown.heap.listed ∧ entry ∈ shown.heap.entries base ∧
      entry.busy = true ∧ setting.header ptr = entry.addr := by
  unfold target at found
  split at found
  · rename_i bound
    obtain ⟨base', listed, inner⟩ := List.exists_of_findSome?_eq_some found
    obtain ⟨entry', search, same⟩ := Option.map_eq_some_iff.mp inner
    obtain ⟨rfl, rfl⟩ := Prod.mk.inj same
    have holds := List.find?_some search
    rw [decide_eq_true_eq] at holds
    exact ⟨bound, listed, List.mem_of_find?_eq_some search, holds⟩
  · cases found

/-- The machine finds a block for every pointer that resolves to one. -/
theorem Shows.not_resolves (shows : Shows pages guarded heap shown) (alive : shown.failed = false)
    (missed : shown.target (settingOf env pages guarded) ptr = none) : ¬heap.Resolves ptr := by
  intro resolves
  obtain ⟨bound, base, listed, x, xMem, busy, resolved⟩ :=
    (shows.represents alive).resolves_iff.mp resolves
  unfold Allocator.target at missed
  rw [wordRange_eq, if_pos bound] at missed
  have skipped := List.findSome?_eq_none_iff.mp missed base listed
  have none := List.find?_eq_none.mp (Option.map_eq_none_iff.mp skipped) x xMem
  rw [decide_eq_true_eq] at none
  exact none ⟨busy, resolved⟩

theorem Shows.free (mutexes : MutexCallsSucceed env) (unmaps : MunmapCallsSucceed env)
    (shows : Shows pages guarded heap shown) (known : heap.Resolves ptr ∨ heap.Rejects ptr) :
    Allows seen (vgcFree ptr) env (heap, []) fun _ final => final.2 = [] ∧
      Shows pages guarded final.1 (shown.free (settingOf env pages guarded) ptr) := by
  unfold Allocator.free
  cases alive : shown.failed with
  | true =>
      have failed : heap.shared.mmapBlockFirst = mapFailed := by
        rw [shows.first, alive]
        rfl
      have missed : shown.target (settingOf env pages guarded) ptr = none := by
        unfold Allocator.target
        rw [shows.unlisted alive]
        split
        · rfl
        · rfl
      rw [missed]
      apply (allows_vgcFree_dead mutexes shows.stands failed).mono
      rintro _ _ rfl
      exact ⟨rfl, shows⟩
  | false =>
      have rep := shows.represents alive
      cases found : shown.target (settingOf env pages guarded) ptr with
      | none =>
          have wrong := known.resolve_left (shows.not_resolves alive found)
          unfold Heap.Rejects at wrong
          rw [rep.mmaps_eq] at wrong
          apply (allows_vgcFree_ignored mutexes rep wrong).mono
          rintro _ _ rfl
          exact ⟨rfl, shows⟩
      | some block =>
          obtain ⟨base, entry⟩ := block
          obtain ⟨bound, listed, entryMem, busy, resolved⟩ := Allocator.target_eq_some found
          obtain ⟨region, member, rfl⟩ := rep.listed listed
          have header : headerOf heap.shared ptr = entry.addr := rep.headerOf_eq.trans resolved
          have freed : Allows seen (vgcFree ptr) env (heap, []) _ :=
            (yields_vgcFree mutexes rep member listed entryMem busy bound header).allows
          have count : Allows seen (vgcFree ptr) env (heap, []) _ :=
            counts_of_adds (keeps_mmapCalls_vgcFree ptr).adds
          apply (freed.and count).mono
          rintro _ ⟨final, _⟩ ⟨⟨rfl, outcome⟩, asked⟩
          simp only [Nat.add_zero] at asked outcome
          refine ⟨rfl, ?_⟩
          simp only [Allocator.drop]
          cases outcome with
          | released others step =>
              rw [if_neg others]
              exact Shows.of_represents (rep.free member entryMem step) rfl
                (asked.trans shows.asked)
          | vanished only middle abstract' step vanished =>
              have removed := vanished.unmapped unmaps
              rw [if_pos only]
              refine Shows.of_represents ?_ rfl (asked.trans shows.asked)
              rw [← removed]
              exact vanished.represents

/-! ## Deeds -/

/-- The machine answers the calls among the deeds and takes no note of
stores. -/
def allocatorMachine (setting : Setting) : Machine Allocator Deed Nat where
  initial := ⟨⟨[], [], fun _ => []⟩, 0, false⟩
  step shown
    | .call request => shown.step setting request
    | .store _ _ => (0, shown)

/-- Bytes that are written to payloads are not shown. -/
theorem Shows.writesPayload {entry : Entry} (shows : Shows pages guarded heap shown)
    (writes : WritesPayload heap after entry) : Shows pages guarded after shown where
  stands := shows.stands.writesPayload writes
  first := by
    rw [writes.shared]
    exact shows.first
  unlisted := shows.unlisted
  asked := by
    rw [writes.same]
    exact shows.asked

theorem Shows.valid (shows : Shows pages guarded heap shown) : Valid pages guarded heap := by
  cases alive : shown.failed with
  | false => exact .live (shows.represents alive).abstraction
  | true =>
      have failed : heap.shared.mmapBlockFirst = mapFailed := by
        rw [shows.first, alive]
        rfl
      refine .dead (shows.stands.abstraction ?_) failed
      rw [mmaps_eq_nil failed, shows.unlisted alive]

/-- Null resolves to no block. -/
theorem Shows.free_null (shows : Shows pages guarded heap shown) :
    shown.free (settingOf env pages guarded) 0 = shown := by
  unfold Allocator.free
  cases found : shown.target (settingOf env pages guarded) 0 with
  | none => rfl
  | some block =>
      obtain ⟨base, entry⟩ := block
      obtain ⟨bound, listed, entryMem, busy, resolved⟩ := Allocator.target_eq_some found
      have alive : shown.failed = false := by
        cases failed : shown.failed with
        | false => rfl
        | true =>
            rw [shows.unlisted failed] at listed
            exact absurd listed List.not_mem_nil
      have resolves : heap.Resolves 0 := (shows.represents alive).resolves_iff.mpr
        ⟨bound, base, listed, entry, entryMem, busy, resolved⟩
      exact absurd (Or.inl rfl) (shows.valid.not_rejects resolves)

/-- The state of a client between two deeds shows a state of the machine. -/
structure Displays (pages : MmapPages) (guarded : Bool) (state : State) (shown : Allocator) :
    Prop where
  unlocked : state.held = []
  heap : Shows pages guarded state.heap shown

variable {state last : State}

theorem Displays.view (displays : Displays pages guarded state shown) :
    seen state = (state.heap, []) := by
  rw [seen, displays.unlocked]

theorem Displays.malloc (mutexes : MutexCallsSucceed env)
    (displays : Displays pages guarded state shown)
    (ended : vgcMalloc size env state = .ok memory last) :
    memory = (shown.malloc (settingOf env pages guarded) size).1 ∧
      Displays pages guarded last (shown.malloc (settingOf env pages guarded) size).2 := by
  obtain ⟨unlocked, result, next⟩ :=
    displays.heap.malloc mutexes state displays.view memory last ended
  exact ⟨result, unlocked, next⟩

theorem Displays.free (mutexes : MutexCallsSucceed env) (unmaps : MunmapCallsSucceed env)
    (displays : Displays pages guarded state shown)
    (known : state.heap.Resolves ptr ∨ state.heap.Rejects ptr)
    (ended : vgcFree ptr env state = .ok () last) :
    Displays pages guarded last (shown.free (settingOf env pages guarded) ptr) := by
  obtain ⟨unlocked, next⟩ :=
    displays.heap.free mutexes unmaps known state displays.view () last ended
  exact ⟨unlocked, next⟩

/-- What the library writes to the block that it has granted is not shown. -/
theorem Displays.fills {middle : State} {target length : Nat} (mutexes : MutexCallsSucceed env)
    (displays : Displays pages guarded state shown) (contains : state.heap.shared.Contains size)
    (request : vgcMalloc size env state = .ok target middle) (served : target ≠ 0)
    (fits : length ≤ size) (held : last.held = middle.held)
    (writes : WritesRange middle.heap last.heap target length) :
    Displays pages guarded last (shown.malloc (settingOf env pages guarded) size).2 ∧
      ∀ ptr, state.heap.Resolves ptr → last.heap.Resolves ptr := by
  have valid := displays.heap.valid
  obtain ⟨_, grown⟩ := displays.malloc mutexes request
  obtain ⟨_, effect⟩ := valid.malloc_effect mutexes displays.unlocked request
  obtain ⟨rep, outcome⟩ := effect.of_malloc served
  obtain ⟨entry, fills⟩ := effect.writes served contains fits writes
  refine ⟨⟨held.trans grown.unlocked, grown.heap.writesPayload fills⟩, ?_⟩
  intro ptr resolves
  exact grown.heap.valid.resolves_writesPayload fills (outcome.resolves rep resolves)

theorem Displays.calloc {nmemb : Nat} (mutexes : MutexCallsSucceed env)
    (displays : Displays pages guarded state shown) (tame : Tame state (.calloc nmemb size))
    (ended : vgcCalloc nmemb size env state = .ok memory last) :
    memory = (shown.step (settingOf env pages guarded) (.calloc nmemb size)).1 ∧
      Displays pages guarded last
        (shown.step (settingOf env pages guarded) (.calloc nmemb size)).2 := by
  simp only [Allocator.step]
  rcases vgcCalloc_ended ended with ⟨none, null, same⟩ | ⟨positive, middle, request, rest⟩
  · obtain ⟨heapEq, heldEq⟩ := Prod.mk.inj same
    rw [if_pos none]
    refine ⟨null, heldEq.trans displays.unlocked, ?_⟩
    rw [heapEq]
    exact displays.heap
  · rw [if_neg positive]
    obtain ⟨result, grown⟩ := displays.malloc mutexes request
    rcases rest with ⟨_, rfl⟩ | ⟨served, filled⟩
    · exact ⟨result, grown⟩
    · obtain ⟨_, held, cleared⟩ := memset_ended filled
      exact ⟨result, (displays.fills mutexes (tame.resolve_left positive) request served
        (Nat.le_refl _) held cleared).1⟩

theorem Displays.realloc (mutexes : MutexCallsSucceed env) (unmaps : MunmapCallsSucceed env)
    (displays : Displays pages guarded state shown) (tame : Tame state (.realloc ptr size))
    (ended : vgcRealloc ptr size env state = .ok memory last) :
    memory = (shown.step (settingOf env pages guarded) (.realloc ptr size)).1 ∧
      Displays pages guarded last
        (shown.step (settingOf env pages guarded) (.realloc ptr size)).2 := by
  obtain ⟨pointer, fits⟩ := tame
  simp only [Allocator.step]
  rcases vgcRealloc_ended ended with ⟨zero, null, ⟨nothing, rfl⟩ | freed⟩ |
    ⟨positive, middle, request, rest⟩
  · rw [if_pos zero, if_pos nothing]
    exact ⟨null, displays⟩
  · rw [if_pos zero]
    by_cases nothing : ptr = 0
    · have freed := displays.free mutexes unmaps (Or.inr (Or.inl nothing)) freed
      rw [if_pos nothing]
      rw [nothing, displays.heap.free_null] at freed
      exact ⟨null, freed⟩
    · rw [if_neg nothing]
      exact ⟨null, displays.free mutexes unmaps (Or.inl (pointer.resolve_left nothing)) freed⟩
  · rw [if_neg positive]
    obtain ⟨result, grown⟩ := displays.malloc mutexes request
    rcases rest with ⟨reason, rfl⟩ | ⟨present, served, old, read, copied, sized, copies, frees⟩
    · rw [result] at reason
      rw [if_pos reason]
      exact ⟨result, grown⟩
    · obtain ⟨rfl, _⟩ := readMallocSize_ended sized
      obtain ⟨held, moved⟩ := memcpy_ended copies
      obtain ⟨filled, stays⟩ := displays.fills mutexes (fits.resolve_left positive) request served
        (Nat.min_le_right old size) held moved
      have freed := filled.free mutexes unmaps
        (Or.inl (stays ptr (pointer.resolve_left present))) frees
      have goes : ¬(ptr = 0 ∨ (shown.malloc (settingOf env pages guarded) size).1 = 0) := by
        rw [← result]
        exact fun either => either.elim present served
      rw [if_neg goes]
      exact ⟨result, freed⟩

/-- Every deed of a tame client follows the machine. -/
theorem follows_allocator (mutexes : MutexCallsSucceed env) (unmaps : MunmapCallsSucceed env) :
    Follows Deed.program env TameDeed (allocatorMachine (settingOf env pages guarded))
      (Displays pages guarded) := by
  intro state deed result last shown displays tame ended
  cases deed with
  | store address value =>
      obtain ⟨_, middle, stored, returned⟩ := bind_eq_ok_iff.mp ended
      cases returned
      obtain ⟨held, entry, writes⟩ := storeByte_ended displays.heap.valid tame stored
      exact ⟨rfl, held.trans displays.unlocked, displays.heap.writesPayload writes⟩
  | call request =>
      cases request with
      | malloc size => exact displays.malloc mutexes ended
      | calloc nmemb size => exact displays.calloc mutexes tame ended
      | realloc ptr size => exact displays.realloc mutexes unmaps tame ended
      | free ptr =>
          obtain ⟨null, freed⟩ := Call.free_ended ended
          exact ⟨null, displays.free mutexes unmaps tame freed⟩

/-! ## Runs -/

/-- The library has been loaded, and nothing has been asked for. -/
theorem displays_start (env : Env) (pages : MmapPages) (guarded : Bool) :
    Displays pages guarded (start pages guarded)
      (allocatorMachine (settingOf env pages guarded)).initial :=
  ⟨rfl, Shows.of_represents (represents_start pages guarded) rfl rfl⟩

/-- A debugger that follows the links in memory sees the lists of the
machine. -/
structure SeesLists (heap : Heap) (shown : Allocator) : Prop where
  mapped : heap.mapped = shown.heap.regions
  mmaps : heap.mmaps = shown.heap.listed
  blocks : ∀ region ∈ heap.mapped, heap.blocks region.base = shown.heap.entries region.base
  failed : heap.shared.mmapBlockFirst = mapFailed ↔ shown.failed = true

theorem Shows.seesLists (shows : Shows pages guarded heap shown) : SeesLists heap shown where
  mapped := shows.stands.mapped
  mmaps := by
    cases alive : shown.failed with
    | false => exact (shows.represents alive).mmaps_eq
    | true =>
        rw [shows.unlisted alive]
        apply mmaps_eq_nil
        rw [shows.first, alive]
        rfl
  blocks region member := shows.stands.blocks_eq (shows.stands.mapped ▸ member)
  failed := by
    cases alive : shown.failed with
    | false => exact iff_of_false (shows.represents alive).first_ne_mapFailed (by simp)
    | true => simp [shows.first, alive]

/-- The machine that is given the deeds of a run ends in what the run displays,
with the replies that the run got. -/
theorem displays_of_run {trace : List Done} {state : State} (mutexes : MutexCallsSucceed env)
    (unmaps : MunmapCallsSucceed env) (run : DeedRun env pages guarded trace state) :
    Displays pages guarded state
        ((allocatorMachine (settingOf env pages guarded)).after (trace.map Event.call)) ∧
      answered trace =
        (allocatorMachine (settingOf env pages guarded)).replies (trace.map Event.call) :=
  run.follows (displays_start env pages guarded) (follows_allocator mutexes unmaps)

/-- In every run of all four entry points and of stores the results and the
lists in memory are those of the machine. -/
theorem answered_of_run {trace : List Done} {state : State} (mutexes : MutexCallsSucceed env)
    (unmaps : MunmapCallsSucceed env) (run : DeedRun env pages guarded trace state) :
    answered trace =
        (allocatorMachine (settingOf env pages guarded)).replies (trace.map Event.call) ∧
      SeesLists state.heap
        ((allocatorMachine (settingOf env pages guarded)).after (trace.map Event.call)) := by
  obtain ⟨displays, same⟩ := displays_of_run mutexes unmaps run
  exact ⟨same, displays.heap.seesLists⟩

theorem generousEnv_munmap : MunmapCallsSucceed generousEnv := fun _ => rfl

/-- A block is moved and its copy is where the machine says. -/
theorem answered_of_run_sample :
    ∃ trace state, DeedRun generousEnv .default true trace state ∧
      trace.map Event.result = [268476411, 268464120, 0, 268451830] ∧
      answered trace = (allocatorMachine (settingOf generousEnv .default true)).replies
        (trace.map Event.call) ∧
      SeesLists state.heap ((allocatorMachine (settingOf generousEnv .default true)).after
        (trace.map Event.call)) := by
  have found : (replay Deed.program generousEnv TameDeed [] (start .default true)
      [.call (.malloc 10), .store 268451830 1, .call (.calloc 2 4),
        .call (.realloc 268451830 5)]).map (fun final => final.1.map Event.result) =
      some [268476411, 268464120, 0, 268451830] := by decide +kernel
  obtain ⟨final, replayed, results⟩ := Option.map_eq_some_iff.mp found
  have run := Run.start.replay replayed
  exact ⟨_, _, run, results, answered_of_run generousEnv_mutexes generousEnv_munmap run⟩

/-! ## Contents do not matter -/

/-- The deed is a store. -/
def Deed.stores : Deed → Bool
  | .call _ => false
  | .store _ _ => true

theorem ignores_stores (setting : Setting) :
    (allocatorMachine setting).Ignores Deed.stores := by
  intro shown deed silent
  cases deed with
  | call request => cases silent
  | store address value => rfl

/-- Two clients that make the same calls get the same results, and leave the same
lists of blocks, whatever they store in between. -/
theorem independent_of_stores {first second : List Done} {state other : State}
    (mutexes : MutexCallsSucceed env) (unmaps : MunmapCallsSucceed env)
    (firstRun : DeedRun env pages guarded first state)
    (secondRun : DeedRun env pages guarded second other)
    (calls : (first.map Event.call).filter (fun deed => !deed.stores) =
      (second.map Event.call).filter fun deed => !deed.stores) :
    (answered first).filter (fun reply => !reply.1.stores) =
        (answered second).filter (fun reply => !reply.1.stores) ∧
      state.heap.mapped = other.heap.mapped ∧ state.heap.mmaps = other.heap.mmaps ∧
      ∀ region ∈ state.heap.mapped,
        state.heap.blocks region.base = other.heap.blocks region.base := by
  obtain ⟨firstDisplays, firstReplies⟩ := displays_of_run mutexes unmaps firstRun
  obtain ⟨secondDisplays, secondReplies⟩ := displays_of_run mutexes unmaps secondRun
  have firstLists := firstDisplays.heap.seesLists
  have secondLists := secondDisplays.heap.seesLists
  have ignores := ignores_stores (settingOf env pages guarded)
  have sameState := congrArg (allocatorMachine (settingOf env pages guarded)).after calls
  rw [ignores.after_filter, ignores.after_filter] at sameState
  rw [sameState] at firstLists
  have mapped := firstLists.mapped.trans secondLists.mapped.symm
  refine ⟨?_, mapped, firstLists.mmaps.trans secondLists.mmaps.symm, ?_⟩
  · rw [firstReplies, secondReplies, ignores.replies_filter, ignores.replies_filter, calls]
  · intro region member
    rw [firstLists.blocks region member, secondLists.blocks region (mapped ▸ member)]

/-- A client that stores a byte before the block is moved, and one that does not. -/
theorem independent_of_stores_sample :
    ∃ first second state other, DeedRun generousEnv .default true first state ∧
      DeedRun generousEnv .default true second other ∧
      first.map Event.result = [268476411, 268464120, 0, 268451830] ∧
      second.map Event.result = [268476411, 268464120, 268451830] ∧
      state.heap.mmaps = other.heap.mmaps := by
  have found : (replay Deed.program generousEnv TameDeed [] (start .default true)
      [.call (.malloc 10), .store 268451830 1, .call (.calloc 2 4),
        .call (.realloc 268451830 5)]).map
          (fun final => (final.1.map Event.call, final.1.map Event.result)) =
      some ([.call (.realloc 268451830 5), .call (.calloc 2 4), .store 268451830 1,
        .call (.malloc 10)], [268476411, 268464120, 0, 268451830]) := by decide +kernel
  have other : (replay Deed.program generousEnv TameDeed [] (start .default true)
      [.call (.malloc 10), .call (.calloc 2 4), .call (.realloc 268451830 5)]).map
          (fun final => (final.1.map Event.call, final.1.map Event.result)) =
      some ([.call (.realloc 268451830 5), .call (.calloc 2 4), .call (.malloc 10)],
        [268476411, 268464120, 268451830]) := by decide +kernel
  obtain ⟨final, replayed, seen⟩ := Option.map_eq_some_iff.mp found
  obtain ⟨final', replayed', seen'⟩ := Option.map_eq_some_iff.mp other
  obtain ⟨calls, results⟩ := Prod.mk.inj seen
  obtain ⟨calls', results'⟩ := Prod.mk.inj seen'
  have run := Run.start.replay replayed
  have run' := Run.start.replay replayed'
  have same := independent_of_stores generousEnv_mutexes generousEnv_munmap run run'
    (by rw [calls, calls']; rfl)
  exact ⟨_, _, _, _, run, run', results, results', same.2.2.1⟩

end VgcMalloc
