import VgcMalloc.Guarantees.Tiling

/-!
# The list of MMAPs in every run

Every mapped MMAP is in the list and is counted, as long as no `vgc_free`
unmaps the first MMAP while others are listed: `freeMMAP` then clears the head
of the list and the others are lost.
-/

namespace VgcMalloc

open Program Tiling Linked

variable {env : Env} {pages : MmapPages} {guarded : Bool} {trace : List Finished} {state : State}
  {heap after middle : Heap} {abstract abstract' : AbstractHeap} {region : Region} {need : Nat}

theorem generousEnv_munmaps : ∀ call, generousEnv.munmap call = true := fun _ => rfl

/-- Every mapped MMAP is reached from `mmapBlockFirst`, and `mmapBlockCount` is
their number. -/
structure Heap.AllListed (heap : Heap) : Prop where
  listed : ∀ region ∈ heap.mapped, region.base ∈ heap.mmaps
  count : heap.shared.mmapBlockCount = heap.mmaps.length

/-- The same of the represented list. -/
structure AllListed (heap : Heap) (abstract : AbstractHeap) : Prop where
  listed : ∀ region ∈ abstract.regions, region.base ∈ abstract.listed
  count : heap.shared.mmapBlockCount = abstract.listed.length

theorem Represents.allListed_iff (rep : Represents pages guarded heap abstract) :
    heap.AllListed ↔ AllListed heap abstract := by
  have mmaps := rep.mmaps_eq
  have mapped := rep.mapped
  constructor
  · rintro ⟨listed, count⟩
    rw [mmaps] at listed count
    rw [mapped] at listed
    exact ⟨listed, count⟩
  · rintro ⟨listed, count⟩
    rw [← mapped, ← mmaps] at listed
    rw [← mmaps] at count
    exact ⟨listed, count⟩

theorem AllListed.extended
    (extended : Extended env pages guarded need abstract abstract' heap after)
    (all : AllListed heap abstract) : AllListed after abstract' := by
  cases extended with
  | kept same heapSame =>
      subst same heapSame
      exact all
  | refused unfit refused same heapSame =>
      subst same heapSame
      exact ⟨all.listed, all.count⟩
  | created unfit region middle chosen same created heapSame =>
      subst same heapSame
      refine ⟨List.forall_mem_cons.mpr ⟨?_, ?_⟩, ?_⟩
      · exact List.mem_append_right _ (List.mem_singleton_self _)
      · exact fun other otherMem => List.mem_append_left _ (all.listed other otherMem)
      · have counted : (middle.setFirst ((abstract.create region).listed.headD
            0)).shared.mmapBlockCount = heap.shared.mmapBlockCount + 1 := by
          simp only [Heap.setFirst, created.shared]
        rw [counted, all.count]
        simp [AbstractHeap.create]

/-- A step of one region keeps the list of MMAPs and the shared record. -/
theorem AllListed.regionStep {entries entries' : List Entry} {cleared : Nat → Prop}
    (step : RegionStep env region entries entries' cleared heap after)
    (all : AllListed heap abstract) (base : Nat) (fresh : List Entry) :
    AllListed after (abstract.setEntries base fresh) := by
  refine ⟨all.listed, ?_⟩
  rw [step.writes.shared]
  exact all.count

/-- An MMAP that disappears leaves the others listed exactly when it is not the
first of several. -/
theorem AllListed.vanished_iff (wf : abstract.WellFormed pages.bytes guarded)
    (listed : region.base ∈ abstract.listed)
    (works : ∀ call, env.munmap call = true)
    (vanished : Vanished env pages guarded abstract abstract' region heap after)
    (all : AllListed heap abstract) :
    AllListed after abstract' ↔
      (abstract.listed.head? = some region.base → abstract.listed = [region.base]) := by
  have nodup := wf.nodup
  obtain ⟨front, back, split⟩ := List.append_of_mem listed
  have unlinked := AbstractHeap.unlink_listed_of_split nodup split
  have listedEq : abstract'.listed = if front = [] then [] else front ++ back := by
    rw [vanished.unmapped works]
    exact unlinked
  have regionsEq : abstract'.regions =
      abstract.regions.filter fun other => other.base ≠ region.base := by
    rw [vanished.unmapped works]
    rfl
  have members : ∀ other ∈ abstract.regions, other.base ≠ region.base →
      other.base ∈ front ++ back := by
    intro other otherMem ne
    have inList := all.listed other otherMem
    rw [split] at inList
    exact (mem_append_cons.mp inList).resolve_left ne
  cases front with
  | nil =>
      rw [if_pos rfl] at listedEq
      rw [split, List.nil_append, List.head?_cons]
      constructor
      · intro allAfter _
        have empty : back = [] := by
          cases back with
          | nil => rfl
          | cons other rest =>
              obtain ⟨owner, ownerMem, rfl⟩ := wf.mapped other (by simp [split])
              have ne : owner.base ≠ region.base := by
                intro same
                rw [split, same] at nodup
                simp at nodup
              have stays : owner ∈ abstract'.regions := by
                rw [regionsEq]
                exact List.mem_filter.mpr ⟨ownerMem, by simpa using ne⟩
              have inList := allAfter.listed owner stays
              rw [listedEq] at inList
              exact absurd inList List.not_mem_nil
        rw [empty]
      · intro alone
        have empty : back = [] := (List.cons.inj (alone rfl)).2
        subst empty
        refine ⟨?_, ?_⟩
        · intro other otherMem
          rw [regionsEq] at otherMem
          obtain ⟨old, ne⟩ := List.mem_filter.mp otherMem
          exact absurd (members other old (by simpa using ne)) (by simp)
        · rw [vanished.count, all.count, split, listedEq]
          simp
  | cons first rest =>
      rw [if_neg (List.cons_ne_nil _ _)] at listedEq
      have ne : first ≠ region.base := by
        rintro rfl
        rw [split] at nodup
        simp at nodup
      refine ⟨fun _ head => ?_, fun _ => ⟨?_, ?_⟩⟩
      · rw [split, List.cons_append, List.head?_cons] at head
        exact absurd (Option.some.inj head) ne
      · intro other otherMem
        rw [regionsEq] at otherMem
        obtain ⟨old, otherNe⟩ := List.mem_filter.mp otherMem
        rw [listedEq]
        exact members other old (by simpa using otherNe)
      · rw [vanished.count, all.count, split, listedEq]
        simp only [List.length_append, List.length_cons]
        omega

/-- The call does not unmap the first MMAP while others are listed: it is no
`vgc_free` of the only block in use of the first of several MMAPs. -/
def KeepsMmaps (state : State) : Call → Prop
  | .free ptr => ptr < 2 ^ 64 → ∀ base ∈ state.heap.mmaps, ∀ entry ∈ state.heap.blocks base,
      headerOf state.heap.shared ptr = entry.addr → entry.busy = true →
        busyCount (state.heap.blocks base) = 1 →
          state.heap.mmaps.head? = some base → state.heap.mmaps = [base]
  | _ => True

instance (state : State) : (call : Call) → Decidable (KeepsMmaps state call)
  | .free ptr => inferInstanceAs (Decidable (ptr < 2 ^ 64 → ∀ base ∈ state.heap.mmaps,
      ∀ entry ∈ state.heap.blocks base, headerOf state.heap.shared ptr = entry.addr →
        entry.busy = true → busyCount (state.heap.blocks base) = 1 →
          state.heap.mmaps.head? = some base → state.heap.mmaps = [base]))
  | .malloc _ => .isTrue trivial
  | .calloc _ _ => .isTrue trivial
  | .realloc _ _ => .isTrue trivial

theorem MallocOutcome.allListed {size memory : Nat}
    (rep : Represents pages guarded heap heap.abstraction) (all : heap.AllListed)
    (outcome : MallocOutcome env pages guarded size heap.abstraction heap after memory) :
    after.AllListed := by
  have allHere := rep.allListed_iff.mp all
  cases outcome with
  | poisoned empty refused null same =>
      subst same
      have none : (heap.asked.asked.setFirst mapFailed).mmaps = [] := mmaps_eq_nil rfl
      refine ⟨?_, ?_⟩
      · intro region member
        have inList := allHere.listed region member
        rw [empty] at inList
        exact absurd inList List.not_mem_nil
      · have count := allHere.count
        rw [empty] at count
        rw [none]
        exact count
  | refused abstract' extended null reason =>
      exact (extended.represents rep).allListed_iff.mpr (allHere.extended extended)
  | served extendedHeap abstract' middle region entry extended served positive small =>
      have afterRep := served.represents (extended.represents rep)
        (alignSize_pos rep.mode positive)
      refine afterRep.allListed_iff.mpr ?_
      have grown := allHere.extended extended
      obtain ⟨_, _, front, back, _, _, _, _, _, rfl⟩ :=
        AbstractHeap.malloc_eq_some_iff.mp served.found
      exact grown.regionStep served.step _ _

/-- A release keeps every mapped MMAP listed exactly when it does not unmap the
first of several. -/
theorem FreeOutcome.allListed_iff {entry : Entry}
    (rep : Represents pages guarded heap heap.abstraction) (member : region ∈ heap.mapped)
    (listed : region.base ∈ heap.mmaps) (entryMem : entry ∈ heap.blocks region.base)
    (works : ∀ call, env.munmap call = true) (all : heap.AllListed)
    (outcome : FreeOutcome env pages guarded heap.abstraction region entry heap after) :
    after.AllListed ↔ (busyCount (heap.blocks region.base) = 1 →
      heap.mmaps.head? = some region.base → heap.mmaps = [region.base]) := by
  have allHere := rep.allListed_iff.mp all
  rw [← abstraction_entries] at entryMem
  cases outcome with
  | released others step =>
      have freed := rep.free member entryMem step
      refine iff_of_true (freed.allListed_iff.mpr ?_) fun only => absurd only others
      exact allHere.regionStep step _ _
  | vanished only middle abstract' step vanished =>
      have freed := rep.free member entryMem step
      have allFreed : AllListed middle (heap.abstraction.free region.base entry.addr) :=
        allHere.regionStep step _ _
      rw [vanished.represents.allListed_iff,
        allFreed.vanished_iff freed.wellFormed listed works vanished]
      exact ⟨fun alone _ => alone, fun alone => alone only⟩

/-- Every mapped MMAP is listed and counted in every state of a run in which no
`vgc_free` unmaps the first of several MMAPs; a call that does loses MMAPs. -/
theorem allListed_of_run (mutexes : MutexCallsSucceed env)
    (works : ∀ call, env.munmap call = true)
    (run : ClientRun env pages guarded
      (fun state call => MallocAndFree state call ∧ KeepsMmaps state call) trace state) :
    state.heap.AllListed ∧
      ∀ call result last, MallocAndFree state call →
        call.program env state = .ok result last →
          (last.heap.AllListed ↔ KeepsMmaps state call) := by
  have none : (start pages guarded).heap.AllListed := by
    have empty : (start pages guarded).heap.mmaps = [] := mmaps_eq_nil_of_null rfl
    refine ⟨fun region member => absurd member List.not_mem_nil, ?_⟩
    rw [empty]
    rfl
  have preserved : ∀ state call result after, Valid pages guarded state.heap →
      state.heap.AllListed → MallocAndFree state call ∧ KeepsMmaps state call →
        Effect env pages guarded state.heap call result after → after.AllListed := by
    rintro state call result after valid all ⟨_, keeps⟩ effect
    cases effect with
    | malloc rep outcome => exact outcome.allListed rep all
    | free rep member listed entryMem busy bound resolved outcome =>
        exact (outcome.allListed_iff rep member listed entryMem works all).mpr
          (keeps bound _ listed _ entryMem resolved busy)
    | nothing => exact all
  obtain ⟨unlocked, valid, all⟩ := run_invariant Heap.AllListed mutexes
    (fun _ _ allowed => allowed.1) none preserved run
  refine ⟨all, ?_⟩
  intro call result last lawful ended
  obtain ⟨_, effect⟩ := valid.effect mutexes unlocked lawful ended
  refine ⟨fun after => ?_, fun keeps => preserved _ _ _ _ valid all ⟨lawful, keeps⟩ effect⟩
  cases call with
  | malloc size => trivial
  | calloc nmemb size => exact lawful.elim
  | realloc ptr size => exact lawful.elim
  | free ptr =>
      intro bound base listed entry entryMem resolved busy
      obtain ⟨region, member, rfl⟩ := valid.listed listed
      obtain ⟨last', freed, outcome⟩ :=
        valid.free_returns mutexes unlocked listed member entryMem busy bound resolved
      rw [(Call.free_ended ended).2, Outcome.ok.injEq] at freed
      obtain ⟨_, rfl⟩ := freed
      exact (outcome.allListed_iff (valid.represents listed) member listed entryMem works all).mp
        after

theorem allListed_of_run_sample :
    ∃ trace state, ClientRun generousEnv .default true
        (fun state call => MallocAndFree state call ∧ KeepsMmaps state call) trace state ∧
      state.heap.mmaps = [0x10000000] ∧ state.heap.AllListed ∧
      ∀ call result last, MallocAndFree state call →
        call.program generousEnv state = .ok result last →
          (last.heap.AllListed ↔ KeepsMmaps state call) := by
  have found : (replay Call.program generousEnv
      (fun state call => MallocAndFree state call ∧ KeepsMmaps state call) []
      (start .default true) [.malloc 32700001, .malloc 100000, .free 536885600]).map
        (fun final => final.2.heap.mmaps) = some [0x10000000] := by decide +kernel
  obtain ⟨final, replayed, same⟩ := Option.map_eq_some_iff.mp found
  have run := Run.start.replay replayed
  exact ⟨_, _, run, same, allListed_of_run generousEnv_mutexes generousEnv_munmaps run⟩

/-- Two MMAPs, and the first one is emptied: the second one is mapped, but no
longer listed. -/
theorem not_allListed_of_run :
    ¬∀ env pages guarded trace state, MutexCallsSucceed env →
      (∀ call, env.munmap call = true) →
        ClientRun env pages guarded MallocAndFree trace state → state.heap.AllListed := by
  intro claim
  have found : (replay Call.program generousEnv MallocAndFree [] (start .default true)
      [.malloc 32700001, .malloc 100000, .free 268450207]).map (fun final =>
        (final.2.heap.mmaps, final.2.heap.mapped)) =
      some ([], [⟨0x20000000, 32768000⟩]) := by decide +kernel
  obtain ⟨final, replayed, same⟩ := Option.map_eq_some_iff.mp found
  simp only [Prod.mk.injEq] at same
  have run := Run.start.replay replayed
  have all := claim _ _ _ _ _ generousEnv_mutexes generousEnv_munmaps run
  have inList := all.listed ⟨0x20000000, 32768000⟩ (by rw [same.2]; simp)
  rw [same.1] at inList
  exact absurd inList List.not_mem_nil

end VgcMalloc
