import VgcMalloc.Guarantees.Tiling

/-!
# Runs in which `mmap` fails

The list of MMAPs leads through mapped MMAPs only, whatever calls of `mmap`
fail, as long as the first MMAP can be created when a request needs it.  When
both attempts to create it fail, `mmapBlockFirst` keeps `MAP_FAILED`.
-/

namespace VgcMalloc

open Program Tiling Linked

variable {env : Env} {pages : MmapPages} {guarded : Bool} {trace : List Finished} {state : State}
  {heap after : Heap} {abstract : AbstractHeap}

/-! ## Mapped lists -/

namespace Heap

/-- Following `next` from an address visits mapped MMAPs only and ends. -/
inductive EndsMapped (heap : Heap) : Nat → Prop where
  | null : heap.EndsMapped 0
  | mmap {region : Region} (member : region ∈ heap.mapped)
      (rest : heap.EndsMapped (heap.nextMmap region.base)) : heap.EndsMapped region.base

/-- The list of MMAPs leads through mapped MMAPs and ends. -/
def HeadMapped (heap : Heap) : Prop := heap.EndsMapped heap.shared.mmapBlockFirst

/-- All of the header at an address lies in a mapped MMAP. -/
def MapsHeader (heap : Heap) (address : Nat) : Prop :=
  ∃ region ∈ heap.mapped, region.base ≤ address ∧
    address + mallocHeaderSize ≤ region.base + region.length

end Heap

theorem Stands.endsMapped {bases : List Nat} {before : Nat}
    (stands : Stands pages guarded heap abstract)
    (links : Segment heap.nextMmap heap.prevMmap before bases 0)
    (listed : ∀ base ∈ bases, base ∈ abstract.listed) : heap.EndsMapped (bases.headD 0) := by
  induction bases generalizing before with
  | nil => exact .null
  | cons base rest ih =>
      obtain ⟨region, member, rfl⟩ := stands.listed (listed base List.mem_cons_self)
      have tail := ih links.2.2 fun other inRest => listed other (List.mem_cons_of_mem _ inRest)
      rw [← links.2.1] at tail
      exact .mmap (stands.mapped ▸ member) tail

theorem Represents.headMapped (rep : Represents pages guarded heap abstract) :
    heap.HeadMapped := by
  unfold Heap.HeadMapped
  rw [rep.first]
  exact rep.toStands.endsMapped rep.links fun _ member => member

/-- No mapping starts at `MAP_FAILED`. -/
theorem Stands.not_headMapped (stands : Stands pages guarded heap abstract)
    (failed : heap.shared.mmapBlockFirst = mapFailed) : ¬heap.HeadMapped := by
  unfold Heap.HeadMapped
  rw [failed]
  generalize lastEq : mapFailed = last
  intro mapped
  cases mapped with
  | null => exact absurd lastEq (by decide)
  | mmap member rest =>
      have user := (stands.wellFormed.placed _ (stands.mapped ▸ member)).user
      rw [mapFailed_eq] at lastEq
      omega

/-! ## Calls that stay in mapped memory -/

/-- A call of `vgc_malloc`, or of `vgc_free` with null, with an address outside
of every listed MMAP, or with a pointer that resolves to a block in use. -/
def Proper (state : State) : Call → Prop
  | .malloc _ => True
  | .free ptr => ptr = 0 ∨ (∀ base ∈ state.heap.mmaps, ¬state.heap.InRange ptr base) ∨
      state.heap.Resolves ptr
  | _ => False

/-- The call ends, normally or at a header of a mapped MMAP that is
`PROT_NONE`. -/
def StaysMapped (env : Env) (state : State) (call : Call) : Prop :=
  call.program env state ≠ .diverge ∧
    ∀ reason, call.program env state = .fault reason → state.heap.MapsHeader reason

theorem StaysMapped.of_returns {call : Call} {post : Nat → State → Prop}
    (ends : Returns (call.program) env state post) : StaysMapped env state call := by
  obtain ⟨value, last, ended, _⟩ := ends
  unfold StaysMapped
  rw [ended]
  exact ⟨by simp, by simp⟩

/-- The header that a request splits off lies in a mapped MMAP. -/
theorem Stands.splitSettled (stands : Stands pages guarded heap abstract) (need : Nat) :
    SplitSettled heap.MapsHeader guarded need heap abstract abstract.listed := by
  intro entry found closed
  obtain ⟨base, listed, found⟩ := List.exists_of_findSome?_eq_some found
  obtain ⟨region, member, rfl⟩ := stands.listed listed
  have bounds := (stands.wellFormed.tiles region member).bounds (List.mem_of_find?_eq_some found)
  have left : AbstractHeap.grantLength guarded need + 8192 < entry.size := by
    by_contra whole
    exact closed fun left => absurd left whole
  refine ⟨region, stands.mapped ▸ member, by omega, ?_⟩
  rw [mallocHeaderSize_eq]
  omega

/-- `vgc_free` of null or of an address outside of every listed MMAP only
reports it. -/
theorem yields_vgcFree_outside {ptr : Nat} (mutexes : MutexCallsSucceed env)
    (rep : Represents pages guarded heap abstract)
    (outside : ptr = 0 ∨ ∀ base ∈ abstract.listed, ¬heap.InRange ptr base) :
    Yields seen (vgcFree ptr) env (heap, []) fun _ final => final = (heap, []) := by
  unfold vgcFree
  apply Yields.ite
  · intro _
    refine yields_vgcMessage_seq ?_
    exact Yields.pure rfl
  · intro present
    refine Yields.seq (yields_pthreadMutexLock mutexes rfl List.not_mem_nil) ?_
    rintro _ _ ⟨rfl, rfl⟩
    simp only [Bool.not_true, Bool.false_eq_true, if_false]
    refine Yields.seq (yields_isInMmapBlock rep) ?_
    rintro value _ ⟨rfl, hit⟩
    have missed : value = false := by
      by_contra found
      obtain ⟨base, member, inRange⟩ := hit.mp ((Bool.not_eq_false _).mp found)
      exact outside.resolve_left present base member inRange
    subst missed
    simp only [Bool.not_false, if_true]
    refine Yields.seq (yields_orReport _ _ _ (yields_pthreadMutexUnlock mutexes rfl)) ?_
    rintro _ _ rfl
    refine yields_vgcMessage_seq ?_
    exact Yields.pure rfl

theorem Represents.staysMapped {call : Call}
    (rep : Represents pages guarded state.heap state.heap.abstraction)
    (mutexes : MutexCallsSucceed env) (unlocked : state.held = []) (proper : Proper state call) :
    StaysMapped env state call := by
  have viewEq : seen state = (state.heap, []) := by rw [seen, unlocked]
  cases call with
  | malloc size =>
      rcases settles_vgcMalloc mutexes rep (rep.toStands.splitSettled _) state viewEq with
        returns | ⟨reason, maps, faulted⟩
      · exact StaysMapped.of_returns returns
      · have stopped : (Call.malloc size).program env state = .fault reason := faulted
        unfold StaysMapped
        rw [stopped]
        refine ⟨by simp, ?_⟩
        rintro _ ⟨⟩
        exact maps
  | free ptr =>
      have freed : Returns (vgcFree ptr) env state fun _ _ => True := by
        rcases proper with null | outside | ⟨bound, base, listed, entry, entryMem, busy, resolved⟩
        · exact (yields_vgcFree_outside mutexes rep (Or.inl null) state viewEq).mono
            fun _ _ _ => trivial
        · exact (yields_vgcFree_outside mutexes rep (Or.inr outside) state viewEq).mono
            fun _ _ _ => trivial
        · obtain ⟨region, member, rfl⟩ := rep.listed listed
          rw [← abstraction_entries] at entryMem
          exact (yields_vgcFree mutexes rep member listed entryMem busy bound resolved state
            viewEq).mono fun _ _ _ => trivial
      have ends : Returns ((Call.free ptr).program) env state fun _ _ => True :=
        freed.seq fun _ _ _ => Returns.pure trivial
      exact StaysMapped.of_returns ends
  | calloc nmemb size => exact proper.elim
  | realloc ptr size => exact proper.elim

/-! ## Runs -/

/-- A request that finds no first MMAP can create one: one of the two calls of
`mmap` that it makes succeeds. -/
def CreatesFirst (env : Env) (pages : MmapPages) (state : State) : Call → Prop
  | .malloc _ => state.heap.shared.mmapBlockFirst = 0 → state.heap.newRegion env pages ≠ none
  | _ => True

instance (env : Env) (pages : MmapPages) (state : State) :
    (call : Call) → Decidable (CreatesFirst env pages state call)
  | .malloc _ => inferInstanceAs (Decidable (_ → _))
  | .calloc _ _ => .isTrue trivial
  | .realloc _ _ => .isTrue trivial
  | .free _ => .isTrue trivial

/-- A represented list does not start at `MAP_FAILED`. -/
theorem Represents.first_ne_mapFailed (rep : Represents pages guarded heap abstract) :
    heap.shared.mmapBlockFirst ≠ mapFailed :=
  fun failed => rep.toStands.not_headMapped failed rep.headMapped

theorem Effect.first_ne_mapFailed {call : Call} {result : Nat}
    (alive : state.heap.shared.mmapBlockFirst ≠ mapFailed)
    (creates : CreatesFirst env pages state call)
    (effect : Effect env pages guarded state.heap call result after) :
    after.shared.mmapBlockFirst ≠ mapFailed := by
  cases effect with
  | malloc rep outcome =>
      cases outcome with
      | poisoned empty refused =>
          refine absurd refused (creates ?_)
          rw [rep.first, empty]
          rfl
      | refused abstract' extended => exact (extended.represents rep).first_ne_mapFailed
      | served extendedHeap abstract' middle region entry extended served positive small =>
          exact (served.represents (extended.represents rep)
            (alignSize_pos rep.mode positive)).first_ne_mapFailed
  | free rep member listed entryMem busy bound resolved outcome =>
      rw [← abstraction_entries] at entryMem
      obtain ⟨abstract', afterRep⟩ := outcome.represents rep member entryMem
      exact afterRep.first_ne_mapFailed
  | nothing => exact alive

/-- When the first MMAP cannot be created, `MAP_FAILED` stays behind. -/
theorem yields_vgcMalloc_failed {size : Nat} (mutexes : MutexCallsSucceed env)
    (rep : Represents pages guarded heap abstract) (empty : abstract.listed = [])
    (refused : heap.newRegion env pages = none) :
    Yields seen (vgcMalloc size) env (heap, []) fun _ final =>
      final.1.shared.mmapBlockFirst = mapFailed := by
  unfold vgcMalloc
  refine Yields.seq (yields_initialiseFirstMMAP mutexes rep) ?_
  rintro value ⟨grown, grownHeld⟩ ⟨rfl, ⟨nonempty, _⟩ | ⟨_, _, rfl, same⟩ |
    ⟨_, region, middle, chosen, _⟩⟩
  · exact absurd empty nonempty
  · simp only at same
    subst same
    exact Yields.pure rfl
  · rw [refused] at chosen
    cases chosen

/-- In every run whose requests can create the first MMAP when there is none,
the list leads through mapped MMAPs, whatever other calls of `mmap` fail, and
no proper call leaves mapped memory; a request that cannot create it breaks the
list.  A release that is recognised by a wrong checksum is not proper: the dump
that it makes walks from whatever stands at the header it resolves to. -/
theorem headMapped_of_run (mutexes : MutexCallsSucceed env)
    (run : ClientRun env pages guarded
      (fun state call => MallocAndFree state call ∧ CreatesFirst env pages state call)
      trace state) :
    state.heap.HeadMapped ∧ (∀ call, Proper state call → StaysMapped env state call) ∧
      ∀ call result last, MallocAndFree state call → call.program env state = .ok result last →
        (last.heap.HeadMapped ↔ CreatesFirst env pages state call) := by
  have initial : (start pages guarded).heap.shared.mmapBlockFirst ≠ mapFailed :=
    (by decide : 0 ≠ mapFailed)
  obtain ⟨unlocked, valid, alive⟩ := run_invariant
    (fun heap => heap.shared.mmapBlockFirst ≠ mapFailed) mutexes (fun _ _ allowed => allowed.1)
    initial (fun state _ _ _ _ alive allowed effect =>
      @Effect.first_ne_mapFailed _ _ _ state _ _ _ alive allowed.2 effect) run
  have live : ∀ {heap : Heap}, Valid pages guarded heap →
      heap.shared.mmapBlockFirst ≠ mapFailed → Represents pages guarded heap heap.abstraction := by
    intro heap valid alive
    cases valid with
    | live rep => exact rep
    | dead stands failed => exact absurd failed alive
  have rep := live valid alive
  refine ⟨rep.headMapped, fun call proper => rep.staysMapped mutexes unlocked proper, ?_⟩
  intro call result last lawful ended
  obtain ⟨_, effect⟩ := valid.effect mutexes unlocked lawful ended
  constructor
  · intro mapped
    cases call with
    | malloc size =>
        intro null refused
        have empty : state.heap.abstraction.listed = [] := mmaps_eq_nil_of_null null
        have failed := (yields_vgcMalloc_failed mutexes rep empty refused).allows state
          (by rw [seen, unlocked]) result last ended
        exact (effect.valid valid).stands.not_headMapped failed mapped
    | calloc nmemb size => trivial
    | realloc ptr size => trivial
    | free ptr => trivial
  · intro creates
    exact (live (effect.valid valid) (effect.first_ne_mapFailed alive creates)).headMapped

theorem headMapped_of_run_sample :
    ∃ trace state, ClientRun generousEnv .default true
        (fun state call => MallocAndFree state call ∧
          CreatesFirst generousEnv .default state call) trace state ∧
      state.heap.mmaps = [0x10000000, 0x20000000] ∧ state.heap.HeadMapped ∧
      (∀ call, Proper state call → StaysMapped generousEnv state call) ∧
      ∀ call result last, MallocAndFree state call →
        call.program generousEnv state = .ok result last →
          (last.heap.HeadMapped ↔ CreatesFirst generousEnv .default state call) := by
  have found : (replay Call.program generousEnv
      (fun state call => MallocAndFree state call ∧ CreatesFirst generousEnv .default state call)
      [] (start .default true) [.malloc 32700001, .malloc 100000]).map
        (fun final => final.2.heap.mmaps) = some [0x10000000, 0x20000000] := by decide +kernel
  obtain ⟨final, replayed, same⟩ := Option.map_eq_some_iff.mp found
  have run := Run.start.replay replayed
  exact ⟨_, _, run, same, headMapped_of_run generousEnv_mutexes run⟩

/-- A kernel that refuses every mapping. -/
def refusingEnv : Env := { generousEnv with mmap := fun _ => none }

/-- After the first request has failed, the head of the list is `MAP_FAILED`. -/
theorem not_headMapped_of_run :
    ¬∀ env pages guarded trace state, MutexCallsSucceed env →
      ClientRun env pages guarded MallocAndFree trace state → state.heap.HeadMapped := by
  intro claim
  have found : (replay Call.program refusingEnv MallocAndFree [] (start .default true)
      [.malloc 10]).map (fun final => final.2.heap.shared.mmapBlockFirst) =
        some mapFailed := by decide +kernel
  obtain ⟨final, replayed, same⟩ := Option.map_eq_some_iff.mp found
  have mutexes : MutexCallsSucceed refusingEnv :=
    ⟨fun _ => rfl, fun _ => rfl, fun _ => rfl, fun _ => rfl, fun _ => rfl, fun _ => rfl⟩
  have run := Run.start.replay replayed
  have valid := (run_valid mutexes (fun _ _ allowed => allowed) run).2
  exact valid.stands.not_headMapped same (claim _ _ _ _ _ mutexes run)

end VgcMalloc
