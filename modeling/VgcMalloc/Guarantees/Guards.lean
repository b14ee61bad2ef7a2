import VgcMalloc.Guarantees.Tiling

/-!
# Guard pages in every run

When every `mprotect` succeeds, only the protect pages of headers are
`PROT_NONE`.  The converse, that every header is guarded, is lost when
`vgc_free` releases a block whose header stays in the list: the guard is lifted
and not set again.
-/

namespace VgcMalloc

open Program Tiling Linked

variable {env : Env} {pages : MmapPages} {guarded : Bool} {trace : List Finished} {state : State}
  {heap after middle : Heap} {abstract abstract' : AbstractHeap} {region : Region}
  {entries' : List Entry} {cleared : Nat → Prop} {need : Nat}

theorem generousEnv_mprotects : MprotectCallsSucceed generousEnv := fun _ => rfl

/-! ## Only headers are guarded -/

/-- Every `PROT_NONE` page of a region is the protect page of a header. -/
def OnlyHeaders (heap : Heap) (abstract : AbstractHeap) : Prop :=
  ∀ region ∈ abstract.regions, ∀ page, page % 4096 = 0 → region.base ≤ page →
    page < region.base + region.length → heap.protNone page = true →
      page ∈ addresses (abstract.entries region.base)

/-- Pages of other regions keep their protection in a step of one region. -/
theorem RegionStep.protNone_other {other : Region} {page : Nat}
    (step : RegionStep env region (abstract.entries region.base) entries' cleared heap after)
    (wf : abstract.WellFormed pages.bytes guarded)
    (wf' : (abstract.setEntries region.base entries').WellFormed pages.bytes guarded)
    (member : region ∈ abstract.regions) (otherMem : other ∈ abstract.regions)
    (ne : other ≠ region) (aligned : page % 4096 = 0) (low : other.base ≤ page)
    (high : page < other.base + other.length) :
    after.protNone page = heap.protNone page := by
  have apart := wf.disjoint_of_ne otherMem member ne
  have tiles := wf.tiles region member
  have tiles' := wf'.tiles region member
  rw [AbstractHeap.setEntries_entries] at tiles'
  unfold Region.Disjoint at apart
  refine step.untouched page aligned ?_ ?_
  · intro header
    have bounds := addresses_bounds tiles header
    omega
  · intro header
    have bounds := addresses_bounds tiles' header
    omega

theorem OnlyHeaders.regionStep (works : MprotectCallsSucceed env)
    (wf : abstract.WellFormed pages.bytes guarded)
    (wf' : (abstract.setEntries region.base entries').WellFormed pages.bytes guarded)
    (member : region ∈ abstract.regions)
    (step : RegionStep env region (abstract.entries region.base) entries' cleared heap after)
    (only : OnlyHeaders heap abstract) :
    OnlyHeaders after (abstract.setEntries region.base entries') := by
  intro other otherMem page aligned low high protected_
  by_cases same : other = region
  · subst same
    rw [AbstractHeap.setEntries_entries]
    obtain ⟨origin, kept⟩ := (step.guards works page aligned).mp protected_
    rcases origin with old | new
    · by_contra gone
      exact kept (Or.inr ⟨only other otherMem page aligned low high old, gone⟩)
    · exact new.1
  · have baseNe : other.base ≠ region.base := fun equal =>
      same (wf.region_eq otherMem member equal)
    rw [step.protNone_other wf wf' member otherMem same aligned low high] at protected_
    rw [AbstractHeap.setEntries_entries_of_ne _ _ baseNe]
    exact only other otherMem page aligned low high protected_

theorem OnlyHeaders.extended (rep : Represents pages guarded heap abstract)
    (extended : Extended env pages guarded need abstract abstract' heap after)
    (only : OnlyHeaders heap abstract) : OnlyHeaders after abstract' := by
  cases extended with
  | kept same heapSame =>
      subst same heapSame
      exact only
  | refused unfit refused same heapSame =>
      subst same heapSame
      exact only
  | created unfit region middle chosen same created heapSame =>
      subst same heapSame
      obtain ⟨placed, _, apart⟩ := newRegion_placed chosen
      rw [rep.mapped] at apart
      intro other otherMem page aligned low high protected_
      rcases List.mem_cons.mp otherMem with rfl | old
      · rw [AbstractHeap.create_entries]
        by_contra outside
        have free : middle.protNone page = false := by
          refine created.inside page aligned low high ?_
          rintro rfl
          exact outside (by simp [addresses, AbstractHeap.freshEntries])
        have still : middle.protNone page = true := protected_
        rw [free] at still
        cases still
      · have baseNe := rep.wellFormed.base_ne placed apart old
        have disjoint := apart other old
        unfold Region.Disjoint at disjoint
        rw [AbstractHeap.create_entries_of_ne _ baseNe]
        refine only other old page aligned low high ?_
        rw [← created.outside page aligned (by omega)]
        exact protected_

theorem OnlyHeaders.vanished (only : OnlyHeaders heap abstract)
    (vanished : Vanished env pages guarded abstract abstract' region heap after) :
    OnlyHeaders after abstract' := by
  intro other otherMem page aligned low high protected_
  have before := vanished.lifted page protected_
  rcases vanished.either with same | same
  · rw [same] at otherMem ⊢
    exact only other (List.mem_filter.mp otherMem).1 page aligned low high before
  · rw [same] at otherMem ⊢
    exact only other otherMem page aligned low high before

/-- Only headers are guarded in the heap that the lists show. -/
theorem OnlyHeaders.abstraction (stands : Stands pages guarded heap abstract)
    (only : OnlyHeaders heap abstract) : OnlyHeaders heap heap.abstraction := by
  intro region member page aligned low high protected_
  rw [abstraction_regions, stands.mapped] at member
  rw [abstraction_entries, stands.blocks_eq member]
  exact only region member page aligned low high protected_

theorem OnlyHeaders.effect {call : Call} {result : Nat} (works : MprotectCallsSucceed env)
    (only : OnlyHeaders heap heap.abstraction)
    (effect : Effect env pages guarded heap call result after) :
    OnlyHeaders after after.abstraction := by
  cases effect with
  | malloc rep outcome =>
      cases outcome with
      | poisoned empty refused null same =>
          subst same
          have stands := rep.toStands.asked.asked.setFirst mapFailed
          exact OnlyHeaders.abstraction stands only
      | refused abstract' extended null reason =>
          exact OnlyHeaders.abstraction (extended.represents rep).toStands
            (only.extended rep extended)
      | served extendedHeap abstract' middle region entry extended served positive small =>
          have extendedRep := extended.represents rep
          have afterRep := served.represents extendedRep (alignSize_pos rep.mode positive)
          refine OnlyHeaders.abstraction afterRep.toStands ?_
          have extendedOnly := only.extended rep extended
          obtain ⟨_, _, front, back, _, _, _, _, _, rfl⟩ :=
            AbstractHeap.malloc_eq_some_iff.mp served.found
          have step := served.step
          rw [AbstractHeap.setEntries_entries] at step
          exact extendedOnly.regionStep works extendedRep.wellFormed afterRep.wellFormed
            served.member step
  | free rep member listed entryMem busy bound resolved outcome =>
      rw [← abstraction_entries] at entryMem
      cases outcome with
      | released others step =>
          have freed := rep.free member entryMem step
          exact OnlyHeaders.abstraction freed.toStands
            (only.regionStep works rep.wellFormed freed.wellFormed member step)
      | vanished _ middle abstract' step vanished =>
          have freed := rep.free member entryMem step
          exact OnlyHeaders.abstraction vanished.represents.toStands
            (OnlyHeaders.vanished
              (only.regionStep works rep.wellFormed freed.wellFormed member step) vanished)
  | nothing => exact only

/-- The `PROT_NONE` pages of an MMAP are protect pages of its headers; its own
header, the second page of a block header and the payload of a block can be
accessed. -/
structure GuardsOnlyHeaders (heap : Heap) (mmapBlock : Nat) : Prop where
  headers : ∀ page, page % 4096 = 0 → mmapBlock ≤ page →
    page < mmapBlock + (heap.mmapHeader mmapBlock).size → heap.protNone page = true →
      ∃ entry ∈ heap.blocks mmapBlock, entry.addr = page
  mmapHeader : heap.protNone mmapBlock = false
  metadata : ∀ entry ∈ heap.blocks mmapBlock, heap.protNone (entry.addr + 4096) = false
  payload : ∀ entry ∈ heap.blocks mmapBlock, ∀ page, page % 4096 = 0 →
    entry.addr + 8192 ≤ page → page < entry.addr + 8192 + entry.size →
      heap.protNone page = false

theorem OnlyHeaders.guards (valid : Valid pages true heap)
    (only : OnlyHeaders heap heap.abstraction) (member : region ∈ heap.mapped) :
    GuardsOnlyHeaders heap region.base := by
  have stands := valid.stands
  have placed := stands.wellFormed.placed region member
  have room := placed.room
  have baseAligned := placed.aligned
  have tiles := stands.wellFormed.tiles region member
  have size := (stands.regions region member).mmap.size
  have aligned := stands.wellFormed.aligned rfl region member
  rw [abstraction_entries] at tiles aligned
  have header : ∀ page, page % 4096 = 0 → region.base ≤ page →
      page < region.base + region.length → heap.protNone page = true →
        ∃ entry ∈ heap.blocks region.base, entry.addr = page := by
    intro page pageAligned low high protected_
    exact List.mem_map.mp (only region member page pageAligned low high protected_)
  -- a page behind the start of a header and in front of the next one is no header
  have inside : ∀ entry ∈ heap.blocks region.base, ∀ page, page % 4096 = 0 →
      entry.addr < page → page < entry.addr + 8192 + entry.size → heap.protNone page = false := by
    intro entry entryMem page pageAligned low high
    by_contra protected_
    have bounds := tiles.bounds entryMem
    obtain ⟨other, otherMem, rfl⟩ := header page pageAligned (by omega) (by omega)
      ((Bool.not_eq_false _).mp protected_)
    rcases tiles.disjoint entryMem otherMem with rfl | apart
    · omega
    · omega
  refine ⟨?_, ?_, ?_, ?_⟩
  · rw [size]
    exact header
  · by_contra protected_
    obtain ⟨other, otherMem, same⟩ := header region.base baseAligned (Nat.le_refl _) (by omega)
      ((Bool.not_eq_false _).mp protected_)
    have bounds := tiles.bounds otherMem
    omega
  · intro entry entryMem
    have unit := Nat.mod_eq_zero_of_dvd (aligned entry entryMem).1
    exact inside entry entryMem _ (by omega) (by omega) (by omega)
  · intro entry entryMem page pageAligned low high
    exact inside entry entryMem page pageAligned (by omega) high

/-- In every state of a run only protect pages of headers are `PROT_NONE`. -/
theorem guardsOnlyHeaders_of_run (mutexes : MutexCallsSucceed env)
    (works : MprotectCallsSucceed env)
    (run : ClientRun env pages true MallocAndFree trace state) :
    ∀ base ∈ state.heap.mmaps, GuardsOnlyHeaders state.heap base := by
  have none : OnlyHeaders (start pages true).heap (start pages true).heap.abstraction := by
    intro region member
    exact absurd member List.not_mem_nil
  obtain ⟨_, valid, only⟩ := run_invariant (fun heap => OnlyHeaders heap heap.abstraction) mutexes
    (fun _ _ allowed => allowed) none (fun _ _ _ _ _ only _ effect => only.effect works effect) run
  intro base listed
  obtain ⟨region, member, rfl⟩ := valid.listed listed
  exact only.guards valid member

theorem guardsOnlyHeaders_of_run_sample :
    ∃ trace state, ClientRun generousEnv .default true MallocAndFree trace state ∧
      state.heap.mmaps = [0x10000000] ∧ state.heap.protNone 0x10004000 = true ∧
      ∀ base ∈ state.heap.mmaps, GuardsOnlyHeaders state.heap base := by
  have found : (replay Call.program generousEnv MallocAndFree [] (start .default true)
      [.malloc 10, .malloc 5000, .free 268451830]).map (fun final =>
        (final.2.heap.mmaps, final.2.heap.protNone 0x10004000)) = some ([0x10000000], true) := by
    decide +kernel
  obtain ⟨final, replayed, same⟩ := Option.map_eq_some_iff.mp found
  have run := Run.start.replay replayed
  exact ⟨_, _, run, congrArg Prod.fst same, congrArg Prod.snd same,
    guardsOnlyHeaders_of_run generousEnv_mutexes generousEnv_mprotects run⟩

/-! ## Every header is guarded -/

/-- The protect page of every header of the listed regions is `PROT_NONE`. -/
def HeadersGuarded (heap : Heap) (abstract : AbstractHeap) : Prop :=
  ∀ base ∈ abstract.listed, ∀ entry ∈ abstract.entries base, heap.protNone entry.addr = true

theorem HeadersGuarded.regionStep (works : MprotectCallsSucceed env)
    (wf : abstract.WellFormed pages.bytes true)
    (wf' : (abstract.setEntries region.base entries').WellFormed pages.bytes true)
    (member : region ∈ abstract.regions)
    (step : RegionStep env region (abstract.entries region.base) entries' cleared heap after)
    (kept : ∀ x ∈ entries', ¬cleared x.addr) (all : HeadersGuarded heap abstract) :
    HeadersGuarded after (abstract.setEntries region.base entries') := by
  intro base listed entry entryMem
  obtain ⟨other, otherMem, rfl⟩ := wf.mapped base listed
  have aligned : entry.addr % 4096 = 0 :=
    Nat.mod_eq_zero_of_dvd (wf'.aligned rfl other otherMem entry entryMem).1
  by_cases same : other = region
  · subst same
    rw [AbstractHeap.setEntries_entries] at entryMem
    have here : entry.addr ∈ addresses entries' := List.mem_map.mpr ⟨entry, entryMem, rfl⟩
    refine (step.guards works entry.addr aligned).mpr ⟨?_, ?_⟩
    · by_cases old : entry.addr ∈ addresses (abstract.entries other.base)
      · obtain ⟨x, xMem, addrEq⟩ := List.mem_map.mp old
        exact Or.inl (addrEq ▸ all other.base listed x xMem)
      · exact Or.inr ⟨here, old⟩
    · rintro (gone | ⟨_, missing⟩)
      · exact kept entry entryMem gone
      · exact missing here
  · have bounds := (wf'.tiles other otherMem).bounds entryMem
    have baseNe : other.base ≠ region.base := fun equal =>
      same (wf.region_eq otherMem member equal)
    rw [AbstractHeap.setEntries_entries_of_ne _ _ baseNe] at entryMem
    rw [step.protNone_other wf wf' member otherMem same aligned (by omega) (by omega)]
    exact all other.base listed entry entryMem

theorem HeadersGuarded.extended (works : MprotectCallsSucceed env)
    (rep : Represents pages true heap abstract)
    (extended : Extended env pages true need abstract abstract' heap after)
    (all : HeadersGuarded heap abstract) : HeadersGuarded after abstract' := by
  cases extended with
  | kept same heapSame =>
      subst same heapSame
      exact all
  | refused unfit refused same heapSame =>
      subst same heapSame
      exact all
  | created unfit region middle chosen same created heapSame =>
      subst same heapSame
      obtain ⟨placed, _, apart⟩ := newRegion_placed chosen
      rw [rep.mapped] at apart
      intro base listed entry entryMem
      have setFirst : ∀ first page, (middle.setFirst first).protNone page = middle.protNone page :=
        fun _ _ => rfl
      rw [setFirst]
      rcases List.mem_append.mp listed with old | new
      · obtain ⟨other, otherMem, rfl⟩ := rep.wellFormed.mapped base old
        rw [AbstractHeap.create_entries_of_ne _ (rep.wellFormed.base_ne placed apart otherMem)]
          at entryMem
        have bounds := (rep.wellFormed.tiles other otherMem).bounds entryMem
        have aligned := Nat.mod_eq_zero_of_dvd
          (rep.wellFormed.aligned rfl other otherMem entry entryMem).1
        have disjoint := apart other otherMem
        unfold Region.Disjoint at disjoint
        rw [created.outside _ aligned (by omega)]
        exact all other.base old entry entryMem
      · rw [List.mem_singleton.mp new, AbstractHeap.create_entries] at entryMem
        rw [List.mem_singleton.mp entryMem]
        exact created.guard works

/-- An MMAP that disappears leaves the headers of all others guarded. -/
theorem HeadersGuarded.vanished {entry : Entry} (rep : Represents pages true heap abstract)
    (member : region ∈ abstract.regions) (entryMem : entry ∈ abstract.entries region.base)
    (step : RegionStep env region (abstract.entries region.base)
      (release 8192 entry.addr (abstract.entries region.base)) (fun page => page = entry.addr)
      heap middle)
    (vanished : Vanished env pages true (abstract.free region.base entry.addr) abstract' region
      middle after)
    (all : HeadersGuarded heap abstract) : HeadersGuarded after abstract' := by
  have wf := rep.wellFormed
  have freed := rep.free member entryMem step
  have lists : abstract'.listed = ((abstract.free region.base entry.addr).unlink
      region.base).listed ∧ abstract'.entries =
        (abstract.free region.base entry.addr).entries := by
    rcases vanished.either with same | same
    · rw [same]
      exact ⟨rfl, rfl⟩
    · rw [same]
      exact ⟨rfl, rfl⟩
  intro base listed x xMem
  rw [lists.1] at listed
  obtain ⟨old, ne⟩ := AbstractHeap.mem_listed_unlink freed.wellFormed.nodup listed
  obtain ⟨other, otherMem, rfl⟩ := wf.mapped base old
  rw [lists.2, AbstractHeap.free, AbstractHeap.setEntries_entries_of_ne _ _ ne] at xMem
  have otherNe : other ≠ region := fun same => ne (congrArg Region.base same)
  have apart := wf.disjoint_of_ne otherMem member otherNe
  have bounds := (wf.tiles other otherMem).bounds xMem
  have aligned := Nat.mod_eq_zero_of_dvd (wf.aligned rfl other otherMem x xMem).1
  unfold Region.Disjoint at apart
  rw [vanished.untouched _ (by omega),
    step.protNone_other wf freed.wellFormed member otherMem otherNe aligned (by omega) (by omega)]
  exact all other.base old x xMem

theorem HeadersGuarded.abstraction (rep : Represents pages guarded heap abstract)
    (all : HeadersGuarded heap abstract) : HeadersGuarded heap heap.abstraction := by
  intro base listed entry entryMem
  rw [abstraction_listed, rep.mmaps_eq] at listed
  obtain ⟨region, member, rfl⟩ := rep.listed listed
  rw [abstraction_entries, rep.blocks_eq member] at entryMem
  exact all region.base listed entry entryMem

/-- The call lifts no guard of a header that stays: it is no `vgc_free`, or the
released block is the only one in use of its MMAP, or it lies behind a free
block. -/
def KeepsGuards (state : State) : Call → Prop
  | .free ptr => ptr < 2 ^ 64 → ∀ base ∈ state.heap.mmaps, ∀ entry ∈ state.heap.blocks base,
      headerOf state.heap.shared ptr = entry.addr → entry.busy = true →
        busyCount (state.heap.blocks base) = 1 ∨
          ∃ left ∈ leftOf entry.addr (state.heap.blocks base), left.busy = false
  | _ => True

instance (state : State) : (call : Call) → Decidable (KeepsGuards state call)
  | .free ptr => inferInstanceAs (Decidable (ptr < 2 ^ 64 → ∀ base ∈ state.heap.mmaps,
      ∀ entry ∈ state.heap.blocks base, headerOf state.heap.shared ptr = entry.addr →
        entry.busy = true → busyCount (state.heap.blocks base) = 1 ∨
          ∃ left ∈ leftOf entry.addr (state.heap.blocks base), left.busy = false))
  | .malloc _ => .isTrue trivial
  | .calloc _ _ => .isTrue trivial
  | .realloc _ _ => .isTrue trivial

theorem HeadersGuarded.effect {state : State} {call : Call} {result : Nat}
    (works : MprotectCallsSucceed env) (keeps : KeepsGuards state call)
    (all : HeadersGuarded state.heap state.heap.abstraction)
    (effect : Effect env pages true state.heap call result after) :
    HeadersGuarded after after.abstraction := by
  cases effect with
  | malloc rep outcome =>
      cases outcome with
      | poisoned empty refused null same =>
          subst same
          intro base listed
          rw [abstraction_listed, mmaps_eq_nil rfl] at listed
          exact absurd listed List.not_mem_nil
      | refused abstract' extended null reason =>
          exact HeadersGuarded.abstraction (extended.represents rep)
            (all.extended works rep extended)
      | served extendedHeap abstract' middle region entry extended served positive small =>
          have extendedRep := extended.represents rep
          have afterRep := served.represents extendedRep (alignSize_pos rep.mode positive)
          refine HeadersGuarded.abstraction afterRep ?_
          have extendedAll := all.extended works rep extended
          obtain ⟨_, _, front, back, _, _, _, _, _, rfl⟩ :=
            AbstractHeap.malloc_eq_some_iff.mp served.found
          have step := served.step
          rw [AbstractHeap.setEntries_entries] at step
          exact extendedAll.regionStep works extendedRep.wellFormed afterRep.wellFormed
            served.member step fun _ _ cleared => cleared
  | @free ptr region entry _ rep member listed entryMem busy bound resolved outcome =>
      have choice := keeps bound region.base listed entry entryMem resolved busy
      rw [← abstraction_entries] at entryMem choice
      cases outcome with
      | released others step =>
          have freed := rep.free member entryMem step
          refine HeadersGuarded.abstraction freed
            (all.regionStep works rep.wellFormed freed.wellFormed member step ?_)
          obtain ⟨left, leftMem, free⟩ := choice.resolve_left others
          obtain ⟨front, back, split⟩ := List.append_of_mem entryMem
          have tiles := rep.wellFormed.tiles region member
          rw [split] at tiles leftMem ⊢
          rw [leftOf_eq (by decide) tiles] at leftMem
          obtain ⟨front', rfl⟩ := List.getLast?_eq_some_iff.mp leftMem
          intro x xMem
          rw [List.append_assoc, List.singleton_append] at tiles xMem
          exact addr_ne_of_mem_release (by decide) tiles free xMem
      | vanished _ middle abstract' step vanished =>
          exact HeadersGuarded.abstraction vanished.represents
            (all.vanished rep member entryMem step vanished)
  | nothing => exact all

/-- A released header that stays in the list is not guarded. -/
theorem FreeOutcome.unguarded {entry : Entry} (works : MprotectCallsSucceed env)
    (rep : Represents pages true heap heap.abstraction) (member : region ∈ heap.mapped)
    (listed : region.base ∈ heap.mmaps) (entryMem : entry ∈ heap.blocks region.base)
    (others : busyCount (heap.blocks region.base) ≠ 1)
    (behindBusy : ∀ left ∈ leftOf entry.addr (heap.blocks region.base), left.busy = true)
    (outcome : FreeOutcome env pages true heap.abstraction region entry heap after) :
    ¬HeadersGuarded after after.abstraction := by
  rw [← abstraction_entries] at entryMem others behindBusy
  cases outcome with
  | vanished only => exact absurd only others
  | released _ step =>
      have freed := rep.free member entryMem step
      have aligned := Nat.mod_eq_zero_of_dvd
        (rep.wellFormed.aligned rfl region member entry entryMem).1
      obtain ⟨front, back, split⟩ := List.append_of_mem entryMem
      have tiles := rep.wellFormed.tiles region member
      rw [split] at tiles behindBusy
      rw [leftOf_eq (by decide) tiles] at behindBusy
      obtain ⟨x, xMem, addrEq⟩ := exists_mem_release (by decide) tiles behindBusy
      rw [← split] at xMem
      intro all
      have stays : x ∈ after.abstraction.entries region.base := by
        rw [abstraction_entries, freed.blocks_eq member, AbstractHeap.free,
          AbstractHeap.setEntries_entries, mallocHeaderSize_eq]
        exact xMem
      have here : region.base ∈ after.abstraction.listed := by
        rw [abstraction_listed, freed.mmaps_eq]
        exact listed
      have protected_ := all region.base here x stays
      rw [addrEq] at protected_
      exact ((step.guards works entry.addr aligned).mp protected_).2 (Or.inl rfl)

/-- The protect page of every header in the list of every MMAP reached from
`mmapBlockFirst` is `PROT_NONE`, and no byte of it can be written. -/
def Heap.AllGuarded (heap : Heap) : Prop :=
  ∀ base ∈ heap.mmaps, ∀ entry ∈ heap.blocks base, heap.protNone entry.addr = true ∧
    ∀ x, entry.addr ≤ x → x < entry.addr + 4096 → heap.isAccessible x = false

theorem allGuarded_iff (valid : Valid pages true heap) :
    heap.AllGuarded ↔ HeadersGuarded heap heap.abstraction := by
  constructor
  · intro all base listed entry entryMem
    rw [abstraction_entries] at entryMem
    exact (all base listed entry entryMem).1
  · intro all base listed entry entryMem
    obtain ⟨region, member, rfl⟩ := valid.listed listed
    have unit := (valid.stands.wellFormed.aligned rfl region member entry
      (by rwa [abstraction_entries])).1
    have aligned := Nat.mod_eq_zero_of_dvd unit
    have protected_ := all region.base listed entry (by rwa [abstraction_entries])
    refine ⟨protected_, ?_⟩
    intro x low high
    have page : pageBase x = entry.addr := by
      simp only [pageBase, systemPageSize_eq]
      omega
    rw [Heap.isAccessible, page, protected_]
    simp

/-- Every header is guarded in every state of a run whose calls lift no guard
of a header that stays; a call that does lift one leaves a header unguarded. -/
theorem allGuarded_of_run (mutexes : MutexCallsSucceed env) (works : MprotectCallsSucceed env)
    (run : ClientRun env pages true
      (fun state call => MallocAndFree state call ∧ KeepsGuards state call) trace state) :
    state.heap.AllGuarded ∧
      ∀ call result last, MallocAndFree state call →
        call.program env state = .ok result last →
          (last.heap.AllGuarded ↔ KeepsGuards state call) := by
  have none : HeadersGuarded (start pages true).heap (start pages true).heap.abstraction := by
    intro base listed
    have empty := (valid_start pages true).listed listed
    obtain ⟨region, member, _⟩ := empty
    exact absurd member List.not_mem_nil
  obtain ⟨unlocked, valid, all⟩ := run_invariant
    (fun heap => HeadersGuarded heap heap.abstraction) mutexes (fun _ _ allowed => allowed.1) none
    (fun _ _ _ _ _ all allowed effect => all.effect works allowed.2 effect) run
  refine ⟨(allGuarded_iff valid).mpr all, ?_⟩
  intro call result last lawful ended
  obtain ⟨_, effect⟩ := valid.effect mutexes unlocked lawful ended
  rw [allGuarded_iff (effect.valid valid)]
  refine ⟨fun after => ?_, fun keeps => all.effect works keeps effect⟩
  cases call with
  | malloc size => trivial
  | calloc nmemb size => exact lawful.elim
  | realloc ptr size => exact lawful.elim
  | free ptr =>
      intro bound base listed entry entryMem resolved busy
      obtain ⟨region, member, rfl⟩ := valid.listed listed
      obtain ⟨last', freed, outcome⟩ :=
        valid.free_returns mutexes unlocked listed member entryMem busy bound resolved
      rw [(Call.free_ended ended).2, Outcome.ok.injEq] at freed
      obtain ⟨_, rfl⟩ := freed
      by_contra neither
      obtain ⟨others, behind⟩ := not_or.mp neither
      refine outcome.unguarded works (valid.represents listed) member listed entryMem others ?_
        after
      intro left leftMem
      by_contra free
      exact behind ⟨left, leftMem, (Bool.not_eq_true _).mp free⟩

theorem allGuarded_of_run_sample :
    ∃ trace state, ClientRun generousEnv .default true
        (fun state call => MallocAndFree state call ∧ KeepsGuards state call) trace state ∧
      state.heap.mmaps = [0x20000000] ∧ state.heap.AllGuarded ∧
      ∀ call result last, MallocAndFree state call →
        call.program generousEnv state = .ok result last →
          (last.heap.AllGuarded ↔ KeepsGuards state call) := by
  have found : (replay Call.program generousEnv
      (fun state call => MallocAndFree state call ∧ KeepsGuards state call) []
      (start .default true) [.malloc 10, .free 268451830, .malloc 5000]).map
        (fun final => final.2.heap.mmaps) = some [0x20000000] := by decide +kernel
  obtain ⟨final, replayed, same⟩ := Option.map_eq_some_iff.mp found
  have run := Run.start.replay replayed
  exact ⟨_, _, run, same, allGuarded_of_run generousEnv_mutexes generousEnv_mprotects run⟩

/-- After two requests and the release of the first one, its header is still in
the list and its guard is gone. -/
theorem not_allGuarded_of_run :
    ¬∀ env pages trace state, MutexCallsSucceed env → MprotectCallsSucceed env →
      ClientRun env pages true MallocAndFree trace state → state.heap.AllGuarded := by
  intro claim
  have found : (replay Call.program generousEnv MallocAndFree [] (start .default true)
      [.malloc 10, .malloc 10, .free 268451830]).map (fun final =>
        (final.2.heap.mmaps, (final.2.heap.blocks 0x10000000).head?,
          final.2.heap.protNone 0x10001000)) =
      some ([0x10000000], some ⟨0x10001000, 4096, false⟩, false) := by decide +kernel
  obtain ⟨final, replayed, same⟩ := Option.map_eq_some_iff.mp found
  simp only [Prod.mk.injEq] at same
  have run := Run.start.replay replayed
  have all := claim _ _ _ _ generousEnv_mutexes generousEnv_mprotects run 0x10000000
    (by rw [same.1]; simp) ⟨0x10001000, 4096, false⟩ (List.mem_of_mem_head? same.2.1)
  rw [same.2.2] at all
  exact absurd all.1 (by decide)

end VgcMalloc
