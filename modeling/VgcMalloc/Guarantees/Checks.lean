import VgcMalloc.Guarantees.Exhaustion
import VgcMalloc.Refine.Actions
import VgcMalloc.Refine.Requests

/-!
# What the checks find

`checkMmapBlock` stands between a damaged list and its next change, and
`isInMmapBlock` between a foreign pointer and the header in front of it.  Both
compare with the size of a full MMAP, and `checkMmapBlock` only reports sums
that do not agree.
-/

namespace VgcMalloc

open Program Tiling Linked

variable {env : Env} {pages : MmapPages} {guarded : Bool} {trace : List Finished}
  {state last : State} {heap : Heap} {region : Region} {str : String} {limit : Nat}

/-! ## Lists that are accepted -/

/-- The headers of an MMAP form a finite list that is linked both ways; every
header lies in the MMAP, no size exceeds `maxSize`, and headers and payloads
add up to the MMAP. -/
structure SoundList (heap : Heap) (region : Region) (nodes : List Nat) : Prop where
  first : firstMallocHeaderInMMAP region.base = nodes.headD 0
  links : Segment heap.nextBlock heap.prevBlock 0 nodes 0
  inside : ∀ block ∈ nodes, region.base ≤ block ∧
    block + mallocHeaderSize ≤ region.base + region.length
  sizes : ∀ block ∈ nodes,
    (heap.mallocHeader block).size ≤ (heap.mmapHeader region.base).maxSize
  total : mmapHeaderSize +
    (nodes.map fun block => (heap.mallocHeader block).size + mallocHeaderSize).sum =
      region.length

/-- The headers from the first one of an MMAP on are linked both ways down to
null and can be read, their sizes are at most `maxSize`, and none of them starts
before the MMAP or more than the global size behind its start. -/
structure PassesFrom (heap : Heap) (region : Region) (nodes : List Nat) : Prop where
  first : firstMallocHeaderInMMAP region.base = nodes.headD 0
  opened : heap.mmapAccessible region.base = true
  passes : heap.Passes region.base nodes

/-- A list that passes is the only one from its first header. -/
theorem PassesFrom.unique {nodes others : List Nat} (passes : PassesFrom heap region nodes)
    (placed : region.Placed limit) (sound : SoundList heap region others) : others = nodes := by
  obtain ⟨before, links⟩ := passes.passes.links
  have ends : 0 ∉ nodes := fun member => passes.passes.nonnull 0 member rfl
  have otherEnds : 0 ∉ others := by
    intro member
    have low := (sound.inside 0 member).1
    have positive := placed.positive
    omega
  exact sound.links.eq_of_head_eq links otherEnds ends (sound.first.symm.trans passes.first)

/-- The first MMAP of full size that a generous kernel maps. -/
def firstRegion : Region := ⟨0x10000000, 32768000⟩

/-- The scan of `allocMallocBlock`, for every length, and the loop of
`checkMmapBlock` take no more steps than there are headers to reach from the
first one, and one for the end of the list. -/
structure WalksEnd (env : Env) (state : State) (mmapBlock : Nat) : Prop where
  scan : ∀ length < 2 ^ 64, findFreeBlock length ((state.heap.reached mmapBlock).ncard + 1)
    (firstMallocHeaderInMMAP mmapBlock) env state ≠ .diverge
  check : ∀ str, checkBlocks str mmapBlock ((state.heap.reached mmapBlock).ncard + 1)
    (firstMallocHeaderInMMAP mmapBlock) .zero env state ≠ .diverge

/-- A free block that is large enough for every length is among the headers
that the scan reaches. -/
def HoldsAll (heap : Heap) (mmapBlock : Nat) : Prop :=
  ∃ block ∈ heap.reached mmapBlock, heap.Fits (2 ^ 64 - 1) block

/-- The scan ends in time for every length exactly when it meets no cycle, or a
block in it that it always takes. -/
theorem scan_ends_iff {mmapBlock : Nat} :
    (∀ length < 2 ^ 64, findFreeBlock length ((state.heap.reached mmapBlock).ncard + 1)
        (firstMallocHeaderInMMAP mmapBlock) env state ≠ .diverge) ↔
      (state.heap.ScanCyclic mmapBlock → HoldsAll state.heap mmapBlock) := by
  have finite := state.heap.reached_finite mmapBlock
  constructor
  · intro ends cyclic
    by_contra none
    refine ends (2 ^ 64 - 1) (by decide) (findFreeBlock_eq_diverge_iff.mpr fun count _ => ?_)
    refine ⟨cyclic.not_stop count, fun fits => none ⟨_, ⟨count, rfl, ?_⟩, fits⟩⟩
    exact fun earlier _ => cyclic.not_stop earlier
  · intro holds length bound diverges
    have endless := findFreeBlock_eq_diverge_iff.mp diverges
    by_cases cyclic : state.heap.ScanCyclic mmapBlock
    · obtain ⟨block, member, fits⟩ := holds cyclic
      obtain ⟨count, early, rfl⟩ := exists_lt_ncard finite member
      have enough : length ≤ 2 ^ 64 - 1 := by omega
      exact (endless count (Nat.lt_succ_of_lt early)).2 ⟨fits.1, enough.trans fits.2⟩
    · exact (endless _ (Nat.lt_succ_self _)).1 ((not_returns_iff finite).mp cyclic)

/-- For any contents of the headers of an MMAP, both walks end in time exactly
when the links from the first header form no cycle, neither one that both of
them can read nor one that the scan alone can. -/
theorem walksEnd_iff {mmapBlock : Nat} (nonnull : mmapBlock ≠ 0)
    (opened : state.heap.mmapAccessible mmapBlock = true) :
    WalksEnd env state mmapBlock ↔ ¬state.heap.Cyclic mmapBlock ∧
      (state.heap.ScanCyclic mmapBlock → HoldsAll state.heap mmapBlock) := by
  constructor
  · intro walks
    refine ⟨fun cyclic => ?_, scan_ends_iff.mp walks.scan⟩
    exact walks.check "" (checkBlocks_eq_diverge nonnull opened cyclic cyclic.not_stop)
  · rintro ⟨straight, scanned⟩
    refine ⟨scan_ends_iff.mpr scanned, fun str => ?_⟩
    have null : state.heap.EndsAt 0 := Or.inl rfl
    have stops := (not_returns_iff (state.heap.passed_finite null mmapBlock)).mp straight
    have bound := state.heap.ncard_passed_le_reached mmapBlock
    exact checkBlocks_ne_diverge nonnull straight (Nat.lt_succ_of_le bound) stops

/-- In every cycle but a ring through the first header, some header is not
linked back. -/
theorem ring_or_not_linked_back {mmapBlock : Nat} (cyclic : heap.Cyclic mmapBlock) :
    (∃ count, 0 < count ∧ heap.nextBlock^[count] (firstMallocHeaderInMMAP mmapBlock) =
        firstMallocHeaderInMMAP mmapBlock) ∨
      ∃ block ∈ heap.reached mmapBlock, heap.prevBlock (heap.nextBlock block) ≠ block := by
  by_cases back : ∀ block ∈ heap.reached mmapBlock, heap.prevBlock (heap.nextBlock block) = block
  · refine Or.inl (cyclic.ring fun block member => back block ?_)
    exact heap.passed_subset_reached mmapBlock member
  · right
    push Not at back
    exact back

theorem walksEnd_iff_sample :
    ∃ trace state, ClientRun generousEnv .default true MallocAndFree trace state ∧
      state.heap.mmapAccessible 0x10000000 = true ∧
      (WalksEnd generousEnv state 0x10000000 ↔ ¬state.heap.Cyclic 0x10000000 ∧
        (state.heap.ScanCyclic 0x10000000 → HoldsAll state.heap 0x10000000)) := by
  have found : (replay Call.program generousEnv MallocAndFree [] (start .default true)
      [.malloc 10]).map (fun final => final.2.heap.mmapAccessible 0x10000000) = some true := by
    decide +kernel
  obtain ⟨final, replayed, opened⟩ := Option.map_eq_some_iff.mp found
  exact ⟨_, _, Run.start.replay replayed, opened, walksEnd_iff (by decide) opened⟩

/-- A first header that is linked to itself both ways keeps the check busy for
ever. -/
theorem not_walksEnd :
    ¬∀ env state mmapBlock, mmapBlock ≠ 0 → state.heap.mmapAccessible mmapBlock = true →
      WalksEnd env state mmapBlock := by
  intro claim
  have known : ((replay Call.program generousEnv MallocAndFree [] (start .default true)
      [.malloc 10]).map fun final => { final.2 with
        heap := final.2.heap.setMallocFields 0x10001000 [(.next, 0x10001000), (.prev, 0x10001000)]
      }).map
      (fun state => (firstMallocHeaderInMMAP 0x10000000, state.heap.nextBlock 0x10001000,
        state.heap.linksAccessible 0x10001000, state.heap.mmapAccessible 0x10000000)) =
        some (0x10001000, 0x10001000, true, true) := by decide +kernel
  obtain ⟨state, _, same⟩ := Option.map_eq_some_iff.mp known
  simp only [Prod.mk.injEq] at same
  obtain ⟨first, self, readable, opened⟩ := same
  have stays : ∀ count, state.heap.nextBlock^[count] 0x10001000 = 0x10001000 := by
    intro count
    exact Function.iterate_fixed self count
  have endless : ∀ count, ¬state.heap.EndsAt (state.heap.nextBlock^[count] 0x10001000) := by
    intro count
    rw [stays count, Heap.not_endsAt_iff]
    exact ⟨by decide, readable⟩
  have cyclic : state.heap.Cyclic 0x10000000 := by
    unfold Heap.Cyclic
    rw [first]
    exact ⟨0, 1, Nat.zero_lt_one, by rw [stays, stays], fun count _ => endless count⟩
  have walks := claim generousEnv state 0x10000000 (by decide) opened
  refine walks.check "" (checkBlocks_eq_diverge (by decide) opened cyclic ?_)
  rw [first]
  exact endless

/-! ## Alarms -/

/-- `checkMmapBlock` returns true and reports nothing. -/
def NoFalseAlarm (env : Env) (state : State) (mmapBlock : Nat) : Prop :=
  ∀ str, ∃ last, checkMmapBlock str mmapBlock env state = .ok true last ∧
    last.messages = state.messages

/-- The sums over the blocks of an MMAP agree with the global size exactly when
it is the size of the MMAP. -/
theorem Stands.agree_iff {abstract : AbstractHeap} (stands : Stands pages guarded heap abstract)
    (member : region ∈ abstract.regions) :
    (heap.totals .zero ((abstract.entries region.base).map Entry.addr)).Agree heap.shared ↔
      region.length = pages.bytes := by
  have placed := stands.wellFormed.placed region member
  have user := placed.user
  have small := placed.small
  have limit := pages.bytes_bounds
  have tiles := stands.wellFormed.tiles region member
  have total := tiles.total
  have sizes : (((abstract.entries region.base).map Entry.addr).map fun block =>
      (heap.mallocHeader block).size) = (abstract.entries region.base).map Entry.size := by
    rw [List.map_map]
    refine List.map_congr_left fun entry entryMem => ?_
    exact ((stands.regions region member).blocks.headers entry entryMem).size
  have split : ((abstract.entries region.base).map fun entry => entry.size + 8192).sum =
      ((abstract.entries region.base).map Entry.size).sum +
        8192 * (abstract.entries region.base).length := by
    rw [List.sum_map_add, List.map_const', List.sum_replicate_nat, Nat.mul_comm]
  rw [split] at total
  obtain ⟨payloads, headers⟩ := @Heap.totals_zero heap
    ((abstract.entries region.base).map Entry.addr) (by rw [sizes]; omega)
    (by rw [List.length_map]; omega)
  rw [sizes] at payloads
  rw [List.length_map] at headers
  have room : sub64 pages.bytes 4096 = pages.bytes - 4096 := sub64_of_le (by omega) (by omega)
  unfold Totals.Agree
  rw [headers, stands.blockSize, add64_of_lt (by omega), payloads, mmapHeaderSize_eq, room,
    sub64_of_le (by omega) (by omega)]
  omega

/-- The number of recorded messages. -/
def State.messageCount (state : State) : Nat := state.messages.length

theorem grows_emit (message : Message) : Grows State.messageCount (emit message) := by
  intro env state value final ended
  cases ended
  exact Nat.le_succ _

theorem grows_dumpBlocks (fuel index block : Nat) (totals : Totals) :
    Grows State.messageCount (dumpBlocks fuel index block totals) := by
  induction fuel generalizing index block totals with
  | zero =>
      intro env state value final ended
      cases ended
  | succ fuel ih =>
      rw [dumpBlocks]
      apply Grows.ite
      · exact (Keeps.pure totals).grows
      · apply (keeps_readMallocFields _ block).grows.bind
        intro header
        apply (grows_emit _).bind
        intro _
        apply ih

theorem grows_dumpMmapBlock (str desc : String) (mmapBlock : Nat) :
    Grows State.messageCount (dumpMmapBlock str mmapBlock desc) := by
  rw [dumpMmapBlock]
  apply Grows.ite
  · exact (Keeps.pure ()).grows
  · apply (grows_emit _).bind
    intro _
    apply (grows_emit _).bind
    intro _
    apply (grows_dumpBlocks _ _ _ _).bind
    intro totals
    apply keeps_getShared.grows.bind
    intro shared
    apply (grows_emit _).bind
    intro _
    apply (grows_emit _).bind
    intro _
    apply (grows_emit _).bind
    intro _
    apply (grows_emit _).bind
    intro _
    apply grows_emit

/-- In every state of a run the check of a listed MMAP raises no false alarm
exactly when the MMAP has the full size. -/
theorem noFalseAlarm_iff {base : Nat} (mutexes : MutexCallsSucceed env)
    (run : ClientRun env pages guarded Tame trace state) (listed : base ∈ state.heap.mmaps) :
    NoFalseAlarm env state base ↔
      (state.heap.mmapHeader base).size = state.heap.shared.mmapBlockSize := by
  obtain ⟨_, valid⟩ := tame_valid mutexes run
  obtain ⟨region, member, rfl⟩ := valid.listed listed
  have stands := valid.stands
  have walk := (stands.site member).walkable
  have passes := walk.readable.passes stands.blockSize
  have agree := stands.agree_iff member
  rw [((stands.regions region member).mmap).size, stands.blockSize, ← agree]
  have check := fun str => @checkMmapBlock_of_passes env state str region.base _ passes
    walk.accessible walk.first
  constructor
  · intro silent
    by_contra differ
    obtain ⟨last, ended, same⟩ := silent ""
    rw [(check "").2 differ, vgcMessage_bind] at ended
    obtain ⟨_, middle, dumped, done⟩ := bind_eq_ok_iff.mp ended
    cases done
    have grown := grows_dumpMmapBlock _ _ _ _ _ _ _ dumped
    simp only [State.messageCount, List.length_cons, same] at grown
    omega
  · intro fine str
    exact ⟨state, (check str).1 fine, rfl⟩

theorem noFalseAlarm_iff_sample :
    ∃ trace state, ClientRun generousEnv .default true Tame trace state ∧
      0x10000000 ∈ state.heap.mmaps ∧
      (NoFalseAlarm generousEnv state 0x10000000 ↔
        (state.heap.mmapHeader 0x10000000).size = state.heap.shared.mmapBlockSize) := by
  have found : (replay Call.program generousEnv Tame [] (start .default true)
      [.malloc 10]).map (fun final => final.2.heap.mmaps) = some [0x10000000] := by decide +kernel
  obtain ⟨final, replayed, listed⟩ := Option.map_eq_some_iff.mp found
  have run := Run.start.replay replayed
  have member : 0x10000000 ∈ final.2.heap.mmaps := by
    rw [listed]
    exact List.mem_singleton_self _
  exact ⟨_, _, run, member, noFalseAlarm_iff generousEnv_mutexes run member⟩

/-- A kernel without room for an MMAP of full size. -/
def tightEnv : Env :=
  { generousEnv with mmap := fun call => if call = 0 then none else some (0x10000000 * call) }

theorem tightEnv_mutexes : MutexCallsSucceed tightEnv :=
  ⟨fun _ => rfl, fun _ => rfl, fun _ => rfl, fun _ => rfl, fun _ => rfl, fun _ => rfl⟩

/-- The check of an MMAP of one tenth of the size finds it inconsistent. -/
theorem not_noFalseAlarm :
    ¬∀ env pages guarded trace state base, MutexCallsSucceed env →
      ClientRun env pages guarded MallocAndFree trace state → base ∈ state.heap.mmaps →
        NoFalseAlarm env state base := by
  intro claim
  have found : (replay Call.program tightEnv MallocAndFree [] (start .default true)
      [.malloc 10]).map (fun final => (final.2.heap.mmaps, final.2.messages.length,
        (checkMmapBlock "" 0x10000000 tightEnv final.2).normal.map
          fun final => final.2.messages.length)) = some ([0x10000000], 13, some 23) := by
    decide +kernel
  obtain ⟨final, replayed, same⟩ := Option.map_eq_some_iff.mp found
  simp only [Prod.mk.injEq] at same
  obtain ⟨listed, before, after⟩ := same
  have member : 0x10000000 ∈ final.2.heap.mmaps := by
    rw [listed]
    exact List.mem_singleton_self _
  obtain ⟨last, ended, silent⟩ := claim _ _ _ _ _ _ tightEnv_mutexes
    (Run.start.replay replayed) member ""
  rw [ended] at after
  have count : last.messages.length = 23 := Option.some.inj after
  rw [silent, before] at count
  exact absurd count (by decide)

/-! ## Pointers that are accepted -/

/-- The pointer lies strictly inside of a listed MMAP. -/
def Heap.Inside (heap : Heap) (ptr : Nat) : Prop :=
  ∃ base ∈ heap.mmaps, base < ptr ∧ ptr < base + (heap.mmapHeader base).size

/-- The pointer lies behind a listed MMAP, no farther from its start than the
size of a full one. -/
def Heap.Behind (heap : Heap) (ptr : Nat) : Prop :=
  ∃ base ∈ heap.mmaps, base + (heap.mmapHeader base).size ≤ ptr ∧
    ptr < base + heap.shared.mmapBlockSize

/-- `isInMmapBlock` tells the addresses of the heap from all others. -/
def RecognisesHeap (env : Env) (state : State) (ptr : Nat) : Prop :=
  ∃ value last, isInMmapBlock ptr env state = .ok value last ∧
    (value = true ↔ state.heap.Inside ptr)

/-- In every state of a run, `isInMmapBlock` tells whether a pointer lies in
the heap exactly when the first MMAP could be created and the pointer does not
lie behind a smaller MMAP, or in another one. -/
theorem recognisesHeap_iff {ptr : Nat} (mutexes : MutexCallsSucceed env)
    (run : ClientRun env pages guarded Tame trace state) :
    RecognisesHeap env state ptr ↔ state.heap.shared.mmapBlockFirst ≠ mapFailed ∧
      (state.heap.Behind ptr → state.heap.Inside ptr) := by
  obtain ⟨_, valid⟩ := tame_valid mutexes run
  cases valid with
  | dead stands failed =>
      constructor
      · rintro ⟨value, last, ended, _⟩
        exact (stands.faults_isInMmapBlock failed state rfl value last ended).elim
      · rintro ⟨alive, _⟩
        exact absurd failed alive
  | live rep =>
      have alive := rep.first_ne_mapFailed
      have small : ∀ base ∈ state.heap.mmaps,
          (state.heap.mmapHeader base).size ≤ state.heap.shared.mmapBlockSize := by
        intro base listed
        obtain ⟨region, member, rfl⟩ := rep.listed listed
        rw [(rep.regions region member).mmap.size, rep.blockSize]
        exact (rep.wellFormed.placed region member).small
      have range : (∃ base ∈ state.heap.mmaps, state.heap.InRange ptr base) ↔
          state.heap.Inside ptr ∨ state.heap.Behind ptr := by
        constructor
        · rintro ⟨base, listed, low, high⟩
          by_cases inside : ptr < base + (state.heap.mmapHeader base).size
          · exact Or.inl ⟨base, listed, low, inside⟩
          · exact Or.inr ⟨base, listed, Nat.le_of_not_lt inside, high⟩
        · rintro (⟨base, listed, low, high⟩ | ⟨base, listed, low, high⟩)
          · have fits := small base listed
            exact ⟨base, listed, low, by omega⟩
          · refine ⟨base, listed, ?_, high⟩
            obtain ⟨region, member, rfl⟩ := rep.listed listed
            rw [(rep.regions region member).mmap.size] at low
            have room := (rep.wellFormed.placed region member).room
            omega
      obtain ⟨value, last, ended, _, hit⟩ :=
        (yields_isInMmapBlock rep : Yields seen (isInMmapBlock ptr) env _ _) state rfl
      rw [abstraction_listed, range] at hit
      constructor
      · rintro ⟨_, _, again, exact⟩
        rw [ended] at again
        cases again
        exact ⟨alive, fun behind => exact.mp (hit.mpr (Or.inr behind))⟩
      · rintro ⟨_, covered⟩
        refine ⟨value, last, ended, hit.trans ⟨?_, Or.inl⟩⟩
        rintro (inside | behind)
        · exact inside
        · exact covered behind

theorem recognisesHeap_iff_sample :
    ∃ trace state, ClientRun tightEnv .default true Tame trace state ∧
      state.heap.mmaps = [0x10000000] ∧
      (RecognisesHeap tightEnv state 0x10000008 ↔
        state.heap.shared.mmapBlockFirst ≠ mapFailed ∧
          (state.heap.Behind 0x10000008 → state.heap.Inside 0x10000008)) := by
  have found : (replay Call.program tightEnv Tame [] (start .default true)
      [.malloc 10]).map (fun final => final.2.heap.mmaps) = some [0x10000000] := by decide +kernel
  obtain ⟨final, replayed, listed⟩ := Option.map_eq_some_iff.mp found
  have run := Run.start.replay replayed
  exact ⟨_, _, run, listed, recognisesHeap_iff tightEnv_mutexes run⟩

/-- An address behind the only MMAP, which has one tenth of the size, is taken
for one of the heap. -/
theorem not_recognisesHeap :
    ¬∀ env pages guarded trace state ptr, MutexCallsSucceed env →
      ClientRun env pages guarded MallocAndFree trace state → RecognisesHeap env state ptr := by
  intro claim
  have found : (replay Call.program tightEnv MallocAndFree [] (start .default true)
      [.malloc 10]).map (fun final => (final.2.heap.mmaps,
        (final.2.heap.mmapHeader 0x10000000).size,
        (isInMmapBlock 0x10320005 tightEnv final.2).normal.map Prod.fst)) =
          some ([0x10000000], 3276800, some true) := by decide +kernel
  obtain ⟨final, replayed, same⟩ := Option.map_eq_some_iff.mp found
  simp only [Prod.mk.injEq] at same
  obtain ⟨listed, size, accepted⟩ := same
  obtain ⟨value, last, ended, exact⟩ :=
    claim _ _ _ _ _ 0x10320005 tightEnv_mutexes (Run.start.replay replayed)
  rw [ended] at accepted
  obtain ⟨base, member, low, high⟩ := exact.mp (Option.some.inj accepted)
  rw [listed, List.mem_singleton] at member
  rw [member, size] at high
  exact absurd high (by decide)

end VgcMalloc
