import VgcMalloc.Guarantees.Tiling

/-!
# Requests that are refused

`vgc_malloc` serves a request for which a listed MMAP has a free block, unless
the size reaches the limit of the first MMAP or the header to be split off lies
on a page that is still `PROT_NONE`.
-/

namespace VgcMalloc

open Program Tiling Linked

variable {env : Env} {pages : MmapPages} {guarded : Bool} {trace : List Finished} {state : State}
  {heap after middle : Heap} {abstract abstract' : AbstractHeap} {need : Nat}

/-! ## Blocks start at whole words -/

/-- The headers of all blocks lie at addresses aligned for pointers. -/
def WordAddressed (abstract : AbstractHeap) : Prop :=
  ∀ region ∈ abstract.regions, ∀ entry ∈ abstract.entries region.base, 8 ∣ entry.addr

/-- A size is aligned for pointers or, when blocks are guarded, granted in whole
pages. -/
theorem dvd_grantLength {shared : Shared} (mode : shared.isMprotectEnabled = guarded)
    (size : Nat) : 8 ∣ AbstractHeap.grantLength guarded (alignSize shared size) := by
  unfold AbstractHeap.grantLength alignSize
  rw [mode]
  cases guarded with
  | true =>
      simp only [if_true]
      omega
  | false =>
      simp only [Bool.false_eq_true, if_false]
      by_cases whole : size % pointerSize = 0
      · rw [if_pos whole]
        simp only [add64, wordRange_eq, pointerSize_eq] at whole ⊢
        omega
      · rw [if_neg whole]
        simp only [add64, wordRange_eq, pointerSize_eq] at whole ⊢
        omega

theorem WordAddressed.setEntries {base : Nat} {entries' : List Entry}
    (words : WordAddressed abstract) (aligned : ∀ entry ∈ entries', 8 ∣ entry.addr) :
    WordAddressed (abstract.setEntries base entries') := by
  intro region member entry entryMem
  by_cases same : region.base = base
  · rw [same, AbstractHeap.setEntries_entries] at entryMem
    exact aligned entry entryMem
  · rw [AbstractHeap.setEntries_entries_of_ne _ _ same] at entryMem
    exact words region member entry entryMem

theorem WordAddressed.extended (rep : Represents pages guarded heap abstract)
    (extended : Extended env pages guarded need abstract abstract' heap after)
    (words : WordAddressed abstract) : WordAddressed abstract' := by
  cases extended with
  | kept same =>
      subst same
      exact words
  | refused unfit refused same =>
      subst same
      exact words
  | created unfit region middle chosen same =>
      subst same
      obtain ⟨placed, _, apart⟩ := newRegion_placed chosen
      rw [rep.mapped] at apart
      have aligned := placed.aligned
      intro other otherMem entry entryMem
      rcases List.mem_cons.mp otherMem with rfl | old
      · rw [AbstractHeap.create_entries] at entryMem
        rw [List.mem_singleton.mp entryMem]
        simp only
        omega
      · rw [AbstractHeap.create_entries_of_ne _ (rep.wellFormed.base_ne placed apart old)]
          at entryMem
        exact words other old entry entryMem

theorem WordAddressed.malloc {length base : Nat} {entry : Entry}
    (wf : abstract.WellFormed pages.bytes guarded) (whole : 8 ∣ length)
    (found : abstract.malloc need length = some (base, entry, abstract'))
    (words : WordAddressed abstract) : WordAddressed abstract' := by
  obtain ⟨before, rest, front, back, listed, _, split, _, _, rfl⟩ :=
    AbstractHeap.malloc_eq_some_iff.mp found
  obtain ⟨region, member, rfl⟩ := wf.mapped base (by simp [listed])
  have here := words region member
  rw [split] at here
  apply words.setEntries
  intro x xMem
  rw [List.append_assoc, List.mem_append, List.mem_append] at xMem
  rcases xMem with inFront | inGranted | inBack
  · exact here x (by simp [inFront])
  · have start := here entry (by simp)
    unfold grantEntry at inGranted
    split at inGranted
    · simp only [List.mem_cons, List.not_mem_nil, or_false] at inGranted
      rcases inGranted with rfl | rfl
      · exact start
      · simp only
        omega
    · rw [List.mem_singleton.mp inGranted]
      exact start
  · exact here x (by simp [inBack])

theorem WordAddressed.free {region : Region} {entry : Entry}
    (wf : abstract.WellFormed pages.bytes guarded) (member : region ∈ abstract.regions)
    (entryMem : entry ∈ abstract.entries region.base) (words : WordAddressed abstract) :
    WordAddressed (abstract.free region.base entry.addr) := by
  apply words.setEntries
  intro x xMem
  obtain ⟨front, back, split⟩ := List.append_of_mem entryMem
  have tiles := wf.tiles region member
  rw [split] at tiles xMem
  obtain ⟨y, yMem, addrEq⟩ := exists_addr_eq_of_mem_release (by decide) tiles xMem
  rw [← addrEq]
  exact words region member y (split ▸ yMem)

/-- An MMAP that disappears takes blocks away only. -/
theorem WordAddressed.vanished {region : Region} (words : WordAddressed abstract)
    (vanished : Vanished env pages guarded abstract abstract' region heap after) :
    WordAddressed abstract' := by
  intro other otherMem
  rcases vanished.either with same | same
  · rw [same] at otherMem ⊢
    exact words other (List.mem_filter.mp otherMem).1
  · rw [same] at otherMem ⊢
    exact words other otherMem

theorem WordAddressed.abstraction (stands : Stands pages guarded heap abstract)
    (words : WordAddressed abstract) : WordAddressed heap.abstraction := by
  intro region member
  rw [abstraction_regions, stands.mapped] at member
  rw [abstraction_entries, stands.blocks_eq member]
  exact words region member

theorem WordAddressed.effect {call : Call} {result : Nat}
    (words : WordAddressed heap.abstraction)
    (effect : Effect env pages guarded heap call result after) :
    WordAddressed after.abstraction := by
  cases effect with
  | malloc rep outcome =>
      cases outcome with
      | poisoned empty refused null same =>
          subst same
          exact WordAddressed.abstraction (rep.toStands.asked.asked.setFirst mapFailed) words
      | refused abstract' extended null reason =>
          exact WordAddressed.abstraction (extended.represents rep).toStands
            (words.extended rep extended)
      | served extendedHeap abstract' middle region entry extended served positive small =>
          have extendedRep := extended.represents rep
          have afterRep := served.represents extendedRep (alignSize_pos rep.mode positive)
          exact WordAddressed.abstraction afterRep.toStands ((words.extended rep extended).malloc
            extendedRep.wellFormed (dvd_grantLength rep.mode _) served.found)
  | free rep member listed entryMem busy bound resolved outcome =>
      rw [← abstraction_entries] at entryMem
      have freedWords := words.free rep.wellFormed member entryMem
      cases outcome with
      | released others step =>
          exact WordAddressed.abstraction (rep.free member entryMem step).toStands freedWords
      | vanished _ middle abstract' step vanished =>
          exact WordAddressed.abstraction vanished.represents.toStands
            (freedWords.vanished vanished)
  | nothing => exact words

/-- In every state of a run the payloads are whole words. -/
theorem dvd_size_of_run (mutexes : MutexCallsSucceed env)
    (run : ClientRun env pages guarded MallocAndFree trace state) :
    ∀ region ∈ state.heap.mapped, ∀ entry ∈ state.heap.blocks region.base, 8 ∣ entry.size := by
  have none : WordAddressed (start pages guarded).heap.abstraction := by
    intro region member
    exact absurd member List.not_mem_nil
  obtain ⟨_, valid, words⟩ := run_invariant (fun heap => WordAddressed heap.abstraction) mutexes
    (fun _ _ allowed => allowed) none (fun _ _ _ _ _ words _ effect => words.effect effect) run
  intro region member entry entryMem
  have placed := valid.stands.wellFormed.placed region member
  have whole := placed.whole
  have aligned := placed.aligned
  exact (valid.stands.wellFormed.tiles region member).dvd_size (by decide)
    (by omega) (words region member) entryMem

/-! ## Requests the heap can hold -/

namespace Heap

/-- Some listed MMAP has a free block of at least `size` bytes. -/
def CanHold (heap : Heap) (size : Nat) : Prop :=
  ∃ base ∈ heap.mmaps, ∃ entry ∈ heap.blocks base, entry.busy = false ∧ size ≤ entry.size

/-- The first block of the listed MMAPs that fits. -/
def firstFit (heap : Heap) (need : Nat) : Option Entry :=
  heap.mmaps.findSome? fun base => Tiling.firstFit need (heap.blocks base)

/-- The bytes that `vgc_malloc` grants for a request. -/
def grantLength (heap : Heap) (size : Nat) : Nat :=
  AbstractHeap.grantLength heap.shared.isMprotectEnabled (alignSize heap.shared size)

/-- The size stays below the `maxSize` of the first MMAP, and the header that
the request splits off the first block that fits can be written. -/
structure Admits (heap : Heap) (size : Nat) : Prop where
  small : alignSize heap.shared size < (heap.mmapHeader heap.shared.mmapBlockFirst).maxSize
  restOpen : ∀ entry ∈ heap.firstFit (alignSize heap.shared size),
    heap.RestOpen (heap.grantLength size) entry

end Heap

/-- The first MMAP of a represented list in memory. -/
theorem Represents.maxSize_first {region : Region} (rep : Represents pages guarded heap abstract)
    (member : region ∈ abstract.regions) (first : region.base = abstract.listed.headD 0) :
    (heap.mmapHeader heap.shared.mmapBlockFirst).maxSize = region.length - 12288 := by
  rw [rep.first, ← first]
  exact (rep.regions region member).mmap.maxSize

/-- A free block of a run that holds the bytes holds them aligned. -/
theorem fits_of_canHold {size : Nat} (mutexes : MutexCallsSucceed env)
    (run : ClientRun env pages guarded MallocAndFree trace state)
    (holds : state.heap.CanHold size) (length : Nat) :
    state.heap.abstraction.malloc (alignSize state.heap.shared size) length ≠ none := by
  obtain ⟨base, listed, entry, entryMem, free, enough⟩ := holds
  have valid := (run_valid mutexes (fun _ _ allowed => allowed) run).2
  obtain ⟨region, member, rfl⟩ := valid.listed listed
  have words := dvd_size_of_run mutexes run region member entry entryMem
  have bounds := (valid.stands.wellFormed.tiles region member).bounds entryMem
  have user := (valid.stands.wellFormed.placed region member).user
  have aligned : alignSize state.heap.shared size ≤ entry.size := by
    unfold alignSize
    split
    · exact enough
    · by_cases whole : size % pointerSize = 0
      · rw [if_pos whole, add64_of_lt (by omega)]
        exact enough
      · rw [if_neg whole]
        simp only [pointerSize_eq] at whole ⊢
        rw [add64_of_lt (by omega)]
        omega
  intro unfit
  exact AbstractHeap.malloc_eq_none_iff.mp unfit region.base listed entry entryMem ⟨free, aligned⟩

/-- In every state of a run a request that some listed block can hold is served
exactly when its size stays below the limit of the first MMAP and its split
header can be written. -/
theorem served_iff_admits {size : Nat} (mutexes : MutexCallsSucceed env)
    (run : ClientRun env pages guarded MallocAndFree trace state) (positive : size ≠ 0)
    (holds : state.heap.CanHold size) :
    (∃ memory last, vgcMalloc size env state = .ok memory last ∧ memory ≠ 0) ↔
      state.heap.Admits size := by
  obtain ⟨unlocked, valid⟩ := run_valid mutexes (fun _ _ allowed => allowed) run
  have fits := fun length => fits_of_canHold mutexes run holds length
  obtain ⟨base, listed, _⟩ := holds
  have rep := valid.represents listed
  have length : state.heap.grantLength size =
      AbstractHeap.grantLength guarded (alignSize state.heap.shared size) := by
    rw [Heap.grantLength, rep.mode]
  constructor
  · rintro ⟨memory, last, ended, served⟩
    have lawful : MallocAndFree state (.malloc size) := trivial
    obtain ⟨_, effect⟩ := valid.effect mutexes unlocked lawful ended
    obtain ⟨_, outcome⟩ := effect.of_malloc served
    cases outcome with
    | poisoned empty refused null => exact absurd null served
    | refused abstract' extended null => exact absurd null served
    | served extendedHeap abstract' middle region entry extended granted _ small =>
        obtain ⟨rfl, rfl⟩ := extended.kept_of_fits (fits _)
        obtain ⟨first, firstMem, firstBase, below⟩ := small
        refine ⟨?_, ?_⟩
        · rw [rep.maxSize_first firstMem firstBase]
          exact below
        · intro chosen found
          have same : some chosen = some entry :=
            found.symm.trans (AbstractHeap.firstFit_of_malloc granted.found)
          rw [Option.some.inj same, length]
          exact granted.restOpen
  · rintro ⟨small, restOpen⟩
    have settled : SplitSettled (fun _ => False) guarded (alignSize state.heap.shared size)
        state.heap state.heap.abstraction state.heap.abstraction.listed := by
      intro entry found closed
      apply closed
      rw [← length]
      exact restOpen entry found
    have ends := (settles_vgcMalloc mutexes rep settled).yields (fun _ impossible => impossible)
    obtain ⟨memory, last, ended, _, outcome⟩ := ends state (by rw [seen, unlocked])
    refine ⟨memory, last, ended, ?_⟩
    cases outcome with
    | poisoned empty refused null =>
        rw [abstraction_listed] at empty
        rw [empty] at listed
        exact absurd listed List.not_mem_nil
    | refused abstract' extended null reason =>
        obtain ⟨rfl, _⟩ := extended.kept_of_fits (fits _)
        rcases reason with zero | ⟨first, firstMem, firstBase, big⟩ | unfit
        · exact absurd zero positive
        · rw [rep.maxSize_first firstMem firstBase] at small
          omega
        · exact absurd unfit (fits _)
    | served extendedHeap abstract' middle region entry extended granted _ _ =>
        exact granted.memory_ne

theorem served_iff_admits_sample :
    ∃ trace state, ClientRun generousEnv .default true MallocAndFree trace state ∧
      state.heap.CanHold 5000 ∧
      ((∃ memory last, vgcMalloc 5000 generousEnv state = .ok memory last ∧ memory ≠ 0) ↔
        state.heap.Admits 5000) := by
  have found : (replay Call.program generousEnv MallocAndFree [] (start .default true)
      [.malloc 10]).map (fun final => (final.2.heap.mmaps, final.2.heap.blocks 0x10000000)) =
        some ([0x10000000], [⟨0x10001000, 4096, true⟩, ⟨0x10004000, 32743424, false⟩]) := by
    decide +kernel
  obtain ⟨final, replayed, same⟩ := Option.map_eq_some_iff.mp found
  simp only [Prod.mk.injEq] at same
  have run := Run.start.replay replayed
  have holds : final.2.heap.CanHold 5000 := by
    refine ⟨0x10000000, by simp [same.1], ⟨0x10004000, 32743424, false⟩, by simp [same.2], rfl, ?_⟩
    decide
  exact ⟨_, _, run, holds, served_iff_admits generousEnv_mutexes run (by decide) holds⟩

/-- A request of size zero leaves an MMAP that is all free, and the request for
all of it is refused. -/
theorem not_served_of_canHold :
    ¬∀ env pages guarded trace state size, MutexCallsSucceed env →
      ClientRun env pages guarded MallocAndFree trace state → size ≠ 0 →
        state.heap.CanHold size →
          ∃ memory last, vgcMalloc size env state = .ok memory last ∧ memory ≠ 0 := by
  intro claim
  have found : (replay Call.program generousEnv MallocAndFree [] (start .default true)
      [.malloc 0]).map (fun final => (final.2.heap.mmaps, final.2.heap.blocks 0x10000000,
        (vgcMalloc 32755712 generousEnv final.2).normal.map Prod.fst)) =
        some ([0x10000000], [⟨0x10001000, 32755712, false⟩], some 0) := by decide +kernel
  obtain ⟨final, replayed, same⟩ := Option.map_eq_some_iff.mp found
  simp only [Prod.mk.injEq] at same
  obtain ⟨listed, blocks, refused⟩ := same
  have run := Run.start.replay replayed
  have holds : final.2.heap.CanHold 32755712 :=
    ⟨0x10000000, by simp [listed], ⟨0x10001000, 32755712, false⟩, by simp [blocks], rfl,
      Nat.le_refl _⟩
  obtain ⟨memory, last, ended, served⟩ :=
    claim _ _ _ _ _ 32755712 generousEnv_mutexes run (by decide) holds
  rw [ended] at refused
  exact served (Option.some.inj refused)

end VgcMalloc
