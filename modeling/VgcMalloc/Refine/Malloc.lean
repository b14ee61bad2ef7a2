import VgcMalloc.Refine.Alloc
import VgcMalloc.Refine.Create

/-!
# `vgc_malloc`

The call on a represented heap: it may create an MMAP, and then it either
refuses the request or grants the first block that fits.
-/

namespace VgcMalloc

open Program Tiling Linked

variable {env : Env} {heap after middle : Heap} {held : List Mutex} {pages : MmapPages}
  {guarded : Bool} {abstract : AbstractHeap} {need : Nat} {stuck : Nat → Prop}

/-! ## The loop over the MMAPs -/

/-- A request granted from the first MMAP of a list that has a block for it. -/
structure Found (env : Env) (guarded : Bool) (need : Nat) (abstract : AbstractHeap)
    (bases : List Nat) (heap after : Heap) (memory : Nat) (region : Region) (entry : Entry)
    (before rest : List Nat) (front back : List Entry) : Prop where
  member : region ∈ abstract.regions
  listSplit : bases = before ++ region.base :: rest
  none : ∀ other ∈ before, ∀ x ∈ abstract.entries other, ¬Fits need x
  split : abstract.entries region.base = front ++ entry :: back
  skipped : ∀ x ∈ front, ¬Fits need x
  fits : Fits need entry
  pointer : memory = AbstractHeap.pointerOf guarded entry.addr need
  restOpen : heap.RestOpen (AbstractHeap.grantLength guarded need) entry
  step : RegionStep env region (abstract.entries region.base)
    (front ++ grantEntry 8192 (AbstractHeap.grantLength guarded need) entry ++ back)
    (fun _ => False) heap after

/-- The header that a request splits off the block chosen from the regions at
`bases` can be written, or its address is `stuck`. -/
def SplitSettled (stuck : Nat → Prop) (guarded : Bool) (need : Nat) (heap : Heap)
    (abstract : AbstractHeap) (bases : List Nat) : Prop :=
  ∀ entry, abstract.firstFit need bases = some entry →
    ¬heap.RestOpen (AbstractHeap.grantLength guarded need) entry →
      stuck (entry.addr + 8192 + AbstractHeap.grantLength guarded need)

theorem settles_mallocInList {before : Nat} {bases : List Nat} {last fuel : Nat}
    (mutexes : MutexCallsSucceed env) (stands : Stands pages guarded heap abstract)
    (links : Segment heap.nextMmap heap.prevMmap before bases 0)
    (listed : ∀ base ∈ bases, base ∈ abstract.listed)
    (unheld : ∀ base, Mutex.mmapBlock base ∉ held) (bound : need < 2 ^ 62)
    (blocked : SplitSettled stuck guarded need heap abstract bases)
    (enough : bases.length < fuel) :
    Settles seen stuck (mallocInList need fuel (bases.headD 0) last) env (heap, held)
      fun value final => final.2 = held ∧
        ((∀ base ∈ bases, ∀ x ∈ abstract.entries base, ¬Fits need x) ∧
            value = (0, bases.getLastD last) ∧ final.1 = heap ∨
          value.1 ≠ 0 ∧ ∃ region entry previous rest front back,
            Found env guarded need abstract bases heap final.1 value.1 region entry previous
              rest front back) := by
  induction bases generalizing before last fuel with
  | nil =>
      cases fuel with
      | zero => simp at enough
      | succ fuel => exact Settles.pure ⟨rfl, Or.inl ⟨by simp, rfl, rfl⟩⟩
  | cons base rest ih =>
      cases fuel with
      | zero => simp at enough
      | succ fuel =>
          have baseListed := listed base List.mem_cons_self
          obtain ⟨region, member, rfl⟩ := stands.listed baseListed
          have next : (heap.mmapHeader region.base).next = rest.headD 0 := links.2.1
          have positive := (stands.wellFormed.placed region member).positive
          have site := stands.site member
          rw [List.headD_cons, mallocInList, if_neg (by omega)]
          refine Settles.seq (settles_allocMallocBlock mutexes site stands.mode (unheld _) bound
            fun x found => blocked x (by rw [AbstractHeap.firstFit_cons, found]; rfl)) ?_
          rintro memory ⟨middle, middleHeld⟩ ⟨rfl, outcome⟩
          cases outcome with
          | refused unfit null same =>
              subst null
              rw [if_neg (not_not_intro rfl)]
              simp only at same
              subst same
              refine Settles.seq (yields_readMmapHeader site.rep.mmap.accessible).settles ?_
              rintro _ _ ⟨rfl, rfl⟩
              rw [next]
              have skipped := firstFit_eq_none_iff.mpr unfit
              refine (ih links.2.2 (fun x inRest => listed x (List.mem_cons_of_mem _ inRest))
                (fun x found =>
                  blocked x (by rw [AbstractHeap.firstFit_cons, skipped]; exact found))
                (Nat.lt_of_succ_lt_succ enough)).mono ?_
              rintro value final ⟨same, none | ⟨there, found⟩⟩
              · refine ⟨same, Or.inl ⟨List.forall_mem_cons.mpr ⟨unfit, none.1⟩, ?_, none.2.2⟩⟩
                rw [List.getLastD_cons]
                exact none.2.1
              · obtain ⟨other, entry, previous, tail, front, back, found⟩ := found
                refine ⟨same, Or.inr ⟨there, other, entry, region.base :: previous, tail, front,
                  back, ?_⟩⟩
                exact ⟨found.member, by rw [found.listSplit]; rfl,
                  List.forall_mem_cons.mpr ⟨unfit, found.none⟩, found.split, found.skipped,
                  found.fits, found.pointer, found.restOpen, found.step⟩
          | granted front back entry split skipped fits pointer restOpen step =>
              have there : memory ≠ 0 := by
                rw [pointer, AbstractHeap.pointerOf]
                omega
              rw [if_pos there]
              exact Settles.pure ⟨rfl, Or.inr ⟨there, region, entry, [], rest, front, back,
                member, rfl, by simp, split, skipped, fits, pointer, restOpen, step⟩⟩

/-! ## Outcomes -/

/-- The heap with another first MMAP. -/
def Heap.setFirst (heap : Heap) (first : Nat) : Heap :=
  { heap with shared := { heap.shared with mmapBlockFirst := first } }

/-- A request granted by first fit over the whole list. -/
structure Served (env : Env) (guarded : Bool) (need : Nat) (abstract abstract' : AbstractHeap)
    (heap after : Heap) (memory : Nat) (region : Region) (entry : Entry) : Prop where
  member : region ∈ abstract.regions
  found : abstract.malloc need (AbstractHeap.grantLength guarded need) =
    some (region.base, entry, abstract')
  pointer : memory = AbstractHeap.pointerOf guarded entry.addr need
  restOpen : heap.RestOpen (AbstractHeap.grantLength guarded need) entry
  step : RegionStep env region (abstract.entries region.base) (abstract'.entries region.base)
    (fun _ => False) heap after

/-- An MMAP may be created, but only when no listed block fits. -/
inductive Extended (env : Env) (pages : MmapPages) (guarded : Bool) (need : Nat)
    (abstract abstract' : AbstractHeap) (heap after : Heap) : Prop where
  | kept (same : abstract' = abstract) (heapSame : after = heap)
  | refused (unfit : abstract.malloc need (AbstractHeap.grantLength guarded need) = none)
      (refused : heap.newRegion env pages = none) (same : abstract' = abstract)
      (heapSame : after = heap.asked.asked)
  | created (unfit : abstract.malloc need (AbstractHeap.grantLength guarded need) = none)
      (region : Region) (middle : Heap) (chosen : heap.newRegion env pages = some region)
      (same : abstract' = abstract.create region)
      (created : Created env region abstract.lastListed heap middle)
      (heapSame : after = middle.setFirst (abstract'.listed.headD 0))

/-- The result of the search through the MMAPs. -/
inductive ListOutcome (env : Env) (pages : MmapPages) (guarded : Bool) (need : Nat)
    (abstract : AbstractHeap) (heap after : Heap) (memory : Nat) : Prop where
  | refused (abstract' : AbstractHeap) (extended : Extended env pages guarded need abstract
      abstract' heap after) (null : memory = 0)
      (unfit : abstract'.malloc need (AbstractHeap.grantLength guarded need) = none)
  | served (extendedHeap abstract' : AbstractHeap) (middle : Heap) (region : Region)
      (entry : Entry) (extended : Extended env pages guarded need abstract extendedHeap heap
        middle)
      (served : Served env guarded need extendedHeap abstract' middle after memory region entry)

/-- The result of `vgc_malloc`. -/
inductive MallocOutcome (env : Env) (pages : MmapPages) (guarded : Bool) (size : Nat)
    (abstract : AbstractHeap) (heap after : Heap) (memory : Nat) : Prop where
  | poisoned (empty : abstract.listed = []) (refused : heap.newRegion env pages = none)
      (null : memory = 0) (heapSame : after = heap.asked.asked.setFirst mapFailed)
  | refused (abstract' : AbstractHeap)
      (extended : Extended env pages guarded (alignSize heap.shared size) abstract abstract' heap
        after)
      (null : memory = 0)
      (reason : size = 0 ∨
        (∃ region ∈ abstract'.regions, region.base = abstract'.listed.headD 0 ∧
          region.length - 12288 ≤ alignSize heap.shared size) ∨
        abstract'.malloc (alignSize heap.shared size)
          (AbstractHeap.grantLength guarded (alignSize heap.shared size)) = none)
  | served (extendedHeap abstract' : AbstractHeap) (middle : Heap) (region : Region)
      (entry : Entry)
      (extended : Extended env pages guarded (alignSize heap.shared size) abstract extendedHeap
        heap middle)
      (served : Served env guarded (alignSize heap.shared size) extendedHeap abstract' middle
        after memory region entry)
      (positive : size ≠ 0)
      (small : ∃ first ∈ extendedHeap.regions, first.base = extendedHeap.listed.headD 0 ∧
        alignSize heap.shared size < first.length - 12288)

theorem Found.served {memory : Nat} {region : Region} {entry : Entry} {before rest : List Nat}
    {front back : List Entry}
    (found : Found env guarded need abstract abstract.listed heap after memory region entry before
      rest front back) :
    Served env guarded need abstract
      (abstract.setEntries region.base
        (front ++ grantEntry 8192 (AbstractHeap.grantLength guarded need) entry ++ back))
      heap after memory region entry where
  member := found.member
  found := AbstractHeap.malloc_eq_some_iff.mpr ⟨before, rest, front, back, found.listSplit,
    found.none, found.split, found.skipped, found.fits, rfl⟩
  pointer := found.pointer
  restOpen := found.restOpen
  step := by
    rw [AbstractHeap.setEntries_entries]
    exact found.step

theorem Served.memory_ne {abstract' : AbstractHeap} {memory : Nat} {region : Region}
    {entry : Entry}
    (served : Served env guarded need abstract abstract' heap after memory region entry) :
    memory ≠ 0 := by
  rw [served.pointer, AbstractHeap.pointerOf]
  omega

/-- A grant keeps the representation. -/
theorem Served.represents {abstract' : AbstractHeap} {memory : Nat} {region : Region}
    {entry : Entry} (rep : Represents pages guarded heap abstract)
    (positive : guarded = true → 0 < need)
    (served : Served env guarded need abstract abstract' heap after memory region entry) :
    Represents pages guarded after abstract' := by
  have wellFormed := rep.wellFormed.malloc positive served.found
  obtain ⟨_, _, front, back, _, _, _, _, _, rfl⟩ :=
    AbstractHeap.malloc_eq_some_iff.mp served.found
  have step := served.step
  rw [AbstractHeap.setEntries_entries] at step
  exact rep.edit served.member wellFormed step

theorem Stands.setFirst (stands : Stands pages guarded heap abstract) (first : Nat) :
    Stands pages guarded (heap.setFirst first) abstract :=
  ⟨stands.wellFormed, stands.mapped, fun region member =>
    (stands.regions region member).of_headers rfl (fun _ _ => rfl) fun _ accessible => accessible,
    stands.links, stands.pageSize, stands.blockSize, stands.mode⟩

/-- A created MMAP is listed behind the others. -/
theorem Represents.create {region : Region} (rep : Represents pages guarded heap abstract)
    (chosen : heap.newRegion env pages = some region)
    (created : Created env region abstract.lastListed heap middle) :
    Represents pages guarded (middle.setFirst ((abstract.create region).listed.headD 0))
      (abstract.create region) := by
  obtain ⟨placed, _, apart⟩ := newRegion_placed chosen
  rw [rep.mapped] at apart
  exact ⟨(rep.toStands.create placed apart created).setFirst _, rfl⟩

/-- Creating an MMAP keeps the representation. -/
theorem Extended.represents {abstract' : AbstractHeap}
    (rep : Represents pages guarded heap abstract)
    (extended : Extended env pages guarded need abstract abstract' heap after) :
    Represents pages guarded after abstract' := by
  cases extended with
  | kept same heapSame =>
      subst same heapSame
      exact rep
  | refused unfit refused same heapSame =>
      subst same heapSame
      exact ⟨rep.toStands.asked.asked, rep.first⟩
  | created unfit region middle chosen same created heapSame =>
      subst same heapSame
      exact rep.create chosen created

/-- The head of a list that is not empty stays when an MMAP is created. -/
theorem AbstractHeap.create_headD {region : Region} (nonempty : abstract.listed ≠ []) :
    (abstract.create region).listed.headD 0 = abstract.listed.headD 0 := by
  unfold AbstractHeap.create
  cases shape : abstract.listed with
  | nil => exact absurd shape nonempty
  | cons base rest => rfl

/-- The first MMAP of a list that is not empty stays when an MMAP is
created. -/
theorem Extended.first {abstract' : AbstractHeap} {first : Region}
    (extended : Extended env pages guarded need abstract abstract' heap after)
    (nonempty : abstract.listed ≠ []) (member : first ∈ abstract.regions)
    (firstBase : first.base = abstract.listed.headD 0) :
    first ∈ abstract'.regions ∧ first.base = abstract'.listed.headD 0 := by
  cases extended with
  | kept same =>
      subst same
      exact ⟨member, firstBase⟩
  | refused unfit refused same =>
      subst same
      exact ⟨member, firstBase⟩
  | created unfit region middle chosen same =>
      subst same
      rw [AbstractHeap.create_headD nonempty]
      exact ⟨List.mem_cons_of_mem _ member, firstBase⟩

/-- All of a created MMAP behind its first header can be written. -/
theorem Created.restOpen {region : Region} {entry : Entry} {length last : Nat}
    (created : Created env region last heap middle) (placed : region.Placed pages.bytes)
    (low : region.base + 4096 ≤ entry.addr)
    (high : entry.addr + 8192 + entry.size ≤ region.base + region.length) :
    middle.RestOpen length entry := by
  intro left
  exact Heap.mallocAccessible_of fun x low high =>
    created.isAccessible placed (by omega) (by omega) (by omega)

/-! ## The search through the MMAPs -/

/-- Linking a created MMAP behind a list that is not empty keeps its head. -/
theorem Created.setFirst {region : Region} (created : Created env region abstract.lastListed heap
      middle) (first : heap.shared.mmapBlockFirst = abstract.listed.headD 0)
    (nonempty : abstract.listed ≠ []) :
    middle.setFirst ((abstract.create region).listed.headD 0) = middle := by
  have head : (abstract.create region).listed.headD 0 = abstract.listed.headD 0 :=
    AbstractHeap.create_headD nonempty
  have same : middle.shared.mmapBlockFirst = abstract.listed.headD 0 := by
    rw [created.shared]
    exact first
  rw [head, ← same]
  rfl

theorem settles_mallocInMMAPs (mutexes : MutexCallsSucceed env)
    (rep : Represents pages guarded heap abstract) (nonempty : abstract.listed ≠ [])
    (bound : need < 2 ^ 62)
    (blocked : SplitSettled stuck guarded need heap abstract abstract.listed) :
    Settles seen stuck (mallocInMMAPs need) env (heap, []) fun memory final =>
      final.2 = [] ∧ ListOutcome env pages guarded need abstract heap final.1 memory := by
  have wf := rep.wellFormed
  have sharedOpen : ∀ heap : Heap, mutexAccessible heap .shared = true := fun _ => rfl
  unfold mallocInMMAPs
  refine Settles.seq (yields_pthreadMutexLock mutexes (sharedOpen heap)
    List.not_mem_nil).settles ?_
  rintro _ _ ⟨rfl, rfl⟩
  simp only [Bool.not_true, Bool.false_eq_true, if_false]
  refine Settles.seq yields_getShared.settles ?_
  rintro _ _ ⟨rfl, rfl⟩
  rw [rep.first]
  refine Settles.seq (settles_mallocInList mutexes rep.toStands rep.links (fun _ member => member)
    (fun base => by simp) bound blocked rep.listed_length) ?_
  rintro ⟨memory, last⟩ ⟨middle, middleHeld⟩
    ⟨rfl, ⟨unfit, valueEq, same⟩ | ⟨there, region, entry, previous, rest, front, back, found⟩⟩
  · obtain ⟨rfl, rfl⟩ := Prod.mk.inj valueEq
    obtain rfl : heap = middle := same.symm
    have unfitAll : abstract.malloc need (AbstractHeap.grantLength guarded need) = none :=
      AbstractHeap.malloc_eq_none_iff.mpr unfit
    simp only [ne_eq, not_true_eq_false, if_false]
    rw [rep.blockSize]
    refine Settles.seq
      (yields_mmapBlockAllocate mutexes rep.toStands (fun base => by simp)).settles ?_
    rintro value ⟨grown, grownHeld⟩ ⟨rfl, outcome⟩
    cases outcome with
    | failed refused null same =>
        subst null
        simp only at same
        subst same
        rw [if_pos rfl]
        refine Settles.seq (yields_orReport _ _ _
          (yields_pthreadMutexUnlock mutexes (sharedOpen _))).settles ?_
        rintro _ _ rfl
        exact Settles.pure ⟨rfl, .refused abstract (.refused unfitAll refused rfl rfl) rfl unfitAll⟩
    | created region chosen address created =>
        subst address
        obtain ⟨placed, _, apart⟩ := newRegion_placed chosen
        rw [rep.mapped] at apart
        have user := placed.user
        have room := placed.room
        have grownStands := rep.toStands.create placed apart created
        have listSame := created.setFirst rep.first nonempty
        have extended : Extended env pages guarded need abstract (abstract.create region) heap
            grown :=
          .created unfitAll region grown chosen rfl created listSame.symm
        have member : region ∈ (abstract.create region).regions := List.mem_cons_self
        have site := grownStands.site member
        have freshBlocked : ∀ x, firstFit need ((abstract.create region).entries region.base) =
            some x → ¬grown.RestOpen (AbstractHeap.grantLength guarded need) x →
              stuck (x.addr + 8192 + AbstractHeap.grantLength guarded need) := by
          intro x found closed
          have bounds := site.tiles.bounds (List.mem_of_find?_eq_some found)
          exact absurd (created.restOpen placed bounds.1 bounds.2) closed
        rw [if_neg (by rw [mapFailed_eq]; omega)]
        refine Settles.seq (settles_allocMallocBlock mutexes site grownStands.mode (by simp) bound
          freshBlocked) ?_
        rintro memory ⟨final, finalHeld⟩ ⟨rfl, outcome⟩
        refine Settles.seq (yields_orReport _ _ _
          (yields_pthreadMutexUnlock mutexes (sharedOpen _))).settles ?_
        rintro _ _ rfl
        have otherEntries : ∀ base ∈ abstract.listed,
            (abstract.create region).entries base = abstract.entries base := by
          intro base listed
          refine AbstractHeap.create_entries_of_ne _ ?_
          rintro rfl
          exact wf.base_not_mem_listed placed apart listed
        cases outcome with
        | refused unfitNew null same =>
            simp only at same
            subst null same
            refine Settles.pure ⟨rfl, .refused _ extended rfl ?_⟩
            refine AbstractHeap.malloc_eq_none_iff.mpr ?_
            intro base listed
            rcases List.mem_append.mp listed with old | new
            · rw [otherEntries base old]
              exact unfit base old
            · rw [List.mem_singleton.mp new]
              exact unfitNew
        | granted front back entry split skipped fits pointer restOpen step =>
            have found : Found env guarded need (abstract.create region)
                (abstract.create region).listed grown final memory region entry abstract.listed []
                front back := by
              refine ⟨member, rfl, ?_, split, skipped, fits, pointer, restOpen, step⟩
              intro base listed
              rw [otherEntries base listed]
              exact unfit base listed
            exact Settles.pure ⟨rfl, .served _ _ grown region entry extended found.served⟩
  · simp only at there
    simp only [if_pos there]
    refine Settles.seq (yields_orReport _ _ _
      (yields_pthreadMutexUnlock mutexes (sharedOpen _))).settles ?_
    rintro _ _ rfl
    exact Settles.pure ⟨rfl, .served abstract _ heap region entry (.kept rfl rfl) found.served⟩

/-! ## The call -/

/-- The head of the list is null exactly when the list is empty. -/
theorem Stands.headD_eq_zero_iff (stands : Stands pages guarded heap abstract) :
    abstract.listed.headD 0 = 0 ↔ abstract.listed = [] := by
  cases shape : abstract.listed with
  | nil => simp
  | cons base rest =>
      obtain ⟨region, member, rfl⟩ := stands.listed (by rw [shape]; exact List.mem_cons_self)
      have positive := (stands.wellFormed.placed region member).positive
      simp only [List.headD_cons, reduceCtorEq, iff_false]
      omega

theorem yields_initialiseFirstMMAP (mutexes : MutexCallsSucceed env)
    (rep : Represents pages guarded heap abstract) :
    Yields seen initialiseFirstMMAP env (heap, []) fun value final => final.2 = [] ∧
      (abstract.listed ≠ [] ∧ value = true ∧ final.1 = heap ∨
        abstract.listed = [] ∧ heap.newRegion env pages = none ∧ value = false ∧
          final.1 = heap.asked.asked.setFirst mapFailed ∨
        abstract.listed = [] ∧ ∃ region middle, heap.newRegion env pages = some region ∧
          Created env region abstract.lastListed heap middle ∧ value = true ∧
          final.1 = middle.setFirst region.base) := by
  unfold initialiseFirstMMAP
  refine Yields.seq yields_getShared ?_
  rintro _ _ ⟨rfl, rfl⟩
  refine Yields.ite ?_ ?_
  · intro present
    rw [rep.first] at present
    exact Yields.pure ⟨rfl, Or.inl ⟨fun empty => present (rep.headD_eq_zero_iff.mpr empty), rfl,
      rfl⟩⟩
  · intro null
    rw [rep.first] at null
    have empty := rep.headD_eq_zero_iff.mp (not_not.mp null)
    have lastNull : abstract.lastListed = 0 := by rw [AbstractHeap.lastListed, empty]; rfl
    have allocated : Yields seen (mmapBlockAllocate pages.bytes abstract.lastListed) env
        (heap, []) _ := yields_mmapBlockAllocate mutexes rep.toStands (by simp)
    rw [lastNull] at allocated
    rw [rep.blockSize]
    refine Yields.seq allocated ?_
    rintro value ⟨middle, middleHeld⟩ ⟨rfl, outcome⟩
    refine Yields.seq (yields_modifyShared _) ?_
    rintro _ _ rfl
    cases outcome with
    | failed refused isFailed same =>
        simp only at same
        subst same isFailed
        exact Yields.pure ⟨rfl, Or.inr (Or.inl ⟨empty, refused, by simp, rfl⟩)⟩
    | created region chosen address created =>
        subst address
        have user := (newRegion_placed chosen).1.user
        have there : region.base ≠ mapFailed := by
          rw [mapFailed_eq]
          omega
        exact Yields.pure ⟨rfl, Or.inr (Or.inr ⟨empty, region, middle, chosen, lastNull ▸ created,
          decide_eq_true there, rfl⟩)⟩

/-- Aligning a size looks at the mode only. -/
theorem alignSize_congr {first second : Shared}
    (same : first.isMprotectEnabled = second.isMprotectEnabled) (size : Nat) :
    alignSize first size = alignSize second size := by
  unfold alignSize
  rw [same]

theorem alignSize_of_guarded {shared : Shared} (mode : shared.isMprotectEnabled = true)
    (size : Nat) : alignSize shared size = size := by
  unfold alignSize
  rw [if_pos mode]

/-- The checks of `vgc_malloc` and the search, when some MMAP is listed. -/
theorem settles_mallocListed {size : Nat} (mutexes : MutexCallsSucceed env)
    (rep : Represents pages guarded heap abstract) (nonempty : abstract.listed ≠ [])
    (blocked : SplitSettled stuck guarded (alignSize heap.shared size) heap abstract
      abstract.listed) :
    Settles seen stuck (do
        if size = 0 then
          vgcMessage errorLevel "vgc_malloc" "size" "Warning" "size is zero" []
          return 0
        let shared ← getShared
        let size := alignSize shared size
        let first ← readMmapHeader shared.mmapBlockFirst
        if size ≥ first.maxSize then
          vgcMessage errorLevel "vgc_malloc" "size" "Error" "size is too big" [size]
          return 0
        mallocInMMAPs size) env (heap, []) fun memory final =>
      final.2 = [] ∧
        ((size = 0 ∨ ∃ region ∈ abstract.regions, region.base = abstract.listed.headD 0 ∧
            region.length - 12288 ≤ alignSize heap.shared size) ∧ memory = 0 ∧ final.1 = heap ∨
          size ≠ 0 ∧ (∃ region ∈ abstract.regions, region.base = abstract.listed.headD 0 ∧
            alignSize heap.shared size < region.length - 12288) ∧
          ListOutcome env pages guarded (alignSize heap.shared size) abstract heap final.1
            memory) := by
  obtain ⟨first, rest, shape⟩ := List.exists_cons_of_ne_nil nonempty
  obtain ⟨region, member, rfl⟩ := rep.listed (by rw [shape]; exact List.mem_cons_self)
  have headEq : abstract.listed.headD 0 = region.base := by rw [shape]; rfl
  have regionRep := rep.regions region member
  have placed := rep.wellFormed.placed region member
  have user := placed.user
  refine Settles.ite ?_ ?_
  · intro zero
    refine (yields_vgcMessage_seq (Yields.pure ?_)).settles
    exact ⟨rfl, Or.inl ⟨Or.inl zero, rfl, rfl⟩⟩
  · intro positive
    refine Settles.seq yields_getShared.settles ?_
    rintro _ _ ⟨rfl, rfl⟩
    rw [rep.first, headEq]
    refine Settles.seq (yields_readMmapHeader regionRep.mmap.accessible).settles ?_
    rintro _ _ ⟨rfl, rfl⟩
    rw [regionRep.mmap.maxSize]
    refine Settles.ite ?_ ?_
    · intro big
      refine (yields_vgcMessage_seq (Yields.pure ?_)).settles
      exact ⟨rfl, Or.inl ⟨Or.inr ⟨region, member, rfl, big⟩, rfl, rfl⟩⟩
    · intro fits
      have bound : alignSize heap.shared size < 2 ^ 62 := by omega
      refine (settles_mallocInMMAPs mutexes rep nonempty bound blocked).mono ?_
      rintro memory final ⟨same, outcome⟩
      exact ⟨same, Or.inr ⟨positive, ⟨region, member, rfl, by omega⟩, outcome⟩⟩

/-- A created MMAP has a block for every request below its `maxSize`. -/
theorem malloc_create_ne_none {region : Region} {length : Nat}
    (fits : need ≤ region.length - 12288) : (abstract.create region).malloc need length ≠ none := by
  intro unfit
  have none := AbstractHeap.malloc_eq_none_iff.mp unfit region.base
    (List.mem_append_right _ (List.mem_singleton_self _))
  rw [AbstractHeap.create_entries] at none
  exact none _ (List.mem_singleton_self _) ⟨rfl, fits⟩

/-- When a listed block fits, no MMAP is created. -/
theorem Extended.kept_of_fits {abstract' : AbstractHeap}
    (extended : Extended env pages guarded need abstract abstract' heap after)
    (fits : abstract.malloc need (AbstractHeap.grantLength guarded need) ≠ none) :
    abstract' = abstract ∧ after = heap := by
  cases extended with
  | kept same heapSame => exact ⟨same, heapSame⟩
  | refused unfit => exact absurd unfit fits
  | created unfit => exact absurd unfit fits

/-- `vgc_malloc` on a represented heap. -/
theorem settles_vgcMalloc {size : Nat} (mutexes : MutexCallsSucceed env)
    (rep : Represents pages guarded heap abstract)
    (blocked : SplitSettled stuck guarded (alignSize heap.shared size) heap abstract
      abstract.listed) :
    Settles seen stuck (vgcMalloc size) env (heap, []) fun memory final =>
      final.2 = [] ∧ MallocOutcome env pages guarded size abstract heap final.1 memory := by
  unfold vgcMalloc
  refine Settles.seq (yields_initialiseFirstMMAP mutexes rep).settles ?_
  rintro value ⟨grown, grownHeld⟩ ⟨rfl, ⟨nonempty, rfl, same⟩ | ⟨empty, refused, rfl, same⟩ |
    ⟨empty, region, middle, chosen, created, rfl, same⟩⟩
  · obtain rfl : heap = grown := same.symm
    simp only [Bool.not_true, Bool.false_eq_true, if_false]
    refine (settles_mallocListed mutexes rep nonempty blocked).mono ?_
    rintro memory final ⟨held, ⟨reason, null, same⟩ | ⟨positive, small, outcome⟩⟩
    · refine ⟨held, .refused abstract (.kept rfl same) null ?_⟩
      exact reason.imp id Or.inl
    · refine ⟨held, ?_⟩
      cases outcome with
      | refused abstract' extended null unfit =>
          exact .refused abstract' extended null (Or.inr (Or.inr unfit))
      | served extendedHeap abstract' middle region entry extended served =>
          refine .served extendedHeap abstract' middle region entry extended served positive ?_
          obtain ⟨first, firstMem, firstBase, big⟩ := small
          obtain ⟨stays, stillFirst⟩ := extended.first nonempty firstMem firstBase
          exact ⟨first, stays, stillFirst, big⟩
  · exact Settles.pure ⟨rfl, .poisoned empty refused rfl same⟩
  · obtain ⟨placed, _, apart⟩ := newRegion_placed chosen
    rw [rep.mapped] at apart
    have headEq : (abstract.create region).listed.headD 0 = region.base := by
      simp [AbstractHeap.create, empty]
    have unfit : abstract.malloc (alignSize heap.shared size)
        (AbstractHeap.grantLength guarded (alignSize heap.shared size)) = none := by
      refine AbstractHeap.malloc_eq_none_iff.mpr ?_
      simp [empty]
    have extended : Extended env pages guarded (alignSize heap.shared size) abstract
        (abstract.create region) heap grown := by
      refine .created unfit region middle chosen rfl created ?_
      rw [headEq]
      exact same
    have grownRep := extended.represents rep
    have sameSize : alignSize grown.shared size = alignSize heap.shared size :=
      alignSize_congr (grownRep.mode.trans rep.mode.symm) size
    have freshBlocked : SplitSettled stuck guarded (alignSize grown.shared size) grown
        (abstract.create region) (abstract.create region).listed := by
      intro x found closed
      obtain ⟨base, listed, found⟩ := List.exists_of_findSome?_eq_some found
      have baseEq : base = region.base := by simpa [AbstractHeap.create, empty] using listed
      subst baseEq
      have bounds := (grownRep.site List.mem_cons_self).tiles.bounds
        (List.mem_of_find?_eq_some found)
      simp only at same
      rw [same] at closed
      exact absurd (created.restOpen placed bounds.1 bounds.2) closed
    have nonempty : (abstract.create region).listed ≠ [] := by simp [AbstractHeap.create]
    simp only [Bool.not_true, Bool.false_eq_true, if_false]
    refine (settles_mallocListed mutexes grownRep nonempty freshBlocked).mono ?_
    rintro memory final ⟨held, ⟨reason, null, final⟩ | ⟨positive, ⟨head, headMem, headBase, big⟩,
      outcome⟩⟩
    · refine ⟨held, .refused _ (by rw [final]; exact extended) null ?_⟩
      rw [sameSize] at reason
      exact reason.imp id Or.inl
    · rw [sameSize] at big outcome
      have headIs : head = region := by
        refine grownRep.wellFormed.region_eq headMem List.mem_cons_self ?_
        rw [headBase, headEq]
      subst headIs
      have fits : (abstract.create head).malloc (alignSize heap.shared size)
          (AbstractHeap.grantLength guarded (alignSize heap.shared size)) ≠ none :=
        malloc_create_ne_none (Nat.le_of_lt big)
      refine ⟨held, ?_⟩
      cases outcome with
      | refused abstract' again null unfitNew =>
          obtain ⟨rfl, _⟩ := again.kept_of_fits fits
          exact absurd unfitNew fits
      | served extendedHeap abstract' middle' region' entry again served =>
          obtain ⟨rfl, rfl⟩ := again.kept_of_fits fits
          exact .served _ abstract' middle' region' entry extended served positive
            ⟨head, headMem, headBase, big⟩

end VgcMalloc
