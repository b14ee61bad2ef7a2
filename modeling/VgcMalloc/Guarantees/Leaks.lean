import VgcMalloc.Guarantees.Exhaustion
import VgcMalloc.Guarantees.Pointers
import VgcMalloc.Refine.Reports
import VgcMalloc.Refine.Requests

/-!
# Leak reports

`mallocCleanup` reports leaks whenever some MMAP is listed, and shows the blocks
of the first one.  The report is exact if and only if the first MMAP of the list
holds all blocks in use and at least one: a refused request can leave a first
MMAP in which nothing is in use, and the blocks of a second MMAP are not shown.
The clients free what they own: a live pointer that does not resolve to its
block, such as one of a whole number of pages, stays out of their hands.  The
saved stack traces of the dump are those of `Model/Stacktrace`; they are taken
to return.
-/

namespace VgcMalloc

open Program Tiling Linked

variable {env : Env} {heap after middle last : Heap} {pages : MmapPages} {guarded : Bool}
  {abstract abstract' : AbstractHeap} {region : Region} {entry x : Entry} {need size : Nat}
  {granted freed : Option Nat}

/-! ## Allocations by header -/

/-- The header of the allocation that a finished call returned. -/
def returned (event : Finished) : Option Nat :=
  if event.result = 0 then none else (taken event).map Entry.addr

/-- The pointer that a call with this result frees: `vgc_free` the one it gets,
and `vgc_realloc` too unless its request has failed. -/
def Call.frees (call : Call) (result : Nat) : Option Nat :=
  match call with
  | .free ptr => some ptr
  | .realloc ptr size => if size = 0 ∨ result ≠ 0 then some ptr else none
  | _ => none

/-- An allocation that was returned: its pointer, and the header of its
block. -/
structure Holding where
  ptr : Nat
  header : Nat
  deriving DecidableEq

/-- The allocations that a run has returned and whose pointers have not been
freed, newest first. -/
def outstanding : List Finished → List Holding
  | [] => []
  | event :: earlier =>
      ((returned event).toList.map fun header => ⟨event.result, header⟩) ++
        (outstanding earlier).filter fun held => decide (held.ptr ∉ event.call.frees event.result)

/-- Of these allocations, the pointer is that of the one whose block `vgc_free`
finds, and of none when it finds no block. -/
def Heap.Owns (heap : Heap) (holdings : List Holding) (ptr : Nat) : Prop :=
  ∀ held ∈ holdings, held.ptr = ptr ↔
    heap.Resolves ptr ∧ headerOf heap.shared ptr = held.header

/-- Every call of the run has freed what the client owned, or a pointer of no
allocation. -/
def FreesOwned : List Finished → Prop
  | [] => True
  | event :: earlier =>
      (∀ ptr ∈ event.call.frees event.result, event.before.heap.Owns (outstanding earlier) ptr) ∧
        FreesOwned earlier

instance (heap : Heap) (holdings : List Holding) (ptr : Nat) :
    Decidable (heap.Owns holdings ptr) :=
  inferInstanceAs (Decidable (∀ held ∈ holdings, _))

instance : (trace : List Finished) → Decidable (FreesOwned trace)
  | [] => .isTrue trivial
  | event :: earlier =>
      have : Decidable (FreesOwned earlier) := instDecidableFreesOwned earlier
      inferInstanceAs (Decidable ((∀ ptr ∈ event.call.frees event.result, _) ∧ _))

/-- The allocation that a call frees is the one whose block it releases. -/
theorem frees_iff_releases {call : Call} {result : Nat} {holdings : List Holding} {held : Holding}
    (owned : ∀ ptr ∈ call.frees result, heap.Owns holdings ptr) (member : held ∈ holdings) :
    held.ptr ∈ call.frees result ↔ held.header ∈ call.releases heap result := by
  cases call with
  | malloc size => simp [Call.frees, Call.releases]
  | calloc nmemb size => simp [Call.frees, Call.releases]
  | free ptr =>
      have found := owned ptr rfl held member
      simp only [Call.frees, Call.releases, Option.mem_some_iff]
      rw [eq_comm, found]
      split
      · simp [*]
      · simp [*]
  | realloc ptr size =>
      simp only [Call.frees, Call.releases]
      by_cases ends : size = 0 ∨ result ≠ 0
      · have found := owned ptr (if_pos ends) held member
        rw [if_pos ends, Option.mem_some_iff, eq_comm, found]
        split
        · simp [*]
        · simp_all
      · simp [ends]

/-- The headers of what a call leaves outstanding. -/
theorem headers_outstanding {event : Finished} {earlier : List Finished}
    (owned : ∀ ptr ∈ event.call.frees event.result,
      event.before.heap.Owns (outstanding earlier) ptr) :
    (outstanding (event :: earlier)).map Holding.header = (returned event).toList ++
      ((outstanding earlier).map Holding.header).filter fun header =>
        decide (header ∉ event.call.releases event.before.heap event.result) := by
  rw [outstanding, List.map_append, List.map_map, List.filter_map]
  congr 1
  · simp [Function.comp_def]
  · congr 1
    refine List.filter_congr fun held member => ?_
    simp only [Function.comp_apply, frees_iff_releases owned member]

/-- The blocks in use are those from before without the freed one, and the
granted one. -/
structure Turnover (heap after : Heap) (granted freed : Option Nat) : Prop where
  fresh : ∀ header ∈ granted, ¬heap.InUse header
  held : ∀ header ∈ freed, heap.InUse header
  inUse : ∀ header, after.InUse header ↔
    header ∈ granted ∨ heap.InUse header ∧ header ∉ freed

namespace Turnover

/-- Nothing has been granted or freed. -/
theorem of_busy (same : ∀ x, after.Busy x ↔ heap.Busy x) : Turnover heap after none none where
  fresh := by simp
  held := by simp
  inUse header := by simp [inUse_iff, same]

theorem of_grant {block : Entry} (fresh : ∀ x, heap.Busy x → x.addr ≠ block.addr)
    (blocks : ∀ x, after.Busy x ↔ heap.Busy x ∨ x = block) :
    Turnover heap after (some block.addr) none where
  fresh header member := by
    cases member
    rw [inUse_iff]
    rintro ⟨x, busy, same⟩
    exact fresh x busy same
  held := by simp
  inUse header := by
    simp only [inUse_iff, blocks, Option.mem_some_iff, Option.not_mem_none, not_false_eq_true,
      and_true]
    constructor
    · rintro ⟨x, busy | rfl, same⟩
      · exact Or.inr ⟨x, busy, same⟩
      · exact Or.inl same
    · rintro (same | ⟨x, busy, same⟩)
      · exact ⟨block, Or.inr rfl, same⟩
      · exact ⟨x, Or.inl busy, same⟩

theorem of_free (valid : Valid pages guarded heap) (busy : heap.Busy entry)
    (blocks : ∀ x, after.Busy x ↔ heap.Busy x ∧ x ≠ entry) :
    Turnover heap after none (some entry.addr) where
  fresh := by simp
  held header member := by
    cases member
    exact inUse_iff.mpr ⟨entry, busy, rfl⟩
  inUse header := by
    simp only [inUse_iff, blocks, Option.mem_some_iff, Option.not_mem_none, false_or]
    constructor
    · rintro ⟨x, ⟨xBusy, ne⟩, rfl⟩
      refine ⟨⟨x, xBusy, rfl⟩, ?_⟩
      intro same
      exact ne (valid.busy_unique xBusy busy same.symm)
    · rintro ⟨⟨x, xBusy, rfl⟩, ne⟩
      refine ⟨x, ⟨xBusy, ?_⟩, rfl⟩
      rintro rfl
      exact ne rfl

/-- Something is granted first, and something else is freed then. -/
theorem trans (first : Turnover heap middle granted none)
    (second : Turnover middle after none freed) (other : ∀ header ∈ freed, header ∉ granted) :
    Turnover heap after granted freed where
  fresh := first.fresh
  held header member := by
    have inUse := (first.inUse header).mp (second.held header member)
    rcases inUse with new | ⟨old, _⟩
    · exact absurd new (other header member)
    · exact old
  inUse header := by
    rw [second.inUse, first.inUse]
    simp only [Option.not_mem_none, false_or, not_false_eq_true, and_true]
    constructor
    · rintro ⟨new | old, kept⟩
      · exact Or.inl new
      · exact Or.inr ⟨old, kept⟩
    · rintro (new | ⟨old, kept⟩)
      · exact ⟨Or.inl new, fun gone => other header gone new⟩
      · exact ⟨Or.inr old, kept⟩

/-- What has been granted is found by comparing the blocks in use. -/
theorem returned_eq {event : Finished}
    (turnover : Turnover event.before.heap event.after.heap granted freed)
    (served : granted.isSome = true ↔ event.result ≠ 0) : returned event = granted := by
  unfold returned
  cases granted with
  | none =>
      have null : event.result = 0 := by simpa using served
      rw [if_pos null]
  | some header =>
      have present : event.result ≠ 0 := by simpa using served
      rw [if_neg present]
      obtain ⟨block, busy, rfl⟩ := inUse_iff.mp ((turnover.inUse header).mpr (Or.inl rfl))
      have unused := turnover.fresh block.addr rfl
      cases found : taken event with
      | none =>
          exact absurd (List.find?_eq_none.mp found block (mem_busyBlocks.mpr busy))
            (by simpa using unused)
      | some y =>
          have picked := List.find?_some found
          have new := of_decide_eq_true picked
          have yBusy := mem_busyBlocks.mp (List.mem_of_find?_eq_some found)
          rcases (turnover.inUse y.addr).mp (inUse_iff.mpr ⟨y, yBusy, rfl⟩) with same | ⟨old, _⟩
          · exact same.symm
          · exact absurd old new

end Turnover

/-- The outstanding allocations are the blocks in use. -/
structure Accounted (heap : Heap) (headers : List Nat) : Prop where
  inUse : ∀ header, header ∈ headers ↔ heap.InUse header
  nodup : headers.Nodup

theorem Accounted.turnover {headers : List Nat} (accounted : Accounted heap headers)
    (turnover : Turnover heap after granted freed) :
    Accounted after (granted.toList ++ headers.filter fun header => decide (header ∉ freed)) := by
  constructor
  · intro header
    rw [turnover.inUse, List.mem_append, List.mem_filter, accounted.inUse]
    simp
  · rw [List.nodup_append]
    refine ⟨?_, accounted.nodup.filter _, ?_⟩
    · cases granted <;> simp
    · rintro header new other kept rfl
      have old := (accounted.inUse header).mp (List.mem_filter.mp kept).1
      exact turnover.fresh header (by simpa using new) old

/-! ## What the calls release -/

theorem Effect.requested {memory : Nat}
    (effect : Effect env pages guarded heap (.malloc size) memory after) :
    ∃ granted : Option Nat, (granted.isSome = true ↔ memory ≠ 0) ∧
      Turnover heap after granted none := by
  cases effect with
  | malloc rep outcome =>
      rcases outcome.busy rep with ⟨rfl, same⟩ | ⟨served, _, block, grant, blocks⟩
      · exact ⟨none, by simp, .of_busy same⟩
      · exact ⟨some block.addr, by simpa using served, .of_grant grant.fresh blocks⟩
  | nothing => exact ⟨none, by simp, .of_busy fun _ => Iff.rfl⟩

theorem Effect.released {ptr : Nat} (valid : Valid pages guarded heap)
    (effect : Effect env pages guarded heap (.free ptr) 0 after) :
    Turnover heap after none ((Call.free ptr).releases heap 0) := by
  unfold Call.releases
  cases effect with
  | @free _ region block _ rep member listed blockMem busy bound resolved outcome =>
      have resolves : heap.Resolves ptr :=
        ⟨bound, region.base, listed, block, blockMem, busy, resolved⟩
      simp only [if_pos resolves, resolved]
      exact .of_free valid ⟨region, member, blockMem, busy⟩ fun x =>
        outcome.busy_iff rep member blockMem busy
  | nothing idle =>
      have missing : ¬heap.Resolves ptr := by
        rcases idle with ⟨_, same, wrong⟩ | failed
        · cases same
          exact fun resolves => valid.not_rejects resolves wrong
        · exact not_resolves_of_nil (mmaps_eq_nil failed)
      simp only [if_neg missing]
      exact .of_busy fun _ => Iff.rfl

theorem WritesPayload.turnover (valid : Valid pages guarded heap)
    (writes : WritesPayload heap after entry) : Turnover heap after none none :=
  .of_busy fun _ => writes.busy_iff valid

/-! ## The blocks of the first MMAP -/

/-- Only the first listed MMAP has blocks in use. -/
structure AbstractHeap.HeldByFirst (heap : AbstractHeap) : Prop where
  home : ∀ region ∈ heap.regions, ∀ x ∈ heap.entries region.base, x.busy = true →
    heap.listed.head? = some region.base
  used : ∀ base, heap.listed.head? = some base → ∃ x ∈ heap.entries base, x.busy = true

/-- All blocks in use lie in the first listed MMAP, which has some if there is
one, and the first MMAP could be created. -/
structure Heap.HeldByFirst (heap : Heap) : Prop where
  intact : heap.shared.mmapBlockFirst ≠ mapFailed
  home : ∀ region ∈ heap.mapped, ∀ x ∈ heap.blocks region.base, x.busy = true →
    heap.mmaps.head? = some region.base
  used : ∀ base, heap.mmaps.head? = some base → ∃ x ∈ heap.blocks base, x.busy = true

theorem Represents.heldByFirst_iff (rep : Represents pages guarded heap abstract) :
    heap.HeldByFirst ↔ abstract.HeldByFirst := by
  have listed := rep.mmaps_eq
  have mapped := rep.mapped
  constructor
  · rintro ⟨_, home, used⟩
    rw [listed, mapped] at home
    rw [listed] at used
    refine ⟨fun region member x xMem busy => ?_, fun base head => ?_⟩
    · rw [← rep.blocks_eq member] at xMem
      exact home region member x xMem busy
    · obtain ⟨region, member, rfl⟩ := rep.listed (List.mem_of_head? head)
      rw [← rep.blocks_eq member]
      exact used region.base head
  · rintro ⟨home, used⟩
    refine ⟨rep.first_ne_mapFailed, ?_, ?_⟩
    · rw [listed, mapped]
      intro region member x xMem busy
      rw [rep.blocks_eq member] at xMem
      exact home region member x xMem busy
    · rw [listed]
      intro base head
      obtain ⟨region, member, rfl⟩ := rep.listed (List.mem_of_head? head)
      rw [rep.blocks_eq member]
      exact used region.base head

namespace AbstractHeap

/-- Nothing is in use outside of the region. -/
def IdleBut (heap : AbstractHeap) (region : Region) : Prop :=
  ∀ other ∈ heap.regions, other.base ≠ region.base → ∀ x ∈ heap.entries other.base,
    x.busy = false

theorem HeldByFirst.idleBut {heap : AbstractHeap} (held : heap.HeldByFirst)
    (head : heap.listed.head? = some region.base) : heap.IdleBut region := by
  intro other otherMem ne x xMem
  by_contra busy
  have first := held.home other otherMem x xMem ((Bool.not_eq_false _).mp busy)
  exact ne (Option.some.inj (first.symm.trans head))

/-- New blocks for the first region, some of them in use. -/
theorem IdleBut.setEntries {heap : AbstractHeap} {entries : List Entry}
    (idle : heap.IdleBut region) (head : heap.listed.head? = some region.base)
    (busy : ∃ x ∈ entries, x.busy = true) : (heap.setEntries region.base entries).HeldByFirst := by
  constructor
  · intro other otherMem x xMem xBusy
    by_cases same : other.base = region.base
    · rw [same]
      exact head
    · rw [setEntries_entries_of_ne _ _ same] at xMem
      rw [idle other otherMem same x xMem] at xBusy
      cases xBusy
  · intro base first
    obtain rfl : region.base = base := Option.some.inj (head.symm.trans first)
    rw [setEntries_entries]
    exact busy

/-- The first region of an empty list, or another one behind it. -/
theorem HeldByFirst.create {heap : AbstractHeap} {limit : Nat} (held : heap.HeldByFirst)
    (wf : heap.WellFormed limit guarded) (placed : region.Placed limit)
    (apart : ∀ other ∈ heap.regions, region.Disjoint other) (nonempty : heap.listed ≠ []) :
    (heap.create region).HeldByFirst := by
  have head : (heap.create region).listed.head? = heap.listed.head? :=
    List.head?_append_of_ne_nil _ nonempty
  constructor
  · intro other otherMem x xMem busy
    rw [head]
    rcases List.mem_cons.mp otherMem with rfl | old
    · rw [create_entries] at xMem
      rw [List.mem_singleton.mp xMem] at busy
      cases busy
    · rw [create_entries_of_ne _ (wf.base_ne placed apart old)] at xMem
      exact held.home other old x xMem busy
  · rw [head]
    intro base first
    obtain ⟨other, otherMem, rfl⟩ := wf.mapped base (List.mem_of_head? first)
    rw [create_entries_of_ne _ (wf.base_ne placed apart otherMem)]
    exact held.used other.base first

/-- Nothing is in use while nothing is listed. -/
theorem HeldByFirst.idleBut_create {heap : AbstractHeap} {limit : Nat} (held : heap.HeldByFirst)
    (wf : heap.WellFormed limit guarded) (placed : region.Placed limit)
    (apart : ∀ other ∈ heap.regions, region.Disjoint other) (empty : heap.listed = []) :
    (heap.create region).IdleBut region := by
  intro other otherMem ne x xMem
  rcases List.mem_cons.mp otherMem with rfl | old
  · exact absurd rfl ne
  · rw [create_entries_of_ne _ (wf.base_ne placed apart old)] at xMem
    by_contra busy
    have first := held.home other old x xMem ((Bool.not_eq_false _).mp busy)
    rw [empty] at first
    cases first

end AbstractHeap

/-- The request leaves blocks in use in the first listed MMAP only: without an
MMAP a new one is created and the request granted, otherwise the request is
refused or granted from the first MMAP. -/
def Heap.ServesFirst (heap : Heap) (env : Env) (pages : MmapPages) (size : Nat) : Prop :=
  (heap.mmaps = [] → size ≠ 0 ∧ ∃ region ∈ heap.newRegion env pages,
      alignSize heap.shared size < region.length - 12288) ∧
    ∀ first ∈ heap.mmaps.head?,
      size = 0 ∨ (heap.mmapHeader first).maxSize ≤ alignSize heap.shared size ∨
        Tiling.firstFit (alignSize heap.shared size) (heap.blocks first) ≠ none ∨
        ∀ offered ∈ heap.offered env pages (alignSize heap.shared size),
          offered < alignSize heap.shared size

instance (heap : Heap) (env : Env) (pages : MmapPages) (size : Nat) :
    Decidable (heap.ServesFirst env pages size) :=
  inferInstanceAs (Decidable ((_ → _) ∧ ∀ first ∈ heap.mmaps.head?, _))

/-- A request that finds no MMAP is granted from the one it creates. -/
theorem Extended.grants_of_nil {extendedHeap : AbstractHeap}
    (rep : Represents pages guarded heap heap.abstraction) (held : heap.abstraction.HeldByFirst)
    (empty : heap.mmaps = []) (serves : heap.ServesFirst env pages size)
    (extended : Extended env pages guarded need heap.abstraction extendedHeap heap middle)
    (member : region ∈ extendedHeap.regions) (listed : region.base ∈ extendedHeap.listed) :
    extendedHeap.listed.head? = some region.base ∧ extendedHeap.IdleBut region := by
  obtain ⟨_, fresh, chosen, _⟩ := serves.1 empty
  cases extended with
  | kept same =>
      subst same
      rw [abstraction_listed, empty] at listed
      exact absurd listed List.not_mem_nil
  | refused unfit refused =>
      rw [refused] at chosen
      cases chosen
  | created unfit other grown picked same created =>
      subst same
      obtain ⟨placed, _, apart⟩ := newRegion_placed picked
      have only : (heap.abstraction.create other).listed = [other.base] := by
        simp [AbstractHeap.create, empty]
      rw [only] at listed ⊢
      have baseEq := List.mem_singleton.mp listed
      have grownWf := rep.wellFormed.create placed apart
      obtain rfl := grownWf.region_eq member List.mem_cons_self baseEq
      exact ⟨rfl, held.idleBut_create rep.wellFormed placed apart empty⟩

/-- A request that is granted with MMAPs listed is granted from the first. -/
theorem Extended.grants_of_cons {extendedHeap abstract'' : AbstractHeap} {first : Nat}
    {rest : List Nat}
    (rep : Represents pages guarded heap heap.abstraction) (held : heap.abstraction.HeldByFirst)
    (shape : heap.mmaps = first :: rest) (serves : heap.ServesFirst env pages size)
    (extended : Extended env pages guarded (alignSize heap.shared size) heap.abstraction
      extendedHeap heap middle)
    (found : extendedHeap.malloc (alignSize heap.shared size)
      (AbstractHeap.grantLength guarded (alignSize heap.shared size)) =
        some (region.base, entry, abstract''))
    (positive : size ≠ 0)
    (small : ∃ first ∈ extendedHeap.regions, first.base = extendedHeap.listed.headD 0 ∧
      alignSize heap.shared size < first.length - 12288) :
    extendedHeap.listed.head? = some region.base ∧ extendedHeap.IdleBut region := by
  have headEq : heap.abstraction.listed.headD 0 = first := by
    rw [abstraction_listed, shape]
    rfl
  obtain ⟨before, behind, front, back, listed, none, split, _, fits, _⟩ :=
    AbstractHeap.malloc_eq_some_iff.mp found
  rcases serves.2 first (by rw [shape]; rfl) with zero | big | fitting | tooSmall
  · exact absurd zero positive
  · obtain ⟨owner, ownerMem, rfl⟩ : ∃ owner ∈ heap.abstraction.regions, owner.base = first :=
      rep.listed (by rw [abstraction_listed, shape]; exact List.mem_cons_self)
    have nonempty : heap.abstraction.listed ≠ [] := by
      rw [abstraction_listed, shape]
      exact List.cons_ne_nil _ _
    obtain ⟨stays, stillFirst⟩ := extended.first nonempty ownerMem headEq.symm
    obtain ⟨other, otherMem, otherBase, room⟩ := small
    have same := (extended.represents rep).wellFormed.region_eq otherMem stays
      (otherBase.trans stillFirst.symm)
    rw [(rep.regions owner ownerMem).mmap.maxSize, ← same] at big
    omega
  · obtain ⟨block, blockMem⟩ := Option.ne_none_iff_exists'.mp fitting
    have picked := List.find?_some blockMem
    have blockFits := of_decide_eq_true picked
    have inFirst := List.mem_of_find?_eq_some blockMem
    have fitsHere : heap.abstraction.malloc (alignSize heap.shared size)
        (AbstractHeap.grantLength guarded (alignSize heap.shared size)) ≠ Option.none := by
      intro unfit
      exact AbstractHeap.malloc_eq_none_iff.mp unfit first
        (by rw [abstraction_listed, shape]; exact List.mem_cons_self) block inFirst blockFits
    obtain ⟨rfl, _⟩ := extended.kept_of_fits fitsHere
    have head : heap.abstraction.listed.head? = some region.base := by
      rw [abstraction_listed, shape] at listed
      cases before with
      | nil =>
          rw [abstraction_listed, shape, (List.cons.inj listed).1]
          rfl
      | cons other more =>
          rw [List.cons_append] at listed
          obtain rfl := (List.cons.inj listed).1
          exact absurd blockFits (none first List.mem_cons_self block inFirst)
    exact ⟨head, held.idleBut head⟩
  · have offered := offered_of_extended rep extended found
    have below := tooSmall entry.size offered
    have enough := fits.2
    omega

theorem MallocOutcome.heldByFirst {memory : Nat}
    (rep : Represents pages guarded heap heap.abstraction) (held : heap.HeldByFirst)
    (serves : heap.ServesFirst env pages size)
    (outcome : MallocOutcome env pages guarded size heap.abstraction heap after memory) :
    after.HeldByFirst := by
  have here := rep.heldByFirst_iff.mp held
  cases outcome with
  | poisoned empty refused =>
      obtain ⟨_, fresh, chosen, _⟩ := serves.1 empty
      rw [refused] at chosen
      cases chosen
  | refused abstract' extended null reason =>
      rw [(extended.represents rep).heldByFirst_iff]
      have grownWf := (extended.represents rep).wellFormed
      cases extended with
      | kept same =>
          rw [same]
          exact here
      | refused unfit refused same =>
          rw [same]
          exact here
      | created unfit region middle picked same created =>
          subst same
          obtain ⟨placed, _, apart⟩ := newRegion_placed picked
          by_cases empty : heap.mmaps = []
          · obtain ⟨positive, fresh, chosen, room⟩ := serves.1 empty
            obtain rfl : region = fresh := Option.some.inj (picked.symm.trans chosen)
            rcases reason with zero | ⟨head, headMem, headBase, big⟩ | unfitNew
            · exact absurd zero positive
            · have headIs : head = region := by
                refine grownWf.region_eq headMem List.mem_cons_self ?_
                rw [headBase]
                simp [AbstractHeap.create, empty]
              rw [headIs] at big
              omega
            · exact absurd unfitNew (malloc_create_ne_none (Nat.le_of_lt room))
          · exact here.create rep.wellFormed placed apart empty
  | served extendedHeap abstract' middle region entry extended served positive small =>
      have afterRep := served.represents (extended.represents rep)
        (alignSize_pos rep.mode positive)
      rw [afterRep.heldByFirst_iff]
      have first : extendedHeap.listed.head? = some region.base ∧ extendedHeap.IdleBut region := by
        cases shape : heap.mmaps with
        | nil =>
            refine extended.grants_of_nil rep here shape serves served.member ?_
            obtain ⟨before, behind, _, _, listed, _⟩ :=
              AbstractHeap.malloc_eq_some_iff.mp served.found
            simp [listed]
        | cons first rest =>
            exact extended.grants_of_cons rep here shape serves served.found positive small
      obtain ⟨_, _, front, back, _, _, _, _, fits, rfl⟩ :=
        AbstractHeap.malloc_eq_some_iff.mp served.found
      refine first.2.setEntries first.1 ⟨grantedEntry 8192
        (AbstractHeap.grantLength guarded (alignSize heap.shared size)) entry, ?_, rfl⟩
      exact (mem_grantEntry_busy fits.1 rfl).mpr (Or.inr rfl)

theorem FreeOutcome.heldByFirst (rep : Represents pages guarded heap heap.abstraction)
    (member : region ∈ heap.mapped) (entryMem : entry ∈ heap.blocks region.base)
    (busy : entry.busy = true) (held : heap.HeldByFirst)
    (outcome : FreeOutcome env pages guarded heap.abstraction region entry heap after) :
    after.HeldByFirst := by
  have here := rep.heldByFirst_iff.mp held
  have head := here.home region member entry entryMem busy
  have idle := here.idleBut head
  rw [← abstraction_entries] at entryMem
  cases outcome with
  | released others step =>
      rw [(rep.free member entryMem step).heldByFirst_iff]
      refine idle.setEntries head ?_
      obtain ⟨front, back, split⟩ := List.append_of_mem entryMem
      have tiles := rep.wellFormed.tiles region member
      rw [split] at tiles others ⊢
      have count := busyCount_release (by decide) tiles busy
      have positive : 0 < busyCount (release 8192 entry.addr (front ++ entry :: back)) := by
        omega
      exact List.countP_pos_iff.mp positive
  | vanished only middle abstract' step vanished =>
      have nothing := idle_of_free rep member entryMem busy only
      have unlinked : ((heap.abstraction.free region.base entry.addr).unlink region.base).listed =
          [] := if_pos head
      rw [vanished.represents.heldByFirst_iff]
      have kept : ∀ other ∈ abstract'.regions, other ∈ heap.abstraction.regions ∧
          abstract'.entries other.base =
            (heap.abstraction.free region.base entry.addr).entries other.base := by
        intro other otherMem
        rcases vanished.either with rfl | rfl
        · exact ⟨(List.mem_filter.mp otherMem).1, rfl⟩
        · exact ⟨otherMem, rfl⟩
      have empty : abstract'.listed = [] := by
        rcases vanished.either with rfl | rfl
        · exact unlinked
        · exact unlinked
      constructor
      · intro other otherMem x xMem xBusy
        obtain ⟨old, entriesEq⟩ := kept other otherMem
        rw [entriesEq] at xMem
        by_cases same : other.base = region.base
        · rw [same] at xMem
          rw [nothing x xMem] at xBusy
          cases xBusy
        · rw [AbstractHeap.free, AbstractHeap.setEntries_entries_of_ne _ _ same] at xMem
          rw [idle other old same x xMem] at xBusy
          cases xBusy
      · intro base first
        rw [empty] at first
        cases first

theorem WritesPayload.heldByFirst (valid : Valid pages guarded heap)
    (writes : WritesPayload heap after entry) (held : heap.HeldByFirst) : after.HeldByFirst := by
  cases valid with
  | live rep =>
      rw [(rep.writesPayload writes).heldByFirst_iff]
      exact rep.heldByFirst_iff.mp held
  | dead stands failed => exact absurd failed held.intact

theorem Effect.heldByFirst_malloc {memory : Nat} (held : heap.HeldByFirst)
    (serves : heap.ServesFirst env pages size)
    (effect : Effect env pages guarded heap (.malloc size) memory after) : after.HeldByFirst := by
  cases effect with
  | malloc rep outcome => exact outcome.heldByFirst rep held serves
  | nothing => exact held

theorem Effect.heldByFirst_free {ptr : Nat} (held : heap.HeldByFirst)
    (effect : Effect env pages guarded heap (.free ptr) 0 after) : after.HeldByFirst := by
  cases effect with
  | free rep member listed entryMem busy bound resolved outcome =>
      exact outcome.heldByFirst rep member entryMem busy held
  | nothing => exact held

/-! ## Tame calls -/

/-- What `vgc_free` would release is in use. -/
theorem Valid.inUse_of_releases {ptr : Nat} (valid : Valid pages guarded heap) {header : Nat}
    (frees : header ∈ (Call.free ptr).releases heap 0) : heap.InUse header := by
  unfold Call.releases at frees
  simp only at frees
  split at frees
  · rename_i resolves
    obtain ⟨_, base, listed, block, blockMem, busy, resolved⟩ := resolves
    obtain ⟨region, member, rfl⟩ := valid.listed listed
    rw [← Option.mem_some_iff.mp frees, resolved]
    exact inUse_iff.mpr ⟨block, ⟨region, member, blockMem, busy⟩, rfl⟩
  · cases frees

/-- A tame call turns over the block that it returns and the one it releases. -/
theorem Course.turnover {call : Call} {result : Nat} (valid : Valid pages guarded heap)
    (course : Course env pages guarded heap call result after) :
    ∃ granted : Option Nat, (granted.isSome = true ↔ result ≠ 0) ∧
      Turnover heap after granted (call.releases heap result) := by
  cases course with
  | idle null kept same =>
      subst same null
      rw [kept]
      exact ⟨none, by simp, .of_busy fun _ => Iff.rfl⟩
  | asked asks kept request written =>
      rw [kept]
      obtain ⟨granted, served, turnover⟩ := request.requested
      refine ⟨granted, served, ?_⟩
      rcases written with rfl | ⟨entry, writes⟩
      · exact turnover
      · exact turnover.trans (writes.turnover (request.valid valid)) (by simp)
  | freed null frees release =>
      subst null
      rw [frees]
      exact ⟨none, by simp, release.released valid⟩
  | @moved ptr size middle written entry asks frees request writes resolves release =>
      rw [frees]
      obtain ⟨granted, served, turnover⟩ := request.requested
      have grown := request.valid valid
      have copied := turnover.trans (writes.turnover grown) (by simp)
      have still := grown.writesPayload writes
      have same : (Call.free ptr).releases written 0 = (Call.free ptr).releases heap 0 := by
        unfold Call.releases
        simp only [if_pos resolves.1, if_pos resolves.2]
        rw [valid.stands.headerOf_eq, still.stands.headerOf_eq]
      refine ⟨granted, served, copied.trans (same ▸ release.released still) ?_⟩
      intro header gone new
      exact turnover.fresh header new (valid.inUse_of_releases gone)

theorem Course.heldByFirst {call : Call} {result : Nat} (valid : Valid pages guarded heap)
    (held : heap.HeldByFirst) (serves : ∀ size ∈ call.asks, heap.ServesFirst env pages size)
    (course : Course env pages guarded heap call result after) : after.HeldByFirst := by
  cases course with
  | idle null kept same =>
      rw [same]
      exact held
  | asked asks kept request written =>
      have grown := request.heldByFirst_malloc held (serves _ asks)
      rcases written with rfl | ⟨entry, writes⟩
      · exact grown
      · exact writes.heldByFirst (request.valid valid) grown
  | freed null frees release => exact release.heldByFirst_free held
  | moved asks frees request writes resolves release =>
      have grown := request.heldByFirst_malloc held (serves _ asks)
      exact release.heldByFirst_free (writes.heldByFirst (request.valid valid) grown)

/-! ## Exact reports -/

/-- `mallocCleanup` ends, it reports leaks exactly when there are some, and it
shows their headers as those of the blocks in use. -/
def ReportsExactly (env : Env) (headers : List Nat) (state : State) : Prop :=
  ∃ last report, mallocCleanup env state = .ok () last ∧
    last.messages = report ++ state.messages ∧
    (report.any Message.reportsLeak = true ↔ headers ≠ []) ∧
    (report.filterMap Message.shownHeader).Perm headers

/-- The report is exact for what the run has left outstanding. -/
def ReportsLeaks (env : Env) (trace : List Finished) (state : State) : Prop :=
  ReportsExactly env ((outstanding trace).map Holding.header) state

/-- What `mallocCleanup` says decides whether its report is exact. -/
theorem Tells.reportsExactly_iff {live : List Nat} {state : State} {leak : Bool}
    {headers : List Nat} (tells : Tells mallocCleanup env state.heap state.held leak headers) :
    ReportsExactly env live state ↔ (leak = true ↔ live ≠ []) ∧ headers.Perm live := by
  obtain ⟨_, last, ended, report, same, said⟩ := tells state.messages state rfl
  have added : last.messages = report ++ state.messages := congrArg Prod.snd same
  constructor
  · rintro ⟨other, again, endedToo, addedToo, exact⟩
    obtain ⟨_, rfl⟩ := (Outcome.ok.injEq _ _ _ _).mp (ended.symm.trans endedToo)
    obtain rfl := List.append_cancel_right (added.symm.trans addedToo)
    rwa [said.leak, said.headers] at exact
  · rintro exact
    rw [← said.leak, ← said.headers] at exact
    exact ⟨last, report, ended, added, exact⟩

theorem Stands.inUse_iff {header : Nat} (stands : Stands pages guarded heap abstract) :
    heap.InUse header ↔ ∃ region ∈ abstract.regions, ∃ x ∈ abstract.entries region.base,
      x.busy = true ∧ x.addr = header := by
  rw [VgcMalloc.inUse_iff]
  constructor
  · rintro ⟨x, busy, same⟩
    obtain ⟨region, member, xMem, xBusy⟩ := stands.busy_iff.mp busy
    exact ⟨region, member, x, xMem, xBusy, same⟩
  · rintro ⟨region, member, x, xMem, xBusy, same⟩
    exact ⟨x, stands.busy_iff.mpr ⟨region, member, xMem, xBusy⟩, same⟩

/-- A block in use of one region is none of another one. -/
theorem Stands.base_eq {other : Region} {y : Entry} (stands : Stands pages guarded heap abstract)
    (member : region ∈ abstract.regions) (xMem : x ∈ abstract.entries region.base)
    (otherMem : other ∈ abstract.regions) (yMem : y ∈ abstract.entries other.base)
    (same : x.addr = y.addr) : region.base = other.base := by
  by_contra ne
  rcases stands.blocks_disjoint member xMem otherMem yMem with rfl | apart
  · exact stands.wellFormed.not_mem_other otherMem member ne yMem xMem
  · omega

/-- Nothing is reported without an MMAP, which is exact when nothing is in
use. -/
theorem Accounted.reportsExactly_iff_of_nil {live : List Nat} {state : State}
    (rep : Represents pages guarded state.heap state.heap.abstraction)
    (accounted : Accounted state.heap live) (empty : state.heap.mmaps = []) :
    ReportsExactly env live state ↔ state.heap.abstraction.HeldByFirst := by
  have inUse := fun header => (accounted.inUse header).trans rep.toStands.inUse_iff
  have null : state.heap.shared.mmapBlockFirst = 0 := by
    rw [rep.first, abstraction_listed, empty]
    rfl
  rw [(tells_mallocCleanup_of_null null).reportsExactly_iff]
  constructor
  · rintro ⟨_, same⟩
    rw [List.nil_perm] at same
    constructor
    · intro region member x xMem busy
      have listed := (inUse x.addr).mpr ⟨region, member, x, xMem, busy, rfl⟩
      rw [same] at listed
      exact absurd listed List.not_mem_nil
    · intro base head
      rw [abstraction_listed, empty] at head
      cases head
  · rintro ⟨home, _⟩
    have none : live = [] := by
      refine List.eq_nil_iff_forall_not_mem.mpr fun header listed => ?_
      obtain ⟨region, member, x, xMem, busy, _⟩ := (inUse header).mp listed
      have head := home region member x xMem busy
      rw [abstraction_listed, empty] at head
      cases head
    rw [none]
    exact ⟨by simp, List.Perm.refl _⟩

/-- Leaks are reported with an MMAP, and its blocks in use shown, which is
exact when there are some and no others. -/
theorem Accounted.reportsExactly_iff_of_cons {live : List Nat} {state : State}
    {rest : List Nat} (rep : Represents pages guarded state.heap state.heap.abstraction)
    (accounted : Accounted state.heap live)
    (member : region ∈ state.heap.abstraction.regions)
    (shape : state.heap.mmaps = region.base :: rest) :
    ReportsExactly env live state ↔ state.heap.abstraction.HeldByFirst := by
  have inUse := fun header => (accounted.inUse header).trans rep.toStands.inUse_iff
  have shown := fun header => List.mem_reverse.trans
    (@Stands.mem_busyHeaders _ _ _ _ _ header rep.toStands member)
  have head : state.heap.abstraction.listed.head? = some region.base := by
    rw [abstraction_listed, shape]
    rfl
  rw [(rep.tells_mallocCleanup member shape).reportsExactly_iff]
  constructor
  · rintro ⟨leak, same⟩
    constructor
    · intro other otherMem x xMem busy
      have listed := (inUse x.addr).mpr ⟨other, otherMem, x, xMem, busy, rfl⟩
      obtain ⟨y, yMem, _, sameAddr⟩ := (shown x.addr).mp (same.mem_iff.mpr listed)
      rw [head, rep.toStands.base_eq member yMem otherMem xMem sameAddr]
    · intro base first
      obtain rfl : region.base = base := Option.some.inj (head.symm.trans first)
      obtain ⟨header, listed⟩ := List.exists_mem_of_ne_nil _ (leak.mp rfl)
      obtain ⟨x, xMem, busy, _⟩ := (shown header).mp (same.mem_iff.mpr listed)
      exact ⟨x, xMem, busy⟩
  · rintro ⟨home, used⟩
    constructor
    · obtain ⟨x, xMem, busy⟩ := used region.base head
      have listed := (inUse x.addr).mpr ⟨region, member, x, xMem, busy, rfl⟩
      exact iff_of_true rfl (List.ne_nil_of_mem listed)
    · refine (List.perm_ext_iff_of_nodup
        (List.nodup_reverse.mpr (rep.toStands.nodup_busyHeaders member))
        accounted.nodup).mpr fun header => ?_
      rw [shown, inUse]
      constructor
      · rintro ⟨x, xMem, busy, same⟩
        exact ⟨region, member, x, xMem, busy, same⟩
      · rintro ⟨other, otherMem, x, xMem, busy, same⟩
        have first := home other otherMem x xMem busy
        rw [head] at first
        rw [← Option.some.inj first] at xMem
        exact ⟨x, xMem, busy, same⟩

/-- The report is exact when the first MMAP holds the blocks in use, and only
then. -/
theorem Accounted.reportsExactly_iff {live : List Nat} {state : State}
    (valid : Valid pages guarded state.heap)
    (accounted : Accounted state.heap live) :
    ReportsExactly env live state ↔ state.heap.HeldByFirst := by
  cases valid with
  | dead stands failed =>
      refine iff_of_false ?_ fun held => held.intact failed
      rintro ⟨last, _, ended, _⟩
      have rep := (Valid.dead stands failed).represents_of_cleanup ended
      exact rep.first_ne_mapFailed failed
  | live rep =>
      rw [rep.heldByFirst_iff]
      cases shape : state.heap.mmaps with
      | nil => exact accounted.reportsExactly_iff_of_nil rep shape
      | cons base rest =>
          obtain ⟨region, member, rfl⟩ : ∃ region ∈ state.heap.abstraction.regions,
              region.base = base :=
            rep.listed (by rw [abstraction_listed, shape]; exact List.mem_cons_self)
          exact accounted.reportsExactly_iff_of_cons rep member shape

/-- The call asks `vgc_malloc` for nothing, or for something that leaves the
blocks in use in the first listed MMAP. -/
def StaysInFirst (env : Env) (pages : MmapPages) (state : State) (call : Call) : Prop :=
  ∀ size ∈ call.asks, state.heap.ServesFirst env pages size

instance (env : Env) (pages : MmapPages) (state : State) (call : Call) :
    Decidable (StaysInFirst env pages state call) :=
  inferInstanceAs (Decidable (∀ size ∈ call.asks, state.heap.ServesFirst env pages size))

/-- The outstanding allocations of a tame run that frees what it owns are the
blocks in use. -/
theorem accounted_of_run {trace : List Finished} {state : State} (mutexes : MutexCallsSucceed env)
    (run : ClientRun env pages guarded Tame trace state) :
    state.held = [] ∧ Valid pages guarded state.heap ∧
      (FreesOwned trace → Accounted state.heap ((outstanding trace).map Holding.header)) := by
  refine Run.induct (fun trace state => state.held = [] ∧ Valid pages guarded state.heap ∧
    (FreesOwned trace → Accounted state.heap ((outstanding trace).map Holding.header))) ?_ ?_ run
  · refine ⟨rfl, valid_start pages guarded, fun _ => ⟨?_, List.nodup_nil⟩⟩
    intro header
    simp [outstanding, Heap.InUse, Heap.busyBlocks, start]
  · rintro trace state call result last ⟨unlocked, valid, accounted⟩ tame ended
    obtain ⟨held, course⟩ := valid.course mutexes unlocked tame ended
    obtain ⟨granted, served, turnover⟩ := course.turnover valid
    have same : returned ⟨state, call, result, last⟩ = granted := turnover.returned_eq served
    refine ⟨held, course.valid valid, ?_⟩
    rintro ⟨now, before⟩
    rw [headers_outstanding now, same]
    exact (accounted before).turnover turnover

/-- The first MMAP holds the blocks in use in every state of a run whose
requests are served by it. -/
theorem heldByFirst_of_run {trace : List Finished} {state : State}
    (mutexes : MutexCallsSucceed env)
    (run : ClientRun env pages guarded
      (fun state call => Tame state call ∧ StaysInFirst env pages state call) trace state) :
    state.heap.HeldByFirst := by
  have all := Run.invariant (fun state => state.held = [] ∧ Valid pages guarded state.heap ∧
    state.heap.HeldByFirst) ?_ ?_ run
  · exact all.2.2
  · refine ⟨rfl, valid_start pages guarded, ?_⟩
    exact (represents_start pages guarded).heldByFirst_iff.mpr ⟨by simp, by simp⟩
  · rintro state call result last ⟨unlocked, valid, first⟩ ⟨tame, serves⟩ ended
    obtain ⟨held, course⟩ := valid.course mutexes unlocked tame ended
    exact ⟨held, course.valid valid, course.heldByFirst valid first serves⟩

/-- The report is exact at the end of a run that frees what it owns exactly when
the first MMAP of the list holds all blocks in use, and at least one. -/
theorem reportsLeaks_iff_of_run {trace : List Finished} {state : State}
    (mutexes : MutexCallsSucceed env) (run : ClientRun env pages guarded Tame trace state)
    (owned : FreesOwned trace) : ReportsLeaks env trace state ↔ state.heap.HeldByFirst := by
  obtain ⟨_, valid, accounted⟩ := accounted_of_run mutexes run
  exact (accounted owned).reportsExactly_iff valid

theorem reportsLeaks_iff_of_run_sample :
    ∃ trace state, ClientRun generousEnv .default true Tame trace state ∧ FreesOwned trace ∧
      outstanding trace = [⟨0x10006feb, 0x10004000⟩] ∧
      (ReportsLeaks generousEnv trace state ↔ state.heap.HeldByFirst) := by
  have found : (replay Call.program generousEnv Tame [] (start .default true)
      [.malloc 10, .calloc 3 7, .free 0x10003ff6]).map
        (fun final => (decide (FreesOwned final.1), outstanding final.1)) =
      some (true, [⟨0x10006feb, 0x10004000⟩]) := by decide +kernel
  obtain ⟨final, replayed, same⟩ := Option.map_eq_some_iff.mp found
  obtain ⟨owned, left⟩ := Prod.mk.inj same
  have run := Run.start.replay replayed
  have freed := of_decide_eq_true owned
  exact ⟨_, _, run, freed, left, reportsLeaks_iff_of_run generousEnv_mutexes run freed⟩

/-- The report is exact at the end of every run whose requests are served by
the first MMAP of the list. -/
theorem reportsLeaks_of_served {trace : List Finished} {state : State}
    (mutexes : MutexCallsSucceed env)
    (run : ClientRun env pages guarded
      (fun state call => Tame state call ∧ StaysInFirst env pages state call) trace state)
    (owned : FreesOwned trace) : ReportsLeaks env trace state := by
  have tame : ClientRun env pages guarded Tame trace state := run.mono fun _ _ both => both.1
  obtain ⟨_, valid, accounted⟩ := accounted_of_run mutexes tame
  exact ((accounted owned).reportsExactly_iff valid).mpr (heldByFirst_of_run mutexes run)

/-- A first request for no bytes leaves an MMAP: leaks are reported although
nothing has been returned. -/
theorem not_reportsLeaks_of_run :
    ¬∀ env pages guarded trace state, MutexCallsSucceed env →
      ClientRun env pages guarded Tame trace state → ReportsLeaks env trace state := by
  intro claim
  have found : (replay Call.program generousEnv Tame [] (start .default true) [.malloc 0]).map
      (fun final => (outstanding final.1, final.2.messages.any Message.reportsLeak,
        (mallocCleanup generousEnv final.2).normal.map fun ended =>
          ended.2.messages.any Message.reportsLeak)) = some ([], false, some true) := by
    decide +kernel
  obtain ⟨final, replayed, same⟩ := Option.map_eq_some_iff.mp found
  have run := Run.start.replay replayed
  obtain ⟨last, report, ended, added, exact, _⟩ := claim _ _ _ _ _ generousEnv_mutexes run
  simp only [Prod.mk.injEq, ended, Outcome.normal, Option.map_some, Option.some.injEq] at same
  obtain ⟨empty, quiet, reported⟩ := same
  rw [added, List.any_append, quiet, Bool.or_false] at reported
  rw [empty] at exact
  exact exact.mp reported rfl

end VgcMalloc
