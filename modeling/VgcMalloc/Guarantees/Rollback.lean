import VgcMalloc.Refine.Answers
import VgcMalloc.Refine.Create
import VgcMalloc.Guarantees.Checks

/-!
# The rollback of a failed creation

`allocMMAP` gives up after the kernel has mapped a region when a mutex call
fails.  Before the header is initialised the size that it passes to `munmap` is
zero, and the region stays.  Afterwards the region goes, but the last MMAP
keeps its new link.
-/

namespace VgcMalloc

open Program Tiling Linked

variable {env : Env} {heap middle : Heap} {held : List Mutex} {calls : Nat} {pages : MmapPages}
  {region : Region} {size base last : Nat} {state final : State}

/-! ## What should be left -/

/-- The mapped regions are MMAPs that lie apart, and their headers can be read.
Their links are arbitrary. -/
structure Heap.Separate (pages : MmapPages) (heap : Heap) : Prop where
  placed : ∀ region ∈ heap.mapped, region.Placed pages.bytes
  apart : heap.mapped.Pairwise Region.Disjoint
  readable : ∀ region ∈ heap.mapped, heap.mmapAccessible region.base = true
  pageSize : heap.shared.pageSize = 4096

/-- So it is in every state that a run reaches. -/
theorem Stands.separate {guarded : Bool} {abstract : AbstractHeap}
    (stands : Stands pages guarded heap abstract) : heap.Separate pages := by
  constructor
  · intro region member
    exact stands.wellFormed.placed region (stands.mapped ▸ member)
  · rw [stands.mapped]
    exact stands.wellFormed.disjoint
  · intro region member
    exact (stands.regions region (stands.mapped ▸ member)).mmap.accessible
  · exact stands.pageSize

/-- The MMAP links to no region that is not mapped. -/
def Heap.LinksMapped (heap : Heap) (mmapBlock : Nat) : Prop :=
  heap.nextMmap mmapBlock = 0 ∨ heap.isMapped (heap.nextMmap mmapBlock) = true

/-- Nothing is left of an `allocMMAP` behind the MMAP `last`. -/
structure RolledBack (before after : Heap) (last : Nat) : Prop where
  unmapped : after.mapped = before.mapped
  link : last ≠ 0 → after.nextMmap last = before.nextMmap last
  count : after.shared.mmapBlockCount = before.shared.mmapBlockCount
  linked : ∀ region ∈ before.mapped, before.LinksMapped region.base →
    after.LinksMapped region.base

/-- The mutex of the new region is set up and locked. -/
def Env.Prepares (env : Env) (held : List Mutex) (call base : Nat) : Prop :=
  env.mutexattrInit call = true ∧ env.mutexInit (call + 1) = true ∧
    env.Locks held (call + 2) (.mmapBlock base)

/-- The kernel has no region to give, or it takes it back after a failing
unlock, and no MMAP had to be linked to it. -/
def State.Withdraws (state : State) (env : Env) (size last : Nat) : Prop :=
  ∀ base, state.heap.placement env size = some base →
    env.Prepares state.held state.calls base ∧ env.munmap (state.calls + 5) = true ∧
      (last = 0 ∨ state.heap.nextMmap last = base)

/-! ## The calls of `allocMMAP` -/

theorem silent_writeMmapFields {mmapBlock : Nat} {fields : List (MmapField × Nat)} :
    Keeps State.calls (writeMmapFields mmapBlock fields) := by
  induction fields with
  | nil => exact Keeps.pure ()
  | cons first rest ih => exact Keeps.bind silent_writeMmapField fun _ => ih

/-- The set-up of an MMAP makes one call, which protects its first block. -/
theorem takes_initialiseMMAP : Takes 1 (initialiseMMAP size last base) := by
  apply silent_writeMmapFields.bind_adds
  intro _
  apply silent_writeMmapField.when.bind_adds
  intro _
  apply silent_writeMmapFields.bind_adds
  intro _
  apply (silent_emit _).bind_adds
  intro _
  apply (keeps_readMmapHeader base).bind_adds
  intro header
  apply silent_writeMallocFields.bind_adds
  intro _
  exact takes_vgcMprotect.bind_keeps fun _ => Keeps.pure ()

/-! ## How `allocMMAP` fails -/

theorem addRegion_header_size (placed : region.Placed pages.bytes) :
    ((heap.addRegion region.base region.length).mmapHeader region.base).size = 0 := by
  have room := placed.room
  rw [Heap.addRegion, pageRound_of_whole placed.whole]
  exact Bytes.load_fill_zero _ (by omega) (by omega)

/-- The ends of an `allocMMAP` that returns `MAP_FAILED`. -/
inductive AllocFailure (env : Env) (heap : Heap) (held : List Mutex) (calls size last : Nat) :
    Heap → Prop where
  | refused (none : heap.placement env size = none) :
      AllocFailure env heap held calls size last heap.asked
  | kept (base : Nat) (chosen : heap.placement env size = some base)
      (unprepared : ¬env.Prepares held calls base) :
      AllocFailure env heap held calls size last (heap.asked.addRegion base size)
  | withdrawn (base : Nat) (middle : Heap) (chosen : heap.placement env size = some base)
      (prepared : env.Prepares held calls base)
      (initialised :
        Initialised env ⟨base, size⟩ last (heap.asked.addRegion base size) middle) :
      AllocFailure env heap held calls size last (middle.unmapped env (calls + 5) base size)

/-- The cleanup before the header is initialised unmaps nothing. -/
theorem counted_unmapFresh {function : String} (placed : region.Placed pages.bytes) :
    Yields counted (unmapOrReport function region.base) env
      ((heap.addRegion region.base region.length, held), calls) fun _ after =>
        after.1.1 = heap.addRegion region.base region.length := by
  have room := placed.room
  have opens : ∀ x, region.base ≤ x → x < region.base + region.length →
      (heap.addRegion region.base region.length).isAccessible x = true :=
    fun x low high => addRegion_isAccessible placed low high
  have readable : (heap.addRegion region.base region.length).mmapAccessible region.base = true := by
    rw [Heap.mmapAccessible, opens _ (by omega) (by omega), opens _ (by omega) (by omega)]
    rfl
  apply (counted_unmapOrReport readable).mono
  rintro _ _ rfl
  rw [addRegion_header_size placed, Heap.unmapped, if_neg (by simp)]

theorem silent_mmap : Keeps State.calls (mmap size) := by
  intro env state value final ended
  unfold mmap at ended
  split at ended
  · split at ended
    · cases ended
      rfl
    · cases ended
      rfl
  · cases ended
    rfl

/-- The header of the last MMAP lies apart from a region that has just been
mapped. -/
theorem Heap.Separate.last_apart (separate : heap.Separate pages)
    (apart : ∀ other ∈ heap.mapped, region.Disjoint other)
    (present : last ≠ 0 → ∃ region ∈ heap.mapped, region.base = last) (some : last ≠ 0) :
    last + 105 ≤ region.base ∨ region.base + region.length ≤ last := by
  obtain ⟨other, otherMem, rfl⟩ := present some
  have room := (separate.placed other otherMem).room
  have disjoint := apart other otherMem
  unfold Region.Disjoint at disjoint
  omega

theorem Heap.Separate.last_open (separate : heap.Separate pages)
    (placed : region.Placed pages.bytes) (apart : ∀ other ∈ heap.mapped, region.Disjoint other)
    (present : last ≠ 0 → ∃ region ∈ heap.mapped, region.base = last) (some : last ≠ 0) :
    (heap.asked.addRegion region.base region.length).mmapAccessible last = true := by
  obtain ⟨other, otherMem, rfl⟩ := present some
  have otherPlaced := separate.placed other otherMem
  have room := otherPlaced.room
  have disjoint := apart other otherMem
  have member : other ∈ heap.asked.mapped := otherMem
  rw [Heap.mmapAccessible,
    addRegion_isAccessible_other placed otherPlaced disjoint member (by omega) (by omega),
    addRegion_isAccessible_other placed otherPlaced disjoint member (by omega) (by omega)]
  exact separate.readable other otherMem

theorem Heap.Separate.last_lt (separate : heap.Separate pages)
    (present : last ≠ 0 → ∃ region ∈ heap.mapped, region.base = last) : last < 2 ^ 64 := by
  by_cases null : last = 0
  · omega
  · obtain ⟨other, otherMem, rfl⟩ := present null
    have user := (separate.placed other otherMem).user
    omega

theorem Initialised.readable (placed : region.Placed pages.bytes)
    (init : Initialised env region last (heap.addRegion region.base region.length) middle) :
    middle.mmapAccessible region.base = true := by
  have room := placed.room
  have opens : ∀ x, region.base ≤ x → x < region.base + 4096 →
      middle.isAccessible x = true := by
    intro x low high
    rw [init.guard.isAccessible_of_outside (by omega)]
    exact addRegion_isAccessible placed low (by omega)
  rw [Heap.mmapAccessible, opens _ (by omega) (by omega), opens _ (by omega) (by omega)]
  rfl

/-- The cleanup after the header is initialised passes the full size. -/
theorem counted_unmapInitialised {function : String} (placed : region.Placed pages.bytes)
    (init : Initialised env region last (heap.addRegion region.base region.length) middle) :
    Yields counted (unmapOrReport function region.base) env ((middle, held), calls)
      fun _ after => after.1.1 = middle.unmapped env calls region.base region.length := by
  apply (counted_unmapOrReport (init.readable placed)).mono
  rintro _ _ rfl
  rw [init.mmap]

theorem yields_allocMMAP_any (separate : heap.Separate pages) (asks : pages.Asks size)
    (present : last ≠ 0 → ∃ region ∈ heap.mapped, region.base = last) :
    Yields counted (allocMMAP size last) env ((heap, held), calls) fun value after =>
      value = mapFailed → AllocFailure env heap held calls size last after.1.1 := by
  unfold allocMMAP
  apply Yields.seq ((yields_mmap size).counting silent_mmap.adds calls)
  rintro base ⟨⟨_, _⟩, count⟩ ⟨outcome, counts⟩
  obtain rfl : count = calls := counts
  rcases outcome with ⟨_, chosen, rfl, same⟩ | ⟨none, rfl, same⟩
  · cases same
    obtain ⟨placed, apart⟩ := placement_placed asks chosen
    generalize regionEq : (⟨base, size⟩ : Region) = region at placed apart
    obtain ⟨rfl, rfl⟩ : base = region.base ∧ size = region.length := by
      rw [← regionEq]
      exact ⟨rfl, rfl⟩
    have user := placed.user
    have room := placed.room
    have opens : ∀ x, region.base ≤ x → x < region.base + region.length →
        (heap.asked.addRegion region.base region.length).isAccessible x = true :=
      fun x low high => addRegion_isAccessible placed low high
    have mmapOpen : (heap.asked.addRegion region.base region.length).mmapAccessible
        region.base = true := by
      rw [Heap.mmapAccessible, opens _ (by omega) (by omega), opens _ (by omega) (by omega)]
      rfl
    have blockOpen : (heap.asked.addRegion region.base region.length).mallocAccessible
        (region.base + 4096) = true :=
      Heap.mallocAccessible_of fun x low high => opens x (by omega) (by omega)
    have kept : ∀ {held' : List Mutex} {later : Nat} {function : String},
        ¬env.Prepares held count region.base →
        Yields counted (unmapOrReport function region.base >>= fun _ => Pure.pure mapFailed) env
          ((heap.asked.addRegion region.base region.length, held'), later) fun value after =>
            value = mapFailed →
              AllocFailure env heap held count region.length last after.1.1 := by
      intro held' later function unprepared
      apply Yields.seq (counted_unmapFresh placed)
      rintro _ ⟨⟨_, _⟩, _⟩ rfl
      apply Yields.pure
      intro _
      exact .kept region.base chosen unprepared
    rw [if_neg (by rw [mapFailed_eq]; omega)]
    apply Yields.seq (counted_answer Env.mutexattrInit)
    rintro _ _ ⟨rfl, rfl⟩
    apply Yields.ite
    · intro fails
      apply counted_vgcMessage_seq
      apply kept
      rintro ⟨works, -⟩
      simp [works] at fails
    intro attrInit
    apply Yields.seq (counted_answer Env.mutexInit)
    rintro _ _ ⟨rfl, rfl⟩
    apply Yields.ite
    · intro fails
      apply counted_vgcMessage_seq
      apply Yields.seq (counted_orReport
        ((counted_answer Env.mutexattrDestroy).mono fun _ _ ends => ends.2))
      rintro _ _ rfl
      apply kept
      rintro ⟨-, works, -⟩
      simp [works] at fails
    intro init
    have mutexOpen : mutexAccessible (heap.asked.addRegion region.base region.length)
        (.mmapBlock region.base) = true := mmapOpen
    apply Yields.seq (counted_pthreadMutexLock mutexOpen)
    rintro _ _ ⟨rfl, rfl⟩
    apply Yields.ite
    · intro fails
      apply counted_vgcMessage_seq
      apply kept
      rintro ⟨-, -, locks⟩
      simp [locks] at fails
    intro lockEnds
    have locks : env.Locks held (count + 2) (.mmapBlock region.base) := by
      simpa using lockEnds
    have prepared : env.Prepares held count region.base := by
      refine ⟨?_, ?_, locks⟩
      · simpa using attrInit
      · simpa using init
    rw [if_pos locks]
    have lastOpen := separate.last_open placed apart present
    have lastApart := separate.last_apart apart present
    apply Yields.seq ((yields_initialiseMMAP placed mmapOpen blockOpen lastOpen lastApart
      (separate.last_lt present) separate.pageSize).counting takes_initialiseMMAP (count + 3))
    rintro _ ⟨⟨middle, _⟩, later⟩ ⟨⟨rfl, initialised⟩, counts⟩
    obtain rfl : later = count + 4 := counts
    have endOpen : mutexAccessible middle (.mmapBlock region.base) = true :=
      initialised.readable placed
    apply Yields.seq (counted_pthreadMutexUnlock endOpen)
    rintro _ _ ⟨rfl, rfl⟩
    apply Yields.ite
    · intro _
      apply counted_vgcMessage_seq
      apply Yields.seq (counted_unmapInitialised placed initialised)
      rintro _ ⟨⟨_, _⟩, _⟩ rfl
      apply Yields.pure
      intro _
      exact .withdrawn region.base middle chosen prepared (regionEq ▸ initialised)
    · intro _
      apply Yields.seq ((yields_modifyShared _).uncounted _)
      intro _ _ _
      apply Yields.pure
      intro failed
      rw [mapFailed_eq] at failed
      omega
  · cases same
    rw [if_pos rfl]
    apply counted_vgcMessage_seq
    apply Yields.pure
    intro _
    exact .refused none

/-! ## What is left -/

theorem Heap.linksMapped_congr {after : Heap} (mapped : after.mapped = heap.mapped)
    (next : after.nextMmap base = heap.nextMmap base) (linked : heap.LinksMapped base) :
    after.LinksMapped base := by
  unfold Heap.LinksMapped Heap.isMapped at linked ⊢
  rw [next, mapped]
  exact linked

/-- A new region does not stay unnoticed. -/
theorem not_rolledBack_of_cons {after : Heap} {new : Region}
    (mapped : after.mapped = new :: heap.mapped) : ¬RolledBack heap after last := by
  intro rolled
  have lengths := congrArg List.length (mapped.symm.trans rolled.unmapped)
  simp at lengths

section Withdrawn

variable (separate : heap.Separate pages) (placed : region.Placed pages.bytes)
  (apart : ∀ other ∈ heap.mapped, region.Disjoint other)
  (init : Initialised env region last (heap.asked.addRegion region.base region.length) middle)
include separate placed apart init

/-- A `munmap` of the full size takes the new region away and no other. -/
theorem Initialised.removeRegion_mapped :
    (middle.removeRegion region.base region.length).mapped = heap.mapped := by
  have mapped : middle.mapped = region :: heap.mapped :=
    init.mapped.trans (addRegion_mapped placed)
  rw [Heap.removeRegion, pageRound_of_whole placed.whole, mapped, List.filter_cons_of_neg (by simp)]
  apply List.filter_eq_self.mpr
  intro other member
  have room := (separate.placed other member).room
  have newRoom := placed.room
  have disjoint := apart other member
  unfold Region.Disjoint at disjoint
  simp only [decide_eq_true_eq]
  omega

/-- The other MMAPs keep their links. -/
theorem Initialised.nextMmap_other {other : Region} (member : other ∈ heap.mapped)
    (present : last ≠ 0 → ∃ region ∈ heap.mapped, region.base = last) (ne : other.base ≠ last) :
    middle.nextMmap other.base = heap.nextMmap other.base := by
  have room := (separate.placed other member).room
  have disjoint := apart other member
  unfold Region.Disjoint at disjoint
  apply congrArg MmapHeader.next
  apply Bytes.mmapHeader_congr
  intro x low high
  rw [init.memory x (by omega), addRegion_memory placed (by omega)]
  · rfl
  · intro some
    obtain ⟨home, homeMem, rfl⟩ := present some
    have homeRoom := (separate.placed home homeMem).room
    have ne' : other ≠ home := fun same => ne (congrArg Region.base same)
    have between := separate.apart.forall member homeMem ne'
    unfold Region.Disjoint at between
    omega

/-- With the region away only the link of the last MMAP can be wrong. -/
theorem Initialised.undone_iff
    (present : last ≠ 0 → ∃ region ∈ heap.mapped, region.base = last) :
    RolledBack heap (middle.removeRegion region.base region.length) last ↔
      last = 0 ∨ heap.nextMmap last = region.base := by
  have mapped := init.removeRegion_mapped separate placed apart
  have shared : middle.shared = heap.shared := init.shared
  constructor
  · intro rolled
    by_cases null : last = 0
    · exact Or.inl null
    · apply Or.inr
      have linked : middle.nextMmap last = region.base := congrArg MmapHeader.next (init.link null)
      exact (rolled.link null).symm.trans linked
  · intro old
    have same : ∀ other ∈ heap.mapped, middle.nextMmap other.base = heap.nextMmap other.base := by
      intro other member
      by_cases isLast : other.base = last
      · have some : last ≠ 0 := by
          have positive := (separate.placed other member).positive
          omega
        have linked : middle.nextMmap last = region.base :=
          congrArg MmapHeader.next (init.link some)
        rw [isLast, linked, old.resolve_left some]
      · exact init.nextMmap_other separate placed apart member present isLast
    refine ⟨mapped, ?_, congrArg Shared.mmapBlockCount shared, ?_⟩
    · intro some
      obtain ⟨other, member, rfl⟩ := present some
      exact same other member
    · intro other member
      exact Heap.linksMapped_congr mapped (same other member)

end Withdrawn

/-- A failed `allocMMAP` leaves nothing behind exactly when it was refused by
the kernel, or got as far as the unlock with no MMAP to link the new one to. -/
theorem rolledBack_iff (separate : state.heap.Separate pages) (asks : pages.Asks size)
    (present : last ≠ 0 → ∃ region ∈ state.heap.mapped, region.base = last)
    (failed : allocMMAP size last env state = .ok mapFailed final) :
    RolledBack state.heap final.heap last ↔ state.Withdraws env size last := by
  have failure : AllocFailure env state.heap state.held state.calls size last final.heap :=
    (yields_allocMMAP_any separate asks present).allows state rfl mapFailed final failed rfl
  generalize final.heap = after at failure
  cases failure with
  | refused none =>
      constructor
      · intro _ base chosen
        cases none.symm.trans chosen
      · intro _
        exact ⟨rfl, fun _ => rfl, rfl, fun _ _ linked => linked⟩
  | kept base chosen unprepared =>
      obtain ⟨placed, apart⟩ := placement_placed asks chosen
      constructor
      · intro rolled
        exact absurd rolled (not_rolledBack_of_cons rfl)
      · intro withdraws
        exact absurd (withdraws base chosen).1 unprepared
  | withdrawn base middle chosen prepared init =>
      obtain ⟨placed, apart⟩ := placement_placed asks chosen
      have room := placed.room
      simp only at room
      by_cases works : env.munmap (state.calls + 5) = true
      · have length : size ≠ 0 := by omega
        rw [Heap.unmapped, if_pos ⟨works, length, placed.aligned⟩,
          init.undone_iff separate placed apart present]
        constructor
        · intro unlinked base' chosen'
          cases chosen.symm.trans chosen'
          exact ⟨prepared, works, unlinked⟩
        · intro withdraws
          exact (withdraws base chosen).2.2
      · rw [Heap.unmapped, if_neg fun able => works able.1]
        constructor
        · intro rolled
          exact absurd rolled (not_rolledBack_of_cons (init.mapped.trans (addRegion_mapped placed)))
        · intro withdraws
          exact absurd (withdraws base chosen).2.1 works

/-- A kernel that unlocks no mutex. -/
def lockedEnv : Env := { generousEnv with mutexUnlock := fun _ => false }

theorem start_separate : (start .default true).heap.Separate .default :=
  ⟨by simp [start], List.Pairwise.nil, by simp [start], rfl⟩

theorem rolledBack_iff_sample :
    ∃ final, allocMMAP 32768000 0 lockedEnv (start .default true) = .ok mapFailed final ∧
      (RolledBack (start .default true).heap final.heap 0 ↔
        (start .default true).Withdraws lockedEnv 32768000 0) := by
  have found : (allocMMAP 32768000 0 lockedEnv (start .default true)).normal.map Prod.fst =
      some mapFailed := by decide +kernel
  obtain ⟨⟨value, final⟩, ended, rfl⟩ := Option.map_eq_some_iff.mp found
  have failed := Outcome.normal_eq_some_iff.mp ended
  exact ⟨final, failed, rolledBack_iff start_separate (Or.inl rfl)
    (fun some => absurd rfl some) failed⟩

/-- A kernel that sets up no mutex attributes. -/
def plainEnv : Env := { generousEnv with mutexattrInit := fun _ => false }

/-- After a failing `PTHREAD_mutexattrInit` the region stays mapped. -/
theorem not_rolledBack :
    ¬∀ env pages state size last final, (∀ call, env.munmap call = true) →
      state.heap.Separate pages → pages.Asks size →
      (last ≠ 0 → ∃ region ∈ state.heap.mapped, region.base = last) →
      allocMMAP size last env state = .ok mapFailed final →
        RolledBack state.heap final.heap last := by
  intro claim
  have found : (allocMMAP 32768000 0 plainEnv (start .default true)).normal.map
      (fun final => (final.1, final.2.heap.mapped)) = some (mapFailed, [firstRegion]) := by
    decide +kernel
  obtain ⟨⟨value, final⟩, ended, same⟩ := Option.map_eq_some_iff.mp found
  obtain ⟨rfl, mapped⟩ := Prod.mk.inj same
  have rolled := claim plainEnv .default _ 32768000 0 final (fun _ => rfl) start_separate
    (Or.inl rfl) (fun some => absurd rfl some) (Outcome.normal_eq_some_iff.mp ended)
  exact not_rolledBack_of_cons mapped rolled

end VgcMalloc
