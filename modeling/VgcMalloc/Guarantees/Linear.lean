import VgcMalloc.Guarantees.Ahead
import VgcMalloc.Guarantees.Isolation

/-!
# One call after the other

When no two processes create the first MMAP at the same time, and none takes the
list of MMAPs away from another one that is going to use it, all calls take
effect one after the other, in the order in which they end.
-/

namespace VgcMalloc

open Program Tiling Relation

variable {env : Env} {heap after : Heap} {pages : MmapPages} {guarded : Bool}
  {shown next : Allocator} {need memory mmapBlock ptr size : Nat} {ι : Type} [DecidableEq ι]
  {all last : Processes ι} {process : ι} {state : State} {stage : Stage}

/-- The limit is that of the first region. -/
theorem Shows.limit_kept (shows : Shows pages guarded heap shown)
    (later : Shows pages guarded after next) (alive : shown.failed = false)
    (nonempty : shown.heap.listed ≠ []) (kept : shown.KeepsFirst next) :
    next.limit = shown.limit := by
  have rep := shows.represents alive
  have afterRep := later.represents (kept.failed.trans alive)
  obtain ⟨first, rest, shape⟩ := List.exists_cons_of_ne_nil nonempty
  obtain ⟨region, member, base⟩ := rep.listed (by rw [shape]; exact List.mem_cons_self)
  have head : region.base = shown.heap.listed.headD 0 := by rw [base, shape]; rfl
  rw [rep.limit_eq member head,
    afterRep.limit_eq (kept.regions region member head) (head.trans kept.head.symm)]

/-! ## Orderly processes -/

namespace Stage

/-- The process is creating the first MMAP. -/
def Creates : Stage → Prop
  | creating _ => True
  | storing _ _ => True
  | _ => False

/-- The process has seen the first MMAP and is going to use it. -/
def Uses : Stage → Prop
  | retesting _ => True
  | checking _ => True
  | searching _ _ => True
  | _ => False

/-- The process is in no call, or is going to make its first test. -/
def Waits : Stage → Prop
  | idle => True
  | testing _ => True
  | _ => False

end Stage

/-- No process begins to create the first MMAP while another one does, and none
releases the last block in use of the first MMAP while another one is going to
use that MMAP. -/
def Processes.Orderly (all : Processes ι) (turn : Processes.Turn ι) : Prop :=
  all.Lawful turn ∧
    match turn with
    | .step process => all.state.heap.shared.mmapBlockFirst = 0 →
        (all.stage process).Waits → ∀ other, ¬(all.stage other).Creates
    | .free _ ptr => all.state.heap.Clears ptr → ∀ other, ¬(all.stage other).Uses
    | _ => True

theorem Stage.Waits.not_creates (waits : stage.Waits) : ¬stage.Creates := by
  cases stage with
  | idle => exact id
  | testing size => exact id
  | _ => exact waits.elim

theorem Stage.Waits.not_uses (waits : stage.Waits) : ¬stage.Uses := by
  cases stage with
  | idle => exact id
  | testing size => exact id
  | _ => exact waits.elim

/-! ## What the machine knows of the processes -/

/-- A process that searches has passed its checks. -/
def Passed (setting : Setting) (shown : Allocator) : Stage → Prop
  | .searching size need => shown.failed = false ∧
      need = setting.need size ∧ ¬(size = 0 ∨ shown.limit ≤ need)
  | _ => True

theorem Passed.kept {setting : Setting} (failed : next.failed = shown.failed)
    (limit : next.limit = shown.limit) (passed : Passed setting shown stage) :
    Passed setting next stage := by
  cases stage with
  | searching size need =>
      rw [Passed, failed, limit]
      exact passed
  | _ => trivial

theorem Stage.Waits.passed {setting : Setting} (waits : stage.Waits) :
    Passed setting shown stage := by
  cases stage with
  | searching size need => exact waits.elim
  | _ => trivial

/-- How far the creation of the first MMAP is: it has not begun, or only by the
process `creator`; it waits for its store; it is over, and the machine may be
ahead. -/
inductive Tracks (env : Env) (pages : MmapPages) (guarded : Bool) (heap : Heap)
    (stages : ι → Stage) (shown : Allocator) : Prop where
  | empty (shows : Shows pages guarded heap shown) (alive : shown.failed = false)
      (none : shown.heap.listed = [])
      (early : ∀ process, (stages process).Waits ∨ ∃ size, stages process = .creating size)
      (single : ∀ process other, (stages process).Creates → (stages other).Creates →
        process = other)
  | made (creator : ι) (size mmapBlock : Nat) (storing : stages creator = .storing size mmapBlock)
      (shows : Shows pages guarded (heap.setFirst mmapBlock)
        (shown.ahead (settingOf env pages guarded)))
      (alive : shown.failed = false) (none : shown.heap.listed = [])
      (null : heap.shared.mmapBlockFirst = 0)
      (early : ∀ process, process ≠ creator → (stages process).Waits)
  | present (shows : Shows pages guarded heap (shown.ahead (settingOf env pages guarded)))
      (created : ∀ process, ¬(stages process).Creates)
      (passed : ∀ process, Passed (settingOf env pages guarded)
        (shown.ahead (settingOf env pages guarded)) (stages process))
      (pending : shown.Begun ∨ ∃ process, (stages process).Uses)

variable {stages : ι → Stage}

/-- A process goes on once there is a first MMAP. -/
theorem Tracks.go (shows : Shows pages guarded heap (shown.ahead (settingOf env pages guarded)))
    (created : ∀ process, ¬(stages process).Creates)
    (passed : ∀ process, Passed (settingOf env pages guarded)
      (shown.ahead (settingOf env pages guarded)) (stages process))
    (creates : ¬stage.Creates)
    (passes : Passed (settingOf env pages guarded)
      (shown.ahead (settingOf env pages guarded)) stage)
    (pending : shown.Begun ∨ stage.Uses ∨ ∃ other, other ≠ process ∧ (stages other).Uses) :
    Tracks env pages guarded heap (Function.update stages process stage) shown := by
  refine .present shows ?_ ?_ ?_
  · exact (Function.forall_update_iff stages fun _ stage => ¬stage.Creates).mpr
      ⟨creates, fun other _ => created other⟩
  · exact (Function.forall_update_iff stages fun _ stage => Passed _ _ stage).mpr
      ⟨passes, fun other _ => passed other⟩
  · rcases pending with begun | uses | ⟨other, ne, uses⟩
    · exact Or.inl begun
    · refine Or.inr ⟨process, ?_⟩
      rw [Function.update_self]
      exact uses
    · refine Or.inr ⟨other, ?_⟩
      rw [Function.update_of_ne ne]
      exact uses

/-- A call ends with the answer of the machine. -/
theorem Tracks.ended (later : Shows pages guarded after next) (begun : next.Begun)
    (created : ∀ process, ¬(stages process).Creates)
    (passed : ∀ process, Passed (settingOf env pages guarded)
      (shown.ahead (settingOf env pages guarded)) (stages process))
    (kept : ∀ other, Passed (settingOf env pages guarded)
      (shown.ahead (settingOf env pages guarded)) (stages other) →
        Passed (settingOf env pages guarded) next (stages other)) :
    Tracks env pages guarded after (Function.update stages process .idle) next := by
  have same : next.ahead (settingOf env pages guarded) = next := Allocator.ahead_of_begun begun
  apply Tracks.go
  · rw [same]
    exact later
  · exact created
  · intro other
    rw [same]
    exact kept other (passed other)
  · exact id
  · trivial
  · exact Or.inl begun

/-- The first MMAP is null exactly when none is listed. -/
theorem Shows.first_eq_zero_iff (shows : Shows pages guarded heap shown) :
    heap.shared.mmapBlockFirst = 0 ↔ ¬shown.Begun := by
  cases alive : shown.failed with
  | true =>
      have failed : heap.shared.mmapBlockFirst = mapFailed := by
        rw [shows.first, alive]
        rfl
      rw [failed]
      simp [Allocator.Begun, alive, mapFailed_eq]
  | false =>
      rw [shows.first, alive]
      simp only [Bool.false_eq_true, if_false, shows.stands.headD_eq_zero_iff, Allocator.Begun,
        alive, false_or, not_not]

/-- The test. -/
theorem Tracks.tested {present : Bool} (tracks : Tracks env pages guarded heap stages shown)
    (tested : decide (heap.shared.mmapBlockFirst ≠ 0) = present)
    (alone : heap.shared.mmapBlockFirst = 0 → ∀ other, ¬(stages other).Creates) :
    Tracks env pages guarded heap (Function.update stages process
      (if present then .checking size else .creating size)) shown := by
  subst tested
  simp only [decide_eq_true_eq]
  cases tracks with
  | empty shows alive none early single =>
      have null : heap.shared.mmapBlockFirst = 0 :=
        shows.first_eq_zero_iff.mpr (by simp [Allocator.Begun, alive, none])
      have nobody := alone null
      rw [if_neg (not_not.mpr null)]
      refine .empty shows alive none ?_ ?_
      · exact (Function.forall_update_iff stages fun _ stage =>
          stage.Waits ∨ ∃ size, stage = .creating size).mpr
            ⟨Or.inr ⟨size, rfl⟩, fun other _ => early other⟩
      · intro first second firstCreates secondCreates
        by_cases firstIs : first = process
        · by_cases secondIs : second = process
          · rw [firstIs, secondIs]
          · rw [Function.update_of_ne secondIs] at secondCreates
            exact absurd secondCreates (nobody second)
        · rw [Function.update_of_ne firstIs] at firstCreates
          exact absurd firstCreates (nobody first)
  | made creator length mmapBlock storing shows alive none null early =>
      have creates : (stages creator).Creates := by
        rw [storing]
        trivial
      exact absurd creates (alone null creator)
  | present shows created passed pending =>
      have there : heap.shared.mmapBlockFirst ≠ 0 := by
        rw [Ne, shows.first_eq_zero_iff, not_not]
        exact Allocator.begun_ahead
      rw [if_pos there]
      exact .go shows created passed id trivial (Or.inr (Or.inl trivial))

/-- The creation. -/
theorem Tracks.created {last : State} (mutexes : MutexCallsSucceed env)
    (tracks : Tracks env pages guarded state.heap stages shown) (unlocked : state.held = [])
    (creating : stages process = .creating size)
    (ended : createFirst env state = .ok mmapBlock last) :
    last.held = [] ∧ Tracks env pages guarded last.heap
      (Function.update stages process (.storing size mmapBlock)) shown := by
  have creates : (stages process).Creates := by
    rw [creating]
    trivial
  cases tracks with
  | empty shows alive none early single =>
      have null : state.heap.shared.mmapBlockFirst = 0 :=
        shows.first_eq_zero_iff.mpr (by simp [Allocator.Begun, alive, none])
      -- the process takes the steps of `initialiseFirstMMAP`
      have whole : initialiseFirstMMAP env state = .ok (decide (mmapBlock ≠ mapFailed))
          { last with heap := last.heap.setFirst mmapBlock } := by
        rw [initialiseFirstMMAP_eq]
        have missing : testFirst env state = .ok false state := by
          unfold testFirst
          rw [getShared_bind, null]
          rfl
        rw [bind_of_ok missing]
        exact (bind_of_ok ended).trans rfl
      obtain ⟨held, outcome⟩ := shows.initialise mutexes alive state
        (by rw [seen, unlocked]) _ _ whole
      rw [if_pos none] at outcome
      obtain ⟨made, grown⟩ := outcome
      refine ⟨held, .made process size mmapBlock (Function.update_self ..) ?_ alive none ?_ ?_⟩
      · rw [Allocator.ahead_of_empty alive none, ← made]
        exact grown
      · obtain ⟨_, _, first, _⟩ := (shows.valid.yields_createFirst mutexes).allows state
          (by rw [seen, unlocked]) _ _ ended
        exact first.trans null
      · intro other ne
        rw [Function.update_of_ne ne]
        rcases early other with waits | ⟨length, same⟩
        · exact waits
        · have also : (stages other).Creates := by
            rw [same]
            trivial
          exact absurd (single other process also creates) ne
  | made creator length first storing shows alive none null early =>
      by_cases same : process = creator
      · rw [same, storing] at creating
        cases creating
      · have waits := early process same
        rw [creating] at waits
        exact waits.elim
  | present shows created passed pending => exact absurd creates (created process)

/-- The store. -/
theorem Tracks.stored (tracks : Tracks env pages guarded heap stages shown)
    (storing : stages process = .storing size mmapBlock) :
    Tracks env pages guarded (heap.setFirst mmapBlock)
      (Function.update stages process (.retesting size)) shown := by
  cases tracks with
  | empty shows alive none early single =>
      rcases early process with waits | ⟨length, same⟩
      · rw [storing] at waits
        exact waits.elim
      · rw [storing] at same
        cases same
  | made creator length first owns shows alive none null early =>
      by_cases same : process = creator
      · subst same
        rw [storing] at owns
        obtain ⟨rfl, rfl⟩ := Stage.storing.inj owns
        have others : ∀ other, other ≠ process → (stages other).Waits := early
        refine .present shows ?_ ?_ (Or.inr ⟨process, ?_⟩)
        · refine (Function.forall_update_iff stages fun _ stage => ¬stage.Creates).mpr ⟨id, ?_⟩
          intro other ne creates
          exact (others other ne).not_creates creates
        · refine (Function.forall_update_iff stages fun _ stage => Passed _ _ stage).mpr
            ⟨trivial, ?_⟩
          exact fun other ne => (others other ne).passed
        · rw [Function.update_self]
          trivial
      · have waits := early process same
        rw [storing] at waits
        exact waits.elim
  | present shows created passed pending =>
      have creates : (stages process).Creates := by
        rw [storing]
        trivial
      exact absurd creates (created process)

/-- There is a first MMAP, or there never will be, when a process uses it. -/
theorem Tracks.present_of_uses (tracks : Tracks env pages guarded heap stages shown)
    (uses : (stages process).Uses) :
    Shows pages guarded heap (shown.ahead (settingOf env pages guarded)) ∧
      (∀ process, ¬(stages process).Creates) ∧
      ∀ process, Passed (settingOf env pages guarded)
        (shown.ahead (settingOf env pages guarded)) (stages process) := by
  cases tracks with
  | empty shows alive none early single =>
      rcases early process with waits | ⟨length, same⟩
      · exact absurd uses waits.not_uses
      · rw [same] at uses
        exact uses.elim
  | made creator length first owns shows alive none null early =>
      by_cases same : process = creator
      · rw [same, owns] at uses
        exact uses.elim
      · exact absurd uses (early process same).not_uses
  | present shows created passed pending => exact ⟨shows, created, passed⟩

/-- The checks, also when the first MMAP could not be created. -/
theorem Shows.checked {held : List Mutex} (shows : Shows pages guarded heap shown)
    (begun : shown.Begun) :
    Allows seen (VgcMalloc.checkSize size) env (heap, held) fun checked final =>
      final = (heap, held) ∧ (checked = none ∧ (shown.failed = true ∨
          size = 0 ∨ shown.limit ≤ (settingOf env pages guarded).need size) ∨
        checked = some ((settingOf env pages guarded).need size) ∧ shown.failed = false ∧
          ¬(size = 0 ∨ shown.limit ≤ (settingOf env pages guarded).need size)) := by
  cases alive : shown.failed with
  | false =>
      have nonempty : shown.heap.listed ≠ [] := begun.resolve_left (by simp [alive])
      apply (shows.checkSize alive nonempty).mono
      rintro checked final ⟨same, outcome⟩
      refine ⟨same, ?_⟩
      split at outcome
      · exact Or.inl ⟨outcome, Or.inr ‹_›⟩
      · exact Or.inr ⟨outcome, rfl, ‹_›⟩
  | true =>
      have failed : heap.shared.mmapBlockFirst = mapFailed := by
        rw [shows.first, alive]
        rfl
      unfold VgcMalloc.checkSize
      apply Allows.ite
      · intro zero
        exact (yields_vgcMessage_seq (Yields.pure ⟨rfl, Or.inl ⟨rfl, Or.inl rfl⟩⟩)).allows
      · intro positive
        apply Allows.seq yields_getShared.allows
        rintro _ _ ⟨rfl, rfl⟩
        rw [failed]
        exact Allows.seq shows.stands.faults_mapFailed fun _ _ impossible => impossible.elim

/-- The bytes that are searched for once the checks have been passed. -/
theorem Shows.need_bounds (shows : Shows pages guarded heap shown) (alive : shown.failed = false)
    (nonempty : shown.heap.listed ≠ [])
    (passed : ¬(size = 0 ∨ shown.limit ≤ (settingOf env pages guarded).need size)) :
    (settingOf env pages guarded).need size < 2 ^ 62 ∧
      (guarded = true → 0 < (settingOf env pages guarded).need size) := by
  obtain ⟨positive, small⟩ := not_or.mp passed
  have rep := shows.represents alive
  obtain ⟨first, rest, shape⟩ := List.exists_cons_of_ne_nil nonempty
  obtain ⟨region, member, base⟩ := rep.listed (by rw [shape]; exact List.mem_cons_self)
  have user := (rep.wellFormed.placed region member).user
  have limit := rep.limit_eq member (by rw [base, shape]; rfl)
  rw [← shows.need_eq env size] at small ⊢
  exact ⟨by omega, alignSize_pos rep.mode positive⟩

/-- The pointer of a block that the machine finds in the first region. -/
theorem Shows.clears {entry : Entry} (shows : Shows pages guarded heap shown)
    (alive : shown.failed = false)
    (found : shown.target (settingOf env pages guarded) ptr =
      some (shown.heap.listed.headD 0, entry))
    (only : busyCount (shown.heap.entries (shown.heap.listed.headD 0)) = 1) :
    heap.Clears ptr := by
  have rep := shows.represents alive
  obtain ⟨_, listed, entryMem, busy, resolved⟩ := Allocator.target_eq_some found
  obtain ⟨region, member, base⟩ := rep.listed listed
  have blocks := rep.blocks_eq member
  rw [Heap.Clears, rep.first, ← base, blocks, base]
  exact ⟨only, entry, entryMem, busy, rep.headerOf_eq.trans resolved⟩

/-- A process that neither creates the first MMAP nor uses it. -/
theorem Stage.waits_of_not (creates : ¬stage.Creates) (uses : ¬stage.Uses) : stage.Waits := by
  cases stage with
  | idle => trivial
  | testing size => trivial
  | creating size => exact absurd trivial creates
  | storing size mmapBlock => exact absurd trivial creates
  | retesting size => exact absurd trivial uses
  | checking size => exact absurd trivial uses
  | searching size need => exact absurd trivial uses

theorem Heap.setFirst_setFirst (null : heap.shared.mmapBlockFirst = 0) :
    (heap.setFirst mmapBlock).setFirst 0 = heap := by
  obtain ⟨shared, memory, mapped, protNone⟩ := heap
  simp only at null
  unfold Heap.setFirst
  simp only
  rw [← null]

omit [DecidableEq ι] in
/-- A release. -/
theorem Tracks.freed {last : State} (mutexes : MutexCallsSucceed env)
    (unmaps : MunmapCallsSucceed env)
    (tracks : Tracks env pages guarded state.heap stages shown) (unlocked : state.held = [])
    (lawful : state.heap.Resolves ptr ∨ state.heap.Rejects ptr)
    (quiet : state.heap.Clears ptr → ∀ other, ¬(stages other).Uses)
    (ended : vgcFree ptr env state = .ok () last) :
    last.held = [] ∧ Tracks env pages guarded last.heap stages
      (shown.free (settingOf env pages guarded) ptr) := by
  have view : seen state = (state.heap, []) := by rw [seen, unlocked]
  cases tracks with
  | empty shows alive none early single =>
      obtain ⟨held, later⟩ := shows.free mutexes unmaps lawful state view () last ended
      rw [Allocator.free_of_empty none] at later ⊢
      exact ⟨held, .empty later alive none early single⟩
  | made creator size mmapBlock storing shows alive none null early =>
      have cleared : Stands pages guarded (state.heap.setFirst mmapBlock)
          { (shown.ahead (settingOf env pages guarded)).heap with listed := [] } :=
        shows.stands.relist (by simp) List.nodup_nil trivial
      have stands := cleared.setFirst 0
      rw [Heap.setFirst_setFirst null] at stands
      have rep : Represents pages guarded state.heap _ := ⟨stands, null⟩
      have wrong : state.heap.Rejects ptr := by
        apply lawful.resolve_left
        rintro ⟨_, base, listed, _⟩
        rw [mmaps_eq_nil_of_null null] at listed
        exact absurd listed List.not_mem_nil
      unfold Heap.Rejects at wrong
      rw [rep.mmaps_eq] at wrong
      have same := allows_vgcFree_ignored mutexes rep wrong state view () last ended
      obtain ⟨heapEq, heldEq⟩ := Prod.mk.inj same
      rw [Allocator.free_of_empty none]
      refine ⟨heldEq, ?_⟩
      have kept : last.heap = state.heap := heapEq
      rw [kept]
      exact .made creator size mmapBlock storing shows alive none null early
  | present shows created passed pending =>
      obtain ⟨held, later⟩ := shows.free mutexes unmaps lawful state view () last ended
      refine ⟨held, ?_⟩
      by_cases empty : shown.heap.listed = []
      · rw [Allocator.free_ahead empty] at later
        rw [Allocator.free_of_empty empty]
        exact .present later created passed pending
      · have same : shown.ahead (settingOf env pages guarded) = shown :=
          Allocator.ahead_of_begun (Or.inr empty)
        rw [same] at shows passed later
        have alive : shown.failed = false := by
          cases failed : shown.failed with
          | false => rfl
          | true => exact absurd (shows.unlisted failed) empty
        by_cases stays : ∀ entry, shown.target (settingOf env pages guarded) ptr =
            some (shown.heap.listed.headD 0, entry) →
              busyCount (shown.heap.entries (shown.heap.listed.headD 0)) ≠ 1
        · have kept := Allocator.keepsFirst_free empty stays
          have limit := shows.limit_kept later alive empty kept
          have still : (shown.free (settingOf env pages guarded) ptr).Begun :=
            Or.inr kept.nonempty
          have ahead : (shown.free (settingOf env pages guarded) ptr).ahead
              (settingOf env pages guarded) = _ := Allocator.ahead_of_begun still
          refine .present ?_ created ?_ (Or.inl still)
          · rw [ahead]
            exact later
          · intro process
            rw [ahead]
            exact (passed process).kept kept.failed limit
        · simp only [not_forall, not_not] at stays
          obtain ⟨entry, found, only⟩ := stays
          have gone := Allocator.listed_free_of_only found only
          have idle := quiet (shows.clears alive found only)
          have waits := fun process => Stage.waits_of_not (created process) (idle process)
          refine .empty later ?_ gone (fun process => Or.inl (waits process)) ?_
          · rw [Allocator.free, found]
            exact alive
          · exact fun process _ creates => absurd creates (created process)

omit [DecidableEq ι] in
/-- A store to a payload. -/
theorem Tracks.written {entry : Entry} (tracks : Tracks env pages guarded heap stages shown)
    (writes : WritesPayload heap after entry) : Tracks env pages guarded after stages shown := by
  cases tracks with
  | empty shows alive none early single =>
      exact .empty (shows.writesPayload writes) alive none early single
  | made creator size mmapBlock storing shows alive none null early =>
      have also : WritesPayload (heap.setFirst mmapBlock) (after.setFirst mmapBlock) entry := by
        have stands := shows.stands.setFirst 0
        rw [Heap.setFirst_setFirst null] at stands
        refine ⟨?_, ?_, writes.outside⟩
        · rw [shows.stands.busy_iff, ← stands.busy_iff]
          exact writes.busy
        · rw [Heap.setFirst, Heap.setFirst, writes.same]
      have kept : after.shared.mmapBlockFirst = 0 := by
        rw [writes.shared]
        exact null
      exact .made creator size mmapBlock storing (shows.writesPayload also) alive none kept early
  | present shows created passed pending =>
      exact .present (shows.writesPayload writes) created passed pending

/-- A process that starts a call. -/
theorem Tracks.begun (tracks : Tracks env pages guarded heap stages shown)
    (idle : stages process = .idle) :
    Tracks env pages guarded heap (Function.update stages process (.testing size)) shown := by
  cases tracks with
  | empty shows alive none early single =>
      refine .empty shows alive none ?_ ?_
      · exact (Function.forall_update_iff stages fun _ stage =>
          stage.Waits ∨ ∃ size, stage = .creating size).mpr
            ⟨Or.inl trivial, fun other _ => early other⟩
      · intro first second firstCreates secondCreates
        have firstNe : first ≠ process := by
          rintro rfl
          rw [Function.update_self] at firstCreates
          exact firstCreates
        have secondNe : second ≠ process := by
          rintro rfl
          rw [Function.update_self] at secondCreates
          exact secondCreates
        rw [Function.update_of_ne firstNe] at firstCreates
        rw [Function.update_of_ne secondNe] at secondCreates
        exact single first second firstCreates secondCreates
  | made creator length mmapBlock storing shows alive none null early =>
      have ne : creator ≠ process := by
        rintro rfl
        rw [storing] at idle
        cases idle
      refine .made creator length mmapBlock ?_ shows alive none null ?_
      · rw [Function.update_of_ne ne]
        exact storing
      · exact (Function.forall_update_iff stages fun other stage =>
          other ≠ creator → stage.Waits).mpr ⟨fun _ => trivial, fun other _ => early other⟩
  | present shows created passed pending =>
      refine .go shows created passed id trivial ?_
      rcases pending with begun | ⟨other, uses⟩
      · exact Or.inl begun
      · refine Or.inr (Or.inr ⟨other, ?_, uses⟩)
        rintro rfl
        rw [idle] at uses
        exact uses

/-! ## Calls in order -/

namespace Processes

/-- What the machine has answered to the calls that have ended. -/
def allocator (env : Env) (pages : MmapPages) (guarded : Bool) (all : Processes ι) :
    Allocator :=
  (allocatorMachine (settingOf env pages guarded)).after (all.trace.map Event.call)

/-- The invariant of orderly processes. -/
structure Linear (env : Env) (pages : MmapPages) (guarded : Bool) (all : Processes ι) :
    Prop where
  unlocked : all.state.held = []
  replies : answered all.trace = (allocatorMachine (settingOf env pages guarded)).replies
    (all.trace.map Event.call)
  tracks : Tracks env pages guarded all.state.heap all.stage (all.allocator env pages guarded)

omit [DecidableEq ι] in
theorem Linear.view (inv : all.Linear env pages guarded) :
    seen all.state = (all.state.heap, []) := by
  rw [seen, inv.unlocked]

/-- A deed that ends as the machine says. -/
theorem Linear.log {deed : Deed} {result : Nat} (inv : all.Linear env pages guarded)
    (unlocked : state.held = [])
    (same : result = ((allocatorMachine (settingOf env pages guarded)).step
      (all.allocator env pages guarded) deed).1)
    (tracks : Tracks env pages guarded state.heap (Function.update all.stage process .idle)
      ((allocatorMachine (settingOf env pages guarded)).step
        (all.allocator env pages guarded) deed).2) :
    (all.finish process deed result state).Linear env pages guarded where
  unlocked := unlocked
  replies := by
    rw [finish, answered, List.map_cons, List.map_cons, Machine.replies, ← inv.replies, same]
    rfl
  tracks := tracks

/-- A request that is refused. -/
theorem Linear.refused (inv : all.Linear env pages guarded)
    (same : seen state = (all.state.heap, [])) (uses : (all.stage process).Uses)
    (reason : ((all.allocator env pages guarded).ahead (settingOf env pages guarded)).failed = true ∨
      size = 0 ∨ ((all.allocator env pages guarded).ahead (settingOf env pages guarded)).limit ≤
        (settingOf env pages guarded).need size) :
    (all.finish process (.call (.malloc size)) 0 state).Linear env pages guarded := by
  obtain ⟨heapEq, heldEq⟩ := Prod.mk.inj same
  obtain ⟨shows, created, passed⟩ := inv.tracks.present_of_uses uses
  have answer : (allocatorMachine (settingOf env pages guarded)).step
      (all.allocator env pages guarded) (.call (.malloc size)) =
        (0, (all.allocator env pages guarded).ahead (settingOf env pages guarded)) :=
    Allocator.malloc_refused reason
  apply inv.log heldEq
  · rw [answer]
  · rw [answer]
    refine Tracks.ended ?_ Allocator.begun_ahead created passed fun _ => id
    exact heapEq ▸ shows

/-- Every step of `vgc_malloc` keeps the invariant. -/
theorem Linear.advance (inv : all.Linear env pages guarded) (mutexes : MutexCallsSucceed env)
    (orderly : all.Orderly (.step process)) (moves : all.advance env process = some last) :
    last.Linear env pages guarded := by
  have tracks := inv.tracks
  unfold Processes.advance at moves
  cases stage : all.stage process with
  | idle =>
      rw [stage] at moves
      cases moves
  | testing size =>
      rw [stage] at moves
      obtain ⟨⟨present, final⟩, normal, rfl⟩ := Option.map_eq_some_iff.mp moves
      have ended := Outcome.normal_eq_some_iff.mp normal
      obtain ⟨tested, rfl⟩ : decide (all.state.heap.shared.mmapBlockFirst ≠ 0) = present ∧
          all.state = final := by
        cases ended
        exact ⟨rfl, rfl⟩
      have waits : (all.stage process).Waits := by
        rw [stage]
        trivial
      exact ⟨inv.unlocked, inv.replies, tracks.tested tested fun null => orderly.2 null waits⟩
  | creating size =>
      rw [stage] at moves
      obtain ⟨⟨mmapBlock, final⟩, normal, rfl⟩ := Option.map_eq_some_iff.mp moves
      have ended := Outcome.normal_eq_some_iff.mp normal
      obtain ⟨held, created⟩ := tracks.created mutexes inv.unlocked stage ended
      exact ⟨held, inv.replies, created⟩
  | storing size mmapBlock =>
      rw [stage] at moves
      obtain ⟨⟨_, final⟩, normal, rfl⟩ := Option.map_eq_some_iff.mp moves
      have ended := Outcome.normal_eq_some_iff.mp normal
      obtain ⟨heapEq, heldEq⟩ : final.heap = all.state.heap.setFirst mmapBlock ∧
          final.held = all.state.held := by
        cases ended
        exact ⟨rfl, rfl⟩
      refine ⟨heldEq.trans inv.unlocked, inv.replies, ?_⟩
      have stored := tracks.stored stage
      rw [← heapEq] at stored
      exact stored
  | retesting size =>
      rw [stage] at moves
      obtain ⟨⟨created, final⟩, normal, rfl⟩ := Option.map_eq_some_iff.mp moves
      have ended := Outcome.normal_eq_some_iff.mp normal
      obtain ⟨rfl, rfl⟩ : decide (all.state.heap.shared.mmapBlockFirst ≠ mapFailed) = created ∧
          all.state = final := by
        cases ended
        exact ⟨rfl, rfl⟩
      have uses : (all.stage process).Uses := by
        rw [stage]
        trivial
      obtain ⟨shows, created, passed⟩ := tracks.present_of_uses uses
      simp only
      split
      · refine ⟨inv.unlocked, inv.replies, ?_⟩
        exact .go shows created passed id trivial (Or.inr (Or.inl trivial))
      · rename_i refused
        apply inv.refused inv.view uses
        apply Or.inl
        exact shows.seesLists.failed.mp
          (not_not.mp (of_decide_eq_false ((Bool.not_eq_true _).mp refused)))
  | checking size =>
      rw [stage] at moves
      obtain ⟨⟨checked, final⟩, normal, rfl⟩ := Option.map_eq_some_iff.mp moves
      have ended := Outcome.normal_eq_some_iff.mp normal
      have uses : (all.stage process).Uses := by
        rw [stage]
        trivial
      obtain ⟨shows, created, passed⟩ := tracks.present_of_uses uses
      obtain ⟨same, outcome⟩ :=
        shows.checked Allocator.begun_ahead all.state inv.view checked final ended
      rcases outcome with ⟨rfl, reason⟩ | ⟨rfl, passes⟩
      · exact inv.refused same uses reason
      · obtain ⟨heapEq, heldEq⟩ := Prod.mk.inj same
        refine ⟨heldEq, inv.replies, ?_⟩
        have next : Tracks env pages guarded all.state.heap (Function.update all.stage process
            (.searching size ((settingOf env pages guarded).need size)))
              (all.allocator env pages guarded) :=
          .go shows created passed id ⟨passes.1, rfl, passes.2⟩ (Or.inr (Or.inl trivial))
        rw [← heapEq] at next
        exact next
  | searching size need =>
      rw [stage] at moves
      obtain ⟨⟨memory, final⟩, normal, rfl⟩ := Option.map_eq_some_iff.mp moves
      have ended := Outcome.normal_eq_some_iff.mp normal
      have uses : (all.stage process).Uses := by
        rw [stage]
        trivial
      obtain ⟨shows, created, passed⟩ := tracks.present_of_uses uses
      have passes := passed process
      rw [stage] at passes
      obtain ⟨alive, rfl, small⟩ := passes
      have begun : ((all.allocator env pages guarded).ahead
          (settingOf env pages guarded)).Begun := Allocator.begun_ahead
      have nonempty := begun.resolve_left (by simp [alive])
      obtain ⟨bound, positive⟩ := shows.need_bounds alive nonempty small
      obtain ⟨held, result, later⟩ := shows.search mutexes alive nonempty bound positive all.state
        inv.view memory final ended
      have kept : Allocator.KeepsFirst _ (Allocator.search (settingOf env pages guarded)
          ((settingOf env pages guarded).need size) _).2 := Allocator.keepsFirst_search nonempty
      have limit := shows.limit_kept later alive nonempty kept
      have answer : (allocatorMachine (settingOf env pages guarded)).step
          (all.allocator env pages guarded) (.call (.malloc size)) = _ :=
        Allocator.malloc_searched alive small
      apply inv.log held
      · rw [answer]
        exact result
      · rw [answer]
        refine .ended later (Or.inr kept.nonempty) created passed ?_
        exact fun other => Passed.kept kept.failed limit

/-- Every orderly turn keeps the invariant. -/
theorem Linear.take {turn : Turn ι} (inv : all.Linear env pages guarded)
    (mutexes : MutexCallsSucceed env) (unmaps : MunmapCallsSucceed env)
    (orderly : all.Orderly turn) (moves : all.take env turn = some last) :
    last.Linear env pages guarded := by
  cases turn with
  | malloc process size =>
      rw [Processes.take] at moves
      split at moves
      · obtain rfl := Option.some.inj moves
        exact ⟨inv.unlocked, inv.replies, inv.tracks.begun ‹_›⟩
      · cases moves
  | step process => exact inv.advance mutexes orderly moves
  | free process ptr =>
      rw [Processes.take] at moves
      split at moves
      · rename_i idle
        obtain ⟨⟨_, final⟩, normal, rfl⟩ := Option.map_eq_some_iff.mp moves
        have ended := Outcome.normal_eq_some_iff.mp normal
        obtain ⟨held, tracks⟩ :=
          inv.tracks.freed mutexes unmaps inv.unlocked orderly.1 orderly.2 ended
        apply inv.log held
        · rfl
        · rw [← idle, Function.update_eq_self]
          exact tracks
      · cases moves
  | store process address value =>
      rw [Processes.take] at moves
      split at moves
      · rename_i idle
        obtain ⟨⟨_, final⟩, normal, rfl⟩ := Option.map_eq_some_iff.mp moves
        have ended := Outcome.normal_eq_some_iff.mp normal
        obtain ⟨held, entry, writes⟩ := Heap.InPayload.stored orderly.1 ended
        apply inv.log (held.trans inv.unlocked)
        · rfl
        · rw [← idle, Function.update_eq_self]
          exact inv.tracks.written writes
      · cases moves

omit [DecidableEq ι] in
theorem linear_start (env : Env) (pages : MmapPages) (guarded : Bool) :
    (start pages guarded : Processes ι).Linear env pages guarded where
  unlocked := rfl
  replies := rfl
  tracks := .empty (displays_start env pages guarded).heap rfl rfl (fun _ => Or.inl trivial)
    fun _ _ impossible => impossible.elim

/-- In every orderly interleaving the calls that have ended got the answers of
the machine that runs them one after the other, in the order in which they
ended; and whenever no call is under way, the lists in memory are those of the
machine. -/
theorem answered_of_reach (mutexes : MutexCallsSucceed env) (unmaps : MunmapCallsSucceed env)
    (reached : ReflTransGen (Step env Orderly) (start pages guarded) all) :
    answered all.trace = (allocatorMachine (settingOf env pages guarded)).replies
        (all.trace.map Event.call) ∧
      ((∀ process, all.stage process = .idle) → SeesLists all.state.heap
        ((allocatorMachine (settingOf env pages guarded)).after (all.trace.map Event.call))) := by
  have inv : all.Linear env pages guarded := by
    refine invariant_of_reach (Linear env pages guarded) (linear_start env pages guarded) ?_
      reached
    rintro before after inv ⟨turn, orderly, moves⟩
    exact inv.take mutexes unmaps orderly moves
  refine ⟨inv.replies, fun idle => ?_⟩
  cases inv.tracks with
  | empty shows alive none early single => exact shows.seesLists
  | made creator size mmapBlock storing =>
      rw [idle creator] at storing
      cases storing
  | present shows created passed pending =>
      rcases pending with begun | ⟨process, uses⟩
      · rw [Allocator.ahead_of_begun begun] at shows
        exact shows.seesLists
      · rw [idle process] at uses
        exact uses.elim

instance (stage : Stage) : Decidable stage.Creates :=
  match stage with
  | .creating _ => .isTrue trivial
  | .storing _ _ => .isTrue trivial
  | .idle | .testing _ | .retesting _ | .checking _ | .searching _ _ => .isFalse id

instance (stage : Stage) : Decidable stage.Uses :=
  match stage with
  | .retesting _ => .isTrue trivial
  | .checking _ => .isTrue trivial
  | .searching _ _ => .isTrue trivial
  | .idle | .testing _ | .creating _ | .storing _ _ => .isFalse id

instance (stage : Stage) : Decidable stage.Waits :=
  match stage with
  | .idle => .isTrue trivial
  | .testing _ => .isTrue trivial
  | .creating _ | .storing _ _ | .retesting _ | .checking _ | .searching _ _ => .isFalse id

instance (all : Processes Process) : (turn : Turn Process) → Decidable (all.Orderly turn)
  | .malloc _ _ => .isTrue ⟨trivial, trivial⟩
  | .step _ => inferInstanceAs (Decidable (True ∧ (_ → _ → _)))
  | .free _ _ => inferInstanceAs (Decidable (_ ∧ (_ → _)))
  | .store _ _ _ => inferInstanceAs (Decidable (_ ∧ True))

/-- The child is served first from the MMAP that the master has created. -/
def overtaking : List (Turn Process) :=
  [.malloc .child 24, .malloc .master 8, .step .master, .step .master, .step .master,
    .step .child, .step .child, .step .master, .step .master, .step .child, .step .master,
    .free .child 268447744, .malloc .master 0, .step .master, .step .master]

theorem answered_of_reach_sample :
    ∃ all : Processes Process,
      ReflTransGen (Step generousEnv Orderly) (start .default false) all ∧
        all.trace.map Event.result = [0, 0, 268455960, 268447744] ∧
        answered all.trace = (allocatorMachine (settingOf generousEnv .default false)).replies
          (all.trace.map Event.call) := by
  have found : ((start .default false).play generousEnv Orderly overtaking).map
      (fun all => all.trace.map Event.result) = some [0, 0, 268455960, 268447744] := by
    decide +kernel
  obtain ⟨all, played, results⟩ := Option.map_eq_some_iff.mp found
  have reached := reach_of_play played
  exact ⟨all, reached, results,
    (answered_of_reach generousEnv_mutexes generousEnv_munmap reached).1⟩

end Processes

end VgcMalloc
