import VgcMalloc.Guarantees.Simulation
import VgcMalloc.Tiling.Packing

/-!
# Capacity

First fit cuts the free payload of an MMAP into small pieces, and the headers
take two pages each.  A client that never holds more than a given number of
blocks, none of them requested larger than a given size, is all the same served
from a single MMAP, when one tenth of the usual length holds the blocks, their
headers and the gaps between them.
-/

namespace VgcMalloc

open Program Tiling

/-! ## Modest clients -/

/-- The bytes that a deed requests from `vgc_malloc`. -/
def Deed.requested : Deed → Nat
  | .call (.malloc size) => size
  | .call (.calloc nmemb size) => mul64 nmemb size
  | .call (.realloc _ size) => size
  | _ => 0

/-- The number of blocks in use in the listed MMAPs. -/
def AbstractHeap.inUse (heap : AbstractHeap) : Nat :=
  (heap.listed.map fun base => busyCount (heap.entries base)).sum

/-- Tame deeds that request at most `most` bytes, and only while fewer than
`count` blocks are in use. -/
structure Modest (count most : Nat) (state : State) (deed : Deed) : Prop where
  tame : TameDeed state deed
  small : deed.requested ≤ most
  few : deed.requested ≠ 0 → state.heap.abstraction.inUse < count

instance (count most : Nat) (state : State) (deed : Deed) :
    Decidable (Modest count most state deed) :=
  decidable_of_iff (TameDeed state deed ∧ deed.requested ≤ most ∧
      (deed.requested ≠ 0 → state.heap.abstraction.inUse < count))
    ⟨fun modest => ⟨modest.1, modest.2.1, modest.2.2⟩,
      fun modest => ⟨modest.tame, modest.small, modest.few⟩⟩

/-- One tenth of an MMAP has room for the blocks in the worst case: all of them
but one are in use with a rest that was too short to be split off, and in front
of each and at the end there is a gap that is just too small for the next
request. -/
def MmapPages.Holds (pages : MmapPages) (count most : Nat) : Prop :=
  4096 + (count - 1) * (pageRound most + 16384) + count * (pageRound most + 8192) <
    pages.bytes / 10

instance (pages : MmapPages) (count most : Nat) : Decidable (pages.Holds count most) :=
  inferInstanceAs (Decidable (_ < _))

variable {env : Env} {pages : MmapPages} {guarded : Bool} {count most size need ptr : Nat}
  {shown : Allocator} {region : Region}

/-! ## The machine of a modest client -/

/-- At most one region is mapped, it is listed, it is no shorter than the
smaller of the two lengths that are asked for, and its blocks in use are hardly
longer than what was requested. -/
structure Allocator.Compact (pages : MmapPages) (guarded : Bool) (most : Nat)
    (shown : Allocator) : Prop where
  wellFormed : shown.heap.WellFormed pages.bytes guarded
  single : shown.heap.regions.length ≤ 1
  listed : shown.heap.listed = shown.heap.regions.map Region.base
  long : ∀ region ∈ shown.heap.regions, pages.bytes / 10 ≤ region.length
  small : ∀ region ∈ shown.heap.regions, ∀ entry ∈ shown.heap.entries region.base,
    entry.busy = true → entry.size ≤ pageRound most + 8192

theorem MmapPages.Holds.bound (holds : pages.Holds count most) (positive : 0 < count) :
    pageRound most < 2 ^ 62 := by
  have one := Nat.le_mul_of_pos_left (pageRound most + 8192) positive
  have bytes := pages.bytes_bounds
  unfold MmapPages.Holds at holds
  omega

namespace Allocator

/-- Nothing is mapped, or a single region. -/
theorem Compact.shape (compact : shown.Compact pages guarded most) :
    shown.heap.regions = [] ∨ ∃ region, shown.heap.regions = [region] := by
  cases regions : shown.heap.regions with
  | nil => exact Or.inl rfl
  | cons region rest =>
      have short := compact.single
      rw [regions, List.length_cons] at short
      obtain rfl := List.length_eq_zero_iff.mp (by omega : rest.length = 0)
      exact Or.inr ⟨region, rfl⟩

/-- A mapped region is the only one. -/
theorem Compact.only (compact : shown.Compact pages guarded most)
    (member : region ∈ shown.heap.regions) : shown.heap.regions = [region] := by
  rcases compact.shape with none | ⟨other, shape⟩
  · rw [none] at member
    cases member
  · rw [shape, List.mem_singleton] at member
    rw [shape, member]

theorem compact_initial (entries : Nat → List Entry) (asked : Nat) (failed : Bool) :
    Compact pages guarded most ⟨⟨[], [], entries⟩, asked, failed⟩ where
  wellFormed := .empty entries
  single := Nat.zero_le _
  listed := rfl
  long := by simp
  small := by simp

/-- The search size of a request is no more than its whole pages. -/
theorem need_le (env : Env) (pages : MmapPages) (guarded : Bool) (modest : size ≤ most)
    (bound : pageRound most < 2 ^ 62) :
    (settingOf env pages guarded).need size ≤ pageRound most := by
  simp only [pageRound, systemPageSize_eq] at bound ⊢
  unfold Setting.need alignSize
  cases guarded with
  | true => simp only [settingOf, if_true]; omega
  | false =>
      simp only [settingOf, Bool.false_eq_true, if_false]
      by_cases whole : size % pointerSize = 0
      · rw [if_pos whole, add64_of_lt (by omega)]
        omega
      · rw [if_neg whole]
        simp only [pointerSize_eq] at whole ⊢
        rw [add64_of_lt (by omega)]
        omega

theorem grantLength_le (guarded : Bool) (small : need ≤ pageRound most) :
    AbstractHeap.grantLength guarded need ≤ pageRound most := by
  simp only [AbstractHeap.grantLength, pageRound, systemPageSize_eq] at small ⊢
  split
  · omega
  · exact small

/-- A created region is the only one. -/
theorem Compact.extend (env : Env) (compact : shown.Compact pages guarded most)
    (none : shown.heap.regions = []) :
    ((shown.extend (settingOf env pages guarded)).1 = false ∧
        (shown.extend (settingOf env pages guarded)).2.Compact pages guarded most) ∨
      ∃ region grown, shown.extend (settingOf env pages guarded) = (true, grown) ∧
        grown.Compact pages guarded most ∧ grown.heap.regions = [region] ∧
        grown.heap.inUse = 0 := by
  have unlisted : shown.heap.listed = [] := by rw [compact.listed, none, List.map_nil]
  have created : ∀ (region : Region) (asked : Nat), pages.Asks region.length →
      region.Placed pages.bytes →
        Compact pages guarded most ⟨shown.heap.create region, asked, shown.failed⟩ := by
    intro region asked asks placed
    refine ⟨compact.wellFormed.create placed (by simp [none]), ?_, ?_, ?_, ?_⟩
    · simp [AbstractHeap.create, none]
    · simp [AbstractHeap.create, none, unlisted]
    · simp only [AbstractHeap.create, none, List.mem_singleton, forall_eq]
      rcases asks with full | tenth
      · omega
      · omega
    · simp only [AbstractHeap.create, none, List.mem_singleton, forall_eq, Function.update_self]
      intro entry fresh busy
      obtain rfl := List.mem_singleton.mp fresh
      cases busy
  have idle : ∀ region, (shown.heap.create region).inUse = 0 := by
    intro region
    simp [AbstractHeap.inUse, AbstractHeap.create, unlisted, AbstractHeap.freshEntries, busyCount]
  -- The kernel answers as it would for a heap with these regions.
  let heap : Heap := ⟨createShared pages guarded, fun _ => 0, shown.heap.regions, fun _ => false,
    shown.asked⟩
  unfold Allocator.extend
  split
  · rename_i base full
    have asks : pages.Asks pages.bytes := Or.inl rfl
    have chosen : heap.placement env pages.bytes = some base := full
    have placed := (placement_placed asks chosen).1
    exact Or.inr ⟨⟨base, pages.bytes⟩, _, rfl, created _ _ asks placed,
      by simp [AbstractHeap.create, none, settingOf], idle _⟩
  · split
    · rename_i base tenth
      have asks : pages.Asks (pages.bytes / 10) := Or.inr rfl
      have chosen : heap.asked.placement env (pages.bytes / 10) = some base := tenth
      have placed := (placement_placed asks chosen).1
      exact Or.inr ⟨⟨base, pages.bytes / 10⟩, _, rfl, created _ _ asks placed,
        by simp [AbstractHeap.create, none, settingOf], idle _⟩
    · exact Or.inl ⟨rfl, ⟨compact.wellFormed, compact.single, compact.listed, compact.long,
        compact.small⟩⟩

/-- The only region holds another request. -/
theorem Compact.exists_fits (compact : shown.Compact pages guarded most)
    (only : shown.heap.regions = [region]) (holds : pages.Holds count most)
    (few : shown.heap.inUse < count) (small : need ≤ pageRound most) :
    ∃ entry ∈ shown.heap.entries region.base, Fits need entry := by
  have member : region ∈ shown.heap.regions := by simp [only]
  have used : shown.heap.inUse = busyCount (shown.heap.entries region.base) := by
    simp [AbstractHeap.inUse, compact.listed, only]
  have tiles := compact.wellFormed.tiles region member
  have long := compact.long region member
  refine tiles.exists_fits (compact.wellFormed.coalesced region member)
    (compact.small region member) (by omega : _ ≤ count - 1) ?_
  have one : count - 1 + 1 = count := by omega
  have gaps := Nat.mul_le_mul_left count (Nat.add_le_add_right small 8192)
  unfold MmapPages.Holds at holds
  have two : pageRound most + 8192 + 8192 = pageRound most + 16384 := by omega
  rw [one, two]
  omega

/-- The size of a modest request is below the limit of the region. -/
theorem Compact.small_of_holds (compact : shown.Compact pages guarded most)
    (only : shown.heap.regions = [region]) (holds : pages.Holds count most)
    (few : shown.heap.inUse < count) (small : need ≤ pageRound most) :
    need < shown.limit := by
  have long := compact.long region (by simp [only])
  have limit : shown.limit = region.length - 12288 := by
    have found : shown.heap.regions.find? (fun other => other.base = shown.heap.listed.headD 0) =
        some region := by simp [compact.listed, only]
    rw [Allocator.limit, found, Option.map_some, Option.getD_some]
  have positive : 0 < count := Nat.zero_lt_of_lt few
  have one := Nat.le_mul_of_pos_left (pageRound most + 8192) positive
  unfold MmapPages.Holds at holds
  rw [limit]
  omega

/-- A grant hardly takes more than what was requested. -/
theorem Compact.granted {base : Nat} {entry : Entry} {after : AbstractHeap}
    (compact : shown.Compact pages guarded most) (small : need ≤ pageRound most)
    (positive : guarded = true → 0 < need)
    (found : shown.heap.malloc need (AbstractHeap.grantLength guarded need) =
      some (base, entry, after)) :
    Compact pages guarded most { shown with heap := after } := by
  have wellFormed := compact.wellFormed.malloc positive found
  obtain ⟨_, _, front, back, _, _, split, _, fits, rfl⟩ :=
    AbstractHeap.malloc_eq_some_iff.mp found
  refine ⟨wellFormed, compact.single, compact.listed, compact.long, ?_⟩
  intro region member x xMem busy
  by_cases same : region.base = base
  · subst same
    simp only [AbstractHeap.setEntries_entries] at xMem
    rcases (mem_grantEntry_busy fits.1 busy).mp xMem with old | rfl
    · exact compact.small region member x (split ▸ old) busy
    · have length := grantLength_le guarded small
      unfold grantedEntry
      simp only
      split
      · omega
      · omega
  · simp only [AbstractHeap.setEntries_entries_of_ne _ _ same] at xMem
    exact compact.small region member x xMem busy

/-- Without the block the region is kept with less in use, or nothing is left. -/
theorem Compact.drop {base : Nat} {entry : Entry} (compact : shown.Compact pages guarded most)
    (listed : base ∈ shown.heap.listed) (entryMem : entry ∈ shown.heap.entries base) :
    Compact pages guarded most { shown with heap := Allocator.drop shown.heap base entry } := by
  obtain ⟨region, member, rfl⟩ := compact.wellFormed.mapped base listed
  have wellFormed := compact.wellFormed.free member entryMem
  have only := compact.only member
  unfold Allocator.drop
  split
  · have alone : (shown.heap.free region.base entry.addr).listed = [region.base] := by
      change shown.heap.listed = _
      rw [compact.listed, only, List.map_singleton]
    have unlisted : ((shown.heap.free region.base entry.addr).unlink region.base).listed = [] := by
      rw [AbstractHeap.unlink, alone]
      simp
    have unmapped : (((shown.heap.free region.base entry.addr).unlink region.base).unmap
        region.base).regions = [] := by
      change shown.heap.regions.filter _ = []
      simp [only]
    refine ⟨(wellFormed.unlink region.base).unmap (by simp [unlisted]), ?_, ?_, ?_, ?_⟩
    · simp [unmapped]
    · change ((shown.heap.free region.base entry.addr).unlink region.base).listed = _
      simp [unlisted, unmapped]
    · simp [unmapped]
    · simp [unmapped]
  · refine ⟨wellFormed, compact.single, compact.listed, compact.long, ?_⟩
    intro other otherMem x xMem busy
    have same : other = region := by
      have otherMem : other ∈ shown.heap.regions := otherMem
      rw [only] at otherMem
      exact List.mem_singleton.mp otherMem
    subst same
    obtain ⟨front, back, split⟩ := List.append_of_mem entryMem
    have tiles := compact.wellFormed.tiles other member
    rw [split] at tiles
    simp only [AbstractHeap.free, AbstractHeap.setEntries_entries, split,
      mallocHeaderSize_eq] at xMem
    have kept := (mem_release_busy (by decide) tiles busy).mp xMem
    refine compact.small other member x ?_ busy
    rw [split]
    rcases List.mem_append.mp kept with inFront | inBack
    · exact List.mem_append_left _ inFront
    · exact List.mem_append_right _ (List.mem_cons_of_mem _ inBack)

/-- What a modest request does to the machine. -/
structure Answers (pages : MmapPages) (guarded : Bool) (most requested : Nat)
    (shown : Allocator) (answer : Nat × Allocator) : Prop where
  compact : answer.2.Compact pages guarded most
  failed : shown.failed = true → answer.2.failed = true
  served : requested ≠ 0 → answer.2.failed = false → answer.1 ≠ 0

/-- A modest request is served from the only region. -/
theorem Compact.serve (env : Env) (compact : shown.Compact pages guarded most)
    (only : shown.heap.regions = [region]) (holds : pages.Holds count most)
    (few : size ≠ 0 → shown.heap.inUse < count) (modest : size ≤ most) :
    Answers pages guarded most size shown (shown.serve (settingOf env pages guarded) size) := by
  by_cases zero : size = 0
  · rw [Allocator.serve, if_pos (Or.inl zero)]
    exact ⟨compact, id, fun positive => absurd zero positive⟩
  have bound := holds.bound (Nat.zero_lt_of_lt (few zero))
  have small := need_le env pages guarded modest bound
  have below := compact.small_of_holds only holds (few zero) small
  obtain ⟨chosen, chosenMem, fits⟩ := compact.exists_fits only holds (few zero) small
  rw [Allocator.serve, if_neg (by omega)]
  have positive : guarded = true → 0 < (settingOf env pages guarded).need size := by
    rintro rfl
    exact Nat.pos_of_ne_zero zero
  generalize (settingOf env pages guarded).need size = need at small below fits positive
  cases found : shown.heap.malloc need (AbstractHeap.grantLength guarded need) with
  | none =>
      have listed : region.base ∈ shown.heap.listed := by simp [compact.listed, only]
      exact absurd fits (AbstractHeap.malloc_eq_none_iff.mp found _ listed _ chosenMem)
  | some granted =>
      obtain ⟨base, entry, after⟩ := granted
      have served : shown.search (settingOf env pages guarded) need =
          (AbstractHeap.pointerOf guarded entry.addr need, { shown with heap := after }) := by
        simp only [Allocator.search, Allocator.grant, settingOf, found, Option.map_some]
      rw [served]
      refine ⟨compact.granted small positive found, id, fun _ _ => ?_⟩
      simp only [AbstractHeap.pointerOf]
      omega

/-- A request keeps the machine compact; it is served unless nothing at all
can be mapped. -/
theorem Compact.malloc (env : Env) (compact : shown.Compact pages guarded most)
    (holds : pages.Holds count most) (few : size ≠ 0 → shown.heap.inUse < count)
    (modest : size ≤ most) :
    Answers pages guarded most size shown (shown.malloc (settingOf env pages guarded) size) := by
  unfold Allocator.malloc
  split
  · rename_i failed
    exact ⟨compact, id, fun _ alive => absurd (failed.symm.trans alive) (by decide)⟩
  · rename_i alive
    split
    · rename_i unlisted
      have none : shown.heap.regions = [] := by
        rw [compact.listed] at unlisted
        exact List.map_eq_nil_iff.mp unlisted
      rcases compact.extend env none with ⟨refused, asked⟩ |
        ⟨region, grown, granted, grownCompact, only, idle⟩
      · generalize shown.extend (settingOf env pages guarded) = extended at refused asked
        obtain ⟨answer, grown⟩ := extended
        subst refused
        exact ⟨⟨asked.wellFormed, asked.single, asked.listed, asked.long, asked.small⟩,
          fun _ => rfl, fun _ dead => absurd dead (by simp)⟩
      · rw [granted]
        have fewer : size ≠ 0 → grown.heap.inUse < count := by
          intro positive
          have some := few positive
          omega
        have answers := grownCompact.serve env only holds fewer modest
        exact ⟨answers.compact, fun failed => absurd failed alive, answers.served⟩
    · rename_i listed
      rcases compact.shape with none | ⟨region, only⟩
      · exact absurd (by rw [compact.listed, none, List.map_nil]) listed
      · exact compact.serve env only holds few modest

/-- A release keeps the machine compact. -/
theorem Compact.free (env : Env) (compact : shown.Compact pages guarded most) (ptr : Nat) :
    (shown.free (settingOf env pages guarded) ptr).Compact pages guarded most ∧
      (shown.free (settingOf env pages guarded) ptr).failed = shown.failed := by
  unfold Allocator.free
  cases found : shown.target (settingOf env pages guarded) ptr with
  | none => exact ⟨compact, rfl⟩
  | some block =>
      obtain ⟨base, entry⟩ := block
      obtain ⟨_, listed, entryMem, busy, _⟩ := Allocator.target_eq_some found
      exact ⟨compact.drop listed entryMem, rfl⟩

/-- Every deed of a modest client keeps the machine compact. -/
theorem Compact.step (env : Env) (compact : shown.Compact pages guarded most)
    (holds : pages.Holds count most) {deed : Deed}
    (few : deed.requested ≠ 0 → shown.heap.inUse < count) (modest : deed.requested ≤ most) :
    Answers pages guarded most deed.requested shown
      ((allocatorMachine (settingOf env pages guarded)).step shown deed) := by
  cases deed with
  | store address value => exact ⟨compact, id, fun positive => absurd rfl positive⟩
  | call request =>
      cases request with
      | malloc size => exact compact.malloc env holds few modest
      | free ptr =>
          obtain ⟨next, same⟩ := compact.free env ptr
          exact ⟨next, fun failed => same.trans failed, fun positive => absurd rfl positive⟩
      | calloc nmemb size =>
          simp only [allocatorMachine, Allocator.step]
          split
          · rename_i none
            exact ⟨compact, id, fun positive => absurd none positive⟩
          · exact compact.malloc env holds few modest
      | realloc ptr size =>
          simp only [allocatorMachine, Allocator.step]
          split
          · rename_i zero
            refine ⟨?_, ?_, fun positive => absurd zero positive⟩
            · split
              · exact compact
              · exact (compact.free env ptr).1
            · intro failed
              split
              · exact failed
              · exact (compact.free env ptr).2.trans failed
          · have answers := compact.malloc env holds few modest
            split
            · exact answers
            · obtain ⟨next, same⟩ := answers.compact.free env ptr
              exact ⟨next, fun failed => same.trans (answers.failed failed),
                fun positive alive => answers.served positive (same.symm.trans alive)⟩

end Allocator

/-! ## Runs -/

/-- The blocks in use that are seen in memory are those of the machine. -/
theorem Displays.inUse_eq {state : State} (displays : Displays pages guarded state shown) :
    state.heap.abstraction.inUse = shown.heap.inUse := by
  have sees := displays.heap.seesLists
  unfold AbstractHeap.inUse
  rw [abstraction_listed, abstraction_entries, sees.mmaps]
  congr 1
  refine List.map_congr_left fun base member => ?_
  obtain ⟨region, regionMem, rfl⟩ := displays.heap.stands.listed member
  rw [sees.blocks region (sees.mapped ▸ regionMem)]

/-- A modest client never has more than one MMAP mapped, and all of its
requests are served unless the first MMAP cannot be created. -/
theorem served_of_modest {trace : List Done} {state : State} (mutexes : MutexCallsSucceed env)
    (unmaps : MunmapCallsSucceed env) (holds : pages.Holds count most)
    (run : Run Deed.program env (Modest count most) (start pages guarded) trace state) :
    state.heap.mapped.length ≤ 1 ∧ (state.heap.shared.mmapBlockFirst ≠ mapFailed →
      ∀ event ∈ trace, event.call.requested ≠ 0 → event.result ≠ 0) := by
  have invariant : ∃ shown, Displays pages guarded state shown ∧
      shown.Compact pages guarded most ∧ (shown.failed = false →
        ∀ event ∈ trace, event.call.requested ≠ 0 → event.result ≠ 0) := by
    refine Run.induct (fun (trace : List Done) state => ∃ shown,
      Displays pages guarded state shown ∧ shown.Compact pages guarded most ∧
        (shown.failed = false →
          ∀ event ∈ trace, event.call.requested ≠ 0 → event.result ≠ 0)) ?_ ?_ run
    · exact ⟨_, displays_start env pages guarded, Allocator.compact_initial _ _ _, by simp⟩
    · rintro trace state deed result last ⟨shown, displays, compact, answered⟩ modest ended
      obtain ⟨same, next⟩ := follows_allocator mutexes unmaps state deed result last shown
        displays modest.tame ended
      have answers := compact.step env holds (displays.inUse_eq ▸ modest.few) modest.small
      refine ⟨_, next, answers.compact, ?_⟩
      intro alive
      have before : shown.failed = false := by
        cases failed : shown.failed with
        | false => rfl
        | true => rw [answers.failed failed] at alive; cases alive
      refine List.forall_mem_cons.mpr ⟨fun positive => ?_, answered before⟩
      simp only at positive ⊢
      rw [same]
      exact answers.served positive alive
  obtain ⟨shown, displays, compact, answered⟩ := invariant
  have sees := displays.heap.seesLists
  refine ⟨?_, fun working => answered ?_⟩
  · rw [sees.mapped]
    exact compact.single
  · cases failed : shown.failed with
    | false => rfl
    | true => exact absurd (sees.failed.mpr failed) working

/-- Two blocks of up to a page are held, and the third request is met after a
release. -/
theorem served_of_modest_sample :
    ∃ trace state, Run Deed.program generousEnv (Modest 2 4000) (start .default true) trace state ∧
      trace.map Event.result = [268464120, 0, 268464120, 268451830] ∧
      state.heap.mapped.length ≤ 1 ∧ (state.heap.shared.mmapBlockFirst ≠ mapFailed →
        ∀ event ∈ trace, event.call.requested ≠ 0 → event.result ≠ 0) := by
  have found : (replay Deed.program generousEnv (Modest 2 4000) [] (start .default true)
      [.call (.malloc 10), .call (.calloc 2 4), .call (.free 268464120),
        .call (.realloc 0 8)]).map (fun final => final.1.map Event.result) =
      some [268464120, 0, 268464120, 268451830] := by decide +kernel
  obtain ⟨final, replayed, results⟩ := Option.map_eq_some_iff.mp found
  have run := Run.start.replay replayed
  exact ⟨_, _, run, results,
    served_of_modest generousEnv_mutexes generousEnv_munmap (by decide +kernel) run⟩

end VgcMalloc
