import VgcMalloc.Guarantees.Contents
import VgcMalloc.Guarantees.Exhaustion

/-!
# Progress

When the mutex calls and `mprotect` succeed, no call of a client that follows
the rules faults, waits for a mutex or loops, in whatever order it asks,
releases and writes.  The only way to lose this is that the first MMAP cannot be
created.
-/

namespace VgcMalloc

open Program Tiling Linked Relation

variable {env : Env} {pages : MmapPages} {guarded : Bool} {heap after middle : Heap}
  {abstract : AbstractHeap} {region : Region} {entry x : Entry} {state last : State}
  {size ptr result : Nat}

/-! ## Deeds that follow the rules -/

/-- The bytes that `vgc_realloc` reads as the contents of the old block lie in
the block.  Without guard pages they do so by themselves; with guard pages the
word that is taken for the size need not be the size. -/
def Heap.SourceInside (heap : Heap) (ptr size : Nat) : Prop :=
  heap.shared.isMprotectEnabled = true → ∃ entry ∈ heap.busyBlocks,
    headerOf heap.shared ptr = entry.addr ∧
      (ptr + size ≤ entry.addr + mallocHeaderSize + entry.size ∨
        entry.addr + MallocField.btArraySize.offset + MallocField.btArraySize.width ≤
            sub64 ptr mallocHeaderSize + MallocField.size.offset ∧
          ptr + min (heap.shownSize ptr) size ≤ entry.addr + mallocHeaderSize + entry.size)

/-- Deeds of a client that follows the rules: pointers passed back are null,
lie outside of every MMAP or resolve to a block in use, the bytes that the
library writes or copies lie in their blocks, and stores go to payloads. -/
def Sound (state : State) : Deed → Prop
  | .call (.free ptr) => ptr = 0 ∨ (∀ base ∈ state.heap.mmaps, ¬state.heap.InRange ptr base) ∨
      state.heap.Resolves ptr
  | .call (.realloc ptr size) => Tame state (.realloc ptr size) ∧
      (ptr = 0 ∨ size = 0 ∨ state.heap.SourceInside ptr size)
  | deed => TameDeed state deed

/-- The deed ends normally. -/
def Completes (env : Env) (state : State) (deed : Deed) : Prop :=
  ∃ result last, deed.program env state = .ok result last

theorem Sound.tame {deed : Deed} (sound : Sound state deed) : TameDeed state deed := by
  cases deed with
  | store address value => exact sound
  | call request =>
      cases request with
      | malloc size => trivial
      | calloc nmemb size => exact sound
      | realloc ptr size => exact sound.1
      | free ptr =>
          rcases sound with null | outside | resolves
          · exact Or.inr (Or.inl null)
          · exact Or.inr (Or.inr (Or.inl outside))
          · exact Or.inl resolves

/-! ## Only headers are guarded -/

theorem OnlyHeaders.writesPayload (valid : Valid pages guarded heap)
    (only : OnlyHeaders heap heap.abstraction) (writes : WritesPayload heap after entry) :
    OnlyHeaders after after.abstraction := by
  refine OnlyHeaders.abstraction (valid.stands.writesPayload writes) ?_
  intro region member page aligned low high protected_
  rw [writes.same] at protected_
  exact only region member page aligned low high protected_

theorem OnlyHeaders.change (works : MprotectCallsSucceed env) (valid : Valid pages guarded heap)
    (only : OnlyHeaders heap heap.abstraction) (change : Change env pages guarded heap after) :
    OnlyHeaders after after.abstraction := by
  cases change with
  | effect happened => exact only.effect works happened
  | write writes => exact only.writesPayload valid writes

/-! ## Accessible bytes -/

/-- Behind the protect page of its header, every page of a block is open. -/
theorem OnlyHeaders.page_open (stands : Stands pages guarded heap abstract)
    (only : OnlyHeaders heap abstract) (member : region ∈ abstract.regions)
    (entryMem : entry ∈ abstract.entries region.base) (address : Nat)
    (low : entry.addr + 4096 ≤ address) (high : address < entry.addr + 8192 + entry.size) :
    region.base ≤ pageBase address ∧ pageBase address < region.base + region.length ∧
      heap.protNone (pageBase address) = false := by
  have tiles := stands.wellFormed.tiles region member
  have bounds := tiles.bounds entryMem
  have page : pageBase address ≤ address ∧ address < pageBase address + 4096 := by
    simp only [pageBase, systemPageSize_eq]
    omega
  refine ⟨by omega, by omega, ?_⟩
  by_contra closed
  -- the page starts inside of the block, where no other header is
  obtain ⟨other, otherMem, start⟩ := List.mem_map.mp
    (only region member _ (pageBase_mod address) (by omega) (by omega)
      ((Bool.not_eq_false _).mp closed))
  rcases tiles.disjoint entryMem otherMem with rfl | apart
  · omega
  · omega

theorem OnlyHeaders.accessible (stands : Stands pages guarded heap abstract)
    (only : OnlyHeaders heap abstract) (member : region ∈ abstract.regions)
    (entryMem : entry ∈ abstract.entries region.base) (address : Nat)
    (low : entry.addr + 4096 ≤ address) (high : address < entry.addr + 8192 + entry.size) :
    heap.isAccessible address = true := by
  obtain ⟨_, _, isOpen⟩ := only.page_open stands member entryMem address low high
  have bounds := (stands.wellFormed.tiles region member).bounds entryMem
  rw [Heap.isAccessible, isMapped_of_mem (stands.mapped.symm ▸ member) (by omega) (by omega),
    isOpen]
  rfl

/-- A range in the payload of a block can be accessed. -/
theorem OnlyHeaders.rangeAccessible (stands : Stands pages guarded heap abstract)
    (only : OnlyHeaders heap abstract) (member : region ∈ abstract.regions)
    (entryMem : entry ∈ abstract.entries region.base) {target length : Nat}
    (low : entry.addr + 8192 ≤ target) (high : target + length ≤ entry.addr + 8192 + entry.size) :
    heap.rangeAccessible target length = true := by
  unfold Heap.rangeAccessible
  rw [Bool.or_eq_true, beq_iff_eq, List.all_eq_true]
  by_cases none : length = 0
  · exact Or.inl none
  · refine Or.inr ?_
    intro page inside
    obtain ⟨i, small, rfl⟩ := List.mem_range'.mp inside
    simp only [systemPageSize_eq] at small ⊢
    -- the page holds a byte of the range
    have holds : ∃ address, target ≤ address ∧ address < target + length ∧
        pageBase address = (target / 4096 + 1 * i) * 4096 := by
      simp only [pageBase, systemPageSize_eq]
      by_cases first : i = 0
      · exact ⟨target, by omega, by omega, by omega⟩
      · exact ⟨(target / 4096 + 1 * i) * 4096, by omega, by omega, by omega⟩
    obtain ⟨address, here, below, start⟩ := holds
    obtain ⟨above, under, isOpen⟩ := only.page_open stands member entryMem address (by omega)
      (by omega)
    rw [← start, Heap.isAccessible, isMapped_of_mem (stands.mapped.symm ▸ member) above under]
    have same : pageBase (pageBase address) = pageBase address := by
      simp only [pageBase, systemPageSize_eq]
      omega
    rw [same, isOpen]
    rfl

/-- The header that a request splits off can always be written. -/
theorem OnlyHeaders.splitSettled (stands : Stands pages guarded heap abstract)
    (only : OnlyHeaders heap abstract) (need : Nat) :
    SplitSettled (fun _ => False) guarded need heap abstract abstract.listed := by
  intro entry found closed
  apply closed
  intro left
  obtain ⟨base, listed, found⟩ := List.exists_of_findSome?_eq_some found
  obtain ⟨region, member, rfl⟩ := stands.listed listed
  have entryMem := List.mem_of_find?_eq_some found
  have opens := only.accessible stands member entryMem
  exact Heap.mallocAccessible_of fun x low high => opens x (by omega) (by omega)

/-! ## Calls that end -/

/-- The heap is represented, and only headers are guarded. -/
structure Ready (pages : MmapPages) (guarded : Bool) (heap : Heap) : Prop where
  rep : Represents pages guarded heap heap.abstraction
  only : OnlyHeaders heap heap.abstraction

theorem Ready.writesPayload (ready : Ready pages guarded heap)
    (writes : WritesPayload heap after entry) : Ready pages guarded after where
  rep := (ready.rep.writesPayload writes).abstraction
  only := ready.only.writesPayload (.live ready.rep) writes

/-- A range in the payload of a block in use can be accessed. -/
theorem Ready.range {target length : Nat} (ready : Ready pages guarded heap)
    (busy : heap.Busy entry) (low : entry.addr + 8192 ≤ target)
    (high : target + length ≤ entry.addr + 8192 + entry.size) :
    heap.rangeAccessible target length = true := by
  obtain ⟨region, member, entryMem, _⟩ := busy
  exact ready.only.rangeAccessible ready.rep.toStands member entryMem low high

theorem Ready.malloc (mutexes : MutexCallsSucceed env) (ready : Ready pages guarded state.heap)
    (unlocked : state.held = []) (size : Nat) :
    ∃ memory asked, vgcMalloc size env state = .ok memory asked ∧ asked.held = [] ∧
      Effect env pages guarded state.heap (.malloc size) memory asked.heap := by
  have settled := ready.only.splitSettled ready.rep.toStands
    (alignSize state.heap.shared size)
  obtain ⟨memory, asked, ended, held, outcome⟩ :=
    (settles_vgcMalloc mutexes ready.rep settled).yields (fun _ impossible => impossible) state
      (by rw [seen, unlocked])
  exact ⟨memory, asked, ended, held, .malloc ready.rep outcome⟩

/-- A request that is served leaves the heap ready. -/
theorem Ready.served {memory : Nat} (works : MprotectCallsSucceed env)
    (ready : Ready pages guarded heap) (served : memory ≠ 0)
    (effect : Effect env pages guarded heap (.malloc size) memory after) :
    Ready pages guarded after := by
  have only := ready.only.effect works effect
  obtain ⟨rep, outcome⟩ := effect.of_malloc served
  refine ⟨?_, only⟩
  cases outcome with
  | poisoned empty refused null => exact absurd null served
  | refused abstract' extended null => exact absurd null served
  | served extendedHeap abstract' middle region entry extended granted positive small =>
      exact (granted.represents (extended.represents rep)
        (alignSize_pos rep.mode positive)).abstraction

theorem Ready.free (mutexes : MutexCallsSucceed env) (ready : Ready pages guarded state.heap)
    (unlocked : state.held = [])
    (sound : ptr = 0 ∨ (∀ base ∈ state.heap.mmaps, ¬state.heap.InRange ptr base) ∨
      state.heap.Resolves ptr) : ∃ last, vgcFree ptr env state = .ok () last := by
  have viewEq : seen state = (state.heap, []) := by rw [seen, unlocked]
  have outside : (ptr = 0 ∨ ∀ base ∈ state.heap.mmaps, ¬state.heap.InRange ptr base) →
      ∃ last, vgcFree ptr env state = .ok () last := by
    intro wrong
    obtain ⟨_, last, ended, _⟩ := yields_vgcFree_outside mutexes ready.rep wrong state viewEq
    exact ⟨last, ended⟩
  rcases sound with null | wrong | ⟨bound, base, listed, entry, entryMem, busy, resolved⟩
  · exact outside (Or.inl null)
  · exact outside (Or.inr wrong)
  · obtain ⟨region, member, rfl⟩ := ready.rep.listed listed
    rw [← abstraction_entries] at entryMem
    obtain ⟨_, last, ended, _⟩ := yields_vgcFree mutexes ready.rep member listed entryMem busy
      bound resolved state viewEq
    exact ⟨last, ended⟩

theorem memset_of_accessible {target length : Nat} (env : Env)
    (accessible : state.heap.rangeAccessible target length = true) :
    ∃ last, memset target length env state = .ok () last := by
  unfold memset
  rw [if_pos accessible]
  exact ⟨_, rfl⟩

theorem memcpy_of_accessible {target source length : Nat} (env : Env)
    (reads : state.heap.rangeAccessible source length = true)
    (writes : state.heap.rangeAccessible target length = true) :
    ∃ last, memcpy target source length env state = .ok () last := by
  unfold memcpy
  rw [if_pos ⟨reads, writes⟩]
  exact ⟨_, rfl⟩

theorem Ready.calloc {nmemb : Nat} (mutexes : MutexCallsSucceed env)
    (works : MprotectCallsSucceed env) (ready : Ready pages guarded state.heap)
    (unlocked : state.held = []) (tame : Tame state (.calloc nmemb size)) :
    ∃ memory last, vgcCalloc nmemb size env state = .ok memory last := by
  unfold vgcCalloc
  by_cases none : mul64 nmemb size = 0
  · rw [if_pos none]
    exact ⟨0, _, rfl⟩
  · rw [if_neg none]
    obtain ⟨memory, asked, request, _, effect⟩ := ready.malloc mutexes unlocked
      (mul64 nmemb size)
    by_cases refused : memory = 0
    · refine ⟨0, asked, ?_⟩
      rw [bind_of_ok request, if_pos refused]
      rfl
    · obtain ⟨granted, serves⟩ := effect.serves (.live ready.rep) refused
        (tame.resolve_left none)
      have grown := ready.served works refused effect
      obtain ⟨last, cleared⟩ := memset_of_accessible env
        (grown.range serves.busy serves.low serves.high)
      refine ⟨memory, last, ?_⟩
      rw [bind_of_ok request, if_neg refused, bind_of_ok cleared]
      rfl

/-- Where a pointer that resolves to a block lies. -/
theorem Valid.pointer_bounds (valid : Valid pages guarded heap) (busy : heap.Busy x)
    (bound : ptr < 2 ^ 64) (resolved : headerOf heap.shared ptr = x.addr) :
    x.addr + 8192 ≤ ptr ∧ ptr < x.addr + 8192 + (if guarded then 4096 else 1) := by
  obtain ⟨region, member, xMem, _⟩ := busy
  have user := (valid.stands.wellFormed.placed region member).user
  have bounds := (valid.stands.wellFormed.tiles region member).bounds xMem
  have near := headerOf_bounds bound valid.stands.pageSize (by omega) resolved
  rw [valid.stands.mode] at near
  refine ⟨near.1, lt_of_lt_of_le near.2 ?_⟩
  split
  · omega
  · omega

/-- The word that is taken for the size lies in the block. -/
theorem Valid.shown_inside (valid : Valid pages guarded heap) (busy : heap.Busy x)
    (bound : ptr < 2 ^ 64) (resolved : headerOf heap.shared ptr = x.addr) :
    sub64 ptr mallocHeaderSize = ptr - 8192 ∧
      InsideBlock (sub64 ptr mallocHeaderSize + MallocField.size.offset)
        MallocField.size.width x := by
  have near := valid.pointer_bounds busy bound resolved
  have word : sub64 ptr mallocHeaderSize = ptr - 8192 := by
    rw [mallocHeaderSize_eq, sub64_of_le (by omega) (by omega)]
  refine ⟨word, ?_⟩
  unfold InsideBlock
  rw [word, mallocHeaderSize_eq]
  simp only [MallocField.offset, MallocField.width]
  cases guarded with
  | false =>
      simp only [Bool.false_eq_true, if_false] at near
      omega
  | true =>
      simp only [if_true] at near
      obtain ⟨region, member, xMem, _⟩ := busy
      obtain ⟨_, whole, positive⟩ := valid.stands.wellFormed.aligned rfl region member x xMem
      omega

/-- The word that is taken for the size can be read. -/
theorem Ready.readMallocSize (env : Env) (ready : Ready pages guarded state.heap)
    (busy : state.heap.Busy x) (bound : ptr < 2 ^ 64) (resolved : headerOf state.heap.shared ptr = x.addr) :
    readMallocSize (sub64 ptr mallocHeaderSize) env state =
      .ok (state.heap.shownSize ptr) state := by
  have valid : Valid pages guarded state.heap := .live ready.rep
  have near := valid.pointer_bounds busy bound resolved
  obtain ⟨word, low, high⟩ := valid.shown_inside busy bound resolved
  simp only [MallocField.offset, MallocField.width, mallocHeaderSize_eq] at low high
  rw [mallocHeaderSize_eq] at word
  rw [word] at low high
  obtain ⟨region, member, xMem, _⟩ := busy
  have opens := ready.only.accessible ready.rep.toStands member xMem
  unfold VgcMalloc.readMallocSize
  rw [mallocHeaderSize_eq, word, if_pos ⟨opens _ (by omega) (by omega),
    opens _ (by omega) (by omega)⟩, Heap.shownSize, mallocHeaderSize_eq, word]

/-- The bytes to be copied still lie in the old block when the new one has been
taken into use. -/
theorem Heap.SourceInside.range (source : heap.SourceInside ptr size)
    (valid : Valid pages guarded heap) (grown : Valid pages guarded after) (busy : heap.Busy x)
    (bound : ptr < 2 ^ 64) (resolved : headerOf heap.shared ptr = x.addr)
    (stays : after.Busy x) (same : SameBehind heap after x) :
    ptr + min (after.shownSize ptr) size ≤ x.addr + 8192 + x.size := by
  cases guarded with
  | false =>
      have found : headerOf after.shared ptr = x.addr := by
        rw [grown.stands.headerOf_eq, ← valid.stands.headerOf_eq, resolved]
      obtain ⟨pointer, shown⟩ := grown.shownSize_eq stays bound found
      rw [shown]
      omega
  | true =>
      obtain ⟨block, blockMem, leads, inside⟩ := source valid.stands.mode
      obtain rfl := valid.busy_unique (mem_busyBlocks.mp blockMem) busy
        (leads.symm.trans resolved)
      rw [mallocHeaderSize_eq] at inside
      rcases inside with fits | ⟨behind, fits⟩
      · omega
      · have shown := same.shownSize_eq behind (valid.shown_inside busy bound resolved).2
        rw [shown]
        exact fits

theorem Ready.realloc (mutexes : MutexCallsSucceed env) (works : MprotectCallsSucceed env)
    (ready : Ready pages guarded state.heap) (unlocked : state.held = [])
    (tame : Tame state (.realloc ptr size))
    (source : ptr = 0 ∨ size = 0 ∨ state.heap.SourceInside ptr size) :
    ∃ memory last, vgcRealloc ptr size env state = .ok memory last := by
  obtain ⟨pointer, fits⟩ := tame
  unfold vgcRealloc
  by_cases zero : size = 0
  · rw [if_pos zero]
    by_cases null : ptr = 0
    · refine ⟨0, state, ?_⟩
      simp only [null, ne_eq, not_true_eq_false, when, if_false]
      rfl
    · obtain ⟨last, freed⟩ := ready.free mutexes unlocked
        (Or.inr (Or.inr (pointer.resolve_left null)))
      have frees : when (ptr ≠ 0) (vgcFree ptr) env state = .ok () last := by
        rw [when, if_pos null]
        exact freed
      exact ⟨0, last, bind_of_ok frees⟩
  · rw [if_neg zero]
    obtain ⟨memory, asked, request, held, effect⟩ := ready.malloc mutexes unlocked size
    by_cases null : ptr = 0
    · rw [if_pos null]
      exact ⟨memory, asked, request⟩
    · rw [if_neg null]
      by_cases refused : memory = 0
      · refine ⟨0, asked, ?_⟩
        rw [bind_of_ok request, if_pos refused]
        rfl
      · have valid : Valid pages guarded state.heap := .live ready.rep
        obtain ⟨granted, serves⟩ := effect.serves valid refused (fits.resolve_left zero)
        have grown := ready.served works refused effect
        obtain ⟨bound, base, listed, x, xMem, isBusy, resolved⟩ := pointer.resolve_left null
        obtain ⟨region, member, rfl⟩ := valid.listed listed
        have busy : state.heap.Busy x := ⟨region, member, xMem, isBusy⟩
        obtain ⟨stays, same⟩ := effect.keeps busy
        have later : Valid pages guarded asked.heap := .live grown.rep
        have found : headerOf asked.heap.shared ptr = x.addr := by
          rw [later.stands.headerOf_eq, ← valid.stands.headerOf_eq, resolved]
        have read := grown.readMallocSize env stays bound found
        have inside := ((source.resolve_left null).resolve_left zero).range valid later busy
          bound resolved stays same
        have low := (later.pointer_bounds stays bound found).1
        have enough := serves.high
        have room : memory + min (asked.heap.shownSize ptr) size ≤
            granted.addr + 8192 + granted.size := by omega
        obtain ⟨copied, copies⟩ := memcpy_of_accessible env (grown.range stays low inside)
          (grown.range serves.busy serves.low room)
        obtain ⟨heldEq, range⟩ := memcpy_ended copies
        have writes := range.payload serves.busy serves.low room
        have resolves : copied.heap.Resolves ptr := by
          obtain ⟨rep, outcome⟩ := effect.of_malloc refused
          exact later.resolves_writesPayload writes (outcome.resolves rep
            (pointer.resolve_left null))
        obtain ⟨last, frees⟩ := (grown.writesPayload writes).free mutexes (heldEq.trans held)
          (Or.inr (Or.inr resolves))
        refine ⟨memory, last, ?_⟩
        rw [bind_of_ok request, if_neg refused, bind_of_ok read, bind_of_ok copies,
          bind_of_ok frees]
        rfl

/-- A sound deed ends. -/
theorem Ready.ends {deed : Deed} (mutexes : MutexCallsSucceed env)
    (works : MprotectCallsSucceed env) (ready : Ready pages guarded state.heap)
    (unlocked : state.held = []) (sound : Sound state deed) : Completes env state deed := by
  cases deed with
  | store address value =>
      obtain ⟨base, listed, entry, entryMem, busy, low, high⟩ := sound
      obtain ⟨region, member, rfl⟩ := ready.rep.listed listed
      rw [← abstraction_entries] at entryMem
      rw [mallocHeaderSize_eq] at low high
      have isOpen := ready.only.accessible ready.rep.toStands member entryMem address (by omega)
        high
      have stored : ∃ last, storeByte address value env state = .ok () last := by
        unfold storeByte
        rw [if_pos isOpen]
        exact ⟨_, rfl⟩
      obtain ⟨last, ended⟩ := stored
      exact ⟨0, last, bind_of_ok ended⟩
  | call request =>
      cases request with
      | malloc size =>
          obtain ⟨memory, last, ended, _⟩ := ready.malloc mutexes unlocked size
          exact ⟨memory, last, ended⟩
      | calloc nmemb size => exact ready.calloc mutexes works unlocked sound
      | realloc ptr size => exact ready.realloc mutexes works unlocked sound.1 sound.2
      | free ptr =>
          obtain ⟨last, freed⟩ := ready.free mutexes unlocked sound
          exact ⟨0, last, bind_of_ok freed⟩

/-! ## Runs -/

/-- No request ends once the first MMAP could not be created. -/
theorem Stands.not_ends (size : Nat) (stands : Stands pages guarded state.heap abstract)
    (failed : state.heap.shared.mmapBlockFirst = mapFailed) (positive : size ≠ 0) :
    ¬Completes env state (.call (.malloc size)) := by
  rintro ⟨memory, last, ended⟩
  have stops : Allows seen (vgcMalloc size) env (state.heap, state.held) fun _ _ => False := by
    have ready : Yields seen initialiseFirstMMAP env (state.heap, state.held)
        fun value after => value = true ∧ after = (state.heap, state.held) := by
      unfold initialiseFirstMMAP
      refine Yields.seq yields_getShared ?_
      rintro _ _ ⟨rfl, rfl⟩
      rw [failed, if_pos (by decide)]
      exact Yields.pure ⟨rfl, rfl⟩
    unfold vgcMalloc
    refine Allows.seq ready.allows ?_
    rintro _ _ ⟨rfl, rfl⟩
    simp only [Bool.not_true, Bool.false_eq_true, if_false]
    rw [if_neg positive]
    refine Allows.seq yields_getShared.allows ?_
    rintro _ _ ⟨rfl, rfl⟩
    rw [failed]
    exact Allows.seq stands.faults_mapFailed fun _ _ impossible => impossible.elim
  exact stops state rfl memory last ended

/-- In every state of a run, every deed that follows the rules ends, exactly
when the first MMAP has not failed to be created. -/
theorem ends_iff_of_run {trace : List Done} (mutexes : MutexCallsSucceed env)
    (works : MprotectCallsSucceed env) (run : DeedRun env pages guarded trace state) :
    (∀ deed, Sound state deed → Completes env state deed) ↔
      state.heap.shared.mmapBlockFirst ≠ mapFailed := by
  have none : OnlyHeaders (start pages guarded).heap (start pages guarded).heap.abstraction := by
    intro region member
    exact absurd member List.not_mem_nil
  obtain ⟨unlocked, valid, only⟩ := deed_invariant (fun heap => OnlyHeaders heap heap.abstraction)
    mutexes none (fun _ _ valid only change => only.change works valid change) run
  constructor
  · intro ends failed
    exact valid.stands.not_ends 1 failed (by decide) (ends _ trivial)
  · intro alive deed sound
    cases valid with
    | live rep => exact (Ready.mk rep only).ends mutexes works unlocked sound
    | dead stands failed => exact absurd failed alive

theorem ends_iff_of_run_sample :
    ∃ trace state, DeedRun generousEnv .default true trace state ∧
      Sound state (.call (.realloc 268451830 5)) ∧
      ((∀ deed, Sound state deed → Completes generousEnv state deed) ↔
        state.heap.shared.mmapBlockFirst ≠ mapFailed) := by
  have found : (replay Deed.program generousEnv TameDeed [] (start .default true)
      [.call (.malloc 10), .store 268451830 1]).map (fun final =>
        (decide (Tame final.2 (.realloc 268451830 5)), final.2.heap.busyBlocks,
          headerOf final.2.heap.shared 268451830)) =
      some (true, [⟨268439552, 4096, true⟩], 268439552) := by decide +kernel
  obtain ⟨final, replayed, same⟩ := Option.map_eq_some_iff.mp found
  simp only [Prod.mk.injEq, decide_eq_true_eq] at same
  obtain ⟨tame, blocks, header⟩ := same
  have run := Run.start.replay replayed
  refine ⟨_, _, run, ⟨tame, Or.inr (Or.inr ?_)⟩,
    ends_iff_of_run generousEnv_mutexes generousEnv_mprotects run⟩
  intro _
  exact ⟨⟨268439552, 4096, true⟩, by simp [blocks], header, Or.inl (by decide)⟩

end VgcMalloc
