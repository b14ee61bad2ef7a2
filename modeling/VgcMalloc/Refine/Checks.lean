import Mathlib.Order.Interval.Finset.Nat
import VgcMalloc.Linked.Segment
import VgcMalloc.Linked.Walk
import VgcMalloc.Model.Malloc

/-!
# Walks over arbitrary headers

The loops over the blocks of an MMAP, for headers with any contents.  They only
read, so they run forever exactly when the links form a cycle that they do not
leave, and `checkMmapBlock` returns true exactly for the lists that pass the
tests it makes of every header.
-/

namespace VgcMalloc

open Program Linked

variable {env : Env} {state last : State} {heap : Heap} {str : String}
  {mmapBlock block fuel : Nat}

/-! ## Cycles -/

namespace Heap

/-- A walk that reads whole headers along `next` ends here: the link is null or
leads to a header that cannot be read. -/
def EndsAt (heap : Heap) (block : Nat) : Prop :=
  block = 0 ∨ heap.linksAccessible block = false

/-- The scan can read what it needs of a header that it passes: the status, the
size of a free block, and the link. -/
def scanAccessible (heap : Heap) (block : Nat) : Bool :=
  heap.fieldAccessible block .status &&
    ((heap.mallocHeader block).status != .free || heap.fieldAccessible block .size) &&
      heap.fieldAccessible block .next

/-- The scan ends here unless it takes the block. -/
def ScanEndsAt (heap : Heap) (block : Nat) : Prop :=
  block = 0 ∨ heap.scanAccessible block = false

/-- The headers that the scan reaches from the first one of an MMAP. -/
def reached (heap : Heap) (mmapBlock : Nat) : Set Nat :=
  Passed heap.nextBlock heap.ScanEndsAt (firstMallocHeaderInMMAP mmapBlock)

/-- The links from the first header of an MMAP form a cycle of headers that can
be read. -/
def Cyclic (heap : Heap) (mmapBlock : Nat) : Prop :=
  Returns heap.nextBlock heap.EndsAt (firstMallocHeaderInMMAP mmapBlock)

/-- They form a cycle for the scan. -/
def ScanCyclic (heap : Heap) (mmapBlock : Nat) : Prop :=
  Returns heap.nextBlock heap.ScanEndsAt (firstMallocHeaderInMMAP mmapBlock)

end Heap

theorem firstMallocHeaderInMMAP_lt (mmapBlock : Nat) : firstMallocHeaderInMMAP mmapBlock < 2 ^ 64 :=
  Nat.mod_lt _ (by decide)

namespace Heap

theorem nextBlock_lt (heap : Heap) (block : Nat) : heap.nextBlock block < 2 ^ 64 := by
  have bound := heap.memory.load_lt (block + 4136) 8
  rw [Nat.pow_mul 2 8 8]
  exact bound

theorem iterate_nextBlock_lt (heap : Heap) (mmapBlock count : Nat) :
    heap.nextBlock^[count] (firstMallocHeaderInMMAP mmapBlock) < 2 ^ 64 := by
  cases count with
  | zero => exact firstMallocHeaderInMMAP_lt mmapBlock
  | succ count =>
      rw [Function.iterate_succ_apply']
      exact heap.nextBlock_lt _

/-- A walk that ends at null passes addresses only. -/
theorem passed_subset (heap : Heap) {stop : Nat → Prop} (null : stop 0) (mmapBlock : Nat) :
    Passed heap.nextBlock stop (firstMallocHeaderInMMAP mmapBlock) ⊆ Finset.Ioo 0 (2 ^ 64) := by
  rintro node ⟨count, rfl, running⟩
  have present := running count (Nat.le_refl _)
  rw [Finset.coe_Ioo]
  refine ⟨Nat.pos_of_ne_zero fun zero => present (zero ▸ null), ?_⟩
  exact heap.iterate_nextBlock_lt mmapBlock count

theorem passed_finite (heap : Heap) {stop : Nat → Prop} (null : stop 0) (mmapBlock : Nat) :
    (Passed heap.nextBlock stop (firstMallocHeaderInMMAP mmapBlock)).Finite :=
  (Finset.finite_toSet _).subset (heap.passed_subset null mmapBlock)

theorem reached_finite (heap : Heap) (mmapBlock : Nat) : (heap.reached mmapBlock).Finite := by
  have null : heap.ScanEndsAt 0 := Or.inl rfl
  exact heap.passed_finite null mmapBlock

theorem not_endsAt_iff :
    ¬heap.EndsAt block ↔ block ≠ 0 ∧ heap.linksAccessible block = true := by
  rw [EndsAt, not_or, Bool.not_eq_false]

theorem not_scanEndsAt_iff :
    ¬heap.ScanEndsAt block ↔ block ≠ 0 ∧ heap.scanAccessible block = true := by
  rw [ScanEndsAt, not_or, Bool.not_eq_false]

/-- The scan reads no more than the other walks. -/
theorem scanAccessible_of_links (open_ : heap.linksAccessible block = true) :
    heap.scanAccessible block = true := by
  simp only [linksAccessible, MallocField.links, List.all_cons, List.all_nil, Bool.and_eq_true]
    at open_
  rw [scanAccessible, open_.1, open_.2.1, open_.2.2.2.1, Bool.or_true]
  rfl

theorem ScanEndsAt.endsAt (ends : heap.ScanEndsAt block) : heap.EndsAt block := by
  by_contra goes
  obtain ⟨present, open_⟩ := not_endsAt_iff.mp goes
  exact not_scanEndsAt_iff.mpr ⟨present, scanAccessible_of_links open_⟩ ends

/-- The other walks pass no more headers than the scan. -/
theorem passed_subset_reached (heap : Heap) (mmapBlock : Nat) :
    Passed heap.nextBlock heap.EndsAt (firstMallocHeaderInMMAP mmapBlock) ⊆
      heap.reached mmapBlock := by
  rintro node ⟨count, same, running⟩
  exact ⟨count, same, fun earlier order ends => running earlier order ends.endsAt⟩

theorem ncard_passed_le_reached (heap : Heap) (mmapBlock : Nat) :
    (Passed heap.nextBlock heap.EndsAt (firstMallocHeaderInMMAP mmapBlock)).ncard ≤
      (heap.reached mmapBlock).ncard :=
  Set.ncard_le_ncard (heap.passed_subset_reached mmapBlock) (heap.reached_finite mmapBlock)

/-- A walk with more steps than there are headers only goes on in a cycle. -/
theorem cyclic_iff :
    (∀ count < walkFuel, ¬heap.EndsAt (heap.nextBlock^[count] (firstMallocHeaderInMMAP mmapBlock)))
      ↔ heap.Cyclic mmapBlock := by
  have null : heap.EndsAt 0 := Or.inl rfl
  have finite := heap.passed_finite null mmapBlock
  have bound := Set.ncard_le_ncard (heap.passed_subset null mmapBlock) (Finset.finite_toSet _)
  rw [Set.ncard_coe_finset, Nat.card_Ioo] at bound
  constructor
  · intro endless
    by_contra straight
    refine endless _ ?_ ((not_returns_iff finite).mp straight)
    rw [walkFuel, wordRange_eq]
    omega
  · intro cyclic count _
    exact cyclic.not_stop count

end Heap

/-! ## Loops without end -/

theorem readMallocFields_of_accessible {fields : List MallocField}
    (accessible : fields.all (state.heap.fieldAccessible block) = true) :
    readMallocFields fields block env state = .ok (state.heap.mallocHeader block) state :=
  if_pos accessible

theorem readMallocFields_ended {fields : List MallocField} {header : MallocHeader}
    (ended : readMallocFields fields block env state = .ok header last) :
    fields.all (state.heap.fieldAccessible block) = true ∧
      header = state.heap.mallocHeader block ∧ state = last := by
  unfold readMallocFields at ended
  split at ended
  · rename_i accessible
    cases ended
    exact ⟨accessible, rfl, rfl⟩
  · cases ended

/-- Fields that cannot be read stop the program. -/
theorem readMallocFields_bind_ne_diverge {α : Type} {fields : List MallocField}
    {rest : MallocHeader → Vgc α}
    (closed : ¬fields.all (state.heap.fieldAccessible block) = true) :
    (readMallocFields fields block >>= rest) env state ≠ .diverge := by
  rw [bind_apply, readMallocFields, if_neg closed]
  simp

/-- What the scan reads, as the reads of its fields. -/
theorem Heap.scanAccessible_iff : heap.scanAccessible block = true ↔
    [MallocField.status].all (heap.fieldAccessible block) = true ∧
      ((heap.mallocHeader block).status = .free →
        [MallocField.size].all (heap.fieldAccessible block) = true) ∧
      [MallocField.next].all (heap.fieldAccessible block) = true := by
  simp only [scanAccessible, List.all_cons, List.all_nil, Bool.and_true, Bool.and_eq_true,
    Bool.or_eq_true, bne_iff_ne, ne_eq, and_assoc, ← imp_iff_not_or]

/-- The block is free and large enough. -/
def Heap.Fits (heap : Heap) (length block : Nat) : Prop :=
  (heap.mallocHeader block).status = .free ∧ length ≤ (heap.mallocHeader block).size

instance {length : Nat} : Decidable (heap.Fits length block) :=
  inferInstanceAs (Decidable (_ ∧ _))

/-- The test of the scan, where it can read what it needs. -/
theorem isFreeBlock_of_accessible {length : Nat}
    (status : [MallocField.status].all (state.heap.fieldAccessible block) = true)
    (size : (state.heap.mallocHeader block).status = .free →
      [MallocField.size].all (state.heap.fieldAccessible block) = true) :
    isFreeBlock length block env state = .ok (decide (state.heap.Fits length block)) state := by
  rw [isFreeBlock, bind_of_ok (readMallocFields_of_accessible status)]
  split
  · rename_i free
    rw [bind_of_ok (readMallocFields_of_accessible (size free))]
    simp [Heap.Fits, free, GE.ge]
  · rename_i busy
    simp [Heap.Fits, busy]

/-- The test of the scan ends, and where it does not stop the program it has
read what it needs. -/
theorem isFreeBlock_ended {length : Nat} {fits : Bool}
    (ended : isFreeBlock length block env state = .ok fits last) :
    [MallocField.status].all (state.heap.fieldAccessible block) = true ∧
      ((state.heap.mallocHeader block).status = .free →
        [MallocField.size].all (state.heap.fieldAccessible block) = true) := by
  unfold isFreeBlock at ended
  obtain ⟨header, middle, read, ended⟩ := bind_eq_ok_iff.mp ended
  obtain ⟨status, rfl, rfl⟩ := readMallocFields_ended read
  refine ⟨status, fun free => ?_⟩
  rw [if_pos free] at ended
  obtain ⟨header, middle, read, ended⟩ := bind_eq_ok_iff.mp ended
  exact (readMallocFields_ended read).1

theorem isFreeBlock_ne_diverge {length : Nat} :
    isFreeBlock length block env state ≠ .diverge := by
  have read : ∀ {fields : List MallocField} {state : State},
      readMallocFields fields block env state ≠ .diverge := by
    intro fields state diverges
    unfold readMallocFields at diverges
    split at diverges <;> cases diverges
  intro diverges
  rcases bind_eq_diverge_iff.mp diverges with first | ⟨header, middle, _, rest⟩
  · exact read first
  split at rest
  · rcases bind_eq_diverge_iff.mp rest with second | ⟨_, _, _, done⟩
    · exact read second
    · cases done
  · cases rest

/-- The scan goes on exactly as long as it meets headers that can be read and
do not fit. -/
theorem findFreeBlock_eq_diverge_iff {length : Nat} :
    findFreeBlock length fuel block env state = .diverge ↔ ∀ count < fuel,
      ¬state.heap.ScanEndsAt (state.heap.nextBlock^[count] block) ∧
        ¬state.heap.Fits length (state.heap.nextBlock^[count] block) := by
  induction fuel generalizing block with
  | zero => simp [findFreeBlock, diverge]
  | succ fuel ih =>
      rw [Nat.forall_lt_succ_left, findFreeBlock]
      simp only [Function.iterate_zero, id_eq, Function.iterate_succ_apply]
      by_cases null : block = 0
      · simp [null, Heap.ScanEndsAt]
      rw [if_neg null, Heap.ScanEndsAt, or_iff_right null, Bool.not_eq_false]
      by_cases accessible : state.heap.scanAccessible block = true
      · obtain ⟨status, size, next⟩ := Heap.scanAccessible_iff.mp accessible
        rw [bind_of_ok (isFreeBlock_of_accessible status size)]
        by_cases fits : state.heap.Fits length block
        · simp [fits]
        · simp only [fits, decide_false, Bool.false_eq_true, if_false, not_false_eq_true,
            accessible, and_true, true_and]
          rw [bind_of_ok (readMallocFields_of_accessible next)]
          exact ih
      · refine iff_of_false (fun diverges => ?_) fun endless => accessible endless.1.1
        rcases bind_eq_diverge_iff.mp diverges with first | ⟨fits, middle, tested, rest⟩
        · exact isFreeBlock_ne_diverge first
        obtain ⟨status, size⟩ := isFreeBlock_ended tested
        rw [isFreeBlock_of_accessible status size] at tested
        cases tested
        split at rest
        · cases rest
        refine readMallocFields_bind_ne_diverge (fun next => accessible ?_) rest
        exact Heap.scanAccessible_iff.mpr ⟨status, size, next⟩

/-- The loop of `dumpMmapBlock` goes on exactly as long as it meets headers
that can be read. -/
theorem dumpBlocks_eq_diverge_iff {index : Nat} {totals : Totals} :
    dumpBlocks fuel index block totals env state = .diverge ↔
      ∀ count < fuel, ¬state.heap.EndsAt (state.heap.nextBlock^[count] block) := by
  induction fuel generalizing index block totals state with
  | zero => simp [dumpBlocks, diverge]
  | succ fuel ih =>
      rw [Nat.forall_lt_succ_left, dumpBlocks]
      simp only [Function.iterate_zero, id_eq, Function.iterate_succ_apply]
      by_cases stops : state.heap.EndsAt block
      · simp only [stops, not_true, false_and, iff_false]
        rcases stops with null | unreadable
        · rw [if_pos null]
          simp
        · split
          · simp
          · exact readMallocFields_bind_ne_diverge (Bool.not_eq_true _ ▸ unreadable)
      · obtain ⟨present, accessible⟩ := Heap.not_endsAt_iff.mp stops
        rw [if_neg present, bind_of_ok (readMallocFields_of_accessible accessible)]
        refine (ih).trans ?_
        simp only [stops, not_false_eq_true, true_and]
        rfl

/-- A message only adds itself to those recorded. -/
theorem vgcMessage_bind {α : Type} {level : Nat} {function title subtitle status : String}
    {args : List Nat} (rest : Unit → Vgc α) :
    (vgcMessage level function title subtitle status args >>= rest) env state =
      rest () env { state with
        messages := .text level function title subtitle status args :: state.messages } :=
  rfl

theorem pure_ne_diverge {α : Type} (value : α) :
    (pure value : Vgc α) env state ≠ .diverge := by
  intro impossible
  cases impossible

/-- A dump of an MMAP runs forever exactly when its links form a cycle. -/
theorem dumpMmapBlock_eq_diverge_iff {desc : String} (nonnull : mmapBlock ≠ 0) :
    dumpMmapBlock str mmapBlock desc env state = .diverge ↔ state.heap.Cyclic mmapBlock := by
  rw [← Heap.cyclic_iff, dumpMmapBlock, if_neg nonnull,
    vgcMessage_bind, vgcMessage_bind, bind_eq_diverge_iff, dumpBlocks_eq_diverge_iff]
  apply or_iff_left
  rintro ⟨totals, middle, _, rest⟩
  cases rest

/-- The report of a list that fails a test, with its dump. -/
theorem report_eq_diverge_iff {title desc : String} (args : List Nat) (nonnull : mmapBlock ≠ 0) :
    (do
      vgcMessage errorLevel "checkMmapBlock" str title "Error" args
      dumpMmapBlock str mmapBlock desc
      return none : Vgc (Option Totals)) env state = .diverge ↔ state.heap.Cyclic mmapBlock := by
  rw [vgcMessage_bind, bind_eq_diverge_iff, dumpMmapBlock_eq_diverge_iff nonnull]
  apply or_iff_left
  rintro ⟨_, middle, _, rest⟩
  cases rest

/-- On a cycle the loop of `checkMmapBlock` never ends: it goes round, or the
dump that reports it does. -/
theorem checkBlocks_eq_diverge {totals : Totals} (nonnull : mmapBlock ≠ 0)
    (opened : state.heap.mmapAccessible mmapBlock = true) (cyclic : state.heap.Cyclic mmapBlock)
    (endless : ∀ count, ¬state.heap.EndsAt (state.heap.nextBlock^[count] block)) :
    checkBlocks str mmapBlock fuel block totals env state = .diverge := by
  induction fuel generalizing block totals with
  | zero => rfl
  | succ fuel ih =>
      have reported : ∀ {title desc : String} (args : List Nat), (do
          vgcMessage errorLevel "checkMmapBlock" str title "Error" args
          dumpMmapBlock str mmapBlock desc
          return none : Vgc (Option Totals)) env state = .diverge :=
        fun args => (report_eq_diverge_iff args nonnull).mpr cyclic
      have here : block ≠ 0 ∧ state.heap.linksAccessible block = true :=
        Heap.not_endsAt_iff.mp (endless 0)
      have there : (state.heap.mallocHeader block).next ≠ 0 ∧
          state.heap.linksAccessible (state.heap.mallocHeader block).next = true :=
        Heap.not_endsAt_iff.mp (endless 1)
      have opens : readMmapHeader mmapBlock env state =
          .ok (state.heap.mmapHeader mmapBlock) state := if_pos opened
      have shares : getShared env state = .ok state.heap.shared state := rfl
      rw [checkBlocks, if_neg here.1, bind_of_ok (readMallocFields_of_accessible here.2),
        bind_of_ok opens, bind_of_ok shares]
      split
      · apply reported
      split
      · apply reported
      rw [if_neg there.1, bind_of_ok (readMallocFields_of_accessible there.2)]
      split
      · apply reported
      · apply ih
        intro count
        exact endless (count + 1)

/-- Without a cycle the loop of `checkMmapBlock` takes no more steps than there
are headers. -/
theorem checkBlocks_ne_diverge {totals : Totals} {count : Nat} (nonnull : mmapBlock ≠ 0)
    (straight : ¬state.heap.Cyclic mmapBlock) (enough : count < fuel)
    (stops : state.heap.EndsAt (state.heap.nextBlock^[count] block)) :
    checkBlocks str mmapBlock fuel block totals env state ≠ .diverge := by
  induction fuel generalizing block totals count with
  | zero => omega
  | succ fuel ih =>
      have reported : ∀ {title desc : String} (args : List Nat), (do
          vgcMessage errorLevel "checkMmapBlock" str title "Error" args
          dumpMmapBlock str mmapBlock desc
          return none : Vgc (Option Totals)) env state ≠ .diverge :=
        fun args diverges => straight ((report_eq_diverge_iff args nonnull).mp diverges)
      rw [checkBlocks]
      split
      · apply pure_ne_diverge
      rename_i present
      by_cases accessible : state.heap.linksAccessible block = true
      case neg => exact readMallocFields_bind_ne_diverge accessible
      rw [bind_of_ok (readMallocFields_of_accessible accessible)]
      by_cases opened : state.heap.mmapAccessible mmapBlock = true
      case neg =>
        rw [bind_apply, readMmapHeader, if_neg opened]
        simp
      have opens : readMmapHeader mmapBlock env state =
          .ok (state.heap.mmapHeader mmapBlock) state := if_pos opened
      have shares : getShared env state = .ok state.heap.shared state := rfl
      rw [bind_of_ok opens, bind_of_ok shares]
      split
      · apply reported
      split
      · apply reported
      split
      · apply pure_ne_diverge
      by_cases nextOpen : state.heap.linksAccessible (state.heap.mallocHeader block).next = true
      case neg => exact readMallocFields_bind_ne_diverge nextOpen
      rw [bind_of_ok (readMallocFields_of_accessible nextOpen)]
      split
      · apply reported
      · cases count with
        | zero => exact absurd stops (Heap.not_endsAt_iff.mpr ⟨present, accessible⟩)
        | succ count => exact ih (Nat.lt_of_succ_lt_succ enough) stops

/-! ## Lists that pass -/

/-- The headers are linked both ways from the first one on and pass the tests
that `checkMmapBlock` makes of each of them. -/
structure Heap.Passes (heap : Heap) (mmapBlock : Nat) (nodes : List Nat) : Prop where
  links : ∃ before, Segment heap.nextBlock heap.prevBlock before nodes 0
  nonnull : ∀ block ∈ nodes, block ≠ 0
  readable : ∀ block ∈ nodes, heap.linksAccessible block = true
  size : ∀ block ∈ nodes, (heap.mallocHeader block).size ≤ (heap.mmapHeader mmapBlock).maxSize
  inside : ∀ block ∈ nodes,
    mmapBlock ≤ block ∧ block ≤ add64 mmapBlock heap.shared.mmapBlockSize

/-- The sums over a list of headers. -/
def Heap.totals (heap : Heap) (totals : Totals) (nodes : List Nat) : Totals :=
  nodes.foldl (fun sums block => sums.count (heap.mallocHeader block)) totals

/-- A header in front of a list that passes. -/
theorem Heap.Passes.cons {second : Nat} {rest : List Nat}
    (passes : heap.Passes mmapBlock (second :: rest)) (nonnull : block ≠ 0)
    (readable : heap.linksAccessible block = true)
    (size : (heap.mallocHeader block).size ≤ (heap.mmapHeader mmapBlock).maxSize)
    (inside : mmapBlock ≤ block ∧ block ≤ add64 mmapBlock heap.shared.mmapBlockSize)
    (next : heap.nextBlock block = second) (back : heap.prevBlock second = block) :
    heap.Passes mmapBlock (block :: second :: rest) := by
  obtain ⟨before, links⟩ := passes.links
  exact ⟨⟨heap.prevBlock block, rfl, next, back, links.2⟩,
    List.forall_mem_cons.mpr ⟨nonnull, passes.nonnull⟩,
    List.forall_mem_cons.mpr ⟨readable, passes.readable⟩,
    List.forall_mem_cons.mpr ⟨size, passes.size⟩,
    List.forall_mem_cons.mpr ⟨inside, passes.inside⟩⟩

theorem Heap.Passes.tail {rest : List Nat} (passes : heap.Passes mmapBlock (block :: rest)) :
    heap.Passes mmapBlock rest := by
  obtain ⟨_, _, _, links⟩ := passes.links
  exact ⟨⟨block, links⟩, (List.forall_mem_cons.mp passes.nonnull).2,
    (List.forall_mem_cons.mp passes.readable).2, (List.forall_mem_cons.mp passes.size).2,
    (List.forall_mem_cons.mp passes.inside).2⟩

/-- A list of headers has fewer of them than there are addresses. -/
theorem Heap.Passes.length_lt {nodes : List Nat} (passes : heap.Passes mmapBlock nodes)
    (first : firstMallocHeaderInMMAP mmapBlock = nodes.headD 0) : nodes.length < walkFuel := by
  obtain ⟨before, links⟩ := passes.links
  have ends : 0 ∉ nodes := fun member => passes.nonnull 0 member rfl
  have distinct : (0 :: nodes).Nodup := List.nodup_cons.mpr ⟨ends, links.nodup ends⟩
  have below : ∀ block ∈ 0 :: nodes, block ∈ List.range (2 ^ 64) := by
    intro block member
    apply List.mem_range.mpr
    rcases List.mem_cons.mp member with rfl | member
    · decide
    cases nodes with
    | nil => exact absurd member List.not_mem_nil
    | cons head rest =>
        rcases List.mem_cons.mp member with rfl | later
        · rw [List.headD_cons] at first
          rw [← first]
          exact firstMallocHeaderInMMAP_lt mmapBlock
        · obtain ⟨earlier, rfl⟩ := links.exists_next_eq later
          exact heap.nextBlock_lt earlier
  have count := (List.subperm_of_subset distinct below).length_le
  rw [List.length_range, List.length_cons] at count
  rw [walkFuel, wordRange_eq]
  omega

/-- The loop of `checkMmapBlock` only reads a list that passes, and adds it
up. -/
theorem checkBlocks_of_passes {totals : Totals} {nodes : List Nat}
    (passes : state.heap.Passes mmapBlock nodes)
    (opened : state.heap.mmapAccessible mmapBlock = true) (enough : nodes.length < fuel) :
    checkBlocks str mmapBlock fuel (nodes.headD 0) totals env state =
      .ok (some (state.heap.totals totals nodes)) state := by
  induction nodes generalizing fuel totals with
  | nil =>
      cases fuel with
      | zero => simp at enough
      | succ fuel => rfl
  | cons block rest ih =>
      cases fuel with
      | zero => simp at enough
      | succ fuel =>
          have small := passes.size block List.mem_cons_self
          have inside := passes.inside block List.mem_cons_self
          have readable := passes.readable block List.mem_cons_self
          have opens : readMmapHeader mmapBlock env state =
              .ok (state.heap.mmapHeader mmapBlock) state := if_pos opened
          have shares : getShared env state = .ok state.heap.shared state := rfl
          obtain ⟨before, links⟩ := passes.links
          have next : (state.heap.mallocHeader block).next = rest.headD 0 := links.2.1
          rw [List.headD_cons, checkBlocks, if_neg (passes.nonnull block List.mem_cons_self),
            bind_of_ok (readMallocFields_of_accessible readable), bind_of_ok opens,
            bind_of_ok shares, if_neg (by omega), if_neg (by omega), next]
          cases rest with
          | nil => rfl
          | cons second rest =>
              have back : (state.heap.mallocHeader second).prev = block := links.2.2.1
              rw [List.headD_cons, if_neg (passes.nonnull second (by simp)),
                bind_of_ok (readMallocFields_of_accessible (passes.readable second (by simp))),
                if_neg (not_not_intro back.symm)]
              exact ih passes.tail (Nat.lt_of_succ_lt_succ enough)

/-- The sums over a list of headers that does not wrap. -/
theorem Heap.totals_eq {totals : Totals} {nodes : List Nat}
    (payloads : totals.busySize + totals.freeSize +
      (nodes.map fun block => (heap.mallocHeader block).size).sum < 2 ^ 64)
    (headers : totals.headersSize + 8192 * nodes.length < 2 ^ 64) :
    (heap.totals totals nodes).busySize + (heap.totals totals nodes).freeSize =
        totals.busySize + totals.freeSize +
          (nodes.map fun block => (heap.mallocHeader block).size).sum ∧
      (heap.totals totals nodes).headersSize = totals.headersSize + 8192 * nodes.length := by
  induction nodes generalizing totals with
  | nil => exact ⟨rfl, rfl⟩
  | cons block rest ih =>
      simp only [List.map_cons, List.sum_cons, List.length_cons, Nat.mul_succ,
        ← Nat.add_assoc] at payloads headers ⊢
      have room : totals.headersSize + mallocHeaderSize < 2 ^ 64 := by
        rw [mallocHeaderSize_eq]
        omega
      have counted : (totals.count (heap.mallocHeader block)).headersSize =
          totals.headersSize + 8192 := by
        unfold Totals.count
        cases (heap.mallocHeader block).status with
        | free => exact add64_of_lt room
        | busy => exact add64_of_lt room
      have summed : (totals.count (heap.mallocHeader block)).busySize +
          (totals.count (heap.mallocHeader block)).freeSize =
            totals.busySize + totals.freeSize + (heap.mallocHeader block).size := by
        unfold Totals.count
        cases (heap.mallocHeader block).status with
        | free =>
            simp only
            rw [add64_of_lt (by omega)]
            omega
        | busy =>
            simp only
            rw [add64_of_lt (by omega)]
            omega
      have tail := @ih (totals.count (heap.mallocHeader block)) (by omega) (by omega)
      rw [Heap.totals, List.foldl_cons, ← Heap.totals]
      omega

/-- The sums over a whole list. -/
theorem Heap.totals_zero {nodes : List Nat}
    (payloads : (nodes.map fun block => (heap.mallocHeader block).size).sum < 2 ^ 64)
    (headers : 8192 * nodes.length < 2 ^ 64) :
    (heap.totals .zero nodes).busySize + (heap.totals .zero nodes).freeSize =
        (nodes.map fun block => (heap.mallocHeader block).size).sum ∧
      (heap.totals .zero nodes).headersSize = 8192 * nodes.length := by
  have start : Totals.zero.busySize + Totals.zero.freeSize = 0 ∧ Totals.zero.headersSize = 0 :=
    ⟨rfl, rfl⟩
  have sums := @Heap.totals_eq heap .zero nodes (by omega) (by omega)
  rw [start.1, start.2, Nat.zero_add, Nat.zero_add] at sums
  exact sums

/-- The maximum that `checkMmapBlock` computes is the sum that it found. -/
def Totals.Agree (totals : Totals) (shared : Shared) : Prop :=
  sub64 (sub64 shared.mmapBlockSize mmapHeaderSize) totals.headersSize =
    add64 totals.busySize totals.freeSize

/-- A list that passes is accepted without a word when its sums agree, and with
a report otherwise. -/
theorem checkMmapBlock_of_passes {nodes : List Nat} (passes : state.heap.Passes mmapBlock nodes)
    (opened : state.heap.mmapAccessible mmapBlock = true)
    (first : firstMallocHeaderInMMAP mmapBlock = nodes.headD 0) :
    ((state.heap.totals .zero nodes).Agree state.heap.shared →
        checkMmapBlock str mmapBlock env state = .ok true state) ∧
      (¬(state.heap.totals .zero nodes).Agree state.heap.shared →
        checkMmapBlock str mmapBlock env state = (do
          vgcMessage errorLevel "checkMmapBlock" str "Found inconsistent MMAP" "Error" [mmapBlock]
          dumpMmapBlock str mmapBlock "MMAP block inconsistent"
          return true) env state) := by
  have checked : checkBlocks str mmapBlock walkFuel (firstMallocHeaderInMMAP mmapBlock) .zero env
      state = .ok (some (state.heap.totals .zero nodes)) state := by
    rw [first]
    exact checkBlocks_of_passes passes opened (passes.length_lt first)
  have shares : getShared env state = .ok state.heap.shared state := rfl
  rw [checkMmapBlock, bind_of_ok checked]
  simp only
  rw [bind_of_ok shares, when]
  constructor
  · intro agree
    split
    · rename_i differ
      exact absurd agree differ
    · rfl
  · intro differ
    split
    · rw [bind_assoc]
    · rename_i agree
      exact absurd (not_ne_iff.mp agree) differ

end VgcMalloc
