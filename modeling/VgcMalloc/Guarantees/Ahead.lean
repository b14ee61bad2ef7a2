import VgcMalloc.Guarantees.Simulation

/-!
# The machine ahead of its calls

The first region is created before the request that asks for it is served.  In
between, the code shows the machine ahead of the calls that have ended.
-/

namespace VgcMalloc

open Program Tiling

namespace Allocator

variable {shown : Allocator} {setting : Setting} {need size ptr : Nat} {region : Region}

/-- The machine once the first region has been created, or has turned out to be
refused. -/
def ahead (setting : Setting) (shown : Allocator) : Allocator :=
  if shown.failed = true ∨ shown.heap.listed ≠ [] then shown
  else { (shown.extend setting).2 with failed := !(shown.extend setting).1 }

/-- There is a first region, or there never will be. -/
def Begun (shown : Allocator) : Prop :=
  shown.failed = true ∨ shown.heap.listed ≠ []

theorem ahead_of_begun (begun : shown.Begun) : shown.ahead setting = shown :=
  if_pos begun

theorem ahead_of_empty (alive : shown.failed = false) (empty : shown.heap.listed = []) :
    shown.ahead setting =
      { (shown.extend setting).2 with failed := !(shown.extend setting).1 } := by
  rw [ahead, if_neg]
  simp [alive, empty]

theorem begun_ahead : (shown.ahead setting).Begun := by
  by_cases begun : shown.Begun
  · rw [ahead_of_begun begun]
    exact begun
  · simp only [Begun, not_or, Bool.not_eq_true, not_not] at begun
    have listed := shown.extend_listed setting
    rw [ahead_of_empty begun.1 begun.2]
    cases made : (shown.extend setting).1 with
    | true => exact Or.inr (listed made)
    | false => exact Or.inl rfl

/-- A request is served by the machine ahead. -/
theorem malloc_eq_ahead : shown.malloc setting size =
    if (shown.ahead setting).failed = true then (0, shown.ahead setting)
    else (shown.ahead setting).serve setting size := by
  unfold malloc
  by_cases failed : shown.failed = true
  · rw [ahead_of_begun (Or.inl failed), if_pos failed, if_pos failed]
  · have alive : shown.failed = false := (Bool.not_eq_true _).mp failed
    rw [if_neg failed]
    by_cases empty : shown.heap.listed = []
    · have kept := shown.extend_failed setting
      rw [if_pos empty, ahead_of_empty alive empty]
      rw [alive] at kept
      generalize shown.extend setting = answer at kept
      obtain ⟨made, next⟩ := answer
      cases made with
      | false => rfl
      | true =>
          obtain ⟨heap, asked, failed⟩ := next
          simp only at kept
          subst kept
          rfl
    · rw [if_neg empty, ahead_of_begun (Or.inr empty), if_neg failed]

/-- A request that the machine ahead refuses. -/
theorem malloc_refused (reason : (shown.ahead setting).failed = true ∨
      size = 0 ∨ (shown.ahead setting).limit ≤ setting.need size) :
    shown.malloc setting size = (0, shown.ahead setting) := by
  rw [malloc_eq_ahead]
  rcases reason with failed | refused
  · rw [if_pos failed]
  · split
    · rfl
    · rw [serve, if_pos refused]

/-- A request that the machine ahead searches for. -/
theorem malloc_searched (alive : (shown.ahead setting).failed = false)
    (passed : ¬(size = 0 ∨ (shown.ahead setting).limit ≤ setting.need size)) :
    shown.malloc setting size = (shown.ahead setting).search setting (setting.need size) := by
  rw [malloc_eq_ahead, alive, if_neg Bool.false_ne_true, serve, if_neg passed]

/-- Nothing is released when no region is listed. -/
theorem free_of_empty (empty : shown.heap.listed = []) : shown.free setting ptr = shown := by
  have missed : shown.target setting ptr = none := by
    unfold target
    rw [empty]
    split
    · rfl
    · rfl
  rw [free, missed]

/-- Nothing has been granted from a region that has just been created. -/
theorem free_create {heap : AbstractHeap} (empty : heap.listed = []) (asked : Nat)
    (failed : Bool) : free setting ptr ⟨heap.create region, asked, failed⟩ =
      ⟨heap.create region, asked, failed⟩ := by
  have missed : target setting ptr ⟨heap.create region, asked, failed⟩ = none := by
    unfold target
    split
    · rw [AbstractHeap.create, empty]
      simp [AbstractHeap.freshEntries]
    · rfl
  rw [free, missed]

/-- The machine ahead releases nothing either. -/
theorem free_ahead (empty : shown.heap.listed = []) :
    (shown.ahead setting).free setting ptr = shown.ahead setting := by
  cases alive : shown.failed with
  | true =>
      rw [ahead_of_begun (Or.inl alive)]
      exact free_of_empty empty
  | false =>
      rw [ahead_of_empty alive empty]
      unfold extend
      split
      · exact free_create empty _ _
      · split
        · exact free_create empty _ _
        · exact free_of_empty empty

/-! ## The first region -/

/-- The first region stays where it is. -/
structure KeepsFirst (shown next : Allocator) : Prop where
  regions : ∀ region ∈ shown.heap.regions, region.base = shown.heap.listed.headD 0 →
    region ∈ next.heap.regions
  head : next.heap.listed.headD 0 = shown.heap.listed.headD 0
  nonempty : next.heap.listed ≠ []
  failed : next.failed = shown.failed

theorem KeepsFirst.trans {next last : Allocator} (first : KeepsFirst shown next)
    (second : KeepsFirst next last) : KeepsFirst shown last where
  regions region member base := second.regions region (first.regions region member base)
    (base.trans first.head.symm)
  head := second.head.trans first.head
  nonempty := second.nonempty
  failed := second.failed.trans first.failed

theorem KeepsFirst.refl (nonempty : shown.heap.listed ≠ []) : KeepsFirst shown shown :=
  ⟨fun _ member _ => member, rfl, nonempty, rfl⟩

theorem keepsFirst_create (nonempty : shown.heap.listed ≠ []) (region : Region) (asked : Nat) :
    KeepsFirst shown { shown with heap := shown.heap.create region, asked := asked } where
  regions _ member _ := List.mem_cons_of_mem _ member
  head := AbstractHeap.create_headD nonempty
  nonempty := by simp [AbstractHeap.create]
  failed := rfl

theorem keepsFirst_extend (nonempty : shown.heap.listed ≠ []) :
    KeepsFirst shown (shown.extend setting).2 := by
  unfold extend
  split
  · exact keepsFirst_create nonempty _ _
  · split
    · exact keepsFirst_create nonempty _ _
    · exact ⟨fun _ member _ => member, rfl, nonempty, rfl⟩

theorem keepsFirst_grant {memory : Nat} {next : Allocator} (nonempty : shown.heap.listed ≠ [])
    (granted : shown.grant setting need = some (memory, next)) : KeepsFirst shown next := by
  obtain ⟨⟨base, entry, heap⟩, found, same⟩ := Option.map_eq_some_iff.mp granted
  obtain ⟨_, rfl⟩ := Prod.mk.inj same
  obtain ⟨_, _, _, _, _, _, _, _, _, rfl⟩ := AbstractHeap.malloc_eq_some_iff.mp found
  exact ⟨fun _ member _ => member, rfl, nonempty, rfl⟩

/-- A search leaves the first region. -/
theorem keepsFirst_search (nonempty : shown.heap.listed ≠ []) :
    KeepsFirst shown (shown.search setting need).2 := by
  unfold search
  cases granted : shown.grant setting need with
  | some served => exact keepsFirst_grant nonempty granted
  | none =>
      have extended : KeepsFirst shown (shown.extend setting).2 := keepsFirst_extend nonempty
      generalize shown.extend setting = answer at extended
      obtain ⟨made, grown⟩ := answer
      cases made with
      | false => exact extended
      | true =>
          simp only
          cases again : grown.grant setting need with
          | some served => exact extended.trans (keepsFirst_grant extended.nonempty again)
          | none => exact extended

/-- So does a release, unless the last block in use of the first region goes. -/
theorem keepsFirst_free (nonempty : shown.heap.listed ≠ [])
    (stays : ∀ entry, shown.target setting ptr = some (shown.heap.listed.headD 0, entry) →
      busyCount (shown.heap.entries (shown.heap.listed.headD 0)) ≠ 1) :
    KeepsFirst shown (shown.free setting ptr) := by
  unfold free
  cases found : shown.target setting ptr with
  | none => exact .refl nonempty
  | some block =>
      obtain ⟨base, entry⟩ := block
      obtain ⟨first, rest, shape⟩ := List.exists_cons_of_ne_nil nonempty
      simp only [drop]
      split
      · rename_i only
        have other : base ≠ first := by
          rintro rfl
          apply stays entry
          · rw [found, shape]
            rfl
          · rw [shape]
            exact only
        have listed : ((shown.heap.free base entry.addr).unlink base).listed =
            first :: rest.erase base := by
          have head : (first :: rest).head? ≠ some base := by
            simpa using other.symm
          have start : ¬(first == base) = true := by
            simpa using other.symm
          rw [AbstractHeap.unlink, AbstractHeap.free, AbstractHeap.setEntries]
          simp only
          rw [shape, if_neg head, List.erase_cons_tail start]
        refine ⟨?_, ?_, ?_, rfl⟩
        · intro region member base'
          apply List.mem_filter.mpr
          refine ⟨member, ?_⟩
          rw [shape] at base'
          simp only [List.headD_cons] at base'
          simpa [base'] using other.symm
        · rw [AbstractHeap.unmap, listed, shape]
          rfl
        · rw [AbstractHeap.unmap, listed]
          exact List.cons_ne_nil _ _
      · exact ⟨fun _ member _ => member, rfl, nonempty, rfl⟩

/-- The list is empty once the last block in use of the first region goes. -/
theorem listed_free_of_only {entry : Entry}
    (found : shown.target setting ptr = some (shown.heap.listed.headD 0, entry))
    (only : busyCount (shown.heap.entries (shown.heap.listed.headD 0)) = 1) :
    (shown.free setting ptr).heap.listed = [] := by
  obtain ⟨_, listed, _⟩ := target_eq_some found
  obtain ⟨first, rest, shape⟩ := List.exists_cons_of_ne_nil (List.ne_nil_of_mem listed)
  rw [free, found]
  simp only [drop]
  rw [if_pos only, AbstractHeap.unmap, AbstractHeap.unlink, AbstractHeap.free,
    AbstractHeap.setEntries]
  simp only
  rw [shape]
  exact if_pos rfl

end Allocator

end VgcMalloc
