import Mathlib.Data.Set.Card
import Mathlib.Logic.Function.Iterate

/-!
# Walks along forward links

A walk goes from node to node along `next` until it meets a stop.  When it can
pass only finitely many nodes, it stops exactly if it never comes back to one
of them, and then it has passed each of them once.
-/

namespace VgcMalloc.Linked

universe u

variable {α : Type u}

/-- The nodes that the walk passes before it meets a stop. -/
def Passed (next : α → α) (stop : α → Prop) (start : α) : Set α :=
  {node | ∃ count, next^[count] start = node ∧ ∀ earlier ≤ count, ¬stop (next^[earlier] start)}

/-- The walk comes back to a node before it meets a stop. -/
def Returns (next : α → α) (stop : α → Prop) (start : α) : Prop :=
  ∃ early late, early < late ∧ next^[early] start = next^[late] start ∧
    ∀ earlier ≤ late, ¬stop (next^[earlier] start)

variable {next : α → α} {stop : α → Prop} {start : α}

/-- Between two visits of one node a walk only repeats itself. -/
theorem iterate_sub_of_eq {early late count : Nat} (order : early ≤ late)
    (same : next^[early] start = next^[late] start) (behind : late ≤ count) :
    next^[count - (late - early)] start = next^[count] start := by
  have first : count - (late - early) = count - late + early := by omega
  have second : count = count - late + late := by omega
  calc next^[count - (late - early)] start
      = next^[count - late] (next^[early] start) := by rw [first, Function.iterate_add_apply]
    _ = next^[count - late] (next^[late] start) := by rw [same]
    _ = next^[count] start := by rw [← Function.iterate_add_apply, ← second]

/-- A walk that comes back never stops. -/
theorem Returns.not_stop (returns : Returns next stop start) (count : Nat) :
    ¬stop (next^[count] start) := by
  obtain ⟨early, late, order, same, passed⟩ := returns
  induction count using Nat.strongRecOn with
  | ind count ih =>
      by_cases near : count ≤ late
      · exact passed count near
      · rw [← iterate_sub_of_eq (Nat.le_of_lt order) same (by omega)]
        exact ih _ (by omega)

/-- A walk over finitely many nodes that never stops comes back. -/
theorem Returns.of_not_stop (finite : (Passed next stop start).Finite)
    (endless : ∀ count, ¬stop (next^[count] start)) : Returns next stop start := by
  have inside : ∀ count, next^[count] start ∈ Passed next stop start :=
    fun count => ⟨count, rfl, fun earlier _ => endless earlier⟩
  obtain ⟨early, late, order, same⟩ := finite.exists_lt_map_eq_of_forall_mem inside
  exact ⟨early, late, order, same, fun earlier _ => endless earlier⟩

/-- The first steps of a walk reach as many nodes when no two of them are the
same. -/
theorem ncard_image_iterate {count : Nat} (apart : ∀ early late, early < late → late < count →
      next^[early] start ≠ next^[late] start) :
    ((fun steps => next^[steps] start) '' Set.Iio count).ncard = count := by
  have injective : Set.InjOn (fun steps => next^[steps] start) (Set.Iio count) := by
    intro first firstMem second secondMem same
    rcases Nat.lt_trichotomy first second with less | equal | greater
    · exact absurd same (apart first second less secondMem)
    · exact equal
    · exact absurd same.symm (apart second first greater firstMem)
  rw [injective.ncard_image, ← Finset.coe_range, Set.ncard_coe_finset, Finset.card_range]

/-- A walk that stops has taken one step for each node that it has passed. -/
theorem ncard_passed {count : Nat} (stops : stop (next^[count] start))
    (before : ∀ earlier < count, ¬stop (next^[earlier] start)) :
    (Passed next stop start).ncard = count := by
  have image : Passed next stop start = (fun steps => next^[steps] start) '' Set.Iio count := by
    ext node
    constructor
    · rintro ⟨steps, rfl, running⟩
      refine ⟨steps, ?_, rfl⟩
      by_contra late
      exact running count (Nat.le_of_not_lt late) stops
    · rintro ⟨steps, early, rfl⟩
      exact ⟨steps, rfl, fun earlier order => before earlier (Nat.lt_of_le_of_lt order early)⟩
  rw [image]
  apply ncard_image_iterate
  intro early late order inside same
  have returns : Returns next stop start :=
    ⟨early, late, order, same, fun earlier le => before earlier (Nat.lt_of_le_of_lt le inside)⟩
  exact returns.not_stop count stops

/-- A walk over finitely many nodes reaches each of them in fewer steps than
there are nodes. -/
theorem exists_lt_ncard {node : α} (finite : (Passed next stop start).Finite)
    (member : node ∈ Passed next stop start) :
    ∃ count < (Passed next stop start).ncard, next^[count] start = node := by
  obtain ⟨visit, reaches, running⟩ := member
  classical
  have visited : ∃ count, next^[count] start = node := ⟨visit, reaches⟩
  have found := Nat.find_spec visited
  have early := Nat.find_min' visited reaches
  refine ⟨Nat.find visited, ?_, found⟩
  have inside : (fun steps => next^[steps] start) '' Set.Iio (Nat.find visited + 1) ⊆
      Passed next stop start := by
    rintro _ ⟨steps, before, rfl⟩
    have near : steps ≤ visit := (Nat.le_of_lt_succ before).trans early
    exact ⟨steps, rfl, fun earlier order => running earlier (order.trans near)⟩
  have count := Set.ncard_le_ncard inside finite
  rwa [ncard_image_iterate] at count
  -- a walk that met a node twice on the way would have met this one earlier
  intro first second order before same
  have repeated := iterate_sub_of_eq (Nat.le_of_lt order) same (Nat.le_of_lt_succ before)
  exact Nat.find_min visited (by omega) (repeated.trans found)

/-- A walk over finitely many nodes does not come back exactly when it stops,
after as many steps as there are nodes. -/
theorem not_returns_iff (finite : (Passed next stop start).Finite) :
    ¬Returns next stop start ↔ stop (next^[(Passed next stop start).ncard] start) := by
  constructor
  · intro straight
    have stops : ∃ count, stop (next^[count] start) := by
      by_contra endless
      exact straight (.of_not_stop finite (not_exists.mp endless))
    classical
    have least := Nat.find_spec stops
    rw [ncard_passed least fun earlier order => Nat.find_min stops order]
    exact least
  · intro stops returns
    exact returns.not_stop _ stops

/-- A walk that comes back where every node is linked back runs through its
first node. -/
theorem Returns.ring {prev : α → α} (returns : Returns next stop start)
    (back : ∀ node ∈ Passed next stop start, prev (next node) = node) :
    ∃ count, 0 < count ∧ next^[count] start = start := by
  have endless := returns.not_stop
  obtain ⟨early, late, order, same, _⟩ := returns
  refine ⟨late - early, by omega, ?_⟩
  clear * - endless back order same
  induction early generalizing late with
  | zero => exact same.symm
  | succ early ih =>
      obtain ⟨late, rfl⟩ : ∃ earlier, late = earlier + 1 := ⟨late - 1, by omega⟩
      rw [Function.iterate_succ_apply', Function.iterate_succ_apply'] at same
      have first := back _ ⟨early, rfl, fun earlier _ => endless earlier⟩
      have second := back _ ⟨late, rfl, fun earlier _ => endless earlier⟩
      rw [Nat.add_sub_add_right]
      apply ih late (by omega)
      rw [← first, same, second]

end VgcMalloc.Linked
