import VgcMalloc.Model.Children

/-!
# Entries and threads

No process has two entries of the table, whatever fails.  An entry stands for a
server thread as long as `PTHREAD_create` makes one for every slot that has
been claimed: when it does not, the slot keeps the process id.
-/

namespace VgcMalloc

variable {table : ServerTable} {children taken : List DebugChild} {child : DebugChild}
  {pid : UInt32} {pos slot : Nat} {history : List SlotEvent} {call : TableCall}

/-! ## What the table has to satisfy -/

/-- No process has two entries. -/
def Distinct (children : List DebugChild) : Prop :=
  ∀ (first second : Nat) (child other : DebugChild), children[first]? = some child →
    children[second]? = some other → child.pid ≠ 0 → child.pid = other.pid → first = second

/-- A thread was started for the slot, and has not been removed since. -/
def Runs (history : List SlotEvent) (slot : Nat) : Prop :=
  history.find? (fun event => event.slot == slot) = some (.started slot)

/-- The entries in use are those that have a server thread. -/
def Agrees (children : List DebugChild) (history : List SlotEvent) : Prop :=
  ∀ (slot : Nat) (child : DebugChild), children[slot]? = some child →
    (child.pid ≠ 0 ↔ Runs history slot)

/-- The entries of the table and the threads agree. -/
structure ServerTable.Consistent (table : ServerTable) : Prop where
  distinct : Distinct table.children
  agrees : Agrees table.children table.history

theorem runs_started_iff :
    Runs (.started pos :: history) slot ↔ slot = pos ∨ Runs history slot := by
  unfold Runs
  rw [List.find?_cons]
  by_cases same : pos = slot
  · simp [SlotEvent.slot, same]
  · have ne : (pos == slot) = false := beq_false_of_ne same
    simp [SlotEvent.slot, ne, Ne.symm same]

theorem runs_removed_iff :
    Runs (.removed pos :: history) slot ↔ slot ≠ pos ∧ Runs history slot := by
  unfold Runs
  rw [List.find?_cons]
  by_cases same : pos = slot
  · simp [SlotEvent.slot, same]
  · have ne : (pos == slot) = false := beq_false_of_ne same
    simp [SlotEvent.slot, ne, Ne.symm same]

/-! ## Changes of one entry -/

/-- A change of one entry, seen from any slot. -/
theorem getElem?_modify_eq_some_iff {change : DebugChild → DebugChild} :
    (children.modify pos change)[slot]? = some child ↔
      ∃ old, children[slot]? = some old ∧ child = if slot = pos then change old else old := by
  rw [List.getElem?_modify, Option.map_eq_map, Option.map_eq_some_iff]
  apply exists_congr
  intro old
  by_cases same : slot = pos
  · simp [same, eq_comm]
  · simp [same, Ne.symm same, eq_comm]

/-- Changes that give no process an entry. -/
theorem Distinct.modify {change : DebugChild → DebugChild} (distinct : Distinct children)
    (kept : ∀ child, (change child).pid ≠ 0 → (change child).pid = child.pid) :
    Distinct (children.modify pos change) := by
  have old : ∀ (index : Nat) (child : DebugChild),
      (children.modify pos change)[index]? = some child → child.pid ≠ 0 →
        ∃ before, children[index]? = some before ∧ before.pid = child.pid := by
    intro index child found used
    obtain ⟨before, there, rfl⟩ := getElem?_modify_eq_some_iff.mp found
    refine ⟨before, there, ?_⟩
    by_cases here : index = pos
    · rw [if_pos here] at used ⊢
      exact (kept before used).symm
    · rw [if_neg here]
  intro first second child other foundFirst foundSecond used same
  obtain ⟨before, there, pidEq⟩ := old first child foundFirst used
  obtain ⟨otherBefore, otherThere, otherEq⟩ := old second other foundSecond (same ▸ used)
  apply distinct first second before otherBefore there otherThere
  · rw [pidEq]
    exact used
  · rw [pidEq, otherEq, same]

/-- A process that has no entry takes one. -/
theorem Distinct.claim (distinct : Distinct children)
    (absent : ∀ (slot : Nat) (child : DebugChild), children[slot]? = some child →
      child.pid ≠ pid) :
    Distinct (children.modify pos fun child => { child with pid }) := by
  intro first second child other foundFirst foundSecond used same
  obtain ⟨before, there, rfl⟩ := getElem?_modify_eq_some_iff.mp foundFirst
  obtain ⟨otherBefore, otherThere, rfl⟩ := getElem?_modify_eq_some_iff.mp foundSecond
  by_cases here : first = pos
  · by_cases otherHere : second = pos
    · rw [here, otherHere]
    · rw [if_pos here, if_neg otherHere] at same
      exact absurd same.symm (absent second otherBefore otherThere)
  · by_cases otherHere : second = pos
    · rw [if_neg here, if_pos otherHere] at same
      exact absurd same (absent first before there)
    · rw [if_neg here] at used same
      rw [if_neg otherHere] at same
      exact distinct first second before otherBefore there otherThere used same

/-- A change of one entry whose thread agrees with it. -/
theorem Agrees.modify {change : DebugChild → DebugChild} {after : List SlotEvent}
    (agrees : Agrees children history)
    (here : ∀ child, children[pos]? = some child → ((change child).pid ≠ 0 ↔ Runs after pos))
    (others : ∀ slot ≠ pos, (Runs after slot ↔ Runs history slot)) :
    Agrees (children.modify pos change) after := by
  intro slot child found
  obtain ⟨old, there, rfl⟩ := getElem?_modify_eq_some_iff.mp found
  by_cases same : slot = pos
  · subst same
    rw [if_pos rfl]
    exact here old there
  · rw [if_neg same, others slot same]
    exact agrees slot old there

/-! ## Single calls -/

/-- A free slot is claimed by a process that has none. -/
theorem claimChild_eq_some (claimed : claimChild pid children = some (pos, taken)) :
    (∀ (slot : Nat) (child : DebugChild), children[slot]? = some child → child.pid ≠ pid) ∧
      (∃ child, children[pos]? = some child ∧ child.pid = 0) ∧
      taken = children.modify pos fun child => { child with pid } := by
  unfold claimChild at claimed
  split at claimed
  · cases claimed
  · rename_i new
    obtain ⟨index, free, same⟩ := Option.map_eq_some_iff.mp claimed
    obtain ⟨rfl, rfl⟩ := Prod.mk.inj same
    refine ⟨?_, ?_, rfl⟩
    · intro slot child found again
      exact new (List.any_eq_true.mpr ⟨child, List.mem_of_getElem? found, beq_iff_eq.mpr again⟩)
    · obtain ⟨bound, isFree, _⟩ := List.findIdx?_eq_some_iff_getElem.mp free
      exact ⟨children[index], List.getElem?_eq_getElem bound, beq_iff_eq.mp isFree⟩

/-- The process that has just claimed a slot claims no second one. -/
theorem claimChild_eq_none (there : children[pos]? = some child) (own : child.pid = pid) :
    claimChild pid children = none := by
  have again : isChild pid children = true :=
    List.any_eq_true.mpr ⟨child, List.mem_of_getElem? there, beq_iff_eq.mpr own⟩
  rw [claimChild, again]
  rfl

namespace ServerTable

/-- What `startChildDebugCorruption` does; the entry for the father is never
made, since the process already has one. -/
theorem start_cases (table : ServerTable) (pid : UInt32) (created createdFather : Option UInt64) :
    (claimChild pid table.children = none ∧
        table.startChildDebugCorruption pid created createdFather = table) ∨
      ∃ pos taken, claimChild pid table.children = some (pos, taken) ∧
        ((created = none ∧
            table.startChildDebugCorruption pid created createdFather =
              { table with children := taken }) ∨
          ∃ thread, created = some thread ∧
            (table.startChildDebugCorruption pid created createdFather).children =
              taken.modify pos (fun child => { child with thread }) ∧
            (table.startChildDebugCorruption pid created createdFather).history =
              .started pos :: table.history) := by
  cases claimed : claimChild pid table.children with
  | none =>
      refine Or.inl ⟨rfl, ?_⟩
      rw [startChildDebugCorruption, claimed]
  | some found =>
      obtain ⟨pos, taken⟩ := found
      refine Or.inr ⟨pos, taken, rfl, ?_⟩
      rw [startChildDebugCorruption, claimed]
      cases created with
      | none => exact Or.inl ⟨rfl, rfl⟩
      | some thread =>
          refine Or.inr ⟨thread, rfl, ?_⟩
          obtain ⟨_, ⟨child, there, _⟩, rfl⟩ := claimChild_eq_some claimed
          have again : claimChild pid ((table.children.modify pos fun child =>
              { child with pid }).modify pos fun child => { child with thread }) = none := by
            apply claimChild_eq_none
            · exact getElem?_modify_eq_some_iff.mpr
                ⟨_, getElem?_modify_eq_some_iff.mpr ⟨child, there, rfl⟩, rfl⟩
            · simp
          simp only [startChildThread, Bool.not_true, Bool.false_eq_true, if_false, again]
          constructor
          · split <;> rfl
          · split <;> rfl

/-- No call gives a process a second entry. -/
theorem distinct_call (distinct : Distinct table.children) :
    Distinct (table.call call).children := by
  have removed : ∀ pos, Distinct (table.remove pos).children :=
    fun pos => distinct.modify fun _ used => absurd rfl used
  cases call with
  | start pid created createdFather =>
      change Distinct (table.startChildDebugCorruption pid created createdFather).children
      rcases table.start_cases pid created createdFather with
        ⟨_, same⟩ | ⟨pos, taken, claims, ⟨_, same⟩ | ⟨thread, _, childrenEq, _⟩⟩
      · rw [same]
        exact distinct
      · obtain ⟨absent, _, rfl⟩ := claimChild_eq_some claims
        rw [same]
        exact distinct.claim absent
      · obtain ⟨absent, _, rfl⟩ := claimChild_eq_some claims
        rw [childrenEq]
        exact (distinct.claim absent).modify fun _ _ => rfl
  | stop pid =>
      change Distinct (table.stopChildDebugCorruption pid).children
      unfold stopChildDebugCorruption
      split
      · exact distinct
      · exact removed _
  | distribute pid network header prot =>
      change Distinct (table.distribute network ⟨header, prot, pid⟩).children
      unfold distribute
      split
      · exact distinct
      · exact removed _

/-- Removing an entry keeps the table consistent. -/
theorem Consistent.remove (consistent : table.Consistent) (pos : Nat) :
    (table.remove pos).Consistent where
  distinct := consistent.distinct.modify fun _ used => absurd rfl used
  agrees := by
    apply consistent.agrees.modify
    · intro child _
      rw [ServerTable.remove, runs_removed_iff]
      simp [removeChildThread]
    · intro slot ne
      rw [ServerTable.remove, runs_removed_iff]
      simp [ne]

end ServerTable

/-- The call makes a thread for the slot that it claims, if it claims one. -/
def TableCall.Creates (table : ServerTable) : TableCall → Prop
  | .start pid created _ => claimChild pid table.children ≠ none → created ≠ none
  | .stop _ => True
  | .distribute .. => True

namespace ServerTable

/-- A call keeps the table consistent exactly when it makes the thread for the
slot that it claims. -/
theorem Consistent.call_iff (consistent : table.Consistent) :
    (table.call call).Consistent ↔ call.Creates table := by
  cases call with
  | start pid created createdFather =>
      obtain ⟨pid, nonzero⟩ := pid
      change (table.startChildDebugCorruption pid created createdFather).Consistent ↔
        (claimChild pid table.children ≠ none → created ≠ none)
      rcases table.start_cases pid created createdFather with
        ⟨none, same⟩ | ⟨pos, taken, claims, ⟨rfl, same⟩ | ⟨thread, rfl, childrenEq, historyEq⟩⟩
      · rw [same, none]
        exact ⟨fun _ impossible => absurd rfl impossible, fun _ => consistent⟩
      · obtain ⟨absent, ⟨child, there, free⟩, rfl⟩ := claimChild_eq_some claims
        rw [same, claims]
        constructor
        · intro wrong
          have used := wrong.agrees pos { child with pid }
            (getElem?_modify_eq_some_iff.mpr ⟨child, there, by rw [if_pos rfl]⟩)
          have runs : Runs table.history pos := used.mp nonzero
          exact absurd free ((consistent.agrees pos child there).mpr runs)
        · intro creates
          exact absurd rfl (creates (Option.some_ne_none _))
      · obtain ⟨absent, _, rfl⟩ := claimChild_eq_some claims
        refine ⟨fun _ _ => Option.some_ne_none _, fun _ => ?_⟩
        constructor
        · have still : Distinct
              (table.call (.start ⟨pid, nonzero⟩ (some thread) createdFather)).children :=
            distinct_call consistent.distinct
          exact still
        · rw [childrenEq, historyEq]
          intro slot child found
          obtain ⟨middle, claimed, rfl⟩ := getElem?_modify_eq_some_iff.mp found
          obtain ⟨old, there, rfl⟩ := getElem?_modify_eq_some_iff.mp claimed
          rw [runs_started_iff]
          by_cases here : slot = pos
          · simp [here, nonzero]
          · simpa [here] using consistent.agrees slot old there
  | stop pid =>
      refine ⟨fun _ => trivial, fun _ => ?_⟩
      change (table.stopChildDebugCorruption pid).Consistent
      unfold stopChildDebugCorruption
      split
      · exact consistent
      · exact consistent.remove _
  | distribute pid network header prot =>
      refine ⟨fun _ => trivial, fun _ => ?_⟩
      change (table.distribute network ⟨header, prot, pid⟩).Consistent
      unfold distribute
      split
      · exact consistent
      · exact consistent.remove _

theorem consistent_empty (maxProcesses : Nat) : (empty maxProcesses).Consistent := by
  have free : ∀ (slot : Nat) (child : DebugChild),
      (empty maxProcesses).children[slot]? = some child → child.pid = 0 := by
    intro slot child found
    have member := List.mem_of_getElem? found
    rw [List.eq_of_mem_replicate member]
  constructor
  · intro first second child other foundFirst _ used _
    exact absurd (free first child foundFirst) used
  · intro slot child found
    constructor
    · intro used
      exact absurd (free slot child found) used
    · intro runs
      cases runs

theorem after_append (table : ServerTable) (calls : List TableCall) (call : TableCall) :
    table.after (calls ++ [call]) = (table.after calls).call call := by
  rw [after, List.foldl_append]
  rfl

end ServerTable

/-! ## Sequences of calls -/

/-- Whatever fails, no process has two entries. -/
theorem distinct_after (maxProcesses : Nat) (calls : List TableCall) :
    Distinct ((ServerTable.empty maxProcesses).after calls).children := by
  induction calls using List.reverseRecOn with
  | nil => exact (ServerTable.consistent_empty maxProcesses).distinct
  | append_singleton calls call ih =>
      rw [ServerTable.after_append]
      exact ServerTable.distinct_call ih

/-- In every state that a sequence of calls reaches no process has two entries
and the entries in use are those with a server thread, exactly when every call
of the sequence that claims a slot makes its thread. -/
theorem consistent_iff (maxProcesses : Nat) (calls : List TableCall) :
    (∀ front, front <+: calls → ((ServerTable.empty maxProcesses).after front).Consistent) ↔
      ∀ front call, front ++ [call] <+: calls →
        call.Creates ((ServerTable.empty maxProcesses).after front) := by
  constructor
  · intro reached front call inside
    have before := reached front ((List.prefix_append front [call]).trans inside)
    rw [← before.call_iff, ← ServerTable.after_append]
    exact reached _ inside
  · intro creates front inside
    induction front using List.reverseRecOn with
    | nil => exact ServerTable.consistent_empty maxProcesses
    | append_singleton front call ih =>
        have before := ih ((List.prefix_append front [call]).trans inside)
        rw [ServerTable.after_append, before.call_iff]
        exact creates front call inside

/-- A thread that cannot be made leaves an entry behind. -/
theorem not_consistent :
    ¬∀ maxProcesses calls, ((ServerTable.empty maxProcesses).after calls).Consistent := by
  intro claim
  have consistent := claim 10 [.start ⟨7, by decide⟩ none none]
  have used := consistent.agrees 0 ⟨7, 0⟩ rfl
  cases used.mp (by decide)

end VgcMalloc
