import Mathlib.Data.Finset.Lattice.Fold
import Mathlib.Order.Lattice.Nat
import VgcMalloc.Model.Peers

/-!
# Removing a peer

The removal of an entry changes no other entry.  It leaves the process that
makes it alone exactly when the numbers of the entry, which are those of another
process, stand for no descriptor and no thread of its own, and the calls with
the foreign thread only report an error.
-/

namespace VgcMalloc

variable {kernel : Kernel} {network : Nat → Attempt} {self : UInt32} {world : PeerWorld}
  {child : PeerSlot} {pos fd : Nat} {positions : List Nat} {call : PeerCall} {removal : Removal}

/-! ## What a removal does -/

namespace PeerWorld

/-- The socket of a connection is gone when it is closed. -/
theorem closeFD_openFD (unused : fd ∉ (world.resources self).descriptors) :
    (world.openFD self fd).closeFD self fd = world := by
  unfold closeFD openFD change
  simp only [Function.update_self, Function.update_idem, Finset.erase_insert unused]
  rw [Function.update_eq_self]

theorem removeChildThread_slots {after : PeerWorld}
    (removed : world.removeChildThread kernel self pos child = some after) :
    after.slots = world.slots.modify pos fun child => { child with pid := 0, thread := 0 } := by
  obtain ⟨cancelled, ended, rfl⟩ := Option.map_eq_some_iff.mp removed
  unfold cancel at ended
  split at ended
  · rw [← Option.some.inj ended]
    rfl
  · obtain ⟨left, _, rfl⟩ := Option.map_eq_some_iff.mp ended
    rfl

/-- What is left to the process whose thread the handle names. -/
theorem removeChildThread_own (own : child.thread ∈ (world.resources self).threads) :
    (world.removeChildThread kernel self pos child).map resources =
      some (Function.update world.resources self
        ⟨(world.resources self).descriptors.erase child.socketFD,
          (world.resources self).threads.erase child.thread⟩) := by
  rw [removeChildThread, cancel, if_pos own, Option.map_some, Option.map_some]
  unfold closeFD clear change
  simp only [Function.update_self, Function.update_idem]

/-- What is left to any other process. -/
theorem removeChildThread_stranger (other : child.thread ∉ (world.resources self).threads) :
    (world.removeChildThread kernel self pos child).map resources =
      (kernel.stranger child.thread (world.resources self)).map fun left =>
        Function.update world.resources self
          { left with descriptors := left.descriptors.erase child.socketFD } := by
  rw [removeChildThread, cancel, if_neg other, Option.map_map, Option.map_map]
  congr 1
  funext left
  simp only [Function.comp_apply, closeFD, clear, change, Function.update_self,
    Function.update_idem]

/-- The numbers of the entry stand for nothing that the process has, and the
calls with the thread report an error. -/
structure Foreign (kernel : Kernel) (world : PeerWorld) (pid : UInt32) (child : PeerSlot) :
    Prop where
  closed : child.socketFD ∉ (world.resources pid).descriptors
  unknown : child.thread ∉ (world.resources pid).threads
  reported : kernel.stranger child.thread (world.resources pid) = some (world.resources pid)

/-- A process that keeps a part of what it had, less one descriptor, keeps all
of it exactly when it lost nothing and the descriptor was not open. -/
theorem Resources.kept_iff {own left : Resources} {fd : Nat}
    (part : left.descriptors ⊆ own.descriptors) :
    ({ left with descriptors := left.descriptors.erase fd } : Resources) = own ↔
      fd ∉ own.descriptors ∧ left = own := by
  constructor
  · intro same
    subst same
    have kept : left.descriptors.erase fd = left.descriptors :=
      (Finset.erase_subset fd _).antisymm part
    exact ⟨Finset.notMem_erase fd _, by rw [kept]⟩
  · rintro ⟨closed, rfl⟩
    rw [Finset.erase_eq_of_notMem closed]

/-- The process survives the removal with all that the processes have exactly
when the numbers are foreign to it. -/
theorem removeChildThread_resources_iff :
    (world.removeChildThread kernel self pos child).map resources = some world.resources ↔
      world.Foreign kernel self child := by
  by_cases own : child.thread ∈ (world.resources self).threads
  · rw [removeChildThread_own own]
    constructor
    · intro same
      have threads := Function.update_eq_self_iff.mp (Option.some.inj same)
      have kept : (world.resources self).threads.erase child.thread =
          (world.resources self).threads := congrArg Resources.threads threads
      exact absurd own (Finset.erase_eq_self.mp kept)
    · intro foreign
      exact absurd own foreign.unknown
  · rw [removeChildThread_stranger own, Option.map_eq_some_iff]
    constructor
    · rintro ⟨left, answer, same⟩
      have part := (kernel.loses _ _ _ answer).1
      have kept := Function.update_eq_self_iff.mp same
      obtain ⟨closed, rfl⟩ := (Resources.kept_iff part).mp kept
      exact ⟨closed, own, answer⟩
    · intro foreign
      refine ⟨_, foreign.reported, Function.update_eq_self_iff.mpr ?_⟩
      exact (Resources.kept_iff (Finset.Subset.refl _)).mpr ⟨foreign.closed, rfl⟩

/-! ## The loops -/

/-- The loop of `mprotectDistribute` leaves the world alone until it removes an
entry. -/
theorem distributeOver_cases :
    distributeOver kernel network self positions world = (some world, none) ∨
      ∃ pos child, world.slots[pos]? = some child ∧ child.pid ≠ 0 ∧ child.pid ≠ self ∧
        distributeOver kernel network self positions world =
          (world.removeChildThread kernel self pos child, some pos) := by
  induction positions with
  | nil => exact Or.inl rfl
  | cons position rest ih =>
      rw [distributeOver]
      cases found : world.slots[position]? with
      | none => exact Or.inl rfl
      | some child =>
          have unused := kernel.fresh (world.resources self).descriptors
          simp only [closeFD_openFD unused]
          split
          · exact ih
          rename_i peer
          obtain ⟨used, other⟩ := not_or.mp peer
          split
          · exact Or.inl rfl
          split
          · exact Or.inr ⟨position, child, found, used, other, rfl⟩
          split
          · exact Or.inr ⟨position, child, found, used, other, rfl⟩
          split
          · exact Or.inr ⟨position, child, found, used, other, rfl⟩
          · exact ih

/-- Every removal of the loop of `stopMprotect` is one of another process. -/
theorem stopOver_removes (member : removal ∈ (stopOver kernel self positions world).2) :
    ∃ child, removal.before.slots[removal.pos]? = some child ∧ child.pid ≠ 0 ∧
      child.pid ≠ self ∧
        removal.after = removal.before.removeChildThread kernel self removal.pos child := by
  induction positions generalizing world with
  | nil => exact absurd member List.not_mem_nil
  | cons position rest ih =>
      rw [stopOver] at member
      cases found : world.slots[position]? with
      | none =>
          rw [found] at member
          exact absurd member List.not_mem_nil
      | some child =>
          simp only [found] at member
          split at member
          · exact ih member
          rename_i used
          split at member
          · rename_i other
            cases removed : world.removeChildThread kernel self position child with
            | none =>
                rw [removed] at member
                obtain rfl := List.mem_singleton.mp member
                exact ⟨child, found, used, other, removed.symm⟩
            | some after =>
                rw [removed] at member
                rcases List.mem_cons.mp member with rfl | later
                · exact ⟨child, found, used, other, removed.symm⟩
                · exact ih later
          · exact ih member

/-- Every removal of a call is one of another process. -/
theorem removals_removes (member : removal ∈ world.removals kernel self call) :
    ∃ child, removal.before.slots[removal.pos]? = some child ∧ child.pid ≠ 0 ∧
      child.pid ≠ self ∧
        removal.after = removal.before.removeChildThread kernel self removal.pos child := by
  cases call with
  | stop => exact stopOver_removes member
  | distribute network =>
      rw [removals, mprotectDistribute] at member
      rcases distributeOver_cases with kept | ⟨pos, child, found, used, other, removed⟩
      · rw [kept] at member
        exact absurd member List.not_mem_nil
      · rw [removed] at member
        rw [List.mem_singleton.mp member]
        exact ⟨child, found, used, other, rfl⟩

/-! ## The table of the distribution -/

/-- The entries without their sockets. -/
def children (world : PeerWorld) : List DebugChild := world.slots.map PeerSlot.toDebugChild

/-- The two loops remove the same entry. -/
theorem distributeOver_removed {block : MProtectBlock} {start : Nat} {rest : List PeerSlot}
    (suffix : world.slots.drop start = rest) (sender : block.sourcePID = self) :
    (distributeOver kernel network self (List.range' start rest.length) world).2 =
      (removedFrom network block start (rest.map PeerSlot.toDebugChild)).map (start + ·) := by
  induction rest generalizing start with
  | nil => rfl
  | cons child rest ih =>
      have found : world.slots[start]? = some child := by
        rw [← List.head?_drop, suffix]
        rfl
      have later : world.slots.drop (start + 1) = rest := by
        rw [← List.tail_drop, suffix]
        rfl
      have onwards : (distributeOver kernel network self (List.range' (start + 1) rest.length)
          world).2 = ((removedFrom network block (start + 1)
            (rest.map PeerSlot.toDebugChild)).map (· + 1)).map (start + ·) := by
        rw [ih later, Option.map_map]
        congr 1
        funext index
        exact Nat.add_right_comm start 1 index
      have unused := kernel.fresh (world.resources self).descriptors
      rw [List.length_cons, List.range'_succ, distributeOver, List.map_cons, removedFrom]
      simp only [found, closeFD_openFD unused, sender]
      split
      · exact onwards
      split
      · rfl
      split
      · rfl
      split
      · rfl
      split
      · rfl
      · exact onwards

/-- The table after a distribution that the process survives is the one that
`mprotectDistribute` leaves. -/
theorem children_mprotectDistribute (header : UInt64) (prot : UInt32) {last : PeerWorld}
    (survives : (world.mprotectDistribute kernel network self).1 = some last) :
    last.children =
      (VgcMalloc.mprotectDistribute network self header prot world.children).1 := by
  have removed : (world.mprotectDistribute kernel network self).2 =
      (removedFrom network ⟨header, prot, self⟩ 0 world.children).map (0 + ·) := by
    rw [mprotectDistribute, List.range_eq_range']
    exact distributeOver_removed rfl rfl
  rw [VgcMalloc.mprotectDistribute, distributeFrom_eq]
  rcases distributeOver_cases with kept | ⟨pos, child, _, _, _, gone⟩
  · rw [mprotectDistribute, kept] at removed survives
    obtain rfl := Option.some.inj survives
    rw [Option.map_eq_none_iff.mp removed.symm]
  · rw [mprotectDistribute, gone] at removed survives
    obtain ⟨index, found, same⟩ := Option.map_eq_some_iff.mp removed.symm
    rw [Nat.zero_add] at same
    obtain rfl := same
    rw [found]
    apply List.ext_getElem?
    intro slot
    rw [children, removeChildThread_slots survives, List.getElem?_map, List.getElem?_modify,
      List.getElem?_modify, children, List.getElem?_map]
    by_cases here : index = slot
    · subst here
      cases world.slots[index]? <;> simp [VgcMalloc.removeChildThread]
    · cases world.slots[slot]? <;> simp [here]

end PeerWorld

/-! ## Only the peer -/

/-- The process survives the removal, which leaves alone what the processes
have, and all other entries. -/
def Removal.TouchesOnlyPeer (removal : Removal) : Prop :=
  ∃ after, removal.after = some after ∧ after.resources = removal.before.resources ∧
    ∀ pos ≠ removal.pos, after.slots[pos]? = removal.before.slots[pos]?

/-- A removal by `mprotectDistribute` or `stopMprotect` touches only the peer
exactly when the descriptor of its entry is not open in the process that makes
the removal, and its thread is none of that process and reported as unknown. -/
theorem touchesOnlyPeer_iff (member : removal ∈ world.removals kernel self call) :
    removal.TouchesOnlyPeer ↔
      ∀ child, removal.before.slots[removal.pos]? = some child →
        removal.before.Foreign kernel self child := by
  obtain ⟨child, found, _, _, removed⟩ := PeerWorld.removals_removes member
  constructor
  · rintro ⟨after, survives, same, _⟩ other there
    obtain rfl := Option.some.inj (found.symm.trans there)
    rw [removed] at survives
    apply PeerWorld.removeChildThread_resources_iff.mp
    rw [survives, Option.map_some, same]
  · intro foreign
    have kept : (removal.before.removeChildThread kernel self removal.pos child).map
        PeerWorld.resources = some removal.before.resources :=
      PeerWorld.removeChildThread_resources_iff.mpr (foreign child found)
    obtain ⟨after, survives, same⟩ := Option.map_eq_some_iff.mp kept
    refine ⟨after, removed.trans survives, same, fun pos ne => ?_⟩
    rw [PeerWorld.removeChildThread_slots survives, List.getElem?_modify]
    simp only [ne.symm, if_false]
    exact Option.map_id'

/-- Two processes; the second one opened its socket as its parent had done. -/
def twoProcesses (socketFD : Nat) : PeerWorld where
  slots := [⟨⟨1, 100⟩, 3⟩, ⟨⟨2, 200⟩, socketFD⟩]
  resources pid := if pid = 1 then ⟨{0, 1, 2, 3}, {100}⟩ else ⟨{0, 1, 2, socketFD}, {200}⟩

/-- A kernel that opens the descriptor behind all open ones; the thread calls
look for the handle among the threads of the process. -/
def nextKernel : Kernel where
  newFD descriptors := descriptors.sup id + 1
  fresh descriptors := by
    intro member
    have bound : descriptors.sup id + 1 ≤ descriptors.sup id := Finset.le_sup (f := id) member
    exact Nat.not_succ_le_self _ bound
  stranger _ own := some own
  loses _ _ _ same := by
    obtain rfl := Option.some.inj same
    exact ⟨Finset.Subset.refl _, Finset.Subset.refl _⟩

/-- No peer can be connected. -/
def deadNetwork : Nat → Attempt := fun _ => ⟨true, false, false, .error⟩

theorem touchesOnlyPeer_iff_sample :
    ∃ removal ∈ (twoProcesses 4).removals nextKernel 1 (.distribute deadNetwork),
      (removal.TouchesOnlyPeer ↔ ∀ child, removal.before.slots[removal.pos]? = some child →
        removal.before.Foreign nextKernel 1 child) := by
  have removed : (twoProcesses 4).removals nextKernel 1 (.distribute deadNetwork) =
      [⟨1, twoProcesses 4, ((twoProcesses 4).mprotectDistribute nextKernel deadNetwork 1).1⟩] :=
    rfl
  have member : _ ∈ (twoProcesses 4).removals nextKernel 1 (.distribute deadNetwork) :=
    removed ▸ List.mem_singleton_self _
  exact ⟨_, member, touchesOnlyPeer_iff member⟩

/-- The sockets of the two processes have the same number. -/
theorem not_touchesOnlyPeer :
    ¬∀ (world : PeerWorld) kernel self call, ∀ removal ∈ world.removals kernel self call,
      removal.TouchesOnlyPeer := by
  intro claim
  have removed : (twoProcesses 3).removals nextKernel 1 (.distribute deadNetwork) =
      [⟨1, twoProcesses 3, ((twoProcesses 3).mprotectDistribute nextKernel deadNetwork 1).1⟩] :=
    rfl
  obtain ⟨after, survives, same, _⟩ := claim _ _ _ _ _ (removed ▸ List.mem_singleton_self _)
  obtain ⟨child, found, _, _, gone⟩ :=
    PeerWorld.removals_removes (removed ▸ List.mem_singleton_self _)
  rw [gone] at survives
  obtain rfl : ⟨⟨2, 200⟩, 3⟩ = child := Option.some.inj found
  have kept : ((twoProcesses 3).removeChildThread nextKernel 1 1 ⟨⟨2, 200⟩, 3⟩).map
      PeerWorld.resources = some (twoProcesses 3).resources := by
    rw [survives, Option.map_some, same]
  exact (PeerWorld.removeChildThread_resources_iff.mp kept).closed (by decide)

end VgcMalloc
