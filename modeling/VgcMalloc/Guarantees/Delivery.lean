import VgcMalloc.Guarantees.Framing

/-!
# Delivery past dead peers

`mprotectDistribute` visits the table of processes in order and leaves its loop
at the first peer for which no socket can be made, or whose socket cannot be
connected or written to.  A peer behind that one is never told of the change.
-/

namespace VgcMalloc

variable {network : Nat → Attempt} {block : MProtectBlock} {sender : UInt32} {header : UInt64}
  {prot : UInt32} {children : List DebugChild} {child : DebugChild} {start slot index : Nat}

/-- A registered process other than the sender. -/
def DebugChild.IsPeer (sender : UInt32) (child : DebugChild) : Prop :=
  ¬(child.pid = 0 ∨ child.pid = sender)

instance (sender : UInt32) (child : DebugChild) : Decidable (child.IsPeer sender) :=
  inferInstanceAs (Decidable (¬_))

namespace Attempt

/-- The peer fails: `connect`, `write` or the read of the answer does. -/
def Fails (attempt : Attempt) : Prop :=
  attempt.connect = false ∨ attempt.write = false ∨ attempt.read = .error

/-- The loop goes on to the next slot. -/
def Passes (attempt : Attempt) : Prop :=
  attempt.socket = true ∧ attempt.connect = true ∧ attempt.write = true

instance (attempt : Attempt) : Decidable attempt.Fails :=
  inferInstanceAs (Decidable (_ ∨ _))

instance (attempt : Attempt) : Decidable attempt.Passes :=
  inferInstanceAs (Decidable (_ ∧ _))

end Attempt

/-! ## The loop -/

/-- A slot of another process, or one that holds none, is passed over. -/
theorem distributeFrom_skip (skipped : ¬child.IsPeer block.sourcePID) :
    distributeFrom network block slot (child :: children) =
      ((child :: (distributeFrom network block (slot + 1) children).1),
        (distributeFrom network block (slot + 1) children).2) := by
  rw [distributeFrom, if_pos (not_not.mp skipped)]

/-- The record is sent and the loop goes on. -/
theorem distributeFrom_pass (peer : child.IsPeer block.sourcePID)
    (passes : (network slot).Passes) :
    distributeFrom network block slot (child :: children) =
      ((child :: (distributeFrom network block (slot + 1) children).1),
        slot :: (distributeFrom network block (slot + 1) children).2) := by
  obtain ⟨socket, connect, write⟩ := passes
  rw [distributeFrom, if_neg peer]
  simp [socket, connect, write]

/-- Nothing is sent and the loop is left; the slot is cleared unless there was
no socket. -/
theorem distributeFrom_stop (peer : child.IsPeer block.sourcePID)
    (stops : ¬(network slot).Passes) :
    (distributeFrom network block slot (child :: children)).2 = [] ∧
      ((distributeFrom network block slot (child :: children)).1 = child :: children ∨
        (network slot).Fails ∧ (distributeFrom network block slot (child :: children)).1 =
          removeChildThread child :: children) := by
  rw [distributeFrom, if_neg peer]
  unfold Attempt.Passes at stops
  unfold Attempt.Fails
  cases socket : (network slot).socket with
  | false => simp
  | true =>
      cases connect : (network slot).connect with
      | false => simp
      | true =>
          cases write : (network slot).write with
          | false => simp
          | true => exact absurd ⟨socket, connect, write⟩ stops

/-- The loop gets past all peers in front of a slot and past that slot. -/
def PassesUpTo (network : Nat → Attempt) (sender : UInt32) (start : Nat)
    (children : List DebugChild) (index : Nat) : Prop :=
  ∀ earlier ≤ index, ∀ child, children[earlier]? = some child → child.IsPeer sender →
    (network (start + earlier)).Passes

theorem passesUpTo_cons_succ_iff :
    PassesUpTo network sender start (child :: children) (index + 1) ↔
      (child.IsPeer sender → (network start).Passes) ∧
        PassesUpTo network sender (start + 1) children index := by
  constructor
  · intro all
    constructor
    · exact all 0 (Nat.zero_le _) child rfl
    · intro earlier le other found peer
      rw [Nat.add_assoc, Nat.add_comm 1]
      exact all (earlier + 1) (Nat.succ_le_succ le) other found peer
  · rintro ⟨first, rest⟩ earlier le other found peer
    cases earlier with
    | zero =>
        rw [List.getElem?_cons_zero, Option.some.injEq] at found
        subst found
        exact first peer
    | succ earlier =>
        rw [← Nat.add_assoc, Nat.add_right_comm]
        exact rest earlier (Nat.le_of_succ_le_succ le) other found peer

/-- The record reaches exactly the peers that the loop gets past. -/
theorem mem_sent_iff :
    start + index ∈ (distributeFrom network block start children).2 ↔
      ∃ child, children[index]? = some child ∧ child.IsPeer block.sourcePID ∧
        PassesUpTo network block.sourcePID start children index := by
  have later : ∀ (children : List DebugChild) (start slot : Nat),
      slot ∈ (distributeFrom network block start children).2 → start ≤ slot := by
    intro children
    induction children with
    | nil =>
        intro start slot member
        exact absurd member List.not_mem_nil
    | cons child rest ih =>
        intro start slot member
        by_cases peer : child.IsPeer block.sourcePID
        · by_cases passes : (network start).Passes
          · rw [distributeFrom_pass peer passes] at member
            rcases List.mem_cons.mp member with rfl | member
            · exact Nat.le_refl _
            · exact Nat.le_of_succ_le (ih _ _ member)
          · rw [(distributeFrom_stop peer passes).1] at member
            exact absurd member List.not_mem_nil
        · rw [distributeFrom_skip peer] at member
          exact Nat.le_of_succ_le (ih _ _ member)
  induction children generalizing start index with
  | nil => simp [distributeFrom]
  | cons child rest ih =>
      have shift : ∀ index, start + (index + 1) = start + 1 + index := by
        intro index
        omega
      have absent : ∀ tail, start ∉ (distributeFrom network block (start + 1) tail).2 :=
        fun tail member => Nat.not_succ_le_self _ (later _ _ _ member)
      cases index with
      | zero =>
          have single : PassesUpTo network block.sourcePID start (child :: rest) 0 ↔
              (child.IsPeer block.sourcePID → (network start).Passes) := by
            constructor
            · intro all
              exact all 0 (Nat.le_refl _) child rfl
            · rintro first earlier le other found peer
              obtain rfl := Nat.le_zero.mp le
              rw [List.getElem?_cons_zero, Option.some.injEq] at found
              subst found
              exact first peer
          simp only [Nat.add_zero, List.getElem?_cons_zero, Option.some.injEq, single]
          by_cases peer : child.IsPeer block.sourcePID
          · by_cases passes : (network start).Passes
            · rw [distributeFrom_pass peer passes]
              simp [peer, passes]
            · rw [(distributeFrom_stop peer passes).1]
              simp [peer, passes]
          · rw [distributeFrom_skip peer]
            simp [peer, absent]
      | succ index =>
          rw [List.getElem?_cons_succ, passesUpTo_cons_succ_iff, shift]
          by_cases peer : child.IsPeer block.sourcePID
          · by_cases passes : (network start).Passes
            · have other : start + 1 + index ≠ start := by omega
              have rest := @ih (start + 1) index
              rw [distributeFrom_pass peer passes, List.mem_cons]
              simp [other, peer, passes, rest]
            · rw [(distributeFrom_stop peer passes).1]
              simp [peer, passes]
          · have rest := @ih (start + 1) index
            rw [distributeFrom_skip peer]
            simp [peer, rest]

/-- Only the slot of a peer that fails is cleared. -/
theorem fails_of_cleared (found : children[index]? = some child)
    (cleared : (distributeFrom network block start children).1[index]? ≠ some child) :
    child.IsPeer block.sourcePID ∧ (network (start + index)).Fails := by
  induction children generalizing start index with
  | nil => cases found
  | cons first rest ih =>
      have next : ∀ tail, (distributeFrom network block start (first :: rest)).1 =
          first :: tail → tail = (distributeFrom network block (start + 1) rest).1 →
            child.IsPeer block.sourcePID ∧ (network (start + index)).Fails := by
        rintro _ same rfl
        rw [same] at cleared
        cases index with
        | zero => exact absurd found cleared
        | succ index =>
            rw [← Nat.add_assoc, Nat.add_right_comm]
            exact ih found cleared
      by_cases peer : first.IsPeer block.sourcePID
      · by_cases passes : (network start).Passes
        · exact next _ (congrArg Prod.fst (distributeFrom_pass peer passes)) rfl
        · have stop := @distributeFrom_stop network block rest first start peer passes
          rcases stop.2 with same | ⟨fails, same⟩
          · rw [same] at cleared
            exact absurd found cleared
          · rw [same] at cleared
            cases index with
            | zero =>
                rw [List.getElem?_cons_zero, Option.some.injEq] at found
                subst found
                exact ⟨peer, fails⟩
            | succ index => exact absurd found cleared
      · exact next _ (congrArg Prod.fst (distributeFrom_skip peer)) rfl

/-! ## Delivery -/

/-- Every peer that does not fail is sent the change, and only slots of peers
that fail are cleared. -/
structure Delivered (network : Nat → Attempt) (sender : UInt32) (children : List DebugChild)
    (result : List DebugChild × List Nat) : Prop where
  sent : ∀ slot child, children[slot]? = some child → child.IsPeer sender →
    ¬(network slot).Fails → slot ∈ result.2
  cleared : ∀ slot child, children[slot]? = some child → result.1[slot]? ≠ some child →
    child.IsPeer sender ∧ (network slot).Fails

/-- Every peer that does not fail gets a socket, and no peer in front of it
stops the loop. -/
def NoDeadBefore (network : Nat → Attempt) (sender : UInt32) (children : List DebugChild) : Prop :=
  ∀ slot child, children[slot]? = some child → child.IsPeer sender → ¬(network slot).Fails →
    PassesUpTo network sender 0 children slot

/-- The change is delivered past the dead peers exactly when none of them comes
before a peer that lives. -/
theorem delivered_iff_noDeadBefore :
    Delivered network sender children (mprotectDistribute network sender header prot children) ↔
      NoDeadBefore network sender children := by
  have cleared : ∀ slot child, children[slot]? = some child →
      (mprotectDistribute network sender header prot children).1[slot]? ≠ some child →
        child.IsPeer sender ∧ (network slot).Fails := by
    intro slot child found gone
    have fails := fails_of_cleared found gone
    rwa [Nat.zero_add] at fails
  have member : ∀ slot, slot ∈ (mprotectDistribute network sender header prot children).2 ↔
      ∃ child, children[slot]? = some child ∧ child.IsPeer sender ∧
        PassesUpTo network sender 0 children slot := by
    intro slot
    have sent := @mem_sent_iff network ⟨header, prot, sender⟩ children 0 slot
    rwa [Nat.zero_add] at sent
  constructor
  · intro delivered slot child found peer lives
    obtain ⟨_, _, _, passed⟩ := (member slot).mp (delivered.sent slot child found peer lives)
    exact passed
  · intro none
    refine ⟨?_, cleared⟩
    intro slot child found peer lives
    exact (member slot).mpr ⟨child, found, peer, none slot child found peer lives⟩

/-- Processes 2 and 3 are registered; 2 has died and refuses the connection. -/
theorem not_delivered_past_dead :
    ¬∀ network sender header prot children,
      Delivered network sender children
        (mprotectDistribute network sender header prot children) := by
  intro claim
  have delivered := claim (fun slot => ⟨true, slot ≠ 1, true, .data [1, 0, 0, 0]⟩) 1 0x10001000
    protNone [⟨1, 11⟩, ⟨2, 12⟩, ⟨3, 13⟩]
  have reached := delivered.sent 2 ⟨3, 13⟩ rfl (by decide) (by decide)
  revert reached
  decide

end VgcMalloc
