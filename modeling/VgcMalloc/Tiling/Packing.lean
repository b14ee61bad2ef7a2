import VgcMalloc.Tiling.Blocks
import Mathlib.Algebra.Order.BigOperators.Group.List
import Mathlib.Algebra.Order.Ring.Nat

/-!
# Packing

In a coalesced tiling every free block but one stands before a block in use.
So the free payload cannot be cut into more pieces than there are blocks in
use, plus one, and a stretch that is long enough for its blocks in use has a
free block of a given size.
-/

namespace VgcMalloc.Tiling

variable {gap start stop need most : Nat} {entries : List Entry}

/-- A coalesced list has at most one block more than twice its blocks in use,
and none more when a block in use comes first. -/
theorem Coalesced.length_le (coalesced : Coalesced entries) :
    entries.length ≤ 2 * busyCount entries + 1 ∧
      ((∃ entry ∈ entries.head?, entry.busy = true) →
        entries.length ≤ 2 * busyCount entries) := by
  induction entries with
  | nil => simp
  | cons entry rest ih =>
      have tail := ih coalesced.tail
      cases busy : entry.busy with
      | true =>
          have count : busyCount (entry :: rest) = busyCount rest + 1 :=
            List.countP_cons_of_pos busy
          rw [List.length_cons, count]
          omega
      | false =>
          have count : busyCount (entry :: rest) = busyCount rest :=
            List.countP_cons_of_neg (by simp [busy])
          have short : rest.length ≤ 2 * busyCount rest := by
            cases rest with
            | nil => simp
            | cons next rest =>
                have seam := (List.isChain_cons_cons.mp coalesced).1
                rw [busy] at seam
                exact tail.2 ⟨next, rfl, seam.resolve_left Bool.false_ne_true⟩
          rw [List.length_cons, count]
          refine ⟨by omega, ?_⟩
          rintro ⟨_, head, used⟩
          cases head
          rw [busy] at used
          cases used

/-- The room that a block takes when no free block fits. -/
def room (gap most need : Nat) (entry : Entry) : Nat :=
  if entry.busy then most + gap else need + gap

theorem sum_room (gap most need : Nat) (entries : List Entry) :
    (entries.map (room gap most need)).sum =
      busyCount entries * (most + gap) + (entries.length - busyCount entries) * (need + gap) := by
  induction entries with
  | nil => simp [busyCount]
  | cons entry rest ih =>
      have within : busyCount rest ≤ rest.length := List.countP_le_length
      rw [List.map_cons, List.sum_cons, ih, List.length_cons]
      cases busy : entry.busy with
      | true =>
          have count : busyCount (entry :: rest) = busyCount rest + 1 :=
            List.countP_cons_of_pos busy
          rw [count, room, if_pos busy, Nat.add_sub_add_right, Nat.succ_mul]
          omega
      | false =>
          have count : busyCount (entry :: rest) = busyCount rest :=
            List.countP_cons_of_neg (by simp [busy])
          rw [count, room, if_neg (by simp [busy]), Nat.succ_sub within, Nat.succ_mul]
          omega

/-- A coalesced tiling in which no free block fits is short. -/
theorem Contiguous.stop_le (tiles : Contiguous gap start entries stop)
    (coalesced : Coalesced entries) (small : ∀ x ∈ entries, x.busy = true → x.size ≤ most)
    (unfit : ∀ x ∈ entries, ¬Fits need x) :
    stop ≤ start + busyCount entries * (most + gap) + (busyCount entries + 1) * (need + gap) := by
  have each : ∀ x ∈ entries, x.size + gap ≤ room gap most need x := by
    intro x member
    unfold room
    split
    · exact Nat.add_le_add_right (small x member ‹_›) gap
    · rename_i free
      have large := unfit x member
      unfold Fits at large
      simp only [Bool.not_eq_true] at free
      simp only [free, true_and, Nat.not_le] at large
      omega
  have total := tiles.total
  have bound := List.sum_le_sum each
  rw [sum_room] at bound
  have pieces : entries.length - busyCount entries ≤ busyCount entries + 1 := by
    have short := coalesced.length_le.1
    omega
  have cut := Nat.mul_le_mul_right (need + gap) pieces
  omega

/-- A coalesced tiling that is long enough for its blocks in use has a free
block that fits. -/
theorem Contiguous.exists_fits {count : Nat} (tiles : Contiguous gap start entries stop)
    (coalesced : Coalesced entries) (small : ∀ x ∈ entries, x.busy = true → x.size ≤ most)
    (few : busyCount entries ≤ count)
    (long : start + count * (most + gap) + (count + 1) * (need + gap) < stop) :
    ∃ x ∈ entries, Fits need x := by
  by_contra none
  have unfit : ∀ x ∈ entries, ¬Fits need x := by simpa using none
  have short := tiles.stop_le coalesced small unfit
  have used := Nat.mul_le_mul_right (most + gap) few
  have free := Nat.mul_le_mul_right (need + gap) (Nat.succ_le_succ few)
  simp only [Nat.succ_eq_add_one] at free
  omega

end VgcMalloc.Tiling
