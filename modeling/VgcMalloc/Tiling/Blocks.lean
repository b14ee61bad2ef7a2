import Mathlib.Algebra.Ring.Nat
import Mathlib.Data.List.Chain

/-!
# Tiled block lists

A stretch of addresses is tiled by blocks, each of them a gap of fixed length
(its header) followed by its payload.  This file develops first-fit granting
with splitting and release with coalescing on such lists, for any gap.
-/

namespace VgcMalloc.Tiling

/-- A block: the address of its gap, the length of its payload, and whether
the payload is in use. -/
structure Entry where
  addr : Nat
  size : Nat
  busy : Bool
  deriving DecidableEq, Repr

/-- The blocks follow one another without holes from `start` to `stop`. -/
def Contiguous (gap : Nat) : Nat → List Entry → Nat → Prop
  | start, [], stop => start = stop
  | start, entry :: rest, stop =>
      entry.addr = start ∧ Contiguous gap (start + gap + entry.size) rest stop

/-- No two neighbours are both free. -/
def Coalesced (entries : List Entry) : Prop :=
  entries.IsChain fun left right => left.busy = true ∨ right.busy = true

/-- Addresses and sizes are multiples of `unit` and no payload is empty. -/
def Aligned (unit : Nat) (entries : List Entry) : Prop :=
  ∀ entry ∈ entries, unit ∣ entry.addr ∧ unit ∣ entry.size ∧ 0 < entry.size

/-- Every payload starts before the end of the tiled stretch. -/
def Inside (gap stop : Nat) (entries : List Entry) : Prop :=
  ∀ entry ∈ entries, entry.addr + gap < stop

/-- The number of blocks in use. -/
def busyCount (entries : List Entry) : Nat :=
  entries.countP Entry.busy

variable {gap start stop : Nat}

/-! ## Tiling -/

theorem contiguous_cons {entry : Entry} {rest : List Entry} :
    Contiguous gap start (entry :: rest) stop ↔
      entry.addr = start ∧ Contiguous gap (start + gap + entry.size) rest stop :=
  Iff.rfl

/-- A tiling splits at every position. -/
theorem contiguous_append {front back : List Entry} :
    Contiguous gap start (front ++ back) stop ↔
      ∃ middle, Contiguous gap start front middle ∧ Contiguous gap middle back stop := by
  induction front generalizing start with
  | nil => simp [Contiguous]
  | cons entry rest ih =>
      simp only [List.cons_append, contiguous_cons, ih]
      constructor
      · rintro ⟨addrEq, middle, left, right⟩
        exact ⟨middle, ⟨addrEq, left⟩, right⟩
      · rintro ⟨middle, ⟨addrEq, left⟩, right⟩
        exact ⟨addrEq, middle, left, right⟩

/-- Only addresses and sizes matter. -/
theorem contiguous_map {entries : List Entry} {change : Entry → Entry}
    (same : ∀ x ∈ entries, (change x).addr = x.addr ∧ (change x).size = x.size) :
    Contiguous gap start (entries.map change) stop ↔ Contiguous gap start entries stop := by
  induction entries generalizing start with
  | nil => rfl
  | cons entry rest ih =>
      obtain ⟨addrEq, sizeEq⟩ := same entry List.mem_cons_self
      rw [List.map_cons, contiguous_cons, contiguous_cons, addrEq, sizeEq,
        ih fun x member => same x (List.mem_cons_of_mem _ member)]

theorem Contiguous.le {entries : List Entry} (tiles : Contiguous gap start entries stop) :
    start ≤ stop := by
  induction entries generalizing start with
  | nil => exact Nat.le_of_eq tiles
  | cons entry rest ih =>
      have tail := ih tiles.2
      omega

/-- There is room for a gap per block. -/
theorem Contiguous.length_mul_le {entries : List Entry}
    (tiles : Contiguous gap start entries stop) : start + entries.length * gap ≤ stop := by
  induction entries generalizing start with
  | nil => simpa using Nat.le_of_eq tiles
  | cons entry rest ih =>
      have tail := ih tiles.2
      rw [List.length_cons, Nat.succ_mul]
      omega

/-- The blocks and their headers add up to the range that they tile. -/
theorem Contiguous.total {entries : List Entry} (tiles : Contiguous gap start entries stop) :
    start + (entries.map fun entry => entry.size + gap).sum = stop := by
  induction entries generalizing start with
  | nil => exact tiles
  | cons entry rest ih =>
      obtain ⟨_, tail⟩ := tiles
      have sums := ih tail
      rw [List.map_cons, List.sum_cons]
      omega

/-- Every block lies between the ends. -/
theorem Contiguous.bounds {entries : List Entry} {entry : Entry}
    (tiles : Contiguous gap start entries stop) (member : entry ∈ entries) :
    start ≤ entry.addr ∧ entry.addr + gap + entry.size ≤ stop := by
  obtain ⟨front, back, rfl⟩ := List.append_of_mem member
  obtain ⟨middle, left, addrEq, right⟩ := contiguous_append.mp tiles
  have before := left.le
  have after := right.le
  omega

/-- The address after a block is the address of the next one, or the end. -/
theorem Contiguous.next_addr {front back : List Entry} {entry : Entry}
    (tiles : Contiguous gap start (front ++ entry :: back) stop) :
    (back.map Entry.addr).headD stop = entry.addr + gap + entry.size := by
  obtain ⟨middle, _, addrEq, right⟩ := contiguous_append.mp tiles
  cases back with
  | nil =>
      have ends : middle + gap + entry.size = stop := right
      simp only [List.map_nil, List.headD_nil]
      omega
  | cons next rest =>
      have starts := right.1
      simp only [List.map_cons, List.headD_cons]
      omega

/-- Distinct blocks do not overlap: one ends before the other starts. -/
theorem Contiguous.pairwise {entries : List Entry}
    (tiles : Contiguous gap start entries stop) :
    entries.Pairwise fun left right => left.addr + gap + left.size ≤ right.addr := by
  induction entries generalizing start with
  | nil => exact List.Pairwise.nil
  | cons entry rest ih =>
      obtain ⟨addrEq, tail⟩ := tiles
      refine List.Pairwise.cons ?_ (ih tail)
      intro other member
      have bounds := tail.bounds member
      omega

theorem Contiguous.disjoint {entries : List Entry} {first second : Entry}
    (tiles : Contiguous gap start entries stop)
    (firstMem : first ∈ entries) (secondMem : second ∈ entries) :
    first = second ∨ first.addr + gap + first.size ≤ second.addr ∨
      second.addr + gap + second.size ≤ first.addr := by
  obtain ⟨front, back, rfl⟩ := List.append_of_mem firstMem
  have ordered := List.pairwise_append.mp tiles.pairwise
  have behind := List.pairwise_cons.mp ordered.2.1
  rcases List.mem_append.mp secondMem with inFront | inBack
  · exact Or.inr (Or.inr (ordered.2.2 second inFront first List.mem_cons_self))
  · rcases List.mem_cons.mp inBack with equal | inBack
    · exact Or.inl equal.symm
    · exact Or.inr (Or.inl (behind.1 second inBack))

/-- With a positive gap a block is determined by its address. -/
theorem Contiguous.eq_of_addr_eq {entries : List Entry} {first second : Entry}
    (positive : 0 < gap) (tiles : Contiguous gap start entries stop)
    (firstMem : first ∈ entries) (secondMem : second ∈ entries)
    (addrEq : first.addr = second.addr) : first = second := by
  rcases tiles.disjoint firstMem secondMem with equal | before | after
  · exact equal
  · omega
  · omega

/-- Where the addresses are whole units, so are the sizes. -/
theorem Contiguous.dvd_size {unit : Nat} {entries : List Entry} {entry : Entry}
    (tiles : Contiguous gap start entries stop) (gapUnit : unit ∣ gap) (stopUnit : unit ∣ stop)
    (addrUnit : ∀ x ∈ entries, unit ∣ x.addr) (member : entry ∈ entries) : unit ∣ entry.size := by
  obtain ⟨front, back, rfl⟩ := List.append_of_mem member
  have behind : unit ∣ entry.addr + gap + entry.size := by
    rw [← tiles.next_addr]
    cases back with
    | nil => exact stopUnit
    | cons next rest => exact addrUnit next (by simp)
  exact (Nat.dvd_add_right (Nat.dvd_add (addrUnit entry member) gapUnit)).mp behind

/-! ## Granting -/

/-- The block is free and its payload is large enough. -/
def Fits (need : Nat) (entry : Entry) : Prop :=
  entry.busy = false ∧ need ≤ entry.size

instance (need : Nat) (entry : Entry) : Decidable (Fits need entry) :=
  inferInstanceAs (Decidable (_ ∧ _))

/-- Grant `length` bytes of a block: split off the rest when a gap and more
is left, otherwise grant all of it. -/
def grantEntry (gap length : Nat) (entry : Entry) : List Entry :=
  if length + gap < entry.size then
    [⟨entry.addr, length, true⟩,
      ⟨entry.addr + gap + length, entry.size - (length + gap), false⟩]
  else
    [⟨entry.addr, entry.size, true⟩]

/-- First fit: the chosen block and the list after granting from it. -/
def grant (gap need length : Nat) : List Entry → Option (Entry × List Entry)
  | [] => none
  | entry :: rest =>
      if Fits need entry then some (entry, grantEntry gap length entry ++ rest)
      else (grant gap need length rest).map fun found => (found.1, entry :: found.2)

/-- The block that first fit chooses. -/
def firstFit (need : Nat) (entries : List Entry) : Option Entry :=
  entries.find? fun entry => decide (Fits need entry)

theorem firstFit_of_split {need : Nat} {front back : List Entry} {entry : Entry}
    (skipped : ∀ x ∈ front, ¬Fits need x) (fits : Fits need entry) :
    firstFit need (front ++ entry :: back) = some entry := by
  refine List.find?_eq_some_iff_append.mpr ⟨decide_eq_true fits, front, back, rfl, ?_⟩
  intro x member
  simp [skipped x member]

theorem firstFit_eq_none_iff {need : Nat} {entries : List Entry} :
    firstFit need entries = none ↔ ∀ x ∈ entries, ¬Fits need x := by
  simp [firstFit]

/-- No block fits exactly when first fit fails. -/
theorem grant_eq_none_iff {need length : Nat} {entries : List Entry} :
    grant gap need length entries = none ↔ ∀ entry ∈ entries, ¬Fits need entry := by
  induction entries with
  | nil => simp [grant]
  | cons entry rest ih =>
      by_cases fits : Fits need entry
      · simp [grant, fits]
      · simp [grant, fits, ih]

/-- First fit takes the first block that fits and rewrites it in place. -/
theorem grant_eq_some_iff {need length : Nat} {entries after : List Entry} {chosen : Entry} :
    grant gap need length entries = some (chosen, after) ↔
      ∃ front back, entries = front ++ chosen :: back ∧ (∀ entry ∈ front, ¬Fits need entry) ∧
        Fits need chosen ∧ after = front ++ grantEntry gap length chosen ++ back := by
  induction entries generalizing after with
  | nil => simp [grant]
  | cons entry rest ih =>
      by_cases fits : Fits need entry
      · simp only [grant, fits, if_true, Option.some.injEq, Prod.mk.injEq]
        constructor
        · rintro ⟨rfl, rfl⟩
          exact ⟨[], rest, rfl, by simp, fits, rfl⟩
        · rintro ⟨front, back, split, unfit, _, rfl⟩
          cases front with
          | nil =>
              cases split
              exact ⟨rfl, rfl⟩
          | cons other front =>
              cases split
              exact absurd fits (unfit entry List.mem_cons_self)
      · simp only [grant, fits, if_false, Option.map_eq_some_iff, Prod.mk.injEq, Prod.exists]
        constructor
        · rintro ⟨found, foundAfter, granted, rfl, rfl⟩
          obtain ⟨front, back, rfl, unfit, foundFits, rfl⟩ := ih.mp granted
          refine ⟨entry :: front, back, rfl, ?_, foundFits, rfl⟩
          intro other member
          rcases List.mem_cons.mp member with rfl | member
          · exact fits
          · exact unfit other member
        · rintro ⟨front, back, split, unfit, chosenFits, rfl⟩
          cases front with
          | nil =>
              cases split
              exact absurd chosenFits fits
          | cons other front =>
              cases split
              refine ⟨chosen, front ++ grantEntry gap length chosen ++ back, ?_, rfl, rfl⟩
              exact ih.mpr ⟨front, back, rfl,
                fun x member => unfit x (List.mem_cons_of_mem _ member), chosenFits, rfl⟩

/-- Granting from one block keeps the tiling. -/
theorem Contiguous.grantEntry {front back : List Entry} {entry : Entry} (length : Nat)
    (tiles : Contiguous gap start (front ++ entry :: back) stop) :
    Contiguous gap start (front ++ Tiling.grantEntry gap length entry ++ back) stop := by
  rw [List.append_assoc]
  obtain ⟨middle, left, addrEq, right⟩ := contiguous_append.mp tiles
  refine contiguous_append.mpr ⟨middle, left, ?_⟩
  by_cases split : length + gap < entry.size
  · rw [Tiling.grantEntry, if_pos split]
    have rest : middle + gap + length + gap + (entry.size - (length + gap)) =
        middle + gap + entry.size := by omega
    refine ⟨addrEq, by simp only; omega, ?_⟩
    rw [rest]
    exact right
  · rw [Tiling.grantEntry, if_neg split]
    exact ⟨addrEq, right⟩

/-- Granting from a free block of a coalesced list leaves it coalesced: both
neighbours of a free block are in use. -/
theorem Coalesced.grantEntry {front back : List Entry} {entry : Entry} (length : Nat)
    (coalesced : Coalesced (front ++ entry :: back)) (free : entry.busy = false) :
    Coalesced (front ++ Tiling.grantEntry gap length entry ++ back) := by
  have granted : ∀ x : Entry, x.busy = true → Coalesced (front ++ x :: back) := by
    intro x busy
    unfold Coalesced at coalesced ⊢
    rw [List.isChain_append] at coalesced ⊢
    obtain ⟨left, right, seam⟩ := coalesced
    refine ⟨left, ?_, ?_⟩
    · cases back with
      | nil => simp
      | cons next rest =>
          rw [List.isChain_cons_cons] at right ⊢
          exact ⟨Or.inl busy, right.2⟩
    · intro x' _ y yHead
      cases yHead
      exact Or.inr busy
  by_cases split : length + gap < entry.size
  · rw [Tiling.grantEntry, if_pos split, List.append_assoc]
    have base := granted ⟨entry.addr, length, true⟩ rfl
    unfold Coalesced at base coalesced ⊢
    rw [List.isChain_append] at base ⊢
    refine ⟨base.1, ?_, base.2.2⟩
    simp only [List.cons_append, List.nil_append, List.isChain_cons_cons, true_or, true_and]
    have right := (List.isChain_append.mp coalesced).2.1
    cases back with
    | nil => simp
    | cons next rest =>
        rw [List.isChain_cons_cons] at right ⊢
        exact ⟨right.1.imp (fun busy => by simp [free] at busy) id, right.2⟩
  · rw [Tiling.grantEntry, if_neg split, List.append_assoc]
    exact granted ⟨entry.addr, entry.size, true⟩ rfl

/-- Granting a whole number of units keeps the alignment. -/
theorem Aligned.grantEntry {unit length : Nat} {front back : List Entry} {entry : Entry}
    (aligned : Aligned unit (front ++ entry :: back)) (gapUnit : unit ∣ gap)
    (lengthUnit : unit ∣ length) (positive : 0 < length) :
    Aligned unit (front ++ Tiling.grantEntry gap length entry ++ back) := by
  obtain ⟨addrUnit, sizeUnit, sizePos⟩ := aligned entry (by simp)
  intro x member
  simp only [List.append_assoc, List.mem_append] at member
  rcases member with inFront | inMiddle | inBack
  · exact aligned x (by simp [inFront])
  · by_cases split : length + gap < entry.size
    · simp only [Tiling.grantEntry, split, if_true, List.mem_cons, List.not_mem_nil,
        or_false] at inMiddle
      rcases inMiddle with rfl | rfl
      · exact ⟨addrUnit, lengthUnit, positive⟩
      · refine ⟨?_, ?_, by simp only; omega⟩
        · exact Nat.dvd_add (Nat.dvd_add addrUnit gapUnit) lengthUnit
        · exact Nat.dvd_sub sizeUnit (Nat.dvd_add lengthUnit gapUnit)
    · simp only [Tiling.grantEntry, split, if_false, List.mem_singleton] at inMiddle
      subst inMiddle
      exact ⟨addrUnit, sizeUnit, sizePos⟩
  · exact aligned x (by simp [inBack])

theorem Inside.grantEntry {front back : List Entry} {entry : Entry} (length : Nat)
    (inside : Inside gap stop (front ++ entry :: back))
    (tiles : Contiguous gap start (front ++ entry :: back) stop) :
    Inside gap stop (front ++ Tiling.grantEntry gap length entry ++ back) := by
  have entryInside := inside entry (by simp)
  have bounds := tiles.bounds (List.mem_append_right front List.mem_cons_self)
  intro x member
  rw [List.append_assoc, List.mem_append, List.mem_append] at member
  rcases member with inFront | inGranted | inBack
  · exact inside x (by simp [inFront])
  · unfold Tiling.grantEntry at inGranted
    split at inGranted
    · simp only [List.mem_cons, List.not_mem_nil, or_false] at inGranted
      rcases inGranted with rfl | rfl
      · exact entryInside
      · simp only
        omega
    · rw [List.mem_singleton.mp inGranted]
      exact entryInside
  · exact inside x (by simp [inBack])

/-- A grant adds one block in use. -/
theorem busyCount_grantEntry (length : Nat) (front back : List Entry) {entry : Entry}
    (free : entry.busy = false) :
    busyCount (front ++ grantEntry gap length entry ++ back) =
      busyCount (front ++ entry :: back) + 1 := by
  unfold busyCount grantEntry
  split <;> simp [List.countP_append, free] <;> omega

/-! ## Releasing -/

/-- A free block takes over the block behind it when that one is free too. -/
def absorb (gap : Nat) (entry : Entry) : List Entry → List Entry
  | [] => [entry]
  | next :: rest =>
      if next.busy then entry :: next :: rest
      else ⟨entry.addr, entry.size + (next.size + gap), entry.busy⟩ :: rest

/-- The block marked as free. -/
def Entry.freed (entry : Entry) : Entry := { entry with busy := false }

/-- Release the block at an address: mark it free, merge it with a free right
neighbour, then with a free left neighbour. -/
def release (gap addr : Nat) : List Entry → List Entry
  | [] => []
  | entry :: rest =>
      if entry.addr = addr then absorb gap entry.freed rest
      else
        match rest with
        | [] => [entry]
        | next :: tail =>
            if next.addr = addr ∧ entry.busy = false then
              absorb gap entry (absorb gap next.freed tail)
            else
              entry :: release gap addr rest

@[simp]
theorem Entry.freed_addr (entry : Entry) : entry.freed.addr = entry.addr :=
  rfl

@[simp]
theorem Entry.freed_size (entry : Entry) : entry.freed.size = entry.size :=
  rfl

@[simp]
theorem Entry.freed_busy (entry : Entry) : entry.freed.busy = false :=
  rfl

/-- Release behind a block in use, or at the start of the list. -/
theorem release_of_busy_before {addr : Nat} {front back : List Entry} {entry : Entry}
    (addrEq : entry.addr = addr) (first : ∀ x ∈ front, x.addr ≠ addr)
    (before : ∀ x ∈ front.getLast?, x.busy = true) :
    release gap addr (front ++ entry :: back) = front ++ absorb gap entry.freed back := by
  induction front with
  | nil => simp [release, addrEq]
  | cons x rest ih =>
      have skip : x.addr ≠ addr := first x List.mem_cons_self
      have tail := ih (fun y member => first y (List.mem_cons_of_mem _ member))
      cases rest with
      | nil =>
          have busy : x.busy = true := before x rfl
          rw [List.nil_append, List.nil_append] at tail
          simp [release, skip, busy, addrEq]
      | cons y rest =>
          have skipNext : y.addr ≠ addr :=
            first y (List.mem_cons_of_mem _ List.mem_cons_self)
          have rest := tail (by simpa using before)
          simp only [List.cons_append] at rest ⊢
          rw [release, if_neg skip]
          simp only [skipNext, false_and, if_false, rest]

/-- Release behind a free block, which takes everything over. -/
theorem release_of_free_before {addr : Nat} {front back : List Entry} {left entry : Entry}
    (addrEq : entry.addr = addr) (first : ∀ x ∈ front ++ [left], x.addr ≠ addr)
    (free : left.busy = false) :
    release gap addr (front ++ left :: entry :: back) =
      front ++ absorb gap left (absorb gap entry.freed back) := by
  induction front with
  | nil =>
      have skip : left.addr ≠ addr := first left (by simp)
      simp [release, skip, addrEq, free]
  | cons x rest ih =>
      have skip : x.addr ≠ addr := first x (by simp)
      have tail := ih (fun y member => first y (List.mem_cons_of_mem _ member))
      cases rest with
      | nil =>
          have skipLeft : left.addr ≠ addr := first left (by simp)
          simp only [List.nil_append, List.cons_append] at tail ⊢
          rw [release, if_neg skip]
          simp only [skipLeft, false_and, if_false, tail]
      | cons y rest =>
          have skipNext : y.addr ≠ addr := first y (by simp)
          simp only [List.cons_append] at tail ⊢
          rw [release, if_neg skip]
          simp only [skipNext, false_and, if_false, tail]

theorem Contiguous.freed {front back : List Entry} {entry : Entry}
    (tiles : Contiguous gap start (front ++ entry :: back) stop) :
    Contiguous gap start (front ++ entry.freed :: back) stop := by
  obtain ⟨middle, left, addrEq, right⟩ := contiguous_append.mp tiles
  exact contiguous_append.mpr ⟨middle, left, addrEq, right⟩

theorem Contiguous.absorb {front back : List Entry} {entry : Entry}
    (tiles : Contiguous gap start (front ++ entry :: back) stop) :
    Contiguous gap start (front ++ Tiling.absorb gap entry back) stop := by
  cases back with
  | nil => exact tiles
  | cons next rest =>
      by_cases busy : next.busy = true
      · rw [Tiling.absorb, if_pos busy]
        exact tiles
      · rw [Tiling.absorb, if_neg busy]
        obtain ⟨middle, left, addrEq, nextEq, right⟩ := contiguous_append.mp tiles
        refine contiguous_append.mpr ⟨middle, left, addrEq, ?_⟩
        have total : middle + gap + (entry.size + (next.size + gap)) =
            middle + gap + entry.size + gap + next.size := by omega
        rw [total]
        exact right

theorem busyCount_absorb (entry : Entry) (back : List Entry) :
    busyCount (absorb gap entry back) = busyCount (entry :: back) := by
  cases back with
  | nil => rfl
  | cons next rest =>
      by_cases busy : next.busy = true
      · rw [absorb, if_pos busy]
      · simp only [Bool.not_eq_true] at busy
        simp [absorb, busyCount, busy, List.countP_cons]

theorem Aligned.freed {unit : Nat} {front back : List Entry} {entry : Entry}
    (aligned : Aligned unit (front ++ entry :: back)) :
    Aligned unit (front ++ entry.freed :: back) := by
  intro x member
  rcases List.mem_append.mp member with inFront | inBack
  · exact aligned x (by simp [inFront])
  · rcases List.mem_cons.mp inBack with rfl | inBack
    · exact aligned entry (by simp)
    · exact aligned x (by simp [inBack])

theorem Aligned.absorb {unit : Nat} {front back : List Entry} {entry : Entry}
    (aligned : Aligned unit (front ++ entry :: back)) (gapUnit : unit ∣ gap) :
    Aligned unit (front ++ Tiling.absorb gap entry back) := by
  cases back with
  | nil => exact aligned
  | cons next rest =>
      by_cases busy : next.busy = true
      · rw [Tiling.absorb, if_pos busy]
        exact aligned
      · rw [Tiling.absorb, if_neg busy]
        intro x member
        rcases List.mem_append.mp member with inFront | inBack
        · exact aligned x (by simp [inFront])
        · rcases List.mem_cons.mp inBack with rfl | inBack
          · obtain ⟨addrUnit, sizeUnit, sizePos⟩ := aligned entry (by simp)
            obtain ⟨_, nextUnit, _⟩ := aligned next (by simp)
            exact ⟨addrUnit, Nat.dvd_add sizeUnit (Nat.dvd_add nextUnit gapUnit),
              by simp only; omega⟩
          · exact aligned x (by simp [inBack])

/-- Absorbing keeps the address and the use of the block in front. -/
theorem exists_absorb_eq (gap : Nat) (entry : Entry) (back : List Entry) :
    ∃ size rest, absorb gap entry back = ⟨entry.addr, size, entry.busy⟩ :: rest := by
  cases back with
  | nil => exact ⟨entry.size, [], rfl⟩
  | cons next rest =>
      by_cases busy : next.busy = true
      · exact ⟨entry.size, next :: rest, by rw [absorb, if_pos busy]⟩
      · exact ⟨_, rest, by rw [absorb, if_neg busy]⟩

/-- A free block that has absorbed its right neighbour is followed by a block
in use, if by any. -/
theorem absorb_free {entry : Entry} {back : List Entry} (free : entry.busy = false)
    (coalesced : Coalesced back) :
    ∃ size rest, absorb gap entry back = ⟨entry.addr, size, false⟩ :: rest ∧
      Coalesced rest ∧ ∀ next ∈ rest.head?, next.busy = true := by
  cases back with
  | nil => exact ⟨entry.size, [], by simp [absorb, ← free], by simp [Coalesced], by simp⟩
  | cons next rest =>
      by_cases busy : next.busy = true
      · refine ⟨entry.size, next :: rest, by simp [absorb, busy, ← free], coalesced, ?_⟩
        simpa using busy
      · simp only [Bool.not_eq_true] at busy
        refine ⟨entry.size + (next.size + gap), rest, by simp [absorb, busy, free],
          (List.isChain_cons.mp coalesced).2, ?_⟩
        intro after head
        have either := (List.isChain_cons.mp coalesced).1 after head
        simpa [busy] using either

private theorem coalesced_free_between {front rest : List Entry} {free : Entry}
    (left : Coalesced front) (right : Coalesced rest)
    (before : ∀ x ∈ front.getLast?, x.busy = true)
    (after : ∀ x ∈ rest.head?, x.busy = true) :
    Coalesced (front ++ free :: rest) := by
  refine List.isChain_append.mpr ⟨left, List.isChain_cons.mpr ⟨?_, right⟩, ?_⟩
  · exact fun y head => Or.inr (after y head)
  · exact fun x last y _ => Or.inl (before x last)

/-- Release behind a block in use keeps the list coalesced. -/
theorem Coalesced.release_busy {front back : List Entry} {entry : Entry}
    (coalesced : Coalesced (front ++ entry :: back))
    (before : ∀ x ∈ front.getLast?, x.busy = true) :
    Coalesced (front ++ Tiling.absorb gap entry.freed back) := by
  obtain ⟨left, right, _⟩ := List.isChain_append.mp coalesced
  obtain ⟨size, rest, shape, restChain, after⟩ :=
    @absorb_free gap _ _ entry.freed_busy (List.isChain_cons.mp right).2
  rw [shape]
  exact coalesced_free_between left restChain before after

/-- Release behind a free block keeps the list coalesced. -/
theorem Coalesced.release_free {front back : List Entry} {left entry : Entry}
    (coalesced : Coalesced (front ++ left :: entry :: back)) (free : left.busy = false) :
    Coalesced (front ++ Tiling.absorb gap left (Tiling.absorb gap entry.freed back)) := by
  obtain ⟨frontChain, right, seam⟩ := List.isChain_append.mp coalesced
  have backChain : Coalesced back := (List.isChain_cons.mp (List.isChain_cons.mp right).2).2
  obtain ⟨size, rest, shape, restChain, after⟩ :=
    @absorb_free gap _ _ entry.freed_busy backChain
  have merged : Tiling.absorb gap left (⟨entry.freed.addr, size, false⟩ :: rest) =
      ⟨left.addr, left.size + (size + gap), left.busy⟩ :: rest := by
    simp [Tiling.absorb]
  rw [shape, merged]
  refine coalesced_free_between frontChain restChain ?_ after
  intro x last
  simpa [free] using seam x last left rfl

/-- A coalesced list without blocks in use has at most one block. -/
theorem Coalesced.length_le_one {entries : List Entry} (coalesced : Coalesced entries)
    (none : busyCount entries = 0) : entries.length ≤ 1 := by
  cases entries with
  | nil => simp
  | cons first rest =>
      cases rest with
      | nil => simp
      | cons second rest =>
          have either := (List.isChain_cons_cons.mp coalesced).1
          simp only [busyCount, List.countP_eq_zero] at none
          have firstFree := none first (by simp)
          have secondFree := none second (by simp)
          exact absurd either (by simp_all)

/-- In a tiling no block before another one has its address. -/
theorem Contiguous.addr_ne_of_before {front back : List Entry} {entry x : Entry}
    (positive : 0 < gap) (tiles : Contiguous gap start (front ++ entry :: back) stop)
    (member : x ∈ front) : x.addr ≠ entry.addr := by
  have ordered := (List.pairwise_append.mp tiles.pairwise).2.2 x member entry List.mem_cons_self
  omega

/-- The two shapes of a release: behind a block in use or at the start, and
behind a free block. -/
theorem release_cases {front back : List Entry} {entry : Entry} (positive : 0 < gap)
    (tiles : Contiguous gap start (front ++ entry :: back) stop) :
    ((∀ x ∈ front.getLast?, x.busy = true) ∧
        release gap entry.addr (front ++ entry :: back) =
          front ++ absorb gap entry.freed back) ∨
      ∃ front' left, front = front' ++ [left] ∧ left.busy = false ∧
        release gap entry.addr (front ++ entry :: back) =
          front' ++ absorb gap left (absorb gap entry.freed back) := by
  have first : ∀ x ∈ front, x.addr ≠ entry.addr :=
    fun x member => tiles.addr_ne_of_before positive member
  rcases List.eq_nil_or_concat front with rfl | ⟨front', left, rfl⟩
  · exact Or.inl ⟨by simp, release_of_busy_before rfl first (by simp)⟩
  · simp only [List.concat_eq_append] at first ⊢
    cases free : left.busy with
    | true =>
        refine Or.inl ⟨by simpa using free, ?_⟩
        exact release_of_busy_before rfl first (by simpa using free)
    | false =>
        refine Or.inr ⟨front', left, rfl, free, ?_⟩
        simpa using @release_of_free_before gap _ _ back _ entry rfl first free

/-- The block in front of the one at an address. -/
def leftOf (addr : Nat) : List Entry → Option Entry
  | [] => none
  | [_] => none
  | left :: entry :: rest =>
      if entry.addr = addr then some left else leftOf addr (entry :: rest)

/-- In a tiling the block in front of another one is the last before it. -/
theorem leftOf_eq {front back : List Entry} {entry : Entry} (positive : 0 < gap)
    (tiles : Contiguous gap start (front ++ entry :: back) stop) :
    leftOf entry.addr (front ++ entry :: back) = front.getLast? := by
  induction front generalizing start with
  | nil =>
      have behind : ∀ x ∈ back, x.addr ≠ entry.addr := by
        intro x member
        have ordered := List.rel_of_pairwise_cons tiles.pairwise member
        omega
      have none : ∀ (first : Entry) (rest : List Entry),
          (∀ x ∈ rest, x.addr ≠ entry.addr) → leftOf entry.addr (first :: rest) = none := by
        intro first rest missing
        induction rest generalizing first with
        | nil => rfl
        | cons second rest ih =>
            rw [leftOf, if_neg (missing second List.mem_cons_self)]
            exact ih second fun x member => missing x (List.mem_cons_of_mem _ member)
      exact none entry back behind
  | cons first front ih =>
      cases front with
      | nil =>
          rw [List.singleton_append, leftOf, if_pos rfl]
          rfl
      | cons second front =>
          have ne : second.addr ≠ entry.addr :=
            tiles.addr_ne_of_before positive (by simp)
          have tail := ih tiles.2
          rw [List.cons_append, List.cons_append, leftOf, if_neg ne]
          rw [List.cons_append] at tail
          rw [tail, List.getLast?_cons_cons]

private theorem Contiguous.absorb_twice {front back : List Entry} {left entry : Entry}
    (tiles : Contiguous gap start (front ++ left :: entry :: back) stop) :
    Contiguous gap start (front ++ Tiling.absorb gap left (Tiling.absorb gap entry.freed back))
      stop := by
  have freed : Contiguous gap start ((front ++ [left]) ++ entry.freed :: back) stop :=
    Contiguous.freed (by simpa using tiles)
  have merged := freed.absorb
  rw [List.append_assoc] at merged
  exact Contiguous.absorb merged

/-- Release keeps the tiling. -/
theorem Contiguous.release {front back : List Entry} {entry : Entry} (positive : 0 < gap)
    (tiles : Contiguous gap start (front ++ entry :: back) stop) :
    Contiguous gap start (Tiling.release gap entry.addr (front ++ entry :: back)) stop := by
  rcases release_cases positive tiles with ⟨_, shape⟩ | ⟨front', left, rfl, _, shape⟩
  · rw [shape]
    exact tiles.freed.absorb
  · rw [shape]
    exact Contiguous.absorb_twice (by simpa using tiles)

/-- Release keeps the list coalesced. -/
theorem Coalesced.release {front back : List Entry} {entry : Entry} (positive : 0 < gap)
    (tiles : Contiguous gap start (front ++ entry :: back) stop)
    (coalesced : Coalesced (front ++ entry :: back)) :
    Coalesced (Tiling.release gap entry.addr (front ++ entry :: back)) := by
  rcases release_cases positive tiles with ⟨before, shape⟩ | ⟨front', left, rfl, free, shape⟩
  · rw [shape]
    exact coalesced.release_busy before
  · rw [shape]
    exact Coalesced.release_free (by simpa using coalesced) free

/-- Release keeps the alignment. -/
theorem Aligned.release {unit : Nat} {front back : List Entry} {entry : Entry}
    (positive : 0 < gap) (gapUnit : unit ∣ gap)
    (tiles : Contiguous gap start (front ++ entry :: back) stop)
    (aligned : Aligned unit (front ++ entry :: back)) :
    Aligned unit (Tiling.release gap entry.addr (front ++ entry :: back)) := by
  rcases release_cases positive tiles with ⟨_, shape⟩ | ⟨front', left, rfl, _, shape⟩
  · rw [shape]
    exact aligned.freed.absorb gapUnit
  · rw [shape]
    have merged := aligned.freed.absorb gapUnit
    rw [List.append_assoc] at merged
    exact Aligned.absorb merged gapUnit

/-- Absorbing makes no new block addresses. -/
theorem exists_addr_eq_of_mem_absorb {entry x : Entry} {back : List Entry}
    (member : x ∈ absorb gap entry back) : ∃ y ∈ entry :: back, y.addr = x.addr := by
  cases back with
  | nil => exact ⟨x, member, rfl⟩
  | cons next rest =>
      rw [absorb] at member
      split at member
      · exact ⟨x, member, rfl⟩
      · rcases List.mem_cons.mp member with rfl | inRest
        · exact ⟨entry, List.mem_cons_self, rfl⟩
        · exact ⟨x, by simp [inRest], rfl⟩

/-- Release makes no new block addresses. -/
theorem exists_addr_eq_of_mem_release {front back : List Entry} {entry x : Entry}
    (positive : 0 < gap) (tiles : Contiguous gap start (front ++ entry :: back) stop)
    (member : x ∈ release gap entry.addr (front ++ entry :: back)) :
    ∃ y ∈ front ++ entry :: back, y.addr = x.addr := by
  have behind : ∀ z ∈ absorb gap entry.freed back,
      ∃ y ∈ entry :: back, y.addr = z.addr := by
    intro z inner
    obtain ⟨y, yMem, addrEq⟩ := exists_addr_eq_of_mem_absorb inner
    rcases List.mem_cons.mp yMem with rfl | inBack
    · exact ⟨entry, List.mem_cons_self, addrEq⟩
    · exact ⟨y, List.mem_cons_of_mem _ inBack, addrEq⟩
  rcases release_cases positive tiles with ⟨_, shape⟩ | ⟨front', left, rfl, _, shape⟩
  · rw [shape, List.mem_append] at member
    rcases member with inFront | inner
    · exact ⟨x, List.mem_append_left _ inFront, rfl⟩
    · obtain ⟨y, yMem, addrEq⟩ := behind x inner
      exact ⟨y, List.mem_append_right _ yMem, addrEq⟩
  · rw [shape, List.mem_append] at member
    rcases member with inFront | outer
    · exact ⟨x, by simp [inFront], rfl⟩
    · obtain ⟨y, yMem, addrEq⟩ := exists_addr_eq_of_mem_absorb outer
      rcases List.mem_cons.mp yMem with rfl | inner
      · exact ⟨y, by simp, addrEq⟩
      · obtain ⟨z, zMem, zEq⟩ := behind y inner
        exact ⟨z, List.mem_append_right _ zMem, zEq.trans addrEq⟩

/-- Released behind a block in use, the header stays in the list. -/
theorem exists_mem_release {front back : List Entry} {entry : Entry} (positive : 0 < gap)
    (tiles : Contiguous gap start (front ++ entry :: back) stop)
    (before : ∀ x ∈ front.getLast?, x.busy = true) :
    ∃ x ∈ release gap entry.addr (front ++ entry :: back), x.addr = entry.addr := by
  have first : ∀ x ∈ front, x.addr ≠ entry.addr :=
    fun x member => tiles.addr_ne_of_before positive member
  obtain ⟨size, rest, shape⟩ := exists_absorb_eq gap entry.freed back
  rw [release_of_busy_before rfl first before, shape]
  exact ⟨_, List.mem_append_right _ List.mem_cons_self, rfl⟩

/-- Released behind a free block, the header is taken over. -/
theorem addr_ne_of_mem_release {front back : List Entry} {left entry x : Entry}
    (positive : 0 < gap)
    (tiles : Contiguous gap start (front ++ left :: entry :: back) stop)
    (free : left.busy = false)
    (member : x ∈ release gap entry.addr (front ++ left :: entry :: back)) :
    x.addr ≠ entry.addr := by
  have shifted : Contiguous gap start ((front ++ [left]) ++ entry :: back) stop := by
    simpa using tiles
  have first : ∀ y ∈ front ++ [left], y.addr ≠ entry.addr :=
    fun y inFront => shifted.addr_ne_of_before positive inFront
  have behind : ∀ y ∈ back, y.addr ≠ entry.addr := by
    intro y inBack
    have ordered := List.rel_of_pairwise_cons
      (List.pairwise_append.mp shifted.pairwise).2.1 inBack
    omega
  obtain ⟨size, rest, shape⟩ := exists_absorb_eq gap entry.freed back
  have restMem : ∀ y ∈ rest, y.addr ≠ entry.addr := by
    intro y inRest
    cases back with
    | nil =>
        simp only [absorb, List.cons.injEq] at shape
        rw [← shape.2] at inRest
        exact absurd inRest List.not_mem_nil
    | cons next tail =>
        by_cases busy : next.busy = true
        · rw [absorb, if_pos busy] at shape
          obtain ⟨_, rfl⟩ := List.cons.inj shape
          exact behind y inRest
        · rw [absorb, if_neg busy] at shape
          obtain ⟨_, rfl⟩ := List.cons.inj shape
          exact behind y (List.mem_cons_of_mem _ inRest)
  rw [release_of_free_before rfl first free, shape, absorb, if_neg (by simp)] at member
  rcases List.mem_append.mp member with inFront | inBack
  · exact first x (List.mem_append_left _ inFront)
  · rcases List.mem_cons.mp inBack with rfl | inRest
    · exact first left (by simp)
    · exact restMem x inRest

/-- Release keeps every payload inside. -/
theorem Inside.release {front back : List Entry} {entry : Entry} (positive : 0 < gap)
    (tiles : Contiguous gap start (front ++ entry :: back) stop)
    (inside : Inside gap stop (front ++ entry :: back)) :
    Inside gap stop (Tiling.release gap entry.addr (front ++ entry :: back)) := by
  intro x member
  obtain ⟨y, yMem, addrEq⟩ := exists_addr_eq_of_mem_release positive tiles member
  exact addrEq ▸ inside y yMem

/-- Release of a block in use takes one off their number. -/
theorem busyCount_release {front back : List Entry} {entry : Entry} (positive : 0 < gap)
    (tiles : Contiguous gap start (front ++ entry :: back) stop)
    (busy : entry.busy = true) :
    busyCount (Tiling.release gap entry.addr (front ++ entry :: back)) + 1 =
      busyCount (front ++ entry :: back) := by
  have total : ∀ left right, busyCount (left ++ right) = busyCount left + busyCount right :=
    fun left right => List.countP_append
  rcases release_cases positive tiles with ⟨_, shape⟩ | ⟨front', left, rfl, free, shape⟩
  · rw [shape, total, total, busyCount_absorb]
    simp [busyCount, busy]
    omega
  · rw [shape, total, total, total, busyCount_absorb]
    have inner := @busyCount_absorb gap entry.freed back
    simp only [busyCount, List.countP_cons, List.countP_nil, busy, free, Entry.freed_busy,
      Bool.false_eq_true, if_true, if_false] at inner ⊢
    omega

/-- After a release some block is free. -/
theorem exists_free_of_release {front back : List Entry} {entry : Entry} (positive : 0 < gap)
    (tiles : Contiguous gap start (front ++ entry :: back) stop)
    (coalesced : Coalesced (front ++ entry :: back)) :
    ∃ x ∈ Tiling.release gap entry.addr (front ++ entry :: back), x.busy = false := by
  rcases release_cases positive tiles with ⟨_, shape⟩ | ⟨front', left, rfl, free, shape⟩
  · have backChain := (List.isChain_cons.mp (List.isChain_append.mp coalesced).2.1).2
    obtain ⟨size, rest, inner, _⟩ := @absorb_free gap _ _ entry.freed_busy backChain
    rw [shape, inner]
    exact ⟨_, List.mem_append_right _ List.mem_cons_self, rfl⟩
  · rw [shape]
    cases Tiling.absorb gap entry.freed back with
    | nil => exact ⟨left, by simp [Tiling.absorb], free⟩
    | cons next rest =>
        by_cases nextBusy : next.busy = true
        · exact ⟨left, by simp [Tiling.absorb, nextBusy], free⟩
        · refine ⟨⟨left.addr, left.size + (next.size + gap), left.busy⟩, ?_, free⟩
          rw [Tiling.absorb, if_neg nextBusy]
          exact List.mem_append_right _ List.mem_cons_self

/-! ## Blocks in use -/

/-- The block that a grant takes into use. -/
def grantedEntry (gap length : Nat) (entry : Entry) : Entry :=
  ⟨entry.addr, if length + gap < entry.size then length else entry.size, true⟩

/-- A block that is split leaves the rest behind the granted one. -/
theorem grantEntry_eq_of_lt {length : Nat} {entry : Entry} (left : length + gap < entry.size) :
    grantEntry gap length entry = [grantedEntry gap length entry,
      ⟨entry.addr + gap + length, entry.size - (length + gap), false⟩] := by
  rw [grantEntry, if_pos left, grantedEntry, if_pos left]

/-- A grant takes one block into use and leaves all others in use as they
are. -/
theorem mem_grantEntry_busy {length : Nat} {front back : List Entry} {entry x : Entry}
    (free : entry.busy = false) (busy : x.busy = true) :
    x ∈ front ++ grantEntry gap length entry ++ back ↔
      x ∈ front ++ entry :: back ∨ x = grantedEntry gap length entry := by
  have ne : x ≠ entry := by
    rintro rfl
    rw [free] at busy
    cases busy
  have granted : x ∈ grantEntry gap length entry ↔ x = grantedEntry gap length entry := by
    unfold grantEntry grantedEntry
    split
    · have rest : x ≠ ⟨entry.addr + gap + length, entry.size - (length + gap), false⟩ := by
        rintro rfl
        cases busy
      simp [rest]
    · simp
  simp only [List.append_assoc, List.mem_append, List.mem_cons, granted, ne, false_or]
  constructor
  · rintro (inFront | same | inBack)
    · exact Or.inl (Or.inl inFront)
    · exact Or.inr same
    · exact Or.inl (Or.inr inBack)
  · rintro ((inFront | inBack) | same)
    · exact Or.inl inFront
    · exact Or.inr (Or.inr inBack)
    · exact Or.inr (Or.inl same)

/-- Absorbing concerns free blocks only. -/
theorem mem_absorb_busy {back : List Entry} {entry x : Entry} (free : entry.busy = false)
    (busy : x.busy = true) : x ∈ absorb gap entry back ↔ x ∈ back := by
  have apart : ∀ y : Entry, y.busy = false → x ≠ y := by
    rintro y free rfl
    rw [free] at busy
    cases busy
  cases back with
  | nil => simp [absorb, apart entry free]
  | cons next rest =>
      rw [absorb]
      split
      · simp [apart entry free]
      · rename_i nextFree
        have merged := apart ⟨entry.addr, entry.size + (next.size + gap), entry.busy⟩ free
        simp [apart next ((Bool.not_eq_true _).mp nextFree), merged]

/-- A release takes one block out of use and leaves all others in use as they
are. -/
theorem mem_release_busy {front back : List Entry} {entry x : Entry} (positive : 0 < gap)
    (tiles : Contiguous gap start (front ++ entry :: back) stop) (busy : x.busy = true) :
    x ∈ release gap entry.addr (front ++ entry :: back) ↔ x ∈ front ++ back := by
  rcases release_cases positive tiles with ⟨_, shape⟩ | ⟨front', left, rfl, free, shape⟩
  · rw [shape, List.mem_append, mem_absorb_busy entry.freed_busy busy, List.mem_append]
  · have ne : x ≠ left := by
      rintro rfl
      rw [free] at busy
      cases busy
    rw [shape, List.mem_append, mem_absorb_busy free busy,
      mem_absorb_busy entry.freed_busy busy]
    simp [ne]

/-- A release leaves a single block exactly when it releases the only block
in use. -/
theorem release_length_eq_one_iff {front back : List Entry} {entry : Entry}
    (positive : 0 < gap) (tiles : Contiguous gap start (front ++ entry :: back) stop)
    (coalesced : Coalesced (front ++ entry :: back)) (busy : entry.busy = true) :
    (Tiling.release gap entry.addr (front ++ entry :: back)).length = 1 ↔
      busyCount (front ++ entry :: back) = 1 := by
  have count := busyCount_release positive tiles busy
  have after := coalesced.release positive tiles
  obtain ⟨x, member, free⟩ := exists_free_of_release positive tiles coalesced
  constructor
  · intro single
    obtain ⟨y, shape⟩ := List.length_eq_one_iff.mp single
    rw [shape] at member count
    rw [List.mem_singleton.mp member] at free
    have none : busyCount [y] = 0 := by simp [busyCount, free]
    omega
  · intro one
    have atMost := after.length_le_one (by omega)
    have atLeast := List.length_pos_of_mem member
    omega

end VgcMalloc.Tiling
