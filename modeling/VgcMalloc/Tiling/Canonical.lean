import VgcMalloc.Tiling.Blocks

/-!
# Canonical block lists

Every block list has a canonical form, in which each run of free blocks is one
block.  A release marks its block and brings the list back to this form, so a
series of releases has the same result in every order, and a release undoes the
grant that took the block into use.
-/

namespace VgcMalloc.Tiling

variable {gap start stop : Nat}

/-! ## The canonical form -/

/-- Merge every run of free blocks into its first one. -/
def coalesce (gap : Nat) : List Entry → List Entry
  | [] => []
  | entry :: rest =>
      if entry.busy then entry :: coalesce gap rest else absorb gap entry (coalesce gap rest)

/-- The block, marked as free when its address is one of the given ones. -/
def Entry.marked (addrs : List Nat) (entry : Entry) : Entry :=
  if entry.addr ∈ addrs then entry.freed else entry

/-- Mark the blocks at some addresses as free. -/
def markFree (addrs : List Nat) (entries : List Entry) : List Entry :=
  entries.map (Entry.marked addrs)

theorem coalesce_cons_of_busy {entry : Entry} {rest : List Entry} (busy : entry.busy = true) :
    coalesce gap (entry :: rest) = entry :: coalesce gap rest := by
  rw [coalesce, if_pos busy]

theorem coalesce_cons_of_free {entry : Entry} {rest : List Entry} (free : entry.busy = false) :
    coalesce gap (entry :: rest) = absorb gap entry (coalesce gap rest) := by
  rw [coalesce, if_neg (by simp [free])]

/-- Taking two free blocks over at once or one after the other is the same. -/
theorem absorb_absorb {entry next : Entry} {rest : List Entry} (free : next.busy = false) :
    absorb gap entry (absorb gap next rest) =
      absorb gap ⟨entry.addr, entry.size + (next.size + gap), entry.busy⟩ rest := by
  cases rest with
  | nil =>
      simp only [absorb, free, Bool.false_eq_true, if_false]
  | cons last rest =>
      cases busy : last.busy with
      | true =>
          simp only [absorb, free, busy, Bool.false_eq_true, if_false, if_true]
      | false =>
          simp only [absorb, free, busy, Bool.false_eq_true, if_false]
          have sizes : entry.size + (next.size + (last.size + gap) + gap) =
              entry.size + (next.size + gap) + (last.size + gap) := by omega
          rw [sizes]

/-- A merge does not change the canonical form. -/
theorem coalesce_absorb {entry : Entry} {rest : List Entry} (free : entry.busy = false) :
    coalesce gap (absorb gap entry rest) = coalesce gap (entry :: rest) := by
  cases rest with
  | nil => rfl
  | cons next rest =>
      cases busy : next.busy with
      | true => rw [absorb, if_pos busy]
      | false =>
          rw [absorb, if_neg (by simp [busy]), coalesce_cons_of_free free,
            coalesce_cons_of_free (by exact free), coalesce_cons_of_free busy, absorb_absorb busy]

theorem coalesce_append_congr {front first second : List Entry}
    (same : coalesce gap first = coalesce gap second) :
    coalesce gap (front ++ first) = coalesce gap (front ++ second) := by
  induction front with
  | nil => exact same
  | cons entry front ih => rw [List.cons_append, List.cons_append, coalesce, coalesce, ih]

/-- A coalesced list is in canonical form. -/
theorem Coalesced.coalesce_eq {entries : List Entry} (coalesced : Coalesced entries) :
    coalesce gap entries = entries := by
  induction entries with
  | nil => rfl
  | cons entry rest ih =>
      obtain ⟨seam, tail⟩ := List.isChain_cons.mp coalesced
      cases busy : entry.busy with
      | true => rw [coalesce_cons_of_busy busy, ih tail]
      | false =>
          rw [coalesce_cons_of_free busy, ih tail]
          cases rest with
          | nil => rfl
          | cons next rest =>
              have nextBusy : next.busy = true :=
                (seam next rfl).resolve_left (by simp [busy])
              rw [absorb, if_pos nextBusy]

/-! ## Marks -/

theorem markFree_cons (addrs : List Nat) (entry : Entry) (rest : List Entry) :
    markFree addrs (entry :: rest) = entry.marked addrs :: markFree addrs rest :=
  rfl

theorem Entry.marked_of_not_mem {addrs : List Nat} {entry : Entry} (other : entry.addr ∉ addrs) :
    entry.marked addrs = entry :=
  if_neg other

theorem Entry.marked_of_free (addrs : List Nat) {entry : Entry} (free : entry.busy = false) :
    entry.marked addrs = entry := by
  obtain ⟨addr, size, busy⟩ := entry
  cases free
  unfold Entry.marked
  split
  · rfl
  · rfl

/-- Marks made after a list has been brought into canonical form are made on
the blocks that are still in use. -/
theorem coalesce_markFree_coalesce (addrs : List Nat) (entries : List Entry) :
    coalesce gap (markFree addrs (coalesce gap entries)) =
      coalesce gap (markFree addrs entries) := by
  induction entries with
  | nil => rfl
  | cons entry rest ih =>
      cases busy : entry.busy with
      | true =>
          rw [coalesce_cons_of_busy busy, markFree_cons, markFree_cons, coalesce, coalesce, ih]
      | false =>
          rw [coalesce_cons_of_free busy, markFree_cons, Entry.marked_of_free addrs busy,
            coalesce_cons_of_free busy, ← ih]
          -- what the block takes over is free, so it carries no mark
          cases coalesce gap rest with
          | nil =>
              rw [absorb, markFree_cons, Entry.marked_of_free addrs busy,
                coalesce_cons_of_free busy]
          | cons next tail =>
              cases nextBusy : next.busy with
              | true =>
                  rw [absorb, if_pos nextBusy, markFree_cons, Entry.marked_of_free addrs busy,
                    coalesce_cons_of_free busy]
              | false =>
                  rw [absorb, if_neg (by simp [nextBusy]), markFree_cons, markFree_cons,
                    Entry.marked_of_free addrs (by exact busy),
                    coalesce_cons_of_free (by exact busy),
                    Entry.marked_of_free addrs nextBusy, coalesce_cons_of_free nextBusy,
                    absorb_absorb nextBusy]

/-- Marks add up. -/
theorem markFree_markFree (first second : List Nat) (entries : List Entry) :
    markFree second (markFree first entries) = markFree (first ++ second) entries := by
  unfold markFree
  rw [List.map_map]
  apply List.map_congr_left
  intro entry _
  by_cases inFirst : entry.addr ∈ first
  · by_cases inSecond : entry.addr ∈ second
    · simp [Entry.marked, inFirst, inSecond, Entry.freed]
    · simp [Entry.marked, inFirst, inSecond]
  · by_cases inSecond : entry.addr ∈ second
    · simp [Entry.marked, inFirst, inSecond]
    · simp [Entry.marked, inFirst, inSecond]

/-- Only the set of addresses matters. -/
theorem markFree_congr {first second : List Nat} (same : ∀ addr, addr ∈ first ↔ addr ∈ second)
    (entries : List Entry) : markFree first entries = markFree second entries := by
  apply List.map_congr_left
  intro entry _
  simp only [Entry.marked, same]

/-- In a tiling one address marks one block. -/
theorem markFree_eq {front back : List Entry} {entry : Entry} (positive : 0 < gap)
    (tiles : Contiguous gap start (front ++ entry :: back) stop) :
    markFree [entry.addr] (front ++ entry :: back) = front ++ entry.freed :: back := by
  have others : ∀ entries : List Entry, (∀ x ∈ entries, x.addr ≠ entry.addr) →
      markFree [entry.addr] entries = entries := by
    intro entries apart
    have same : ∀ x ∈ entries, x.marked [entry.addr] = id x := by
      intro x member
      apply Entry.marked_of_not_mem
      simpa using apart x member
    exact (List.map_congr_left same).trans (List.map_id _)
  have before : ∀ x ∈ front, x.addr ≠ entry.addr :=
    fun x member => tiles.addr_ne_of_before positive member
  have behind : ∀ x ∈ back, x.addr ≠ entry.addr := by
    intro x member
    have ordered := List.rel_of_pairwise_cons (List.pairwise_append.mp tiles.pairwise).2.1 member
    omega
  have self : entry.marked [entry.addr] = entry.freed := if_pos (by simp)
  have parts : markFree [entry.addr] (front ++ entry :: back) =
      markFree [entry.addr] front ++ entry.marked [entry.addr] :: markFree [entry.addr] back :=
    List.map_append
  rw [parts, others front before, others back behind, self]

/-! ## Releases -/

/-- A release marks its block and restores the canonical form. -/
theorem release_eq_coalesce {front back : List Entry} {entry : Entry} (positive : 0 < gap)
    (tiles : Contiguous gap start (front ++ entry :: back) stop)
    (coalesced : Coalesced (front ++ entry :: back)) :
    release gap entry.addr (front ++ entry :: back) =
      coalesce gap (markFree [entry.addr] (front ++ entry :: back)) := by
  have after : coalesce gap (release gap entry.addr (front ++ entry :: back)) = _ :=
    (coalesced.release positive tiles).coalesce_eq
  rw [markFree_eq positive tiles, ← after]
  rcases release_cases positive tiles with ⟨_, shape⟩ | ⟨front', left, rfl, free, shape⟩
  · rw [shape]
    exact coalesce_append_congr (coalesce_absorb entry.freed_busy)
  · rw [shape, List.append_assoc, List.singleton_append]
    apply coalesce_append_congr
    rw [coalesce_absorb free, coalesce_cons_of_free free, coalesce_cons_of_free free,
      coalesce_absorb entry.freed_busy]

/-- A release undoes the grant that took the block into use: the rest that was
split off is free, and no other neighbour was. -/
theorem release_grantEntry {length : Nat} {front back : List Entry} {entry : Entry}
    (positive : 0 < gap) (tiles : Contiguous gap start (front ++ entry :: back) stop)
    (coalesced : Coalesced (front ++ entry :: back)) (free : entry.busy = false) :
    release gap entry.addr (front ++ grantEntry gap length entry ++ back) =
      front ++ entry :: back := by
  have self : (⟨entry.addr, entry.size, false⟩ : Entry) = entry := by
    rw [← free]
  have before : ∀ x ∈ front, x.addr ≠ entry.addr :=
    fun x member => tiles.addr_ne_of_before positive member
  obtain ⟨_, tail, seam⟩ := List.isChain_append.mp coalesced
  have left : ∀ x ∈ front.getLast?, x.busy = true := by
    intro x last
    exact (seam x last entry rfl).resolve_right (by simp [free])
  have released : ∀ (used : Entry) (rest : List Entry), used.addr = entry.addr →
      release gap entry.addr (front ++ used :: rest) = front ++ absorb gap used.freed rest :=
    fun used rest same => release_of_busy_before same before left
  rw [List.append_assoc]
  by_cases split : length + gap < entry.size
  · rw [grantEntry, if_pos split, List.cons_append, List.singleton_append,
      released ⟨entry.addr, length, true⟩ _ rfl, absorb, if_neg (by simp)]
    have whole : length + (entry.size - (length + gap) + gap) = entry.size := by omega
    simp only [Entry.freed_addr, Entry.freed_size, Entry.freed_busy, whole, self]
  · rw [grantEntry, if_neg split, List.singleton_append,
      released ⟨entry.addr, entry.size, true⟩ _ rfl]
    have freed : (⟨entry.addr, entry.size, true⟩ : Entry).freed = entry := self
    rw [freed]
    cases back with
    | nil => rfl
    | cons next back =>
        have busy : next.busy = true :=
          ((List.isChain_cons.mp tail).1 next rfl).resolve_left (by simp [free])
        rw [absorb, if_pos busy]

end VgcMalloc.Tiling
