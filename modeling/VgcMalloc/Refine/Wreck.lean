import VgcMalloc.Refine.Crash

/-!
# Regions in the middle of an edit

The stores of a grant and of a merge change the size of a block, its forward
link and the back link behind it one after the other.  The list stays linked
all the way, except between the two links.
-/

namespace VgcMalloc

open Program Tiling Linked

variable {heap before after : Heap} {pages : MmapPages} {guarded : Bool}
  {abstract : AbstractHeap} {region : Region} {front back entries : List Entry} {entry : Entry}

/-! ## Stores to linked regions -/

/-- Storing the field keeps the size and the links of the header. -/
def MallocHeader.Keeps (header : MallocHeader) (field : MallocField × Nat) : Prop :=
  ∀ other : MallocHeader, other.size = header.size ∧ other.next = header.next ∧
    other.prev = header.prev →
      (other.set field.1 field.2).size = header.size ∧
        (other.set field.1 field.2).next = header.next ∧
        (other.set field.1 field.2).prev = header.prev

theorem MallocHeader.keeps_foldl {header other : MallocHeader}
    {fields : List (MallocField × Nat)} (keeps : ∀ field ∈ fields, header.Keeps field)
    (same : other.size = header.size ∧ other.next = header.next ∧ other.prev = header.prev) :
    (fields.foldl (fun header field => header.set field.1 field.2) other).size = header.size ∧
      (fields.foldl (fun header field => header.set field.1 field.2) other).next = header.next ∧
      (fields.foldl (fun header field => header.set field.1 field.2) other).prev =
        header.prev := by
  induction fields generalizing other with
  | nil => exact same
  | cons first rest ih =>
      exact ih (fun field member => keeps field (List.mem_cons_of_mem _ member))
        (keeps first List.mem_cons_self other same)

theorem MallocHeader.keeps_mmapBlock (header : MallocHeader) (value : Nat) :
    header.Keeps (.mmapBlock, value) :=
  fun _ same => same

theorem MallocHeader.keeps_status (header : MallocHeader) (value : Nat) :
    header.Keeps (.status, value) :=
  fun _ same => same

theorem MallocHeader.keeps_size {header : MallocHeader} {value : Nat}
    (same : value = header.size) (bound : value < 2 ^ 64) : header.Keeps (.size, value) :=
  fun _ links => ⟨(word_mod bound).trans same, links.2⟩

theorem MallocHeader.keeps_next {header : MallocHeader} {value : Nat}
    (same : value = header.next) (bound : value < 2 ^ 64) : header.Keeps (.next, value) :=
  fun _ links => ⟨links.1, (word_mod bound).trans same, links.2.2⟩

theorem MallocHeader.keeps_prev {header : MallocHeader} {value : Nat}
    (same : value = header.prev) (bound : value < 2 ^ 64) : header.Keeps (.prev, value) :=
  fun _ links => ⟨links.1, links.2.1, (word_mod bound).trans same⟩

theorem MallocHeader.keeps_checks (header : MallocHeader) {field : MallocField × Nat}
    (member : field ∈ [(MallocField.checkStart, checksum), (.checkEnd, checksum)]) :
    header.Keeps field := by
  rw [List.mem_cons, List.mem_singleton] at member
  rcases member with rfl | rfl
  · exact fun _ same => same
  · exact fun _ same => same

/-- A header inside of a region, behind the header of the MMAP. -/
def Region.Holds (region : Region) (header : Nat) : Prop :=
  region.base + 4096 ≤ header ∧ header + 8192 ≤ region.base + region.length

/-- A region whose block list has been stored to since `before`; nothing else
has. -/
structure Wreck (pages : MmapPages) (before heap : Heap) (region : Region)
    (entries : List Entry) : Prop extends LinkedRegion pages heap region entries where
  confined : WritesOnly region region.Holds before heap

theorem Stands.wreck (stands : Stands pages guarded heap abstract)
    (member : region ∈ abstract.regions) :
    Wreck pages heap heap region (abstract.entries region.base) :=
  ⟨stands.linkedRegion member, WritesOnly.refl heap⟩

namespace LinkedRegion

/-- Only the links and sizes of the blocks and the sizes of the MMAP matter. -/
theorem congr (linked : LinkedRegion pages heap region entries)
    (mapped : after.mapped = heap.mapped) (shared : after.shared = heap.shared)
    (mmapHeader : (after.mmapHeader region.base).size = (heap.mmapHeader region.base).size ∧
      (after.mmapHeader region.base).maxSize = (heap.mmapHeader region.base).maxSize)
    (headers : ∀ x ∈ entries,
      (after.mallocHeader x.addr).size = (heap.mallocHeader x.addr).size ∧
        after.nextBlock x.addr = heap.nextBlock x.addr ∧
        after.prevBlock x.addr = heap.prevBlock x.addr) :
    LinkedRegion pages after region entries where
  placed := linked.placed
  mapped := mapped ▸ linked.mapped
  blockSize := shared ▸ linked.blockSize
  size := mmapHeader.1.trans linked.size
  maxSize := mmapHeader.2.trans linked.maxSize
  first := linked.first
  chain := by
    constructor
    · apply linked.chain.links.congr
      · intro node member
        obtain ⟨x, xMem, rfl⟩ := List.mem_map.mp member
        exact (headers x xMem).2.1
      · intro node member
        obtain ⟨x, xMem, rfl⟩ := List.mem_map.mp member
        exact (headers x xMem).2.2
    · intro x member
      rw [(headers x member).1, linked.chain.sizes x member]
  spread := linked.spread
  inside := linked.inside

theorem holds (linked : LinkedRegion pages heap region entries) {x : Entry}
    (member : x ∈ entries) : region.Holds x.addr := by
  have bounds := linked.inside x member
  exact ⟨bounds.1, by omega⟩

end LinkedRegion

namespace Wreck

/-- Stores to a header that is not listed, or that keep the links and the size
of one that is, keep the list. -/
theorem setMallocFields {block : Nat} {fields : List (MallocField × Nat)}
    (wreck : Wreck pages before heap region entries) (holds : region.Holds block)
    (kept : ∀ x ∈ entries, x.addr + 8192 ≤ block ∨ block + 8192 ≤ x.addr ∨
      x.addr = block ∧ ∀ field ∈ fields, (heap.mallocHeader block).Keeps field) :
    Wreck pages before (heap.setMallocFields block fields) region entries where
  toLinkedRegion := by
    have home := holds.1
    apply wreck.toLinkedRegion.congr (by simp) (by simp)
    · rw [Heap.mmapHeader_setMallocFields _ (by omega)]
      exact ⟨rfl, rfl⟩
    · intro x member
      rcases kept x member with below | above | ⟨same, keeps⟩
      · rw [Heap.nextBlock, Heap.prevBlock,
          Heap.mallocHeader_setMallocFields_apart _ (Or.inl below)]
        exact ⟨rfl, rfl, rfl⟩
      · rw [Heap.nextBlock, Heap.prevBlock,
          Heap.mallocHeader_setMallocFields_apart _ (Or.inr above)]
        exact ⟨rfl, rfl, rfl⟩
      · rw [same, Heap.nextBlock, Heap.prevBlock, Heap.mallocHeader_setMallocFields]
        exact MallocHeader.keeps_foldl keeps ⟨rfl, rfl, rfl⟩
  confined := wreck.confined.trans (WritesOnly.setMallocFields fields holds)

theorem kept_listed {fields : List (MallocField × Nat)}
    (wreck : Wreck pages before heap region entries) (member : entry ∈ entries)
    (keeps : ∀ field ∈ fields, (heap.mallocHeader entry.addr).Keeps field) :
    ∀ x ∈ entries, x.addr + 8192 ≤ entry.addr ∨ entry.addr + 8192 ≤ x.addr ∨
      x.addr = entry.addr ∧ ∀ field ∈ fields, (heap.mallocHeader entry.addr).Keeps field := by
  intro x xMem
  rcases wreck.apart xMem member with rfl | below | above
  · exact Or.inr (Or.inr ⟨rfl, keeps⟩)
  · exact Or.inl below
  · exact Or.inr (Or.inl above)

theorem setListed {fields : List (MallocField × Nat)}
    (wreck : Wreck pages before heap region entries) (member : entry ∈ entries)
    (keeps : ∀ field ∈ fields, (heap.mallocHeader entry.addr).Keeps field) :
    Wreck pages before (heap.setMallocFields entry.addr fields) region entries :=
  wreck.setMallocFields (wreck.holds member) (wreck.kept_listed member keeps)

/-- The count of the blocks in use is no part of the list. -/
theorem setElements {value : Nat} (wreck : Wreck pages before heap region entries) :
    Wreck pages before (heap.setMmapFields region.base [(.elements, value)]) region entries where
  toLinkedRegion := by
    apply wreck.toLinkedRegion.congr (by simp) (by simp)
    · rw [Heap.mmapHeader_setMmapFields]
      exact ⟨rfl, rfl⟩
    · intro x member
      have bounds := wreck.inside x member
      rw [Heap.nextBlock, Heap.prevBlock, Heap.mallocHeader_setMmapFields _ (by omega)]
      exact ⟨rfl, rfl, rfl⟩
  confined := wreck.confined.trans (WritesOnly.setMmapFields _)

/-- Nor are the protections of pages. -/
theorem protect {protNone : Nat → Bool} (wreck : Wreck pages before heap region entries) :
    Wreck pages before { heap with protNone := protNone } region entries where
  toLinkedRegion := wreck.toLinkedRegion.congr rfl rfl ⟨rfl, rfl⟩ fun _ _ => ⟨rfl, rfl, rfl⟩
  confined := wreck.confined.trans ⟨rfl, rfl, rfl, fun _ _ _ => rfl⟩

/-- A store to the size of a block that keeps it inside of the region. -/
theorem setSize {value : Nat} (wreck : Wreck pages before heap region (front ++ entry :: back))
    (fits : entry.addr + 8192 + value ≤ region.base + region.length) :
    Wreck pages before (heap.setMallocFields entry.addr [(.size, value)]) region
      (front ++ { entry with size := value } :: back) where
  toLinkedRegion := by
    have entryMem : entry ∈ front ++ entry :: back := by simp
    have bounds := wreck.inside entry entryMem
    have user := wreck.placed.user
    have addrs : (front ++ { entry with size := value } :: back).map Entry.addr =
        (front ++ entry :: back).map Entry.addr := by simp
    have others : ∀ x ∈ front ++ back,
        (heap.setMallocFields entry.addr [(.size, value)]).mallocHeader x.addr =
          heap.mallocHeader x.addr := by
      intro x member
      have ordered := List.pairwise_append.mp wreck.spread
      apply Heap.mallocHeader_setMallocFields_apart
      rcases List.mem_append.mp member with inFront | inBack
      · exact Or.inl (ordered.2.2 x inFront entry List.mem_cons_self)
      · exact Or.inr (List.rel_of_pairwise_cons ordered.2.1 inBack)
    have self : (heap.setMallocFields entry.addr [(.size, value)]).mallocHeader entry.addr =
        { heap.mallocHeader entry.addr with size := value } := by
      have small : value < 2 ^ 64 := by omega
      rw [Heap.mallocHeader_setMallocFields]
      simpa [MallocHeader.set] using small
    refine ⟨wreck.placed, by simpa using wreck.mapped, by simpa using wreck.blockSize, ?_, ?_,
      addrs ▸ wreck.first, ⟨?_, ?_⟩, ?_, ?_⟩
    · rw [Heap.mmapHeader_setMallocFields _ (by omega)]
      exact wreck.size
    · rw [Heap.mmapHeader_setMallocFields _ (by omega)]
      exact wreck.maxSize
    · rw [addrs]
      apply wreck.chain.links.congr
      · intro node member
        obtain ⟨x, xMem, rfl⟩ := List.mem_map.mp member
        rcases mem_append_cons.mp xMem with rfl | other
        · rw [Heap.nextBlock, self]
          rfl
        · exact congrArg MallocHeader.next (others x other)
      · intro node member
        obtain ⟨x, xMem, rfl⟩ := List.mem_map.mp member
        rcases mem_append_cons.mp xMem with rfl | other
        · rw [Heap.prevBlock, self]
          rfl
        · exact congrArg MallocHeader.prev (others x other)
    · intro x member
      rcases mem_append_cons.mp member with rfl | other
      · exact congrArg MallocHeader.size self
      · rw [others x other]
        exact wreck.chain.sizes x (mem_append_cons.mpr (Or.inr other))
    · have spread := wreck.spread
      rw [← List.pairwise_map (f := Entry.addr) (R := fun left right => left + 8192 ≤ right)]
        at spread ⊢
      exact addrs ▸ spread
    · intro x member
      rcases mem_append_cons.mp member with rfl | other
      · exact ⟨bounds.1, fits⟩
      · exact wreck.inside x (mem_append_cons.mpr (Or.inr other))
  confined := by
    have entryMem : entry ∈ front ++ entry :: back := by simp
    exact wreck.confined.trans (WritesOnly.setMallocFields _ (wreck.holds entryMem))

end Wreck

/-! ## Changes of the links -/

/-- Store the forward link of a block, then the back link of the target. -/
def Heap.relink (heap : Heap) (block next target back : Nat) : Heap :=
  (heap.setMallocFields block [(.next, next)]).linkBack target back

theorem Heap.relink_of_null (heap : Heap) (block next back : Nat) :
    heap.relink block next 0 back = heap.setMallocFields block [(.next, next)] := by
  rw [relink, linkBack, if_pos rfl]

/-- A header after its links may have changed. -/
theorem Heap.mallocHeader_relink {block next target back x : Nat} (nextBound : next < 2 ^ 64)
    (backBound : back < 2 ^ 64) (fromBlock : x = block ∨ x + 8192 ≤ block ∨ block + 8192 ≤ x)
    (fromTarget : x = target ∨ x + 8192 ≤ target ∨ target + 8192 ≤ x) :
    (heap.relink block next target back).mallocHeader x =
      { heap.mallocHeader x with
        next := if x = block then next else (heap.mallocHeader x).next
        prev := if x = target ∧ target ≠ 0 then back else (heap.mallocHeader x).prev } := by
  rw [relink, mallocHeader_linkBack backBound fromTarget]
  rcases fromBlock with rfl | apart
  · rw [mallocHeader_setMallocFields]
    simpa [MallocHeader.set] using nextBound
  · have ne : x ≠ block := by omega
    rw [mallocHeader_setMallocFields_apart _ apart, if_neg ne]

theorem LinkedRegion.addr_lt (linked : LinkedRegion pages heap region entries) {x : Entry}
    (member : x ∈ entries) : x.addr < 2 ^ 64 := by
  have bounds := linked.inside x member
  have user := linked.placed.user
  omega

theorem LinkedRegion.headD_lt (linked : LinkedRegion pages heap region entries)
    (part : ∀ x ∈ back, x ∈ entries) : (back.map Entry.addr).headD 0 < 2 ^ 64 := by
  cases back with
  | nil => exact Nat.two_pow_pos 64
  | cons x rest => exact linked.addr_lt (part x List.mem_cons_self)

/-- A linked header is the head of a part of the list, or lies apart from it. -/
theorem LinkedRegion.apart_headD (linked : LinkedRegion pages heap region entries) {x : Entry}
    (member : x ∈ entries) (part : ∀ y ∈ back, y ∈ entries) :
    x.addr = (back.map Entry.addr).headD 0 ∨ x.addr + 8192 ≤ (back.map Entry.addr).headD 0 ∨
      (back.map Entry.addr).headD 0 + 8192 ≤ x.addr := by
  cases back with
  | nil =>
      have bounds := linked.inside x member
      have room := linked.placed.positive
      have aligned := linked.placed.aligned
      exact Or.inr (Or.inr (by simp only [List.map_nil, List.headD_nil]; omega))
  | cons y rest =>
      rcases linked.apart member (part y List.mem_cons_self) with rfl | apart
      · exact Or.inl rfl
      · exact Or.inr apart

/-- The blocks other than one of them do not lie at its address. -/
theorem LinkedRegion.ne_of_sides (linked : LinkedRegion pages heap region (front ++ entry :: back))
    {x : Entry} (member : x ∈ front ++ back) : x.addr ≠ entry.addr := by
  have ordered := List.pairwise_append.mp linked.spread
  rcases List.mem_append.mp member with inFront | inBack
  · have gap := ordered.2.2 x inFront entry List.mem_cons_self
    omega
  · have gap := List.rel_of_pairwise_cons ordered.2.1 inBack
    omega

/-- The blocks other than the one behind `entry` do not lie at its address. -/
theorem LinkedRegion.ne_headD (linked : LinkedRegion pages heap region (front ++ entry :: back))
    {x : Entry} (member : x ∈ front ++ entry :: back.tail) :
    x.addr ≠ (back.map Entry.addr).headD 0 := by
  cases back with
  | nil => exact linked.nonzero x member
  | cons y rest =>
      have split : front ++ entry :: y :: rest = (front ++ [entry]) ++ y :: rest := by simp
      rw [split] at linked
      apply linked.ne_of_sides
      simpa using member

/-- What the stores of `relink` do to the linked headers. -/
theorem LinkedRegion.header_relink (linked : LinkedRegion pages heap region entries) {x : Entry}
    {next value : Nat} (member : x ∈ entries) (entryMem : entry ∈ entries)
    (part : ∀ y ∈ back, y ∈ entries) (nextBound : next < 2 ^ 64) (valueBound : value < 2 ^ 64) :
    (heap.relink entry.addr next ((back.map Entry.addr).headD 0) value).mallocHeader x.addr =
      { heap.mallocHeader x.addr with
        next := if x.addr = entry.addr then next else heap.nextBlock x.addr
        prev := if x.addr = (back.map Entry.addr).headD 0 ∧ (back.map Entry.addr).headD 0 ≠ 0
          then value else heap.prevBlock x.addr } :=
  Heap.mallocHeader_relink nextBound valueBound
    ((linked.apart member entryMem).imp (congrArg Entry.addr) id) (linked.apart_headD member part)

/-- What the first of these stores does. -/
theorem LinkedRegion.header_setNext (linked : LinkedRegion pages heap region entries) {x : Entry}
    {next : Nat} (member : x ∈ entries) (entryMem : entry ∈ entries) (bound : next < 2 ^ 64) :
    (heap.setMallocFields entry.addr [(.next, next)]).mallocHeader x.addr =
      { heap.mallocHeader x.addr with
        next := if x.addr = entry.addr then next else heap.nextBlock x.addr } := by
  rcases linked.apart member entryMem with rfl | apart
  · rw [Heap.mallocHeader_setMallocFields]
    simpa [MallocHeader.set] using bound
  · have ne : x.addr ≠ entry.addr := by omega
    rw [Heap.mallocHeader_setMallocFields_apart _ apart, if_neg ne]
    rfl

theorem LinkedRegion.holds_headD (linked : LinkedRegion pages heap region entries)
    (part : ∀ y ∈ back, y ∈ entries) (present : (back.map Entry.addr).headD 0 ≠ 0) :
    region.Holds ((back.map Entry.addr).headD 0) := by
  cases back with
  | nil => exact absurd rfl present
  | cons y rest => exact linked.holds (part y List.mem_cons_self)

/-- The header of the MMAP when links of its blocks are stored. -/
theorem LinkedRegion.mmapHeader_relink (linked : LinkedRegion pages heap region entries)
    (next value : Nat) (entryMem : entry ∈ entries) (part : ∀ y ∈ back, y ∈ entries) :
    (heap.relink entry.addr next ((back.map Entry.addr).headD 0) value).mmapHeader region.base =
      heap.mmapHeader region.base := by
  have home := (linked.holds entryMem).1
  have targetHome : (back.map Entry.addr).headD 0 = 0 ∨
      region.base + 4096 ≤ (back.map Entry.addr).headD 0 := by
    by_cases null : (back.map Entry.addr).headD 0 = 0
    · exact Or.inl null
    · exact Or.inr (linked.holds_headD part null).1
  rw [Heap.relink, Heap.mmapHeader_linkBack targetHome, Heap.mmapHeader_setMallocFields _
    (by omega)]

namespace Wreck

/-- The stores of `relink` leave a linked region when the new links are those of
the new list. -/
theorem relinked {next value : Nat} {entries' : List Entry}
    (wreck : Wreck pages before heap region entries) (entryMem : entry ∈ entries)
    (part : ∀ y ∈ back, y ∈ entries)
    (first : (entries'.map Entry.addr).headD 0 = region.base + 4096)
    (chain : Chain (heap.relink entry.addr next ((back.map Entry.addr).headD 0) value) 0 entries')
    (spread : entries'.Pairwise fun left right => left.addr + 8192 ≤ right.addr)
    (inside : ∀ x ∈ entries', region.base + 4096 ≤ x.addr ∧
      x.addr + 8192 + x.size ≤ region.base + region.length) :
    Wreck pages before (heap.relink entry.addr next ((back.map Entry.addr).headD 0) value) region
      entries' where
  placed := wreck.placed
  mapped := by simpa [Heap.relink] using wreck.mapped
  blockSize := by simpa [Heap.relink] using wreck.blockSize
  size := by
    rw [wreck.mmapHeader_relink next value entryMem part]
    exact wreck.size
  maxSize := by
    rw [wreck.mmapHeader_relink next value entryMem part]
    exact wreck.maxSize
  first := first
  chain := chain
  spread := spread
  inside := inside
  confined := wreck.confined.trans
    ((WritesOnly.setMallocFields _ (wreck.holds entryMem)).trans
      (WritesOnly.linkBack (wreck.holds_headD part)))

/-- The new block behind `entry` is linked in. -/
theorem insert {rest : Entry} (wreck : Wreck pages before heap region (front ++ entry :: back))
    (size : (heap.mallocHeader rest.addr).size = rest.size)
    (prev : heap.prevBlock rest.addr = entry.addr)
    (next : heap.nextBlock rest.addr = heap.nextBlock entry.addr)
    (behind : entry.addr + 8192 ≤ rest.addr) (ahead : ∀ x ∈ back, rest.addr + 8192 ≤ x.addr)
    (fits : rest.addr + 8192 + rest.size ≤ region.base + region.length) :
    Wreck pages before
      (heap.relink entry.addr rest.addr ((back.map Entry.addr).headD 0) rest.addr) region
      (front ++ entry :: rest :: back) := by
  have user := wreck.placed.user
  have entryMem : entry ∈ front ++ entry :: back := by simp
  have entryBounds := wreck.inside entry entryMem
  have part : ∀ x ∈ back, x ∈ front ++ entry :: back := fun x member => by simp [member]
  have restBound : rest.addr < 2 ^ 64 := by omega
  have restTarget : rest.addr + 8192 ≤ (back.map Entry.addr).headD 0 ∨
      (back.map Entry.addr).headD 0 + 8192 ≤ rest.addr := by
    cases back with
    | nil => exact Or.inr (by simp only [List.map_nil, List.headD_nil]; omega)
    | cons y others => exact Or.inl (ahead y List.mem_cons_self)
  have restNe : rest.addr ≠ entry.addr ∧ rest.addr ≠ (back.map Entry.addr).headD 0 := by
    omega
  generalize afterIs :
    heap.relink entry.addr rest.addr ((back.map Entry.addr).headD 0) rest.addr = after
  have header : ∀ x ∈ front ++ entry :: back, after.mallocHeader x.addr =
      { heap.mallocHeader x.addr with
        next := if x.addr = entry.addr then rest.addr else heap.nextBlock x.addr
        prev := if x.addr = (back.map Entry.addr).headD 0 ∧ (back.map Entry.addr).headD 0 ≠ 0
          then rest.addr else heap.prevBlock x.addr } := by
    intro x member
    rw [← afterIs]
    exact wreck.header_relink member entryMem part restBound restBound
  have restHeader : after.mallocHeader rest.addr = heap.mallocHeader rest.addr := by
    rw [← afterIs, Heap.mallocHeader_relink restBound restBound (Or.inr (Or.inr behind))
      (Or.inr restTarget), if_neg restNe.1, if_neg fun hit => restNe.2 hit.1]
  have cases : ∀ x ∈ front ++ entry :: rest :: back, x = rest ∨ x ∈ front ++ entry :: back := by
    intro x member
    simp only [List.mem_append, List.mem_cons] at member ⊢
    rcases member with inFront | same | fresh | inBack
    · exact Or.inr (Or.inl inFront)
    · exact Or.inr (Or.inr (Or.inl same))
    · exact Or.inl fresh
    · exact Or.inr (Or.inr (Or.inr inBack))
  have chain : Chain after 0 (front ++ entry :: rest :: back) := by
    constructor
    · have links := wreck.chain.links
      rw [List.map_append, List.map_cons] at links
      rw [List.map_append, List.map_cons, List.map_cons]
      apply links.insertAfter
      · rw [Heap.nextBlock, header entry entryMem, if_pos rfl]
      · rw [Heap.prevBlock, restHeader]
        exact prev
      · rw [Heap.nextBlock, restHeader]
        exact next
      · intro x member
        cases back with
        | nil => cases member
        | cons y others =>
            cases member
            rw [Heap.prevBlock, header y (part y List.mem_cons_self)]
            exact if_pos ⟨rfl, wreck.nonzero y (part y List.mem_cons_self)⟩
      · rw [← List.map_append]
        intro node member
        obtain ⟨x, xMem, rfl⟩ := List.mem_map.mp member
        rw [Heap.nextBlock, header x (mem_append_cons.mpr (Or.inr xMem)),
          if_neg (wreck.ne_of_sides xMem)]
      · rw [← List.map_tail, ← List.map_cons, ← List.map_append]
        intro node member
        obtain ⟨x, xMem, rfl⟩ := List.mem_map.mp member
        have xOld : x ∈ front ++ entry :: back := by
          simp only [List.mem_append, List.mem_cons] at xMem ⊢
          exact xMem.imp id (Or.imp id List.mem_of_mem_tail)
        rw [Heap.prevBlock, header x xOld, if_neg fun hit => wreck.ne_headD xMem hit.1]
    · intro x member
      rcases cases x member with rfl | old
      · rw [restHeader]
        exact size
      · rw [header x old]
        exact wreck.chain.sizes x old
  rw [← afterIs] at chain ⊢
  apply wreck.relinked entryMem part ?_ chain ?_ ?_
  · rw [← wreck.first]
    cases front <;> rfl
  · obtain ⟨frontSpread, backSpread, across⟩ := List.pairwise_append.mp wreck.spread
    obtain ⟨entryBack, backOnly⟩ := List.pairwise_cons.mp backSpread
    refine List.pairwise_append.mpr ⟨frontSpread, List.pairwise_cons.mpr ⟨?_,
      List.pairwise_cons.mpr ⟨ahead, backOnly⟩⟩, ?_⟩
    · exact List.forall_mem_cons.mpr ⟨behind, entryBack⟩
    · intro x inFront
      have toEntry := across x inFront entry List.mem_cons_self
      exact List.forall_mem_cons.mpr ⟨toEntry, List.forall_mem_cons.mpr ⟨by omega,
        fun y inBack => across x inFront y (List.mem_cons_of_mem _ inBack)⟩⟩
  · intro x member
    rcases cases x member with rfl | old
    · exact ⟨by omega, fits⟩
    · exact wreck.inside x old

/-- The block behind `entry` is unlinked. -/
theorem remove {gone : Entry}
    (wreck : Wreck pages before heap region (front ++ entry :: gone :: back)) :
    Wreck pages before
      (heap.relink entry.addr (heap.nextBlock gone.addr) ((back.map Entry.addr).headD 0)
        entry.addr) region (front ++ entry :: back) := by
  have entryMem : entry ∈ front ++ entry :: gone :: back := by simp
  have part : ∀ x ∈ back, x ∈ front ++ entry :: gone :: back := fun x member => by simp [member]
  have old : ∀ x ∈ front ++ entry :: back, x ∈ front ++ entry :: gone :: back := by
    intro x member
    simp only [List.mem_append, List.mem_cons] at member ⊢
    exact member.imp id (Or.imp id Or.inr)
  have links := wreck.chain.links
  rw [List.map_append, List.map_cons, List.map_cons] at links
  have goneNext : heap.nextBlock gone.addr = (back.map Entry.addr).headD 0 := by
    have split : front.map Entry.addr ++ entry.addr :: gone.addr :: back.map Entry.addr =
        (front.map Entry.addr ++ [entry.addr]) ++ gone.addr :: back.map Entry.addr := by simp
    rw [split] at links
    exact links.links.2
  have nextBound : heap.nextBlock gone.addr < 2 ^ 64 := goneNext ▸ wreck.headD_lt part
  generalize afterIs : heap.relink entry.addr (heap.nextBlock gone.addr)
    ((back.map Entry.addr).headD 0) entry.addr = after
  have header : ∀ x ∈ front ++ entry :: gone :: back, after.mallocHeader x.addr =
      { heap.mallocHeader x.addr with
        next := if x.addr = entry.addr then heap.nextBlock gone.addr else heap.nextBlock x.addr
        prev := if x.addr = (back.map Entry.addr).headD 0 ∧ (back.map Entry.addr).headD 0 ≠ 0
          then entry.addr else heap.prevBlock x.addr } := by
    intro x member
    rw [← afterIs]
    exact wreck.header_relink member entryMem part nextBound (wreck.addr_lt entryMem)
  have chain : Chain after 0 (front ++ entry :: back) := by
    constructor
    · rw [List.map_append, List.map_cons]
      apply links.removeAfter
      · rw [Heap.nextBlock, header entry entryMem, if_pos rfl]
      · intro x member
        cases back with
        | nil => cases member
        | cons y others =>
            cases member
            rw [Heap.prevBlock, header y (part y List.mem_cons_self)]
            exact if_pos ⟨rfl, wreck.nonzero y (part y List.mem_cons_self)⟩
      · rw [← List.map_append]
        intro node member
        obtain ⟨x, xMem, rfl⟩ := List.mem_map.mp member
        have inSides : x ∈ front ++ gone :: back := by
          simp only [List.mem_append, List.mem_cons] at xMem ⊢
          exact xMem.imp id Or.inr
        rw [Heap.nextBlock, header x (mem_append_cons.mpr (Or.inr inSides)),
          if_neg (wreck.ne_of_sides inSides)]
      · rw [← List.map_tail, ← List.map_cons, ← List.map_append]
        intro node member
        obtain ⟨x, xMem, rfl⟩ := List.mem_map.mp member
        have split : front ++ entry :: gone :: back = (front ++ [entry]) ++ gone :: back := by
          simp
        have ne : x.addr ≠ (back.map Entry.addr).headD 0 := by
          rw [split] at wreck
          apply wreck.ne_headD
          simp only [List.mem_append, List.mem_cons] at xMem ⊢
          rcases xMem with inFront | same | inTail
          · exact Or.inl (Or.inl inFront)
          · exact Or.inl (Or.inr (Or.inl same))
          · exact Or.inr (Or.inr inTail)
        have xOld : x ∈ front ++ entry :: back := by
          simp only [List.mem_append, List.mem_cons] at xMem ⊢
          exact xMem.imp id (Or.imp id List.mem_of_mem_tail)
        rw [Heap.prevBlock, header x (old x xOld), if_neg fun hit => ne hit.1]
    · intro x member
      rw [header x (old x member)]
      exact wreck.chain.sizes x (old x member)
  rw [← afterIs] at chain ⊢
  apply wreck.relinked entryMem part ?_ chain ?_ ?_
  · rw [← wreck.first]
    cases front <;> rfl
  · apply List.Pairwise.sublist _ wreck.spread
    exact (List.Sublist.refl front).append ((List.sublist_cons_self gone back).cons_cons entry)
  · exact fun x member => wreck.inside x (old x member)

/-- The list up to `entry`, once its forward link has been stored. -/
theorem segment_setNext {next : Nat}
    (wreck : Wreck pages before heap region (front ++ entry :: back)) (bound : next < 2 ^ 64) :
    Segment (heap.setMallocFields entry.addr [(.next, next)]).nextBlock
      (heap.setMallocFields entry.addr [(.next, next)]).prevBlock 0
      (front.map Entry.addr ++ [entry.addr]) next := by
  have entryMem : entry ∈ front ++ entry :: back := by simp
  have split : front.map Entry.addr ++ entry.addr :: back.map Entry.addr =
      (front.map Entry.addr ++ [entry.addr]) ++ back.map Entry.addr := by simp
  have links := wreck.chain.links
  rw [List.map_append, List.map_cons, split, segment_append] at links
  have header := fun x (member : x ∈ front ++ entry :: back) =>
    wreck.header_setNext member entryMem bound
  apply links.1.retail
  · rw [Heap.nextBlock, header entry entryMem, if_pos rfl]
  · intro node member
    obtain ⟨x, xMem, rfl⟩ := List.mem_map.mp member
    have inSides : x ∈ front ++ back := List.mem_append_left _ xMem
    rw [Heap.nextBlock, header x (mem_append_cons.mpr (Or.inr inSides)),
      if_neg (wreck.ne_of_sides inSides)]
  · intro node member
    have found : ∃ x ∈ front ++ entry :: back, x.addr = node := by
      rcases List.mem_append.mp member with inFront | same
      · obtain ⟨x, xMem, rfl⟩ := List.mem_map.mp inFront
        exact ⟨x, List.mem_append_left _ xMem, rfl⟩
      · exact ⟨entry, entryMem, (List.mem_singleton.mp same).symm⟩
    obtain ⟨x, xMem, rfl⟩ := found
    rw [Heap.prevBlock, header x xMem]
    rfl

/-- The walk of the check starts at the first block. -/
theorem headD_eq {nodes : List Nat} {stop : Nat}
    (wreck : Wreck pages before heap region (front ++ entry :: back)) :
    ((front.map Entry.addr ++ entry.addr :: nodes).headD stop) =
      firstMallocHeaderInMMAP region.base := by
  rw [wreck.firstEq]
  cases front <;> rfl

/-- Between the two stores of a split the back link of the next block is
missing. -/
theorem recoverable_insert {rest next : Entry}
    (wreck : Wreck pages before heap region (front ++ entry :: next :: back))
    (restPrev : heap.prevBlock rest.addr = entry.addr)
    (restNext : heap.nextBlock rest.addr = heap.nextBlock entry.addr)
    (behind : entry.addr + 8192 ≤ rest.addr) (ahead : rest.addr + 8192 ≤ next.addr) :
    Recoverable (heap.setMallocFields entry.addr [(.next, rest.addr)]) region.base := by
  have entryMem : entry ∈ front ++ entry :: next :: back := by simp
  have nextMem : next ∈ front ++ entry :: next :: back := by simp
  have nextBound := wreck.addr_lt nextMem
  have restBound : rest.addr < 2 ^ 64 := by omega
  have links := wreck.chain.links
  rw [List.map_append, List.map_cons] at links
  have entryNext : heap.nextBlock entry.addr = next.addr := links.links.2
  have nextPrev : heap.prevBlock next.addr = entry.addr := (segment_append.mp links).2.2.2.1
  have restHeader : (heap.setMallocFields entry.addr [(.next, rest.addr)]).mallocHeader
      rest.addr = heap.mallocHeader rest.addr :=
    Heap.mallocHeader_setMallocFields_apart _ (Or.inr behind)
  have nextHeader := wreck.header_setNext nextMem entryMem restBound
  apply recoverable_of_broken (front.map Entry.addr ++ [entry.addr]) rest.addr next.addr
  · rw [List.append_assoc]
    exact wreck.headD_eq
  · rw [segment_append, List.getLastD_concat]
    refine ⟨wreck.segment_setNext restBound, ?_, ?_, trivial⟩
    · rw [Heap.prevBlock, restHeader]
      exact restPrev
    · rw [Heap.nextBlock, restHeader]
      exact restNext.trans entryNext
  · intro node member
    simp only [List.append_assoc, List.mem_append, List.mem_map, List.mem_singleton] at member
    rcases member with ⟨x, xMem, rfl⟩ | rfl | rfl
    · exact wreck.nonzero x (List.mem_append_left _ xMem)
    · exact wreck.nonzero entry entryMem
    · omega
  · exact wreck.nonzero next nextMem
  · rw [Heap.prevBlock, nextHeader]
    intro hit
    have same : entry.addr = rest.addr := nextPrev.symm.trans hit
    omega

/-- Between the two stores of a merge the back link of the next block is
missing. -/
theorem recoverable_remove {gone next : Entry}
    (wreck : Wreck pages before heap region (front ++ entry :: gone :: next :: back)) :
    Recoverable (heap.setMallocFields entry.addr [(.next, heap.nextBlock gone.addr)])
      region.base := by
  have entryMem : entry ∈ front ++ entry :: gone :: next :: back := by simp
  have nextMem : next ∈ front ++ entry :: gone :: next :: back := by simp
  have nextBound := wreck.addr_lt nextMem
  have links := wreck.chain.links
  rw [List.map_append, List.map_cons] at links
  have tail := (segment_append.mp links).2.2.2
  have goneNext : heap.nextBlock gone.addr = next.addr := tail.2.1
  have nextPrev : heap.prevBlock next.addr = gone.addr := tail.2.2.1
  have nextHeader := wreck.header_setNext nextMem entryMem nextBound
  rw [goneNext]
  apply recoverable_of_broken (front.map Entry.addr) entry.addr next.addr
  · exact wreck.headD_eq
  · exact wreck.segment_setNext nextBound
  · intro node member
    simp only [List.mem_append, List.mem_map, List.mem_singleton] at member
    rcases member with ⟨x, xMem, rfl⟩ | rfl
    · exact wreck.nonzero x (List.mem_append_left _ xMem)
    · exact wreck.nonzero entry entryMem
  · exact wreck.nonzero next nextMem
  · rw [Heap.prevBlock, nextHeader]
    intro hit
    have same : gone.addr = entry.addr := nextPrev.symm.trans hit
    have goneMem : gone ∈ front ++ gone :: next :: back := by simp
    exact wreck.ne_of_sides goneMem same

end Wreck

end VgcMalloc
