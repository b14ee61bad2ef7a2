import VgcMalloc.Guarantees.Tiling
import VgcMalloc.Refine.Requests
import VgcMalloc.Refine.Wreck

/-!
# Recovery after an owner's death

The process that holds the mutexes may die after any store of a grant or of a
release.  The list it leaves is exactly tiled, or refused by the check, unless
it dies between the store that changes the size of a block and the store of
its forward link: there the check accepts a list that is not tiled.
-/

namespace VgcMalloc

open Program Tiling Linked

/-- The heap after a store or a change of protection. -/
def Action.after : Action → Option Heap
  | .lock _ _ _ _ => none
  | .unlock _ _ _ => none
  | .storeMmap _ _ after => some after
  | .storeMalloc _ _ after => some after
  | .protect _ after => some after

/-- The last store before the death was to the size of a block of the list, or
to its status, and the block has another size than before; the store of its
forward link comes next. -/
def Torn (before : Heap) (mmapBlock : Nat) : Action → Prop
  | .storeMalloc block field after =>
      (field = .size ∨ field = .status) ∧ ∃ entry ∈ before.blocks mmapBlock,
        entry.addr = block ∧ (after.mallocHeader block).size ≠ entry.size
  | _ => False

/-- Every listed MMAP can be recovered after the action unless it tears the
block list that is being edited. -/
def Survives (before : Heap) (mmapBlock : Nat) (action : Action) : Prop :=
  ∀ after, action.after = some after →
    ((∀ other ∈ before.mmaps, Recoverable after other) ↔ ¬Torn before mmapBlock action)

variable {env : Env} {heap before after : Heap} {held : List Mutex} {pages : MmapPages}
  {guarded : Bool} {abstract : AbstractHeap} {region : Region} {front back entries : List Entry}
  {entry : Entry}

/-! ## The other MMAPs -/

/-- Nothing outside of the region has changed. -/
theorem memory_of_confined {x : Nat} (confined : WritesOnly region region.Holds before heap)
    (room : 16384 ≤ region.length) (outside : x < region.base ∨ region.base + region.length ≤ x) :
    heap.memory x = before.memory x := by
  apply confined.memory x (by omega)
  rintro header ⟨low, high⟩
  omega

/-- The lists of the other MMAPs stay as they were. -/
theorem Represents.recoverable_other {other : Nat}
    (rep : Represents pages guarded before abstract) (member : region ∈ abstract.regions)
    (confined : WritesOnly region region.Holds before heap) (listed : other ∈ before.mmaps)
    (ne : other ≠ region.base) : Recoverable heap other := by
  rw [rep.mmaps_eq] at listed
  obtain ⟨home, homeMem, rfl⟩ := rep.listed listed
  have homeNe : region ≠ home := fun same => ne (congrArg Region.base same.symm)
  have apart := rep.wellFormed.disjoint_of_ne member homeMem homeNe
  have room := (rep.wellFormed.placed region member).room
  have homeRoom := (rep.wellFormed.placed home homeMem).room
  have old := rep.linkedRegion homeMem
  unfold Region.Disjoint at apart
  have same : ∀ x, home.base ≤ x → x < home.base + home.length →
      heap.memory x = before.memory x :=
    fun x low high => memory_of_confined confined room (by omega)
  have linked : LinkedRegion pages heap home (abstract.entries home.base) := by
    apply old.congr confined.mapped confined.shared
    · have header : heap.mmapHeader home.base = before.mmapHeader home.base :=
        Bytes.mmapHeader_congr fun x low high => same x low (by omega)
      rw [header]
      exact ⟨rfl, rfl⟩
    · intro x xMem
      have bounds := old.inside x xMem
      have header : heap.mallocHeader x.addr = before.mallocHeader x.addr :=
        Bytes.mallocHeader_congr fun y low high => same y (by omega) (by omega)
      rw [Heap.nextBlock, Heap.prevBlock, header]
      exact ⟨rfl, rfl, rfl⟩
  exact linked.recoverable_iff.mpr (rep.wellFormed.tiles home homeMem)

/-- The MMAP whose list is edited, and what it looked like before. -/
structure Edited (pages : MmapPages) (guarded : Bool) (before : Heap) (region : Region)
    (entries : List Entry) : Prop where
  rep : Represents pages guarded before before.abstraction
  member : region ∈ before.mapped
  listed : region.base ∈ before.mmaps
  blocks : before.blocks region.base = entries

namespace Edited

theorem tiles (edited : Edited pages guarded before region entries) :
    Contiguous 8192 (region.base + 4096) entries (region.base + region.length) := by
  rw [← edited.blocks]
  exact edited.rep.wellFormed.tiles region edited.member

theorem wreck (edited : Edited pages guarded before region entries) :
    Wreck pages before before region entries := by
  rw [← edited.blocks]
  exact edited.rep.wreck edited.member

/-- Only the edited list can be torn. -/
theorem recoverable_iff (edited : Edited pages guarded before region entries)
    (confined : WritesOnly region region.Holds before heap) :
    (∀ other ∈ before.mmaps, Recoverable heap other) ↔ Recoverable heap region.base := by
  constructor
  · intro all
    exact all region.base edited.listed
  · intro one other listed
    by_cases same : other = region.base
    · exact same ▸ one
    · exact edited.rep.recoverable_other edited.member confined listed same

variable {old : List Entry} {action : Action}

/-- An action after which the list is linked survives exactly when the list is
tiled. -/
theorem survives (edited : Edited pages guarded before region old)
    (afterIs : action.after = some heap) (wreck : Wreck pages before heap region entries)
    (whole : Contiguous 8192 (region.base + 4096) entries (region.base + region.length) ↔
      ¬Torn before region.base action) : Survives before region.base action := by
  intro after found
  cases afterIs.symm.trans found
  rw [edited.recoverable_iff wreck.confined, wreck.recoverable_iff]
  exact whole

/-- An action after which the check refuses the list survives. -/
theorem survives_of_recoverable (edited : Edited pages guarded before region old)
    (afterIs : action.after = some heap) (confined : WritesOnly region region.Holds before heap)
    (recoverable : Recoverable heap region.base) (calm : ¬Torn before region.base action) :
    Survives before region.base action := by
  intro after found
  cases afterIs.symm.trans found
  rw [edited.recoverable_iff confined]
  exact iff_of_true recoverable calm

end Edited

/-! ## Edits that keep the list -/

section Edits

variable {old : List Entry} {block : Nat} {fields : List (MallocField × Nat)}

theorem not_torn_of_field {field : MallocField} {mmapBlock : Nat} (notSize : field ≠ .size)
    (notStatus : field ≠ .status) : ¬Torn before mmapBlock (.storeMalloc block field after) :=
  fun torn => torn.1.elim notSize notStatus

/-- A block that has kept its size is not torn. -/
theorem Edited.not_torn (edited : Edited pages guarded before region old)
    {field : MallocField} (wreck : Wreck pages before heap region old) :
    ¬Torn before region.base (.storeMalloc block field heap) := by
  rintro ⟨_, x, member, same, changed⟩
  rw [edited.blocks] at member
  rw [← same] at changed
  exact changed (wreck.chain.sizes x member)

/-- Stores that the list does not depend on survive. -/
theorem acts_writeKept (edited : Edited pages guarded before region old)
    (wreck : Wreck pages before heap region entries)
    (tiles : Contiguous 8192 (region.base + 4096) entries (region.base + region.length))
    (holds : region.Holds block)
    (kept : ∀ x ∈ entries, x.addr + 8192 ≤ block ∨ block + 8192 ≤ x.addr ∨
      x.addr = block ∧ ∀ field ∈ fields, (heap.mallocHeader block).Keeps field)
    (calm : entries = old ∨ ∀ field ∈ fields, field.1 ≠ .size ∧ field.1 ≠ .status) :
    Acts (Survives before region.base) (writeMallocFields block fields) env heap held
      fun _ last => last = (heap.setMallocFields block fields, held) ∧
        Wreck pages before last.1 region entries := by
  refine (acts_writeMallocFields ?_).mono ?_
  · intro front field value back split
    have some : ∀ other ∈ front ++ [(field, value)], other ∈ fields := by
      intro other member
      rw [split]
      simp only [List.mem_append, List.mem_cons, List.not_mem_nil, or_false] at member ⊢
      exact member.imp id Or.inl
    have stored : Wreck pages before (heap.setMallocFields block (front ++ [(field, value)]))
        region entries := by
      apply wreck.setMallocFields holds
      intro x member
      exact (kept x member).imp id (Or.imp id (And.imp id fun keeps other otherMem =>
        keeps other (some other otherMem)))
    apply edited.survives rfl stored
    apply iff_of_true tiles
    rcases calm with rfl | calm
    · exact edited.not_torn stored
    · have apart := calm (field, value) (some _ (by simp))
      exact not_torn_of_field apart.1 apart.2
  · rintro _ _ rfl
    exact ⟨rfl, wreck.setMallocFields holds kept⟩

/-- The same for stores to a header that is listed. -/
theorem acts_writeListed (edited : Edited pages guarded before region old)
    (wreck : Wreck pages before heap region entries)
    (tiles : Contiguous 8192 (region.base + 4096) entries (region.base + region.length))
    (member : entry ∈ entries)
    (keeps : ∀ field ∈ fields, (heap.mallocHeader entry.addr).Keeps field)
    (calm : entries = old ∨ ∀ field ∈ fields, field.1 ≠ .size ∧ field.1 ≠ .status) :
    Acts (Survives before region.base) (writeMallocFields entry.addr fields) env heap held
      fun _ last => last = (heap.setMallocFields entry.addr fields, held) ∧
        Wreck pages before last.1 region entries := by
  exact acts_writeKept edited wreck tiles (wreck.holds member) (wreck.kept_listed member keeps)
    calm

/-- A change of protection survives. -/
theorem survives_protect (edited : Edited pages guarded before region old)
    (wreck : Wreck pages before heap region entries)
    (tiles : Contiguous 8192 (region.base + 4096) entries (region.base + region.length))
    (page : Nat) (protNone : Nat → Bool) :
    Survives before region.base (.protect page { heap with protNone := protNone }) :=
  edited.survives rfl wreck.protect (iff_of_true tiles id)

theorem survives_lock {mutex : Mutex} {succeeded : Bool} {mmapBlock : Nat} :
    Survives before mmapBlock (.lock mutex succeeded heap held) := by
  intro after found
  cases found

theorem survives_unlock {mutex : Mutex} {succeeded : Bool} {mmapBlock : Nat} :
    Survives before mmapBlock (.unlock mutex succeeded held) := by
  intro after found
  cases found

/-! ## Merges -/

theorem tiles_merged {start stop : Nat} {keeper gone : Entry}
    (tiles : Contiguous 8192 start (front ++ keeper :: gone :: back) stop) :
    Contiguous 8192 start (front ++ merged keeper gone :: back) stop := by
  obtain ⟨middle, left, keeperEq, goneEq, right⟩ := contiguous_append.mp tiles
  refine contiguous_append.mpr ⟨middle, left, keeperEq, ?_⟩
  have same : middle + 8192 + (merged keeper gone).size =
      middle + 8192 + keeper.size + 8192 + gone.size := by
    simp only [merged]
    omega
  rw [same]
  exact right

/-- A block of another size does not fit between its neighbours. -/
theorem not_tiles_of_size {start stop : Nat} {other : Entry}
    (tiles : Contiguous 8192 start (front ++ entry :: back) stop) (addrEq : other.addr = entry.addr)
    (ne : other.size ≠ entry.size) : ¬Contiguous 8192 start (front ++ other :: back) stop := by
  intro again
  have first := tiles.next_addr
  have second := again.next_addr
  omega

/-- A merge survives a death after each of its stores but the first. -/
theorem acts_absorbBlock {keeper gone : Entry} (edited : Edited pages guarded before region old)
    (wreck : Wreck pages before heap region (front ++ keeper :: gone :: back))
    (tiles : Contiguous 8192 (region.base + 4096) (front ++ keeper :: gone :: back)
      (region.base + region.length)) (known : keeper ∈ old) :
    Acts (Survives before region.base) (absorbBlock keeper.addr gone.addr) env heap held
      fun _ last => last.2 = held ∧
        Wreck pages before last.1 region (front ++ merged keeper gone :: back) := by
  have keeperMem : keeper ∈ front ++ keeper :: gone :: back := by simp
  have goneMem : gone ∈ front ++ keeper :: gone :: back := by simp
  have keeperBounds := wreck.inside keeper keeperMem
  have goneBounds := wreck.inside gone goneMem
  have user := wreck.placed.user
  have seam : gone.addr = keeper.addr + 8192 + keeper.size := tiles.next_addr
  unfold absorbBlock
  apply Records.seq (acts_vgcMunprotect fun protNone => survives_protect edited wreck tiles _ _)
  rintro _ _ ⟨protNone, rfl⟩
  replace wreck : Wreck pages before { heap with protNone := protNone } region
      (front ++ keeper :: gone :: back) := wreck.protect
  generalize { heap with protNone := protNone } = heap at wreck
  apply Records.seq acts_readMallocHeader
  rintro _ _ ⟨rfl, rfl⟩
  apply Records.seq acts_readMallocHeader
  rintro _ _ ⟨rfl, rfl⟩
  have inner : add64 gone.size 8192 = gone.size + 8192 := add64_of_lt (by omega)
  have sizeEq : add64 (heap.mallocHeader keeper.addr).size
      (add64 (heap.mallocHeader gone.addr).size mallocHeaderSize) =
        keeper.size + (gone.size + 8192) := by
    rw [wreck.chain.sizes keeper keeperMem, wreck.chain.sizes gone goneMem, mallocHeaderSize_eq,
      inner, add64_of_lt (by omega)]
  rw [sizeEq]
  have grown : Acts (Survives before region.base)
      (writeMallocField keeper.addr .size (keeper.size + (gone.size + 8192))) env heap held
      fun _ after => after.2 = held ∧ after.1.nextBlock gone.addr = heap.nextBlock gone.addr ∧
        Wreck pages before after.1 region (front ++ merged keeper gone :: gone :: back) := by
    -- the blocks overlap now, and the check does not see it
    have torn : Wreck pages before
        (heap.setMallocFields keeper.addr [(.size, keeper.size + (gone.size + 8192))]) region
        (front ++ merged keeper gone :: gone :: back) := wreck.setSize (by omega)
    refine (acts_writeMallocField ?_).mono ?_
    · apply edited.survives rfl torn
      apply iff_of_false
      · refine not_tiles_of_size tiles (rfl : (merged keeper gone).addr = keeper.addr) ?_
        simp only [merged]
        omega
      · refine not_not_intro ⟨Or.inl rfl, keeper, edited.blocks.symm ▸ known, rfl, ?_⟩
        have stored := torn.chain.sizes (merged keeper gone) (by simp)
        simp only [merged] at stored
        have storedSize : ((heap.setMallocField keeper.addr .size
            (keeper.size + (gone.size + 8192))).mallocHeader keeper.addr).size =
              keeper.size + (gone.size + 8192) := stored
        omega
    · rintro _ _ rfl
      refine ⟨rfl, ?_, torn⟩
      have same : (heap.setMallocFields keeper.addr
          [(.size, keeper.size + (gone.size + 8192))]).mallocHeader gone.addr =
            heap.mallocHeader gone.addr :=
        Heap.mallocHeader_setMallocFields_apart _ (Or.inr (by omega))
      exact congrArg MallocHeader.next same
  have goneNext : heap.nextBlock gone.addr = (back.map Entry.addr).headD 0 := by
    have links := wreck.chain.links
    rw [List.map_append, List.map_cons] at links
    exact (segment_append.mp links).2.2.2.2.1
  have whole := tiles_merged tiles
  have nextIs : (heap.mallocHeader gone.addr).next = (back.map Entry.addr).headD 0 := goneNext
  rw [nextIs]
  have unlinked : Acts (Survives before region.base)
      (writeMallocFields keeper.addr [(.size, keeper.size + (gone.size + 8192)),
        (.next, (back.map Entry.addr).headD 0)]) env heap held
      fun _ after => after.2 = held ∧ ∃ middle,
        Wreck pages before middle region (front ++ merged keeper gone :: gone :: back) ∧
          middle.nextBlock gone.addr = (back.map Entry.addr).headD 0 ∧
          after.1 = middle.setMallocFields keeper.addr
            [(.next, (back.map Entry.addr).headD 0)] := by
    simp only [writeMallocFields]
    apply Records.seq grown
    rintro _ ⟨middle, _⟩ ⟨rfl, sameNext, torn⟩
    have middleNext := sameNext.trans goneNext
    refine Records.seq (acts_writeMallocField ?_) ?_
    · -- the list is tiled again, unless its next back link is missing
      cases back with
      | nil =>
          have removed := torn.remove
          rw [middleNext] at removed
          rw [List.map_nil, List.headD_nil, Heap.relink_of_null] at removed
          exact edited.survives rfl removed (iff_of_true whole
            (not_torn_of_field (by simp) (by simp)))
      | cons next rest =>
          have refused := torn.recoverable_remove
          rw [middleNext] at refused
          have confined := torn.confined.trans
            (WritesOnly.setMallocFields [(.next, next.addr)] (wreck.holds keeperMem))
          exact edited.survives_of_recoverable rfl confined refused
            (not_torn_of_field (by simp) (by simp))
    · rintro _ _ rfl
      exact Records.pure ⟨rfl, middle, torn, middleNext, rfl⟩
  apply Records.seq unlinked
  rintro _ ⟨_, _⟩ ⟨rfl, middle, torn, middleNext, rfl⟩
  have removed := torn.remove
  rw [middleNext] at removed
  apply Records.when
  · intro present
    rw [Heap.relink, Heap.linkBack, if_neg present] at removed
    refine (acts_writeMallocField ?_).mono ?_
    · exact edited.survives rfl removed (iff_of_true whole
        (not_torn_of_field (by simp) (by simp)))
    · rintro _ _ rfl
      exact ⟨rfl, removed⟩
  · intro null
    rw [Heap.relink, Heap.linkBack, if_pos (not_ne_iff.mp null)] at removed
    exact ⟨rfl, removed⟩

/-- Merging with the next block leaves a tiled list in which the block keeps
its place. -/
theorem acts_freeBlocksNext (edited : Edited pages guarded before region old)
    (wreck : Wreck pages before heap region (front ++ entry :: back))
    (tiles : Contiguous 8192 (region.base + 4096) (front ++ entry :: back)
      (region.base + region.length)) (known : entry ∈ old) :
    Acts (Survives before region.base) (freeBlocksNext entry.addr) env heap held
      fun _ last => last.2 = held ∧ ∃ kept rest, kept.addr = entry.addr ∧
        Wreck pages before last.1 region (front ++ kept :: rest) ∧
        Contiguous 8192 (region.base + 4096) (front ++ kept :: rest)
          (region.base + region.length) := by
  have links := wreck.chain.links
  rw [List.map_append, List.map_cons] at links
  have nextIs : (heap.mallocHeader entry.addr).next = (back.map Entry.addr).headD 0 :=
    links.links.2
  unfold freeBlocksNext
  apply Records.seq acts_readMallocHeader
  rintro _ _ ⟨rfl, rfl⟩
  rw [nextIs]
  apply Records.when
  · intro present
    apply Records.seq acts_readMallocHeader
    rintro _ _ ⟨rfl, rfl⟩
    apply Records.when
    · intro _
      cases back with
      | nil => exact absurd rfl present
      | cons gone rest =>
          refine (acts_absorbBlock edited wreck tiles known).mono ?_
          rintro _ _ ⟨same, merges⟩
          exact ⟨same, merged entry gone, rest, rfl, merges, tiles_merged tiles⟩
    · intro _
      exact ⟨rfl, entry, back, rfl, wreck, tiles⟩
  · intro _
    exact ⟨rfl, entry, back, rfl, wreck, tiles⟩

theorem acts_freeBlocksPrev (edited : Edited pages guarded before region old)
    (wreck : Wreck pages before heap region (front ++ entry :: back))
    (tiles : Contiguous 8192 (region.base + 4096) (front ++ entry :: back)
      (region.base + region.length)) (known : ∀ x ∈ front, x ∈ old) :
    Acts (Survives before region.base) (freeBlocksPrev entry.addr) env heap held
      fun _ _ => True := by
  have links := wreck.chain.links
  rw [List.map_append, List.map_cons] at links
  have prevIs : (heap.mallocHeader entry.addr).prev = (front.map Entry.addr).getLastD 0 :=
    links.links.1
  unfold freeBlocksPrev
  apply Records.seq acts_readMallocHeader
  rintro _ _ ⟨rfl, rfl⟩
  rw [prevIs]
  apply Records.when
  · intro present
    apply Records.seq acts_readMallocHeader
    rintro _ _ ⟨rfl, rfl⟩
    apply Records.when
    · intro _
      rcases List.eq_nil_or_concat front with rfl | ⟨front', left, rfl⟩
      · exact absurd rfl present
      · have split : front' ++ [left] ++ entry :: back = front' ++ left :: entry :: back := by simp
        rw [List.concat_eq_append] at *
        rw [split] at wreck tiles
        rw [List.map_append, List.map_singleton, List.getLastD_concat]
        exact (acts_absorbBlock edited wreck tiles (known left (by simp))).mono
          fun _ _ _ => trivial
    · intro _
      trivial
  · intro _
    trivial

/-- Every store of a release survives but the one that changes a size. -/
theorem acts_releaseBlock (edited : Edited pages guarded before region (front ++ entry :: back)) :
    Acts (Survives before region.base) (releaseBlock entry.addr) env
      (before.countDown region.base) held fun _ _ => True := by
  have tiles := edited.tiles
  have entryMem : entry ∈ front ++ entry :: back := by simp
  have start : Wreck pages before (before.countDown region.base) region
      (front ++ entry :: back) := edited.wreck.setElements
  have freed : Wreck pages before ((before.countDown region.base).setMallocFields entry.addr
      [(.status, MallocStatus.free.toWord)]) region (front ++ entry :: back) :=
    start.setListed entryMem fun field member => by
      rw [List.mem_singleton.mp member]
      exact MallocHeader.keeps_status _ _
  unfold releaseBlock
  apply Records.seq (acts_writeMallocField ?_)
  · rintro _ _ rfl
    apply Records.seq (acts_vgcMunprotect fun protNone =>
      survives_protect edited freed tiles _ _)
    rintro _ _ ⟨protNone, rfl⟩
    apply Records.seq (acts_freeBlocksNext edited freed.protect tiles entryMem)
    rintro _ ⟨_, _⟩ ⟨rfl, kept, rest, addrEq, wreck, tiles⟩
    rw [← addrEq]
    exact acts_freeBlocksPrev edited wreck tiles fun x member => List.mem_append_left _ member
  · exact edited.survives rfl freed (iff_of_true tiles (edited.not_torn freed))

/-! ## Grants -/

/-- A store that keeps the list survives. -/
theorem survives_listed (edited : Edited pages guarded before region old)
    (wreck : Wreck pages before heap region old) {field : MallocField} {value : Nat}
    (member : entry ∈ old) (keeps : (heap.mallocHeader entry.addr).Keeps (field, value)) :
    Survives before region.base
        (.storeMalloc entry.addr field (heap.setMallocField entry.addr field value)) ∧
      Wreck pages before (heap.setMallocField entry.addr field value) region old := by
  have stored : Wreck pages before (heap.setMallocFields entry.addr [(field, value)]) region old :=
    wreck.setListed member fun other otherMem => by
      rw [List.mem_singleton.mp otherMem]
      exact keeps
  exact ⟨edited.survives rfl stored (iff_of_true edited.tiles (edited.not_torn stored)), stored⟩

/-- The count of the blocks in use goes up before the header is stored to. -/
theorem acts_countUp (edited : Edited pages guarded before region old)
    (wreck : Wreck pages before heap region old) {value : Nat} :
    Acts (Survives before region.base) (writeMmapField region.base .elements value) env heap held
      fun _ last => last = (heap.setMmapFields region.base [(.elements, value)], held) ∧
        Wreck pages before last.1 region old := by
  refine (acts_writeMmapField ?_).mono ?_
  · exact edited.survives rfl wreck.setElements (iff_of_true edited.tiles id)
  · rintro _ _ rfl
    exact ⟨rfl, wreck.setElements⟩

/-- The stores of a grant that does not split keep the list. -/
theorem acts_takeWhole (edited : Edited pages guarded before region (front ++ entry :: back))
    (wreck : Wreck pages before heap region (front ++ entry :: back)) :
    Acts (Survives before region.base) (do
        let mmapHeader ← readMmapHeader region.base
        writeMmapField region.base .elements (add64 mmapHeader.elements 1)
        writeMallocFields entry.addr
          [(.mmapBlock, region.base), (.size, entry.size), (.status, MallocStatus.busy.toWord),
            (.next, (back.map Entry.addr).headD 0)]
        when ((back.map Entry.addr).headD 0 ≠ 0) do
          let nextHeader ← readMallocHeader ((back.map Entry.addr).headD 0)
          when (nextHeader.next ≠ 0)
            (writeMallocField nextHeader.next .prev ((back.map Entry.addr).headD 0))
        writeMallocFields entry.addr [(.checkStart, checksum), (.checkEnd, checksum)]
        return entry.size) env heap held fun _ last => last.2 = held ∧
          Wreck pages before last.1 region (front ++ entry :: back) := by
  have entryMem : entry ∈ front ++ entry :: back := by simp
  have part : ∀ x ∈ back, x ∈ front ++ entry :: back := fun x member => by simp [member]
  have nextBound := wreck.headD_lt part
  apply Records.seq acts_readMmapHeader
  rintro _ _ ⟨rfl, rfl⟩
  apply Records.seq (acts_countUp edited wreck)
  rintro _ _ ⟨rfl, counted⟩
  generalize heap.setMmapFields region.base _ = heap at counted
  have entryBounds := counted.inside entry entryMem
  have user := counted.placed.user
  have sizeEq := counted.chain.sizes entry entryMem
  have links := counted.chain.links
  rw [List.map_append, List.map_cons] at links
  have nextEq : (heap.mallocHeader entry.addr).next = (back.map Entry.addr).headD 0 :=
    links.links.2
  apply Records.seq (acts_writeListed edited counted edited.tiles entryMem ?_ (Or.inl rfl))
  · rintro _ _ ⟨rfl, taken⟩
    generalize heap.setMallocFields entry.addr _ = heap at taken
    have linked : Acts (Survives before region.base)
        (when ((back.map Entry.addr).headD 0 ≠ 0) do
          let nextHeader ← readMallocHeader ((back.map Entry.addr).headD 0)
          when (nextHeader.next ≠ 0)
            (writeMallocField nextHeader.next .prev ((back.map Entry.addr).headD 0))) env heap held
        fun _ last => last.2 = held ∧
          Wreck pages before last.1 region (front ++ entry :: back) := by
      apply Records.when
      · intro present
        apply Records.seq acts_readMallocHeader
        rintro _ _ ⟨rfl, rfl⟩
        cases back with
        | nil => exact absurd rfl present
        | cons next rest =>
            have links := taken.chain.links
            rw [List.map_append, List.map_cons] at links
            have tail := (segment_append.mp links).2.2.2
            have restEq : (heap.mallocHeader next.addr).next = (rest.map Entry.addr).headD 0 :=
              tail.2.1
            rw [List.map_cons, List.headD_cons, restEq]
            apply Records.when
            · intro more
              cases rest with
              | nil => exact absurd rfl more
              | cons second rest =>
                  have secondPrev : (heap.mallocHeader second.addr).prev = next.addr := tail.2.2.1
                  have secondMem : second ∈ front ++ entry :: next :: second :: rest := by simp
                  have stored := survives_listed edited taken secondMem
                    (MallocHeader.keeps_prev secondPrev.symm nextBound)
                  refine (acts_writeMallocField stored.1).mono ?_
                  rintro _ _ rfl
                  exact ⟨rfl, stored.2⟩
            · intro _
              exact ⟨rfl, taken⟩
      · intro _
        exact ⟨rfl, taken⟩
    apply Records.seq linked
    rintro _ ⟨heap, _⟩ ⟨rfl, kept⟩
    apply Records.seq (acts_writeListed edited kept edited.tiles entryMem
      (fun field member => MallocHeader.keeps_checks _ member) (Or.inl rfl))
    rintro _ _ ⟨rfl, done⟩
    exact Records.pure ⟨rfl, done⟩
  · simp only [List.forall_mem_cons]
    refine ⟨MallocHeader.keeps_mmapBlock _ _, MallocHeader.keeps_size sizeEq.symm (by omega),
      MallocHeader.keeps_status _ _, MallocHeader.keeps_next nextEq.symm nextBound, ?_⟩
    exact fun _ none => absurd none List.not_mem_nil

/-- The block behind the one that is split off. -/
def restOf (length : Nat) (entry : Entry) : Entry :=
  ⟨entry.addr + 8192 + length, entry.size - (length + 8192), false⟩

theorem tiles_split {start stop length : Nat} (left : length + 8192 < entry.size)
    (tiles : Contiguous 8192 start (front ++ entry :: back) stop) :
    Contiguous 8192 start (front ++ { entry with size := length } :: restOf length entry :: back)
      stop := by
  obtain ⟨middle, before, entryEq, after⟩ := contiguous_append.mp tiles
  refine contiguous_append.mpr ⟨middle, before, entryEq, ?_, ?_⟩
  · simp only [restOf]
    omega
  · have same : middle + 8192 + length + 8192 + (restOf length entry).size =
        middle + 8192 + entry.size := by
      simp only [restOf]
      omega
    rw [same]
    exact after

/-- The header of the rest has been written. -/
structure RestWritten (heap : Heap) (length : Nat) (entry : Entry) : Prop where
  size : (heap.mallocHeader (restOf length entry).addr).size = (restOf length entry).size
  prev : heap.prevBlock (restOf length entry).addr = entry.addr
  next : heap.nextBlock (restOf length entry).addr = heap.nextBlock entry.addr

/-- Stores to the block that is split leave the rest alone. -/
theorem RestWritten.congr {length : Nat} (rest : RestWritten heap length entry)
    (restSame : after.mallocHeader (restOf length entry).addr =
      heap.mallocHeader (restOf length entry).addr)
    (nextSame : after.nextBlock entry.addr = heap.nextBlock entry.addr) :
    RestWritten after length entry where
  size := restSame ▸ rest.size
  prev := (congrArg MallocHeader.prev restSame).trans rest.prev
  next := ((congrArg MallocHeader.next restSame).trans rest.next).trans nextSame.symm

theorem restOf_addr_ge (length : Nat) (entry : Entry) :
    entry.addr + 8192 ≤ (restOf length entry).addr := by
  simp only [restOf]
  omega

/-- A store to a field of the block that is split, other than its forward link,
leaves the rest and that link alone. -/
theorem RestWritten.setMallocField {length value : Nat} {field : MallocField}
    (rest : RestWritten heap length entry)
    (other : ∀ header : MallocHeader, (header.set field value).next = header.next) :
    RestWritten (heap.setMallocField entry.addr field value) length entry := by
  apply rest.congr
  · have apart := restOf_addr_ge length entry
    exact Heap.mallocHeader_setMallocFields_apart [(field, value)] (Or.inr apart)
  · rw [Heap.nextBlock, Heap.mallocHeader_setMallocField]
    exact other _

theorem RestWritten.protect {length : Nat} {protNone : Nat → Bool}
    (rest : RestWritten heap length entry) :
    RestWritten { heap with protNone := protNone } length entry :=
  ⟨rest.size, rest.prev, rest.next⟩

theorem RestWritten.of_fields {length mmapBlock next : Nat} (mmapBound : mmapBlock < 2 ^ 64)
    (sizeBound : (restOf length entry).size < 2 ^ 64) (entryBound : entry.addr < 2 ^ 64)
    (nextBound : next < 2 ^ 64) (nextEq : heap.nextBlock entry.addr = next) :
    RestWritten (heap.setMallocFields (restOf length entry).addr
      (restFields mmapBlock (restOf length entry).size entry.addr next)) length entry := by
  have written : (heap.setMallocFields (restOf length entry).addr
      (restFields mmapBlock (restOf length entry).size entry.addr next)).mallocHeader
        (restOf length entry).addr = _ :=
    mallocHeader_restFields heap mmapBound sizeBound entryBound nextBound
  have same : (heap.setMallocFields (restOf length entry).addr
      (restFields mmapBlock (restOf length entry).size entry.addr next)).mallocHeader entry.addr =
        heap.mallocHeader entry.addr :=
    Heap.mallocHeader_setMallocFields_apart _ (Or.inl (restOf_addr_ge length entry))
  constructor
  · rw [written]
  · rw [Heap.prevBlock, written]
  · rw [Heap.nextBlock, Heap.nextBlock, written, same]
    exact nextEq.symm

/-- The stores of a grant to the block that is split: while its size is the new
one and its forward link the old one, the list is torn. -/
theorem acts_writeSplit {length : Nat}
    (edited : Edited pages guarded before region (front ++ entry :: back))
    (wreck : Wreck pages before heap region (front ++ entry :: back))
    (left : length + 8192 < entry.size) (rest : RestWritten heap length entry) :
    Acts (Survives before region.base) (writeMallocFields entry.addr
        [(.mmapBlock, region.base), (.size, length), (.status, MallocStatus.busy.toWord),
          (.next, (restOf length entry).addr)]) env heap held
      fun _ last => last.2 = held ∧ ∃ middle, RestWritten middle length entry ∧
        Wreck pages before middle region (front ++ { entry with size := length } :: back) ∧
        last.1 = middle.setMallocFields entry.addr [(.next, (restOf length entry).addr)] := by
  have entryMem : entry ∈ front ++ entry :: back := by simp
  have entryBounds := wreck.inside entry entryMem
  have sizeNe : ({ entry with size := length } : Entry).size ≠ entry.size := by
    simp only
    omega
  have addrEq : ({ entry with size := length } : Entry).addr = entry.addr := rfl
  have overlap := not_tiles_of_size edited.tiles addrEq sizeNe
  -- the list with the new size is linked, but has a gap
  have torn : ∀ {heap : Heap} {field : MallocField}, (field = .size ∨ field = .status) →
      Wreck pages before heap region (front ++ { entry with size := length } :: back) →
        Survives before region.base (.storeMalloc entry.addr field heap) := by
    intro heap field either wreck
    apply edited.survives rfl wreck
    apply iff_of_false overlap
    refine not_not_intro ⟨either, entry, edited.blocks.symm ▸ entryMem, rfl, ?_⟩
    have stored := wreck.chain.sizes { entry with size := length } (by simp)
    rw [stored]
    exact sizeNe
  simp only [writeMallocFields]
  have named := survives_listed edited wreck entryMem
    (MallocHeader.keeps_mmapBlock _ region.base)
  apply Records.seq (acts_writeMallocField named.1)
  rintro _ _ rfl
  replace rest : RestWritten (heap.setMallocField entry.addr .mmapBlock region.base) length
      entry := rest.setMallocField fun _ => rfl
  replace wreck := named.2
  generalize heap.setMallocField entry.addr .mmapBlock region.base = heap at rest wreck
  have sized : Wreck pages before (heap.setMallocField entry.addr .size length) region
      (front ++ { entry with size := length } :: back) := wreck.setSize (by omega)
  apply Records.seq (acts_writeMallocField (torn (Or.inl rfl) sized))
  rintro _ _ rfl
  replace rest : RestWritten (heap.setMallocField entry.addr .size length) length entry :=
    rest.setMallocField fun _ => rfl
  generalize heap.setMallocField entry.addr .size length = heap at rest sized
  have shortMem : { entry with size := length } ∈ front ++ { entry with size := length } :: back :=
    by simp
  have busy : Wreck pages before
      (heap.setMallocFields entry.addr [(.status, MallocStatus.busy.toWord)]) region
      (front ++ { entry with size := length } :: back) := by
    apply sized.setListed shortMem
    intro field member
    rw [List.mem_singleton.mp member]
    exact MallocHeader.keeps_status _ _
  apply Records.seq (acts_writeMallocField (torn (Or.inr rfl) busy))
  rintro _ _ rfl
  replace rest : RestWritten
      (heap.setMallocFields entry.addr [(.status, MallocStatus.busy.toWord)]) length entry :=
    rest.setMallocField fun _ => rfl
  change Acts _ _ _ (heap.setMallocFields entry.addr [(.status, MallocStatus.busy.toWord)]) _ _
  generalize heap.setMallocFields entry.addr _ = heap at rest busy
  apply Records.seq (acts_writeMallocField ?_)
  · rintro _ _ rfl
    exact Records.pure ⟨rfl, heap, rest, busy, rfl⟩
  · -- the rest is linked in, unless the back link behind it is missing
    have fits := restOf_addr_ge length entry
    have restSize : (restOf length entry).addr + 8192 + (restOf length entry).size =
        entry.addr + 8192 + entry.size := by
      simp only [restOf]
      omega
    cases back with
    | nil =>
        have inserted := busy.insert rest.size rest.prev rest.next fits (by simp) (by omega)
        rw [List.map_nil, List.headD_nil, Heap.relink_of_null] at inserted
        exact edited.survives rfl inserted (iff_of_true (tiles_split left edited.tiles)
          (not_torn_of_field (by simp) (by simp)))
    | cons next others =>
        have seam : next.addr = entry.addr + 8192 + entry.size := edited.tiles.next_addr
        have refused := busy.recoverable_insert rest.prev rest.next fits (by omega)
        have confined := busy.confined.trans (WritesOnly.setMallocFields
          [(.next, (restOf length entry).addr)] (busy.holds shortMem))
        exact edited.survives_of_recoverable rfl confined refused
          (not_torn_of_field (by simp) (by simp))

/-- A grant that splits survives a death except after the store of the size and
after the store of the status. -/
theorem acts_takeSplit {length : Nat}
    (edited : Edited pages guarded before region (front ++ entry :: back))
    (wreck : Wreck pages before heap region (front ++ entry :: back))
    (left : length + 8192 < entry.size) (rest : RestWritten heap length entry) :
    Acts (Survives before region.base) (do
        let mmapHeader ← readMmapHeader region.base
        writeMmapField region.base .elements (add64 mmapHeader.elements 1)
        writeMallocFields entry.addr
          [(.mmapBlock, region.base), (.size, length), (.status, MallocStatus.busy.toWord),
            (.next, (restOf length entry).addr)]
        when ((restOf length entry).addr ≠ 0) do
          let nextHeader ← readMallocHeader (restOf length entry).addr
          when (nextHeader.next ≠ 0)
            (writeMallocField nextHeader.next .prev (restOf length entry).addr)
        writeMallocFields entry.addr [(.checkStart, checksum), (.checkEnd, checksum)]
        return length) env heap held fun _ last => last.2 = held ∧
          Wreck pages before last.1 region
            (front ++ { entry with size := length } :: restOf length entry :: back) := by
  have entryMem : entry ∈ front ++ entry :: back := by simp
  have entryBounds := wreck.inside entry entryMem
  have fits := restOf_addr_ge length entry
  have restSize : (restOf length entry).addr + 8192 + (restOf length entry).size =
      entry.addr + 8192 + entry.size := by
    simp only [restOf]
    omega
  have tiles := tiles_split left edited.tiles
  apply Records.seq acts_readMmapHeader
  rintro _ _ ⟨rfl, rfl⟩
  apply Records.seq (acts_countUp edited wreck)
  rintro _ _ ⟨rfl, counted⟩
  have restCounted : RestWritten (heap.setMmapFields region.base
      [(.elements, add64 (heap.mmapHeader region.base).elements 1)]) length entry := by
    apply rest.congr
    · exact Heap.mallocHeader_setMmapFields _ (by omega)
    · exact congrArg MallocHeader.next (Heap.mallocHeader_setMmapFields _ (by omega))
  generalize heap.setMmapFields region.base _ = heap at counted restCounted
  apply Records.seq (acts_writeSplit edited counted left restCounted)
  rintro _ ⟨_, held⟩ ⟨rfl, middle, restMiddle, short, rfl⟩
  have ahead : ∀ x ∈ back, (restOf length entry).addr + 8192 ≤ x.addr := by
    intro x member
    have ordered := (List.pairwise_append.mp edited.tiles.pairwise).2.1
    have behind := List.rel_of_pairwise_cons ordered member
    omega
  have inserted := short.insert restMiddle.size restMiddle.prev restMiddle.next fits ahead
    (by omega)
  have links := short.chain.links
  rw [List.map_append, List.map_cons] at links
  have restNext : ((middle.setMallocFields entry.addr
      [(.next, (restOf length entry).addr)]).mallocHeader (restOf length entry).addr).next =
        (back.map Entry.addr).headD 0 := by
    rw [Heap.mallocHeader_setMallocFields_apart _ (Or.inr fits)]
    exact restMiddle.next.trans links.links.2
  have linked : Acts (Survives before region.base) (when ((restOf length entry).addr ≠ 0) do
      let nextHeader ← readMallocHeader (restOf length entry).addr
      when (nextHeader.next ≠ 0)
        (writeMallocField nextHeader.next .prev (restOf length entry).addr)) env
      (middle.setMallocFields entry.addr [(.next, (restOf length entry).addr)]) held
      fun _ last => last.2 = held ∧ Wreck pages before last.1 region
        (front ++ { entry with size := length } :: restOf length entry :: back) := by
    apply Records.when
    · intro _
      apply Records.seq acts_readMallocHeader
      rintro _ _ ⟨rfl, rfl⟩
      rw [restNext]
      apply Records.when
      · intro present
        rw [Heap.relink, Heap.linkBack, if_neg present] at inserted
        refine (acts_writeMallocField ?_).mono ?_
        · exact edited.survives rfl inserted (iff_of_true tiles
            (not_torn_of_field (by simp) (by simp)))
        · rintro _ _ rfl
          exact ⟨rfl, inserted⟩
      · intro null
        rw [Heap.relink, Heap.linkBack, if_pos (not_ne_iff.mp null)] at inserted
        exact ⟨rfl, inserted⟩
    · intro null
      omega
  apply Records.seq linked
  rintro _ ⟨heap, _⟩ ⟨rfl, kept⟩
  have shortMem : { entry with size := length } ∈
      front ++ { entry with size := length } :: restOf length entry :: back := by simp
  apply Records.seq (acts_writeListed edited kept tiles shortMem
    (fun field member => MallocHeader.keeps_checks _ member) (Or.inr ?_))
  · rintro _ _ ⟨rfl, done⟩
    exact Records.pure ⟨rfl, done⟩
  · simp only [List.forall_mem_cons]
    exact ⟨by simp, by simp, by simp⟩

theorem acts_grantBlock {length : Nat}
    (edited : Edited pages guarded before region (front ++ entry :: back))
    (bound : length + 8192 < 2 ^ 64) :
    Acts (Survives before region.base) (grantBlock region.base entry.addr length) env before held
      fun _ last => last.2 = held ∧ ∃ entries, ∃ granted ∈ entries, granted.addr = entry.addr ∧
        Wreck pages before last.1 region entries ∧
        Contiguous 8192 (region.base + 4096) entries (region.base + region.length) := by
  have wreck := edited.wreck
  have entryMem : entry ∈ front ++ entry :: back := by simp
  have entryBounds := wreck.inside entry entryMem
  have user := wreck.placed.user
  have sizeEq := wreck.chain.sizes entry entryMem
  have links := wreck.chain.links
  rw [List.map_append, List.map_cons] at links
  have nextEq : (before.mallocHeader entry.addr).next = (back.map Entry.addr).headD 0 :=
    links.links.2
  unfold grantBlock
  apply Records.seq acts_readMallocHeader
  rintro _ _ ⟨rfl, rfl⟩
  have blockSize : add64 length mallocHeaderSize = length + 8192 := add64_of_lt bound
  rw [blockSize, sizeEq, nextEq]
  clear blockSize
  simp only
  by_cases left : length + 8192 < entry.size
  · have inWord : entry.addr + (length + 8192) < 2 ^ 64 := by
      rw [← Nat.add_assoc]
      omega
    have restEq : add64 entry.addr (length + 8192) = (restOf length entry).addr := by
      rw [add64_of_lt inWord, restOf, Nat.add_comm length, Nat.add_assoc]
    have restSize : sub64 entry.size (length + 8192) = (restOf length entry).size :=
      sub64_of_le (Nat.le_of_lt left) (by omega)
    have fits := restOf_addr_ge length entry
    have restEnd : (restOf length entry).addr + 8192 + (restOf length entry).size =
        entry.addr + 8192 + entry.size := by
      simp only [restOf]
      omega
    generalize nextIs : (if entry.size > length + 8192 then add64 entry.addr (length + 8192)
      else (back.map Entry.addr).headD 0) = next
    rw [if_pos left, restEq] at nextIs
    subst nextIs
    rw [if_pos left, restSize]
    have written : Acts (Survives before region.base) (when (entry.size > length + 8192) do
        writeMallocFields (restOf length entry).addr
          (restFields region.base (restOf length entry).size entry.addr
            ((back.map Entry.addr).headD 0))
        let _ ← vgcMprotect (restOf length entry).addr) env before held fun _ after =>
          after.2 = held ∧ RestWritten after.1 length entry ∧
            Wreck pages before after.1 region (front ++ entry :: back) := by
      apply Records.when
      · intro _
        have apart : ∀ x ∈ front ++ entry :: back,
            x.addr + 8192 ≤ (restOf length entry).addr ∨
              (restOf length entry).addr + 8192 ≤ x.addr := by
          intro x member
          rcases mem_append_cons.mp member with rfl | other
          · exact Or.inl fits
          · have sides := apart_of_mem_sides edited.tiles other
            omega
        apply Records.seq (acts_writeKept edited wreck edited.tiles ⟨by omega, by omega⟩
          (fun x member => (apart x member).imp id Or.inl) (Or.inl rfl))
        rintro _ _ ⟨rfl, kept⟩
        apply Records.seq (acts_vgcMprotect fun protNone =>
          survives_protect edited kept edited.tiles _ _)
        rintro _ _ ⟨protNone, rfl⟩
        apply Records.pure
        have restWritten : RestWritten (before.setMallocFields (restOf length entry).addr
            (restFields region.base (restOf length entry).size entry.addr
              ((back.map Entry.addr).headD 0))) length entry :=
          RestWritten.of_fields (by omega) (by omega) (by omega)
            (wreck.headD_lt fun x member => by simp [member]) nextEq
        exact ⟨rfl, restWritten.protect, kept.protect⟩
      · intro none
        exact absurd left none
    apply Records.seq written
    rintro _ ⟨_, _⟩ ⟨rfl, rest, kept⟩
    refine (acts_takeSplit edited kept left rest).mono ?_
    rintro _ _ ⟨same, done⟩
    exact ⟨same, _, { entry with size := length }, by simp, rfl, done,
      tiles_split left edited.tiles⟩
  · generalize nextIs : (if entry.size > length + 8192 then add64 entry.addr (length + 8192)
      else (back.map Entry.addr).headD 0) = next
    rw [if_neg left] at nextIs
    subst nextIs
    rw [if_neg left]
    have skipped : Acts (Survives before region.base) (when (entry.size > length + 8192) do
        writeMallocFields ((back.map Entry.addr).headD 0)
          (restFields region.base (sub64 entry.size (length + 8192)) entry.addr
            ((back.map Entry.addr).headD 0))
        let _ ← vgcMprotect ((back.map Entry.addr).headD 0)) env before held fun _ after =>
          after = (before, held) :=
      Records.when (fun more => absurd more left) fun _ => rfl
    apply Records.seq skipped
    rintro _ _ rfl
    refine (acts_takeWhole edited wreck).mono ?_
    rintro _ _ ⟨same, done⟩
    exact ⟨same, _, entry, entryMem, rfl, done, edited.tiles⟩

/-- Storing the saved stack trace survives. -/
theorem acts_vgcStacktraceSave (edited : Edited pages guarded before region old)
    (wreck : Wreck pages before heap region entries)
    (tiles : Contiguous 8192 (region.base + 4096) entries (region.base + region.length))
    (member : entry ∈ entries) :
    Acts (Survives before region.base) (vgcStacktraceSave entry.addr) env heap held
      fun _ last => last.2 = held := by
  apply Records.seq (quiet_answer Env.backtrace).acts
  rintro frames _ rfl
  generalize (List.finRange 10).zip frames = saved
  apply Records.seq (acts_writeListed edited wreck tiles member ?_ (Or.inr ?_))
  · rintro _ _ ⟨rfl, traced⟩
    refine (acts_writeListed edited traced tiles member ?_ (Or.inr ?_)).mono ?_
    · intro field fieldMem
      rw [List.mem_singleton.mp fieldMem]
      exact fun _ same => same
    · intro field fieldMem
      rw [List.mem_singleton.mp fieldMem]
      exact ⟨by simp, by simp⟩
    · rintro _ _ ⟨rfl, _⟩
      rfl
  · intro field fieldMem
    obtain ⟨frame, _, rfl⟩ := List.mem_map.mp fieldMem
    exact fun _ same => same
  · intro field fieldMem
    obtain ⟨frame, _, rfl⟩ := List.mem_map.mp fieldMem
    exact ⟨by simp, by simp⟩

/-- Giving up the MMAP survives. -/
theorem acts_release_mutex {mutex : Mutex} {function title status : String} {mmapBlock : Nat} :
    Acts (Survives before mmapBlock) (orReport (pthreadMutexUnlock mutex) function title status)
      env heap held fun _ _ => True :=
  (acts_orReport_unlock fun _ => survives_unlock).mono fun _ _ _ => trivial

/-- Every store of an allocation in one MMAP survives but those of a split
between the size and the forward link. -/
theorem acts_allocMallocBlock {need : Nat} (edited : Edited pages guarded before region old) :
    Acts (Survives before region.base) (allocMallocBlock region.base need) env before held
      fun _ _ => True := by
  have stands := edited.rep.toStands
  have site := stands.site edited.member
  rw [abstraction_entries, edited.blocks] at site
  have walk := site.walkable
  have firstEq : add64 region.base mmapHeaderSize = (old.map Entry.addr).headD 0 := walk.first
  unfold allocMallocBlock
  apply Records.seq (acts_pthreadMutexLock fun _ => survives_lock)
  rintro _ _ (⟨rfl, _, rfl⟩ | ⟨rfl, rfl⟩)
  · simp only [Bool.not_true, Bool.false_eq_true, if_false]
    rw [firstEq]
    apply Records.seq (Quiet.acts_of_allows keeps_findFreeBlock
      (yields_findFreeBlock walk.rep walk.nonzero walk.enough).allows)
    rintro block _ ⟨rfl, ⟨_, rfl⟩ | ⟨front, entry, back, rfl, _, fits, rfl⟩⟩
    · rw [if_pos rfl]
      apply Records.seq acts_release_mutex
      intro _ _ _
      exact Records.pure trivial
    · have entryMem : entry ∈ front ++ entry :: back := by simp
      have entryBounds := edited.wreck.inside entry entryMem
      have user := edited.wreck.placed.user
      have small : need ≤ entry.size := fits.2
      rw [if_neg (walk.nonzero entry entryMem)]
      apply Records.seq quiet_checkMmapBlock.acts
      rintro passed _ rfl
      apply Records.ite
      · intro _
        apply Records.seq acts_release_mutex
        intro _ _ _
        exact acts_message (Records.pure trivial)
      · intro _
        apply Records.seq acts_getShared
        rintro _ _ ⟨rfl, rfl⟩
        have roundedBound : (if before.shared.isMprotectEnabled = true then
            roundToPages before.shared.pageSize need else need) + 8192 < 2 ^ 64 := by
          rw [stands.pageSize, roundToPages_eq (by omega)]
          split <;> omega
        apply Records.seq (acts_grantBlock edited roundedBound)
        rintro granted ⟨_, _⟩ ⟨rfl, entries, x, xMem, addrEq, wreck, tiles⟩
        rw [← addrEq]
        apply Records.seq (acts_vgcStacktraceSave edited wreck tiles xMem)
        intro _ _ _
        apply Records.seq acts_release_mutex
        intro _ _ _
        apply Records.seq acts_readMmapHeader
        intro _ _ _
        apply acts_message
        apply Records.seq
        · apply Records.when
          · intro _
            apply Records.seq acts_readMallocHeader
            intro _ _ _
            exact quiet_vgcMessage.acts.mono fun _ _ _ => trivial
          · intro _
            trivial
        · intro _ _ _
          exact Records.pure trivial
  · exact acts_message (Records.pure trivial)

end Edits

/-! ## The guarantee -/

/-- Whatever action of a normal end was the last before the owner died: a later
process recovers every listed MMAP of the heap `before` the edit exactly when
that action does not tear the edited list. -/
def DiesSafely {α : Type} (before : Heap) (mmapBlock : Nat) (start : Heap) (program : Vgc α) :
    Prop :=
  ∀ env state value last, state.heap = start → program env state = .ok value last →
    ∃ fresh, last.actions = fresh ++ state.actions ∧
      ∀ action ∈ fresh, Survives before mmapBlock action

theorem Represents.edited {base : Nat} (rep : Represents pages guarded heap abstract)
    (listed : base ∈ heap.mmaps) :
    ∃ region, region.base = base ∧ Edited pages guarded heap region (heap.blocks base) := by
  have shown := rep.abstraction
  have member := listed
  rw [rep.mmaps_eq] at member
  obtain ⟨region, regionMem, rfl⟩ := rep.listed member
  rw [← rep.mapped] at regionMem
  exact ⟨region, rfl, shown, regionMem, listed, rfl⟩

theorem Edited.diesSafely_alloc {old : List Entry} (length : Nat)
    (edited : Edited pages guarded heap region old) :
    DiesSafely heap region.base heap (allocMallocBlock region.base length) := by
  intro env state memory last same ended
  subst same
  exact (acts_allocMallocBlock edited state rfl memory last ended).2

theorem Edited.diesSafely_release {old : List Entry} (member : entry ∈ old)
    (edited : Edited pages guarded heap region old) :
    DiesSafely heap region.base (heap.countDown region.base) (releaseBlock entry.addr) := by
  intro env state value last same ended
  obtain ⟨front, back, rfl⟩ := List.append_of_mem member
  have acts : Acts (Survives heap region.base) (releaseBlock entry.addr) env
      (heap.countDown region.base) state.held fun _ _ => True := acts_releaseBlock edited
  rw [← same] at acts
  exact (acts state rfl value last ended).2

/-- In every heap that the allocator works on, an allocation in a listed MMAP
and the release of a block of it leave, at every point at which their process
may die, exactly tiled and linked lists to whoever passes the check, except
between the store of a new size and that of the forward link. -/
theorem diesSafely_of_represents {base : Nat} (rep : Represents pages guarded heap abstract)
    (listed : base ∈ heap.mmaps) :
    (∀ length, DiesSafely heap base heap (allocMallocBlock base length)) ∧
      ∀ entry ∈ heap.blocks base,
        DiesSafely heap base (heap.countDown base) (releaseBlock entry.addr) := by
  obtain ⟨region, rfl, edited⟩ := rep.edited listed
  constructor
  · intro length
    exact edited.diesSafely_alloc length
  · intro entry member
    exact edited.diesSafely_release member

/-! ## In every run -/

/-- The states in which a call of `vgc_malloc` may ask the listed MMAPs for a
block: the one that it starts from, and those after the creation of the first
MMAP or of one more behind the others. -/
inductive Serving (env : Env) (state : State) : State → Prop where
  | called : Serving env state state
  | first {last : State} (ended : initialiseFirstMMAP env state = .ok true last) :
      Serving env state last
  | further {before middle last : State} {mmapBlock : Nat} (serving : Serving env state before)
      (same : middle.heap = before.heap) (locked : middle.held = [.shared])
      (present : before.heap.mmaps ≠ [])
      (ended : mmapBlockAllocate middle.heap.shared.mmapBlockSize (before.heap.mmaps.getLastD 0)
        env middle = .ok mmapBlock last) : Serving env state last

/-- In all of them the heap is represented, unless no MMAP is listed. -/
theorem Serving.represents {state here : State} (serving : Serving env state here)
    (mutexes : MutexCallsSucceed env) (unlocked : state.held = [])
    (valid : Valid pages guarded state.heap) :
    here.heap.mmaps = [] ∨ ∃ abstract, Represents pages guarded here.heap abstract := by
  induction serving with
  | called =>
      cases valid with
      | live rep => exact Or.inr ⟨_, rep⟩
      | dead _ failed => exact Or.inl (mmaps_eq_nil failed)
  | @first last ended =>
      cases valid with
      | live rep =>
          have viewEq : seen state = (state.heap, []) := by rw [seen, unlocked]
          obtain ⟨value, final, done, _, outcome⟩ :=
            yields_initialiseFirstMMAP mutexes rep state viewEq
          obtain ⟨rfl, rfl⟩ := Outcome.ok.inj (ended.symm.trans done)
          right
          change ∃ abstract, Represents pages guarded (seen last).1 abstract
          rcases outcome with ⟨_, _, kept⟩ | ⟨_, _, refused, _⟩ |
            ⟨empty, region, middle, chosen, created, _, after⟩
          · exact ⟨_, by rw [kept]; exact rep⟩
          · cases refused
          · refine ⟨state.heap.abstraction.create region, ?_⟩
            rw [after]
            have head : (state.heap.abstraction.create region).listed.headD 0 = region.base := by
              rw [AbstractHeap.create, empty]
              rfl
            exact head ▸ rep.create chosen created
      | dead _ failed =>
          have there : state.heap.shared.mmapBlockFirst ≠ 0 := by
            rw [failed]
            decide
          have shares : getShared env state = .ok state.heap.shared state := rfl
          rw [initialiseFirstMMAP, bind_of_ok shares, if_pos there] at ended
          cases ended
          exact Or.inl (mmaps_eq_nil failed)
  | @further before middle last mmapBlock serving same locked present ended ih =>
      obtain ⟨abstract, rep⟩ := ih.resolve_left present
      have nonempty : abstract.listed ≠ [] := rep.mmaps_eq ▸ present
      have size : middle.heap.shared.mmapBlockSize = pages.bytes := same ▸ rep.blockSize
      rw [size, rep.mmaps_eq] at ended
      have unheld : ∀ base, Mutex.mmapBlock base ∉ [Mutex.shared] := by simp
      have viewEq : seen middle = (before.heap, [.shared]) := by rw [seen, same, locked]
      obtain ⟨value, final, done, _, outcome⟩ :=
        yields_mmapBlockAllocate mutexes rep.toStands unheld middle viewEq
      obtain ⟨rfl, rfl⟩ := Outcome.ok.inj (ended.symm.trans done)
      right
      change ∃ abstract, Represents pages guarded (seen last).1 abstract
      cases outcome with
      | failed _ _ kept =>
          refine ⟨abstract, ?_⟩
          rw [kept]
          exact ⟨rep.toStands.asked.asked, rep.first⟩
      | created region chosen _ created =>
          refine ⟨abstract.create region, ?_⟩
          rw [← created.setFirst rep.first nonempty]
          exact rep.create chosen created

/-- In every state of a run in which a request is served or a block released,
an allocation in a listed MMAP and the release of a block of it leave, at every
point at which their process may die, exactly tiled and linked lists to whoever
passes the check, except between the store of a new size and that of the forward
link. -/
theorem diesSafely_of_run {trace : List Done} {state here : State} {base : Nat}
    (mutexes : MutexCallsSucceed env) (run : DeedRun env pages guarded trace state)
    (serving : Serving env state here) (listed : base ∈ here.heap.mmaps) :
    (∀ length, DiesSafely here.heap base here.heap (allocMallocBlock base length)) ∧
      ∀ entry ∈ here.heap.blocks base,
        DiesSafely here.heap base (here.heap.countDown base) (releaseBlock entry.addr) := by
  obtain ⟨unlocked, valid⟩ := deed_valid mutexes run
  rcases serving.represents mutexes unlocked valid with none | ⟨abstract, rep⟩
  · rw [none] at listed
    exact absurd listed List.not_mem_nil
  · exact diesSafely_of_represents rep listed

/-- Two blocks in use, the second of which is to be freed. -/
theorem diesSafely_of_run_sample :
    ∃ trace state, DeedRun generousEnv .default true trace state ∧
      state.heap.blocks 0x10000000 = [⟨0x10001000, 4096, true⟩,
        ⟨0x10004000, 8192, true⟩, ⟨0x10008000, 32727040, false⟩] ∧
      (∀ length, DiesSafely state.heap 0x10000000 state.heap
        (allocMallocBlock 0x10000000 length)) ∧
      ∀ entry ∈ state.heap.blocks 0x10000000, DiesSafely state.heap 0x10000000
        (state.heap.countDown 0x10000000) (releaseBlock entry.addr) := by
  have found : (replay Deed.program generousEnv TameDeed [] (start .default true)
      [.call (.malloc 10), .store 0x10003ff6 1, .call (.malloc 5000)]).map (fun final =>
        (final.2.heap.mmaps, final.2.heap.blocks 0x10000000)) =
      some ([0x10000000], [⟨0x10001000, 4096, true⟩, ⟨0x10004000, 8192, true⟩,
        ⟨0x10008000, 32727040, false⟩]) := by decide +kernel
  obtain ⟨final, replayed, shown⟩ := Option.map_eq_some_iff.mp found
  obtain ⟨mmaps, blocks⟩ := Prod.mk.inj shown
  have run := Run.start.replay replayed
  have listed : 0x10000000 ∈ final.2.heap.mmaps := mmaps ▸ List.mem_singleton_self _
  exact ⟨_, _, run, blocks, diesSafely_of_run generousEnv_mutexes run .called listed⟩

/-- The size stores of a list of actions. -/
def sizeStores (actions : List Action) : List (Nat × Heap) :=
  actions.filterMap fun
    | .storeMalloc block .size after => some (block, after)
    | _ => none

theorem mem_sizeStores {actions : List Action} {block : Nat} {after : Heap}
    (member : (block, after) ∈ sizeStores actions) : .storeMalloc block .size after ∈ actions := by
  obtain ⟨action, actionMem, found⟩ := List.mem_filterMap.mp member
  split at found
  · cases found
    exact actionMem
  · cases found

/-- A process that dies in the middle of its second allocation leaves a list
with a gap, which the check accepts. -/
theorem not_recoverable_of_run :
    ∃ trace state memory last fresh action after,
      ClientRun generousEnv .default true MallocAndFree trace state ∧
        allocMallocBlock 0x10000000 5000 generousEnv state = .ok memory last ∧
        last.actions = fresh ++ state.actions ∧ action ∈ fresh ∧ action.after = some after ∧
        0x10000000 ∈ state.heap.mmaps ∧ ¬Recoverable after 0x10000000 := by
  have found : (replay Call.program generousEnv MallocAndFree [] (start .default true)
      [.malloc 10]).bind (fun final =>
        (allocMallocBlock 0x10000000 5000 generousEnv final.2).normal.map fun ended =>
          (final.2.heap.mmaps, final.2.heap.blocks 0x10000000,
            (sizeStores (ended.2.actions.take
              (ended.2.actions.length - final.2.actions.length))).map fun store =>
                (store.1, (store.2.mallocHeader store.1).size))) =
      some ([0x10000000], [⟨0x10001000, 4096, true⟩, ⟨0x10004000, 32743424, false⟩],
        [(0x10004000, 8192), (0x10008000, 32727040)]) := by decide +kernel
  obtain ⟨final, replayed, rest⟩ := Option.bind_eq_some_iff.mp found
  obtain ⟨⟨memory, last⟩, normal, shown⟩ := Option.map_eq_some_iff.mp rest
  have ended := Outcome.normal_eq_some_iff.mp normal
  obtain ⟨mmaps, shown⟩ := Prod.mk.inj shown
  obtain ⟨blocks, stores⟩ := Prod.mk.inj shown
  have run := Run.start.replay replayed
  have listed : 0x10000000 ∈ final.2.heap.mmaps := mmaps ▸ List.mem_singleton_self _
  have valid := (run_valid generousEnv_mutexes (fun _ _ allowed => allowed) run).2
  obtain ⟨region, base, edited⟩ := (valid.represents listed).edited listed
  have safe := edited.diesSafely_alloc 5000
  rw [base] at safe
  obtain ⟨fresh, actions, survives⟩ := safe generousEnv final.2 memory last rfl ended
  have part : last.actions.take (last.actions.length - final.2.actions.length) = fresh := by
    simp [actions]
  rw [part] at stores
  have stored : (0x10004000, 8192) ∈ (sizeStores fresh).map fun store =>
      (store.1, (store.2.mallocHeader store.1).size) := stores ▸ List.mem_cons_self
  obtain ⟨⟨block, after⟩, storeMem, storeEq⟩ := List.mem_map.mp stored
  obtain ⟨rfl, size⟩ := Prod.mk.inj storeEq
  have actionMem := mem_sizeStores storeMem
  refine ⟨_, _, memory, last, fresh, _, after, run, ended, actions, actionMem, rfl, listed, ?_⟩
  intro recoverable
  have all : ∀ other ∈ final.2.heap.mmaps, Recoverable after other := by
    intro other otherMem
    rw [mmaps] at otherMem
    rw [List.mem_singleton.mp otherMem]
    exact recoverable
  apply (survives _ actionMem after rfl).mp all
  refine ⟨Or.inl rfl, ⟨0x10004000, 32743424, false⟩, by simp [blocks], rfl, ?_⟩
  rw [size]
  decide

end VgcMalloc
