import VgcMalloc.Refine.Actions
import VgcMalloc.Refine.Runs

/-!
# The report at exit

`mallocCleanup` changes nothing and takes no mutex.  It says that there are
leaks when some MMAP is listed, and its dump shows the blocks of the first one,
those in use among them.
-/

namespace VgcMalloc

open Program Tiling Linked

variable {env : Env} {heap : Heap} {pages : MmapPages} {guarded : Bool} {abstract : AbstractHeap}
  {region : Region}

/-! ## Messages -/

/-- The message is the report of memory leaks. -/
def Message.reportsLeak : Message → Bool
  | .text _ function title _ _ _ => function == "mallocCleanup" && title == "mmapBlockFirst"
  | .block .. => false

/-- The header of the block in use that a line of a dump shows. -/
def Message.shownHeader : Message → Option Nat
  | .block _ memory _ _ .busy _ => some (sub64 memory mallocHeaderSize)
  | _ => none

/-- Among the messages there is a report of leaks or not, and their dumps show
these blocks in use. -/
structure Says (report : List Message) (leak : Bool) (headers : List Nat) : Prop where
  leak : report.any Message.reportsLeak = leak
  headers : report.filterMap Message.shownHeader = headers

theorem Says.append {report earlier : List Message} {leak leak' : Bool}
    {headers headers' : List Nat} (new : Says report leak headers)
    (old : Says earlier leak' headers') :
    Says (report ++ earlier) (leak || leak') (headers ++ headers') where
  leak := by rw [List.any_append, new.leak, old.leak]
  headers := by rw [List.filterMap_append, new.headers, old.headers]

/-- The heap, the mutexes held and the messages so far. -/
abbrev told (state : State) : (Heap × List Mutex) × List Message := (seen state, state.messages)

/-- The program ends, changes nothing and says this much. -/
def Tells {α : Type} (program : Vgc α) (env : Env) (heap : Heap) (held : List Mutex) (leak : Bool)
    (headers : List Nat) : Prop :=
  ∀ messages, Yields told program env ((heap, held), messages) fun _ final =>
    ∃ report, final = ((heap, held), report ++ messages) ∧ Says report leak headers

section Tells

variable {α β : Type} {program : Vgc α} {next : α → Vgc β} {held : List Mutex} {leak leak' : Bool}
  {headers headers' : List Nat}

theorem Tells.pure (value : α) : Tells (pure value : Vgc α) env heap held false [] :=
  fun _ => Yields.pure ⟨[], rfl, rfl, rfl⟩

theorem Tells.seq (first : Tells program env heap held leak headers)
    (rest : ∀ value, Tells (next value) env heap held leak' headers') :
    Tells (program >>= next) env heap held (leak' || leak) (headers' ++ headers) := by
  intro messages
  refine Yields.seq (first messages) ?_
  rintro value _ ⟨report, rfl, old⟩
  refine (rest value (report ++ messages)).mono ?_
  rintro _ _ ⟨later, rfl, new⟩
  exact ⟨later ++ report, by rw [List.append_assoc], new.append old⟩

theorem Tells.seq_quiet (first : Tells program env heap held false [])
    (rest : ∀ value, Tells (next value) env heap held leak headers) :
    Tells (program >>= next) env heap held leak headers := by
  have both := first.seq rest
  rwa [Bool.or_false, List.append_nil] at both

/-- A program that is known to say nothing. -/
theorem Tells.read {known : α → Prop}
    (yields : Yields seen program env (heap, held) fun value final =>
      known value ∧ final = (heap, held))
    (kept : Keeps State.messages program)
    (rest : ∀ value, known value → Tells (next value) env heap held leak headers) :
    Tells (program >>= next) env heap held leak headers := by
  intro messages
  refine Yields.seq (yields.silently kept messages) ?_
  rintro value _ ⟨holds, rfl⟩
  exact rest value holds messages

theorem Tells.quiet
    (yields : Yields seen program env (heap, held) fun _ final => final = (heap, held))
    (kept : Keeps State.messages program) : Tells program env heap held false [] := by
  intro messages
  have both : Yields seen program env (heap, held) fun _ final => True ∧ final = (heap, held) :=
    yields.mono fun _ _ same => ⟨trivial, same⟩
  refine (both.silently kept messages).mono ?_
  rintro _ _ ⟨_, rfl⟩
  exact ⟨[], rfl, rfl, rfl⟩

theorem tells_emit (message : Message) :
    Tells (emit message) env heap held message.reportsLeak message.shownHeader.toList := by
  rintro messages state viewEq
  cases viewEq
  refine ⟨(), _, rfl, [message], rfl, ?_, ?_⟩
  · simp
  · cases shown : message.shownHeader <;> simp [shown]

theorem keeps_answer_messages (choose : Env → Nat → α) :
    Keeps State.messages (answer choose) := by
  intro env state value final ended
  cases ended
  rfl

/-- A report of a failed call. -/
theorem tells_orReport {call : Vgc Bool} {function title status : String}
    (other : (Message.text errorLevel function title "Error" status []).reportsLeak = false)
    (tells : Tells call env heap held false []) :
    Tells (orReport call function title status) env heap held false [] := by
  unfold orReport
  refine tells.seq_quiet fun succeeds => ?_
  split
  · exact Tells.pure ()
  · have message := @tells_emit env heap held
      (Message.text errorLevel function title "Error" status [])
    rw [other] at message
    exact message

/-- A message that is no report of leaks. -/
theorem Tells.after_message {level : Nat} {function title subtitle status : String}
    {args : List Nat} {rest : Vgc α}
    (other : (Message.text level function title subtitle status args).reportsLeak = false)
    (tells : Tells rest env heap held leak headers) :
    Tells (vgcMessage level function title subtitle status args >>= fun _ => rest) env heap held
      leak headers := by
  have message := @tells_emit env heap held (Message.text level function title subtitle status args)
  rw [other] at message
  exact Tells.seq_quiet message fun _ => tells

/-- The blocks in use among the headers of a list. -/
def Heap.busyHeaders (heap : Heap) (nodes : List Nat) : List Nat :=
  nodes.filter fun block => decide ((heap.mallocHeader block).status = .busy)

theorem Heap.busyHeaders_cons (heap : Heap) (block : Nat) (rest : List Nat) :
    heap.busyHeaders (block :: rest) = heap.busyHeaders [block] ++ heap.busyHeaders rest :=
  List.filter_append [block] rest

theorem Heap.busyHeaders_reverse (heap : Heap) (block : Nat) :
    (heap.busyHeaders [block]).reverse = heap.busyHeaders [block] := by
  rw [busyHeaders, ← List.filter_reverse, List.reverse_singleton]

/-- The line of a block. -/
theorem tells_line {index block : Nat} (small : block + 8192 < 2 ^ 64) :
    Tells (emit (.block index (add64 block mallocHeaderSize)
      (payloadOf (heap.mallocHeader block).prev) (payloadOf (heap.mallocHeader block).next)
      (heap.mallocHeader block).status (heap.mallocHeader block).size)) env heap held false
      (heap.busyHeaders [block]) := by
  have back : sub64 (add64 block 8192) 8192 = block := by
    rw [add64_of_lt small, sub64_of_le (by omega) small]
    omega
  have shown : heap.busyHeaders [block] = (Message.block index (add64 block mallocHeaderSize)
      (payloadOf (heap.mallocHeader block).prev) (payloadOf (heap.mallocHeader block).next)
      (heap.mallocHeader block).status (heap.mallocHeader block).size).shownHeader.toList := by
    cases status : (heap.mallocHeader block).status with
    | free => simp [Heap.busyHeaders, Message.shownHeader, status]
    | busy => simp [Heap.busyHeaders, Message.shownHeader, status, back]
  rw [shown]
  exact tells_emit _

/-- A dump shows the blocks in use of its list, the last one first. -/
theorem tells_dumpBlocks {index mmapBlock fuel : Nat} {totals : Totals} {nodes : List Nat}
    (passes : heap.Passes mmapBlock nodes) (enough : nodes.length < fuel)
    (small : ∀ block ∈ nodes, block + 8192 < 2 ^ 64) :
    Tells (dumpBlocks fuel index (nodes.headD 0) totals) env heap held false
      (heap.busyHeaders nodes).reverse := by
  induction nodes generalizing fuel index totals with
  | nil =>
      cases fuel with
      | zero => simp at enough
      | succ fuel => exact Tells.pure totals
  | cons block rest ih =>
      cases fuel with
      | zero => simp at enough
      | succ fuel =>
          obtain ⟨before, links⟩ := passes.links
          have next : (heap.mallocHeader block).next = rest.headD 0 := links.2.1
          have room := small block List.mem_cons_self
          rw [List.headD_cons, dumpBlocks, if_neg (passes.nonnull block List.mem_cons_self)]
          refine Tells.read (yields_readMallocFields (passes.readable block List.mem_cons_self))
            (keeps_readMallocFields _ block) ?_
          rintro _ rfl
          have split : (heap.busyHeaders (block :: rest)).reverse =
              (heap.busyHeaders rest).reverse ++ heap.busyHeaders [block] := by
            rw [heap.busyHeaders_cons, List.reverse_append, heap.busyHeaders_reverse]
          rw [split]
          have later : Tells (dumpBlocks fuel (index + 1) (rest.headD 0)
              (totals.count (heap.mallocHeader block))) env heap held false
              (heap.busyHeaders rest).reverse :=
            ih passes.tail (Nat.lt_of_succ_lt_succ enough) fun other member =>
              small other (List.mem_cons_of_mem _ member)
          rw [← next] at later
          exact (tells_line room).seq fun _ => later

theorem tells_dumpMmapBlock {str desc : String} {mmapBlock : Nat} {nodes : List Nat}
    (nonnull : mmapBlock ≠ 0) (passes : heap.Passes mmapBlock nodes)
    (first : firstMallocHeaderInMMAP mmapBlock = nodes.headD 0) (enough : nodes.length < walkFuel)
    (small : ∀ block ∈ nodes, block + 8192 < 2 ^ 64) :
    Tells (dumpMmapBlock str mmapBlock desc) env heap held false
      (heap.busyHeaders nodes).reverse := by
  have other : ∀ title subtitle status args,
      (Message.text infoLevel "dumpMmapBlock" title subtitle status args).reportsLeak = false := by
    simp [Message.reportsLeak]
  rw [dumpMmapBlock, if_neg nonnull, first]
  refine .after_message (other _ _ _ _) (.after_message (other _ _ _ _) ?_)
  have sums : ∀ totals : Totals, Tells (do
      let shared ← getShared
      let maxSize := sub64 (sub64 shared.mmapBlockSize mmapHeaderSize) totals.headersSize
      let totalSize := add64 totals.busySize totals.freeSize
      vgcMessage infoLevel "dumpMmapBlock" str "" "size allocated.:" [shared.mmapBlockSize]
      vgcMessage infoLevel "dumpMmapBlock" str "" "size busy......:" [totals.busySize]
      vgcMessage infoLevel "dumpMmapBlock" str "" "size free......:" [totals.freeSize]
      vgcMessage infoLevel "dumpMmapBlock" str "" "size total.....:" [totalSize]
      vgcMessage infoLevel "dumpMmapBlock" str "" "size max.......:" [maxSize]) env heap held false
        [] := by
    intro totals
    refine Tells.read yields_getShared keeps_getShared ?_
    rintro _ rfl
    exact .after_message (other _ _ _ _) (.after_message (other _ _ _ _) (.after_message
      (other _ _ _ _) (.after_message (other _ _ _ _) (tells_emit _))))
  have both := (@tells_dumpBlocks env heap held 0 mmapBlock walkFuel .zero nodes passes enough
    small).seq sums
  rwa [List.nil_append] at both

/-- `mallocCleanup` without an MMAP. -/
theorem tells_closing : Tells (do
    orReport pthreadMutexattrDestroy "mallocCleanup" "PTHREAD_mutexattrDestroy"
      "can't destroy shared mutexAttr"
    orReport pthreadMutexDestroy "mallocCleanup" "PTHREAD_mutexDestroy"
      "can't destroy shared mutexAttr"
    orReport (answer Env.munmap) "mallocCleanup" "munmap" "unmapping MMAP (shared)") env heap held
      false [] := by
  have asks : ∀ choose : Env → Nat → Bool, Tells (answer choose) env heap held false [] :=
    fun choose => Tells.quiet ((yields_answer choose).mono fun _ _ ends => ends.2)
      (keeps_answer_messages choose)
  refine (tells_orReport (by simp [Message.reportsLeak]) (asks _)).seq_quiet fun _ => ?_
  refine (tells_orReport (by simp [Message.reportsLeak]) (asks _)).seq_quiet fun _ => ?_
  exact tells_orReport (by simp [Message.reportsLeak]) (asks _)

theorem tells_mallocCleanup_of_null (null : heap.shared.mmapBlockFirst = 0) :
    Tells mallocCleanup env heap held false [] := by
  unfold mallocCleanup
  refine Tells.read yields_getShared keeps_getShared ?_
  rintro _ rfl
  rw [null]
  exact Tells.seq_quiet (Tells.pure ()) fun _ => tells_closing

/-- `mallocCleanup` reports leaks when an MMAP is listed, and shows the blocks
in use of the first one. -/
theorem tells_mallocCleanup {nodes : List Nat} (present : heap.shared.mmapBlockFirst ≠ 0)
    (accessible : heap.mmapAccessible heap.shared.mmapBlockFirst = true)
    (passes : heap.Passes heap.shared.mmapBlockFirst nodes)
    (first : firstMallocHeaderInMMAP heap.shared.mmapBlockFirst = nodes.headD 0)
    (enough : nodes.length < walkFuel) (small : ∀ block ∈ nodes, block + 8192 < 2 ^ 64) :
    Tells mallocCleanup env heap held true (heap.busyHeaders nodes).reverse := by
  have told : Tells (when (heap.shared.mmapBlockFirst ≠ 0) do
      let header ← readMmapHeader heap.shared.mmapBlockFirst
      vgcMessage infoLevel "mallocCleanup" "mmapBlockFirst" "Block is not empty"
        (if header.elements > 1 then "memory leaks list" else "memory leak list") []
      dumpMmapBlock "mallocCleanup" heap.shared.mmapBlockFirst "Block is not empty") env heap held
        true (heap.busyHeaders nodes).reverse := by
    rw [Program.when, if_pos present]
    refine Tells.read (yields_readMmapHeader accessible) (keeps_readMmapHeader _) ?_
    rintro _ rfl
    have line : ∀ status, Tells (vgcMessage infoLevel "mallocCleanup" "mmapBlockFirst"
        "Block is not empty" status []) env heap held true [] := fun status => tells_emit _
    have both := (line (if (heap.mmapHeader heap.shared.mmapBlockFirst).elements > 1 then
      "memory leaks list" else "memory leak list")).seq fun _ =>
        @tells_dumpMmapBlock env heap held "mallocCleanup" "Block is not empty" _ nodes present
          passes first enough small
    rwa [List.append_nil] at both
  unfold mallocCleanup
  refine Tells.read yields_getShared keeps_getShared ?_
  rintro _ rfl
  exact told.seq fun _ => tells_closing

end Tells

/-! ## Represented heaps -/

/-- The blocks in use of a region, by their headers. -/
theorem Stands.mem_busyHeaders {header : Nat} (stands : Stands pages guarded heap abstract)
    (member : region ∈ abstract.regions) :
    header ∈ heap.busyHeaders ((abstract.entries region.base).map Entry.addr) ↔
      ∃ x ∈ abstract.entries region.base, x.busy = true ∧ x.addr = header := by
  have status : ∀ x ∈ abstract.entries region.base,
      (heap.mallocHeader x.addr).status = .busy ↔ x.busy = true := by
    intro x xMem
    rw [((stands.regions region member).blocks.headers x xMem).status, statusOf]
    cases x.busy <;> simp
  simp only [Heap.busyHeaders, List.mem_filter, List.mem_map, decide_eq_true_eq]
  constructor
  · rintro ⟨⟨x, xMem, rfl⟩, busy⟩
    exact ⟨x, xMem, (status x xMem).mp busy, rfl⟩
  · rintro ⟨x, xMem, busy, rfl⟩
    exact ⟨⟨x, xMem, rfl⟩, (status x xMem).mpr busy⟩

/-- Headers in use are shown once. -/
theorem Stands.nodup_busyHeaders (stands : Stands pages guarded heap abstract)
    (member : region ∈ abstract.regions) :
    (heap.busyHeaders ((abstract.entries region.base).map Entry.addr)).Nodup := by
  refine List.Nodup.filter _ ?_
  rw [List.Nodup, List.pairwise_map]
  refine (stands.wellFormed.tiles region member).pairwise.imp ?_
  intro left right ordered
  omega

/-- `mallocCleanup` on a represented heap with an MMAP. -/
theorem Represents.tells_mallocCleanup {held : List Mutex} {rest : List Nat}
    (rep : Represents pages guarded heap abstract) (member : region ∈ abstract.regions)
    (shape : abstract.listed = region.base :: rest) :
    Tells mallocCleanup env heap held true
      (heap.busyHeaders ((abstract.entries region.base).map Entry.addr)).reverse := by
  have first : heap.shared.mmapBlockFirst = region.base := by
    rw [rep.first, shape]
    rfl
  have site := rep.site member
  have readable := site.walkable.readable
  have user := site.placed.user
  have passes := readable.passes site.blockSize
  have start := readable.first
  have opened := readable.accessible
  have enough : ((abstract.entries region.base).map Entry.addr).length < walkFuel := by
    rw [List.length_map]
    exact readable.enough
  have small : ∀ block ∈ (abstract.entries region.base).map Entry.addr,
      block + 8192 < 2 ^ 64 := by
    refine List.forall_mem_map.mpr fun x xMem => ?_
    have bounds := readable.inside x xMem
    omega
  have nonnull := Nat.ne_of_gt site.placed.positive
  generalize (abstract.entries region.base).map Entry.addr = nodes at passes start enough small ⊢
  rw [← first] at passes start opened nonnull
  exact VgcMalloc.tells_mallocCleanup nonnull opened passes start enough small

/-- `mallocCleanup` faults when the first MMAP could not be created. -/
theorem Valid.represents_of_cleanup {state last : State} (valid : Valid pages guarded state.heap)
    (ended : mallocCleanup env state = .ok () last) :
    Represents pages guarded state.heap state.heap.abstraction := by
  cases valid with
  | live rep => exact rep
  | dead stands failed =>
      have faults : Allows seen mallocCleanup env (state.heap, state.held) fun _ _ => False := by
        unfold mallocCleanup
        refine Allows.seq yields_getShared.allows ?_
        rintro _ _ ⟨rfl, rfl⟩
        have reading : Allows seen (when (state.heap.shared.mmapBlockFirst ≠ 0) do
            let header ← readMmapHeader state.heap.shared.mmapBlockFirst
            vgcMessage infoLevel "mallocCleanup" "mmapBlockFirst" "Block is not empty"
              (if header.elements > 1 then "memory leaks list" else "memory leak list") []
            dumpMmapBlock "mallocCleanup" state.heap.shared.mmapBlockFirst "Block is not empty")
            env (state.heap, state.held) fun _ _ => False := by
          rw [failed]
          refine Allows.when ?_ fun null => null (by decide)
          intro _
          exact Allows.seq stands.faults_mapFailed fun _ _ never => never.elim
        exact Allows.seq reading fun _ _ never => never.elim
      exact (faults state rfl () last ended).elim

end VgcMalloc
