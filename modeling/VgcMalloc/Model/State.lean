import VgcMalloc.Program.Core
import VgcMalloc.Model.Header

/-!
# Process state and system calls

The state holds what the allocator and the kernel share: the `VGC_shared`
record, the memory with its mappings and page protections, the mutexes held by
the running thread, and the calls made to `vgc_message`.  It also records what
the thread has done to headers, protections and mutexes, which no program
reads.  The environment
answers the system calls.  A placement proposed for `mmap` is accepted only
when the kernel could have chosen it, so every environment is a possible
kernel and every behaviour of the kernel is some environment.
-/

namespace VgcMalloc

/-! ## State -/

/-- A mapped region. -/
structure Region where
  base : Nat
  length : Nat
  deriving DecidableEq, Repr

/-- `VGC_shared` without its mutex and process id. -/
structure Shared where
  pageSize : Nat
  mmapBlockFirst : Nat
  mmapBlockCount : Int
  mmapBlockSize : Nat
  isMprotectEnabled : Bool

/-- The shared record, the memory, and what the kernel knows about it.
`protNone` holds of the base address of every page that is `PROT_NONE`;
`mmapCalls` counts the answers of `mmap` used so far. -/
structure Heap where
  shared : Shared
  memory : Bytes
  mapped : List Region
  protNone : Nat → Bool
  mmapCalls : Nat

/-- The mutexes of the allocator. -/
inductive Mutex where
  | shared
  | mmapBlock (address : Nat)
  deriving DecidableEq

/-- A call of `vgc_message`: level, function, title, subtitle, status and the
numeric arguments of its format; or one line of a block dump. -/
inductive Message where
  | text (level : Nat) (function title subtitle status : String) (args : List Nat)
  | block (index memory prev next : Nat) (status : MallocStatus) (size : Nat)
  deriving DecidableEq

/-- What a thread has done: an attempt to lock or to unlock, with the mutexes
held before it; a store to a header or a change of protection, with the heap
after it. -/
inductive Action where
  | lock (mutex : Mutex) (succeeded : Bool) (heap : Heap) (held : List Mutex)
  | unlock (mutex : Mutex) (succeeded : Bool) (held : List Mutex)
  | storeMmap (mmapBlock : Nat) (field : MmapField) (after : Heap)
  | storeMalloc (block : Nat) (field : MallocField) (after : Heap)
  | protect (page : Nat) (after : Heap)

/-- The state of the running thread; the newest messages and actions come
first. -/
structure State where
  heap : Heap
  held : List Mutex
  calls : Nat
  messages : List Message
  actions : List Action

/-- The answers of the system calls.  `mmap` proposes a placement for its
`k`-th call; all other calls are answered in the order they are made. -/
structure Env where
  mmap : Nat → Option Nat
  munmap : Nat → Bool
  mprotect : Nat → Bool
  mutexLock : Nat → Bool
  mutexUnlock : Nat → Bool
  mutexInit : Nat → Bool
  mutexDestroy : Nat → Bool
  mutexattrInit : Nat → Bool
  mutexattrDestroy : Nat → Bool
  backtrace : Nat → List Nat

/-- Programs of the allocator; a fault names the address that was accessed. -/
abbrev Vgc := Program Env Nat State

/-! ## Memory access -/

/-- The address after the last one of a user process. -/
def userLimit : Nat := 2 ^ 47

@[simp]
theorem userLimit_eq : userLimit = 2 ^ 47 :=
  rfl

/-- The first address of the page of an address. -/
def pageBase (x : Nat) : Nat := x - x % systemPageSize

/-- A length rounded up to whole pages, as the kernel does. -/
def pageRound (length : Nat) : Nat :=
  (length + (systemPageSize - 1)) / systemPageSize * systemPageSize

namespace Heap

/-- The address lies in a mapped region. -/
def isMapped (heap : Heap) (x : Nat) : Bool :=
  heap.mapped.any fun region => region.base ≤ x ∧ x < region.base + region.length

/-- The address can be read and written. -/
def isAccessible (heap : Heap) (x : Nat) : Bool :=
  heap.isMapped x && !heap.protNone (pageBase x)

/-- All fields of the MMAP header at an address can be accessed. -/
def mmapAccessible (heap : Heap) (mmapBlock : Nat) : Bool :=
  heap.isAccessible mmapBlock && heap.isAccessible (mmapBlock + 104)

/-- The field of a block header can be accessed, from its first to its last
byte. -/
def fieldAccessible (heap : Heap) (block : Nat) (field : MallocField) : Bool :=
  heap.isAccessible (block + field.offset) &&
    heap.isAccessible (block + (field.offset + (field.width - 1)))

/-- The fields of a block header that the walks read can be accessed. -/
def linksAccessible (heap : Heap) (block : Nat) : Bool :=
  MallocField.links.all (heap.fieldAccessible block)

/-- All fields of the block header at an address can be accessed: its first and
its last byte, and the fields in between that are read alone. -/
def mallocAccessible (heap : Heap) (block : Nat) : Bool :=
  heap.isAccessible (block + 4096) && heap.linksAccessible block &&
    heap.isAccessible (block + 4239)

/-- All pages of a range can be accessed. -/
def rangeAccessible (heap : Heap) (start length : Nat) : Bool :=
  length == 0 ||
    (List.range' (start / systemPageSize)
      ((start + length - 1) / systemPageSize - start / systemPageSize + 1)).all fun page =>
        heap.isAccessible (page * systemPageSize)

/-- The MMAP header at an address. -/
def mmapHeader (heap : Heap) (mmapBlock : Nat) : MmapHeader :=
  heap.memory.mmapHeader mmapBlock

/-- The block header at an address. -/
def mallocHeader (heap : Heap) (block : Nat) : MallocHeader :=
  heap.memory.mallocHeader block

/-- Store to one field of an MMAP header. -/
def setMmapField (heap : Heap) (mmapBlock : Nat) (field : MmapField) (value : Nat) : Heap :=
  { heap with memory := heap.memory.setMmapField mmapBlock field value }

/-- The MMAPs and blocks that the links of a header lead to. -/
def nextMmap (heap : Heap) (mmapBlock : Nat) : Nat := (heap.mmapHeader mmapBlock).next

@[inherit_doc nextMmap]
def prevMmap (heap : Heap) (mmapBlock : Nat) : Nat := (heap.mmapHeader mmapBlock).prev

@[inherit_doc nextMmap]
def nextBlock (heap : Heap) (block : Nat) : Nat := (heap.mallocHeader block).next

@[inherit_doc nextMmap]
def prevBlock (heap : Heap) (block : Nat) : Nat := (heap.mallocHeader block).prev

/-- Store to one field of a block header. -/
def setMallocField (heap : Heap) (block : Nat) (field : MallocField) (value : Nat) : Heap :=
  { heap with memory := heap.memory.setMallocField block field value }

/-- The kernel can place a mapping here: whole pages of user memory above the
null page that no other mapping uses. -/
def isPlaceable (heap : Heap) (base length : Nat) : Bool :=
  base % systemPageSize == 0 && 0 < base && 0 < length &&
    base + pageRound length ≤ userLimit &&
    heap.mapped.all fun region =>
      base + pageRound length ≤ region.base ∨ region.base + region.length ≤ base

/-- A fresh anonymous mapping: zero bytes, readable and writable. -/
def addRegion (heap : Heap) (base length : Nat) : Heap :=
  { heap with
    mapped := ⟨base, pageRound length⟩ :: heap.mapped
    memory := heap.memory.fill base (pageRound length) 0
    protNone := fun page =>
      if base ≤ page ∧ page < base + pageRound length then false else heap.protNone page }

/-- Remove the regions that lie in a range. -/
def removeRegion (heap : Heap) (base length : Nat) : Heap :=
  { heap with
    mapped := heap.mapped.filter fun region =>
      ¬(base ≤ region.base ∧ region.base + region.length ≤ base + pageRound length)
    protNone := fun page =>
      if base ≤ page ∧ page < base + pageRound length then false else heap.protNone page }

/-- Set the protection of the pages that start in a range. -/
def setProtection (heap : Heap) (base length : Nat) (none : Bool) : Heap :=
  { heap with
    protNone := fun page =>
      if base ≤ page ∧ page < base + pageRound length then none else heap.protNone page }

end Heap

/-- Read an MMAP header. -/
def readMmapHeader (mmapBlock : Nat) : Vgc MmapHeader := fun _ state =>
  if state.heap.mmapAccessible mmapBlock then .ok (state.heap.mmapHeader mmapBlock) state
  else .fault mmapBlock

/-- Write one field of an MMAP header. -/
def writeMmapField (mmapBlock : Nat) (field : MmapField) (value : Nat) : Vgc Unit :=
  fun _ state =>
    if state.heap.mmapAccessible mmapBlock then
      let after := state.heap.setMmapField mmapBlock field value
      .ok () { state with
        heap := after
        actions := .storeMmap mmapBlock field after :: state.actions }
    else
      .fault mmapBlock

/-- Read a block header. -/
def readMallocHeader (block : Nat) : Vgc MallocHeader := fun _ state =>
  if state.heap.mallocAccessible block then .ok (state.heap.mallocHeader block) state
  else .fault block

/-- Read some fields of a block header; the others are not to be used. -/
def readMallocFields (fields : List MallocField) (block : Nat) : Vgc MallocHeader := fun _ state =>
  if fields.all (state.heap.fieldAccessible block) then .ok (state.heap.mallocHeader block) state
  else .fault block

/-- Write one field of a block header. -/
def writeMallocField (block : Nat) (field : MallocField) (value : Nat) : Vgc Unit :=
  fun _ state =>
    if state.heap.mallocAccessible block then
      let after := state.heap.setMallocField block field value
      .ok () { state with
        heap := after
        actions := .storeMalloc block field after :: state.actions }
    else
      .fault block

/-- Read the `size` field of a block header. -/
def readMallocSize (block : Nat) : Vgc Nat := fun _ state =>
  if state.heap.isAccessible (block + 4104) ∧ state.heap.isAccessible (block + 4111) then
    .ok (state.heap.mallocHeader block).size state
  else
    .fault block

/-- Write several fields of a block header, in order. -/
def writeMallocFields (block : Nat) : List (MallocField × Nat) → Vgc Unit
  | [] => pure ()
  | (field, value) :: rest => do
      writeMallocField block field value
      writeMallocFields block rest

/-- Write several fields of an MMAP header, in order. -/
def writeMmapFields (mmapBlock : Nat) : List (MmapField × Nat) → Vgc Unit
  | [] => pure ()
  | (field, value) :: rest => do
      writeMmapField mmapBlock field value
      writeMmapFields mmapBlock rest

/-- Read the shared record. -/
def getShared : Vgc Shared := fun _ state => .ok state.heap.shared state

/-- Change the shared record. -/
def modifyShared (change : Shared → Shared) : Vgc Unit := fun _ state =>
  .ok () { state with heap := { state.heap with shared := change state.heap.shared } }

/-- A loop that visits more nodes than there are addresses never ends. -/
def diverge {α : Type} : Vgc α := fun _ _ => .diverge

/-! ## Messages -/

/-- `INFO_LEVEL`. -/
def infoLevel : Nat := 0

/-- `ERROR_LEVEL`. -/
def errorLevel : Nat := 1

/-- `VGC_MALLOC_DEBUG_LEVEL`. -/
def vgcMallocDebugLevel : Nat := 4

/-- Record a call of `vgc_message`; the newest call comes first. -/
def emit (message : Message) : Vgc Unit := fun _ state =>
  .ok () { state with messages := message :: state.messages }

/-- `vgc_message` with a title, a subtitle, a status and format arguments. -/
def vgcMessage (level : Nat) (function title subtitle status : String) (args : List Nat) :
    Vgc Unit :=
  emit (.text level function title subtitle status args)

/-! ## System calls -/

/-- Take the next answer of the environment. -/
def answer {α : Type} (choose : Env → Nat → α) : Vgc α := fun env state =>
  .ok (choose env state.calls) { state with calls := state.calls + 1 }

/-- `mmap` of an anonymous shared mapping. -/
def mmap (length : Nat) : Vgc Nat := fun env state =>
  let asked := { state with heap := { state.heap with mmapCalls := state.heap.mmapCalls + 1 } }
  match env.mmap state.heap.mmapCalls with
  | some base =>
      if state.heap.isPlaceable base length then
        .ok base { asked with heap := asked.heap.addRegion base length }
      else
        .ok mapFailed asked
  | none => .ok mapFailed asked

/-- `munmap`; a length of zero is `EINVAL`. -/
def munmap (base length : Nat) : Vgc Bool := do
  let succeeds ← answer Env.munmap
  if succeeds ∧ length ≠ 0 ∧ base % systemPageSize = 0 then
    fun _ state => .ok true { state with heap := state.heap.removeRegion base length }
  else
    pure false

/-- `mprotect`: the start must be aligned and the range mapped. -/
def mprotect (base length : Nat) (none : Bool) : Vgc Bool := do
  let succeeds ← answer Env.mprotect
  fun _ state =>
    if succeeds ∧ base % systemPageSize = 0 ∧ state.heap.isMapped base then
      let after := state.heap.setProtection base length none
      .ok true { state with heap := after, actions := .protect base after :: state.actions }
    else
      .ok false state

/-- `memset` of a client range to zero. -/
def memset (target length : Nat) : Vgc Unit := fun _ state =>
  if state.heap.rangeAccessible target length then
    .ok () { state with
      heap := { state.heap with memory := state.heap.memory.fill target length 0 } }
  else
    .fault target

/-- `memcpy` between client ranges. -/
def memcpy (target source length : Nat) : Vgc Unit := fun _ state =>
  if state.heap.rangeAccessible source length ∧ state.heap.rangeAccessible target length then
    .ok () { state with
      heap := { state.heap with memory := state.heap.memory.copy target source length } }
  else
    .fault target

/-- The address of the MMAP whose header holds the mutex. -/
def Mutex.address : Mutex → Nat
  | .shared => 0
  | .mmapBlock address => address

/-- The mutex can be accessed: the shared one always, the one of an MMAP when
its header can be. -/
def mutexAccessible (heap : Heap) : Mutex → Bool
  | .shared => true
  | .mmapBlock address => heap.mmapAccessible address

/-- `PTHREAD_mutexLock`.  The mutexes are of type `PTHREAD_MUTEX_ERRORCHECK`:
locking one that is held fails with `EDEADLK`. -/
def pthreadMutexLock (mutex : Mutex) : Vgc Bool := do
  let succeeds ← answer Env.mutexLock
  fun _ state =>
    if mutexAccessible state.heap mutex then
      if succeeds ∧ mutex ∉ state.held then
        .ok true { state with
          held := mutex :: state.held
          actions := .lock mutex true state.heap state.held :: state.actions }
      else
        .ok false { state with
          actions := .lock mutex false state.heap state.held :: state.actions }
    else
      .fault mutex.address

/-- `PTHREAD_mutexUnlock`.  Unlocking a mutex that is not held fails with
`EPERM`. -/
def pthreadMutexUnlock (mutex : Mutex) : Vgc Bool := do
  let succeeds ← answer Env.mutexUnlock
  fun _ state =>
    if mutexAccessible state.heap mutex then
      if succeeds ∧ mutex ∈ state.held then
        .ok true { state with
          held := state.held.erase mutex
          actions := .unlock mutex true state.held :: state.actions }
      else
        .ok false { state with actions := .unlock mutex false state.held :: state.actions }
    else
      .fault mutex.address

/-- `PTHREAD_mutexInit`. -/
def pthreadMutexInit : Vgc Bool := answer Env.mutexInit

/-- `PTHREAD_mutexDestroy`. -/
def pthreadMutexDestroy : Vgc Bool := answer Env.mutexDestroy

/-- `PTHREAD_mutexattrInit`. -/
def pthreadMutexattrInit : Vgc Bool := answer Env.mutexattrInit

/-- `PTHREAD_mutexattrDestroy`. -/
def pthreadMutexattrDestroy : Vgc Bool := answer Env.mutexattrDestroy

/-- The statement `if (!call) vgc_message(ERROR_LEVEL, ...)`, which goes on
after a failure. -/
def orReport (call : Vgc Bool) (function title status : String) : Vgc Unit := do
  let succeeds ← call
  if succeeds then pure () else vgcMessage errorLevel function title "Error" status []

end VgcMalloc
