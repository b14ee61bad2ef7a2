import Mathlib.Algebra.Group.Int.Defs
import VgcMalloc.Model.Mprotect

/-!
# Allocation

The allocation half of `vgc_malloc.c`: the checks and dumps of a block list,
the creation of MMAPs, the first-fit scan with splitting, and `vgc_malloc`.
Loops over a list carry a step bound, the number of addresses; a walk that
takes more steps has entered a cycle and never ends.

A dump leaves out its two lines of dashes and, for blocks in use, the call of
`vgc_stacktraceShow`, which only writes to the log when it returns.  So the
dumps are those of a build without `VGC_MALLOC_STACKTRACE`, or of blocks whose
saved frames can all be looked up.
-/

namespace VgcMalloc

open Program

/-- Step bound of the walks along `next`. -/
def walkFuel : Nat := wordRange

/-- `firstMallocHeaderInMMAP`. -/
def firstMallocHeaderInMMAP (mmapBlock : Nat) : Nat := add64 mmapBlock mmapHeaderSize

/-! ## Walks over a block list -/

/-- The sums kept by `dumpMmapBlock` and `checkMmapBlock`. -/
structure Totals where
  busySize : Nat
  freeSize : Nat
  headersSize : Nat
  deriving DecidableEq

/-- The sums before the first block. -/
def Totals.zero : Totals := ⟨0, 0, 0⟩

/-- Add one block to the sums. -/
def Totals.count (totals : Totals) (header : MallocHeader) : Totals :=
  let headersSize := add64 totals.headersSize mallocHeaderSize
  match header.status with
  | .free => { totals with freeSize := add64 totals.freeSize header.size, headersSize }
  | .busy => { totals with busySize := add64 totals.busySize header.size, headersSize }

/-- The payload address shown for a link, null for a null link. -/
def payloadOf (block : Nat) : Nat :=
  if block = 0 then 0 else add64 block mallocHeaderSize

/-- The loop of `dumpMmapBlock`. -/
def dumpBlocks : Nat → Nat → Nat → Totals → Vgc Totals
  | 0, _, _, _ => diverge
  | fuel + 1, index, mallocBlock, totals =>
      if mallocBlock = 0 then pure totals
      else do
        let header ← readMallocFields MallocField.links mallocBlock
        emit (.block index (add64 mallocBlock mallocHeaderSize) (payloadOf header.prev)
          (payloadOf header.next) header.status header.size)
        dumpBlocks fuel (index + 1) header.next (totals.count header)

/-- `dumpMmapBlock` without a response buffer. -/
def dumpMmapBlock (str : String) (mmapBlock : Nat) (desc : String) : Vgc Unit := do
  if mmapBlock = 0 then
    return ()
  vgcMessage infoLevel "dumpMmapBlock" str desc "MMAP at" [mmapBlock]
  vgcMessage infoLevel "dumpMmapBlock" str
    " ID memory         prev           next           status    size" "" []
  let totals ← dumpBlocks walkFuel 0 (firstMallocHeaderInMMAP mmapBlock) .zero
  let shared ← getShared
  let maxSize := sub64 (sub64 shared.mmapBlockSize mmapHeaderSize) totals.headersSize
  let totalSize := add64 totals.busySize totals.freeSize
  vgcMessage infoLevel "dumpMmapBlock" str "" "size allocated.:" [shared.mmapBlockSize]
  vgcMessage infoLevel "dumpMmapBlock" str "" "size busy......:" [totals.busySize]
  vgcMessage infoLevel "dumpMmapBlock" str "" "size free......:" [totals.freeSize]
  vgcMessage infoLevel "dumpMmapBlock" str "" "size total.....:" [totalSize]
  vgcMessage infoLevel "dumpMmapBlock" str "" "size max.......:" [maxSize]

/-- The loop of `checkMmapBlock`; no sums when it returns false. -/
def checkBlocks (str : String) (mmapBlock : Nat) : Nat → Nat → Totals → Vgc (Option Totals)
  | 0, _, _ => diverge
  | fuel + 1, mallocBlock, totals =>
      if mallocBlock = 0 then pure (some totals)
      else do
        let header ← readMallocFields MallocField.links mallocBlock
        let mmapHeader ← readMmapHeader mmapBlock
        let shared ← getShared
        if header.size > mmapHeader.maxSize then
          vgcMessage errorLevel "checkMmapBlock" str "Found too big memory block" "Error"
            [add64 mallocBlock mallocHeaderSize]
          dumpMmapBlock str mmapBlock "memory block wrong size"
          return none
        if mallocBlock < mmapBlock ∨ mallocBlock > add64 mmapBlock shared.mmapBlockSize then
          vgcMessage errorLevel "checkMmapBlock" str "Found wrong memory pointer" "Error"
            [add64 mallocBlock mallocHeaderSize]
          dumpMmapBlock str mmapBlock "memory block wrong pointer"
          return none
        if header.next = 0 then
          return some (totals.count header)
        let nextHeader ← readMallocFields MallocField.links header.next
        if mallocBlock ≠ nextHeader.prev then
          vgcMessage errorLevel "checkMmapBlock" str "Found memory overwrite" "Error"
            [add64 mallocBlock mallocHeaderSize]
          dumpMmapBlock str mmapBlock "memory block overwrite"
          return none
        checkBlocks str mmapBlock fuel header.next (totals.count header)

/-- `checkMmapBlock`. -/
def checkMmapBlock (str : String) (mmapBlock : Nat) : Vgc Bool := do
  match ← checkBlocks str mmapBlock walkFuel (firstMallocHeaderInMMAP mmapBlock) .zero with
  | none => return false
  | some totals =>
      let shared ← getShared
      let maxSize := sub64 (sub64 shared.mmapBlockSize mmapHeaderSize) totals.headersSize
      let totalSize := add64 totals.busySize totals.freeSize
      when (maxSize ≠ totalSize) do
        vgcMessage errorLevel "checkMmapBlock" str "Found inconsistent MMAP" "Error" [mmapBlock]
        dumpMmapBlock str mmapBlock "MMAP block inconsistent"
      return true

/-! ## Creation of an MMAP -/

/-- The cleanup `munmap(mmapBlock, mmapBlock->size)` with its report. -/
def unmapOrReport (function : String) (mmapBlock : Nat) : Vgc Unit := do
  let header ← readMmapHeader mmapBlock
  orReport (munmap mmapBlock header.size) function "munmap" "unmapping MMAP"

/-- The stores of `allocMMAP` that set up the MMAP and its first block, which
is free and takes all the memory. -/
def initialiseMMAP (mmapBlockSize mmapLastBlock mmapBlock : Nat) : Vgc Unit := do
  let maxSize := sub64 (sub64 mmapBlockSize mmapHeaderSize) mallocHeaderSize
  writeMmapFields mmapBlock
    [(.size, mmapBlockSize), (.maxSize, maxSize), (.prev, mmapLastBlock), (.next, 0)]
  when (mmapLastBlock ≠ 0) (writeMmapField mmapLastBlock .next mmapBlock)
  writeMmapFields mmapBlock [(.elements, 0), (.checkStart, checksum), (.checkEnd, checksum)]
  vgcMessage vgcMallocDebugLevel "vgc_malloc" "New MMAP at" "memory address" ""
    [mmapBlock, mmapBlockSize / 1024]
  let mallocBlock := add64 mmapBlock mmapHeaderSize
  let header ← readMmapHeader mmapBlock
  writeMallocFields mallocBlock
    [(.size, header.maxSize), (.status, MallocStatus.free.toWord), (.mmapBlock, mmapBlock),
      (.prev, 0), (.next, 0), (.checkStart, checksum), (.checkEnd, checksum)]
  let _ ← vgcMprotect mallocBlock

/-- `allocMMAP`. -/
def allocMMAP (mmapBlockSize mmapLastBlock : Nat) : Vgc Nat := do
  let mmapBlock ← mmap mmapBlockSize
  if mmapBlock = mapFailed then
    vgcMessage errorLevel "allocMMAP" "mmap" "Error" "no more memory available" []
    return mapFailed
  if !(← pthreadMutexattrInit) then
    vgcMessage errorLevel "allocMMAP" "PTHREAD_mutexattrInit" "Error"
      "mmapBlock mutex attr init failed" []
    unmapOrReport "allocMMAP" mmapBlock
    return mapFailed
  if !(← pthreadMutexInit) then
    vgcMessage errorLevel "allocMMAP" "PTHREAD_mutexInit" "Error"
      "can't create mutex on mmapBlock" []
    orReport pthreadMutexattrDestroy "allocMMAP" "PTHREAD_mutexattrDestroy"
      "can't destroy mutex on mmapBlock"
    unmapOrReport "allocMMAP" mmapBlock
    return mapFailed
  if !(← pthreadMutexLock (.mmapBlock mmapBlock)) then
    vgcMessage errorLevel "allocMMAP" "PTHREAD_mutexLock" "Error"
      "can't get lock on mmapBlock" []
    unmapOrReport "allocMMAP" mmapBlock
    return mapFailed
  initialiseMMAP mmapBlockSize mmapLastBlock mmapBlock
  if !(← pthreadMutexUnlock (.mmapBlock mmapBlock)) then
    vgcMessage errorLevel "allocMMAP" "PTHREAD_mutexUnlock" "Error"
      "can't unlock mmapBlock mutex" []
    unmapOrReport "allocMMAP" mmapBlock
    return mapFailed
  modifyShared fun shared => { shared with mmapBlockCount := shared.mmapBlockCount + 1 }
  return mmapBlock

/-- `mmapBlockAllocate`: the full size, then one tenth of it. -/
def mmapBlockAllocate (mmapBlockSize mmapLastBlock : Nat) : Vgc Nat := do
  let mmapBlock ← allocMMAP mmapBlockSize mmapLastBlock
  if mmapBlock ≠ mapFailed then
    return mmapBlock
  let mmapBlock ← allocMMAP (mmapBlockSize / 10) mmapLastBlock
  when (mmapBlock = mapFailed)
    (vgcMessage errorLevel "mmapBlockAllocate" "allocMMAP" "Error"
      "can't get enough memory for MMAP" [])
  return mmapBlock

/-! ## Allocation in one MMAP -/

/-- The test of the scan, which reads the size of free blocks only. -/
def isFreeBlock (length mallocBlock : Nat) : Vgc Bool := do
  let header ← readMallocFields [.status] mallocBlock
  if header.status = .free then
    let header ← readMallocFields [.size] mallocBlock
    return header.size ≥ length
  else
    return false

/-- The scan of `allocMallocBlock`: the first free block that is large
enough, or null. -/
def findFreeBlock (length : Nat) : Nat → Nat → Vgc Nat
  | 0, _ => diverge
  | fuel + 1, mallocBlock =>
      if mallocBlock = 0 then pure 0
      else do
        if ← isFreeBlock length mallocBlock then
          return mallocBlock
        let header ← readMallocFields [.next] mallocBlock
        findFreeBlock length fuel header.next

/-- A `size_t` stored in an `int`. -/
def toInt32 (value : Nat) : Int := Int.bmod value (2 ^ 32)

/-- An `int` converted to `size_t`. -/
def ofInt32 (value : Int) : Nat := (value % 2 ^ 64).toNat

/-- The length rounded up to whole pages. -/
def roundToPages (pageSize length : Nat) : Nat :=
  if length % pageSize = 0 then length
  else mul64 (add64 (length / pageSize) 1) pageSize

/-- Split the free block when a header and at least one byte more are left,
otherwise grant all of it; the granted length is returned. -/
def grantBlock (mmapBlock mallocBlock length : Nat) : Vgc Nat := do
  let header ← readMallocHeader mallocBlock
  let blockSize := add64 length mallocHeaderSize
  let split := header.size > blockSize
  let next := if split then add64 mallocBlock blockSize else header.next
  let granted := if split then length else header.size
  when split do
    writeMallocFields next
      [(.mmapBlock, mmapBlock), (.size, sub64 header.size blockSize),
        (.status, MallocStatus.free.toWord), (.prev, mallocBlock), (.next, header.next),
        (.checkStart, checksum), (.checkEnd, checksum)]
    let _ ← vgcMprotect next
  let mmapHeader ← readMmapHeader mmapBlock
  writeMmapField mmapBlock .elements (add64 mmapHeader.elements 1)
  writeMallocFields mallocBlock
    [(.mmapBlock, mmapBlock), (.size, granted), (.status, MallocStatus.busy.toWord),
      (.next, next)]
  when (next ≠ 0) do
    let nextHeader ← readMallocHeader next
    when (nextHeader.next ≠ 0) (writeMallocField nextHeader.next .prev next)
  writeMallocFields mallocBlock [(.checkStart, checksum), (.checkEnd, checksum)]
  return granted

/-- `vgc_stacktraceSave`. -/
def vgcStacktraceSave (mallocBlock : Nat) : Vgc Unit := do
  let frames ← answer Env.backtrace
  let saved := (List.finRange 10).zip frames
  writeMallocFields mallocBlock (saved.map fun entry => (.btArray entry.1, entry.2))
  writeMallocFields mallocBlock [(.btArraySize, saved.length)]

/-- The pointer handed out for a granted block: in mprotect mode it is moved
up so that the requested bytes end with a page. -/
def memoryOf (shared : Shared) (mallocBlock : Nat) (lengthOrig : Int) : Nat :=
  let memory := add64 mallocBlock mallocHeaderSize
  if shared.isMprotectEnabled then
    add64 memory (sub64 (shared.pageSize % 2 ^ 32) (ofInt32 lengthOrig % shared.pageSize))
  else
    memory

/-- `allocMallocBlock`. -/
def allocMallocBlock (mmapBlock length : Nat) : Vgc Nat := do
  if !(← pthreadMutexLock (.mmapBlock mmapBlock)) then
    vgcMessage errorLevel "allocMallocBlock" "PTHREAD_mutexLock" "Error"
      "can't get lock on mmapBlock" []
    return 0
  let mallocBlock ← findFreeBlock length walkFuel (add64 mmapBlock mmapHeaderSize)
  if mallocBlock = 0 then
    orReport (pthreadMutexUnlock (.mmapBlock mmapBlock)) "allocMallocBlock"
      "PTHREAD_mutexUnlock" "can't unlock mmapBlock mutex"
    return 0
  if !(← checkMmapBlock "vgc_malloc" mmapBlock) then
    orReport (pthreadMutexUnlock (.mmapBlock mmapBlock)) "allocMallocBlock"
      "PTHREAD_mutexUnlock" "can't unlock mmapBlock mutex"
    vgcMessage errorLevel "allocMallocBlock" "checkMmapBlock" "Error"
      "The MMAP for vgc_malloc is unstable while allocating memory" []
    return 0
  let lengthOrig := toInt32 length
  let shared ← getShared
  let rounded := if shared.isMprotectEnabled then roundToPages shared.pageSize length else length
  let granted ← grantBlock mmapBlock mallocBlock rounded
  let memory := memoryOf shared mallocBlock lengthOrig
  vgcStacktraceSave mallocBlock
  orReport (pthreadMutexUnlock (.mmapBlock mmapBlock)) "allocMallocBlock"
    "PTHREAD_mutexUnlock" "can't unlock mmapBlock mutex"
  let mmapHeader ← readMmapHeader mmapBlock
  vgcMessage vgcMallocDebugLevel "vgc_malloc" "Malloc" "" ""
    [granted, memory, mmapHeader.elements]
  when shared.isMprotectEnabled do
    let header ← readMallocHeader mallocBlock
    vgcMessage vgcMallocDebugLevel "vgc_malloc" "Protect" "" ""
      [mallocBlock, memory, add64 memory header.size, header.size]
  return memory

/-! ## `vgc_malloc` -/

/-- Initialise the first MMAP when there is none; false when that fails. -/
def initialiseFirstMMAP : Vgc Bool := do
  let shared ← getShared
  if shared.mmapBlockFirst ≠ 0 then
    return true
  let mmapBlock ← mmapBlockAllocate shared.mmapBlockSize 0
  modifyShared fun shared => { shared with mmapBlockFirst := mmapBlock }
  return mmapBlock ≠ mapFailed

/-- The size aligned to pointers when blocks are not guarded. -/
def alignSize (shared : Shared) (size : Nat) : Nat :=
  if shared.isMprotectEnabled then size
  else add64 size (if size % pointerSize = 0 then 0 else pointerSize - size % pointerSize)

/-- The loop of `vgc_malloc` over the MMAPs: the memory obtained, or null, and
the MMAP visited last. -/
def mallocInList (size : Nat) : Nat → Nat → Nat → Vgc (Nat × Nat)
  | 0, _, _ => diverge
  | fuel + 1, mmapBlock, mmapBlockLast =>
      if mmapBlock = 0 then pure (0, mmapBlockLast)
      else do
        let memory ← allocMallocBlock mmapBlock size
        if memory ≠ 0 then
          return (memory, mmapBlock)
        let header ← readMmapHeader mmapBlock
        mallocInList size fuel header.next mmapBlock

/-- `vgc_malloc` once the size has passed its checks. -/
def mallocInMMAPs (size : Nat) : Vgc Nat := do
  if !(← pthreadMutexLock .shared) then
    vgcMessage errorLevel "vgc_malloc" "PTHREAD_mutexLock" "Error"
      "can't get lock on shared mutex" []
    return 0
  let shared ← getShared
  let (memory, mmapBlockLast) ← mallocInList size walkFuel shared.mmapBlockFirst 0
  if memory ≠ 0 then
    orReport (pthreadMutexUnlock .shared) "vgc_malloc" "PTHREAD_mutexUnlock"
      "can't unlock shared mutex"
    return memory
  let next ← mmapBlockAllocate shared.mmapBlockSize mmapBlockLast
  if next = mapFailed then
    orReport (pthreadMutexUnlock .shared) "vgc_malloc" "PTHREAD_mutexUnlock"
      "can't unlock shared mutex"
    return 0
  let memory ← allocMallocBlock next size
  orReport (pthreadMutexUnlock .shared) "vgc_malloc" "PTHREAD_mutexUnlock"
    "can't unlock shared mutex"
  return memory

/-- `vgc_malloc`. -/
def vgcMalloc (size : Nat) : Vgc Nat := do
  if !(← initialiseFirstMMAP) then
    return 0
  if size = 0 then
    vgcMessage errorLevel "vgc_malloc" "size" "Warning" "size is zero" []
    return 0
  let shared ← getShared
  let size := alignSize shared size
  let first ← readMmapHeader shared.mmapBlockFirst
  if size ≥ first.maxSize then
    vgcMessage errorLevel "vgc_malloc" "size" "Error" "size is too big" [size]
    return 0
  mallocInMMAPs size

end VgcMalloc
