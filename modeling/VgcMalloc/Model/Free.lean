import VgcMalloc.Model.Malloc

/-!
# Release

The release half of `vgc_malloc.c`: the membership test, the two coalescing
routines, the unlinking and unmapping of an empty MMAP, `vgc_free`,
`vgc_calloc`, `vgc_realloc` and the report made at exit.
-/

namespace VgcMalloc

open Program

/-- The loop of `isInMmapBlock`. -/
def isInMmapBlockFrom (ptr : Nat) : Nat → Nat → Vgc Bool
  | 0, _ => diverge
  | fuel + 1, mmapBlock =>
      if mmapBlock = 0 then pure false
      else do
        let shared ← getShared
        if ptr > mmapBlock ∧ ptr < add64 mmapBlock shared.mmapBlockSize then
          return true
        let header ← readMmapHeader mmapBlock
        isInMmapBlockFrom ptr fuel header.next

/-- `isInMmapBlock`. -/
def isInMmapBlock (ptr : Nat) : Vgc Bool := do
  let shared ← getShared
  isInMmapBlockFrom ptr walkFuel shared.mmapBlockFirst

/-- `freeMMAP`. -/
def freeMMAP (mmapBlock : Nat) : Vgc Unit := do
  let header ← readMmapHeader mmapBlock
  vgcMessage vgcMallocDebugLevel "freeMMAP" "Unmapping MMAP at" "memory address" ""
    [mmapBlock, header.size / 1024]
  modifyShared fun shared =>
    { shared with
      mmapBlockCount := shared.mmapBlockCount - 1
      mmapBlockFirst := if mmapBlock = shared.mmapBlockFirst then 0 else shared.mmapBlockFirst }
  unmapOrReport "freeMMAP" mmapBlock

/-- The body shared by the two coalescing routines: `keeper` takes over the
block `gone` behind it. -/
def absorbBlock (keeper gone : Nat) : Vgc Unit := do
  let _ ← vgcMunprotect gone
  let keeperHeader ← readMallocHeader keeper
  let goneHeader ← readMallocHeader gone
  writeMallocFields keeper
    [(.size, add64 keeperHeader.size (add64 goneHeader.size mallocHeaderSize)),
      (.next, goneHeader.next)]
  when (goneHeader.next ≠ 0) (writeMallocField goneHeader.next .prev keeper)

/-- `freeBlocksNext`: absorb the next block when it is free. -/
def freeBlocksNext (mallocBlock : Nat) : Vgc Unit := do
  let header ← readMallocHeader mallocBlock
  when (header.next ≠ 0) do
    let nextHeader ← readMallocHeader header.next
    when (nextHeader.status = .free) (absorbBlock mallocBlock header.next)

/-- `freeBlocksPrev`: let the previous block absorb this one when it is
free. -/
def freeBlocksPrev (mallocBlock : Nat) : Vgc Unit := do
  let header ← readMallocHeader mallocBlock
  when (header.prev ≠ 0) do
    let prevHeader ← readMallocHeader header.prev
    when (prevHeader.status = .free) (absorbBlock header.prev mallocBlock)

/-- The release of one block inside `vgc_free`. -/
def releaseBlock (mallocBlock : Nat) : Vgc Unit := do
  writeMallocField mallocBlock .status MallocStatus.free.toWord
  let _ ← vgcMunprotect mallocBlock
  freeBlocksNext mallocBlock
  freeBlocksPrev mallocBlock

/-- `if (!PTHREAD_mutexUnlock(&mmapBlock->mutex))` in `vgc_free`. -/
def unlockMmapBlock (mmapBlock : Nat) : Vgc Unit :=
  orReport (pthreadMutexUnlock (.mmapBlock mmapBlock)) "vgc_free" "PTHREAD_mutexUnlock"
    "can't unlock mmapBlock mutex"

/-- `if (!PTHREAD_mutexUnlock(&shared->mutex))` in `vgc_free`. -/
def unlockShared : Vgc Unit :=
  orReport (pthreadMutexUnlock .shared) "vgc_free" "PTHREAD_mutexUnlock"
    "can't unlock shared mutex"

/-- Let the next MMAP point back past an empty one; false when `vgc_free`
returns because the neighbour cannot be locked. -/
def unlinkFromNext (mmapBlock : Nat) : Vgc Bool := do
  let header ← readMmapHeader mmapBlock
  if header.next = 0 then
    return true
  if !(← pthreadMutexLock (.mmapBlock header.next)) then
    unlockMmapBlock mmapBlock
    unlockShared
    vgcMessage errorLevel "vgc_free" "PTHREAD_mutexLock" "Error"
      "can't get lock on mmapBlock->next" []
    return false
  writeMmapField header.next .prev header.prev
  orReport (pthreadMutexUnlock (.mmapBlock header.next)) "vgc_free" "PTHREAD_mutexUnlock"
    "can't unlock mmapBlock->next mutex"
  return true

/-- Let the previous MMAP point forward past an empty one; false when
`vgc_free` returns because the neighbour cannot be locked. -/
def unlinkFromPrev (mmapBlock : Nat) : Vgc Bool := do
  let header ← readMmapHeader mmapBlock
  if header.prev = 0 then
    return true
  if !(← pthreadMutexLock (.mmapBlock header.prev)) then
    unlockMmapBlock mmapBlock
    unlockShared
    vgcMessage errorLevel "vgc_free" "PTHREAD_mutexLock" "Error"
      "can't get lock on mmapBlock->prev" []
    return false
  writeMmapField header.prev .next header.next
  orReport (pthreadMutexUnlock (.mmapBlock header.prev)) "vgc_free" "PTHREAD_mutexUnlock"
    "can't unlock mmapBlock->prev mutex"
  return true

/-- The branch of `vgc_free` for an MMAP that is all free. -/
def releaseMMAP (mmapBlock : Nat) : Vgc Unit := do
  if !(← unlinkFromNext mmapBlock) then
    return ()
  if !(← unlinkFromPrev mmapBlock) then
    return ()
  unlockMmapBlock mmapBlock
  orReport pthreadMutexDestroy "vgc_free" "PTHREAD_mutexDestroy"
    "can't destroy mmapBlock mutex"
  orReport pthreadMutexattrDestroy "vgc_free" "PTHREAD_mutexattrDestroy"
    "can't destroy attr mmapBlock mutex"
  freeMMAP mmapBlock
  unlockShared

/-- `vgc_free` once the header has been found and its checksums hold. -/
def freeInMmapBlock (ptr mallocBlock mmapBlock : Nat) : Vgc Unit := do
  let mmapHeader ← readMmapHeader mmapBlock
  writeMmapField mmapBlock .elements (sub64 mmapHeader.elements 1)
  let header ← readMallocHeader mallocBlock
  vgcMessage vgcMallocDebugLevel "vgc_free" "Free" "" ""
    [header.size, ptr, sub64 mmapHeader.elements 1]
  if !(← pthreadMutexLock (.mmapBlock mmapBlock)) then
    unlockShared
    vgcMessage errorLevel "vgc_free" "PTHREAD_mutexLock" "Error"
      "can't get lock on mmapBlock" []
    return ()
  if !(← checkMmapBlock "vgc_free" mmapBlock) then
    unlockMmapBlock mmapBlock
    unlockShared
    vgcMessage errorLevel "vgc_free" "checkMmapBlock" "Error"
      "The MMAP for vgc_free is unstable while freeing memory" []
    return ()
  let shared ← getShared
  when shared.isMprotectEnabled
    (vgcMessage vgcMallocDebugLevel "vgc_free" "Unprotect" "" ""
      [mallocBlock, ptr, add64 ptr header.size, header.size])
  releaseBlock mallocBlock
  let first ← readMallocHeader (firstMallocHeaderInMMAP mmapBlock)
  if first.next = 0 then
    releaseMMAP mmapBlock
    return ()
  unlockMmapBlock mmapBlock
  unlockShared

/-- `ptr & ~(pageSize - 1)`. -/
def pageMask (pageSize ptr : Nat) : Nat := ptr &&& (wordRange - 1 - (pageSize - 1))

/-- The pointer as `vgc_free` rounds it. -/
def roundPointer (shared : Shared) (ptr : Nat) : Nat :=
  if shared.isMprotectEnabled then pageMask shared.pageSize ptr else ptr

/-- The header that `vgc_free` takes a pointer to belong to. -/
def headerOf (shared : Shared) (ptr : Nat) : Nat :=
  sub64 (roundPointer shared ptr) mallocHeaderSize

/-- The report of a wrong checksum in `vgc_free`. -/
def reportChecksum (title : String) (size ptr checkStart address dumped : Nat) : Vgc Unit := do
  unlockShared
  vgcMessage errorLevel "vgc_free" "Free" "" "" [size, ptr]
  vgcMessage errorLevel "vgc_free" title "Error"
    (if checkStart ≠ checksum then "wrong checksum in checkStart"
      else "wrong checksum in checkEnd") [address]
  dumpMmapBlock "vgc_free" dumped "MMAP block wrong checksum"

/-- `vgc_free`. -/
def vgcFree (ptr : Nat) : Vgc Unit := do
  if ptr = 0 then
    vgcMessage errorLevel "vgc_free" "ptr" "Warning" "variable points to zero" []
    return ()
  if !(← pthreadMutexLock .shared) then
    vgcMessage errorLevel "vgc_free" "PTHREAD_mutexLock" "Error"
      "can't get lock on shared mutex" []
    return ()
  if !(← isInMmapBlock ptr) then
    unlockShared
    vgcMessage errorLevel "vgc_free" "isInMmapBlock" "Error" "points outside of MMAP at" [ptr]
    return ()
  let shared ← getShared
  let rounded := roundPointer shared ptr
  let mallocBlock := headerOf shared ptr
  let header ← readMallocHeader mallocBlock
  if header.checkStart ≠ checksum ∨ header.checkEnd ≠ checksum then
    reportChecksum "mallocBlock" header.size rounded header.checkStart rounded header.mmapBlock
    return ()
  let mmapHeader ← readMmapHeader header.mmapBlock
  if mmapHeader.checkStart ≠ checksum ∨ mmapHeader.checkEnd ≠ checksum then
    reportChecksum "mmapBlock" header.size rounded mmapHeader.checkStart header.mmapBlock
      header.mmapBlock
    return ()
  freeInMmapBlock rounded mallocBlock header.mmapBlock

/-- `vgc_calloc`. -/
def vgcCalloc (nmemb size : Nat) : Vgc Nat := do
  let mallocSize := mul64 nmemb size
  if mallocSize = 0 then
    vgcMessage errorLevel "vgc_calloc" "mallocSize" "Warning" "total size is zero" []
    return 0
  let ptr ← vgcMalloc mallocSize
  if ptr = 0 then
    return 0
  memset ptr mallocSize
  return ptr

/-- `vgc_realloc`. -/
def vgcRealloc (ptr size : Nat) : Vgc Nat := do
  if size = 0 then
    when (ptr ≠ 0) (vgcFree ptr)
    return 0
  if ptr = 0 then
    vgcMalloc size
  else
    let new ← vgcMalloc size
    if new = 0 then
      return 0
    let oldSize ← readMallocSize (sub64 ptr mallocHeaderSize)
    memcpy new ptr (min oldSize size)
    vgcFree ptr
    return new

/-- `mallocCleanup`; the format text of the report stands for its status. -/
def mallocCleanup : Vgc Unit := do
  let shared ← getShared
  when (shared.mmapBlockFirst ≠ 0) do
    let header ← readMmapHeader shared.mmapBlockFirst
    vgcMessage infoLevel "mallocCleanup" "mmapBlockFirst" "Block is not empty"
      (if header.elements > 1 then "memory leaks list" else "memory leak list") []
    dumpMmapBlock "mallocCleanup" shared.mmapBlockFirst "Block is not empty"
  orReport pthreadMutexattrDestroy "mallocCleanup" "PTHREAD_mutexattrDestroy"
    "can't destroy shared mutexAttr"
  orReport pthreadMutexDestroy "mallocCleanup" "PTHREAD_mutexDestroy"
    "can't destroy shared mutexAttr"
  orReport (answer Env.munmap) "mallocCleanup" "munmap" "unmapping MMAP (shared)"

end VgcMalloc
