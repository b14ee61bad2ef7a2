import VgcMalloc.Model.Free
import VgcMalloc.Model.Response

/-!
# The debug report

`vgc_mallocCheckMMAP`, which checks every MMAP and dumps it into a response.  A
dump reads one header after the other while it appends their lines.  When a line
would go in front of the buffer, no text is left and the walk stops there.  The
stack traces of busy blocks, which go to the log, are left out: as all dumps,
these are those of a build without `VGC_MALLOC_STACKTRACE`, or of blocks whose
saved frames can all be looked up.
-/

namespace VgcMalloc

open Program

/-- The loop of `dumpMmapBlock` with a response. -/
def dumpBlocksInto (size : Nat) :
    Nat → Nat → Nat → Totals → List Char → Vgc (Except Truncated (Totals × List Char))
  | 0, _, _, _, _ => diverge
  | fuel + 1, index, mallocBlock, totals, response =>
      if mallocBlock = 0 then pure (.ok (totals, response))
      else do
        let header ← readMallocFields MallocField.links mallocBlock
        match appendLine size response (Text.snprintf 200 (blockLine index mallocBlock header)) with
        | .error truncated => return .error truncated
        | .ok response =>
            dumpBlocksInto size fuel (index + 1) header.next (totals.count header) response

/-- `dumpMmapBlock` with a response. -/
def dumpMmapInto (size mmapBlock : Nat) (response : List Char) : Vgc (Option (List Char)) := do
  if mmapBlock = 0 then
    return some response
  let mmapHeader ← readMmapHeader mmapBlock
  let head := (headLines mmapBlock).foldl (printLine mmapHeader.maxSize) response
  match ← dumpBlocksInto size walkFuel 0 (firstMallocHeaderInMMAP mmapBlock) .zero head with
  | .error truncated => return truncated
  | .ok (totals, response) =>
      let shared ← getShared
      return ended (appendLines size response
        ((sumLines shared.mmapBlockSize totals).map (Text.snprintf 100)))

/-- The body of the loop of `vgc_mallocCheckMMAP`: a call that fails is
reported, and the next one is made. -/
def checkAndDump (size mmapBlock : Nat) (response : List Char) : Vgc (Option (List Char)) := do
  orReport (pthreadMutexLock (.mmapBlock mmapBlock)) "vgc_mallocCheckMMAP" "PTHREAD_mutexLock"
    "can't get lock on mmapBlock"
  if !(← checkMmapBlock "Debug memory" mmapBlock) then
    vgcMessage errorLevel "vgc_mallocCheckMMAP" "Debug memory" "Found memory problem" "Error" []
  let response ← dumpMmapInto size mmapBlock response
  orReport (pthreadMutexUnlock (.mmapBlock mmapBlock)) "vgc_mallocCheckMMAP"
    "PTHREAD_mutexUnlock" "can't unlock mmapBlock mutex"
  return response

/-- The loop of `vgc_mallocCheckMMAP`. -/
def checkAndDumpFrom (size : Nat) : Nat → Nat → List Char → Vgc (Option (List Char))
  | 0, _, _ => diverge
  | fuel + 1, mmapBlock, response =>
      if mmapBlock = 0 then pure (some response)
      else do
        match ← checkAndDump size mmapBlock response with
        | none => return none
        | some response =>
            let header ← readMmapHeader mmapBlock
            checkAndDumpFrom size fuel header.next response

/-- `vgc_mallocCheckMMAP` with a response. -/
def vgcMallocCheckMMAP (response : List Char) (size : Nat) : Vgc (Option (List Char)) := do
  orReport (pthreadMutexLock .shared) "vgc_mallocCheckMMAP" "PTHREAD_mutexLock"
    "can't get lock on shared mutex"
  let shared ← getShared
  let response ← checkAndDumpFrom size walkFuel shared.mmapBlockFirst response
  orReport (pthreadMutexUnlock .shared) "vgc_mallocCheckMMAP" "PTHREAD_mutexUnlock"
    "can't unlock shared mutex"
  return response

end VgcMalloc
