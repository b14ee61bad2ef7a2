import VgcMalloc.Model.Malloc
import VgcMalloc.Text.Strings

/-!
# Dumps into a response

`dumpMmapBlock` with a response: the text in a buffer that is extended line by
line.  The first three lines are printed at its end; every other line is
printed into a buffer of its own and appended unless the length test ends the
dump.  The stack traces of busy blocks, which go to the log, are left out.
-/

namespace VgcMalloc

open Text

/-! ## Lines -/

/-- `c_black`. -/
def colourBlack : List Char := "\x1b[0m".toList

/-- `c_red`. -/
def colourRed : List Char := "\x1b[0;31m".toList

/-- `c_green`. -/
def colourGreen : List Char := "\x1b[0;32m".toList

/-- `c_blue`. -/
def colourBlue : List Char := "\x1b[0;34m".toList

/-- The dashes of `dumpMmapBlock`. -/
def dashes : List Char :=
  "---------------------------------------------------------------------".toList

/-- The three lines at the head of a dump. -/
def headLines (mmapBlock : Nat) : List (List Char) :=
  ["\nMMAP at 0x".toList ++ hex 12 mmapBlock ++ ['\n'],
    " ID memory         prev           next           status    size\n".toList,
    dashes ++ ['\n']]

/-- The line of a block. -/
def blockLine (index mallocBlock : Nat) (header : MallocHeader) : List Char :=
  let (colour, word) := match header.status with
    | .free => (colourGreen, "FREE".toList)
    | .busy => (colourBlue, "BUSY".toList)
  colourBlue ++ decimal 3 (toInt32 index) ++ colourBlack ++
    " 0x".toList ++ hex 12 (add64 mallocBlock mallocHeaderSize) ++ colourRed ++
    " 0x".toList ++ hex 12 (payloadOf header.prev) ++
    " 0x".toList ++ hex 12 (payloadOf header.next) ++
    ' ' :: colour ++ word ++ colourBlack ++
    ' ' :: decimal 9 (toInt32 header.size) ++ " bytes\n".toList

/-- A line of the sums. -/
def sumLine (name : String) (colour : List Char) (value : Nat) (unit : String) : List Char :=
  colourBlack ++ name.toList ++ colour ++ decimal 9 (toInt32 value) ++ unit.toList

/-- The seven lines at the end of a dump. -/
def sumLines (mmapBlockSize : Nat) (totals : Totals) : List (List Char) :=
  let maxSize := sub64 (sub64 mmapBlockSize mmapHeaderSize) totals.headersSize
  let totalSize := add64 totals.busySize totals.freeSize
  [dashes ++ ['\n'],
    sumLine "size allocated.: " colourBlue mmapBlockSize " bytes\n",
    sumLine "size busy......: " colourBlue totals.busySize " bytes\n",
    sumLine "size free......: " colourBlue totals.freeSize " bytes\n",
    sumLine "size total.....: " colourGreen totalSize " bytes *\n",
    sumLine "size max.......: " colourGreen maxSize " bytes *\n",
    colourBlack ++ dashes ++ ['\n']]

/-! ## The response -/

/-- How a dump ends before its last line: with the text that it returns, or
with none when the line would be appended in front of the buffer. -/
abbrev Truncated : Type := Option (List Char)

/-- The text in the buffer when a dump has ended. -/
def ended : Except Truncated (List Char) → Option (List Char)
  | .ok response => some response
  | .error truncated => truncated

/-- Print a line at the end of the response, with the limit that the source
passes. -/
def printLine (limit : Nat) (response line : List Char) : List Char :=
  response ++ snprintf limit line

/-- Append a line that has been printed into a buffer, after the test of the
length.  `int length` is negative for some long responses. -/
def appendLine (size : Nat) (response line : List Char) : Except Truncated (List Char) :=
  let length := toInt32 response.length
  if add64 (ofInt32 length) line.length ≥ size then .error (some response)
  else if length < 0 then .error none
  else .ok (response ++ line)

/-- Append lines one after the other. -/
def appendLines (size : Nat) : List Char → List (List Char) → Except Truncated (List Char)
  | response, [] => .ok response
  | response, line :: rest => do
      let response ← appendLine size response line
      appendLines size response rest

/-- The loop over the blocks. -/
def appendBlocks (size : Nat) :
    Nat → Totals → List Char → List (Nat × MallocHeader) → Except Truncated (Totals × List Char)
  | _, totals, response, [] => .ok (totals, response)
  | index, totals, response, (mallocBlock, header) :: rest => do
      let response ← appendLine size response (snprintf 200 (blockLine index mallocBlock header))
      appendBlocks size (index + 1) (totals.count header) response rest

/-- An MMAP as a dump reads it: its address, `maxSize` of its header, and the
headers that the walk along `next` comes to. -/
structure DumpedMmap where
  mmapBlock : Nat
  maxSize : Nat
  blocks : List (Nat × MallocHeader)

/-- The response behind the three lines at the head. -/
def printHead (response : List Char) (mmap : DumpedMmap) : List Char :=
  (headLines mmap.mmapBlock).foldl (printLine mmap.maxSize) response

/-- The lines behind the head. -/
def appendDump (response : List Char) (size mmapBlockSize : Nat) (mmap : DumpedMmap) :
    Except Truncated (List Char) := do
  let (totals, response) ← appendBlocks size 0 .zero (printHead response mmap) mmap.blocks
  appendLines size response ((sumLines mmapBlockSize totals).map (snprintf 100))

/-- `dumpMmapBlock` with a response: the text in the buffer when it returns. -/
def dumpResponse (response : List Char) (size : Nat) (str desc : Option String)
    (mmapBlockSize : Nat) (mmap : DumpedMmap) : Option (List Char) :=
  if mmap.mmapBlock = 0 ∨ str = none ∨ desc = none then some response
  else ended (appendDump response size mmapBlockSize mmap)

end VgcMalloc
