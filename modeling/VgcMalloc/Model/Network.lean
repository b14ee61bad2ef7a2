import Mathlib.Algebra.Group.Int.Defs
import VgcMalloc.Wire.Frames

/-!
# Messages between processes

The build with `VGC_MALLOC_MPROTECT_MP` shares every change of a protection
with the other processes: `vgc_mprotect_mp.c` over the wrappers of
`vgc_network.c`.  The answers of the system calls are given, one record for
each attempt.
-/

namespace VgcMalloc

open Wire

/-! ## The protocol record -/

/-- `MProtectBlock`: a header, its new protection and the sender. -/
structure MProtectBlock where
  header : UInt64
  prot : UInt32
  sourcePID : UInt32
  deriving DecidableEq, Repr

/-- `PROT_NONE`. -/
def protNone : UInt32 := 0

/-- `PROT_READ | PROT_WRITE`. -/
def protReadWrite : UInt32 := 3

namespace MProtectBlock

/-- The bytes of a record in memory. -/
def encode (block : MProtectBlock) : List UInt8 :=
  wordBytes 8 block.header.toNat ++
    (wordBytes 4 block.prot.toNat ++ wordBytes 4 block.sourcePID.toNat)

/-- The record that the bytes of a buffer stand for. -/
def decode (buffer : List UInt8) : MProtectBlock where
  header := .ofNat (wordValue (buffer.take 8))
  prot := .ofNat (wordValue ((buffer.drop 8).take 4))
  sourcePID := .ofNat (wordValue ((buffer.drop 12).take 4))

/-- `sizeof(MProtectBlock)`. -/
def sizeof : Nat := 16

theorem length_encode (block : MProtectBlock) : block.encode.length = sizeof := by
  simp only [encode, List.length_append, length_wordBytes]
  rfl

theorem decode_encode (block : MProtectBlock) : decode block.encode = block := by
  have header : wordValue (wordBytes 8 block.header.toNat) = block.header.toNat :=
    wordValue_wordBytes block.header.toNat_lt
  have prot : wordValue (wordBytes 4 block.prot.toNat) = block.prot.toNat :=
    wordValue_wordBytes block.prot.toNat_lt
  have source : wordValue (wordBytes 4 block.sourcePID.toNat) = block.sourcePID.toNat :=
    wordValue_wordBytes block.sourcePID.toNat_lt
  have skip : block.encode.drop 12 = wordBytes 4 block.sourcePID.toNat := by
    rw [encode, ← List.append_assoc]
    exact List.drop_left' (by simp)
  have first : block.encode.take 8 = wordBytes 8 block.header.toNat :=
    List.take_left' (length_wordBytes ..)
  have second : block.encode.drop 8 =
      wordBytes 4 block.prot.toNat ++ wordBytes 4 block.sourcePID.toNat :=
    List.drop_left' (length_wordBytes ..)
  rw [decode, first, second, skip, List.take_left' (length_wordBytes ..),
    List.take_of_length_le (by simp), header, prot, source]
  simp

/-- Records as frames of a stream. -/
def codec : Codec MProtectBlock where
  size := sizeof
  encode := encode
  decode := decode
  length_encode := length_encode
  decode_encode := decode_encode

end MProtectBlock

/-! ## `vgc_network.c` -/

/-- What `read` returns: some bytes, no bytes at the end of the file, or -1. -/
inductive ReadResult where
  | data (bytes : List UInt8)
  | error
  deriving DecidableEq, Repr

namespace ReadResult

/-- The `ssize_t` that `read` returns. -/
def returned : ReadResult → Int
  | data bytes => bytes.length
  | error => -1

/-- The bytes that arrived. -/
def bytes : ReadResult → List UInt8
  | data bytes => bytes
  | error => []

end ReadResult

/-- An `ssize_t` stored in a `size_t`. -/
def sizeOfSsize (value : Int) : Nat := (value % 2 ^ 64).toNat

/-- `do_read`: its result, the buffer of `count` bytes, which is cleared first,
and `readBytes`.  The test `*readBytes >= 0` is one of an unsigned number. -/
def doRead (count : Nat) (result : ReadResult) : Bool × List UInt8 × Nat :=
  let readBytes := sizeOfSsize result.returned
  (decide (readBytes ≥ 0),
    result.bytes ++ List.replicate (count - result.bytes.length) 0, readBytes)

/-! ## The table of processes -/

/-- `VGC_mallocDebugChild` without its socket, whose name is made of the
process id. -/
structure DebugChild where
  pid : UInt32
  thread : UInt64
  deriving DecidableEq, Repr

/-- The first pass of `findFreeChild`: the process has a slot. -/
def isChild (pid : UInt32) (children : List DebugChild) : Bool :=
  children.any fun child => child.pid == pid

/-- The second pass of `findFreeChild`: take the first slot that is free; no
slots when there is none. -/
def takeFreeChild (pid : UInt32) : List DebugChild → Option (List DebugChild)
  | [] => none
  | child :: rest =>
      if child.pid = 0 then some ({ child with pid } :: rest)
      else (takeFreeChild pid rest).map (child :: ·)

/-- `findFreeChild`. -/
def findFreeChild (pid : UInt32) (children : List DebugChild) : Option (List DebugChild) :=
  if isChild pid children then none else takeFreeChild pid children

/-- `removeChildThread`: the slot becomes free whether or not the thread can be
cancelled and joined. -/
def removeChildThread (child : DebugChild) : DebugChild :=
  { child with pid := 0, thread := 0 }

/-! ## `mprotectDistribute` -/

/-- The answers of the system calls for one slot of the table. -/
structure Attempt where
  socket : Bool
  connect : Bool
  write : Bool
  read : ReadResult

/-- `sizeof(int)`, the size of an answer. -/
def answerSize : Nat := 4

/-- The loop of `mprotectDistribute`: the table it leaves, and the slots whose
socket the record was written to. -/
def distributeFrom (network : Nat → Attempt) (block : MProtectBlock) :
    Nat → List DebugChild → List DebugChild × List Nat
  | _, [] => ([], [])
  | slot, child :: rest =>
      if child.pid = 0 ∨ child.pid = block.sourcePID then
        let (children, sent) := distributeFrom network block (slot + 1) rest
        (child :: children, sent)
      else if !(network slot).socket then
        (child :: rest, [])
      else if !(network slot).connect then
        (removeChildThread child :: rest, [])
      else if !(network slot).write then
        (removeChildThread child :: rest, [])
      else if !(doRead answerSize (network slot).read).1 then
        (removeChildThread child :: rest, [slot])
      else
        let (children, sent) := distributeFrom network block (slot + 1) rest
        (child :: children, slot :: sent)

/-- `mprotectDistribute` as called by the process `self`. -/
def mprotectDistribute (network : Nat → Attempt) (self : UInt32) (header : UInt64)
    (prot : UInt32) (children : List DebugChild) : List DebugChild × List Nat :=
  distributeFrom network ⟨header, prot, self⟩ 0 children

/-! ## `manageCorruptionThread` -/

/-- The answers of the system calls for one turn of the reading loop: the read,
the change of the protection, and the write of the answer. -/
structure Turn where
  read : ReadResult
  applied : Bool
  answered : Bool

/-- What the thread does on a connection. -/
inductive ServerAction where
  | protect (header : UInt64)
  | unprotect (header : UInt64)
  | answer (result : Nat)
  | close
  deriving DecidableEq, Repr

/-- The action changes the protection of a header. -/
def ServerAction.isChange : ServerAction → Bool
  | protect _ | unprotect _ => true
  | answer _ | close => false

/-- The call of `VGC_mprotect` or `VGC_munprotect` for a record. -/
def MProtectBlock.change (block : MProtectBlock) : ServerAction :=
  if block.prot = protNone then .protect block.header else .unprotect block.header

/-- The thread of the process `pid` on one connection; every action comes with
the read that it follows.  The loop waits when there are no more reads. -/
def manageCorruption (pid : UInt32) : List Turn → List (ReadResult × ServerAction)
  | [] => []
  | turn :: rest =>
      let (succeeds, buffer, readBytes) := doRead MProtectBlock.sizeof turn.read
      let block := MProtectBlock.decode buffer
      if !succeeds then
        [(turn.read, .close), (turn.read, .close)]
      else if readBytes = 0 then
        manageCorruption pid rest
      else if pid = block.sourcePID then
        [(turn.read, .close)]
      else if !turn.applied then
        if block.prot = protNone then
          [(turn.read, block.change), (turn.read, .close)]
        else
          [(turn.read, block.change), (turn.read, .answer 0), (turn.read, .close)]
      else if !turn.answered then
        [(turn.read, block.change), (turn.read, .answer 1), (turn.read, .close),
          (turn.read, .close)]
      else
        (turn.read, block.change) :: (turn.read, .answer 1) :: manageCorruption pid rest

end VgcMalloc
