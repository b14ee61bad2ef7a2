import VgcMalloc.Memory.Bytes

/-!
# Header layout

The allocator keeps a `VGC_mmapHeader` at the start of every MMAP and a
`VGC_mallocHeader` in front of every block.  Both are records in byte memory.
The offsets and widths below are those of the Makefile build on a 64-bit
machine, where both headers are padded to whole pages and the first page of a
block header is its `protect` page.

Sizes and addresses are natural numbers; the arithmetic of `size_t` and of
pointers is reduced modulo `2 ^ 64` where the source computes it.
-/

namespace VgcMalloc

/-! ## Word arithmetic -/

/-- The number of values of `size_t`, which is also the number of addresses. -/
def wordRange : Nat := 2 ^ 64

@[simp]
theorem wordRange_eq : wordRange = 2 ^ 64 :=
  rfl

/-- Unsigned 64-bit addition. -/
def add64 (a b : Nat) : Nat := (a + b) % wordRange

/-- Unsigned 64-bit subtraction. -/
def sub64 (a b : Nat) : Nat := (a + (wordRange - b % wordRange)) % wordRange

/-- Unsigned 64-bit multiplication. -/
def mul64 (a b : Nat) : Nat := a * b % wordRange

theorem add64_of_lt {a b : Nat} (fits : a + b < 2 ^ 64) : add64 a b = a + b :=
  Nat.mod_eq_of_lt fits

theorem sub64_of_le {a b : Nat} (le : b ≤ a) (fits : a < 2 ^ 64) : sub64 a b = a - b := by
  simp only [sub64, wordRange_eq]
  omega

theorem mul64_of_lt {a b : Nat} (fits : a * b < 2 ^ 64) : mul64 a b = a * b :=
  Nat.mod_eq_of_lt fits

/-- An address or a size survives a field of eight bytes. -/
theorem word_mod {value : Nat} (bound : value < 2 ^ 64) : value % 256 ^ 8 = value :=
  Nat.mod_eq_of_lt (by simpa using bound)

/-! ## Sizes -/

/-- `VGC_MALLOC_SYSTEM_PAGE_SIZE`. -/
def systemPageSize : Nat := 4096

/-- `sizeof(VGC_mmapHeader)`. -/
def mmapHeaderSize : Nat := systemPageSize

/-- `sizeof(VGC_mallocHeader)`. -/
def mallocHeaderSize : Nat := systemPageSize * 2

/-- `sizeof(char*)`. -/
def pointerSize : Nat := 8

@[simp]
theorem systemPageSize_eq : systemPageSize = 4096 :=
  rfl

@[simp]
theorem mmapHeaderSize_eq : mmapHeaderSize = 4096 :=
  rfl

@[simp]
theorem mallocHeaderSize_eq : mallocHeaderSize = 8192 :=
  rfl

@[simp]
theorem pointerSize_eq : pointerSize = 8 :=
  rfl

/-- `MAP_FAILED`, the pointer `(void*)-1`. -/
def mapFailed : Nat := wordRange - 1

@[simp]
theorem mapFailed_eq : mapFailed = 2 ^ 64 - 1 :=
  rfl

/-- The value of `checkStart` and `checkEnd` in an intact header. -/
def checksum : Nat := 0xAA

@[simp]
theorem checksum_eq : checksum = 0xAA :=
  rfl

/-! ## Block headers -/

/-- `VGC_mallocStatus`. -/
inductive MallocStatus where
  | free
  | busy
  deriving DecidableEq, Repr

namespace MallocStatus

/-- The stored value of an enumerator. -/
def toWord : MallocStatus → Nat
  | free => 0
  | busy => 1

/-- A stored value as the comparisons with `VGC_MALLOC_FREE` see it. -/
def ofWord : Nat → MallocStatus
  | 0 => free
  | _ + 1 => busy

@[simp]
theorem ofWord_toWord_mod (status : MallocStatus) (width : Nat) :
    ofWord (status.toWord % 256 ^ (width + 1)) = status := by
  have one : 1 < 256 ^ (width + 1) := Nat.one_lt_pow (Nat.succ_ne_zero width) (by omega)
  cases status with
  | free => simp [toWord, ofWord]
  | busy => rw [toWord, Nat.mod_eq_of_lt one, ofWord]

end MallocStatus

/-- `VGC_mallocHeader` without the saved stack trace. -/
structure MallocHeader where
  checkStart : Nat
  size : Nat
  status : MallocStatus
  mmapBlock : Nat
  prev : Nat
  next : Nat
  checkEnd : Nat
  deriving DecidableEq, Repr

/-- The fields of `VGC_mallocHeader` that are stored to. -/
inductive MallocField where
  | checkStart
  | size
  | status
  | mmapBlock
  | prev
  | next
  | checkEnd
  | btArray (index : Fin 10)
  | btArraySize

namespace MallocField

/-- Offset from the start of the header; the `protect` page comes first. -/
def offset : MallocField → Nat
  | checkStart => 4096
  | size => 4104
  | status => 4112
  | mmapBlock => 4120
  | prev => 4128
  | next => 4136
  | checkEnd => 4144
  | btArray index => 4152 + 8 * index.val
  | btArraySize => 4232

/-- Width in bytes. -/
def width : MallocField → Nat
  | checkStart | checkEnd => 1
  | status => 4
  | _ => 8

/-- The fields that the walks over a block list read. -/
def links : List MallocField := [size, status, prev, next]

end MallocField

/-- Replace one field of a header record. -/
def MallocHeader.set (header : MallocHeader) : MallocField → Nat → MallocHeader
  | .checkStart, value => { header with checkStart := value % 256 ^ 1 }
  | .size, value => { header with size := value % 256 ^ 8 }
  | .status, value => { header with status := .ofWord (value % 256 ^ 4) }
  | .mmapBlock, value => { header with mmapBlock := value % 256 ^ 8 }
  | .prev, value => { header with prev := value % 256 ^ 8 }
  | .next, value => { header with next := value % 256 ^ 8 }
  | .checkEnd, value => { header with checkEnd := value % 256 ^ 1 }
  | .btArray _, _ => header
  | .btArraySize, _ => header

namespace Bytes

/-- The block header at an address. -/
def mallocHeader (memory : Bytes) (block : Nat) : MallocHeader where
  checkStart := memory.load (block + 4096) 1
  size := memory.load (block + 4104) 8
  status := .ofWord (memory.load (block + 4112) 4)
  mmapBlock := memory.load (block + 4120) 8
  prev := memory.load (block + 4128) 8
  next := memory.load (block + 4136) 8
  checkEnd := memory.load (block + 4144) 1

/-- Store to one field of the block header at an address. -/
def setMallocField (memory : Bytes) (block : Nat) (field : MallocField) (value : Nat) :
    Bytes :=
  memory.store (block + field.offset) field.width value

/-- A stored field is the only one that changes in its header. -/
theorem mallocHeader_setMallocField_same (memory : Bytes) (block : Nat)
    (field : MallocField) (value : Nat) :
    (memory.setMallocField block field value).mallocHeader block =
      (memory.mallocHeader block).set field value := by
  cases field <;>
    simp (disch := omega) [setMallocField, mallocHeader, MallocHeader.set,
      MallocField.offset, MallocField.width, load_store_same, load_store_of_disjoint]

/-- Block headers read nothing outside of their second page. -/
theorem mallocHeader_congr {first second : Bytes} {block : Nat}
    (agree : AgreeOn first second (block + 4096) (block + 4240)) :
    first.mallocHeader block = second.mallocHeader block := by
  have part : ∀ offset width, 4096 ≤ offset → offset + width ≤ 4240 →
      first.load (block + offset) width = second.load (block + offset) width := by
    intro offset width low high
    exact load_congr fun x lower upper => agree x (by omega) (by omega)
  simp (disch := omega) only [mallocHeader, part]

/-- A store to a block header changes bytes of its second page only. -/
theorem setMallocField_of_outside (memory : Bytes) (block : Nat) (field : MallocField)
    (value : Nat) {x : Nat} (outside : x < block + 4096 ∨ block + 4240 ≤ x) :
    memory.setMallocField block field value x = memory x := by
  apply memory.store_of_outside
  cases field with
  | btArray index =>
      have bound := index.isLt
      simp only [MallocField.offset, MallocField.width]
      omega
  | _ =>
      simp only [MallocField.offset, MallocField.width]
      omega

end Bytes

/-! ## MMAP headers -/

/-- `VGC_mmapHeader` without its mutex. -/
structure MmapHeader where
  checkStart : Nat
  size : Nat
  maxSize : Nat
  elements : Nat
  prev : Nat
  next : Nat
  checkEnd : Nat
  deriving DecidableEq, Repr

/-- The fields of `VGC_mmapHeader` that are stored to. -/
inductive MmapField where
  | checkStart
  | size
  | maxSize
  | elements
  | prev
  | next
  | checkEnd

namespace MmapField

/-- Offset from the start of the MMAP. -/
def offset : MmapField → Nat
  | checkStart => 0
  | size => 8
  | maxSize => 16
  | elements => 32
  | prev => 88
  | next => 96
  | checkEnd => 104

/-- Width in bytes. -/
def width : MmapField → Nat
  | checkStart | checkEnd => 1
  | _ => 8

end MmapField

/-- Replace one field of an MMAP header record. -/
def MmapHeader.set (header : MmapHeader) : MmapField → Nat → MmapHeader
  | .checkStart, value => { header with checkStart := value % 256 ^ 1 }
  | .size, value => { header with size := value % 256 ^ 8 }
  | .maxSize, value => { header with maxSize := value % 256 ^ 8 }
  | .elements, value => { header with elements := value % 256 ^ 8 }
  | .prev, value => { header with prev := value % 256 ^ 8 }
  | .next, value => { header with next := value % 256 ^ 8 }
  | .checkEnd, value => { header with checkEnd := value % 256 ^ 1 }

namespace Bytes

/-- The MMAP header at an address. -/
def mmapHeader (memory : Bytes) (mmapBlock : Nat) : MmapHeader where
  checkStart := memory.load mmapBlock 1
  size := memory.load (mmapBlock + 8) 8
  maxSize := memory.load (mmapBlock + 16) 8
  elements := memory.load (mmapBlock + 32) 8
  prev := memory.load (mmapBlock + 88) 8
  next := memory.load (mmapBlock + 96) 8
  checkEnd := memory.load (mmapBlock + 104) 1

/-- Store to one field of the MMAP header at an address. -/
def setMmapField (memory : Bytes) (mmapBlock : Nat) (field : MmapField) (value : Nat) :
    Bytes :=
  memory.store (mmapBlock + field.offset) field.width value

/-- A stored field is the only one that changes in its header. -/
theorem mmapHeader_setMmapField_same (memory : Bytes) (mmapBlock : Nat)
    (field : MmapField) (value : Nat) :
    (memory.setMmapField mmapBlock field value).mmapHeader mmapBlock =
      (memory.mmapHeader mmapBlock).set field value := by
  cases field <;>
    simp (disch := omega) [setMmapField, mmapHeader, MmapHeader.set,
      MmapField.offset, MmapField.width, load_store_same, load_store_of_disjoint]

/-- MMAP headers read nothing outside of their first bytes. -/
theorem mmapHeader_congr {first second : Bytes} {mmapBlock : Nat}
    (agree : AgreeOn first second mmapBlock (mmapBlock + 105)) :
    first.mmapHeader mmapBlock = second.mmapHeader mmapBlock := by
  have part : ∀ offset width, offset + width ≤ 105 →
      first.load (mmapBlock + offset) width = second.load (mmapBlock + offset) width := by
    intro offset width high
    exact load_congr fun x lower upper => agree x (by omega) (by omega)
  have start := part 0 1 (by omega)
  simp only [Nat.add_zero] at start
  simp (disch := omega) only [mmapHeader, part, start]

/-- A store to an MMAP header changes bytes of the header only. -/
theorem setMmapField_of_outside (memory : Bytes) (mmapBlock : Nat) (field : MmapField)
    (value : Nat) {x : Nat} (outside : x < mmapBlock ∨ mmapBlock + 105 ≤ x) :
    memory.setMmapField mmapBlock field value x = memory x := by
  apply memory.store_of_outside
  cases field <;> simp only [MmapField.offset, MmapField.width] <;> omega

end Bytes

end VgcMalloc
