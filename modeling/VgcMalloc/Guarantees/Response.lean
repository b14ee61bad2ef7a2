import VgcMalloc.Model.Response

/-!
# What a dump leaves in its buffer

The lines behind the head are tested against the size of the buffer, so they
keep a text within it as long as its length is an `int`.  The three lines of
the head are limited by `maxSize` of the MMAP and not by the buffer.
-/

namespace VgcMalloc

open Text

variable {size length : Nat} {response line text : List Char} {lines : List (List Char)}
  {mmap : DumpedMmap}

/-! ## The lines of a dump -/

/-- The text, if any, and its terminator fit in the buffer. -/
def FitsIn (size : Nat) (result : Option (List Char)) : Prop :=
  ∃ text, result = some text ∧ text.length + 1 ≤ size

theorem fitsIn_some_iff : FitsIn size (some text) ↔ text.length + 1 ≤ size := by
  constructor
  · rintro ⟨other, same, fits⟩
    rwa [Option.some.inj same]
  · exact fun fits => ⟨text, rfl, fits⟩

theorem not_fitsIn_none : ¬FitsIn size none := by
  rintro ⟨text, same, _⟩
  exact Option.some_ne_none text same.symm

/-- The lines of the blocks, as they are printed into the buffer of 200
bytes. -/
def blockLines : Nat → List (Nat × MallocHeader) → List (List Char)
  | _, [] => []
  | index, (mallocBlock, header) :: rest =>
      snprintf 200 (blockLine index mallocBlock header) :: blockLines (index + 1) rest

/-- The sums over the headers of the blocks. -/
def sums (totals : Totals) (blocks : List (Nat × MallocHeader)) : Totals :=
  blocks.foldl (fun totals block => totals.count block.2) totals

/-- All lines behind the head. -/
def bodyLines (mmapBlockSize : Nat) (mmap : DumpedMmap) : List (List Char) :=
  blockLines 0 mmap.blocks ++ (sumLines mmapBlockSize (sums .zero mmap.blocks)).map (snprintf 100)

theorem appendLines_append {first second : List (List Char)} :
    appendLines size response (first ++ second) =
      appendLines size response first >>= fun response => appendLines size response second := by
  induction first generalizing response with
  | nil => rfl
  | cons line rest ih =>
      rw [List.cons_append, appendLines, appendLines]
      cases appendLine size response line with
      | error truncated => rfl
      | ok response => exact ih

theorem appendBlocks_eq {index : Nat} {totals : Totals} {blocks : List (Nat × MallocHeader)} :
    appendBlocks size index totals response blocks =
      appendLines size response (blockLines index blocks) >>=
        fun response => .ok (sums totals blocks, response) := by
  induction blocks generalizing index totals response with
  | nil => rfl
  | cons block rest ih =>
      rw [appendBlocks, blockLines, appendLines]
      cases appendLine size response _ with
      | error truncated => rfl
      | ok response => exact ih

/-- A dump appends its lines one after the other behind the head. -/
theorem appendDump_eq {mmapBlockSize : Nat} : appendDump response size mmapBlockSize mmap =
    appendLines size (printHead response mmap) (bodyLines mmapBlockSize mmap) := by
  rw [appendDump, appendBlocks_eq, bodyLines, appendLines_append]
  cases appendLines size (printHead response mmap) (blockLines 0 mmap.blocks) with
  | error truncated => rfl
  | ok response => rfl

/-! ## The length test -/

/-- The length test lets a line through. -/
def LetThrough (size length line : Nat) : Prop :=
  add64 (ofInt32 (toInt32 length)) line < size

/-- The test lets a line through at a length that is negative as an `int`, or
one that does not fit behind the text, because the `int` is not its length. -/
def Misreads (size : Nat) : Nat → List Nat → Prop
  | _, [] => False
  | length, line :: rest =>
      LetThrough size length line ∧
        (toInt32 length < 0 ∨ size ≤ length + line ∨ Misreads size (length + line) rest)

theorem toInt32_of_lt (bound : length < 2 ^ 31) : toInt32 length = length :=
  Int.bmod_eq_of_le (by omega) (by omega)

theorem ofInt32_toInt32_of_lt (bound : length < 2 ^ 31) : ofInt32 (toInt32 length) = length := by
  rw [toInt32_of_lt bound, ofInt32]
  omega

/-- The test is right for every length that is an `int`. -/
theorem letThrough_iff {line : Nat} (bound : length < 2 ^ 31) (short : line < 2 ^ 31) :
    LetThrough size length line ↔ length + line < size := by
  rw [LetThrough, ofInt32_toInt32_of_lt bound, add64_of_lt (by omega)]

/-- No line is misread when the size of the buffer is an `int`. -/
theorem not_misreads {lines : List Nat} (int : size ≤ 2 ^ 31) (room : length < size)
    (short : ∀ line ∈ lines, line < 2 ^ 31) : ¬Misreads size length lines := by
  induction lines generalizing length with
  | nil => exact id
  | cons line rest ih =>
      obtain ⟨here, later⟩ := List.forall_mem_cons.mp short
      rintro ⟨passed, negative | beyond | misread⟩
      · rw [toInt32_of_lt (by omega)] at negative
        omega
      · rw [letThrough_iff (by omega) here] at passed
        exact Nat.not_lt_of_le beyond passed
      · rw [letThrough_iff (by omega) here] at passed
        exact ih passed later misread

/-! ## The text that is left -/

/-- What one line does to the text that is left. -/
theorem ended_appendLines_cons :
    ended (appendLines size response (line :: lines)) =
      if add64 (ofInt32 (toInt32 response.length)) line.length ≥ size then some response
      else if toInt32 response.length < 0 then none
      else ended (appendLines size (response ++ line) lines) := by
  rw [appendLines, appendLine]
  split
  · rfl
  · split
    · rfl
    · rfl

/-- A text never becomes shorter. -/
theorem length_le_of_ended (ending : ended (appendLines size response lines) = some text) :
    response.length ≤ text.length := by
  induction lines generalizing response with
  | nil =>
      obtain rfl := Option.some.inj ending
      exact Nat.le_refl _
  | cons line rest ih =>
      rw [ended_appendLines_cons] at ending
      split at ending
      · obtain rfl := Option.some.inj ending
        exact Nat.le_refl _
      · split at ending
        · exact absurd ending.symm (Option.some_ne_none text)
        · have longer := ih ending
          rw [List.length_append] at longer
          exact (Nat.le_add_right _ _).trans longer

/-- Lines that are appended keep a text within the buffer exactly when the
test misreads none of them. -/
theorem fitsIn_appendLines_iff (room : response.length + 1 ≤ size) :
    FitsIn size (ended (appendLines size response lines)) ↔
      ¬Misreads size response.length (lines.map List.length) := by
  induction lines generalizing response with
  | nil => exact iff_of_true (fitsIn_some_iff.mpr room) id
  | cons line rest ih =>
      rw [List.map_cons, Misreads, ended_appendLines_cons, LetThrough]
      by_cases stops : add64 (ofInt32 (toInt32 response.length)) line.length ≥ size
      · rw [if_pos stops]
        exact iff_of_true (fitsIn_some_iff.mpr room) fun misread =>
          Nat.not_lt_of_le stops misread.1
      · rw [if_neg stops]
        have passed := Nat.lt_of_not_le stops
        by_cases negative : toInt32 response.length < 0
        · rw [if_pos negative]
          exact iff_of_false not_fitsIn_none fun fine => fine ⟨passed, Or.inl negative⟩
        · rw [if_neg negative]
          by_cases beyond : size ≤ response.length + line.length
          · refine iff_of_false ?_ fun fine => fine ⟨passed, Or.inr (Or.inl beyond)⟩
            rintro ⟨text, ending, fits⟩
            have longer := length_le_of_ended ending
            rw [List.length_append] at longer
            omega
          · rw [ih (by rw [List.length_append]; omega), List.length_append]
            simp only [passed, negative, beyond, true_and, false_or]

/-! ## Dumps -/

/-- The number of characters of the head, whose lines are cut to `maxSize`. -/
def headLength (mmap : DumpedMmap) : Nat :=
  ((headLines mmap.mmapBlock).map fun line => (snprintf mmap.maxSize line).length).sum

theorem length_printHead :
    (printHead response mmap).length = response.length + headLength mmap := by
  simp only [printHead, headLength, headLines, printLine, List.foldl_cons, List.foldl_nil,
    List.map_cons, List.map_nil, List.sum_cons, List.sum_nil, List.length_append]
  omega

/-- A dump that keeps within its buffer has room for its head. -/
theorem length_lt_of_fitsIn {mmapBlockSize : Nat}
    (fits : FitsIn size (ended (appendDump response size mmapBlockSize mmap))) :
    response.length + headLength mmap + 1 ≤ size := by
  obtain ⟨text, ending, inside⟩ := fits
  rw [appendDump_eq] at ending
  have longer := length_le_of_ended ending
  rw [length_printHead] at longer
  omega

/-- A dump keeps a text that fits in its buffer within the buffer exactly when
it is given a null pointer, or there is room for the head and the length test
misreads no line behind it. -/
theorem dumpResponse_fitsIn_iff (room : response.length + 1 ≤ size) (str desc : Option String)
    (mmapBlockSize : Nat) (mmap : DumpedMmap) :
    FitsIn size (dumpResponse response size str desc mmapBlockSize mmap) ↔
      (mmap.mmapBlock = 0 ∨ str = none ∨ desc = none) ∨
        response.length + headLength mmap + 1 ≤ size ∧
          ¬Misreads size (response.length + headLength mmap)
            ((bodyLines mmapBlockSize mmap).map List.length) := by
  rw [dumpResponse]
  split
  · rename_i null
    exact iff_of_true (fitsIn_some_iff.mpr room) (Or.inl null)
  · rename_i given
    rw [or_iff_right given, ← length_printHead]
    constructor
    · intro fits
      have head := length_lt_of_fitsIn fits
      rw [← length_printHead] at head
      rw [appendDump_eq] at fits
      exact ⟨head, (fitsIn_appendLines_iff head).mp fits⟩
    · rintro ⟨head, right⟩
      rw [appendDump_eq]
      exact (fitsIn_appendLines_iff head).mpr right

/-- An MMAP with one block, which is free. -/
def freshMmap : DumpedMmap where
  mmapBlock := 0x7f0000000000
  maxSize := 1036288
  blocks := [(0x7f0000001000,
    ⟨checksum, 1036288, .free, 0x7f0000000000, 0, 0, checksum⟩)]

theorem dumpResponse_fitsIn_iff_sample :
    FitsIn 100 (dumpResponse [] 100 (some "Debug memory") (some "Dump MMAP") 1048576 freshMmap) ↔
      (freshMmap.mmapBlock = 0 ∨ some "Debug memory" = none ∨ some "Dump MMAP" = none) ∨
        ([] : List Char).length + headLength freshMmap + 1 ≤ 100 ∧
          ¬Misreads 100 (([] : List Char).length + headLength freshMmap)
            ((bodyLines 1048576 freshMmap).map List.length) :=
  dumpResponse_fitsIn_iff (by decide) _ _ _ _

/-- The head of a dump is longer than the buffer. -/
theorem not_dumpResponse_fitsIn :
    ¬∀ (response : List Char) (size : Nat) (str desc : Option String) (mmapBlockSize : Nat)
      (mmap : DumpedMmap), response.length + 1 ≤ size →
        FitsIn size (dumpResponse response size str desc mmapBlockSize mmap) := by
  intro claim
  have fits := claim [] 100 (some "Debug memory") (some "Dump MMAP") 1048576 freshMmap (by decide)
  have given : ¬(freshMmap.mmapBlock = 0 ∨ some "Debug memory" = none ∨
      some "Dump MMAP" = none) := by
    decide
  rw [dumpResponse, if_neg given] at fits
  have head := length_lt_of_fitsIn fits
  exact absurd head (by decide +kernel)

/-! ## Buffers whose size is an `int` -/

theorem length_of_mem_blockLines {index : Nat} {blocks : List (Nat × MallocHeader)}
    (member : line ∈ blockLines index blocks) : line.length < 200 := by
  induction blocks generalizing index with
  | nil => exact absurd member List.not_mem_nil
  | cons block rest ih =>
      rcases List.mem_cons.mp member with rfl | later
      · exact length_snprintf_lt (by decide)
      · exact ih later

theorem length_of_mem_bodyLines {mmapBlockSize : Nat}
    (member : line ∈ bodyLines mmapBlockSize mmap) : line.length < 200 := by
  rcases List.mem_append.mp member with block | sum
  · exact length_of_mem_blockLines block
  · obtain ⟨text, _, rfl⟩ := List.mem_map.mp sum
    exact (length_snprintf_lt (by decide)).trans (by decide)

/-- With room for its head, a dump keeps within a buffer whose size is an
`int`. -/
theorem fitsIn_of_int (int : size ≤ 2 ^ 31) (room : response.length + headLength mmap + 1 ≤ size)
    {mmapBlockSize : Nat} : FitsIn size (ended (appendDump response size mmapBlockSize mmap)) := by
  rw [← length_printHead] at room
  rw [appendDump_eq, fitsIn_appendLines_iff room]
  apply not_misreads int room
  intro length member
  obtain ⟨line, inside, rfl⟩ := List.mem_map.mp member
  exact (length_of_mem_bodyLines inside).trans (by decide)

end VgcMalloc
