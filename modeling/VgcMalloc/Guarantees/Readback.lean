import VgcMalloc.Guarantees.Response
import VgcMalloc.Model.Client
import VgcMalloc.Model.Debug
import VgcMalloc.Text.Numerals

/-!
# The debug report can be read back

A response with enough room holds one line for every block of every MMAP.  The
lines are read back without knowing how many there are: an MMAP begins with its
address, a block line with the colour of its index, and all other lines are of no
account.
-/

namespace VgcMalloc

open Program Text Tiling

variable {text row rest : List Char} {size limit : Nat} {mmap : DumpedMmap}

/-! ## Reading a report -/

/-- What a line of a report says. -/
inductive ReportLine where
  | mmap (base : Nat)
  | block (entry : Entry)
  | other
  deriving DecidableEq

/-- The payload address in the line of a block, the first number with an
`x`. -/
def readPayload (row : List Char) : Nat :=
  readHex (((row.dropWhile (· != 'x')).drop 1).takeWhile (hexDigits.contains ·))

/-- The size in the line of a block, the number in front of its last word. -/
def readSize (row : List Char) : Nat :=
  Nat.ofDigitChars 10 ((row.reverse.drop " bytes".length).takeWhile Char.isDigit).reverse 0

/-- A line without its end; only `BUSY` has an `U`. -/
def readLine (row : List Char) : ReportLine :=
  if "MMAP at 0x".toList <+: row then .mmap (readHex (row.drop "MMAP at 0x".length))
  else if colourBlue <+: row then
    .block ⟨readPayload row - mallocHeaderSize, readSize row, row.contains 'U'⟩
  else .other

/-- Put a line in front: the blocks that no MMAP has been read for yet, and the
MMAPs behind. -/
def gather (line : ReportLine) (read : List Entry × List (Nat × List Entry)) :
    List Entry × List (Nat × List Entry) :=
  match line with
  | .mmap base => ([], (base, read.1) :: read.2)
  | .block entry => (entry :: read.1, read.2)
  | .other => read

/-- The lines of a text. -/
def readLines (text : List Char) : List ReportLine := (text.splitOn '\n').map readLine

/-- The MMAPs that a report shows, with their blocks. -/
def readReport (text : List Char) : List (Nat × List Entry) :=
  ((readLines text).foldr gather ([], [])).2

/-! ## Lines -/

/-- A line and its end. -/
theorem readLines_cons (inside : '\n' ∉ row) :
    readLines (row ++ '\n' :: rest) = readLine row :: readLines rest := by
  rw [readLines, List.splitOn_append_cons_self_of_not_mem inside]
  rfl

/-- The colour and the word of a status. -/
def statusText : MallocStatus → List Char × List Char
  | .free => (colourGreen, "FREE".toList)
  | .busy => (colourBlue, "BUSY".toList)

/-- The line of a block without its end. -/
def blockRow (index mallocBlock : Nat) (header : MallocHeader) : List Char :=
  colourBlue ++ decimal 3 (toInt32 index) ++ colourBlack ++
    " 0x".toList ++ hex 12 (add64 mallocBlock mallocHeaderSize) ++ colourRed ++
    " 0x".toList ++ hex 12 (payloadOf header.prev) ++
    " 0x".toList ++ hex 12 (payloadOf header.next) ++
    ' ' :: (statusText header.status).1 ++ (statusText header.status).2 ++ colourBlack ++
    ' ' :: decimal 9 (toInt32 header.size) ++ " bytes".toList

theorem blockLine_eq (index mallocBlock : Nat) (header : MallocHeader) :
    blockLine index mallocBlock header = blockRow index mallocBlock header ++ ['\n'] := by
  have unit : " bytes\n".toList = " bytes".toList ++ ['\n'] := by decide
  rw [blockLine, blockRow, unit]
  cases header.status with
  | free => exact (List.append_assoc _ _ _).symm
  | busy => exact (List.append_assoc _ _ _).symm

/-- The characters of the numbers in a line. -/
theorem not_mem_hex {precision value : Nat} {char : Char} (absent : char ∉ hexDigits) :
    char ∉ hex precision value :=
  fun member => absent (mem_hex member)

theorem not_mem_decimal {width : Nat} {value : Int} {char : Char} (blank : char ∉ [' ', '-'])
    (digit : char.isDigit = false) : char ∉ decimal width value := by
  intro member
  rcases mem_decimal member with padding | number
  · exact blank padding
  · rw [digit] at number
    cases number

theorem newline_not_mem_blockRow (index mallocBlock : Nat) (header : MallocHeader) :
    '\n' ∉ blockRow index mallocBlock header := by
  have number : ∀ width value, '\n' ∉ decimal width value := fun _ _ =>
    not_mem_decimal (by decide) (by decide)
  have address : ∀ value, '\n' ∉ hex 12 value := fun _ => not_mem_hex (by decide)
  have status : ∀ status, '\n' ∉ (statusText status).1 ∧ '\n' ∉ (statusText status).2 := by
    rintro (_ | _)
    · decide
    · decide
  have blue : '\n' ∉ colourBlue := by decide
  have black : '\n' ∉ colourBlack := by decide
  have red : '\n' ∉ colourRed := by decide
  have mark : '\n' ∉ " 0x".toList := by decide
  have unit : '\n' ∉ " bytes".toList := by decide
  have blank : '\n' ≠ ' ' := by decide
  simp only [blockRow, List.mem_append, List.mem_cons, number, address, status, blue, black, red,
    mark, unit, blank, or_self, not_false_eq_true]

/-- The line of a block, cut where its payload address begins. -/
theorem row_eq {blue index black zero payload red back : List Char} :
    blue ++ (index ++ (black ++ ((zero ++ ['x']) ++ (payload ++ (red ++ back))))) =
      (blue ++ index ++ black ++ zero) ++ 'x' :: (payload ++ (red ++ back)) := by
  simp

theorem readPayload_eq {front back : List Char} {value : Nat} (absent : 'x' ∉ front)
    (stops : back.takeWhile (hexDigits.contains ·) = []) :
    readPayload (front ++ 'x' :: (hex 12 value ++ back)) = value := by
  have skipped : ∀ char ∈ front, (char != 'x') = true := by
    intro char member
    exact bne_iff_ne.mpr fun same => absent (same ▸ member)
  have digits : ∀ char ∈ hex 12 value, hexDigits.contains char = true := fun char member =>
    List.contains_iff_mem.mpr (mem_hex member)
  have rest : ('x' :: (hex 12 value ++ back)).dropWhile (· != 'x') =
      'x' :: (hex 12 value ++ back) := rfl
  rw [readPayload, List.dropWhile_append_of_pos skipped, rest, List.drop_succ_cons, List.drop_zero,
    List.takeWhile_append_of_pos digits, stops, List.append_nil, readHex_hex]

theorem readSize_eq {front : List Char} {width value : Nat} :
    readSize (front ++ ' ' :: decimal width value ++ " bytes".toList) = value := by
  have unit : " bytes".toList.reverse.length = " bytes".length := by decide
  rw [readSize, List.reverse_append, List.drop_left' unit, ofDigitChars_decimal]

/-- Only a block in use has an `U` in its line. -/
theorem contains_blockRow (index mallocBlock : Nat) (header : MallocHeader) :
    (blockRow index mallocBlock header).contains 'U' = (header.status == .busy) := by
  have number : ∀ width value, 'U' ∉ decimal width value := fun _ _ =>
    not_mem_decimal (by decide) (by decide)
  have address : ∀ value, 'U' ∉ hex 12 value := fun _ => not_mem_hex (by decide)
  have colour : ∀ status, 'U' ∉ (statusText status).1 := by
    rintro (_ | _)
    · decide
    · decide
  have word : ∀ status, 'U' ∈ (statusText status).2 ↔ (status == .busy) = true := by
    rintro (_ | _)
    · decide
    · decide
  have blue : 'U' ∉ colourBlue := by decide
  have black : 'U' ∉ colourBlack := by decide
  have red : 'U' ∉ colourRed := by decide
  have mark : 'U' ∉ " 0x".toList := by decide
  have unit : 'U' ∉ " bytes".toList := by decide
  have blank : 'U' ≠ ' ' := by decide
  rw [Bool.eq_iff_iff, List.contains_iff_mem]
  simp only [blockRow, List.mem_append, List.mem_cons, number, address, colour, word, blue, black,
    red, mark, unit, blank, or_false, false_or]

theorem readPayload_blockRow {index mallocBlock : Nat} {header : MallocHeader}
    (high : mallocBlock + 8192 < 2 ^ 64) :
    readPayload (blockRow index mallocBlock header) = mallocBlock + 8192 := by
  have mark : " 0x".toList = " 0".toList ++ ['x'] := by decide
  have number : 'x' ∉ decimal 3 (toInt32 index) := not_mem_decimal (by decide) (by decide)
  have blue : 'x' ∉ colourBlue := by decide
  have black : 'x' ∉ colourBlack := by decide
  have zero : 'x' ∉ " 0".toList := by decide
  have absent : 'x' ∉ colourBlue ++ decimal 3 (toInt32 index) ++ colourBlack ++ " 0".toList := by
    simp only [List.mem_append, number, blue, black, zero, or_self, not_false_eq_true]
  rw [blockRow]
  simp only [List.append_assoc]
  rw [mark, row_eq, readPayload_eq absent rfl, mallocHeaderSize_eq, add64_of_lt high]

/-- A line begins with another one only when their first characters are the
same. -/
theorem not_prefix_of_head {front : List Char} (some : front ≠ [])
    (other : row.head? ≠ front.head?) : ¬front <+: row := by
  rintro ⟨back, rfl⟩
  exact other (List.head?_append_of_ne_nil front some)

theorem prefix_blockRow (index mallocBlock : Nat) (header : MallocHeader) :
    colourBlue <+: blockRow index mallocBlock header := by
  rw [blockRow]
  simp only [List.append_assoc]
  exact List.prefix_append _ _

/-- The line of a block says its header, its size and its status. -/
theorem readLine_blockRow {index mallocBlock : Nat} {header : MallocHeader}
    (high : mallocBlock + 8192 < 2 ^ 64) (small : header.size < 2 ^ 31) :
    readLine (blockRow index mallocBlock header) =
      .block ⟨mallocBlock, header.size, header.status == .busy⟩ := by
  obtain ⟨back, same⟩ := prefix_blockRow index mallocBlock header
  have first : ¬"MMAP at 0x".toList <+: blockRow index mallocBlock header := by
    apply not_prefix_of_head (by decide)
    rw [← same, List.head?_append_of_ne_nil _ (by decide)]
    decide
  have size : readSize (blockRow index mallocBlock header) = header.size := by
    rw [blockRow, toInt32_of_lt small, readSize_eq]
  rw [readLine, if_neg first, if_pos (prefix_blockRow index mallocBlock header),
    readPayload_blockRow high, size, contains_blockRow, mallocHeaderSize_eq, Nat.add_sub_cancel]

/-! ## Lines of no account -/

/-- A line that a reader passes over. -/
def Ignored (line : List Char) : Prop :=
  ∃ row, line = row ++ ['\n'] ∧ '\n' ∉ row ∧ readLine row = .other

theorem foldr_ignored {lines : List (List Char)} (ignored : ∀ line ∈ lines, Ignored line) :
    (readLines (lines.flatten ++ rest)).foldr gather ([], []) =
      (readLines rest).foldr gather ([], []) := by
  induction lines with
  | nil => rfl
  | cons line lines ih =>
      obtain ⟨here, later⟩ := List.forall_mem_cons.mp ignored
      obtain ⟨row, rfl, inside, other⟩ := here
      rw [List.flatten_cons, List.append_assoc, List.append_assoc, List.singleton_append,
        readLines_cons inside, List.foldr_cons, other]
      exact ih later

/-- A line in black is no line of a block. -/
theorem readLine_black (row : List Char) : readLine (colourBlack ++ row) = .other := by
  have first : ¬"MMAP at 0x".toList <+: colourBlack ++ row := by
    apply not_prefix_of_head (by decide)
    rw [List.head?_append_of_ne_nil _ (by decide)]
    decide
  have second : ¬colourBlue <+: colourBlack ++ row := by
    rintro ⟨back, same⟩
    have front := congrArg (List.take 4) same
    rw [List.take_append_of_le_length (by decide), List.take_append_of_le_length (by decide)]
      at front
    exact absurd front (by decide)
  rw [readLine, if_neg first, if_neg second]

theorem snprintf_of_lt (enough : row.length < limit) : snprintf limit row = row :=
  List.take_of_length_le (by omega)

theorem length_decimal_toInt32 {width value : Nat} (narrow : width ≤ 10) :
    (decimal width (toInt32 value)).length ≤ 11 := by
  have low : -(2 ^ 31 : Int) ≤ toInt32 value := Int.le_bmod (by decide)
  have high : toInt32 value < 2 ^ 31 := Int.bmod_lt (by decide)
  exact length_decimal_le narrow (by decide) (by omega)

theorem ignored_sumLine {name unit : String} {colour : List Char} {value : Nat}
    (noName : '\n' ∉ name.toList) (noColour : '\n' ∉ colour)
    (ending : ∃ word, unit.toList = word ++ ['\n'] ∧ '\n' ∉ word)
    (short : name.toList.length + colour.length + unit.toList.length < 80) :
    Ignored (snprintf 100 (sumLine name colour value unit)) := by
  obtain ⟨word, same, noWord⟩ := ending
  have noNumber : '\n' ∉ decimal 9 (toInt32 value) := not_mem_decimal (by decide) (by decide)
  have noBlack : '\n' ∉ colourBlack := by decide
  have black : colourBlack.length = 4 := by decide
  have number : (decimal 9 (toInt32 value)).length ≤ 11 := length_decimal_toInt32 (by decide)
  have line : sumLine name colour value unit =
      (colourBlack ++ (name.toList ++ (colour ++ (decimal 9 (toInt32 value) ++ word)))) ++
        ['\n'] := by
    rw [sumLine, same]
    simp only [List.append_assoc]
  have length := congrArg List.length line
  rw [same] at short
  simp only [List.length_append, List.length_singleton] at length short
  rw [snprintf_of_lt (by omega)]
  refine ⟨_, line, ?_, readLine_black _⟩
  simp only [List.mem_append, noBlack, noName, noColour, noNumber, noWord, or_self,
    not_false_eq_true]

theorem ignored_sumLines {mmapBlockSize : Nat} {totals : Totals} :
    ∀ line ∈ (sumLines mmapBlockSize totals).map (snprintf 100), Ignored line := by
  have unit : ∃ word, " bytes\n".toList = word ++ ['\n'] ∧ '\n' ∉ word :=
    ⟨" bytes".toList, by decide, by decide⟩
  have marked : ∃ word, " bytes *\n".toList = word ++ ['\n'] ∧ '\n' ∉ word :=
    ⟨" bytes *".toList, by decide, by decide⟩
  simp only [sumLines, List.map_cons, List.map_nil, List.forall_mem_cons]
  refine ⟨⟨dashes, by decide, by decide, by decide⟩, ?_, ?_, ?_, ?_, ?_, ?_, ?_⟩
  · exact ignored_sumLine (by decide) (by decide) unit (by decide)
  · exact ignored_sumLine (by decide) (by decide) unit (by decide)
  · exact ignored_sumLine (by decide) (by decide) unit (by decide)
  · exact ignored_sumLine (by decide) (by decide) marked (by decide)
  · exact ignored_sumLine (by decide) (by decide) marked (by decide)
  · exact ⟨colourBlack ++ dashes, by decide, by decide, readLine_black dashes⟩
  · exact fun line member => absurd member List.not_mem_nil

/-! ## Dumps -/

/-- What the line of a block shows. -/
def shown (block : Nat × MallocHeader) : Entry :=
  ⟨block.1, block.2.size, block.2.status == .busy⟩

/-- The numbers of a block fit in its line. -/
def Printable (block : Nat × MallocHeader) : Prop :=
  block.1 + 8192 < 2 ^ 64 ∧ block.2.size < 2 ^ 31

theorem payloadOf_lt (block : Nat) : payloadOf block < 2 ^ 64 := by
  rw [payloadOf]
  split
  · decide
  · exact Nat.mod_lt _ (by decide)

theorem length_row {blue index black mark payload red prev next colour word size unit : List Char} :
    (blue ++ index ++ black ++ mark ++ payload ++ red ++ mark ++ prev ++ mark ++ next ++
      ' ' :: colour ++ word ++ black ++ ' ' :: size ++ unit ++ ['\n']).length =
      blue.length + index.length + 2 * black.length + 3 * mark.length + payload.length +
        red.length + prev.length + next.length + colour.length + word.length + size.length +
          unit.length + 3 := by
  simp only [List.length_append, List.length_cons, List.length_nil]
  omega

theorem length_blockLine_lt (index mallocBlock : Nat) (header : MallocHeader) :
    (blockLine index mallocBlock header).length < 200 := by
  have number : (decimal 3 (toInt32 index)).length ≤ 11 := length_decimal_toInt32 (by decide)
  have size : (decimal 9 (toInt32 header.size)).length ≤ 11 := length_decimal_toInt32 (by decide)
  have address : ∀ value < 2 ^ 64, (hex 12 value).length ≤ 16 := fun value small =>
    length_hex_le (by decide) (by decide) small
  have payload := address (add64 mallocBlock mallocHeaderSize)
    (Nat.mod_lt _ (by decide))
  have prev := address (payloadOf header.prev) (payloadOf_lt _)
  have next := address (payloadOf header.next) (payloadOf_lt _)
  have status : ∀ status, (statusText status).1.length = 7 ∧ (statusText status).2.length = 4 := by
    rintro (_ | _)
    · decide
    · decide
  have blue : colourBlue.length = 7 := by decide
  have black : colourBlack.length = 4 := by decide
  have red : colourRed.length = 7 := by decide
  have mark : " 0x".toList.length = 3 := by decide
  have unit : " bytes".toList.length = 6 := by decide
  rw [blockLine_eq, blockRow, length_row, (status _).1, (status _).2, blue, black, red, mark, unit]
  omega

/-- The lines of blocks, in front of a text. -/
theorem foldr_blockLines {index : Nat} {blocks : List (Nat × MallocHeader)}
    (printable : ∀ block ∈ blocks, Printable block) :
    (readLines ((blockLines index blocks).flatten ++ rest)).foldr gather ([], []) =
      (blocks.map shown ++ ((readLines rest).foldr gather ([], [])).1,
        ((readLines rest).foldr gather ([], [])).2) := by
  induction blocks generalizing index with
  | nil => rfl
  | cons block blocks ih =>
      obtain ⟨here, later⟩ := List.forall_mem_cons.mp printable
      obtain ⟨mallocBlock, header⟩ := block
      rw [blockLines, snprintf_of_lt (length_blockLine_lt _ _ _), blockLine_eq, List.flatten_cons,
        List.append_assoc, List.append_assoc, List.singleton_append,
        readLines_cons (newline_not_mem_blockRow _ _ _), List.foldr_cons,
        readLine_blockRow here.1 here.2, ih later]
      rfl

/-- The text of a dump that is not cut. -/
def dumpText (mmapBlockSize : Nat) (mmap : DumpedMmap) : List Char :=
  (headLines mmap.mmapBlock).flatten ++ (bodyLines mmapBlockSize mmap).flatten

/-- The second line of a dump. -/
theorem titleLine : " ID memory         prev           next           status    size\n".toList =
    " ID memory         prev           next           status    size".toList ++ ['\n'] := by
  decide

/-- The first line of a dump is behind an empty one. -/
theorem readLines_first {front address : List Char} (inside : '\n' ∉ front ++ address) :
    readLines ('\n' :: front ++ address ++ ['\n'] ++ rest) =
      .other :: readLine (front ++ address) :: readLines rest := by
  have shape : '\n' :: front ++ address ++ ['\n'] ++ rest =
      [] ++ '\n' :: ((front ++ address) ++ '\n' :: rest) := by
    simp
  rw [shape, readLines_cons List.not_mem_nil, readLines_cons inside]
  rfl

/-- The head of a dump, in front of a text. -/
theorem foldr_headLines (mmapBlock : Nat) :
    (readLines ((headLines mmapBlock).flatten ++ rest)).foldr gather ([], []) =
      gather (.mmap mmapBlock) ((readLines rest).foldr gather ([], [])) := by
  have start : "\nMMAP at 0x".toList = '\n' :: "MMAP at 0x".toList := by decide
  have address : '\n' ∉ hex 12 mmapBlock := not_mem_hex (by decide)
  have mark : '\n' ∉ "MMAP at 0x".toList := by decide
  have inside : '\n' ∉ "MMAP at 0x".toList ++ hex 12 mmapBlock := by
    simp only [List.mem_append, address, mark, or_self, not_false_eq_true]
  have skip : "MMAP at 0x".toList.length = "MMAP at 0x".length := by decide
  have named : readLine ("MMAP at 0x".toList ++ hex 12 mmapBlock) = .mmap mmapBlock := by
    rw [readLine, if_pos (List.prefix_append _ _), List.drop_left' skip, readHex_hex]
  have ignored : ∀ line ∈ [_, dashes ++ ['\n']], Ignored line :=
    List.forall_mem_cons.mpr ⟨⟨_, titleLine, by decide, by decide⟩,
      List.forall_mem_singleton.mpr ⟨dashes, rfl, by decide, by decide⟩⟩
  rw [headLines, List.flatten_cons, start, List.append_assoc, readLines_first inside,
    List.foldr_cons, List.foldr_cons, named, foldr_ignored ignored]
  rfl

/-- A reader takes a dump for its MMAP and its blocks. -/
theorem foldr_dumpText {mmapBlockSize : Nat} {more : List (Nat × List Entry)}
    (printable : ∀ block ∈ mmap.blocks, Printable block)
    (later : (readLines rest).foldr gather ([], []) = ([], more)) :
    (readLines (dumpText mmapBlockSize mmap ++ rest)).foldr gather ([], []) =
      ([], (mmap.mmapBlock, mmap.blocks.map shown) :: more) := by
  rw [dumpText, List.append_assoc, foldr_headLines, bodyLines, List.flatten_append,
    List.append_assoc, foldr_blockLines printable, foldr_ignored ignored_sumLines, later,
    List.append_nil]
  rfl

/-- The report of all MMAPs shows their blocks. -/
theorem readReport_flatten {mmapBlockSize : Nat} {mmaps : List DumpedMmap}
    (printable : ∀ mmap ∈ mmaps, ∀ block ∈ mmap.blocks, Printable block) :
    readReport (mmaps.map (dumpText mmapBlockSize)).flatten =
      mmaps.map fun mmap => (mmap.mmapBlock, mmap.blocks.map shown) := by
  have read : (readLines (mmaps.map (dumpText mmapBlockSize)).flatten).foldr gather ([], []) =
      ([], mmaps.map fun mmap => (mmap.mmapBlock, mmap.blocks.map shown)) := by
    induction mmaps with
    | nil => rfl
    | cons mmap mmaps ih =>
        obtain ⟨here, later⟩ := List.forall_mem_cons.mp printable
        rw [List.map_cons, List.flatten_cons]
        exact foldr_dumpText here (ih later)
  rw [readReport, read]

/-! ## Responses with enough room -/

/-- Lines for which there is room are all appended. -/
theorem appendLines_eq_ok {response : List Char} {lines : List (List Char)}
    (int : size ≤ 2 ^ 31) (room : response.length + lines.flatten.length < size) :
    appendLines size response lines = .ok (response ++ lines.flatten) := by
  induction lines generalizing response with
  | nil => exact congrArg Except.ok (List.append_nil response).symm
  | cons line lines ih =>
      rw [List.flatten_cons, List.length_append] at room
      have small : response.length < 2 ^ 31 := by omega
      have through : ¬add64 (ofInt32 (toInt32 response.length)) line.length ≥ size :=
        Nat.not_le_of_lt ((letThrough_iff small (by omega)).mpr (by omega))
      have positive : ¬toInt32 response.length < 0 := by
        rw [toInt32_of_lt small]
        omega
      rw [appendLines, appendLine, if_neg through, if_neg positive]
      refine (ih ?_).trans ?_
      · rw [List.length_append]
        omega
      · rw [List.flatten_cons, List.append_assoc]

theorem length_flatten_le {lines : List (List Char)} {most : Nat}
    (short : ∀ line ∈ lines, line.length ≤ most) :
    lines.flatten.length ≤ most * lines.length := by
  induction lines with
  | nil => exact Nat.zero_le _
  | cons line lines ih =>
      obtain ⟨here, later⟩ := List.forall_mem_cons.mp short
      have rest := ih later
      rw [List.flatten_cons, List.length_append, List.length_cons, Nat.mul_succ]
      omega

theorem length_blockLines {index : Nat} {blocks : List (Nat × MallocHeader)} :
    (blockLines index blocks).length = blocks.length := by
  induction blocks generalizing index with
  | nil => rfl
  | cons block blocks ih => exact congrArg (· + 1) ih

/-- The room that a dump needs. -/
theorem length_dumpText_le {mmapBlockSize : Nat} (user : mmap.mmapBlock < 2 ^ 64) :
    (dumpText mmapBlockSize mmap).length ≤ 1000 + 200 * mmap.blocks.length := by
  have address : (hex 12 mmap.mmapBlock).length ≤ 16 := length_hex_le (by decide) (by decide) user
  have start : "\nMMAP at 0x".toList.length = 11 := by decide
  have title : " ID memory         prev           next           status    size\n".toList.length =
      64 := by decide
  have line : dashes.length = 69 := by decide
  have blocks : (blockLines 0 mmap.blocks).flatten.length ≤
      200 * (blockLines 0 mmap.blocks).length :=
    length_flatten_le fun line member => Nat.le_of_lt (length_of_mem_blockLines member)
  have sums : ((sumLines mmapBlockSize (sums .zero mmap.blocks)).map (snprintf 100)).flatten.length ≤
      100 * 7 := by
    refine length_flatten_le fun line member => ?_
    obtain ⟨text, _, rfl⟩ := List.mem_map.mp member
    exact Nat.le_of_lt (length_snprintf_lt (by decide))
  rw [length_blockLines] at blocks
  rw [dumpText, headLines, bodyLines, List.flatten_append]
  simp only [List.flatten_cons, List.flatten_nil, List.length_append, List.length_singleton,
    List.append_nil, start, title, line]
  omega

end VgcMalloc
