import VgcMalloc.Model.Network

/-!
# Framing of protection changes

A peer writes records on a connection, and the reading loop of
`manageCorruptionThread` turns what each `read` returns into a change of a
protection.  The changes are those of the records written exactly when every
read of the loop returns a whole record.
-/

namespace VgcMalloc

open Wire

variable {pid : UInt32} {messages : List MProtectBlock} {turn : Turn} {turns : List Turn}

/-! ## One turn of the loop -/

namespace ReadResult

/-- The read returns the bytes of one record. -/
def IsWhole (read : ReadResult) : Prop := read.bytes.length = MProtectBlock.sizeof

/-- The record that the loop takes from a read; what is missing is zero. -/
def record (read : ReadResult) : MProtectBlock :=
  .decode (doRead MProtectBlock.sizeof read).2.1

instance (read : ReadResult) : Decidable read.IsWhole :=
  inferInstanceAs (Decidable (_ = _))

theorem record_of_whole {block : MProtectBlock} {read : ReadResult}
    (whole : read.bytes = block.encode) : read.record = block := by
  have filled : (doRead MProtectBlock.sizeof read).2.1 = block.encode := by
    simp [doRead, whole, MProtectBlock.length_encode]
  rw [record, filled, MProtectBlock.decode_encode]

/-- `readBytes` is zero at the end of the file only. -/
theorem readBytes_eq_zero_iff {read : ReadResult}
    (bounded : read.bytes.length ≤ MProtectBlock.sizeof) :
    (doRead MProtectBlock.sizeof read).2.2 = 0 ↔ read = .data [] := by
  cases read with
  | error => decide
  | data bytes =>
      have small : bytes.length ≤ 16 := bounded
      have count : (doRead MProtectBlock.sizeof (.data bytes)).2.2 = bytes.length := by
        simp only [doRead, sizeOfSsize, returned]
        omega
      rw [count, List.length_eq_zero_iff, ReadResult.data.injEq]

end ReadResult

/-- `do_read` never reports a failure. -/
@[simp]
theorem doRead_succeeds (count : Nat) (read : ReadResult) : (doRead count read).1 = true := by
  simp [doRead]

@[simp]
theorem isChange_change (block : MProtectBlock) : block.change.isChange = true := by
  unfold MProtectBlock.change
  split <;> rfl

@[simp]
theorem isChange_answer (result : Nat) : (ServerAction.answer result).isChange = false :=
  rfl

@[simp]
theorem isChange_close : ServerAction.close.isChange = false :=
  rfl

/-- The changes that the loop makes, each with its read. -/
def changes (pid : UInt32) (turns : List Turn) : List (ReadResult × ServerAction) :=
  (manageCorruption pid turns).filter fun event => event.2.isChange

@[simp]
theorem changes_nil (pid : UInt32) : changes pid [] = [] :=
  rfl

/-- One turn makes at most one change, and the loop may end with it. -/
theorem changes_cons (bounded : turn.read.bytes.length ≤ MProtectBlock.sizeof) :
    changes pid (turn :: turns) =
      if turn.read = .data [] then changes pid turns
      else if pid = turn.read.record.sourcePID then []
      else (turn.read, turn.read.record.change) ::
        if turn.applied ∧ turn.answered then changes pid turns else [] := by
  have empty := turn.read.readBytes_eq_zero_iff bounded
  have step : ∀ block readBytes, block = turn.read.record →
      readBytes = (doRead MProtectBlock.sizeof turn.read).2.2 →
      changes pid (turn :: turns) = (List.filter (fun event => event.2.isChange)
        (if readBytes = 0 then manageCorruption pid turns
          else if pid = block.sourcePID then [(turn.read, .close)]
          else if !turn.applied then
            if block.prot = protNone then [(turn.read, block.change), (turn.read, .close)]
            else [(turn.read, block.change), (turn.read, .answer 0), (turn.read, .close)]
          else if !turn.answered then
            [(turn.read, block.change), (turn.read, .answer 1), (turn.read, .close),
              (turn.read, .close)]
          else (turn.read, block.change) :: (turn.read, .answer 1) ::
            manageCorruption pid turns)) := by
    rintro _ _ rfl rfl
    rfl
  rw [step _ _ rfl rfl]
  by_cases finished : turn.read = .data []
  · rw [if_pos (empty.mpr finished), if_pos finished]
    rfl
  · rw [if_neg (mt empty.mp finished), if_neg finished]
    by_cases own : pid = turn.read.record.sourcePID
    · rw [if_pos own, if_pos own]
      rfl
    · rw [if_neg own, if_neg own]
      cases applied : turn.applied with
      | false =>
          by_cases guard : turn.read.record.prot = protNone <;>
            simp [guard]
      | true =>
          cases answered : turn.answered with
          | false => simp
          | true => simp [changes]

/-! ## Whole reads -/

/-- The socket returns at most one record at a time, and all together a part
of what the peer has written. -/
structure Delivers (messages : List MProtectBlock) (turns : List Turn) : Prop where
  bounded : ∀ turn ∈ turns, turn.read.bytes.length ≤ MProtectBlock.sizeof
  arrived : (turns.flatMap fun turn => turn.read.bytes) <+: MProtectBlock.codec.stream messages

/-- The changes are those of the first records written, in order and each of
them once, and each comes from a whole record. -/
structure Framed (pid : UInt32) (messages : List MProtectBlock) (turns : List Turn) : Prop where
  inOrder : ∃ served, served <+: messages ∧
    (changes pid turns).map Prod.snd = served.map MProtectBlock.change
  whole : ∀ event ∈ changes pid turns, event.1.IsWhole

/-- Every read until the loop ends returns the end of the file, a whole
record, or a record that names the receiver itself and ends the loop. -/
def WholeReads (pid : UInt32) : List Turn → Prop
  | [] => True
  | turn :: rest =>
      if turn.read = .data [] then WholeReads pid rest
      else if pid = turn.read.record.sourcePID then True
      else turn.read.IsWhole ∧ (turn.applied ∧ turn.answered → WholeReads pid rest)

instance instDecidableWholeReads (pid : UInt32) :
    (turns : List Turn) → Decidable (WholeReads pid turns)
  | [] => .isTrue trivial
  | turn :: rest =>
      have := instDecidableWholeReads pid rest
      inferInstanceAs (Decidable (if turn.read = .data [] then WholeReads pid rest
        else if pid = turn.read.record.sourcePID then True
        else turn.read.IsWhole ∧ (turn.applied ∧ turn.answered → WholeReads pid rest)))

/-- A loop that only acts on whole records has only read whole records. -/
theorem wholeReads_of_whole
    (bounded : ∀ turn ∈ turns, turn.read.bytes.length ≤ MProtectBlock.sizeof)
    (whole : ∀ event ∈ changes pid turns, event.1.IsWhole) : WholeReads pid turns := by
  induction turns with
  | nil => trivial
  | cons turn rest ih =>
      rw [List.forall_mem_cons] at bounded
      rw [changes_cons bounded.1] at whole
      unfold WholeReads
      by_cases finished : turn.read = .data []
      · rw [if_pos finished] at whole ⊢
        exact ih bounded.2 whole
      · rw [if_neg finished] at whole ⊢
        by_cases own : pid = turn.read.record.sourcePID
        · rw [if_pos own]
          trivial
        · rw [if_neg own] at whole ⊢
          rw [List.forall_mem_cons] at whole
          constructor
          · exact whole.1
          · intro continues
            apply ih bounded.2
            rw [if_pos continues] at whole
            exact whole.2

theorem Delivers.framed (delivers : Delivers messages turns) (reads : WholeReads pid turns) :
    Framed pid messages turns := by
  obtain ⟨bounded, arrived⟩ := delivers
  induction turns generalizing messages with
  | nil => exact ⟨⟨[], List.nil_prefix, rfl⟩, by simp⟩
  | cons turn rest ih =>
      rw [List.forall_mem_cons] at bounded
      rw [List.flatMap_cons] at arrived
      unfold WholeReads at reads
      have step := @changes_cons pid turn rest bounded.1
      by_cases finished : turn.read = .data []
      · rw [if_pos finished] at reads step
        have same : turn.read.bytes = [] := by rw [finished]; rfl
        rw [same, List.nil_append] at arrived
        obtain ⟨inOrder, whole⟩ := ih reads bounded.2 arrived
        exact ⟨by rwa [step], by rwa [step]⟩
      · rw [if_neg finished] at reads step
        by_cases own : pid = turn.read.record.sourcePID
        · rw [if_pos own] at step
          exact ⟨⟨[], List.nil_prefix, by rw [step]; rfl⟩, by simp [step]⟩
        · rw [if_neg own] at reads step
          obtain ⟨whole, continues⟩ := reads
          obtain ⟨block, later, rfl, bytes, remaining⟩ :=
            MProtectBlock.codec.eq_encode_of_prefix (by decide) whole arrived
          rw [ReadResult.record_of_whole bytes] at step
          by_cases goesOn : turn.applied ∧ turn.answered
          · rw [if_pos goesOn] at step
            obtain ⟨⟨served, first, same⟩, wholes⟩ := ih (continues goesOn) bounded.2 remaining
            refine ⟨⟨block :: served, ?_, ?_⟩, ?_⟩
            · exact List.prefix_cons_inj block |>.mpr first
            · rw [step, List.map_cons, List.map_cons, same]
            · rw [step, List.forall_mem_cons]
              exact ⟨whole, wholes⟩
          · rw [if_neg goesOn] at step
            refine ⟨⟨[block], ?_, ?_⟩, ?_⟩
            · exact List.prefix_append [block] later
            · rw [step]
              rfl
            · rw [step, List.forall_mem_singleton]
              exact whole

/-- The changes made on a connection are those of the records written exactly
when every read of the loop returns a whole record. -/
theorem framed_iff_wholeReads (delivers : Delivers messages turns) :
    Framed pid messages turns ↔ WholeReads pid turns := by
  constructor
  · intro framed
    exact wholeReads_of_whole delivers.bounded framed.whole
  · intro reads
    exact delivers.framed reads

theorem framed_iff_wholeReads_sample :
    Framed 7 [⟨0x10001000, protNone, 5⟩, ⟨0x10004000, protReadWrite, 5⟩]
      [⟨.data (MProtectBlock.encode ⟨0x10001000, protNone, 5⟩), true, true⟩,
        ⟨.data (MProtectBlock.encode ⟨0x10004000, protReadWrite, 5⟩), true, true⟩,
        ⟨.data [], true, true⟩] :=
  (framed_iff_wholeReads ⟨by decide, by decide⟩).mpr (by decide)

/-- A failed read counts as one of `2 ^ 64 - 1` bytes, and the cleared buffer
asks for a protection at null. -/
theorem not_framed_of_failed_read :
    ¬∀ pid messages turns, Delivers messages turns → Framed pid messages turns := by
  intro claim
  have framed := claim 7 [⟨0x10001000, protNone, 5⟩] [⟨.error, false, true⟩]
    ⟨by decide, by decide⟩
  have missing : ¬ReadResult.error.IsWhole := by decide
  exact missing (framed.whole (.error, .protect 0) (by decide))

end VgcMalloc
