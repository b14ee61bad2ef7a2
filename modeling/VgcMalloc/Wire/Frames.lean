import Mathlib.Algebra.Group.Nat.Defs
import Mathlib.Data.List.Basic

/-!
# Records on a byte stream

Numbers travel as little-endian words and records as frames of one fixed
length.  A reader that takes whole frames off the front of a stream sees the
records in the order in which they were written.
-/

namespace VgcMalloc.Wire

/-! ## Little-endian words -/

/-- The `width` low bytes of a number, lowest byte first. -/
def wordBytes : Nat → Nat → List UInt8
  | 0, _ => []
  | width + 1, value => UInt8.ofNat value :: wordBytes width (value / 256)

/-- The number that bytes stand for, lowest byte first. -/
def wordValue : List UInt8 → Nat
  | [] => 0
  | byte :: rest => byte.toNat + 256 * wordValue rest

@[simp]
theorem length_wordBytes (width value : Nat) : (wordBytes width value).length = width := by
  induction width generalizing value with
  | zero => rfl
  | succ width ih => rw [wordBytes, List.length_cons, ih]

/-- Numbers that fit survive the wire. -/
theorem wordValue_wordBytes {width value : Nat} (fits : value < 256 ^ width) :
    wordValue (wordBytes width value) = value := by
  induction width generalizing value with
  | zero =>
      rw [Nat.pow_zero] at fits
      rw [wordBytes, wordValue]
      omega
  | succ width ih =>
      have tail : value / 256 < 256 ^ width := by
        rw [Nat.pow_succ] at fits
        exact Nat.div_lt_of_lt_mul (by rwa [Nat.mul_comm] at fits)
      rw [wordBytes, wordValue, ih tail, UInt8.toNat_ofNat']
      exact Nat.mod_add_div value 256

/-! ## Frames of a fixed length -/

/-- Records that travel as `size` bytes each. -/
structure Codec (α : Type) where
  size : Nat
  encode : α → List UInt8
  decode : List UInt8 → α
  length_encode : ∀ record, (encode record).length = size
  decode_encode : ∀ record, decode (encode record) = record

namespace Codec

variable {α : Type} (codec : Codec α) {record : α} {records : List α}
  {chunk rest : List UInt8}

/-- The bytes of records that are written one after the other. -/
def stream (records : List α) : List UInt8 := records.flatMap codec.encode

@[simp]
theorem stream_nil : codec.stream [] = [] :=
  rfl

@[simp]
theorem stream_cons (record : α) (records : List α) :
    codec.stream (record :: records) = codec.encode record ++ codec.stream records :=
  rfl

/-- A whole frame at the front of a stream is the frame of its first record. -/
theorem eq_encode_of_prefix (positive : 0 < codec.size) (whole : chunk.length = codec.size)
    (arrived : chunk ++ rest <+: codec.stream records) :
    ∃ record later, records = record :: later ∧ chunk = codec.encode record ∧
      rest <+: codec.stream later := by
  cases records with
  | nil =>
      have short := arrived.length_le
      rw [stream_nil, List.length_append, List.length_nil] at short
      omega
  | cons record later =>
      obtain ⟨missing, total⟩ := arrived
      rw [stream_cons, List.append_assoc] at total
      obtain ⟨front, back⟩ :=
        List.append_inj total (whole.trans (codec.length_encode record).symm)
      exact ⟨record, later, rfl, front, missing, back⟩

end Codec

end VgcMalloc.Wire
