import Mathlib.Algebra.Group.Nat.Defs

/-!
# Byte-addressed memory

A memory assigns a byte to every address.  Words of any width are loaded and
stored in little-endian order.  A load sees the last store at its own address
and width, and no store that does not overlap it.
-/

namespace VgcMalloc

/-- Memory contents, one byte an address. -/
def Bytes := Nat → UInt8

namespace Bytes

/-- The little-endian word of `width` bytes at `address`. -/
def load (memory : Bytes) (address : Nat) : Nat → Nat
  | 0 => 0
  | width + 1 => (memory address).toNat + 256 * load memory (address + 1) width

/-- Store the low `width` bytes of `value` at `address`. -/
def store (memory : Bytes) (address width value : Nat) : Bytes :=
  fun x =>
    if address ≤ x ∧ x < address + width then
      UInt8.ofNat (value / 256 ^ (x - address))
    else
      memory x

/-- Fill `length` bytes from `address` with one byte. -/
def fill (memory : Bytes) (address length : Nat) (byte : UInt8) : Bytes :=
  fun x => if address ≤ x ∧ x < address + length then byte else memory x

/-- Copy `length` bytes from `source` to `target`; both ranges are read before
the target is written. -/
def copy (memory : Bytes) (target source length : Nat) : Bytes :=
  fun x =>
    if target ≤ x ∧ x < target + length then memory (source + (x - target))
    else memory x

/-- Two memories agree on the addresses from `low` up to `high`. -/
def AgreeOn (first second : Bytes) (low high : Nat) : Prop :=
  ∀ x, low ≤ x → x < high → first x = second x

theorem load_congr {first second : Bytes} {address width : Nat}
    (agree : AgreeOn first second address (address + width)) :
    first.load address width = second.load address width := by
  induction width generalizing address with
  | zero => rfl
  | succ width ih =>
      have head : first address = second address :=
        agree address (Nat.le_refl _) (by omega)
      have tail : first.load (address + 1) width = second.load (address + 1) width :=
        ih fun x low high => agree x (by omega) (by omega)
      rw [load, load, head, tail]

theorem store_of_outside (memory : Bytes) {address width value x : Nat}
    (outside : x < address ∨ address + width ≤ x) :
    memory.store address width value x = memory x := by
  rw [store, if_neg (by omega)]

/-- Filled bytes of zero load as zero. -/
theorem load_fill_zero (memory : Bytes) {address length target width : Nat}
    (low : address ≤ target) (high : target + width ≤ address + length) :
    (memory.fill address length 0).load target width = 0 := by
  induction width generalizing target with
  | zero => rfl
  | succ width ih =>
      have head : memory.fill address length 0 target = 0 := if_pos (by omega)
      rw [load, head, ih (by omega) (by omega)]
      rfl

/-- A store is invisible to every load that does not overlap it. -/
theorem load_store_of_disjoint (memory : Bytes) {address width value target size : Nat}
    (disjoint : target + size ≤ address ∨ address + width ≤ target) :
    (memory.store address width value).load target size = memory.load target size :=
  load_congr fun _ low high => memory.store_of_outside (by omega)

/-- The part of a stored word from byte `skip` on. -/
private theorem load_store_suffix (memory : Bytes) (address width value : Nat)
    (skip count : Nat) (total : skip + count = width) :
    (memory.store address width value).load (address + skip) count =
      value / 256 ^ skip % 256 ^ count := by
  induction count generalizing skip with
  | zero => simp [load, Nat.mod_one]
  | succ count ih =>
      have head : (memory.store address width value (address + skip)).toNat =
          value / 256 ^ skip % 256 := by
        rw [store, if_pos (by omega), Nat.add_sub_cancel_left, UInt8.toNat_ofNat']
      have shifted : value / 256 ^ (skip + 1) = value / 256 ^ skip / 256 := by
        rw [Nat.pow_succ, Nat.div_div_eq_div_mul]
      rw [load, Nat.add_assoc, ih (skip + 1) (by omega), head, shifted, Nat.pow_succ',
        Nat.mod_mul]

/-- A load sees the store at its own address and width. -/
theorem load_store_same (memory : Bytes) (address width value : Nat) :
    (memory.store address width value).load address width = value % 256 ^ width := by
  simpa using memory.load_store_suffix address width value 0 width (Nat.zero_add width)

theorem load_lt (memory : Bytes) (address width : Nat) :
    memory.load address width < 256 ^ width := by
  induction width generalizing address with
  | zero => simp [load]
  | succ width ih =>
      have byte : (memory address).toNat < 256 := (memory address).toNat_lt
      have tail := ih (address + 1)
      rw [load, Nat.pow_succ]
      omega

end Bytes

end VgcMalloc
