import VgcMalloc.Text.Strings

/-!
# Numbers that are read back

What `%lx` and `%d` print, read as a number again, and how long it is.  Padding
in front of the digits does not change the number.
-/

namespace VgcMalloc.Text

variable {text : List Char} {char : Char} {precision width value bound : Nat}

/-! ## Hexadecimal numbers -/

/-- The characters of a hexadecimal number. -/
def hexDigits : List Char := "0123456789abcdef".toList

/-- The number that hexadecimal digits stand for. -/
def readHex (text : List Char) : Nat :=
  text.foldl (fun value char => 16 * value + hexDigits.idxOf char) 0

/-- Digits that are read behind other digits. -/
theorem readHex_concat : readHex (text ++ [char]) = 16 * readHex text + hexDigits.idxOf char := by
  rw [readHex, List.foldl_append]
  rfl

theorem readHex_toDigits (value : Nat) : readHex (Nat.toDigits 16 value) = value := by
  have digit : ∀ rest < 16, hexDigits.idxOf rest.digitChar = rest := by decide
  induction value using Nat.strong_induction_on with
  | h value ih =>
      rw [Nat.toDigits_eq_if (by decide)]
      split
      · rename_i small
        rw [← List.nil_append [value.digitChar], readHex_concat, digit value small]
        exact Nat.zero_add value
      · rename_i large
        rw [readHex_concat, ih (value / 16) (Nat.div_lt_self (by omega) (by decide)),
          digit _ (Nat.mod_lt _ (by decide))]
        exact Nat.div_add_mod value 16

/-- Zeros in front do not count. -/
theorem readHex_padding (count : Nat) (text : List Char) :
    readHex (List.replicate count '0' ++ text) = readHex text := by
  induction count with
  | zero => rfl
  | succ count ih =>
      rw [List.replicate_succ, List.cons_append]
      exact ih

theorem readHex_hex (precision value : Nat) : readHex (hex precision value) = value := by
  rw [hex, List.leftpad, readHex_padding, readHex_toDigits]

theorem length_hex_le (enough : precision ≤ bound) (positive : 0 < bound)
    (small : value < 16 ^ bound) : (hex precision value).length ≤ bound := by
  rw [hex, List.length_leftpad]
  exact max_le enough ((Nat.length_toDigits_le_iff (by decide) positive).mpr small)

/-! ## Decimal numbers -/

/-- The digits of a number. -/
theorem decimal_natCast (width value : Nat) : decimal width value =
    List.replicate (width - (Nat.toDigits 10 value).length) ' ' ++ Nat.toDigits 10 value := by
  have printed : (toString (value : Int)).toList = Nat.toDigits 10 value := by
    exact (congrArg String.toList (show toString (value : Int) = value.repr from rfl)).trans
      Nat.toList_repr
  rw [decimal, printed, List.leftpad]

/-- The digits behind the last blank, read as a number. -/
theorem ofDigitChars_decimal (front : List Char) (width value : Nat) :
    Nat.ofDigitChars 10
      ((front ++ ' ' :: decimal width value).reverse.takeWhile Char.isDigit).reverse 0 =
        value := by
  have digits : ∀ char ∈ (Nat.toDigits 10 value).reverse, char.isDigit = true := by
    intro char member
    exact Nat.isDigit_of_mem_toDigits (by decide) (by decide) (List.mem_reverse.mp member)
  have stops : ∀ (count : Nat) (before : List Char),
      (List.replicate count ' ' ++ ' ' :: before).takeWhile Char.isDigit = [] := by
    intro count before
    cases count with
    | zero => rfl
    | succ count => rfl
  rw [List.reverse_append, List.reverse_cons, decimal_natCast, List.reverse_append,
    List.append_assoc, List.append_assoc, List.takeWhile_append_of_pos digits,
    List.reverse_replicate, List.singleton_append, stops, List.append_nil, List.reverse_reverse]
  exact Nat.ofDigitChars_toDigits (by decide) (by decide)

/-- The sign and the digits of a number. -/
theorem decimal_eq (width : Nat) (value : Int) : decimal width value =
    ((if value < 0 then ['-'] else []) ++ Nat.toDigits 10 value.natAbs).leftpad width ' ' := by
  rw [decimal, Int.toString_eq_repr]
  cases value with
  | ofNat value =>
      rw [Int.repr, Nat.toList_repr, if_neg (by simp)]
      rfl
  | negSucc value =>
      rw [Int.repr, if_pos (Int.negSucc_lt_zero value)]
      simp

/-- A number is blanks, a sign and digits. -/
theorem mem_decimal {value : Int} (member : char ∈ decimal width value) :
    char ∈ [' ', '-'] ∨ char.isDigit = true := by
  rw [decimal_eq] at member
  rcases List.mem_append.mp member with padding | rest
  · rw [List.eq_of_mem_replicate padding]
    exact Or.inl List.mem_cons_self
  rcases List.mem_append.mp rest with sign | digits
  · split at sign
    · rw [List.mem_singleton.mp sign]
      exact Or.inl (List.mem_cons_of_mem _ List.mem_cons_self)
    · cases sign
  · exact Or.inr (Nat.isDigit_of_mem_toDigits (by decide) (by decide) digits)

theorem length_decimal_le {value : Int} (enough : width ≤ bound) (positive : 0 < bound)
    (small : value.natAbs < 10 ^ bound) : (decimal width value).length ≤ bound + 1 := by
  have digits := (Nat.length_toDigits_le_iff (b := 10) (by decide) positive).mpr small
  rw [decimal_eq, List.length_leftpad, List.length_append]
  have sign : (if value < 0 then ['-'] else []).length ≤ 1 := by
    split
    · exact Nat.le_refl 1
    · exact Nat.zero_le 1
  omega

end VgcMalloc.Text
