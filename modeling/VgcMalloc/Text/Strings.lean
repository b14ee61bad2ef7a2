import Mathlib.Data.List.Basic
import Mathlib.Data.Nat.Digits.Defs

/-!
# Strings of C

A string is the list of its characters in front of the terminator, so its
`strlen` is the length of the list.  Searches give the position of what they
find, and none for a null pointer.
-/

namespace VgcMalloc.Text

variable {text : List Char} {char : Char} {start pos index : Nat}

/-! ## Formats -/

/-- `snprintf` with a buffer of `size` bytes: what is left of the text, with
its terminator. -/
def snprintf (size : Nat) (text : List Char) : List Char := text.take (size - 1)

/-- `%.12lx` and the like: at least so many hexadecimal digits. -/
def hex (precision value : Nat) : List Char := (Nat.toDigits 16 value).leftpad precision '0'

/-- `%9d` and the like: a number of at least so many characters. -/
def decimal (width : Nat) (value : Int) : List Char := (toString value).toList.leftpad width ' '

theorem length_snprintf_lt {size : Nat} (room : size ≠ 0) : (snprintf size text).length < size := by
  rw [snprintf, List.length_take]
  omega

/-- The digits of a number. -/
theorem mem_toDigits {value : Nat} (member : char ∈ Nat.toDigits 16 value) :
    char ∈ "0123456789abcdef".toList := by
  have digit : ∀ rest < 16, rest.digitChar ∈ "0123456789abcdef".toList := by decide
  induction value using Nat.strong_induction_on with
  | h value ih =>
      rw [Nat.toDigits_eq_if (by decide)] at member
      split at member
      · rename_i small
        rw [List.mem_singleton.mp member]
        exact digit value small
      · rename_i large
        rcases List.mem_append.mp member with front | last
        · exact ih (value / 16) (Nat.div_lt_self (by omega) (by decide)) front
        · rw [List.mem_singleton.mp last]
          exact digit (value % 16) (Nat.mod_lt _ (by decide))

theorem mem_hex {precision value : Nat} (member : char ∈ hex precision value) :
    char ∈ "0123456789abcdef".toList := by
  rcases List.mem_append.mp member with padding | digits
  · rw [List.eq_of_mem_replicate padding]
    decide
  · exact mem_toDigits digits

/-! ## Searches -/

/-- `strchr` from a position of the string on. -/
def strchr (text : List Char) (start : Nat) (char : Char) : Option Nat :=
  ((text.drop start).findIdx? fun c => c == char).map (start + ·)

/-- `strrchr`. -/
def strrchr (text : List Char) (char : Char) : Option Nat :=
  (text.reverse.findIdx? fun c => c == char).map (text.length - 1 - ·)

/-- `strncmp(text, word, strlen(word)) == 0`. -/
def startsWith (text word : List Char) : Prop := word <+: text

instance (text word : List Char) : Decidable (startsWith text word) :=
  inferInstanceAs (Decidable (word <+: text))

/-- A search finds an occurrence at or behind its start. -/
theorem getElem?_of_strchr (found : strchr text start char = some pos) :
    start ≤ pos ∧ text[pos]? = some char := by
  obtain ⟨offset, there, rfl⟩ := Option.map_eq_some_iff.mp found
  obtain ⟨bound, same, _⟩ := List.findIdx?_eq_some_iff_getElem.mp there
  refine ⟨Nat.le_add_right _ _, ?_⟩
  rw [← List.getElem?_drop, List.getElem?_eq_getElem bound]
  exact congrArg some (beq_iff_eq.mp same)

/-- A search comes to an end at the first occurrence. -/
theorem exists_strchr_le (behind : start ≤ index) (there : text[index]? = some char) :
    ∃ pos ≤ index, strchr text start char = some pos := by
  obtain ⟨offset, rfl⟩ := Nat.exists_eq_add_of_le behind
  rw [← List.getElem?_drop] at there
  obtain ⟨bound, same⟩ := List.getElem?_eq_some_iff.mp there
  cases found : (text.drop start).findIdx? fun c => c == char with
  | none =>
      have absent := List.findIdx?_eq_none_iff.mp found char (List.mem_of_getElem? there)
      exact absurd (beq_self_eq_true char) (by rw [absent]; exact Bool.false_ne_true)
  | some first =>
      refine ⟨start + first, ?_, by rw [strchr, found, Option.map_some]⟩
      obtain ⟨_, _, earlier⟩ := List.findIdx?_eq_some_iff_getElem.mp found
      apply Nat.add_le_add_left
      by_contra before
      exact earlier offset (Nat.lt_of_not_le before) (beq_iff_eq.mpr same)

/-- A search fails when the character does not occur. -/
theorem strchr_eq_none (absent : char ∉ text) : strchr text start char = none := by
  cases found : strchr text start char with
  | none => rfl
  | some pos => exact absurd (List.mem_of_getElem? (getElem?_of_strchr found).2) absent

theorem getElem?_of_strrchr (found : strrchr text char = some pos) : text[pos]? = some char := by
  obtain ⟨offset, there, rfl⟩ := Option.map_eq_some_iff.mp found
  obtain ⟨bound, same, _⟩ := List.findIdx?_eq_some_iff_getElem.mp there
  rw [List.length_reverse] at bound
  have inside : offset < text.reverse.length := by rwa [List.length_reverse]
  have reversed := List.getElem?_eq_getElem inside
  rw [List.getElem?_reverse bound] at reversed
  rw [reversed]
  exact congrArg some (beq_iff_eq.mp same)

end VgcMalloc.Text
