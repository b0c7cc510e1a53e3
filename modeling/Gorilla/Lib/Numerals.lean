import Mathlib.Data.List.TakeWhile
import Mathlib.Data.Nat.Notation
import Mathlib.Tactic.Basic

/-!
# Numerals in text

A numeral is read past blanks and a sign up to its last digit. What was printed is read again.
-/

namespace Numerals

def isBlank (c : Char) : Bool := c ∈ [' ', '\t', '\n', '\x0b', '\x0c', '\r']

/-- A sign, and what follows it. -/
def signed : List Char → Bool × List Char
  | '-' :: rest => (true, rest)
  | '+' :: rest => (false, rest)
  | rest => (false, rest)

/-- The sign and the digits of the numeral a text starts with. -/
def read (text : List Char) : Option (Bool × ℕ) :=
  let (negative, rest) := signed (text.dropWhile isBlank)
  match rest.takeWhile Char.isDigit with
  | [] => none
  | digits => some (negative, Nat.ofDigitChars 10 digits 0)

theorem isBlank_of_isDigit {c : Char} (digit : c.isDigit = true) : isBlank c = false := by
  rw [isBlank, decide_eq_false_iff_not]
  intro blank
  rcases List.mem_cons.mp blank with rfl | blank
  · cases digit
  · simp only [List.mem_cons, List.not_mem_nil, or_false] at blank
    rcases blank with rfl | rfl | rfl | rfl | rfl <;> cases digit

theorem signed_of_isDigit {c : Char} {rest : List Char} (digit : c.isDigit = true) :
    signed (c :: rest) = (false, c :: rest) := by
  unfold signed
  split
  · rename_i same
    cases same
    cases digit
  · rename_i same
    cases same
    cases digit
  · rfl

/-- A number is printed as digits, and at least one. -/
theorem toString_digits (n : ℕ) : ∃ c rest, (toString n).toList = c :: rest ∧
    (∀ d ∈ c :: rest, d.isDigit = true) ∧ Nat.ofDigitChars 10 (c :: rest) 0 = n := by
  rw [Nat.toString_eq_ofList_toDigits, String.toList_ofList]
  cases printed : Nat.toDigits 10 n with
  | nil => exact absurd printed Nat.toDigits_ne_nil
  | cons c rest =>
    refine ⟨c, rest, rfl, fun d mem => ?_, ?_⟩
    · rw [← printed] at mem
      exact Nat.isDigit_of_mem_toDigits (by decide) (by decide) mem
    · rw [← printed]
      exact Nat.ofDigitChars_ten_toDigits

theorem toString_not_blank (n : ℕ) : (toString n).toList.all isBlank = false := by
  obtain ⟨c, rest, printed, digits, _⟩ := toString_digits n
  rw [printed, List.all_cons, isBlank_of_isDigit (digits c List.mem_cons_self), Bool.false_and]

/-- A printed number is read again. -/
theorem read_toString (n : ℕ) : read (toString n).toList = some (false, n) := by
  obtain ⟨c, rest, printed, digits, value⟩ := toString_digits n
  have first := digits c List.mem_cons_self
  have all : (c :: rest).takeWhile Char.isDigit = c :: rest :=
    List.takeWhile_eq_self_iff.mpr digits
  unfold read
  rw [printed,
    List.dropWhile_cons_of_neg (by rw [isBlank_of_isDigit first]; exact Bool.false_ne_true),
    signed_of_isDigit first]
  dsimp only
  rw [all]
  exact congrArg (fun n => some (false, n)) value

end Numerals
