import Gorilla.Basic
import Gorilla.Lib.Numerals

/-!
# Numbers read from strings
-/

namespace Gorilla

open Numerals

/-- The text has no number, or one that is no int. -/
def stoi (str : String) : Except Stop Int :=
  match read str.toList with
  | none => .error (.runtime_error "stoi")
  | some (negative, n) =>
    let z : Int := if negative then -n else n
    if IsInt z then .ok z else .error (.runtime_error "stoi")

/-- `sstream >> value` of a `size_t`: blank text leaves it as it is, other text without a number
makes it 0, and a number that is too large makes it the largest. -/
def readSize (str : String) : Except Stop Nat :=
  if str.toList.all isBlank then .error (.undefined "a size_t that is not initialised")
  else
    match read str.toList with
    | none => .ok 0
    | some (negative, n) =>
      .ok (if 2 ^ 64 ≤ n then 2 ^ 64 - 1 else if negative then (2 ^ 64 - n) % 2 ^ 64 else n)

theorem stoi_toString (n : Nat) : stoi (toString n) =
    if (n : Int) ≤ INT_MAX then .ok (n : Int) else .error (.runtime_error "stoi") := by
  have fits : IsInt (n : Int) ↔ (n : Int) ≤ INT_MAX := by
    rw [IsInt, INT_MIN]
    omega
  rw [stoi, read_toString]
  simp only [Bool.false_eq_true, if_false, fits]

theorem readSize_toString {n : Nat} (fits : n < 2 ^ 64) : readSize (toString n) = .ok n := by
  rw [readSize, toString_not_blank, read_toString]
  simp only [Bool.false_eq_true, if_false, if_neg (Nat.not_le.mpr fits)]

end Gorilla
