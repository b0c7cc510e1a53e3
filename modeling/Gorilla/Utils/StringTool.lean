import Gorilla.Basic
import Gorilla.Lib.Marked

/-!
# The string tools

The scanner of marked addresses.
-/

namespace Gorilla

/-- What a `char` array holds up to its first zero. -/
def cstr (s : List Char) : List Char := s.takeWhile (· ≠ '\x00')

namespace IPTOOL

/-- `char substr[100]`: the copy and its terminator have to fit. -/
def substr (token : List Char) : Except Stop String :=
  if token.length < 100 then .ok (String.ofList (cstr token))
  else .error (.undefined "substr past its end")

/-- Every turn leaves the scanner behind the separator it stops at, or at the end. -/
def splitFrom (seperatorH seperatorE : Char) : Nat → List Char → Except Stop (List String)
  | 0, _ => .error (.blocked "split")
  | _ + 1, [] => .ok []
  | turns + 1, s =>
    let content := (s.dropWhile (· ≠ seperatorH)).tail
    let token := content.takeWhile (· ≠ seperatorE)
    if token = [] then
      splitFrom seperatorH seperatorE turns (content.dropWhile (· ≠ seperatorE))
    else do
      let str ← substr token
      let result ← splitFrom seperatorH seperatorE turns (content.dropWhile (· ≠ seperatorE))
      return str :: result

/-- There are no more turns than characters. -/
def split (s : List Char) (seperatorH seperatorE : Char) : Except Stop (List String) :=
  splitFrom seperatorH seperatorE (s.length + 1) s

open Marked

theorem substr_eq_ok {token : List Char} {str : String} : substr token = .ok str ↔
    token.length < 100 ∧ str = String.ofList (cstr token) := by
  unfold substr
  split <;> simp_all [eq_comm]

variable {seperatorH seperatorE : Char}

/-- The words between the separators, each as a string. -/
theorem splitFrom_eq_ok (distinct : seperatorH ≠ seperatorE) {turns : Nat} {s : List Char}
    (h : s.length < turns) {strs : List String} :
    splitFrom seperatorH seperatorE turns s = .ok strs ↔
      (∀ token ∈ words seperatorH seperatorE s, token.length < 100) ∧
        strs = (words seperatorH seperatorE s).map fun token => String.ofList (cstr token) := by
  induction turns generalizing s strs with
  | zero => omega
  | succ turns ih =>
    cases s with
    | nil =>
      rw [splitFrom, words_nil]
      simp [eq_comm]
    | cons c s =>
      let content := ((c :: s).dropWhile (· ≠ seperatorH)).tail
      let rest := content.dropWhile (· ≠ seperatorE)
      have shorter : rest.length < turns := by
        have drop := List.length_dropWhile_le (· ≠ seperatorH) (c :: s)
        have drop' : rest.length ≤ content.length :=
          List.length_dropWhile_le (· ≠ seperatorE) content
        have tail : content.length = ((c :: s).dropWhile (· ≠ seperatorH)).length - 1 :=
          List.length_tail
        rw [List.length_cons] at h drop
        omega
      rw [words_eq distinct (c :: s)]
      show (if content.takeWhile (· ≠ seperatorE) = [] then _ else _) = _ ↔ _
      split
      · rename_i empty
        have none : emit (content.takeWhile (· ≠ seperatorE)) = [] := if_pos empty
        rw [none]
        exact ih shorter
      · rename_i some
        rw [emit_of_ne some]
        rw [bind_eq_ok]
        constructor
        · rintro ⟨str, hstr, hrest⟩
          obtain ⟨result, hresult, hall⟩ := bind_eq_ok.mp hrest
          cases hall
          obtain ⟨short, rfl⟩ := substr_eq_ok.mp hstr
          obtain ⟨shorts, rfl⟩ := (ih shorter).mp hresult
          exact ⟨List.forall_mem_cons.mpr ⟨short, shorts⟩, rfl⟩
        · rintro ⟨shorts, rfl⟩
          obtain ⟨short, shorts⟩ := List.forall_mem_cons.mp shorts
          exact ⟨_, substr_eq_ok.mpr ⟨short, rfl⟩,
            bind_eq_ok.mpr ⟨_, (ih shorter).mpr ⟨shorts, rfl⟩, rfl⟩⟩

theorem split_eq_ok (distinct : seperatorH ≠ seperatorE) {s : List Char} {strs : List String} :
    split s seperatorH seperatorE = .ok strs ↔
      (∀ token ∈ words seperatorH seperatorE s, token.length < 100) ∧
        strs = (words seperatorH seperatorE s).map fun token => String.ofList (cstr token) :=
  splitFrom_eq_ok distinct (Nat.lt_succ_self _)

end IPTOOL

end Gorilla
