import Mathlib.Data.List.SplitLengths

/-!
# Nested lists kept flat

A list of lists is kept as one list and the lengths of the parts, or as one list and the places
between the parts.
-/

universe u

namespace Slices

variable {α : Type u}

/-- The place where each part begins, and the one where the last part ends. -/
def offsets (begins : ℕ) : List (List α) → List ℕ
  | [] => [begins]
  | part :: parts => begins :: offsets (begins + part.length) parts

/-- What lies between one place and the next. -/
def slices : List ℕ → List α → List (List α)
  | i :: j :: places, l => (l.drop i).take (j - i) :: slices (j :: places) l
  | _, _ => []

theorem length_offsets (begins : ℕ) (parts : List (List α)) :
    (offsets begins parts).length = parts.length + 1 := by
  induction parts generalizing begins with
  | nil => rfl
  | cons part parts ih => rw [offsets, List.length_cons, ih, List.length_cons]

theorem offsets_le {begins i : ℕ} {parts : List (List α)} (mem : i ∈ offsets begins parts) :
    i ≤ begins + parts.flatten.length := by
  induction parts generalizing begins with
  | nil =>
    rw [List.eq_of_mem_singleton mem]
    exact Nat.le_add_right _ _
  | cons part parts ih =>
    rw [List.flatten_cons, List.length_append]
    rcases List.mem_cons.mp mem with rfl | later
    · exact Nat.le_add_right _ _
    · have below := ih later
      omega

theorem slices_offsets (before : List α) (parts : List (List α)) :
    slices (offsets before.length parts) (before ++ parts.flatten) = parts := by
  induction parts generalizing before with
  | nil => rfl
  | cons part parts ih =>
    have next := ih (before ++ part)
    rw [List.length_append, List.append_assoc] at next
    have first : ((before ++ (part :: parts).flatten).drop before.length).take
        (before.length + part.length - before.length) = part := by
      rw [List.drop_left, Nat.add_sub_cancel_left, List.flatten_cons, List.take_left]
    cases parts with
    | nil => rw [offsets, offsets, slices, first]; rfl
    | cons part' parts =>
      rw [offsets, offsets, slices, first]
      exact congrArg (part :: ·) next

/-- Parts of known lengths are split where they were joined. -/
theorem splitLengths_flatten (parts : List (List α)) :
    (parts.map List.length).splitLengths parts.flatten = parts := by
  induction parts with
  | nil => rfl
  | cons part parts ih =>
    rw [List.map_cons, List.flatten_cons, List.splitLengths_cons, List.take_left, List.drop_left,
      ih]

end Slices
