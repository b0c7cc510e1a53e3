import Mathlib.Data.List.Infix

/-!
# Words joined by a separator

Where a separated word can occur in another one: its separator meets one of the other's.
-/

universe u

namespace Separated

variable {α : Type u} {sep : α} {name part left right : List α}

/-- A separated word occurs before the last separator, or across it. -/
theorem infix_joined (hpart : sep ∉ part) (hright : sep ∉ right) :
    name ++ sep :: part <:+: left ++ sep :: right ↔
      name ++ sep :: part <:+: left ∨ (name <:+ left ∧ part <+: right) := by
  constructor
  · rintro ⟨before, after, h⟩
    have split : (before ++ name) ++ (sep :: (part ++ after)) = left ++ (sep :: right) := by
      simpa using h
    rcases List.append_eq_append_iff.mp split with ⟨mid, rfl, hmid⟩ | ⟨mid, hleft, hmid⟩
    · cases mid with
      | nil =>
        refine .inr ⟨⟨before, by simp⟩, after, ?_⟩
        simpa using hmid
      | cons c mid =>
        obtain ⟨rfl, hrest⟩ := List.cons.inj hmid
        -- the separator is not in the part, so the part ends before it
        rcases List.append_eq_append_iff.mp hrest with ⟨rest, rfl, _⟩ | ⟨rest, rfl, hright⟩
        · exact .inl ⟨before, rest, by simp⟩
        · cases rest with
          | nil => exact .inl ⟨before, [], by simp⟩
          | cons d rest =>
            obtain ⟨rfl, _⟩ := List.cons.inj hright
            exact absurd (by simp) hpart
    · cases mid with
      | nil =>
        refine .inr ⟨⟨before, by simpa using hleft⟩, after, ?_⟩
        simpa using hmid.symm
      | cons c mid =>
        obtain ⟨rfl, rfl⟩ := List.cons.inj hmid
        exact absurd (by simp) hright
  · rintro (h | ⟨⟨before, rfl⟩, after, rfl⟩)
    · exact h.trans (List.prefix_append _ _).isInfix
    · exact ⟨before, after, by simp⟩

end Separated
