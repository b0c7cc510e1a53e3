import Mathlib.Data.Fintype.Lattice
import Mathlib.Logic.Function.Basic
import Mathlib.Order.Lattice.Nat

/-!
# Programs with collective operations

Every process runs the same list of stages. At a barrier it waits for all others, the root of a
gather waits for all, and at a broadcast all wait for the root. No process is told how far the
others have come.
-/

universe u

namespace Collective

inductive Kind (P : Type u)
  | alone
  | barrier
  | gather (root : P)
  | bcast (root : P)

variable {P : Type u}

/-- The process may leave the stage `k` of this kind, where each process stands at its place. -/
def Kind.Free (k : ℕ) (place : P → ℕ) (i : P) : Kind P → Prop
  | alone => True
  | barrier => ∀ j, k ≤ place j
  | gather root => i = root → ∀ j, k ≤ place j
  | bcast root => k ≤ place root

instance Kind.decidableFree [DecidableEq P] [Fintype P] (k : ℕ) (place : P → ℕ) (i : P) :
    (kind : Kind P) → Decidable (kind.Free k place i)
  | alone => isTrue trivial
  | barrier => inferInstanceAs (Decidable (∀ j, k ≤ place j))
  | gather root => inferInstanceAs (Decidable (i = root → ∀ j, k ≤ place j))
  | bcast root => inferInstanceAs (Decidable (k ≤ place root))

/-- Whoever has left a stage was free to. -/
def Ordered (program : List (Kind P)) (place : P → ℕ) : Prop :=
  ∀ k kind, program[k]? = some kind → ∀ i, k < place i → kind.Free k place i

variable {program : List (Kind P)} {place place' : P → ℕ} {kind : Kind P} {k : ℕ} {i root : P}

theorem Kind.Free.mono (further : ∀ j, place j ≤ place' j) (h : kind.Free k place i) :
    kind.Free k place' i := by
  cases kind with
  | alone => trivial
  | barrier => exact fun j => (h j).trans (further j)
  | gather root => exact fun own j => (h own j).trans (further j)
  | bcast root => exact Nat.le_trans h (further root)

theorem ordered_start : Ordered program fun _ => 0 := fun _ _ _ _ left =>
  absurd left (Nat.not_lt_zero _)

variable [DecidableEq P]

theorem le_advance (place : P → ℕ) (i j : P) :
    place j ≤ Function.update place i (place i + 1) j := by
  by_cases own : j = i
  · subst own
    rw [Function.update_self]
    exact Nat.le_succ _
  · rw [Function.update_of_ne own]

/-- A process that leaves a stage it is free to leave keeps the order. -/
theorem Ordered.advance (h : Ordered program place) (at_stage : program[place i]? = some kind)
    (free : kind.Free (place i) place i) :
    Ordered program (Function.update place i (place i + 1)) := by
  intro k kind' stage j left
  by_cases own : j = i
  · subst own
    rw [Function.update_self] at left
    by_cases last : k = place j
    · subst last
      obtain rfl := Option.some.inj (at_stage.symm.trans stage)
      exact free.mono (le_advance place j)
    · exact (h k kind' stage j (by omega)).mono (le_advance place j)
  · rw [Function.update_of_ne own] at left
    exact (h k kind' stage j left).mono (le_advance place i)

omit [DecidableEq P] in
/-- What a root sends after a gather is not received before all have come to the gather. -/
theorem Ordered.gathered {k' : ℕ} (h : Ordered program place)
    (gather : program[k]? = some (.gather root)) (bcast : program[k']? = some (.bcast root))
    (later : k < k') (left : k' < place i) (j : P) : k ≤ place j := by
  have sent : k' ≤ place root := h k' _ bcast i left
  exact h k _ gather root (by omega) rfl j

omit [DecidableEq P] in
/-- Nobody has to wait for a process that is further behind than all others. -/
theorem hindmost_free (hindmost : ∀ j, place i ≤ place j) : kind.Free (place i) place i := by
  cases kind with
  | alone => trivial
  | barrier => exact hindmost
  | gather root => exact fun _ => hindmost
  | bcast root => exact hindmost root

omit [DecidableEq P] in
/-- Some process can always go on, until all have come to the end. -/
theorem exists_free [Finite P] (behind : place i < program.length) :
    ∃ j kind, program[place j]? = some kind ∧ kind.Free (place j) place j := by
  have : Nonempty P := ⟨i⟩
  obtain ⟨j, hindmost⟩ := Finite.exists_min place
  have inside : place j < program.length := Nat.lt_of_le_of_lt (hindmost i) behind
  exact ⟨j, program[place j], List.getElem?_eq_getElem inside, hindmost_free hindmost⟩

end Collective
