import Mathlib.Algebra.Group.Int.Defs
import Mathlib.Algebra.Group.Nat.Defs
import Mathlib.Data.List.AList
import Mathlib.Data.List.Sort

/-!
# Machine values and the ways a run can stop

Signed `int` arithmetic is checked: a result outside the 32-bit range is
undefined behaviour, not a wrapped value. `size_t` values are `UInt64`.
Pure fallible functions return `Except Stop`; functions over a state are
`EStateM Stop`, whose state survives an exception as it does in the source.
-/

universe u v

namespace Gorilla

/-- How a call can end other than by returning. Only `runtime_error` can be caught. -/
inductive Stop
  | runtime_error (what : String)
  | undefined (what : String)
  | blocked (on : String)
  deriving DecidableEq, Repr

instance {α : Type u} [DecidableEq α] : DecidableEq (Except Stop α)
  | .ok a, .ok b => decidable_of_iff (a = b) (by simp)
  | .error a, .error b => decidable_of_iff (a = b) (by simp)
  | .ok _, .error _ => isFalse (by simp)
  | .error _, .ok _ => isFalse (by simp)

def INT_MAX : Int := 2147483647

def INT_MIN : Int := -2147483648

def IsInt (z : Int) : Prop := INT_MIN ≤ z ∧ z ≤ INT_MAX

instance (z : Int) : Decidable (IsInt z) := inferInstanceAs (Decidable (_ ∧ _))

/-- The value of a signed `int` expression. -/
def int (z : Int) : Except Stop Int :=
  if IsInt z then .ok z else .error (.undefined "signed overflow")

theorem int_eq_ok {z r : Int} : int z = .ok r ↔ IsInt z ∧ r = z := by
  unfold int
  split <;> simp_all [eq_comm]

theorem int_of_isInt {z : Int} (h : IsInt z) : int z = .ok z := int_eq_ok.mpr ⟨h, rfl⟩

/-- The conversion of an `int` to `size_t`. -/
def size_t (z : Int) : UInt64 := UInt64.ofNat (z % 2 ^ 64).toNat

theorem size_t_toNat {z : Int} (h0 : 0 ≤ z) (h1 : z < 2 ^ 64) : (size_t z).toNat = z.toNat := by
  have hz : z % 2 ^ 64 = z := Int.emod_eq_of_lt h0 h1
  have hn : z.toNat < 2 ^ 64 := by omega
  rw [size_t, hz, UInt64.toNat_ofNat_of_lt' hn]

theorem size_t_mul (a b : Int) : size_t (a * b) = size_t a * size_t b := UInt64.ofInt_mul a b

theorem size_t_eq_zero {z : Int} : size_t z = 0 ↔ 2 ^ 64 ∣ z := by
  have small : (z % 2 ^ 64).toNat < 2 ^ 64 := by omega
  rw [size_t, Int.dvd_iff_emod_eq_zero, ← UInt64.toNat_inj, UInt64.toNat_ofNat_of_lt' small,
    UInt64.toNat_zero]
  omega

/-- The conversion of a `size_t` to `int`. -/
def sizeToInt (n : Nat) : Int := Int.bmod n (2 ^ 32)

theorem sizeToInt_le (n : Nat) : sizeToInt n ≤ n := by
  unfold sizeToInt Int.bmod
  dsimp only
  split <;> omega

/-- `std::array<T, DEFAULT_MAX_DIM>`: one entry for each axis, `x` first. -/
@[ext] structure Array3 (α : Type u) where
  x : α
  y : α
  z : α
  deriving DecidableEq, Repr

namespace Array3
variable {α : Type u} {β : Type v}

def toList (a : Array3 α) : List α := [a.x, a.y, a.z]

/-- The first three entries of a list, the axes it lacks filled with `d`. -/
def ofList (d : α) : List α → Array3 α
  | [] => ⟨d, d, d⟩
  | [x] => ⟨x, d, d⟩
  | [x, y] => ⟨x, y, d⟩
  | x :: y :: z :: _ => ⟨x, y, z⟩

def map (f : α → β) (a : Array3 α) : Array3 β := ⟨f a.x, f a.y, f a.z⟩

/-- What holds of every list of at most three axes, axis count by axis count. -/
@[elab_as_elim] theorem axes_cases {motive : (l : List α) → l.length ≤ 3 → Prop}
    (nil : ∀ few, motive [] few) (line : ∀ a few, motive [a] few)
    (plane : ∀ a b few, motive [a, b] few) (space : ∀ a b c few, motive [a, b, c] few)
    (l : List α) (few : l.length ≤ 3) : motive l few := by
  rcases l with _ | ⟨a, _ | ⟨b, _ | ⟨c, _ | ⟨d, l⟩⟩⟩⟩
  · exact nil few
  · exact line a few
  · exact plane a b few
  · exact space a b c few
  · simp only [List.length_cons] at few
    omega

end Array3

/-- A run of an `Except` computation that ends in a value runs each of its halves. -/
theorem bind_eq_ok {α : Type u} {β : Type u} {x : Except Stop α} {f : α → Except Stop β} {b : β} :
    x >>= f = .ok b ↔ ∃ a, x = .ok a ∧ f a = .ok b := by
  cases x <;> simp [bind, Except.bind]

/-- The call ends with an exception. -/
def Raises {α : Type} (x : Except Stop α) : Prop := ∃ what, x = .error (.runtime_error what)

theorem raises_bind {α β : Type} {x : Except Stop α} {f : α → Except Stop β} :
    Raises (x >>= f) ↔ Raises x ∨ ∃ a, x = .ok a ∧ Raises (f a) := by
  cases x <;> simp [Raises, bind, Except.bind]

@[simp] theorem not_raises_ok {α : Type} (a : α) : ¬ Raises (.ok a : Except Stop α) := nofun

@[simp] theorem not_raises_pure {α : Type} (a : α) : ¬ Raises (pure a : Except Stop α) := nofun

@[simp] theorem raises_map {α β : Type} {f : α → β} {x : Except Stop α} :
    Raises (f <$> x) ↔ Raises x := by
  cases x <;> simp [Raises, Functor.map, Except.map]

theorem raises_iff_error {α : Type} {x : Except Stop α} :
    Raises x ↔ ∃ stop, x = .error stop ∧ ∃ what, stop = .runtime_error what := by
  simp [Raises]

/-- An overflow is no exception. -/
@[simp] theorem not_raises_int (z : Int) : ¬ Raises (int z) := by
  unfold int
  split <;> simp [Raises]

theorem ok_or_error {ε α : Type u} (x : Except ε α) :
    (∃ a, x = .ok a) ∨ ∃ e, x = .error e := by
  cases x <;> simp

/-- A loop whose passes succeed while an invariant holds, and keep it, runs to its end. -/
theorem foldlM_ok {M X : Type u} {P : M → Prop} {f : M → X → Except Stop M} {l : List X}
    (step : ∀ x ∈ l, ∀ m, P m → ∃ m', f m x = .ok m' ∧ P m') {m : M} (hm : P m) :
    ∃ m', l.foldlM f m = .ok m' ∧ P m' := by
  induction l generalizing m with
  | nil => exact ⟨m, rfl, hm⟩
  | cons x l ih =>
    obtain ⟨n, hn, hp⟩ := step x List.mem_cons_self m hm
    obtain ⟨m', hm', hp'⟩ := ih (fun y hy => step y (List.mem_cons_of_mem x hy)) hp
    exact ⟨m', by rw [List.foldlM_cons]; exact bind_eq_ok.mpr ⟨n, hn, hm'⟩, hp'⟩

/-- A loop whose passes succeed or throw while an invariant holds ends in the same way. -/
theorem foldlM_ok_or_raises {M X : Type} {P : M → Prop} {f : M → X → Except Stop M} {l : List X}
    (step : ∀ x ∈ l, ∀ m, P m → (∃ m', f m x = .ok m' ∧ P m') ∨ Raises (f m x)) {m : M}
    (hm : P m) : (∃ m', l.foldlM f m = .ok m' ∧ P m') ∨ Raises (l.foldlM f m) := by
  induction l generalizing m with
  | nil => exact .inl ⟨m, rfl, hm⟩
  | cons x l ih =>
    rw [List.foldlM_cons]
    obtain ⟨n, hn, hp⟩ | raised := step x List.mem_cons_self m hm
    · obtain ⟨m', hm', hp'⟩ | raised := ih (fun y hy => step y (List.mem_cons_of_mem x hy)) hp
      · exact .inl ⟨m', bind_eq_ok.mpr ⟨n, hn, hm'⟩, hp'⟩
      · exact .inr (raises_bind.mpr (.inr ⟨n, hn, raised⟩))
    · exact .inr (raises_bind.mpr (.inl raised))

/-- The entries of a `std::map`, in the order its iterators visit them. -/
def sortedEntries {κ : Type u} {β : Type v} [LE κ] [DecidableLE κ] (m : AList fun _ : κ => β) :
    List (Σ _ : κ, β) :=
  m.entries.insertionSort fun a b => a.1 ≤ b.1

@[simp] theorem mem_sortedEntries {κ : Type u} {β : Type v} [DecidableEq κ] [LE κ]
    [DecidableLE κ] {m : AList fun _ : κ => β} {e : Σ _ : κ, β} :
    e ∈ sortedEntries m ↔ m.lookup e.1 = some e.2 := by
  rw [sortedEntries, List.mem_insertionSort]
  exact (AList.mem_lookup_iff (s := m)).symm

end Gorilla
