import Mathlib.Algebra.Order.Ring.Int
import Mathlib.Data.List.Basic

/-!
# Values of a fixed width

A value is a fixed number of symbols, and an array is the values one after the other. Each value
is found again at a multiple of the width.
-/

universe u v

structure Codec (α : Type u) (β : Type v) where
  width : ℕ
  encode : α → List β
  decode : List β → α
  Fits : α → Prop
  width_pos : 0 < width
  length_encode : ∀ a, (encode a).length = width
  decode_encode : ∀ a, Fits a → decode (encode a) = a

namespace Codec

variable {α : Type u} {β : Type v} (c : Codec α β)

def pack (l : List α) : List β := l.flatMap c.encode

/-- The symbols of the value at a position. -/
def slot (symbols : List β) (i : ℕ) : List β := (symbols.drop (i * c.width)).take c.width

def unpack (symbols : List β) : List α :=
  (List.range (symbols.length / c.width)).map fun i => c.decode (c.slot symbols i)

variable {c} {l : List α}

theorem length_pack (l : List α) : (c.pack l).length = l.length * c.width := by
  induction l with
  | nil => rw [List.length_nil, Nat.zero_mul]; rfl
  | cons a l ih =>
    rw [pack, List.flatMap_cons, List.length_append, c.length_encode, List.length_cons,
      Nat.succ_mul, Nat.add_comm]
    exact congrArg (· + c.width) ih

theorem pack_cons (a : α) (l : List α) : c.pack (a :: l) = c.encode a ++ c.pack l := rfl

theorem slot_pack {i : ℕ} (h : i < l.length) : c.slot (c.pack l) i = c.encode l[i] := by
  induction l generalizing i with
  | nil => cases h
  | cons a l ih =>
    have first := c.length_encode a
    cases i with
    | zero => rw [slot, pack_cons, Nat.zero_mul, List.drop_zero, List.take_append_of_le_length
        (Nat.le_of_eq first.symm), List.take_of_length_le (Nat.le_of_eq first),
        List.getElem_cons_zero]
    | succ i =>
      have next : (i + 1) * c.width = (c.encode a).length + i * c.width := by
        rw [first, Nat.succ_mul, Nat.add_comm]
      rw [slot, pack_cons, next, List.drop_append, List.drop_eq_nil_of_le (Nat.le_add_right _ _),
        List.nil_append, Nat.add_sub_cancel_left, List.getElem_cons_succ]
      exact ih (Nat.lt_of_succ_lt_succ h)

theorem decode_slot {i : ℕ} (h : i < l.length) (fits : ∀ a ∈ l, c.Fits a) :
    c.decode (c.slot (c.pack l) i) = l[i] := by
  rw [slot_pack h, c.decode_encode _ (fits _ (List.getElem_mem h))]

theorem unpack_pack (fits : ∀ a ∈ l, c.Fits a) : c.unpack (c.pack l) = l := by
  rw [unpack, length_pack, Nat.mul_div_cancel _ c.width_pos]
  refine List.ext_getElem (by rw [List.length_map, List.length_range]) fun i _ h => ?_
  rw [List.getElem_map, List.getElem_range]
  exact decode_slot h fits

/-! ## Integers -/

/-- The bytes of a number, the least one first. -/
def bytes : ℕ → ℕ → List (Option UInt8)
  | 0, _ => []
  | n + 1, m => some (UInt8.ofNat (m % 256)) :: bytes n (m / 256)

/-- A byte that is not known counts as zero. -/
def value : List (Option UInt8) → ℕ
  | [] => 0
  | b :: rest => (b.getD 0).toNat + 256 * value rest

theorem length_bytes (n m : ℕ) : (bytes n m).length = n := by
  induction n generalizing m with
  | zero => rfl
  | succ n ih => rw [bytes, List.length_cons, ih]

theorem value_bytes (n m : ℕ) : value (bytes n m) = m % 256 ^ n := by
  have size : UInt8.size = 256 := rfl
  induction n generalizing m with
  | zero => rw [bytes, value, pow_zero, Nat.mod_one]
  | succ n ih =>
    have byte : (UInt8.ofNat (m % 256)).toNat = m % 256 :=
      UInt8.toNat_ofNat_of_lt' (by omega)
    rw [bytes, value, ih, Option.getD_some, byte, pow_succ', Nat.mod_mul]

/-- Integers in two's complement. -/
def signed (n : ℕ) (pos : 0 < n) : Codec ℤ (Option UInt8) where
  width := n
  encode z := bytes n (z % (256 ^ n : ℕ)).toNat
  decode symbols := Int.bmod (value symbols) (256 ^ n)
  Fits z := -(256 ^ n : ℕ) ≤ z * 2 ∧ z * 2 < (256 ^ n : ℕ)
  width_pos := pos
  length_encode z := length_bytes n _
  decode_encode z fits := by
    have some_bytes : 0 < 256 ^ n := Nat.pow_pos (by decide)
    have nonneg : 0 ≤ z % (256 ^ n : ℕ) := Int.emod_nonneg z (by omega)
    have below : (z % (256 ^ n : ℕ)).toNat < 256 ^ n := by
      have less := Int.emod_lt_of_pos z (show (0 : ℤ) < (256 ^ n : ℕ) by omega)
      omega
    rw [value_bytes, Nat.mod_eq_of_lt below, Int.toNat_of_nonneg nonneg, Int.emod_bmod]
    exact Int.bmod_eq_of_le_mul_two fits.1 fits.2

theorem fits_signed {n : ℕ} {pos : 0 < n} {z : ℤ} {bound : ℕ} (most : 256 ^ n = bound)
    (inside : -bound ≤ z * 2 ∧ z * 2 < bound) : (signed n pos).Fits z := by
  subst most
  exact inside

end Codec
