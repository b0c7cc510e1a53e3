import Mathlib.Algebra.BigOperators.Group.List.Basic
import Mathlib.Algebra.Order.Ring.Int
import Mathlib.Tactic.Linarith
import Mathlib.Tactic.Ring

/-!
# Mixed radix numerals

The value of a list of digits, least significant first, over a list of bases.
Row-major array indices and grid numberings are such values.
-/

namespace MixedRadix

/-- One digit for each base, below it. -/
def Digits (bases digits : List Int) : Prop :=
  List.Forall₂ (fun b d => 0 ≤ d ∧ d < b) bases digits

def value : List Int → List Int → Int
  | b :: bs, d :: ds => d + b * value bs ds
  | _, _ => 0

theorem value_nonneg {bs ds : List Int} (h : Digits bs ds) : 0 ≤ value bs ds := by
  induction h with
  | nil => exact le_refl 0
  | @cons b d bs ds hd _ ih =>
    have hb : 0 ≤ b := by omega
    have := mul_nonneg hb ih
    rw [value]
    omega

theorem value_lt_prod {bs ds : List Int} (h : Digits bs ds) : value bs ds < bs.prod := by
  induction h with
  | nil => simp [value]
  | @cons b d bs ds hd _ ih =>
    have hb : 0 ≤ b := by omega
    have step : b * (value bs ds + 1) ≤ b * bs.prod := mul_le_mul_of_nonneg_left (by omega) hb
    rw [value, List.prod_cons]
    linarith

theorem value_inj {bs ds es : List Int} (hd : Digits bs ds) (he : Digits bs es)
    (h : value bs ds = value bs es) : ds = es := by
  induction hd generalizing es with
  | nil =>
    cases he
    rfl
  | @cons b d bs ds hd _ ih =>
    cases he with
    | @cons _ e _ es he hes =>
      simp only [value] at h
      have hq : value bs ds = value bs es := by
        have hb : b ≠ 0 := by omega
        have hl := Int.add_mul_ediv_left d (value bs ds) hb
        have hr := Int.add_mul_ediv_left e (value bs es) hb
        rw [Int.ediv_eq_zero_of_lt hd.1 hd.2] at hl
        rw [Int.ediv_eq_zero_of_lt he.1 he.2] at hr
        rw [h] at hl
        omega
      have hde : d = e := by
        rw [hq] at h
        omega
      rw [hde, ih hes hq]

/-- Every number below the product of positive bases is the value of some digits. -/
theorem exists_digits {bs : List Int} (hb : ∀ b ∈ bs, 0 < b) {k : Int} (h0 : 0 ≤ k)
    (hk : k < bs.prod) : ∃ ds, Digits bs ds ∧ value bs ds = k := by
  induction bs generalizing k with
  | nil =>
    have : k = 0 := by
      simp only [List.prod_nil] at hk
      omega
    exact ⟨[], .nil, by simp [value, this]⟩
  | cons b bs ih =>
    have hpos : 0 < b := hb b List.mem_cons_self
    have hq : k / b < bs.prod := Int.ediv_lt_of_lt_mul hpos (by rwa [mul_comm, ← List.prod_cons])
    obtain ⟨ds, hds, hv⟩ := ih (fun c hc => hb c (List.mem_cons_of_mem b hc))
      (Int.ediv_nonneg h0 (by omega)) hq
    refine ⟨k % b :: ds, .cons ⟨Int.emod_nonneg k (by omega), Int.emod_lt_of_pos k hpos⟩ hds, ?_⟩
    rw [value, hv]
    exact Int.emod_add_mul_ediv k b

end MixedRadix
