import Mathlib.Algebra.Order.Ring.Int
import Mathlib.Data.Nat.Periodic

/-!
# Periodic properties of numbers

In any stretch of whole periods a periodic property holds as often as it does in that many
periods from zero.
-/

namespace Periodic

variable {p : ℕ → Bool} {a : ℕ}

/-- One period, wherever it starts. -/
theorem countP_period (periodic : Function.Periodic p a) (start : ℕ) :
    (List.range' start a).countP p = Nat.count (fun k => p k) a := by
  have once := Nat.filter_multiset_Ico_card_eq_of_periodic start a (fun k => p k = true)
    (fun k => congrArg (· = true) (periodic k))
  have list : Multiset.Ico start (start + a) = (List.range' start a : Multiset ℕ) := by
    show ((List.range' start (start + a - start) : List ℕ) : Multiset ℕ) = _
    rw [Nat.add_sub_cancel_left]
  rw [← Multiset.countP_eq_card_filter, list, Multiset.coe_countP] at once
  rw [← once]
  exact List.countP_congr fun k _ => by rw [decide_eq_true_eq]

theorem countP_periods (periodic : Function.Periodic p a) (start n : ℕ) :
    (List.range' start (n * a)).countP p = n * Nat.count (fun k => p k) a := by
  induction n with
  | zero => simp
  | succ n ih =>
    have split : List.range' start ((n + 1) * a) =
        List.range' start (n * a) ++ List.range' (start + n * a) a := by
      rw [List.range'_append_1, Nat.succ_mul]
    rw [split, List.countP_append, ih, countP_period periodic, Nat.succ_mul]

end Periodic
