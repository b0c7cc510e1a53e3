import Mathlib.Data.List.Basic
import Mathlib.Data.List.Nodup

/-!
# A list of activities

Activities are started one after the other, and each moves on by itself. What they hold together
changes by what the moving one holds.
-/

universe u v

namespace Activities

variable {α : Type u} {β : Type v} {as : List α} {a c : α} {i : ℕ}

/-- Everything is held as before but for what the moving activity held and holds. -/
theorem filterMap_set_perm (f : α → Option β) (h : as[i]? = some a) :
    ((as.set i c).filterMap f ++ (f a).toList).Perm (as.filterMap f ++ (f c).toList) := by
  induction as generalizing i with
  | nil => cases h
  | cons b as ih =>
    cases i with
    | zero =>
      cases h
      rw [List.set_cons_zero, List.filterMap_eq_flatMap_toList, List.flatMap_cons,
        List.filterMap_eq_flatMap_toList, List.flatMap_cons]
      refine List.perm_append_comm.trans ?_
      rw [List.append_assoc]
      exact List.perm_append_comm.append_left _
    | succ i =>
      have rest := ih h
      rw [List.set_cons_succ, List.filterMap_eq_flatMap_toList, List.flatMap_cons,
        List.filterMap_eq_flatMap_toList, List.flatMap_cons, List.append_assoc, List.append_assoc,
        ← List.filterMap_eq_flatMap_toList, ← List.filterMap_eq_flatMap_toList]
      exact rest.append_left _

theorem countP_set (p : α → Bool) (h : as[i]? = some a) :
    (as.set i c).countP p + (p a).toNat = as.countP p + (p c).toNat := by
  induction as generalizing i with
  | nil => cases h
  | cons b as ih =>
    cases i with
    | zero =>
      cases h
      rw [List.set_cons_zero, List.countP_cons, List.countP_cons]
      cases p a <;> cases p c <;> simp
    | succ i =>
      have rest := ih h
      rw [List.set_cons_succ, List.countP_cons, List.countP_cons]
      omega

/-- Two activities that hold the same are one. -/
theorem same_of_nodup {f : α → Option β} (nodup : (as.filterMap f).Nodup) {j : ℕ} {b : β}
    (hi : as[i]? = some a) (hj : as[j]? = some c) (ha : f a = some b) (hc : f c = some b) :
    i = j := by
  induction as generalizing i j with
  | nil => cases hi
  | cons first as ih =>
    have later : ∀ {k : ℕ} {x : α}, as[k]? = some x → f x = some b → b ∈ as.filterMap f :=
      fun hk hx => List.mem_filterMap.mpr ⟨_, List.mem_of_getElem? hk, hx⟩
    cases i with
    | zero =>
      cases hi
      cases j with
      | zero => rfl
      | succ j =>
        rw [List.filterMap_cons_some ha] at nodup
        exact absurd (later hj hc) (List.nodup_cons.mp nodup).1
    | succ i =>
      cases j with
      | zero =>
        cases hj
        rw [List.filterMap_cons_some hc] at nodup
        exact absurd (later hi ha) (List.nodup_cons.mp nodup).1
      | succ j =>
        have rest : (as.filterMap f).Nodup := by
          cases held : f first with
          | none => rwa [List.filterMap_cons_none held] at nodup
          | some d =>
            rw [List.filterMap_cons_some held] at nodup
            exact (List.nodup_cons.mp nodup).2
        exact congrArg (· + 1) (ih rest hi hj)

end Activities
