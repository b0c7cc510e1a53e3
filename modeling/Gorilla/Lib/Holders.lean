import Mathlib.Data.List.Nodup
import Mathlib.Logic.Function.Basic

/-!
# Names held in registers

Each place has a register of the names that are live there, and each activity holds at most
one name. The registers mirror what is held.
-/

universe u v w

namespace Holders

variable {ν : Type u} {κ : Type v} {ι : Type w}

/-- A name is live where some activity holds it, and no two activities hold the same. -/
structure Mirrors (live : ν → List κ) (holds : ι → Option (ν × κ)) : Prop where
  live_iff : ∀ v n, n ∈ live v ↔ ∃ i, holds i = some (v, n)
  unique : ∀ i j x, holds i = some x → holds j = some x → i = j
  nodup : ∀ v, (live v).Nodup

variable {live : ν → List κ} {holds : ι → Option (ν × κ)} {i : ι} {v : ν} {n : κ}

theorem Mirrors.congr {live' : ν → List κ} {holds' : ι → Option (ν × κ)}
    (h : Mirrors live holds) (hl : ∀ v, live' v = live v) (hh : ∀ i, holds' i = holds i) :
    Mirrors live' holds' := by
  rw [funext hl, funext hh]
  exact h

variable [DecidableEq ν] [DecidableEq κ] [DecidableEq ι]

omit [DecidableEq κ] in
/-- An activity that holds nothing takes a name that is not live. -/
theorem Mirrors.take (h : Mirrors live holds) (idle : holds i = none) (free : n ∉ live v) :
    Mirrors (Function.update live v (live v ++ [n]))
      (Function.update holds i (some (v, n))) := by
  have others : ∀ j x, j ≠ i → (Function.update holds i (some (v, n)) j = some x ↔
      holds j = some x) := by
    intro j x hj
    rw [Function.update_of_ne hj]
  refine ⟨fun w m => ?_, fun j k x hj hk => ?_, fun w => ?_⟩
  · have mem : m ∈ Function.update live v (live v ++ [n]) w ↔
        m ∈ live w ∨ (w = v ∧ m = n) := by
      by_cases hw : w = v
      · subst hw
        simp
      · simp [hw]
    rw [mem, h.live_iff]
    constructor
    · rintro (⟨j, hj⟩ | ⟨rfl, rfl⟩)
      · have hne : j ≠ i := by
          rintro rfl
          rw [idle] at hj
          cases hj
        exact ⟨j, (others j _ hne).mpr hj⟩
      · exact ⟨i, Function.update_self ..⟩
    · rintro ⟨j, hj⟩
      by_cases hji : j = i
      · subst hji
        rw [Function.update_self] at hj
        cases hj
        exact .inr ⟨rfl, rfl⟩
      · exact .inl ⟨j, (others j _ hji).mp hj⟩
  · have fresh : ∀ k, k ≠ i → holds k ≠ some (v, n) := fun k _ hk =>
      free ((h.live_iff v n).mpr ⟨k, hk⟩)
    by_cases hji : j = i <;> by_cases hki : k = i
    · rw [hji, hki]
    · subst hji
      rw [Function.update_self] at hj
      rw [others k x hki, ← hj] at hk
      exact absurd hk (fresh k hki)
    · subst hki
      rw [Function.update_self] at hk
      rw [others j x hji, ← hk] at hj
      exact absurd hj (fresh j hji)
    · exact h.unique j k x ((others j x hji).mp hj) ((others k x hki).mp hk)
  · by_cases hw : w = v
    · subst hw
      rw [Function.update_self]
      exact List.nodup_append.mpr ⟨h.nodup w, List.nodup_singleton n, by
        intro a ha b hb
        rw [List.mem_singleton.mp hb]
        rintro rfl
        exact free ha⟩
    · rw [Function.update_of_ne hw]
      exact h.nodup w

/-- The activity that holds a name gives it up. -/
theorem Mirrors.drop (h : Mirrors live holds) (hi : holds i = some (v, n)) :
    Mirrors (Function.update live v ((live v).erase n)) (Function.update holds i none) := by
  refine ⟨fun w m => ?_, fun j k x hj hk => ?_, fun w => ?_⟩
  · have mem : m ∈ Function.update live v ((live v).erase n) w ↔
        m ∈ live w ∧ ¬ (w = v ∧ m = n) := by
      by_cases hw : w = v
      · subst hw
        rw [Function.update_self, (h.nodup w).mem_erase_iff]
        simp [and_comm]
      · simp [hw]
    rw [mem, h.live_iff]
    constructor
    · rintro ⟨⟨j, hj⟩, hne⟩
      refine ⟨j, ?_⟩
      rw [Function.update_of_ne]
      · exact hj
      · rintro rfl
        rw [hi] at hj
        cases hj
        exact hne ⟨rfl, rfl⟩
    · rintro ⟨j, hj⟩
      by_cases hji : j = i
      · subst hji
        rw [Function.update_self] at hj
        cases hj
      · rw [Function.update_of_ne hji] at hj
        refine ⟨⟨j, hj⟩, ?_⟩
        rintro ⟨rfl, rfl⟩
        exact hji (h.unique j i _ hj hi)
  · have before : ∀ j, Function.update holds i none j = some x → holds j = some x := by
      intro j hj
      by_cases hji : j = i
      · subst hji
        rw [Function.update_self] at hj
        cases hj
      · rwa [Function.update_of_ne hji] at hj
    exact h.unique j k x (before j hj) (before k hk)
  · by_cases hw : w = v
    · subst hw
      rw [Function.update_self]
      exact (h.nodup w).erase n
    · rw [Function.update_of_ne hw]
      exact h.nodup w

end Holders
