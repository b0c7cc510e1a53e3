import Mathlib.Data.List.DropRight
import Mathlib.Data.List.Nodup
import Mathlib.Tactic.Basic

/-!
# Windows of a ring

A ring of `n` slots is read from a position on, around its end. A window no longer than the ring
meets every slot at most once.
-/

universe u

namespace Ring

variable {α : Type u} {f g : Nat → α} {n p i j k : Nat}

/-- A ring is not made without a slot. -/
theorem slots_pos {slots : Int} (h : ¬ slots < 1) : 0 < slots.toNat := by omega

/-- The values of `k` slots from `p` on. -/
def window (f : Nat → α) (n p k : Nat) : List α := (List.range k).map fun i => f ((p + i) % n)

@[simp] theorem length_window : (window f n p k).length = k := by simp [window]

theorem window_congr (same : ∀ i, i < k → f ((p + i) % n) = g ((p + i) % n)) :
    window f n p k = window g n p k :=
  List.map_congr_left fun i mem => same i (List.mem_range.mp mem)

/-- A window goes on where a shorter one ends. -/
theorem window_add (f : Nat → α) (n p j k : Nat) :
    window f n p (j + k) = window f n p j ++ window f n ((p + j) % n) k := by
  simp only [window, List.range_add, List.map_append, List.map_map]
  congr 1
  refine List.map_congr_left fun i _ => ?_
  rw [Function.comp_apply, Nat.mod_add_mod, Nat.add_assoc]

theorem window_succ (f : Nat → α) (n p k : Nat) :
    window f n p (k + 1) = window f n p k ++ [f ((p + k) % n)] := by
  simp [window, List.range_succ]

theorem window_cons (f : Nat → α) (n k : Nat) (hp : p < n) :
    window f n p (k + 1) = f p :: window f n ((p + 1) % n) k := by
  have first : window f n p 1 = [f p] := by simp [window, Nat.mod_eq_of_lt hp]
  rw [Nat.add_comm k 1, window_add, first]
  rfl

/-- The last `j` slots of a window. -/
theorem rtake_window (hj : j ≤ k) :
    (window f n p k).rtake j = window f n ((p + (k - j)) % n) j := by
  have parts := window_add f n p (k - j) j
  rw [Nat.sub_add_cancel hj] at parts
  rw [List.rtake, length_window, parts, List.drop_left' length_window]

/-- Two positions of a window that are the same slot are a whole turn apart. -/
theorem mod_ne (hi : i < j) (hj : j < i + n) : (p + i) % n ≠ (p + j) % n := by
  intro same
  have turn : (p + j - (p + i)) % n = 0 := Nat.sub_mod_eq_zero_of_mod_eq same.symm
  rw [Nat.add_sub_add_left, Nat.mod_eq_of_lt (by omega)] at turn
  omega

/-- A bounded list that drops its oldest values. -/
theorem rtake_concat {l : List α} (a : α) (fits : l.length ≤ k) :
    (l ++ [a]).rtake k = if l.length < k then l ++ [a] else (l ++ [a]).tail := by
  by_cases room : l.length < k
  · rw [if_pos room, List.rtake, List.length_append, List.length_singleton,
      Nat.sub_eq_zero_of_le room, List.drop_zero]
  · have full : l.length = k := by omega
    rw [if_neg room, List.rtake, List.length_append, List.length_singleton, full,
      Nat.add_sub_cancel_left, List.drop_one]

theorem rtake_rtake {l : List α} (hj : j ≤ k) : (l.rtake k).rtake j = l.rtake j := by
  simp only [List.rtake, List.length_drop, List.drop_drop]
  congr 1
  omega

/-- Keeping the last values after every addition keeps the last values of all. -/
theorem rtake_rtake_concat (l : List α) (a : α) :
    (l.rtake k ++ [a]).rtake k = (l ++ [a]).rtake k := by
  cases k with
  | zero => rw [List.rtake_zero, List.rtake_zero]
  | succ k =>
    rw [List.rtake_concat_succ, List.rtake_concat_succ]
    congr 1
    simp only [List.rtake, List.length_drop, List.drop_drop]
    congr 1
    omega

/-! ## Two positions -/

/-- The steps from one position of the ring on to another. -/
def gap (n t h : Nat) : Nat := if h = t then 0 else if t < h then h - t else n + h - t

section gap
variable {t h : Nat} (ht : t < n) (hh : h < n)

include ht hh

theorem gap_lt : gap n t h < n := by
  unfold gap
  split_ifs <;> omega

theorem add_gap : (t + gap n t h) % n = h := by
  unfold gap
  by_cases empty : h = t
  · rw [if_pos empty, Nat.add_zero, Nat.mod_eq_of_lt ht, empty]
  · rw [if_neg empty]
    by_cases ahead : t < h
    · rw [if_pos ahead, Nat.add_sub_cancel' ahead.le, Nat.mod_eq_of_lt hh]
    · have turn : t + (n + h - t) = h + n := by omega
      rw [if_neg ahead, turn, Nat.add_mod_right, Nat.mod_eq_of_lt hh]

/-- The steps are told by where they lead. -/
theorem gap_eq (hk : k < n) (leads : (t + k) % n = h) : gap n t h = k := by
  by_contra ne
  have lt := gap_lt ht hh
  have same := (add_gap ht hh).trans leads.symm
  rcases Nat.lt_or_gt_of_ne ne with less | more
  · exact mod_ne less (by omega) same
  · exact mod_ne more (by omega) same.symm

/-- One step more leads around the ring when there is one slot left. -/
theorem next_eq_iff : (h + 1) % n = t ↔ gap n t h + 1 = n := by
  have lt := gap_lt ht hh
  have moved : (h + 1) % n = (t + (gap n t h + 1)) % n := by
    rw [← Nat.add_assoc, Nat.add_mod (t + gap n t h), add_gap ht hh, Nat.add_mod_mod]
  rw [moved]
  constructor
  · intro same
    by_contra ne
    have apart : (t + 0) % n ≠ (t + (gap n t h + 1)) % n := mod_ne (Nat.succ_pos _) (by omega)
    rw [Nat.add_zero, Nat.mod_eq_of_lt ht] at apart
    exact apart same.symm
  · intro full
    rw [full, Nat.add_mod_right, Nat.mod_eq_of_lt ht]

end gap

/-! ## Values in a ring -/

/-- From a position on the slots hold the values, and the others are empty. -/
def Holds (f : Nat → Option α) (n p : Nat) (l : List α) : Prop :=
  l.length ≤ n ∧ ∀ i, i < n → f ((p + i) % n) = l[i]?

namespace Holds
variable {f g : Nat → Option α} {l : List α} {a : α}

theorem nil (empty : ∀ i, f i = none) (n p : Nat) : Holds f n p [] :=
  ⟨Nat.zero_le n, fun i _ => by rw [empty, List.getElem?_nil]⟩

/-- A ring with room for one more value has an empty slot behind the last. -/
theorem behind (h : Holds f n p l) (room : l.length < n) : f ((p + l.length) % n) = none := by
  rw [h.2 _ room]
  exact List.getElem?_eq_none (Nat.le_refl _)

theorem push (h : Holds f n p l) (room : l.length < n)
    (written : ∀ j, g j = if j = (p + l.length) % n then some a else f j) :
    Holds g n p (l ++ [a]) := by
  refine ⟨by rw [List.length_append]; exact room, fun i hi => ?_⟩
  rw [written]
  rcases Nat.lt_trichotomy i l.length with less | rfl | more
  · rw [if_neg (mod_ne less (by omega)), h.2 i hi, List.getElem?_append_left less]
  · rw [if_pos rfl, List.getElem?_concat_length]
  · have apart : (p + i) % n ≠ (p + l.length) % n := (mod_ne more (by omega)).symm
    rw [if_neg apart, h.2 i hi, List.getElem?_eq_none more.le]
    exact (List.getElem?_eq_none (by rw [List.length_append]; exact more)).symm

theorem first (h : Holds f n p (a :: l)) (hp : p < n) : f p = some a := by
  have here := h.2 0 (Nat.zero_lt_of_lt hp)
  rwa [Nat.add_zero, Nat.mod_eq_of_lt hp] at here

theorem pop (h : Holds f n p (a :: l)) (hp : p < n)
    (cleared : ∀ j, g j = if j = p then none else f j) : Holds g n ((p + 1) % n) l := by
  have len : l.length + 1 ≤ n := h.1
  refine ⟨by omega, fun i hi => ?_⟩
  rw [Nat.mod_add_mod, Nat.add_assoc, Nat.add_comm 1 i, cleared]
  by_cases last : i + 1 = n
  · rw [last, Nat.add_mod_right, Nat.mod_eq_of_lt hp, if_pos rfl]
    exact (List.getElem?_eq_none (by omega)).symm
  · have apart : (p + (i + 1)) % n ≠ p := by
      have ne := mod_ne (p := p) (n := n) (Nat.succ_pos i) (by omega : i + 1 < 0 + n)
      rw [Nat.add_zero, Nat.mod_eq_of_lt hp] at ne
      exact ne.symm
    rw [if_neg apart, h.2 (i + 1) (by omega), List.getElem?_cons_succ]

/-- A value in a slot is one of the values. -/
theorem mem (h : Holds f n p l) (hp : p < n) {j : Nat} (hj : j < n) (held : f j = some a) :
    a ∈ l := by
  have slot := h.2 _ (gap_lt hp hj)
  rw [add_gap hp hj, held] at slot
  exact List.mem_of_getElem? slot.symm

theorem countP_lt {k : Nat} (hk : k ≤ n) : (List.range n).countP (fun i => decide (i < k)) = k := by
  obtain ⟨rest, rfl⟩ := Nat.exists_eq_add_of_le hk
  have below : (List.range k).countP (fun i => decide (i < k)) = k := by
    rw [List.countP_eq_length.mpr (by simp), List.length_range]
  rw [List.range_add, List.countP_append, below, List.countP_map, List.countP_eq_zero.mpr (by simp)]
  rfl

/-- As many slots are taken as there are values. -/
theorem count (h : Holds f n p l) (hp : p < n) :
    (List.range n).countP (fun j => (f j).isSome) = l.length := by
  have turn : ((List.range n).map fun i => (p + i) % n).Perm (List.range n) := by
    have once : ((List.range n).map fun i => (p + i) % n).Nodup := by
      refine List.Nodup.map_on ?_ List.nodup_range
      intro i hi j hj same
      rw [List.mem_range] at hi hj
      by_contra ne
      rcases Nat.lt_or_gt_of_ne ne with less | more
      · exact mod_ne less (by omega) same
      · exact mod_ne more (by omega) same.symm
    refine (List.perm_ext_iff_of_nodup once List.nodup_range).mpr fun j => ?_
    rw [List.mem_map, List.mem_range]
    constructor
    · rintro ⟨i, _, rfl⟩
      exact Nat.mod_lt _ (Nat.zero_lt_of_lt hp)
    · intro hj
      exact ⟨gap n p j, List.mem_range.mpr (gap_lt hp hj), add_gap hp hj⟩
  have taken : ∀ i ∈ List.range n,
      (((fun j => (f j).isSome) ∘ fun i => (p + i) % n) i = true ↔
        decide (i < l.length) = true) := by
    intro i hi
    rw [Function.comp_apply, h.2 i (List.mem_range.mp hi), isSome_getElem?, decide_eq_true_iff]
  rw [← turn.countP_eq, List.countP_map, List.countP_congr taken, countP_lt h.1]

end Holds

end Ring
