import Mathlib.Algebra.BigOperators.Group.Finset.Basic
import Mathlib.Data.List.AList

/-!
# Totals over a map

The sum of a measure over the entries of a finite map, and what insertions and erasures do
to it.
-/

universe u v w

namespace Totals

variable {κ : Type u} {β : Type v} {M : Type w} [AddCommMonoid M] {f : κ → β → M}

def total (f : κ → β → M) (m : AList fun _ : κ => β) : M :=
  (m.entries.map fun e => f e.1 e.2).sum

variable [DecidableEq κ] {m : AList fun _ : κ => β} {k : κ} {v : β}

/-- What is stored under a key adds to the total. -/
def share (f : κ → β → M) (m : AList fun _ : κ => β) (k : κ) : M :=
  match m.lookup k with
  | none => 0
  | some v => f k v

theorem share_none (h : m.lookup k = none) : share f m k = 0 := by rw [share, h]

theorem share_some (h : m.lookup k = some v) : share f m k = f k v := by rw [share, h]

theorem share_add_total_erase (k : κ) : share f m k + total f (m.erase k) = total f m := by
  cases h : m.lookup k with
  | none =>
    have fresh : k ∉ m.entries.keys := fun mem =>
      absurd (AList.lookup_isSome.mpr (AList.mem_keys.mpr mem)) (by rw [h]; simp)
    rw [share_none h, zero_add, total, total,
      show (m.erase k).entries = m.entries from List.kerase_of_notMem_keys fresh]
  | some v =>
    have mem : k ∈ m.entries.keys := AList.mem_keys.mp (AList.lookup_isSome.mp (by rw [h]; rfl))
    obtain ⟨w, before, after, fresh, split, rest⟩ := List.exists_of_kerase mem
    have own : w = v := by
      have stored : m.lookup k = some w := by
        rw [AList.lookup, split, List.dlookup_append, List.dlookup_eq_none.mpr fresh]
        simp
      exact Option.some.inj (stored.symm.trans h)
    have erased : (m.erase k).entries = before ++ after := rest
    rw [share_some h, total, total, erased, split, ← own]
    simp only [List.map_append, List.map_cons, List.sum_append, List.sum_cons]
    exact add_left_comm _ _ _

theorem total_insert : total f (m.insert k v) = f k v + total f (m.erase k) := by
  rw [total, AList.entries_insert, List.map_cons, List.sum_cons]
  rfl

/-- The old value of the key goes, the new one comes. -/
theorem share_add_total_insert :
    share f m k + total f (m.insert k v) = f k v + total f m := by
  rw [total_insert, add_left_comm, share_add_total_erase]

theorem total_insert_new (h : m.lookup k = none) :
    total f (m.insert k v) = f k v + total f m := by
  rw [← share_add_total_insert, share_none h, zero_add]

/-- The map once the keys are erased, one after the other. -/
def eraseAll (m : AList fun _ : κ => β) (ks : List κ) : AList fun _ : κ => β :=
  ks.foldl (fun m k => m.erase k) m

theorem lookup_eraseAll (ks : List κ) (k : κ) :
    (eraseAll m ks).lookup k = if k ∈ ks then none else m.lookup k := by
  induction ks generalizing m with
  | nil => simp [eraseAll]
  | cons k' ks ih =>
    rw [show eraseAll m (k' :: ks) = eraseAll (m.erase k') ks from rfl, ih]
    by_cases h : k = k'
    · subst h
      simp
    · simp [h, AList.lookup_erase_ne h]

/-- A key that is named twice is erased once. -/
theorem sum_share_add_total_eraseAll (ks : List κ) :
    ∑ k ∈ ks.toFinset, share f m k + total f (eraseAll m ks) = total f m := by
  induction ks using List.reverseRecOn with
  | nil => simp [eraseAll]
  | append_singleton ks k ih =>
    rw [show eraseAll m (ks ++ [k]) = (eraseAll m ks).erase k by
        rw [eraseAll, List.foldl_append]; rfl,
      show (ks ++ [k]).toFinset = insert k ks.toFinset by
        ext; simp]
    have last := share_add_total_erase (f := f) (m := eraseAll m ks) k
    by_cases h : k ∈ ks
    · rw [Finset.insert_eq_of_mem (List.mem_toFinset.mpr h), ← ih, ← last,
        share_none (by rw [lookup_eraseAll, if_pos h]), zero_add]
    · have kept : share f (eraseAll m ks) k = share f m k := by
        rw [share, share, lookup_eraseAll, if_neg h]
      rw [Finset.sum_insert (fun mem => h (List.mem_toFinset.mp mem)), ← ih, ← last, kept,
        add_comm (share f m k), add_assoc]

end Totals
