import Mathlib.Algebra.BigOperators.Group.Finset.Basic
import Mathlib.Algebra.GroupWithZero.Nat
import Mathlib.Algebra.Order.BigOperators.Group.Finset
import Mathlib.Data.Multiset.Lattice
import Mathlib.Logic.Function.Basic
import Mathlib.Order.Lattice.Nat

/-!
# Reservations

A job takes its size from a balance twice: first to fill the slot of its key, which gives back
what the slot held, and then for what it keeps.
-/

universe u v

namespace Reserve

section Lists
variable {α : Type u} {l : List α} {n : ℕ} {x y : α}

/-- The new entry comes into a sum, the old one goes. -/
theorem sum_map_set (f : α → ℕ) (h : l[n]? = some x) :
    ((l.set n y).map f).sum + f x = (l.map f).sum + f y := by
  induction l generalizing n with
  | nil => simp at h
  | cons a l ih =>
    cases n with
    | zero =>
      obtain rfl : a = x := by simpa using h
      simp only [List.set_cons_zero, List.map_cons, List.sum_cons]
      omega
    | succ n =>
      have rest := ih (by simpa using h)
      simp only [List.set_cons_succ, List.map_cons, List.sum_cons]
      omega

theorem map_set_of_eq {β : Type v} (f : α → β) (h : l[n]? = some x) (same : f y = f x) :
    (l.set n y).map f = l.map f := by
  apply List.ext_getElem?
  intro m
  rw [List.getElem?_map, List.getElem?_map, List.getElem?_set]
  by_cases own : n = m
  · subst own
    rw [if_pos rfl, h]
    split
    · rw [Option.map_some, Option.map_some, same]
    · rename_i past
      rw [List.getElem?_eq_none (Nat.le_of_not_lt past)] at h
      cases h
  · rw [if_neg own]

theorem le_sum_map (f : α → ℕ) (h : x ∈ l) : f x ≤ (l.map f).sum :=
  List.single_le_sum (fun _ _ => Nat.zero_le _) _ (List.mem_map_of_mem h)

/-- The largest measure of an entry. -/
def largest (f : α → ℕ) (l : List α) : ℕ := (l.map f : Multiset ℕ).sup

theorem le_largest (f : α → ℕ) (h : x ∈ l) : f x ≤ largest f l :=
  Multiset.le_sup (Multiset.mem_coe.mpr (List.mem_map_of_mem h))

theorem largest_set_le (f : α → ℕ) (h : l[n]? = some x) (le : f y ≤ f x) :
    largest f (l.set n y) ≤ largest f l := by
  apply Multiset.sup_le.mpr
  intro m hm
  obtain ⟨z, hz, rfl⟩ := List.mem_map.mp (Multiset.mem_coe.mp hm)
  rcases List.mem_or_eq_of_mem_set hz with old | rfl
  · exact le_largest f old
  · exact le.trans (le_largest f (List.mem_of_getElem? h))

end Lists

inductive Stage
  | waiting
  | filled
  | ended
  deriving DecidableEq

structure Job (κ : Type u) where
  key : κ
  size : ℕ
  stage : Stage

variable {κ : Type u}

/-- What a job keeps is taken when its slot is filled. -/
def Job.keeps (j : Job κ) : ℕ := if j.stage = .filled then j.size else 0

structure Account (κ : Type u) where
  free : ℕ
  slot : κ → ℕ
  jobs : List (Job κ)

variable [DecidableEq κ]

def Job.waits (k : κ) (j : Job κ) : ℕ := if j.key = k ∧ j.stage = .waiting then j.size else 0

namespace Account

/-- The most the jobs of a key that wait can take: they keep all their sizes, and the largest
comes last to the slot. -/
def growth (a : Account κ) (k : κ) : ℕ :=
  (a.jobs.map (Job.waits k)).sum + largest (Job.waits k) a.jobs - a.slot k

def keys (a : Account κ) : Finset κ := (a.jobs.map Job.key).toFinset

/-- The most that all jobs together can take. -/
def demand (a : Account κ) : ℕ := ∑ k ∈ a.keys, a.growth k + (a.jobs.map Job.keeps).sum

def Covered (a : Account κ) : Prop := a.demand ≤ a.free

instance (a : Account κ) : Decidable a.Covered := inferInstanceAs (Decidable (_ ≤ _))

def fill (a : Account κ) (n : ℕ) (j : Job κ) : Account κ where
  free := a.free + a.slot j.key - j.size
  slot := Function.update a.slot j.key j.size
  jobs := a.jobs.set n { j with stage := .filled }

def keep (a : Account κ) (n : ℕ) (j : Job κ) : Account κ where
  free := a.free - j.size
  slot := a.slot
  jobs := a.jobs.set n { j with stage := .ended }

def drop (a : Account κ) (n : ℕ) (j : Job κ) : Account κ :=
  { a with jobs := a.jobs.set n { j with stage := .ended } }

variable {a b : Account κ} {n : ℕ} {j j' : Job κ}

theorem growth_le_demand (h : j ∈ a.jobs) : a.growth j.key ≤ a.demand := by
  have mem : j.key ∈ a.keys := List.mem_toFinset.mpr (List.mem_map_of_mem h)
  have part : a.growth j.key ≤ ∑ k ∈ a.keys, a.growth k :=
    Finset.single_le_sum (fun _ _ => Nat.zero_le _) mem
  exact part.trans (Nat.le_add_right _ _)

/-- A job that moves on changes the demand at its own key only. -/
theorem demand_set (h : a.jobs[n]? = some j) (key : j'.key = j.key)
    (jobs : b.jobs = a.jobs.set n j') (slot : ∀ k, k ≠ j.key → b.slot k = a.slot k) :
    b.demand + (a.growth j.key + j.keeps) = a.demand + (b.growth j.key + j'.keeps) := by
  have keys : b.keys = a.keys := by
    rw [Account.keys, jobs, map_set_of_eq Job.key h key, Account.keys]
  have other : ∀ k ∈ a.keys.erase j.key, b.growth k = a.growth k := by
    intro k hk
    have ne : k ≠ j.key := Finset.ne_of_mem_erase hk
    have idle : j.waits k = 0 := if_neg fun waits => ne waits.1.symm
    have idle' : j'.waits k = 0 := if_neg fun waits => ne (key ▸ waits.1.symm)
    have same : (b.jobs.map (Job.waits k)) = a.jobs.map (Job.waits k) := by
      rw [jobs, map_set_of_eq (Job.waits k) h (idle'.trans idle.symm)]
    rw [growth, growth, largest, largest, same, slot k ne]
  have mem : j.key ∈ a.keys :=
    List.mem_toFinset.mpr (List.mem_map_of_mem (List.mem_of_getElem? h))
  have kept : (b.jobs.map Job.keeps).sum + j.keeps = (a.jobs.map Job.keeps).sum + j'.keeps := by
    rw [jobs]
    exact sum_map_set Job.keeps h
  have rest : ∑ k ∈ a.keys.erase j.key, b.growth k = ∑ k ∈ a.keys.erase j.key, a.growth k :=
    Finset.sum_congr rfl other
  have before := Finset.add_sum_erase a.keys (fun k => a.growth k) mem
  have after := Finset.add_sum_erase a.keys (fun k => b.growth k) mem
  rw [demand, demand, keys]
  omega

/-- A job that waits can fill its slot and keep its size. -/
theorem fill_fits (covered : a.Covered) (h : a.jobs[n]? = some j) (waits : j.stage = .waiting) :
    j.size + j.size ≤ a.free + a.slot j.key := by
  have mem : j ∈ a.jobs := List.mem_of_getElem? h
  have own : j.waits j.key = j.size := if_pos ⟨rfl, waits⟩
  have sum : j.size ≤ (a.jobs.map (Job.waits j.key)).sum := own ▸ le_sum_map (Job.waits j.key) mem
  have max : j.size ≤ largest (Job.waits j.key) a.jobs := own ▸ le_largest (Job.waits j.key) mem
  have bound := (growth_le_demand mem).trans covered
  rw [growth] at bound
  omega

theorem keep_fits (covered : a.Covered) (h : a.jobs[n]? = some j) (filled : j.stage = .filled) :
    j.size ≤ a.free := by
  have own : j.keeps = j.size := if_pos filled
  have sum : j.size ≤ (a.jobs.map Job.keeps).sum :=
    own ▸ le_sum_map Job.keeps (List.mem_of_getElem? h)
  exact (sum.trans (Nat.le_add_left _ _)).trans covered

theorem covered_fill (covered : a.Covered) (h : a.jobs[n]? = some j) (waits : j.stage = .waiting) :
    (a.fill n j).Covered := by
  have mem : j ∈ a.jobs := List.mem_of_getElem? h
  have own : j.waits j.key = j.size := if_pos ⟨rfl, waits⟩
  let filled : Job κ := { j with stage := .filled }
  have idle : filled.waits j.key = 0 := if_neg fun waits => by cases waits.2
  have keeps : j.keeps = 0 := if_neg fun filled => by rw [waits] at filled; cases filled
  have keeps' : filled.keeps = j.size := if_pos rfl
  have moved : (a.fill n j).demand + (a.growth j.key + j.keeps) =
      a.demand + ((a.fill n j).growth j.key + filled.keeps) :=
    demand_set h rfl rfl fun k ne => Function.update_of_ne ne _ _
  have sum : ((a.jobs.set n filled).map (Job.waits j.key)).sum + j.size =
      (a.jobs.map (Job.waits j.key)).sum := by
    have set := @sum_map_set _ _ _ _ filled (Job.waits j.key) h
    rwa [idle, own, add_zero] at set
  have max : largest (Job.waits j.key) (a.jobs.set n filled) ≤ largest (Job.waits j.key) a.jobs :=
    largest_set_le _ h (by rw [idle]; exact Nat.zero_le _)
  have top : j.size ≤ largest (Job.waits j.key) a.jobs := own ▸ le_largest (Job.waits j.key) mem
  have bound := growth_le_demand mem
  have after : (a.fill n j).growth j.key =
      ((a.jobs.set n filled).map (Job.waits j.key)).sum +
        largest (Job.waits j.key) (a.jobs.set n filled) - j.size := by
    have slot : (a.fill n j).slot j.key = j.size := Function.update_self ..
    rw [growth, slot]
    rfl
  rw [after, keeps, keeps'] at moved
  rw [growth] at moved bound
  unfold Covered at covered ⊢
  show (a.fill n j).demand ≤ a.free + a.slot j.key - j.size
  omega

/-- A job that ends after its slot is filled, or before, leaves the others covered. -/
theorem demand_end (h : a.jobs[n]? = some j)
    (jobs : b.jobs = a.jobs.set n { j with stage := .ended })
    (slot : b.slot = a.slot) : b.demand + j.keeps ≤ a.demand := by
  let ended : Job κ := { j with stage := .ended }
  have idle : ended.waits j.key = 0 := if_neg fun waits => by cases waits.2
  have keeps' : ended.keeps = 0 := if_neg fun filled => by cases filled
  have moved : b.demand + (a.growth j.key + j.keeps) =
      a.demand + (b.growth j.key + ended.keeps) :=
    demand_set h rfl jobs fun k _ => congrFun slot k
  have sum := @sum_map_set _ _ _ _ ended (Job.waits j.key) h
  have max : largest (Job.waits j.key) (a.jobs.set n ended) ≤ largest (Job.waits j.key) a.jobs :=
    largest_set_le _ h (by rw [idle]; exact Nat.zero_le _)
  have shrinks : b.growth j.key ≤ a.growth j.key := by
    rw [growth, growth, show b.jobs = a.jobs.set n ended from jobs, slot]
    omega
  rw [keeps'] at moved
  omega

theorem covered_keep (covered : a.Covered) (h : a.jobs[n]? = some j) (filled : j.stage = .filled) :
    (a.keep n j).Covered := by
  have own : j.keeps = j.size := if_pos filled
  have less := demand_end (b := a.keep n j) h rfl rfl
  unfold Covered at covered ⊢
  show (a.keep n j).demand ≤ a.free - j.size
  omega

theorem covered_drop (covered : a.Covered) (h : a.jobs[n]? = some j) : (a.drop n j).Covered := by
  have less := demand_end (b := a.drop n j) h rfl rfl
  exact ((Nat.le_add_right _ _).trans less).trans covered

end Account

end Reserve
