import Mathlib.Data.List.Basic

/-!
# Overlays

A partial function laid over a total one, and a list of them laid one after the other:
the last one that is defined at a place decides.
-/

universe u v w

namespace Overlay

variable {ι : Type u} {V : Type v}

/-- `w` where it is defined, `base` elsewhere. -/
def lay (base : ι → V) (w : ι → Option V) : ι → V := fun i => (w i).getD (base i)

def layAll (base : ι → V) (ws : List (ι → Option V)) : ι → V := ws.foldl lay base

@[simp] theorem layAll_nil (base : ι → V) : layAll base [] = base := rfl

@[simp] theorem layAll_cons (base : ι → V) (w : ι → Option V) (ws : List (ι → Option V)) :
    layAll base (w :: ws) = layAll (lay base w) ws := rfl

theorem layAll_append (base : ι → V) (ws vs : List (ι → Option V)) :
    layAll base (ws ++ vs) = layAll (layAll base ws) vs := List.foldl_append

/-- Where nothing is laid the base shows. -/
theorem layAll_eq_base {base : ι → V} {ws : List (ι → Option V)} {i : ι}
    (h : ∀ w ∈ ws, w i = none) : layAll base ws i = base i := by
  induction ws generalizing base with
  | nil => rfl
  | cons w ws ih =>
    rw [layAll_cons, ih fun v hv => h v (List.mem_cons_of_mem w hv), lay,
      h w List.mem_cons_self, Option.getD_none]

/-- The last layer that is defined at a place shows there. -/
theorem layAll_last {base : ι → V} {before after : List (ι → Option V)} {w : ι → Option V} {i : ι}
    {v : V} (hw : w i = some v) (later : ∀ u ∈ after, u i = none) :
    layAll base (before ++ w :: after) i = v := by
  rw [layAll_append, layAll_cons, layAll_eq_base later, lay, hw, Option.getD_some]

/-- Where something is laid, one of the layers shows. -/
theorem exists_layer {base : ι → V} {ws : List (ι → Option V)} {i : ι}
    (h : ∃ w ∈ ws, w i ≠ none) : ∃ w ∈ ws, w i = some (layAll base ws i) := by
  induction ws generalizing base with
  | nil =>
    obtain ⟨w, hw, _⟩ := h
    cases hw
  | cons w ws ih =>
    by_cases later : ∃ v ∈ ws, v i ≠ none
    · obtain ⟨v, hv, he⟩ : ∃ v ∈ ws, v i = some (layAll (lay base w) ws i) := ih later
      exact ⟨v, List.mem_cons_of_mem w hv, he⟩
    · have hnone : ∀ v ∈ ws, v i = none := fun v hv => by
        by_contra hne
        exact later ⟨v, hv, hne⟩
      obtain ⟨v, hv, hvi⟩ := h
      have hw : w i ≠ none := by
        rcases List.mem_cons.mp hv with rfl | hv
        · exact hvi
        · exact absurd (hnone v hv) hvi
      refine ⟨w, List.mem_cons_self, ?_⟩
      rw [layAll_cons, layAll_eq_base hnone, lay]
      cases hwi : w i with
      | none => exact absurd hwi hw
      | some x => rfl

/-- Layers that agree with `f` wherever they are defined show `f` wherever one is. -/
theorem layAll_eq {base : ι → V} {ws : List (ι → Option V)} {i : ι} {v : V}
    (agree : ∀ w ∈ ws, ∀ x, w i = some x → x = v) (h : ∃ w ∈ ws, w i ≠ none) :
    layAll base ws i = v := by
  obtain ⟨w, hw, he⟩ : ∃ w ∈ ws, w i = some (layAll base ws i) := exists_layer h
  exact agree w hw _ he

theorem layAll_congr {base base' : ι → V} {i : ι} (h : base i = base' i)
    (ws : List (ι → Option V)) : layAll base ws i = layAll base' ws i := by
  induction ws generalizing base base' with
  | nil => exact h
  | cons w ws ih => exact ih (by simp only [lay, h])

section Loop

variable {M X : Type v} {ε : Type w} {get : M → ι → V} {D : ι → Prop}

/-- A loop whose passes each lay a list of layers lays all of them in order. -/
theorem foldlM_layAll {f : M → X → Except ε M} {ws : X → List (ι → Option V)} {l : List X}
    (step : ∀ x ∈ l, ∀ m m', f m x = .ok m' → ∀ i, D i → get m' i = layAll (get m) (ws x) i)
    {m m' : M} (h : l.foldlM f m = .ok m') (i : ι) (hi : D i) :
    get m' i = layAll (get m) (l.flatMap ws) i := by
  induction l generalizing m with
  | nil =>
    cases h
    rfl
  | cons x l ih =>
    rw [List.foldlM_cons] at h
    cases hx : f m x with
    | error e => simp [hx, bind, Except.bind] at h
    | ok n =>
      have hn : l.foldlM f n = .ok m' := by simpa [hx, bind, Except.bind] using h
      rw [ih (fun y hy => step y (List.mem_cons_of_mem x hy)) hn, List.flatMap_cons, layAll_append]
      exact layAll_congr (step x List.mem_cons_self m n hx i hi) _

theorem foldlM_lay {f : M → X → Except ε M} {w : X → ι → Option V} {l : List X}
    (step : ∀ x ∈ l, ∀ m m', f m x = .ok m' → ∀ i, D i → get m' i = lay (get m) (w x) i)
    {m m' : M} (h : l.foldlM f m = .ok m') (i : ι) (hi : D i) :
    get m' i = layAll (get m) (l.map w) i := by
  rw [List.map_eq_flatMap]
  exact foldlM_layAll step h i hi

end Loop

end Overlay
