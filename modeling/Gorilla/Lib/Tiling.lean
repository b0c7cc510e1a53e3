import Gorilla.Lib.Peel
import Mathlib.Data.List.Forall2
import Mathlib.Data.List.Pairwise
import Mathlib.Data.Set.Basic

/-!
# Tilings

Pieces tile a set when each has a point, no two share one and together they have the points of the
set. Taking a piece out, cutting every piece and combining axes give tilings again.
-/

universe u

namespace Tiling

variable {B X : Type u} {mem : B → X → Prop} {us vs : List B} {S T : Set X} {w : B}

/-- The points of a piece. -/
def points (mem : B → X → Prop) (u : B) : Set X := {x | mem u x}

/-- The two pieces share no point. -/
def Apart (mem : B → X → Prop) (u v : B) : Prop := ∀ x, mem u x → ¬ mem v x

instance : Std.Symm (Apart mem) := ⟨fun _ _ h x hv hu => h x hu hv⟩

structure Tiles (mem : B → X → Prop) (us : List B) (S : Set X) : Prop where
  inhabited : ∀ u ∈ us, ∃ x, mem u x
  apart : us.Pairwise (Apart mem)
  covers : ∀ x, x ∈ S ↔ ∃ u ∈ us, mem u x

theorem Tiles.congr (h : Tiles mem us S) (same : ∀ x, x ∈ T ↔ x ∈ S) : Tiles mem us T where
  inhabited := h.inhabited
  apart := h.apart
  covers x := (same x).trans (h.covers x)

theorem tiles_nil : Tiles mem [] (∅ : Set X) where
  inhabited u hu := by cases hu
  apart := .nil
  covers x := by simp

theorem tiles_singleton {x : X} (hx : mem w x) : Tiles mem [w] (points mem w) where
  inhabited u hu := by
    rw [List.mem_singleton.mp hu]
    exact ⟨x, hx⟩
  apart := List.pairwise_singleton _ _
  covers x := by simp [points]

/-- The same pieces under other names. -/
theorem Tiles.map {C : Type u} {memC : C → X → Prop} {f : B → C} (h : Tiles mem us S)
    (same : ∀ u x, memC (f u) x ↔ mem u x) : Tiles memC (us.map f) S where
  inhabited c hc := by
    obtain ⟨u, hu, rfl⟩ := List.mem_map.mp hc
    obtain ⟨x, hx⟩ := h.inhabited u hu
    exact ⟨x, (same u x).mpr hx⟩
  apart := List.pairwise_map.mpr (h.apart.imp fun apart x hu hv =>
    apart x ((same _ x).mp hu) ((same _ x).mp hv))
  covers x := by
    rw [h.covers]
    simp only [List.mem_map, exists_exists_and_eq_and, same]

/-- The tiling is empty exactly when the set is. -/
theorem Tiles.eq_nil_iff (h : Tiles mem us S) : us = [] ↔ ∀ x, x ∉ S := by
  constructor
  · rintro rfl x hx
    obtain ⟨u, hu, _⟩ := (h.covers x).mp hx
    cases hu
  · intro empty
    apply List.eq_nil_iff_forall_not_mem.mpr
    intro u hu
    obtain ⟨x, hx⟩ := h.inhabited u hu
    exact empty x ((h.covers x).mpr ⟨u, hu, hx⟩)

theorem Tiles.append (h : Tiles mem us S) (h' : Tiles mem vs T) (disjoint : ∀ x ∈ S, x ∉ T) :
    Tiles mem (us ++ vs) (S ∪ T) where
  inhabited u hu := (List.mem_append.mp hu).elim (h.inhabited u) (h'.inhabited u)
  apart := by
    refine List.pairwise_append.mpr ⟨h.apart, h'.apart, fun u hu v hv x hux hvx => ?_⟩
    exact disjoint x ((h.covers x).mpr ⟨u, hu, hux⟩) ((h'.covers x).mpr ⟨v, hv, hvx⟩)
  covers x := by
    rw [Set.mem_union, h.covers, h'.covers]
    simp only [List.mem_append, or_and_right, exists_or]

/-- A tiling loses the points of the pieces that are taken out. -/
theorem Tiles.without [DecidableEq B] (h : Tiles mem us S) (hw : w ∈ us) :
    Tiles mem (us.filter (· ≠ w)) (S \ points mem w) where
  inhabited u hu := h.inhabited u (List.mem_of_mem_filter hu)
  apart := h.apart.filter _
  covers x := by
    rw [Set.mem_sdiff, h.covers]
    constructor
    · rintro ⟨⟨u, hu, hux⟩, out⟩
      refine ⟨u, List.mem_filter.mpr ⟨hu, ?_⟩, hux⟩
      rw [decide_eq_true_eq]
      rintro rfl
      exact out hux
    · rintro ⟨u, hu, hux⟩
      obtain ⟨hu, ne⟩ := List.mem_filter.mp hu
      rw [decide_eq_true_eq] at ne
      have apart : Apart mem u w := h.apart.forall hu hw ne
      exact ⟨⟨u, hu, hux⟩, apart x hux⟩

/-- The pieces of a combination of tilings of the axes. -/
def grid : List (List B) → List (List B)
  | [] => [[]]
  | us :: rest => us.flatMap fun u => (grid rest).map (u :: ·)

/-- The points whose coordinates lie in the sets. -/
def box : List (Set X) → Set (List X)
  | [] => {[]}
  | S :: rest => {p | ∃ x q, p = x :: q ∧ x ∈ S ∧ q ∈ box rest}

theorem mem_box_points {bounds : List B} {p : List X} :
    p ∈ box (bounds.map (points mem)) ↔ List.Forall₂ mem bounds p := by
  induction bounds generalizing p with
  | nil =>
    rw [List.forall₂_nil_left_iff]
    exact Iff.rfl
  | cons b bounds ih =>
    constructor
    · rintro ⟨x, q, rfl, hx, hq⟩
      exact .cons hx (ih.mp hq)
    · intro h
      cases h with
      | cons hx hq => exact ⟨_, _, rfl, hx, ih.mpr hq⟩

theorem tiles_axis {tails : List (List B)} {P : Set (List X)} (h : Tiles mem us S)
    (h' : Tiles (List.Forall₂ mem) tails P) :
    Tiles (List.Forall₂ mem) (us.flatMap fun u => tails.map (u :: ·))
      {p | ∃ x q, p = x :: q ∧ x ∈ S ∧ q ∈ P} where
  inhabited c hc := by
    obtain ⟨u, hu, hc⟩ := List.mem_flatMap.mp hc
    obtain ⟨tail, htail, rfl⟩ := List.mem_map.mp hc
    obtain ⟨x, hx⟩ := h.inhabited u hu
    obtain ⟨q, hq⟩ := h'.inhabited tail htail
    exact ⟨x :: q, .cons hx hq⟩
  apart := by
    refine List.pairwise_flatMap.mpr ⟨fun u hu => List.pairwise_map.mpr ?_, ?_⟩
    · refine h'.apart.imp fun {tail tail'} apart p hp hp' => ?_
      cases hp with
      | cons _ hq =>
        cases hp' with
        | cons _ hq' => exact apart _ hq hq'
    · refine h.apart.imp fun {u v} apart c hc d hd p hp hp' => ?_
      obtain ⟨tail, _, rfl⟩ := List.mem_map.mp hc
      obtain ⟨tail', _, rfl⟩ := List.mem_map.mp hd
      cases hp with
      | cons hx _ =>
        cases hp' with
        | cons hx' _ => exact apart _ hx hx'
  covers p := by
    constructor
    · rintro ⟨x, q, rfl, hx, hq⟩
      obtain ⟨u, hu, hux⟩ := (h.covers x).mp hx
      obtain ⟨tail, htail, hq⟩ := (h'.covers q).mp hq
      exact ⟨u :: tail, List.mem_flatMap.mpr ⟨u, hu, List.mem_map_of_mem htail⟩, .cons hux hq⟩
    · rintro ⟨c, hc, hp⟩
      obtain ⟨u, hu, hc⟩ := List.mem_flatMap.mp hc
      obtain ⟨tail, htail, rfl⟩ := List.mem_map.mp hc
      cases hp with
      | cons hx hq =>
        exact ⟨_, _, rfl, (h.covers _).mpr ⟨u, hu, hx⟩, (h'.covers _).mpr ⟨tail, htail, hq⟩⟩

/-- Tilings of the axes combine to a tiling of the box. -/
theorem tiles_grid {axes : List (List B)} {sides : List (Set X)}
    (h : List.Forall₂ (Tiles mem) axes sides) :
    Tiles (List.Forall₂ mem) (grid axes) (box sides) := by
  induction h with
  | nil =>
    refine ⟨fun c hc => ⟨[], ?_⟩, List.pairwise_singleton _ _, fun p => ?_⟩
    · rw [List.mem_singleton.mp hc]
      exact .nil
    · constructor
      · rintro rfl
        exact ⟨[], List.mem_singleton_self _, .nil⟩
      · rintro ⟨c, hc, hp⟩
        rw [List.mem_singleton.mp hc] at hp
        cases hp
        rfl
  | cons h _ ih => exact tiles_axis h ih

/-- A row of pieces of the axes is a piece of the grid. -/
theorem mem_grid {axes : List (List B)} {c : List B} :
    c ∈ grid axes ↔ List.Forall₂ (· ∈ ·) c axes := by
  induction axes generalizing c with
  | nil => simp [grid]
  | cons us rest ih =>
    rw [grid, List.mem_flatMap]
    constructor
    · rintro ⟨u, hu, hc⟩
      obtain ⟨tail, htail, rfl⟩ := List.mem_map.mp hc
      exact .cons hu (ih.mp htail)
    · intro hc
      cases hc with
      | cons hu htail => exact ⟨_, hu, List.mem_map_of_mem (ih.mpr htail)⟩

theorem forall_of_mem_grid {axes : List (List B)} {c : List B} {Q : B → Prop}
    (h : ∀ us ∈ axes, ∀ u ∈ us, Q u) (hc : c ∈ grid axes) : ∀ u ∈ c, Q u := by
  have row := mem_grid.mp hc
  clear hc
  induction row with
  | nil => simp
  | cons hu _ ih =>
    rw [List.forall_mem_cons] at h ⊢
    exact ⟨h.1 _ hu, ih h.2⟩

theorem Tiles.points_subset {u : B} (h : Tiles mem us S) (hu : u ∈ us) : points mem u ⊆ S :=
  fun x hx => (h.covers x).mpr ⟨u, hu, hx⟩

/-- The rest of a tiling tiles what the first piece leaves. -/
theorem Tiles.tail (h : Tiles mem (w :: us) S) : Tiles mem us (S \ points mem w) where
  inhabited u hu := h.inhabited u (List.mem_cons_of_mem w hu)
  apart := (List.pairwise_cons.mp h.apart).2
  covers x := by
    rw [Set.mem_sdiff, h.covers]
    constructor
    · rintro ⟨⟨u, hu, hux⟩, out⟩
      rcases List.mem_cons.mp hu with rfl | hu
      · exact absurd hux out
      · exact ⟨u, hu, hux⟩
    · rintro ⟨u, hu, hux⟩
      exact ⟨⟨u, List.mem_cons_of_mem w hu, hux⟩,
        fun hwx => (List.pairwise_cons.mp h.apart).1 u hu x hwx hux⟩

section Cutting

variable {ε C D P : Type u} {memC : C → P → Prop} {memD : D → P → Prop} {Good : C → Prop}
  {cut : C → D → Except ε (List C)} {d : D} {ds : List D} {cs : List C} {R : Set P}

/-- A cut of a good piece succeeds, and leaves a good tiling of what the cover does not have. -/
def ExactCut (memC : C → P → Prop) (memD : D → P → Prop) (Good : C → Prop)
    (cut : C → D → Except ε (List C)) (d : D) : Prop :=
  ∀ c, Good c → ∃ us, cut c d = .ok us ∧ (∀ u ∈ us, Good u) ∧
    Tiles memC us (points memC c \ points memD d)

theorem ExactCut.layer (exact : ExactCut memC memD Good cut d) (h : Tiles memC cs R)
    (good : ∀ c ∈ cs, Good c) : ∃ us, Peel.layer cut d cs = .ok us ∧ (∀ u ∈ us, Good u) ∧
      Tiles memC us (R \ points memD d) := by
  induction cs generalizing R with
  | nil =>
    have empty := h.eq_nil_iff.mp rfl
    exact ⟨[], rfl, by simp, tiles_nil.congr fun x => iff_of_false (fun hx => empty x hx.1) id⟩
  | cons c cs ih =>
    obtain ⟨us, hus, goodUs, tiles⟩ := exact c (good c (List.mem_cons_self ..))
    obtain ⟨rest, hrest, goodRest, tilesRest⟩ :=
      ih h.tail fun c' hc' => good c' (List.mem_cons_of_mem c hc')
    refine ⟨us ++ rest, ?_, ?_, ?_⟩
    · simp only [Peel.layer, hus, hrest, bind, Except.bind, pure, Except.pure]
    · intro u hu
      exact (List.mem_append.mp hu).elim (goodUs u) (goodRest u)
    · refine (tiles.append tilesRest fun x hx hx' => hx'.1.2 hx.1).congr fun x => ?_
      have within : x ∈ points memC c → x ∈ R := fun hx =>
        h.points_subset (List.mem_cons_self ..) hx
      simp only [Set.mem_union, Set.mem_sdiff]
      tauto

/-- The pieces left by all covers tile what none of them has. -/
theorem ExactCut.peel (exact : ∀ d ∈ ds, ExactCut memC memD Good cut d) (h : Tiles memC cs R)
    (good : ∀ c ∈ cs, Good c) : ∃ us, Peel.peel cut cs ds = .ok us ∧
      Tiles memC us {x | x ∈ R ∧ ∀ d ∈ ds, ¬ memD d x} := by
  induction ds generalizing cs R with
  | nil => exact ⟨cs, rfl, h.congr fun x => by simp⟩
  | cons d ds ih =>
    obtain ⟨us, hus, goodUs, tiles⟩ := (exact d (List.mem_cons_self ..)).layer h good
    obtain ⟨rest, hrest, tilesRest⟩ :=
      ih (fun e he => exact e (List.mem_cons_of_mem d he)) tiles goodUs
    refine ⟨rest, ?_, tilesRest.congr fun x => ?_⟩
    · simp only [Peel.peel, hus, bind, Except.bind]
      exact hrest
    · simp only [Set.mem_ofPred_eq, List.forall_mem_cons, Set.mem_sdiff, points, and_assoc]

end Cutting

end Tiling
