import Gorilla.Utils.Assembly

/-!
# Points of a box

The cells of a box as points with one coordinate for each axis, and as the padded
coordinates the assembly uses.
-/

namespace Gorilla

namespace BBX

/-- The padded coordinates of a point of the box. -/
theorem in_of_contains {b : BBX} {p : List Int} (h3 : b.m_dims ≤ 3) (h : b.Contains p) :
    b.In (.ofList 0 p) := by
  obtain ⟨st, bs⟩ := b
  simp only [m_dims] at h3
  simp only [Contains] at h
  simp only [In, getIndexlb, getIndexub]
  induction bs, h3 using Array3.axes_cases with
  | nil =>
    cases h
    simp [Array3.ofList]
  | line b0 =>
    obtain _ | ⟨h0, ⟨⟩⟩ := h
    exact ⟨h0, by simp [Array3.ofList], by simp [Array3.ofList]⟩
  | plane b0 b1 =>
    obtain _ | ⟨h0, _ | ⟨h1, ⟨⟩⟩⟩ := h
    exact ⟨h0, h1, by simp [Array3.ofList]⟩
  | space b0 b1 b2 =>
    obtain _ | ⟨h0, _ | ⟨h1, _ | ⟨h2, ⟨⟩⟩⟩⟩ := h
    exact ⟨h0, h1, h2⟩

/-- The point of the box with the given padded coordinates. -/
theorem exists_point {b : BBX} {c : Array3 Int} (hd : b.Dims) (h : b.In c) :
    ∃ p, b.Contains p ∧ c = .ofList 0 p := by
  refine padded_cases (P := fun b c => b.In c → ∃ p, b.Contains p ∧ c = .ofList 0 p)
    hd (in_padded hd h) ?_ ?_ ?_ h
  · rintro st b0 x ⟨hx, _⟩
    exact ⟨[x], .cons hx .nil, rfl⟩
  · rintro st b0 b1 x y ⟨hx, hy, _⟩
    exact ⟨[x, y], .cons hx (.cons hy .nil), rfl⟩
  · rintro st b0 b1 b2 x y z ⟨hx, hy, hz⟩
    exact ⟨[x, y, z], .cons hx (.cons hy (.cons hz .nil)), rfl⟩

theorem length_of_contains {b : BBX} {p : List Int} (h : b.Contains p) : p.length = b.m_dims :=
  (List.Forall₂.length_eq h).symm

theorem contains_of_in {b : BBX} {p : List Int} (h3 : b.m_dims ≤ 3) (hp : p.length = b.m_dims)
    (h : b.In (.ofList 0 p)) : b.Contains p := by
  obtain ⟨st, bs⟩ := b
  simp only [m_dims] at *
  simp only [In, getIndexlb, getIndexub] at h
  simp only [Contains]
  induction bs, h3 using Array3.axes_cases with
  | nil =>
    obtain rfl := List.length_eq_zero_iff.mp hp
    exact .nil
  | line b0 =>
    obtain ⟨x, rfl⟩ := List.length_eq_one_iff.mp hp
    exact .cons h.1 .nil
  | plane b0 b1 =>
    obtain ⟨x, y, rfl⟩ := List.length_eq_two.mp hp
    exact .cons h.1 (.cons h.2.1 .nil)
  | space b0 b1 b2 =>
    obtain ⟨x, y, z, rfl⟩ := List.length_eq_three.mp hp
    exact .cons h.1 (.cons h.2.1 (.cons h.2.2 .nil))

/-- The corners of a box give the box back. -/
theorem ofIndex_corners {b : BBX} (h3 : b.m_dims ≤ 3) :
    ofIndex b.m_dims b.getIndexlb b.getIndexub = .ok ⟨0, b.BoundList⟩ := by
  obtain ⟨st, bs⟩ := b
  simp only [m_dims] at h3
  simp only [ofIndex, DEFAULT_MAX_DIM, m_dims, getIndexlb, getIndexub]
  induction bs, h3 using Array3.axes_cases with
  | nil => rfl
  | line b0 => rfl
  | plane b0 b1 => rfl
  | space b0 b1 b2 => rfl

theorem WellFormed.exists_point {b : BBX} (h : b.WellFormed) : ∃ p, b.Contains p := by
  refine ⟨b.BoundList.map Bound.m_lb, ?_⟩
  rw [Contains, List.forall₂_map_right_iff, List.forall₂_same]
  intro bound hb
  exact ⟨le_rfl, h bound hb⟩

theorem dims_meet {a b : BBX} (h : a.m_dims = b.m_dims) : (a.meet b).m_dims = a.m_dims := by
  simp only [m_dims, meet, List.length_zipWith] at *
  omega

/-- Boxes with cells that overlap share one. -/
theorem Hits.wellFormed_meet {a b : BBX} (ha : a.WellFormed) (hb : b.WellFormed) (h : a.Hits b) :
    (a.meet b).WellFormed := by
  obtain ⟨_, as⟩ := a
  obtain ⟨_, bs⟩ := b
  simp only [WellFormed, meet, Hits] at *
  induction h with
  | nil => simp
  | @cons a0 b0 as bs h0 _ ih =>
    obtain ⟨ha0, ha⟩ := List.forall_mem_cons.mp ha
    obtain ⟨hb0, hb⟩ := List.forall_mem_cons.mp hb
    rw [List.zipWith_cons_cons]
    refine List.forall_mem_cons.mpr ⟨?_, ih ha hb⟩
    obtain ⟨_, _⟩ := h0
    simp only [Bound.meet]
    omega

theorem meet_within {a q : BBX} (hd : a.m_dims = q.m_dims) (h : q.Dims) : (a.meet q).Within q := by
  intro c hc
  have hm : (a.meet q).m_dims = q.m_dims := (dims_meet hd).trans hd
  obtain ⟨p, hp, rfl⟩ := exists_point (b := a.meet q) (by rw [Dims, hm]; exact h) hc
  exact in_of_contains h.2 ((contains_meet hd).mp hp).2

/-- The first axis of a box that has one. -/
theorem corner_x (st : Int) (bound : Bound) (bs : List Bound) :
    (⟨st, bound :: bs⟩ : BBX).getIndexlb.x = bound.m_lb ∧
      (⟨st, bound :: bs⟩ : BBX).getIndexub.x = bound.m_ub := by
  match bs with
  | [] => exact ⟨rfl, rfl⟩
  | [_] => exact ⟨rfl, rfl⟩
  | _ :: _ :: _ => exact ⟨rfl, rfl⟩

theorem meet_ub_le {a q : BBX} (hd : a.m_dims = q.m_dims) (h : q.Dims) :
    (a.meet q).getIndexub.x ≤ q.getIndexub.x := by
  obtain ⟨h1, _⟩ := h
  obtain ⟨_, as⟩ := a
  obtain ⟨_, qs⟩ := q
  simp only [m_dims] at *
  cases qs with
  | nil => simp at h1
  | cons q0 qs =>
    cases as with
    | nil => cases hd
    | cons a0 as =>
      rw [meet, List.zipWith_cons_cons, (corner_x _ _ _).2, (corner_x _ _ _).2]
      exact min_le_right _ _

/-- Every axis has a cell and an extent that fits in `int`. -/
def IntSized (b : BBX) : Prop :=
  ∀ bound ∈ b.BoundList, bound.m_lb ≤ bound.m_ub ∧ bound.m_ub - bound.m_lb < INT_MAX

theorem extents_le_prod {bs : List Bound} (h : ∀ bound ∈ bs, bound.m_lb ≤ bound.m_ub) :
    1 ≤ (bs.map fun bound => bound.m_ub - bound.m_lb + 1).prod ∧ ∀ bound ∈ bs,
      bound.m_ub - bound.m_lb + 1 ≤ (bs.map fun bound => bound.m_ub - bound.m_lb + 1).prod := by
  induction bs with
  | nil => simp
  | cons b bs ih =>
    obtain ⟨hb, hbs⟩ := List.forall_mem_cons.mp h
    obtain ⟨h1, hle⟩ := ih hbs
    rw [List.map_cons, List.prod_cons]
    have he : 1 ≤ b.m_ub - b.m_lb + 1 := by omega
    refine ⟨one_le_mul_of_one_le_of_one_le he h1, List.forall_mem_cons.mpr ⟨?_, ?_⟩⟩
    · exact le_mul_of_one_le_right (by omega) h1
    · intro c hc
      exact le_trans (hle c hc) (le_mul_of_one_le_left (by omega) he)

theorem intSized_of_cells {b : BBX} (hd : b.Dims) (hwf : b.WellFormed) (h : b.cells ≤ INT_MAX) :
    b.IntSized := by
  intro bound hb
  have := (extents_le_prod hwf).2 bound hb
  rw [cells_eq_prod hd] at h
  exact ⟨hwf bound hb, by omega⟩

theorem meet_comm (a b : BBX) : a.meet b = b.meet a := by
  have bounds : ∀ x y : Bound, x.meet y = y.meet x := fun x y => by
    simp only [Bound.meet, max_comm, min_comm]
  rw [meet, meet, List.zipWith_comm]
  simp only [bounds]

/-- The overlap with an `int`-sized box has a computable number of elements, even where it is
inverted. -/
theorem getElemNum_meet {a q : BBX} (hq : q.IntSized) (hit : a.Hits q) :
    ∃ n, (a.meet q).getElemNum = .ok n := by
  refine ⟨_, getElemNum_eq ?_⟩
  obtain ⟨_, as⟩ := a
  obtain ⟨_, qs⟩ := q
  simp only [IntSized, Hits, meet, AxesFit] at *
  induction hit with
  | nil => simp
  | @cons a0 q0 as qs h0 _ ih =>
    obtain ⟨hq0, hqs⟩ := List.forall_mem_cons.mp hq
    rw [List.zipWith_cons_cons]
    refine List.forall_mem_cons.mpr ⟨?_, ih hqs⟩
    obtain ⟨_, _⟩ := h0
    simp only [Bound.meet, IsInt, INT_MIN, INT_MAX] at *
    omega

/-- A part of a box lies in the box. -/
theorem WellFormed.absorbed_meet {q s : BBX} (hwf : q.WellFormed) (hits : q.Hits s) :
    (q.meet s).Absorbed q := by
  obtain ⟨_, qs⟩ := q
  obtain ⟨_, ss⟩ := s
  simp only [WellFormed, Hits, meet, Absorbed] at *
  induction hits with
  | nil => exact .nil
  | @cons q0 s0 qs ss h0 _ ih =>
    obtain ⟨hq0, hqs⟩ := List.forall_mem_cons.mp hwf
    obtain ⟨_, _⟩ := h0
    rw [List.zipWith_cons_cons]
    refine .cons ?_ (ih hqs)
    simp only [Bound.meet, Bound.Hits, Bound.mk.injEq]
    omega

end BBX

end Gorilla
