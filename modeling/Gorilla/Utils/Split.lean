import Gorilla.Lib.Tiling
import Gorilla.Utils.Points

/-!
# Taking a box out of another

An axis is cut at the ends of the query. The cuts are tilings unless the query reaches over the
whole axis, and the piece that is the query is left out by a comparison that differs between two
and three dimensions.
-/

namespace Gorilla

open Tiling

namespace Bound

variable {o q : Bound} {us : List Bound}

/-- A bound of two `int`s with a cell. -/
structure Proper (b : Bound) : Prop where
  le : b.m_lb ≤ b.m_ub
  lb : IsInt b.m_lb
  ub : IsInt b.m_ub

instance (b : Bound) : Decidable b.Proper :=
  decidable_of_iff (b.m_lb ≤ b.m_ub ∧ IsInt b.m_lb ∧ IsInt b.m_ub)
    ⟨fun h => ⟨h.1, h.2.1, h.2.2⟩, fun h => ⟨h.le, h.lb, h.ub⟩⟩

def Within (a b : Bound) : Prop := b.m_lb ≤ a.m_lb ∧ a.m_ub ≤ b.m_ub

instance (a b : Bound) : Decidable (a.Within b) := inferInstanceAs (Decidable (_ ∧ _))

theorem tiles_of_le {b : Bound} (le : b.m_lb ≤ b.m_ub) : Tiles Contains [b] (points Contains b) :=
  tiles_singleton (x := b.m_lb) ⟨le_rfl, le⟩

/-- A bound cut after one of its cells. -/
theorem tiles_cut {lb at' ub : Int} {us : List Bound} (le : lb ≤ at')
    (rest : Tiles Contains us (points Contains ⟨at' + 1, ub⟩)) (le' : at' ≤ ub) :
    Tiles Contains (⟨lb, at'⟩ :: us) (points Contains ⟨lb, ub⟩) := by
  have first : Tiles Contains [⟨lb, at'⟩] (points Contains ⟨lb, at'⟩) := tiles_of_le le
  refine (first.append rest ?_).congr fun x => ?_
  · rintro x ⟨_, hx⟩ ⟨hx', _⟩
    simp only at hx hx'
    omega
  · simp only [points, Contains, Set.mem_union, Set.mem_ofPred_eq]
    omega

/-- The cases of a split, for bounds that share a cell. -/
theorem splitBound_cases (hit : o.Hits q) (ne : o ≠ q) : o.splitBound q =
    if q.m_lb ≤ o.m_lb ∧ o.m_lb ≤ q.m_ub ∧ q.m_ub < o.m_ub then do
      return [⟨o.m_lb, q.m_ub⟩, ⟨← int (q.m_ub + 1), o.m_ub⟩]
    else if o.m_lb < q.m_lb ∧ q.m_ub < o.m_ub then do
      return [⟨o.m_lb, ← int (q.m_lb - 1)⟩, ⟨q.m_lb, q.m_ub⟩, ⟨← int (q.m_ub + 1), o.m_ub⟩]
    else do
      return [⟨o.m_lb, ← int (q.m_lb - 1)⟩, ⟨q.m_lb, o.m_ub⟩] := by
  obtain ⟨hit1, hit2⟩ := hit
  have apart : ¬ (q.m_ub < o.m_lb ∨ o.m_ub < q.m_lb) := by omega
  have ne' : ¬ o.equal q = true := fun same => ne (equal_iff.mp same)
  unfold splitBound
  rw [if_neg apart, if_neg ne']
  by_cases left : q.m_lb ≤ o.m_lb ∧ o.m_lb ≤ q.m_ub ∧ q.m_ub < o.m_ub
  · rw [if_pos left, if_pos left]
  · rw [if_neg left, if_neg left]
    by_cases inner : o.m_lb < q.m_lb ∧ q.m_ub < o.m_ub
    · rw [if_pos inner, if_pos inner]
    · have right : q.m_lb ≤ o.m_ub ∧ o.m_ub ≤ q.m_ub := by omega
      rw [if_neg inner, if_neg inner, if_pos right]

/-- The pieces of an axis that the query does not reach over. -/
theorem splitBound_tiles (ho : o.Proper) (hq : q.m_lb ≤ q.m_ub) (hit : o.Hits q)
    (inside : o.Within q → q = o) :
    ∃ us, o.splitBound q = .ok us ∧ Tiles Contains us (points Contains o) ∧ o.meet q ∈ us ∧
      ∀ u ∈ us, u.Proper := by
  obtain ⟨le, ⟨hlb, hlb'⟩, hub, hub'⟩ := ho
  obtain ⟨hit1, hit2⟩ := hit
  by_cases same : o = q
  · subst same
    refine ⟨[o], ?_, tiles_of_le le, ?_, ?_⟩
    · unfold splitBound
      rw [if_neg (by omega), if_pos (equal_iff.mpr rfl)]
      rfl
    · simp [meet]
    · intro u hu
      rw [List.mem_singleton.mp hu]
      exact ⟨le, ⟨hlb, hlb'⟩, hub, hub'⟩
  · have out : ¬ o.Within q := fun within => same (inside within).symm
    simp only [Within] at out
    rw [splitBound_cases ⟨hit1, hit2⟩ same]
    by_cases left : q.m_lb ≤ o.m_lb ∧ o.m_lb ≤ q.m_ub ∧ q.m_ub < o.m_ub
    · obtain ⟨h1, h2, h3⟩ := left
      have next : IsInt (q.m_ub + 1) := ⟨by omega, by omega⟩
      rw [if_pos ⟨h1, h2, h3⟩, int_of_isInt next]
      refine ⟨_, rfl, tiles_cut h2 (tiles_of_le (Int.add_one_le_iff.mpr h3)) h3.le, ?_, ?_⟩
      · simp [meet, h1, h3.le]
      · simp only [List.forall_mem_cons]
        exact ⟨⟨h2, ⟨hlb, hlb'⟩, by show _ ≤ q.m_ub; omega, by show q.m_ub ≤ _; omega⟩,
          ⟨Int.add_one_le_iff.mpr h3, next, hub, hub'⟩, by simp⟩
    rw [if_neg left]
    by_cases inner : o.m_lb < q.m_lb ∧ q.m_ub < o.m_ub
    · obtain ⟨h1, h2⟩ := inner
      have next : IsInt (q.m_ub + 1) := ⟨by omega, by omega⟩
      have before : IsInt (q.m_lb - 1) := ⟨by omega, by omega⟩
      have behind : Tiles Contains [⟨q.m_lb, q.m_ub⟩, ⟨q.m_ub + 1, o.m_ub⟩]
          (points Contains ⟨q.m_lb - 1 + 1, o.m_ub⟩) := by
        rw [Int.sub_add_cancel]
        exact tiles_cut hq (tiles_of_le (Int.add_one_le_iff.mpr h2)) h2.le
      rw [if_pos ⟨h1, h2⟩, int_of_isInt next, int_of_isInt before]
      refine ⟨_, rfl, tiles_cut (Int.le_sub_one_iff.mpr h1) behind (by omega), ?_, ?_⟩
      · simp [meet, h1.le, h2.le]
      · simp only [List.forall_mem_cons]
        exact ⟨⟨Int.le_sub_one_iff.mpr h1, ⟨hlb, hlb'⟩, before⟩,
          ⟨hq, ⟨by show _ ≤ q.m_lb; omega, by show q.m_lb ≤ _; omega⟩,
            by show _ ≤ q.m_ub; omega, by show q.m_ub ≤ _; omega⟩,
          ⟨Int.add_one_le_iff.mpr h2, next, hub, hub'⟩, by simp⟩
    · have h1 : o.m_lb < q.m_lb := by omega
      have h2 : o.m_ub ≤ q.m_ub := by omega
      have before : IsInt (q.m_lb - 1) := ⟨by omega, by omega⟩
      have behind : Tiles Contains [⟨q.m_lb, o.m_ub⟩]
          (points Contains ⟨q.m_lb - 1 + 1, o.m_ub⟩) := by
        rw [Int.sub_add_cancel]
        exact tiles_of_le hit2
      rw [if_neg inner, int_of_isInt before]
      refine ⟨_, rfl, tiles_cut (Int.le_sub_one_iff.mpr h1) behind (by omega), ?_, ?_⟩
      · simp [meet, h1.le, h2]
      · simp only [List.forall_mem_cons]
        exact ⟨⟨Int.le_sub_one_iff.mpr h1, ⟨hlb, hlb'⟩, before⟩,
          ⟨hit2, ⟨by show _ ≤ q.m_lb; omega, by show q.m_lb ≤ _; omega⟩, hub, hub'⟩, by simp⟩

/-- An axis that the query reaches over is cut at a place outside it. -/
theorem splitBound_inverted (le : o.m_lb ≤ o.m_ub) (within : o.Within q) (ne : q ≠ o)
    (run : o.splitBound q = .ok us) : ∃ u ∈ us, u.m_ub < u.m_lb := by
  obtain ⟨h1, h2⟩ := within
  rw [splitBound_cases ⟨by omega, by omega⟩ (Ne.symm ne), if_neg (by omega), if_neg (by omega)]
    at run
  obtain ⟨before, hb, run⟩ := bind_eq_ok.mp run
  obtain ⟨_, rfl⟩ := int_eq_ok.mp hb
  cases run
  exact ⟨⟨o.m_lb, q.m_lb - 1⟩, List.mem_cons_self .., by show q.m_lb - 1 < o.m_lb; omega⟩

/-- Pieces that are upright come of a bound that is the query or reaches beyond it. -/
theorem eq_of_upright {us : List Bound} (le : o.m_lb ≤ o.m_ub) (split : o.splitBound q = .ok us)
    (upright : ∀ v ∈ us, v.m_lb ≤ v.m_ub) (within : o.Within q) : q = o := by
  by_contra ne
  obtain ⟨v, hv, inverted⟩ := splitBound_inverted le within ne split
  have := upright v hv
  omega

theorem meet_le (le : o.m_lb ≤ o.m_ub) (hq : q.m_lb ≤ q.m_ub) (hit : o.Hits q) :
    (o.meet q).m_lb ≤ (o.meet q).m_ub := by
  obtain ⟨hit1, hit2⟩ := hit
  simp only [meet]
  omega

theorem meet_eq_of_within (within : q.Within o) : o.meet q = q := by
  obtain ⟨h1, h2⟩ := within
  simp [meet, h1, h2]

theorem within_of_meet_eq (same : o.meet q = q) : q.Within o := by
  rw [← same]
  exact ⟨le_max_left _ _, min_le_left _ _⟩

theorem within_antisymm (h : o.Within q) (h' : q.Within o) : q = o := by
  obtain ⟨h1, h2⟩ := h
  obtain ⟨h3, h4⟩ := h'
  cases o
  cases q
  simp only [mk.injEq] at *
  omega

/-- A split leaves something. -/
theorem splitBound_ne_nil (ho : o.Proper) (hq : q.m_lb ≤ q.m_ub) (hit : o.Hits q)
    (run : o.splitBound q = .ok us) : ∃ u, u ∈ us := by
  by_cases reaches : o.Within q ∧ q ≠ o
  · obtain ⟨u, hu, _⟩ := splitBound_inverted ho.le reaches.1 reaches.2 run
    exact ⟨u, hu⟩
  · obtain ⟨us', run', _, met, _⟩ := splitBound_tiles ho hq hit fun within => by
      by_contra ne
      exact reaches ⟨within, ne⟩
    cases run.symm.trans run'
    exact ⟨_, met⟩

end Bound

namespace BBX

variable {original querybbx : BBX}

/-- Every axis has a cell and `int` ends. -/
def Proper (b : BBX) : Prop := ∀ bound ∈ b.BoundList, bound.Proper

instance (b : BBX) : Decidable b.Proper := inferInstanceAs (Decidable (∀ _ ∈ _, _))

theorem Proper.wellFormed {b : BBX} (h : b.Proper) : b.WellFormed := fun bound hb => (h bound hb).le

/-- The pieces of the axes without the one that is left out, as boxes. -/
def pieces (axes : List (List Bound)) (out : List Bound) : List BBX :=
  ((grid axes).filter (· ≠ out)).map fun bounds => ⟨0, bounds⟩

theorem mem_pieces {axes : List (List Bound)} {out : List Bound} {u : BBX} :
    u ∈ pieces axes out ↔
      u.m_status = 0 ∧ List.Forall₂ (· ∈ ·) u.BoundList axes ∧ u.BoundList ≠ out := by
  obtain ⟨status, bounds⟩ := u
  simp only [pieces, List.mem_map, List.mem_filter, mem_grid, decide_eq_true_eq, mk.injEq]
  constructor
  · rintro ⟨bounds, ⟨mem, ne⟩, rfl, rfl⟩
    exact ⟨rfl, mem, ne⟩
  · rintro ⟨rfl, mem, ne⟩
    exact ⟨bounds, ⟨mem, ne⟩, rfl, rfl⟩

theorem pieces_eq (axes : List (List Bound)) (out : List Bound) : pieces axes out =
    (grid axes).filterMap fun bounds => if bounds = out then none else some ⟨0, bounds⟩ := by
  rw [pieces, ← List.filterMap_eq_filter, List.map_filterMap]
  refine List.filterMap_congr fun bounds _ => ?_
  by_cases h : bounds = out <;> simp [Option.guard, h]

theorem grid_singleton (us : List Bound) : grid [us] = us.map fun u => [u] := by
  simp [grid, List.map_eq_flatMap]

theorem getOverlapBBX_of_hits (dims : original.Dims) (hits : original.Hits querybbx) :
    getOverlapBBX original querybbx = .ok (some (original.meet querybbx)) :=
  getOverlapBBX_eq_ok.mpr ⟨hits.dims, dims, (if_pos hits).symm⟩

/-- A split of boxes of the same dimensions returns only when they overlap. -/
theorem hits_of_splitReduceBBX {us : List BBX} (same : querybbx.m_dims = original.m_dims)
    (h : splitReduceBBX original querybbx = .ok us) : original.Dims ∧ original.Hits querybbx := by
  unfold splitReduceBBX at h
  rw [if_neg (not_not.mpr same)] at h
  obtain ⟨overlap, found, h⟩ := bind_eq_ok.mp h
  obtain ⟨_, dims, rfl⟩ := getOverlapBBX_eq_ok.mp found
  by_cases hits : original.Hits querybbx
  · exact ⟨dims, hits⟩
  · simp [if_neg hits, throw, throwThe, MonadExceptOf.throw] at h

/-- In two dimensions the piece that is the overlap is left out. -/
theorem splitReduceBBX_plane {o0 o1 q0 q1 : Bound} {s s' : Int} {r : List BBX}
    (hit0 : o0.Hits q0) (hit1 : o1.Hits q1) :
    splitReduceBBX ⟨s, [o0, o1]⟩ ⟨s', [q0, q1]⟩ = .ok r ↔ ∃ us0 us1,
      o0.splitBound q0 = .ok us0 ∧ o1.splitBound q1 = .ok us1 ∧
        r = pieces [us0, us1] [o0.meet q0, o1.meet q1] := by
  have same : (⟨s', [q0, q1]⟩ : BBX).m_dims = (⟨s, [o0, o1]⟩ : BBX).m_dims := rfl
  have overlaps : getOverlapBBX ⟨s, [o0, o1]⟩ ⟨s', [q0, q1]⟩ =
      .ok (some ⟨0, [o0.meet q0, o1.meet q1]⟩) :=
    getOverlapBBX_of_hits ⟨by simp [m_dims], by simp [m_dims]⟩ (.cons hit0 (.cons hit1 .nil))
  have listed : ∀ us0 us1 : List Bound, (us0.flatMap fun v0 => us1.filterMap fun v1 =>
      if v0.equal (o0.meet q0) && v1.equal (o1.meet q1) then none
      else some (⟨0, [v0, v1]⟩ : BBX)) = pieces [us0, us1] [o0.meet q0, o1.meet q1] := by
    intro us0 us1
    rw [pieces_eq, grid, grid_singleton]
    simp [List.filterMap_flatMap, Function.comp_def]
  unfold splitReduceBBX
  rw [if_neg (not_not.mpr same)]
  constructor
  · intro run
    obtain ⟨overlap, hover, run⟩ := bind_eq_ok.mp run
    cases overlaps.symm.trans hover
    obtain ⟨us0, h0, run⟩ := bind_eq_ok.mp run
    obtain ⟨us1, h1, run⟩ := bind_eq_ok.mp run
    cases run
    exact ⟨us0, us1, h0, h1, listed us0 us1⟩
  · rintro ⟨us0, us1, h0, h1, rfl⟩
    refine bind_eq_ok.mpr ⟨_, overlaps, ?_⟩
    refine bind_eq_ok.mpr ⟨us0, h0, bind_eq_ok.mpr ⟨us1, h1, ?_⟩⟩
    exact congrArg Except.ok (listed us0 us1)

/-- In three dimensions the piece that is the query is left out. -/
theorem splitReduceBBX_space {o0 o1 o2 q0 q1 q2 : Bound} {s s' : Int} {r : List BBX}
    (hit0 : o0.Hits q0) (hit1 : o1.Hits q1) (hit2 : o2.Hits q2) :
    splitReduceBBX ⟨s, [o0, o1, o2]⟩ ⟨s', [q0, q1, q2]⟩ = .ok r ↔ ∃ us0 us1 us2,
      o0.splitBound q0 = .ok us0 ∧ o1.splitBound q1 = .ok us1 ∧ o2.splitBound q2 = .ok us2 ∧
        r = pieces [us0, us1, us2] [q0, q1, q2] := by
  have same : (⟨s', [q0, q1, q2]⟩ : BBX).m_dims = (⟨s, [o0, o1, o2]⟩ : BBX).m_dims := rfl
  have overlaps : getOverlapBBX ⟨s, [o0, o1, o2]⟩ ⟨s', [q0, q1, q2]⟩ =
      .ok (some ⟨0, [o0.meet q0, o1.meet q1, o2.meet q2]⟩) :=
    getOverlapBBX_of_hits ⟨by simp [m_dims], by simp [m_dims]⟩
      (.cons hit0 (.cons hit1 (.cons hit2 .nil)))
  have listed : ∀ us0 us1 us2 : List Bound, (us0.flatMap fun v0 => us1.flatMap fun v1 =>
      us2.filterMap fun v2 => if v0.equal q0 && v1.equal q1 && v2.equal q2 then none
      else some (⟨0, [v0, v1, v2]⟩ : BBX)) = pieces [us0, us1, us2] [q0, q1, q2] := by
    intro us0 us1 us2
    rw [pieces_eq, grid, grid, grid_singleton]
    simp [List.filterMap_flatMap, List.map_flatMap, Function.comp_def, and_assoc]
  unfold splitReduceBBX
  rw [if_neg (not_not.mpr same)]
  constructor
  · intro run
    obtain ⟨overlap, hover, run⟩ := bind_eq_ok.mp run
    cases overlaps.symm.trans hover
    obtain ⟨us0, h0, run⟩ := bind_eq_ok.mp run
    obtain ⟨us1, h1, run⟩ := bind_eq_ok.mp run
    obtain ⟨us2, h2, run⟩ := bind_eq_ok.mp run
    cases run
    exact ⟨us0, us1, us2, h0, h1, h2, listed us0 us1 us2⟩
  · rintro ⟨us0, us1, us2, h0, h1, h2, rfl⟩
    refine bind_eq_ok.mpr ⟨_, overlaps, ?_⟩
    refine bind_eq_ok.mpr ⟨us0, h0, bind_eq_ok.mpr ⟨us1, h1, bind_eq_ok.mpr ⟨us2, h2, ?_⟩⟩⟩
    exact congrArg Except.ok (listed us0 us1 us2)

/-- On one axis nothing is returned. -/
theorem splitReduceBBX_line {o0 q0 : Bound} {s s' : Int} (hit0 : o0.Hits q0) :
    splitReduceBBX ⟨s, [o0]⟩ ⟨s', [q0]⟩ = .ok [] := by
  have same : (⟨s', [q0]⟩ : BBX).m_dims = (⟨s, [o0]⟩ : BBX).m_dims := rfl
  have overlaps : getOverlapBBX ⟨s, [o0]⟩ ⟨s', [q0]⟩ = .ok (some ⟨0, [o0.meet q0]⟩) :=
    getOverlapBBX_of_hits ⟨by simp [m_dims], by simp [m_dims]⟩ (.cons hit0 .nil)
  unfold splitReduceBBX
  rw [if_neg (not_not.mpr same)]
  exact bind_eq_ok.mpr ⟨_, overlaps, rfl⟩

/-- The pieces of tiled axes tile the box without the one that is left out. -/
theorem tiles_pieces {axes : List (List Bound)} {bounds out : List Bound} (s : Int)
    (tiled : List.Forall₂
      (fun us b => Tiles Bound.Contains us (points Bound.Contains b)) axes bounds)
    (mem : List.Forall₂ (· ∈ ·) out axes) : Tiles Contains (pieces axes out)
      (points Contains ⟨s, bounds⟩ \ points (List.Forall₂ Bound.Contains) out) := by
  have sides : List.Forall₂ (Tiles Bound.Contains) axes (bounds.map (points Bound.Contains)) :=
    List.forall₂_map_right_iff.mpr tiled
  have whole := (tiles_grid sides).without (mem_grid.mpr mem)
  have named : ∀ bounds p, Contains (⟨0, bounds⟩ : BBX) p ↔ List.Forall₂ Bound.Contains bounds p :=
    fun _ _ => Iff.rfl
  refine (whole.map named).congr fun p => ?_
  rw [Set.mem_sdiff, Set.mem_sdiff, mem_box_points]
  rfl

theorem wellFormed_of_mem_pieces {axes : List (List Bound)} {out : List Bound} {u : BBX}
    (proper : ∀ us ∈ axes, ∀ bound ∈ us, bound.Proper) (hu : u ∈ pieces axes out) :
    u.m_dims = axes.length ∧ u.Proper := by
  obtain ⟨_, mem, _⟩ := mem_pieces.mp hu
  exact ⟨mem.length_eq, forall_of_mem_grid proper (mem_grid.mpr mem)⟩

/-- The boxes are what is left of a box when another is taken out. -/
structure Subtracts (original querybbx : BBX) (bbxList : List BBX) : Prop where
  wellFormed : ∀ u ∈ bbxList, u.m_dims = original.m_dims ∧ u.WellFormed
  tiles : Tiles Contains bbxList (points Contains original \ points Contains querybbx)

/-- Nothing is left on one axis, in two dimensions the query reaches over no axis that it does not
equal, and in three it lies inside. -/
def Subtractable (original querybbx : BBX) : Prop :=
  match original.m_dims with
  | 1 => List.Forall₂ Bound.Within original.BoundList querybbx.BoundList
  | 2 => List.Forall₂ (fun o q => o.Within q → q = o) original.BoundList querybbx.BoundList
  | _ => List.Forall₂ (fun o q => q.Within o) original.BoundList querybbx.BoundList

theorem le_of_row {axes : List (List Bound)} {out row : List Bound}
    (wellFormed : ∀ u ∈ pieces axes out, u.WellFormed) (le : ∀ b ∈ out, b.m_lb ≤ b.m_ub)
    (mem : List.Forall₂ (· ∈ ·) row axes) : ∀ b ∈ row, b.m_lb ≤ b.m_ub := by
  by_cases same : row = out
  · rwa [same]
  · exact wellFormed ⟨0, row⟩ (mem_pieces.mpr ⟨rfl, mem, same⟩)

theorem subtracts_pieces {axes : List (List Bound)} {bounds qs out : List Bound} {s s' : Int}
    (tiled : List.Forall₂
      (fun us b => Tiles Bound.Contains us (points Bound.Contains b)) axes bounds)
    (mem : List.Forall₂ (· ∈ ·) out axes) (proper : ∀ us ∈ axes, ∀ bound ∈ us, bound.Proper)
    (same : List.zipWith Bound.meet bounds qs = out) (dims : bounds.length = qs.length) :
    Subtracts ⟨s, bounds⟩ ⟨s', qs⟩ (pieces axes out) := by
  constructor
  · intro u hu
    obtain ⟨len, wf⟩ := wellFormed_of_mem_pieces proper hu
    exact ⟨len.trans tiled.length_eq, wf.wellFormed⟩
  · refine (tiles_pieces s tiled mem).congr fun p => ?_
    have both : List.Forall₂ Bound.Contains out p ↔
        Contains ⟨s, bounds⟩ p ∧ Contains ⟨s', qs⟩ p := by
      rw [← same]
      exact contains_meet (a := ⟨s, bounds⟩) (b := ⟨s', qs⟩) dims
    show Contains ⟨s, bounds⟩ p ∧ ¬ Contains ⟨s', qs⟩ p ↔
      Contains ⟨s, bounds⟩ p ∧ ¬ List.Forall₂ Bound.Contains out p
    rw [both]
    tauto

section Axes

variable {o0 o1 o2 q0 q1 q2 : Bound} {s s' : Int}

theorem subtracts_line_iff (wf : o0.m_lb ≤ o0.m_ub) :
    Subtracts ⟨s, [o0]⟩ ⟨s', [q0]⟩ [] ↔ o0.Within q0 := by
  have point : ∀ (t : Int) (b : Bound) (x : Int), Contains ⟨t, [b]⟩ [x] ↔ b.Contains x := by
    intro t b x
    simp [Contains]
  constructor
  · intro sub
    have empty := sub.tiles.eq_nil_iff.mp rfl
    have held : ∀ x, o0.Contains x → q0.Contains x := by
      intro x hx
      by_contra out
      exact empty [x] ⟨(point s o0 x).mpr hx, fun hq => out ((point s' q0 x).mp hq)⟩
    exact ⟨(held o0.m_lb ⟨le_rfl, wf⟩).1, (held o0.m_ub ⟨wf, le_rfl⟩).2⟩
  · rintro ⟨h1, h2⟩
    refine ⟨by simp, tiles_nil.congr fun p => iff_of_false ?_ id⟩
    rintro ⟨ho, hq⟩
    cases ho with
    | @cons _ x _ q hx rest =>
      cases rest
      obtain ⟨hx1, hx2⟩ := hx
      exact hq ((point s' q0 x).mpr ⟨by omega, by omega⟩)

theorem subtracts_plane_iff (p0 : o0.Proper) (p1 : o1.Proper) (le0 : q0.m_lb ≤ q0.m_ub)
    (le1 : q1.m_lb ≤ q1.m_ub) (hit0 : o0.Hits q0) (hit1 : o1.Hits q1) :
    (∃ r, splitReduceBBX ⟨s, [o0, o1]⟩ ⟨s', [q0, q1]⟩ = .ok r ∧
      Subtracts ⟨s, [o0, o1]⟩ ⟨s', [q0, q1]⟩ r) ↔
      (o0.Within q0 → q0 = o0) ∧ (o1.Within q1 → q1 = o1) := by
  constructor
  · rintro ⟨r, run, sub⟩
    obtain ⟨us0, us1, h0, h1, rfl⟩ := (splitReduceBBX_plane hit0 hit1).mp run
    obtain ⟨u0, hu0⟩ := Bound.splitBound_ne_nil p0 le0 hit0 h0
    obtain ⟨u1, hu1⟩ := Bound.splitBound_ne_nil p1 le1 hit1 h1
    have le : ∀ b ∈ [o0.meet q0, o1.meet q1], b.m_lb ≤ b.m_ub := by
      simpa using ⟨Bound.meet_le p0.le le0 hit0, Bound.meet_le p1.le le1 hit1⟩
    have rows : ∀ row, List.Forall₂ (· ∈ ·) row [us0, us1] → ∀ b ∈ row, b.m_lb ≤ b.m_ub :=
      fun _ mem => le_of_row (fun u hu => (sub.wellFormed u hu).2) le mem
    constructor
    · exact Bound.eq_of_upright p0.le h0 fun v hv =>
        rows [v, u1] (.cons hv (.cons hu1 .nil)) v (by simp)
    · exact Bound.eq_of_upright p1.le h1 fun v hv =>
        rows [u0, v] (.cons hu0 (.cons hv .nil)) v (by simp)
  · rintro ⟨in0, in1⟩
    obtain ⟨us0, h0, t0, m0, pr0⟩ := Bound.splitBound_tiles p0 le0 hit0 in0
    obtain ⟨us1, h1, t1, m1, pr1⟩ := Bound.splitBound_tiles p1 le1 hit1 in1
    refine ⟨_, (splitReduceBBX_plane hit0 hit1).mpr ⟨us0, us1, h0, h1, rfl⟩, ?_⟩
    exact subtracts_pieces (.cons t0 (.cons t1 .nil)) (.cons m0 (.cons m1 .nil))
      (by simpa using ⟨pr0, pr1⟩) rfl rfl

theorem subtracts_space_iff (p0 : o0.Proper) (p1 : o1.Proper) (p2 : o2.Proper)
    (le0 : q0.m_lb ≤ q0.m_ub) (le1 : q1.m_lb ≤ q1.m_ub) (le2 : q2.m_lb ≤ q2.m_ub)
    (hit0 : o0.Hits q0) (hit1 : o1.Hits q1) (hit2 : o2.Hits q2) :
    (∃ r, splitReduceBBX ⟨s, [o0, o1, o2]⟩ ⟨s', [q0, q1, q2]⟩ = .ok r ∧
      Subtracts ⟨s, [o0, o1, o2]⟩ ⟨s', [q0, q1, q2]⟩ r) ↔
      q0.Within o0 ∧ q1.Within o1 ∧ q2.Within o2 := by
  constructor
  · rintro ⟨r, run, sub⟩
    obtain ⟨us0, us1, us2, h0, h1, h2, rfl⟩ := (splitReduceBBX_space hit0 hit1 hit2).mp run
    obtain ⟨u0, hu0⟩ := Bound.splitBound_ne_nil p0 le0 hit0 h0
    obtain ⟨u1, hu1⟩ := Bound.splitBound_ne_nil p1 le1 hit1 h1
    obtain ⟨u2, hu2⟩ := Bound.splitBound_ne_nil p2 le2 hit2 h2
    have le : ∀ b ∈ [q0, q1, q2], b.m_lb ≤ b.m_ub := by simpa using ⟨le0, le1, le2⟩
    have rows : ∀ row, List.Forall₂ (· ∈ ·) row [us0, us1, us2] → ∀ b ∈ row, b.m_lb ≤ b.m_ub :=
      fun _ mem => le_of_row (fun u hu => (sub.wellFormed u hu).2) le mem
    have in0 : o0.Within q0 → q0 = o0 := Bound.eq_of_upright p0.le h0 fun v hv =>
      rows [v, u1, u2] (.cons hv (.cons hu1 (.cons hu2 .nil))) v (by simp)
    have in1 : o1.Within q1 → q1 = o1 := Bound.eq_of_upright p1.le h1 fun v hv =>
      rows [u0, v, u2] (.cons hu0 (.cons hv (.cons hu2 .nil))) v (by simp)
    have in2 : o2.Within q2 → q2 = o2 := Bound.eq_of_upright p2.le h2 fun v hv =>
      rows [u0, u1, v] (.cons hu0 (.cons hu1 (.cons hv .nil))) v (by simp)
    obtain ⟨_, h0', _, m0, _⟩ := Bound.splitBound_tiles p0 le0 hit0 in0
    obtain ⟨_, h1', _, m1, _⟩ := Bound.splitBound_tiles p1 le1 hit1 in1
    obtain ⟨_, h2', _, m2, _⟩ := Bound.splitBound_tiles p2 le2 hit2 in2
    cases h0.symm.trans h0'
    cases h1.symm.trans h1'
    cases h2.symm.trans h2'
    -- the overlap would be returned where it is not the query
    have same : [o0.meet q0, o1.meet q1, o2.meet q2] = [q0, q1, q2] := by
      by_contra ne
      have piece : (⟨0, [o0.meet q0, o1.meet q1, o2.meet q2]⟩ : BBX) ∈
          pieces [us0, us1, us2] [q0, q1, q2] :=
        mem_pieces.mpr ⟨rfl, .cons m0 (.cons m1 (.cons m2 .nil)), ne⟩
      obtain ⟨p, hp⟩ := sub.tiles.inhabited _ piece
      have both : Contains ⟨s, [o0, o1, o2]⟩ p ∧ Contains ⟨s', [q0, q1, q2]⟩ p :=
        (contains_meet (a := ⟨s, [o0, o1, o2]⟩) (b := ⟨s', [q0, q1, q2]⟩) rfl).mp hp
      exact ((sub.tiles.covers p).mpr ⟨_, piece, hp⟩).2 both.2
    simp only [List.cons.injEq, and_true] at same
    exact ⟨Bound.within_of_meet_eq same.1, Bound.within_of_meet_eq same.2.1,
      Bound.within_of_meet_eq same.2.2⟩
  · rintro ⟨in0, in1, in2⟩
    obtain ⟨us0, h0, t0, m0, pr0⟩ := Bound.splitBound_tiles p0 le0 hit0
      fun within => Bound.within_antisymm within in0
    obtain ⟨us1, h1, t1, m1, pr1⟩ := Bound.splitBound_tiles p1 le1 hit1
      fun within => Bound.within_antisymm within in1
    obtain ⟨us2, h2, t2, m2, pr2⟩ := Bound.splitBound_tiles p2 le2 hit2
      fun within => Bound.within_antisymm within in2
    have same : [o0.meet q0, o1.meet q1, o2.meet q2] = [q0, q1, q2] := by
      rw [Bound.meet_eq_of_within in0, Bound.meet_eq_of_within in1, Bound.meet_eq_of_within in2]
    refine ⟨_, (splitReduceBBX_space hit0 hit1 hit2).mpr ⟨us0, us1, us2, h0, h1, h2, rfl⟩, ?_⟩
    rw [Bound.meet_eq_of_within in0] at m0
    rw [Bound.meet_eq_of_within in1] at m1
    rw [Bound.meet_eq_of_within in2] at m2
    exact subtracts_pieces (.cons t0 (.cons t1 (.cons t2 .nil)))
      (.cons m0 (.cons m1 (.cons m2 .nil))) (by simpa using ⟨pr0, pr1, pr2⟩) same rfl

end Axes

/-- The split of boxes that share a point is the difference exactly where it is subtractable. -/
theorem subtracts_iff (dims : original.Dims) (same : querybbx.m_dims = original.m_dims)
    (ho : original.Proper) (hq : querybbx.Proper)
    (shared : ∃ p, original.Contains p ∧ querybbx.Contains p) :
    (∃ bbxList, splitReduceBBX original querybbx = .ok bbxList ∧
      original.Subtracts querybbx bbxList) ↔ original.Subtractable querybbx := by
  obtain ⟨p, hop, hqp⟩ := shared
  have hits := hits_of_contains hop hqp
  obtain ⟨s, os⟩ := original
  obtain ⟨s', qs⟩ := querybbx
  simp only [m_dims, Dims, Hits, Proper] at *
  obtain ⟨h1, h3⟩ := dims
  induction os, h3 using Array3.axes_cases with
  | nil => simp at h1
  | line o0 =>
    cases hits with
    | @cons _ q0 _ _ hit0 rest =>
      cases rest
      have run : splitReduceBBX ⟨s, [o0]⟩ ⟨s', [q0]⟩ = .ok [] := splitReduceBBX_line hit0
      have left : Subtracts ⟨s, [o0]⟩ ⟨s', [q0]⟩ [] ↔ o0.Within q0 :=
        subtracts_line_iff (ho o0 (by simp)).le
      rw [run]
      simp [left, Subtractable, m_dims]
  | plane o0 o1 =>
    cases hits with
    | @cons _ q0 _ _ hit0 rest =>
      cases rest with
      | @cons _ q1 _ _ hit1 rest =>
        cases rest
        rw [subtracts_plane_iff (ho o0 (by simp)) (ho o1 (by simp)) (hq q0 (by simp)).le
          (hq q1 (by simp)).le hit0 hit1]
        simp [Subtractable, m_dims]
  | space o0 o1 o2 =>
    cases hits with
    | @cons _ q0 _ _ hit0 rest =>
      cases rest with
      | @cons _ q1 _ _ hit1 rest =>
        cases rest with
        | @cons _ q2 _ _ hit2 rest =>
          cases rest
          rw [subtracts_space_iff (ho o0 (by simp)) (ho o1 (by simp)) (ho o2 (by simp))
            (hq q0 (by simp)).le (hq q1 (by simp)).le (hq q2 (by simp)).le hit0 hit1 hit2]
          simp [Subtractable, m_dims]

def square : BBX := ⟨0, [⟨0, 7⟩, ⟨0, 7⟩]⟩

/-- A query that sticks out of the square at one side. -/
def strip : BBX := ⟨0, [⟨5, 9⟩, ⟨2, 3⟩]⟩

theorem subtracts_strip : ∃ bbxList, splitReduceBBX square strip = .ok bbxList ∧
    square.Subtracts strip bbxList := by
  have dims : square.Dims := ⟨by decide, by decide⟩
  have shared : ∃ p, square.Contains p ∧ strip.Contains p := ⟨[6, 2], by decide, by decide⟩
  have same : strip.m_dims = square.m_dims := rfl
  refine (subtracts_iff dims same (by decide) (by decide) shared).mpr ?_
  show List.Forall₂ _ _ _
  exact .cons (by decide) (.cons (by decide) .nil)

/-- Two of ten cells are taken out, and none is left. -/
theorem line_lost : splitReduceBBX ⟨0, [⟨0, 9⟩]⟩ ⟨0, [⟨3, 4⟩]⟩ = .ok [] ∧
    ¬ Subtracts ⟨0, [⟨0, 9⟩]⟩ ⟨0, [⟨3, 4⟩]⟩ [] := by
  refine ⟨by decide, fun sub => ?_⟩
  have within : Bound.Within ⟨0, 9⟩ ⟨3, 4⟩ := (subtracts_line_iff (by decide)).mp sub
  exact absurd within (by decide)

end BBX

end Gorilla
