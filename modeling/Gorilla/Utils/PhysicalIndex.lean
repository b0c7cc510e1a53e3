import Gorilla.Utils.Assembly

/-!
# Which boxes the physical index numbers

The index is a row-major numeral computed in `int`, the number of cells a product in `size_t`.
The two agree while the last index is an `int`.
-/

namespace Gorilla

namespace BBX

/-- The number of cells of the box. -/
def cellNum (b : BBX) : Nat :=
  (b.BoundList.map fun bound => (bound.m_ub - bound.m_lb + 1).toNat).prod

/-- The index numbers the cells of the box below `n`, `x` fastest, and is refused elsewhere. -/
structure Numbered (b : BBX) (n : UInt64) : Prop where
  count : b.getElemNum = .ok n
  index : ∀ c, b.In c → ∃ i, b.getPhysicalIndex b.m_dims c = .ok i ∧ i < n ∧
    (i.toNat : Int) = b.flat c
  injective : ∀ c d, b.In c → b.In d →
    b.getPhysicalIndex b.m_dims c = b.getPhysicalIndex b.m_dims d → c = d
  onto : ∀ k < n, ∃ c, b.In c ∧ b.getPhysicalIndex b.m_dims c = .ok k
  outside : ∀ c : Array3 Int, ¬ b.Contains (c.toList.take b.m_dims) →
    ∃ what, b.getPhysicalIndex b.m_dims c = .error (.runtime_error what)

variable {b : BBX}

theorem cellNum_eq (hd : b.Dims) (hwf : b.WellFormed) : (b.cellNum : Int) = b.cells := by
  rw [cells_eq_prod hd, cellNum]
  simp only [WellFormed] at hwf
  generalize b.BoundList = bs at hwf
  induction bs with
  | nil => rfl
  | cons bound bs ih =>
    have hb := hwf bound List.mem_cons_self
    rw [List.map_cons, List.map_cons, List.prod_cons, List.prod_cons, Nat.cast_mul,
      ih fun c hc => hwf c (List.mem_cons_of_mem _ hc), Int.toNat_of_nonneg (by omega)]

/-- One axis refuses a coordinate, and the axes before it compute. -/
theorem axes_thrown {l : List (Int × Bound)}
    (axes : ∀ c ∈ l, IsInt (c.2.m_ub - c.2.m_lb) ∧ IsInt (c.2.m_ub - c.2.m_lb + 1))
    (h : ∃ c ∈ l, ¬ c.2.Contains c.1) :
    ∃ what, l.mapM (fun c => axisIndex c.1 c.2) = .error (.runtime_error what) := by
  induction l with
  | nil =>
    obtain ⟨c, hc, _⟩ := h
    cases hc
  | cons c l ih =>
    by_cases hc : c.2.Contains c.1
    · have ok : axisIndex c.1 c.2 = .ok (c.1 - c.2.m_lb, c.2.m_ub - c.2.m_lb + 1) :=
        axisIndex_eq_ok.mpr ⟨hc, ⟨isInt_offset hc (axes c List.mem_cons_self).1,
          axes c List.mem_cons_self⟩, rfl⟩
      obtain ⟨d, hd, hout⟩ := h
      have hd : d ∈ l := by
        rcases List.mem_cons.mp hd with rfl | hd
        · exact absurd hc hout
        · exact hd
      obtain ⟨what, thrown⟩ := ih (fun d hd => axes d (List.mem_cons_of_mem c hd)) ⟨d, hd, hout⟩
      exact ⟨what, by rw [List.mapM_cons, ok, thrown]; rfl⟩
    · have beyond : c.2.m_ub < c.1 ∨ c.1 < c.2.m_lb := by
        unfold Bound.Contains at hc
        omega
      have thrown : axisIndex c.1 c.2 =
          .error (.runtime_error "the coordinates beyond the boundry of the BBX") := if_pos beyond
      exact ⟨_, by rw [List.mapM_cons, thrown]; rfl⟩

/-- The coordinates the range checks compare, and the bounds they compare them with. -/
theorem contains_iff_zip (few : b.m_dims ≤ 3) {c : Array3 Int} :
    b.Contains (c.toList.take b.m_dims) ↔
      ∀ d ∈ c.toList.zip b.BoundList, d.2.Contains d.1 := by
  obtain ⟨st, bs⟩ := b
  simp only [m_dims] at few
  induction bs, few using Array3.axes_cases with
  | nil => simp [Contains, m_dims]
  | line b0 => simp [Contains, Array3.toList, m_dims]
  | plane b0 b1 => simp [Contains, Array3.toList, m_dims]
  | space b0 b1 b2 => simp [Contains, Array3.toList, m_dims]

theorem getPhysicalIndex_outside (few : b.m_dims ≤ 3) (axes : b.AxesFit) {c : Array3 Int}
    (h : ¬ b.Contains (c.toList.take b.m_dims)) : Raises (b.getPhysicalIndex b.m_dims c) := by
  rw [contains_iff_zip few] at h
  push Not at h
  obtain ⟨what, thrown⟩ := axes_thrown (fun d hd => axes d.2 (List.of_mem_zip hd).2) h
  have few : ¬ DEFAULT_MAX_DIM < b.m_dims := Nat.not_lt.mpr few
  refine ⟨what, ?_⟩
  unfold getPhysicalIndex
  rw [if_neg (by simp), if_neg few, thrown]
  rfl

/-- The upper corner of a box is its last cell. -/
theorem flat_last (b : BBX) : b.flat b.getIndexub = b.cells - 1 := by
  simp only [flat, cells]
  ring

theorem exists_cell (hwf : b.WellFormed) (hd : b.Dims) {k : Int} (h0 : 0 ≤ k) (hk : k < b.cells) :
    ∃ c, b.In c ∧ b.flat c = k := by
  obtain ⟨⟨_, hx⟩, ⟨_, hy⟩, _, hz⟩ := hwf.corner hd
  have extents : ∀ n ∈ [b.getIndexub.x - b.getIndexlb.x + 1, b.getIndexub.y - b.getIndexlb.y + 1,
      b.getIndexub.z - b.getIndexlb.z + 1], 0 < n := by
    intro n hn
    simp only [List.mem_cons, List.not_mem_nil, or_false] at hn
    omega
  obtain ⟨ds, digits, value⟩ := MixedRadix.exists_digits extents h0 (by simpa [cells] using hk)
  cases digits with
  | cons dx digits =>
  cases digits with
  | cons dy digits =>
  cases digits with
  | cons dz digits =>
  cases digits with
  | nil =>
    rename_i x y z
    refine ⟨⟨b.getIndexlb.x + x, b.getIndexlb.y + y, b.getIndexlb.z + z⟩,
      ⟨⟨by show _ ≤ _ + x; omega, by show _ + x ≤ _; omega⟩,
        ⟨by show _ ≤ _ + y; omega, by show _ + y ≤ _; omega⟩,
        by show _ ≤ _ + z; omega, by show _ + z ≤ _; omega⟩, ?_⟩
    rw [flat_eq_value, ← value]
    simp only [add_sub_cancel_left]

/-- A box with a cell is numbered when its last index is an `int`. -/
theorem numbered_of_fits (hd : b.Dims) (axes : b.AxesFit) (hwf : b.WellFormed)
    (fits : b.cells ≤ 2 ^ 31) : ∃ n, b.Numbered n := by
  obtain ⟨n, hn, hv⟩ := getElemNum_fits hd hwf axes (by omega)
  have computed : ∀ c, b.In c → b.getPhysicalIndex b.m_dims c = .ok (size_t (b.flat c)) ∧
      ((size_t (b.flat c)).toNat : Int) = b.flat c ∧ b.flat c < b.cells := by
    intro c hc
    have h0 := flat_nonneg hc
    have h1 := flat_lt_cells hc
    refine ⟨getPhysicalIndex_fits hd hc axes (by unfold INT_MAX; omega), ?_, h1⟩
    rw [size_t_toNat h0 (by omega)]
    omega
  refine ⟨n, hn, ?_, ?_, ?_, fun c => getPhysicalIndex_outside hd.2 axes⟩
  · intro c hc
    obtain ⟨index, value, lt⟩ := computed c hc
    refine ⟨_, index, ?_, value⟩
    rw [UInt64.lt_iff_toNat_lt]
    omega
  · intro c d hc hd' same
    obtain ⟨ic, vc, _⟩ := computed c hc
    obtain ⟨id, vd, _⟩ := computed d hd'
    rw [ic, id] at same
    refine flat_inj hc hd' ?_
    rw [← vc, ← vd, Except.ok.inj same]
  · intro k hk
    rw [UInt64.lt_iff_toNat_lt] at hk
    obtain ⟨c, hc, hflat⟩ := exists_cell hwf hd (k := k.toNat) (by omega) (by omega)
    obtain ⟨index, value, _⟩ := computed c hc
    refine ⟨c, hc, ?_⟩
    rw [index]
    congr 1
    rw [← UInt64.toNat_inj]
    omega

/-- The last index of a numbered box is an `int`. -/
theorem cells_le_of_numbered (hd : b.Dims) (hwf : b.WellFormed) {n : UInt64}
    (h : b.Numbered n) : b.cells ≤ 2 ^ 31 := by
  have last := (in_corners (hwf.corner hd)).2
  obtain ⟨i, hi, _, _⟩ := h.index _ last
  obtain ⟨_, _, hint⟩ := getPhysicalIndex_eq hd (in_padded hd last) hi
  rw [flat_last] at hint
  unfold IsInt INT_MAX at hint
  omega

theorem wellFormed_of_in (hd : b.Dims) {c : Array3 Int} (h : b.In c) : b.WellFormed := by
  refine padded_cases (P := fun b c => b.In c → b.WellFormed) hd (in_padded hd h) ?_ ?_ ?_ h
  · rintro st b0 x ⟨⟨x1, x2⟩, _⟩
    exact List.forall_mem_cons.mpr ⟨x1.trans x2, List.forall_mem_nil _⟩
  · rintro st b0 b1 x y ⟨⟨x1, x2⟩, ⟨y1, y2⟩, _⟩
    exact List.forall_mem_cons.mpr ⟨x1.trans x2,
      List.forall_mem_cons.mpr ⟨y1.trans y2, List.forall_mem_nil _⟩⟩
  · rintro st b0 b1 b2 x y z ⟨⟨x1, x2⟩, ⟨y1, y2⟩, z1, z2⟩
    exact List.forall_mem_cons.mpr ⟨x1.trans x2, List.forall_mem_cons.mpr ⟨y1.trans y2,
      List.forall_mem_cons.mpr ⟨z1.trans z2, List.forall_mem_nil _⟩⟩⟩

/-- A box is numbered exactly when it has at most 2^31 cells; one without a cell also needs the
product of its lengths to be zero modulo 2^64. -/
theorem numbered_iff (hd : b.Dims)
    (lengths : ∀ bound ∈ b.BoundList, IsInt (bound.m_ub - bound.m_lb + 1)) :
    (∃ n, b.Numbered n) ↔
      (b.WellFormed ∧ b.cellNum ≤ 2 ^ 31) ∨
        (¬ b.WellFormed ∧ b.AxesFit ∧ 2 ^ 64 ∣ b.elemCount) := by
  by_cases hwf : b.WellFormed
  · have count := cellNum_eq hd hwf
    have axes : b.AxesFit := by
      intro bound hb
      have fits := lengths bound hb
      have filled := hwf bound hb
      refine ⟨?_, fits⟩
      unfold IsInt INT_MIN INT_MAX at fits ⊢
      omega
    constructor
    · rintro ⟨n, h⟩
      have := cells_le_of_numbered hd hwf h
      exact .inl ⟨hwf, by omega⟩
    · rintro (⟨_, fits⟩ | ⟨none, _⟩)
      · exact numbered_of_fits hd axes hwf (by omega)
      · exact absurd hwf none
  · have empty : ∀ c, ¬ b.In c := fun c hc => hwf (wellFormed_of_in hd hc)
    constructor
    · rintro ⟨n, h⟩
      have zero : n = 0 := by
        by_contra some
        obtain ⟨c, hc, _⟩ := h.onto 0 (UInt64.pos_iff_ne_zero.mpr some)
        exact empty c hc
      have axes : b.AxesFit := axesFit_of_count h.count
      have count := Except.ok.inj ((getElemNum_eq axes).symm.trans h.count)
      exact .inr ⟨hwf, axes, size_t_eq_zero.mp (count.trans zero)⟩
    · rintro (⟨filled, _⟩ | ⟨_, axes, whole⟩)
      · exact absurd filled hwf
      · have zero : b.getElemNum = .ok 0 := by rw [getElemNum_eq axes, size_t_eq_zero.mpr whole]
        refine ⟨0, zero, fun c hc => absurd hc (empty c), fun c _ hc => absurd hc (empty c), ?_,
          fun c => getPhysicalIndex_outside hd.2 axes⟩
        intro k hk
        exact absurd hk UInt64.not_lt_zero

theorem plane_numbered : ∃ n, Numbered ⟨0, [⟨-3, 4⟩, ⟨0, 9⟩]⟩ n :=
  (numbered_iff ⟨by decide, by decide⟩ (by decide)).mpr (.inl (by decide))

/-- A plane of 65536 times 65536 cells: the index of its last cell overflows. -/
theorem largePlane_overflows : AxesFit ⟨0, [⟨0, 65535⟩, ⟨0, 65535⟩]⟩ ∧
    cellNum ⟨0, [⟨0, 65535⟩, ⟨0, 65535⟩]⟩ < 2 ^ 64 ∧
    ¬ ∃ n, Numbered ⟨0, [⟨0, 65535⟩, ⟨0, 65535⟩]⟩ n := by
  refine ⟨by decide, by decide, ?_⟩
  rintro ⟨n, h⟩
  obtain ⟨i, hi, _⟩ := h.index ⟨65535, 65535, 0⟩ (by decide)
  have overflow : getPhysicalIndex ⟨0, [⟨0, 65535⟩, ⟨0, 65535⟩]⟩ 2 ⟨65535, 65535, 0⟩ =
      .error (.undefined "signed overflow") := by decide
  exact absurd (hi.symm.trans overflow) nofun

end BBX

end Gorilla
