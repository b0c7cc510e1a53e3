import Gorilla.Lib.MixedRadix
import Gorilla.Lib.Overlay
import Gorilla.Utils.MatrixTool
import Gorilla.Utils.Overlap
import Mathlib.Algebra.Order.BigOperators.GroupWithZero.List

/-!
# What the assembly leaves in its buffer

Cell by cell, the assembled buffer is the overlay of the views in their order, over
uninitialised memory. A row copy moves whole cells, so no cell mixes two views.
-/

namespace Gorilla

namespace BBX

/-- The cell lies between the padded corners of the box. -/
def In (b : BBX) (c : Array3 Int) : Prop :=
  (b.getIndexlb.x ≤ c.x ∧ c.x ≤ b.getIndexub.x) ∧
  (b.getIndexlb.y ≤ c.y ∧ c.y ≤ b.getIndexub.y) ∧
  (b.getIndexlb.z ≤ c.z ∧ c.z ≤ b.getIndexub.z)

instance (b : BBX) (c : Array3 Int) : Decidable (b.In c) := inferInstanceAs (Decidable (_ ∧ _))

/-- The row-major index of a cell, over the integers. -/
def flat (b : BBX) (c : Array3 Int) : Int :=
  (c.x - b.getIndexlb.x) + (b.getIndexub.x - b.getIndexlb.x + 1) *
    ((c.y - b.getIndexlb.y) + (b.getIndexub.y - b.getIndexlb.y + 1) * (c.z - b.getIndexlb.z))

theorem flat_eq_value (b : BBX) (c : Array3 Int) :
    b.flat c = MixedRadix.value
      [b.getIndexub.x - b.getIndexlb.x + 1, b.getIndexub.y - b.getIndexlb.y + 1,
        b.getIndexub.z - b.getIndexlb.z + 1]
      [c.x - b.getIndexlb.x, c.y - b.getIndexlb.y, c.z - b.getIndexlb.z] := by
  simp only [flat, MixedRadix.value]
  ring

theorem digits_of_in {b : BBX} {c : Array3 Int} (h : b.In c) :
    MixedRadix.Digits
      [b.getIndexub.x - b.getIndexlb.x + 1, b.getIndexub.y - b.getIndexlb.y + 1,
        b.getIndexub.z - b.getIndexlb.z + 1]
      [c.x - b.getIndexlb.x, c.y - b.getIndexlb.y, c.z - b.getIndexlb.z] := by
  obtain ⟨⟨_, _⟩, ⟨_, _⟩, ⟨_, _⟩⟩ := h
  exact .cons (by omega) (.cons (by omega) (.cons (by omega) .nil))

theorem flat_nonneg {b : BBX} {c : Array3 Int} (h : b.In c) : 0 ≤ b.flat c := by
  rw [flat_eq_value]
  exact MixedRadix.value_nonneg (digits_of_in h)

/-- The number of cells of the padded box. -/
def cells (b : BBX) : Int :=
  (b.getIndexub.x - b.getIndexlb.x + 1) * ((b.getIndexub.y - b.getIndexlb.y + 1) *
    (b.getIndexub.z - b.getIndexlb.z + 1))

theorem flat_lt_cells {b : BBX} {c : Array3 Int} (h : b.In c) : b.flat c < b.cells := by
  have := MixedRadix.value_lt_prod (digits_of_in h)
  rw [flat_eq_value]
  simpa [cells] using this

theorem flat_inj {b : BBX} {c d : Array3 Int} (hc : b.In c) (hd : b.In d)
    (h : b.flat c = b.flat d) : c = d := by
  rw [flat_eq_value, flat_eq_value] at h
  have he := MixedRadix.value_inj (digits_of_in hc) (digits_of_in hd) h
  simp only [List.cons.injEq, and_true] at he
  obtain ⟨x, y, z⟩ := c
  obtain ⟨x', y', z'⟩ := d
  simp only at he
  simp only [Array3.mk.injEq]
  omega

/-- Along a row the index grows with the coordinate. -/
theorem flat_row (b : BBX) (x x' y z : Int) : b.flat ⟨x', y, z⟩ = b.flat ⟨x, y, z⟩ + (x' - x) := by
  simp only [flat]
  ring

end BBX

theorem axisIndex_eq_ok {c : Int} {b : Bound} {r : Int × Int} :
    BBX.axisIndex c b = .ok r ↔
      b.Contains c ∧ (IsInt (c - b.m_lb) ∧ IsInt (b.m_ub - b.m_lb) ∧ IsInt (b.m_ub - b.m_lb + 1)) ∧
        r = (c - b.m_lb, b.m_ub - b.m_lb + 1) := by
  unfold BBX.axisIndex Bound.Contains
  by_cases h : b.m_ub < c ∨ c < b.m_lb
  · constructor
    · intro h'
      rw [if_pos h] at h'
      cases h'
    · rintro ⟨⟨_, _⟩, _⟩
      omega
  · rw [if_neg h]
    constructor
    · intro h'
      obtain ⟨o, ho, h'⟩ := bind_eq_ok.mp h'
      obtain ⟨d, hd, h'⟩ := bind_eq_ok.mp h'
      obtain ⟨n, hn, h'⟩ := bind_eq_ok.mp h'
      obtain ⟨io, rfl⟩ := int_eq_ok.mp ho
      obtain ⟨id, rfl⟩ := int_eq_ok.mp hd
      obtain ⟨in', rfl⟩ := int_eq_ok.mp hn
      cases h'
      exact ⟨⟨by omega, by omega⟩, ⟨io, id, in'⟩, rfl⟩
    · rintro ⟨_, ⟨io, id, in'⟩, rfl⟩
      simp [int_of_isInt io, int_of_isInt id, int_of_isInt in', bind, Except.bind, pure,
        Except.pure]

namespace BBX

/-- The axes a box lacks are held at zero. -/
def Padded (b : BBX) (c : Array3 Int) : Prop := (b.m_dims = 1 → c.y = 0) ∧ (b.m_dims ≤ 2 → c.z = 0)

theorem padded_of_axes {b : BBX} {x y z : Int} (hd : b.Dims)
    (hy : b.getIndexlb.y ≤ y ∧ y ≤ b.getIndexub.y) (hz : b.getIndexlb.z ≤ z ∧ z ≤ b.getIndexub.z) :
    b.Padded ⟨x, y, z⟩ := by
  obtain ⟨h1, h3⟩ := hd
  obtain ⟨st, bs⟩ := b
  simp only [m_dims] at h1 h3
  induction bs, h3 using Array3.axes_cases with
  | nil => simp at h1
  | line b0 =>
    simp only [getIndexlb, getIndexub, List.map_cons, List.map_nil, Array3.ofList] at hy hz
    exact ⟨fun _ => by show y = 0; omega, fun _ => by show z = 0; omega⟩
  | plane b0 b1 =>
    simp only [getIndexlb, getIndexub, List.map_cons, List.map_nil, Array3.ofList] at hz
    exact ⟨by simp [m_dims], fun _ => by show z = 0; omega⟩
  | space b0 b1 b2 => exact ⟨by simp [m_dims], by simp [m_dims]⟩

theorem in_padded {b : BBX} {c : Array3 Int} (hd : b.Dims) (h : b.In c) : b.Padded c :=
  padded_of_axes hd h.2.1 h.2.2

theorem axes_eq_ok {cs : List Int} {bs : List Bound} {axes : List (Int × Int)} :
    (cs.zip bs).mapM (fun c => axisIndex c.1 c.2) = .ok axes ↔
      (∀ c ∈ cs.zip bs, c.2.Contains c.1 ∧ (IsInt (c.1 - c.2.m_lb) ∧
        IsInt (c.2.m_ub - c.2.m_lb) ∧ IsInt (c.2.m_ub - c.2.m_lb + 1))) ∧
      axes = (cs.zip bs).map fun c => (c.1 - c.2.m_lb, c.2.m_ub - c.2.m_lb + 1) := by
  generalize cs.zip bs = l
  induction l generalizing axes with
  | nil => simp [pure, Except.pure, eq_comm]
  | cons c l ih =>
    rw [List.mapM_cons, bind_eq_ok]
    simp only [bind_eq_ok, axisIndex_eq_ok, ih, List.forall_mem_cons, List.map_cons]
    constructor
    · rintro ⟨_, ⟨hc, hi, rfl⟩, _, ⟨hl, rfl⟩, he⟩
      cases he
      exact ⟨⟨⟨hc, hi⟩, hl⟩, rfl⟩
    · rintro ⟨⟨⟨hc, hi⟩, hl⟩, rfl⟩
      exact ⟨_, ⟨hc, hi, rfl⟩, _, ⟨hl, rfl⟩, rfl⟩

/-- A property of boxes and padded cells, axis count by axis count. -/
theorem padded_cases {P : BBX → Array3 Int → Prop} {b : BBX} {c : Array3 Int} (hd : b.Dims)
    (pad : b.Padded c) (line : ∀ st b0 x, P ⟨st, [b0]⟩ ⟨x, 0, 0⟩)
    (plane : ∀ st b0 b1 x y, P ⟨st, [b0, b1]⟩ ⟨x, y, 0⟩)
    (space : ∀ st b0 b1 b2 x y z, P ⟨st, [b0, b1, b2]⟩ ⟨x, y, z⟩) : P b c := by
  obtain ⟨h1, h3⟩ := hd
  obtain ⟨hy, hz⟩ := pad
  obtain ⟨st, bs⟩ := b
  obtain ⟨x, y, z⟩ := c
  simp only [m_dims] at h1 h3 hy hz
  induction bs, h3 using Array3.axes_cases with
  | nil => simp at h1
  | line b0 =>
    obtain rfl : y = 0 := hy rfl
    obtain rfl : z = 0 := hz (by simp)
    exact line st b0 x
  | plane b0 b1 =>
    obtain rfl : z = 0 := hz (by simp)
    exact plane st b0 b1 x y
  | space b0 b1 b2 => exact space st b0 b1 b2 x y z

/-- The offsets of a cell along the axes of the box. -/
def offsets (b : BBX) (c : Array3 Int) : Array3 Int :=
  .ofList 0 ((c.toList.zip b.BoundList).map fun d => d.1 - d.2.m_lb)

/-- The extents of the axes of the box. -/
def shape (b : BBX) (c : Array3 Int) : Array3 Int :=
  .ofList 0 ((c.toList.zip b.BoundList).map fun d => d.2.m_ub - d.2.m_lb + 1)

variable {b : BBX} {c : Array3 Int}

theorem in_iff_axes (hd : b.Dims) (pad : b.Padded c) :
    b.In c ↔ ∀ d ∈ c.toList.zip b.BoundList, d.2.Contains d.1 := by
  refine padded_cases (P := fun b c => b.In c ↔ ∀ d ∈ c.toList.zip b.BoundList, d.2.Contains d.1)
    hd pad ?_ ?_ ?_
  · intro st b0 x
    simp [In, getIndexlb, getIndexub, Array3.ofList, Array3.toList, Bound.Contains]
  · intro st b0 b1 x y
    simp [In, getIndexlb, getIndexub, Array3.ofList, Array3.toList, Bound.Contains]
  · intro st b0 b1 b2 x y z
    simp [In, getIndexlb, getIndexub, Array3.ofList, Array3.toList, Bound.Contains]

theorem flat_eq_axes (hd : b.Dims) (pad : b.Padded c) : b.flat c =
    (b.offsets c).x + (b.shape c).x * ((b.offsets c).y + (b.shape c).y * (b.offsets c).z) := by
  refine padded_cases (P := fun b c => b.flat c =
    (b.offsets c).x + (b.shape c).x * ((b.offsets c).y + (b.shape c).y * (b.offsets c).z))
    hd pad ?_ ?_ ?_
  · intro st b0 x
    simp [flat, offsets, shape, getIndexlb, getIndexub, Array3.ofList, Array3.toList]
  · intro st b0 b1 x y
    simp [flat, offsets, shape, getIndexlb, getIndexub, Array3.ofList, Array3.toList]
  · intro st b0 b1 b2 x y z
    rfl

theorem axes_nonneg (hd : b.Dims) (h : b.In c) :
    (0 ≤ (b.offsets c).x ∧ 0 ≤ (b.offsets c).y ∧ 0 ≤ (b.offsets c).z) ∧
      0 < (b.shape c).x ∧ 0 ≤ (b.shape c).y := by
  refine padded_cases (P := fun b c => b.In c →
    (0 ≤ (b.offsets c).x ∧ 0 ≤ (b.offsets c).y ∧ 0 ≤ (b.offsets c).z) ∧
      0 < (b.shape c).x ∧ 0 ≤ (b.shape c).y) hd (in_padded hd h) ?_ ?_ ?_ h
  · rintro st b0 x ⟨⟨_, _⟩, _⟩
    simp only [offsets, shape, getIndexlb, getIndexub, Array3.ofList, Array3.toList, List.map_cons,
      List.map_nil, List.zip_cons_cons, List.zip_nil_right] at *
    omega
  · rintro st b0 b1 x y ⟨⟨_, _⟩, ⟨_, _⟩, _⟩
    simp only [offsets, shape, getIndexlb, getIndexub, Array3.ofList, Array3.toList, List.map_cons,
      List.map_nil, List.zip_cons_cons, List.zip_nil_right] at *
    omega
  · rintro st b0 b1 b2 x y z ⟨⟨_, _⟩, ⟨_, _⟩, _, _⟩
    simp only [offsets, shape, getIndexlb, getIndexub, Array3.ofList, Array3.toList, List.map_cons,
      List.map_nil, List.zip_cons_cons, List.zip_nil_right] at *
    omega

/-- The index is a cell's row-major number, once the range checks of the axes pass. -/
theorem getPhysicalIndex_axes (hd : b.Dims) {i : UInt64} :
    b.getPhysicalIndex b.m_dims c = .ok i ↔
      (∀ d ∈ c.toList.zip b.BoundList, d.2.Contains d.1 ∧ (IsInt (d.1 - d.2.m_lb) ∧
        IsInt (d.2.m_ub - d.2.m_lb) ∧ IsInt (d.2.m_ub - d.2.m_lb + 1))) ∧
      ∃ r, rowMajor (b.offsets c) (b.shape c) = .ok r ∧ i = size_t r := by
  have few : ¬ DEFAULT_MAX_DIM < b.m_dims := Nat.not_lt.mpr hd.2
  unfold getPhysicalIndex offsets shape
  rw [if_neg (by simp), if_neg few, bind_eq_ok]
  constructor
  · rintro ⟨axes, computed, run⟩
    obtain ⟨checked, rfl⟩ := axes_eq_ok.mp computed
    obtain ⟨r, hr, value⟩ := bind_eq_ok.mp run
    rw [List.map_map, List.map_map] at hr
    exact ⟨checked, r, hr, (Except.ok.inj value).symm⟩
  · rintro ⟨checked, r, hr, rfl⟩
    refine ⟨_, axes_eq_ok.mpr ⟨checked, rfl⟩, bind_eq_ok.mpr ⟨r, ?_, rfl⟩⟩
    rw [List.map_map, List.map_map]
    exact hr

/-- The index, where it is computed, is the integer one of a cell of the box. -/
theorem getPhysicalIndex_eq {i : UInt64} (hd : b.Dims) (hpad : b.Padded c)
    (h : b.getPhysicalIndex b.m_dims c = .ok i) :
    b.In c ∧ i = size_t (b.flat c) ∧ IsInt (b.flat c) := by
  obtain ⟨checked, r, hr, rfl⟩ := (getPhysicalIndex_axes hd).mp h
  obtain ⟨value, fits⟩ := rowMajor_eq hr
  rw [← flat_eq_axes hd hpad] at value
  subst value
  exact ⟨(in_iff_axes hd hpad).mpr fun d hd => (checked d hd).1, rfl, fits⟩

/-- The differences and the lengths of the axes are `int` values. -/
def AxesFit (b : BBX) : Prop :=
  ∀ bound ∈ b.BoundList, IsInt (bound.m_ub - bound.m_lb) ∧ IsInt (bound.m_ub - bound.m_lb + 1)

instance (b : BBX) : Decidable b.AxesFit := inferInstanceAs (Decidable (∀ _ ∈ _, _ ∧ _))

/-- Within a bound whose difference is an `int`, so is every offset. -/
theorem isInt_offset {b : Bound} {x : Int} (h : b.Contains x) (hb : IsInt (b.m_ub - b.m_lb)) :
    IsInt (x - b.m_lb) := by
  obtain ⟨_, _⟩ := h
  obtain ⟨_, _⟩ := hb
  have hm : INT_MIN ≤ 0 := by decide
  exact ⟨by omega, by omega⟩

/-- The index of a cell is computed when it is an `int` value. -/
theorem getPhysicalIndex_fits {b : BBX} {c : Array3 Int} (hd : b.Dims) (h : b.In c)
    (axes : b.AxesFit) (hfit : b.flat c ≤ INT_MAX) :
    b.getPhysicalIndex b.m_dims c = .ok (size_t (b.flat c)) := by
  have pad := in_padded hd h
  have inside := (in_iff_axes hd pad).mp h
  obtain ⟨⟨hx, hy, hz⟩, sx, sy⟩ := axes_nonneg hd h
  rw [flat_eq_axes hd pad] at hfit ⊢
  refine (getPhysicalIndex_axes hd).mpr ⟨?_, _, rowMajor_ok hx hy hz sx sy hfit, rfl⟩
  intro d hd
  have fits := axes d.2 (List.of_mem_zip hd).2
  exact ⟨inside d hd, isInt_offset (inside d hd) fits.1, fits⟩

/-- The axes of a box with a cell and at most `INT_MAX` cells. -/
theorem axesFit_of_cells {b : BBX} {c : Array3 Int} (hd : b.Dims) (h : b.In c)
    (hfit : b.cells ≤ INT_MAX) : b.AxesFit := by
  have hm : INT_MIN ≤ 0 := by decide
  have small : ∀ {p q r : Int}, 1 ≤ p → 1 ≤ q → 1 ≤ r → p * (q * r) ≤ INT_MAX →
      p ≤ INT_MAX ∧ q ≤ INT_MAX ∧ r ≤ INT_MAX := by
    intro p q r hp hq hr hpq
    have hqr : 1 ≤ q * r := one_le_mul_of_one_le_of_one_le hq hr
    have h1 : p ≤ p * (q * r) := le_mul_of_one_le_right (by omega) hqr
    have h2 : q * r ≤ p * (q * r) := le_mul_of_one_le_left (by omega) hp
    have h3 : q ≤ q * r := le_mul_of_one_le_right (by omega) hr
    have h4 : r ≤ q * r := le_mul_of_one_le_left (by omega) hq
    exact ⟨by omega, by omega, by omega⟩
  obtain ⟨⟨x1, x2⟩, ⟨y1, y2⟩, z1, z2⟩ := h
  obtain ⟨ex, ey, ez⟩ := small (by omega) (by omega) (by omega) hfit
  have axis : ∀ {lb ub x : Int}, lb ≤ x → x ≤ ub → ub - lb + 1 ≤ INT_MAX →
      IsInt (ub - lb) ∧ IsInt (ub - lb + 1) := by
    intro lb ub x _ _ _
    exact ⟨⟨by omega, by omega⟩, by omega, by omega⟩
  obtain ⟨h1, h3⟩ := hd
  obtain ⟨st, bs⟩ := b
  simp only [m_dims] at h1 h3
  induction bs, h3 using Array3.axes_cases with
  | nil => simp at h1
  | line b0 => exact List.forall_mem_cons.mpr ⟨axis x1 x2 ex, List.forall_mem_nil _⟩
  | plane b0 b1 =>
    exact List.forall_mem_cons.mpr ⟨axis x1 x2 ex,
      List.forall_mem_cons.mpr ⟨axis y1 y2 ey, List.forall_mem_nil _⟩⟩
  | space b0 b1 b2 =>
    exact List.forall_mem_cons.mpr ⟨axis x1 x2 ex, List.forall_mem_cons.mpr ⟨axis y1 y2 ey,
      List.forall_mem_cons.mpr ⟨axis z1 z2 ez, List.forall_mem_nil _⟩⟩⟩

/-- The index of a cell is computed when the box has at most `INT_MAX` cells. -/
theorem getPhysicalIndex_ok {b : BBX} {c : Array3 Int} (hd : b.Dims) (h : b.In c)
    (hfit : b.cells ≤ INT_MAX) : b.getPhysicalIndex b.m_dims c = .ok (size_t (b.flat c)) :=
  getPhysicalIndex_fits hd h (axesFit_of_cells hd h hfit) ((flat_lt_cells h).le.trans hfit)

end BBX

namespace BBX

/-- Every cell of the view lies in the box it is copied to. -/
def Within (b q : BBX) : Prop := ∀ c, b.In c → q.In c

/-- The bytes of the cell of a box at a padded coordinate. -/
def cellAt (e : UInt64) (b : BBX) (m : Buffer) (c : Array3 Int) : Buffer :=
  cellBytes e.toNat m (b.flat c).toNat

end BBX

namespace MatrixView

/-- What a view lays over a cell of the whole box. -/
def layer (e : UInt64) (mv : MatrixView) (c : Array3 Int) : Option Buffer :=
  if mv.m_bbx.In c then some (mv.m_bbx.cellAt e mv.m_data c) else none

end MatrixView

namespace MATRIXTOOL

/-- The row of a view at `y` and `z`. -/
def rowLayer (e : UInt64) (mv : MatrixView) (z y : Int) (c : Array3 Int) : Option Buffer :=
  if c.z = z ∧ c.y = y ∧ mv.m_bbx.getIndexlb.x ≤ c.x ∧ c.x ≤ mv.m_bbx.getIndexub.x then
    some (mv.m_bbx.cellAt e mv.m_data c)
  else none

/-- The bytes of that many cells have addresses, as far as `int` numbers the cells. -/
def Addressable (e : UInt64) (cells : Int) : Prop :=
  ∀ z : Int, 0 ≤ z → z ≤ INT_MAX + 1 → z ≤ cells → e.toNat * z.toNat < 2 ^ 64

theorem addressable_of_le {e : UInt64} {cells : Int} (he8 : e.toNat ≤ 8) : Addressable e cells := by
  intro z h0 h1 _
  have : e.toNat * z.toNat ≤ 8 * 2147483648 := by
    simp only [INT_MAX] at h1
    exact Nat.mul_le_mul he8 (by omega)
  omega

theorem addressable_of_lt {e : UInt64} {cells : Int} (h : e.toNat * cells.toNat < 2 ^ 64) :
    Addressable e cells :=
  fun _ _ _ hz => (Nat.mul_le_mul_left _ (Int.toNat_le_toNat hz)).trans_lt h

theorem Addressable.mono {e : UInt64} {m n : Int} (h : Addressable e n) (hle : m ≤ n) :
    Addressable e m := fun z h0 h1 hz => h z h0 h1 (hz.trans hle)

theorem toNat_mul_elemSize {e : UInt64} {cells z : Int} (addr : Addressable e cells) (h0 : 0 ≤ z)
    (h1 : z ≤ INT_MAX) (hz : z ≤ cells) : (size_t z * e).toNat = z.toNat * e.toNat := by
  have fits := addr z h0 (by omega) hz
  have hs : (size_t z).toNat = z.toNat := by
    refine size_t_toNat h0 ?_
    simp only [INT_MAX] at h1
    omega
  rw [UInt64.toNat_mul, hs, Nat.mod_eq_of_lt (by rwa [Nat.mul_comm])]

/-- A row copy lays the row over the buffer and keeps its length. -/
theorem copyRow_cells {e : UInt64} {mv : MatrixView} {q : BBX} {m m' : Buffer} {z y : Int}
    (haq : Addressable e q.cells) (hav : Addressable e mv.m_bbx.cells)
    (hd : mv.m_bbx.Dims) (hq : q.m_dims = mv.m_bbx.m_dims)
    (hpad : mv.m_bbx.Padded ⟨mv.m_bbx.getIndexlb.x, y, z⟩)
    (hub : mv.m_bbx.getIndexub.x ≤ q.getIndexub.x)
    (h : copyRow e mv q m z y = .ok m') :
    m'.length = m.length ∧ ∀ c, q.In c →
      q.cellAt e m' c = Overlay.lay (q.cellAt e m) (rowLayer e mv z y) c := by
  obtain ⟨subIndex, hs, h⟩ := bind_eq_ok.mp h
  obtain ⟨globalIndex, hg, h⟩ := bind_eq_ok.mp h
  obtain ⟨d, hdiff, h⟩ := bind_eq_ok.mp h
  obtain ⟨len, hlen, h⟩ := bind_eq_ok.mp h
  obtain ⟨_, rfl⟩ := int_eq_ok.mp hdiff
  obtain ⟨hint, rfl⟩ := int_eq_ok.mp hlen
  obtain ⟨hsin, rfl, hsint⟩ := BBX.getPhysicalIndex_eq hd hpad hs
  have hqd : q.Dims := by
    obtain ⟨_, _⟩ := hd
    exact ⟨by omega, by omega⟩
  have hqpad : q.Padded ⟨mv.m_bbx.getIndexlb.x, y, z⟩ := by
    simpa only [BBX.Padded, hq] using hpad
  rw [← hq] at hg
  obtain ⟨hgin, rfl, hgint⟩ := BBX.getPhysicalIndex_eq hqd hqpad hg
  have hs0 := BBX.flat_nonneg hsin
  have hg0 := BBX.flat_nonneg hgin
  have hs1 := BBX.flat_lt_cells hsin
  have hg1 := BBX.flat_lt_cells hgin
  obtain ⟨⟨hx1, hx2⟩, hyz⟩ := id hsin
  simp only at hx2
  have hlast := BBX.flat_lt_cells (b := mv.m_bbx) (c := ⟨mv.m_bbx.getIndexub.x, y, z⟩)
    ⟨⟨hx2, le_rfl⟩, hyz⟩
  have hrowv := mv.m_bbx.flat_row mv.m_bbx.getIndexlb.x mv.m_bbx.getIndexub.x y z
  refine ⟨Buffer.length_memcpy h, fun c hc => ?_⟩
  rw [toNat_mul_elemSize haq hg0 hgint.2 hg1.le, toNat_mul_elemSize hav hs0 hsint.2 hs1.le,
    UInt64.mul_comm, toNat_mul_elemSize hav (by omega) hint.2 (by omega),
    Nat.mul_comm (mv.m_bbx.getIndexub.x - mv.m_bbx.getIndexlb.x + 1).toNat e.toNat] at h
  rw [BBX.cellAt, Buffer.memcpy_cells h, Overlay.lay, rowLayer]
  obtain ⟨cx, cy, cz⟩ := c
  by_cases hrow : cz = z ∧ cy = y ∧ mv.m_bbx.getIndexlb.x ≤ cx ∧ cx ≤ mv.m_bbx.getIndexub.x
  · obtain ⟨rfl, rfl, hcx1, hcx2⟩ := id hrow
    have hrq := q.flat_row mv.m_bbx.getIndexlb.x cx cy cz
    have hrv := mv.m_bbx.flat_row mv.m_bbx.getIndexlb.x cx cy cz
    rw [if_pos hrow, if_pos (by omega), Option.getD_some, BBX.cellAt]
    congr 1
    omega
  · rw [if_neg hrow, if_neg, Option.getD_none, BBX.cellAt]
    -- an index inside the copied range belongs to a cell of the row
    rintro ⟨h1, h2⟩
    have hc0 := BBX.flat_nonneg hc
    obtain ⟨x', hdef⟩ : ∃ x', x' = mv.m_bbx.getIndexlb.x +
        (q.flat ⟨cx, cy, cz⟩ - q.flat ⟨mv.m_bbx.getIndexlb.x, y, z⟩) := ⟨_, rfl⟩
    have hx' : mv.m_bbx.getIndexlb.x ≤ x' ∧ x' ≤ mv.m_bbx.getIndexub.x := ⟨by omega, by omega⟩
    have hin : q.In ⟨x', y, z⟩ := by
      obtain ⟨⟨hq1, _⟩, hyz⟩ := hgin
      simp only at hq1
      exact ⟨⟨by show _ ≤ x'; omega, by show x' ≤ _; omega⟩, hyz⟩
    have hflat : q.flat ⟨cx, cy, cz⟩ = q.flat ⟨x', y, z⟩ := by
      rw [q.flat_row mv.m_bbx.getIndexlb.x x' y z]
      omega
    have := BBX.flat_inj hc hin hflat
    simp only [Array3.mk.injEq] at this
    obtain ⟨rfl, rfl, rfl⟩ := this
    exact hrow ⟨rfl, rfl, hx'⟩

end MATRIXTOOL

theorem mem_intRange {lb ub z : Int} : z ∈ intRange lb ub ↔ lb ≤ z ∧ z ≤ ub := by
  simp only [intRange, List.mem_map, List.mem_range]
  constructor
  · rintro ⟨k, hk, rfl⟩
    omega
  · rintro ⟨h1, h2⟩
    exact ⟨(z - lb).toNat, by omega, by omega⟩

section IntLoops

variable {M : Type} {body : M → Int → Except Stop M} {m m' : M} {lb ub i : Int}

theorem intPass_eq_ok : intPass body m i = .ok m' ↔ body m i = .ok m' ∧ IsInt (i + 1) := by
  unfold intPass
  constructor
  · intro run
    obtain ⟨n, hn, run⟩ := bind_eq_ok.mp run
    obtain ⟨k, hk, run⟩ := bind_eq_ok.mp run
    cases run
    exact ⟨hn, (int_eq_ok.mp hk).1⟩
  · rintro ⟨hn, counts⟩
    exact bind_eq_ok.mpr ⟨m', hn, bind_eq_ok.mpr ⟨_, int_of_isInt counts, rfl⟩⟩

/-- A loop keeps an invariant of its passes, as long as its variable can be counted on. -/
theorem forInt_ok {P : M → Prop}
    (step : ∀ i, lb ≤ i → i ≤ ub → ∀ m, P m → ∃ m', body m i = .ok m' ∧ P m')
    (counts : ∀ i, lb ≤ i → i ≤ ub → IsInt (i + 1)) (hm : P m) :
    ∃ m', forInt lb ub body m = .ok m' ∧ P m' := by
  refine foldlM_ok (P := P) ?_ hm
  intro i hi n hn
  obtain ⟨lower, upper⟩ := mem_intRange.mp hi
  obtain ⟨n', run, hn'⟩ := step i lower upper n hn
  exact ⟨n', intPass_eq_ok.mpr ⟨run, counts i lower upper⟩, hn'⟩

/-- A loop that ends has run every pass and counted past it. -/
theorem forInt_passes (run : forInt lb ub body m = .ok m') (lower : lb ≤ i) (upper : i ≤ ub) :
    (∃ n n', body n i = .ok n') ∧ IsInt (i + 1) := by
  have hi : i ∈ intRange lb ub := mem_intRange.mpr ⟨lower, upper⟩
  unfold forInt at run
  generalize intRange lb ub = l at run hi
  obtain ⟨before, after, rfl⟩ := List.append_of_mem hi
  rw [List.foldlM_append] at run
  obtain ⟨n, _, run⟩ := bind_eq_ok.mp run
  rw [List.foldlM_cons] at run
  obtain ⟨n', here, _⟩ := bind_eq_ok.mp run
  obtain ⟨body_run, counts⟩ := intPass_eq_ok.mp here
  exact ⟨⟨n, n', body_run⟩, counts⟩

end IntLoops

namespace MATRIXTOOL

variable {e : UInt64} {mv : MatrixView} {q : BBX} {m m' : Buffer}

/-- A view copies nothing outside the ranges of its axes, and all of its rows inside them. -/
theorem copyView_cells (haq : Addressable e q.cells) (hav : Addressable e mv.m_bbx.cells)
    (hd : mv.m_bbx.Dims) (hq : q.m_dims = mv.m_bbx.m_dims)
    (hub : mv.m_bbx.getIndexub.x ≤ q.getIndexub.x)
    (h : copyView e q m mv = .ok m') {c : Array3 Int} (hc : q.In c) :
    q.cellAt e m' c = Overlay.lay (q.cellAt e m) (mv.layer e) c := by
  have hpad : ∀ z ∈ intRange mv.m_bbx.getIndexlb.z mv.m_bbx.getIndexub.z,
      ∀ y ∈ intRange mv.m_bbx.getIndexlb.y mv.m_bbx.getIndexub.y,
      mv.m_bbx.Padded ⟨mv.m_bbx.getIndexlb.x, y, z⟩ := by
    intro z hz y hy
    exact BBX.padded_of_axes hd (mem_intRange.mp hy) (mem_intRange.mp hz)
  have rows : ∀ z ∈ intRange mv.m_bbx.getIndexlb.z mv.m_bbx.getIndexub.z, ∀ n n',
      forInt mv.m_bbx.getIndexlb.y mv.m_bbx.getIndexub.y
        (fun m y => copyRow e mv q m z y) n = .ok n' → ∀ d, q.In d →
      q.cellAt e n' d = Overlay.layAll (q.cellAt e n)
        ((intRange mv.m_bbx.getIndexlb.y mv.m_bbx.getIndexub.y).map (rowLayer e mv z)) d := by
    intro z hz n n' hn
    refine Overlay.foldlM_lay ?_ hn
    intro y hy m m' hm d hd'
    exact (copyRow_cells haq hav hd hq (hpad z hz y hy) hub (intPass_eq_ok.mp hm).1).2 d hd'
  have planes := Overlay.foldlM_layAll
    (fun z hz m m' hm => rows z hz m m' (intPass_eq_ok.mp hm).1) h c hc
  rw [planes]
  by_cases hin : mv.m_bbx.In c
  · rw [Overlay.lay, MatrixView.layer, if_pos hin, Option.getD_some]
    refine Overlay.layAll_eq ?_ ?_
    · intro w hw x hx
      obtain ⟨z, hz, hw⟩ := List.mem_flatMap.mp hw
      obtain ⟨y, hy, rfl⟩ := List.mem_map.mp hw
      unfold rowLayer at hx
      split at hx
      · exact (Option.some.inj hx).symm
      · cases hx
    · obtain ⟨hx, hy, hz⟩ := hin
      refine ⟨rowLayer e mv c.z c.y, List.mem_flatMap.mpr ⟨c.z, mem_intRange.mpr hz,
        List.mem_map.mpr ⟨c.y, mem_intRange.mpr hy, rfl⟩⟩, ?_⟩
      rw [rowLayer, if_pos ⟨rfl, rfl, hx⟩]
      simp
  · rw [Overlay.lay, MatrixView.layer, if_neg hin, Option.getD_none]
    refine Overlay.layAll_eq_base ?_
    intro w hw
    obtain ⟨z, hz, hw⟩ := List.mem_flatMap.mp hw
    obtain ⟨y, hy, rfl⟩ := List.mem_map.mp hw
    rw [rowLayer, if_neg]
    rintro ⟨rfl, rfl, hx⟩
    exact hin ⟨hx, mem_intRange.mp hy, mem_intRange.mp hz⟩

/-- Views that stay inside the whole box along `x` and have its number of axes. -/
def Fitting (q : BBX) (views : List MatrixView) : Prop :=
  ∀ mv ∈ views, mv.m_bbx.Dims ∧ q.m_dims = mv.m_bbx.m_dims ∧
    mv.m_bbx.getIndexub.x ≤ q.getIndexub.x

/-- The assembled buffer is the overlay of the views over what malloc left. -/
theorem matrixAssemble_cells {views : List MatrixView} {out : MatrixView}
    (haq : Addressable e q.cells) (hav : ∀ mv ∈ views, Addressable e mv.m_bbx.cells)
    (hfit : Fitting q views) (h : matrixAssemble e views q = .ok out) :
    out.m_bbx = q ∧ ∃ start, ∀ c, q.In c →
      q.cellAt e out.m_data c =
        Overlay.layAll start (views.map fun mv => mv.layer e) c := by
  obtain ⟨n, _, h⟩ := bind_eq_ok.mp h
  obtain ⟨m', hm, h⟩ := bind_eq_ok.mp h
  cases h
  refine ⟨rfl, q.cellAt e (Buffer.malloc (e * n)), ?_⟩
  refine Overlay.foldlM_lay ?_ hm
  intro mv hmv m m' hm' c hc
  obtain ⟨hd, hq, hub⟩ := hfit mv hmv
  exact copyView_cells haq (hav mv hmv) hd hq hub hm' hc

/-- A cell that some view holds comes out of one of the views that hold it. -/
theorem matrixAssemble_covered {views : List MatrixView} {out : MatrixView}
    (he8 : e.toNat ≤ 8) (hfit : Fitting q views) (h : matrixAssemble e views q = .ok out)
    {c : Array3 Int} (hc : q.In c) (hcov : ∃ mv ∈ views, mv.m_bbx.In c) :
    ∃ mv ∈ views, mv.m_bbx.In c ∧ q.cellAt e out.m_data c = mv.m_bbx.cellAt e mv.m_data c := by
  obtain ⟨_, start, hcells⟩ := matrixAssemble_cells (addressable_of_le he8)
    (fun _ _ => addressable_of_le he8) hfit h
  have hlayer : ∃ w ∈ views.map fun mv => mv.layer e, w c ≠ none := by
    obtain ⟨mv, hmv, hin⟩ := hcov
    refine ⟨mv.layer e, List.mem_map_of_mem hmv, ?_⟩
    rw [MatrixView.layer, if_pos hin]
    simp
  obtain ⟨w, hw, hwc⟩ : ∃ w ∈ views.map fun mv => mv.layer e, w c =
      some (Overlay.layAll start (views.map fun mv => mv.layer e) c) :=
    Overlay.exists_layer hlayer
  obtain ⟨mv, hmv, rfl⟩ := List.mem_map.mp hw
  rw [← hcells c hc, MatrixView.layer] at hwc
  by_cases hin : mv.m_bbx.In c
  · rw [if_pos hin] at hwc
    exact ⟨mv, hmv, hin, (Option.some.inj hwc).symm⟩
  · rw [if_neg hin] at hwc
    cases hwc

end MATRIXTOOL

namespace BBX

/-- Every axis has a cell. -/
def WellFormed (b : BBX) : Prop := ∀ bound ∈ b.BoundList, bound.m_lb ≤ bound.m_ub

instance (b : BBX) : Decidable b.WellFormed := inferInstanceAs (Decidable (∀ _ ∈ _, _))

/-- The corners of a box that holds a cell. -/
theorem in_corners {b : BBX} {c : Array3 Int} (h : b.In c) :
    b.In b.getIndexlb ∧ b.In b.getIndexub := by
  obtain ⟨⟨_, _⟩, ⟨_, _⟩, ⟨_, _⟩⟩ := h
  exact ⟨⟨⟨by omega, by omega⟩, ⟨by omega, by omega⟩, by omega, by omega⟩,
    ⟨⟨by omega, by omega⟩, ⟨by omega, by omega⟩, by omega, by omega⟩⟩

theorem cells_le {b q : BBX} (hw : b.Within q) {c : Array3 Int} (hc : b.In c) :
    b.cells ≤ q.cells := by
  obtain ⟨hlo, hhi⟩ := in_corners hc
  obtain ⟨⟨_, _⟩, ⟨_, _⟩, ⟨_, _⟩⟩ := hw _ hlo
  obtain ⟨⟨_, _⟩, ⟨_, _⟩, ⟨_, _⟩⟩ := hw _ hhi
  obtain ⟨⟨_, _⟩, ⟨_, _⟩, ⟨_, _⟩⟩ := hc
  have hz : b.getIndexub.z - b.getIndexlb.z + 1 ≤ q.getIndexub.z - q.getIndexlb.z + 1 := by omega
  have hy : b.getIndexub.y - b.getIndexlb.y + 1 ≤ q.getIndexub.y - q.getIndexlb.y + 1 := by omega
  have hx : b.getIndexub.x - b.getIndexlb.x + 1 ≤ q.getIndexub.x - q.getIndexlb.x + 1 := by omega
  have hyz := mul_le_mul hy hz (by omega) (by omega)
  exact mul_le_mul hx hyz (mul_nonneg (by omega) (by omega)) (by omega)

theorem cells_eq_prod {b : BBX} (hd : b.Dims) :
    b.cells = (b.BoundList.map fun bound => bound.m_ub - bound.m_lb + 1).prod := by
  obtain ⟨h1, h3⟩ := hd
  obtain ⟨st, bs⟩ := b
  simp only [m_dims] at h1 h3
  simp only [cells, getIndexlb, getIndexub]
  induction bs, h3 using Array3.axes_cases with
  | nil => simp at h1
  | line b0 => simp [Array3.ofList]
  | plane b0 b1 => simp [Array3.ofList]
  | space b0 b1 b2 => simp [Array3.ofList]

/-- The number of elements over the integers, also of a box with an inverted axis. -/
def elemCount (b : BBX) : Int :=
  (b.BoundList.map fun bound => bound.m_ub - bound.m_lb + 1).prod

theorem elemNumOf_eq {bs : List Bound}
    (axes : ∀ bound ∈ bs, IsInt (bound.m_ub - bound.m_lb) ∧ IsInt (bound.m_ub - bound.m_lb + 1))
    (k : UInt64) : elemNumOf bs k =
      .ok (k * size_t (bs.map fun bound => bound.m_ub - bound.m_lb + 1).prod) := by
  induction bs generalizing k with
  | nil => simp [elemNumOf, size_t]
  | cons b bs ih =>
    obtain ⟨⟨diff, len⟩, rest⟩ := List.forall_mem_cons.mp axes
    have next := ih rest (k * size_t (b.m_ub - b.m_lb + 1))
    rw [List.map_cons, List.prod_cons, size_t_mul, ← UInt64.mul_assoc]
    exact bind_eq_ok.mpr ⟨_, int_of_isInt diff, bind_eq_ok.mpr ⟨_, int_of_isInt len, next⟩⟩

/-- A count that is returned overflows on no axis. -/
theorem axesFit_of_count {bs : List Bound} {k n : UInt64} (h : elemNumOf bs k = .ok n) :
    ∀ bound ∈ bs, IsInt (bound.m_ub - bound.m_lb) ∧ IsInt (bound.m_ub - bound.m_lb + 1) := by
  induction bs generalizing k with
  | nil => simp
  | cons b bs ih =>
    obtain ⟨diff, hdiff, h⟩ := bind_eq_ok.mp h
    obtain ⟨len, hlen, h⟩ := bind_eq_ok.mp h
    obtain ⟨d, rfl⟩ := int_eq_ok.mp hdiff
    obtain ⟨l, rfl⟩ := int_eq_ok.mp hlen
    exact List.forall_mem_cons.mpr ⟨⟨d, l⟩, ih h⟩

theorem getElemNum_eq {b : BBX} (axes : b.AxesFit) : b.getElemNum = .ok (size_t b.elemCount) := by
  rw [getElemNum, elemNumOf_eq axes, UInt64.one_mul, elemCount]

theorem elemCount_pos {b : BBX} (hwf : b.WellFormed) : 0 < b.elemCount := by
  refine List.prod_pos fun extent mem => ?_
  obtain ⟨bound, hb, rfl⟩ := List.mem_map.mp mem
  have filled := hwf bound hb
  omega

/-- The element count of a box whose cells a `size_t` counts. -/
theorem getElemNum_fits {b : BBX} (hd : b.Dims) (hwf : b.WellFormed) (axes : b.AxesFit)
    (hfit : b.cells < 2 ^ 64) : ∃ n, b.getElemNum = .ok n ∧ (n.toNat : Int) = b.cells := by
  have same : b.cells = b.elemCount := cells_eq_prod hd
  have pos := elemCount_pos hwf
  rw [same] at hfit ⊢
  refine ⟨_, getElemNum_eq axes, ?_⟩
  rw [size_t_toNat pos.le hfit, Int.toNat_of_nonneg pos.le]

theorem WellFormed.corner {b : BBX} (hwf : b.WellFormed) (hd : b.Dims) : b.In b.getIndexlb := by
  obtain ⟨h1, h3⟩ := hd
  obtain ⟨st, bs⟩ := b
  simp only [m_dims] at h1 h3
  simp only [WellFormed] at hwf
  simp only [In, getIndexlb, getIndexub]
  induction bs, h3 using Array3.axes_cases with
  | nil => simp at h1
  | line b0 =>
    have := hwf b0 (by simp)
    simpa [Array3.ofList] using this
  | plane b0 b1 => simpa [Array3.ofList] using And.intro (hwf b0 (by simp)) (hwf b1 (by simp))
  | space b0 b1 b2 =>
    simpa [Array3.ofList] using
      And.intro (hwf b0 (by simp)) (And.intro (hwf b1 (by simp)) (hwf b2 (by simp)))

theorem wellFormed_of_corner {b : BBX} (hd : b.Dims) (h : b.In b.getIndexlb) : b.WellFormed := by
  obtain ⟨⟨_, hx⟩, ⟨_, hy⟩, ⟨_, hz⟩⟩ := h
  obtain ⟨h1, h3⟩ := hd
  obtain ⟨st, bs⟩ := b
  simp only [m_dims] at h1 h3
  simp only [WellFormed]
  induction bs, h3 using Array3.axes_cases with
  | nil => simp at h1
  | line b0 => exact List.forall_mem_cons.mpr ⟨hx, List.forall_mem_nil _⟩
  | plane b0 b1 =>
    exact List.forall_mem_cons.mpr ⟨hx, List.forall_mem_cons.mpr ⟨hy, List.forall_mem_nil _⟩⟩
  | space b0 b1 b2 =>
    exact List.forall_mem_cons.mpr ⟨hx, List.forall_mem_cons.mpr
      ⟨hy, List.forall_mem_cons.mpr ⟨hz, List.forall_mem_nil _⟩⟩⟩

/-- The corners of the box are `int` values. -/
def Ints (b : BBX) : Prop := ∀ bound ∈ b.BoundList, IsInt bound.m_lb ∧ IsInt bound.m_ub

instance (b : BBX) : Decidable b.Ints := inferInstanceAs (Decidable (∀ _ ∈ _, _ ∧ _))

/-- What holds of the ends of every axis holds of the padded corners. -/
theorem corners_of_bounds {b : BBX} {P : Int → Int → Prop} (zero : P 0 0)
    (h : ∀ bound ∈ b.BoundList, P bound.m_lb bound.m_ub) :
    P b.getIndexlb.x b.getIndexub.x ∧ P b.getIndexlb.y b.getIndexub.y ∧
      P b.getIndexlb.z b.getIndexub.z := by
  obtain ⟨st, bs⟩ := b
  rcases bs with _ | ⟨b0, _ | ⟨b1, _ | ⟨b2, bs⟩⟩⟩
  · exact ⟨zero, zero, zero⟩
  · exact ⟨h b0 (by simp), zero, zero⟩
  · exact ⟨h b0 (by simp), h b1 (by simp), zero⟩
  · exact ⟨h b0 (by simp), h b1 (by simp), h b2 (by simp)⟩

/-- The extent of the first axis is computed. -/
theorem AxesFit.first {b : BBX} (h : b.AxesFit) :
    IsInt (b.getIndexub.x - b.getIndexlb.x) ∧ IsInt (b.getIndexub.x - b.getIndexlb.x + 1) :=
  (corners_of_bounds (P := fun lb ub => IsInt (ub - lb) ∧ IsInt (ub - lb + 1)) (by decide) h).1

theorem Ints.lower {b : BBX} (h : b.Ints) :
    INT_MIN ≤ b.getIndexlb.y ∧ INT_MIN ≤ b.getIndexlb.z :=
  (corners_of_bounds (P := fun lb _ => INT_MIN ≤ lb) (by decide) fun bound hb => (h bound hb).1.1).2

/-- The loops over the lines of the box can count past their ends. -/
def LoopsEnd (b : BBX) : Prop :=
  (∀ y, b.getIndexlb.y ≤ y → y ≤ b.getIndexub.y → IsInt (y + 1)) ∧
    ∀ z, b.getIndexlb.z ≤ z → z ≤ b.getIndexub.z → IsInt (z + 1)

/-- A filled box counts past its lines exactly when it ends below `INT_MAX` on them. -/
theorem loopsEnd_iff {b : BBX} (lower : INT_MIN ≤ b.getIndexlb.y ∧ INT_MIN ≤ b.getIndexlb.z)
    (corner : b.In b.getIndexlb) :
    b.LoopsEnd ↔ b.getIndexub.y < INT_MAX ∧ b.getIndexub.z < INT_MAX := by
  obtain ⟨ly, lz⟩ := lower
  obtain ⟨_, ⟨_, hy⟩, ⟨_, hz⟩⟩ := corner
  constructor
  · rintro ⟨ys, zs⟩
    exact ⟨Int.lt_iff_add_one_le.mpr (ys _ hy le_rfl).2,
      Int.lt_iff_add_one_le.mpr (zs _ hz le_rfl).2⟩
  · rintro ⟨uy, uz⟩
    exact ⟨fun y l u => ⟨by omega, by omega⟩, fun z l u => ⟨by omega, by omega⟩⟩

theorem loopsEnd_of_bounds {b : BBX}
    (h : ∀ bound ∈ b.BoundList, INT_MIN ≤ bound.m_lb ∧ bound.m_ub < INT_MAX) : b.LoopsEnd := by
  obtain ⟨_, ⟨ly, uy⟩, lz, uz⟩ :=
    corners_of_bounds (P := fun lb ub => INT_MIN ≤ lb ∧ ub < INT_MAX) (by decide) h
  exact ⟨fun y l u => ⟨by omega, by omega⟩, fun z l u => ⟨by omega, by omega⟩⟩

/-- A part of a box starts no lower and ends no higher on its lines. -/
theorem Within.lines {b q : BBX} (h : b.Within q) (corner : b.In b.getIndexlb) :
    (q.getIndexlb.y ≤ b.getIndexlb.y ∧ q.getIndexlb.z ≤ b.getIndexlb.z) ∧
      b.getIndexub.y ≤ q.getIndexub.y ∧ b.getIndexub.z ≤ q.getIndexub.z := by
  obtain ⟨_, ⟨ly, _⟩, ⟨lz, _⟩⟩ := h _ corner
  obtain ⟨_, ⟨_, uy⟩, ⟨_, uz⟩⟩ := h _ (in_corners corner).2
  exact ⟨⟨ly, lz⟩, uy, uz⟩

/-- The extents of a filled part are no larger. -/
theorem AxesFit.mono {b q : BBX} (h : q.AxesFit) (hd : b.Dims) (same : q.m_dims = b.m_dims)
    (within : b.Within q) (corner : b.In b.getIndexlb) : b.AxesFit := by
  have axis : ∀ {c d : Bound}, d.m_lb ≤ c.m_lb → c.m_lb ≤ c.m_ub → c.m_ub ≤ d.m_ub →
      IsInt (d.m_ub - d.m_lb) ∧ IsInt (d.m_ub - d.m_lb + 1) →
      IsInt (c.m_ub - c.m_lb) ∧ IsInt (c.m_ub - c.m_lb + 1) := by
    intro c d _ _ _ ⟨diff, len⟩
    have hm : INT_MIN ≤ 0 := by decide
    exact ⟨⟨by omega, le_trans (by omega) diff.2⟩, by omega, le_trans (by omega) len.2⟩
  obtain ⟨⟨lx, _⟩, ⟨ly, _⟩, ⟨lz, _⟩⟩ := within _ corner
  obtain ⟨⟨_, ux⟩, ⟨_, uy⟩, ⟨_, uz⟩⟩ := within _ (in_corners corner).2
  obtain ⟨⟨_, fx⟩, ⟨_, fy⟩, ⟨_, fz⟩⟩ := corner
  obtain ⟨h1, h3⟩ := hd
  obtain ⟨st, bs⟩ := b
  obtain ⟨st', qs⟩ := q
  simp only [m_dims, AxesFit] at *
  induction bs, h3 using Array3.axes_cases with
  | nil => simp at h1
  | line b0 =>
    obtain ⟨q0, rfl⟩ := List.length_eq_one_iff.mp same
    simp only [List.forall_mem_cons] at h ⊢
    exact ⟨axis lx fx ux h.1, List.forall_mem_nil _⟩
  | plane b0 b1 =>
    obtain ⟨q0, q1, rfl⟩ := List.length_eq_two.mp same
    simp only [List.forall_mem_cons] at h ⊢
    exact ⟨axis lx fx ux h.1, axis ly fy uy h.2.1, List.forall_mem_nil _⟩
  | space b0 b1 b2 =>
    obtain ⟨q0, q1, q2, rfl⟩ := List.length_eq_three.mp same
    simp only [List.forall_mem_cons] at h ⊢
    exact ⟨axis lx fx ux h.1, axis ly fy uy h.2.1, axis lz fz uz h.2.2.1, List.forall_mem_nil _⟩

theorem LoopsEnd.mono {b q : BBX} (h : q.LoopsEnd) (within : b.Within q)
    (corner : b.In b.getIndexlb) : b.LoopsEnd := by
  obtain ⟨⟨ly, lz⟩, uy, uz⟩ := within.lines corner
  exact ⟨fun y l u => h.1 y (ly.trans l) (u.trans uy), fun z l u => h.2 z (lz.trans l) (u.trans uz)⟩

end BBX

namespace MATRIXTOOL

variable {e : UInt64} {mv : MatrixView} {q : BBX} {m : Buffer}

/-- A view that lies in the whole box and has the bytes of its cells can be copied. -/
structure Copyable (e : UInt64) (q : BBX) (mv : MatrixView) : Prop where
  dims : mv.m_bbx.Dims
  dims_eq : q.m_dims = mv.m_bbx.m_dims
  corner : mv.m_bbx.In mv.m_bbx.getIndexlb
  within : mv.m_bbx.Within q
  bytes : e.toNat * mv.m_bbx.cells.toNat ≤ mv.m_data.length

theorem Copyable.ub_le (h : Copyable e q mv) : mv.m_bbx.getIndexub.x ≤ q.getIndexub.x :=
  (h.within _ (BBX.in_corners h.corner).2).1.2

theorem copyRow_ok (addr : Addressable e q.cells) (h : Copyable e q mv) (axes : q.AxesFit)
    (hfit : q.cells ≤ INT_MAX + 1) (hlen : e.toNat * q.cells.toNat ≤ m.length) {z y : Int}
    (hz : mv.m_bbx.getIndexlb.z ≤ z ∧ z ≤ mv.m_bbx.getIndexub.z)
    (hy : mv.m_bbx.getIndexlb.y ≤ y ∧ y ≤ mv.m_bbx.getIndexub.y) :
    ∃ m', copyRow e mv q m z y = .ok m' ∧ m'.length = m.length := by
  obtain ⟨⟨_, hx⟩, _⟩ := h.corner
  have hfirst : mv.m_bbx.In ⟨mv.m_bbx.getIndexlb.x, y, z⟩ := ⟨⟨le_rfl, hx⟩, hy, hz⟩
  have hlast : mv.m_bbx.In ⟨mv.m_bbx.getIndexub.x, y, z⟩ := ⟨⟨hx, le_rfl⟩, hy, hz⟩
  have hcells := BBX.cells_le h.within hfirst
  have hqd : q.Dims := by
    obtain ⟨_, _⟩ := h.dims
    have := h.dims_eq
    exact ⟨by omega, by omega⟩
  have vaxes := axes.mono h.dims h.dims_eq h.within h.corner
  have sfit := BBX.flat_lt_cells hfirst
  have gfit := BBX.flat_lt_cells (h.within _ hfirst)
  have hsub := BBX.getPhysicalIndex_fits h.dims hfirst vaxes (by omega)
  have hglob := BBX.getPhysicalIndex_fits hqd (h.within _ hfirst) axes (by omega)
  rw [h.dims_eq] at hglob
  have s0 := BBX.flat_nonneg hfirst
  have s1 := BBX.flat_lt_cells hlast
  have g0 := BBX.flat_nonneg (h.within _ hfirst)
  have g1 := BBX.flat_lt_cells (h.within _ hlast)
  have srow := mv.m_bbx.flat_row mv.m_bbx.getIndexlb.x mv.m_bbx.getIndexub.x y z
  have grow := q.flat_row mv.m_bbx.getIndexlb.x mv.m_bbx.getIndexub.x y z
  have hm : INT_MIN ≤ 0 := by decide
  have hd : mv.m_bbx.getIndexub.x - mv.m_bbx.getIndexlb.x + 1 ≤ INT_MAX := vaxes.first.2.2
  have room : ∀ {f n l : Int}, 0 ≤ f → 0 ≤ n → f + n ≤ l → e.toNat * l.toNat ≤ m.length ∨
      e.toNat * l.toNat ≤ mv.m_data.length →
      f.toNat * e.toNat + e.toNat * n.toNat ≤ e.toNat * l.toNat := by
    intro f n l hf hn hl _
    have : f.toNat * e.toNat + e.toNat * n.toNat = e.toNat * (f.toNat + n.toNat) := by ring
    rw [this]
    exact Nat.mul_le_mul_left _ (by omega)
  have hdst := room (n := mv.m_bbx.getIndexub.x - mv.m_bbx.getIndexlb.x + 1) g0 (by omega)
    (by omega : _ ≤ q.cells) (Or.inl hlen)
  have hsrc := room (n := mv.m_bbx.getIndexub.x - mv.m_bbx.getIndexlb.x + 1) s0 (by omega)
    (by omega : _ ≤ mv.m_bbx.cells) (Or.inr h.bytes)
  have hcopy := (@Buffer.memcpy_eq_ok m mv.m_data _ _ _ _).mpr
    ⟨⟨le_trans hdst hlen, le_trans hsrc h.bytes⟩, rfl⟩
  rw [← toNat_mul_elemSize addr g0 (by omega) (by omega),
    ← toNat_mul_elemSize addr s0 (by omega) (by omega), Nat.mul_comm e.toNat,
    ← toNat_mul_elemSize addr (by omega) hd (by omega), UInt64.mul_comm (size_t (_ + 1))] at hcopy
  exact ⟨_, bind_eq_ok.mpr ⟨_, hsub, bind_eq_ok.mpr ⟨_, hglob, bind_eq_ok.mpr
    ⟨_, int_of_isInt ⟨by omega, by omega⟩, bind_eq_ok.mpr
      ⟨_, int_of_isInt ⟨by omega, hd⟩, hcopy⟩⟩⟩⟩, Buffer.length_memcpy hcopy⟩

theorem copyView_ok (addr : Addressable e q.cells) (h : Copyable e q mv) (axes : q.AxesFit)
    (hfit : q.cells ≤ INT_MAX + 1) (hlen : e.toNat * q.cells.toNat ≤ m.length)
    (ends : mv.m_bbx.LoopsEnd) :
    ∃ m', copyView e q m mv = .ok m' ∧ m'.length = m.length := by
  refine forInt_ok (P := fun n : Buffer => n.length = m.length) ?_ ends.2 rfl
  intro z lz uz n hn
  have plane : ∃ n', forInt mv.m_bbx.getIndexlb.y mv.m_bbx.getIndexub.y
      (fun m y => copyRow e mv q m z y) n = .ok n' ∧ n'.length = n.length := by
    refine forInt_ok (P := fun n' : Buffer => n'.length = n.length) ?_ ends.1 rfl
    intro y ly uy n' hn'
    obtain ⟨n'', hr, hl⟩ := copyRow_ok addr h axes hfit (by rw [hn', hn]; exact hlen)
      ⟨lz, uz⟩ ⟨ly, uy⟩
    exact ⟨n'', hr, by rw [hl, hn']⟩
  obtain ⟨n', hr, hl⟩ := plane
  exact ⟨n', hr, by rw [hl, hn]⟩

/-- The buffer for the whole box has the bytes of its cells. -/
theorem malloc_whole (addr : Addressable e q.cells) (hfit : q.cells ≤ INT_MAX + 1) {n : UInt64}
    (count : (n.toNat : Int) = q.cells) :
    (Buffer.malloc (e * n)).length = e.toNat * q.cells.toNat := by
  have bytes := addr q.cells (by omega) hfit le_rfl
  have count : n.toNat = q.cells.toNat := by omega
  rw [Buffer.malloc, List.length_replicate, UInt64.toNat_mul, count, Nat.mod_eq_of_lt bytes]

/-- Copyable views of a box whose cells `int` numbers are assembled. -/
theorem matrixAssemble_ok {views : List MatrixView} (addr : Addressable e q.cells) (hd : q.Dims)
    (hwf : q.WellFormed) (axes : q.AxesFit) (hfit : q.cells ≤ INT_MAX + 1)
    (h : ∀ mv ∈ views, Copyable e q mv) (ends : ∀ mv ∈ views, mv.m_bbx.LoopsEnd) :
    ∃ out, matrixAssemble e views q = .ok out ∧ out.m_data.length = e.toNat * q.cells.toNat := by
  have hmax : INT_MAX = 2147483647 := rfl
  obtain ⟨n, hn, hcells⟩ := BBX.getElemNum_fits hd hwf axes (by omega)
  have hlen := malloc_whole addr hfit hcells
  obtain ⟨m', hm, hm'⟩ : ∃ m', views.foldlM (copyView e q) (Buffer.malloc (e * n)) = .ok m' ∧
      m'.length = (Buffer.malloc (e * n)).length := by
    refine foldlM_ok (P := fun m : Buffer => m.length = (Buffer.malloc (e * n)).length) ?_ rfl
    intro mv hmv m hm
    obtain ⟨m', hr, hl⟩ := copyView_ok (m := m) addr (h mv hmv) axes hfit (by rw [hm, hlen])
      (ends mv hmv)
    exact ⟨m', hr, by rw [hl, hm]⟩
  exact ⟨⟨q, m'⟩, bind_eq_ok.mpr ⟨n, hn, bind_eq_ok.mpr ⟨m', hm, rfl⟩⟩, hm'.trans hlen⟩

end MATRIXTOOL

end Gorilla
