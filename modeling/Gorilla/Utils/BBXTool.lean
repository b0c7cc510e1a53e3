import Gorilla.Basic
import Mathlib.Algebra.Order.Ring.Int
import Mathlib.Tactic.Ring

/-!
# Bounding boxes

The boxes, their intersections, the split a partly covered box leaves behind
and the row-major index of a cell.
-/

namespace Gorilla

structure Bound where
  m_lb : Int := INT_MAX
  m_ub : Int := INT_MIN
  deriving DecidableEq, Repr

namespace Bound

def equal (a b : Bound) : Bool := a.m_lb == b.m_lb && a.m_ub == b.m_ub

@[simp] theorem equal_iff {a b : Bound} : a.equal b = true ↔ a = b := by
  cases a
  cases b
  simp [equal]

/-- The cells of `this` cut at the ends of `queryBound`. -/
def splitBound (this queryBound : Bound) : Except Stop (List Bound) := do
  if queryBound.m_ub < this.m_lb ∨ this.m_ub < queryBound.m_lb then
    return []
  if this.equal queryBound then
    return [⟨this.m_lb, this.m_ub⟩]
  if queryBound.m_lb ≤ this.m_lb ∧ this.m_lb ≤ queryBound.m_ub ∧ queryBound.m_ub < this.m_ub then
    return [⟨this.m_lb, queryBound.m_ub⟩, ⟨← int (queryBound.m_ub + 1), this.m_ub⟩]
  else if this.m_lb < queryBound.m_lb ∧ queryBound.m_ub < this.m_ub then
    return [⟨this.m_lb, ← int (queryBound.m_lb - 1)⟩, ⟨queryBound.m_lb, queryBound.m_ub⟩,
      ⟨← int (queryBound.m_ub + 1), this.m_ub⟩]
  else if queryBound.m_lb ≤ this.m_ub ∧ this.m_ub ≤ queryBound.m_ub then
    return [⟨this.m_lb, ← int (queryBound.m_lb - 1)⟩, ⟨queryBound.m_lb, this.m_ub⟩]
  else
    throw (.runtime_error "unsuported case for split boundry\n")

/-- The coordinate lies between the two ends. -/
def Contains (b : Bound) (x : Int) : Prop := b.m_lb ≤ x ∧ x ≤ b.m_ub

instance (b : Bound) (x : Int) : Decidable (b.Contains x) := inferInstanceAs (Decidable (_ ∧ _))

end Bound

/-- `m_dims` is the length of `BoundList`: every constructor keeps the two equal. -/
structure BBX where
  m_status : Int := 0
  BoundList : List Bound := []
  deriving DecidableEq, Repr

def DEFAULT_MAX_DIM : Nat := 3

def getOverlapBound (a b : Bound) : Option Bound :=
  if a.m_ub < b.m_lb ∨ b.m_ub < a.m_lb then none
  else some ⟨max a.m_lb b.m_lb, min a.m_ub b.m_ub⟩

/-- The axis by axis overlap, null as soon as one axis has none. -/
def overlapBounds : List Bound → List Bound → Option (List Bound)
  | a :: as, b :: bs => do
    let bound ← getOverlapBound a b
    let rest ← overlapBounds as bs
    return bound :: rest
  | _, _ => some []

namespace BBX

def m_dims (b : BBX) : Nat := b.BoundList.length

/-- `BBX(dimNum, indexlb, indexub)`: an axis past the third reads outside the arrays. -/
def ofIndex (dimNum : Nat) (indexlb indexub : Array3 Int) : Except Stop BBX :=
  if DEFAULT_MAX_DIM < dimNum then
    .error (.undefined "index past the end of std::array")
  else
    .ok ⟨0, List.zipWith Bound.mk (indexlb.toList.take dimNum) (indexub.toList.take dimNum)⟩

def getIndexlb (b : BBX) : Array3 Int := .ofList 0 (b.BoundList.map Bound.m_lb)

def getIndexub (b : BBX) : Array3 Int := .ofList 0 (b.BoundList.map Bound.m_ub)

def elemNumOf : List Bound → UInt64 → Except Stop UInt64
  | [], elemNum => .ok elemNum
  | b :: bs, elemNum => do
    elemNumOf bs (elemNum * size_t (← int ((← int (b.m_ub - b.m_lb)) + 1)))

def getElemNum (b : BBX) : Except Stop UInt64 := elemNumOf b.BoundList 1

/-- The offset and the extent of one axis, after the range check of that axis. -/
def axisIndex (coordinate : Int) (b : Bound) : Except Stop (Int × Int) := do
  if b.m_ub < coordinate ∨ coordinate < b.m_lb then
    throw (.runtime_error "the coordinates beyond the boundry of the BBX")
  return (← int (coordinate - b.m_lb), ← int ((← int (b.m_ub - b.m_lb)) + 1))

/-- `offset[2] * shape[1] * shape[0] + offset[1] * shape[0] + offset[0]` -/
def rowMajor (offset shape : Array3 Int) : Except Stop Int := do
  let plane ← int ((← int (offset.z * shape.y)) * shape.x)
  let line ← int (offset.y * shape.x)
  int ((← int (plane + line)) + offset.x)

theorem rowMajor_eq {o s : Array3 Int} {r : Int} (h : rowMajor o s = .ok r) :
    r = o.x + s.x * (o.y + s.y * o.z) ∧ IsInt r := by
  obtain ⟨a, h1, h⟩ := bind_eq_ok.mp h
  obtain ⟨b, h2, h⟩ := bind_eq_ok.mp h
  obtain ⟨c, h3, h⟩ := bind_eq_ok.mp h
  obtain ⟨d, h4, h⟩ := bind_eq_ok.mp h
  obtain ⟨_, rfl⟩ := int_eq_ok.mp h1
  obtain ⟨_, rfl⟩ := int_eq_ok.mp h2
  obtain ⟨_, rfl⟩ := int_eq_ok.mp h3
  obtain ⟨_, rfl⟩ := int_eq_ok.mp h4
  obtain ⟨hr, rfl⟩ := int_eq_ok.mp h
  exact ⟨by ring, hr⟩

theorem rowMajor_ok {o s : Array3 Int} (hx : 0 ≤ o.x) (hy : 0 ≤ o.y) (hz : 0 ≤ o.z)
    (sx : 0 < s.x) (sy : 0 ≤ s.y) (hr : o.x + s.x * (o.y + s.y * o.z) ≤ INT_MAX) :
    rowMajor o s = .ok (o.x + s.x * (o.y + s.y * o.z)) := by
  have hm : INT_MIN ≤ 0 := by decide
  have h1 : 0 ≤ o.z * s.y := mul_nonneg hz sy
  have h2 : 0 ≤ o.y * s.x := mul_nonneg hy sx.le
  have h3 : 0 ≤ o.z * s.y * s.x := mul_nonneg h1 sx.le
  have h4 : o.z * s.y ≤ o.z * s.y * s.x := by
    have := mul_le_mul_of_nonneg_left (show 1 ≤ s.x by omega) h1
    omega
  have he : o.x + s.x * (o.y + s.y * o.z) = o.z * s.y * s.x + o.y * s.x + o.x := by ring
  rw [he] at hr ⊢
  rw [rowMajor, int_of_isInt ⟨by omega, by omega⟩]
  show (do
    let plane ← int (o.z * s.y * s.x)
    let line ← int (o.y * s.x)
    int ((← int (plane + line)) + o.x)) = _
  rw [int_of_isInt ⟨by omega, by omega⟩, int_of_isInt ⟨by omega, by omega⟩]
  show (do int ((← int (o.z * s.y * s.x + o.y * s.x)) + o.x)) = _
  rw [int_of_isInt ⟨by omega, by omega⟩]
  exact int_of_isInt ⟨by omega, by omega⟩

/-- The position of a cell in the row-major layout of the box, `x` fastest. -/
def getPhysicalIndex (b : BBX) (coordim : Nat) (coordinates : Array3 Int) :
    Except Stop UInt64 := do
  if coordim ≠ b.m_dims then
    throw (.runtime_error "the dimension of the coordinates should same with the BBX")
  if DEFAULT_MAX_DIM < b.m_dims then
    throw (.undefined "index past the end of std::array")
  let axes ← (coordinates.toList.zip b.BoundList).mapM fun c => axisIndex c.1 c.2
  let offset := Array3.ofList 0 (axes.map Prod.fst)
  let shape := Array3.ofList 0 (axes.map Prod.snd)
  return size_t (← rowMajor offset shape)

def equal (a b : BBX) : Bool := a.BoundList == b.BoundList

@[simp] theorem equal_iff {a b : BBX} : a.equal b = true ↔ a.BoundList = b.BoundList := by
  simp [equal]

/-- A point lies in a box when it has one coordinate for each axis, each in its bound. -/
def Contains (b : BBX) (p : List Int) : Prop := List.Forall₂ Bound.Contains b.BoundList p

instance (b : BBX) (p : List Int) : Decidable (b.Contains p) :=
  inferInstanceAs (Decidable (List.Forall₂ _ _ _))

end BBX

def getOverlapBBX (a b : BBX) : Except Stop (Option BBX) :=
  if a.m_dims ≠ b.m_dims then
    .error (.runtime_error ("the dimention of two bounding box is not equal aDim is " ++
      toString a.m_dims ++ " bDim is " ++ toString b.m_dims))
  else if a.m_dims = 0 ∨ DEFAULT_MAX_DIM < b.m_dims then
    .error (.runtime_error ("the dimention of bounding box can not be 0 or " ++
      "value larger than 3, current value is: " ++ toString a.m_dims))
  else
    .ok ((overlapBounds a.BoundList b.BoundList).map fun bounds => ⟨0, bounds⟩)

/-- What is left of `original` once `querybbx` is taken out of it. In three dimensions
the piece left out is compared with the query and not with the overlap. -/
def splitReduceBBX (original querybbx : BBX) : Except Stop (List BBX) := do
  if querybbx.m_dims ≠ original.m_dims then
    return []
  match ← getOverlapBBX original querybbx with
  | none => throw (.runtime_error "overlap should not be null")
  | some overlap =>
    match original.BoundList, querybbx.BoundList, overlap.BoundList with
    | [o0, o1], [q0, q1], [w0, w1] =>
      let boundList0 ← o0.splitBound q0
      let boundList1 ← o1.splitBound q1
      return boundList0.flatMap fun v0 => boundList1.filterMap fun v1 =>
        if v0.equal w0 && v1.equal w1 then none else some ⟨0, [v0, v1]⟩
    | [o0, o1, o2], [q0, q1, q2], _ =>
      let boundList0 ← o0.splitBound q0
      let boundList1 ← o1.splitBound q1
      let boundList2 ← o2.splitBound q2
      return boundList0.flatMap fun v0 => boundList1.flatMap fun v1 =>
        boundList2.filterMap fun v2 =>
          if v0.equal q0 && v1.equal q1 && v2.equal q2 then none else some ⟨0, [v0, v1, v2]⟩
    | _, _, _ => return []

end Gorilla
