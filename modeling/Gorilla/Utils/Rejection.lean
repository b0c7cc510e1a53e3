import Gorilla.Lib.Loop
import Gorilla.Lib.Tiling
import Gorilla.Utils.PhysicalIndex
import Gorilla.Utils.Points

/-!
# What the assembly rejects

Its check of the views is commented out. What is left throws at the first cell of a line that
lies outside the whole box. Views that stick out along `x`, overlap or leave holes are copied.
-/

namespace Gorilla

namespace BBX

variable {b : BBX} {c : Array3 Int}

/-- The cell is in the box and the code can compute its index. -/
def Indexed (b : BBX) (c : Array3 Int) : Prop := b.In c ∧ b.AxesFit ∧ b.flat c ≤ INT_MAX

/-- The axes the box lacks are zero. -/
def Aligned (b : BBX) (c : Array3 Int) : Prop := c = .ofList 0 (c.toList.take b.m_dims)

theorem Aligned.padded (hd : b.Dims) (h : b.Aligned c) : b.Padded c := by
  obtain ⟨h1, _⟩ := hd
  unfold Aligned at h
  constructor
  · intro one
    rw [one] at h
    exact congrArg Array3.y h
  · intro few
    obtain one | two : b.m_dims = 1 ∨ b.m_dims = 2 := by omega
    · rw [one] at h
      exact congrArg Array3.z h
    · rw [two] at h
      exact congrArg Array3.z h

theorem Aligned.of_dims {q : BBX} (h : b.Aligned c) (same : b.m_dims = q.m_dims) :
    q.Aligned c := by
  rw [Aligned, ← same]
  exact h

theorem not_raises_elemNumOf (bs : List Bound) (k : UInt64) : ¬ Raises (elemNumOf bs k) := by
  induction bs generalizing k with
  | nil => exact not_raises_pure k
  | cons b bs ih => simp [elemNumOf, raises_bind, ih]

/-- The starts of the lines of a box are aligned to it. -/
theorem aligned_of_axes (few : b.m_dims ≤ 3) {y z : Int}
    (hy : b.getIndexlb.y ≤ y ∧ y ≤ b.getIndexub.y) (hz : b.getIndexlb.z ≤ z ∧ z ≤ b.getIndexub.z) :
    b.Aligned ⟨b.getIndexlb.x, y, z⟩ := by
  obtain ⟨st, bs⟩ := b
  simp only [m_dims] at few
  have zero : ∀ {w : Int}, 0 ≤ w ∧ w ≤ 0 → w = 0 := by omega
  induction bs, few using Array3.axes_cases with
  | nil =>
    obtain rfl : y = 0 := zero hy
    obtain rfl : z = 0 := zero hz
    rfl
  | line b0 =>
    obtain rfl : y = 0 := zero hy
    obtain rfl : z = 0 := zero hz
    rfl
  | plane b0 b1 =>
    obtain rfl : z = 0 := zero hz
    rfl
  | space b0 b1 b2 => rfl

theorem in_iff_contains (few : b.m_dims ≤ 3) (h : b.Aligned c) :
    b.In c ↔ b.Contains (c.toList.take b.m_dims) := by
  constructor
  · intro hc
    rw [h] at hc
    exact contains_of_in few (by simp [Array3.toList]; omega) hc
  · intro hc
    rw [h]
    exact in_of_contains few hc

theorem not_raises_axisIndex {bound : Bound} {x : Int} (h : bound.Contains x) :
    ¬ Raises (axisIndex x bound) := by
  obtain ⟨lower, upper⟩ := h
  unfold axisIndex
  rw [if_neg (by omega)]
  simp [raises_bind]

theorem not_raises_axes {l : List (Int × Bound)} (h : ∀ d ∈ l, d.2.Contains d.1) :
    ¬ Raises (l.mapM fun d => axisIndex d.1 d.2) := by
  induction l with
  | nil => exact not_raises_pure _
  | cons d l ih =>
    obtain ⟨here, rest⟩ := List.forall_mem_cons.mp h
    simp [List.mapM_cons, raises_bind, not_raises_axisIndex here, ih rest]

/-- The range checks pass in the box. -/
theorem not_raises_getPhysicalIndex (few : b.m_dims ≤ 3)
    (h : b.Contains (c.toList.take b.m_dims)) : ¬ Raises (b.getPhysicalIndex b.m_dims c) := by
  rw [contains_iff_zip few] at h
  have few : ¬ DEFAULT_MAX_DIM < b.m_dims := Nat.not_lt.mpr few
  unfold getPhysicalIndex rowMajor
  rw [if_neg (by simp), if_neg few]
  simp [raises_bind, not_raises_axes h]

theorem axesFit_of_index (few : b.m_dims ≤ 3) {i : UInt64}
    (h : b.getPhysicalIndex b.m_dims c = .ok i) : b.AxesFit := by
  have few' : ¬ DEFAULT_MAX_DIM < b.m_dims := Nat.not_lt.mpr few
  unfold getPhysicalIndex at h
  rw [if_neg (by simp), if_neg few'] at h
  obtain ⟨axes, computed, _⟩ := bind_eq_ok.mp h
  intro bound hb
  have bounds : (c.toList.zip b.BoundList).map Prod.snd = b.BoundList := List.map_snd_zip few
  rw [← bounds] at hb
  obtain ⟨d, hd, rfl⟩ := List.mem_map.mp hb
  exact ((axes_eq_ok.mp computed).1 d hd).2.2

/-- Where the index of a cell is computed, and what it is. -/
theorem getPhysicalIndex_eq_ok (few : b.m_dims ≤ 3) (h : b.Aligned c) {i : UInt64} :
    b.getPhysicalIndex b.m_dims c = .ok i ↔ b.Indexed c ∧ i = size_t (b.flat c) := by
  obtain none | some := Nat.eq_zero_or_pos b.m_dims
  · obtain ⟨st, bs⟩ := b
    obtain rfl : bs = [] := List.eq_nil_of_length_eq_zero none
    obtain rfl : c = ⟨0, 0, 0⟩ := h
    have indexed : Indexed ⟨st, []⟩ ⟨0, 0, 0⟩ :=
      ⟨by simp [In, getIndexlb, getIndexub, Array3.ofList], nofun,
        show (0 : Int) ≤ INT_MAX by decide⟩
    constructor
    · intro run
      exact ⟨indexed, (Except.ok.inj run).symm⟩
    · rintro ⟨_, rfl⟩
      rfl
  · have hd : b.Dims := ⟨some, few⟩
    constructor
    · intro run
      obtain ⟨hc, value, fits⟩ := getPhysicalIndex_eq hd (h.padded hd) run
      exact ⟨⟨hc, axesFit_of_index few run, fits.2⟩, value⟩
    · rintro ⟨⟨hc, axes, fits⟩, rfl⟩
      exact getPhysicalIndex_fits hd hc axes fits

theorem exists_index (few : b.m_dims ≤ 3) (h : b.Aligned c) :
    (∃ i, b.getPhysicalIndex b.m_dims c = .ok i) ↔ b.Indexed c := by
  simp only [getPhysicalIndex_eq_ok few h, exists_and_left, exists_eq, and_true]

/-- What the range checks refuse, once the extents of the box are known to be `int` values. -/
theorem raises_getPhysicalIndex {n : Nat} (few : n ≤ 3) (axes : b.AxesFit)
    (h : n = b.m_dims → b.Aligned c) :
    Raises (b.getPhysicalIndex n c) ↔ n ≠ b.m_dims ∨ ¬ b.In c := by
  by_cases same : n = b.m_dims
  · subst same
    rw [in_iff_contains few (h rfl)]
    constructor
    · intro raised
      exact .inr fun inside => not_raises_getPhysicalIndex few inside raised
    · rintro (other | outside)
      · exact absurd rfl other
      · exact getPhysicalIndex_outside few axes outside
  · have thrown : b.getPhysicalIndex n c = .error (.runtime_error
        "the dimension of the coordinates should same with the BBX") := by
      unfold getPhysicalIndex
      rw [if_pos same]
      rfl
    exact iff_of_true ⟨_, thrown⟩ (.inl same)

/-- The start of a line is refused by its own box exactly when the line is empty. -/
theorem raises_lineStart (few : b.m_dims ≤ 3) {y z : Int}
    (hy : b.getIndexlb.y ≤ y ∧ y ≤ b.getIndexub.y) (hz : b.getIndexlb.z ≤ z ∧ z ≤ b.getIndexub.z) :
    Raises (b.getPhysicalIndex b.m_dims ⟨b.getIndexlb.x, y, z⟩) ↔
      ¬ b.In ⟨b.getIndexlb.x, y, z⟩ := by
  have aligned := aligned_of_axes few hy hz
  constructor
  · intro raised inside
    exact not_raises_getPhysicalIndex few ((in_iff_contains few aligned).mp inside) raised
  · intro outside
    have empty : b.getIndexub.x < b.getIndexlb.x := by
      by_contra filled
      exact outside ⟨⟨le_rfl, not_lt.mp filled⟩, hy, hz⟩
    have few' : ¬ DEFAULT_MAX_DIM < b.m_dims := Nat.not_lt.mpr few
    obtain ⟨what, thrown⟩ : ∃ what, (List.zip [b.getIndexlb.x, y, z] b.BoundList).mapM
        (fun d => axisIndex d.1 d.2) = .error (.runtime_error what) := by
      obtain ⟨st, bs⟩ := b
      cases bs with
      | nil => exact absurd empty (lt_irrefl (0 : Int))
      | cons b0 bs =>
        obtain ⟨lb, ub⟩ := corner_x st b0 bs
        rw [lb, ub] at empty
        rw [lb, List.zip_cons_cons, List.mapM_cons]
        have thrown : axisIndex b0.m_lb b0 = .error (.runtime_error
            "the coordinates beyond the boundry of the BBX") := if_pos (.inl empty)
        exact ⟨_, by rw [thrown]; rfl⟩
    refine ⟨what, ?_⟩
    unfold getPhysicalIndex
    rw [if_neg (by simp), if_neg few', Array3.toList, thrown]
    rfl

end BBX

/-- One continuous line of a view. -/
structure ViewLine where
  view : MatrixView
  z : Int
  y : Int

namespace ViewLine

/-- The first cell of the line. -/
def start (l : ViewLine) : Array3 Int := ⟨l.view.m_bbx.getIndexlb.x, l.y, l.z⟩

/-- The number of cells of the line. -/
def len (l : ViewLine) : Int := l.view.m_bbx.getIndexub.x - l.view.m_bbx.getIndexlb.x + 1

/-- The line is one of its view. -/
def Proper (l : ViewLine) : Prop :=
  l.view.m_bbx.m_dims ≤ DEFAULT_MAX_DIM ∧
    (l.view.m_bbx.getIndexlb.y ≤ l.y ∧ l.y ≤ l.view.m_bbx.getIndexub.y) ∧
    (l.view.m_bbx.getIndexlb.z ≤ l.z ∧ l.z ≤ l.view.m_bbx.getIndexub.z)

theorem Proper.aligned {l : ViewLine} (h : l.Proper) : l.view.m_bbx.Aligned l.start :=
  BBX.aligned_of_axes h.1 h.2.1 h.2.2

/-- Both indices of the first cell are computed, and the line lies inside both buffers. -/
structure Copied (elemSize : UInt64) (intactBBX : BBX) (l : ViewLine) : Prop where
  source : l.view.m_bbx.Indexed l.start
  dims : l.view.m_bbx.m_dims = intactBBX.m_dims
  target : intactBBX.Indexed l.start
  write : (size_t (intactBBX.flat l.start) * elemSize).toNat + (elemSize * size_t l.len).toNat ≤
    (elemSize * size_t intactBBX.elemCount).toNat
  read : (size_t (l.view.m_bbx.flat l.start) * elemSize).toNat +
    (elemSize * size_t l.len).toNat ≤ l.view.m_data.length

/-- The box of the view refuses the first cell, or computes its index and the whole box refuses
it. -/
def Refused (intactBBX : BBX) (l : ViewLine) : Prop :=
  ¬ l.view.m_bbx.In l.start ∨ (l.view.m_bbx.Indexed l.start ∧
    (l.view.m_bbx.m_dims ≠ intactBBX.m_dims ∨ ¬ intactBBX.In l.start))

end ViewLine

namespace MATRIXTOOL

open ViewLine

variable {e : UInt64} {views : List MatrixView} {q : BBX} {l : ViewLine} {m : Buffer}

/-- What the loops over the views do one after the other. -/
inductive Work
  | copy (l : ViewLine)
  | increment (i : Int)

/-- The lines in the order in which they are copied, and the increments between them. -/
def work (views : List MatrixView) : List Work :=
  views.flatMap fun mv =>
    (intRange mv.m_bbx.getIndexlb.z mv.m_bbx.getIndexub.z).flatMap fun z =>
      ((intRange mv.m_bbx.getIndexlb.y mv.m_bbx.getIndexub.y).flatMap fun y =>
        [.copy ⟨mv, z, y⟩, .increment y]) ++ [.increment z]

def copyLine (e : UInt64) (q : BBX) (m : Buffer) (l : ViewLine) : Except Stop Buffer :=
  copyRow e l.view q m l.z l.y

def Work.run (e : UInt64) (q : BBX) (m : Buffer) : Work → Except Stop Buffer
  | .copy l => copyLine e q m l
  | .increment i => (fun _ => m) <$> int (i + 1)

/-- A loop with its increments spelled out. -/
theorem forInt_eq_work {body : Buffer → Int → Except Stop Buffer} {steps : Int → List Work}
    (same : ∀ m i, body m i = (steps i).foldlM (Work.run e q) m) (lb ub : Int) (m : Buffer) :
    forInt lb ub body m =
      ((intRange lb ub).flatMap fun i => steps i ++ [.increment i]).foldlM (Work.run e q) m := by
  rw [forInt, Loop.foldlM_flatMap]
  congr 1
  funext m i
  have last : ∀ n, [Work.increment i].foldlM (Work.run e q) n = (do
      let _ ← int (i + 1)
      return n) := by
    intro n
    simp [Work.run]
  rw [List.foldlM_append, intPass, same]
  simp only [last]

theorem matrixAssemble_eq_work (e : UInt64) (views : List MatrixView) (q : BBX) :
    matrixAssemble e views q = (do
      let n ← q.getElemNum
      let m ← (work views).foldlM (Work.run e q) (Buffer.malloc (e * n))
      return ⟨q, m⟩) := by
  have whole : ∀ m, views.foldlM (copyView e q) m = (work views).foldlM (Work.run e q) m := by
    intro m
    rw [work, Loop.foldlM_flatMap]
    congr 1
    funext m mv
    refine forInt_eq_work (fun m z => ?_) _ _ m
    have row : ∀ m y, copyRow e mv q m z y = [Work.copy ⟨mv, z, y⟩].foldlM (Work.run e q) m := by
      intro m y
      simp [Work.run, copyLine]
    exact forInt_eq_work row _ _ m
  simp only [matrixAssemble, whole]

/-- The lines among the work are lines of the views. -/
theorem line_of_copy (h : .copy l ∈ work views) : l.view ∈ views ∧
    (l.view.m_bbx.getIndexlb.y ≤ l.y ∧ l.y ≤ l.view.m_bbx.getIndexub.y) ∧
    (l.view.m_bbx.getIndexlb.z ≤ l.z ∧ l.z ≤ l.view.m_bbx.getIndexub.z) := by
  obtain ⟨mv, hmv, h⟩ := List.mem_flatMap.mp h
  obtain ⟨z, hz, h⟩ := List.mem_flatMap.mp h
  obtain h | h := List.mem_append.mp h
  · obtain ⟨y, hy, h⟩ := List.mem_flatMap.mp h
    simp only [List.mem_cons, Work.copy.injEq, reduceCtorEq, List.not_mem_nil, or_false] at h
    subst h
    exact ⟨hmv, mem_intRange.mp hy, mem_intRange.mp hz⟩
  · simp at h

theorem copy_mem {mv : MatrixView} (hmv : mv ∈ views) {z y : Int}
    (hz : mv.m_bbx.getIndexlb.z ≤ z ∧ z ≤ mv.m_bbx.getIndexub.z)
    (hy : mv.m_bbx.getIndexlb.y ≤ y ∧ y ≤ mv.m_bbx.getIndexub.y) :
    .copy ⟨mv, z, y⟩ ∈ work views := by
  refine List.mem_flatMap.mpr ⟨mv, hmv, List.mem_flatMap.mpr ⟨z, mem_intRange.mpr hz, ?_⟩⟩
  exact List.mem_append_left _ (List.mem_flatMap.mpr ⟨y, mem_intRange.mpr hy, List.mem_cons_self⟩)

theorem view_mem (h : .copy l ∈ work views) : l.view ∈ views := (line_of_copy h).1

theorem proper_of_mem (few : ∀ mv ∈ views, mv.m_bbx.m_dims ≤ DEFAULT_MAX_DIM)
    (h : .copy l ∈ work views) : l.Proper :=
  ⟨few _ (view_mem h), (line_of_copy h).2⟩

/-- Only the two range checks throw. -/
theorem copyLine_raises_iff (proper : l.Proper) (axes : q.AxesFit) :
    Raises (copyLine e q m l) ↔ l.Refused q := by
  have aligned := proper.aligned
  obtain ⟨few, hy, hz⟩ := proper
  unfold copyLine copyRow Refused
  simp only [raises_bind, not_raises_int, Buffer.not_raises_memcpy, and_false, exists_false,
    or_false]
  rw [BBX.raises_lineStart few hy hz, ← start,
    BBX.raises_getPhysicalIndex few axes fun same => aligned.of_dims same, exists_and_right,
    BBX.exists_index few aligned]

theorem length_copyLine {m' : Buffer} (h : copyLine e q m l = .ok m') : m'.length = m.length := by
  obtain ⟨i, _, h⟩ := bind_eq_ok.mp h
  obtain ⟨j, _, h⟩ := bind_eq_ok.mp h
  obtain ⟨d, _, h⟩ := bind_eq_ok.mp h
  obtain ⟨n, _, h⟩ := bind_eq_ok.mp h
  exact Buffer.length_memcpy h

theorem copyLine_ok_iff (proper : l.Proper)
    (hm : m.length = (e * size_t q.elemCount).toNat) :
    (∃ m', copyLine e q m l = .ok m') ↔ l.Copied e q := by
  have aligned := proper.aligned
  have few := proper.1
  constructor
  · rintro ⟨m', run⟩
    obtain ⟨i, hi, run⟩ := bind_eq_ok.mp run
    obtain ⟨j, hj, run⟩ := bind_eq_ok.mp run
    obtain ⟨d, hd, run⟩ := bind_eq_ok.mp run
    obtain ⟨n, hn, run⟩ := bind_eq_ok.mp run
    obtain ⟨_, rfl⟩ := int_eq_ok.mp hd
    obtain ⟨_, rfl⟩ := int_eq_ok.mp hn
    obtain ⟨source, rfl⟩ := (BBX.getPhysicalIndex_eq_ok few aligned).mp hi
    have same : l.view.m_bbx.m_dims = q.m_dims := by
      by_contra other
      unfold BBX.getPhysicalIndex at hj
      rw [if_pos other] at hj
      cases hj
    rw [same] at hj
    obtain ⟨within, rfl⟩ := (BBX.getPhysicalIndex_eq_ok (same ▸ few) (aligned.of_dims same)).mp hj
    obtain ⟨write, read⟩ := (Buffer.memcpy_eq_ok.mp run).1
    exact ⟨source, same, within, hm ▸ write, read⟩
  · rintro ⟨source, same, within, write, read⟩
    obtain ⟨first, length⟩ := source.2.1.first
    have hi := (BBX.getPhysicalIndex_eq_ok few aligned).mpr ⟨source, rfl⟩
    have hj := (BBX.getPhysicalIndex_eq_ok (same ▸ few) (aligned.of_dims same)).mpr ⟨within, rfl⟩
    rw [← same] at hj
    exact ⟨_, bind_eq_ok.mpr ⟨_, hi, bind_eq_ok.mpr ⟨_, hj, bind_eq_ok.mpr
      ⟨_, int_of_isInt first, bind_eq_ok.mpr ⟨_, int_of_isInt length,
        Buffer.memcpy_eq_ok.mpr ⟨⟨hm ▸ write, read⟩, rfl⟩⟩⟩⟩⟩⟩

/-- The line is copied, the variable can be incremented. -/
def Work.Done (e : UInt64) (q : BBX) : Work → Prop
  | .copy l => l.Copied e q
  | .increment i => IsInt (i + 1)

def Work.Refused (q : BBX) : Work → Prop
  | .copy l => l.Refused q
  | .increment _ => False

section Steps

variable {w : Work}

theorem Work.run_ok_iff (proper : ∀ l, w = .copy l → l.Proper)
    (hm : m.length = (e * size_t q.elemCount).toNat) :
    (∃ m', w.run e q m = .ok m') ↔ w.Done e q := by
  cases w with
  | copy l => exact copyLine_ok_iff (proper l rfl) hm
  | increment i =>
    by_cases counts : IsInt (i + 1)
    · exact iff_of_true ⟨m, by simp [Work.run, int_of_isInt counts]⟩ counts
    · refine iff_of_false ?_ counts
      rintro ⟨m', run⟩
      simp [Work.run, int, counts] at run

theorem Work.run_raises_iff (proper : ∀ l, w = .copy l → l.Proper) (axes : q.AxesFit) :
    Raises (w.run e q m) ↔ w.Refused q := by
  cases w with
  | copy l => exact copyLine_raises_iff (proper l rfl) axes
  | increment i => simp [Work.run, Work.Refused]

theorem Work.length_run {m' : Buffer} (h : w.run e q m = .ok m') : m'.length = m.length := by
  cases w with
  | copy l => exact length_copyLine h
  | increment i =>
    rw [Work.run, map_eq_pure_bind] at h
    obtain ⟨k, _, same⟩ := bind_eq_ok.mp h
    exact congrArg List.length (Except.ok.inj same).symm

end Steps

/-- Some line is refused, and before it all lines are copied and all increments fit. -/
def RefusedFirst (e : UInt64) (q : BBX) (views : List MatrixView) : Prop :=
  q.AxesFit ∧ ∃ before l after, work views = before ++ .copy l :: after ∧
    (∀ w ∈ before, w.Done e q) ∧ l.Refused q

/-- Only lines are refused. -/
theorem refused_copy {P : List Work → Prop} {all : List Work} :
    (∃ before w after, all = before ++ w :: after ∧ P before ∧ w.Refused q) ↔
      ∃ before l after, all = before ++ .copy l :: after ∧ P before ∧ l.Refused q := by
  constructor
  · rintro ⟨before, w, after, split, done, refused⟩
    cases w with
    | copy l => exact ⟨before, l, after, split, done, refused⟩
    | increment i => exact refused.elim
  · rintro ⟨before, l, after, split, done, refused⟩
    exact ⟨before, .copy l, after, split, done, refused⟩

theorem matrixAssemble_raises_iff (few : ∀ mv ∈ views, mv.m_bbx.m_dims ≤ DEFAULT_MAX_DIM) :
    Raises (matrixAssemble e views q) ↔ RefusedFirst e q views := by
  have counted : ¬ Raises q.getElemNum := BBX.not_raises_elemNumOf _ _
  rw [matrixAssemble_eq_work, raises_bind, RefusedFirst]
  by_cases axes : q.AxesFit
  · have proper : ∀ w ∈ work views, ∀ l, w = .copy l → l.Proper := by
      rintro _ hw l rfl
      exact proper_of_mem few hw
    have stops := @Loop.foldlM_error_iff _ _ _
      (fun m : Buffer => m.length = (e * size_t q.elemCount).toNat) _ _
      (fun stop => ∃ what, stop = .runtime_error what) _ _
      (fun w hw m hm => (Work.run_ok_iff (proper w hw) hm).symm)
      (fun w hw m m' hm run => (Work.length_run run).trans hm)
      (fun w hw m hm => (Work.run_raises_iff (proper w hw) axes).symm.trans raises_iff_error)
      (Buffer.malloc (e * size_t q.elemCount)) List.length_replicate
    rw [← raises_iff_error, refused_copy] at stops
    simp only [BBX.getElemNum_eq axes, not_raises_ok, false_or, Except.ok.injEq, exists_eq_left',
      raises_bind, not_raises_pure, and_false, exists_false, or_false, axes, true_and]
    exact stops
  · refine iff_of_false ?_ fun h => axes h.1
    rintro (raised | ⟨n, count, _⟩)
    · exact counted raised
    · exact axes (BBX.axesFit_of_count count)

/-- An assembly that returns has copied every line from inside its view to inside the box. -/
theorem copied_of_ok (few : ∀ mv ∈ views, mv.m_bbx.m_dims ≤ DEFAULT_MAX_DIM) (axes : q.AxesFit)
    {out : MatrixView} (run : matrixAssemble e views q = .ok out) (hl : .copy l ∈ work views) :
    l.Copied e q := by
  have proper : ∀ w ∈ work views, ∀ l, w = .copy l → l.Proper := by
    rintro _ hw l rfl
    exact proper_of_mem few hw
  rw [matrixAssemble_eq_work, BBX.getElemNum_eq axes] at run
  obtain ⟨n, count, run⟩ := bind_eq_ok.mp run
  obtain rfl := Except.ok.inj count
  obtain ⟨m, run, _⟩ := bind_eq_ok.mp run
  exact Loop.forall_good (P := fun m : Buffer => m.length = (e * size_t q.elemCount).toNat)
    (fun w hw m hm => (Work.run_ok_iff (proper w hw) hm).symm)
    (fun w hw m m' hm run => (Work.length_run run).trans hm) List.length_replicate run _ hl

/-- Where every view lies in the box nothing is thrown: holes and overlaps go unnoticed. -/
theorem not_raises_of_within (few : ∀ mv ∈ views, mv.m_bbx.m_dims ≤ DEFAULT_MAX_DIM)
    (dims : ∀ mv ∈ views, mv.m_bbx.m_dims = q.m_dims)
    (filled : ∀ mv ∈ views, mv.m_bbx.getIndexlb.x ≤ mv.m_bbx.getIndexub.x)
    (within : ∀ mv ∈ views, mv.m_bbx.Within q) : ¬ Raises (matrixAssemble e views q) := by
  rw [matrixAssemble_raises_iff few]
  rintro ⟨_, before, l, after, split, _, refused⟩
  have hl : .copy l ∈ work views := by simp [split]
  obtain ⟨_, hy, hz⟩ := proper_of_mem few hl
  have hmv := view_mem hl
  have start : l.view.m_bbx.In l.start := ⟨⟨le_rfl, filled _ hmv⟩, hy, hz⟩
  obtain empty | ⟨_, other | outside⟩ := refused
  · exact empty start
  · exact other (dims _ hmv)
  · exact outside (within _ hmv _ start)

/-- A view that is cut to the box: it can be copied where it has cells at all. -/
structure Cut (e : UInt64) (q : BBX) (mv : MatrixView) : Prop where
  dims : mv.m_bbx.m_dims ≤ DEFAULT_MAX_DIM
  filled : mv.m_bbx.In mv.m_bbx.getIndexlb → Copyable e q mv
  ends : mv.m_bbx.LoopsEnd

theorem increment_counts {i : Int} (ends : ∀ mv ∈ views, mv.m_bbx.LoopsEnd)
    (h : .increment i ∈ work views) : IsInt (i + 1) := by
  obtain ⟨mv, hmv, h⟩ := List.mem_flatMap.mp h
  obtain ⟨z, hz, h⟩ := List.mem_flatMap.mp h
  obtain h | h := List.mem_append.mp h
  · obtain ⟨y, hy, h⟩ := List.mem_flatMap.mp h
    simp only [List.mem_cons, reduceCtorEq, Work.increment.injEq, List.not_mem_nil, or_false,
      false_or] at h
    subst h
    obtain ⟨lower, upper⟩ := mem_intRange.mp hy
    exact (ends mv hmv).1 i lower upper
  · simp only [List.mem_singleton, Work.increment.injEq] at h
    subst h
    obtain ⟨lower, upper⟩ := mem_intRange.mp hz
    exact (ends mv hmv).2 i lower upper

/-- A line of a cut view is copied, or it is empty and refused. -/
theorem copyLine_cut (cut : Cut e q l.view) (proper : l.Proper) (addr : Addressable e q.cells)
    (axes : q.AxesFit) (hfit : q.cells ≤ INT_MAX + 1)
    (hm : m.length = e.toNat * q.cells.toNat) :
    (∃ m', copyLine e q m l = .ok m' ∧ m'.length = e.toNat * q.cells.toNat) ∨
      Raises (copyLine e q m l) := by
  obtain ⟨few, hy, hz⟩ := proper
  by_cases start : l.view.m_bbx.In l.start
  · obtain ⟨m', run, length⟩ := copyRow_ok addr (cut.filled (BBX.in_corners start).1) axes hfit
      hm.ge hz hy
    exact .inl ⟨m', run, length.trans hm⟩
  · exact .inr (raises_bind.mpr (.inl ((BBX.raises_lineStart few hy hz).mpr start)))

/-- Views cut to the box are assembled, unless one of them is inverted and refused: nothing
overflows, and no copy leaves a buffer. -/
theorem matrixAssemble_cut (addr : Addressable e q.cells) (hd : q.Dims) (hwf : q.WellFormed)
    (axes : q.AxesFit) (hfit : q.cells ≤ INT_MAX + 1) (cut : ∀ mv ∈ views, Cut e q mv) :
    (∃ out, matrixAssemble e views q = .ok out) ∨ Raises (matrixAssemble e views q) := by
  have hmax : INT_MAX = 2147483647 := rfl
  obtain ⟨n, hn, count⟩ := BBX.getElemNum_fits hd hwf axes (by omega)
  have ends : ∀ mv ∈ views, mv.m_bbx.LoopsEnd := fun mv hmv => (cut mv hmv).ends
  have step : ∀ w ∈ work views, ∀ m : Buffer, m.length = e.toNat * q.cells.toNat →
      (∃ m', w.run e q m = .ok m' ∧ m'.length = e.toNat * q.cells.toNat) ∨
        Raises (w.run e q m) := by
    intro w hw m hm
    cases w with
    | copy l =>
      have proper := proper_of_mem (fun mv hmv => (cut mv hmv).dims) hw
      exact copyLine_cut (cut _ (view_mem hw)) proper addr axes hfit hm
    | increment i =>
      refine .inl ⟨m, ?_, hm⟩
      simp [Work.run, int_of_isInt (increment_counts ends hw)]
  rw [matrixAssemble_eq_work]
  obtain ⟨m, run, _⟩ | raised := foldlM_ok_or_raises step (malloc_whole addr hfit count)
  · exact .inl ⟨⟨q, m⟩, bind_eq_ok.mpr ⟨n, hn, bind_eq_ok.mpr ⟨m, run, rfl⟩⟩⟩
  · exact .inr (raises_bind.mpr (.inr ⟨n, hn, raises_bind.mpr (.inl raised)⟩))

/-- The views have the dimension of the box and lie in it, no two share a cell, and every cell of
the box is in one of them. -/
structure TilesBox (q : BBX) (views : List MatrixView) : Prop where
  dims : ∀ mv ∈ views, mv.m_bbx.m_dims = q.m_dims
  inside : ∀ mv ∈ views, List.Forall₂ (fun part whole => whole.m_lb ≤ part.m_lb ∧
    part.m_ub ≤ whole.m_ub) mv.m_bbx.BoundList q.BoundList
  apart : views.Pairwise (Tiling.Apart fun mv p => mv.m_bbx.Contains p)
  covers : ∀ p, q.Contains p → ∃ mv ∈ views, mv.m_bbx.Contains p

/-- The assembly returns only for views that tile the box, and throws for the others. -/
structure Rejects (e : UInt64) (q : BBX) (views : List MatrixView) : Prop where
  returned : ∀ out, matrixAssemble e views q = .ok out → TilesBox q views
  thrown : ¬ TilesBox q views → Raises (matrixAssemble e views q)

theorem rejects_iff (few : ∀ mv ∈ views, mv.m_bbx.m_dims ≤ DEFAULT_MAX_DIM) :
    Rejects e q views ↔ TilesBox q views ∨ RefusedFirst e q views := by
  rw [← matrixAssemble_raises_iff few]
  constructor
  · intro h
    by_cases tiles : TilesBox q views
    · exact .inl tiles
    · exact .inr (h.thrown tiles)
  · rintro (tiles | raised)
    · exact ⟨fun _ _ => tiles, fun none => absurd tiles none⟩
    · refine ⟨fun out run => ?_, fun _ => raised⟩
      obtain ⟨what, thrown⟩ := raised
      rw [thrown] at run
      cases run

/-- A view next to the whole box is refused at its first cell. -/
theorem outside_rejected : Rejects 1 ⟨0, [⟨0, 1⟩]⟩ [⟨⟨0, [⟨2, 3⟩]⟩, [some 1, some 2]⟩] := by
  refine (rejects_iff (by simp; decide)).mpr (.inr ⟨by decide, [], _, _, rfl, by simp, .inr ?_⟩)
  exact ⟨⟨by decide, by decide, by decide⟩, .inr (by decide)⟩

/-- A hole, an overlap and a view that sticks out along `x` are all assembled. -/
theorem defects_assembled :
    ¬ Rejects 1 ⟨0, [⟨0, 1⟩]⟩ [⟨⟨0, [⟨0, 0⟩]⟩, [some 1]⟩] ∧
    ¬ Rejects 1 ⟨0, [⟨0, 1⟩]⟩
      [⟨⟨0, [⟨0, 1⟩]⟩, [some 1, some 2]⟩, ⟨⟨0, [⟨1, 1⟩]⟩, [some 3]⟩] ∧
    ¬ Rejects 1 ⟨0, [⟨0, 1⟩, ⟨0, 1⟩]⟩
      [⟨⟨0, [⟨0, 2⟩, ⟨0, 0⟩]⟩, [some 1, some 2, some 3]⟩, ⟨⟨0, [⟨1, 1⟩, ⟨1, 1⟩]⟩, [some 4]⟩] := by
  refine ⟨fun h => ?_, fun h => ?_, fun h => ?_⟩
  · have tiles := h.returned _ rfl
    obtain ⟨mv, hmv, hp⟩ := tiles.covers [1] (by decide)
    obtain rfl := List.mem_singleton.mp hmv
    exact absurd hp (by decide)
  · have tiles := h.returned _ rfl
    have apart := (List.pairwise_cons.mp tiles.apart).1 _ List.mem_cons_self
    exact apart [1] (by decide) (by decide)
  · have tiles := h.returned _ rfl
    have inside := tiles.inside _ List.mem_cons_self
    exact absurd inside (by decide)

end MATRIXTOOL

end Gorilla
