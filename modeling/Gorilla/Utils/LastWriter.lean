import Gorilla.Utils.Assembly

/-!
# The last view decides

Every cell some view holds comes out of the last one that holds it, unless a view ends at the
last row or plane an `int` can name: there the loop over its lines overflows.
-/

namespace Gorilla

namespace MATRIXTOOL

variable {e : UInt64} {q : BBX} {mv : MatrixView} {views : List MatrixView}

/-- A view of the dimensions of the whole box that lies inside it and has the bytes of its
cells. -/
structure Piece (e : UInt64) (q : BBX) (mv : MatrixView) : Prop where
  dims : mv.m_bbx.m_dims = q.m_dims
  filled : mv.m_bbx.WellFormed
  within : mv.m_bbx.Within q
  bytes : mv.m_data.length = e.toNat * mv.m_bbx.cells.toNat

theorem Piece.copyable (h : Piece e q mv) (hd : q.Dims) : Copyable e q mv := by
  have hvd : mv.m_bbx.Dims := by
    rw [BBX.Dims, h.dims]
    exact hd
  exact ⟨hvd, h.dims.symm, h.filled.corner hvd, h.within, h.bytes.ge⟩

theorem Piece.cells_le (h : Piece e q mv) (hd : q.Dims) : mv.m_bbx.cells ≤ q.cells :=
  BBX.cells_le h.within (h.copyable hd).corner

theorem Piece.fitting (hd : q.Dims) (h : ∀ mv ∈ views, Piece e q mv) : Fitting q views := by
  intro mv hmv
  have copyable := (h mv hmv).copyable hd
  exact ⟨copyable.dims, copyable.dims_eq, copyable.ub_le⟩

/-- A cell of the box is at its row-major position. -/
theorem cell_index {b : BBX} {p : Array3 Int} (hd : b.Dims) (hp : b.In p)
    (hfit : b.cells ≤ INT_MAX) : ∃ i, b.getPhysicalIndex b.m_dims p = .ok i ∧
      i.toNat = (b.flat p).toNat := by
  have h0 := BBX.flat_nonneg hp
  have h1 := BBX.flat_lt_cells hp
  have hmax : INT_MAX = 2147483647 := rfl
  exact ⟨_, BBX.getPhysicalIndex_ok hd hp hfit, size_t_toNat h0 (by omega)⟩

/-- The result holds the whole box, and every cell that some view covers comes out of the last
one that does. -/
structure Overlaid (e : UInt64) (q : BBX) (views : List MatrixView) (out : MatrixView) : Prop where
  box : out.m_bbx = q
  length : out.m_data.length = e.toNat * q.cells.toNat
  last : ∀ before mv after p, views = before ++ mv :: after → mv.m_bbx.In p →
    (∀ v ∈ after, ¬ v.m_bbx.In p) →
    ∃ i j, q.getPhysicalIndex q.m_dims p = .ok i ∧
      mv.m_bbx.getPhysicalIndex mv.m_bbx.m_dims p = .ok j ∧
      cellBytes e.toNat out.m_data i.toNat = cellBytes e.toNat mv.m_data j.toNat

/-- The assembly returns, without an exception or a write outside its buffer, what the last views
say. -/
def LastWriter (e : UInt64) (q : BBX) (views : List MatrixView) : Prop :=
  ∃ out, matrixAssemble e views q = .ok out ∧ Overlaid e q views out

/-- Views whose loops end are laid one after the other into a buffer that holds the whole box. -/
theorem overlaid_of_loopsEnd (hd : q.Dims) (hwf : q.WellFormed) (small : q.cells < 2 ^ 31)
    (memory : e.toNat * q.cells.toNat < 2 ^ 64) (pieces : ∀ mv ∈ views, Piece e q mv)
    (ends : ∀ mv ∈ views, mv.m_bbx.LoopsEnd) : LastWriter e q views := by
  have hfit : q.cells ≤ INT_MAX := by
    unfold INT_MAX
    omega
  have addr : Addressable e q.cells := addressable_of_lt memory
  obtain ⟨out, run, len⟩ :=
    matrixAssemble_ok addr hd hwf (BBX.axesFit_of_cells hd (hwf.corner hd) hfit) (by omega)
      (fun mv hmv => (pieces mv hmv).copyable hd) ends
  obtain ⟨box, start, cells⟩ := matrixAssemble_cells addr
    (fun v hv => addr.mono ((pieces v hv).cells_le hd)) (Piece.fitting hd pieces) run
  refine ⟨out, run, box, len, fun before mv after p split hp later => ?_⟩
  have piece := pieces mv (by simp [split])
  have hpq := piece.within p hp
  obtain ⟨i, hi, posi⟩ := cell_index hd hpq hfit
  obtain ⟨j, hj, posj⟩ := cell_index (piece.copyable hd).dims hp ((piece.cells_le hd).trans hfit)
  refine ⟨i, j, hi, hj, ?_⟩
  have laid := cells p hpq
  have mine : mv.layer e p = some (mv.m_bbx.cellAt e mv.m_data p) := if_pos hp
  rw [split, List.map_append, List.map_cons, Overlay.layAll_last mine] at laid
  · rw [posi, posj]
    exact laid
  · intro u hu
    obtain ⟨v, hv, rfl⟩ := List.mem_map.mp hu
    exact if_neg (later v hv)

/-- An assembly that returns has counted past the lines of every view. -/
theorem loopsEnd_of_ok {out : MatrixView} (run : matrixAssemble e views q = .ok out)
    (filled : ∀ mv ∈ views, mv.m_bbx.In mv.m_bbx.getIndexlb) : ∀ mv ∈ views, mv.m_bbx.LoopsEnd := by
  intro mv hmv
  obtain ⟨n, _, run⟩ := bind_eq_ok.mp run
  obtain ⟨m, run, _⟩ := bind_eq_ok.mp run
  obtain ⟨before, after, rfl⟩ := List.append_of_mem hmv
  rw [List.foldlM_append] at run
  obtain ⟨m₀, _, run⟩ := bind_eq_ok.mp run
  rw [List.foldlM_cons] at run
  obtain ⟨m₁, view, _⟩ := bind_eq_ok.mp run
  obtain ⟨_, _, first, last⟩ := filled mv hmv
  obtain ⟨⟨m₂, m₃, plane⟩, _⟩ := forInt_passes view first last
  exact ⟨fun y l u => (forInt_passes plane l u).2, fun z l u => (forInt_passes view l u).2⟩

end MATRIXTOOL

end Gorilla
