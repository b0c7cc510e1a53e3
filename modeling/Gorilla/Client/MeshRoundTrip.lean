import Gorilla.Client.DeepCopy

/-!
# Meshes that are read back

The deep copy of a mesh is sent as three arrays of doubles and ints. What the receiver builds of
them has the first three corners of each polygon, and the points that some polygon has.
-/

namespace Gorilla

open HandLock Handler Traverse Runs

/-- The formats with the widths of both sides, and a zero that fills new vectors. -/
structure NumberFormats (R : Type) extends Formats R where
  zero : R
  double : Codec R (Option UInt8)
  int32 : Codec Int (Option UInt8)
  width_double : double.width = sizeofDouble
  width_int32 : int32.width = sizeofInt
  fits_double : ∀ r, double.Fits r
  fits_int32 : ∀ z, IsInt z → int32.Fits z
  decode_double : ofDouble = double.decode
  decode_int32 : ofInt = int32.decode

variable {R : Type}

/-- The first three ids of a polygon. -/
def firstThree (ids : List Int) : Array3 Int := .ofList 0 ids

def PolyData.mesh (polyData : PolyData R) : PolyMesh R where
  points := polyData.points
  normals := some polyData.normals
  polys := polyData.polys.map Array3.toList

@[simp] theorem PolyData.points_mesh (polyData : PolyData R) :
    polyData.mesh.points = polyData.points := rfl

@[simp] theorem PolyData.normals_mesh (polyData : PolyData R) :
    polyData.mesh.normals = some polyData.normals := rfl

@[simp] theorem PolyData.polys_mesh (polyData : PolyData R) :
    polyData.mesh.polys = polyData.polys.map Array3.toList := rfl

namespace PolyMesh

/-- What a receiver makes of the deep copy. -/
def received (zero : R) (mesh : PolyMesh R) (normalArray : List (Array3 R)) : PolyData R where
  points := mesh.copiedPoints zero
  normals := mesh.copiedNormals zero normalArray
  polys := (mesh.polys.take mesh.numCells.toNat).map firstThree

@[simp] theorem received_points (zero : R) (mesh : PolyMesh R) (normalArray : List (Array3 R)) :
    (mesh.received zero normalArray).points = mesh.copiedPoints zero := by rw [received]

@[simp] theorem received_normals (zero : R) (mesh : PolyMesh R) (normalArray : List (Array3 R)) :
    (mesh.received zero normalArray).normals = mesh.copiedNormals zero normalArray := by
  rw [received]

/-- Every cell has three corners at least. -/
def Polygonal (mesh : PolyMesh R) : Prop := ∀ ids ∈ mesh.polys, 3 ≤ ids.length

variable {mesh : PolyMesh R} {normalArray : List (Array3 R)} {zero : R}

theorem flatMap_take_three {polys : List (List Int)} (polygons : ∀ ids ∈ polys, 3 ≤ ids.length) :
    polys.flatMap (List.take 3) = flat (polys.map firstThree) := by
  induction polys with
  | nil => rfl
  | cons ids polys ih =>
    obtain ⟨long, others⟩ := List.forall_mem_cons.mp polygons
    have rest := ih others
    rcases ids with _ | ⟨a, _ | ⟨b, _ | ⟨c, more⟩⟩⟩
    · simp at long
    · simp at long
    · simp at long
    · rw [List.flatMap_cons, rest]
      rfl

theorem copiedCells_eq (zero : R) (h : mesh.Copyable normalArray) (polygonal : mesh.Polygonal) :
    mesh.copiedCells = flat (mesh.received zero normalArray).polys := by
  have cells_le := mesh.numCells_le
  have nonneg := h.cells.1
  have count : (mesh.polys.take mesh.numCells.toNat).length = mesh.numCells.toNat := by
    rw [List.length_take]
    omega
  have polygons : ∀ ids ∈ mesh.polys.take mesh.numCells.toNat, 3 ≤ ids.length :=
    fun ids mem => polygonal ids (List.mem_of_mem_take mem)
  have rooms := h.room
  rw [copiedCells, lay_polygons (by rw [List.length_replicate, count, Nat.zero_add]) polygons
    (by rw [List.length_replicate]; exact rooms), flatMap_take_three polygons, Nat.zero_mul,
    List.take_zero, List.nil_append, received]

theorem length_copiedPoints (h : mesh.Copyable normalArray) :
    (mesh.copiedPoints zero).length = mesh.numPoints.toNat := by
  have points_le := mesh.numPoints_le
  have nonneg := h.points.1
  rw [copiedPoints, List.length_map, List.length_zipIdx, List.length_take]
  omega

theorem length_copiedNormals (h : mesh.Copyable normalArray) :
    (mesh.copiedNormals zero normalArray).length = mesh.numPoints.toNat := by
  have few := h.normals.2
  rw [copiedNormals, length_overwrite, List.length_replicate]
  rw [List.length_replicate]
  omega

theorem length_polys (zero : R) (h : mesh.Copyable normalArray) :
    (mesh.received zero normalArray).polys.length = mesh.numCells.toNat := by
  have cells_le := mesh.numCells_le
  have nonneg := h.cells.1
  rw [received, List.length_map, List.length_take]
  omega

/-- Nothing is lost of a mesh of triangles whose points are all in use or zero. -/
structure Lossless (zero : R) (mesh : PolyMesh R) (normalArray : List (Array3 R)) : Prop where
  triangles : ∀ ids ∈ mesh.polys, ids.length = 3
  normals : normalArray.length = mesh.points.length
  cells : (mesh.polys.length : Int) = mesh.numCells
  points : ∀ (k : Nat) coords, mesh.points[k]? = some coords →
    (k : Int) ∈ mesh.named ∨ coords = ⟨zero, zero, zero⟩

theorem toList_firstThree {ids : List Int} (long : 3 ≤ ids.length) :
    (firstThree ids).toList = ids.take 3 := by
  rcases ids with _ | ⟨a, _ | ⟨b, _ | ⟨c, rest⟩⟩⟩
  · simp at long
  · simp at long
  · simp at long
  · rfl

theorem copiedNormals_eq (full : (normalArray.length : Int) = mesh.numPoints) :
    mesh.copiedNormals zero normalArray = normalArray := by
  have count : mesh.numPoints.toNat = normalArray.length := by omega
  rw [copiedNormals, overwrite, List.take_zero, List.nil_append, count, Nat.zero_add,
    List.drop_of_length_le (by rw [List.length_replicate]), List.append_nil]

theorem copiedPoints_eq (all : (mesh.points.length : Int) = mesh.numPoints)
    (seen : ∀ (k : Nat) coords, mesh.points[k]? = some coords →
      (k : Int) ∈ mesh.named ∨ coords = ⟨zero, zero, zero⟩) :
    mesh.copiedPoints zero = mesh.points := by
  refine List.ext_getElem? fun k => ?_
  rw [copiedPoints, List.take_of_length_le (by omega), List.getElem?_map, List.getElem?_zipIdx]
  cases found : mesh.points[k]? with
  | none => rfl
  | some coords =>
    simp only [Option.map_some, Nat.zero_add]
    rcases seen k coords found with named | zeroed
    · rw [if_pos named]
    · split
      · rfl
      · rw [zeroed]

theorem received_mesh (h : mesh.Copyable normalArray) :
    (mesh.received zero normalArray).mesh = mesh ↔ mesh.Lossless zero normalArray := by
  have points_le := mesh.numPoints_le
  have cells_le := mesh.numCells_le
  have nonneg := h.cells.1
  have few := h.normals.2
  constructor
  · intro same
    have points : mesh.copiedPoints zero = mesh.points := by
      have kept := congrArg PolyMesh.points same
      rwa [PolyData.points_mesh, received_points] at kept
    have normals : mesh.copiedNormals zero normalArray = normalArray := by
      have given := congrArg PolyMesh.normals same
      rw [PolyData.normals_mesh, received_normals, h.normals.1] at given
      exact Option.some.inj given
    have polys : (mesh.received zero normalArray).polys.map Array3.toList = mesh.polys := by
      have kept := congrArg PolyMesh.polys same
      rwa [PolyData.polys_mesh] at kept
    have points_len := congrArg List.length points
    have normals_len := congrArg List.length normals
    have polys_len := congrArg List.length polys
    rw [length_copiedPoints h] at points_len
    rw [length_copiedNormals h] at normals_len
    rw [List.length_map, length_polys zero h] at polys_len
    refine ⟨fun ids mem => ?_, by omega, by omega, fun k coords found => ?_⟩
    · rw [← polys] at mem
      obtain ⟨triple, _, rfl⟩ := List.mem_map.mp mem
      rfl
    · by_cases named : (k : Int) ∈ mesh.named
      · exact .inl named
      · right
        have inside : k < mesh.points.length := (List.getElem?_eq_some_iff.mp found).1
        rw [← points, copiedPoints, List.take_of_length_le (by omega), List.getElem?_map,
          List.getElem?_zipIdx, List.getElem?_eq_getElem inside] at found
        simp only [Option.map_some, Nat.zero_add, Option.some.injEq, if_neg named] at found
        exact found.symm
  · intro lossless
    have normals_len := lossless.normals
    have points := copiedPoints_eq (by omega) lossless.points
    have normals : mesh.copiedNormals zero normalArray = normalArray := copiedNormals_eq (by omega)
    have cells := lossless.cells
    have polys : (mesh.received zero normalArray).polys.map Array3.toList = mesh.polys := by
      rw [received, List.take_of_length_le (by omega), List.map_map]
      refine (List.map_congr_left fun ids mem => ?_).trans (List.map_id _)
      have three := lossless.triangles ids mem
      rw [Function.comp_apply, toList_firstThree (by omega), List.take_of_length_le (by omega)]
      rfl
    rw [PolyData.mesh, polys, received]
    simp only [points, normals, ← h.normals.1]

end PolyMesh

/-! ## Reading the arrays -/

section Triples

variable {α : Type} {c : Codec α (Option UInt8)} {triples : List (Array3 α)}

theorem getElem_flat {i : Nat} (h : i < triples.length) :
    (flat triples)[3 * i]? = some triples[i].x ∧ (flat triples)[3 * i + 1]? = some triples[i].y ∧
      (flat triples)[3 * i + 2]? = some triples[i].z := by
  induction triples generalizing i with
  | nil => cases h
  | cons t triples ih =>
    cases i with
    | zero => exact ⟨rfl, rfl, rfl⟩
    | succ i =>
      have shift : 3 * (i + 1) = 3 * i + 1 + 1 + 1 := by omega
      obtain ⟨x, y, z⟩ := ih (Nat.lt_of_succ_lt_succ h)
      rw [shift]
      exact ⟨x, y, z⟩

theorem readTriple_pack (fits : ∀ a ∈ flat triples, c.Fits a) {i : Nat} (h : i < triples.length) :
    ClientForStaging.readTriple c.decode c.width (c.pack (flat triples)) i = .ok triples[i] := by
  have len := length_flat triples
  have inside : (i + 1) * (3 * c.width) ≤ (c.pack (flat triples)).length := by
    rw [Codec.length_pack, len, Nat.mul_assoc]
    exact Nat.mul_le_mul_right _ h
  have read : ∀ k (hk : k < (flat triples).length),
      c.decode (((c.pack (flat triples)).drop (k * c.width)).take c.width) = (flat triples)[k] :=
    fun k hk => Codec.decode_slot hk fits
  obtain ⟨x, y, z⟩ := getElem_flat h
  unfold ClientForStaging.readTriple
  rw [if_neg (Nat.not_lt.mpr inside), read (3 * i) (by omega), read (3 * i + 1) (by omega),
    read (3 * i + 2) (by omega), (List.getElem?_eq_some_iff.mp x).2,
    (List.getElem?_eq_some_iff.mp y).2, (List.getElem?_eq_some_iff.mp z).2]

theorem mapM_range {β : Type} {f : Nat → Except Stop β} {l : List β}
    (h : ∀ i (hi : i < l.length), f i = .ok l[i]) : (List.range l.length).mapM f = .ok l := by
  refine mapM_eq_ok.mpr (List.forall₂_iff_get.mpr ⟨List.length_range, fun i _ hi => ?_⟩)
  rw [List.get_eq_getElem, List.get_eq_getElem, List.getElem_range]
  exact h i hi

/-- The number of triples, out of the size of the array in bytes. -/
theorem truncInt_triples {n : Nat} (small : (n : Int) * 3 ≤ INT_MAX) {width : Nat}
    (pos : 0 < width) (le : width ≤ 8) :
    DataBlock.truncInt (UInt64.ofNat width * UInt64.ofNat (n * 3) / UInt64.ofNat width / 3) =
      n := by
  have max : INT_MAX = 2147483647 := rfl
  have three : (3 : UInt64).toNat = 3 := rfl
  have size : UInt64.size = 18446744073709551616 := rfl
  have w : (UInt64.ofNat width).toNat = width := UInt64.toNat_ofNat_of_lt' (by omega)
  have m : (UInt64.ofNat (n * 3)).toNat = n * 3 := UInt64.toNat_ofNat_of_lt' (by omega)
  have product : width * (n * 3) < 2 ^ 64 := by
    have bound := Nat.mul_le_mul le (by omega : n * 3 ≤ 2147483647)
    omega
  have quotient : (UInt64.ofNat width * UInt64.ofNat (n * 3) / UInt64.ofNat width / 3).toNat =
      n := by
    rw [UInt64.toNat_div, UInt64.toNat_div, UInt64.toNat_mul, w, m, three,
      Nat.mod_eq_of_lt product, Nat.mul_div_cancel_left _ pos, Nat.mul_div_cancel _ (by decide)]
  unfold DataBlock.truncInt
  rw [quotient]
  dsimp only
  split <;> omega

end Triples

namespace PolyMesh

variable {mesh : PolyMesh R} {normalArray : List (Array3 R)}

/-- The received ids are ids of points. -/
theorem isInt_polys {zero : R} (h : mesh.Copyable normalArray) (polygonal : mesh.Polygonal) :
    ∀ id ∈ flat (mesh.received zero normalArray).polys, IsInt id := by
  intro id mem
  have small := mesh.numPoints_int
  have polygons : ∀ ids ∈ mesh.polys.take mesh.numCells.toNat, 3 ≤ ids.length :=
    fun ids mem => polygonal ids (List.mem_of_mem_take mem)
  have polys : (mesh.received zero normalArray).polys =
      (mesh.polys.take mesh.numCells.toNat).map firstThree := by rw [received]
  rw [polys, ← flatMap_take_three polygons] at mem
  obtain ⟨ids, hids, mem⟩ := List.mem_flatMap.mp mem
  obtain ⟨nonneg, below⟩ := h.ids id (List.mem_flatten.mpr ⟨ids, hids, List.mem_of_mem_take mem⟩)
  have min : INT_MIN = -2147483648 := rfl
  exact ⟨by omega, by omega⟩

/-- The sizes of the three arrays in bytes. -/
def sizes (mesh : PolyMesh R) : Array3 UInt64 :=
  ⟨UInt64.ofNat sizeofDouble * UInt64.ofNat (mesh.numPoints.toNat * 3),
    UInt64.ofNat sizeofDouble * UInt64.ofNat (mesh.numPoints.toNat * 3),
    UInt64.ofNat sizeofInt * UInt64.ofNat (mesh.numCells.toNat * 3)⟩

theorem rebuild_received (f : NumberFormats R) (h : mesh.Copyable normalArray)
    (polygonal : mesh.Polygonal) :
    ClientForStaging.rebuild f.toFormats mesh.sizes
      ⟨f.double.pack (flat (mesh.copiedPoints f.zero)),
        f.double.pack (flat (mesh.copiedNormals f.zero normalArray)),
        f.int32.pack mesh.copiedCells⟩ = .ok (mesh.received f.zero normalArray) := by
  have points_nonneg := h.points.1
  have points_small := h.points.2
  have cells_nonneg := h.cells.1
  have cells_small := h.cells.2
  have nPoints : DataBlock.truncInt (mesh.sizes.x / 8 / 3) = mesh.numPoints.toNat :=
    truncInt_triples (by omega) (by decide) (by decide)
  have nCells : DataBlock.truncInt (mesh.sizes.z / 4 / 3) = mesh.numCells.toNat :=
    truncInt_triples (by omega) (by decide) (by decide)
  have doubles : ∀ triples : List (Array3 R), triples.length = mesh.numPoints.toNat →
      (List.range mesh.numPoints.toNat).mapM (ClientForStaging.readTriple f.ofDouble sizeofDouble
        (f.double.pack (flat triples))) = .ok triples := by
    intro triples len
    rw [← len, f.decode_double, ← f.width_double]
    exact mapM_range fun i hi => readTriple_pack (fun a _ => f.fits_double a) hi
  have polys : (List.range mesh.numCells.toNat).mapM (ClientForStaging.readTriple f.ofInt sizeofInt
      (f.int32.pack mesh.copiedCells)) = .ok (mesh.received f.zero normalArray).polys := by
    rw [copiedCells_eq f.zero h polygonal, ← length_polys f.zero h,
      f.decode_int32, ← f.width_int32]
    exact mapM_range fun i hi =>
      readTriple_pack (fun a mem => f.fits_int32 a (isInt_polys h polygonal a mem)) hi
  unfold ClientForStaging.rebuild
  dsimp only
  rw [nPoints, nCells, Int.toNat_natCast, Int.toNat_natCast, doubles _ (length_copiedPoints h),
    doubles _ (length_copiedNormals h), polys]
  simp only [bind, Except.bind, pure, Except.pure, received]

end PolyMesh

end Gorilla
