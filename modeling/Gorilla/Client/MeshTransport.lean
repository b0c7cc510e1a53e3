import Gorilla.Client.MeshAggregation
import Gorilla.Lib.Slices

/-!
# Meshes in one request

A mesh is also sent whole, as several segments of one request. One way sends the three vectors of
the deep copy, the other sends the memory of the mesh as it is.
-/

namespace Gorilla

open HandLock Slices

variable {R : Type}

def IsLong (z : Int) : Prop := -(2 ^ 63) ≤ z ∧ z < 2 ^ 63

instance (z : Int) : Decidable (IsLong z) := inferInstanceAs (Decidable (_ ∧ _))

/-- The formats of the memory of the VTK library besides. -/
structure RawFormats (R : Type) extends NumberFormats R where
  float : Codec R (Option UInt8)
  long : Codec Int (Option UInt8)
  width_float : float.width = sizeofFloat
  width_long : long.width = sizeofLong
  fits_long : ∀ z, IsLong z → long.Fits z

/-- What the client exposes: the sizes of the segments, and their bytes one after the other. -/
structure Exposed where
  transferSizeList : List UInt64
  bytes : Buffer

namespace ClientForSim

def vector {α : Type} (c : Codec α (Option UInt8)) (elems : List α) : UInt64 × Buffer :=
  (UInt64.ofNat elems.length * UInt64.ofNat c.width, c.pack elems)

def expose (segments : List (UInt64 × Buffer)) : Exposed where
  transferSizeList := segments.map Prod.fst
  bytes := (segments.map Prod.snd).flatten

def putVTKDataExp (f : NumberFormats R) (mesh : PolyMesh R) : Except Stop Exposed := do
  let (points, normals, cells) ← mesh.deepCopy f.zero
  return expose [vector f.double points, vector f.double normals, vector f.int32 cells]

/-- The arrays of the mesh are in memory as they are sent: floats, and 64 bit offsets and ids. -/
def putVTKDataExpZeroOneRpc (f : RawFormats R) (mesh : PolyMesh R) : Except Stop Exposed :=
  match mesh.normals with
  | none => .error (.undefined "null normals")
  | some normalArray => .ok (expose
      [vector f.float (flat mesh.points), vector f.float (flat normalArray),
        vector f.long ((Slices.offsets 0 mesh.polys).map Int.ofNat),
        vector f.long mesh.polys.flatten])

end ClientForSim

namespace UniServer

/-- The segments once the bulk of the client was pulled, filled one after the other. -/
def pullSegments (transferSizeList : List UInt64) (bytes : Buffer) : Except Stop (List Buffer) :=
  let sizes := transferSizeList.map UInt64.toNat
  if sizes.sum < bytes.length then
    .error (.undefined "transfer past the end of a buffer")
  else
    .ok (sizes.splitLengths (Containers.received (List.replicate sizes.sum none) bytes))

/-- The vector that a segment is copied to. -/
def recvVector {α : Type} (c : Codec α (Option UInt8)) (transferSizeList : List UInt64)
    (segments : List Buffer) (i : Nat) : Except Stop (List α) := do
  match transferSizeList[i]?, segments[i]? with
  | some size, some segment =>
    if size.toNat % c.width ≠ 0 then
      throw (.undefined "memcpy past the end of a vector")
    return c.unpack segment
  | _, _ => throw (.undefined "index past the end of transferSizeList")

/-- `&buf[i * 3]` -/
def tupleAt {α : Type} (buf : List α) (i : Nat) : Except Stop (Array3 α) :=
  match buf[3 * i]?, buf[3 * i + 1]?, buf[3 * i + 2]? with
  | some x, some y, some z => .ok ⟨x, y, z⟩
  | _, _, _ => .error (.undefined "index past the end of a vector")

def tuples {α : Type} (buf : List α) (n : Int) : Except Stop (List (Array3 α)) :=
  (List.range n.toNat).mapM (tupleAt buf)

def readMesh (bufPoints : List R) (bufCells : List Int) (bufNormals : List R) :
    Except Stop (PolyMesh R) := do
  let nPoints := sizeToInt (bufPoints.length / 3)
  let nCells := sizeToInt (bufCells.length / 3)
  let points ← tuples bufPoints nPoints
  let polys ← tuples bufCells nCells
  let normals ← tuples bufNormals nPoints
  return ⟨points, some normals, polys.map Array3.toList⟩

def readMesh2 (bufPoints : List R) (bufOffsetCells bufConnectCells : List Int)
    (bufNormals : List R) : Except Stop (PolyMesh R) := do
  let nPoints := sizeToInt (bufPoints.length / 3)
  let points ← tuples bufPoints nPoints
  let normals ← tuples bufNormals nPoints
  return ⟨points, some normals, slices (bufOffsetCells.map Int.toNat) bufConnectCells⟩

/-- The mesh that `putvtkexp` builds. -/
def putvtkexp (f : NumberFormats R) (sent : Exposed) : Except Stop (PolyMesh R) := do
  let segments ← pullSegments sent.transferSizeList sent.bytes
  let bufPoints ← recvVector f.double sent.transferSizeList segments 0
  let bufNormals ← recvVector f.double sent.transferSizeList segments 1
  let bufCells ← recvVector f.int32 sent.transferSizeList segments 2
  readMesh bufPoints bufCells bufNormals

/-- The mesh that `putvtkexpzero` builds. -/
def putvtkexpzero (f : RawFormats R) (sent : Exposed) : Except Stop (PolyMesh R) := do
  let segments ← pullSegments sent.transferSizeList sent.bytes
  let bufPoints ← recvVector f.float sent.transferSizeList segments 0
  let bufNormals ← recvVector f.float sent.transferSizeList segments 1
  let bufOffsetCells ← recvVector f.long sent.transferSizeList segments 2
  let bufConnectCells ← recvVector f.long sent.transferSizeList segments 3
  readMesh2 bufPoints bufOffsetCells bufConnectCells bufNormals

end UniServer

/-! ## Segments -/

section Segments

variable {segments : List (UInt64 × Buffer)}

theorem pullSegments_expose (sized : ∀ segment ∈ segments, segment.1.toNat = segment.2.length) :
    UniServer.pullSegments (ClientForSim.expose segments).transferSizeList
      (ClientForSim.expose segments).bytes = .ok (segments.map Prod.snd) := by
  have sizes : (segments.map Prod.fst).map UInt64.toNat =
      (segments.map Prod.snd).map List.length := by
    rw [List.map_map, List.map_map]
    exact List.map_congr_left sized
  have total : ((segments.map Prod.snd).map List.length).sum =
      (segments.map Prod.snd).flatten.length := List.length_flatten.symm
  have filled : Containers.received
      (List.replicate (segments.map Prod.snd).flatten.length none)
      (segments.map Prod.snd).flatten = (segments.map Prod.snd).flatten :=
    Containers.received_of_length (by rw [List.length_replicate])
  unfold UniServer.pullSegments ClientForSim.expose
  dsimp only
  rw [sizes, total, if_neg (Nat.lt_irrefl _), filled, splitLengths_flatten]

theorem recvVector_expose {α : Type} {c : Codec α (Option UInt8)} {elems : List α} {i : Nat}
    (sized : (ClientForSim.vector c elems).1.toNat = elems.length * c.width)
    (fits : ∀ a ∈ elems, c.Fits a)
    (found : segments[i]? = some (ClientForSim.vector c elems)) :
    UniServer.recvVector c (ClientForSim.expose segments).transferSizeList
      (segments.map Prod.snd) i = .ok elems := by
  unfold UniServer.recvVector ClientForSim.expose
  dsimp only
  rw [List.getElem?_map, List.getElem?_map, found]
  dsimp only [Option.map_some]
  rw [sized, Nat.mul_mod_left, if_neg (by decide)]
  exact congrArg Except.ok (Codec.unpack_pack fits)

end Segments

/-! ## The meshes of the vectors -/

section Tuples

variable {α : Type} {triples : List (Array3 α)} {n : Nat}

theorem tupleAt_flat {i : Nat} (h : i < triples.length) :
    UniServer.tupleAt (flat triples) i = .ok triples[i] := by
  obtain ⟨x, y, z⟩ := getElem_flat h
  rw [UniServer.tupleAt, x, y, z]

theorem tuples_flat (enough : n ≤ triples.length) :
    UniServer.tuples (flat triples) n = .ok (triples.take n) := by
  have count : (triples.take n).length = n := List.length_take_of_le enough
  have read : (List.range (triples.take n).length).mapM (UniServer.tupleAt (flat triples)) =
      .ok (triples.take n) := by
    refine mapM_range fun i hi => ?_
    rw [List.getElem_take]
    exact tupleAt_flat (by omega)
  rw [count] at read
  exact read

/-- All tuples that are read lie in the vector. -/
theorem length_of_tuples {buf : List α} {l : List (Array3 α)}
    (read : UniServer.tuples buf n = .ok l) : n * 3 ≤ buf.length := by
  cases n with
  | zero => exact Nat.zero_le _
  | succ n =>
    obtain ⟨_, _, last⟩ := Traverse.exists_right_of_forall₂ (Traverse.mapM_eq_ok.mp read)
      (List.mem_range.mpr (Nat.lt_succ_self n))
    unfold UniServer.tupleAt at last
    split at last
    · rename_i third
      have inside := (List.getElem?_eq_some_iff.mp third).1
      omega
    · cases last

theorem sizeToInt_of_le {m : Nat} (small : (m : Int) ≤ INT_MAX) : sizeToInt m = m := by
  have max : INT_MAX = 2147483647 := rfl
  unfold sizeToInt
  exact Int.bmod_eq_of_le (by omega) (by omega)

theorem sizeToInt_flat (small : (triples.length : Int) ≤ INT_MAX) :
    sizeToInt ((flat triples).length / 3) = triples.length := by
  have count : (flat triples).length / 3 = triples.length := by
    rw [length_flat, Nat.mul_div_cancel _ (by decide)]
  rw [count, sizeToInt_of_le small]

theorem toNat_vector {c : Codec α (Option UInt8)} {elems : List α} (le : c.width ≤ 8)
    (small : elems.length * c.width < 2 ^ 64) :
    (ClientForSim.vector c elems).1.toNat = (ClientForSim.vector c elems).2.length := by
  have size : UInt64.size = 18446744073709551616 := rfl
  have few : elems.length ≤ elems.length * c.width := Nat.le_mul_of_pos_right _ c.width_pos
  rw [ClientForSim.vector, Codec.length_pack, UInt64.toNat_mul,
    UInt64.toNat_ofNat_of_lt' (by omega),
    UInt64.toNat_ofNat_of_lt' (by omega), Nat.mod_eq_of_lt small]

end Tuples

/-! ## The deep copy -/

/-- The server builds the mesh of the vectors it is sent. -/
theorem putvtkexp_flat (f : NumberFormats R) (polyData : PolyData R)
    (normals : polyData.normals.length = polyData.points.length)
    (points : (polyData.points.length : Int) * 3 ≤ INT_MAX)
    (cells : (polyData.polys.length : Int) * 3 ≤ INT_MAX)
    (ids : ∀ id ∈ flat polyData.polys, IsInt id) :
    UniServer.putvtkexp f (ClientForSim.expose
      [ClientForSim.vector f.double (flat polyData.points),
        ClientForSim.vector f.double (flat polyData.normals),
        ClientForSim.vector f.int32 (flat polyData.polys)]) = .ok polyData.mesh := by
  have max : INT_MAX = 2147483647 := rfl
  have eight : f.double.width = 8 := f.width_double
  have four : f.int32.width = 4 := f.width_int32
  have nPoints := length_flat polyData.points
  have nNormals := length_flat polyData.normals
  have nCells := length_flat polyData.polys
  have first : (ClientForSim.vector f.double (flat polyData.points)).1.toNat = _ :=
    toNat_vector (by omega) (by rw [nPoints, eight]; omega)
  have second : (ClientForSim.vector f.double (flat polyData.normals)).1.toNat = _ :=
    toNat_vector (by omega) (by rw [nNormals, eight]; omega)
  have third : (ClientForSim.vector f.int32 (flat polyData.polys)).1.toNat = _ :=
    toNat_vector (by omega) (by rw [nCells, four]; omega)
  have len := fun {α : Type} (c : Codec α (Option UInt8)) (elems : List α) =>
    (Codec.length_pack elems : (ClientForSim.vector c elems).2.length = elems.length * c.width)
  unfold UniServer.putvtkexp
  rw [pullSegments_expose
    (by simp only [List.forall_mem_cons]; exact ⟨first, second, third, by simp⟩)]
  simp only [bind, Except.bind]
  rw [recvVector_expose (first.trans (len _ _)) (fun a _ => f.fits_double a) rfl,
    recvVector_expose (second.trans (len _ _)) (fun a _ => f.fits_double a) rfl,
    recvVector_expose (third.trans (len _ _)) (fun a mem => f.fits_int32 a (ids a mem)) rfl]
  dsimp only
  rw [UniServer.readMesh]
  rw [sizeToInt_flat (by omega), sizeToInt_flat (by omega), tuples_flat (Nat.le_refl _),
    tuples_flat (Nat.le_refl _), tuples_flat (by omega), List.take_length, List.take_length,
    ← normals,
    List.take_length]
  rfl

variable {mesh : PolyMesh R} {normalArray : List (Array3 R)} {built : PolyMesh R}

theorem putVTKDataExp_eq_ok {f : NumberFormats R} {sent : Exposed} :
    ClientForSim.putVTKDataExp f mesh = .ok sent ↔ ∃ normalArray, mesh.Copyable normalArray ∧
      sent = ClientForSim.expose
        [ClientForSim.vector f.double (flat (mesh.copiedPoints f.zero)),
          ClientForSim.vector f.double (flat (mesh.copiedNormals f.zero normalArray)),
          ClientForSim.vector f.int32 mesh.copiedCells] := by
  unfold ClientForSim.putVTKDataExp
  simp only [bind_eq_ok, PolyMesh.deepCopy_eq_ok]
  constructor
  · rintro ⟨vectors, ⟨normalArray, h, copied⟩, made⟩
    simp only [copied, pure, Except.pure, Except.ok.injEq] at made
    exact ⟨normalArray, h, made.symm⟩
  · rintro ⟨normalArray, h, made⟩
    refine ⟨_, ⟨normalArray, h, rfl⟩, ?_⟩
    simp only [made, pure, Except.pure]

/-- The path of a mesh over the deep copy. -/
def sendCopy (f : NumberFormats R) (mesh : PolyMesh R) : Except Stop (PolyMesh R) := do
  let sent ← ClientForSim.putVTKDataExp f mesh
  UniServer.putvtkexp f sent

theorem putvtkexp_copied (f : NumberFormats R) (h : mesh.Copyable normalArray)
    (polygonal : mesh.Polygonal) :
    UniServer.putvtkexp f (ClientForSim.expose
      [ClientForSim.vector f.double (flat (mesh.copiedPoints f.zero)),
        ClientForSim.vector f.double (flat (mesh.copiedNormals f.zero normalArray)),
        ClientForSim.vector f.int32 mesh.copiedCells]) =
      .ok (mesh.received f.zero normalArray).mesh := by
  have points := h.points
  have cells := h.cells
  have nPoints : (mesh.copiedPoints f.zero).length = _ := PolyMesh.length_copiedPoints h
  have nNormals : (mesh.copiedNormals f.zero normalArray).length = _ :=
    PolyMesh.length_copiedNormals h
  have nCells := PolyMesh.length_polys f.zero h
  have arrived := putvtkexp_flat f (mesh.received f.zero normalArray)
    (by rw [PolyMesh.received_points, PolyMesh.received_normals]; omega)
    (by rw [PolyMesh.received_points]; omega) (by omega) (PolyMesh.isInt_polys h polygonal)
  rw [← PolyMesh.copiedCells_eq f.zero h polygonal, PolyMesh.received_points,
    PolyMesh.received_normals] at arrived
  exact arrived

theorem sendCopy_eq_ok {f : NumberFormats R} (polygonal : mesh.Polygonal) :
    sendCopy f mesh = .ok built ↔ ∃ normalArray, mesh.Copyable normalArray ∧
      built = (mesh.received f.zero normalArray).mesh := by
  unfold sendCopy
  simp only [bind_eq_ok, putVTKDataExp_eq_ok]
  constructor
  · rintro ⟨sent, ⟨normalArray, h, made⟩, received⟩
    rw [made, putvtkexp_copied f h polygonal] at received
    exact ⟨normalArray, h, (Except.ok.inj received).symm⟩
  · rintro ⟨normalArray, h, made⟩
    refine ⟨_, ⟨normalArray, h, rfl⟩, ?_⟩
    rw [putvtkexp_copied f h polygonal, made]

/-! ## The memory as it is -/

/-- A mesh in the memory of the library: single precision, 64 bit ids, and a number of points that
is an `int`. -/
structure PolyMesh.InMemory (f : RawFormats R) (mesh : PolyMesh R)
    (normalArray : List (Array3 R)) : Prop where
  points : ∀ r ∈ flat mesh.points, f.float.Fits r
  normals : ∀ r ∈ flat normalArray, f.float.Fits r
  ids : ∀ id ∈ mesh.polys.flatten, IsLong id
  numPoints : (mesh.points.length : Int) ≤ INT_MAX
  bytes : (mesh.points.length + normalArray.length) * 12 +
    (mesh.polys.length + 1 + mesh.polys.flatten.length) * 8 < 2 ^ 64

/-- The path of a mesh without a copy. -/
def sendMemory (f : RawFormats R) (mesh : PolyMesh R) : Except Stop (PolyMesh R) := do
  let sent ← ClientForSim.putVTKDataExpZeroOneRpc f mesh
  UniServer.putvtkexpzero f sent

theorem isLong_offsets {f : RawFormats R} (h : mesh.InMemory f normalArray) :
    ∀ z ∈ (offsets 0 mesh.polys).map Int.ofNat, IsLong z := by
  intro z mem
  obtain ⟨i, hi, rfl⟩ := List.mem_map.mp mem
  have below := offsets_le hi
  have bytes := h.bytes
  constructor
  · exact Int.le_trans (by decide) (Int.natCast_nonneg i)
  · show (i : Int) < 2 ^ 63
    omega

theorem putvtkexpzero_eq {f : RawFormats R} (h : mesh.InMemory f normalArray) :
    UniServer.putvtkexpzero f (ClientForSim.expose
      [ClientForSim.vector f.float (flat mesh.points),
       ClientForSim.vector f.float (flat normalArray),
        ClientForSim.vector f.long ((offsets 0 mesh.polys).map Int.ofNat),
        ClientForSim.vector f.long mesh.polys.flatten]) =
      UniServer.readMesh2 (flat mesh.points) ((offsets 0 mesh.polys).map Int.ofNat)
        mesh.polys.flatten (flat normalArray) := by
  have four : f.float.width = 4 := f.width_float
  have eight : f.long.width = 8 := f.width_long
  have bytes := h.bytes
  have nPoints := length_flat mesh.points
  have nNormals := length_flat normalArray
  have nOffsets : ((offsets 0 mesh.polys).map Int.ofNat).length = mesh.polys.length + 1 := by
    rw [List.length_map, length_offsets]
  have first : (ClientForSim.vector f.float (flat mesh.points)).1.toNat = _ :=
    toNat_vector (by omega) (by rw [nPoints, four]; omega)
  have second : (ClientForSim.vector f.float (flat normalArray)).1.toNat = _ :=
    toNat_vector (by omega) (by rw [nNormals, four]; omega)
  have third : (ClientForSim.vector f.long ((offsets 0 mesh.polys).map Int.ofNat)).1.toNat = _ :=
    toNat_vector (by omega) (by rw [nOffsets, eight]; omega)
  have fourth : (ClientForSim.vector f.long mesh.polys.flatten).1.toNat = _ :=
    toNat_vector (by omega) (by rw [eight]; omega)
  have len := fun (c : Codec R (Option UInt8)) (elems : List R) =>
    (Codec.length_pack elems : (ClientForSim.vector c elems).2.length = elems.length * c.width)
  have len' := fun (c : Codec Int (Option UInt8)) (elems : List Int) =>
    (Codec.length_pack elems : (ClientForSim.vector c elems).2.length = elems.length * c.width)
  unfold UniServer.putvtkexpzero
  rw [pullSegments_expose
    (by simp only [List.forall_mem_cons]; exact ⟨first, second, third, fourth, by simp⟩)]
  simp only [bind, Except.bind]
  rw [recvVector_expose (first.trans (len _ _)) h.points rfl,
    recvVector_expose (second.trans (len _ _)) h.normals rfl,
    recvVector_expose (third.trans (len' _ _))
      (fun z mem => f.fits_long z (isLong_offsets h z mem)) rfl,
    recvVector_expose (fourth.trans (len' _ _)) (fun id mem => f.fits_long id (h.ids id mem)) rfl]

theorem readMesh2_eq_ok (numPoints : (mesh.points.length : Int) ≤ INT_MAX) :
    UniServer.readMesh2 (flat mesh.points) ((offsets 0 mesh.polys).map Int.ofNat)
        mesh.polys.flatten (flat normalArray) = .ok built ↔
      mesh.points.length ≤ normalArray.length ∧
        built = { mesh with normals := some (normalArray.take mesh.points.length) } := by
  have polys : slices (((offsets 0 mesh.polys).map Int.ofNat).map Int.toNat)
      mesh.polys.flatten = mesh.polys := by
    have same : Int.toNat ∘ Int.ofNat = id := rfl
    rw [List.map_map, same, List.map_id]
    exact slices_offsets [] mesh.polys
  unfold UniServer.readMesh2
  dsimp only
  rw [sizeToInt_flat numPoints, tuples_flat (Nat.le_refl _), List.take_length, polys]
  by_cases enough : mesh.points.length ≤ normalArray.length
  · rw [tuples_flat enough]
    simp [enough, bind, Except.bind, pure, Except.pure, eq_comm]
  · refine iff_of_false ?_ fun both => enough both.1
    intro made
    obtain ⟨_, _, rest⟩ := bind_eq_ok.mp made
    obtain ⟨normals, read, _⟩ := bind_eq_ok.mp rest
    have inside := length_of_tuples read
    rw [length_flat] at inside
    omega

/-- The mesh arrives as it is in memory, if there are normals for all its points. -/
theorem sendMemory_eq_ok {f : RawFormats R} (given : mesh.normals = some normalArray)
    (h : mesh.InMemory f normalArray) : sendMemory f mesh = .ok built ↔
      mesh.points.length ≤ normalArray.length ∧
        built = { mesh with normals := some (normalArray.take mesh.points.length) } := by
  unfold sendMemory ClientForSim.putVTKDataExpZeroOneRpc
  rw [given]
  simp only [bind, Except.bind]
  rw [putvtkexpzero_eq h]
  exact readMesh2_eq_ok h.numPoints

/-- A polygon mesh is sent by either way: what is lost of it by each. -/
theorem sent_meshes {f : RawFormats R} (polygonal : mesh.Polygonal)
    (given : mesh.normals = some normalArray) (h : mesh.InMemory f normalArray) :
    (sendCopy f.toNumberFormats mesh = .ok mesh ↔
      mesh.Copyable normalArray ∧ mesh.Lossless f.zero normalArray) ∧
    (sendMemory f mesh = .ok mesh ↔ normalArray.length = mesh.points.length) ∧
    ∀ copied whole, sendCopy f.toNumberFormats mesh = .ok copied →
      sendMemory f mesh = .ok whole →
      whole = mesh ∧ (copied = whole ↔ mesh.Lossless f.zero normalArray) := by
  have only : ∀ other, mesh.Copyable other → other = normalArray := fun other copyable =>
    Option.some.inj (copyable.normals.1.symm.trans given)
  have kept : ∀ l, mesh = { mesh with normals := some l } ↔ l = normalArray := by
    intro l
    constructor
    · intro same
      have there := congrArg PolyMesh.normals same
      rw [given] at there
      exact (Option.some.inj there).symm
    · rintro rfl
      rw [← given]
  refine ⟨?_, ?_, ?_⟩
  · rw [sendCopy_eq_ok polygonal]
    constructor
    · rintro ⟨other, copyable, same⟩
      obtain rfl := only other copyable
      exact ⟨copyable, (PolyMesh.received_mesh copyable).mp same.symm⟩
    · rintro ⟨copyable, lossless⟩
      exact ⟨normalArray, copyable, ((PolyMesh.received_mesh copyable).mpr lossless).symm⟩
  · rw [sendMemory_eq_ok given h, kept]
    constructor
    · rintro ⟨enough, same⟩
      have len := congrArg List.length same
      rw [List.length_take] at len
      omega
    · intro same
      exact ⟨Nat.le_of_eq same.symm, List.take_of_length_le (Nat.le_of_eq same)⟩
  · intro copied whole hcopied hwhole
    obtain ⟨other, copyable, rfl⟩ := (sendCopy_eq_ok polygonal).mp hcopied
    obtain rfl := only other copyable
    obtain ⟨enough, arrived⟩ := (sendMemory_eq_ok given h).mp hwhole
    have few := copyable.normals.2
    have points_le := mesh.numPoints_le
    have all : whole = mesh :=
      arrived.trans ((kept _).mpr (List.take_of_length_le (by omega))).symm
    exact ⟨all, by rw [all, PolyMesh.received_mesh copyable]⟩

namespace OneTriangle

def float : Codec UInt8 (Option UInt8) where
  width := 4
  encode r := some r :: List.replicate 3 (some 0)
  decode := double.decode
  Fits _ := True
  width_pos := int32.width_pos
  length_encode _ := rfl
  decode_encode _ _ := rfl

def long : Codec Int (Option UInt8) := Codec.signed 8 double.width_pos

theorem fits_long {z : Int} (fits : IsLong z) : long.Fits z := by
  obtain ⟨least, most⟩ := fits
  exact Codec.fits_signed (by decide : 256 ^ 8 = 18446744073709551616) (by omega)

def rawFormats : RawFormats UInt8 where
  toNumberFormats := numberFormats
  float := float
  long := long
  width_float := rfl
  width_long := rfl
  fits_long _ fits := fits_long fits

theorem triangle_inMemory : triangle.mesh.InMemory rawFormats triangle.normals where
  points _ _ := trivial
  normals _ _ := trivial
  ids := by decide
  numPoints := by decide
  bytes := by decide

theorem triangle_sent :
    (sendCopy numberFormats triangle.mesh = .ok triangle.mesh ↔
      triangle.mesh.Copyable triangle.normals ∧ triangle.mesh.Lossless 0 triangle.normals) ∧
    (sendMemory rawFormats triangle.mesh = .ok triangle.mesh ↔
      triangle.normals.length = triangle.mesh.points.length) ∧
    ∀ copied whole, sendCopy numberFormats triangle.mesh = .ok copied →
      sendMemory rawFormats triangle.mesh = .ok whole →
      whole = triangle.mesh ∧ (copied = whole ↔ triangle.mesh.Lossless 0 triangle.normals) :=
  sent_meshes (f := rawFormats) triangle_polygonal rfl triangle_inMemory

end OneTriangle

/-! ## The answers -/

section Answers

variable {transferSizeList : List UInt64} {bytes : Buffer} {segments : List Buffer}

theorem recvVector_eq_ok {α : Type} {c : Codec α (Option UInt8)} {i : Nat} {elems : List α} :
    UniServer.recvVector c transferSizeList segments i = .ok elems ↔
      ∃ size segment, transferSizeList[i]? = some size ∧ segments[i]? = some segment ∧
        size.toNat % c.width = 0 ∧ elems = c.unpack segment := by
  unfold UniServer.recvVector
  cases transferSizeList[i]? with
  | none => simp [throw, throwThe, MonadExceptOf.throw]
  | some size =>
    cases segments[i]? with
    | none => simp [throw, throwThe, MonadExceptOf.throw]
    | some segment =>
      by_cases multiple : size.toNat % c.width = 0
      · simp [multiple, pure, Except.pure, eq_comm]
      · simp [multiple, bind, Except.bind, throw, throwThe, MonadExceptOf.throw]

/-- The segments have the sizes of the list. -/
theorem length_pulled (pulled : UniServer.pullSegments transferSizeList bytes = .ok segments) :
    segments.map List.length = transferSizeList.map UInt64.toNat := by
  unfold UniServer.pullSegments at pulled
  dsimp only at pulled
  split at pulled
  · cases pulled
  · obtain rfl := Except.ok.inj pulled
    refine List.map_splitLengths_length _ _ (Nat.le_of_eq ?_)
    rw [Containers.length_received (by rw [List.length_replicate]; omega), List.length_replicate]

/-- A vector has as many elements as its segment has room for. -/
theorem length_vector {α : Type} {c : Codec α (Option UInt8)} {i : Nat} {elems : List α}
    (pulled : UniServer.pullSegments transferSizeList bytes = .ok segments)
    (copied : UniServer.recvVector c transferSizeList segments i = .ok elems) :
    ∃ size, transferSizeList[i]? = some size ∧ size.toNat % c.width = 0 ∧
      elems.length = size.toNat / c.width := by
  obtain ⟨size, segment, hsize, hsegment, multiple, rfl⟩ := recvVector_eq_ok.mp copied
  have lengths := congrArg (·[i]?) (length_pulled pulled)
  simp only [List.getElem?_map, hsize, hsegment, Option.map_some, Option.some.injEq] at lengths
  refine ⟨size, hsize, multiple, ?_⟩
  rw [Codec.unpack, List.length_map, List.length_range, lengths]

variable {out : Outside} {s : UniServer} {sent : Exposed} {built : PolyMesh R}

/-- The loops over the points find a normal for each of them. -/
theorem readMesh_normals {c : Codec R (Option UInt8)} {bufPoints bufNormals : List R}
    {l : List (Array3 R)} (small : ∀ size ∈ transferSizeList, (size.toNat : Int) ≤ INT_MAX)
    (pulled : UniServer.pullSegments transferSizeList bytes = .ok segments)
    (copied : UniServer.recvVector c transferSizeList segments 0 = .ok bufPoints)
    (read : UniServer.tuples bufNormals (sizeToInt (bufPoints.length / 3)) = .ok l) :
    readMesh bufPoints.length bufNormals.length = .ok () := by
  obtain ⟨size, found, _, len⟩ := length_vector pulled copied
  have bound := small size (List.mem_of_getElem? found)
  have less := Nat.div_le_self size.toNat c.width
  rw [sizeToInt_of_le (by omega)] at read
  have inside := length_of_tuples read
  exact if_neg (by omega)

theorem recvMesh_answered {elemSizes rest : List Nat} {bufPoints bufNormals : Nat}
    (exposed : out.exposed (transferSizeList.foldl (· + ·) 0) = .ok bytes)
    (arrays : recvArrays elemSizes transferSizeList = .ok (bufPoints :: bufNormals :: rest))
    (enough : readMesh bufPoints bufNormals = .ok ()) :
    (recvMesh out elemSizes transferSizeList).replies s = [0] := by
  unfold Handler.replies recvMesh
  rw [bind_ok (lift_ok (raise_eq_ok.mpr exposed)), bind_ok (lift_ok arrays)]
  dsimp only
  rw [bind_ok (lift_ok enough)]
  rfl

/-- The request for a mesh that is built is answered with zero. -/
theorem putvtkexp_answered {f : NumberFormats R}
    (exposed : out.exposed (sent.transferSizeList.foldl (· + ·) 0) = .ok sent.bytes)
    (small : ∀ size ∈ sent.transferSizeList, (size.toNat : Int) ≤ INT_MAX)
    (h : UniServer.putvtkexp f sent = .ok built) :
    (putvtkexp out sent.transferSizeList).replies s = [0] := by
  unfold UniServer.putvtkexp UniServer.readMesh at h
  simp only [bind_eq_ok] at h
  obtain ⟨segments, pulled, bufPoints, hpoints, bufNormals, hnormals, bufCells, hcells, _, _, _, _,
    _, normals, _⟩ := h
  have enough := readMesh_normals small pulled hpoints normals
  obtain ⟨size0, h0, multiple0, len0⟩ := length_vector pulled hpoints
  obtain ⟨size1, h1, multiple1, len1⟩ := length_vector pulled hnormals
  obtain ⟨size2, h2, multiple2, _⟩ := length_vector pulled hcells
  rw [f.width_double] at multiple0 len0 multiple1 len1
  rw [f.width_int32] at multiple2
  obtain ⟨transferSizeList, bytes⟩ := sent
  rcases transferSizeList with _ | ⟨a, _ | ⟨b, _ | ⟨c, rest⟩⟩⟩
  · cases h0
  · cases h1
  · cases h2
  · cases h0
    cases h1
    cases h2
    have arrays : recvArrays [sizeofDouble, sizeofDouble, sizeofInt]
        (size0 :: size1 :: size2 :: rest) =
        .ok [bufPoints.length, bufNormals.length, size2.toNat / sizeofInt] := by
      rw [len0, len1]
      simp [recvArrays, multiple0, multiple1, multiple2, bind, Except.bind, pure, Except.pure]
    exact recvMesh_answered exposed arrays enough

theorem putvtkexpzero_answered {f : RawFormats R}
    (exposed : out.exposed (sent.transferSizeList.foldl (· + ·) 0) = .ok sent.bytes)
    (small : ∀ size ∈ sent.transferSizeList, (size.toNat : Int) ≤ INT_MAX)
    (h : UniServer.putvtkexpzero f sent = .ok built) :
    (putvtkexpzero out sent.transferSizeList).replies s = [0] := by
  unfold UniServer.putvtkexpzero UniServer.readMesh2 at h
  simp only [bind_eq_ok] at h
  obtain ⟨segments, pulled, bufPoints, hpoints, bufNormals, hnormals, bufOffsetCells, hoffsets,
    bufConnectCells, hconnect, _, _, _, normals, _⟩ := h
  have enough := readMesh_normals small pulled hpoints normals
  obtain ⟨size0, h0, multiple0, len0⟩ := length_vector pulled hpoints
  obtain ⟨size1, h1, multiple1, len1⟩ := length_vector pulled hnormals
  obtain ⟨size2, h2, multiple2, _⟩ := length_vector pulled hoffsets
  obtain ⟨size3, h3, multiple3, _⟩ := length_vector pulled hconnect
  rw [f.width_float] at multiple0 len0 multiple1 len1
  rw [f.width_long] at multiple2 multiple3
  obtain ⟨transferSizeList, bytes⟩ := sent
  rcases transferSizeList with _ | ⟨a, _ | ⟨b, _ | ⟨c, _ | ⟨d, rest⟩⟩⟩⟩
  · cases h0
  · cases h1
  · cases h2
  · cases h3
  · cases h0
    cases h1
    cases h2
    cases h3
    have arrays : recvArrays [sizeofFloat, sizeofFloat, sizeofLong, sizeofLong]
        (size0 :: size1 :: size2 :: size3 :: rest) = .ok [bufPoints.length, bufNormals.length,
          size2.toNat / sizeofLong, size3.toNat / sizeofLong] := by
      rw [len0, len1]
      simp [recvArrays, multiple0, multiple1, multiple2, multiple3, bind, Except.bind, pure,
        Except.pure]
    exact recvMesh_answered exposed arrays enough

end Answers

end Gorilla
