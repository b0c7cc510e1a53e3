import Gorilla.Client.Triangles
import Gorilla.Lib.Codec

/-!
# The deep copy of a mesh

The client copies a polygon mesh into three vectors, of doubles for the points and the normals and
of ints for the cells. A point is copied when a cell names it, and a cell has room for three ids.
-/

namespace Gorilla

open HandLock

/-- A polygon mesh of the VTK library, as its accessors give it. -/
structure PolyMesh (R : Type) where
  points : List (Array3 R)
  normals : Option (List (Array3 R))
  polys : List (List Int)

/-- `std::vector<T> v(n * 3)` -/
def zeros {α : Type} (zero : α) (n : Int) : Except Stop (List α) := do
  let size ← int (n * 3)
  if size < 0 then
    throw (.runtime_error "cannot create std::vector larger than max_size()")
  return List.replicate size.toNat zero

/-- `v[i] = a` -/
def assignAt {α : Type} (v : List α) (i : Int) (a : α) : Except Stop (List α) :=
  if 0 ≤ i ∧ i < v.length then .ok (v.set i.toNat a)
  else .error (.undefined "index past the end of a vector")

def assignTriple {α : Type} (v : List α) (i : Int) (coords : Array3 α) : Except Stop (List α) := do
  let v ← assignAt v (i * 3 + 0) coords.x
  let v ← assignAt v (i * 3 + 1) coords.y
  assignAt v (i * 3 + 2) coords.z

namespace PolyMesh

variable {R : Type}

def numPoints (mesh : PolyMesh R) : Int := sizeToInt mesh.points.length

def numCells (mesh : PolyMesh R) : Int := sizeToInt mesh.polys.length

def getPoint (mesh : PolyMesh R) (id : Int) : Except Stop (Array3 R) :=
  match mesh.points[id.toNat]? with
  | none => .error (.undefined "no point has the id")
  | some coords => if 0 ≤ id then .ok coords else .error (.undefined "no point has the id")

/-- One point of a cell. The ids of the library are longer than an `int`. -/
def copyCorner (mesh : PolyMesh R) (i : Nat) (a : List R × List Int) (it : Int × Nat) :
    Except Stop (List R × List Int) := do
  let (id, j) := it
  let cells ← assignAt a.2 (i * 3 + j) (id.bmod (2 ^ 32))
  let coords ← mesh.getPoint id
  let points ← assignTriple a.1 id coords
  return (points, cells)

def copyCells (mesh : PolyMesh R) (points : List R) (cells : List Int) :
    Except Stop (List R × List Int) :=
  (mesh.polys.take mesh.numCells.toNat).zipIdx.foldlM
    (fun a it => it.1.zipIdx.foldlM (mesh.copyCorner it.2) a) (points, cells)

def copyNormals (mesh : PolyMesh R) (normals : List R) : Except Stop (List R) :=
  match mesh.normals with
  | none => .error (.undefined "null normals")
  | some normalArray => normalArray.zipIdx.foldlM (fun v it => assignTriple v it.2 it.1) normals

/-- The vectors of points, normals and cells that `putArrayIntoBlock` and `putVTKDataExp` fill. -/
def deepCopy (zero : R) (mesh : PolyMesh R) : Except Stop (List R × List R × List Int) := do
  let points ← zeros zero mesh.numPoints
  let normals ← zeros zero mesh.numPoints
  let cells ← zeros 0 mesh.numCells
  let (points, cells) ← mesh.copyCells points cells
  let normals ← mesh.copyNormals normals
  return (points, normals, cells)

end PolyMesh

/-! ## What the loops leave -/

/-- The numbers of triples one after the other. -/
def flat {α : Type} (triples : List (Array3 α)) : List α := triples.flatMap Array3.toList

/-- A list over the entries of another from a position on. -/
def overwrite {α : Type} (v : List α) (p : Nat) (w : List α) : List α :=
  v.take p ++ w ++ v.drop (p + w.length)

section Vectors

variable {α : Type} {v v' w : List α} {triples : List (Array3 α)}

theorem zeros_eq_ok {zero : α} {n : Int} :
    zeros zero n = .ok v ↔ (0 ≤ n ∧ n * 3 ≤ INT_MAX) ∧ v = List.replicate (n.toNat * 3) zero := by
  unfold zeros
  rw [bind_eq_ok]
  constructor
  · rintro ⟨size, hsize, made⟩
    obtain ⟨⟨_, fits⟩, rfl⟩ := int_eq_ok.mp hsize
    by_cases negative : n * 3 < 0
    · rw [if_pos negative] at made
      cases made
    · rw [if_neg negative] at made
      cases made
      exact ⟨⟨by omega, fits⟩, by congr 1; omega⟩
  · rintro ⟨⟨nonneg, fits⟩, rfl⟩
    have min : INT_MIN = -2147483648 := rfl
    refine ⟨n * 3, int_eq_ok.mpr ⟨⟨by omega, fits⟩, rfl⟩, ?_⟩
    rw [if_neg (by omega)]
    show Except.ok _ = _
    congr 2
    omega

theorem flat_replicate (zero : α) (n : Nat) :
    flat (List.replicate n (⟨zero, zero, zero⟩ : Array3 α)) = List.replicate (n * 3) zero := by
  induction n with
  | zero => rfl
  | succ n ih =>
    rw [List.replicate_succ, flat, List.flatMap_cons, Nat.succ_mul]
    exact congrArg (fun rest => zero :: zero :: zero :: rest) ih

theorem length_flat (triples : List (Array3 α)) : (flat triples).length = triples.length * 3 := by
  induction triples with
  | nil => rfl
  | cons t triples ih =>
    rw [flat, List.flatMap_cons, List.length_append, List.length_cons, Nat.succ_mul, Nat.add_comm]
    exact congrArg (· + 3) ih

theorem flat_set (triples : List (Array3 α)) (n : Nat) (coords : Array3 α) :
    flat (triples.set n coords) = (((flat triples).set (n * 3) coords.x).set (n * 3 + 1)
      coords.y).set (n * 3 + 2) coords.z := by
  induction triples generalizing n with
  | nil => rfl
  | cons t triples ih =>
    cases n with
    | zero => rfl
    | succ n =>
      have place : (n + 1) * 3 = n * 3 + 1 + 1 + 1 := by omega
      rw [List.set_cons_succ, place]
      simp only [flat, List.flatMap_cons, Array3.toList, List.cons_append, List.nil_append,
        List.set_cons_succ]
      exact congrArg (fun rest => t.x :: t.y :: t.z :: rest) (ih n)

theorem assignAt_eq_ok {i : Int} {a : α} :
    assignAt v i a = .ok v' ↔ (0 ≤ i ∧ i < v.length) ∧ v' = v.set i.toNat a := by
  unfold assignAt
  split <;> simp_all [eq_comm]

/-- Three assignments replace one triple. -/
theorem assignTriple_eq_ok {i : Int} {coords : Array3 α} :
    assignTriple (flat triples) i coords = .ok v' ↔
      (0 ≤ i ∧ i < triples.length) ∧ v' = flat (triples.set i.toNat coords) := by
  unfold assignTriple
  simp only [bind_eq_ok, assignAt_eq_ok]
  rw [flat_set]
  have places : 0 ≤ i → (i * 3 + 0).toNat = i.toNat * 3 ∧ (i * 3 + 1).toNat = i.toNat * 3 + 1 ∧
      (i * 3 + 2).toNat = i.toNat * 3 + 2 := by omega
  have len := length_flat triples
  constructor
  · rintro ⟨_, ⟨⟨nonneg, _⟩, rfl⟩, _, ⟨_, rfl⟩, ⟨_, below⟩, rfl⟩
    rw [List.length_set, List.length_set] at below
    obtain ⟨first, second, third⟩ := places (by omega)
    rw [first, second, third]
    exact ⟨⟨by omega, by omega⟩, rfl⟩
  · rintro ⟨⟨nonneg, below⟩, rfl⟩
    obtain ⟨first, second, third⟩ := places nonneg
    refine ⟨_, ⟨⟨by omega, by omega⟩, rfl⟩, _, ⟨⟨by omega, ?_⟩, rfl⟩, ⟨by omega, ?_⟩, ?_⟩
    · rw [List.length_set]
      omega
    · rw [List.length_set, List.length_set]
      omega
    · rw [first, second, third]

theorem overwrite_nil (p : Nat) : overwrite v p [] = v := by
  rw [overwrite, List.append_nil, List.length_nil, Nat.add_zero, List.take_append_drop]

theorem overwrite_cons {p : Nat} (h : p < v.length) (a : α) :
    overwrite v p (a :: w) = overwrite (v.set p a) (p + 1) w := by
  rw [overwrite, overwrite, List.length_cons, List.drop_set_of_lt (by omega),
    List.take_add_one, List.getElem?_set_self h, List.take_set_of_le (Nat.le_refl p)]
  simp [Nat.add_comm, Nat.add_left_comm]

theorem length_overwrite {p : Nat} (h : p + w.length ≤ v.length) :
    (overwrite v p w).length = v.length := by
  rw [overwrite, List.length_append, List.length_append, List.length_take, List.length_drop]
  omega

end Vectors

namespace PolyMesh

variable {R : Type} {mesh : PolyMesh R}

theorem getPoint_eq_ok {id : Int} {coords : Array3 R} :
    mesh.getPoint id = .ok coords ↔ 0 ≤ id ∧ mesh.points[id.toNat]? = some coords := by
  unfold getPoint
  cases mesh.points[id.toNat]? with
  | none => simp
  | some c =>
    by_cases nonneg : 0 ≤ id <;> simp [nonneg]

/-- The points, of which those that a cell named so far are copied. -/
def see (mesh : PolyMesh R) (triples : List (Array3 R)) (id : Int) : List (Array3 R) :=
  match mesh.points[id.toNat]? with
  | none => triples
  | some coords => triples.set id.toNat coords

theorem length_see (mesh : PolyMesh R) (triples : List (Array3 R)) (id : Int) :
    (mesh.see triples id).length = triples.length := by
  unfold see
  cases mesh.points[id.toNat]? with
  | none => rfl
  | some coords => exact List.length_set

theorem length_seeAll (mesh : PolyMesh R) (ids : List Int) (triples : List (Array3 R)) :
    (ids.foldl mesh.see triples).length = triples.length := by
  induction ids generalizing triples with
  | nil => rfl
  | cons id ids ih => rw [List.foldl_cons, ih, length_see]

variable {triples : List (Array3 R)} {cells : List Int} {r : List R × List Int}

/-- A corner is copied when its point is there and the vector has room for its id. -/
theorem copyCorner_eq_ok (short : triples.length ≤ mesh.points.length)
    (int_sized : (triples.length : Int) ≤ INT_MAX) {i j : Nat} {id : Int} :
    mesh.copyCorner i (flat triples, cells) (id, j) = .ok r ↔
      (0 ≤ id ∧ id < triples.length) ∧ i * 3 + j < cells.length ∧
        r = (flat (mesh.see triples id), cells.set (i * 3 + j) id) := by
  unfold copyCorner
  simp only [bind_eq_ok, assignAt_eq_ok, getPoint_eq_ok, assignTriple_eq_ok]
  have place : ((i : Int) * 3 + j).toNat = i * 3 + j := by omega
  constructor
  · rintro ⟨_, ⟨⟨_, room⟩, rfl⟩, coords, ⟨nonneg, found⟩, _, ⟨⟨_, below⟩, rfl⟩, made⟩
    cases made
    have max : INT_MAX = 2147483647 := rfl
    have narrow : id.bmod (2 ^ 32) = id := Int.bmod_eq_of_le (by omega) (by omega)
    refine ⟨⟨nonneg, below⟩, by omega, ?_⟩
    rw [place, narrow, see, found]
  · rintro ⟨⟨nonneg, below⟩, room, rfl⟩
    have max : INT_MAX = 2147483647 := rfl
    have narrow : id.bmod (2 ^ 32) = id := Int.bmod_eq_of_le (by omega) (by omega)
    have inside : id.toNat < mesh.points.length := by omega
    refine ⟨_, ⟨⟨by omega, by omega⟩, rfl⟩, mesh.points[id.toNat],
      ⟨nonneg, List.getElem?_eq_getElem inside⟩, _, ⟨⟨nonneg, below⟩, rfl⟩, ?_⟩
    rw [place, narrow, see, List.getElem?_eq_getElem inside]
    rfl

/-- The corners of one cell. -/
theorem copyCell_eq_ok (short : triples.length ≤ mesh.points.length)
    (int_sized : (triples.length : Int) ≤ INT_MAX) {i j : Nat} {ids : List Int}
    (begins : i * 3 + j ≤ cells.length) :
    (ids.zipIdx j).foldlM (mesh.copyCorner i) (flat triples, cells) = .ok r ↔
      (∀ id ∈ ids, 0 ≤ id ∧ id < triples.length) ∧ i * 3 + j + ids.length ≤ cells.length ∧
        r = (flat (ids.foldl mesh.see triples), overwrite cells (i * 3 + j) ids) := by
  induction ids generalizing j triples cells with
  | nil =>
    rw [List.zipIdx_nil, List.foldlM_nil, overwrite_nil]
    simp [pure, Except.pure, begins, eq_comm]
  | cons id ids ih =>
    rw [List.zipIdx_cons, List.foldlM_cons, bind_eq_ok, List.forall_mem_cons]
    simp only [copyCorner_eq_ok short int_sized]
    constructor
    · rintro ⟨_, ⟨valid, room, rfl⟩, rest⟩
      have len := mesh.length_see triples id
      obtain ⟨others, ends, rfl⟩ := (ih (by rw [len]; exact short) (by rw [len]; exact int_sized)
        (by rw [List.length_set]; omega)).mp rest
      rw [List.length_set] at ends
      refine ⟨⟨valid, fun id' mem => ?_⟩, by rw [List.length_cons]; omega, ?_⟩
      · have known := others id' mem
        rw [len] at known
        exact known
      · rw [overwrite_cons room]
        rfl
    · rintro ⟨⟨valid, others⟩, ends, rfl⟩
      rw [List.length_cons] at ends
      have len := mesh.length_see triples id
      have room : i * 3 + j < cells.length := by omega
      refine ⟨_, ⟨valid, room, rfl⟩, (ih (by rw [len]; exact short) (by rw [len]; exact int_sized)
        (by rw [List.length_set]; omega)).mpr ⟨fun id' mem => ?_, ?_, ?_⟩⟩
      · rw [len]
        exact others id' mem
      · rw [List.length_set]
        omega
      · rw [overwrite_cons room]
        rfl

/-- Each cell goes over the three places of its own and over what follows them. -/
def lay (cells : List Int) (polys : List (List Int × Nat)) : List Int :=
  polys.foldl (fun v it => overwrite v (it.2 * 3) it.1) cells

theorem copyCells_loop (short : triples.length ≤ mesh.points.length)
    (int_sized : (triples.length : Int) ≤ INT_MAX) {k : Nat} {polys : List (List Int)}
    (len : cells.length = (k + polys.length) * 3) :
    (polys.zipIdx k).foldlM (fun a it => it.1.zipIdx.foldlM (mesh.copyCorner it.2) a)
        (flat triples, cells) = .ok r ↔
      (∀ id ∈ polys.flatten, 0 ≤ id ∧ id < triples.length) ∧
        (∀ it ∈ polys.zipIdx k, it.2 * 3 + it.1.length ≤ cells.length) ∧
        r = (flat (polys.flatten.foldl mesh.see triples), lay cells (polys.zipIdx k)) := by
  induction polys generalizing k triples cells with
  | nil => simp [pure, Except.pure, lay, eq_comm]
  | cons ids polys ih =>
    rw [List.length_cons] at len
    rw [List.zipIdx_cons, List.foldlM_cons, bind_eq_ok, List.forall_mem_cons, List.flatten_cons,
      List.foldl_append]
    have same := mesh.length_seeAll ids triples
    have first : ∀ a, ids.zipIdx.foldlM (mesh.copyCorner k) (flat triples, cells) = .ok a ↔ _ :=
      fun a => copyCell_eq_ok short int_sized (by omega)
    simp only [Nat.add_zero] at first
    constructor
    · rintro ⟨_, head, rest⟩
      obtain ⟨valid, room, rfl⟩ := (first _).mp head
      have kept := length_overwrite room
      obtain ⟨others, rooms, rfl⟩ := (ih (by rw [same]; exact short)
        (by rw [same]; exact int_sized) (by rw [kept]; omega)).mp rest
      rw [kept] at rooms
      refine ⟨fun id mem => ?_, ⟨room, rooms⟩, rfl⟩
      rcases List.mem_append.mp mem with here | later
      · exact valid id here
      · have known := others id later
        rw [same] at known
        exact known
    · rintro ⟨valid, ⟨room, rooms⟩, rfl⟩
      have kept := length_overwrite room
      refine ⟨_, (first _).mpr ⟨fun id mem => valid id (List.mem_append_left _ mem), room, rfl⟩,
        (ih (by rw [same]; exact short) (by rw [same]; exact int_sized)
          (by rw [kept]; omega)).mpr ⟨fun id mem => ?_, ?_, rfl⟩⟩
      · rw [same]
        exact valid id (List.mem_append_right _ mem)
      · rw [kept]
        exact rooms

/-- Cells with three corners or more leave their first three. -/
theorem lay_polygons {k : Nat} {polys : List (List Int)}
    (len : cells.length = (k + polys.length) * 3) (polygons : ∀ ids ∈ polys, 3 ≤ ids.length)
    (rooms : ∀ it ∈ polys.zipIdx k, it.2 * 3 + it.1.length ≤ cells.length) :
    lay cells (polys.zipIdx k) = cells.take (k * 3) ++ polys.flatMap (List.take 3) := by
  induction polys generalizing k cells with
  | nil =>
    rw [List.length_nil, Nat.add_zero] at len
    rw [List.zipIdx_nil, List.flatMap_nil, List.append_nil, List.take_of_length_le (by omega)]
    rfl
  | cons ids polys ih =>
    rw [List.length_cons] at len
    obtain ⟨long, polygons⟩ := List.forall_mem_cons.mp polygons
    rw [List.zipIdx_cons] at rooms ⊢
    obtain ⟨room, rooms⟩ := List.forall_mem_cons.mp rooms
    have kept := length_overwrite room
    have rest : lay cells ((ids, k) :: polys.zipIdx (k + 1)) =
        lay (overwrite cells (k * 3) ids) (polys.zipIdx (k + 1)) := rfl
    rw [rest, ih (by rw [kept]; omega) polygons (by rw [kept]; exact rooms), List.flatMap_cons,
      ← List.append_assoc]
    have head : (overwrite cells (k * 3) ids).take ((k + 1) * 3) =
        cells.take (k * 3) ++ ids.take 3 := by
      have before : (cells.take (k * 3)).length = k * 3 := by
        rw [List.length_take]
        omega
      rw [overwrite, List.append_assoc, List.take_append, before,
        List.take_of_length_le (by omega), List.take_append_of_le_length (by omega)]
      congr 2
      omega
    rw [head]

/-- The ids that the loop over the cells meets. -/
def named (mesh : PolyMesh R) : List Int := (mesh.polys.take mesh.numCells.toNat).flatten

theorem getElem?_seeAll {ids : List Int} (valid : ∀ id ∈ ids, 0 ≤ id) {k : Nat}
    (inside : k < triples.length) (known : k < mesh.points.length) :
    (ids.foldl mesh.see triples)[k]? =
      if (k : Int) ∈ ids then mesh.points[k]? else triples[k]? := by
  induction ids generalizing triples with
  | nil => rfl
  | cons id ids ih =>
    obtain ⟨nonneg, valid⟩ := List.forall_mem_cons.mp valid
    rw [List.foldl_cons, ih valid (by rw [length_see]; exact inside)]
    by_cases later : (k : Int) ∈ ids
    · rw [if_pos later, if_pos (List.mem_cons_of_mem id later)]
    · rw [if_neg later]
      by_cases here : (k : Int) = id
      · subst here
        rw [if_pos List.mem_cons_self, see, Int.toNat_natCast, List.getElem?_eq_getElem known]
        exact List.getElem?_set_self inside
      · rw [if_neg fun mem => (List.mem_cons.mp mem).elim here later, see]
        cases mesh.points[id.toNat]? with
        | none => rfl
        | some coords => exact List.getElem?_set_ne (by omega)

/-- The points that the cells name; the others stay zero. -/
def copiedPoints (zero : R) (mesh : PolyMesh R) : List (Array3 R) :=
  (mesh.points.take mesh.numPoints.toNat).zipIdx.map fun it =>
    if (it.2 : Int) ∈ mesh.named then it.1 else ⟨zero, zero, zero⟩

def copiedNormals (zero : R) (mesh : PolyMesh R) (normalArray : List (Array3 R)) :
    List (Array3 R) :=
  overwrite (List.replicate mesh.numPoints.toNat ⟨zero, zero, zero⟩) 0 normalArray

def copiedCells (mesh : PolyMesh R) : List Int :=
  lay (List.replicate (mesh.numCells.toNat * 3) 0)
    (mesh.polys.take mesh.numCells.toNat).zipIdx

theorem seeAll_eq {zero : R} (valid : ∀ id ∈ mesh.named, 0 ≤ id)
    (short : mesh.numPoints.toNat ≤ mesh.points.length) :
    mesh.named.foldl mesh.see (List.replicate mesh.numPoints.toNat ⟨zero, zero, zero⟩) =
      mesh.copiedPoints zero := by
  refine List.ext_getElem? fun k => ?_
  rw [copiedPoints, List.getElem?_map, List.getElem?_zipIdx, List.getElem?_take]
  by_cases inside : k < mesh.numPoints.toNat
  · have known : k < mesh.points.length := Nat.lt_of_lt_of_le inside short
    rw [getElem?_seeAll valid (by rw [List.length_replicate]; exact inside) known, if_pos inside,
      List.getElem?_eq_getElem known, List.getElem?_replicate_of_lt inside]
    simp only [Option.map_some, Nat.zero_add]
    split <;> rfl
  · rw [if_neg inside, List.getElem?_eq_none]
    · rfl
    · rw [length_seeAll, List.length_replicate]
      omega

/-- What the loops need: sizes that are an `int`, points for all ids, and room for all corners. -/
structure Copyable (mesh : PolyMesh R) (normalArray : List (Array3 R)) : Prop where
  points : 0 ≤ mesh.numPoints ∧ mesh.numPoints * 3 ≤ INT_MAX
  cells : 0 ≤ mesh.numCells ∧ mesh.numCells * 3 ≤ INT_MAX
  ids : ∀ id ∈ mesh.named, 0 ≤ id ∧ id < mesh.numPoints
  room : ∀ it ∈ (mesh.polys.take mesh.numCells.toNat).zipIdx,
    it.2 * 3 + it.1.length ≤ mesh.numCells.toNat * 3
  normals : mesh.normals = some normalArray ∧ (normalArray.length : Int) ≤ mesh.numPoints

theorem copyNormals_loop {normalArray : List (Array3 R)} {v : List R} {k : Nat}
    (begins : k ≤ triples.length) :
    (normalArray.zipIdx k).foldlM (fun v it => assignTriple v it.2 it.1) (flat triples) = .ok v ↔
      k + normalArray.length ≤ triples.length ∧ v = flat (overwrite triples k normalArray) := by
  induction normalArray generalizing k triples with
  | nil =>
    rw [List.zipIdx_nil, List.foldlM_nil, overwrite_nil]
    simp [pure, Except.pure, begins, eq_comm]
  | cons coords normalArray ih =>
    rw [List.zipIdx_cons, List.foldlM_cons, bind_eq_ok]
    simp only [assignTriple_eq_ok, Int.toNat_natCast]
    rw [List.length_cons]
    constructor
    · rintro ⟨_, ⟨⟨_, room⟩, rfl⟩, rest⟩
      have inside : k < triples.length := by omega
      obtain ⟨ends, rfl⟩ := (ih (by rw [List.length_set]; omega)).mp rest
      rw [List.length_set] at ends
      exact ⟨by omega, by rw [overwrite_cons inside]⟩
    · rintro ⟨ends, rfl⟩
      have inside : k < triples.length := by omega
      refine ⟨_, ⟨⟨by omega, by omega⟩, rfl⟩, (ih (by rw [List.length_set]; omega)).mpr ⟨?_, ?_⟩⟩
      · rw [List.length_set]
        omega
      · rw [overwrite_cons inside]

theorem numPoints_le (mesh : PolyMesh R) : mesh.numPoints ≤ mesh.points.length := sizeToInt_le _

theorem numCells_le (mesh : PolyMesh R) : mesh.numCells ≤ mesh.polys.length := sizeToInt_le _

theorem numPoints_int (mesh : PolyMesh R) : mesh.numPoints ≤ INT_MAX := by
  have max : INT_MAX = 2147483647 := rfl
  unfold numPoints sizeToInt Int.bmod
  dsimp only
  split <;> omega

theorem copyCells_eq_ok (mesh : PolyMesh R) {zero : R} (points : 0 ≤ mesh.numPoints)
    (cells : 0 ≤ mesh.numCells) :
    mesh.copyCells (List.replicate (mesh.numPoints.toNat * 3) zero)
        (List.replicate (mesh.numCells.toNat * 3) 0) = .ok r ↔
      (∀ id ∈ mesh.named, 0 ≤ id ∧ id < mesh.numPoints) ∧
        (∀ it ∈ (mesh.polys.take mesh.numCells.toNat).zipIdx,
          it.2 * 3 + it.1.length ≤ mesh.numCells.toNat * 3) ∧
        r = (flat (mesh.copiedPoints zero), mesh.copiedCells) := by
  have points_le := mesh.numPoints_le
  have cells_le := mesh.numCells_le
  have small := mesh.numPoints_int
  have count : (mesh.polys.take mesh.numCells.toNat).length = mesh.numCells.toNat := by
    rw [List.length_take]
    omega
  rw [copyCells, ← flat_replicate, copyCells_loop (by rw [List.length_replicate]; omega)
    (by rw [List.length_replicate]; omega) (by rw [List.length_replicate, count, Nat.zero_add])]
  rw [List.length_replicate, List.length_replicate, Int.toNat_of_nonneg points]
  refine and_congr_right fun valid => and_congr_right fun _ => ?_
  have seen : mesh.named.foldl mesh.see
      (List.replicate mesh.numPoints.toNat ⟨zero, zero, zero⟩) = mesh.copiedPoints zero :=
    seeAll_eq (fun id mem => (valid id mem).1) (by omega)
  rw [← seen]
  rfl

theorem copyNormals_eq_ok (mesh : PolyMesh R) {zero : R} (points : 0 ≤ mesh.numPoints)
    {v : List R} :
    mesh.copyNormals (List.replicate (mesh.numPoints.toNat * 3) zero) = .ok v ↔
      ∃ normalArray, (mesh.normals = some normalArray ∧
        (normalArray.length : Int) ≤ mesh.numPoints) ∧
          v = flat (mesh.copiedNormals zero normalArray) := by
  unfold copyNormals
  cases mesh.normals with
  | none => simp
  | some normalArray =>
    dsimp only
    rw [← flat_replicate, copyNormals_loop (Nat.zero_le _), List.length_replicate]
    simp only [Option.some.injEq]
    constructor
    · rintro ⟨few, rfl⟩
      exact ⟨_, ⟨rfl, by omega⟩, rfl⟩
    · rintro ⟨_, ⟨rfl, few⟩, rfl⟩
      exact ⟨by omega, rfl⟩

/-- The copy returns for the meshes it has room for, and says what it made of them. -/
theorem deepCopy_eq_ok {zero : R} {vectors : List R × List R × List Int} :
    mesh.deepCopy zero = .ok vectors ↔ ∃ normalArray, mesh.Copyable normalArray ∧
      vectors = (flat (mesh.copiedPoints zero), flat (mesh.copiedNormals zero normalArray),
        mesh.copiedCells) := by
  unfold deepCopy
  simp only [bind_eq_ok, zeros_eq_ok]
  constructor
  · rintro ⟨p, ⟨points, hp⟩, n, ⟨_, hn⟩, c, ⟨cells, hc⟩, r, copied, v, normal, made⟩
    rw [hp, hc, mesh.copyCells_eq_ok points.1 cells.1] at copied
    rw [hn, mesh.copyNormals_eq_ok points.1] at normal
    obtain ⟨ids, room, copied⟩ := copied
    obtain ⟨normalArray, normals, normal⟩ := normal
    simp only [copied, normal, pure, Except.pure, Except.ok.injEq] at made
    exact ⟨normalArray, ⟨points, cells, ids, room, normals⟩, made.symm⟩
  · rintro ⟨normalArray, h, made⟩
    refine ⟨_, ⟨h.points, rfl⟩, _, ⟨h.points, rfl⟩, _, ⟨h.cells, rfl⟩, _,
      (mesh.copyCells_eq_ok h.points.1 h.cells.1).mpr ⟨h.ids, h.room, rfl⟩, _,
      (mesh.copyNormals_eq_ok h.points.1).mpr ⟨normalArray, h.normals, rfl⟩, ?_⟩
    simp only [made, pure, Except.pure]

end PolyMesh

end Gorilla
