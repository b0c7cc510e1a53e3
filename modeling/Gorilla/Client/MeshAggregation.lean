import Gorilla.Client.MeshRoundTrip
import Mathlib.Data.List.Permutation

/-!
# Meshes that are put array by array

The client sends the three arrays of its deep copy as requests of their own. The server handles
them in any order and between any other requests, and an aggregation waits for all three.
-/

namespace Gorilla

open HandLock Handler Traverse Runs

variable {R : Type}

/-- The three arrays in the order they are sent. -/
def ClientForSim.putArrayIntoBlock (f : NumberFormats R) (mesh : PolyMesh R) :
    Except Stop (List (ArraySummary × Buffer)) := do
  let (points, normals, cells) ← mesh.deepCopy f.zero
  return [segment "points" sizeofDouble f.double.encode points,
    segment "cells" sizeofInt f.int32.encode cells,
    segment "normals" sizeofDouble f.double.encode normals]

/-- The summary of the block once some arrays were handled. -/
def BlockSummary.gathered (bs : BlockSummary) (handled : List (ArraySummary × Buffer)) :
    BlockSummary :=
  { bs with m_arrayList := handled.map Prod.fst }

@[simp] theorem BlockSummary.m_blockid_gathered (bs : BlockSummary)
    (handled : List (ArraySummary × Buffer)) : (bs.gathered handled).m_blockid = bs.m_blockid := rfl

@[simp] theorem BlockSummary.m_arrayListLen_gathered (bs : BlockSummary)
    (handled : List (ArraySummary × Buffer)) :
    (bs.gathered handled).m_arrayListLen = handled.length :=
  List.length_map _

/-- The block once some arrays were handled. The first one makes it. -/
def BlockSummary.gathering (bs : BlockSummary) :
    List (ArraySummary × Buffer) → Option DataBlock
  | [] => none
  | handled => some
    { m_blockid := bs.m_blockid
      m_blockSummary := bs.gathered handled
      storage := .VTKMemExplicitObj handled }

/-- The array has the bytes that its summary says. -/
def Sized (segment : ArraySummary × Buffer) : Prop :=
  segment.2.length = (segment.1.m_elemNum * segment.1.m_elemSize).toNat

namespace UniServer

variable {s t : UniServer} {bs : BlockSummary} {out : Outside} {as : ArraySummary}
  {handled : List (ArraySummary × Buffer)} {contents : Buffer}

/-- A put that is answered with zero has given the block manager the bytes it pulled. -/
theorem putArray_pulled (exposed : out.exposed (as.m_elemNum * as.m_elemSize) = .ok contents)
    (sized : Sized (as, contents)) (h : (putArrayIntoBlock out bs as).replies s = [0]) :
    (BlockCall.putArray bs as bs.m_backend contents).outcome s.m_blockManager =
      .ok (true, ((putArrayIntoBlock out bs as).after s).m_blockManager) := by
  have whole : Containers.received (Buffer.malloc (as.m_elemNum * as.m_elemSize)) contents =
      contents := by
    refine Containers.received_of_length ?_
    rw [Buffer.malloc, List.length_replicate]
    exact sized
  cases run : putArray out bs as s with
  | error e t =>
    have left : putArrayIntoBlock out bs as ⟨s, []⟩ = .error e ⟨t, []⟩ :=
      bind_error (onServer_error run)
    rw [replies, left] at h
    cases h
  | ok _ t =>
    have left : putArrayIntoBlock out bs as ⟨s, []⟩ = .ok () ⟨t, [0]⟩ :=
      bind_ok (onServer_ok run)
    rw [after, left]
    unfold putArray at run
    obtain ⟨sent, _, hraise, stored⟩ := bind_run_eq_ok.mp run
    obtain ⟨pulled, rfl⟩ := lift_eq_ok.mp hraise
    rw [raise_eq_ok, exposed] at pulled
    cases pulled
    by_cases long : (as.m_elemNum * as.m_elemSize).toNat < contents.length
    · rw [if_pos long] at stored
      cases stored
    · rw [if_neg long] at stored
      obtain ⟨m, put, rfl⟩ := zoom_eq_ok.mp stored
      rw [whole] at put
      exact BlockCall.outcome_of_ok put

theorem newStorage_arrays {backend : Int}
    (h : BlockManager.newStorage backend = some (.VTKMemExplicitObj handled)) : handled = [] := by
  unfold BlockManager.newStorage at h
  split_ifs at h <;> cases h
  rfl

/-- A handled array is added to the block, which is made when it is not there yet. -/
theorem gathering_after (fresh : bs.m_arrayList = [])
    (before : s.m_blockManager.block bs.m_blockid = bs.gathering handled)
    (sized : Sized (as, contents)) (h : Handles bs (some (as, contents)) s t) :
    t.m_blockManager.block bs.m_blockid = bs.gathering (handled ++ [(as, contents)]) := by
  cases h with
  | array exposed replied =>
    have out := putArray_pulled exposed sized replied
    cases hasked : s.m_blockManager.asked bs.m_blockid bs.m_backend with
    | none => cases (BlockManager.putArray_refused hasked out).1
    | some handle =>
      obtain ⟨summary, _, ⟨_, m_arrayMap, explicit, added, left⟩ | ⟨thrown, _⟩⟩ :=
        BlockManager.putArray_outcome hasked out
      · obtain rfl := BlockManager.addArraySummary_ok added
        have hne := (BlockManager.asked_eq_some.mp hasked).1
        rw [left, BlockManager.block_store, if_pos rfl]
        cases handled with
        | nil =>
          obtain known | ⟨⟨storage, made, rfl⟩, _⟩ := BlockManager.asked_cases hasked
          · rw [before] at known
            cases known
          · obtain rfl : storage = .VTKMemExplicitObj m_arrayMap := explicit
            obtain rfl := newStorage_arrays made
            simp [BlockSummary.gathering, BlockSummary.gathered, BlockManager.summaryFor, fresh]
        | cons first handled =>
          have known := BlockManager.asked_of_block hne before bs.m_backend
          rw [hasked] at known
          cases known
          cases explicit
          simp [BlockSummary.gathering, BlockSummary.gathered, BlockManager.summaryFor, hne]
      · cases thrown

/-- What was handled is what the block holds, in the order it was handled. -/
theorem gathering_run {acts : List (Option (ArraySummary × Buffer))}
    (fresh : bs.m_arrayList = []) (absent : s.m_blockManager.block bs.m_blockid = none)
    (sized : ∀ segment ∈ acts.filterMap id, Sized segment) (run : Run (Handles bs) s acts t) :
    t.m_blockManager.block bs.m_blockid = bs.gathering (acts.filterMap id) := by
  refine run.history (I := fun acts t => (∀ segment ∈ acts.filterMap id, Sized segment) →
    t.m_blockManager.block bs.m_blockid = bs.gathering (acts.filterMap id))
    (fun _ => absent) ?_ sized
  intro acts act t u _ gathered hstep sized
  rw [List.filterMap_append] at sized ⊢
  have before := gathered fun segment mem => sized segment (List.mem_append_left _ mem)
  cases act with
  | none =>
    cases hstep with
    | other same => simpa using same.trans before
  | some segment =>
    exact gathering_after fresh before (sized segment (by simp)) hstep

/-! ## Reading the block -/

theorem find?_only {α : Type} {p : α → Bool} {l : List α} {a : α} (mem : a ∈ l) (holds : p a)
    (only : ∀ b ∈ l, p b → b = a) : l.find? p = some a := by
  cases found : l.find? p with
  | none => exact absurd holds (List.find?_eq_none.mp found a mem)
  | some b => rw [only b (List.mem_of_find?_eq_some found) (List.find?_some found)]

theorem gathering_eq_some {block : DataBlock} (h : bs.gathering handled = some block) :
    block.m_blockSummary = bs.gathered handled ∧
      block.storage = .VTKMemExplicitObj handled := by
  cases handled with
  | nil => cases h
  | cons first handled =>
    cases h
    exact ⟨rfl, rfl⟩

theorem gathering_of_mem (bs : BlockSummary) (mem : (as, contents) ∈ handled) :
    ∃ block, bs.gathering handled = some block := by
  cases handled with
  | nil => cases mem
  | cons first handled => exact ⟨_, rfl⟩

/-- An array is found by its name. -/
theorem getArray_gathered {m : BlockManager} (stored : m.block bs.m_blockid = bs.gathering handled)
    (named : bs.m_blockid ≠ "") (distinct : (handled.map fun e => e.1.m_arrayName).Nodup)
    (mem : (as, contents) ∈ handled) :
    m.getArray bs.m_blockid as.m_arrayName = .ok (as, contents) := by
  have only : ∀ e ∈ handled, e.1.m_arrayName = as.m_arrayName → e = (as, contents) :=
    fun e he same => List.inj_on_of_nodup_map distinct he mem same
  obtain ⟨block, gathered⟩ := gathering_of_mem bs mem
  obtain ⟨summary, storage⟩ := gathering_eq_some gathered
  have listed : block.m_blockSummary.getArraySummary as.m_arrayName = .ok as := by
    have found : block.m_blockSummary.findArray as.m_arrayName = some as := by
      rw [summary]
      refine find?_only (List.mem_map_of_mem mem) (by simp) ?_
      intro as' mem' same
      obtain ⟨e, he, rfl⟩ := List.mem_map.mp mem'
      rw [only e he (by simpa using same)]
    rw [BlockSummary.getArraySummary, found]
  have kept : block.getArray as = .ok contents := by
    have found : handled.find? (fun e => e.1 == as) = some (as, contents) := by
      refine find?_only mem (by simp) fun e he same => only e he ?_
      rw [eq_of_beq same]
    rw [DataBlock.getArray, storage]
    dsimp only
    rw [found]
  have there : m.DataBlockMap.lookup bs.m_blockid = some block := stored.trans gathered
  rw [BlockManager.getArray, there]
  dsimp only
  rw [listed]
  simp only [bind, Except.bind, if_neg named, kept, pure, Except.pure]

end UniServer

/-! ## The arrays of a mesh -/

theorem toNat_bytes {n width : Nat} (small : (n : Int) ≤ INT_MAX) (le : width ≤ 8) :
    (UInt64.ofNat n * UInt64.ofNat width).toNat = n * width := by
  have max : INT_MAX = 2147483647 := rfl
  have size : UInt64.size = 18446744073709551616 := rfl
  have bound := Nat.mul_le_mul (by omega : n ≤ 2147483647) le
  rw [UInt64.toNat_mul, UInt64.toNat_ofNat_of_lt' (by omega), UInt64.toNat_ofNat_of_lt' (by omega),
    Nat.mod_eq_of_lt (by omega)]

theorem sized_segment {α : Type} {c : Codec α (Option UInt8)} {arrayName : String}
    {elemSize : Nat} {elems : List α} (width : c.width = elemSize) (le : elemSize ≤ 8)
    (small : (elems.length : Int) ≤ INT_MAX) :
    Sized (ClientForSim.segment arrayName elemSize c.encode elems) := by
  rw [Sized, ClientForSim.segment, toNat_bytes small le, ← width]
  exact Codec.length_pack elems

namespace PolyMesh

variable {mesh : PolyMesh R} {normalArray : List (Array3 R)} {f : NumberFormats R}
  {segments handled : List (ArraySummary × Buffer)}

/-- What the client sends of a mesh that it could copy. -/
def copiedArrays (f : NumberFormats R) (mesh : PolyMesh R) (normalArray : List (Array3 R)) :
    List (ArraySummary × Buffer) :=
  [ClientForSim.segment "points" sizeofDouble f.double.encode (flat (mesh.copiedPoints f.zero)),
    ClientForSim.segment "cells" sizeofInt f.int32.encode mesh.copiedCells,
    ClientForSim.segment "normals" sizeofDouble f.double.encode
      (flat (mesh.copiedNormals f.zero normalArray))]

theorem putArrayIntoBlock_eq_ok : ClientForSim.putArrayIntoBlock f mesh = .ok segments ↔
    ∃ normalArray, mesh.Copyable normalArray ∧ segments = mesh.copiedArrays f normalArray := by
  unfold ClientForSim.putArrayIntoBlock
  rw [bind_eq_ok]
  constructor
  · rintro ⟨vectors, copied, made⟩
    obtain ⟨normalArray, copyable, rfl⟩ := deepCopy_eq_ok.mp copied
    exact ⟨normalArray, copyable, (Except.ok.inj made).symm⟩
  · rintro ⟨normalArray, copyable, rfl⟩
    exact ⟨_, deepCopy_eq_ok.mpr ⟨normalArray, copyable, rfl⟩, rfl⟩

theorem length_points (h : mesh.Copyable normalArray) :
    (flat (mesh.copiedPoints f.zero)).length = mesh.numPoints.toNat * 3 := by
  rw [length_flat, length_copiedPoints h]

theorem length_normals (h : mesh.Copyable normalArray) :
    (flat (mesh.copiedNormals f.zero normalArray)).length = mesh.numPoints.toNat * 3 := by
  rw [length_flat, length_copiedNormals h]

theorem length_cells (f : NumberFormats R) (h : mesh.Copyable normalArray)
    (polygonal : mesh.Polygonal) : mesh.copiedCells.length = mesh.numCells.toNat * 3 := by
  rw [copiedCells_eq f.zero h polygonal, length_flat, length_polys f.zero h]

theorem sized_arrays (h : mesh.Copyable normalArray) (polygonal : mesh.Polygonal) :
    ∀ segment ∈ mesh.copiedArrays f normalArray, Sized segment := by
  have points := h.points
  have cells := h.cells
  have fewPoints := length_points (f := f) h
  have fewNormals := length_normals (f := f) h
  have fewCells := length_cells f h polygonal
  intro segment mem
  simp only [copiedArrays, List.mem_cons, List.not_mem_nil, or_false] at mem
  rcases mem with rfl | rfl | rfl
  · exact sized_segment f.width_double (by decide) (by omega)
  · exact sized_segment f.width_int32 (by decide) (by omega)
  · exact sized_segment f.width_double (by decide) (by omega)

end PolyMesh

/-! ## Reading three arrays -/

section ThreeArrays

variable {handled : List (ArraySummary × Buffer)} {bs : BlockSummary}
  {points cells normals : ArraySummary × Buffer}

theorem perm_three {α : Type} {l : List α} {a b c : α} (h : l.Perm [a, b, c]) :
    l = [a, b, c] ∨ l = [b, a, c] ∨ l = [b, c, a] ∨ l = [a, c, b] ∨ l = [c, a, b] ∨
      l = [c, b, a] := by
  have listed := List.mem_permutations'.mpr h
  simpa [List.permutations', or_assoc] using listed

/-- The names that a reader looks for. -/
def NamedArrays (points cells normals : ArraySummary) : Prop :=
  points.m_arrayName = "points" ∧ cells.m_arrayName = "cells" ∧ normals.m_arrayName = "normals"

theorem segmentSizes_eq {points cells normals : ArraySummary}
    (listed : bs.m_arrayList.Perm [points, cells, normals])
    (names : NamedArrays points cells normals) :
    ClientForStaging.segmentSizes bs = .ok ⟨points.m_elemSize * points.m_elemNum,
      normals.m_elemSize * normals.m_elemNum, cells.m_elemSize * cells.m_elemNum⟩ := by
  obtain ⟨hp, hc, hn⟩ := names
  rw [ClientForStaging.segmentSizes]
  rcases perm_three listed with order | order | order | order | order | order <;>
    simp [order, hp, hc, hn, bind, Except.bind, pure, Except.pure]

theorem pullArrays_eq (all : handled.Perm [points, cells, normals])
    (names : NamedArrays points.1 cells.1 normals.1) {m : BlockManager}
    (stored : m.block bs.m_blockid = bs.gathering handled) (named : bs.m_blockid ≠ "") :
    ClientForStaging.pullArrays m bs.m_blockid = .ok ⟨points.2, normals.2, cells.2⟩ := by
  obtain ⟨hp, hc, hn⟩ := names
  have distinct : (handled.map fun e => e.1.m_arrayName).Nodup := by
    have order := all.map fun e => e.1.m_arrayName
    simp only [List.map_cons, List.map_nil, hp, hc, hn] at order
    exact order.nodup_iff.mpr (by decide)
  have array : ∀ e ∈ [points, cells, normals], m.getArray bs.m_blockid e.1.m_arrayName = .ok e :=
    fun e mem => UniServer.getArray_gathered stored named distinct (all.mem_iff.mpr mem)
  simp only [List.forall_mem_cons, hp, hc, hn] at array
  obtain ⟨first, second, third, _⟩ := array
  rw [ClientForStaging.pullArrays, first, second, third]
  rfl

theorem fillContainer_eq {e : ArraySummary × Buffer} (sized : Sized e) :
    ClientForSim.fillContainer (e.1.m_elemSize * e.1.m_elemNum) e.2 = .ok e.2 := by
  rw [Sized, UInt64.mul_comm] at sized
  rw [ClientForSim.fillContainer, if_neg (by omega), sized, Nat.sub_self, List.replicate_zero,
    List.append_nil]

/-- A block with its three arrays is read whole. -/
theorem aggregateBlock_eq {f : Formats R} (all : handled.Perm [points, cells, normals])
    (names : NamedArrays points.1 cells.1 normals.1)
    (sized : ∀ e ∈ [points, cells, normals], Sized e) {t : UniServer}
    (stored : t.m_blockManager.block bs.m_blockid = bs.gathering handled)
    (named : bs.m_blockid ≠ "") :
    ClientForStaging.aggregateBlock f t (bs.gathered handled) =
      ClientForStaging.rebuild f ⟨points.1.m_elemSize * points.1.m_elemNum,
        normals.1.m_elemSize * normals.1.m_elemNum, cells.1.m_elemSize * cells.1.m_elemNum⟩
        ⟨points.2, normals.2, cells.2⟩ := by
  have three : handled.length = 3 := all.length_eq
  have listed : (bs.gathered handled).m_arrayList.Perm [points.1, cells.1, normals.1] :=
    all.map Prod.fst
  have sizes := segmentSizes_eq listed names
  simp only [List.forall_mem_cons] at sized
  obtain ⟨first, second, third, _⟩ := sized
  rw [ClientForStaging.aggregateBlock]
  simp only [BlockSummary.m_arrayListLen_gathered, BlockSummary.m_blockid_gathered, three, sizes,
    pullArrays_eq all names stored named, fillContainer_eq first,
    fillContainer_eq second, fillContainer_eq third, bind, Except.bind, ne_eq, not_true_eq_false,
    if_false]

end ThreeArrays

namespace PolyMesh

variable {mesh : PolyMesh R} {normalArray : List (Array3 R)} {f : NumberFormats R}
  {handled : List (ArraySummary × Buffer)}

theorem rebuild_arrays (h : mesh.Copyable normalArray) (polygonal : mesh.Polygonal)
    {t : UniServer} {bs : BlockSummary} (all : handled.Perm (mesh.copiedArrays f normalArray))
    (stored : t.m_blockManager.block bs.m_blockid = bs.gathering handled)
    (named : bs.m_blockid ≠ "") :
    ClientForStaging.aggregateBlock f.toFormats t
      (bs.gathered handled) = .ok (mesh.received f.zero normalArray) := by
  rw [aggregateBlock_eq all ⟨rfl, rfl, rfl⟩ (sized_arrays h polygonal) stored named]
  have rebuilt := rebuild_received f h polygonal
  simp only [ClientForSim.segment, length_points h, length_normals h, length_cells f h polygonal]
  rw [sizes] at rebuilt
  exact rebuilt

end PolyMesh

/-! ## The aggregation -/

/-- What the server makes of a listed summary: it waits for three arrays, and these are read. -/
def UniServer.Supplies (s : UniServer) (f : Formats R) (summary : BlockSummary)
    (polyData : PolyData R) : Prop :=
  ∃ found, s.awaitArrays summary = .ok found ∧
    ClientForStaging.aggregateBlock f s found = .ok polyData

namespace ClientForStaging

variable {f : Formats R} {servers : Endpoint → Option UniServer} {m : ClientForStaging}
  {blockIDSuffix : String}

/-- What one contact adds to the list. -/
def Part (f : Formats R) (servers : Endpoint → Option UniServer) (blockIDSuffix : String)
    (kv : Σ _ : String, Endpoint) (part : List (PolyData R)) : Prop :=
  ∃ server, servers kv.2 = some server ∧
    List.Forall₂ (server.Supplies f) (server.matching blockIDSuffix) part

theorem aggregate_eq_ok {polylist : List (PolyData R)} :
    m.aggregatePolyBySuffix f servers blockIDSuffix = .ok polylist ↔
      ∃ parts, List.Forall₂ (Part f servers blockIDSuffix) m.contacts parts ∧
        polylist = parts.flatten := by
  unfold aggregatePolyBySuffix
  rw [bind_eq_ok]
  simp only [mapM_eq_ok]
  refine exists_congr fun parts => and_congr (forall₂_iff fun kv part => ?_) ?_
  · unfold Part
    cases servers kv.2 with
    | none => simp [throw, throwThe, MonadExceptOf.throw]
    | some server =>
      dsimp only
      rw [bind_eq_ok]
      simp only [UniServer.summaries_eq_ok, mapM_eq_ok, Option.some.injEq, exists_eq_left',
        forall₂_comp]
      rfl
  · exact ⟨fun made => (Except.ok.inj made).symm, fun made => congrArg Except.ok made.symm⟩

/-- The aggregation returns when every contact supplies each block that it lists. -/
theorem aggregate_returns_iff :
    (∃ polylist, m.aggregatePolyBySuffix f servers blockIDSuffix = .ok polylist) ↔
      ∀ kv ∈ m.contacts, ∃ server, servers kv.2 = some server ∧
        ∀ summary ∈ server.matching blockIDSuffix, ∃ polyData,
          server.Supplies f summary polyData := by
  simp only [aggregate_eq_ok]
  constructor
  · rintro ⟨_, parts, asked, rfl⟩ kv mem
    obtain ⟨part, _, server, serves, supplied⟩ := exists_right_of_forall₂ asked mem
    refine ⟨server, serves, fun summary listed => ?_⟩
    obtain ⟨polyData, _, supplies⟩ := exists_right_of_forall₂ supplied listed
    exact ⟨polyData, supplies⟩
  · intro supplied
    have all : ∀ kv ∈ m.contacts, ∃ part, Part f servers blockIDSuffix kv part := by
      intro kv mem
      obtain ⟨server, serves, supplies⟩ := supplied kv mem
      obtain ⟨part, h⟩ := exists_forall₂ supplies
      exact ⟨part, server, serves, h⟩
    obtain ⟨parts, asked⟩ := exists_forall₂ all
    exact ⟨_, parts, asked, rfl⟩

/-- A block that a contact lists is in the list that is returned. -/
theorem mem_polylist {polylist : List (PolyData R)}
    (h : m.aggregatePolyBySuffix f servers blockIDSuffix = .ok polylist)
    {kv : Σ _ : String, Endpoint} (asked : kv ∈ m.contacts) {server : UniServer}
    (serves : servers kv.2 = some server) {summary : BlockSummary}
    (listed : summary ∈ server.matching blockIDSuffix) :
    ∃ polyData ∈ polylist, server.Supplies f summary polyData := by
  obtain ⟨parts, all, rfl⟩ := aggregate_eq_ok.mp h
  obtain ⟨part, hpart, server', serves', supplied⟩ := exists_right_of_forall₂ all asked
  rw [serves] at serves'
  cases serves'
  obtain ⟨polyData, mem, supplies⟩ := exists_right_of_forall₂ supplied listed
  exact ⟨polyData, List.mem_flatten.mpr ⟨part, hpart, mem⟩, supplies⟩

end ClientForStaging

/-! ## One mesh among the others -/

section OneMesh

variable {s t : UniServer} {bs : BlockSummary} {handled segments : List (ArraySummary × Buffer)}
  {mesh : PolyMesh R} {normalArray : List (Array3 R)} {f : NumberFormats R}
  {acts : List (Option (ArraySummary × Buffer))}

/-- The block of a mesh is supplied when its three arrays were handled, and then it is the mesh
as it was copied. -/
theorem supplies_iff (copyable : mesh.Copyable normalArray) (polygonal : mesh.Polygonal)
    (named : bs.m_blockid ≠ "") (begun : handled ≠ [])
    (some_of : handled.Subperm (mesh.copiedArrays f normalArray))
    (stored : t.m_blockManager.block bs.m_blockid = bs.gathering handled) {polyData : PolyData R} :
    t.Supplies f.toFormats (bs.gathered handled) polyData ↔
      handled.Perm (mesh.copiedArrays f normalArray) ∧
        polyData = mesh.received f.zero normalArray := by
  have three : (mesh.copiedArrays f normalArray).length = 3 := rfl
  by_cases all : handled.Perm (mesh.copiedArrays f normalArray)
  · have full : (bs.gathered handled).m_arrayListLen = 3 := by
      rw [BlockSummary.m_arrayListLen_gathered, all.length_eq, three]
    have read := PolyMesh.rebuild_arrays copyable polygonal all stored named
    constructor
    · rintro ⟨found, awaited, rebuilt⟩
      rw [UniServer.awaitArrays_full full] at awaited
      cases awaited
      exact ⟨all, Except.ok.inj (rebuilt.symm.trans read)⟩
    · rintro ⟨_, rfl⟩
      exact ⟨_, UniServer.awaitArrays_full full, read⟩
  · have fewer : (bs.gathered handled).m_arrayListLen ≠ 3 := fun full =>
      all (some_of.perm_of_length_le (by
        rw [three, ← full, BlockSummary.m_arrayListLen_gathered]))
    refine iff_of_false ?_ fun both => all both.1
    rintro ⟨found, awaited, _⟩
    obtain ⟨first, rest, rfl⟩ := List.exists_cons_of_ne_nil begun
    obtain ⟨block, made⟩ : ∃ block, bs.gathering (first :: rest) = some block := ⟨_, rfl⟩
    have there : t.m_blockManager.DataBlockMap.lookup
        (bs.gathered (first :: rest)).m_blockid = some block := stored.trans made
    rw [UniServer.awaitArrays, if_neg fewer, there] at awaited
    dsimp only at awaited
    rw [(UniServer.gathering_eq_some made).1, if_neg fewer] at awaited
    cases awaited

/-- An array is only handled for a block with an id. -/
theorem named_of_handled (run : Run (UniServer.Handles bs) s acts t)
    (begun : acts.filterMap id ≠ []) : bs.m_blockid ≠ "" := by
  refine (run.history (I := fun acts _ => acts.filterMap id = [] ∨ bs.m_blockid ≠ "")
    (.inl rfl) ?_).resolve_left begun
  intro acts act t u _ known hstep
  cases hstep with
  | other _ => simpa using known
  | array _ replied =>
    right
    obtain ⟨data, out⟩ := UniServer.putArray_handled replied
    intro empty
    have refused : t.m_blockManager.asked bs.m_blockid bs.m_backend = none := if_pos empty
    cases (BlockManager.putArray_refused refused out).1

/-- The contacts supply every block that they list, but for one. -/
def ClientForStaging.Others (m : ClientForStaging) (f : Formats R)
    (servers : Endpoint → Option UniServer) (blockIDSuffix : String) (k : Σ _ : String, Endpoint)
    (blockID : String) : Prop :=
  ∀ kv ∈ m.contacts, ∃ server, servers kv.2 = some server ∧
    ∀ id block, server.m_blockManager.block id = some block →
      blockIDSuffix.toList <:+: id.toList → ¬ (kv = k ∧ id = blockID) →
      ∃ polyData, server.Supplies f block.m_blockSummary polyData

variable {servers : Endpoint → Option UniServer} {m : ClientForStaging} {blockIDSuffix : String}
  {k : Σ _ : String, Endpoint}

end OneMesh

namespace OneTriangle

def double : Codec UInt8 (Option UInt8) where
  width := 8
  encode r := some r :: List.replicate 7 (some 0)
  decode := formats.ofDouble
  Fits _ := True
  width_pos := by decide
  length_encode _ := rfl
  decode_encode _ _ := rfl

def int32 : Codec Int (Option UInt8) := Codec.signed 4 (by decide)

theorem fits_int32 {z : Int} (fits : IsInt z) : int32.Fits z := by
  obtain ⟨least, most⟩ := fits
  have min : INT_MIN = -2147483648 := rfl
  have max : INT_MAX = 2147483647 := rfl
  exact Codec.fits_signed (by decide : 256 ^ 4 = 4294967296) (by omega)

def numberFormats : NumberFormats UInt8 where
  toFloat := formats.toFloat
  toLong := formats.toLong
  ofDouble := double.decode
  ofInt := int32.decode
  zero := 0
  double := double
  int32 := int32
  width_double := rfl
  width_int32 := rfl
  fits_double _ := trivial
  fits_int32 _ fits := fits_int32 fits
  decode_double := rfl
  decode_int32 := rfl

def copies : List (ArraySummary × Buffer) :=
  triangle.mesh.copiedArrays numberFormats triangle.normals

/-- The three arrays were handled the other way round. -/
def copied : UniServer := copies.reverse.foldl put {}

theorem run_copies : Run (UniServer.Handles block) {} (copies.reverse.map some) copied :=
  .next (.next (.next .start (.array rfl (by decide))) (.array rfl (by decide)))
    (.array rfl (by decide))

theorem triangle_copyable : triangle.mesh.Copyable triangle.normals where
  points := by decide
  cells := by decide
  ids := by decide
  room := by decide
  normals := ⟨rfl, by decide⟩

theorem triangle_polygonal : triangle.mesh.Polygonal := by
  intro ids mem
  rw [List.eq_of_mem_singleton mem]
  decide

theorem handled_copies : (copies.reverse.map some).filterMap id = copies.reverse := by
  rw [List.filterMap_map]
  exact List.filterMap_some

end OneTriangle

end Gorilla
