import Gorilla.Client.ClientForSim
import Gorilla.Server.RawData

/-!
# The client of a staging server

One map from addresses to endpoints is the list of the servers that an aggregation asks and
the cache of every address that was ever looked up.
-/

namespace Gorilla

open HandLock

/-- The triangle meshes of the VTK library, as its accessors give them. -/
structure PolyData (R : Type) where
  points : List (Array3 R)
  normals : List (Array3 R)
  polys : List (Array3 Int)

/-- How the compilers lay out the numbers of the arrays. -/
structure Formats (R : Type) where
  toFloat : R → Buffer
  toLong : Int → Buffer
  ofDouble : Buffer → R
  ofInt : Buffer → Int

namespace ClientForStaging

/-- An address that is not in the cache is resolved and put there. -/
def lookup (out : Outside) (address : String) : EStateM Stop ClientForStaging Endpoint := do
  match (← get).m_serverToEndpoints.lookup address with
  | some endpoint => return endpoint
  | none =>
    let endpoint ← raise (out.lookup address)
    modify fun m => m.cacheEndpoint address endpoint
    return endpoint

def initEndPoints (out : Outside) (serverList : List String) :
    EStateM Stop ClientForStaging Unit :=
  serverList.forM fun address => do
    let endpoint ← raise (out.lookup address)
    modify fun m => m.cacheEndpoint address endpoint

def notifyBack (out : Outside) (rcvNotify : Endpoint → BlockSummary → Except Stop Unit)
    (watcherAddr : String) (bs : BlockSummary) : EStateM Stop ClientForStaging Unit := do
  let serverEndpoint ← lookup out watcherAddr
  rcvNotify serverEndpoint bs

/-- What `for (auto& kv : m_serverToEndpoints)` visits. -/
def contacts (m : ClientForStaging) : List (Σ _ : String, Endpoint) :=
  sortedEntries m.m_serverToEndpoints

/-- The sizes of the three segments, each under the name of its array. -/
def segmentSizes (bs : BlockSummary) : Except Stop (Array3 UInt64) :=
  bs.m_arrayList.foldlM (fun segments as => do
    let transferSize := as.m_elemSize * as.m_elemNum
    if as.m_arrayName = "points" then return { segments with x := transferSize }
    else if as.m_arrayName = "normals" then return { segments with y := transferSize }
    else if as.m_arrayName = "cells" then return { segments with z := transferSize }
    else throw (.runtime_error ("the array list name is unexpected" ++ as.m_arrayName)))
    ⟨0, 0, 0⟩

/-- The arrays that `getArraysExplicit` sends. -/
def pullArrays (m : BlockManager) (blockID : String) : Except Stop (Array3 Buffer) := do
  let points ← m.getArray blockID "points"
  let normals ← m.getArray blockID "normals"
  let cells ← m.getArray blockID "cells"
  return ⟨points.2, normals.2, cells.2⟩

theorem sendArrays_eq (out : Outside) (blockID : String) (s : UniServer) :
    UniServer.sendArrays out blockID s =
      match pullArrays s.m_blockManager blockID with
      | .ok a => runIn (raise (out.sendTo [a.x, a.y, a.z])) s
      | .error e => .error e s := by
  rw [UniServer.sendArrays, bind_ok (get_run s), pullArrays]
  cases s.m_blockManager.getArray blockID "points" with
  | error e => exact bind_error (lift_error rfl)
  | ok points =>
    rw [bind_ok (lift_ok rfl)]
    cases s.m_blockManager.getArray blockID "normals" with
    | error e => exact bind_error (lift_error rfl)
    | ok normals =>
      rw [bind_ok (lift_ok rfl)]
      cases s.m_blockManager.getArray blockID "cells" with
      | error e => exact bind_error (lift_error rfl)
      | ok cells => exact bind_ok (lift_ok rfl)

/-- The three numbers of one point or one triangle. -/
def readTriple {α : Type} (read : Buffer → α) (width : Nat) (array : Buffer) (i : Nat) :
    Except Stop (Array3 α) :=
  if array.length < (i + 1) * (3 * width) then
    .error (.undefined "read past the end of an array")
  else
    .ok ⟨read ((array.drop (3 * i * width)).take width),
      read ((array.drop ((3 * i + 1) * width)).take width),
      read ((array.drop ((3 * i + 2) * width)).take width)⟩

variable {R : Type}

/-- The mesh of three received arrays: doubles for the points and the normals, `int` indices for
the triangles. -/
def rebuild (f : Formats R) (sizes : Array3 UInt64) (arrays : Array3 Buffer) :
    Except Stop (PolyData R) := do
  let nPoints := DataBlock.truncInt (sizes.x / 8 / 3)
  let points ← (List.range nPoints.toNat).mapM (readTriple f.ofDouble sizeofDouble arrays.x)
  let normals ← (List.range nPoints.toNat).mapM (readTriple f.ofDouble sizeofDouble arrays.y)
  let nCells := DataBlock.truncInt (sizes.z / 4 / 3)
  let polys ← (List.range nCells.toNat).mapM (readTriple f.ofInt sizeofInt arrays.z)
  return ⟨points, normals, polys⟩

def aggregateBlock (f : Formats R) (server : UniServer) (v : BlockSummary) :
    Except Stop (PolyData R) := do
  if v.m_arrayListLen ≠ 3 then
    throw (.runtime_error ("the array len is supposed to be 3, but now it is: " ++
      toString v.m_arrayListLen))
  let sizes ← segmentSizes v
  let arrays ← pullArrays server.m_blockManager v.m_blockid
  let points ← ClientForSim.fillContainer sizes.x arrays.x
  let normals ← ClientForSim.fillContainer sizes.y arrays.y
  let cells ← ClientForSim.fillContainer sizes.z arrays.z
  rebuild f sizes ⟨points, normals, cells⟩

/-- Every endpoint of the map is asked for its summaries, and then for their arrays. An endpoint
that is no staging server does not know the request. -/
def aggregatePolyBySuffix (f : Formats R) (servers : Endpoint → Option UniServer)
    (blockIDSuffix : String) (m : ClientForStaging) : Except Stop (List (PolyData R)) := do
  let polylist ← m.contacts.mapM fun kv => do
    match servers kv.2 with
    | none => throw (.runtime_error "getBlockSummayBySuffix is not defined")
    | some server =>
      let tempbsList ← callRemote (getBlockSummayBySuffix blockIDSuffix) server
      tempbsList.mapM (aggregateBlock f server)
  return polylist.flatten

end ClientForStaging

end Gorilla
