import Gorilla.Server.MetaHandlers

/-!
# Reading a region through the client

The client asks one server who is responsible, polls each of those servers until it
answers with a list, reads every listed part and assembles the parts.
-/

namespace Gorilla

/-- What the client reaches over the network. A server that is polled may be in another state
each time; a raw data read gives a status and the bytes of the asked part. -/
structure Network where
  m_associatedDataServer : UniServer
  polls : String → List UniServer
  getSubregionData : String → String → Nat → Array3 Int → Array3 Int →
    Except Stop (Int × Buffer)
  getBlockSubregion : String → Nat → Array3 Int → Array3 Int → Except Stop (String × Buffer)

namespace ClientForSim

/-- `while (true)`: ask again until the list is not empty. -/
def pollDescriptors (step : Nat) (varName : String) (dims : Nat) (indexlb indexub : Array3 Int) :
    List UniServer → Except Stop (List BlockDescriptor)
  | [] => .error (.blocked "the metadata is not updated on this server, waiting")
  | s :: rest => do
    let bdList ← callRemote (getBlockDescriptorList step varName dims indexlb indexub) s
    if bdList.isEmpty then
      pollDescriptors step varName dims indexlb indexub rest
    else
      return bdList

/-- The bytes a transfer leaves in the container: what was sent, then what malloc left. -/
def fillContainer (allocSize : UInt64) (data : Buffer) : Except Stop Buffer :=
  if allocSize.toNat < data.length then
    .error (.undefined "transfer past the end of the container")
  else
    .ok (data ++ List.replicate (allocSize.toNat - data.length) none)

/-- The bytes of one listed part, from the memory of the named server or from a file. -/
def readPart (net : Network) (dims : Nat) (bd : BlockDescriptor) (allocSize : UInt64) :
    Except Stop Buffer := do
  if bd.m_backend = BACKEND.MEM then
    let (status, data) ← net.getSubregionData bd.m_rawDataServerAddr bd.m_rawDataID dims
      bd.m_indexlb bd.m_indexub
    if status ≠ 0 then
      throw (.runtime_error "failed for get subrigion data for current raw data endpoint")
    fillContainer allocSize data
  else if bd.m_backend = BACKEND.FILE then
    let (blockid, data) ← net.getBlockSubregion bd.m_rawDataID dims bd.m_indexlb bd.m_indexub
    if blockid = "" then
      throw (.runtime_error "failed to get the block summary")
    return data
  else
    throw (.runtime_error "unsupported meta format for raw endpoint")

/-- The view of one listed part. The container has `sizeof(double)` bytes for each cell. -/
def readDescriptor (net : Network) (dims : Nat) (bd : BlockDescriptor) :
    Except Stop MatrixView := do
  let bbx ← BBX.ofIndex dims bd.m_indexlb bd.m_indexub
  let allocSize := 8 * (← bbx.getElemNum)
  return ⟨bbx, ← readPart net dims bd allocSize⟩

/-- The parts collected from the responsible servers, in the order they are asked. -/
def collectViews (net : Network) (step : Nat) (varName : String) (dims : Nat)
    (indexlb indexub : Array3 Int) : List String → Except Stop (List MatrixView)
  | [] => .ok []
  | metaServerAddr :: rest => do
    let bdList ← pollDescriptors step varName dims indexlb indexub (net.polls metaServerAddr)
    let views ← bdList.mapM (readDescriptor net dims)
    return views ++ (← collectViews net step varName dims indexlb indexub rest)

def matrixViewList (net : Network) (step : Nat) (varName : String) (dims : Nat)
    (indexlb indexub : Array3 Int) : Except Stop (List MatrixView) := do
  let metaList ← callRemote (getmetaServerList dims indexlb indexub) net.m_associatedDataServer
  collectViews net step varName dims indexlb indexub metaList

def getArbitraryData (net : Network) (step : Nat) (varName : String) (elemSize : UInt64)
    (dims : Nat) (indexlb indexub : Array3 Int) : Except Stop MatrixView := do
  let views ← matrixViewList net step varName dims indexlb indexub
  let intactbbx ← BBX.ofIndex dims indexlb indexub
  MATRIXTOOL.matrixAssemble elemSize views intactbbx

end ClientForSim

end Gorilla
