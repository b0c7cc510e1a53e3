import Gorilla.Server.UniServer
import Mathlib.Data.List.Infix

/-!
# The handlers of the raw data service

A put runs in three phases: it acquires the container of its client, pulls the bytes into
it, and copies the container into a block. Only the first and the last hold the mutex.
-/

namespace Gorilla

open HandLock

namespace ClientForStaging

def cacheClientAddr (clientAddr : String) (m : ClientForStaging) :
    Except Stop ClientForStaging :=
  match m.m_clientAddrToID.lookup clientAddr with
  | some _ => .ok m
  | none => do
    let m_base ← int (m.m_base + 1)
    return { m with
      m_clientAddrToID := m.m_clientAddrToID.insert clientAddr m_base
      m_base := m_base }

/-- `-1` for a client that has put nothing. -/
def getIDFromClientAddr (m : ClientForStaging) (clientAddr : String) : Int :=
  (m.m_clientAddrToID.lookup clientAddr).getD (-1)

end ClientForStaging

namespace UniServer

def bulkMapmutex : Mutex UniServer where
  held s := s.m_bulkMapmutex
  put b s := { s with m_bulkMapmutex := b }
  held_put _ _ := rfl
  put_put _ _ _ := rfl
  put_held _ := rfl

def bulkBusy : Stop := .blocked "m_bulkMapmutex"

/-- A new client gets a container; one of another size is freed and replaced. -/
def stage (s : UniServer) (clientID : Int) (transferSize : UInt64) : UniServer :=
  match s.containers.m_bulkMap.lookup clientID with
  | none =>
    { s with
      m_schedulerManager := s.m_schedulerManager.assignMem transferSize
      containers := s.containers.assign clientID transferSize }
  | some bulk =>
    if bulk.size ≠ transferSize then
      { s with
        m_schedulerManager :=
          (s.m_schedulerManager.releaseMem bulk.size).assignMem transferSize
        containers := s.containers.assign clientID transferSize }
    else s

/-- The first phase: the bulk the bytes will be pulled into. -/
def acquire (clientID : Int) (transferSize : UInt64) : EStateM Stop UniServer Bulk :=
  region bulkMapmutex bulkBusy do
    modify fun s => s.stage clientID transferSize
    return ((← get).containers.m_bulkMap.lookup clientID).getD ⟨0, 0⟩

/-- The second phase, with no mutex held. -/
def pull (out : Outside) (currentBulk : Bulk) : EStateM Stop UniServer Unit := do
  let sent ← raise (out.exposed currentBulk.size)
  let containers ← (← get).containers.pull currentBulk sent
  modify fun s => { s with containers := containers }

/-- The container of a client as it is now, not as it was when it was acquired. -/
def dataContainer (clientID : Int) : EStateM Stop UniServer Buffer := do
  match (← get).containers.contents clientID with
  | none => throw (.undefined "read of a null container")
  | some contents => return contents

def assign (memSize : UInt64) : EStateM Stop UniServer Unit :=
  modify fun s => { s with m_schedulerManager := s.m_schedulerManager.assignMem memSize }

/-- The last phase of a `CARGRID` put: an exception of `putBlock` leaves the mutex held. -/
def storeGrid (clientID : Int) (blockSummary : BlockSummary) : EStateM Stop UniServer Unit := do
  region bulkMapmutex bulkBusy do
    let contents ← dataContainer clientID
    onBlockManager (BlockManager.putBlock blockSummary BACKEND.MEM (.bytes contents))
  assign (← blockSummary.getArraySize blockSummary.m_blockid)

/-- The last phase of a `VTKPTR` put: the bytes are copied under the mutex and unmarshalled
after it. -/
def storeVtk (out : Outside) (clientID : Int) (transferSize : UInt64)
    (blockSummary : BlockSummary) : EStateM Stop UniServer Unit := do
  let recvbuffer ← region bulkMapmutex bulkBusy do
    let contents ← dataContainer clientID
    (Buffer.malloc transferSize).memcpy 0 contents 0 transferSize.toNat
  let recvbj ← raise (out.UnMarshalDataObject recvbuffer)
  onBlockManager (BlockManager.putBlock blockSummary BACKEND.MEMVTKPTR (.smartPointer recvbj))
  assign (← blockSummary.getArraySize blockSummary.m_blockid)

/-- The work of `putrawdata` before its reply. No storage returns a status but zero. -/
def putData (out : Outside) (clientID : Int) (blockSummary : BlockSummary) :
    EStateM Stop UniServer Unit := do
  let clientStaging ← (← get).clientStaging.cacheClientAddr out.endpoint
  modify fun s => { s with clientStaging := clientStaging }
  if blockSummary.m_backend ≠ BACKEND.MEM then
    throw (.runtime_error "the backend is supposed to be mem for putrawdata")
  let transferSize ← blockSummary.getArraySize blockSummary.m_blockid
  let currentBulk ← acquire clientID transferSize
  pull out currentBulk
  let _ ← blockSummary.getArrayElemSize blockSummary.m_blockid
  let _ ← blockSummary.getArrayElemNum blockSummary.m_blockid
  if blockSummary.m_dataType = DATATYPE_VTKPTR then
    storeVtk out clientID transferSize blockSummary
  else
    storeGrid clientID blockSummary

/-- The work of `getDataSubregion` inside its try block. -/
def readSubregion (out : Outside) (blockID : String) (dims : Nat)
    (subregionlb subregionub : Array3 Int) : EStateM Stop UniServer Unit := do
  let m := (← get).m_blockManager
  if !(← m.checkDataExistance blockID BACKEND.MEM) then
    throw (.runtime_error ("failed to get block id " ++ blockID ++ " on server with rank id " ++
      toString (← get).globalRank))
  let bs := m.getBlockSummary blockID
  let elemSize ← bs.getArrayElemSize bs.m_blockid
  let bbx ← BBX.ofIndex dims subregionlb subregionub
  let allocSize := elemSize * (← bbx.getElemNum)
  match ← onBlockManager
    (BlockManager.getBlockSubregion blockID BACKEND.MEM dims subregionlb subregionub) with
  | (_, none) => throw (.undefined "transfer from a null pointer")
  | (_, some dataContainer) =>
    if dataContainer.length < allocSize.toNat then
      throw (.undefined "transfer past the end of a buffer")
    raise (out.sendTo [dataContainer.take allocSize.toNat])

/-- The new space of an array is handed to the block, so nothing is copied. -/
def putArray (out : Outside) (blockSummary : BlockSummary) (arraySummary : ArraySummary) :
    EStateM Stop UniServer Unit := do
  let transferSize := arraySummary.m_elemNum * arraySummary.m_elemSize
  let sent ← raise (out.exposed transferSize)
  if transferSize.toNat < sent.length then
    throw (.undefined "transfer past the end of a buffer")
  let memspace := Containers.received (Buffer.malloc transferSize) sent
  onBlockManager
    (BlockManager.putArray blockSummary arraySummary blockSummary.m_backend memspace)

/-- The three arrays of a mesh, read in the order of the source. -/
def sendArrays (out : Outside) (blockID : String) : EStateM Stop UniServer Unit := do
  let m := (← get).m_blockManager
  let points ← m.getArray blockID "points"
  let normals ← m.getArray blockID "normals"
  let cells ← m.getArray blockID "cells"
  raise (out.sendTo [points.2, normals.2, cells.2])

/-- The blocks whose key contains the suffix. -/
def matching (s : UniServer) (varSuffix : String) : List BlockSummary :=
  ((sortedEntries s.m_blockManager.DataBlockMap).filter fun kv =>
    decide (varSuffix.toList <:+: kv.1.toList)).map fun kv => kv.2.m_blockSummary

/-- A summary that has not its three arrays is read again under its own block id until it
has: nothing but another request can add them. -/
def awaitArrays (s : UniServer) (summary : BlockSummary) : Except Stop BlockSummary :=
  if summary.m_arrayListLen = 3 then
    .ok summary
  else
    match s.m_blockManager.DataBlockMap.lookup summary.m_blockid with
    | none => .error (.undefined "null block")
    | some block =>
      if block.m_blockSummary.m_arrayListLen = 3 then .ok block.m_blockSummary
      else .error (.blocked "arrays of a block")

/-- `getrawMemPtr()` -/
def getrawMemPtr (b : DataBlock) : Option Buffer :=
  match b.storage with
  | .RawMemObj m_rawMemPtr => m_rawMemPtr
  | .VTKMemObj m_vtkobject => m_vtkobject
  | .FileObj => none
  | .VTKMemExplicitObj _ => none

/-- A function that throws leaves its timer running. -/
def timedExecute (blockID functionName : String) (funcParameters : List String)
    (dbi : DataBlock) : EStateM Stop UniServer String := do
  let timerNameExecute := blockID ++ "_execute"
  startTimer timerNameExecute
  let exeResults ← (← get).m_frawmanager.execute dbi.m_blockSummary (getrawMemPtr dbi)
    functionName funcParameters
  endTimer timerNameExecute
  return exeResults

/-- The last value of a metric, or zero when nothing was measured yet. -/
def lastMetric (metricName : String) : EStateM Stop UniServer Rat := do
  if !(← get).m_metricManager.metricExist metricName then
    return 0
  match ← onMetricManager (MetricManager.getLastNmetrics metricName 1) with
  | [] => throw (.undefined "index past the end of a vector")
  | v :: _ => return v

def stageStatus (out : Outside) : EStateM Stop UniServer (List Rat) := do
  let clientid := (← get).clientStaging.getIDFromClientAddr out.endpoint
  if clientid = -1 then
    return [0, 0, 0]
  let schedule ← lastMetric ("default_schedule" ++ toString clientid)
  let ana ← lastMetric ("default_ana" ++ toString clientid)
  return [schedule, ana, (← get).m_metricManager.m_runningThreads / 32]

end UniServer

open Handler

/-- A block that is absent is no error: the reply is the same. -/
def eraserawdata (blockID : String) : Handler Int Unit := do
  onServer (UniServer.onBlockManager (BlockManager.eraseBlock blockID))
  respond 0

def putrawdata (out : Outside) (clientID : Int) (blockSummary : BlockSummary) :
    Handler Int Unit := do
  onServer (UniServer.putData out clientID blockSummary)
  respond 0

def getDataSubregion (out : Outside) (blockID : String) (dims : Nat)
    (subregionlb subregionub : Array3 Int) : Handler Int Unit :=
  catchException
    (do
      onServer (UniServer.readSubregion out blockID dims subregionlb subregionub)
      respond 0)
    (respond (-1))

def putArrayIntoBlock (out : Outside) (blockSummary : BlockSummary)
    (arraySummary : ArraySummary) : Handler Int Unit := do
  onServer (UniServer.putArray out blockSummary arraySummary)
  respond 0

def getArraysExplicit (out : Outside) (blockID : String) : Handler Int Unit := do
  onServer (UniServer.sendArrays out blockID)
  respond 0

def getBlockSummayBySuffix (varSuffix : String) : Handler (List BlockSummary) Unit := do
  let s ← getServer
  let blockSummaryList : Except Stop (List BlockSummary) :=
    (s.matching varSuffix).mapM s.awaitArrays
  respond (← blockSummaryList)

def executeRawFunc (blockID functionName : String) (funcParameters : List String) :
    Handler String Unit := do
  match (← getServer).m_blockManager.DataBlockMap.lookup blockID with
  | none => respond "NOTEXIST"
  | some dbi =>
    let exeResults ← onServer
      (UniServer.timedExecute blockID functionName funcParameters dbi)
    respond exeResults

def getStageStatus (out : Outside) : Handler (List Rat) Unit := do
  let status ← onServer (UniServer.stageStatus out)
  respond status

/-- The arrays are copied out of their segments whole, so a segment that is not a multiple of
its element size is copied past the end of its array. -/
def recvArrays : List Nat → List UInt64 → Except Stop (List Nat)
  | [], _ => .ok []
  | _ :: _, [] => .error (.undefined "index past the end of transferSizeList")
  | elemSize :: elemSizes, size :: transferSizeList => do
    if size.toNat % elemSize ≠ 0 then
      throw (.undefined "memcpy past the end of a vector")
    return size.toNat / elemSize :: (← recvArrays elemSizes transferSizeList)

/-- The normals are read three to a point. -/
def readMesh (bufPoints bufNormals : Nat) : Except Stop Unit :=
  if bufNormals < bufPoints / 3 * 3 then .error (.undefined "index past the end of bufNormals")
  else .ok ()

/-- The mesh is built and printed, and the server keeps nothing of it. -/
def recvMesh (out : Outside) (elemSizes : List Nat) (transferSizeList : List UInt64) :
    Handler Int Unit := do
  let _ ← raise (out.exposed (transferSizeList.foldl (· + ·) 0))
  match ← recvArrays elemSizes transferSizeList with
  | bufPoints :: bufNormals :: _ => readMesh bufPoints bufNormals
  | _ => return ()
  respond 0

def sizeofDouble : Nat := 8
def sizeofFloat : Nat := 4
def sizeofInt : Nat := 4
def sizeofLong : Nat := 8

def putvtkexp (out : Outside) (transferSizeList : List UInt64) : Handler Int Unit :=
  recvMesh out [sizeofDouble, sizeofDouble, sizeofInt] transferSizeList

def putvtkexpzero (out : Outside) (transferSizeList : List UInt64) : Handler Int Unit :=
  recvMesh out [sizeofFloat, sizeofFloat, sizeofLong, sizeofLong] transferSizeList

end Gorilla
