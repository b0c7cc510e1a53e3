import Gorilla.BlockManager.DataBlock

/-!
# The block manager

Blocks by id. A handle that is asked for and does not exist yet is made, empty.
-/

namespace Gorilla

structure BlockManager where
  DataBlockMap : AList fun _ : String => DataBlock := ∅
  files : Files := {}

namespace BlockManager

/-- The empty storage a backend number stands for. -/
def newStorage (backend : Int) : Option Storage :=
  if backend = BACKEND.MEM then some (.RawMemObj none)
  else if backend = BACKEND.FILE then some .FileObj
  else if backend = BACKEND.MEMVTKPTR then some (.VTKMemObj none)
  else if backend = BACKEND.MEMVTKEXPLICIT then some (.VTKMemExplicitObj [])
  else none

/-- The object of an id that is not in the map yet. -/
def newHandle (blockID : String) (backend : Int) : Except Stop DataBlock :=
  match newStorage backend with
  | none => .error (.runtime_error "unsupported block type to get block handle")
  | some storage =>
    if STRLENLONG ≤ blockID.utf8ByteSize then
      .error (.runtime_error "long blockid")
    else
      .ok { m_blockid := blockID, storage := storage }

def getBlockHandle (m : BlockManager) (blockID : String) (backend : Int) :
    Except Stop (DataBlock × BlockManager) :=
  if blockID = "" then
    .error (.runtime_error "blockID should not but null in blockSummary")
  else
    match m.DataBlockMap.lookup blockID with
    | some handle => .ok (handle, m)
    | none =>
      match newHandle blockID backend with
      | .error e => .error e
      | .ok handle => .ok (handle, { m with DataBlockMap := m.DataBlockMap.insert blockID handle })

/-- Write the object a handle points to. -/
def store (m : BlockManager) (blockID : String) (handle : DataBlock) : BlockManager :=
  { m with DataBlockMap := m.DataBlockMap.insert blockID handle }

/-- A file object that is read takes over the summary in its file. -/
def reread (m : BlockManager) (blockID : String) (handle : DataBlock) : BlockManager :=
  match handle.storage with
  | .FileObj =>
    match m.files.lookup handle.m_blockid with
    | some file => m.store blockID { handle with m_blockSummary := file.1 }
    | none => m
  | _ => m

/-- The summary is assigned before the data is put, and stays when the put throws. -/
def putBlock (blockSummary : BlockSummary) (backend : Int) (dataPointer : DataPointer) :
    EStateM Stop BlockManager Unit := fun m =>
  match m.getBlockHandle blockSummary.m_blockid backend with
  | .error e => .error e m
  | .ok (handle, m) =>
    let handle := { handle with m_blockSummary := blockSummary }
    let m := m.store blockSummary.m_blockid handle
    match handle.putData m.files dataPointer with
    | .error e => .error e m
    | .ok (handle, files) =>
      .ok () { m.store blockSummary.m_blockid handle with files := files }

def putArray (blockSummary : BlockSummary) (as : ArraySummary) (backend : Int)
    (dataPointer : Buffer) : EStateM Stop BlockManager Unit := fun m =>
  match m.getBlockHandle blockSummary.m_blockid backend with
  | .error e => .error e m
  | .ok (handle, m) =>
    let summary :=
      if handle.m_blockSummary.m_blockid = "" then blockSummary else handle.m_blockSummary
    match summary.addArraySummary as summary with
    | .error e summary =>
      .error e (m.store blockSummary.m_blockid { handle with m_blockSummary := summary })
    | .ok _ summary =>
      let handle := { handle with m_blockSummary := summary }
      match handle.putArray as dataPointer with
      | .error e => .error e (m.store blockSummary.m_blockid handle)
      | .ok handle => .ok () (m.store blockSummary.m_blockid handle)

def getArray (m : BlockManager) (blockName arrayName : String) :
    Except Stop (ArraySummary × Buffer) :=
  match m.DataBlockMap.lookup blockName with
  | none => .error (.runtime_error "the block summary not exist in DataBlockMap")
  | some handle => do
    let as ← handle.m_blockSummary.getArraySummary arrayName
    if blockName = "" then
      throw (.runtime_error "blockID should not but null in blockSummary")
    return (as, ← handle.getArray as)

/-- An id that is not there gives an empty summary. -/
def getBlockSummary (m : BlockManager) (blockID : String) : BlockSummary :=
  match m.DataBlockMap.lookup blockID with
  | none => {}
  | some handle => handle.m_blockSummary

/-- A read that may make the handle of a file block. -/
def getBlock (blockID : String) (backend : Int) :
    EStateM Stop BlockManager (BlockSummary × Option Buffer) := fun m =>
  if (backend = BACKEND.MEMVTKPTR ∨ backend = BACKEND.MEMVTKEXPLICIT ∨ backend = BACKEND.MEM) ∧
      (m.DataBlockMap.lookup blockID).isNone then
    .ok ({}, none) m
  else
    match m.getBlockHandle blockID backend with
    | .error e => .error e m
    | .ok (handle, m) =>
      match handle.getData m.files with
      | .error e => .error e (m.reread blockID handle)
      | .ok (bs, data) => .ok (bs, some data) (m.reread blockID handle)

def getBlockSubregion (blockID : String) (backend : Int) (dims : Nat)
    (subregionlb subregionub : Array3 Int) :
    EStateM Stop BlockManager (BlockSummary × Option Buffer) := fun m =>
  match m.getBlockHandle blockID backend with
  | .error e => .error e m
  | .ok (handle, m) =>
    match handle.getDataSubregion m.files dims subregionlb subregionub with
    | .error e => .error e (m.reread blockID handle)
    | .ok r => .ok r (m.reread blockID handle)

def blockSummaryExist (m : BlockManager) (blockID : String) : Bool :=
  (m.DataBlockMap.lookup blockID).isSome

def checkDataExistance (m : BlockManager) (blockID : String) (backend : Int) :
    Except Stop Bool :=
  if backend = BACKEND.FILE then
    .error (.runtime_error "not support checkDataExistance for file backend currently")
  else
    .ok (m.DataBlockMap.lookup blockID).isSome

/-- A file that cannot be removed keeps its block in the map. -/
def eraseBlock (blockID : String) : EStateM Stop BlockManager Unit := fun m =>
  match m.DataBlockMap.lookup blockID with
  | none => .ok () m
  | some handle =>
    match handle.eraseData m.files with
    | .error e => .error e m
    | .ok files => .ok () { DataBlockMap := m.DataBlockMap.erase blockID, files := files }

end BlockManager

end Gorilla
