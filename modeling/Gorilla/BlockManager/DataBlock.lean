import Gorilla.CommonData.Metadata
import Gorilla.Utils.MatrixTool

/-!
# Data blocks

One block is its summary and a storage: raw memory, a file, a VTK object or a set of
named arrays. The calls a storage does not support throw.
-/

namespace Gorilla

/-- The four implementations of `DataBlockInterface`. A VTK object is the bytes it was
unmarshalled from; a null pointer is `none`. -/
inductive Storage
  | RawMemObj (m_rawMemPtr : Option Buffer)
  | FileObj
  | VTKMemObj (m_vtkobject : Option Buffer)
  | VTKMemExplicitObj (m_arrayMap : List (ArraySummary × Buffer))
  deriving DecidableEq, Repr

structure DataBlock where
  m_blockid : String
  m_blockSummary : BlockSummary := {}
  storage : Storage
  deriving DecidableEq, Repr

def FILEOBJ_PREXIX : String := "./filedataobj"

/-- The files below `FILEOBJ_PREXIX`, by block id, with the ids whose files the server can make
and the ids whose files it can remove. A directory is a file without arrays. -/
structure Files where
  entries : AList fun _ : String => BlockSummary × Buffer := ∅
  creatable : String → Bool := fun _ => true
  removable : String → Bool := fun _ => true

namespace Files

variable {id other : String} {file : BlockSummary × Buffer} {files : Files}

def lookup (files : Files) (id : String) : Option (BlockSummary × Buffer) :=
  files.entries.lookup id

def insert (files : Files) (id : String) (file : BlockSummary × Buffer) : Files :=
  { files with entries := files.entries.insert id file }

def erase (files : Files) (id : String) : Files :=
  { files with entries := files.entries.erase id }

@[simp] theorem lookup_insert : (files.insert id file).lookup id = some file :=
  AList.lookup_insert _

theorem lookup_insert_ne (ne : other ≠ id) :
    (files.insert id file).lookup other = files.lookup other :=
  AList.lookup_insert_ne ne

@[simp] theorem lookup_erase : (files.erase id).lookup id = none :=
  AList.lookup_erase _ _

theorem erase_absent (h : files.lookup id = none) : files.erase id = files := by
  have same : files.entries.erase id = files.entries :=
    AList.ext (List.kerase_of_notMem_keys (AList.lookup_eq_none.mp h))
  rw [erase, same]

theorem lookup_erase_ne (ne : other ≠ id) : (files.erase id).lookup other = files.lookup other :=
  AList.lookup_erase_ne ne

end Files

/-- What the `void*` given to a put points to: bytes, or a smart pointer to a VTK object. -/
inductive DataPointer
  | bytes (contents : Buffer)
  | smartPointer (vtkobject : Buffer)
  deriving DecidableEq, Repr

/-- The bytes a copy out of the pointer may read. -/
def DataPointer.readable : DataPointer → Buffer
  | .bytes contents => contents
  | .smartPointer _ => []

namespace DataBlock

/-- `int memSize = getArraySize(..)`: the size keeps its low 32 bits, as a signed number. -/
def truncInt (n : UInt64) : Int :=
  let low : Int := n.toNat % 2 ^ 32
  if low ≤ INT_MAX then low else low - 2 ^ 32

/-- `RawMemObj::putData`: `operator new` of a negative size throws. -/
def rawPutData (b : DataBlock) (dataSource : DataPointer) : Option Buffer → Except Stop DataBlock
  | some _ => do
    let _ ← b.m_blockSummary.getArraySize b.m_blockSummary.m_blockid
    throw (.runtime_error "failed to putData the memroy for RawMemObj, there is existing data")
  | none => do
    let memSize := truncInt (← b.m_blockSummary.getArraySize b.m_blockSummary.m_blockid)
    if memSize < 0 then
      throw (.runtime_error "std::bad_alloc")
    let m_rawMemPtr ←
      (Buffer.malloc (size_t memSize)).memcpy 0 dataSource.readable 0 memSize.toNat
    return { b with storage := .RawMemObj (some m_rawMemPtr) }

def filePutData (files : Files) (b : DataBlock) (dataSource : DataPointer) :
    Except Stop (DataBlock × Files) := do
  let dataSize ← b.m_blockSummary.getArraySize b.m_blockSummary.m_blockid
  if (files.lookup b.m_blockSummary.m_blockid).isSome then
    throw (.runtime_error "file exist")
  if ¬ files.creatable b.m_blockSummary.m_blockid then
    throw (.runtime_error "not good to write into the file")
  let contents ← (Buffer.malloc dataSize).memcpy 0 dataSource.readable 0 dataSize.toNat
  return (b, files.insert b.m_blockSummary.m_blockid (b.m_blockSummary, contents))

/-- `VTKMemObj::putData` casts the pointer before it reads it. -/
def vtkPutData (b : DataBlock) : DataPointer → Except Stop DataBlock
  | .smartPointer vtkobject => .ok { b with storage := .VTKMemObj (some vtkobject) }
  | .bytes _ => .error (.undefined "not a smart pointer")

def putData (files : Files) (b : DataBlock) (dataSource : DataPointer) :
    Except Stop (DataBlock × Files) :=
  match b.storage with
  | .RawMemObj m_rawMemPtr => do return (← rawPutData b dataSource m_rawMemPtr, files)
  | .FileObj => filePutData files b dataSource
  | .VTKMemObj (some _) => .error (.runtime_error "vtk objects exists")
  | .VTKMemObj none => do return (← vtkPutData b dataSource, files)
  | .VTKMemExplicitObj _ =>
    .error (.runtime_error "putData is not suitable for vtk multi array")

/-- The other storages free their memory with the object. -/
def eraseData (files : Files) (b : DataBlock) : Except Stop Files :=
  match b.storage with
  | .FileObj =>
    if b.m_blockid = "" then
      .error (.runtime_error "the block id is empty when eraseData data")
    else if (files.lookup b.m_blockid).isNone then
      .ok files
    else if files.removable b.m_blockid then
      .ok (files.erase b.m_blockid)
    else
      .error (.runtime_error ("failed to remove file " ++ FILEOBJ_PREXIX ++ "/" ++ b.m_blockid))
  | _ => .ok files

/-- The summary and the bytes of a whole block. -/
def getData (files : Files) (b : DataBlock) : Except Stop (BlockSummary × Buffer) :=
  match b.storage with
  | .RawMemObj none =>
    .error (.runtime_error "failed to getData for RawMemObj, memptr is null")
  | .RawMemObj (some m_rawMemPtr) => .ok (b.m_blockSummary, m_rawMemPtr)
  | .FileObj =>
    match files.lookup b.m_blockid with
    | none => .error (.runtime_error "failed to open the file, file not exist")
    | some file => do
      let blockDataSize ← file.1.getArraySize file.1.m_blockid
      if blockDataSize.toNat ≠ file.2.length then
        throw (.runtime_error
          "size in block and summary size not match with actual file size")
      return file
  | .VTKMemObj none => .error (.runtime_error
      "the vtk obj is null for VTKMemObj::getData, failed to getData for RawMemObj")
  | .VTKMemObj (some m_vtkobject) => .ok (b.m_blockSummary, m_vtkobject)
  | .VTKMemExplicitObj _ =>
    .error (.runtime_error "BlockSummary is not suitable for vtk multi array")

/-- The bounds of the used axes agree with the stored box. -/
def ifAllMatch (dims : Nat) (bs : BlockSummary) (subregionlb subregionub : Array3 Int) : Bool :=
  subregionlb.toList.take dims == bs.m_indexlb.toList.take dims &&
    subregionub.toList.take dims == bs.m_indexub.toList.take dims

def nonoffset (a offset : Array3 Int) : Except Stop (Array3 UInt64) := do
  return ⟨size_t (← int (a.x - offset.x)), size_t (← int (a.y - offset.y)),
    size_t (← int (a.z - offset.z))⟩

/-- The part of a matrix in memory below the box of `bs`. -/
def subregionOf (bs : BlockSummary) (subregionlb subregionub : Array3 Int) (data : Buffer) :
    Except Stop (BlockSummary × Buffer) := do
  let elemSize ← bs.getArrayElemSize bs.m_blockid
  let offset := bs.m_indexlb
  let subregionLbNonoffset ← nonoffset subregionlb offset
  let subregionUbNonoffset ← nonoffset subregionub offset
  let globalUbNonoffset ← nonoffset bs.m_indexub offset
  let currentElemNum := globalUbNonoffset.toList.foldl
    (fun n ub => if ub ≠ 0 then n * ub else n) 1
  let elemNum ← bs.getArrayElemNum bs.m_blockid
  if elemNum < currentElemNum then
    throw (.runtime_error ("failed to getDataSubregion, current elem number is larger " ++
      "than the value in Blocksummary"))
  let result ← MATRIXTOOL.getSubMatrix elemSize subregionLbNonoffset subregionUbNonoffset
    globalUbNonoffset data
  return ({ bs with m_indexlb := subregionlb, m_indexub := subregionub }, result)

def getDataSubregion (files : Files) (b : DataBlock) (dims : Nat)
    (subregionlb subregionub : Array3 Int) : Except Stop (BlockSummary × Option Buffer) :=
  match b.storage with
  | .RawMemObj m_rawMemPtr =>
    if dims ≠ b.m_blockSummary.m_dims then
      .error (.runtime_error "the dims is not equal to the value in blockSummary")
    else if DEFAULT_MAX_DIM < dims then
      .error (.undefined "index past the end of std::array")
    else if ifAllMatch dims b.m_blockSummary subregionlb subregionub then
      .ok (b.m_blockSummary, m_rawMemPtr)
    else do
      let r ← subregionOf b.m_blockSummary subregionlb subregionub (m_rawMemPtr.getD [])
      return (r.1, some r.2)
  | .FileObj =>
    match files.lookup b.m_blockid with
    | none => .error (.runtime_error "failed to open the file, file not exist")
    | some file =>
      if file.1.m_blockid ≠ b.m_blockid then
        .error (.runtime_error
          "the block id extracted from file not equal with the actual one")
      else if dims ≠ file.1.m_dims then
        .error (.runtime_error
          "the dims is not equal to the value in blockSummary for fileobj")
      else if DEFAULT_MAX_DIM < dims then
        .error (.undefined "index past the end of std::array")
      else do
        let memSpace ← file.1.getArraySize file.1.m_blockid
        let tempData := (file.2.take memSpace.toNat) ++
          Buffer.malloc (size_t (memSpace.toNat - file.2.length : Nat))
        if ifAllMatch dims file.1 subregionlb subregionub then
          return (file.1, some tempData)
        let r ← subregionOf file.1 subregionlb subregionub tempData
        return (r.1, some r.2)
  | .VTKMemObj _ => .error (.runtime_error "getDataSubregion is not suitable for vtkdataset")
  | .VTKMemExplicitObj _ =>
    .error (.runtime_error "getDataSubregion is not suitable for vtk multi array")

def putArray (b : DataBlock) (as : ArraySummary) (dataSource : Buffer) :
    Except Stop DataBlock :=
  match b.storage with
  | .RawMemObj _ => .error (.runtime_error "unsupported yet for RawMemObj")
  | .FileObj => .error (.runtime_error "unsupported yet for FileObj")
  | .VTKMemObj _ => .error (.runtime_error "unsupported yet for vtkmemobj")
  | .VTKMemExplicitObj m_arrayMap =>
    if (m_arrayMap.find? fun e => e.1 == as).isSome then
      .error (.runtime_error ("array summary exist for " ++ as.m_arrayName))
    else
      .ok { b with storage := .VTKMemExplicitObj (m_arrayMap ++ [(as, dataSource)]) }

def getArray (b : DataBlock) (as : ArraySummary) : Except Stop Buffer :=
  match b.storage with
  | .VTKMemExplicitObj m_arrayMap =>
    match m_arrayMap.find? fun e => e.1 == as with
    | some e => .ok e.2
    | none => .error (.runtime_error ("array summary not exist for " ++ as.m_arrayName))
  | _ => .error (.runtime_error "unsupported yet for RawMemObj")

end DataBlock

end Gorilla
