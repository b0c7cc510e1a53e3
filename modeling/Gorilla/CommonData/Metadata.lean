import Gorilla.Basic

/-!
# Summaries, descriptors and their messages

The records exchanged by clients and servers. Character arrays are strings, and
the live entries of a summary's fixed array are a list.
-/

namespace Gorilla

inductive MetaStatus
  | ERROR | BEFOREPROCESS | INPROCESS | AFTERPROCESS | UNDELETABLE
  deriving DecidableEq, Repr

namespace BACKEND

def MEM : Int := 0
def FILE : Int := 1
def MEMVTKPTR : Int := 2
def MEMVTKEXPLICIT : Int := 3

end BACKEND

def DATATYPE_CARGRID : String := "CARGRID"
def DATATYPE_VTKPTR : String := "VTKPTR"
def DATATYPE_VTKEXPLICIT : String := "VTKEXPLICIT"

def RDMAPUT : String := "RDMAPUT"
def FILEPUT : String := "FILEPUT"

def STRLENLONG : Nat := 128

def ARRAYLENINBLOCK : Nat := 10

structure ArraySummary where
  m_arrayName : String := ""
  m_elemSize : UInt64 := 0
  m_elemNum : UInt64 := 0
  deriving DecidableEq, Repr

structure BlockSummary where
  m_dataType : String := ""
  m_blockid : String := ""
  m_backend : Int := BACKEND.MEM
  m_dims : Nat := 3
  m_indexlb : Array3 Int := ⟨0, 0, 0⟩
  m_indexub : Array3 Int := ⟨0, 0, 0⟩
  m_arrayList : List ArraySummary := []
  m_extraInfo : String := ""
  deriving DecidableEq, Repr

namespace BlockSummary

def m_arrayListLen (bs : BlockSummary) : Nat := bs.m_arrayList.length

def findArray (bs : BlockSummary) (arrayName : String) : Option ArraySummary :=
  bs.m_arrayList.find? fun as => as.m_arrayName == arrayName

/-- The array lookups of raw blocks: only two data types carry sizes. -/
def arrayOf (bs : BlockSummary) (what : String) (missing arrayName : String) :
    Except Stop ArraySummary :=
  if bs.m_dataType ≠ DATATYPE_CARGRID ∧ bs.m_dataType ≠ DATATYPE_VTKPTR then
    .error (.runtime_error (what ++ bs.m_dataType))
  else
    match bs.findArray arrayName with
    | some as => .ok as
    | none => .error (.runtime_error missing)

def getArraySize (bs : BlockSummary) (arrayName : String) : Except Stop UInt64 := do
  let as ← bs.arrayOf "unsupported getsize for "
    ("failed to find array name to get array " ++ bs.m_dataType) arrayName
  return as.m_elemNum * as.m_elemSize

def getArrayElemSize (bs : BlockSummary) (arrayName : String) : Except Stop UInt64 := do
  let as ← bs.arrayOf "unsupported getArrayElemSize for "
    ("failed to find array name to get elemsize" ++ arrayName) arrayName
  return as.m_elemSize

def getArrayElemNum (bs : BlockSummary) (arrayName : String) : Except Stop UInt64 := do
  let as ← bs.arrayOf "unsupported getArrayElemNum for "
    ("addArraySummary failed to find array name to get elemnum " ++ arrayName) arrayName
  return as.m_elemNum

def getArraySummary (bs : BlockSummary) (arrayName : String) : Except Stop ArraySummary :=
  match bs.findArray arrayName with
  | some as => .ok as
  | none => .error (.runtime_error ("failed to get ArraySummary: " ++ arrayName))

/-- The entry is stored and counted before the limit is looked at. -/
def addArraySummary (bs : BlockSummary) (as : ArraySummary) : EStateM Stop BlockSummary Unit := do
  if (bs.findArray as.m_arrayName).isSome then
    throw (.runtime_error "failed to insert arraysummary, the name exist")
  if ARRAYLENINBLOCK ≤ bs.m_arrayListLen then
    throw (.undefined "write past the end of m_arrayList")
  set { bs with m_arrayList := bs.m_arrayList ++ [as] }
  if ARRAYLENINBLOCK ≤ bs.m_arrayListLen + 1 then
    throw (.runtime_error ("the maximum array is " ++ toString ARRAYLENINBLOCK))

end BlockSummary

structure BlockDescriptor where
  m_rawDataServerAddr : String := ""
  m_rawDataID : String := ""
  m_metaStatus : MetaStatus := .BEFOREPROCESS
  m_dataType : String := DATATYPE_CARGRID
  m_backend : Int := BACKEND.MEM
  m_dims : Nat := 0
  m_indexlb : Array3 Int := ⟨0, 0, 0⟩
  m_indexub : Array3 Int := ⟨0, 0, 0⟩
  deriving DecidableEq, Repr

structure InfoForPut where
  m_putMethod : String := ""
  m_metaServerList : List String := []
  deriving DecidableEq, Repr

structure MetaAddrWrapper where
  m_index : Int
  m_addr : String
  deriving DecidableEq, Repr

structure FilterProfile where
  m_profileName : String := "default"
  m_stepFilterName : String := "default"
  m_blockIDFilterName : String := "default"
  m_contentFilterName : String := "default"
  m_subscriberAddr : String := ""
  deriving DecidableEq, Repr

structure DynamicTriggerInfo where
  m_checkFunc : String := "default"
  m_checkFuncPara : List String := []
  m_comparisonFunc : String := "default"
  m_comparisonFuncPara : List String := []
  m_actionFunc : String := "default"
  m_actionFuncPara : List String := []
  m_masterAddr : String := ""
  deriving DecidableEq, Repr

def EVENT_DATA_PUT : String := "DATA_PUT"

structure EventWrapper where
  m_type : String := EVENT_DATA_PUT
  m_varName : String := "NULL"
  m_step : Nat := 0
  m_dims : Int := 0
  m_indexlb : Array3 Int := ⟨0, 0, 0⟩
  m_indexub : Array3 Int := ⟨0, 0, 0⟩
  deriving DecidableEq, Repr

end Gorilla
