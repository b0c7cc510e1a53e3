import Gorilla.CommonData.Metadata
import Gorilla.Lib.HandLock
import Gorilla.Utils.BBXTool

/-!
# The metadata manager

Descriptors are kept by step, variable and data type. Every access to the map is
a region between a hand-written lock and unlock.
-/

namespace Gorilla

open HandLock

/-- The result of a call that does not touch the state. -/
def runIn {σ α : Type} (x : Except Stop α) (s : σ) : EStateM.Result Stop σ α :=
  match x with
  | .ok a => .ok a s
  | .error e => .error e s

instance {σ : Type} : MonadLift (Except Stop) (EStateM Stop σ) where
  monadLift x := runIn x

theorem lift_ok {σ α : Type} {x : Except Stop α} {a : α} {s : σ} (h : x = .ok a) :
    (liftM x : EStateM Stop σ α) s = .ok a s := by
  rw [h]
  rfl

theorem lift_error {σ α : Type} {x : Except Stop α} {e : Stop} {s : σ} (h : x = .error e) :
    (liftM x : EStateM Stop σ α) s = .error e s := by
  rw [h]
  rfl

structure MetaDataBlock where
  m_metadataBlock : AList fun _ : String => List BlockDescriptor := ∅

instance : EmptyCollection MetaDataBlock := ⟨{}⟩

namespace MetaDataBlock

def dataTypeExist (b : MetaDataBlock) (dataType : String) : Bool :=
  (b.m_metadataBlock.lookup dataType).isSome

def noDataType (dataType : String) : Stop :=
  .runtime_error ("the datatype " ++ dataType ++ " for current block not exist")

def updateMetaBlockStatus (b : MetaDataBlock) (dataType rawDataID : String)
    (newstatus : MetaStatus) : Except Stop MetaDataBlock :=
  match b.m_metadataBlock.lookup dataType with
  | none => .error (noDataType dataType)
  | some list => .ok ⟨b.m_metadataBlock.insert dataType (list.map fun bd =>
      if bd.m_rawDataID = rawDataID then { bd with m_metaStatus := newstatus } else bd)⟩

def getMetaBlockStatus (b : MetaDataBlock) (dataType rawDataID : String) :
    Except Stop MetaStatus :=
  match b.m_metadataBlock.lookup dataType with
  | none => .error (noDataType dataType)
  | some list =>
    match list.find? fun bd => bd.m_rawDataID == rawDataID with
    | some bd => .ok bd.m_metaStatus
    | none => .ok .ERROR

def insertRDEP (b : MetaDataBlock) (dataType : String) (rde : BlockDescriptor) :
    MetaDataBlock :=
  ⟨b.m_metadataBlock.insert dataType ((b.m_metadataBlock.lookup dataType).getD [] ++ [rde])⟩

end MetaDataBlock

abbrev StepMetaData : Type := AList fun _ : String => MetaDataBlock

structure MetaDataManager where
  m_bufferedSteps : Nat := 10
  m_windowSize : Nat := 5
  m_deletedNum : Nat := 1
  m_windowlb : Nat := 1
  m_windowub : Nat := 1
  m_metaDataMapMutex : Bool := false
  m_metaDataMap : AList fun _ : Nat => StepMetaData := ∅

namespace MetaDataManager

def mapMutex : Mutex MetaDataManager where
  held m := m.m_metaDataMapMutex
  put b m := { m with m_metaDataMapMutex := b }
  held_put _ _ := rfl
  put_put _ _ _ := rfl
  put_held _ := rfl

@[simp] theorem mapMutex_held (m : MetaDataManager) :
    mapMutex.held m = m.m_metaDataMapMutex := rfl

@[simp] theorem mapMutex_put (b : Bool) (m : MetaDataManager) :
    mapMutex.put b m = { m with m_metaDataMapMutex := b } := rfl

def mapBusy : Stop := .blocked "m_metaDataMapMutex"

/-- `m_metaDataMapMutex.lock(); body; m_metaDataMapMutex.unlock();` -/
def locked {α : Type} (body : EStateM Stop MetaDataManager α) : EStateM Stop MetaDataManager α :=
  region mapMutex mapBusy body

theorem locked_reads {α : Type} {m : MetaDataManager} (f : MetaDataManager → α)
    (free : m.m_metaDataMapMutex = false) :
    locked (reads f) m = .ok (f { m with m_metaDataMapMutex := true }) m :=
  region_reads f free

theorem locked_busy {α : Type} {m : MetaDataManager} {x : EStateM Stop MetaDataManager α}
    (h : m.m_metaDataMapMutex = true) : locked x m = .error mapBusy m := region_busy h

/-- The block of a step and a variable that were counted before. -/
def blockOf (m : MetaDataManager) (step : Nat) (varName : String) : Option MetaDataBlock :=
  (m.m_metaDataMap.lookup step).bind fun vars => vars.lookup varName

def endpointsOf (m : MetaDataManager) (step : Nat) (varName dataType : String) :
    Option (List BlockDescriptor) :=
  (m.blockOf step varName).bind fun b => b.m_metadataBlock.lookup dataType

def putBlockOf (m : MetaDataManager) (step : Nat) (varName : String) (b : MetaDataBlock) :
    MetaDataManager :=
  { m with m_metaDataMap :=
      m.m_metaDataMap.insert step (((m.m_metaDataMap.lookup step).getD ∅).insert varName b) }

def stepCount (step : Nat) : EStateM Stop MetaDataManager Bool :=
  locked (reads fun m => (m.m_metaDataMap.lookup step).isSome)

def varCount (step : Nat) (varName : String) : EStateM Stop MetaDataManager Bool :=
  locked (reads fun m => (m.blockOf step varName).isSome)

def getMetaDataStatus (step : Nat) (varName dataType rawDataID : String) :
    EStateM Stop MetaDataManager MetaStatus := do
  if !(← stepCount step) then
    throw (.runtime_error "the metadata for step does not exist for getMetaDataStatus")
  if !(← varCount step varName) then
    throw (.runtime_error "the metadata for varaible does not exist for getMetaDataStatus")
  locked do
    let b := ((← get).blockOf step varName).getD ∅
    b.getMetaBlockStatus dataType rawDataID

def updateMetaDataStatus (step : Nat) (varName dataType rawDataID : String)
    (newstatus : MetaStatus) : EStateM Stop MetaDataManager Unit := do
  if !(← stepCount step) then
    throw (.runtime_error "the metadata for step does not exist for updateMetaDataStatus")
  if !(← varCount step varName) then
    throw (.runtime_error "the metadata for varaible does not exist for updateMetaDataStatus")
  locked do
    let b := ((← get).blockOf step varName).getD ∅
    let b' ← b.updateMetaBlockStatus dataType rawDataID newstatus
    modify fun m => m.putBlockOf step varName b'

def updateMetaData (step : Nat) (varName : String) (rde : BlockDescriptor) :
    EStateM Stop MetaDataManager Unit :=
  locked do
    let b := ((← get).blockOf step varName).getD ∅
    modify fun m => m.putBlockOf step varName (b.insertRDEP rde.m_dataType rde)

/-- The blocks the descriptors of a step name, each with its server. -/
def blocksOf (m : MetaDataManager) (step : Nat) : List (String × String) :=
  ((m.m_metaDataMap.lookup step).getD ∅).entries.flatMap fun kv =>
    kv.2.m_metadataBlock.entries.flatMap fun kvinner =>
      kvinner.2.map fun rde => (rde.m_rawDataServerAddr, rde.m_rawDataID)

/-- `m_metaDataMap.erase(step)` -/
def dropStep (m : MetaDataManager) (step : Nat) : MetaDataManager :=
  { m with m_metaDataMap := m.m_metaDataMap.erase step }

end MetaDataManager

/-- Every block of the step is erased on its own server while the map is locked, then the step
is dropped. The erases are requests, so the state has more to it than the one manager. -/
def forceEraseMetaAndRawManually {σ : Type} (m_metaDataMapMutex : Mutex σ)
    (m_metaManager : σ → MetaDataManager) (onMeta : (MetaDataManager → MetaDataManager) → σ → σ)
    (eraseRawData : String → String → EStateM Stop σ Unit) (step : Nat) : EStateM Stop σ Unit :=
  region m_metaDataMapMutex MetaDataManager.mapBusy do
    ((m_metaManager (← get)).blocksOf step).forM fun rde => eraseRawData rde.1 rde.2
    modify (onMeta fun m => m.dropStep step)

namespace MetaDataManager

/-- The manager of one server, which sees of its erases only whether they return. -/
def forceEraseMetaAndRawManually (eraseRawData : String → String → Except Stop Unit) (step : Nat) :
    EStateM Stop MetaDataManager Unit :=
  Gorilla.forceEraseMetaAndRawManually mapMutex id id
    (fun serverAddr blockID => liftM (eraseRawData serverAddr blockID)) step

def getRawEndpoints (step : Nat) (varName : String) (dataType : String := DATATYPE_CARGRID) :
    EStateM Stop MetaDataManager (List BlockDescriptor) := do
  if !(← stepCount step) then
    return []
  if !(← varCount step varName) then
    return []
  if !(← locked (reads fun m => (m.endpointsOf step varName dataType).isSome)) then
    throw (.runtime_error "data type does not exist")
  locked (reads fun m => (m.endpointsOf step varName dataType).getD [])

/-- The descriptor handed to a reader: the block's own, with the overlapped box. -/
def overlapDescriptor (dataType : String) (bd : BlockDescriptor) (overlapbbx : BBX) :
    BlockDescriptor where
  m_rawDataServerAddr := bd.m_rawDataServerAddr
  m_rawDataID := bd.m_rawDataID
  m_dataType := dataType
  m_backend := bd.m_backend
  m_dims := bd.m_dims
  m_indexlb := overlapbbx.getIndexlb
  m_indexub := overlapbbx.getIndexub

/-- Each entry is read under the lock; the boxes are compared outside it. -/
def overlapLoop (querybbx : BBX) (dataType : String) :
    List BlockDescriptor → EStateM Stop MetaDataManager (List BlockDescriptor)
  | [] => return []
  | entry :: rest => do
    let bd ← locked (reads fun _ => entry)
    let bbx ← BBX.ofIndex bd.m_dims bd.m_indexlb bd.m_indexub
    match ← getOverlapBBX bbx querybbx with
    | none => overlapLoop querybbx dataType rest
    | some overlapbbx =>
      let bd ← locked (reads fun _ => entry)
      let endpointList ← overlapLoop querybbx dataType rest
      return overlapDescriptor dataType bd overlapbbx :: endpointList

def getOverlapEndpoints (step : Nat) (varName : String) (querybbx : BBX)
    (dataType : String := DATATYPE_CARGRID) :
    EStateM Stop MetaDataManager (List BlockDescriptor) := do
  if !(← stepCount step) then
    return []
  if !(← varCount step varName) then
    return []
  if !(← locked (reads fun m => (m.endpointsOf step varName dataType).isSome)) then
    throw (.runtime_error "data type does not exist")
  let entries ← locked (reads fun m => (m.endpointsOf step varName dataType).getD [])
  overlapLoop querybbx dataType entries

/-- One pass of the queue: pop the front box, push what `existBBX` leaves of it. -/
def coverLayer (existBBX : BBX) (curStatus : Int) : Nat → List BBX → Except Stop (List BBX)
  | 0, _ => .error (.blocked "bbxqueue")
  | _ + 1, [] => .ok []
  | fuel + 1, curBBX :: queue =>
    if curBBX.m_status ≠ curStatus then
      .ok (curBBX :: queue)
    else do
      match ← getOverlapBBX curBBX existBBX with
      | none =>
        coverLayer existBBX curStatus fuel
          (queue ++ [{ curBBX with m_status := curBBX.m_status + 1 }])
      | some overlap =>
        if overlap.equal curBBX then
          coverLayer existBBX curStatus fuel queue
        else
          let bbxlist ← splitReduceBBX curBBX overlap
          coverLayer existBBX curStatus fuel
            (queue ++ bbxlist.map fun v => { v with m_status := curBBX.m_status + 1 })

/-- The passes of the queue, one for each block. A pass pops every box it was given once,
so the length of the queue is enough fuel for it. -/
def coverQueue : List BlockDescriptor → Int → List BBX → Except Stop (List BBX)
  | [], _, bbxqueue => .ok bbxqueue
  | rdep :: rest, curStatus, bbxqueue => do
    let existBBX ← BBX.ofIndex rdep.m_dims rdep.m_indexlb rdep.m_indexub
    let queue ← coverLayer existBBX curStatus (bbxqueue.length + 1) bbxqueue
    coverQueue rest (curStatus + 1) queue

def ifCovered (existlist : List BlockDescriptor) (queryBBX : BBX) : Except Stop Bool := do
  let bbxqueue ← coverQueue existlist 0 [queryBBX]
  return bbxqueue.isEmpty

end MetaDataManager

end Gorilla
