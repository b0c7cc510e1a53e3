import Gorilla.Server.MetaDataManager

/-!
# Functions and triggers

The function tables hold arbitrary functions; a table entry is what the calling thread
sees of it, a result or an exception. The registered actions start other triggers and send
requests, and none of them touches the metadata map.
-/

namespace Gorilla

open HandLock

abbrev initCheckPtr : Type := Nat → String → BlockDescriptor → Except Stop String

abbrev comparisonPtr : Type := String → List String → Except Stop Bool

abbrev initActionPtr : Type := Nat → String → BlockDescriptor → List String → Except Stop Unit

structure FunctionManagerMeta where
  m_initCheckPtrMap : AList fun _ : String => initCheckPtr := ∅
  m_comparisonPtrMap : AList fun _ : String => comparisonPtr := ∅
  m_initActionPtrMap : AList fun _ : String => initActionPtr := ∅

abbrev rawdatafunctionPointer : Type :=
  BlockSummary → Option (List (Option UInt8)) → List String → Except Stop String

structure FunctionManagerRaw where
  m_functionMapMutex : Bool := false
  m_functionMap : AList fun _ : String => rawdatafunctionPointer := ∅

namespace FunctionManagerRaw

def functionMapMutex : Mutex FunctionManagerRaw where
  held m := m.m_functionMapMutex
  put b m := { m with m_functionMapMutex := b }
  held_put _ _ := rfl
  put_put _ _ _ := rfl
  put_held _ := rfl

/-- A name that is taken returns from inside the locked region. -/
def registerFunction (functionName : String) (fp : rawdatafunctionPointer) :
    EStateM Stop FunctionManagerRaw Bool := do
  lock functionMapMutex (.blocked "m_functionMapMutex")
  if ((← get).m_functionMap.lookup functionName).isSome then
    return false
  modify fun m => { m with m_functionMap := m.m_functionMap.insert functionName fp }
  unlock functionMapMutex
  return true

/-- A function that is not registered gives an empty result. -/
def execute (m : FunctionManagerRaw) (bs : BlockSummary) (inputData : Option (List (Option UInt8)))
    (fiunctionName : String) (parameters : List String) : Except Stop String :=
  match m.m_functionMap.lookup fiunctionName with
  | none => .ok ""
  | some fp => fp bs inputData parameters

end FunctionManagerRaw

structure DynamicTriggerManager where
  m_dynamicTrigger : AList fun _ : String => DynamicTriggerInfo := ∅
  eventMapQueue : AList fun _ : String => List EventWrapper := ∅
  m_watcherSetMutex : Bool := false
  m_registeredWatcherSet : List String := []
  m_funcmanagerMeta : FunctionManagerMeta := {}

namespace DynamicTriggerManager

def updateTrigger (m : DynamicTriggerManager) (triggerName : String)
    (triggerInfo : DynamicTriggerInfo) : DynamicTriggerManager :=
  { m with m_dynamicTrigger := m.m_dynamicTrigger.insert triggerName triggerInfo }

def putEvent (m : DynamicTriggerManager) (varName : String) (event : EventWrapper) :
    DynamicTriggerManager :=
  { m with eventMapQueue :=
      m.eventMapQueue.insert varName ((m.eventMapQueue.lookup varName).getD [] ++ [event]) }

/-- The front event of a queue, or an empty event when there is none. -/
def getEvent (m : DynamicTriggerManager) (varName : String) :
    EventWrapper × DynamicTriggerManager :=
  match m.eventMapQueue.lookup varName with
  | some (event :: rest) =>
    (event, { m with eventMapQueue := m.eventMapQueue.insert varName rest })
  | _ => ({}, m)

/-- The functions of a trigger run with no lock held. -/
def initTrigger (m : DynamicTriggerManager) (triggerName : String) (step : Nat)
    (varName : String) (rde : BlockDescriptor) : Except Stop Unit :=
  match m.m_dynamicTrigger.lookup triggerName with
  | none => .error (.runtime_error ("failed to get the trigger with name " ++ triggerName))
  | some dti =>
    match m.m_funcmanagerMeta.m_initCheckPtrMap.lookup dti.m_checkFunc with
    | none => .error (.runtime_error "failed to get check function")
    | some initCp =>
      match m.m_funcmanagerMeta.m_comparisonPtrMap.lookup dti.m_comparisonFunc with
      | none => .error (.runtime_error "failed to get comparison function")
      | some comp =>
        match m.m_funcmanagerMeta.m_initActionPtrMap.lookup dti.m_actionFunc with
        | none => .error (.runtime_error "failed to get action function")
        | some initAp => do
          let checkResults ← initCp step varName rde
          let indicator ← comp checkResults dti.m_comparisonFuncPara
          if indicator then
            initAp step varName rde dti.m_actionFuncPara

/-- The start of the initial trigger: the status of the block goes through `INPROCESS`. -/
def initstart (m : DynamicTriggerManager) (triggerName : String) (step : Nat) (varName : String)
    (rde : BlockDescriptor) : EStateM Stop MetaDataManager Unit := do
  MetaDataManager.updateMetaDataStatus step varName DATATYPE_CARGRID rde.m_rawDataID .INPROCESS
  m.initTrigger triggerName step varName rde
  let status ←
    MetaDataManager.getMetaDataStatus step varName DATATYPE_CARGRID rde.m_rawDataID
  if status = .INPROCESS then
    MetaDataManager.updateMetaDataStatus step varName DATATYPE_CARGRID rde.m_rawDataID
      .AFTERPROCESS
  else if status ≠ .UNDELETABLE then
    throw (.runtime_error "invalid status for getMetaDataStatus")

end DynamicTriggerManager

end Gorilla
