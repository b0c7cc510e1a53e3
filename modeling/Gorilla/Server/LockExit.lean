import Gorilla.MetricManager.Recent
import Gorilla.Server.Statuses
import Gorilla.Server.TriggerManager

/-!
# The mutexes an operation leaves behind

For each operation that locks by hand, the states in which it ends with its mutex free.
-/

namespace Gorilla

open HandLock

/-- An exception leaves the call; undefined behaviour and waiting do not. -/
def Thrown : Stop → Prop
  | .runtime_error _ => True
  | _ => False

namespace MetaDataManager

variable {m : MetaDataManager} {step : Nat} {varName dataType rawDataID : String}
  {newstatus : MetaStatus}

theorem releases_busy {α : Type} {x : EStateM Stop MetaDataManager α} (h : x m = .error mapBusy m) :
    Releases Thrown mapMutex x m := releases_of_wait h id

theorem releases_runIn {α : Type} {x : EStateM Stop MetaDataManager α} {y : Except Stop α}
    (free : m.m_metaDataMapMutex = false) (h : x m = runIn y m) : Releases Thrown mapMutex x m := by
  cases y with
  | ok a => exact (releases_of_ok h).mpr free
  | error e => rw [Releases, h]; exact fun _ => free

theorem releases_updateMetaData (rde : BlockDescriptor) :
    Releases Thrown mapMutex (updateMetaData step varName rde) m := by
  cases free : m.m_metaDataMapMutex with
  | true => exact releases_busy (locked_busy free)
  | false => exact (releases_of_ok (updateMetaData_run free rde)).mpr free

theorem releases_getRawEndpoints :
    Releases Thrown mapMutex (getRawEndpoints step varName dataType) m := by
  cases free : m.m_metaDataMapMutex with
  | true => exact releases_busy (bind_error (stepCount_busy free step))
  | false => exact releases_runIn free (getRawEndpoints_eq free step varName dataType)

theorem releases_getOverlapEndpoints (querybbx : BBX) :
    Releases Thrown mapMutex (getOverlapEndpoints step varName querybbx dataType) m := by
  cases free : m.m_metaDataMapMutex with
  | true => exact releases_busy (bind_error (stepCount_busy free step))
  | false => exact releases_runIn free (getOverlapEndpoints_eq free step varName dataType querybbx)

/-- Where the variable is registered, so is the data type. -/
def KnowsType (m : MetaDataManager) (step : Nat) (varName dataType : String) : Prop :=
  m.m_metaDataMapMutex = false →
    ∀ b, m.blockOf step varName = some b → b.dataTypeExist dataType = true

theorem getMetaBlockStatus_returns {b : MetaDataBlock} (rawDataID : String) :
    (∃ status, b.getMetaBlockStatus dataType rawDataID = .ok status) ↔
      b.dataTypeExist dataType = true := by
  unfold MetaDataBlock.getMetaBlockStatus MetaDataBlock.dataTypeExist
  cases b.m_metadataBlock.lookup dataType with
  | none => simp
  | some list => cases hf : list.find? (fun bd => bd.m_rawDataID == rawDataID) <;> simp [hf]

theorem updateMetaBlockStatus_returns {b : MetaDataBlock} (rawDataID : String)
    (newstatus : MetaStatus) :
    (∃ b', b.updateMetaBlockStatus dataType rawDataID newstatus = .ok b') ↔
      b.dataTypeExist dataType = true := by
  unfold MetaDataBlock.updateMetaBlockStatus MetaDataBlock.dataTypeExist
  cases b.m_metadataBlock.lookup dataType <;> simp

theorem getMetaBlockStatus_thrown {b : MetaDataBlock} {e : Stop}
    (h : b.getMetaBlockStatus dataType rawDataID = .error e) : Thrown e := by
  unfold MetaDataBlock.getMetaBlockStatus at h
  split at h
  · cases h
    trivial
  · split at h <;> cases h

theorem updateMetaBlockStatus_thrown {b : MetaDataBlock} {e : Stop}
    (h : b.updateMetaBlockStatus dataType rawDataID newstatus = .error e) : Thrown e := by
  unfold MetaDataBlock.updateMetaBlockStatus at h
  split at h
  · cases h
    trivial
  · cases h

theorem releases_getMetaDataStatus :
    Releases Thrown mapMutex (getMetaDataStatus step varName dataType rawDataID) m ↔
      m.KnowsType step varName dataType := by
  cases free : m.m_metaDataMapMutex with
  | true =>
    refine iff_of_true (releases_busy (getMetaDataStatus_busy free)) fun hfree => ?_
    rw [free] at hfree
    cases hfree
  | false =>
    cases hb : m.blockOf step varName with
    | none =>
      obtain ⟨what, hrun⟩ := getMetaDataStatus_absent free hb dataType rawDataID
      refine iff_of_true ((releases_of_error hrun trivial).mpr free) fun _ b hb' => ?_
      rw [hb] at hb'
      cases hb'
    | some b =>
      have hrun := getMetaDataStatus_run free hb dataType rawDataID
      have knows : m.KnowsType step varName dataType ↔ b.dataTypeExist dataType = true := by
        simp [KnowsType, free, hb]
      rw [knows, ← getMetaBlockStatus_returns rawDataID]
      cases hs : b.getMetaBlockStatus dataType rawDataID with
      | ok status =>
        rw [hs] at hrun
        exact iff_of_true ((releases_of_ok hrun).mpr free) ⟨status, rfl⟩
      | error e =>
        rw [hs] at hrun
        rw [releases_of_error hrun (getMetaBlockStatus_thrown hs)]
        simp

theorem releases_updateMetaDataStatus :
    Releases Thrown mapMutex (updateMetaDataStatus step varName dataType rawDataID newstatus) m ↔
      m.KnowsType step varName dataType := by
  cases free : m.m_metaDataMapMutex with
  | true =>
    refine iff_of_true (releases_busy (updateMetaDataStatus_busy free)) fun hfree => ?_
    rw [free] at hfree
    cases hfree
  | false =>
    cases hb : m.blockOf step varName with
    | none =>
      obtain ⟨what, hrun⟩ := updateMetaDataStatus_absent free hb dataType rawDataID newstatus
      refine iff_of_true ((releases_of_error hrun trivial).mpr free) fun _ b hb' => ?_
      rw [hb] at hb'
      cases hb'
    | some b =>
      have hrun := updateMetaDataStatus_run free hb dataType rawDataID newstatus
      have knows : m.KnowsType step varName dataType ↔ b.dataTypeExist dataType = true := by
        simp [KnowsType, free, hb]
      rw [knows, ← updateMetaBlockStatus_returns rawDataID newstatus]
      cases hs : b.updateMetaBlockStatus dataType rawDataID newstatus with
      | ok b' =>
        rw [hs] at hrun
        exact iff_of_true ((releases_of_ok hrun).mpr free) ⟨b', rfl⟩
      | error e =>
        rw [hs] at hrun
        rw [releases_of_error hrun (updateMetaBlockStatus_thrown hs)]
        simp

/-- A status that is moved keeps the mutex free and the data type known. -/
theorem updateMetaDataStatus_keeps {m' : MetaDataManager} {u : Unit}
    (free : m.m_metaDataMapMutex = false)
    (h : updateMetaDataStatus step varName dataType rawDataID newstatus m = .ok u m') :
    m'.m_metaDataMapMutex = false ∧ ∃ b', m'.blockOf step varName = some b' ∧
      b'.dataTypeExist dataType = true := by
  cases hb : m.blockOf step varName with
  | none =>
    obtain ⟨what, hrun⟩ := updateMetaDataStatus_absent free hb dataType rawDataID newstatus
    rw [hrun] at h
    cases h
  | some b =>
    rw [updateMetaDataStatus_run free hb dataType rawDataID newstatus] at h
    cases hs : b.updateMetaBlockStatus dataType rawDataID newstatus with
    | error e =>
      rw [hs] at h
      cases h
    | ok b' =>
      rw [hs] at h
      cases h
      refine ⟨free, b', ?_, ?_⟩
      · rw [blockOf_putBlockOf, if_pos ⟨rfl, rfl⟩]
      · unfold MetaDataBlock.updateMetaBlockStatus at hs
        cases hl : b.m_metadataBlock.lookup dataType with
        | none =>
          rw [hl] at hs
          cases hs
        | some list =>
          rw [hl] at hs
          cases hs
          rw [MetaDataBlock.dataTypeExist, AList.lookup_insert]
          rfl

end MetaDataManager

namespace DynamicTriggerManager

open MetaDataManager

variable {m : MetaDataManager} {step : Nat} {varName : String}

/-- Once its first status is written, a trigger ends with the map's mutex free. -/
theorem releases_afterFirst (dtm : DynamicTriggerManager) (triggerName : String)
    {rde : BlockDescriptor} {m' : MetaDataManager} {u : Unit}
    (free : m.m_metaDataMapMutex = false)
    (h : updateMetaDataStatus step varName DATATYPE_CARGRID rde.m_rawDataID .INPROCESS m =
      .ok u m') :
    Releases Thrown mapMutex (do
      dtm.initTrigger triggerName step varName rde
      let status ← getMetaDataStatus step varName DATATYPE_CARGRID rde.m_rawDataID
      if status = .INPROCESS then
        updateMetaDataStatus step varName DATATYPE_CARGRID rde.m_rawDataID .AFTERPROCESS
      else if status ≠ .UNDELETABLE then
        throw (.runtime_error "invalid status for getMetaDataStatus")) m' := by
  obtain ⟨free', b', hb', ht⟩ := updateMetaDataStatus_keeps free h
  have knows : m'.KnowsType step varName DATATYPE_CARGRID := by
    intro _ b hb
    rw [hb'] at hb
    cases hb
    exact ht
  obtain ⟨_, htrig⟩ | ⟨e, htrig⟩ := ok_or_error (dtm.initTrigger triggerName step varName rde)
  · refine releases_bind ((releases_of_ok (lift_ok htrig)).mpr free') fun _ m₁ hm₁ => ?_
    obtain rfl := (lift_ok htrig).symm.trans hm₁ |> EStateM.Result.ok.inj |>.2
    refine releases_bind (releases_getMetaDataStatus.mpr knows) fun status m₂ hm₂ => ?_
    rw [getMetaDataStatus_run free' hb' DATATYPE_CARGRID rde.m_rawDataID] at hm₂
    cases hs : b'.getMetaBlockStatus DATATYPE_CARGRID rde.m_rawDataID with
    | error e =>
      rw [hs] at hm₂
      cases hm₂
    | ok status' =>
      rw [hs] at hm₂
      cases hm₂
      split
      · exact releases_updateMetaDataStatus.mpr knows
      · split
        · exact (releases_of_error rfl trivial).mpr free'
        · exact (releases_of_ok rfl).mpr free'
  · have hrun := bind_error (f := fun _ => do
      let status ← getMetaDataStatus step varName DATATYPE_CARGRID rde.m_rawDataID
      if status = .INPROCESS then
        updateMetaDataStatus step varName DATATYPE_CARGRID rde.m_rawDataID .AFTERPROCESS
      else if status ≠ .UNDELETABLE then
        throw (.runtime_error "invalid status for getMetaDataStatus"))
      (lift_error (s := m') htrig)
    rw [Releases, hrun]
    exact fun _ => free'

theorem releases_initstart (dtm : DynamicTriggerManager) (triggerName : String)
    {rde : BlockDescriptor} :
    Releases Thrown mapMutex (dtm.initstart triggerName step varName rde) m ↔
      m.KnowsType step varName DATATYPE_CARGRID := by
  have first : Releases Thrown mapMutex (updateMetaDataStatus step varName DATATYPE_CARGRID
      rde.m_rawDataID .INPROCESS) m ↔ m.KnowsType step varName DATATYPE_CARGRID :=
    releases_updateMetaDataStatus
  rw [← first]
  cases h : updateMetaDataStatus step varName DATATYPE_CARGRID rde.m_rawDataID .INPROCESS m with
  | error e m' =>
    unfold initstart
    rw [Releases, Releases, h, bind_error h]
  | ok u m' =>
    cases free : m.m_metaDataMapMutex with
    | true =>
      rw [updateMetaDataStatus_busy free] at h
      cases h
    | false =>
      refine iff_of_true ?_ ((releases_of_ok h).mpr (updateMetaDataStatus_keeps free h).1)
      have hrest := releases_afterFirst dtm triggerName free h
      unfold initstart
      rw [Releases, bind_ok h]
      exact hrest

end DynamicTriggerManager

namespace CircularDoubleArray

variable {m : CircularDoubleArray}

theorem releases_wait {α : Type} {x : EStateM Stop CircularDoubleArray α}
    (h : x m = .error indexBusy m) : Releases Thrown indexMutex x m := releases_of_wait h id

theorem releases_addElement (element : Rat) :
    Releases Thrown indexMutex (addElement element) m := by
  cases free : m.m_indexMutex with
  | true => exact releases_wait (bind_error (lock_busy free))
  | false => exact (releases_of_ok (addElement_run free)).mpr (free_added.trans free)

theorem releases_bufferLen : Releases Thrown indexMutex bufferLen m := by
  cases free : m.m_indexMutex with
  | true => exact releases_wait (bufferLen_busy free)
  | false =>
    by_cases exceeds : m.Overflows
    · exact releases_of_wait (bufferLen_overflow free exceeds) id
    · exact (releases_of_ok (bufferLen_run free exceeds)).mpr free

/-- Among the values asked for there is a slot that holds none. -/
def Gap (m : CircularDoubleArray) (number : Nat) : Prop :=
  0 < number ∧ ¬ m.Overflows ∧ number ≤ m.length ∧
    DBL_MAX ∈ m.valuesFrom (m.startPosition number) number

theorem releases_getLastN {number : Nat} (free : m.m_indexMutex = false) :
    Releases Thrown indexMutex (getLastN number) m ↔ ¬m.Gap number := by
  rcases Nat.eq_zero_or_pos number with rfl | hpos
  · refine iff_of_true ((releases_of_error getLastN_zero trivial).mpr free) ?_
    rintro ⟨hpos, _⟩
    exact Nat.lt_irrefl 0 hpos
  by_cases exceeds : m.Overflows
  · exact iff_of_true (releases_of_wait (getLastN_overflow free exceeds hpos) id)
      fun gap => gap.2.1 exceeds
  by_cases hlen : number ≤ m.length
  · have hrun := getLastN_run free exceeds hpos hlen
    by_cases hgap : DBL_MAX ∈ m.valuesFrom (m.startPosition number) number
    · rw [if_pos hgap] at hrun
      rw [releases_of_error hrun trivial]
      exact iff_of_false (by simp [indexMutex]) (not_not.mpr ⟨hpos, exceeds, hlen, hgap⟩)
    · rw [if_neg hgap] at hrun
      rw [releases_of_ok hrun]
      exact iff_of_true free fun h => hgap h.2.2.2
  · have hrun := getLastN_refused free exceeds (Nat.lt_of_not_le hlen)
    refine iff_of_true ((releases_of_error hrun trivial).mpr free) ?_
    rintro ⟨_, _, hle, _⟩
    exact hlen hle

theorem releases_removeElement (free : m.m_indexMutex = false) :
    Releases Thrown indexMutex removeElement m ↔ m.m_tail ≠ m.m_head := by
  rw [Releases, removeElement, bind_ok (lock_free free), bind_ok (get_run _)]
  by_cases empty : m.m_tail = m.m_head
  · rw [if_pos (show (indexMutex.put true m).m_tail = (indexMutex.put true m).m_head from empty)]
    refine iff_of_false (fun h => ?_) (not_not.mpr empty)
    have held : true = false := h trivial
    cases held
  · rw [if_neg (show ¬(indexMutex.put true m).m_tail = (indexMutex.put true m).m_head from empty)]
    refine iff_of_true ?_ empty
    by_cases hslot : (indexMutex.put true m).slot (indexMutex.put true m).m_tail = DBL_MAX
    · rw [if_pos hslot]
      exact fun _ => rfl
    · rw [if_neg hslot]
      rfl

end CircularDoubleArray

namespace FunctionManagerRaw

theorem releases_registerFunction {m : FunctionManagerRaw} (free : m.m_functionMapMutex = false)
    (functionName : String) (fp : rawdatafunctionPointer) :
    Releases Thrown functionMapMutex (registerFunction functionName fp) m ↔
      m.m_functionMap.lookup functionName = none := by
  rw [Releases, registerFunction, bind_ok (lock_free free), bind_ok (get_run _),
    show (functionMapMutex.put true m).m_functionMap = m.m_functionMap from rfl]
  cases m.m_functionMap.lookup functionName with
  | none => exact iff_of_true rfl rfl
  | some old =>
    refine iff_of_false (fun h => ?_) (Option.some_ne_none old)
    have held : true = false := h
    cases held

end FunctionManagerRaw

/-- The calls that lock the metadata map, the start of a trigger among them. -/
inductive MetaDataCall
  | updateMetaData (step : Nat) (varName : String) (rde : BlockDescriptor)
  | updateMetaDataStatus (step : Nat) (varName dataType rawDataID : String)
      (newstatus : MetaStatus)
  | getMetaDataStatus (step : Nat) (varName dataType rawDataID : String)
  | getRawEndpoints (step : Nat) (varName dataType : String)
  | getOverlapEndpoints (step : Nat) (varName : String) (querybbx : BBX) (dataType : String)
  | initstart (dtm : DynamicTriggerManager) (triggerName : String) (step : Nat)
      (varName : String) (rde : BlockDescriptor)

namespace MetaDataCall

open MetaDataManager

def LeavesFree (m : MetaDataManager) : MetaDataCall → Prop
  | updateMetaData step varName rde =>
    HandLock.LeavesFree Thrown mapMutex (MetaDataManager.updateMetaData step varName rde) m
  | updateMetaDataStatus step varName dataType rawDataID newstatus =>
    HandLock.LeavesFree Thrown mapMutex
      (MetaDataManager.updateMetaDataStatus step varName dataType rawDataID newstatus) m
  | getMetaDataStatus step varName dataType rawDataID =>
    HandLock.LeavesFree Thrown mapMutex
      (MetaDataManager.getMetaDataStatus step varName dataType rawDataID) m
  | getRawEndpoints step varName dataType =>
    HandLock.LeavesFree Thrown mapMutex
      (MetaDataManager.getRawEndpoints step varName dataType) m
  | getOverlapEndpoints step varName querybbx dataType =>
    HandLock.LeavesFree Thrown mapMutex
      (MetaDataManager.getOverlapEndpoints step varName querybbx dataType) m
  | initstart dtm triggerName step varName rde =>
    HandLock.LeavesFree Thrown mapMutex (dtm.initstart triggerName step varName rde) m

/-- The status calls need the data type registered once the variable is. -/
def Safe (m : MetaDataManager) : MetaDataCall → Prop
  | updateMetaDataStatus step varName dataType _ _ => m.KnowsType step varName dataType
  | getMetaDataStatus step varName dataType _ => m.KnowsType step varName dataType
  | initstart _ _ step varName _ => m.KnowsType step varName DATATYPE_CARGRID
  | _ => True

theorem leavesFree_iff_safe (m : MetaDataManager) (call : MetaDataCall) :
    call.LeavesFree m ↔ call.Safe m := by
  have vacuous : ∀ {P : Prop} {step : Nat} {varName dataType : String},
      (P ↔ m.KnowsType step varName dataType) →
        ((mapMutex.held m = false → P) ↔ m.KnowsType step varName dataType) := by
    intro P step varName dataType h
    rw [h]
    exact ⟨fun hp free => hp free free, fun hp _ => hp⟩
  cases call with
  | updateMetaData step varName rde =>
    exact iff_of_true (fun _ => releases_updateMetaData rde) trivial
  | updateMetaDataStatus step varName dataType rawDataID newstatus =>
    exact vacuous releases_updateMetaDataStatus
  | getMetaDataStatus step varName dataType rawDataID =>
    exact vacuous releases_getMetaDataStatus
  | getRawEndpoints step varName dataType =>
    exact iff_of_true (fun _ => releases_getRawEndpoints) trivial
  | getOverlapEndpoints step varName querybbx dataType =>
    exact iff_of_true (fun _ => releases_getOverlapEndpoints querybbx) trivial
  | initstart dtm triggerName step varName rde =>
    exact vacuous (DynamicTriggerManager.releases_initstart dtm triggerName)

end MetaDataCall

/-- The calls that lock the position of a circular array. -/
inductive ArrayCall
  | addElement (element : Rat)
  | getLastN (number : Nat)
  | removeElement
  | bufferLen

namespace ArrayCall

open CircularDoubleArray

def LeavesFree (m : CircularDoubleArray) : ArrayCall → Prop
  | addElement element =>
    HandLock.LeavesFree Thrown indexMutex (CircularDoubleArray.addElement element) m
  | getLastN number =>
    HandLock.LeavesFree Thrown indexMutex (CircularDoubleArray.getLastN number) m
  | removeElement => HandLock.LeavesFree Thrown indexMutex CircularDoubleArray.removeElement m
  | bufferLen => HandLock.LeavesFree Thrown indexMutex CircularDoubleArray.bufferLen m

/-- A read meets no empty slot, and a removal an array that is not empty. -/
def Safe (m : CircularDoubleArray) : ArrayCall → Prop
  | getLastN number => m.m_indexMutex = false → ¬m.Gap number
  | removeElement => m.m_indexMutex = false → m.m_tail ≠ m.m_head
  | _ => True

theorem leavesFree_iff_safe (m : CircularDoubleArray) (call : ArrayCall) :
    call.LeavesFree m ↔ call.Safe m := by
  cases call with
  | addElement element => exact iff_of_true (fun _ => releases_addElement element) trivial
  | getLastN number => exact forall_congr' fun free => releases_getLastN free
  | removeElement => exact forall_congr' fun free => releases_removeElement free
  | bufferLen => exact iff_of_true (fun _ => releases_bufferLen) trivial

end ArrayCall

/-- The operations that take a mutex by hand, each with the object it is called on. -/
inductive LockingCall
  | metaData (m : MetaDataManager) (call : MetaDataCall)
  | array (m : CircularDoubleArray) (call : ArrayCall)
  | registerFunction (m : FunctionManagerRaw) (functionName : String) (fp : rawdatafunctionPointer)

namespace LockingCall

def LeavesFree : LockingCall → Prop
  | metaData m call => call.LeavesFree m
  | array m call => call.LeavesFree m
  | registerFunction m functionName fp =>
    HandLock.LeavesFree Thrown FunctionManagerRaw.functionMapMutex
      (FunctionManagerRaw.registerFunction functionName fp) m

/-- A function is registered under a name that is new. -/
def Safe : LockingCall → Prop
  | metaData m call => call.Safe m
  | array m call => call.Safe m
  | registerFunction m functionName _ =>
    m.m_functionMapMutex = false → m.m_functionMap.lookup functionName = none

end LockingCall

/-- Each operation that locks by hand leaves its mutex free exactly where it is safe. -/
theorem leavesFree_iff (call : LockingCall) : call.LeavesFree ↔ call.Safe := by
  cases call with
  | metaData m call => exact MetaDataCall.leavesFree_iff_safe m call
  | array m call => exact ArrayCall.leavesFree_iff_safe m call
  | registerFunction m functionName fp =>
    exact forall_congr' fun free =>
      FunctionManagerRaw.releases_registerFunction free functionName fp

/-- The status of a variable that holds VTK blocks only is asked for as `CARGRID`: the call
throws and the map stays locked. -/
theorem status_of_vtk_keeps_lock :
    ¬(LockingCall.metaData
      (exit (MetaDataManager.updateMetaData 0 "density" { m_dataType := DATATYPE_VTKPTR } {}))
      (.getMetaDataStatus 0 "density" DATATYPE_CARGRID "block")).LeavesFree := by
  intro h
  have held : true = false := h rfl trivial
  cases held

end Gorilla
