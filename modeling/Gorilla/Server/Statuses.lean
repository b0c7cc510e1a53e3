import Gorilla.Server.Answers
import Gorilla.Server.Registration

/-!
# Reading and moving a status

The runs of the status operations on a map whose mutex is free. A data type that was
never registered is found out inside the locked region.
-/

namespace Gorilla

open HandLock

namespace MetaDataManager

variable {m : MetaDataManager} {step : Nat} {varName dataType rawDataID : String}
  {newstatus : MetaStatus}

/-- The map with the block of a step and variable replaced, its mutex free. -/
theorem unlock_putBlockOf (free : m.m_metaDataMapMutex = false) (b : MetaDataBlock) :
    mapMutex.put false ((mapMutex.put true m).putBlockOf step varName b) =
      m.putBlockOf step varName b := by
  simp only [mapMutex_put, putBlockOf, ← free]

theorem getMetaDataStatus_busy (h : m.m_metaDataMapMutex = true) :
    getMetaDataStatus step varName dataType rawDataID m = .error mapBusy m :=
  bind_error (stepCount_busy h step)

theorem updateMetaDataStatus_busy (h : m.m_metaDataMapMutex = true) :
    updateMetaDataStatus step varName dataType rawDataID newstatus m = .error mapBusy m :=
  bind_error (stepCount_busy h step)

theorem lookup_step_of_block {b : MetaDataBlock} (h : m.blockOf step varName = some b) :
    (m.m_metaDataMap.lookup step).isSome = true := by
  cases hs : m.m_metaDataMap.lookup step with
  | none => simp [blockOf, hs] at h
  | some vars => rfl

theorem getMetaDataStatus_absent (free : m.m_metaDataMapMutex = false)
    (h : m.blockOf step varName = none) (dataType rawDataID : String) :
    ∃ what, getMetaDataStatus step varName dataType rawDataID m =
      .error (.runtime_error what) m := by
  unfold getMetaDataStatus
  rw [bind_ok (stepCount_run free step)]
  cases hs : (m.m_metaDataMap.lookup step).isSome with
  | false => exact ⟨_, rfl⟩
  | true =>
    refine ⟨"the metadata for varaible does not exist for getMetaDataStatus", ?_⟩
    refine (bind_ok (varCount_run free step varName)).trans ?_
    rw [h]
    rfl

theorem updateMetaDataStatus_absent (free : m.m_metaDataMapMutex = false)
    (h : m.blockOf step varName = none) (dataType rawDataID : String) (newstatus : MetaStatus) :
    ∃ what, updateMetaDataStatus step varName dataType rawDataID newstatus m =
      .error (.runtime_error what) m := by
  unfold updateMetaDataStatus
  rw [bind_ok (stepCount_run free step)]
  cases hs : (m.m_metaDataMap.lookup step).isSome with
  | false => exact ⟨_, rfl⟩
  | true =>
    refine ⟨"the metadata for varaible does not exist for updateMetaDataStatus", ?_⟩
    refine (bind_ok (varCount_run free step varName)).trans ?_
    rw [h]
    rfl

/-- The status is read in a region that an exception leaves with the mutex held. -/
theorem getMetaDataStatus_run (free : m.m_metaDataMapMutex = false) {b : MetaDataBlock}
    (h : m.blockOf step varName = some b) (dataType rawDataID : String) :
    getMetaDataStatus step varName dataType rawDataID m =
      match b.getMetaBlockStatus dataType rawDataID with
      | .ok status => .ok status m
      | .error e => .error e (mapMutex.put true m) := by
  unfold getMetaDataStatus
  rw [bind_ok (stepCount_run free step), lookup_step_of_block h]
  refine (bind_ok (varCount_run free step varName)).trans ?_
  rw [h]
  have body : (do
      let b := ((← get).blockOf step varName).getD ∅
      b.getMetaBlockStatus dataType rawDataID : EStateM Stop MetaDataManager MetaStatus)
        (mapMutex.put true m) =
      runIn (b.getMetaBlockStatus dataType rawDataID) (mapMutex.put true m) := by
    show runIn ((((mapMutex.put true m).blockOf step varName).getD ∅).getMetaBlockStatus _ _) _ = _
    rw [show (mapMutex.put true m).blockOf step varName = m.blockOf step varName from rfl, h]
    rfl
  cases hs : b.getMetaBlockStatus dataType rawDataID with
  | ok status =>
    rw [hs] at body
    refine (region_ok free body).trans ?_
    rw [Mutex.put_false_put free]
  | error e =>
    rw [hs] at body
    exact region_error free body

theorem updateMetaDataStatus_run (free : m.m_metaDataMapMutex = false) {b : MetaDataBlock}
    (h : m.blockOf step varName = some b) (dataType rawDataID : String)
    (newstatus : MetaStatus) :
    updateMetaDataStatus step varName dataType rawDataID newstatus m =
      match b.updateMetaBlockStatus dataType rawDataID newstatus with
      | .ok b' => .ok () (m.putBlockOf step varName b')
      | .error e => .error e (mapMutex.put true m) := by
  unfold updateMetaDataStatus
  rw [bind_ok (stepCount_run free step), lookup_step_of_block h]
  refine (bind_ok (varCount_run free step varName)).trans ?_
  rw [h]
  have hblock : (mapMutex.put true m).blockOf step varName = some b := h
  have body : (do
      let b := ((← get).blockOf step varName).getD ∅
      let b' ← b.updateMetaBlockStatus dataType rawDataID newstatus
      modify fun m => m.putBlockOf step varName b' : EStateM Stop MetaDataManager Unit)
        (mapMutex.put true m) =
      match b.updateMetaBlockStatus dataType rawDataID newstatus with
      | .ok b' => .ok () ((mapMutex.put true m).putBlockOf step varName b')
      | .error e => .error e (mapMutex.put true m) := by
    rw [bind_ok (get_run _), hblock]
    show ((liftM (b.updateMetaBlockStatus dataType rawDataID newstatus) >>= fun b' =>
      modify fun m => m.putBlockOf step varName b') : EStateM Stop MetaDataManager Unit) _ = _
    cases hb : b.updateMetaBlockStatus dataType rawDataID newstatus with
    | ok b' => exact bind_ok (lift_ok rfl)
    | error e => exact bind_error (lift_error rfl)
  cases hb : b.updateMetaBlockStatus dataType rawDataID newstatus with
  | ok b' =>
    rw [hb] at body
    refine (region_ok free body).trans ?_
    rw [unlock_putBlockOf free]
  | error e =>
    rw [hb] at body
    exact region_error free body

end MetaDataManager

end Gorilla
