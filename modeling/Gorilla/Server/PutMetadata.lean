import Gorilla.Server.MetaHandlers
import Gorilla.Server.Registration

/-!
# What a put of metadata leaves

A put that finds the map free stores its descriptor and replies, whether its timer starts
or not.
-/

namespace Gorilla

open HandLock Handler

variable {s : UniServer}

/-- The timer of the waiting block is started, or its name is taken and nothing happens. -/
theorem startTimer_caught (timerName : String) (s : UniServer) (sent : List Int) :
    ∃ timers, catchException (onServer (UniServer.startTimer timerName)) (return ())
      (⟨s, sent⟩ : Call Int) = .ok () ⟨{ s with m_timer_map := timers }, sent⟩ := by
  by_cases running : timerName ∈ s.m_timer_map
  · have thrown : UniServer.startTimer timerName s =
        .error (.runtime_error ("the timer exist with name: " ++ timerName)) s := by
      simp only [UniServer.startTimer, bind, EStateM.bind, get_run, if_pos running]
      rfl
    exact ⟨s.m_timer_map, by rw [catchException, onServer_error thrown]; rfl⟩
  · have started : UniServer.startTimer timerName s =
        .ok () { s with m_timer_map := s.m_timer_map ++ [timerName] } := by
      simp only [UniServer.startTimer, bind, EStateM.bind, get_run, if_neg running]
      rfl
    exact ⟨_, by rw [catchException, onServer_ok started]⟩

/-- The descriptor is stored, or the handler waits for the map. -/
def storeCaught (step : Nat) (varName : String) (rde : BlockDescriptor) : Handler Int Bool :=
  catchException
    (do
      onMetaManager (MetaDataManager.updateMetaData step varName rde)
      return true)
    (do
      respond (-1)
      return false)

theorem storeCaught_busy (busy : s.m_metaManager.m_metaDataMapMutex = true) (step : Nat)
    (varName : String) (rde : BlockDescriptor) :
    storeCaught step varName rde ⟨s, []⟩ = .error MetaDataManager.mapBusy ⟨s, []⟩ := by
  have waits : MetaDataManager.updateMetaData step varName rde s.m_metaManager =
      .error MetaDataManager.mapBusy s.m_metaManager := MetaDataManager.locked_busy busy
  rw [storeCaught, catchException, bind_error (onMetaManager_error waits)]
  rfl

theorem storeCaught_free (free : s.m_metaManager.m_metaDataMapMutex = false) (step : Nat)
    (varName : String) (rde : BlockDescriptor) :
    storeCaught step varName rde ⟨s, []⟩ = .ok true
      ⟨{ s with m_metaManager := s.m_metaManager.store step varName rde }, []⟩ := by
  have stored : MetaDataManager.updateMetaData step varName rde s.m_metaManager = _ :=
    MetaDataManager.updateMetaData_run free rde
  rw [storeCaught, catchException, bind_ok (onMetaManager_ok stored)]
  rfl

/-- The descriptor a server stores: with triggers it waits for its thread. -/
def UniServer.marked (s : UniServer) (rde : BlockDescriptor) : BlockDescriptor :=
  if s.gloablSettings.addTrigger then { rde with m_metaStatus := .BEFOREPROCESS } else rde

theorem UniServer.marked_eq (s : UniServer) (rde : BlockDescriptor) :
    ∃ status, s.marked rde = { rde with m_metaStatus := status } := by
  unfold UniServer.marked
  split
  · exact ⟨.BEFOREPROCESS, rfl⟩
  · exact ⟨rde.m_metaStatus, rfl⟩

/-- The handler after it has read its settings. -/
theorem putmetadata_eq (s : UniServer) (step : Nat) (varName : String) (rde : BlockDescriptor) :
    putmetadata step varName rde ⟨s, []⟩ = (do
      let stored ← storeCaught step varName (s.marked rde)
      if stored then
        if s.gloablSettings.addTrigger then
          catchException (onServer (UniServer.startTimer (rde.m_rawDataID ++ "_wait"))) (return ())
        respond 0 : Handler Int Unit) ⟨s, []⟩ := by
  unfold putmetadata UniServer.marked
  refine (bind_ok (show getServer (⟨s, []⟩ : Call Int) = _ from rfl)).trans ?_
  cases s.gloablSettings.addTrigger <;> rfl

theorem putmetadata_busy (busy : s.m_metaManager.m_metaDataMapMutex = true) (step : Nat)
    (varName : String) (rde : BlockDescriptor) :
    putmetadata step varName rde ⟨s, []⟩ = .error MetaDataManager.mapBusy ⟨s, []⟩ :=
  (putmetadata_eq s step varName rde).trans
    (bind_error (storeCaught_busy busy step varName (s.marked rde)))

theorem putmetadata_run (free : s.m_metaManager.m_metaDataMapMutex = false) (step : Nat)
    (varName : String) (rde : BlockDescriptor) :
    ∃ timers, putmetadata step varName rde ⟨s, []⟩ = .ok ()
      ⟨{ s with
        m_metaManager := s.m_metaManager.store step varName (s.marked rde)
        m_timer_map := timers }, [0]⟩ := by
  have stored := storeCaught_free free step varName (s.marked rde)
  rw [putmetadata_eq, bind_ok stored]
  cases s.gloablSettings.addTrigger with
  | true =>
    obtain ⟨timers, started⟩ := startTimer_caught (rde.m_rawDataID ++ "_wait")
      { s with m_metaManager := s.m_metaManager.store step varName (s.marked rde) } []
    exact ⟨timers, bind_ok started⟩
  | false => exact ⟨s.m_timer_map, rfl⟩

end Gorilla
