import Gorilla.Server.MetaDataManager

/-!
# Registration

The states the requests of a run lead the metadata manager to, and the descriptors a
sequence of `putmetadata` requests leaves there.
-/

namespace Gorilla

open HandLock

namespace MetaDataManager

variable {m : MetaDataManager} {step : Nat} {varName : String}

/-- The states a fresh metadata manager reaches. -/
inductive Reached : MetaDataManager → Prop
  | start {m : MetaDataManager} (empty : m.m_metaDataMap = ∅)
      (free : m.m_metaDataMapMutex = false) : Reached m
  | put {m : MetaDataManager} (h : Reached m) (step : Nat) (varName : String)
      (rde : BlockDescriptor) :
      Reached (exit (updateMetaData step varName rde m))
  | status {m : MetaDataManager} (h : Reached m) (step : Nat) (varName dataType rawDataID : String)
      (newstatus : MetaStatus) :
      Reached (exit (updateMetaDataStatus step varName dataType rawDataID newstatus m))
  | erase {m : MetaDataManager} (h : Reached m) (eraseRawData : String → String → Except Stop Unit)
      (step : Nat) :
      Reached (exit (forceEraseMetaAndRawManually eraseRawData step m))

/-- The descriptors of a step and variable that readers are given. -/
def registered (m : MetaDataManager) (step : Nat) (varName : String) : List BlockDescriptor :=
  (m.endpointsOf step varName DATATYPE_CARGRID).getD []

/-- The map with one more descriptor. -/
def store (m : MetaDataManager) (step : Nat) (varName : String) (rde : BlockDescriptor) :
    MetaDataManager :=
  m.putBlockOf step varName (((m.blockOf step varName).getD ∅).insertRDEP rde.m_dataType rde)

@[simp] theorem store_mutex (rde : BlockDescriptor) :
    (m.store step varName rde).m_metaDataMapMutex = m.m_metaDataMapMutex := rfl

theorem updateMetaData_run (free : m.m_metaDataMapMutex = false) (rde : BlockDescriptor) :
    updateMetaData step varName rde m = .ok () (m.store step varName rde) := by
  have body : (do
      let b := ((← get).blockOf step varName).getD ∅
      modify fun m => m.putBlockOf step varName (b.insertRDEP rde.m_dataType rde) :
      EStateM Stop MetaDataManager Unit) (mapMutex.put true m) =
        .ok () (mapMutex.put true (m.store step varName rde)) := rfl
  rw [updateMetaData, locked, region_ok free body, mapMutex.put_put]
  simp only [mapMutex_put, store, putBlockOf, ← free]

theorem blockOf_putBlockOf (b : MetaDataBlock) (step' : Nat) (varName' : String) :
    (m.putBlockOf step varName b).blockOf step' varName' =
      if step' = step ∧ varName' = varName then some b else m.blockOf step' varName' := by
  by_cases hs : step' = step
  · subst hs
    by_cases hv : varName' = varName
    · subst hv
      simp [blockOf, putBlockOf]
    · have hins : ∀ vars : StepMetaData, (vars.insert varName b).lookup varName' =
          vars.lookup varName' := fun vars => AList.lookup_insert_ne hv
      cases h : m.m_metaDataMap.lookup step' with
      | none =>
        have := hins ∅
        simpa [blockOf, putBlockOf, hv, h] using this
      | some vars => simp [blockOf, putBlockOf, hv, h, hins]
  · simp [blockOf, putBlockOf, hs, AList.lookup_insert_ne hs]

/-- A new descriptor goes to the end of the list of its own key and to no other list. -/
theorem endpointsOf_store (rde : BlockDescriptor) (step' : Nat) (varName' dataType : String) :
    (m.store step varName rde).endpointsOf step' varName' dataType =
      if step' = step ∧ varName' = varName ∧ dataType = rde.m_dataType then
        some ((m.endpointsOf step varName rde.m_dataType).getD [] ++ [rde])
      else m.endpointsOf step' varName' dataType := by
  rw [endpointsOf, store, blockOf_putBlockOf]
  by_cases hk : step' = step ∧ varName' = varName
  · obtain ⟨rfl, rfl⟩ := hk
    have hold : ∀ dataType, (((m.blockOf step' varName').getD ∅).m_metadataBlock.lookup dataType) =
        m.endpointsOf step' varName' dataType := by
      intro dataType
      cases h : m.blockOf step' varName' with
      | none => simp [endpointsOf, h]; rfl
      | some b => simp [endpointsOf, h]
    by_cases ht : dataType = rde.m_dataType
    · subst ht
      simp [MetaDataBlock.insertRDEP, hold]
    · simp [MetaDataBlock.insertRDEP, ht, hold, AList.lookup_insert_ne ht]
  · have : ¬ (step' = step ∧ varName' = varName ∧ dataType = rde.m_dataType) := fun h =>
      hk ⟨h.1, h.2.1⟩
    rw [if_neg hk, if_neg this, endpointsOf]

/-- The map after a sequence of descriptors of one step and variable was put. -/
def register (step : Nat) (varName : String) (rdes : List BlockDescriptor) : MetaDataManager :=
  rdes.foldl (fun m rde => m.store step varName rde) {}

theorem register_free (rdes : List BlockDescriptor) :
    (register step varName rdes).m_metaDataMapMutex = false := by
  have key : ∀ m : MetaDataManager, m.m_metaDataMapMutex = false →
      (rdes.foldl (fun m rde => m.store step varName rde) m).m_metaDataMapMutex = false := by
    induction rdes with
    | nil => exact fun m hm => hm
    | cons rde rdes ih => exact fun m hm => ih _ hm
  exact key {} rfl

theorem register_reached (rdes : List BlockDescriptor) :
    Reached (register step varName rdes) := by
  have key : ∀ m : MetaDataManager, Reached m → m.m_metaDataMapMutex = false →
      Reached (rdes.foldl (fun m rde => m.store step varName rde) m) := by
    induction rdes with
    | nil => exact fun m hm _ => hm
    | cons rde rdes ih =>
      intro m hm free
      have hput := hm.put step varName rde
      rw [updateMetaData_run free] at hput
      exact ih _ hput free
  exact key {} (.start rfl rfl) rfl

/-- Readers see the descriptors in the order they were put. -/
theorem registered_register {rdes : List BlockDescriptor}
    (h : ∀ rde ∈ rdes, rde.m_dataType = DATATYPE_CARGRID) :
    (register step varName rdes).registered step varName = rdes := by
  have key : ∀ m : MetaDataManager,
      (rdes.foldl (fun m rde => m.store step varName rde) m).registered step varName =
        m.registered step varName ++ rdes := by
    induction rdes with
    | nil => simp
    | cons rde rdes ih =>
      intro m
      obtain ⟨ht, hrest⟩ := List.forall_mem_cons.mp h
      rw [List.foldl_cons, ih hrest, registered, endpointsOf_store, ht]
      simp [registered]
  exact key {}

end MetaDataManager

end Gorilla
