import Gorilla.Server.EventDelivery
import Gorilla.Server.LifeCycle

/-!
# A start that fails

The status of the block is written before the trigger is looked up. Whatever throws between that
and the end leaves the status behind.
-/

namespace Gorilla

open HandLock

namespace MetaDataManager

variable {m : MetaDataManager} {step : Nat} {varName id : String}

/-- The `i`th descriptor of a list of the map is in process. -/
def InProcess (m : MetaDataManager) (step : Nat) (varName dataType : String) (i : Nat) : Prop :=
  ∃ list bd, m.endpointsOf step varName dataType = some list ∧ list[i]? = some bd ∧
    bd.m_metaStatus = .INPROCESS

theorem mem_records_iff {bd : BlockDescriptor} : bd ∈ m.records step varName id ↔
    ∃ list, ∃ i : Nat, m.endpointsOf step varName DATATYPE_CARGRID = some list ∧
      list[i]? = some bd ∧
      bd.m_rawDataID = id := by
  rw [records, List.mem_filter, decide_eq_true_eq, registered]
  constructor
  · rintro ⟨mem, hid⟩
    cases hl : m.endpointsOf step varName DATATYPE_CARGRID with
    | none => simp [hl] at mem
    | some list =>
      rw [hl, Option.getD_some] at mem
      obtain ⟨i, hi⟩ := List.mem_iff_getElem?.mp mem
      exact ⟨list, i, rfl, hi, hid⟩
  · rintro ⟨list, i, hl, hi, hid⟩
    rw [hl, Option.getD_some]
    exact ⟨List.mem_of_getElem? hi, hid⟩

section WithStatus
variable {b : MetaDataBlock} {list : List BlockDescriptor} {newstatus : MetaStatus}

theorem blockOf_withStatus : (m.withStatus step varName id b list newstatus).blockOf step varName =
    some ⟨b.m_metadataBlock.insert DATATYPE_CARGRID (list.map fun bd =>
      if bd.m_rawDataID = id then { bd with m_metaStatus := newstatus } else bd)⟩ :=
  (blockOf_putBlockOf _ _ _).trans (if_pos ⟨rfl, rfl⟩)

theorem updateMetaDataStatus_withStatus (free : m.m_metaDataMapMutex = false)
    (hb : m.blockOf step varName = some b)
    (hl : b.m_metadataBlock.lookup DATATYPE_CARGRID = some list) (id : String)
    (newstatus : MetaStatus) :
    updateMetaDataStatus step varName DATATYPE_CARGRID id newstatus m =
      .ok () (m.withStatus step varName id b list newstatus) := by
  rw [updateMetaDataStatus_run free hb]
  simp only [MetaDataBlock.updateMetaBlockStatus, hl]
  rfl

/-- The descriptors of the id are in process, and the others as they were. -/
theorem inProcess_withStatus (hb : m.blockOf step varName = some b)
    (hl : b.m_metadataBlock.lookup DATATYPE_CARGRID = some list) {step' : Nat}
    {varName' dataType : String} {i : Nat} :
    (m.withStatus step varName id b list .INPROCESS).InProcess step' varName' dataType i ↔
      m.InProcess step' varName' dataType i ∨
        ((step' = step ∧ varName' = varName ∧ dataType = DATATYPE_CARGRID) ∧
          ∃ bd, list[i]? = some bd ∧ bd.m_rawDataID = id) := by
  unfold InProcess
  rw [endpointsOf_withStatus hb]
  by_cases key : step' = step ∧ varName' = varName ∧ dataType = DATATYPE_CARGRID
  swap
  · simp [key]
  obtain ⟨rfl, rfl, rfl⟩ := key
  have old : m.endpointsOf step' varName' DATATYPE_CARGRID = some list := by
    rw [endpointsOf, hb, Option.bind_some, hl]
  simp only [old, and_self, if_true, Option.some.injEq, true_and]
  constructor
  · rintro ⟨_, bd', rfl, hi, hstatus⟩
    rw [List.getElem?_map, Option.map_eq_some_iff] at hi
    obtain ⟨bd, hi, rfl⟩ := hi
    by_cases own : bd.m_rawDataID = id
    · exact .inr ⟨bd, hi, own⟩
    · rw [if_neg own] at hstatus
      exact .inl ⟨list, bd, rfl, hi, hstatus⟩
  · rintro (⟨_, bd, rfl, hi, hstatus⟩ | ⟨bd, hi, own⟩)
    · refine ⟨_, _, rfl, by rw [List.getElem?_map, hi, Option.map_some], ?_⟩
      split
      · rfl
      · exact hstatus
    · refine ⟨_, _, rfl, by rw [List.getElem?_map, hi, Option.map_some], ?_⟩
      rw [if_pos own]

/-- The status that a map with the moved descriptors gives back. -/
theorem getMetaDataStatus_withStatus (free : m.m_metaDataMapMutex = false)
    (hb : m.blockOf step varName = some b)
    (hl : b.m_metadataBlock.lookup DATATYPE_CARGRID = some list) :
    getMetaDataStatus step varName DATATYPE_CARGRID id
      (m.withStatus step varName id b list newstatus) =
      .ok (if m.records step varName id = [] then .ERROR else newstatus)
        (m.withStatus step varName id b list newstatus) := by
  have old : m.records step varName id = list.filter fun bd => bd.m_rawDataID = id := by
    rw [records, registered, endpointsOf, hb, Option.bind_some, hl]
    rfl
  refine (getMetaDataStatus_run (m := m.withStatus step varName id b list newstatus) free
    blockOf_withStatus DATATYPE_CARGRID id).trans ?_
  simp only [MetaDataBlock.getMetaBlockStatus, AList.lookup_insert, List.find?_map, old]
  cases found : list.find? ((fun bd => bd.m_rawDataID == id) ∘ fun bd =>
      if bd.m_rawDataID = id then { bd with m_metaStatus := newstatus } else bd) with
  | none =>
    have absent : list.filter (fun bd => decide (bd.m_rawDataID = id)) = [] := by
      refine List.filter_eq_nil_iff.mpr fun bd mem => ?_
      have := List.find?_eq_none.mp found bd mem
      by_cases own : bd.m_rawDataID = id
      · simp [own] at this
      · simpa using own
    rw [if_pos absent]
    rfl
  | some bd =>
    have own : bd.m_rawDataID = id := by
      have := List.find?_some found
      by_contra other
      simp [other] at this
    have present : list.filter (fun bd => decide (bd.m_rawDataID = id)) ≠ [] :=
      List.ne_nil_of_mem (List.mem_filter.mpr ⟨List.mem_of_find?_eq_some found, by simpa using own⟩)
    rw [if_neg present]
    simp only [Option.map_some, own, if_true]

end WithStatus

end MetaDataManager

namespace DynamicTriggerManager

open MetaDataManager

variable {dtm : DynamicTriggerManager} {triggerName : String} {m : MetaDataManager} {step : Nat}
  {varName : String} {rde : BlockDescriptor}

/-- `defaultActionSartDt`: the further triggers are started one after another. Their start reads
neither table of initial functions. -/
def startAll (dtm : DynamicTriggerManager) (functions : CommonFunctions) (m_rank : Int)
    (step : Nat) (varName : String) (rde : BlockDescriptor) : List String → Except Stop Unit
  | [] => return
  | triggerName :: parameters => do
    let _ ← dtm.commonstart functions m_rank triggerName step varName rde
    dtm.startAll functions m_rank step varName rde parameters

def defaultActionSartDt (dtm : DynamicTriggerManager) (functions : CommonFunctions)
    (m_rank : Int) : initActionPtr := fun step varName rde parameters =>
  if parameters.isEmpty then
    .error (.runtime_error "the parameters should larger than 1 for defaultActionSartDt")
  else
    dtm.startAll functions m_rank step varName rde parameters

/-- A trigger of the name and the three functions it names, all registered. -/
structure Prepared (dtm : DynamicTriggerManager) (triggerName : String) where
  dti : DynamicTriggerInfo
  initCp : initCheckPtr
  comp : comparisonPtr
  initAp : initActionPtr
  trigger : dtm.m_dynamicTrigger.lookup triggerName = some dti
  check : dtm.m_funcmanagerMeta.m_initCheckPtrMap.lookup dti.m_checkFunc = some initCp
  comparison : dtm.m_funcmanagerMeta.m_comparisonPtrMap.lookup dti.m_comparisonFunc = some comp
  action : dtm.m_funcmanagerMeta.m_initActionPtrMap.lookup dti.m_actionFunc = some initAp

/-- One of the functions throws, in the order they are called. -/
def Prepared.Throws (f : Prepared dtm triggerName) (step : Nat) (varName : String)
    (rde : BlockDescriptor) : Prop :=
  Raises (f.initCp step varName rde) ∨
    ∃ checkResults, f.initCp step varName rde = .ok checkResults ∧
      (Raises (f.comp checkResults f.dti.m_comparisonFuncPara) ∨
        f.comp checkResults f.dti.m_comparisonFuncPara = .ok true ∧
          Raises (f.initAp step varName rde f.dti.m_actionFuncPara))

/-- The trigger or one of its functions is unknown, or one of them throws. -/
def Fails (dtm : DynamicTriggerManager) (triggerName : String) (step : Nat) (varName : String)
    (rde : BlockDescriptor) : Prop :=
  IsEmpty (Prepared dtm triggerName) ∨
    ∃ f : Prepared dtm triggerName, f.Throws step varName rde

/-- A start that throws leaves no block in process that was not. -/
def LeavesNone (dtm : DynamicTriggerManager) (triggerName : String) (step : Nat)
    (varName : String) (rde : BlockDescriptor) (m : MetaDataManager) : Prop :=
  ∀ what m', dtm.initstart triggerName step varName rde m = .error (.runtime_error what) m' →
    ∀ step' varName' dataType i, m'.InProcess step' varName' dataType i →
      m.InProcess step' varName' dataType i

theorem Prepared.initTrigger_eq (f : Prepared dtm triggerName) :
    dtm.initTrigger triggerName step varName rde = (do
      let checkResults ← f.initCp step varName rde
      let indicator ← f.comp checkResults f.dti.m_comparisonFuncPara
      if indicator then
        f.initAp step varName rde f.dti.m_actionFuncPara) := by
  simp only [initTrigger, f.trigger, f.check, f.comparison, f.action]

theorem Prepared.raises_iff (f : Prepared dtm triggerName) :
    Raises (dtm.initTrigger triggerName step varName rde) ↔ f.Throws step varName rde := by
  rw [f.initTrigger_eq, raises_bind, Throws]
  refine or_congr_right (exists_congr fun checkResults => and_congr_right fun _ => ?_)
  rw [raises_bind]
  refine or_congr_right ⟨?_, ?_⟩
  · rintro ⟨indicator, hcomp, hraise⟩
    cases indicator with
    | true => exact ⟨hcomp, hraise⟩
    | false =>
      obtain ⟨_, h⟩ := hraise
      cases h
  · rintro ⟨hcomp, hraise⟩
    exact ⟨true, hcomp, hraise⟩

theorem raises_of_unprepared (h : IsEmpty (Prepared dtm triggerName)) :
    Raises (dtm.initTrigger triggerName step varName rde) := by
  unfold initTrigger
  cases trigger : dtm.m_dynamicTrigger.lookup triggerName with
  | none => exact ⟨_, rfl⟩
  | some dti =>
    dsimp only
    cases check : dtm.m_funcmanagerMeta.m_initCheckPtrMap.lookup dti.m_checkFunc with
    | none => exact ⟨_, rfl⟩
    | some initCp =>
      dsimp only
      cases comparison : dtm.m_funcmanagerMeta.m_comparisonPtrMap.lookup dti.m_comparisonFunc with
      | none => exact ⟨_, rfl⟩
      | some comp =>
        dsimp only
        cases action : dtm.m_funcmanagerMeta.m_initActionPtrMap.lookup dti.m_actionFunc with
        | none => exact ⟨_, rfl⟩
        | some initAp =>
          exact (h.false ⟨dti, initCp, comp, initAp, trigger, check, comparison, action⟩).elim

theorem raises_initTrigger_iff :
    Raises (dtm.initTrigger triggerName step varName rde) ↔
      dtm.Fails triggerName step varName rde := by
  constructor
  · intro raises
    rcases isEmpty_or_nonempty (Prepared dtm triggerName) with empty | ⟨⟨f⟩⟩
    · exact .inl empty
    · exact .inr ⟨f, f.raises_iff.mp raises⟩
  · rintro (empty | ⟨f, throws⟩)
    · exact raises_of_unprepared empty
    · exact f.raises_iff.mpr throws

/-- A start that never wrote a status leaves the descriptors as they were. -/
theorem leavesNone_of_unwritten {e : Stop} {m' : MetaDataManager}
    (h : updateMetaDataStatus step varName DATATYPE_CARGRID rde.m_rawDataID .INPROCESS m =
      .error e m') (same : m'.m_metaDataMap = m.m_metaDataMap) :
    dtm.LeavesNone triggerName step varName rde m := by
  intro what m'' run step' varName' dataType i
  unfold initstart at run
  rw [bind_error h] at run
  cases run
  simp only [InProcess, endpointsOf, blockOf, same]
  exact id

section Written
variable {b : MetaDataBlock} {list : List BlockDescriptor} (free : m.m_metaDataMapMutex = false)
  (hb : m.blockOf step varName = some b)
  (hl : b.m_metadataBlock.lookup DATATYPE_CARGRID = some list)

include free hb hl

/-- The trigger starts once the status is written. -/
theorem initstart_written : dtm.initstart triggerName step varName rde m = (do
    dtm.initTrigger triggerName step varName rde
    let status ← getMetaDataStatus step varName DATATYPE_CARGRID rde.m_rawDataID
    if status = .INPROCESS then
      updateMetaDataStatus step varName DATATYPE_CARGRID rde.m_rawDataID .AFTERPROCESS
    else if status ≠ .UNDELETABLE then
      throw (.runtime_error "invalid status for getMetaDataStatus") :
      EStateM Stop MetaDataManager Unit)
        (m.withStatus step varName rde.m_rawDataID b list .INPROCESS) :=
  bind_ok (updateMetaDataStatus_withStatus free hb hl rde.m_rawDataID .INPROCESS)

/-- A trigger that throws leaves every descriptor of the id in process. -/
theorem leavesNone_of_fails (fails : dtm.Fails triggerName step varName rde) :
    dtm.LeavesNone triggerName step varName rde m ↔
      ∀ bd ∈ m.records step varName rde.m_rawDataID, bd.m_metaStatus = .INPROCESS := by
  have old : m.endpointsOf step varName DATATYPE_CARGRID = some list := by
    rw [endpointsOf, hb, Option.bind_some, hl]
  obtain ⟨what, thrown⟩ := raises_initTrigger_iff.mpr fails
  have run : dtm.initstart triggerName step varName rde m =
      .error (.runtime_error what) (m.withStatus step varName rde.m_rawDataID b list .INPROCESS) :=
    (initstart_written free hb hl).trans (bind_error (lift_error thrown))
  constructor
  · intro leaves bd mem
    obtain ⟨_, i, hlist, hi, own⟩ := mem_records_iff.mp mem
    obtain rfl := Option.some.inj (old.symm.trans hlist)
    have now := (inProcess_withStatus hb hl).mpr (.inr ⟨⟨rfl, rfl, rfl⟩, bd, hi, own⟩)
    obtain ⟨_, bd', hlist', hi', status⟩ := leaves what _ run _ _ _ i now
    obtain rfl := Option.some.inj (old.symm.trans hlist')
    obtain rfl := Option.some.inj (hi.symm.trans hi')
    exact status
  · intro already what' m' run' step' varName' dataType i now
    cases run.symm.trans run'
    rcases (inProcess_withStatus hb hl).mp now with before | ⟨⟨rfl, rfl, rfl⟩, bd, hi, own⟩
    · exact before
    · exact ⟨list, bd, old, hi, already bd (mem_records_iff.mpr ⟨list, i, old, hi, own⟩)⟩

/-- A trigger that runs to its end, or never ends, leaves no descriptor in process. -/
theorem leavesNone_of_not_fails (h : ¬ dtm.Fails triggerName step varName rde) :
    dtm.LeavesNone triggerName step varName rde m := by
  intro what m' run step' varName' dataType i now
  rw [initstart_written free hb hl] at run
  cases trig : dtm.initTrigger triggerName step varName rde with
  | error e =>
    rw [bind_error (lift_error trig)] at run
    cases run
    exact (h (raises_initTrigger_iff.mp ⟨what, trig⟩)).elim
  | ok u =>
    rw [bind_ok (lift_ok trig), bind_ok (getMetaDataStatus_withStatus free hb hl)] at run
    by_cases none : m.records step varName rde.m_rawDataID = []
    · -- no descriptor has the id, so the first write moved nothing
      rw [if_pos none] at run
      cases run
      rcases (inProcess_withStatus hb hl).mp now with before | ⟨⟨rfl, rfl, rfl⟩, bd, hi, own⟩
      · exact before
      · have old : m.endpointsOf step' varName' DATATYPE_CARGRID = some list := by
          rw [endpointsOf, hb, Option.bind_some, hl]
        have mem := mem_records_iff.mpr ⟨list, i, old, hi, own⟩
        rw [none] at mem
        cases mem
    · rw [if_neg none, if_pos rfl] at run
      have done := updateMetaDataStatus_withStatus
        (m := m.withStatus step varName rde.m_rawDataID b list .INPROCESS) free blockOf_withStatus
        (AList.lookup_insert _) rde.m_rawDataID .AFTERPROCESS
      rw [done] at run
      cases run

end Written

/-- A failed start strands its block unless the failure comes before the status is written, or
the block was in process already. -/
theorem initstart_leavesNone_iff (dtm : DynamicTriggerManager) (triggerName : String) (step : Nat)
    (varName : String) (rde : BlockDescriptor) (m : MetaDataManager) :
    dtm.LeavesNone triggerName step varName rde m ↔
      m.m_metaDataMapMutex = true ∨
        (∀ bd ∈ m.records step varName rde.m_rawDataID, bd.m_metaStatus = .INPROCESS) ∨
          ¬ dtm.Fails triggerName step varName rde := by
  cases free : m.m_metaDataMapMutex with
  | true =>
    refine iff_of_true ?_ (.inl rfl)
    intro what m' run
    unfold initstart at run
    rw [bind_error (updateMetaDataStatus_busy free)] at run
    cases run
  | false =>
    have unregistered : m.endpointsOf step varName DATATYPE_CARGRID = none →
        ∀ bd ∈ m.records step varName rde.m_rawDataID, bd.m_metaStatus = .INPROCESS := by
      intro none bd mem
      obtain ⟨list, _, hlist, _⟩ := mem_records_iff.mp mem
      rw [none] at hlist
      cases hlist
    cases hb : m.blockOf step varName with
    | none =>
      obtain ⟨what, absent⟩ := updateMetaDataStatus_absent free hb DATATYPE_CARGRID rde.m_rawDataID
        .INPROCESS
      refine iff_of_true (leavesNone_of_unwritten absent rfl) (.inr (.inl (unregistered ?_)))
      rw [endpointsOf, hb, Option.bind_none]
    | some b =>
      cases hl : b.m_metadataBlock.lookup DATATYPE_CARGRID with
      | none =>
        have unknown := updateMetaDataStatus_run free hb DATATYPE_CARGRID rde.m_rawDataID .INPROCESS
        simp only [MetaDataBlock.updateMetaBlockStatus, hl] at unknown
        refine iff_of_true (leavesNone_of_unwritten unknown rfl) (.inr (.inl (unregistered ?_)))
        rw [endpointsOf, hb, Option.bind_some, hl]
      | some list =>
        by_cases fails : dtm.Fails triggerName step varName rde
        · rw [leavesNone_of_fails free hb hl fails]
          simp [fails]
        · exact iff_of_true (leavesNone_of_not_fails free hb hl fails) (.inr (.inr fails))

def defaultCheckGetStep : initCheckPtr := fun step _ _ => .ok (toString step)

/-- The initial trigger starts one more trigger for every block. -/
def startsOne : DynamicTriggerInfo where
  m_checkFunc := "defaultCheckGetStep"
  m_comparisonFunc := "defaultComparison"
  m_actionFunc := "defaultActionSartDt"
  m_actionFuncPara := ["testTrigger1"]

/-- The tables of a server where `testTrigger1` was not registered yet. -/
def unchained : DynamicTriggerManager where
  m_dynamicTrigger :=
    (∅ : AList fun _ : String => DynamicTriggerInfo).insert "InitTrigger" startsOne
  m_funcmanagerMeta :=
    { m_initCheckPtrMap := (∅ : AList fun _ : String => initCheckPtr).insert "defaultCheckGetStep"
        defaultCheckGetStep
      m_comparisonPtrMap := (∅ : AList fun _ : String => comparisonPtr).insert "defaultComparison"
        defaultComparison }

/-- The same server with the initial action, which starts the triggers of its tables. -/
def unchainedServer : DynamicTriggerManager :=
  { unchained with
    m_funcmanagerMeta :=
      { unchained.m_funcmanagerMeta with
        m_initActionPtrMap := (∅ : AList fun _ : String => initActionPtr).insert
          "defaultActionSartDt" (defaultActionSartDt unchained defaultFunctions 0) } }

def densityBlock : BlockDescriptor where
  m_rawDataID := "density_0_0"
  m_dims := 1
  m_indexub := ⟨7, 0, 0⟩

def densityMap : MetaDataManager where
  m_metaDataMap := (∅ : AList fun _ : Nat => StepMetaData).insert 0
    ((∅ : AList fun _ : String => MetaDataBlock).insert "density"
      ⟨(∅ : AList fun _ : String => List BlockDescriptor).insert DATATYPE_CARGRID [densityBlock]⟩)

/-- The further trigger is unknown, so the block stays in process. -/
theorem densityBlock_stranded :
    ¬ unchainedServer.LeavesNone "InitTrigger" 0 "density" densityBlock densityMap := by
  intro leaves
  obtain ⟨m', run, now⟩ : ∃ m',
      unchainedServer.initstart "InitTrigger" 0 "density" densityBlock densityMap =
      .error (.runtime_error "failed to get the trigger with name testTrigger1") m' ∧
        m'.endpointsOf 0 "density" DATATYPE_CARGRID =
          some [{ densityBlock with m_metaStatus := .INPROCESS }] := ⟨_, rfl, rfl⟩
  obtain ⟨list, bd, hlist, hbd, status⟩ :=
    leaves _ m' run 0 "density" DATATYPE_CARGRID 0 ⟨_, _, now, rfl, rfl⟩
  obtain rfl : [densityBlock] = list := Option.some.inj hlist
  obtain rfl : densityBlock = bd := Option.some.inj hbd
  cases status

end DynamicTriggerManager

end Gorilla
