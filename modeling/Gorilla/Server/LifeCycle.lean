import Gorilla.Lib.Runs
import Gorilla.Server.Statuses
import Gorilla.Server.TriggerManager

/-!
# The life of a block's status

`putmetadata` stores a descriptor and starts a thread that runs the initial trigger on it.
Threads are interleaved at the places where they give `m_metaDataMapMutex` back: a status
operation is three locked regions, and other threads may come in between.
-/

namespace Gorilla

open HandLock Runs

namespace MetaDataManager

/-- The last region of `updateMetaDataStatus`. -/
def setStatus (step : Nat) (varName dataType rawDataID : String) (newstatus : MetaStatus) :
    EStateM Stop MetaDataManager Unit :=
  locked do
    let b := ((← get).blockOf step varName).getD ∅
    let b' ← b.updateMetaBlockStatus dataType rawDataID newstatus
    modify fun m => m.putBlockOf step varName b'

/-- The last region of `getMetaDataStatus`. -/
def readStatus (step : Nat) (varName dataType rawDataID : String) :
    EStateM Stop MetaDataManager MetaStatus :=
  locked do
    let b := ((← get).blockOf step varName).getD ∅
    b.getMetaBlockStatus dataType rawDataID

def checkStep (step : Nat) (caller : String) : EStateM Stop MetaDataManager Unit := do
  if !(← stepCount step) then
    throw (.runtime_error ("the metadata for step does not exist for " ++ caller))

def checkVar (step : Nat) (varName caller : String) : EStateM Stop MetaDataManager Unit := do
  if !(← varCount step varName) then
    throw (.runtime_error ("the metadata for varaible does not exist for " ++ caller))

theorem guard_bind {β : Type} (x : EStateM Stop MetaDataManager Bool) (e : Stop)
    (f : EStateM Stop MetaDataManager β) :
    (do
      if !(← x) then
        throw e
      f) = (do
        (do if !(← x) then throw e)
        f) := by
  rw [bind_assoc]
  congr 1
  funext a
  cases a <;> rfl

theorem updateMetaDataStatus_eq (step : Nat) (varName dataType rawDataID : String)
    (newstatus : MetaStatus) :
    updateMetaDataStatus step varName dataType rawDataID newstatus = (do
      checkStep step "updateMetaDataStatus"
      checkVar step varName "updateMetaDataStatus"
      setStatus step varName dataType rawDataID newstatus) := by
  rw [checkStep, checkVar, ← guard_bind, ← guard_bind]
  rfl

theorem getMetaDataStatus_eq (step : Nat) (varName dataType rawDataID : String) :
    getMetaDataStatus step varName dataType rawDataID = (do
      checkStep step "getMetaDataStatus"
      checkVar step varName "getMetaDataStatus"
      readStatus step varName dataType rawDataID) := by
  rw [checkStep, checkVar, ← guard_bind, ← guard_bind]
  rfl

variable {m : MetaDataManager} {step : Nat} {varName : String}

theorem checkStep_run (free : m.m_metaDataMapMutex = false) {b : MetaDataBlock}
    (h : m.blockOf step varName = some b) (caller : String) :
    checkStep step caller m = .ok () m := by
  rw [checkStep, bind_ok (stepCount_run free step), lookup_step_of_block h]
  rfl

theorem checkVar_run (free : m.m_metaDataMapMutex = false) {b : MetaDataBlock}
    (h : m.blockOf step varName = some b) (caller : String) :
    checkVar step varName caller m = .ok () m := by
  rw [checkVar, bind_ok (varCount_run free step varName), h]
  rfl

/-- The descriptors of the variable whose id is the block's. -/
def records (m : MetaDataManager) (step : Nat) (varName rawDataID : String) :
    List BlockDescriptor :=
  (m.registered step varName).filter fun bd => bd.m_rawDataID = rawDataID

/-- The descriptors of the variable whose id is another block's. -/
def others (m : MetaDataManager) (step : Nat) (varName rawDataID : String) :
    List BlockDescriptor :=
  (m.registered step varName).filter fun bd => bd.m_rawDataID ≠ rawDataID

theorem records_of_others {m m' : MetaDataManager} {id id' : String}
    (h : m'.others step varName id = m.others step varName id) (hne : id' ≠ id) :
    m'.records step varName id' = m.records step varName id' := by
  have both : ∀ n : MetaDataManager, n.records step varName id' =
      (n.others step varName id).filter fun bd => bd.m_rawDataID = id' := by
    intro n
    rw [records, others, List.filter_filter]
    refine List.filter_congr fun bd _ => ?_
    by_cases hid : bd.m_rawDataID = id' <;> simp [hid, hne]
  rw [both, both, h]

theorem records_store (rde : BlockDescriptor) (h : rde.m_dataType = DATATYPE_CARGRID)
    (id : String) :
    (m.store step varName rde).records step varName id =
      m.records step varName id ++ if rde.m_rawDataID = id then [rde] else [] := by
  rw [records, registered, endpointsOf_store, h, if_pos ⟨rfl, rfl, rfl⟩, Option.getD_some,
    List.filter_append, List.filter_singleton, records, registered]
  by_cases hid : rde.m_rawDataID = id <;> simp [hid]

theorem others_store (rde : BlockDescriptor) (h : rde.m_dataType = DATATYPE_CARGRID) :
    (m.store step varName rde).others step varName rde.m_rawDataID =
      m.others step varName rde.m_rawDataID := by
  rw [others, registered, endpointsOf_store, h, if_pos ⟨rfl, rfl, rfl⟩, Option.getD_some,
    List.filter_append, List.filter_singleton, others, registered]
  simp

/-- The map with the statuses of one id moved in a list of descriptors. -/
def withStatus (m : MetaDataManager) (step : Nat) (varName id : String) (b : MetaDataBlock)
    (list : List BlockDescriptor) (newstatus : MetaStatus) : MetaDataManager :=
  m.putBlockOf step varName ⟨b.m_metadataBlock.insert DATATYPE_CARGRID (list.map fun bd =>
    if bd.m_rawDataID = id then { bd with m_metaStatus := newstatus } else bd)⟩

section WithStatus
variable {b : MetaDataBlock} {list : List BlockDescriptor} {id : String} {newstatus : MetaStatus}

theorem endpointsOf_withStatus (hb : m.blockOf step varName = some b) (step' : Nat)
    (varName' dataType : String) :
    (m.withStatus step varName id b list newstatus).endpointsOf step' varName' dataType =
      if step' = step ∧ varName' = varName ∧ dataType = DATATYPE_CARGRID then
        some (list.map fun bd =>
          if bd.m_rawDataID = id then { bd with m_metaStatus := newstatus } else bd)
      else m.endpointsOf step' varName' dataType := by
  rw [endpointsOf, withStatus, blockOf_putBlockOf]
  by_cases hk : step' = step ∧ varName' = varName
  · obtain ⟨rfl, rfl⟩ := hk
    by_cases ht : dataType = DATATYPE_CARGRID
    · subst ht
      simp
    · simp [ht, AList.lookup_insert_ne ht, endpointsOf, hb]
  · have : ¬ (step' = step ∧ varName' = varName ∧ dataType = DATATYPE_CARGRID) := fun h =>
      hk ⟨h.1, h.2.1⟩
    rw [if_neg hk, if_neg this, endpointsOf]

theorem registered_withStatus (hb : m.blockOf step varName = some b)
    (hl : b.m_metadataBlock.lookup DATATYPE_CARGRID = some list) :
    (m.withStatus step varName id b list newstatus).registered step varName =
      (m.registered step varName).map fun bd =>
        if bd.m_rawDataID = id then { bd with m_metaStatus := newstatus } else bd := by
  have old : m.registered step varName = list := by
    rw [registered, endpointsOf, hb, Option.bind_some, hl]
    rfl
  rw [registered, endpointsOf_withStatus hb, if_pos ⟨rfl, rfl, rfl⟩, old]
  rfl

theorem records_withStatus (hb : m.blockOf step varName = some b)
    (hl : b.m_metadataBlock.lookup DATATYPE_CARGRID = some list) :
    (m.withStatus step varName id b list newstatus).records step varName id =
      (m.records step varName id).map fun bd => { bd with m_metaStatus := newstatus } := by
  rw [records, registered_withStatus hb hl, records, List.filter_map]
  have same : ((fun bd : BlockDescriptor => decide (bd.m_rawDataID = id)) ∘ fun bd =>
      if bd.m_rawDataID = id then { bd with m_metaStatus := newstatus } else bd) =
      fun bd => decide (bd.m_rawDataID = id) := by
    funext bd
    by_cases hid : bd.m_rawDataID = id <;> simp [hid]
  rw [same]
  refine List.map_congr_left fun bd hbd => ?_
  rw [if_pos (by simpa using (List.mem_filter.mp hbd).2)]

theorem others_withStatus (hb : m.blockOf step varName = some b)
    (hl : b.m_metadataBlock.lookup DATATYPE_CARGRID = some list) :
    (m.withStatus step varName id b list newstatus).others step varName id =
      m.others step varName id := by
  rw [others, registered_withStatus hb hl, others, List.filter_map]
  have same : ((fun bd : BlockDescriptor => decide (bd.m_rawDataID ≠ id)) ∘ fun bd =>
      if bd.m_rawDataID = id then { bd with m_metaStatus := newstatus } else bd) =
      fun bd => decide (bd.m_rawDataID ≠ id) := by
    funext bd
    by_cases hid : bd.m_rawDataID = id <;> simp [hid]
  rw [same]
  refine (List.map_congr_left fun bd hbd => ?_).trans (List.map_id _)
  rw [if_neg (by simpa using (List.mem_filter.mp hbd).2)]
  rfl

theorem setStatus_run (free : m.m_metaDataMapMutex = false) (hb : m.blockOf step varName = some b)
    (hl : b.m_metadataBlock.lookup DATATYPE_CARGRID = some list) :
    setStatus step varName DATATYPE_CARGRID id newstatus m =
      .ok () (m.withStatus step varName id b list newstatus) := by
  have moved : b.updateMetaBlockStatus DATATYPE_CARGRID id newstatus =
      .ok ⟨b.m_metadataBlock.insert DATATYPE_CARGRID (list.map fun bd =>
        if bd.m_rawDataID = id then { bd with m_metaStatus := newstatus } else bd)⟩ := by
    simp only [MetaDataBlock.updateMetaBlockStatus, hl]
  have run := updateMetaDataStatus_run free hb DATATYPE_CARGRID id newstatus
  rw [updateMetaDataStatus_eq, bind_ok (checkStep_run free hb _), moved] at run
  exact (bind_ok (checkVar_run free hb _)).symm.trans run

theorem readStatus_run (free : m.m_metaDataMapMutex = false) (hb : m.blockOf step varName = some b)
    (hl : b.m_metadataBlock.lookup DATATYPE_CARGRID = some list) {bd : BlockDescriptor}
    (h : m.records step varName id = [bd]) :
    readStatus step varName DATATYPE_CARGRID id m = .ok bd.m_metaStatus m := by
  have old : m.registered step varName = list := by
    rw [registered, endpointsOf, hb, Option.bind_some, hl]
    rfl
  have found : list.find? (fun bd => bd.m_rawDataID == id) = some bd := by
    rw [records, old] at h
    rw [← List.head?_filter]
    simpa [beq_eq_decide] using congrArg List.head? h
  have read : b.getMetaBlockStatus DATATYPE_CARGRID id = .ok bd.m_metaStatus := by
    simp only [MetaDataBlock.getMetaBlockStatus, hl, found]
  have run := getMetaDataStatus_run free hb DATATYPE_CARGRID id
  rw [getMetaDataStatus_eq, bind_ok (checkStep_run free hb _), read] at run
  exact (bind_ok (checkVar_run free hb _)).symm.trans run

end WithStatus

end MetaDataManager

/-- The locked regions of a status operation, in their order. -/
inductive StatusRegion
  | step
  | var
  | block
  deriving DecidableEq, Repr

/-- How far the handling of a block has come. -/
inductive InitPhase
  | put
  | starting (region : StatusRegion)
  | functions
  | reading (region : StatusRegion)
  | ending (region : StatusRegion)
  | finished
  | thrown (what : String)
  deriving DecidableEq, Repr

/-- The descriptor that `putmetadata` stores when triggers are on. -/
def BlockDescriptor.withStatus (rde : BlockDescriptor) (status : MetaStatus) : BlockDescriptor :=
  { rde with m_metaStatus := status }

namespace DynamicTriggerManager
variable (dtm : DynamicTriggerManager) (step : Nat) (varName : String) (rde : BlockDescriptor)

open MetaDataManager

/-- What a block's thread does next: at most one locked region. -/
def phaseStep : InitPhase → EStateM Stop MetaDataManager InitPhase
  | .put => do
    updateMetaData step varName (rde.withStatus .BEFOREPROCESS)
    return .starting .step
  | .starting .step => do
    checkStep step "updateMetaDataStatus"
    return .starting .var
  | .starting .var => do
    checkVar step varName "updateMetaDataStatus"
    return .starting .block
  | .starting .block => do
    setStatus step varName DATATYPE_CARGRID rde.m_rawDataID .INPROCESS
    return .functions
  | .functions => do
    dtm.initTrigger "InitTrigger" step varName (rde.withStatus .BEFOREPROCESS)
    return .reading .step
  | .reading .step => do
    checkStep step "getMetaDataStatus"
    return .reading .var
  | .reading .var => do
    checkVar step varName "getMetaDataStatus"
    return .reading .block
  | .reading .block => do
    let status ← readStatus step varName DATATYPE_CARGRID rde.m_rawDataID
    if status = .INPROCESS then
      return .ending .step
    else if status ≠ .UNDELETABLE then
      throw (.runtime_error "invalid status for getMetaDataStatus")
    return .finished
  | .ending .step => do
    checkStep step "updateMetaDataStatus"
    return .ending .var
  | .ending .var => do
    checkVar step varName "updateMetaDataStatus"
    return .ending .block
  | .ending .block => do
    setStatus step varName DATATYPE_CARGRID rde.m_rawDataID .AFTERPROCESS
    return .finished
  | .finished => return .finished
  | .thrown what => throw (.runtime_error what)

/-- The phases a thread goes through when no other thread comes in between. -/
def phases : Nat → InitPhase → EStateM Stop MetaDataManager InitPhase
  | 0, phase => return phase
  | n + 1, phase => do
    let next ← dtm.phaseStep step varName rde phase
    phases n next

theorem phases_finished (n : Nat) :
    dtm.phases step varName rde n .finished = pure .finished := by
  induction n with
  | zero => rfl
  | succ n ih =>
    rw [phases, phaseStep, pure_bind, ih]

theorem phases_ending : dtm.phases step varName rde 3 (.ending .step) = (do
    updateMetaDataStatus step varName DATATYPE_CARGRID rde.m_rawDataID .AFTERPROCESS
    return .finished) := by
  simp only [phases, phaseStep, updateMetaDataStatus_eq, bind_assoc, pure_bind]

/-- The first seven phases: the first move, the functions, the status read back. -/
theorem phases_reading (n : Nat) : dtm.phases step varName rde (n + 7) (.starting .step) = (do
    updateMetaDataStatus step varName DATATYPE_CARGRID rde.m_rawDataID .INPROCESS
    dtm.initTrigger "InitTrigger" step varName (rde.withStatus .BEFOREPROCESS)
    let status ← getMetaDataStatus step varName DATATYPE_CARGRID rde.m_rawDataID
    (do
      if status = .INPROCESS then
        return .ending .step
      else if status ≠ .UNDELETABLE then
        throw (.runtime_error "invalid status for getMetaDataStatus")
      return .finished : EStateM Stop MetaDataManager InitPhase) >>=
        dtm.phases step varName rde n) := by
  simp only [phases, phaseStep, updateMetaDataStatus_eq, getMetaDataStatus_eq, bind_assoc,
    pure_bind]

/-- Uninterrupted, the phases of a thread are `initstart`. -/
theorem phases_initstart : dtm.phases step varName rde 10 (.starting .step) = (do
    dtm.initstart "InitTrigger" step varName (rde.withStatus .BEFOREPROCESS)
    return .finished) := by
  rw [show (10 : Nat) = 3 + 7 from rfl, phases_reading]
  unfold initstart
  rw [bind_assoc]
  refine congrArg (_ >>= ·) (funext fun _ => ?_)
  rw [bind_assoc]
  refine congrArg (_ >>= ·) (funext fun _ => ?_)
  rw [bind_assoc]
  refine congrArg (_ >>= ·) (funext fun status => ?_)
  by_cases hin : status = .INPROCESS
  · rw [if_pos hin, if_pos hin, pure_bind, phases_ending]
    rfl
  · rw [if_neg hin, if_neg hin]
    by_cases hun : status ≠ .UNDELETABLE
    · rw [if_pos hun, if_pos hun]
      rfl
    · rw [if_neg hun, if_neg hun]
      exact phases_finished dtm step varName rde 3

end DynamicTriggerManager

/-- The status of a block in a phase, none before it is stored. -/
def InitPhase.status : InitPhase → Option MetaStatus
  | .put => none
  | .starting _ => some .BEFOREPROCESS
  | .functions | .reading _ | .ending _ => some .INPROCESS
  | .finished => some .AFTERPROCESS
  | .thrown _ => none

/-- The moves of a status through its life. -/
inductive StatusMove : Option MetaStatus → Option MetaStatus → Prop
  | stay (status : Option MetaStatus) : StatusMove status status
  | put : StatusMove none (some .BEFOREPROCESS)
  | start : StatusMove (some .BEFOREPROCESS) (some .INPROCESS)
  | finish : StatusMove (some .INPROCESS) (some .AFTERPROCESS)

namespace MetaDataManager

/-- Only the descriptors of one block differ. -/
structure OnlyBlock (step : Nat) (varName id : String) (m m' : MetaDataManager) : Prop where
  others : m'.others step varName id = m.others step varName id
  elsewhere : ∀ step' varName' dataType,
    ¬ (step' = step ∧ varName' = varName ∧ dataType = DATATYPE_CARGRID) →
      m'.endpointsOf step' varName' dataType = m.endpointsOf step' varName' dataType

theorem OnlyBlock.refl (step : Nat) (varName id : String) (m : MetaDataManager) :
    OnlyBlock step varName id m m := ⟨rfl, fun _ _ _ _ => rfl⟩

theorem block_of_records {m : MetaDataManager} {step : Nat} {varName id : String}
    {bd : BlockDescriptor} (h : m.records step varName id = [bd]) :
    ∃ b list, m.blockOf step varName = some b ∧
      b.m_metadataBlock.lookup DATATYPE_CARGRID = some list := by
  cases hb : m.blockOf step varName with
  | none => simp [records, registered, endpointsOf, hb] at h
  | some b =>
    cases hl : b.m_metadataBlock.lookup DATATYPE_CARGRID with
    | none => simp [records, registered, endpointsOf, hb, hl] at h
    | some list => exact ⟨b, list, rfl, hl⟩

end MetaDataManager

namespace DynamicTriggerManager
variable {dtm : DynamicTriggerManager} {step : Nat} {varName : String} {rde : BlockDescriptor}
  {m : MetaDataManager}

open MetaDataManager

/-- What a step does to a map where the block has the status of its phase. -/
structure Advanced (step : Nat) (varName : String) (rde : BlockDescriptor) (phase : InitPhase)
    (m : MetaDataManager) (next : InitPhase) (m' : MetaDataManager) : Prop where
  free : m'.m_metaDataMapMutex = false
  own : m'.records step varName rde.m_rawDataID = next.status.toList.map rde.withStatus
  only : OnlyBlock step varName rde.m_rawDataID m m'
  moves : StatusMove phase.status next.status
  calm : ∀ what, next ≠ .thrown what

/-- A step that leaves the map alone. -/
theorem advanced_same {phase next : InitPhase} (free : m.m_metaDataMapMutex = false)
    (own : m.records step varName rde.m_rawDataID = phase.status.toList.map rde.withStatus)
    (same : next.status = phase.status) (calm : ∀ what, next ≠ .thrown what) :
    Advanced step varName rde phase m next m where
  free := free
  own := by rw [same, own]
  only := .refl step varName rde.m_rawDataID m
  moves := by
    rw [same]
    exact .stay _
  calm := calm

theorem advanced_put (cargrid : rde.m_dataType = DATATYPE_CARGRID)
    (free : m.m_metaDataMapMutex = false)
    (own : m.records step varName rde.m_rawDataID = []) :
    Advanced step varName rde .put m (.starting .step)
      (m.store step varName (rde.withStatus .BEFOREPROCESS)) where
  free := free
  own := by
    rw [records_store (rde.withStatus .BEFOREPROCESS) cargrid, own]
    simp [InitPhase.status, BlockDescriptor.withStatus]
  only := by
    refine ⟨others_store (rde.withStatus .BEFOREPROCESS) cargrid, ?_⟩
    intro step' varName' dataType hne
    rw [endpointsOf_store, if_neg]
    rw [show (rde.withStatus .BEFOREPROCESS).m_dataType = DATATYPE_CARGRID from cargrid]
    exact hne
  moves := .put
  calm := by simp

theorem advanced_move {phase next : InitPhase} {b : MetaDataBlock} {list : List BlockDescriptor}
    {old new : MetaStatus} (free : m.m_metaDataMapMutex = false)
    (own : m.records step varName rde.m_rawDataID = [rde.withStatus old])
    (hb : m.blockOf step varName = some b)
    (hl : b.m_metadataBlock.lookup DATATYPE_CARGRID = some list)
    (status : next.status = some new) (moves : StatusMove phase.status next.status)
    (calm : ∀ what, next ≠ .thrown what) :
    Advanced step varName rde phase m next
      (m.withStatus step varName rde.m_rawDataID b list new) where
  free := free
  own := by
    rw [records_withStatus hb hl, own, status]
    rfl
  only := by
    refine ⟨others_withStatus hb hl, ?_⟩
    intro step' varName' dataType hne
    rw [endpointsOf_withStatus hb, if_neg hne]
  moves := moves
  calm := calm

/-- The step of a block whose functions return, in any phase it reaches. -/
theorem phaseStep_run (cargrid : rde.m_dataType = DATATYPE_CARGRID)
    (functions : dtm.initTrigger "InitTrigger" step varName (rde.withStatus .BEFOREPROCESS) =
      .ok ())
    {phase : InitPhase} (free : m.m_metaDataMapMutex = false)
    (own : m.records step varName rde.m_rawDataID = phase.status.toList.map rde.withStatus)
    (calm : ∀ what, phase ≠ .thrown what) :
    ∃ next m', dtm.phaseStep step varName rde phase m = .ok next m' ∧
      Advanced step varName rde phase m next m' := by
  cases phase with
  | put =>
    exact ⟨_, _, bind_ok (updateMetaData_run free _), advanced_put cargrid free own⟩
  | starting region =>
    obtain ⟨b, list, hb, hl⟩ := block_of_records own
    cases region with
    | step =>
      exact ⟨_, _, bind_ok (checkStep_run free hb _), advanced_same free own rfl (by simp)⟩
    | var => exact ⟨_, _, bind_ok (checkVar_run free hb _), advanced_same free own rfl (by simp)⟩
    | block =>
      exact ⟨_, _, bind_ok (setStatus_run free hb hl),
        advanced_move free own hb hl rfl .start (by simp)⟩
  | functions =>
    exact ⟨_, _, bind_ok (lift_ok functions), advanced_same free own rfl (by simp)⟩
  | reading region =>
    obtain ⟨b, list, hb, hl⟩ := block_of_records own
    cases region with
    | step =>
      exact ⟨_, _, bind_ok (checkStep_run free hb _), advanced_same free own rfl (by simp)⟩
    | var => exact ⟨_, _, bind_ok (checkVar_run free hb _), advanced_same free own rfl (by simp)⟩
    | block =>
      exact ⟨.ending .step, _, bind_ok (readStatus_run free hb hl own),
        advanced_same free own rfl (by simp)⟩
  | ending region =>
    obtain ⟨b, list, hb, hl⟩ := block_of_records own
    cases region with
    | step =>
      exact ⟨_, _, bind_ok (checkStep_run free hb _), advanced_same free own rfl (by simp)⟩
    | var => exact ⟨_, _, bind_ok (checkVar_run free hb _), advanced_same free own rfl (by simp)⟩
    | block =>
      exact ⟨_, _, bind_ok (setStatus_run free hb hl),
        advanced_move free own hb hl rfl .finish (by simp)⟩
  | finished => exact ⟨_, _, rfl, advanced_same free own rfl (by simp)⟩
  | thrown what => exact absurd rfl (calm what)

end DynamicTriggerManager

/-- The metadata manager of a server and the blocks that are handled on it. -/
structure StatusService (ι : Type) where
  m_metaManager : MetaDataManager
  phase : ι → InitPhase := fun _ => .put

namespace StatusService
variable {ι : Type}

section Steps
variable [DecidableEq ι] (dtm : DynamicTriggerManager) (step : Nat) (varName : String)
  (rde : ι → BlockDescriptor)

/-- The next step for one block. An exception ends its thread. -/
def advance (i : ι) (s : StatusService ι) : Except Stop (StatusService ι) :=
  match dtm.phaseStep step varName (rde i) (s.phase i) s.m_metaManager with
  | .ok next m => .ok ⟨m, Function.update s.phase i next⟩
  | .error (.runtime_error what) m => .ok ⟨m, Function.update s.phase i (.thrown what)⟩
  | .error e _ => .error e

end Steps

variable {dtm : DynamicTriggerManager} {step : Nat} {varName : String} {rde : ι → BlockDescriptor}
  {s t : StatusService ι} {i : ι}

structure Inv (step : Nat) (varName : String) (rde : ι → BlockDescriptor)
    (s : StatusService ι) : Prop where
  free : s.m_metaManager.m_metaDataMapMutex = false
  lives : ∀ i, s.m_metaManager.records step varName (rde i).m_rawDataID =
    (s.phase i).status.toList.map (rde i).withStatus
  calm : ∀ i what, s.phase i ≠ .thrown what

/-- The status a block has on the server. -/
def statusOf (s : StatusService ι) (step : Nat) (varName : String) (rde : ι → BlockDescriptor)
    (i : ι) : Option MetaStatus :=
  (s.m_metaManager.records step varName (rde i).m_rawDataID).head?.map
    BlockDescriptor.m_metaStatus

theorem statusOf_eq (h : s.Inv step varName rde) (i : ι) :
    s.statusOf step varName rde i = (s.phase i).status := by
  rw [statusOf, h.lives]
  cases (s.phase i).status <;> rfl

theorem inv_init {m : MetaDataManager} (free : m.m_metaDataMapMutex = false)
    (fresh : ∀ i, m.records step varName (rde i).m_rawDataID = []) :
    (⟨m, fun _ => .put⟩ : StatusService ι).Inv step varName rde :=
  ⟨free, fresh, fun _ _ h => by cases h⟩

variable [DecidableEq ι]

/-- A thread is never stopped and never throws, and its step is its own block's. -/
theorem advance_run (cargrid : ∀ i, (rde i).m_dataType = DATATYPE_CARGRID)
    (functions : ∀ i, dtm.initTrigger "InitTrigger" step varName
      ((rde i).withStatus .BEFOREPROCESS) = .ok ())
    (h : s.Inv step varName rde) (i : ι) :
    ∃ next m, advance dtm step varName rde i s = .ok ⟨m, Function.update s.phase i next⟩ ∧
      DynamicTriggerManager.Advanced step varName (rde i) (s.phase i) s.m_metaManager next m := by
  obtain ⟨next, m, run, advanced⟩ := DynamicTriggerManager.phaseStep_run (cargrid i) (functions i)
    h.free (h.lives i) (h.calm i)
  exact ⟨next, m, by simp only [advance, run], advanced⟩

theorem inv_advance (ids : Function.Injective fun i => (rde i).m_rawDataID)
    (cargrid : ∀ i, (rde i).m_dataType = DATATYPE_CARGRID)
    (functions : ∀ i, dtm.initTrigger "InitTrigger" step varName
      ((rde i).withStatus .BEFOREPROCESS) = .ok ())
    (h : s.Inv step varName rde) (hs : advance dtm step varName rde i s = .ok t) :
    t.Inv step varName rde := by
  obtain ⟨next, m, run, advanced⟩ := advance_run cargrid functions h i
  rw [hs] at run
  cases run
  refine ⟨advanced.free, fun j => ?_, fun j what => ?_⟩
  · dsimp only
    by_cases hj : j = i
    · subst hj
      rw [Function.update_self]
      exact advanced.own
    · have other : (rde j).m_rawDataID ≠ (rde i).m_rawDataID := fun he => hj (ids he)
      rw [Function.update_of_ne hj, MetaDataManager.records_of_others advanced.only.others other]
      exact h.lives j
  · dsimp only
    by_cases hj : j = i
    · subst hj
      rw [Function.update_self]
      exact advanced.calm what
    · rw [Function.update_of_ne hj]
      exact h.calm j what

/-- In every interleaving each status moves through its life, a finished trigger leaves its
block processed, and a step for one block leaves all others as they are. -/
theorem lifeCycle (ids : Function.Injective fun i => (rde i).m_rawDataID)
    (cargrid : ∀ i, (rde i).m_dataType = DATATYPE_CARGRID)
    (functions : ∀ i, dtm.initTrigger "InitTrigger" step varName
      ((rde i).withStatus .BEFOREPROCESS) = .ok ())
    {m : MetaDataManager} (free : m.m_metaDataMapMutex = false)
    (fresh : ∀ i, m.records step varName (rde i).m_rawDataID = []) {as : List ι}
    (run : Run (Steps (advance dtm step varName rde)) ⟨m, fun _ => .put⟩ as s) :
    (∀ i what, s.phase i ≠ .thrown what) ∧
    (∀ i, s.phase i = .finished → s.statusOf step varName rde i = some .AFTERPROCESS) ∧
    ∀ i, ∃ t, advance dtm step varName rde i s = .ok t ∧
      (∀ j, StatusMove (s.statusOf step varName rde j) (t.statusOf step varName rde j)) ∧
      MetaDataManager.OnlyBlock step varName (rde i).m_rawDataID s.m_metaManager
        t.m_metaManager := by
  have inv : s.Inv step varName rde :=
    run.invariant (inv_init free fresh) fun _ _ _ h hs => inv_advance ids cargrid functions h hs
  refine ⟨inv.calm, fun i hi => ?_, fun i => ?_⟩
  · rw [statusOf_eq inv, hi]
    rfl
  · obtain ⟨next, m', hs, advanced⟩ := advance_run cargrid functions inv i
    refine ⟨_, hs, fun j => ?_, advanced.only⟩
    have inv' := inv_advance ids cargrid functions inv hs
    rw [statusOf_eq inv, statusOf_eq inv']
    show StatusMove (s.phase j).status (Function.update s.phase i next j).status
    by_cases hj : j = i
    · subst hj
      rw [Function.update_self]
      exact advanced.moves
    · rw [Function.update_of_ne hj]
      exact .stay _

section TwoBlocks

/-- A trigger whose check finds nothing to do. -/
def quietTrigger : DynamicTriggerManager where
  m_dynamicTrigger := (∅ : AList _).insert "InitTrigger"
    { m_checkFunc := "check", m_comparisonFunc := "compare", m_actionFunc := "act" }
  m_funcmanagerMeta :=
    { m_initCheckPtrMap := (∅ : AList _).insert "check" fun _ _ _ => .ok ""
      m_comparisonPtrMap := (∅ : AList _).insert "compare" fun _ _ => .ok false
      m_initActionPtrMap := (∅ : AList _).insert "act" fun _ _ _ _ => .ok () }

def twoBlocks (i : Bool) : BlockDescriptor :=
  { m_rawDataServerAddr := "server", m_rawDataID := if i then "density_0_1" else "density_0_0",
    m_dataType := DATATYPE_CARGRID }

/-- The second block comes in between the two status moves of the first. -/
def interleaved : List Bool :=
  [false, false, false, true, false, true, false, true, false, false, false, true, false, false,
    false]

theorem lifeCycle_twoBlocks : ∃ s, Run (Steps (advance quietTrigger 0 "density" twoBlocks))
    ⟨{}, fun _ => .put⟩ interleaved s ∧
    s.phase true = .functions ∧
    s.statusOf 0 "density" twoBlocks false = some .AFTERPROCESS := by
  obtain ⟨s, hs, done, half⟩ : ∃ s, runs (advance quietTrigger 0 "density" twoBlocks) interleaved
      ⟨{}, fun _ => .put⟩ = .ok s ∧ s.phase false = .finished ∧
      s.phase true = .functions := ⟨_, rfl, rfl, rfl⟩
  have ids : Function.Injective fun i => (twoBlocks i).m_rawDataID := by
    intro i j h
    revert i j
    decide
  have law := lifeCycle ids (fun _ => rfl) (fun _ => rfl) rfl (fun _ => rfl) (.of_runs hs)
  exact ⟨s, .of_runs hs, half, law.2.1 false done⟩

end TwoBlocks

end StatusService

end Gorilla
