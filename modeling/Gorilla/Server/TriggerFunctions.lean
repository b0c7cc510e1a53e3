import Gorilla.Lib.Moves
import Gorilla.Server.FailedTriggers
import Gorilla.Utils.Numerals

/-!
# The functions of the triggers

The check, comparison and action functions that every server registers. What an action sends is
recorded, also of a start that throws later.
-/

namespace Gorilla

open HandLock

/-- The requests of the actions. -/
inductive Sent
  | putEvent (message : EventMessage)
  | executeRawFunc (serverAddr blockID functionName : String) (funcParameters : List String)
  | notifyBack (watcherAddr : String) (indexlb indexub : Array3 Int)
  deriving DecidableEq

/-- The client that the actions send with, the watchers of its server, and how requests end. -/
structure Sender where
  m_masterAddr : String
  m_rank : Int
  m_registeredWatcherSet : List String
  answer : Sent → Except Stop Unit

abbrev Sending : Type → Type := EStateM Stop (List Sent)

/-- An action gets the step, the variable, the master of the trigger, the block and its
parameters. -/
abbrev SendingAction : Type :=
  Nat → String → String → BlockDescriptor → List String → Sending Unit

def InsituExpCheck : checkPtr := fun step _ _ parameters =>
  match parameters with
  | [] =>
    .error (.runtime_error "the parameters of InsituExpCheck should longer than 1")
  | anaTime :: _ => do
    let _ ← stoi anaTime
    return toString step

/-- Both texts are read as they come, the current step first. -/
def defaultComparisonStep : comparisonPtr := fun checkResults parameters =>
  match parameters with
  | [] => .ok false
  | stepStrLb :: _ => do
    let currentstep ← readSize checkResults
    let steplb ← readSize stepStrLb
    return decide (steplb ≤ currentstep)

def InsituExpCompare : comparisonPtr := fun checkResults parameters =>
  match parameters with
  | [] =>
    .error (.runtime_error "the parameters of InsituExpCompare should longer than 1")
  | rate :: _ => do
    let step ← stoi checkResults
    if rate = "2" then
      return decide (step.tmod 5 = 1)
    else if rate = "4" then
      return decide (step.tmod 5 = 1 ∨ step.tmod 5 = 2)
    else if rate = "6" then
      return decide (step.tmod 5 = 1 ∨ step.tmod 5 = 2 ∨ step.tmod 5 = 3)
    else if rate = "8" then
      return decide (step.tmod 5 ≠ 0)
    else if rate = "0" then
      return true
    else
      throw (.runtime_error "the parameters of InsituExpCompare should be 2 or 8")

namespace Sender

def send (r : Sender) (message : Sent) : Sending Unit := do
  modify (· ++ [message])
  r.answer message

/-- `catch (const std::exception&)` -/
def caught (x : Sending Unit) : Sending Unit := fun sent =>
  match x sent with
  | .error (.runtime_error _) sent => .ok () sent
  | ended => ended

def InsituExpAction (r : Sender) : SendingAction := fun step varName _ rde parameters =>
  match parameters with
  | [functionName] =>
    if rde.m_rawDataServerAddr = r.m_masterAddr then return
    else caught (r.send (.executeRawFunc rde.m_rawDataServerAddr rde.m_rawDataID functionName
      [toString step, varName]))
  | _ => throw (.runtime_error "the parameters of InsituExpAction should eauqls to 1")

def defaultNotifyAction (r : Sender) : SendingAction := fun _ _ _ rde _ =>
  r.m_registeredWatcherSet.forM fun watcherAddr =>
    r.send (.notifyBack watcherAddr rde.m_indexlb rde.m_indexub)

def defaultPutEvent (r : Sender) : SendingAction := fun step varName triggerMaster rde _ => do
  if triggerMaster = "" then
    throw (.runtime_error "the groupMaster should not be empty string")
  if r.m_rank = 0 then
    r.send (.putEvent ⟨triggerMaster, "testTrigger1", putEventOf step varName rde⟩)

end Sender

/-! ## The tables -/

def initCheckFunctions : AList fun _ : String => initCheckPtr :=
  (∅ : AList fun _ : String => initCheckPtr).insert "defaultCheckGetStep"
    DynamicTriggerManager.defaultCheckGetStep

def checkFunctions : AList fun _ : String => checkPtr :=
  ((∅ : AList fun _ : String => checkPtr).insert "defaultCheck"
    defaultCheck).insert "InsituExpCheck" InsituExpCheck

def comparisonFunctions : AList fun _ : String => comparisonPtr :=
  (((∅ : AList fun _ : String => comparisonPtr).insert "defaultComparisonStep"
    defaultComparisonStep).insert "defaultComparison"
      defaultComparison).insert "InsituExpCompare" InsituExpCompare

namespace Sender

def actionFunctions (r : Sender) : AList fun _ : String => SendingAction :=
  ((((∅ : AList fun _ : String => SendingAction).insert "defaultAction"
    fun _ _ _ _ _ => pure ()).insert "InsituExpAction" r.InsituExpAction).insert
      "defaultNotifyAction" r.defaultNotifyAction).insert "defaultPutEvent" r.defaultPutEvent

def commonstart (r : Sender) (m : DynamicTriggerManager) (triggerName : String) (step : Nat)
    (varName : String) (rde : BlockDescriptor) : Sending Unit :=
  match m.m_dynamicTrigger.lookup triggerName with
  | none => throw (.runtime_error ("failed to get the trigger with name " ++ triggerName))
  | some dti =>
    match checkFunctions.lookup dti.m_checkFunc with
    | none => throw (.runtime_error "failed to get check function")
    | some cp =>
      match comparisonFunctions.lookup dti.m_comparisonFunc with
      | none => throw (.runtime_error "failed to get comparison function")
      | some comp =>
        match r.actionFunctions.lookup dti.m_actionFunc with
        | none => throw (.runtime_error "failed to get action function")
        | some ap => do
          let checkResults ← cp step varName rde dti.m_checkFuncPara
          let indicator ← comp checkResults dti.m_comparisonFuncPara
          if indicator then
            ap step varName dti.m_masterAddr rde dti.m_actionFuncPara

def defaultActionSartDt (r : Sender) (m : DynamicTriggerManager) (step : Nat) (varName : String)
    (rde : BlockDescriptor) (parameters : List String) : Sending Unit := do
  if parameters.isEmpty then
    throw (.runtime_error "the parameters should larger than 1 for defaultActionSartDt")
  parameters.forM fun triggerName => r.commonstart m triggerName step varName rde

def initActionFunctions (r : Sender) (m : DynamicTriggerManager) : AList fun _ : String =>
    Nat → String → BlockDescriptor → List String → Sending Unit :=
  AList.insert "defaultActionSartDt" (r.defaultActionSartDt m) ∅

/-- The functions of the initial trigger, between the two changes of the status. -/
def initTrigger (r : Sender) (m : DynamicTriggerManager) (triggerName : String) (step : Nat)
    (varName : String) (rde : BlockDescriptor) : Sending Unit :=
  match m.m_dynamicTrigger.lookup triggerName with
  | none => throw (.runtime_error ("failed to get the trigger with name " ++ triggerName))
  | some dti =>
    match initCheckFunctions.lookup dti.m_checkFunc with
    | none => throw (.runtime_error "failed to get check function")
    | some initCp =>
      match comparisonFunctions.lookup dti.m_comparisonFunc with
      | none => throw (.runtime_error "failed to get comparison function")
      | some comp =>
        match (r.initActionFunctions m).lookup dti.m_actionFunc with
        | none => throw (.runtime_error "failed to get action function")
        | some initAp => do
          let checkResults ← initCp step varName rde
          let indicator ← comp checkResults dti.m_comparisonFuncPara
          if indicator then
            initAp step varName rde dti.m_actionFuncPara

end Sender

/-! ## The events among what is sent -/

def Sent.event? : Sent → Option EventMessage
  | .putEvent message => some message
  | _ => none

namespace Sender

variable {r : Sender} {m : DynamicTriggerManager}

/-- What a start is when only its events are kept. -/
def events (x : Sending Unit) : Except Stop (List EventMessage) :=
  match x [] with
  | .ok _ sent => .ok (sent.filterMap Sent.event?)
  | .error e _ => .error e

theorem events_lift {α : Type} (x : Except Stop α) (f : α → Sending Unit) :
    events (liftM x >>= f) = (x >>= fun a => events (f a)) := by
  cases x <;> rfl

/-- No event is sent. -/
def Quiet (sent sent' : List Sent) : Prop :=
  sent'.filterMap Sent.event? = sent.filterMap Sent.event?

theorem Quiet.refl (sent : List Sent) : Quiet sent sent := rfl

theorem Quiet.trans {sent sent' sent'' : List Sent} (h : Quiet sent sent')
    (h' : Quiet sent' sent'') : Quiet sent sent'' := Eq.trans h' h

theorem quiet_send (r : Sender) {message : Sent} (none : message.event? = none) :
    Moves Quiet (r.send message) := by
  refine Moves.bind Quiet.trans (moves_modify fun sent => ?_) fun _ sent => ?_
  · unfold Quiet
    rw [List.filterMap_append, List.filterMap_cons_none none, List.filterMap_nil, List.append_nil]
  · cases r.answer message with
    | ok _ => exact Quiet.refl sent
    | error _ => exact Quiet.refl sent

theorem quiet_caught {x : Sending Unit} (h : Moves Quiet x) : Moves Quiet (caught x) := by
  intro sent
  have moved := h sent
  unfold caught
  split
  · rename_i run
    rwa [run] at moved
  · exact moved

theorem quiet_action (r : Sender) (step : Nat) (varName triggerMaster : String)
    (rde : BlockDescriptor) (parameters : List String) :
    Moves Quiet (r.InsituExpAction step varName triggerMaster rde parameters) := by
  unfold InsituExpAction
  split
  · split
    · exact moves_pure Quiet.refl _
    · exact quiet_caught (r.quiet_send rfl)
  · exact moves_throw Quiet.refl _

theorem quiet_notify (r : Sender) (step : Nat) (varName triggerMaster : String)
    (rde : BlockDescriptor) (parameters : List String) :
    Moves Quiet (r.defaultNotifyAction step varName triggerMaster rde parameters) :=
  Moves.forM Quiet.refl Quiet.trans fun _ _ => r.quiet_send rfl

theorem events_quiet {x : Sending Unit} {sent : List EventMessage} (h : Moves Quiet x)
    (run : events x = .ok sent) : sent = [] := by
  have moved := h []
  unfold events at run
  split at run
  · rename_i ended
    rw [ended] at moved
    cases run
    exact moved
  · cases run

/-- The registered actions, `defaultPutEvent` apart, put no events. -/
def functions (r : Sender) : CommonFunctions where
  m_checkPtrMap := checkFunctions
  m_actionPtrMap :=
    ((((∅ : AList fun _ : String => actionPtr).insert "defaultAction" defaultAction).insert
      "InsituExpAction" fun step varName triggerMaster _ rde parameters =>
        events (r.InsituExpAction step varName triggerMaster rde parameters)).insert
          "defaultNotifyAction" fun step varName triggerMaster _ rde parameters =>
            events (r.defaultNotifyAction step varName triggerMaster rde parameters)).insert
              "defaultPutEvent" Gorilla.defaultPutEvent
  putEvent := AList.lookup_insert _
  others := by
    intro name action ne found step varName master rank rde parameters sent run
    rw [AList.lookup_insert_ne ne] at found
    by_cases notify : name = "defaultNotifyAction"
    · subst notify
      rw [AList.lookup_insert] at found
      cases found
      exact events_quiet (r.quiet_notify step varName master rde parameters) run
    · rw [AList.lookup_insert_ne notify] at found
      by_cases insitu : name = "InsituExpAction"
      · subst insitu
        rw [AList.lookup_insert] at found
        cases found
        exact events_quiet (r.quiet_action step varName master rde parameters) run
      · rw [AList.lookup_insert_ne insitu] at found
        by_cases default : name = "defaultAction"
        · subst default
          rw [AList.lookup_insert] at found
          cases found
          cases run
          rfl
        · rw [AList.lookup_insert_ne default] at found
          cases found

theorem events_putEvent (answers : ∀ message, r.answer (.putEvent message) = .ok ()) (step : Nat)
    (varName triggerMaster : String) (rde : BlockDescriptor) (parameters : List String) :
    events (r.defaultPutEvent step varName triggerMaster rde parameters) =
      Gorilla.defaultPutEvent step varName triggerMaster r.m_rank rde parameters := by
  unfold events defaultPutEvent Gorilla.defaultPutEvent
  by_cases empty : triggerMaster = ""
  · rw [if_pos empty, if_pos empty]
    rfl
  · rw [if_neg empty, if_neg empty]
    dsimp only
    by_cases first : r.m_rank = 0
    · rw [if_pos first, if_pos first]
      have sends : r.send (.putEvent ⟨triggerMaster, "testTrigger1", putEventOf step varName rde⟩)
          [] = .ok () [.putEvent ⟨triggerMaster, "testTrigger1", putEventOf step varName rde⟩] := by
        show (liftM (r.answer _) : Sending Unit) _ = _
        rw [answers]
        rfl
      rw [sends]
      rfl
    · rw [if_neg first, if_neg first]
      rfl

/-- Both tables of actions name the same functions. -/
theorem functions_action (answers : ∀ message, r.answer (.putEvent message) = .ok ())
    (name : String) :
    (r.functions.m_actionPtrMap.lookup name).map
        (fun ap step varName triggerMaster rde parameters =>
          ap step varName triggerMaster r.m_rank rde parameters) =
      (r.actionFunctions.lookup name).map fun ap step varName triggerMaster rde parameters =>
        events (ap step varName triggerMaster rde parameters) := by
  unfold functions actionFunctions
  by_cases put : name = "defaultPutEvent"
  · subst put
    rw [AList.lookup_insert, AList.lookup_insert]
    simp only [Option.map_some, events_putEvent answers]
  · rw [AList.lookup_insert_ne put, AList.lookup_insert_ne put]
    by_cases notify : name = "defaultNotifyAction"
    · subst notify
      rw [AList.lookup_insert, AList.lookup_insert]
      rfl
    · rw [AList.lookup_insert_ne notify, AList.lookup_insert_ne notify]
      by_cases insitu : name = "InsituExpAction"
      · subst insitu
        rw [AList.lookup_insert, AList.lookup_insert]
        rfl
      · rw [AList.lookup_insert_ne insitu, AList.lookup_insert_ne insitu]
        by_cases default : name = "defaultAction"
        · subst default
          rw [AList.lookup_insert, AList.lookup_insert]
          rfl
        · rw [AList.lookup_insert_ne default, AList.lookup_insert_ne default]
          rfl

theorem events_commonstart (answers : ∀ message, r.answer (.putEvent message) = .ok ())
    (tables : m.m_funcmanagerMeta.m_comparisonPtrMap = comparisonFunctions) (triggerName : String)
    (step : Nat) (varName : String) (rde : BlockDescriptor) :
    events (r.commonstart m triggerName step varName rde) =
      m.commonstart r.functions r.m_rank triggerName step varName rde := by
  unfold Sender.commonstart DynamicTriggerManager.commonstart
  rw [tables]
  cases m.m_dynamicTrigger.lookup triggerName with
  | none => rfl
  | some dti =>
    dsimp only
    have checks : r.functions.m_checkPtrMap = checkFunctions := rfl
    rw [checks]
    cases checkFunctions.lookup dti.m_checkFunc with
    | none => rfl
    | some cp =>
      cases comparisonFunctions.lookup dti.m_comparisonFunc with
      | none => rfl
      | some comp =>
        dsimp only
        have same := functions_action answers dti.m_actionFunc
        cases action : r.actionFunctions.lookup dti.m_actionFunc with
        | none =>
          rw [action] at same
          rw [Option.map_eq_none_iff.mp same]
          rfl
        | some ap =>
          rw [action] at same
          obtain ⟨ap', found, agrees⟩ := Option.map_eq_some_iff.mp same
          rw [found]
          have acts := congrArg (fun ap : Nat → String → String → BlockDescriptor → List String →
            Except Stop (List EventMessage) => ap step varName dti.m_masterAddr rde
              dti.m_actionFuncPara) agrees
          refine (events_lift _ _).trans (bind_congr fun checkResults => ?_)
          refine (events_lift _ _).trans (bind_congr fun indicator => ?_)
          cases indicator with
          | false => rfl
          | true => exact acts.symm

end Sender

end Gorilla
