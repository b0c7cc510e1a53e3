import Gorilla.Client.PutCarGrid
import Gorilla.Lib.Moves
import Gorilla.Lib.Runs
import Gorilla.Server.Events
import Mathlib.Data.Multiset.AddSub

/-!
# The queue an event reaches

A trigger is started on one server, its action sends the event to another one, and a consumer
polls the queues there. Three parties choose the server and the name of the queue.
-/

namespace Gorilla

open HandLock Runs Handler

/-- An event for the queue of a name on a server. -/
structure EventMessage where
  serverAddr : String
  triggerName : String
  event : EventWrapper
  deriving DecidableEq

abbrev checkPtr : Type := Nat → String → BlockDescriptor → List String → Except Stop String

/-- What an action gets: the step, the variable, the master of the trigger, the rank of the
client it sends with, the block and its parameters. It returns the events it puts. -/
abbrev actionPtr : Type :=
  Nat → String → String → Int → BlockDescriptor → List String → Except Stop (List EventMessage)

def putEventOf (step : Nat) (varName : String) (rde : BlockDescriptor) : EventWrapper where
  m_type := EVENT_DATA_PUT
  m_varName := varName
  m_step := step
  m_dims := rde.m_dims
  m_indexlb := rde.m_indexlb
  m_indexub := rde.m_indexub

def defaultPutEvent : actionPtr := fun step varName triggerMaster m_rank rde _ =>
  if triggerMaster = "" then
    .error (.runtime_error "the groupMaster should not be empty string")
  else
    let event := putEventOf step varName rde
    let triggerName := "testTrigger1"
    .ok (if m_rank = 0 then [⟨triggerMaster, triggerName, event⟩] else [])

/-- The tables of the functions of a started trigger. No other action puts events. -/
structure CommonFunctions where
  m_checkPtrMap : AList fun _ : String => checkPtr
  m_actionPtrMap : AList fun _ : String => actionPtr
  putEvent : m_actionPtrMap.lookup "defaultPutEvent" = some defaultPutEvent
  others : ∀ name action, name ≠ "defaultPutEvent" → m_actionPtrMap.lookup name = some action →
    ∀ step varName master rank rde parameters events,
      action step varName master rank rde parameters = .ok events → events = []

namespace DynamicTriggerManager

theorem eventsOf_getEvent (m : DynamicTriggerManager) (varName name : String) :
    (m.getEvent varName).2.eventsOf name =
      if name = varName then (m.eventsOf name).tail else m.eventsOf name := by
  by_cases own : name = varName
  · subst own
    cases h : m.eventMapQueue.lookup name with
    | none => simp [getEvent, eventsOf, h]
    | some events => cases events <;> simp [getEvent, eventsOf, h]
  · cases h : m.eventMapQueue.lookup varName with
    | none => simp [getEvent, h, own]
    | some events => cases events <;> simp [getEvent, eventsOf, h, own, AList.lookup_insert_ne own]

def commonstart (m : DynamicTriggerManager) (functions : CommonFunctions) (m_rank : Int)
    (triggerName : String) (step : Nat) (varName : String) (rde : BlockDescriptor) :
    Except Stop (List EventMessage) :=
  match m.m_dynamicTrigger.lookup triggerName with
  | none => .error (.runtime_error ("failed to get the trigger with name " ++ triggerName))
  | some dti =>
    match functions.m_checkPtrMap.lookup dti.m_checkFunc with
    | none => .error (.runtime_error "failed to get check function")
    | some cp =>
      match m.m_funcmanagerMeta.m_comparisonPtrMap.lookup dti.m_comparisonFunc with
      | none => .error (.runtime_error "failed to get comparison function")
      | some comp =>
        match functions.m_actionPtrMap.lookup dti.m_actionFunc with
        | none => .error (.runtime_error "failed to get action function")
        | some ap => do
          let checkResults ← cp step varName rde dti.m_checkFuncPara
          let indicator ← comp checkResults dti.m_comparisonFuncPara
          if indicator then
            ap step varName dti.m_masterAddr m_rank rde dti.m_actionFuncPara
          else
            return []

/-- The functions of the trigger are there, and its comparison is true. -/
def compares (m : DynamicTriggerManager) (functions : CommonFunctions) (dti : DynamicTriggerInfo)
    (step : Nat) (varName : String) (rde : BlockDescriptor) : Bool :=
  match functions.m_checkPtrMap.lookup dti.m_checkFunc,
    m.m_funcmanagerMeta.m_comparisonPtrMap.lookup dti.m_comparisonFunc with
  | some cp, some comp =>
    match cp step varName rde dti.m_checkFuncPara with
    | .ok checkResults => comp checkResults dti.m_comparisonFuncPara = .ok true
    | .error _ => false
  | _, _ => false

/-- The event a start owes to the queue of the trigger on its master. -/
def owed (m : DynamicTriggerManager) (functions : CommonFunctions) (m_rank : Int)
    (triggerName : String) (step : Nat) (varName : String) (rde : BlockDescriptor) :
    List EventMessage :=
  match m.m_dynamicTrigger.lookup triggerName with
  | none => []
  | some dti =>
    if m_rank = 0 ∧ dti.m_actionFunc = "defaultPutEvent" ∧
        m.compares functions dti step varName rde then
      [⟨dti.m_masterAddr, triggerName, putEventOf step varName rde⟩]
    else []

end DynamicTriggerManager

/-- What is sent for an event that is owed. -/
def sentFor (message : EventMessage) : List EventMessage :=
  if message.serverAddr = "" then [] else [{ message with triggerName := "testTrigger1" }]

/-- An event for the queue that the action names, on a server. -/
def EventMessage.Named (message : EventMessage) : Prop :=
  message.triggerName = "testTrigger1" ∧ message.serverAddr ≠ ""

theorem EventMessage.Named.sentFor {message : EventMessage} (named : message.Named) :
    sentFor message = [message] := by
  obtain ⟨name, addr⟩ := named
  rw [Gorilla.sentFor, if_neg addr, ← name]

theorem named_of_mem_sentFor {message sent : EventMessage} (mem : sent ∈ sentFor message) :
    sent.Named := by
  by_cases empty : message.serverAddr = ""
  · simp [sentFor, empty] at mem
  · simp only [sentFor, if_neg empty, List.mem_singleton] at mem
    subst mem
    exact ⟨rfl, empty⟩

/-- The events of a start that throws are not sent. -/
def sentBy (x : Except Stop (List EventMessage)) : List EventMessage :=
  match x with
  | .ok events => events
  | .error _ => []

variable {functions : CommonFunctions}

theorem defaultPutEvent_sent (step : Nat) (varName triggerMaster triggerName : String)
    (m_rank : Int) (rde : BlockDescriptor) (parameters : List String) :
    sentBy (defaultPutEvent step varName triggerMaster m_rank rde parameters) =
      if m_rank = 0 then sentFor ⟨triggerMaster, triggerName, putEventOf step varName rde⟩
      else [] := by
  by_cases empty : triggerMaster = ""
  · simp [defaultPutEvent, sentBy, sentFor, empty]
  · by_cases first : m_rank = 0 <;> simp [defaultPutEvent, sentBy, sentFor, empty, first]

theorem CommonFunctions.sent_of_ne {name : String} {ap : actionPtr}
    (ne : name ≠ "defaultPutEvent") (found : functions.m_actionPtrMap.lookup name = some ap)
    (step : Nat) (varName master : String) (rank : Int) (rde : BlockDescriptor)
    (parameters : List String) : sentBy (ap step varName master rank rde parameters) = [] := by
  cases run : ap step varName master rank rde parameters with
  | error e => rfl
  | ok events => exact functions.others name ap ne found _ _ _ _ _ _ _ run

/-- A start sends what it owes, under the name the action has for the queue. -/
theorem sentBy_commonstart (m : DynamicTriggerManager) (m_rank : Int) (triggerName : String)
    (step : Nat) (varName : String) (rde : BlockDescriptor) :
    sentBy (m.commonstart functions m_rank triggerName step varName rde) =
      (m.owed functions m_rank triggerName step varName rde).flatMap sentFor := by
  unfold DynamicTriggerManager.commonstart DynamicTriggerManager.owed
  cases m.m_dynamicTrigger.lookup triggerName with
  | none => rfl
  | some dti =>
    unfold DynamicTriggerManager.compares
    cases hcp : functions.m_checkPtrMap.lookup dti.m_checkFunc with
    | none => simp [sentBy, hcp]
    | some cp =>
      cases hcomp : m.m_funcmanagerMeta.m_comparisonPtrMap.lookup dti.m_comparisonFunc with
      | none => simp [sentBy, hcp, hcomp]
      | some comp =>
        cases hap : functions.m_actionPtrMap.lookup dti.m_actionFunc with
        | none =>
          have other : dti.m_actionFunc ≠ "defaultPutEvent" := by
            intro same
            rw [same, functions.putEvent] at hap
            cases hap
          simp [sentBy, hcp, hcomp, hap, other]
        | some ap =>
          cases checked : cp step varName rde dti.m_checkFuncPara with
          | error e => simp [sentBy, hcp, hcomp, hap, checked, bind, Except.bind]
          | ok checkResults =>
            cases compared : comp checkResults dti.m_comparisonFuncPara with
            | error e => simp [sentBy, hcp, hcomp, hap, checked, compared, bind, Except.bind]
            | ok indicator =>
              cases indicator with
              | false =>
                simp [sentBy, hcp, hcomp, hap, checked, compared, bind, Except.bind, pure,
                  Except.pure]
              | true =>
                by_cases same : dti.m_actionFunc = "defaultPutEvent"
                · have ap_eq : ap = defaultPutEvent := by
                    have given := functions.putEvent
                    rw [← same, hap] at given
                    exact Option.some.inj given
                  subst ap_eq
                  have sent := defaultPutEvent_sent step varName dti.m_masterAddr triggerName
                    m_rank rde dti.m_actionFuncPara
                  by_cases first : m_rank = 0 <;>
                    simpa [hcp, hcomp, hap, checked, compared, bind, Except.bind, same, first]
                      using sent
                · have sent := functions.sent_of_ne same hap step varName dti.m_masterAddr m_rank
                    rde dti.m_actionFuncPara
                  simpa [hcp, hcomp, hap, checked, compared, bind, Except.bind, same] using sent

/-- The servers keep their queues. -/
def Servers.SameQueues (s t : Servers) : Prop :=
  ∀ address name, (t.server address).m_dtmanager.eventsOf name =
    (s.server address).m_dtmanager.eventsOf name

theorem Servers.SameQueues.refl (s : Servers) : s.SameQueues s := fun _ _ => rfl

theorem Servers.SameQueues.trans {s t u : Servers} (h : s.SameQueues t) (h' : t.SameQueues u) :
    s.SameQueues u := fun address name => (h' address name).trans (h address name)

/-- A request that keeps the queues of the server it is sent to. -/
theorem Servers.sameQueues_call {ρ α : Type} {x : Handler ρ α} (address : String)
    (keeps : ∀ u name, (x.after u).m_dtmanager.eventsOf name = u.m_dtmanager.eventsOf name) :
    Moves Servers.SameQueues (Servers.call address x) := by
  intro s a name
  have ends : exit (Servers.call address x s) =
      s.put address (x.after (s.server address)) := by
    unfold Servers.call Handler.after
    cases h : (exit (x ⟨s.server address, []⟩)).sent <;> simp [h]
  rw [ends, Servers.server_put]
  by_cases own : a = address
  · rw [if_pos own, keeps, own]
  · rw [if_neg own]

theorem getmetaServerList_after (dims : Nat) (indexlb indexub : Array3 Int) (u : UniServer) :
    (getmetaServerList dims indexlb indexub).after u = u := by
  rw [Handler.after, getmetaServerList, bind_ok getServer_run]
  simp only
  cases BBX.ofIndex dims indexlb indexub >>= u.m_dhtManager.getMetaServerID with
  | ok named => rfl
  | error e => cases e <;> rfl

namespace ClientForSim

/-- One round of the loop of `registerTrigger`. -/
def tellTrigger (groupMasterAddr triggerName : String) (dti : DynamicTriggerInfo)
    (address : String) : EStateM Stop Servers Unit := do
  let status ← Servers.call address
    (putTriggerInfo triggerName { dti with m_masterAddr := groupMasterAddr })
  if status ≠ 0 then
    throw (.runtime_error ("failed to putTriggerInfo for metaServer " ++ groupMasterAddr))

/-- The first metadata server of the region becomes the master, and all of them are told. -/
def registerTrigger (c : ClientForSim) (dims : Nat) (indexlb indexub : Array3 Int)
    (triggerName : String) (dti : DynamicTriggerInfo) : EStateM Stop Servers String := do
  let metaList ← Servers.call c.m_associatedDataServer (getmetaServerList dims indexlb indexub)
  match metaList with
  | [] => throw (.runtime_error "the metadata list should not be empty")
  | groupMasterAddr :: _ =>
    metaList.forM (tellTrigger groupMasterAddr triggerName dti)
    return groupMasterAddr

theorem registerTrigger_sameQueues (c : ClientForSim) (dims : Nat) (indexlb indexub : Array3 Int)
    (triggerName : String) (dti : DynamicTriggerInfo) :
    Moves Servers.SameQueues (c.registerTrigger dims indexlb indexub triggerName dti) := by
  unfold registerTrigger
  apply Moves.bind (R := Servers.SameQueues) Servers.SameQueues.trans
  · apply Servers.sameQueues_call
    intro u name
    rw [getmetaServerList_after]
  · intro metaList
    cases metaList with
    | nil => exact moves_throw Servers.SameQueues.refl _
    | cons groupMasterAddr rest =>
      apply Moves.bind (R := Servers.SameQueues) Servers.SameQueues.trans
      · apply Moves.forM (R := Servers.SameQueues) Servers.SameQueues.refl Servers.SameQueues.trans
        intro address _
        apply Moves.bind (R := Servers.SameQueues) Servers.SameQueues.trans
        · apply Servers.sameQueues_call
          intro u name
          rfl
        · intro status
          by_cases failed : status ≠ 0
          · rw [if_pos failed]
            exact moves_throw Servers.SameQueues.refl _
          · rw [if_neg failed]
            exact moves_pure Servers.SameQueues.refl _
      · intro _
        exact moves_pure Servers.SameQueues.refl _

theorem tellTrigger_run (groupMasterAddr triggerName : String) (dti : DynamicTriggerInfo)
    (address : String) (s : Servers) : tellTrigger groupMasterAddr triggerName dti address s =
      .ok () (s.put address ((putTriggerInfo triggerName
        { dti with m_masterAddr := groupMasterAddr }).after (s.server address))) := rfl

/-- The servers of the list have the trigger with its master, the others keep what they have. -/
theorem told_forM {groupMasterAddr triggerName : String} {dti : DynamicTriggerInfo}
    {s t : Servers} {metaList : List String}
    (run : metaList.forM (tellTrigger groupMasterAddr triggerName dti) s = .ok ⟨⟩ t)
    (address : String) (told : address ∈ metaList ∨
      (s.server address).m_dtmanager.m_dynamicTrigger.lookup triggerName =
        some { dti with m_masterAddr := groupMasterAddr }) :
    (t.server address).m_dtmanager.m_dynamicTrigger.lookup triggerName =
      some { dti with m_masterAddr := groupMasterAddr } := by
  induction metaList generalizing s with
  | nil =>
    cases run
    simpa using told
  | cons first rest ih =>
    have next := (bind_ok (tellTrigger_run groupMasterAddr triggerName dti first s)).symm.trans run
    apply ih next
    by_cases own : address = first
    · subst own
      refine .inr ?_
      rw [Servers.server_put, if_pos rfl]
      exact AList.lookup_insert _
    · rw [Servers.server_put, if_neg own]
      refine told.imp (fun mem => ?_) id
      exact (List.mem_cons.mp mem).resolve_left own

/-- The address a registration returns is the master the servers of the region have. -/
theorem registerTrigger_master {c : ClientForSim} {dims : Nat} {indexlb indexub : Array3 Int}
    {triggerName groupMasterAddr : String} {dti : DynamicTriggerInfo} {s t : Servers}
    (run : c.registerTrigger dims indexlb indexub triggerName dti s = .ok groupMasterAddr t) :
    ∃ (metaList : List String) (u : Servers),
      Servers.call c.m_associatedDataServer (getmetaServerList dims indexlb indexub) s =
        .ok metaList u ∧ metaList.head? = some groupMasterAddr ∧
          ∀ address ∈ metaList,
            (t.server address).m_dtmanager.m_dynamicTrigger.lookup triggerName =
              some { dti with m_masterAddr := groupMasterAddr } := by
  obtain ⟨metaList, u, listed, run⟩ := bind_run_eq_ok.mp run
  cases metaList with
  | nil => cases run
  | cons first rest =>
    obtain ⟨_, v, told, returned⟩ := bind_run_eq_ok.mp run
    cases returned
    exact ⟨_, u, listed, rfl, fun address mem => told_forM told address (.inl mem)⟩

end ClientForSim

/-- The servers and the events on their way. `polled` records what the consumers got, and
`fired` what the starts owed. -/
structure EventGroup where
  servers : Servers
  sent : List EventMessage := []
  polled : List EventMessage := []
  fired : List EventMessage := []

inductive EventCall
  | registerTrigger (client : ClientForSim) (dims : Nat) (indexlb indexub : Array3 Int)
    (triggerName : String) (dti : DynamicTriggerInfo)
  | commonstart (serverAddr triggerName : String) (step : Nat) (varName : String)
    (rde : BlockDescriptor)
  | putEvent (message : EventMessage)
  | getEvent (serverAddr triggerName : String)

namespace EventGroup

/-- The server of an address and the trigger started on it. -/
def managerOf (t : EventGroup) (serverAddr : String) : DynamicTriggerManager :=
  (t.servers.server serverAddr).m_dtmanager

def step (functions : CommonFunctions) : EventCall → EventGroup → Except Stop EventGroup
  | .registerTrigger client dims indexlb indexub triggerName dti, t =>
    .ok { t with
      servers := exit (client.registerTrigger dims indexlb indexub triggerName dti t.servers) }
  | .commonstart serverAddr triggerName step varName rde, t =>
    let m_rank := (t.servers.server serverAddr).globalRank
    let m := t.managerOf serverAddr
    .ok { t with
      sent := t.sent ++ sentBy (m.commonstart functions m_rank triggerName step varName rde)
      fired := t.fired ++ m.owed functions m_rank triggerName step varName rde }
  | .putEvent message, t =>
    if message ∈ t.sent then
      let u := t.servers.server message.serverAddr
      .ok { t with
        servers := t.servers.put message.serverAddr
          { u with m_dtmanager := u.m_dtmanager.putEvent message.triggerName message.event }
        sent := t.sent.erase message }
    else .error (.blocked "no such event")
  | .getEvent serverAddr triggerName, t =>
    let u := t.servers.server serverAddr
    .ok { t with
      servers := t.servers.put serverAddr ((getEvent triggerName).after u)
      polled := t.polled ++ ((u.m_dtmanager.eventsOf triggerName).take 1).map
        fun event => ⟨serverAddr, triggerName, event⟩ }

/-- The events of a record for one queue of one server. -/
def ofQueue (serverAddr triggerName : String) (log : List EventMessage) : Multiset EventWrapper :=
  ((log.filter fun m => m.serverAddr = serverAddr ∧ m.triggerName = triggerName).map
    EventMessage.event : List EventWrapper)

/-- What a queue holds. -/
def queued (t : EventGroup) (serverAddr triggerName : String) : Multiset EventWrapper :=
  ((t.managerOf serverAddr).eventsOf triggerName : List EventWrapper)

/-- What the polls of a queue got, and what they get once the sent events are there. -/
def available (t : EventGroup) (serverAddr triggerName : String) : Multiset EventWrapper :=
  ofQueue serverAddr triggerName t.polled + t.queued serverAddr triggerName +
    ofQueue serverAddr triggerName t.sent

/-- Beside what they held, the queues have the events of their triggers, once each, and no
other. -/
def Exact (s t : EventGroup) : Prop :=
  ∀ serverAddr triggerName, t.available serverAddr triggerName =
    s.available serverAddr triggerName + ofQueue serverAddr triggerName t.fired

/-- Beside what they held, the queues have what the starts sent. -/
def Delivers (s t : EventGroup) : Prop :=
  ∀ serverAddr triggerName, t.available serverAddr triggerName =
    s.available serverAddr triggerName +
      ofQueue serverAddr triggerName (t.fired.flatMap sentFor)

/-- A start whose event is for the queue that the action names, on a server. -/
def Named (functions : CommonFunctions) : EventCall → EventGroup → Prop
  | .commonstart serverAddr triggerName step varName rde, t =>
    ∀ dti, (t.managerOf serverAddr).m_dynamicTrigger.lookup triggerName = some dti →
      (t.servers.server serverAddr).globalRank = 0 → dti.m_actionFunc = "defaultPutEvent" →
        (t.managerOf serverAddr).compares functions dti step varName rde →
          triggerName = "testTrigger1" ∧ dti.m_masterAddr ≠ ""
  | _, _ => True

variable {functions : CommonFunctions} {s t u : EventGroup} {serverAddr triggerName : String}
  {log log' : List EventMessage}

@[simp] theorem ofQueue_append : ofQueue serverAddr triggerName (log ++ log') =
    ofQueue serverAddr triggerName log + ofQueue serverAddr triggerName log' := by
  simp [ofQueue]

theorem ofQueue_singleton (message : EventMessage) : ofQueue serverAddr triggerName [message] =
    if message.serverAddr = serverAddr ∧ message.triggerName = triggerName then {message.event}
    else 0 := by
  by_cases own : message.serverAddr = serverAddr ∧ message.triggerName = triggerName
  · simp [ofQueue, own]
  · rw [if_neg own, ofQueue, List.filter_singleton]
    simp [own]

theorem mem_ofQueue {event : EventWrapper} : event ∈ ofQueue serverAddr triggerName log ↔
    (⟨serverAddr, triggerName, event⟩ : EventMessage) ∈ log := by
  simp only [ofQueue, Multiset.mem_coe, List.mem_map, List.mem_filter, decide_eq_true_eq]
  constructor
  · rintro ⟨message, ⟨mem, rfl, rfl⟩, rfl⟩
    exact mem
  · intro mem
    exact ⟨_, ⟨mem, rfl, rfl⟩, rfl⟩

/-- An event that is taken out leaves the others. -/
theorem ofQueue_erase {message : EventMessage} (mem : message ∈ log) :
    ofQueue serverAddr triggerName [message] + ofQueue serverAddr triggerName (log.erase message) =
      ofQueue serverAddr triggerName log := by
  rw [← ofQueue_append]
  exact Multiset.coe_eq_coe.mpr ((List.perm_cons_erase mem).symm.filter _ |>.map _)

/-- The record of the first event of a queue that is polled. -/
theorem ofQueue_polled (a q : String) (events : List EventWrapper) :
    ofQueue serverAddr triggerName (events.map fun event => ⟨a, q, event⟩) =
      if a = serverAddr ∧ q = triggerName then (events : Multiset EventWrapper) else 0 := by
  by_cases own : a = serverAddr ∧ q = triggerName
  · simp [ofQueue, own, List.filter_map, Function.comp_def]
  · rw [if_neg own, ofQueue, List.filter_map]
    simp [own, Function.comp_def]

theorem queued_put {servers : Servers} {a : String} {v : UniServer}
    (put : t.servers = servers.put a v) : t.queued serverAddr triggerName =
      if serverAddr = a then (v.m_dtmanager.eventsOf triggerName : Multiset EventWrapper)
      else ((servers.server serverAddr).m_dtmanager.eventsOf triggerName :
        Multiset EventWrapper) := by
  rw [queued, managerOf, put, Servers.server_put]
  by_cases own : serverAddr = a
  · rw [if_pos own, if_pos own]
  · rw [if_neg own, if_neg own]

/-- An event that arrives is in the queue instead of on its way. -/
theorem available_putEvent {message : EventMessage}
    (h : step functions (.putEvent message) t = .ok u) :
    u.available serverAddr triggerName = t.available serverAddr triggerName ∧
      u.fired = t.fired := by
  by_cases mem : message ∈ t.sent
  · rw [step, if_pos mem] at h
    cases h
    refine ⟨?_, rfl⟩
    have arrived : ofQueue serverAddr triggerName [message] + t.queued serverAddr triggerName =
        if serverAddr = message.serverAddr then
          (((t.managerOf message.serverAddr).putEvent message.triggerName
            message.event).eventsOf triggerName : Multiset EventWrapper)
        else t.queued serverAddr triggerName := by
      rw [ofQueue_singleton]
      by_cases own : serverAddr = message.serverAddr
      · rw [if_pos own, DynamicTriggerManager.eventsOf_putEvent, queued, own]
        by_cases same : triggerName = message.triggerName
        · simpa [same] using (List.perm_append_singleton message.event _).symm
        · simp [same, Ne.symm same]
      · simp [own, Ne.symm own]
    rw [available, available, queued_put rfl, ← ofQueue_erase mem]
    show ofQueue serverAddr triggerName t.polled + _ + _ = _
    rw [add_assoc, add_assoc, ← add_assoc (t.queued _ _), add_comm (t.queued _ _), arrived]
    rfl
  · rw [step, if_neg mem] at h
    cases h

/-- An event that is polled is recorded instead of queued. -/
theorem available_getEvent {a q : String} (h : step functions (.getEvent a q) t = .ok u) :
    u.available serverAddr triggerName = t.available serverAddr triggerName ∧
      u.fired = t.fired := by
  cases h
  refine ⟨?_, rfl⟩
  have taken : ofQueue serverAddr triggerName
      (((t.managerOf a).eventsOf q |>.take 1).map fun event => ⟨a, q, event⟩) +
        (if serverAddr = a then
          (((t.managerOf a).getEvent q).2.eventsOf triggerName : Multiset EventWrapper)
        else t.queued serverAddr triggerName) = t.queued serverAddr triggerName := by
    rw [ofQueue_polled]
    by_cases own : serverAddr = a
    · subst own
      rw [if_pos rfl, DynamicTriggerManager.eventsOf_getEvent, queued]
      by_cases same : triggerName = q
      · subst same
        rw [if_pos ⟨rfl, rfl⟩, if_pos rfl, Multiset.coe_add, ← List.drop_one,
          List.take_append_drop]
      · simp [same, Ne.symm same]
    · simp [own, Ne.symm own]
  rw [available, available, queued_put rfl]
  show ofQueue serverAddr triggerName (t.polled ++ _) + _ + _ = _
  rw [ofQueue_append, add_assoc (ofQueue serverAddr triggerName t.polled)]
  exact congrArg (fun events => ofQueue serverAddr triggerName t.polled + events +
    ofQueue serverAddr triggerName t.sent) taken

theorem delivers_step {call : EventCall} (h : step functions call t = .ok u)
    (delivers : s.Delivers t) : s.Delivers u := by
  intro serverAddr triggerName
  have before := delivers serverAddr triggerName
  cases call with
  | registerTrigger client dims indexlb indexub name dti =>
    cases h
    rw [available, queued, managerOf, client.registerTrigger_sameQueues dims indexlb indexub name
      dti t.servers serverAddr triggerName]
    exact before
  | commonstart a name step varName rde =>
    cases h
    rw [available, sentBy_commonstart, ofQueue_append, List.flatMap_append, ofQueue_append,
      ← add_assoc, ← add_assoc, ← before]
    rfl
  | putEvent message =>
    obtain ⟨same, fired⟩ := available_putEvent h
    rw [same, fired]
    exact before
  | getEvent a name =>
    obtain ⟨same, fired⟩ := available_getEvent h
    rw [same, fired]
    exact before

/-- The queues are exact when what is owed is sent as it is. -/
theorem Delivers.exact_iff (delivers : s.Delivers t) :
    s.Exact t ↔ ∀ message ∈ t.fired, message.Named := by
  constructor
  · intro exact message mem
    have owed : message.event ∈ ofQueue message.serverAddr message.triggerName t.fired :=
      mem_ofQueue.mpr mem
    have same := (exact message.serverAddr message.triggerName).symm.trans
      (delivers message.serverAddr message.triggerName)
    rw [Multiset.add_right_inj.mp same, mem_ofQueue, List.mem_flatMap] at owed
    obtain ⟨_, _, sent⟩ := owed
    exact named_of_mem_sentFor sent
  · intro named serverAddr triggerName
    have same : t.fired.flatMap sentFor = t.fired := by
      calc t.fired.flatMap sentFor = t.fired.flatMap fun message => [message] :=
            List.flatMap_congr fun message mem => (named message mem).sentFor
        _ = t.fired := List.flatMap_singleton' t.fired
    rw [delivers, same]

/-- What an action of the group owes. -/
def owedBy (functions : CommonFunctions) : EventCall → EventGroup → List EventMessage
  | .commonstart serverAddr triggerName step varName rde, t =>
    (t.managerOf serverAddr).owed functions (t.servers.server serverAddr).globalRank triggerName
      step varName rde
  | _, _ => []

theorem fired_step {call : EventCall} (h : step functions call t = .ok u) :
    u.fired = t.fired ++ owedBy functions call t := by
  cases call with
  | registerTrigger client dims indexlb indexub name dti =>
    cases h
    exact (List.append_nil _).symm
  | commonstart a name step varName rde =>
    cases h
    rfl
  | putEvent message =>
    have fired : u.available "" "" = t.available "" "" ∧ u.fired = t.fired :=
      available_putEvent h
    rw [fired.2]
    exact (List.append_nil _).symm
  | getEvent a name =>
    cases h
    exact (List.append_nil _).symm

theorem named_iff_owedBy (call : EventCall) (t : EventGroup) :
    Named functions call t ↔ ∀ message ∈ owedBy functions call t, message.Named := by
  cases call with
  | commonstart a name step varName rde =>
    simp only [Named, owedBy, DynamicTriggerManager.owed]
    cases found : (t.managerOf a).m_dynamicTrigger.lookup name with
    | none => simp
    | some dti =>
      by_cases owes : (t.servers.server a).globalRank = 0 ∧ dti.m_actionFunc = "defaultPutEvent" ∧
          (t.managerOf a).compares functions dti step varName rde
      · simp [owes, EventMessage.Named]
      · simp only [if_neg owes]
        constructor
        · intro _ message mem
          cases mem
        · rintro _ _ ⟨⟩ rank action compares
          exact absurd ⟨rank, action, compares⟩ owes
  | registerTrigger client dims indexlb indexub name dti => simp [Named, owedBy]
  | putEvent message => simp [Named, owedBy]
  | getEvent a name => simp [Named, owedBy]

/-- Servers before any start. -/
def init (servers : Servers) : EventGroup := { servers := servers }

variable {servers : Servers} {calls : List EventCall}

/-- What was owed so far tells whether every start was of a trigger the action names. -/
theorem named_run (run : Run (Steps (step functions)) (init servers) calls t) :
    Run (Meeting (Named functions) (Steps (step functions))) (init servers) calls t ↔
      ∀ message ∈ t.fired, message.Named := by
  refine @Run.meeting_iff_record _ _ _ _ (fun t => ∀ message ∈ t.fired, message.Named)
    _ _ _ _ ?_ ?_ run
  · intro message mem
    cases mem
  · intro call t u hstep
    rw [fired_step hstep, List.forall_mem_append, named_iff_owedBy]

theorem delivers_run (run : Run (Steps (step functions)) (init servers) calls t) :
    (init servers).Delivers t := by
  refine run.invariant ?_ fun _ _ _ delivers hstep => delivers_step hstep delivers
  intro serverAddr triggerName
  exact (add_zero _).symm

/-- The queues are exact after the runs whose starts are all of triggers of the name that the
action has for the queue. -/
theorem event_reaches_iff (run : Run (Steps (step functions)) (init servers) calls t) :
    (init servers).Exact t ↔
      Run (Meeting (Named functions) (Steps (step functions))) (init servers) calls t :=
  (delivers_run run).exact_iff.trans (named_run run).symm

end EventGroup

def defaultCheck : checkPtr := fun _ _ _ _ => .ok "defaultCheck results"

def defaultComparison : comparisonPtr := fun _ _ => .ok true

def defaultAction : actionPtr := fun _ _ _ _ _ _ => .ok []

def defaultFunctions : CommonFunctions where
  m_checkPtrMap := (∅ : AList fun _ : String => checkPtr).insert "defaultCheck" defaultCheck
  m_actionPtrMap := ((∅ : AList fun _ : String => actionPtr).insert "defaultAction"
    defaultAction).insert "defaultPutEvent" defaultPutEvent
  putEvent := AList.lookup_insert _
  others := by
    intro name action ne found step varName master rank rde parameters events run
    rw [AList.lookup_insert_ne ne] at found
    by_cases default : name = "defaultAction"
    · subst default
      rw [AList.lookup_insert] at found
      cases found
      cases run
      rfl
    · rw [AList.lookup_insert_ne default] at found
      cases found

namespace EventGroup

/-- The trigger puts an event for every block. -/
def putsEvents : DynamicTriggerInfo where
  m_checkFunc := "defaultCheck"
  m_comparisonFunc := "defaultComparison"
  m_actionFunc := "defaultPutEvent"

/-- A group of one server, which is responsible for the whole domain. -/
def oneServer : Servers where
  server _ :=
    { m_dhtManager :=
        { metaServerIDToBBX := (∅ : AList fun _ : Int => BBX).insert 0 ⟨0, [⟨0, 7⟩]⟩
          metaServerIDToAddr := (∅ : AList fun _ : Int => String).insert 0 "server0" }
      m_dtmanager :=
        { m_funcmanagerMeta :=
            { m_comparisonPtrMap := (∅ : AList fun _ : String => comparisonPtr).insert
                "defaultComparison" defaultComparison } } }

def block : BlockDescriptor where
  m_dims := 1
  m_indexub := ⟨7, 0, 0⟩

/-- A trigger is registered and started, and its event arrives. -/
def started (triggerName : String) : List EventCall :=
  [.registerTrigger { m_associatedDataServer := "server0" } 1 ⟨0, 0, 0⟩ ⟨7, 0, 0⟩ triggerName
      putsEvents,
    .commonstart "server0" triggerName 3 "density" block,
    .putEvent ⟨"server0", "testTrigger1", putEventOf 3 "density" block⟩]

theorem started_exact : ∃ t,
    Run (Steps (step defaultFunctions)) (init oneServer) (started "testTrigger1") t ∧
      t.fired = [⟨"server0", "testTrigger1", putEventOf 3 "density" block⟩] ∧
        (init oneServer).Exact t := by
  obtain ⟨t, ht, fired⟩ : ∃ t,
      runs (step defaultFunctions) (started "testTrigger1") (init oneServer) = .ok t ∧
        t.fired = [⟨"server0", "testTrigger1", putEventOf 3 "density" block⟩] := ⟨_, rfl, rfl⟩
  have run := Run.of_runs ht
  refine ⟨t, run, fired, (event_reaches_iff run).mpr ((named_run run).mpr ?_)⟩
  rw [fired]
  intro message mem
  obtain rfl := List.mem_singleton.mp mem
  exact ⟨rfl, by decide⟩

/-- The consumer of another trigger finds nothing: its event is in the queue of `testTrigger1`. -/
theorem trigger2_lost : ∃ t,
    Run (Steps (step defaultFunctions)) (init oneServer) (started "trigger2") t ∧
      t.fired = [⟨"server0", "trigger2", putEventOf 3 "density" block⟩] ∧
        (t.managerOf "server0").eventsOf "trigger2" = [] ∧
          (t.managerOf "server0").eventsOf "testTrigger1" = [putEventOf 3 "density" block] ∧
            ¬ (init oneServer).Exact t := by
  obtain ⟨t, ht, fired, none, other⟩ : ∃ t,
      runs (step defaultFunctions) (started "trigger2") (init oneServer) = .ok t ∧
        t.fired = [⟨"server0", "trigger2", putEventOf 3 "density" block⟩] ∧
          (t.managerOf "server0").eventsOf "trigger2" = [] ∧
            (t.managerOf "server0").eventsOf "testTrigger1" = [putEventOf 3 "density" block] :=
    ⟨_, rfl, rfl, rfl, rfl⟩
  have run := Run.of_runs ht
  refine ⟨t, run, fired, none, other, fun exact => ?_⟩
  have named := (delivers_run run).exact_iff.mp exact
  rw [fired] at named
  have same : "trigger2" = "testTrigger1" := (named _ (List.mem_singleton_self _)).1
  exact absurd same (by decide)

end EventGroup

end Gorilla
