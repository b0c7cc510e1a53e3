import Gorilla.Client.ClientForStaging
import Gorilla.Lib.Activities
import Gorilla.MetricManager.Recent
import Gorilla.Server.Timers
import Gorilla.Utils.Numerals

/-!
# Tasks that run behind their requests

A request to execute a function is a handler that only starts a thread. The thread times its own
start and its function, puts both times under the number of the client, and counts itself while it
runs. Its steps are the regions that a lock covers, and any request can come between them.
-/

namespace Gorilla

open HandLock Handler Runs Activities

/-- What the thread of a request captures. -/
structure AsyncTask where
  client : String
  clientid : Int
  blockIDSuffix : String
  blockIndex : Int
  functionName : String
  funcParameters : List String
  ifLastStep : Bool

namespace AsyncTask

def scheduleKey (task : AsyncTask) : String := "default_schedule" ++ toString task.clientid

def anaKey (task : AsyncTask) : String := "default_ana" ++ toString task.clientid

def blockCompleteName (task : AsyncTask) : String :=
  task.blockIDSuffix ++ "_" ++ toString task.blockIndex

def timerNameSchedule (task : AsyncTask) : String := "schedule_" ++ task.blockCompleteName

def executeNameSchedule (task : AsyncTask) : String := "execute_" ++ task.blockCompleteName

end AsyncTask

/-- The function that a task calls, with its arguments. -/
inductive AsyncFunction
  | aggregateProcess (blockIDSuffix functionName : String) (parameters : List String)
  | testisoExec (blockCompleteName : String) (parameters : List String)
  | dummyAna (step dataID totalStep : Int) (anatype : String)
  | unsupported (functionName : String)

/-- What follows the first `_`, or everything. -/
def substrOf (blockIDSuffix : String) : String :=
  match blockIDSuffix.toList.dropWhile (· ≠ '_') with
  | [] => blockIDSuffix
  | _ :: rest => String.ofList rest

namespace AsyncTask

def function (task : AsyncTask) : Except Stop AsyncFunction :=
  if task.functionName = "testaggrefunc" then
    .ok (.aggregateProcess task.blockIDSuffix task.functionName task.funcParameters)
  else if task.functionName = "testisoExec" then
    .ok (.testisoExec task.blockCompleteName task.funcParameters)
  else if task.functionName = "dummyAna" then do
    let step ← stoi (substrOf task.blockIDSuffix)
    match task.funcParameters with
    | [total, anaType, data] =>
      let totalStep ← stoi total
      let dataID ← stoi data
      return .dummyAna step dataID totalStep anaType
    | _ =>
      throw (.runtime_error
        "wrong parameter size, it should includes totalstep, anatype and dataID")
  else
    .ok (.unsupported task.functionName)

/-- The functions that ask other servers or read blocks may throw. -/
def MayThrow (task : AsyncTask) : Prop :=
  match task.function with
  | .error _ => True
  | .ok (.aggregateProcess ..) | .ok (.testisoExec ..) => True
  | .ok (.dummyAna ..) | .ok (.unsupported _) => False

instance (task : AsyncTask) : Decidable task.MayThrow := by
  unfold MayThrow
  split <;> infer_instance

/-- The function asks other servers again and again, until every block has its three arrays. -/
def MaySpin (task : AsyncTask) : Prop :=
  match task.function with
  | .ok (.aggregateProcess ..) => True
  | _ => False

end AsyncTask

/-- The difference of two clock readings. -/
abbrev TimeSpan : Type := { v : Rat // v ≠ DBL_MAX }

/-- How far the thread of a task has come. The last six are the ways it ends: at its end, at a
timer that is taken, at an exception of its function, at a block that cannot be erased, at a
master that is not found, and at any other exception. -/
inductive AsyncPhase
  | spawned
  | scheduled (timeSpan : TimeSpan)
  | scheduleFound (timeSpan : TimeSpan)
  | recorded
  | counted
  | executing
  | executed
  | timed (timeSpan : TimeSpan)
  | anaFound (timeSpan : TimeSpan)
  | analysed
  | erased
  | discounted
  | finished
  | collided
  | threw
  | kept
  | unticked
  | stray

namespace AsyncPhase

/-- The thread is counted as running. -/
def counts : AsyncPhase → Bool
  | .counted | .executing | .executed | .timed _ | .anaFound _ | .analysed | .erased
  | .collided | .threw | .kept => true
  | _ => false

def ended : AsyncPhase → Bool
  | .finished | .collided | .threw | .kept | .unticked | .stray => true
  | _ => false

/-- The timer the thread has to end. -/
def holds (task : AsyncTask) : AsyncPhase → Option String
  | .spawned => some task.timerNameSchedule
  | .executing | .executed | .threw => some task.executeNameSchedule
  | _ => none

/-- The thread has found the array of its time and not yet added to it. -/
def opens : AsyncPhase → Option Bool
  | .scheduleFound _ => some false
  | .anaFound _ => some true
  | _ => none

end AsyncPhase

/-- A time that was put into the metrics, of the client that asked for the task. -/
structure Span where
  client : String
  clientid : Int
  ana : Bool
  timeSpan : TimeSpan

/-- A server and the threads of its requests. The timers of its other requests and the times put
so far are kept besides. -/
structure AsyncService where
  server : UniServer
  tasks : List (AsyncTask × AsyncPhase) := []
  others : List String := []
  spans : List Span := []

/-- What happens on the server. The function of a task, and any other request, leave a server of
which the tasks keep their timers, their metrics and the numbers of their clients. -/
inductive AsyncAction
  | putrawdata (client : String)
  | executeAsyncExp (client blockIDSuffix : String) (blockIndex : Int) (functionName : String)
      (funcParameters : List String) (ifLastStep : Bool)
  | run (i : Nat) (timeSpan : TimeSpan) (out : Outside)
  | returns (i : Nat) (u : UniServer)
  | throws (i : Nat) (u : UniServer)
  | getStageStatus (out : Outside)
  | startTimer (timerName : String)
  | endTimer (timerName : String)
  | request (u : UniServer)

namespace UniServer

/-- The first thing `putrawdata` does. -/
def cacheClient (client : String) : EStateM Stop UniServer Unit := do
  let clientStaging ← (← get).clientStaging.cacheClientAddr client
  modify fun s => { s with clientStaging := clientStaging }

/-- The handler, up to the thread that it makes. -/
def executeAsyncExp (client blockIDSuffix : String) (blockIndex : Int) (functionName : String)
    (funcParameters : List String) (ifLastStep : Bool) : EStateM Stop UniServer AsyncTask := do
  let clientid := (← get).clientStaging.getIDFromClientAddr client
  if clientid = -1 then
    throw (.runtime_error "the execute async is called but there is not clientid")
  let task : AsyncTask :=
    { client, clientid, blockIDSuffix, blockIndex, functionName, funcParameters, ifLastStep }
  startTimer task.timerNameSchedule
  return task

/-- `m_runningThreads += n` -/
def addRunning (n : Int) : EStateM Stop UniServer Unit := do
  let m_runningThreads ← int ((← get).m_metricManager.m_runningThreads + n)
  modify fun s => { s with
    m_metricManager := { s.m_metricManager with m_runningThreads := m_runningThreads } }

/-- The request to tick has no response. -/
def askTick (out : Outside) : EStateM Stop UniServer Unit := do
  let m_masterAddr := (← get).clientStaging.m_masterAddr
  let _ ← zoom UniServer.clientStaging (fun m s => { s with clientStaging := m })
    (ClientForStaging.lookup out m_masterAddr)

/-- The server that another request leaves, with what only the tasks change. -/
def keepTasks (s u : UniServer) : UniServer :=
  { u with
    m_timer_map := s.m_timer_map
    m_metricManager := s.m_metricManager
    clientStaging := { u.clientStaging with
      m_clientAddrToID := s.clientStaging.m_clientAddrToID
      m_base := s.clientStaging.m_base } }

end UniServer

namespace AsyncService

def moved (i : Nat) (task : AsyncTask) (phase : AsyncPhase) (s : AsyncService) : AsyncService :=
  { s with tasks := s.tasks.set i (task, phase) }

def logged (task : AsyncTask) (ana : Bool) (timeSpan : TimeSpan) (s : AsyncService) :
    AsyncService :=
  { s with spans := s.spans ++ [⟨task.client, task.clientid, ana, timeSpan⟩] }

/-- A call on the server, and what follows it when it returns and when it throws. -/
def call {α : Type} (s : AsyncService) (x : EStateM Stop UniServer α)
    (returned : α → AsyncService → AsyncService) (thrown : AsyncService → AsyncService) :
    Except Stop AsyncService :=
  match x s.server with
  | .ok a u => .ok (returned a { s with server := u })
  | .error (.runtime_error _) u => .ok (thrown { s with server := u })
  | .error e _ => .error e

/-- The next call of a thread. The last step asks the master to tick its timer. -/
def advance (s : AsyncService) (i : Nat) (task : AsyncTask) (timeSpan : TimeSpan) (out : Outside) :
    AsyncPhase → Except Stop AsyncService
  | .spawned => s.call (UniServer.endTimer task.timerNameSchedule)
      (fun _ => moved i task (.scheduled timeSpan)) (moved i task .stray)
  | .scheduled timeSpan =>
    s.call (UniServer.onMetricManager (MetricManager.findArray task.scheduleKey))
      (fun _ => moved i task (.scheduleFound timeSpan)) (moved i task .stray)
  | .scheduleFound timeSpan =>
    s.call (UniServer.onMetricManager (MetricManager.addToArray task.scheduleKey timeSpan))
      (fun _ s => (s.logged task false timeSpan).moved i task .recorded) (moved i task .stray)
  | .recorded => s.call (UniServer.addRunning 1) (fun _ => moved i task .counted)
      (moved i task .stray)
  | .counted => s.call (UniServer.startTimer task.executeNameSchedule)
      (fun _ => moved i task .executing) (moved i task .collided)
  | .executing => .error (.blocked task.functionName)
  | .executed => s.call (UniServer.endTimer task.executeNameSchedule)
      (fun _ => moved i task (.timed timeSpan)) (moved i task .stray)
  | .timed timeSpan =>
    s.call (UniServer.onMetricManager (MetricManager.findArray task.anaKey))
      (fun _ => moved i task (.anaFound timeSpan)) (moved i task .stray)
  | .anaFound timeSpan =>
    s.call (UniServer.onMetricManager (MetricManager.addToArray task.anaKey timeSpan))
      (fun _ s => (s.logged task true timeSpan).moved i task .analysed) (moved i task .stray)
  | .analysed =>
    s.call (UniServer.onBlockManager (BlockManager.eraseBlock task.blockCompleteName))
      (fun _ => moved i task .erased) (moved i task .kept)
  | .erased => s.call (UniServer.addRunning (-1)) (fun _ => moved i task .discounted)
      (moved i task .stray)
  | .discounted =>
    if task.ifLastStep then
      s.call (UniServer.askTick out) (fun _ => moved i task .finished) (moved i task .unticked)
    else .ok (s.moved i task .finished)
  | .finished | .collided | .threw | .kept | .unticked | .stray =>
    .error (.blocked "the thread has ended")

def step : AsyncAction → AsyncService → Except Stop AsyncService
  | .putrawdata client, s => s.call (UniServer.cacheClient client) (fun _ => id) id
  | .executeAsyncExp client blockIDSuffix blockIndex functionName funcParameters ifLastStep, s =>
    s.call (UniServer.executeAsyncExp client blockIDSuffix blockIndex functionName funcParameters
      ifLastStep) (fun task s => { s with tasks := s.tasks ++ [(task, .spawned)] }) id
  | .run i timeSpan out, s =>
    match s.tasks[i]? with
    | none => .error (.blocked "no thread")
    | some (task, phase) => s.advance i task timeSpan out phase
  | .returns i u, s =>
    match s.tasks[i]? with
    | some (task, .executing) =>
      match task.function with
      | .ok _ => .ok ({ s with server := s.server.keepTasks u }.moved i task .executed)
      | .error _ => .error (.blocked "the function throws")
    | _ => .error (.blocked "no function")
  | .throws i u, s =>
    match s.tasks[i]? with
    | some (task, .executing) =>
      if task.MayThrow then .ok ({ s with server := s.server.keepTasks u }.moved i task .threw)
      else .error (.blocked "no exception")
    | _ => .error (.blocked "no function")
  | .getStageStatus out, s => s.call (UniServer.stageStatus out) (fun _ => id) id
  | .startTimer timerName, s =>
    s.call (UniServer.startTimer timerName)
      (fun _ s => { s with others := s.others ++ [timerName] }) id
  | .endTimer timerName, s =>
    -- the timers of the tasks end with a number, those of the other requests with a word
    if some timerName ∈ s.tasks.map fun t => t.2.holds t.1 then
      .error (.blocked "the timer of a task")
    else
      s.call (UniServer.endTimer timerName)
        (fun _ s => { s with others := s.others.erase timerName }) id
  | .request u, s => .ok { s with server := s.server.keepTasks u }

end AsyncService

end Gorilla
