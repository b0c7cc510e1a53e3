import Gorilla.BlockManager.BlockManager
import Gorilla.MetricManager.CircularDoubleArray
import Gorilla.Server.Containers
import Gorilla.Server.DHTManager
import Gorilla.Server.ScheduleManager
import Gorilla.Server.TriggerManager
import Mathlib.Logic.Function.Basic

/-!
# The state of a server and its request handlers

A handler runs over the server's state and the replies it has sent so far.
-/

namespace Gorilla

open HandLock

structure AddrManager where
  m_endPointsLists : List String := []
  ifMaster : Bool := false
  nodeAddr : String := ""
  m_rrobinValue : UInt64 := 0

/-- `tl::endpoint`: what the engine resolves an address to. -/
abbrev Endpoint : Type := String

/-- The address of the master, the endpoints of the addresses looked up so far, and the numbers
given to the clients that put data. -/
structure ClientForStaging where
  m_masterAddr : String := ""
  m_serverToEndpoints : AList fun _ : String => Endpoint := ∅
  m_clientAddrToID : AList fun _ : String => Int := ∅
  m_base : Int := 0

/-- `m_serverToEndpoints[address] = endpoint` -/
def ClientForStaging.cacheEndpoint (m : ClientForStaging) (address : String)
    (endpoint : Endpoint) : ClientForStaging :=
  { m with m_serverToEndpoints := m.m_serverToEndpoints.insert address endpoint }

structure Settings where
  addTrigger : Bool := false
  logLevel : Int := 0
  deriving DecidableEq, Repr

structure UniServer where
  globalRank : Int := 0
  gloablSettings : Settings := {}
  m_addrManager : AddrManager := {}
  m_blockManager : BlockManager := {}
  m_metaManager : MetaDataManager := {}
  m_schedulerManager : ScheduleManager := {}
  m_dhtManager : DHTManager := {}
  m_frawmanager : FunctionManagerRaw := {}
  m_dtmanager : DynamicTriggerManager := {}
  m_metricManager : MetricManager := { m_slot := 50 }
  m_timer_map : List String := []
  m_bulkMapmutex : Bool := false
  containers : Containers := {}
  clientStaging : ClientForStaging := {}

/-- What a request reaches outside its own server: the memory its origin exposes, the other
servers and the VTK library. -/
structure Outside where
  endpoint : String
  exposed : UInt64 → Except String Buffer
  sendTo : List Buffer → Except String Unit
  lookup : String → Except String Endpoint
  eraseRawData : String → String → Except Stop Unit
  UnMarshalDataObject : Buffer → Except String Buffer

/-- An exception of a library. -/
def raise {α : Type} : Except String α → Except Stop α
  | .ok a => .ok a
  | .error what => .error (.runtime_error what)

namespace UniServer

def onBlockManager {α : Type} (x : EStateM Stop BlockManager α) : EStateM Stop UniServer α :=
  zoom UniServer.m_blockManager (fun m s => { s with m_blockManager := m }) x

def onMetricManager {α : Type} (x : EStateM Stop MetricManager α) : EStateM Stop UniServer α :=
  zoom UniServer.m_metricManager (fun m s => { s with m_metricManager := m }) x

/-- A name that is taken throws. -/
def startTimer (timerName : String) : EStateM Stop UniServer Unit := do
  if timerName ∈ (← get).m_timer_map then
    throw (.runtime_error ("the timer exist with name: " ++ timerName))
  modify fun s => { s with m_timer_map := s.m_timer_map ++ [timerName] }

def endTimer (timerName : String) : EStateM Stop UniServer Unit := do
  if timerName ∉ (← get).m_timer_map then
    throw (.runtime_error ("the timer is not initilized with name: " ++ timerName))
  modify fun s => { s with m_timer_map := s.m_timer_map.erase timerName }

end UniServer

/-- One request in progress: the server and the replies sent to it. -/
structure Call (ρ : Type) where
  server : UniServer
  sent : List ρ

abbrev Handler (ρ : Type) : Type → Type := EStateM Stop (Call ρ)

namespace Handler

variable {ρ α : Type}

/-- `req.respond(r)` -/
def respond (r : ρ) : Handler ρ Unit := fun c => .ok () { c with sent := c.sent ++ [r] }

def getServer : Handler ρ UniServer := fun c => .ok c.server c

def modifyServer (f : UniServer → UniServer) : Handler ρ Unit := fun c =>
  .ok () { c with server := f c.server }

/-- Run a call on the server. -/
def onServer (x : EStateM Stop UniServer α) : Handler ρ α :=
  zoom Call.server (fun s c => { c with server := s }) x

def onMetaManager (x : EStateM Stop MetaDataManager α) : Handler ρ α :=
  onServer (zoom UniServer.m_metaManager (fun m s => { s with m_metaManager := m }) x)

/-- `catch (std::exception& e)`: undefined behaviour and waiting are not exceptions. -/
def catchException (x : Handler ρ α) (h : Handler ρ α) : Handler ρ α := fun c =>
  match x c with
  | .error (.runtime_error _) c' => h c'
  | r => r

/-- The replies a handler has sent when it ends, whichever way it ends. -/
def replies (x : Handler ρ α) (s : UniServer) : List ρ := (exit (x ⟨s, []⟩)).sent

/-- The server a handler leaves behind. -/
def after (x : Handler ρ α) (s : UniServer) : UniServer := (exit (x ⟨s, []⟩)).server

/-- A run on the server gives the run of the request. -/
theorem onServer_ok {y : EStateM Stop UniServer α} {s' : UniServer} {a : α} {sent : List ρ}
    (h : y s = .ok a s') : onServer y ⟨s, sent⟩ = .ok a ⟨s', sent⟩ := by
  simp only [onServer, zoom, h]

theorem onServer_error {y : EStateM Stop UniServer α} {s' : UniServer} {e : Stop}
    {sent : List ρ} (h : y s = .error e s') : onServer y ⟨s, sent⟩ = .error e ⟨s', sent⟩ := by
  simp only [onServer, zoom, h]

theorem onServer_eq_ok {y : EStateM Stop UniServer α} {c c' : Call ρ} {a : α} :
    onServer y c = .ok a c' ↔ ∃ s', y c.server = .ok a s' ∧ c' = { c with server := s' } :=
  zoom_eq_ok

/-- A run of a manager gives the run of the request it is called from. -/
theorem onMetaManager_ok {x : EStateM Stop MetaDataManager α} {c : Call ρ} {a : α}
    {m : MetaDataManager} (h : x c.server.m_metaManager = .ok a m) :
    onMetaManager x c = .ok a { c with server := { c.server with m_metaManager := m } } := by
  simp only [onMetaManager, onServer, zoom, h]

theorem onMetaManager_error {x : EStateM Stop MetaDataManager α} {c : Call ρ} {e : Stop}
    {m : MetaDataManager} (h : x c.server.m_metaManager = .error e m) :
    onMetaManager x c = .error e { c with server := { c.server with m_metaManager := m } } := by
  simp only [onMetaManager, onServer, zoom, h]

end Handler

/-- The caller's side of a request: it returns with the first reply, and waits when there
is none. -/
def callRemote {ρ α : Type} (x : Handler ρ α) (s : UniServer) : Except Stop ρ :=
  match Handler.replies x s with
  | r :: _ => .ok r
  | [] => .error (.blocked "no reply")

/-- The servers of a staging group, by address, and the addresses that the engine finds. -/
structure Servers where
  server : String → UniServer
  lookup : String → Bool := fun address => address ≠ ""

namespace Servers

variable {s t : Servers} {address : String}

def put (s : Servers) (address : String) (u : UniServer) : Servers :=
  { s with server := Function.update s.server address u }

theorem server_put (s : Servers) (address a : String) (u : UniServer) :
    (s.put address u).server a = if a = address then u else s.server a :=
  Function.update_apply s.server address u a

theorem put_server (s : Servers) (address : String) : s.put address (s.server address) = s := by
  unfold put
  rw [Function.update_eq_self]

/-- A request that is served to its end. -/
def serve (s : Servers) (address : String) (x : Handler Int Unit) : Except Stop Servers :=
  match x ⟨s.server address, []⟩ with
  | .ok _ c => .ok (s.put address c.server)
  | .error e _ => .error e

theorem serve_eq_ok {x : Handler Int Unit} : s.serve address x = .ok t ↔
    ∃ c, x ⟨s.server address, []⟩ = .ok () c ∧ t = s.put address c.server := by
  unfold serve
  cases x ⟨s.server address, []⟩ <;> simp [eq_comm]

/-- A request from outside: the call returns with the first reply, whatever the handler does
after it. -/
def call {ρ α : Type} (address : String) (x : Handler ρ α) : EStateM Stop Servers ρ := fun s =>
  let c := exit (x ⟨s.server address, []⟩)
  match c.sent with
  | r :: _ => .ok r (s.put address c.server)
  | [] => .error (.blocked "no reply") (s.put address c.server)

theorem call_eq_ok {ρ α : Type} {x : Handler ρ α} {r : ρ} : call address x s = .ok r t ↔
    ∃ rest, (exit (x ⟨s.server address, []⟩)).sent = r :: rest ∧
      t = s.put address (exit (x ⟨s.server address, []⟩)).server := by
  unfold call
  cases h : (exit (x ⟨s.server address, []⟩)).sent <;> simp [h, eq_comm]

end Servers

end Gorilla
