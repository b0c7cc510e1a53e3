import Gorilla.Client.Collect
import Gorilla.Server.PutHandlers

/-!
# Putting a grid through the client

The client asks its server where the bytes go, stores them there or in a file of its own, and
returns. The descriptor it makes meanwhile is not sent to any metadata server.
-/

namespace Gorilla

open HandLock Handler

/-- The data producer: the servers it knows, the memory it exposes for transfers and the
blocks it keeps in files. -/
structure ClientForSim where
  m_rank : Int := 0
  m_totalServerNum : Int := 0
  m_serverIDToAddr : AList fun _ : Int => String := ∅
  m_associatedDataServer : String := ""
  m_bulkSize : UInt64 := 0
  m_segment : Buffer := []
  b_manager : BlockManager := {}

/-- A put in progress. The caller's summary is passed by reference. -/
structure SimPut where
  client : ClientForSim
  servers : Servers
  dataSummary : BlockSummary

namespace ClientForSim

def getAssociatedServerAddr (c : ClientForSim) : Except Stop String :=
  if c.m_totalServerNum = 0 then
    .error (.runtime_error "m_totalServerNum is not initilizsed")
  else
    match c.m_serverIDToAddr.lookup (c.m_rank.tmod c.m_totalServerNum) with
    | none => .error (.runtime_error ("server id not exist " ++ toString c.m_rank ++ " " ++
        toString c.m_totalServerNum))
    | some addr => .ok addr

/-- The memory is kept while it is larger than the transfer, and allocated again otherwise. -/
def initPutRawData (dataTransferSize : UInt64) (c : ClientForSim) : ClientForSim :=
  if c.m_bulkSize ≠ 0 ∧ dataTransferSize < c.m_bulkSize then c
  else { c with m_bulkSize := dataTransferSize, m_segment := Buffer.malloc dataTransferSize }

end ClientForSim

namespace SimPut

def onServers {α : Type} (x : EStateM Stop Servers α) : EStateM Stop SimPut α :=
  zoom SimPut.servers (fun s p => { p with servers := s }) x

def onFiles {α : Type} (x : EStateM Stop BlockManager α) : EStateM Stop SimPut α :=
  zoom (fun p => p.client.b_manager)
    (fun m p => { p with client := { p.client with b_manager := m } }) x

/-- The server is looked for when the client has none. -/
def associate : EStateM Stop SimPut Unit := do
  let c := (← get).client
  if c.m_associatedDataServer = "" then
    let addr ← c.getAssociatedServerAddr
    modify fun p => { p with client := { p.client with m_associatedDataServer := addr } }

/-- `putCarGrid` up to the reply of `getinfoForput`. -/
def askPlacement : EStateM Stop SimPut (UInt64 × InfoForPut) := do
  let bs := (← get).dataSummary
  let dataTransferSize ← bs.getArraySize bs.m_blockid
  associate
  modify fun p => { p with client := p.client.initPutRawData dataTransferSize }
  let c := (← get).client
  if c.m_bulkSize < dataTransferSize then
    throw (.runtime_error "the transfer size is larger than bulk size")
  else
    let ifp ← onServers (Servers.call c.m_associatedDataServer
      (getinfoForput dataTransferSize bs.m_dims bs.m_indexlb bs.m_indexub))
    return (dataTransferSize, ifp)

/-- The block goes to a file of the client. -/
def putFile (dataContainerSrc : Buffer) : EStateM Stop SimPut Unit := do
  let bs := (← get).dataSummary
  if bs.m_dataType = DATATYPE_VTKPTR then
    throw (.runtime_error "not supported for the vtk ptr yet")
  else
    let bs := { bs with m_backend := BACKEND.FILE }
    modify fun p => { p with dataSummary := bs }
    onFiles (BlockManager.putBlock bs BACKEND.FILE (.bytes dataContainerSrc))

/-- The block goes to the client's server, which pulls it from the memory the client exposes. -/
def putRemote (reach : Buffer → Outside) (dataTransferSize : UInt64) (dataContainerSrc : Buffer) :
    EStateM Stop SimPut Unit := do
  let c := (← get).client
  let m_segment ← c.m_segment.memcpy 0 dataContainerSrc 0 dataTransferSize.toNat
  modify fun p => { p with client := { p.client with m_segment := m_segment } }
  let status ← onServers (Servers.call c.m_associatedDataServer
    (Gorilla.putrawdata (reach m_segment) c.m_rank (← get).dataSummary))
  if status ≠ 0 then
    throw (.runtime_error "failed to put the raw data")

/-- The step and the variable are for the metadata, which is not updated. -/
def putCarGrid (reach : Buffer → Outside) (_step : Nat) (_varName : String)
    (dataContainerSrc : Buffer) : EStateM Stop SimPut Int := do
  let (dataTransferSize, ifp) ← askPlacement
  if (← get).dataSummary.m_blockid = "" then
    throw (.runtime_error "dataSummary.m_blockid should not be empty string")
  else if ifp.m_putMethod = FILEPUT then
    putFile dataContainerSrc
    return 0
  else if ifp.m_putMethod = RDMAPUT then
    putRemote reach dataTransferSize dataContainerSrc
    return 0
  else
    throw (.runtime_error "unsupported put method")

/-- The puts of the two other data types are parameters. -/
def putrawdata (reach : Buffer → Outside) (putVTKData putArrayIntoBlock : EStateM Stop SimPut Int)
    (step : Nat) (varName : String) (dataContainerSrc : Buffer) : EStateM Stop SimPut Int := do
  let dataType := (← get).dataSummary.m_dataType
  if dataType = DATATYPE_CARGRID then
    let status ← putCarGrid reach step varName dataContainerSrc
    if status ≠ 0 then throw (.runtime_error "failed to put the cartisian grid") else return 0
  else if dataType = DATATYPE_VTKPTR then
    let status ← putVTKData
    if status ≠ 0 then throw (.runtime_error "failed to put the vtk data") else return 0
  else if dataType = DATATYPE_VTKEXPLICIT then
    let status ← putArrayIntoBlock
    if status ≠ 0 then throw (.runtime_error "failed to put the vtk data") else return 0
  else
    throw (.runtime_error "unsupported data type")

end SimPut

/-! ## What readers see of a server -/

/-- The parts of a server that the metadata handlers read. -/
def UniServer.view (s : UniServer) : MetaDataManager × DHTManager × Int :=
  (s.m_metaManager, s.m_dhtManager, s.globalRank)

theorem PutRequest.Phase.view {r : PutRequest} {p p' : PutPhase} {s s' : UniServer}
    (h : r.Phase p p' s s') : s'.view = s.view := by
  cases h with
  | acquire =>
    rw [UniServer.stage_eq]
    rfl
  | _ => rfl

namespace Servers

variable {s t : Servers} {address : String} {out : Outside} {clientID : Int} {bs : BlockSummary}

/-- Readers see the same on all servers. -/
def SameViews (s t : Servers) : Prop := ∀ a, (t.server a).view = (s.server a).view

theorem SameViews.trans {u : Servers} (h : s.SameViews t) (h' : t.SameViews u) : s.SameViews u :=
  fun a => (h' a).trans (h a)

theorem sameViews_put {u : UniServer} (h : u.view = (s.server address).view) :
    s.SameViews (s.put address u) := by
  intro a
  rw [server_put]
  split
  · rename_i own
    rw [own, h]
  · rfl

/-- A server is asked where to put, and stays as it is. -/
theorem getinfoForput_exit (objSize : UInt64) (dims : Nat) (indexlb indexub : Array3 Int)
    (u : UniServer) :
    exit (getinfoForput objSize dims indexlb indexub ⟨u, []⟩) =
      ⟨u, match BBX.ofIndex dims indexlb indexub >>= u.m_dhtManager.getMetaServerID with
        | .error _ => []
        | .ok named => [{
            m_putMethod := if u.m_schedulerManager.oktoPutMem objSize then RDMAPUT else FILEPUT
            m_metaServerList := (collectAddrs u.m_dhtManager.metaServerIDToAddr
              (.runtime_error "faild to get the coresponding server id in dhtManager")
              named []).1 }]⟩ := by
  unfold getinfoForput
  rw [bind_ok getServer_run]
  cases hq : BBX.ofIndex dims indexlb indexub with
  | error e => rfl
  | ok q =>
    rw [bind_ok (lift_ok rfl)]
    have named : (Except.ok q >>= u.m_dhtManager.getMetaServerID) =
      u.m_dhtManager.getMetaServerID q := rfl
    rw [named]
    cases hm : u.m_dhtManager.getMetaServerID q with
    | error e =>
      rw [bind_error (lift_error rfl)]
      rfl
    | ok metaserverList =>
      rw [bind_ok (lift_ok rfl)]
      cases hc : collectAddrs u.m_dhtManager.metaServerIDToAddr
          (.runtime_error "faild to get the coresponding server id in dhtManager")
          metaserverList [] with
      | mk destAddrs missing =>
        simp only [hc]
        cases missing with
        | none => rfl
        | some e => rfl

theorem sameViews_getinfoForput {objSize : UInt64} {dims : Nat} {indexlb indexub : Array3 Int}
    {ifp : InfoForPut}
    (h : call address (getinfoForput objSize dims indexlb indexub) s = .ok ifp t) :
    s.SameViews t := by
  obtain ⟨_, _, rfl⟩ := call_eq_ok.mp h
  exact sameViews_put (by rw [getinfoForput_exit])

/-- The reply of a put is sent once the block is stored, and the metadata is as before. -/
theorem sameViews_putrawdata {status : Int}
    (h : call address (putrawdata out clientID bs) s = .ok status t) : s.SameViews t := by
  obtain ⟨_, sent, rfl⟩ := call_eq_ok.mp h
  refine sameViews_put ?_
  cases run : UniServer.putData out clientID bs (s.server address) with
  | error e u =>
    have thrown : exit (putrawdata out clientID bs ⟨s.server address, []⟩) = ⟨u, []⟩ := by
      rw [putrawdata, bind_error (onServer_error run)]
      rfl
    rw [thrown] at sent
    cases sent
  | ok _ u =>
    have stored : exit (putrawdata out clientID bs ⟨s.server address, []⟩) = ⟨u, [0]⟩ := by
      rw [putrawdata, bind_ok (onServer_ok run)]
      rfl
    rw [stored]
    obtain ⟨_, _, _, _, _, _, _, _, _, h₁, h₂, h₃, h₄, h₅⟩ :=
      @PutRequest.phases_of_putData ⟨out, clientID, bs⟩ _ _ run
    exact h₅.view.trans (h₄.view.trans (h₃.view.trans (h₂.view.trans h₁.view)))

end Servers

namespace SimPut

variable {p t : SimPut} {reach : Buffer → Outside}
  {putVTKData putArrayIntoBlock : EStateM Stop SimPut Int}
  {step : Nat} {varName : String} {src : Buffer}

theorem onServers_eq_ok {α : Type} {x : EStateM Stop Servers α} {a : α} :
    onServers x p = .ok a t ↔ ∃ s, x p.servers = .ok a s ∧ t = { p with servers := s } :=
  zoom_eq_ok

theorem associate_ok (h : associate p = .ok () t) :
    ∃ addr, t = { p with client := { p.client with m_associatedDataServer := addr } } := by
  unfold associate at h
  rw [bind_ok (get_run _)] at h
  split at h
  · simp only [bind_run_eq_ok, lift_eq_ok] at h
    obtain ⟨addr, _, ⟨_, rfl⟩, done⟩ := h
    cases done
    exact ⟨addr, rfl⟩
  · cases h
    exact ⟨p.client.m_associatedDataServer, rfl⟩

/-- The reply to the question where the block of the caller goes. -/
def infoForPut (p : SimPut) (asked : String) : Except Stop InfoForPut := do
  let bs := p.dataSummary
  let size ← bs.getArraySize bs.m_blockid
  callRemote (getinfoForput size bs.m_dims bs.m_indexlb bs.m_indexub) (p.servers.server asked)

theorem askPlacement_ok {size : UInt64} {ifp : InfoForPut}
    (h : askPlacement p = .ok (size, ifp) t) :
    p.servers.SameViews t.servers ∧
      p.infoForPut t.client.m_associatedDataServer = .ok ifp := by
  unfold askPlacement at h
  rw [bind_ok (get_run _)] at h
  simp only [bind_run_eq_ok, lift_eq_ok] at h
  obtain ⟨size', _, ⟨own, rfl⟩, _, t₁, ha, _, t₂, hm, _, t₃, hg, h⟩ := h
  obtain ⟨addr, rfl⟩ := associate_ok ha
  cases hm
  cases hg
  split at h
  · cases h
  · simp only [bind_run_eq_ok, onServers_eq_ok] at h
    obtain ⟨ifp', _, ⟨s, asked, rfl⟩, done⟩ := h
    cases done
    refine ⟨Servers.sameViews_getinfoForput asked, bind_eq_ok.mpr ⟨size, own, ?_⟩⟩
    obtain ⟨rest, sent, _⟩ := Servers.call_eq_ok.mp asked
    show callRemote _ _ = _
    rw [callRemote, Handler.replies, sent]

theorem putFile_ok (h : putFile src p = .ok () t) :
    t.servers = p.servers ∧
      t.client.m_associatedDataServer = p.client.m_associatedDataServer := by
  unfold putFile at h
  rw [bind_ok (get_run _)] at h
  split at h
  · cases h
  · rw [bind_ok (modify_run _ _)] at h
    obtain ⟨m, _, rfl⟩ := zoom_eq_ok.mp h
    exact ⟨rfl, rfl⟩

theorem putRemote_ok {size : UInt64} (h : putRemote reach size src p = .ok () t) :
    p.servers.SameViews t.servers ∧
      t.client.m_associatedDataServer = p.client.m_associatedDataServer := by
  unfold putRemote at h
  rw [bind_ok (get_run _)] at h
  simp only [bind_run_eq_ok, lift_eq_ok, onServers_eq_ok] at h
  obtain ⟨m_segment, _, ⟨_, rfl⟩, _, t₁, hm, _, t₂, hg, status, _, ⟨s, called, rfl⟩, h⟩ := h
  cases hm
  cases hg
  split at h
  · cases h
  · cases h
    exact ⟨Servers.sameViews_putrawdata called, rfl⟩

/-- A put that returns leaves the metadata of every server as it was. -/
theorem putCarGrid_ok {status : Int} (h : putCarGrid reach step varName src p = .ok status t) :
    p.servers.SameViews t.servers ∧
      ∃ ifp, p.infoForPut t.client.m_associatedDataServer = .ok ifp := by
  unfold putCarGrid at h
  obtain ⟨⟨size, ifp⟩, t₁, asked, h⟩ := bind_run_eq_ok.mp h
  obtain ⟨same, info⟩ := askPlacement_ok asked
  simp only at h
  rw [bind_ok (get_run _)] at h
  split at h
  · cases h
  split at h
  · obtain ⟨_, t₂, put, done⟩ := bind_run_eq_ok.mp h
    cases done
    obtain ⟨servers, assoc⟩ := putFile_ok put
    rw [servers, assoc]
    exact ⟨same, ifp, info⟩
  split at h
  · obtain ⟨_, t₂, put, done⟩ := bind_run_eq_ok.mp h
    cases done
    obtain ⟨servers, assoc⟩ := putRemote_ok put
    rw [assoc]
    exact ⟨same.trans servers, ifp, info⟩
  · cases h

theorem putrawdata_ok {status : Int} (grid : p.dataSummary.m_dataType = DATATYPE_CARGRID)
    (h : putrawdata reach putVTKData putArrayIntoBlock step varName src p = .ok status t) :
    p.servers.SameViews t.servers ∧
      ∃ ifp, p.infoForPut t.client.m_associatedDataServer = .ok ifp := by
  unfold putrawdata at h
  rw [bind_ok (get_run _)] at h
  simp only [grid, if_pos] at h
  obtain ⟨_, t₁, put, h⟩ := bind_run_eq_ok.mp h
  split at h
  · cases h
  · cases h
    exact putCarGrid_ok put

end SimPut

end Gorilla
