import Gorilla.Client.ClientForStaging
import Gorilla.Lib.Collective
import Gorilla.Lib.MapFill
import Gorilla.Lib.Runs
import Gorilla.Lib.Traverse
import Gorilla.Server.Gather
import Gorilla.Server.MetaHandlers

/-!
# Starting the servers

All ranks run the same stages and meet in the operations of the communicator. The first rank
writes its address to a file for the clients, and then tells every server where the metadata
servers are. Requests are served from the moment the engine is up.
-/

namespace Gorilla

open HandLock Handler Collective Runs

/-- The stages of `main` and `runRerver`. -/
inductive Stage
  | settings
  | engine
  | barrier
  | masterAddr
  | managers
  | dht
  | address
  | gather
  | endPointsLists
  | masterInfo
  | endPoints
  | metaServers
  | broadcast
  | statefulConfig
  deriving DecidableEq

namespace Stage

def index : Stage → Nat
  | settings => 0
  | engine => 1
  | barrier => 2
  | masterAddr => 3
  | managers => 4
  | dht => 5
  | address => 6
  | gather => 7
  | endPointsLists => 8
  | masterInfo => 9
  | endPoints => 10
  | metaServers => 11
  | broadcast => 12
  | statefulConfig => 13

def all : List Stage :=
  [settings, engine, barrier, masterAddr, managers, dht, address, gather, endPointsLists,
    masterInfo, endPoints, metaServers, broadcast, statefulConfig]

theorem all_index (stage : Stage) : all[stage.index]? = some stage := by
  cases stage <;> rfl

theorem index_of_all {k : Nat} {stage : Stage} (h : all[k]? = some stage) : k = stage.index := by
  have inside : k < all.length := (List.getElem?_eq_some_iff.mp h).1
  exact (List.getElem?_inj inside (by decide : all.Nodup)).mp (h.trans (all_index stage).symm)

theorem index_inj {stage stage' : Stage} (h : stage.index = stage'.index) : stage = stage' := by
  have same := all_index stage
  rw [h, all_index stage'] at same
  exact (Option.some.inj same).symm

/-- `MPI_Barrier`, `MPI_Bcast` and `MPI_Gather`, with the first rank as their root. -/
def kind {P : Type} (root : P) : Stage → Kind P
  | barrier => .barrier
  | masterAddr => .bcast root
  | gather => .gather root
  | endPointsLists => .bcast root
  | _ => .alone

end Stage

/-- The ranks of one start, its settings, and what its engines reach. `objectsDir` says whether
the directory of the block files is there or can be made, `files` what is in it. -/
structure Launch where
  ranks : List Rank
  some_rank : 0 < ranks.length
  lenArray : List Int
  partitionMethod : String := "manual"
  partitionLayout : List Int
  metaserverNum : UInt64
  gloablSettings : Settings := {}
  memLimit : String
  gigabytes : String → Except Stop UInt64
  objectsDir : Bool
  files : Files := {}
  masterInfoOpens : Bool
  out : Outside

namespace Launch

variable (l : Launch)

abbrev Id : Type := Fin l.ranks.length

def root : l.Id := ⟨0, l.some_rank⟩

def endpoint (i : l.Id) : String := (l.ranks.get i).endpoint

/-- The process that listens at an endpoint. -/
def listener (endpoint : Endpoint) : Option l.Id :=
  (List.finRange l.ranks.length).find? fun i => l.endpoint i = endpoint

/-- The constructor of `BlockManager`. Only the first rank looks for the directory. -/
def newBlockManager (rank : l.Id) : Except Stop BlockManager :=
  if rank = l.root ∧ ¬ l.objectsDir then
    .error (.runtime_error "failed to create the objects dir for the block manager")
  else .ok { files := l.files }

def initManager (globalrank : l.Id) (clientStage : ClientForStaging) : Except Stop UniServer := do
  let m_blockManager ← l.newBlockManager globalrank
  let m_schedulerManager ← ScheduleManager.ofMemLimit l.gigabytes l.memLimit
  return {
    globalRank := globalrank
    gloablSettings := l.gloablSettings
    m_blockManager
    m_schedulerManager
    clientStaging := clientStage }

/-- The number of metadata servers is compared as a `size_t`. -/
def initDHT (m : DHTManager) : Except Stop DHTManager := do
  if l.partitionMethod = "SFC" then
    throw (.runtime_error "unsupported SFC currently")
  else if l.partitionMethod = "manual" then
    let totalPartition ← l.partitionLayout.foldlM (fun total parts => int (total * parts)) 1
    if size_t totalPartition ≠ l.metaserverNum then
      throw (.runtime_error "metaserverNum should equals to the product of partitionLayout[i]")
    m.initDHTManually l.lenArray l.partitionLayout
  else
    throw (.runtime_error ("unsuported partition method " ++ l.partitionMethod))

end Launch

/-- `MetaAddrWrapper mdw(i, this->m_endPointsLists[i])` -/
def AddrManager.metaServer (m : AddrManager) (i : Nat) : Except Stop MetaAddrWrapper :=
  match m.m_endPointsLists[i]? with
  | none => .error (.undefined "index past the end of m_endPointsLists")
  | some address => .ok ⟨i, address⟩

/-- The ids of the first servers of the list, with their addresses. -/
def AddrManager.metaServers (m : AddrManager) (metaServerNum : Int) :
    Except Stop (List MetaAddrWrapper) :=
  (List.range metaServerNum.toNat).mapM m.metaServer

def ClientForStaging.connect (out : Outside) (serverList : List String) (m : ClientForStaging) :
    Except Stop ClientForStaging :=
  match initEndPoints out serverList m with
  | .ok _ m' => .ok m'
  | .error e _ => .error e

/-- One rank: how far it has come, and its variables. -/
structure Process where
  place : Nat := 0
  stopped : Option Stop := none
  masterAddr : String := ""
  uniServer : Option UniServer := none
  metaAddrWrapperList : List MetaAddrWrapper := []
  told : Nat := 0
  m_statefulConfig : Bool := false

def nullServer : Stop := .undefined "uniServer is null"

namespace Process

def onServer (p : Process) (f : UniServer → Except Stop UniServer) : Except Stop Process :=
  match p.uniServer with
  | none => .error nullServer
  | some s =>
    match f s with
    | .ok s' => .ok { p with uniServer := some s' }
    | .error e => .error e

/-- Whom the process tells about the metadata servers. -/
def audience (p : Process) : List String :=
  match p.uniServer with
  | none => []
  | some s => if s.m_addrManager.ifMaster then s.m_addrManager.m_endPointsLists else []

/-- What a rank does before it leaves a stage. `sent` is what the root has in its buffer. -/
def code (l : Launch) (sent : String) (i : l.Id) (p : Process) : Stage → Except Stop Process
  | .settings =>
    if UInt64.ofNat l.ranks.length < l.metaserverNum then
      .error (.runtime_error "number of metaserver should less than the number of process")
    else .ok p
  | .engine =>
    if i ≠ l.root then .ok p
    else if 200 ≤ (l.endpoint i).length then .error (.undefined "write past the end of tempAddr")
    else .ok { p with masterAddr := l.endpoint i }
  | .barrier => .ok p
  | .masterAddr =>
    .ok { p with
      masterAddr := if i = l.root then p.masterAddr else String.ofList (cstr sent.toList) }
  | .managers =>
    match l.out.lookup p.masterAddr with
    | .error what => .error (.runtime_error what)
    | .ok _ => do
      let uniServer ← l.initManager i { m_masterAddr := p.masterAddr }
      return { p with uniServer }
  | .dht => p.onServer fun s => do
    return { s with m_dhtManager := ← l.initDHT s.m_dhtManager }
  | .address => p.onServer fun s => do
    let _ ← (l.ranks.get i).sendipStr
    return { s with m_addrManager := { s.m_addrManager with
      ifMaster := i = l.root || s.m_addrManager.ifMaster
      nodeAddr := l.endpoint i } }
  | .gather => .ok p
  | .endPointsLists => p.onServer fun s => do
    return { s with m_addrManager := ← gatherIP l.ranks i (l.endpoint i) s.m_addrManager }
  | .masterInfo =>
    -- `exit(-1)`
    if i = l.root ∧ ¬ l.masterInfoOpens then .error (.runtime_error "Could not open file")
    else .ok p
  | .endPoints => p.onServer fun s => do
    return { s with clientStaging :=
      ← s.clientStaging.connect l.out s.m_addrManager.m_endPointsLists }
  | .metaServers =>
    match p.uniServer with
    | none => .error nullServer
    | some s =>
      if s.m_addrManager.ifMaster then do
        return { p with metaAddrWrapperList :=
          ← s.m_addrManager.metaServers (sizeToInt l.metaserverNum.toNat) }
      else .ok p
  | .broadcast => .ok p
  | .statefulConfig => .ok { p with m_statefulConfig := true }

end Process

/-- All ranks, and the file of the clients. -/
structure Group (l : Launch) where
  process : l.Id → Process
  masterInfo : Option String

inductive StartAct (l : Launch)
  | advance (i : l.Id)
  | tell
  deriving DecidableEq

namespace Group

variable {l : Launch}

def begin (l : Launch) : Group l := ⟨fun _ => {}, none⟩

def place (g : Group l) (i : l.Id) : Nat := (g.process i).place

def put (g : Group l) (i : l.Id) (p : Process) : Group l :=
  { g with process := Function.update g.process i p }

def stop (g : Group l) (i : l.Id) (e : Stop) : Group l :=
  g.put i { g.process i with stopped := some e }

/-- A rank leaves its stage, or ends there with an exception. -/
def leave (g : Group l) (i : l.Id) (stage : Stage) : Group l :=
  match (g.process i).code l (g.process l.root).masterAddr i stage with
  | .error e => g.stop i e
  | .ok p =>
    { g.put i { p with place := p.place + 1 } with
      masterInfo := if stage = .masterInfo ∧ i = l.root then some p.masterAddr else g.masterInfo }

def advance (i : l.Id) (g : Group l) : Except Stop (Group l) :=
  if (g.process i).stopped.isSome then .error (.blocked "the process has ended") else
  match Stage.all[g.place i]? with
  | none => .error (.blocked "margo_wait_for_finalize")
  | some stage =>
    if ¬ (stage.kind l.root).Free (g.place i) g.place i then
      .error (.blocked "a collective operation")
    else if stage = .broadcast ∧ (g.process i).told < (g.process i).audience.length then
      .error (.blocked "updateDHT")
    else .ok (g.leave i stage)

/-- `updateDHT` at one endpoint. A request does not reach a process that has ended. -/
def deliver (g : Group l) (address : String) (endpoint : Endpoint) (p : Process) : Group l :=
  match l.listener endpoint with
  | none => g.stop l.root (.runtime_error "no process listens at the endpoint")
  | some j =>
    if (g.process j).stopped.isSome then
      g.stop l.root (.runtime_error "the process at the endpoint has ended")
    else
      let g' := g.put l.root p
      match (g'.process j).uniServer with
      | none => g'.stop j nullServer
      | some s =>
        match callRemote (updateDHT p.metaAddrWrapperList) s with
        | .error e => g.stop l.root e
        | .ok status =>
          let g'' := g'.put j
            { g'.process j with uniServer := some ((updateDHT p.metaAddrWrapperList).after s) }
          if status ≠ 0 then
            g''.stop l.root (.runtime_error ("failed to update DHT for server: " ++ address))
          else g''

/-- The root tells the next server of its list. -/
def tell (g : Group l) : Except Stop (Group l) :=
  let p := g.process l.root
  if p.stopped.isSome ∨ Stage.all[p.place]? ≠ some .broadcast then
    .error (.blocked "not at the broadcast")
  else
    match p.uniServer, p.audience[p.told]? with
    | some s, some address =>
      match ClientForStaging.lookup l.out address s.clientStaging with
      | .error e _ => .ok (g.stop l.root e)
      | .ok endpoint m => .ok (g.deliver address endpoint
          { p with uniServer := some { s with clientStaging := m }, told := p.told + 1 })
    | _, _ => .error (.blocked "all servers are told")

def step (act : StartAct l) (g : Group l) : Except Stop (Group l) :=
  match act with
  | .advance i => g.advance i
  | .tell => g.tell

end Group

theorem ClientForStaging.connect_cons {out : Outside} {address : String} {list : List String}
    {m m' : ClientForStaging} : m.connect out (address :: list) = .ok m' ↔
      ∃ endpoint, out.lookup address = .ok endpoint ∧
        (m.cacheEndpoint address endpoint).connect out list = .ok m' := by
  unfold connect
  cases own : out.lookup address with
  | ok endpoint =>
    have run : initEndPoints out (address :: list) m =
        initEndPoints out list (m.cacheEndpoint address endpoint) := by
      simp [initEndPoints, List.forM_cons, bind, EStateM.bind, own, raise, runIn, modify_run,
        liftM, monadLift, MonadLift.monadLift]
    simp [run]
  | error what =>
    have run : initEndPoints out (address :: list) m = .error (.runtime_error what) m := by
      simp [initEndPoints, List.forM_cons, bind, EStateM.bind, own, raise, runIn, liftM,
        monadLift, MonadLift.monadLift]
    simp [run]

theorem AddrManager.metaServer_eq_ok {m : AddrManager} {i : Nat} {w : MetaAddrWrapper} :
    m.metaServer i = .ok w ↔ m.m_endPointsLists[i]? = some w.m_addr ∧ w.m_index = i := by
  unfold metaServer
  rcases w with ⟨index, addr⟩
  cases m.m_endPointsLists[i]? <;> simp [eq_comm, and_comm]

/-- The list has an entry for each metadata server. -/
theorem AddrManager.mem_metaServers {m : AddrManager} {n : Int} {ws : List MetaAddrWrapper}
    (h : m.metaServers n = .ok ws) {w : MetaAddrWrapper} : w ∈ ws ↔
      ∃ i : Nat, i < n.toNat ∧ m.m_endPointsLists[i]? = some w.m_addr ∧ w.m_index = i := by
  have entries := Traverse.mapM_eq_ok.mp h
  constructor
  · intro mem
    obtain ⟨i, hi, made⟩ := Traverse.exists_left_of_forall₂ entries mem
    exact ⟨i, List.mem_range.mp hi, metaServer_eq_ok.mp made⟩
  · rintro ⟨i, hi, made⟩
    obtain ⟨w', mem, made'⟩ := Traverse.exists_right_of_forall₂ entries (List.mem_range.mpr hi)
    obtain rfl := Except.ok.inj ((metaServer_eq_ok.mpr made).symm.trans made')
    exact mem

/-- `updateDHT` enters the addresses of the list over what was there. -/
theorem DHTManager.lookup_addAddrs {m : DHTManager} {ws : List MetaAddrWrapper}
    (inj : ∀ w ∈ ws, ∀ w' ∈ ws, w.m_index = w'.m_index → w = w') {k : Int} {a : String} :
    (m.addAddrs ws).metaServerIDToAddr.lookup k = some a ↔
      ⟨k, a⟩ ∈ ws ∨ m.metaServerIDToAddr.lookup k = some a ∧ ∀ w ∈ ws, w.m_index ≠ k := by
  have entry : (∃ w ∈ ws, w.m_index = k ∧ w.m_addr = a) ↔ (⟨k, a⟩ : MetaAddrWrapper) ∈ ws :=
    ⟨fun ⟨w, mem, hk, ha⟩ => by rw [← hk, ← ha]; exact mem, fun mem => ⟨_, mem, rfl, rfl⟩⟩
  rw [← entry]
  exact MapFill.lookup_fill inj m.metaServerIDToAddr

namespace Launch

variable {l : Launch}

/-- The boxes of the partitions come without addresses. -/
theorem initDHTManually_addrs {lenArray partitionLayout : List Int} {m m' : DHTManager}
    (run : m.initDHTManually lenArray partitionLayout = .ok m') :
    m'.metaServerIDToAddr = m.metaServerIDToAddr := by
  unfold DHTManager.initDHTManually at run
  by_cases short : lenArray.length ≠ partitionLayout.length
  · rw [if_pos short] at run
    obtain ⟨_, thrown, _⟩ := bind_eq_ok.mp run
    cases thrown
  · rw [if_neg short] at run
    obtain ⟨_, _, run⟩ := bind_eq_ok.mp run
    by_cases many : DEFAULT_MAX_DIM < partitionLayout.length
    · rw [if_pos many] at run
      obtain ⟨_, thrown, _⟩ := bind_eq_ok.mp run
      cases thrown
    · rw [if_neg many] at run
      obtain ⟨_, _, run⟩ := bind_eq_ok.mp run
      cases run
      rfl

theorem newBlockManager_eq_ok {i : l.Id} {m : BlockManager} : l.newBlockManager i = .ok m ↔
    (i = l.root → l.objectsDir = true) ∧ m = { files := l.files } := by
  unfold newBlockManager
  split
  · rename_i absent
    simp [absent.1, absent.2]
  · rename_i there
    rw [Except.ok.injEq, eq_comm]
    refine (and_iff_right fun root => ?_).symm
    simpa [root] using there

/-- The managers know their rank, and no other server yet. -/
theorem initManager_eq_ok {i : l.Id} {clientStage : ClientForStaging} {s : UniServer} :
    l.initManager i clientStage = .ok s ↔
    (i = l.root → l.objectsDir = true) ∧
      ∃ m, ScheduleManager.ofMemLimit l.gigabytes l.memLimit = .ok m ∧
        s = {
          globalRank := i
          gloablSettings := l.gloablSettings
          m_blockManager := { files := l.files }
          m_schedulerManager := m
          clientStaging := clientStage } := by
  rw [initManager, bind_eq_ok]
  constructor
  · rintro ⟨b, hb, rest⟩
    obtain ⟨there, rfl⟩ := newBlockManager_eq_ok.mp hb
    obtain ⟨m, hm, made⟩ := bind_eq_ok.mp rest
    cases made
    exact ⟨there, m, hm, rfl⟩
  · rintro ⟨there, m, hm, rfl⟩
    exact ⟨_, newBlockManager_eq_ok.mpr ⟨there, rfl⟩, bind_eq_ok.mpr ⟨m, hm, rfl⟩⟩

theorem initDHT_eq_ok {m m' : DHTManager} : l.initDHT m = .ok m' ↔
    l.partitionMethod = "manual" ∧
      (∃ total, l.partitionLayout.foldlM (fun total parts => int (total * parts)) 1 = .ok total ∧
        size_t total = l.metaserverNum) ∧
      m.initDHTManually l.lenArray l.partitionLayout = .ok m' := by
  unfold initDHT
  by_cases sfc : l.partitionMethod = "SFC"
  · rw [if_pos sfc, sfc]
    simp [throw, throwThe, MonadExceptOf.throw]
  · rw [if_neg sfc]
    by_cases manual : l.partitionMethod = "manual"
    · rw [if_pos manual, bind_eq_ok]
      constructor
      · rintro ⟨total, product, run⟩
        by_cases same : size_t total = l.metaserverNum
        · rw [if_neg (not_not.mpr same)] at run
          exact ⟨manual, ⟨total, product, same⟩, run⟩
        · rw [if_pos same] at run
          obtain ⟨_, thrown, _⟩ := bind_eq_ok.mp run
          cases thrown
      · rintro ⟨_, ⟨total, product, same⟩, run⟩
        refine ⟨total, product, ?_⟩
        rw [if_neg (not_not.mpr same)]
        exact run
    · rw [if_neg manual]
      simp [manual, throw, throwThe, MonadExceptOf.throw]

end Launch

namespace Process

variable {l : Launch} {i : l.Id} {p p' : Process} {sent : String} {stage : Stage}

theorem onServer_eq_ok {f : UniServer → Except Stop UniServer} : p.onServer f = .ok p' ↔
    ∃ s s', p.uniServer = some s ∧ f s = .ok s' ∧ p' = { p with uniServer := some s' } := by
  unfold onServer
  cases p.uniServer with
  | none => simp
  | some s => cases hf : f s <;> simp [hf, eq_comm]

/-- The addresses of the metadata servers come from nothing a rank does itself. -/
def SameTables (l : Launch) (i : l.Id) (stage : Stage) (p p' : Process) : Prop :=
  ∀ s', p'.uniServer = some s' →
    (stage = .managers ∧ ∃ addr, l.initManager i { m_masterAddr := addr } = .ok s') ∨
    ∃ s, p.uniServer = some s ∧
      s'.m_dhtManager.metaServerIDToAddr = s.m_dhtManager.metaServerIDToAddr

/-- What a rank does in a stage leaves its place to `leave`. -/
structure Leaves (l : Launch) (i : l.Id) (stage : Stage) (p p' : Process) : Prop where
  place : p'.place = p.place
  stopped : p'.stopped = p.stopped
  told : p'.told = p.told
  wrappers : stage ≠ .metaServers → p'.metaAddrWrapperList = p.metaAddrWrapperList
  tables : SameTables l i stage p p'

theorem SameTables.of_eq (same : p'.uniServer = p.uniServer) :
    SameTables l i stage p p' :=
  fun s' own => .inr ⟨s', same ▸ own, rfl⟩

theorem Leaves.of_server {s s' : UniServer} (own : p.uniServer = some s)
    (tables : s'.m_dhtManager.metaServerIDToAddr = s.m_dhtManager.metaServerIDToAddr) :
    Leaves l i stage p { p with uniServer := some s' } := by
  refine ⟨rfl, rfl, rfl, fun _ => rfl, fun t ht => .inr ⟨s, own, ?_⟩⟩
  obtain rfl := Option.some.inj ht
  exact tables

theorem code_settings : p.code l sent i .settings = .ok p' ↔
    l.metaserverNum ≤ UInt64.ofNat l.ranks.length ∧ p' = p := by
  simp only [code]
  split <;> simp_all [eq_comm]

theorem code_engine : p.code l sent i .engine = .ok p' ↔
    (i = l.root → (l.endpoint i).length < 200) ∧
      p' = { p with masterAddr := if i = l.root then l.endpoint i else p.masterAddr } := by
  simp only [code]
  by_cases root : i = l.root
  · rw [if_neg (not_not.mpr root), if_pos root]
    split <;> simp_all [eq_comm]
  · rw [if_pos root, if_neg root, Except.ok.injEq]
    exact ⟨fun same => ⟨fun own => absurd own root, same.symm⟩, fun h => h.2.symm⟩

theorem code_managers : p.code l sent i .managers = .ok p' ↔
    ∃ endpoint s, l.out.lookup p.masterAddr = .ok endpoint ∧
      l.initManager i { m_masterAddr := p.masterAddr } = .ok s ∧
      p' = { p with uniServer := some s } := by
  simp only [code]
  cases own : l.out.lookup p.masterAddr with
  | error what => simp
  | ok endpoint =>
    rw [bind_eq_ok]
    constructor
    · rintro ⟨s, hs, made⟩
      cases made
      exact ⟨endpoint, s, rfl, hs, rfl⟩
    · rintro ⟨_, s, _, hs, rfl⟩
      exact ⟨s, hs, rfl⟩

theorem code_dht : p.code l sent i .dht = .ok p' ↔ ∃ s m, p.uniServer = some s ∧
    l.initDHT s.m_dhtManager = .ok m ∧
      p' = { p with uniServer := some { s with m_dhtManager := m } } := by
  simp only [code, onServer_eq_ok, bind_eq_ok]
  constructor
  · rintro ⟨s, _, own, ⟨m, hm, made⟩, rfl⟩
    cases made
    exact ⟨s, m, own, hm, rfl⟩
  · rintro ⟨s, m, own, hm, rfl⟩
    exact ⟨s, _, own, ⟨m, hm, rfl⟩, rfl⟩

theorem code_address : p.code l sent i .address = .ok p' ↔ ∃ s, p.uniServer = some s ∧
    (∃ sendipStr, (l.ranks.get i).sendipStr = .ok sendipStr) ∧
      p' = { p with uniServer := some { s with m_addrManager := { s.m_addrManager with
        ifMaster := i = l.root || s.m_addrManager.ifMaster
        nodeAddr := l.endpoint i } } } := by
  simp only [code, onServer_eq_ok, bind_eq_ok]
  constructor
  · rintro ⟨s, _, own, ⟨sendipStr, hs, made⟩, rfl⟩
    cases made
    exact ⟨s, own, ⟨sendipStr, hs⟩, rfl⟩
  · rintro ⟨s, own, ⟨sendipStr, hs⟩, rfl⟩
    exact ⟨s, _, own, ⟨sendipStr, hs, rfl⟩, rfl⟩

theorem code_endPointsLists : p.code l sent i .endPointsLists = .ok p' ↔
    ∃ s m, p.uniServer = some s ∧ gatherIP l.ranks i (l.endpoint i) s.m_addrManager = .ok m ∧
      p' = { p with uniServer := some { s with m_addrManager := m } } := by
  simp only [code, onServer_eq_ok, bind_eq_ok]
  constructor
  · rintro ⟨s, _, own, ⟨m, hm, made⟩, rfl⟩
    cases made
    exact ⟨s, m, own, hm, rfl⟩
  · rintro ⟨s, m, own, hm, rfl⟩
    exact ⟨s, _, own, ⟨m, hm, rfl⟩, rfl⟩

theorem code_masterInfo : p.code l sent i .masterInfo = .ok p' ↔
    (i = l.root → l.masterInfoOpens = true) ∧ p' = p := by
  simp only [code]
  split
  · rename_i closed
    simp [closed.1, closed.2]
  · rename_i opened
    rw [Except.ok.injEq, eq_comm]
    refine (and_iff_right fun root => ?_).symm
    simpa [root] using opened

theorem code_endPoints : p.code l sent i .endPoints = .ok p' ↔ ∃ s m, p.uniServer = some s ∧
    s.clientStaging.connect l.out s.m_addrManager.m_endPointsLists = .ok m ∧
      p' = { p with uniServer := some { s with clientStaging := m } } := by
  simp only [code, onServer_eq_ok, bind_eq_ok]
  constructor
  · rintro ⟨s, _, own, ⟨m, hm, made⟩, rfl⟩
    cases made
    exact ⟨s, m, own, hm, rfl⟩
  · rintro ⟨s, m, own, hm, rfl⟩
    exact ⟨s, _, own, ⟨m, hm, rfl⟩, rfl⟩

theorem code_metaServers : p.code l sent i .metaServers = .ok p' ↔ ∃ s, p.uniServer = some s ∧
    ((s.m_addrManager.ifMaster = true ∧ ∃ ws,
        s.m_addrManager.metaServers (sizeToInt l.metaserverNum.toNat) = .ok ws ∧
          p' = { p with metaAddrWrapperList := ws }) ∨
      s.m_addrManager.ifMaster = false ∧ p' = p) := by
  simp only [code]
  cases p.uniServer with
  | none => simp
  | some s =>
    dsimp only
    cases master : s.m_addrManager.ifMaster with
    | false =>
      rw [if_neg (by decide), Except.ok.injEq]
      constructor
      · intro same
        exact ⟨s, rfl, .inr ⟨master, same.symm⟩⟩
      · rintro ⟨_, own, ⟨master', _⟩ | ⟨_, same⟩⟩
        · rw [← Option.some.inj own, master] at master'
          cases master'
        · exact same.symm
    | true =>
      rw [if_pos rfl, bind_eq_ok]
      constructor
      · rintro ⟨ws, hws, made⟩
        cases made
        exact ⟨s, rfl, .inl ⟨master, ws, hws, rfl⟩⟩
      · rintro ⟨_, own, ⟨_, ws, hws, rfl⟩ | ⟨master', _⟩⟩
        · rw [← Option.some.inj own] at hws
          exact ⟨ws, hws, rfl⟩
        · rw [← Option.some.inj own, master] at master'
          cases master'

end Process

namespace Launch

variable {l : Launch} {i : l.Id} {p p' : Process} {sent : String} {stage : Stage}

theorem leaves_self : Process.Leaves l i stage p p :=
  ⟨rfl, rfl, rfl, fun _ => rfl, .of_eq rfl⟩

theorem leaves (run : p.code l sent i stage = .ok p') : Process.Leaves l i stage p p' := by
  cases stage with
  | settings =>
    obtain ⟨_, rfl⟩ := Process.code_settings.mp run
    exact leaves_self
  | engine =>
    obtain ⟨_, rfl⟩ := Process.code_engine.mp run
    exact ⟨rfl, rfl, rfl, fun _ => rfl, .of_eq rfl⟩
  | barrier =>
    cases run
    exact leaves_self
  | masterAddr =>
    cases run
    exact ⟨rfl, rfl, rfl, fun _ => rfl, .of_eq rfl⟩
  | managers =>
    obtain ⟨_, s, _, made, rfl⟩ := Process.code_managers.mp run
    refine ⟨rfl, rfl, rfl, fun _ => rfl, fun s' own => .inl ⟨rfl, p.masterAddr, ?_⟩⟩
    rw [made]
    exact congrArg Except.ok (Option.some.inj own)
  | dht =>
    obtain ⟨s, m, own, hm, rfl⟩ := Process.code_dht.mp run
    exact .of_server own (initDHTManually_addrs (initDHT_eq_ok.mp hm).2.2)
  | address =>
    obtain ⟨s, own, _, rfl⟩ := Process.code_address.mp run
    exact .of_server own rfl
  | gather =>
    cases run
    exact leaves_self
  | endPointsLists =>
    obtain ⟨s, m, own, _, rfl⟩ := Process.code_endPointsLists.mp run
    exact .of_server own rfl
  | masterInfo =>
    obtain ⟨_, rfl⟩ := Process.code_masterInfo.mp run
    exact leaves_self
  | endPoints =>
    obtain ⟨s, m, own, _, rfl⟩ := Process.code_endPoints.mp run
    exact .of_server own rfl
  | metaServers =>
    obtain ⟨s, own, ⟨_, ws, _, rfl⟩ | ⟨_, rfl⟩⟩ := Process.code_metaServers.mp run
    · exact ⟨rfl, rfl, rfl, fun other => absurd rfl other, .of_eq rfl⟩
    · exact leaves_self
  | broadcast =>
    cases run
    exact leaves_self
  | statefulConfig =>
    cases run
    exact ⟨rfl, rfl, rfl, fun _ => rfl, .of_eq rfl⟩

end Launch

end Gorilla
