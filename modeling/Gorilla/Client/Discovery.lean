import Gorilla.Client.PutCarGrid

/-!
# Finding what was put

A reader finds a block through the metadata servers that are responsible for its box, and polls
each of them until it answers. A put of a grid returns without a word to any of them.
-/

namespace Gorilla

open HandLock Handler

/-- What the lookup of the metadata servers of a box sends. -/
theorem getmetaServerList_replies (s : UniServer) (dims : Nat) (indexlb indexub : Array3 Int) :
    (getmetaServerList dims indexlb indexub).replies s =
      match BBX.ofIndex dims indexlb indexub >>= s.m_dhtManager.getMetaServerID with
      | .error (.runtime_error _) => [[]]
      | .error _ => []
      | .ok named => [(collectAddrs s.m_dhtManager.metaServerIDToAddr
          (.runtime_error ("faild to get the coresponding server id in dhtManager for " ++
            "getmetaServerList")) named []).1] := by
  rw [replies, getmetaServerList, bind_ok getServer_run]
  dsimp only
  cases BBX.ofIndex dims indexlb indexub >>= s.m_dhtManager.getMetaServerID with
  | ok named => rfl
  | error e => cases e <;> rfl

theorem getmetaServerList_congr {s s' : UniServer} (dht : s'.m_dhtManager = s.m_dhtManager)
    (dims : Nat) (indexlb indexub : Array3 Int) :
    callRemote (getmetaServerList dims indexlb indexub) s' =
      callRemote (getmetaServerList dims indexlb indexub) s := by
  rw [callRemote, callRemote, getmetaServerList_replies, getmetaServerList_replies, dht]

namespace Servers

variable {s t : Servers} {step : Nat} {varName : String} {dims : Nat} {indexlb indexub : Array3 Int}
  {address : String}

/-- All servers have the boxes of the layout and an address for each partition. -/
structure Serves (s : Servers) (l : Layout) : Prop where
  initialised : ∃ m, DHTManager.initDHTManually l.lenArray l.partitionLayout {} = .ok m ∧
    ∀ a, (s.server a).m_dhtManager.metaServerIDToBBX = m.metaServerIDToBBX
  known : ∀ a k, 0 ≤ k → k < l.count →
    ((s.server a).m_dhtManager.metaServerIDToAddr.lookup k).isSome

theorem Serves.boxes {l : Layout} (h : s.Serves l) (a : String) :
    (s.server a).m_dhtManager.metaServerIDToBBX = l.boxes := by
  obtain ⟨m, hm, hb⟩ := h.initialised
  obtain ⟨_, rfl⟩ := (l.initDHTManually_eq_ok rfl).mp hm
  exact hb a

/-- Polls of a server that nobody changes end with a list after some number of them. -/
def PollEnds (s : Servers) (step : Nat) (varName : String) (dims : Nat)
    (indexlb indexub : Array3 Int) (address : String) : Prop :=
  ∃ n bdList, ClientForSim.pollDescriptors step varName dims indexlb indexub
    (List.replicate n (s.server address)) = .ok bdList

theorem pollEnds_iff : s.PollEnds step varName dims indexlb indexub address ↔
    ∃ bdList, bdList ≠ [] ∧ callRemote (getBlockDescriptorList step varName dims indexlb indexub)
      (s.server address) = .ok bdList := by
  constructor
  · rintro ⟨n, bdList, ends⟩
    obtain ⟨hne, u, hu, reply⟩ := ClientForSim.pollDescriptors_eq_ok ends
    rw [List.eq_of_mem_replicate hu] at reply
    exact ⟨bdList, hne, reply⟩
  · rintro ⟨bdList, hne, reply⟩
    exact ⟨1, bdList, ClientForSim.pollDescriptors_first reply hne []⟩

theorem SameViews.symm (h : s.SameViews t) : t.SameViews s := fun a => (h a).symm

theorem SameViews.metadata (h : s.SameViews t) (a : String) :
    (t.server a).m_metaManager = (s.server a).m_metaManager := congrArg Prod.fst (h a)

theorem SameViews.dht (h : s.SameViews t) (a : String) :
    (t.server a).m_dhtManager = (s.server a).m_dhtManager :=
  congrArg (fun v => v.2.1) (h a)

theorem SameViews.rank (h : s.SameViews t) (a : String) :
    (t.server a).globalRank = (s.server a).globalRank :=
  congrArg (fun v => v.2.2) (h a)

theorem SameViews.pollEnds (h : s.SameViews t)
    (ends : s.PollEnds step varName dims indexlb indexub address) :
    t.PollEnds step varName dims indexlb indexub address := by
  obtain ⟨bdList, hne, reply⟩ := pollEnds_iff.mp ends
  exact pollEnds_iff.mpr
    ⟨bdList, hne, reply_congr hne reply (h.metadata _) (h.dht _) (h.rank _)⟩

/-- The backend of the descriptor the client makes. -/
def backendOf (ifp : InfoForPut) : Int :=
  if ifp.m_putMethod = FILEPUT then BACKEND.FILE else BACKEND.MEM

/-- The responsible servers know the block, and every read inside its box is answered. -/
structure Discoverable (s : Servers) (ifp : InfoForPut) (step : Nat) (varName : String)
    (bs : BlockSummary) : Prop where
  held : ∀ address ∈ ifp.m_metaServerList,
    ∃ rde ∈ (s.server address).m_metaManager.registered step varName,
      rde.m_rawDataID = bs.m_blockid ∧ rde.m_backend = backendOf ifp ∧ rde.m_dims = bs.m_dims ∧
        rde.m_indexlb = bs.m_indexlb ∧ rde.m_indexub = bs.m_indexub
  read : ∀ asked indexlb indexub q b metaList,
    BBX.ofIndex bs.m_dims indexlb indexub = .ok q →
      BBX.ofIndex bs.m_dims bs.m_indexlb bs.m_indexub = .ok b →
        q.WellFormed → (∀ p, q.Contains p → b.Contains p) →
          callRemote (getmetaServerList bs.m_dims indexlb indexub) (s.server asked) = .ok metaList →
            ∀ address ∈ metaList, s.PollEnds step varName bs.m_dims indexlb indexub address

variable {ifp : InfoForPut} {bs : BlockSummary}

theorem SameViews.discoverable (h : s.SameViews t) (found : s.Discoverable ifp step varName bs) :
    t.Discoverable ifp step varName bs where
  held address mem := by
    rw [h.metadata]
    exact found.held address mem
  read asked indexlb indexub q b metaList hq hb wellFormed inside asks address mem := by
    rw [getmetaServerList_congr (h.dht asked)] at asks
    exact h.pollEnds (found.read asked indexlb indexub q b metaList hq hb wellFormed inside asks
      address mem)

end Servers

namespace SimPut

variable {p t : SimPut} {reach : Buffer → Outside}
  {putVTKData putArrayIntoBlock : EStateM Stop SimPut Int} {step : Nat} {varName : String}
  {src : Buffer} {l : Layout} {q : BBX} {asked : String} {ifp : InfoForPut}

/-- The list of a block that meets the domain names a server. -/
theorem infoForPut_list (serves : p.servers.Serves l) (h : p.infoForPut asked = .ok ifp)
    (box : BBX.ofIndex p.dataSummary.m_dims p.dataSummary.m_indexlb p.dataSummary.m_indexub = .ok q)
    (dims : q.m_dims = l.dims) :
    ifp.m_metaServerList = (l.named q).map fun k =>
      ((p.servers.server asked).m_dhtManager.metaServerIDToAddr.lookup k).getD "" := by
  obtain ⟨size, _, reply⟩ := bind_eq_ok.mp h
  have named := l.getMetaServerID_eq (serves.boxes asked) dims
  rw [callRemote, replies, Servers.getinfoForput_exit, box] at reply
  have bound : (Except.ok q >>= (p.servers.server asked).m_dhtManager.getMetaServerID) =
      .ok (l.responsible q) := named
  simp only [bound, l.collectAddrs_responsible (serves.known asked) q] at reply
  exact (congrArg InfoForPut.m_metaServerList (Except.ok.inj reply)).symm

/-- The domain meets the box of the block. -/
def MeetsDomain (l : Layout) (q : BBX) : Prop := ∃ idx, l.Index idx ∧ q.Hits (l.box idx)

/-- A successful put of a grid makes its block discoverable exactly when it was before, so a new
block never becomes it. -/
theorem discoverable_iff (serves : p.servers.Serves l)
    (grid : p.dataSummary.m_dataType = DATATYPE_CARGRID)
    (box : BBX.ofIndex p.dataSummary.m_dims p.dataSummary.m_indexlb p.dataSummary.m_indexub = .ok q)
    (meets : MeetsDomain l q)
    (h : putrawdata reach putVTKData putArrayIntoBlock step varName src p = .ok 0 t) :
    ∃ ifp, p.infoForPut t.client.m_associatedDataServer = .ok ifp ∧
      (t.servers.Discoverable ifp step varName p.dataSummary ↔
        p.servers.Discoverable ifp step varName p.dataSummary) ∧
      ((∀ address, ∀ rde ∈ (p.servers.server address).m_metaManager.registered step varName,
          rde.m_rawDataID ≠ p.dataSummary.m_blockid) →
        ¬ t.servers.Discoverable ifp step varName p.dataSummary) := by
  obtain ⟨same, ifp, info⟩ := putrawdata_ok grid h
  have iff : t.servers.Discoverable ifp step varName p.dataSummary ↔
      p.servers.Discoverable ifp step varName p.dataSummary :=
    ⟨same.symm.discoverable, same.discoverable⟩
  refine ⟨ifp, info, iff, fun new found => ?_⟩
  obtain ⟨idx, hidx, hits⟩ := meets
  have dims : q.m_dims = l.dims := hits.dims.trans (l.dims_box hidx)
  have named : l.id idx ∈ l.named q := l.mem_named.mpr ⟨idx, hidx, rfl, hits⟩
  have mem := List.mem_map_of_mem (f := fun k =>
    ((p.servers.server
      t.client.m_associatedDataServer).m_dhtManager.metaServerIDToAddr.lookup k).getD
      "") named
  rw [← infoForPut_list serves info box dims] at mem
  obtain ⟨rde, known, same, _⟩ := (iff.mp found).held _ mem
  exact new _ rde known same

/-! ## A put into memory and a put into a file -/

theorem fourCells_fit : (0 : Int) < 4 ∧ 4 ≤ INT_MAX := by decide

/-- Four cells on one server. -/
def fourCells : Layout := .single 4 fourCells_fit

/-- The only server has the whole domain and so much memory left. -/
def staging (m_avaliableMem : UInt64) : Servers where
  server _ :=
    { m_schedulerManager := ⟨m_avaliableMem⟩
      m_dhtManager :=
        { metaServerIDToBBX := fourCells.boxes
          metaServerIDToAddr := (∅ : AList fun _ : Int => String).insert 0 "server0" } }

theorem staging_serves (m_avaliableMem : UInt64) : (staging m_avaliableMem).Serves fourCells where
  initialised := ⟨_, (fourCells.initDHTManually_eq_ok rfl).mpr ⟨⟨by decide, by decide⟩, rfl⟩,
    fun _ => rfl⟩
  known a k h0 hk := by
    have count : fourCells.count = 1 := by decide
    obtain rfl : k = 0 := by omega
    rfl

/-- A client about to put the four cells of the domain, one byte each. -/
def fourBytes (m_avaliableMem : UInt64) : SimPut where
  client := { m_associatedDataServer := "server0" }
  servers := staging m_avaliableMem
  dataSummary :=
    { m_dataType := DATATYPE_CARGRID
      m_blockid := "density_0_0"
      m_dims := 1
      m_indexub := ⟨3, 0, 0⟩
      m_arrayList := [{ m_arrayName := "density_0_0", m_elemSize := 1, m_elemNum := 4 }] }

/-- The whole segment can be pulled. -/
def exposeSegment (segment : Buffer) : Outside where
  endpoint := "client0"
  exposed n := .ok (segment.take n.toNat)
  sendTo _ := .ok ()
  lookup := .ok
  eraseRawData _ _ := .ok ()
  UnMarshalDataObject := .ok

def putFour : EStateM Stop SimPut Int :=
  putrawdata exposeSegment (return 0) (return 0) 0 "density" [some 1, some 2, some 3, some 4]

/-- Which of the two placements is chosen depends on the memory that is left. -/
def placed (m_putMethod : String) : InfoForPut := ⟨m_putMethod, ["server0"]⟩

/-- In memory and in a file: the put returns zero, and nobody can find the block. -/
theorem put_undiscovered :
    (∃ t, putFour (fourBytes 8) = .ok 0 t ∧
      (fourBytes 8).infoForPut "server0" = .ok (placed RDMAPUT) ∧
      ¬ t.servers.Discoverable (placed RDMAPUT) 0 "density" (fourBytes 8).dataSummary) ∧
    ∃ t, putFour (fourBytes 0) = .ok 0 t ∧
      (fourBytes 0).infoForPut "server0" = .ok (placed FILEPUT) ∧
      ¬ t.servers.Discoverable (placed FILEPUT) 0 "density" (fourBytes 0).dataSummary := by
  have none : ∀ s : Servers, (s.server "server0").m_metaManager.registered 0 "density" = [] →
      ∀ ifp, ifp.m_metaServerList = ["server0"] →
        ¬ s.Discoverable ifp 0 "density" (fourBytes 8).dataSummary := by
    intro s empty ifp list found
    obtain ⟨rde, mem, _⟩ := found.held "server0" (by rw [list]; exact List.mem_singleton_self _)
    rw [empty] at mem
    cases mem
  refine ⟨⟨_, rfl, by decide +kernel, ?_⟩, ⟨_, rfl, by decide +kernel, ?_⟩⟩
  · exact none _ (by decide +kernel) _ rfl
  · exact none _ (by decide +kernel) _ rfl

theorem putFour_discoverable_iff : ∃ t, putFour (fourBytes 8) = .ok 0 t ∧
    ∃ ifp, (fourBytes 8).infoForPut t.client.m_associatedDataServer = .ok ifp ∧
      (t.servers.Discoverable ifp 0 "density" (fourBytes 8).dataSummary ↔
        (staging 8).Discoverable ifp 0 "density" (fourBytes 8).dataSummary) := by
  obtain ⟨t, put⟩ : ∃ t, putFour (fourBytes 8) = .ok 0 t := ⟨_, rfl⟩
  have meets : MeetsDomain fourCells ⟨0, [⟨0, 3⟩]⟩ :=
    ⟨[0], .cons (by decide) .nil, by decide⟩
  obtain ⟨ifp, info, same, _⟩ := discoverable_iff (staging_serves 8) rfl rfl meets put
  exact ⟨t, put, ifp, info, same⟩

end SimPut

end Gorilla
