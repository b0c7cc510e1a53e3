import Gorilla.Server.StartUp

/-!
# What a rank has at each place

The variables of a rank are given by how far it has come: which managers its server has, what
list it scanned, and whose address it took for the master's.
-/

namespace Gorilla

open HandLock Handler

/-- The managers that the start leaves as they were made. -/
def UniServer.others (s : UniServer) : UniServer :=
  { s with m_dhtManager := {}, m_addrManager := {}, clientStaging := {} }

namespace Launch

variable (l : Launch)

/-- The list that every rank scans out of the gathered slots. -/
def addresses : Except Stop (List String) := do
  let slots ← rcvString l.ranks
  IPTOOL.split slots 'H' 'E'

def addrManager (i : l.Id) (k : Nat) (list : List String) : AddrManager where
  m_endPointsLists := list
  ifMaster := Stage.address.index < k ∧ i = l.root
  nodeAddr := if Stage.address.index < k then l.endpoint i else ""

/-- The cache has endpoints of the engine only. -/
def Cached (m : ClientForStaging) : Prop :=
  ∀ address endpoint, m.m_serverToEndpoints.lookup address = some endpoint →
    l.out.lookup address = .ok endpoint

/-- The server of a rank that stands at a place. -/
structure ServerAt (i : l.Id) (k : Nat) (s : UniServer) : Prop where
  others : l.initManager i {} = .ok s.others
  unpartitioned : k ≤ Stage.dht.index → s.m_dhtManager.metaServerIDToBBX = ∅
  partitioned : Stage.dht.index < k → ∃ m, l.initDHT {} = .ok m ∧
    s.m_dhtManager.metaServerIDToBBX = m.metaServerIDToBBX
  addr : ∃ list, s.m_addrManager = l.addrManager i k list ∧
    (k ≤ Stage.endPointsLists.index → list = []) ∧
    (Stage.endPointsLists.index < k → l.addresses = .ok list)
  unaddressed : k < Stage.gather.index → s.m_dhtManager.metaServerIDToAddr = ∅
  cached : l.Cached s.clientStaging

/-- The variables of a rank. -/
structure ProcessAt (i : l.Id) (p : Process) : Prop where
  null : p.place ≤ Stage.managers.index → p.uniServer = none
  server : Stage.managers.index < p.place → ∃ s, p.uniServer = some s ∧ l.ServerAt i p.place s
  master : Stage.engine.index < p.place → i = l.root → p.masterAddr = l.endpoint i
  sent : Stage.masterAddr.index < p.place → i ≠ l.root →
    p.masterAddr = String.ofList (cstr (l.endpoint l.root).toList)
  wrappers : Stage.metaServers.index < p.place → i = l.root → ∃ list, l.addresses = .ok list ∧
    ({ m_endPointsLists := list } : AddrManager).metaServers (sizeToInt l.metaserverNum.toNat) =
      .ok p.metaAddrWrapperList
  untold : p.place ≤ Stage.metaServers.index → p.told = 0

end Launch

namespace Launch

variable {l : Launch} {i : l.Id} {p p' : Process} {s : UniServer} {k : Nat} {sent : String}
  {stage : Stage}

theorem addrManager_next (list : List String) (other : k ≠ Stage.address.index) :
    l.addrManager i (k + 1) list = l.addrManager i k list := by
  have same : Stage.address.index < k + 1 ↔ Stage.address.index < k := by omega
  simp only [addrManager, same]

/-- A stage that does not touch the server leaves it as the next place has it. -/
theorem ServerAt.next (h : l.ServerAt i k s) (dht : k ≠ Stage.dht.index)
    (address : k ≠ Stage.address.index) (lists : k ≠ Stage.endPointsLists.index) :
    l.ServerAt i (k + 1) s where
  others := h.others
  unpartitioned before := h.unpartitioned (by omega)
  partitioned after := h.partitioned (by omega)
  addr := by
    obtain ⟨list, own, before, after⟩ := h.addr
    refine ⟨list, ?_, fun early => before (by omega), fun late => after (by omega)⟩
    rw [own, addrManager_next list address]
  unaddressed early := h.unaddressed (by omega)
  cached := h.cached

theorem serverAt_initManager {addr : String}
    (made : l.initManager i { m_masterAddr := addr } = .ok s) :
    l.ServerAt i (Stage.managers.index + 1) s := by
  obtain ⟨dir, m, limit, rfl⟩ := initManager_eq_ok.mp made
  exact {
    others := initManager_eq_ok.mpr ⟨dir, m, limit, rfl⟩
    unpartitioned := fun _ => rfl
    partitioned := fun late => absurd late (by decide)
    addr := ⟨[], rfl, fun _ => rfl, fun late => absurd late (by decide)⟩
    unaddressed := fun _ => rfl
    cached := fun _ _ h => by cases h }

theorem ServerAt.globalRank (h : l.ServerAt i k s) : s.globalRank = i := by
  obtain ⟨_, m, _, others⟩ := initManager_eq_ok.mp h.others
  exact congrArg UniServer.globalRank others

theorem ServerAt.dht_empty (h : l.ServerAt i Stage.dht.index s) : s.m_dhtManager = {} := by
  have boxes := h.unpartitioned (Nat.le_refl _)
  have empty := h.unaddressed (by decide)
  rcases hm : s.m_dhtManager with ⟨b, a⟩
  rw [hm] at boxes empty
  exact congrArg₂ DHTManager.mk boxes empty

theorem ServerAt.initDHT {m : DHTManager} (h : l.ServerAt i Stage.dht.index s)
    (run : l.initDHT s.m_dhtManager = .ok m) :
    l.ServerAt i (Stage.dht.index + 1) { s with m_dhtManager := m } where
  others := h.others
  unpartitioned early := absurd early (by decide)
  partitioned _ := ⟨m, h.dht_empty ▸ run, rfl⟩
  addr := by
    obtain ⟨list, own, before, _⟩ := h.addr
    exact ⟨list, own, fun _ => before (by decide), fun late => absurd late (by decide)⟩
  unaddressed _ := by
    rw [initDHTManually_addrs (initDHT_eq_ok.mp run).2.2]
    exact h.unaddressed (by decide)
  cached := h.cached

theorem ServerAt.address (h : l.ServerAt i Stage.address.index s) :
    l.ServerAt i (Stage.address.index + 1) { s with m_addrManager := { s.m_addrManager with
      ifMaster := i = l.root || s.m_addrManager.ifMaster
      nodeAddr := l.endpoint i } } where
  others := h.others
  unpartitioned early := absurd early (by decide)
  partitioned _ := h.partitioned (by decide)
  addr := by
    obtain ⟨list, own, before, _⟩ := h.addr
    refine ⟨list, ?_, fun _ => before (by decide), fun late => absurd late (by decide)⟩
    rw [own]
    simp [addrManager]
  unaddressed _ := h.unaddressed (by decide)
  cached := h.cached

theorem ServerAt.endPointsLists {m : AddrManager}
    (h : l.ServerAt i Stage.endPointsLists.index s)
    (run : gatherIP l.ranks i (l.endpoint i) s.m_addrManager = .ok m) :
    l.ServerAt i (Stage.endPointsLists.index + 1) { s with m_addrManager := m } where
  others := h.others
  unpartitioned early := absurd early (by decide)
  partitioned _ := h.partitioned (by decide)
  addr := by
    obtain ⟨list, own, before, _⟩ := h.addr
    obtain ⟨slots, ipList, gathered, _, scanned, rfl⟩ := gatherIP_eq_ok.mp run
    have first : (i : Nat) = 0 → i = l.root := fun zero => Fin.ext zero
    refine ⟨ipList, ?_, fun early => absurd early (by decide), fun _ => ?_⟩
    · rw [own, before (Nat.le_refl _)]
      simpa [addrManager, Stage.index] using first
    · rw [addresses, gathered]
      exact scanned
  unaddressed early := absurd early (by decide)
  cached := h.cached

theorem Cached.cacheEndpoint {m : ClientForStaging} {address : String} {endpoint : Endpoint}
    (h : l.Cached m) (own : l.out.lookup address = .ok endpoint) :
    l.Cached (m.cacheEndpoint address endpoint) := by
  intro address' endpoint' found
  by_cases same : address' = address
  · subst same
    rw [ClientForStaging.cacheEndpoint, AList.lookup_insert] at found
    rw [own, Option.some.inj found]
  · rw [ClientForStaging.cacheEndpoint, AList.lookup_insert_ne same] at found
    exact h _ _ found

theorem Cached.connect {list : List String} {m m' : ClientForStaging} (h : l.Cached m)
    (run : m.connect l.out list = .ok m') : l.Cached m' := by
  induction list generalizing m with
  | nil =>
    cases run
    exact h
  | cons address list ih =>
    obtain ⟨endpoint, own, rest⟩ := ClientForStaging.connect_cons.mp run
    exact ih (h.cacheEndpoint own) rest

/-- A lookup in the cache gives what the engine gives. -/
theorem Cached.lookup {address : String} {endpoint : Endpoint} {m m' : ClientForStaging}
    (h : l.Cached m) (run : ClientForStaging.lookup l.out address m = .ok endpoint m') :
    l.out.lookup address = .ok endpoint ∧ l.Cached m' := by
  unfold ClientForStaging.lookup at run
  rw [bind_ok (get_run m)] at run
  cases found : m.m_serverToEndpoints.lookup address with
  | some e =>
    rw [found] at run
    cases run
    exact ⟨h _ _ found, h⟩
  | none =>
    rw [found] at run
    obtain ⟨e, _, hraise, rest⟩ := bind_run_eq_ok.mp run
    cases own : l.out.lookup address with
    | error what =>
      rw [own] at hraise
      cases hraise
    | ok e' =>
      rw [own] at hraise
      cases hraise
      cases rest
      exact ⟨rfl, h.cacheEndpoint own⟩

theorem ServerAt.cache {m : ClientForStaging} (h : l.ServerAt i k s) (cached : l.Cached m) :
    l.ServerAt i k { s with clientStaging := m } :=
  ⟨h.others, h.unpartitioned, h.partitioned, h.addr, h.unaddressed, cached⟩

theorem ServerAt.connect {m : ClientForStaging} (h : l.ServerAt i Stage.endPoints.index s)
    (run : s.clientStaging.connect l.out s.m_addrManager.m_endPointsLists = .ok m) :
    l.ServerAt i (Stage.endPoints.index + 1) { s with clientStaging := m } := by
  have next := h.next (by decide) (by decide) (by decide)
  exact next.cache (h.cached.connect run)

theorem ServerAt.addAddrs (h : l.ServerAt i k s) (late : Stage.gather.index ≤ k)
    (ws : List MetaAddrWrapper) :
    l.ServerAt i k { s with m_dhtManager := s.m_dhtManager.addAddrs ws } :=
  ⟨h.others, h.unpartitioned, h.partitioned, h.addr,
    fun early => absurd late (Nat.not_le.mpr early), h.cached⟩

/-- A stage that only waits. -/
theorem ProcessAt.next (h : l.ProcessAt i p) (engine : p.place ≠ Stage.engine.index)
    (masterAddr : p.place ≠ Stage.masterAddr.index)
    (managers : p.place ≠ Stage.managers.index) (dht : p.place ≠ Stage.dht.index)
    (address : p.place ≠ Stage.address.index) (lists : p.place ≠ Stage.endPointsLists.index)
    (metaServers : p.place ≠ Stage.metaServers.index) :
    l.ProcessAt i { p with place := p.place + 1 } where
  null early := h.null (Nat.le_of_succ_le early)
  server late := by
    have late' : Stage.managers.index < p.place := by
      have : Stage.managers.index < p.place + 1 := late
      omega
    obtain ⟨s, own, server⟩ := h.server late'
    exact ⟨s, own, server.next dht address lists⟩
  master late := h.master (by
    have : Stage.engine.index < p.place + 1 := late
    omega)
  sent late := h.sent (by
    have : Stage.masterAddr.index < p.place + 1 := late
    omega)
  wrappers late := h.wrappers (by
    have : Stage.metaServers.index < p.place + 1 := late
    omega)
  untold early := h.untold (Nat.le_of_succ_le early)

theorem ProcessAt.early (place : p.place ≤ Stage.managers.index) (null : p.uniServer = none)
    (master : Stage.engine.index < p.place → i = l.root → p.masterAddr = l.endpoint i)
    (sent : Stage.masterAddr.index < p.place → i ≠ l.root →
      p.masterAddr = String.ofList (cstr (l.endpoint l.root).toList))
    (told : p.told = 0) : l.ProcessAt i p where
  null _ := null
  server late := absurd place (Nat.not_le.mpr late)
  master := master
  sent := sent
  wrappers late := absurd (Nat.lt_of_lt_of_le late place) (by decide)
  untold _ := told

/-- A stage that changes the server. -/
theorem ProcessAt.onServer {s' : UniServer} (h : l.ProcessAt i p) (here : p.place = stage.index)
    (managers : Stage.managers.index < stage.index)
    (metaServers : stage.index < Stage.metaServers.index)
    (server : l.ServerAt i (stage.index + 1) s') :
    l.ProcessAt i { p with uniServer := some s', place := p.place + 1 } where
  null early := by
    have early' : stage.index + 1 ≤ Stage.managers.index := here ▸ early
    omega
  server _ := ⟨s', rfl, here.symm ▸ server⟩
  master _ := h.master (here ▸ Nat.lt_trans (by decide) managers)
  sent _ := h.sent (here ▸ Nat.lt_trans (by decide) managers)
  wrappers late := by
    have late' : Stage.metaServers.index < stage.index + 1 := here ▸ late
    omega
  untold _ := h.untold (here ▸ Nat.le_of_lt metaServers)

/-- A server that is up goes on to another state, and the root has told one more. -/
theorem ProcessAt.serve {s' : UniServer} {told : Nat} (h : l.ProcessAt i p)
    (late : Stage.managers.index < p.place) (server : l.ServerAt i p.place s')
    (untold : p.place ≤ Stage.metaServers.index → told = 0) :
    l.ProcessAt i { p with uniServer := some s', told := told } where
  null early := absurd late (Nat.not_lt.mpr early)
  server _ := ⟨s', rfl, server⟩
  master := h.master
  sent := h.sent
  wrappers := h.wrappers
  untold := untold

/-- A rank that has its wrappers, if it is the first, goes on with them. -/
theorem ProcessAt.metaServers {ws : List MetaAddrWrapper} (h : l.ProcessAt i p)
    (here : p.place = Stage.metaServers.index) (own : p.uniServer = some s)
    (next : l.ServerAt i (p.place + 1) s)
    (wrappers : i = l.root → ∃ list, l.addresses = .ok list ∧
      ({ m_endPointsLists := list } : AddrManager).metaServers
        (sizeToInt l.metaserverNum.toNat) = .ok ws) :
    l.ProcessAt i { p with metaAddrWrapperList := ws, place := p.place + 1 } where
  null early := absurd (here ▸ early : Stage.metaServers.index + 1 ≤ _) (by decide)
  server _ := ⟨s, own, next⟩
  master _ := h.master (here ▸ by decide)
  sent _ := h.sent (here ▸ by decide)
  wrappers _ := wrappers
  untold _ := h.untold (Nat.le_of_eq here)

/-- A rank that leaves its stage has what the next place says. -/
theorem ProcessAt.leave (h : l.ProcessAt i p) (here : p.place = stage.index)
    (received : stage = .masterAddr → sent = l.endpoint l.root)
    (run : p.code l sent i stage = .ok p') :
    l.ProcessAt i { p' with place := p'.place + 1 } := by
  have server : Stage.managers.index < stage.index → ∀ s, p.uniServer = some s →
      l.ServerAt i stage.index s := by
    intro late s own
    obtain ⟨s', own', server⟩ := h.server (here ▸ late)
    rw [own] at own'
    cases own'
    exact here ▸ server
  have waits : stage ∉ [Stage.engine, .masterAddr, .managers, .dht, .address, .endPointsLists,
      .metaServers] → l.ProcessAt i { p with place := p.place + 1 } := by
    intro plain
    have other : ∀ other ∈ [Stage.engine, .masterAddr, .managers, .dht, .address,
        .endPointsLists, .metaServers], p.place ≠ other.index := by
      intro other mem same
      exact plain (Stage.index_inj (here.symm.trans same) ▸ mem)
    exact h.next (other _ (by decide)) (other _ (by decide)) (other _ (by decide))
      (other _ (by decide)) (other _ (by decide)) (other _ (by decide)) (other _ (by decide))
  cases stage with
  | settings =>
    obtain ⟨_, rfl⟩ := Process.code_settings.mp run
    exact waits (by decide)
  | engine =>
    obtain ⟨_, rfl⟩ := Process.code_engine.mp run
    exact .early (Nat.succ_le_of_lt (here ▸ by decide : p.place < _)) (h.null (here ▸ by decide))
      (fun _ root => if_pos root)
      (fun late => absurd (here ▸ late : _ < Stage.engine.index + 1) (by decide))
      (h.untold (here ▸ by decide))
  | barrier =>
    cases run
    exact waits (by decide)
  | masterAddr =>
    cases run
    refine .early (Nat.succ_le_of_lt (here ▸ by decide : p.place < _)) (h.null (here ▸ by decide))
      (fun _ root => ?_) (fun _ other => ?_) (h.untold (here ▸ by decide))
    · exact (if_pos root).trans (h.master (here ▸ by decide) root)
    · rw [received rfl]
      exact if_neg other
  | managers =>
    obtain ⟨_, s, _, made, rfl⟩ := Process.code_managers.mp run
    exact {
      null := fun early => absurd (here ▸ early : Stage.managers.index + 1 ≤ _) (by decide)
      server := fun _ => ⟨s, rfl, here.symm ▸ serverAt_initManager made⟩
      master := fun _ => h.master (here ▸ by decide)
      sent := fun _ => h.sent (here ▸ by decide)
      wrappers := fun late => absurd (here ▸ late : _ < Stage.managers.index + 1) (by decide)
      untold := fun _ => h.untold (here ▸ by decide) }
  | dht =>
    obtain ⟨s, m, own, hm, rfl⟩ := Process.code_dht.mp run
    exact h.onServer here (by decide) (by decide) ((server (by decide) s own).initDHT hm)
  | address =>
    obtain ⟨s, own, _, rfl⟩ := Process.code_address.mp run
    exact h.onServer here (by decide) (by decide) (server (by decide) s own).address
  | gather =>
    cases run
    exact waits (by decide)
  | endPointsLists =>
    obtain ⟨s, m, own, hm, rfl⟩ := Process.code_endPointsLists.mp run
    exact h.onServer here (by decide) (by decide) ((server (by decide) s own).endPointsLists hm)
  | masterInfo =>
    obtain ⟨_, rfl⟩ := Process.code_masterInfo.mp run
    exact waits (by decide)
  | endPoints =>
    obtain ⟨s, m, own, hm, rfl⟩ := Process.code_endPoints.mp run
    exact h.onServer here (by decide) (by decide) ((server (by decide) s own).connect hm)
  | metaServers =>
    obtain ⟨s, own, made⟩ := Process.code_metaServers.mp run
    have at_s := server (by decide) s own
    obtain ⟨list, addr, _, scanned⟩ := at_s.addr
    have next : l.ServerAt i (p.place + 1) s :=
      here.symm ▸ at_s.next (by decide) (by decide) (by decide)
    have master : s.m_addrManager.ifMaster = decide (i = l.root) := by
      rw [addr]
      simp [addrManager, Stage.index]
    rcases made with ⟨_, ws, hws, rfl⟩ | ⟨other, rfl⟩
    · refine h.metaServers here own next fun _ => ⟨list, scanned (by decide), ?_⟩
      rw [addr] at hws
      exact hws
    · refine h.metaServers here own next fun root => ?_
      rw [master, decide_eq_false_iff_not] at other
      exact absurd root other
  | broadcast =>
    cases run
    exact waits (by decide)
  | statefulConfig =>
    cases run
    have next := waits (by decide)
    exact ⟨next.null, next.server, next.master, next.sent, next.wrappers, next.untold⟩

/-- Stopping and configuring a rank leave its variables. -/
theorem ProcessAt.congr (h : l.ProcessAt i p) (place : p'.place = p.place)
    (uniServer : p'.uniServer = p.uniServer) (masterAddr : p'.masterAddr = p.masterAddr)
    (wrappers : p'.metaAddrWrapperList = p.metaAddrWrapperList) (told : p'.told = p.told) :
    l.ProcessAt i p' where
  null early := uniServer ▸ h.null (place ▸ early)
  server late := by
    rw [uniServer, place]
    exact h.server (place ▸ late)
  master late root := masterAddr ▸ h.master (place ▸ late) root
  sent late other := masterAddr ▸ h.sent (place ▸ late) other
  wrappers late root := by
    rw [wrappers]
    exact h.wrappers (place ▸ late) root
  untold early := told ▸ h.untold (place ▸ early)

/-- The list of the root, once it has it, is the list that all scan. -/
theorem ProcessAt.audience (h : l.ProcessAt l.root p)
    (late : Stage.endPointsLists.index < p.place) : l.addresses = .ok p.audience := by
  obtain ⟨s, own, server⟩ := h.server (Nat.lt_trans (by decide) late)
  obtain ⟨list, addr, _, scanned⟩ := server.addr
  have master : s.m_addrManager.ifMaster = true := by
    rw [addr]
    have address : Stage.address.index < p.place := Nat.lt_trans (by decide) late
    simp [addrManager, address]
  rw [scanned late, Process.audience, own]
  dsimp only
  rw [master, if_pos rfl, addr]
  rfl

/-- The first addresses of the list lead to the rank. -/
def Told (l : Launch) (told : Nat) (i : l.Id) : Prop :=
  ∃ list, l.addresses = .ok list ∧ ∃ address ∈ list.take told,
    ∃ endpoint, l.out.lookup address = .ok endpoint ∧ l.listener endpoint = some i

/-- What the metadata servers are to be known by. -/
def Entry (l : Launch) (k : Int) (address : String) : Prop :=
  ∃ list, l.addresses = .ok list ∧ ∃ i : Nat, i < (sizeToInt l.metaserverNum.toNat).toNat ∧
    list[i]? = some address ∧ k = i

theorem not_told_zero (i : l.Id) : ¬ l.Told 0 i := by
  rintro ⟨list, _, address, mem, _⟩
  simp at mem

theorem told_succ {list : List String} {told : Nat} {address : String} {endpoint : Endpoint}
    (scanned : l.addresses = .ok list) (next : list[told]? = some address)
    (own : l.out.lookup address = .ok endpoint) :
    l.Told (told + 1) i ↔ l.Told told i ∨ l.listener endpoint = some i := by
  constructor
  · rintro ⟨list', scanned', a, mem, e, he, hi⟩
    obtain rfl := Except.ok.inj (scanned.symm.trans scanned')
    rw [List.take_add_one, next, List.mem_append] at mem
    rcases mem with old | new
    · exact .inl ⟨list, scanned, a, old, e, he, hi⟩
    · obtain rfl := List.mem_singleton.mp new
      obtain rfl := Except.ok.inj (own.symm.trans he)
      exact .inr hi
  · rintro (⟨list', scanned', a, mem, found⟩ | reached)
    · obtain rfl := Except.ok.inj (scanned.symm.trans scanned')
      exact ⟨list, scanned, a, (List.take_subset_take_left _ (Nat.le_succ _)) mem, found⟩
    · refine ⟨list, scanned, address, ?_, endpoint, own, reached⟩
      rw [List.take_add_one, next]
      exact List.mem_append_right _ (List.mem_singleton_self _)

/-- The list the root sends has the entries. -/
theorem ProcessAt.mem_wrappers (h : l.ProcessAt l.root p)
    (late : Stage.metaServers.index < p.place) {w : MetaAddrWrapper} :
    w ∈ p.metaAddrWrapperList ↔ l.Entry w.m_index w.m_addr := by
  obtain ⟨list, scanned, made⟩ := h.wrappers late rfl
  rw [AddrManager.mem_metaServers made, Entry]
  constructor
  · rintro ⟨i, hi, found, index⟩
    exact ⟨list, scanned, i, hi, found, index⟩
  · rintro ⟨list', scanned', i, hi, found, index⟩
    obtain rfl := Except.ok.inj (scanned.symm.trans scanned')
    exact ⟨i, hi, found, index⟩

theorem Entry.inj {k : Int} {a a' : String} (h : l.Entry k a) (h' : l.Entry k a') : a = a' := by
  obtain ⟨list, scanned, i, _, found, hk⟩ := h
  obtain ⟨list', scanned', j, _, found', hk'⟩ := h'
  obtain rfl := Except.ok.inj (scanned.symm.trans scanned')
  obtain rfl : i = j := by omega
  exact Option.some.inj (found.symm.trans found')

end Launch

end Gorilla
