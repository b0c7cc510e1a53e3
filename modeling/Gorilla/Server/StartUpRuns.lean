import Gorilla.Server.StartUpPlaces

/-!
# Runs of the start

The ranks, and the requests of the first rank, come in any order. Whoever has the list of the
servers knows that all of them have come to the gather with their managers.
-/

namespace Gorilla

open HandLock Handler Collective Runs

namespace Group

variable {l : Launch} {g g' : Group l} {i j : l.Id}

def program (l : Launch) : List (Kind l.Id) := Stage.all.map (Stage.kind l.root)

theorem program_index (l : Launch) (stage : Stage) :
    (program l)[stage.index]? = some (stage.kind l.root) := by
  rw [program, List.getElem?_map, Stage.all_index, Option.map_some]

/-- The order of the stages, the variables of each rank, and what the servers were told. -/
structure Sound (g : Group l) : Prop where
  ordered : Ordered (program l) g.place
  each : ∀ i, l.ProcessAt i (g.process i)
  masterInfo : ∀ a, g.masterInfo = some a →
    Stage.masterInfo.index < g.place l.root ∧ a = l.endpoint l.root
  tables : ∀ i s, (g.process i).uniServer = some s → ∀ k a,
    s.m_dhtManager.metaServerIDToAddr.lookup k = some a ↔
      l.Told (g.process l.root).told i ∧ l.Entry k a

theorem sound_begin (l : Launch) : (begin l).Sound where
  ordered := ordered_start
  each _ := .early (Nat.zero_le _) rfl
    (fun late => absurd late (Nat.not_lt_zero Stage.engine.index))
    (fun late => absurd late (Nat.not_lt_zero Stage.masterAddr.index)) rfl
  masterInfo _ h := by cases h
  tables _ _ h := by cases h

/-- Whoever has the list of the servers knows that all servers are there. -/
theorem Sound.up (h : g.Sound) (late : Stage.endPointsLists.index < g.place i) (j : l.Id) :
    ∃ s, (g.process j).uniServer = some s ∧ l.ServerAt j (g.place j) s := by
  have gathered : Stage.gather.index ≤ g.place j :=
    h.ordered.gathered (program_index l .gather) (program_index l .endPointsLists) (by decide)
      late j
  exact (h.each j).server (Nat.lt_of_lt_of_le (by decide) gathered)

theorem process_put (p : Process) : (g.put i p).process j = if j = i then p else g.process j :=
  Function.update_apply _ _ _ _

theorem place_put {p : Process} (same : p.place = (g.process i).place) :
    (g.put i p).place = g.place := by
  funext j
  rw [Group.place, process_put]
  split
  · rename_i own
    rw [same, own]
    rfl
  · rfl

/-- Putting a rank's variables back with the same server and what the root said. -/
theorem Sound.put {p : Process} (h : g.Sound) (same : p.place = (g.process i).place)
    (at_p : l.ProcessAt i p) (told : i = l.root → p.told = (g.process i).told)
    (tables : ∀ s, p.uniServer = some s → ∀ k a,
      s.m_dhtManager.metaServerIDToAddr.lookup k = some a ↔
        l.Told (g.process l.root).told i ∧ l.Entry k a) : (g.put i p).Sound := by
  have place := place_put same
  have root : ((g.put i p).process l.root).told = (g.process l.root).told := by
    rw [process_put]
    split
    · rename_i own
      rw [told own.symm, own]
    · rfl
  refine ⟨place ▸ h.ordered, fun j => ?_, place ▸ h.masterInfo, fun j s => ?_⟩
  · rw [process_put]
    split
    · rename_i own
      subst own
      exact at_p
    · exact h.each j
  · rw [root, process_put]
    split
    · rename_i own
      subst own
      exact tables s
    · exact h.tables j s

theorem Sound.stop (h : g.Sound) (i : l.Id) (e : Stop) : (g.stop i e).Sound :=
  h.put rfl ((h.each i).congr rfl rfl rfl rfl rfl) (fun _ => rfl) (h.tables i)

/-- A rank that leaves its stage goes on to the next. -/
theorem place_leave {stage : Stage} {p : Process}
    (run : (g.process i).code l (g.process l.root).masterAddr i stage = .ok p) :
    (g.leave i stage).place = Function.update g.place i (g.place i + 1) := by
  have leaves := Launch.leaves run
  unfold Group.leave
  rw [run]
  funext j
  rw [Function.update_apply, Group.place]
  dsimp only
  rw [process_put]
  split
  · rw [leaves.place]
    rfl
  · rfl

theorem process_leave {stage : Stage} {p : Process}
    (run : (g.process i).code l (g.process l.root).masterAddr i stage = .ok p) :
    (g.leave i stage).process j =
      if j = i then { p with place := p.place + 1 } else g.process j := by
  unfold Group.leave
  rw [run]
  exact process_put _

theorem masterInfo_leave {stage : Stage} {p : Process}
    (run : (g.process i).code l (g.process l.root).masterAddr i stage = .ok p) :
    (g.leave i stage).masterInfo =
      if stage = .masterInfo ∧ i = l.root then some p.masterAddr else g.masterInfo := by
  unfold Group.leave
  rw [run]

theorem told_leave {stage : Stage} {p : Process}
    (run : (g.process i).code l (g.process l.root).masterAddr i stage = .ok p) :
    ((g.leave i stage).process l.root).told = (g.process l.root).told := by
  rw [process_leave run]
  split
  · rename_i root
    subst root
    exact (Launch.leaves run).told
  · rfl

theorem Sound.leave {stage : Stage} (h : g.Sound) (here : Stage.all[g.place i]? = some stage)
    (free : (stage.kind l.root).Free (g.place i) g.place i) : (g.leave i stage).Sound := by
  have index : g.place i = stage.index := Stage.index_of_all here
  rcases ok_or_error ((g.process i).code l (g.process l.root).masterAddr i stage) with
    ⟨p, run⟩ | ⟨e, run⟩
  · have leaves := Launch.leaves run
    refine ⟨?_, fun j => ?_, fun a file => ?_, fun j s own => ?_⟩
    · rw [place_leave run]
      refine h.ordered.advance ?_ free
      rw [program, List.getElem?_map, here, Option.map_some]
    · rw [process_leave run]
      split
      · rename_i own
        subst own
        refine (h.each j).leave index (fun bcast => ?_) run
        -- the root left its engine before it could send
        rw [bcast] at free index
        have come : Stage.masterAddr.index ≤ g.place l.root := index ▸ free
        exact (h.each l.root).master (Nat.lt_of_lt_of_le (by decide) come) rfl
      · exact h.each j
    · rw [place_leave run]
      rw [masterInfo_leave run] at file
      split at file
      · rename_i root
        obtain ⟨rfl, rfl⟩ := root
        rw [Function.update_self, index]
        refine ⟨Nat.lt_succ_self _, ?_⟩
        obtain ⟨_, rfl⟩ := Process.code_masterInfo.mp run
        rw [← Option.some.inj file]
        exact (h.each l.root).master (by
          rw [show (g.process l.root).place = Stage.masterInfo.index from index]
          decide) rfl
      · obtain ⟨late, same⟩ := h.masterInfo a file
        exact ⟨Nat.lt_of_lt_of_le late (Collective.le_advance g.place i l.root), same⟩
    · rw [told_leave run]
      rw [process_leave run] at own
      split at own
      · rename_i same
        subst same
        rcases leaves.tables s own with ⟨rfl, addr, made⟩ | ⟨s', own', tables⟩
        · -- a rank without managers was told nothing
          obtain ⟨_, m, _, rfl⟩ := Launch.initManager_eq_ok.mp made
          intro k a
          refine iff_of_false (by rintro ⟨⟩) fun both => ?_
          by_cases untold : (g.process l.root).told = 0
          · rw [untold] at both
            exact Launch.not_told_zero j both.1
          · have late : Stage.metaServers.index < g.place l.root :=
              Nat.lt_of_not_le fun early => untold ((h.each l.root).untold early)
            have gathered : Stage.gather.index ≤ g.place j :=
              h.ordered.gathered (program_index l .gather) (program_index l .endPointsLists)
                (by decide) (Nat.lt_trans (by decide) late) j
            rw [index] at gathered
            exact absurd gathered (by decide)
        · intro k a
          rw [tables]
          exact h.tables j s' own' k a
      · exact h.tables j s own
  · unfold Group.leave
    rw [run]
    exact h.stop i e

theorem Sound.advance (h : g.Sound) (run : g.advance i = .ok g') : g'.Sound := by
  unfold Group.advance at run
  split at run
  · cases run
  · split at run
    · cases run
    · rename_i stage here
      split at run
      · cases run
      · rename_i free
        split at run
        · cases run
        · cases run
          exact h.leave here (not_not.mp free)

/-- `updateDHT` replies with zero and enters the addresses. -/
theorem updateDHT_served (ws : List MetaAddrWrapper) (s : UniServer) :
    callRemote (updateDHT ws) s = .ok 0 ∧
      (updateDHT ws).after s = { s with m_dhtManager := s.m_dhtManager.addAddrs ws } := ⟨rfl, rfl⟩

/-- A request that is served. -/
theorem deliver_eq {address : String} {endpoint : Endpoint} {p : Process} {u : UniServer}
    (listens : l.listener endpoint = some j) (running : (g.process j).stopped = none)
    (server : ((g.put l.root p).process j).uniServer = some u) :
    g.deliver address endpoint p = (g.put l.root p).put j { (g.put l.root p).process j with
      uniServer := some { u with
        m_dhtManager := u.m_dhtManager.addAddrs p.metaAddrWrapperList } } := by
  unfold Group.deliver
  rw [listens]
  dsimp only
  rw [running, if_neg (by simp), server]
  dsimp only
  rw [(updateDHT_served _ u).1, (updateDHT_served _ u).2]
  dsimp only
  rw [if_neg (by decide)]

/-- An index has one address. -/
theorem wrapper_inj {ws : List MetaAddrWrapper}
    (entries : ∀ w, w ∈ ws ↔ l.Entry w.m_index w.m_addr) :
    ∀ w ∈ ws, ∀ w' ∈ ws, w.m_index = w'.m_index → w = w' := by
  intro w hw w' hw' index
  have entry := (entries w).mp hw
  rw [index] at entry
  have addr := entry.inj ((entries w').mp hw')
  rcases w with ⟨n, b⟩
  rcases w' with ⟨n', b'⟩
  exact congrArg₂ MetaAddrWrapper.mk index addr

section Deliver

variable {p : Process} {s : UniServer} {m : ClientForStaging} (h : g.Sound)
  (here : g.place l.root = Stage.broadcast.index)
  (own : (g.process l.root).uniServer = some s) (cached : l.Cached m)
  (hp : p = { g.process l.root with
    uniServer := some { s with clientStaging := m }
    told := (g.process l.root).told + 1 })

include here in
theorem root_late : Stage.metaServers.index < (g.process l.root).place := by
  show Stage.metaServers.index < g.place l.root
  rw [here]
  decide

include h here in
theorem Sound.gathered_all (j : l.Id) : Stage.gather.index ≤ g.place j :=
  h.ordered.gathered (i := l.root) (program_index l .gather) (program_index l .endPointsLists)
    (by decide) (here ▸ by decide) j

include h here own cached hp

/-- The server at an endpoint, which may be the first rank's own. -/
theorem Sound.served_put (j : l.Id) : ∃ u, ((g.put l.root p).process j).uniServer = some u ∧
    l.ServerAt j (g.place j) u := by
  obtain ⟨t, ht, at_t⟩ := h.up (i := l.root) (here ▸ by decide) j
  rw [process_put]
  by_cases root : j = l.root
  · subst root
    rw [if_pos rfl, hp]
    rw [own] at ht
    cases ht
    exact ⟨_, rfl, at_t.cache cached⟩
  · rw [if_neg root]
    exact ⟨t, ht, at_t⟩

theorem Sound.each_put (i : l.Id) : l.ProcessAt i ((g.put l.root p).process i) := by
  rw [process_put]
  split
  · rename_i root
    subst root
    obtain ⟨t, ht, at_t⟩ := h.up (i := l.root) (here ▸ by decide) l.root
    rw [own] at ht
    cases ht
    rw [hp]
    exact (h.each l.root).serve (Nat.lt_trans (by decide) (root_late here)) (at_t.cache cached)
      fun early => absurd (root_late here) (Nat.not_lt.mpr early)
  · exact h.each i

omit here cached in
/-- The tables of the servers are those before the request was sent. -/
theorem Sound.tables_put {t : UniServer} (ht : ((g.put l.root p).process i).uniServer = some t)
    (k : Int) (a : String) : t.m_dhtManager.metaServerIDToAddr.lookup k = some a ↔
      l.Told (g.process l.root).told i ∧ l.Entry k a := by
  rw [process_put] at ht
  split at ht
  · rename_i root
    subst root
    rw [hp] at ht
    cases ht
    exact h.tables l.root s own k a
  · exact h.tables i t ht k a

/-- The server that is told has the entries, those told before keep them. -/
theorem Sound.deliver {address : String} {endpoint : Endpoint}
    (next : (g.process l.root).audience[(g.process l.root).told]? = some address)
    (resolved : l.out.lookup address = .ok endpoint) : (g.deliver address endpoint p).Sound := by
  cases listens : l.listener endpoint with
  | none =>
    unfold Group.deliver
    rw [listens]
    exact h.stop l.root _
  | some j =>
    cases running : (g.process j).stopped with
    | some e =>
      unfold Group.deliver
      rw [listens]
      dsimp only
      rw [running, if_pos Option.isSome_some]
      exact h.stop l.root _
    | none =>
      obtain ⟨u, hu, at_u⟩ := h.served_put here own cached hp j
      have scanned := (h.each l.root).audience (Nat.lt_trans (by decide) (root_late here))
      have wrappers : ∀ w, w ∈ p.metaAddrWrapperList ↔ l.Entry w.m_index w.m_addr := by
        intro w
        rw [hp]
        exact (h.each l.root).mem_wrappers (root_late here)
      have each := h.each_put here own cached hp
      have late := h.gathered_all here
      have before : (g.put l.root p).place = g.place := place_put (by rw [hp])
      have sent : ((g.put l.root p).process l.root).told = (g.process l.root).told + 1 := by
        rw [process_put, if_pos rfl, hp]
      -- the request changes the table of one server, and nothing else of any rank
      obtain ⟨q, hq⟩ : ∃ q, q = { (g.put l.root p).process j with uniServer := some { u with
        m_dhtManager := u.m_dhtManager.addAddrs p.metaAddrWrapperList } } := ⟨_, rfl⟩
      rw [deliver_eq listens running hu, ← hq]
      have place : ((g.put l.root p).put j q).place = g.place :=
        (place_put (by rw [hq])).trans before
      have told : (((g.put l.root p).put j q).process l.root).told =
          (g.process l.root).told + 1 := by
        rw [process_put]
        split
        · rename_i root
          subst root
          rw [hq]
          exact sent
        · exact sent
      have at_place : ((g.put l.root p).process j).place = g.place j := congrFun before j
      refine ⟨place ▸ h.ordered, fun i => ?_, place ▸ h.masterInfo, fun i t ht k a => ?_⟩
      · rw [process_put]
        split
        · rename_i same
          subst same
          rw [hq]
          exact (each i).serve (at_place ▸ Nat.lt_of_lt_of_le (by decide) (late i))
            (at_place ▸ at_u.addAddrs (late i) _) (each i).untold
        · exact each i
      · rw [told, Launch.told_succ scanned next resolved, listens, Option.some.injEq]
        rw [process_put] at ht
        split at ht
        · rename_i same
          subst same
          rw [hq] at ht
          cases ht
          rw [DHTManager.lookup_addAddrs (wrapper_inj wrappers), h.tables_put own hp hu, wrappers]
          tauto
        · rename_i other
          rw [h.tables_put own hp ht]
          constructor
          · rintro ⟨told', entry⟩
            exact ⟨.inl told', entry⟩
          · rintro ⟨told' | reached, entry⟩
            · exact ⟨told', entry⟩
            · exact absurd reached.symm other

end Deliver

theorem Sound.tell (h : g.Sound) (run : g.tell = .ok g') : g'.Sound := by
  unfold Group.tell at run
  dsimp only at run
  split at run
  · cases run
  · rename_i at_broadcast
    have here : g.place l.root = Stage.broadcast.index := by
      by_contra other
      refine at_broadcast (.inr fun there => other (Stage.index_of_all there))
    split at run
    · rename_i s address own next
      split at run
      · cases run
        exact h.stop l.root _
      · rename_i endpoint m found
        cases run
        have cached : l.Cached s.clientStaging := by
          obtain ⟨t, ht, at_t⟩ := h.up (i := l.root) (here ▸ by decide) l.root
          rw [own] at ht
          cases ht
          exact at_t.cached
        obtain ⟨resolved, cached'⟩ := cached.lookup found
        exact h.deliver here own cached' rfl next resolved
    · cases run

theorem Sound.step {act : StartAct l} (h : g.Sound) (run : Group.step act g = .ok g') :
    g'.Sound := by
  cases act with
  | advance i => exact Sound.advance (i := i) h run
  | tell => exact h.tell run

theorem Sound.of_run {acts : List (StartAct l)} (run : Run (Steps Group.step) (begin l) acts g) :
    g.Sound :=
  run.invariant (sound_begin l) fun _ _ _ h hstep => h.step hstep

/-- What a request of the first rank, or of a client that has read the file, can rely on, however
far the ranks have come. -/
structure Safe (g : Group l) : Prop where
  file : ∀ a, g.masterInfo = some a → a = l.endpoint l.root
  up : g.masterInfo.isSome ∨ 0 < (g.process l.root).told → ∀ i, ∃ s m,
    (g.process i).uniServer = some s ∧ s.globalRank = i ∧ l.initDHT {} = .ok m ∧
      s.m_dhtManager.metaServerIDToBBX = m.metaServerIDToBBX
  master : ∀ i, (g.process i).uniServer.isSome →
    cstr (g.process i).masterAddr.toList = cstr (l.endpoint l.root).toList
  lists : ∀ i j s t, (g.process i).uniServer = some s → (g.process j).uniServer = some t →
    s.m_addrManager.m_endPointsLists ≠ [] → t.m_addrManager.m_endPointsLists ≠ [] →
      s.m_addrManager.m_endPointsLists = t.m_addrManager.m_endPointsLists
  tables : ∀ i s, (g.process i).uniServer = some s →
    s.m_dhtManager.metaServerIDToAddr = ∅ ∨
      ∀ k a, s.m_dhtManager.metaServerIDToAddr.lookup k = some a ↔ l.Entry k a

theorem cstr_cstr (s : List Char) : cstr (cstr s) = cstr s :=
  List.takeWhile_idem

theorem Sound.master (h : g.Sound) (up : (g.process i).uniServer.isSome) :
    cstr (g.process i).masterAddr.toList = cstr (l.endpoint l.root).toList := by
  have late : Stage.managers.index < (g.process i).place := by
    by_contra early
    rw [(h.each i).null (Nat.le_of_not_lt early)] at up
    cases up
  by_cases root : i = l.root
  · rw [(h.each i).master (Nat.lt_trans (by decide) late) root, root]
  · rw [(h.each i).sent (Nat.lt_trans (by decide) late) root, String.toList_ofList, cstr_cstr]

/-- A list that is not empty is the one all ranks scan. -/
theorem Sound.scanned {s : UniServer} (h : g.Sound) (own : (g.process i).uniServer = some s)
    (some_addr : s.m_addrManager.m_endPointsLists ≠ []) :
    l.addresses = .ok s.m_addrManager.m_endPointsLists := by
  have late : Stage.managers.index < (g.process i).place := by
    by_contra early
    rw [(h.each i).null (Nat.le_of_not_lt early)] at own
    cases own
  obtain ⟨t, ht, at_t⟩ := (h.each i).server late
  rw [own] at ht
  cases ht
  obtain ⟨list, addr, before, after⟩ := at_t.addr
  have same : s.m_addrManager.m_endPointsLists = list := by rw [addr]; rfl
  rw [same] at some_addr ⊢
  exact after (Nat.lt_of_not_le fun early => some_addr (before early))

end Group
/-! ## A start of two servers -/

/-- Every address is resolved to itself. -/
def listening : Outside where
  endpoint := ""
  exposed _ := .error "nothing is exposed"
  sendTo _ := .error "nothing is exposed"
  lookup address := .ok address
  eraseRawData _ _ := .ok ()
  UnMarshalDataObject _ := .error "no VTK object"

def twoRanks : List Rank :=
  [zeroed "tcp://a:1" (by decide), zeroed "tcp://b:2" (by decide)]

theorem twoRanks_some : 0 < twoRanks.length := by decide

/-- One partition of four cells for each of two servers. -/
def twoServers : Launch where
  ranks := twoRanks
  some_rank := twoRanks_some
  lenArray := [8]
  partitionLayout := [2]
  metaserverNum := 2
  memLimit := "2G"
  gigabytes subStr :=
    if subStr = "2" then .ok 2147483648 else .error (.runtime_error "stod")
  objectsDir := true
  masterInfoOpens := true
  out := listening

def secondRank : twoServers.Id := ⟨1, by decide⟩

/-- The first rank has told both servers while the second is still in the gather. -/
def toldInGather : List (StartAct twoServers) :=
  List.replicate 2 (.advance secondRank) ++ List.replicate 7 (.advance twoServers.root) ++
    List.replicate 5 (.advance secondRank) ++ List.replicate 5 (.advance twoServers.root) ++
      [.tell, .tell]

end Gorilla
