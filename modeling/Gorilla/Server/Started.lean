import Gorilla.Server.StartUpRuns
import Mathlib.Algebra.BigOperators.Fin
import Mathlib.Algebra.Order.BigOperators.Group.Finset

/-!
# The end of the start

With addresses that can be gathered and a partition for each metadata server, no rank ends with
an exception and none waits for ever: every order of the stages comes to its end after the same
number of steps, and then all servers know the same.
-/

namespace Gorilla

open HandLock Handler Collective Runs

namespace Launch

variable {l : Launch}

/-- The settings fit the ranks, the engine reaches every rank under its own address, and the
first rank has its directory and its file. -/
structure Valid (l : Launch) : Prop where
  gatherable : Gatherable l.ranks
  distinct : (l.ranks.map Rank.endpoint).Nodup
  resolves : ∀ i, l.out.lookup (l.endpoint i) = .ok (l.endpoint i)
  partitions : ∃ m, l.initDHT {} = .ok m
  enough : l.metaserverNum.toNat ≤ l.ranks.length
  memory : ∃ m, ScheduleManager.ofMemLimit l.gigabytes l.memLimit = .ok m
  objectsDir : l.objectsDir = true
  masterInfoOpens : l.masterInfoOpens = true

namespace Valid

variable {i : l.Id} {p : Process} {s : UniServer} {sent : String} {stage : Stage}

theorem gatherIP_ok (v : l.Valid) (globalRank : Int) (endpoint : String) (m : AddrManager) :
    ∃ m', gatherIP l.ranks globalRank endpoint m = .ok m' ∧
      m'.m_endPointsLists = m.m_endPointsLists ++ l.ranks.map Rank.endpoint :=
  (gatherIP_iff l.ranks globalRank endpoint m).mpr v.gatherable

/-- All ranks scan the addresses of the ranks, in their order. -/
theorem addresses (v : l.Valid) : l.addresses = .ok (l.ranks.map Rank.endpoint) := by
  obtain ⟨m', run, list⟩ := v.gatherIP_ok 0 "" {}
  obtain ⟨slots, ipList, gathered, _, scanned, rfl⟩ := gatherIP_eq_ok.mp run
  obtain rfl : ipList = l.ranks.map Rank.endpoint := list
  rw [Launch.addresses, gathered]
  exact scanned

theorem getElem_endpoints (l : Launch) (i : l.Id) :
    (l.ranks.map Rank.endpoint)[(i : Nat)]? = some (l.endpoint i) := by
  rw [List.getElem?_map, List.getElem?_eq_getElem i.isLt]
  rfl

theorem endpoint_inj (v : l.Valid) {i j : l.Id} (h : l.endpoint i = l.endpoint j) : i = j := by
  have same : (l.ranks.map Rank.endpoint)[(i : Nat)]? =
      (l.ranks.map Rank.endpoint)[(j : Nat)]? := by
    rw [getElem_endpoints, getElem_endpoints, h]
  have inside : (i : Nat) < (l.ranks.map Rank.endpoint).length := by
    rw [List.length_map]
    exact i.isLt
  exact Fin.ext ((List.getElem?_inj inside v.distinct).mp same)

/-- A request to the address of a rank comes to that rank. -/
theorem listener (v : l.Valid) (i : l.Id) : l.listener (l.endpoint i) = some i := by
  rw [Launch.listener]
  cases found : (List.finRange l.ranks.length).find? fun j => l.endpoint j = l.endpoint i with
  | none =>
    have own := List.find?_eq_none.mp found i (List.mem_finRange i)
    simp at own
  | some j =>
    have same := List.find?_some found
    rw [v.endpoint_inj (of_decide_eq_true same)]

/-- The address without a zero is taken whole. -/
theorem cstr_endpoint (v : l.Valid) (i : l.Id) :
    String.ofList (cstr (l.endpoint i).toList) = l.endpoint i := by
  have unmarked := v.gatherable.unmarked (l.ranks.get i) (List.get_mem l.ranks i)
  rw [Launch.endpoint, Rank.cstr_of_notMem unmarked.2, String.ofList_toList]

theorem metaserverNum_int (v : l.Valid) :
    (sizeToInt l.metaserverNum.toNat).toNat = l.metaserverNum.toNat := by
  have size := v.gatherable.size.2
  have enough := v.enough
  have bound : (msgPaddingLen * l.ranks.length : Int) ≤ 2147483647 := size
  unfold msgPaddingLen at bound
  unfold sizeToInt Int.bmod
  dsimp only
  split <;> omega

theorem metaServers_ok (v : l.Valid) : ∃ ws,
    ({ m_endPointsLists := l.ranks.map Rank.endpoint } : AddrManager).metaServers
      (sizeToInt l.metaserverNum.toNat) = .ok ws := by
  have entries : ∀ i ∈ List.range (sizeToInt l.metaserverNum.toNat).toNat, ∃ w,
      ({ m_endPointsLists := l.ranks.map Rank.endpoint } : AddrManager).metaServer i = .ok w := by
    intro i hi
    rw [List.mem_range, v.metaserverNum_int] at hi
    have inside : i < l.ranks.length := Nat.lt_of_lt_of_le hi v.enough
    exact ⟨⟨i, l.endpoint ⟨i, inside⟩⟩,
      AddrManager.metaServer_eq_ok.mpr ⟨getElem_endpoints l ⟨i, inside⟩, rfl⟩⟩
  obtain ⟨ws, hws⟩ := Traverse.exists_forall₂ entries
  exact ⟨ws, Traverse.mapM_eq_ok.mpr hws⟩

theorem connect_ok (v : l.Valid) {list : List String} (m : ClientForStaging)
    (known : ∀ address ∈ list, ∃ i, address = l.endpoint i) :
    ∃ m', m.connect l.out list = .ok m' := by
  induction list generalizing m with
  | nil => exact ⟨m, rfl⟩
  | cons address list ih =>
    obtain ⟨⟨i, rfl⟩, rest⟩ := List.forall_mem_cons.mp known
    obtain ⟨m', run⟩ := ih (m.cacheEndpoint (l.endpoint i) (l.endpoint i)) rest
    exact ⟨m', ClientForStaging.connect_cons.mpr ⟨_, v.resolves i, run⟩⟩

theorem mem_endpoints {address : String} (h : address ∈ l.ranks.map Rank.endpoint) :
    ∃ i, address = l.endpoint i := by
  obtain ⟨r, mem, rfl⟩ := List.mem_map.mp h
  obtain ⟨i, rfl⟩ := List.mem_iff_get.mp mem
  exact ⟨i, rfl⟩

/-- No stage ends with an exception. -/
theorem code_ok (v : l.Valid) (h : l.ProcessAt i p) (here : p.place = stage.index) (sent : String) :
    ∃ p', p.code l sent i stage = .ok p' := by
  have server : Stage.managers.index < stage.index → ∃ s, p.uniServer = some s ∧
      l.ServerAt i stage.index s := by
    intro late
    rw [← here] at late ⊢
    exact h.server late
  cases stage with
  | settings =>
    refine ⟨p, Process.code_settings.mpr ⟨?_, rfl⟩⟩
    have size : (msgPaddingLen * l.ranks.length : Int) ≤ 2147483647 := v.gatherable.size.2
    unfold msgPaddingLen at size
    have bound : l.ranks.length < 2 ^ 64 := by omega
    rw [UInt64.le_iff_toNat_le, UInt64.toNat_ofNat_of_lt' bound]
    exact v.enough
  | engine =>
    refine ⟨_, Process.code_engine.mpr ⟨fun _ => ?_, rfl⟩⟩
    have short := v.gatherable.short (l.ranks.get i) (List.get_mem l.ranks i)
    exact Nat.lt_trans short (by decide)
  | barrier => exact ⟨p, rfl⟩
  | masterAddr => exact ⟨_, rfl⟩
  | managers =>
    obtain ⟨m, limit⟩ := v.memory
    refine ⟨_, Process.code_managers.mpr ⟨l.endpoint l.root, _, ?_,
      Launch.initManager_eq_ok.mpr ⟨fun _ => v.objectsDir, m, limit, rfl⟩, rfl⟩⟩
    by_cases root : i = l.root
    · rw [h.master (here ▸ by decide) root, root]
      exact v.resolves l.root
    · rw [h.sent (here ▸ by decide) root, v.cstr_endpoint]
      exact v.resolves l.root
  | dht =>
    obtain ⟨s, own, at_s⟩ := server (by decide)
    obtain ⟨m, made⟩ := v.partitions
    exact ⟨_, Process.code_dht.mpr ⟨s, m, own, at_s.dht_empty ▸ made, rfl⟩⟩
  | address =>
    obtain ⟨s, own, _⟩ := server (by decide)
    have unmarked := v.gatherable.unmarked (l.ranks.get i) (List.get_mem l.ranks i)
    have short := v.gatherable.short (l.ranks.get i) (List.get_mem l.ranks i)
    refine ⟨_, Process.code_address.mpr ⟨s, own, ⟨_, (Rank.sendipStr_eq_ok unmarked).mpr
      ⟨?_, rfl⟩⟩, rfl⟩⟩
    unfold msgPaddingLen
    omega
  | gather => exact ⟨p, rfl⟩
  | endPointsLists =>
    obtain ⟨s, own, _⟩ := server (by decide)
    obtain ⟨m, run, _⟩ := v.gatherIP_ok i (l.endpoint i) s.m_addrManager
    exact ⟨_, Process.code_endPointsLists.mpr ⟨s, m, own, run, rfl⟩⟩
  | masterInfo => exact ⟨p, Process.code_masterInfo.mpr ⟨fun _ => v.masterInfoOpens, rfl⟩⟩
  | endPoints =>
    obtain ⟨s, own, at_s⟩ := server (by decide)
    obtain ⟨list, addr, _, scanned⟩ := at_s.addr
    have known : ∀ address ∈ s.m_addrManager.m_endPointsLists, ∃ i, address = l.endpoint i := by
      intro address mem
      rw [addr, Except.ok.inj ((scanned (by decide)).symm.trans v.addresses)] at mem
      exact mem_endpoints mem
    obtain ⟨m, run⟩ := v.connect_ok s.clientStaging known
    exact ⟨_, Process.code_endPoints.mpr ⟨s, m, own, run, rfl⟩⟩
  | metaServers =>
    obtain ⟨s, own, at_s⟩ := server (by decide)
    cases master : s.m_addrManager.ifMaster with
    | false => exact ⟨p, Process.code_metaServers.mpr ⟨s, own, .inr ⟨master, rfl⟩⟩⟩
    | true =>
      obtain ⟨list, addr, _, scanned⟩ := at_s.addr
      obtain rfl := Except.ok.inj ((scanned (by decide)).symm.trans v.addresses)
      obtain ⟨ws, made⟩ := v.metaServers_ok
      refine ⟨_, Process.code_metaServers.mpr ⟨s, own, .inl ⟨master, ws, ?_, rfl⟩⟩⟩
      rw [addr]
      exact made
  | broadcast => exact ⟨p, rfl⟩
  | statefulConfig => exact ⟨_, rfl⟩

end Valid

end Launch

namespace Group

variable {l : Launch} {g g' : Group l} {i : l.Id} {stage : Stage}

/-- The steps that were taken. -/
def done (g : Group l) : Nat := ∑ i, g.place i + (g.process l.root).told

/-- Nobody has ended, and the first rank tells each server once. -/
structure Alive (g : Group l) : Prop where
  running : ∀ i, (g.process i).stopped = none
  inside : ∀ i, g.place i ≤ Stage.all.length
  told : (g.process l.root).told ≤ l.ranks.length
  all : Stage.broadcast.index < g.place l.root → (g.process l.root).told = l.ranks.length
  file : Stage.masterInfo.index < g.place l.root → g.masterInfo = some (l.endpoint l.root)
  configured : ∀ i, Stage.statefulConfig.index < g.place i → (g.process i).m_statefulConfig = true

theorem alive_begin (l : Launch) : (begin l).Alive where
  running _ := rfl
  inside _ := Nat.zero_le _
  told := Nat.zero_le _
  all late := absurd late (Nat.not_lt_zero Stage.broadcast.index)
  file late := absurd late (Nat.not_lt_zero Stage.masterInfo.index)
  configured _ late := absurd late (Nat.not_lt_zero Stage.statefulConfig.index)

theorem sum_advance (place : l.Id → Nat) (i : l.Id) :
    ∑ j, Function.update place i (place i + 1) j = ∑ j, place j + 1 := by
  rw [Finset.sum_update_of_mem (Finset.mem_univ i), ← Finset.sum_erase_add _ _ (Finset.mem_univ i),
    Finset.sdiff_singleton_eq_erase]
  omega

/-- A lookup that the engine answers. -/
theorem lookup_ok {address : String} {endpoint : Endpoint} {m : ClientForStaging}
    (cached : l.Cached m) (own : l.out.lookup address = .ok endpoint) :
    ∃ m', ClientForStaging.lookup l.out address m = .ok endpoint m' := by
  unfold ClientForStaging.lookup
  rw [bind_ok (get_run m)]
  cases found : m.m_serverToEndpoints.lookup address with
  | some e =>
    obtain rfl := Except.ok.inj (own.symm.trans (cached _ _ found))
    exact ⟨m, rfl⟩
  | none =>
    refine ⟨m.cacheEndpoint address endpoint, ?_⟩
    rw [own]
    rfl

/-- A step of a rank. -/
theorem Alive.advance (v : l.Valid) (h : g.Sound) (alive : g.Alive)
    (run : g.advance i = .ok g') : g'.Alive ∧ g'.done = g.done + 1 := by
  unfold Group.advance at run
  rw [alive.running i, if_neg (by simp)] at run
  split at run
  · cases run
  · rename_i stage here
    split at run
    · cases run
    · split at run
      · cases run
      · rename_i all_told
        cases run
        have index := Stage.index_of_all here
        obtain ⟨p, code⟩ := v.code_ok (h.each i) index (g.process l.root).masterAddr
        have leaves := Launch.leaves code
        have place := place_leave code
        have inside : g.place i < Stage.all.length := (List.getElem?_eq_some_iff.mp here).1
        refine ⟨⟨fun j => ?_, fun j => ?_, ?_, fun late => ?_, fun late => ?_, fun j late => ?_⟩,
          ?_⟩
        · rw [process_leave code]
          split
          · exact leaves.stopped.trans (alive.running i)
          · exact alive.running j
        · rw [place, Function.update_apply]
          split
          · exact inside
          · exact alive.inside j
        · rw [told_leave code]
          exact alive.told
        · rw [told_leave code]
          rw [place, Function.update_apply] at late
          split at late
          · rename_i root
            subst root
            by_cases last : stage = .broadcast
            · rw [last] at index
              have scanned := (h.each l.root).audience (by
                show Stage.endPointsLists.index < g.place l.root
                rw [index]
                decide)
              have audience := Except.ok.inj (scanned.symm.trans v.addresses)
              have reached : ¬ (g.process l.root).told < (g.process l.root).audience.length :=
                fun more => all_told ⟨last, more⟩
              rw [audience, List.length_map] at reached
              exact Nat.le_antisymm alive.told (Nat.le_of_not_lt reached)
            · refine alive.all (Nat.lt_of_le_of_ne (Nat.le_of_lt_succ late) fun same => ?_)
              exact last (Stage.index_inj (index.symm.trans same.symm))
          · exact alive.all late
        · rw [masterInfo_leave code]
          split
          · rename_i wrote
            obtain ⟨rfl, rfl⟩ := wrote
            obtain ⟨_, rfl⟩ := Process.code_masterInfo.mp code
            exact congrArg some ((h.each l.root).master (by
              show Stage.engine.index < g.place l.root
              rw [index]
              decide) rfl)
          · rename_i other
            rw [place, Function.update_apply] at late
            split at late
            · rename_i root
              subst root
              refine alive.file (Nat.lt_of_le_of_ne (Nat.le_of_lt_succ late) fun same => ?_)
              exact other ⟨Stage.index_inj (index.symm.trans same.symm), rfl⟩
            · exact alive.file late
        · rw [place, Function.update_apply] at late
          rw [process_leave code]
          split at late
          · rename_i own
            subst own
            rw [if_pos rfl]
            obtain rfl : stage = .statefulConfig := by
              have last : stage.index = Stage.statefulConfig.index := by
                have bound : g.place j < Stage.statefulConfig.index + 1 := inside
                omega
              exact Stage.index_inj last
            cases code
            rfl
          · rename_i other
            rw [if_neg other]
            exact alive.configured j late
        · rw [done, done, told_leave code, place, sum_advance]
          omega

/-- The first rank tells the next server, which is the one of the next rank. -/
theorem tell_eq (v : l.Valid) (h : g.Sound) (alive : g.Alive)
    (here : g.place l.root = Stage.broadcast.index)
    (more : (g.process l.root).told < l.ranks.length) :
    ∃ (s : UniServer) (m : ClientForStaging) (j : l.Id) (u : UniServer),
      g.tell = .ok ((g.put l.root { g.process l.root with
        uniServer := some { s with clientStaging := m }
        told := (g.process l.root).told + 1 }).put j
          { (g.put l.root { g.process l.root with
              uniServer := some { s with clientStaging := m }
              told := (g.process l.root).told + 1 }).process j with uniServer := some u }) := by
  have up := h.up (i := l.root) (here ▸ by decide)
  obtain ⟨s, own, at_s⟩ := up l.root
  have scanned := (h.each l.root).audience (by
    show Stage.endPointsLists.index < g.place l.root
    rw [here]
    decide)
  have audience := Except.ok.inj (scanned.symm.trans v.addresses)
  have next : (g.process l.root).audience[(g.process l.root).told]? =
      some (l.endpoint ⟨(g.process l.root).told, more⟩) := by
    rw [audience]
    exact Launch.Valid.getElem_endpoints l ⟨_, more⟩
  generalize (⟨(g.process l.root).told, more⟩ : l.Id) = j at next
  obtain ⟨m, found⟩ := lookup_ok at_s.cached (v.resolves j)
  have server : ∃ u, ((g.put l.root { g.process l.root with
      uniServer := some { s with clientStaging := m }
      told := (g.process l.root).told + 1 }).process j).uniServer = some u := by
    rw [process_put]
    split
    · exact ⟨_, rfl⟩
    · obtain ⟨u, hu, _⟩ := up j
      exact ⟨u, hu⟩
  obtain ⟨u, hu⟩ := server
  let told : UniServer :=
    { u with m_dhtManager := u.m_dhtManager.addAddrs (g.process l.root).metaAddrWrapperList }
  refine ⟨s, m, j, told, ?_⟩
  unfold Group.tell
  dsimp only
  have ready : ¬ ((g.process l.root).stopped.isSome ∨
      Stage.all[(g.process l.root).place]? ≠ some .broadcast) := by
    rw [alive.running l.root, show (g.process l.root).place = Stage.broadcast.index from here]
    simp [Stage.all_index]
  rw [if_neg ready, own, next]
  dsimp only
  rw [found]
  exact congrArg Except.ok (deliver_eq (v.listener j) (alive.running j) hu)

theorem Alive.tell (v : l.Valid) (h : g.Sound) (alive : g.Alive) (run : g.tell = .ok g') :
    g'.Alive ∧ g'.done = g.done + 1 := by
  have ready : g.place l.root = Stage.broadcast.index ∧
      (g.process l.root).told < l.ranks.length := by
    unfold Group.tell at run
    dsimp only at run
    split at run
    · cases run
    · rename_i at_broadcast
      have here : g.place l.root = Stage.broadcast.index := by
        by_contra other
        exact at_broadcast (.inr fun there => other (Stage.index_of_all there))
      refine ⟨here, ?_⟩
      have scanned := (h.each l.root).audience (by
        show Stage.endPointsLists.index < g.place l.root
        rw [here]
        decide)
      have audience := Except.ok.inj (scanned.symm.trans v.addresses)
      split at run
      · rename_i s address own next
        have inside := (List.getElem?_eq_some_iff.mp next).1
        rw [audience, List.length_map] at inside
        exact inside
      · cases run
  obtain ⟨here, more⟩ := ready
  obtain ⟨s, m, j, u, told⟩ := tell_eq v h alive here more
  rw [told] at run
  cases run
  generalize hp : ({ g.process l.root with
      uniServer := some { s with clientStaging := m }
      told := (g.process l.root).told + 1 } : Process) = p at *
  generalize hq : (g.put l.root p).process j = q at *
  have place : ((g.put l.root p).put j { q with uniServer := some u }).place = g.place := by
    rw [place_put (by rw [hq]), place_put (by rw [← hp])]
  have first : ∀ i, ((g.put l.root p).process i).stopped = (g.process i).stopped ∧
      ((g.put l.root p).process i).m_statefulConfig = (g.process i).m_statefulConfig := by
    intro i
    rw [process_put]
    split
    · rename_i root
      rw [root, ← hp]
      exact ⟨rfl, rfl⟩
    · exact ⟨rfl, rfl⟩
  have flags : ∀ i, (((g.put l.root p).put j { q with uniServer := some u }).process i).stopped =
      (g.process i).stopped ∧
        (((g.put l.root p).put j { q with uniServer := some u }).process i).m_statefulConfig =
          (g.process i).m_statefulConfig := by
    intro i
    rw [process_put]
    split
    · rename_i same
      have own := first j
      rw [hq] at own
      rw [same]
      exact own
    · exact first i
  have count : (((g.put l.root p).put j { q with uniServer := some u }).process l.root).told =
      (g.process l.root).told + 1 := by
    rw [process_put]
    split
    · rename_i root
      rw [← hq, ← root, process_put, if_pos rfl, ← hp]
    · rw [process_put, if_pos rfl, ← hp]
  refine ⟨⟨fun i => (flags i).1.trans (alive.running i), fun i => ?_, ?_, fun late => ?_,
    fun late => ?_, fun i late => ?_⟩, ?_⟩
  · rw [place]
    exact alive.inside i
  · rw [count]
    exact more
  · rw [place, here] at late
    exact absurd late (Nat.lt_irrefl _)
  · rw [place] at late
    exact alive.file late
  · rw [place] at late
    exact (flags i).2.trans (alive.configured i late)
  · rw [done, done, place, count]
    omega

/-- Whoever is furthest behind can take a step, or the first rank has somebody to tell. -/
theorem Alive.goes_on (v : l.Valid) (h : g.Sound) (alive : g.Alive) {i : l.Id}
    (behind : g.place i < Stage.all.length) : ∃ act g', step act g = .ok g' := by
  have short : g.place i < (program l).length := by
    rw [program, List.length_map]
    exact behind
  obtain ⟨j, kind, here, free⟩ := exists_free short
  rw [program, List.getElem?_map, Option.map_eq_some_iff] at here
  obtain ⟨stage, here, rfl⟩ := here
  by_cases tells : stage = .broadcast ∧ (g.process j).told < (g.process j).audience.length
  · obtain ⟨rfl, more⟩ := tells
    have index := Stage.index_of_all here
    -- only the first rank has somebody to tell
    obtain rfl : j = l.root := by
      by_contra other
      obtain ⟨s, own, at_s⟩ := h.up (i := j) (index ▸ by decide) j
      obtain ⟨list, addr, _⟩ := at_s.addr
      have master : s.m_addrManager.ifMaster = false := by
        rw [addr]
        simp [Launch.addrManager, other]
      rw [Process.audience, own] at more
      simp [master] at more
    have scanned := (h.each l.root).audience (by
      show Stage.endPointsLists.index < g.place l.root
      rw [index]
      decide)
    have audience := Except.ok.inj (scanned.symm.trans v.addresses)
    rw [audience, List.length_map] at more
    obtain ⟨s, m, j, u, told⟩ := tell_eq v h alive index more
    exact ⟨.tell, _, told⟩
  · refine ⟨.advance j, g.leave j stage, ?_⟩
    show g.advance j = _
    unfold Group.advance
    rw [alive.running j, if_neg (by simp), here]
    dsimp only
    rw [if_neg (not_not.mpr free), if_neg tells]

/-- A server that has started. -/
structure Serves (l : Launch) (i : l.Id) (s : UniServer) : Prop where
  others : l.initManager i {} = .ok s.others
  boxes : ∃ m, l.initDHT {} = .ok m ∧ s.m_dhtManager.metaServerIDToBBX = m.metaServerIDToBBX
  m_addrManager : s.m_addrManager =
    { m_endPointsLists := l.ranks.map Rank.endpoint
      ifMaster := i = l.root
      nodeAddr := l.endpoint i }
  addrs : ∀ (k : Int) (a : String), s.m_dhtManager.metaServerIDToAddr.lookup k = some a ↔
    ∃ j : l.Id, (j : Nat) < l.metaserverNum.toNat ∧ k = (j : Nat) ∧ a = l.endpoint j

theorem Serves.globalRank {s : UniServer} (h : Serves l i s) : s.globalRank = i := by
  obtain ⟨_, m, _, others⟩ := Launch.initManager_eq_ok.mp h.others
  exact congrArg UniServer.globalRank others

/-- All ranks wait for requests. -/
structure Started (g : Group l) : Prop where
  masterInfo : g.masterInfo = some (l.endpoint l.root)
  process : ∀ i, (g.process i).stopped = none ∧ (g.process i).m_statefulConfig = true ∧
    ∃ s, (g.process i).uniServer = some s ∧ Serves l i s

/-- The address of each metadata server is that of its rank. -/
theorem entry_iff (v : l.Valid) {k : Int} {a : String} : l.Entry k a ↔
    ∃ j : l.Id, (j : Nat) < l.metaserverNum.toNat ∧ k = (j : Nat) ∧ a = l.endpoint j := by
  constructor
  · rintro ⟨list, scanned, n, few, found, rfl⟩
    obtain rfl := Except.ok.inj (v.addresses.symm.trans scanned)
    have inside := (List.getElem?_eq_some_iff.mp found).1
    rw [List.length_map] at inside
    rw [v.metaserverNum_int] at few
    have own := Launch.Valid.getElem_endpoints l ⟨n, inside⟩
    exact ⟨⟨n, inside⟩, few, rfl, Option.some.inj (found.symm.trans own)⟩
  · rintro ⟨j, few, rfl, rfl⟩
    refine ⟨_, v.addresses, j, ?_, Launch.Valid.getElem_endpoints l j, rfl⟩
    rw [v.metaserverNum_int]
    exact few

/-- Everybody was told. -/
theorem told_all (v : l.Valid) (i : l.Id) : l.Told l.ranks.length i := by
  refine ⟨_, v.addresses, l.endpoint i, ?_, l.endpoint i, v.resolves i, v.listener i⟩
  rw [List.take_of_length_le (by rw [List.length_map])]
  exact List.mem_of_getElem? (Launch.Valid.getElem_endpoints l i)

theorem Alive.started (v : l.Valid) (h : g.Sound) (alive : g.Alive)
    (ended : ∀ i, g.place i = Stage.all.length) : g.Started where
  masterInfo := alive.file (ended l.root ▸ by decide)
  process i := by
    refine ⟨alive.running i, alive.configured i (ended i ▸ by decide), ?_⟩
    obtain ⟨s, own, at_s⟩ := (h.each i).server (by
      show Stage.managers.index < g.place i
      rw [ended]
      decide)
    have at_end : l.ServerAt i Stage.all.length s := ended i ▸ at_s
    obtain ⟨list, addr, _, scanned⟩ := at_end.addr
    obtain rfl := Except.ok.inj ((scanned (by decide)).symm.trans v.addresses)
    refine ⟨s, own, at_end.others, at_end.partitioned (by decide), ?_, fun k a => ?_⟩
    · rw [addr]
      simp [Launch.addrManager, Stage.index, Stage.all]
    · rw [h.tables i s own, alive.all (ended l.root ▸ by decide), and_iff_right (told_all v i),
        entry_iff v]

/-- Every rank leaves each stage once, and the first rank tells each server once. -/
def steps (l : Launch) : Nat := Stage.all.length * l.ranks.length + l.ranks.length

theorem Alive.sum_le (alive : g.Alive) :
    ∑ i, g.place i ≤ Stage.all.length * l.ranks.length := by
  have bound := Finset.sum_le_card_nsmul Finset.univ g.place _ fun i _ => alive.inside i
  rw [Finset.card_univ, Fintype.card_fin, smul_eq_mul] at bound
  rw [Nat.mul_comm]
  exact bound

theorem history (v : l.Valid) {acts : List (StartAct l)}
    (run : Run (Steps Group.step) (begin l) acts g) :
    g.Sound ∧ g.Alive ∧ acts.length = g.done := by
  refine run.history (I := fun acts g => g.Sound ∧ g.Alive ∧ acts.length = g.done)
    ⟨sound_begin l, alive_begin l, by simp [done, begin, Group.place]⟩ ?_
  rintro acts act g g' _ ⟨sound, alive, count⟩ hstep
  refine ⟨sound.step hstep, ?_⟩
  rw [List.length_append, List.length_singleton, count]
  cases act with
  | advance i =>
    obtain ⟨alive', more⟩ := alive.advance (i := i) v sound hstep
    exact ⟨alive', more.symm⟩
  | tell =>
    obtain ⟨alive', more⟩ := alive.tell v sound hstep
    exact ⟨alive', more.symm⟩

/-- A run of all steps leaves nobody behind. -/
theorem started_of_run (v : l.Valid) {acts : List (StartAct l)}
    (run : Run (Steps Group.step) (begin l) acts g) (full : acts.length = steps l) :
    g.Started := by
  obtain ⟨sound, alive, count⟩ := history v run
  have told := alive.told
  refine alive.started v sound fun i => ?_
  by_contra other
  have less : ∑ i, g.place i < ∑ _i : l.Id, Stage.all.length :=
    Finset.sum_lt_sum (fun i _ => alive.inside i)
      ⟨i, Finset.mem_univ i, Nat.lt_of_le_of_ne (alive.inside i) other⟩
  simp only [Finset.sum_const, Finset.card_univ, Fintype.card_fin, smul_eq_mul] at less
  rw [Nat.mul_comm] at less
  unfold done at count
  unfold steps at full
  omega

/-- Whatever the order of the stages, the start goes on until every server has all it needs. -/
theorem startUp_completes (v : l.Valid) {acts : List (StartAct l)}
    (run : Run (Steps Group.step) (begin l) acts g) :
    acts.length ≤ steps l ∧
      (acts.length < steps l → ∃ act g', step act g = .ok g') ∧
      (acts.length = steps l → g.Started) := by
  obtain ⟨sound, alive, count⟩ := history v run
  have sum := alive.sum_le
  have told := alive.told
  refine ⟨?_, fun short => ?_, started_of_run v run⟩
  · rw [count]
    unfold done steps
    omega
  · by_contra stuck
    have ended : ∀ i, g.place i = Stage.all.length := by
      intro i
      by_contra other
      exact stuck (alive.goes_on v sound (Nat.lt_of_le_of_ne (alive.inside i) other))
    have all := alive.all (ended l.root ▸ by decide)
    rw [count] at short
    unfold done steps at short
    simp only [ended, Finset.sum_const, Finset.card_univ, Fintype.card_fin, smul_eq_mul] at short
    rw [all, Nat.mul_comm] at short
    exact absurd short (Nat.lt_irrefl _)

end Group

/-! ## Two servers that come up -/

theorem twoServers_gatherable : Gatherable twoServers.ranks := by
  refine (gatherIP_iff twoServers.ranks 0 "" {}).mp ?_
  have lists : (gatherIP twoServers.ranks 0 "" {}).toOption.map AddrManager.m_endPointsLists =
      some (twoServers.ranks.map Rank.endpoint) := by decide +kernel
  rcases ok_or_error (gatherIP twoServers.ranks 0 "" {}) with ⟨m, run⟩ | ⟨e, run⟩
  · rw [run] at lists
    exact ⟨m, run, Option.some.inj lists⟩
  · rw [run] at lists
    cases lists

theorem twoServers_valid : twoServers.Valid where
  gatherable := twoServers_gatherable
  distinct := by decide
  resolves _ := rfl
  partitions := by
    rcases ok_or_error (twoServers.initDHT {}) with made | ⟨e, fails⟩
    · exact made
    · have returns : (twoServers.initDHT {}).isOk = true := by decide +kernel
      rw [fails] at returns
      cases returns
  enough := by decide
  memory := ⟨⟨2147483648⟩, by decide +kernel⟩
  objectsDir := rfl
  masterInfoOpens := rfl

/-- All steps of the start, of which the second rank takes most after it was told. -/
def wholeStart : List (StartAct twoServers) :=
  toldInGather ++ List.replicate 2 (.advance twoServers.root) ++
    List.replicate 7 (.advance secondRank)

theorem wholeStart_runs : ∃ g, runs Group.step wholeStart (Group.begin twoServers) = .ok g := by
  rcases ok_or_error (runs Group.step wholeStart (Group.begin twoServers)) with
    ran | ⟨e, fails⟩
  · exact ran
  · have returns : (runs Group.step wholeStart (Group.begin twoServers)).isOk = true := by
      decide +kernel
    rw [fails] at returns
    cases returns

theorem twoServers_started :
    ∃ g, runs Group.step wholeStart (Group.begin twoServers) = .ok g ∧ g.Started := by
  obtain ⟨g, run⟩ := wholeStart_runs
  exact ⟨g, run, (Group.startUp_completes twoServers_valid (Run.of_runs run)).2.2 (by decide)⟩

end Gorilla
