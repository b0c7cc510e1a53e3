import Gorilla.Client.PutCarGrid
import Gorilla.Client.StartedRoutes
import Mathlib.Data.Int.CardIntervalMod

/-!
# Clients that join the servers

A client reads the address of the first rank from the file, asks it for all addresses, and puts
its data to the server that its own rank gives. The file is there before all ranks have started.
-/

namespace Gorilla

open HandLock Handler Runs

/-- A client with the endpoints of the servers it knows. -/
structure ConnectedSim extends ClientForSim where
  m_addrServer : String := ""
  m_serverToEndpoints : AList fun _ : String => Endpoint := ∅

namespace ConnectedSim

def addServer (out : Outside) (c : ConnectedSim) (it : MetaAddrWrapper) :
    Except Stop ConnectedSim :=
  match out.lookup it.m_addr with
  | .error what => .error (.runtime_error what)
  | .ok endpoint => .ok { c with
      m_serverIDToAddr := c.m_serverIDToAddr.insert it.m_index it.m_addr
      m_serverToEndpoints := c.m_serverToEndpoints.insert it.m_addr endpoint }

/-- The constructor of `ClientForSim`, with that of `ClientRPCWrapper`. -/
def construct (out : Outside) (getAllServerAddr : Endpoint → Except Stop (List MetaAddrWrapper))
    (addrServer : String) (rank : Int) : Except Stop ConnectedSim :=
  match out.lookup addrServer with
  | .error what => .error (.runtime_error what)
  | .ok m_addrServerEndpoint => do
    let adrList ← getAllServerAddr m_addrServerEndpoint
    if adrList.isEmpty then
      throw (.runtime_error "failed to get server list")
    let c ← adrList.foldlM (addServer out) {
      m_rank := rank
      m_addrServer := addrServer
      m_totalServerNum := sizeToInt adrList.length }
    let addr ← c.getAssociatedServerAddr
    return { c with m_associatedDataServer := addr }

variable {out : Outside} {c : ConnectedSim} {list : List MetaAddrWrapper}

/-- The loop over the servers fills both maps, when the engine knows every address. -/
theorem addServers_ok (resolves : ∀ it ∈ list, out.lookup it.m_addr = .ok it.m_addr) :
    list.foldlM (addServer out) c = .ok { c with
      m_serverIDToAddr :=
        MapFill.fill MetaAddrWrapper.m_index MetaAddrWrapper.m_addr list c.m_serverIDToAddr
      m_serverToEndpoints :=
        MapFill.fill MetaAddrWrapper.m_addr MetaAddrWrapper.m_addr list
          c.m_serverToEndpoints } := by
  induction list generalizing c with
  | nil => rfl
  | cons it list ih =>
    obtain ⟨own, rest⟩ := List.forall_mem_cons.mp resolves
    have first : addServer out c it = .ok { c with
        m_serverIDToAddr := c.m_serverIDToAddr.insert it.m_index it.m_addr
        m_serverToEndpoints := c.m_serverToEndpoints.insert it.m_addr it.m_addr } := by
      unfold addServer
      rw [own]
    rw [List.foldlM_cons, first]
    exact ih rest

end ConnectedSim

namespace Group

variable {l : Launch} {g : Group l} {i : l.Id}

/-- `getAllServerAddr` at an endpoint. -/
def allServerAddr (g : Group l) (endpoint : Endpoint) : Except Stop (List MetaAddrWrapper) :=
  match l.listener endpoint with
  | none => .error (.runtime_error "no process listens at the endpoint")
  | some j =>
    if (g.process j).stopped.isSome then
      .error (.runtime_error "the process at the endpoint has ended")
    else
      match (g.process j).uniServer with
      | none => .error nullServer
      | some s => callRemote getAllServerAddr s

/-- The ranks with their addresses. -/
def wrappers (l : Launch) : List MetaAddrWrapper :=
  (l.ranks.map Rank.endpoint).zipIdx.map fun it => ⟨it.2, it.1⟩

theorem mem_wrappers {w : MetaAddrWrapper} :
    w ∈ wrappers l ↔ ∃ i, w.m_index = l.rankOf i ∧ w.m_addr = l.endpoint i := by
  rcases w with ⟨index, addr⟩
  constructor
  · intro mem
    obtain ⟨⟨a, n⟩, entry, made⟩ := List.mem_map.mp mem
    cases made
    have found := List.mem_zipIdx_iff_getElem?.mp entry
    have inside := (List.getElem?_eq_some_iff.mp found).1
    rw [List.length_map] at inside
    have own := Launch.Valid.getElem_endpoints l ⟨n, inside⟩
    exact ⟨⟨n, inside⟩, rfl, Option.some.inj (found.symm.trans own)⟩
  · rintro ⟨i, rfl, rfl⟩
    refine List.mem_map.mpr ⟨(l.endpoint i, i), ?_, rfl⟩
    exact List.mem_zipIdx_iff_getElem?.mpr (Launch.Valid.getElem_endpoints l i)

theorem length_wrappers (l : Launch) : (wrappers l).length = l.ranks.length := by
  rw [wrappers, List.length_map, List.length_zipIdx, List.length_map]

/-- Once the file is written, the rank it names knows all addresses. -/
theorem allServerAddr_written (v : l.Valid) (h : g.Sound) (alive : g.Alive) {addr : String}
    (written : g.masterInfo = some addr) :
    addr = l.endpoint l.root ∧ g.allServerAddr addr = .ok (wrappers l) := by
  obtain ⟨late, rfl⟩ := h.masterInfo addr written
  obtain ⟨s, own, at_s⟩ := h.up (i := l.root) (Nat.lt_trans (by decide) late) l.root
  obtain ⟨list, addrs, _, scanned⟩ := at_s.addr
  obtain rfl := Except.ok.inj
    ((scanned (Nat.lt_trans (by decide) late)).symm.trans v.addresses)
  refine ⟨rfl, ?_⟩
  unfold allServerAddr
  rw [v.listener l.root]
  dsimp only
  rw [alive.running, if_neg (by simp), own]
  have list : s.m_addrManager.m_endPointsLists = l.ranks.map Rank.endpoint := by
    rw [addrs]
    rfl
  show callRemote getAllServerAddr s = .ok (wrappers l)
  rw [wrappers, ← list]
  rfl

/-- What a client has after its constructor. -/
structure Joined (l : Launch) (r : Nat) (c : ConnectedSim) : Prop where
  m_rank : c.m_rank = r
  m_totalServerNum : c.m_totalServerNum = l.ranks.length
  known : ∀ k a, c.m_serverIDToAddr.lookup k = some a ↔ ∃ i, k = l.rankOf i ∧ a = l.endpoint i
  cached : ∀ i, c.m_serverToEndpoints.lookup (l.endpoint i) = some (l.endpoint i)
  associated : ∀ i : l.Id, c.m_associatedDataServer = l.endpoint i ↔ r % l.ranks.length = i

theorem Joined.of_construct (v : l.Valid) {getAllServerAddr : Endpoint → _} {r : Nat}
    (replies : getAllServerAddr (l.endpoint l.root) = .ok (wrappers l)) :
    ∃ c, ConnectedSim.construct l.out getAllServerAddr (l.endpoint l.root) r = .ok c ∧
      Joined l r c := by
  have resolves : ∀ it ∈ wrappers l, l.out.lookup it.m_addr = .ok it.m_addr := by
    intro it mem
    obtain ⟨i, _, addr⟩ := mem_wrappers.mp mem
    rw [addr]
    exact v.resolves i
  have by_index : ∀ w ∈ wrappers l, ∀ w' ∈ wrappers l, w.m_index = w'.m_index → w = w' := by
    rintro ⟨k, a⟩ mem ⟨k', a'⟩ mem' same
    obtain ⟨i, rank, addr⟩ := mem_wrappers.mp mem
    obtain ⟨i', rank', addr'⟩ := mem_wrappers.mp mem'
    obtain rfl := Launch.rankOf_inj (rank.symm.trans (same.trans rank'))
    exact congrArg₂ MetaAddrWrapper.mk same (addr.trans addr'.symm)
  have by_addr : ∀ w ∈ wrappers l, ∀ w' ∈ wrappers l, w.m_addr = w'.m_addr → w = w' := by
    rintro ⟨k, a⟩ mem ⟨k', a'⟩ mem' same
    obtain ⟨i, rank, addr⟩ := mem_wrappers.mp mem
    obtain ⟨i', rank', addr'⟩ := mem_wrappers.mp mem'
    obtain rfl := v.endpoint_inj (addr.symm.trans (same.trans addr'))
    exact congrArg₂ MetaAddrWrapper.mk (rank.trans rank'.symm) same
  have nonempty : (wrappers l).isEmpty = false := by
    rw [List.isEmpty_eq_false_iff, ← List.length_pos_iff, length_wrappers]
    exact l.some_rank
  have num : sizeToInt (wrappers l).length = l.ranks.length := by
    have size : (msgPaddingLen * l.ranks.length : Int) ≤ 2147483647 := v.gatherable.size.2
    unfold msgPaddingLen at size
    rw [length_wrappers]
    unfold sizeToInt Int.bmod
    dsimp only
    split <;> omega
  have known : ∀ k a, (MapFill.fill MetaAddrWrapper.m_index MetaAddrWrapper.m_addr (wrappers l)
      ∅).lookup k = some a ↔ ∃ i, k = l.rankOf i ∧ a = l.endpoint i := by
    intro k a
    rw [MapFill.lookup_fill by_index, AList.lookup_empty]
    constructor
    · rintro (⟨w, mem, rfl, rfl⟩ | ⟨none, _⟩)
      · exact mem_wrappers.mp mem
      · cases none
    · rintro ⟨i, rfl, rfl⟩
      exact .inl ⟨⟨l.rankOf i, l.endpoint i⟩, mem_wrappers.mpr ⟨i, rfl, rfl⟩, rfl, rfl⟩
  have below : r % l.ranks.length < l.ranks.length := Nat.mod_lt _ l.some_rank
  have served : (r : Int).tmod l.ranks.length = l.rankOf ⟨r % l.ranks.length, below⟩ := rfl
  refine ⟨{
      m_rank := r
      m_totalServerNum := l.ranks.length
      m_serverIDToAddr := MapFill.fill MetaAddrWrapper.m_index MetaAddrWrapper.m_addr (wrappers l) ∅
      m_associatedDataServer := l.endpoint ⟨r % l.ranks.length, below⟩
      m_addrServer := l.endpoint l.root
      m_serverToEndpoints :=
        MapFill.fill MetaAddrWrapper.m_addr MetaAddrWrapper.m_addr (wrappers l) ∅ },
    ?_, ⟨rfl, rfl, known, fun i => ?_, fun i => ?_⟩⟩
  · unfold ConnectedSim.construct
    rw [v.resolves]
    dsimp only
    rw [replies]
    refine bind_eq_ok.mpr ⟨_, rfl, ?_⟩
    rw [nonempty, if_neg (by decide)]
    refine bind_eq_ok.mpr ⟨_, ConnectedSim.addServers_ok resolves, ?_⟩
    refine bind_eq_ok.mpr ⟨l.endpoint ⟨r % l.ranks.length, below⟩, ?_, ?_⟩
    · unfold ClientForSim.getAssociatedServerAddr
      dsimp only
      rw [num, if_neg (by have := l.some_rank; omega), served, (known _ _).mpr ⟨_, rfl, rfl⟩]
    · rw [num]
      rfl
  · have entry : (⟨l.rankOf i, l.endpoint i⟩ : MetaAddrWrapper) ∈ wrappers l :=
      mem_wrappers.mpr ⟨i, rfl, rfl⟩
    exact (MapFill.lookup_fill by_addr ∅).mpr (.inl ⟨_, entry, rfl, rfl⟩)
  · constructor
    · intro same
      exact congrArg Fin.val (v.endpoint_inj same)
    · intro same
      exact congrArg l.endpoint (Fin.ext same)

end Group

end Gorilla
