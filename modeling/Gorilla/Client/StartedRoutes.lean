import Gorilla.Client.Discovery
import Gorilla.Server.Started

/-!
# Queries during and after the start

The servers answer from the moment they are up. Until the first rank has told a server where the
metadata servers are, that server names none, and from then on it names all that a query needs.
-/

namespace Gorilla

open HandLock Handler Runs

/-- Without an address for any server the list stays empty. -/
theorem collectAddrs_unknown {addrs : AList fun _ : Int => String}
    (unknown : ∀ k, addrs.lookup k = none) (missing : Stop) (named : List ResponsibleMetaServer) :
    (collectAddrs addrs missing named []).1 = [] := by
  cases named with
  | nil => rfl
  | cons it rest =>
    unfold collectAddrs
    rw [unknown]

/-- Where no box is known, no server is named. -/
theorem getmetaServerList_unpartitioned {s : UniServer} {dims : Nat} {indexlb indexub : Array3 Int}
    {q : BBX} (hq : BBX.ofIndex dims indexlb indexub = .ok q)
    (empty : s.m_dhtManager.metaServerIDToBBX = ∅) :
    callRemote (getmetaServerList dims indexlb indexub) s = .ok [] := by
  have nobody : (BBX.ofIndex dims indexlb indexub >>= s.m_dhtManager.getMetaServerID) = .ok [] := by
    rw [hq]
    show s.m_dhtManager.getMetaServerID q = .ok []
    rw [DHTManager.getMetaServerID, empty]
    rfl
  rw [callRemote, getmetaServerList_replies, nobody]
  rfl

namespace Launch

variable {l : Launch} {layout : Layout}

/-- `globalRank` -/
def rankOf (l : Launch) (i : l.Id) : Int := ((i : Nat) : Int)

theorem rankOf_inj {i j : l.Id} (h : l.rankOf i = l.rankOf j) : i = j :=
  Fin.ext (Int.ofNat_inj.mp h)

/-- The global domain of a start and its shares. -/
structure Lays (l : Launch) (layout : Layout) : Prop where
  lenArray : l.lenArray = layout.lenArray
  partitionLayout : l.partitionLayout = layout.partitionLayout

theorem foldlM_int_mul {list : List Int} {a total : Int}
    (h : list.foldlM (fun total parts => int (total * parts)) a = .ok total) :
    total = a * list.prod := by
  induction list generalizing a with
  | nil =>
    cases h
    rw [List.prod_nil, mul_one]
  | cons parts list ih =>
    rw [List.foldlM_cons] at h
    obtain ⟨product, hp, rest⟩ := bind_eq_ok.mp h
    rw [ih rest, (int_eq_ok.mp hp).2, List.prod_cons, mul_assoc]

namespace Lays

theorem initDHT_boxes (lays : l.Lays layout) {m : DHTManager} (made : l.initDHT {} = .ok m) :
    layout.Fits ∧ m.metaServerIDToBBX = layout.boxes := by
  have run := (initDHT_eq_ok.mp made).2.2
  rw [lays.lenArray, lays.partitionLayout] at run
  obtain ⟨fits, rfl⟩ := (layout.initDHTManually_eq_ok rfl).mp run
  exact ⟨fits, rfl⟩

/-- Each partition has a metadata server. -/
theorem count_eq (lays : l.Lays layout) {m : DHTManager} (made : l.initDHT {} = .ok m) :
    (l.metaserverNum.toNat : Int) = layout.count := by
  obtain ⟨_, ⟨total, product, same⟩, _⟩ := initDHT_eq_ok.mp made
  rw [lays.partitionLayout] at product
  have count : total = layout.count := by
    rw [foldlM_int_mul product, one_mul]
    rfl
  have range := layout.id_mem_range layout.index_last
  have small : layout.count ≤ INT_MAX + 1 := (lays.initDHT_boxes made).1.2
  have max : INT_MAX = 2147483647 := rfl
  rw [← same, size_t_toNat (by omega) (by omega), count]
  omega

/-- The metadata servers that a query hits, as ranks. -/
theorem exists_ranks (lays : l.Lays layout) (v : l.Valid) (q : BBX) :
    ∃ js : List l.Id, js.map l.rankOf = layout.named q := by
  have inside : layout.named q ∈ Set.range (List.map l.rankOf) := by
    rw [Set.range_list_map]
    intro k hk
    obtain ⟨idx, hidx, rfl, _⟩ := layout.mem_named.mp hk
    obtain ⟨nonneg, below⟩ := layout.id_mem_range hidx
    obtain ⟨m, made⟩ := v.partitions
    have count := lays.count_eq made
    have enough := v.enough
    exact ⟨⟨(layout.id idx).toNat, by omega⟩, Int.toNat_of_nonneg nonneg⟩
  exact inside

end Lays

end Launch

namespace Group

variable {l : Launch} {g : Group l} {layout : Layout} {dims : Nat} {indexlb indexub : Array3 Int}
  {q : BBX} {js : List l.Id}

/-- The part of the domain whose metadata a rank has. -/
def ownBox (g : Group l) (i : l.Id) : Option BBX :=
  (g.process i).uniServer.bind fun s => s.m_dhtManager.metaServerIDToBBX.lookup s.globalRank

/-- A query of the domain goes to the same ranks whichever server is asked, and these are the
ones that own a part of it. -/
structure Routed (g : Group l) (dims : Nat) (indexlb indexub : Array3 Int) (q : BBX)
    (js : List l.Id) : Prop where
  asked : ∀ i, ∃ s, (g.process i).uniServer = some s ∧
    callRemote (getmetaServerList dims indexlb indexub) s = .ok (js.map l.endpoint)
  listens : ∀ j ∈ js, l.listener (l.endpoint j) = some j
  owns : ∀ j, j ∈ js ↔ ∃ b, g.ownBox j = some b ∧ q.Hits b
  owner : ∀ p, q.Contains p → ∃! j, ∃ b, g.ownBox j = some b ∧ b.Contains p

/-- A server that knows all metadata servers names those that the query hits. -/
theorem getmetaServerList_told (v : l.Valid) (lays : l.Lays layout)
    (hq : BBX.ofIndex dims indexlb indexub = .ok q) (dim : q.m_dims = layout.dims)
    (named : js.map l.rankOf = layout.named q) {s : UniServer}
    (boxes : s.m_dhtManager.metaServerIDToBBX = layout.boxes)
    (addrs : ∀ k a, s.m_dhtManager.metaServerIDToAddr.lookup k = some a ↔ l.Entry k a) :
    callRemote (getmetaServerList dims indexlb indexub) s = .ok (js.map l.endpoint) := by
  obtain ⟨m, made⟩ := v.partitions
  have count := lays.count_eq made
  have entry : ∀ k, 0 ≤ k → k < layout.count → ∃ j : l.Id, k = l.rankOf j ∧
      s.m_dhtManager.metaServerIDToAddr.lookup k = some (l.endpoint j) := by
    intro k nonneg below
    have enough := v.enough
    have rank : k = l.rankOf ⟨k.toNat, by omega⟩ := (Int.toNat_of_nonneg nonneg).symm
    refine ⟨⟨k.toNat, by omega⟩, rank, (addrs _ _).mpr ((entry_iff v).mpr ⟨_, ?_, rank, rfl⟩)⟩
    show k.toNat < l.metaserverNum.toNat
    omega
  have known : ∀ k, 0 ≤ k → k < layout.count →
      (s.m_dhtManager.metaServerIDToAddr.lookup k).isSome := by
    intro k nonneg below
    obtain ⟨j, _, found⟩ := entry k nonneg below
    rw [found]
    rfl
  have servers : (BBX.ofIndex dims indexlb indexub >>= s.m_dhtManager.getMetaServerID) =
      .ok (layout.responsible q) :=
    bind_eq_ok.mpr ⟨q, hq, layout.getMetaServerID_eq boxes dim⟩
  rw [callRemote, getmetaServerList_replies, servers]
  simp only [layout.collectAddrs_responsible known q]
  refine congrArg Except.ok ?_
  rw [← named, List.map_map]
  refine List.map_congr_left fun j hj => ?_
  have mem : l.rankOf j ∈ layout.named q := named ▸ List.mem_map_of_mem hj
  obtain ⟨idx, hidx, hid, _⟩ := layout.mem_named.mp mem
  obtain ⟨nonneg, below⟩ := layout.id_mem_range hidx
  rw [hid] at nonneg below
  obtain ⟨j', same, found⟩ := entry _ nonneg below
  obtain rfl := Launch.rankOf_inj same
  show (s.m_dhtManager.metaServerIDToAddr.lookup (l.rankOf j)).getD "" = l.endpoint j
  rw [found]
  rfl

/-- While the ranks start, a server names all metadata servers of a query or none. -/
theorem Sound.getmetaServerList (h : g.Sound) (v : l.Valid) (lays : l.Lays layout)
    (hq : BBX.ofIndex dims indexlb indexub = .ok q) (dim : q.m_dims = layout.dims)
    (named : js.map l.rankOf = layout.named q) {i : l.Id} {s : UniServer}
    (own : (g.process i).uniServer = some s) :
    callRemote (getmetaServerList dims indexlb indexub) s = .ok [] ∨
      callRemote (getmetaServerList dims indexlb indexub) s = .ok (js.map l.endpoint) := by
  have late : Stage.managers.index < (g.process i).place := by
    by_contra early
    rw [(h.each i).null (Nat.le_of_not_lt early)] at own
    cases own
  obtain ⟨t, ht, at_t⟩ := (h.each i).server late
  rw [own] at ht
  cases ht
  by_cases early : (g.process i).place ≤ Stage.dht.index
  · exact .inl (getmetaServerList_unpartitioned hq (at_t.unpartitioned early))
  · obtain ⟨m, made, boxes⟩ := at_t.partitioned (Nat.lt_of_not_le early)
    have boxes' := boxes.trans (lays.initDHT_boxes made).2
    by_cases told : l.Told (g.process l.root).told i
    · refine .inr (getmetaServerList_told v lays hq dim named boxes' fun k a => ?_)
      rw [h.tables i s own, and_iff_right told]
    · left
      have unknown : ∀ k, s.m_dhtManager.metaServerIDToAddr.lookup k = none := by
        intro k
        refine Option.eq_none_iff_forall_ne_some.mpr fun a found => ?_
        exact told ((h.tables i s own k a).mp found).1
      have servers : (BBX.ofIndex dims indexlb indexub >>= s.m_dhtManager.getMetaServerID) =
          .ok (layout.responsible q) :=
        bind_eq_ok.mpr ⟨q, hq, layout.getMetaServerID_eq boxes' dim⟩
      rw [callRemote, getmetaServerList_replies, servers]
      simp only [collectAddrs_unknown unknown]

/-- A started rank has the box of its number. -/
theorem Started.ownBox (started : g.Started) (lays : l.Lays layout) (i : l.Id) :
    g.ownBox i = layout.boxes.lookup (l.rankOf i) := by
  obtain ⟨_, _, s, own, serves⟩ := started.process i
  obtain ⟨m, made, boxes⟩ := serves.boxes
  have rank : s.globalRank = l.rankOf i := serves.globalRank
  rw [Group.ownBox, own]
  show s.m_dhtManager.metaServerIDToBBX.lookup s.globalRank = _
  rw [boxes, (lays.initDHT_boxes made).2, rank]

theorem Started.routed (started : g.Started) (v : l.Valid) (lays : l.Lays layout)
    (hq : BBX.ofIndex dims indexlb indexub = .ok q) (inside : layout.Inside q)
    (named : js.map l.rankOf = layout.named q) :
    g.Routed dims indexlb indexub q js where
  asked i := by
    obtain ⟨_, _, s, own, serves⟩ := started.process i
    obtain ⟨m, made, boxes⟩ := serves.boxes
    refine ⟨s, own, getmetaServerList_told v lays hq inside.dims named
      (boxes.trans (lays.initDHT_boxes made).2) fun k a => ?_⟩
    rw [serves.addrs, entry_iff v]
  listens j _ := v.listener j
  owns j := by
    rw [started.ownBox lays]
    constructor
    · intro hj
      have mem : l.rankOf j ∈ layout.named q := named ▸ List.mem_map_of_mem hj
      obtain ⟨idx, hidx, hid, hit⟩ := layout.mem_named.mp mem
      exact ⟨layout.box idx, layout.lookup_boxes.mpr ⟨idx, hidx, hid, rfl⟩, hit⟩
    · rintro ⟨b, found, hit⟩
      obtain ⟨idx, hidx, hid, rfl⟩ := layout.lookup_boxes.mp found
      have mem : l.rankOf j ∈ layout.named q := layout.mem_named.mpr ⟨idx, hidx, hid, hit⟩
      rw [← named] at mem
      obtain ⟨j', hj', same⟩ := List.mem_map.mp mem
      obtain rfl := Launch.rankOf_inj same
      exact hj'
  owner p hp := by
    have dom := inside.inDomain hp
    have hidx := layout.index_ownerIndex dom
    obtain ⟨m, made⟩ := v.partitions
    have count := lays.count_eq made
    have enough := v.enough
    obtain ⟨nonneg, below⟩ := layout.id_mem_range hidx
    refine ⟨⟨(layout.id (layout.ownerIndex p)).toNat, by omega⟩,
      ⟨layout.box (layout.ownerIndex p), ?_, (layout.box_contains hidx).mpr ⟨dom, rfl⟩⟩, ?_⟩
    · rw [started.ownBox lays]
      exact layout.lookup_boxes.mpr ⟨_, hidx, (Int.toNat_of_nonneg nonneg).symm, rfl⟩
    · rintro j ⟨b, found, contains⟩
      rw [started.ownBox lays] at found
      obtain ⟨idx, hidx', hid, rfl⟩ := layout.lookup_boxes.mp found
      refine Fin.ext ?_
      show (j : Nat) = (layout.id (layout.ownerIndex p)).toNat
      rw [← ((layout.box_contains hidx').mp contains).2, hid]
      rfl

end Group

/-- Eight cells in two shares. -/
def eightCells : Layout where
  lenArray := [8]
  partitionLayout := [2]
  dims_pos := by decide
  dims_le := by decide
  positive := by decide

theorem twoServers_lays : twoServers.Lays eightCells := ⟨rfl, rfl⟩

end Gorilla
