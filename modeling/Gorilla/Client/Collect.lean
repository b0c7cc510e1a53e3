import Gorilla.Client.ClientForSim
import Gorilla.Lib.Traverse
import Gorilla.Server.Answers
import Gorilla.Server.Registration
import Gorilla.Server.Routing

/-!
# What the client collects

Over the servers of a layout, a completed collection is the concatenation of one
contribution for each named partition, in the order of the ids.
-/

namespace Gorilla

open HandLock Handler Traverse

/-- When every named server has an address, the reply is their addresses in order. -/
theorem collectAddrs_total {addr : AList fun _ : Int => String} {missing : Stop}
    {named : List ResponsibleMetaServer} {acc : List String}
    (h : ∀ r ∈ named, (addr.lookup r.m_metaServerID).isSome) :
    collectAddrs addr missing named acc =
      (acc ++ named.map fun r => (addr.lookup r.m_metaServerID).getD "", none) := by
  induction named generalizing acc with
  | nil => simp [collectAddrs]
  | cons r named ih =>
    obtain ⟨hr, hn⟩ := List.forall_mem_cons.mp h
    obtain ⟨a, ha⟩ := Option.isSome_iff_exists.mp hr
    rw [collectAddrs, ha]
    show collectAddrs addr missing named (acc ++ [a]) = _
    rw [ih hn]
    simp [ha]

namespace Network

variable (net : Network)

/-- The address the client's server knows for a partition. -/
def addr (k : Int) : String :=
  (net.m_associatedDataServer.m_dhtManager.metaServerIDToAddr.lookup k).getD ""

/-- The servers of a layout are up: the initialisation returned, partition `k` has an address, and
whoever answers there is the server of rank `k` with the same boxes and a reachable map. -/
structure Serves (l : Layout) : Prop where
  initialised : ∃ m, DHTManager.initDHTManually l.lenArray l.partitionLayout {} = .ok m ∧
    net.m_associatedDataServer.m_dhtManager.metaServerIDToBBX = m.metaServerIDToBBX ∧
    ∀ a, ∀ s ∈ net.polls a, s.m_dhtManager.metaServerIDToBBX = m.metaServerIDToBBX
  known : ∀ k, 0 ≤ k → k < l.count →
    (net.m_associatedDataServer.m_dhtManager.metaServerIDToAddr.lookup k).isSome
  rank : ∀ k, 0 ≤ k → k < l.count → ∀ s ∈ net.polls (net.addr k), s.globalRank = k
  reached : ∀ a, ∀ s ∈ net.polls a, s.m_metaManager.Reached

end Network

namespace Layout

variable (l : Layout)

/-- Every partition that overlaps the query has an address, so none is missed. -/
theorem collectAddrs_responsible {addrs : AList fun _ : Int => String}
    (known : ∀ k, 0 ≤ k → k < l.count → (addrs.lookup k).isSome) (q : BBX) {missing : Stop} :
    collectAddrs addrs missing (l.responsible q) [] =
      ((l.named q).map fun k => (addrs.lookup k).getD "", none) := by
  have total : ∀ r ∈ l.responsible q, (addrs.lookup r.m_metaServerID).isSome := by
    intro r hr
    obtain ⟨e, he, rfl⟩ := List.mem_map.mp hr
    obtain ⟨idx, hidx, hid, _⟩ := l.mem_named.mp (List.mem_map_of_mem he)
    have := l.id_mem_range hidx
    rw [hid] at this
    exact known _ this.1 this.2
  rw [collectAddrs_total total]
  simp [responsible, named, Function.comp_def]

/-- A query inside the domain ends below `INT_MAX`. -/
theorem bounds_of_inside {q : BBX} (hwf : q.WellFormed)
    (inside : ∀ p, q.Contains p → l.InDomain p) :
    ∀ b ∈ q.BoundList, 0 ≤ b.m_lb ∧ b.m_ub < INT_MAX := by
  have hlb := inside (q.BoundList.map Bound.m_lb) (by
    rw [BBX.Contains, List.forall₂_map_right_iff, List.forall₂_same]
    exact fun b hb => ⟨le_rfl, hwf b hb⟩)
  have hub := inside (q.BoundList.map Bound.m_ub) (by
    rw [BBX.Contains, List.forall₂_map_right_iff, List.forall₂_same]
    exact fun b hb => ⟨hwf b hb, le_rfl⟩)
  have hpos := l.positive
  simp only [InDomain, MixedRadix.Digits, List.forall₂_map_right_iff] at hlb hub
  clear hwf inside
  generalize l.lenArray = ns, l.partitionLayout = Ls, q.BoundList = bs at *
  induction hpos generalizing bs with
  | nil =>
    cases hlb
    simp
  | @cons n L ns Ls h _ ih =>
    cases hlb with
    | @cons _ b _ bs hl hls =>
    cases hub with
    | cons hu hus => exact List.forall_mem_cons.mpr ⟨⟨by omega, by omega⟩, ih _ hls hus⟩

end Layout

namespace Network.Serves

variable {net : Network} {l : Layout}

theorem fits (h : net.Serves l) : l.Fits := by
  obtain ⟨m, hm, _⟩ := h.initialised
  exact ((l.initDHTManually_eq_ok rfl).mp hm).1

theorem boxes (h : net.Serves l) :
    net.m_associatedDataServer.m_dhtManager.metaServerIDToBBX = l.boxes ∧
      ∀ a, ∀ s ∈ net.polls a, s.m_dhtManager.metaServerIDToBBX = l.boxes := by
  obtain ⟨m, hm, hb⟩ := h.initialised
  obtain ⟨_, rfl⟩ := (l.initDHTManually_eq_ok rfl).mp hm
  exact hb

variable {dims : Nat} {indexlb indexub : Array3 Int} {q : BBX}

/-- The reply of `getmetaServerList` to a query of the layout's dimensions. -/
theorem metaServerList (h : net.Serves l) (hq : BBX.ofIndex dims indexlb indexub = .ok q)
    (hdim : q.m_dims = l.dims) :
    callRemote (getmetaServerList dims indexlb indexub) net.m_associatedDataServer =
      .ok ((l.named q).map net.addr) := by
  have hlist : (BBX.ofIndex dims indexlb indexub >>=
      net.m_associatedDataServer.m_dhtManager.getMetaServerID) = .ok _ :=
    bind_eq_ok.mpr ⟨q, hq, l.getMetaServerID_eq h.boxes.1 hdim⟩
  rw [callRemote, Handler.replies, getmetaServerList, bind_ok getServer_run]
  simp only [hlist, l.collectAddrs_responsible h.known q]
  rfl

/-- A query of other dimensions throws at the first box, and the reply names no server. -/
theorem metaServerList_dims (h : net.Serves l) (hq : BBX.ofIndex dims indexlb indexub = .ok q)
    (hdim : q.m_dims ≠ l.dims) :
    callRemote (getmetaServerList dims indexlb indexub) net.m_associatedDataServer = .ok [] := by
  obtain ⟨what, hr⟩ : ∃ what, net.m_associatedDataServer.m_dhtManager.getMetaServerID q =
      .error (.runtime_error what) := by
    rw [DHTManager.getMetaServerID, h.boxes.1]
    cases he : sortedEntries l.boxes with
    | nil =>
      obtain ⟨e, hmem, _⟩ := l.exists_entry
      rw [he] at hmem
      cases hmem
    | cons e es =>
      have hne : q.m_dims ≠ e.2.m_dims := by
        rw [l.dims_entry (e := e) (by rw [he]; exact List.mem_cons_self)]
        exact hdim
      simp [DHTManager.responsible, getOverlapBBX, hne, bind, Except.bind]
  have hlist : (BBX.ofIndex dims indexlb indexub >>=
      net.m_associatedDataServer.m_dhtManager.getMetaServerID) = .error (.runtime_error what) := by
    rw [hq]
    exact hr
  rw [callRemote, Handler.replies, getmetaServerList, bind_ok getServer_run]
  simp only [hlist]
  simp [respond]

end Network.Serves

namespace ClientForSim

variable {net : Network} {step : Nat} {varName : String} {dims : Nat} {indexlb indexub : Array3 Int}

/-- A completed poll ends with the list of one of the polled servers. -/
theorem pollDescriptors_eq_ok {polls : List UniServer} {bdList : List BlockDescriptor}
    (h : pollDescriptors step varName dims indexlb indexub polls = .ok bdList) :
    bdList ≠ [] ∧ ∃ s ∈ polls,
      callRemote (getBlockDescriptorList step varName dims indexlb indexub) s = .ok bdList := by
  induction polls with
  | nil => cases h
  | cons s polls ih =>
    obtain ⟨l, hl, h⟩ := bind_eq_ok.mp h
    by_cases he : l.isEmpty
    · rw [if_pos he] at h
      obtain ⟨hne, t, ht, hr⟩ := ih h
      exact ⟨hne, t, List.mem_cons_of_mem s ht, hr⟩
    · rw [if_neg he] at h
      cases h
      exact ⟨by simpa using he, s, List.mem_cons_self, hl⟩

theorem pollDescriptors_first {s : UniServer} {bdList : List BlockDescriptor}
    (h : callRemote (getBlockDescriptorList step varName dims indexlb indexub) s = .ok bdList)
    (hne : bdList ≠ []) (rest : List UniServer) :
    pollDescriptors step varName dims indexlb indexub (s :: rest) = .ok bdList := by
  rw [pollDescriptors, h]
  show (if bdList.isEmpty then _ else _) = _
  rw [if_neg (by simpa using hne)]
  rfl

theorem collectViews_eq_ok {addrs : List String} {views : List MatrixView} :
    collectViews net step varName dims indexlb indexub addrs = .ok views ↔
      ∃ parts : List (List MatrixView), views = parts.flatten ∧
        List.Forall₂ (fun addr part => ∃ bdList,
          pollDescriptors step varName dims indexlb indexub (net.polls addr) = .ok bdList ∧
            bdList.mapM (readDescriptor net dims) = .ok part) addrs parts := by
  induction addrs generalizing views with
  | nil => simp [collectViews, eq_comm]
  | cons addr addrs ih =>
    rw [collectViews, bind_eq_ok]
    constructor
    · rintro ⟨bdList, hpoll, h⟩
      obtain ⟨part, hpart, h⟩ := bind_eq_ok.mp h
      obtain ⟨rest, hrest, h⟩ := bind_eq_ok.mp h
      cases h
      obtain ⟨parts, rfl, hparts⟩ := ih.mp hrest
      exact ⟨part :: parts, rfl, .cons ⟨bdList, hpoll, hpart⟩ hparts⟩
    · rintro ⟨parts, rfl, hparts⟩
      cases hparts with
      | @cons _ part _ parts hhead hrest =>
        obtain ⟨bdList, hpoll, hpart⟩ := hhead
        refine ⟨bdList, hpoll,
          bind_eq_ok.mpr ⟨part, hpart, bind_eq_ok.mpr ⟨parts.flatten, ?_, rfl⟩⟩⟩
        exact ih.mpr ⟨parts, rfl, hrest⟩

end ClientForSim

namespace ClientForSim

variable {net : Network} {step : Nat} {varName : String}

/-- The container of a filled part of a box holds eight bytes for each cell. -/
theorem part_alloc {w q : BBX} (hd : w.Dims) (same : q.m_dims = w.m_dims) (within : w.Within q)
    (corner : w.In w.getIndexlb) (axes : q.AxesFit) (hfit : q.cells ≤ INT_MAX + 1) :
    ∃ n, w.getElemNum = .ok n ∧ (8 * n).toNat = 8 * w.cells.toNat := by
  have hmax : INT_MAX = 2147483647 := rfl
  have hle := BBX.cells_le within corner
  obtain ⟨n, hn, hv⟩ := BBX.getElemNum_fits hd (BBX.wellFormed_of_corner hd corner)
    (axes.mono hd same within corner) (by omega)
  have h8 : (8 : UInt64).toNat = 8 := rfl
  refine ⟨n, hn, ?_⟩
  rw [UInt64.toNat_mul, h8, Nat.mod_eq_of_lt (by omega)]
  omega

/-- The view of a block's part of the query can be copied once its container holds eight bytes
for each cell. -/
theorem copyable_part {e : UInt64} {a q : BBX} (he8 : e.toNat ≤ 8) (hq : q.Dims)
    (hd : a.m_dims = q.m_dims) (ha : a.WellFormed) (hwf : q.WellFormed) (axes : q.AxesFit)
    (hfit : q.cells ≤ INT_MAX + 1) (hit : a.Hits q) : ∃ n, (a.meet q).getElemNum = .ok n ∧
      (8 * n).toNat = 8 * (a.meet q).cells.toNat ∧ (a.meet q).cells ≤ q.cells ∧
      ∀ data : Buffer, data.length = (8 * n).toNat →
        MATRIXTOOL.Copyable e q ⟨a.meet q, data⟩ := by
  have hm := (BBX.dims_meet hd).trans hd
  have hmd : (a.meet q).Dims := by
    rw [BBX.Dims, hm]
    exact hq
  have hmwf := BBX.Hits.wellFormed_meet ha hwf hit
  have hwithin := BBX.meet_within hd hq
  have corner := hmwf.corner hmd
  obtain ⟨n, hn, halloc⟩ := part_alloc hmd hm.symm hwithin corner axes hfit
  refine ⟨n, hn, halloc, BBX.cells_le hwithin corner, fun data hdata =>
    ⟨hmd, hm.symm, corner, hwithin, ?_⟩⟩
  show e.toNat * (a.meet q).cells.toNat ≤ data.length
  rw [hdata, halloc]
  exact Nat.mul_le_mul_right _ he8

/-- The view the client reads for a registered block. -/
def readBlock (net : Network) (q : BBX) (bd : BlockDescriptor) : Except Stop MatrixView :=
  readDescriptor net q.m_dims
    (MetaDataManager.overlapDescriptor DATATYPE_CARGRID bd (bd.bbx.meet q))

/-- What is read for a part of the query, whatever its box. -/
theorem readBlock_eq_ok {q : BBX} {bd : BlockDescriptor} {view : MatrixView} (hqd : q.Dims)
    (hd : bd.bbx.m_dims = q.m_dims) (h : readBlock net q bd = .ok view) :
    view.m_bbx = bd.bbx.meet q ∧ ∃ n, (bd.bbx.meet q).getElemNum = .ok n ∧
      readPart net q.m_dims (MetaDataManager.overlapDescriptor DATATYPE_CARGRID bd
        (bd.bbx.meet q)) (8 * n) = .ok view.m_data := by
  have same : (bd.bbx.meet q).m_dims = q.m_dims := (BBX.dims_meet hd).trans hd
  have corners := BBX.ofIndex_corners (b := bd.bbx.meet q) (by rw [same]; exact hqd.2)
  rw [same] at corners
  obtain ⟨bbx, hb, h⟩ := bind_eq_ok.mp h
  obtain rfl : bbx = bd.bbx.meet q := Except.ok.inj (hb.symm.trans corners)
  obtain ⟨n, hn, h⟩ := bind_eq_ok.mp h
  obtain ⟨data, read, h⟩ := bind_eq_ok.mp h
  cases h
  exact ⟨rfl, n, hn, read⟩

/-- The box of the view read for a registered block is the overlap the server reported. -/
theorem readBlock_bbx {q : BBX} {bd : BlockDescriptor} {view : MatrixView} (hq : q.Dims)
    (hd : bd.bbx.m_dims = q.m_dims) (h : readBlock net q bd = .ok view) :
    view.m_bbx = bd.bbx.meet q :=
  (readBlock_eq_ok hq hd h).1

/-- The list a named server gives out: the registered blocks cover its own part of the query, and
each one that overlaps the query is listed, cut to it. -/
structure GivesOut (net : Network) (l : Layout) (step : Nat) (varName : String) (q : BBX)
    (idx : List Int) (s : UniServer) (bdList : List BlockDescriptor) : Prop where
  index : l.Index idx
  polled : s ∈ net.polls (net.addr (l.id idx))
  hits : q.Hits (l.box idx)
  covered : MetaDataManager.ifCovered (s.m_metaManager.registered step varName)
    (q.meet (l.box idx)) = .ok true
  dims : ∀ bd ∈ s.m_metaManager.registered step varName, bd.bbx.m_dims = q.m_dims
  list_eq : bdList = ((s.m_metaManager.registered step varName).filter fun bd => bd.bbx.Hits q).map
    fun bd => MetaDataManager.overlapDescriptor DATATYPE_CARGRID bd (bd.bbx.meet q)
  listed : ∃ bd ∈ s.m_metaManager.registered step varName, bd.bbx.Hits q

variable {l : Layout} {dims : Nat} {indexlb indexub : Array3 Int} {q : BBX}

theorem givesOut_of_poll (hserves : net.Serves l) (hq : BBX.ofIndex dims indexlb indexub = .ok q)
    {k : Int} (hk : k ∈ l.named q) {bdList : List BlockDescriptor}
    (h : pollDescriptors step varName dims indexlb indexub (net.polls (net.addr k)) =
      .ok bdList) :
    ∃ idx s, l.id idx = k ∧ GivesOut net l step varName q idx s bdList := by
  obtain ⟨idx, hidx, rfl, _⟩ := l.mem_named.mp hk
  obtain ⟨hne, s, hs, hreply⟩ := pollDescriptors_eq_ok h
  obtain ⟨q', own, entries, hq', hans⟩ := answered_of_reply hne hreply
  obtain rfl : q = q' := Except.ok.inj (hq.symm.trans hq')
  have hrange := l.id_mem_range hidx
  have hown := hans.own_eq
  rw [hserves.boxes.2 _ s hs, hserves.rank _ hrange.1 hrange.2 s hs] at hown
  obtain rfl : l.box idx = own := by
    obtain ⟨jdx, hjdx, hid, hb⟩ := l.lookup_boxes.mp hown
    rw [← hb, l.id_inj hjdx hidx hid]
  have hreg : s.m_metaManager.registered step varName = entries := by
    rw [MetaDataManager.registered, hans.entries_eq]
    rfl
  obtain ⟨hall, hlist⟩ := MetaDataManager.overlapEndpoints_eq_ok.mp hans.overlaps
  refine ⟨idx, s, rfl, hidx, hs, hans.hits, hreg ▸ hans.covered,
    fun bd hbd => (hall bd (hreg ▸ hbd)).2.1, by rw [hreg]; exact hlist, ?_⟩
  obtain ⟨entry, hentry⟩ := List.exists_mem_of_ne_nil bdList hne
  rw [hlist] at hentry
  obtain ⟨bd, hbd, _⟩ := List.mem_map.mp hentry
  obtain ⟨hmem, hit⟩ := List.mem_filter.mp hbd
  exact ⟨bd, hreg ▸ hmem, by simpa using hit⟩

/-- What a named server contributes to the collection. -/
def Contributes (net : Network) (l : Layout) (step : Nat) (varName : String) (q : BBX) (k : Int)
    (part : List MatrixView) : Prop :=
  ∃ idx s bdList, l.id idx = k ∧ GivesOut net l step varName q idx s bdList ∧
    bdList.mapM (readDescriptor net q.m_dims) = .ok part

/-- A completed collection holds the contribution of every named server, in order. -/
theorem matrixViewList_eq_ok {views : List MatrixView} (hserves : net.Serves l)
    (hq : BBX.ofIndex dims indexlb indexub = .ok q) (hdim : q.m_dims = l.dims)
    (h : matrixViewList net step varName dims indexlb indexub = .ok views) :
    ∃ parts : List (List MatrixView), views = parts.flatten ∧
      List.Forall₂ (Contributes net l step varName q) (l.named q) parts := by
  obtain ⟨metaList, hlist, h⟩ := bind_eq_ok.mp h
  rw [hserves.metaServerList hq hdim] at hlist
  obtain rfl := Except.ok.inj hlist
  obtain ⟨parts, rfl, hparts⟩ := collectViews_eq_ok.mp h
  refine ⟨parts, rfl, ?_⟩
  rw [List.forall₂_map_left_iff] at hparts
  refine forall₂_imp_mem ?_ hparts
  intro k hk part ⟨bdList, hpoll, hpart⟩
  obtain ⟨idx, s, hid, hgives⟩ := givesOut_of_poll hserves hq hk hpoll
  exact ⟨idx, s, bdList, hid, hgives, by rw [BBX.dims_ofIndex hq]; exact hpart⟩

/-- Where every registered block can be read and every named server gives out a list, the
collection completes. -/
theorem matrixViewList_ok (hserves : net.Serves l)
    (hq : BBX.ofIndex dims indexlb indexub = .ok q) (hdim : q.m_dims = l.dims)
    (polls : ∀ k ∈ l.named q, ∃ bdList,
      pollDescriptors step varName dims indexlb indexub (net.polls (net.addr k)) = .ok bdList)
    (reads : ∀ addr, ∀ s ∈ net.polls addr, ∀ bd ∈ s.m_metaManager.registered step varName,
      bd.bbx.m_dims = q.m_dims → bd.bbx.Hits q → ∃ view, readBlock net q bd = .ok view) :
    ∃ views, matrixViewList net step varName dims indexlb indexub = .ok views := by
  have each : ∀ k ∈ l.named q, ∃ part, ∃ bdList,
      pollDescriptors step varName dims indexlb indexub (net.polls (net.addr k)) = .ok bdList ∧
        bdList.mapM (readDescriptor net dims) = .ok part := by
    intro k hk
    obtain ⟨bdList, hpoll⟩ := polls k hk
    obtain ⟨idx, s, rfl, hgives⟩ := givesOut_of_poll hserves hq hk hpoll
    have hread : ∀ bd ∈ bdList, ∃ view, readDescriptor net dims bd = .ok view := by
      intro entry hentry
      rw [hgives.list_eq] at hentry
      obtain ⟨bd, hbd, rfl⟩ := List.mem_map.mp hentry
      obtain ⟨hreg, hit⟩ := List.mem_filter.mp hbd
      have := reads _ s hgives.polled bd hreg (hgives.dims bd hreg) (by simpa using hit)
      rwa [readBlock, BBX.dims_ofIndex hq] at this
    obtain ⟨part, hpart⟩ := exists_forall₂ hread
    exact ⟨part, bdList, hpoll, mapM_eq_ok.mpr hpart⟩
  obtain ⟨parts, hparts⟩ := exists_forall₂ each
  refine ⟨parts.flatten, bind_eq_ok.mpr ⟨_, hserves.metaServerList hq hdim, ?_⟩⟩
  exact collectViews_eq_ok.mpr ⟨parts, rfl, List.forall₂_map_left_iff.mpr hparts⟩

/-- Every view of the collection was read for a registered block that overlaps the query. -/
theorem view_registered {views : List MatrixView} (hserves : net.Serves l)
    (hq : BBX.ofIndex dims indexlb indexub = .ok q) (hdim : q.m_dims = l.dims)
    (h : matrixViewList net step varName dims indexlb indexub = .ok views) {view : MatrixView}
    (hview : view ∈ views) :
    ∃ idx s, l.Index idx ∧ q.Hits (l.box idx) ∧ s ∈ net.polls (net.addr (l.id idx)) ∧
      ∃ bd ∈ s.m_metaManager.registered step varName,
        bd.bbx.m_dims = q.m_dims ∧ bd.bbx.Hits q ∧ readBlock net q bd = .ok view := by
  obtain ⟨parts, rfl, hparts⟩ := matrixViewList_eq_ok hserves hq hdim h
  obtain ⟨part, hpart, hview⟩ := List.mem_flatten.mp hview
  obtain ⟨k, _, idx, s, bdList, _, hgives, hread⟩ := exists_left_of_forall₂ hparts hpart
  obtain ⟨entry, hentry, hv⟩ := exists_left_of_forall₂ (mapM_eq_ok.mp hread) hview
  rw [hgives.list_eq] at hentry
  obtain ⟨bd, hbd, rfl⟩ := List.mem_map.mp hentry
  obtain ⟨hreg, hit⟩ := List.mem_filter.mp hbd
  exact ⟨idx, s, hgives.index, hgives.hits, hgives.polled, bd, hreg, hgives.dims bd hreg,
    by simpa using hit, hv⟩

/-- The state in which a named server gave out its list. Its blocks cover its part of the query,
and those that overlap the query are read. -/
theorem named_read {views : List MatrixView} (hserves : net.Serves l)
    (hq : BBX.ofIndex dims indexlb indexub = .ok q) (hdim : q.m_dims = l.dims)
    (h : matrixViewList net step varName dims indexlb indexub = .ok views) {idx : List Int}
    (hidx : l.Index idx) (hits : q.Hits (l.box idx)) :
    ∃ s ∈ net.polls (net.addr (l.id idx)),
      MetaDataManager.ifCovered (s.m_metaManager.registered step varName)
        (q.meet (l.box idx)) = .ok true ∧
      ∀ bd ∈ s.m_metaManager.registered step varName, bd.bbx.m_dims = q.m_dims ∧
        (bd.bbx.Hits q → ∃ view ∈ views, readBlock net q bd = .ok view) := by
  obtain ⟨parts, rfl, hparts⟩ := matrixViewList_eq_ok hserves hq hdim h
  obtain ⟨part, hpart, jdx, s, bdList, hid, hgives, hread⟩ :=
    exists_right_of_forall₂ hparts (l.mem_named.mpr ⟨idx, hidx, rfl, hits⟩)
  obtain rfl : jdx = idx := l.id_inj hgives.index hidx hid
  refine ⟨s, hgives.polled, hgives.covered, fun bd hbd => ⟨hgives.dims bd hbd, fun hover => ?_⟩⟩
  have hmem : MetaDataManager.overlapDescriptor DATATYPE_CARGRID bd (bd.bbx.meet q) ∈ bdList := by
    rw [hgives.list_eq]
    exact List.mem_map_of_mem (List.mem_filter.mpr ⟨hbd, by simpa using hover⟩)
  obtain ⟨view, hview, hv⟩ := exists_right_of_forall₂ (mapM_eq_ok.mp hread) hmem
  exact ⟨view, List.mem_flatten.mpr ⟨part, hpart, hview⟩, hv⟩

/-- Where a named server's part of the query still holds a probe, one of its blocks hits the probe,
and is read when it overlaps the query. -/
theorem probe_read {views : List MatrixView} (hserves : net.Serves l)
    (hq : BBX.ofIndex dims indexlb indexub = .ok q) (hdim : q.m_dims = l.dims)
    (h : matrixViewList net step varName dims indexlb indexub = .ok views) {idx : List Int}
    (hidx : l.Index idx) (hits : q.Hits (l.box idx)) {ts : List Bound}
    (hprobe : (q.meet (l.box idx)).Probe ts) :
    ∃ bd : BlockDescriptor, bd.bbx.m_dims = q.m_dims ∧ bd.bbx.HitsAll ts ∧
      (bd.bbx.Hits q → ∃ view ∈ views, readBlock net q bd = .ok view) := by
  obtain ⟨s, _, covered, reads⟩ := named_read hserves hq hdim h hidx hits
  obtain ⟨bd, hbd, hit⟩ := MetaDataManager.ifCovered_sound rfl covered hprobe
  exact ⟨bd, (reads bd hbd).1, hit, (reads bd hbd).2⟩

/-- A file read leaves the cells of the asked part, eight bytes for each. -/
def WholeFiles (net : Network) : Prop :=
  ∀ id (b : BBX) blockid data, b.Dims →
    net.getBlockSubregion id b.m_dims b.getIndexlb b.getIndexub = .ok (blockid, data) →
    blockid ≠ "" → 8 * b.cells.toNat ≤ data.length

/-- A read part fills its container, or is the file's. -/
theorem length_readPart {dims : Nat} {bd : BlockDescriptor} {alloc : UInt64} {data : Buffer}
    (h : readPart net dims bd alloc = .ok data) : data.length = alloc.toNat ∨
      ∃ blockid, net.getBlockSubregion bd.m_rawDataID dims bd.m_indexlb bd.m_indexub =
        .ok (blockid, data) ∧ blockid ≠ "" := by
  unfold readPart at h
  split at h
  · obtain ⟨⟨status, sent⟩, _, h⟩ := bind_eq_ok.mp h
    by_cases bad : status ≠ 0
    · simp [bad, throw, throwThe, MonadExceptOf.throw, bind, Except.bind] at h
    · simp only [bad, if_false] at h
      unfold fillContainer at h
      split at h
      · cases h
      · cases h
        refine .inl ?_
        simp only [List.length_append, List.length_replicate]
        omega
  · split at h
    · obtain ⟨⟨blockid, sent⟩, read, h⟩ := bind_eq_ok.mp h
      by_cases none : blockid = ""
      · simp [none, throw, throwThe, MonadExceptOf.throw, bind, Except.bind] at h
      · simp only [none, if_false] at h
        cases h
        exact .inr ⟨blockid, read, none⟩
    · cases h

end ClientForSim

end Gorilla
