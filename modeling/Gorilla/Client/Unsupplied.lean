import Gorilla.Client.Deployment
import Gorilla.Utils.Rejection

/-!
# Cells no block supplied

A region read returns only supplied cells, copied inside the buffers, exactly when the elements
have at most the eight bytes of a container cell, the query has the dimensions of the layout and
no more cells than an `int` numbers, does not start below the domain, ends inside it or on the
start of a share, and in one dimension meets every partition in a single cell.
-/

namespace Gorilla

open HandLock Handler ClientForSim MATRIXTOOL MixedRadix

/-- The bytes of a cell of the result were copied from a registered block that holds the cell. -/
def Supplied (net : Network) (step : Nat) (varName : String) (e : UInt64) (q : BBX)
    (out : MatrixView) (p : List Int) : Prop :=
  ∃ addr, ∃ s ∈ net.polls addr, ∃ bd ∈ s.m_metaManager.registered step varName,
    bd.bbx.Contains p ∧ ∃ view, readBlock net q bd = .ok view ∧ view.m_bbx.Contains p ∧
      q.cellAt e out.m_data (.ofList 0 p) = view.m_bbx.cellAt e view.m_data (.ofList 0 p)

namespace Layout

/-- In no state of the servers of the layout does a read of the query return a cell that no block
supplied, and once its parts are collected it returns or throws: no copy leaves a buffer. -/
structure NeverUnsupplied (l : Layout) (e : UInt64) (dims : Nat) (indexlb indexub : Array3 Int)
    (q : BBX) : Prop where
  supplied : ∀ net step varName out, net.Serves l →
    getArbitraryData net step varName e dims indexlb indexub = .ok out →
      ∀ p, q.Contains p → Supplied net step varName e q out p
  inside : ∀ net step varName views, net.Serves l → WholeFiles net →
    matrixViewList net step varName dims indexlb indexub = .ok views →
      (∃ out, matrixAssemble e views q = .ok out) ∨ Raises (matrixAssemble e views q)

/-- The query does not start below the axis, and ends inside it or where a share starts. -/
def AxisSafe (n L : Int) (b : Bound) : Prop :=
  0 ≤ b.m_lb ∧ (b.m_ub < n ∨ b.m_lb < n ∧ ∃ x, (0 ≤ x ∧ x < L) ∧ b.m_ub = x * ceilDiv n L)

def AxesSafe : List Int → List Int → List Bound → Prop
  | n :: ns, L :: Ls, b :: bs => AxisSafe n L b ∧ AxesSafe ns Ls bs
  | _, _, _ => True

/-- The queries whose completed reads have no unsupplied cell. -/
structure Safe (l : Layout) (e : UInt64) (q : BBX) : Prop where
  dims : q.m_dims = l.dims
  axes : AxesSafe l.lenArray l.partitionLayout q.BoundList
  thin : l.dims = 1 → ∀ idx, l.Index idx → q.Hits (l.box idx) →
    ∀ b ∈ (q.meet (l.box idx)).BoundList, b.m_ub ≤ b.m_lb
  elem : e.toNat ≤ 8
  cells : q.cells ≤ INT_MAX + 1

/-- The share and the probe that answer for one coordinate of a safe axis. -/
theorem exists_probe {n L x : Int} {b : Bound} (hn : 0 < n) (hL : 0 < L) (h : AxisSafe n L b)
    (hx : b.Contains x) : ∃ k t, (0 ≤ k ∧ k < L) ∧ b.Hits (share n L k) ∧
      (b.meet (share n L k)).Probe t ∧ ∀ b', Bound.Hits b' t → b'.Contains x := by
  have hs := ceilDiv_pos hn hL
  obtain ⟨h0, hend⟩ := h
  obtain ⟨hlo, hhi⟩ := hx
  by_cases hin : x < n
  · have hk0 : 0 ≤ x / ceilDiv n L := Int.ediv_nonneg (by omega) hs.le
    have hshare : (share n L (x / ceilDiv n L)).Contains x :=
      (share_contains hn hL hk0).mpr ⟨⟨by omega, hin⟩, rfl⟩
    have hle := (ceilDiv_bounds (n := n) hL).1
    refine ⟨x / ceilDiv n L, Bound.cell x, ⟨hk0, ?_⟩, ?_, ?_, fun b' hb' => hb'⟩
    · exact (Int.ediv_lt_iff_lt_mul hs).mpr (by omega)
    · exact Bound.hits_of_contains ⟨hlo, hhi⟩ hshare
    · exact Bound.probe_cell.mpr (Bound.contains_meet.mpr ⟨⟨hlo, hhi⟩, hshare⟩)
  · -- past the domain the inverted share that starts where the query ends is met whole
    rcases hend with hend | ⟨hlt, k, hk, hub⟩
    · omega
    have he : (k + 1) * ceilDiv n L = k * ceilDiv n L + ceilDiv n L := by ring
    have hshare : share n L k = ⟨k * ceilDiv n L, n - 1⟩ := by
      rw [share, Bound.mk.injEq]
      exact ⟨rfl, by omega⟩
    rw [← hub] at hshare
    refine ⟨k, share n L k, hk, ?_, ?_, ?_⟩
    · rw [hshare]
      exact ⟨by show b.m_lb ≤ n - 1; omega, le_rfl⟩
    · refine Or.inl ⟨by rw [hshare]; show n - 1 < b.m_ub; omega, ?_⟩
      rw [hshare, Bound.meet, Bound.mk.injEq]
      simp only
      omega
    · rw [hshare]
      rintro b' ⟨h1, h2⟩
      simp only at h1 h2
      exact ⟨by omega, by omega⟩

theorem exists_probes {ns Ls : List Int} {bs : List Bound} {p : List Int}
    (hp : List.Forall₂ (fun n L => (0 < n ∧ n ≤ INT_MAX) ∧ 0 < L ∧ L ≤ INT_MAX) ns Ls)
    (hlen : bs.length = Ls.length) (h : AxesSafe ns Ls bs)
    (hx : List.Forall₂ Bound.Contains bs p) : ∃ idx ts, Digits Ls idx ∧
      List.Forall₂ Bound.Hits bs (shares ns Ls idx) ∧
      List.Forall₂ Bound.Probe (List.zipWith Bound.meet bs (shares ns Ls idx)) ts ∧
      ∀ bs', List.Forall₂ Bound.Hits bs' ts → List.Forall₂ Bound.Contains bs' p := by
  induction hp generalizing bs p with
  | nil =>
    obtain rfl : bs = [] := List.length_eq_zero_iff.mp hlen
    cases hx
    exact ⟨[], [], .nil, .nil, .nil, fun bs' h => by cases h; exact .nil⟩
  | @cons n L ns Ls hnL _ ih =>
    cases hx with
    | nil => simp at hlen
    | @cons b x bs p hx0 hx =>
      obtain ⟨k, t, hk, hit, hpr, hback⟩ := exists_probe hnL.1.1 hnL.2.1 h.1 hx0
      obtain ⟨idx, ts, hidx, hits, hprs, hbacks⟩ := ih (by simpa using hlen) h.2 hx
      refine ⟨k :: idx, t :: ts, .cons hk hidx, .cons hit hits, .cons hpr hprs, ?_⟩
      intro bs' hb
      cases hb with
      | cons h0 hrest => exact .cons (hback _ h0) (hbacks _ hrest)

/-- A share starts below `INT_MAX` when no span overflows. -/
theorem share_start_lt {n L x : Int} (hn : 0 < n) (hL : 0 < L) (fits : L * ceilDiv n L ≤ INT_MAX)
    (hx : x < L) : x * ceilDiv n L < INT_MAX := by
  have hs := ceilDiv_pos hn hL
  have last : x * ceilDiv n L ≤ (L - 1) * ceilDiv n L :=
    mul_le_mul_of_nonneg_right (by omega) hs.le
  have he : (L - 1) * ceilDiv n L = L * ceilDiv n L - ceilDiv n L := by ring
  omega

theorem AxisSafe.bounds {n L : Int} {b : Bound} (hn : 0 < n ∧ n ≤ INT_MAX) (hL : 0 < L)
    (fits : L * ceilDiv n L ≤ INT_MAX) (h : AxisSafe n L b) : 0 ≤ b.m_lb ∧ b.m_ub < INT_MAX := by
  obtain ⟨h0, hin | ⟨_, x, hx, hub⟩⟩ := h
  · exact ⟨h0, by omega⟩
  · have := share_start_lt hn.1 hL fits hx.2
    exact ⟨h0, by omega⟩

theorem AxesSafe.bounds {ns Ls : List Int} {bs : List Bound}
    (hp : List.Forall₂ (fun n L => (0 < n ∧ n ≤ INT_MAX) ∧ 0 < L ∧ L ≤ INT_MAX) ns Ls)
    (fits : List.Forall₂ (fun n L => L * ceilDiv n L ≤ INT_MAX) ns Ls)
    (hlen : bs.length = Ls.length) (h : AxesSafe ns Ls bs) :
    ∀ b ∈ bs, 0 ≤ b.m_lb ∧ b.m_ub < INT_MAX := by
  induction hp generalizing bs with
  | nil =>
    obtain rfl : bs = [] := List.length_eq_zero_iff.mp hlen
    exact List.forall_mem_nil _
  | @cons n L ns Ls hnL _ ih =>
    cases fits with
    | cons fit fits =>
    cases bs with
    | nil => simp at hlen
    | cons b bs =>
      exact List.forall_mem_cons.mpr ⟨h.1.bounds hnL.1 hnL.2.1 fit,
        ih fits (by simpa using hlen) h.2⟩

variable {l : Layout} {e : UInt64} {dims : Nat} {indexlb indexub : Array3 Int} {q : BBX}

theorem query_dims (hdim : q.m_dims = l.dims) : q.Dims := by
  rw [BBX.Dims, hdim]
  exact ⟨l.dims_pos, l.dims_le⟩

theorem axesFit_of_bounds (hwf : q.WellFormed)
    (bounds : ∀ b ∈ q.BoundList, 0 ≤ b.m_lb ∧ b.m_ub < INT_MAX) : q.AxesFit := by
  intro b hb
  obtain ⟨h0, h1⟩ := bounds b hb
  have filled := hwf b hb
  have hm : INT_MIN ≤ 0 := by decide
  exact ⟨⟨by omega, by omega⟩, by omega, by omega⟩

theorem intSized_of_bounds (hwf : q.WellFormed)
    (bounds : ∀ b ∈ q.BoundList, 0 ≤ b.m_lb ∧ b.m_ub < INT_MAX) : q.IntSized := by
  intro b hb
  obtain ⟨h0, h1⟩ := bounds b hb
  exact ⟨hwf b hb, by omega⟩

namespace Safe

variable (h : l.Safe e q)
include h

theorem bounds (hfit : l.Fits) : ∀ b ∈ q.BoundList, 0 ≤ b.m_lb ∧ b.m_ub < INT_MAX :=
  h.axes.bounds l.positive hfit.1 h.dims

theorem axesFit (hfit : l.Fits) (hwf : q.WellFormed) : q.AxesFit :=
  axesFit_of_bounds hwf (h.bounds hfit)

/-- The server whose share answers for a queried cell gives out a block that holds it. -/
theorem exists_view {net : Network} {step : Nat} {varName : String} {views : List MatrixView}
    (hserves : net.Serves l) (hq : BBX.ofIndex dims indexlb indexub = .ok q)
    (hviews : matrixViewList net step varName dims indexlb indexub = .ok views) {p : List Int}
    (hp : q.Contains p) : ∃ view ∈ views, view.m_bbx.Contains p := by
  have hqd := query_dims h.dims
  obtain ⟨idx, ts, hidx, hhits, hprs, hback⟩ := exists_probes l.positive h.dims h.axes hp
  have hits : q.Hits (l.box idx) := hhits
  have thin : (q.meet (l.box idx)).m_dims = 1 →
      ∀ b ∈ (q.meet (l.box idx)).BoundList, b.m_ub ≤ b.m_lb := by
    intro h1
    rw [BBX.dims_meet hits.dims, h.dims] at h1
    exact h.thin h1 idx hidx hits
  obtain ⟨bd, hd, hall, hread⟩ := probe_read hserves hq h.dims hviews hidx hits ⟨hprs, thin⟩
  have hbd : bd.bbx.Contains p := hback _ hall
  obtain ⟨view, hv, hr⟩ := hread (BBX.hits_of_contains hbd hp)
  refine ⟨view, hv, ?_⟩
  rw [readBlock_bbx hqd hd hr]
  exact (BBX.contains_meet hd).mpr ⟨hbd, hp⟩

end Safe

/-- In any state, a returned cell was supplied when one of the collected parts holds it. -/
theorem supplied_of_view {net : Network} {step : Nat} {varName : String}
    {views : List MatrixView} {out view : MatrixView} (he8 : e.toNat ≤ 8)
    (hserves : net.Serves l) (hq : BBX.ofIndex dims indexlb indexub = .ok q)
    (hdim : q.m_dims = l.dims)
    (hviews : matrixViewList net step varName dims indexlb indexub = .ok views)
    (hout : matrixAssemble e views q = .ok out) {p : List Int} (hp : q.Contains p)
    (hv : view ∈ views) (hvp : view.m_bbx.Contains p) : Supplied net step varName e q out p := by
  have hqd := query_dims hdim
  have fitting : Fitting q views := by
    intro w hw
    obtain ⟨_, _, _, _, _, bd, _, hd, _, hr⟩ := view_registered hserves hq hdim hviews hw
    have hm := (BBX.dims_meet hd).trans hd
    rw [readBlock_bbx hqd hd hr, BBX.Dims, hm]
    exact ⟨hqd, rfl, BBX.meet_ub_le hd hqd⟩
  obtain ⟨w, hw, hwin, hcell⟩ := matrixAssemble_covered he8 fitting hout
    (BBX.in_of_contains hqd.2 hp) ⟨view, hv, BBX.in_of_contains (fitting view hv).1.2 hvp⟩
  obtain ⟨_, s, _, _, hs, bd, hreg, hd, _, hr⟩ := view_registered hserves hq hdim hviews hw
  have hwp : w.m_bbx.Contains p := by
    refine BBX.contains_of_in (fitting w hw).1.2 ?_ hwin
    rw [← (fitting w hw).2.1]
    exact BBX.length_of_contains hp
  have hbp := hwp
  rw [readBlock_bbx hqd hd hr, BBX.contains_meet hd] at hbp
  exact ⟨_, s, hs, bd, hreg, hbp.1, w, hr, hwp, hcell⟩

/-- The parts that were collected for a safe query are cut to it. -/
theorem Safe.cut {net : Network} {step : Nat} {varName : String} {views : List MatrixView}
    (h : l.Safe e q) (hserves : net.Serves l) (files : WholeFiles net)
    (hq : BBX.ofIndex dims indexlb indexub = .ok q) (hwf : q.WellFormed)
    (hviews : matrixViewList net step varName dims indexlb indexub = .ok views) :
    ∀ mv ∈ views, Cut e q mv := by
  intro mv hmv
  have hqd := query_dims h.dims
  obtain ⟨_, _, _, _, _, bd, _, hd, hit, hr⟩ := view_registered hserves hq h.dims hviews hmv
  obtain ⟨box, n, hn, hpart⟩ := readBlock_eq_ok hqd hd hr
  have same : (bd.bbx.meet q).m_dims = q.m_dims := (BBX.dims_meet hd).trans hd
  have hwd : (bd.bbx.meet q).Dims := by
    rw [BBX.Dims, same]
    exact hqd
  have within := BBX.meet_within hd hqd
  refine ⟨by rw [box]; exact hwd.2, fun corner => ?_, ?_⟩
  · rw [box] at corner
    obtain ⟨n', hn', alloc⟩ := part_alloc hwd same.symm within corner
      (h.axesFit hserves.fits hwf) h.cells
    obtain rfl := Except.ok.inj (hn.symm.trans hn')
    rw [← box] at hwd same within corner alloc
    refine ⟨hwd, same.symm, corner, within, (Nat.mul_le_mul_right _ h.elem).trans ?_⟩
    obtain length | ⟨blockid, read, known⟩ := length_readPart hpart
    · rw [length, alloc]
    · have whole := files bd.m_rawDataID mv.m_bbx blockid mv.m_data hwd
      rw [same, box] at whole
      rw [box]
      exact whole read known
  · rw [box]
    refine BBX.loopsEnd_of_bounds fun b hb => ?_
    rw [BBX.meet, ← List.map_uncurry_zip_eq_zipWith] at hb
    obtain ⟨⟨x, y⟩, hxy, rfl⟩ := List.mem_map.mp hb
    obtain ⟨h0, h1⟩ := h.bounds hserves.fits y (List.of_mem_zip hxy).2
    have hm : INT_MIN ≤ 0 := by decide
    simp only [Function.uncurry_apply_pair, Bound.meet]
    omega

/-- Every cell of a safe query that was read came from a block that holds it. -/
theorem Safe.neverUnsupplied (h : l.Safe e q) (hq : BBX.ofIndex dims indexlb indexub = .ok q)
    (hwf : q.WellFormed) : l.NeverUnsupplied e dims indexlb indexub q where
  supplied net step varName out hserves hrun p hp := by
    obtain ⟨views, hviews, hrun⟩ := bind_eq_ok.mp hrun
    obtain ⟨q', hq', hout⟩ := bind_eq_ok.mp hrun
    obtain rfl : q = q' := Except.ok.inj (hq.symm.trans hq')
    obtain ⟨view, hv, hvp⟩ := h.exists_view hserves hq hviews hp
    exact supplied_of_view h.elem hserves hq h.dims hviews hout hp hv hvp
  inside net step varName views hserves files hviews :=
    matrixAssemble_cut (addressable_of_le h.elem) (query_dims h.dims) hwf
      (h.axesFit hserves.fits hwf) h.cells (h.cut hserves files hq hwf hviews)

/-- A descriptor of a block in memory. -/
def blockAt (b : BBX) : BlockDescriptor where
  m_rawDataID := "block"
  m_dims := b.m_dims
  m_indexlb := b.getIndexlb
  m_indexub := b.getIndexub

theorem bbx_blockAt {b : BBX} (h3 : b.m_dims ≤ 3) : (blockAt b).bbx = ⟨0, b.BoundList⟩ := by
  have h := BBX.ofIndex_corners h3
  exact ((@BBX.ofIndex_eq_ok (blockAt b) _).mp h).2.symm

/-- Boxes registered on the ranks that pass every named server's test. -/
structure Passes (l : Layout) (q : BBX) (blocks : Int → List BBX) : Prop where
  dims : ∀ k, ∀ b ∈ blocks k, b.m_dims = l.dims
  sized : ∀ k, ∀ b ∈ blocks k, b.IntSized
  hits : ∀ idx, l.Index idx → q.Hits (l.box idx) → ∃ b ∈ blocks (l.id idx), b.Hits q
  covered : ∀ idx, l.Index idx → q.Hits (l.box idx) →
    MetaDataManager.ifCovered ((blocks (l.id idx)).map blockAt) (q.meet (l.box idx)) = .ok true

/-- The deployment where each rank has its registered blocks in memory, and reads leave their
buffers as they are. -/
def blockNetwork (l : Layout) (blocks : Int → List BBX) : Network :=
  { l.network 0 "" (fun k => (blocks k).map blockAt) fun _ _ _ => [] with
    getBlockSubregion := fun _ _ _ _ => .ok ("", []) }

section BlockNetwork

variable {blocks : Int → List BBX}

theorem serves_blockNetwork (hfit : l.Fits) : (l.blockNetwork blocks).Serves l :=
  have h : (l.network 0 "" (fun k => (blocks k).map blockAt) fun _ _ _ => []).Serves l :=
    l.network_serves hfit
  ⟨h.initialised, h.known, h.rank, h.reached⟩

theorem wholeFiles_blockNetwork : WholeFiles (l.blockNetwork blocks) := by
  intro id b blockid data _ read known
  cases read
  exact absurd rfl known

theorem registered_blockNetwork {addr : String} {s : UniServer}
    (hs : s ∈ (l.blockNetwork blocks).polls addr) :
    s.m_metaManager.registered 0 "" = (blocks (rankOf addr)).map blockAt := by
  obtain rfl := List.mem_singleton.mp hs
  exact MetaDataManager.registered_register fun bd hbd => by
    obtain ⟨b, _, rfl⟩ := List.mem_map.mp hbd
    rfl

/-- A run over the blocks that collects its parts leaves no queried cell outside the blocks. -/
theorem NeverUnsupplied.held (h : l.NeverUnsupplied e dims indexlb indexub q) (hfit : l.Fits)
    (hq : BBX.ofIndex dims indexlb indexub = .ok q)
    (small : ∀ k, ∀ b ∈ blocks k, b.m_dims ≤ 3) {views : List MatrixView}
    (hviews : matrixViewList (l.blockNetwork blocks) 0 "" dims indexlb indexub = .ok views)
    (unraised : ¬ Raises (matrixAssemble e views q)) {p : List Int} (hp : q.Contains p) :
    ∃ k, ∃ b ∈ blocks k, b.Contains p := by
  have hserves : (l.blockNetwork blocks).Serves l := serves_blockNetwork hfit
  obtain ⟨out, hout⟩ | raised := h.inside _ 0 "" views hserves wholeFiles_blockNetwork hviews
  · obtain ⟨addr, s, hs, bd, hbd, hbp, _⟩ := h.supplied (l.blockNetwork blocks) 0 "" out hserves
      (bind_eq_ok.mpr ⟨views, hviews, bind_eq_ok.mpr ⟨q, hq, hout⟩⟩) p hp
    rw [registered_blockNetwork hs] at hbd
    obtain ⟨b, hb, rfl⟩ := List.mem_map.mp hbd
    rw [bbx_blockAt (small _ b hb)] at hbp
    exact ⟨_, b, hb, hbp⟩
  · exact absurd raised unraised

end BlockNetwork

section Passes

variable {blocks : Int → List BBX} (h : l.Passes q blocks) (hfit : l.Fits)
  (hq : BBX.ofIndex dims indexlb indexub = .ok q) (hdim : q.m_dims = l.dims)

include h

theorem Passes.few (k : Int) : ∀ b ∈ blocks k, b.m_dims ≤ 3 := by
  intro b hb
  rw [h.dims k b hb]
  exact l.dims_le

include hdim

/-- A block that overlaps the query is read. -/
theorem Passes.read {k : Int} {b : BBX} (hb : b ∈ blocks k) (hit : b.Hits q) :
    ∃ n, (b.meet q).getElemNum = .ok n ∧ readBlock (l.blockNetwork blocks) q (blockAt b) =
      .ok ⟨b.meet q, Buffer.malloc (8 * n)⟩ := by
  have box := bbx_blockAt (h.few k b hb)
  have same : (blockAt b).bbx.meet q = b.meet q := by rw [box, BBX.meet, BBX.meet]
  have hd : (blockAt b).bbx.m_dims = q.m_dims := by
    rw [box, hdim]
    exact h.dims k b hb
  obtain ⟨n, hn⟩ := BBX.getElemNum_meet (h.sized k b hb) hit.symm
  rw [BBX.meet_comm] at hn
  have hr : readBlock (l.network 0 "" (fun k => (blocks k).map blockAt) fun _ _ _ => []) q
      (blockAt b) = .ok ⟨(blockAt b).bbx.meet q, Buffer.malloc (8 * n)⟩ :=
    l.network_read rfl hd (query_dims hdim) (by rw [same]; exact hn)
  rw [same] at hr
  exact ⟨n, hn, hr⟩

include hfit hq

/-- Every named server answers, and every answer is read. -/
theorem Passes.views : ∃ views,
    matrixViewList (l.blockNetwork blocks) 0 "" dims indexlb indexub = .ok views := by
  refine matrixViewList_ok (serves_blockNetwork hfit) hq hdim ?_ ?_
  · intro k hk
    obtain ⟨idx, hidx, rfl, hits⟩ := l.mem_named.mp hk
    obtain ⟨b, hb, hit⟩ := h.hits idx hidx hits
    show ∃ bdList, pollDescriptors 0 "" dims indexlb indexub
      ((l.network 0 "" (fun k => (blocks k).map blockAt) fun _ _ _ => []).polls
        ((l.network 0 "" (fun k => (blocks k).map blockAt) fun _ _ _ => []).addr (l.id idx))) =
          .ok bdList
    refine l.network_poll hidx hits hq hdim ?_ ?_ (h.covered idx hidx hits)
      ⟨_, List.mem_map_of_mem hb, ?_⟩
    · intro bd hbd
      obtain ⟨b, _, rfl⟩ := List.mem_map.mp hbd
      rfl
    · intro bd hbd
      obtain ⟨b, hb, rfl⟩ := List.mem_map.mp hbd
      exact h.dims _ b hb
    · rw [bbx_blockAt (h.few _ b hb)]
      exact hit
  · intro addr s hs bd hbd hd hit
    rw [registered_blockNetwork hs] at hbd
    obtain ⟨b, hb, rfl⟩ := List.mem_map.mp hbd
    rw [bbx_blockAt (h.few _ b hb)] at hit
    obtain ⟨n, _, hr⟩ := h.read hdim hb hit
    exact ⟨_, hr⟩

/-- What is collected are the parts of the registered blocks. -/
theorem Passes.view_eq {views : List MatrixView}
    (hviews : matrixViewList (l.blockNetwork blocks) 0 "" dims indexlb indexub = .ok views) :
    ∀ view ∈ views, ∃ k, ∃ b ∈ blocks k, b.Hits q ∧ view.m_bbx = b.meet q := by
  intro view hv
  obtain ⟨idx, s, _, _, hs, bd, hbd, _, hit, hr⟩ :=
    view_registered (serves_blockNetwork hfit) hq hdim hviews hv
  rw [registered_blockNetwork hs] at hbd
  obtain ⟨b, hb, rfl⟩ := List.mem_map.mp hbd
  rw [bbx_blockAt (h.few _ b hb)] at hit
  obtain ⟨n, _, hr'⟩ := h.read hdim hb hit
  obtain rfl := Except.ok.inj (hr.symm.trans hr')
  exact ⟨_, b, hb, hit, rfl⟩

/-- The parts lie in the query, so none is refused. -/
theorem Passes.not_raises (hwf : q.WellFormed) {views : List MatrixView}
    (hviews : matrixViewList (l.blockNetwork blocks) 0 "" dims indexlb indexub = .ok views) :
    ¬ Raises (matrixAssemble e views q) := by
  have hqd := query_dims hdim
  have part : ∀ view ∈ views, view.m_bbx.m_dims = q.m_dims ∧
      view.m_bbx.In view.m_bbx.getIndexlb ∧ view.m_bbx.Within q := by
    intro view hv
    obtain ⟨k, b, hb, hit, box⟩ := h.view_eq hfit hq hdim hviews view hv
    have hd : b.m_dims = q.m_dims := (h.dims k b hb).trans hdim.symm
    have same := (BBX.dims_meet hd).trans hd
    have filled := BBX.Hits.wellFormed_meet (fun c hc => (h.sized k b hb c hc).1) hwf hit
    rw [box]
    exact ⟨same, filled.corner (by rw [BBX.Dims, same]; exact hqd), BBX.meet_within hd hqd⟩
  exact not_raises_of_within (fun view hv => by rw [(part view hv).1]; exact hqd.2)
    (fun view hv => (part view hv).1) (fun view hv => (part view hv).2.1.1.2)
    fun view hv => (part view hv).2.2

/-- A cell outside all registered boxes is returned without having been supplied. -/
theorem Passes.unsupplied (hwf : q.WellFormed) {p : List Int} (hp : q.Contains p)
    (hno : ∀ k, ∀ b ∈ blocks k, ¬ b.Contains p) :
    ¬ l.NeverUnsupplied e dims indexlb indexub q := by
  intro hnever
  obtain ⟨views, hviews⟩ := h.views hfit hq hdim
  obtain ⟨k, b, hb, hbp⟩ := hnever.held hfit hq h.few hviews
    (h.not_raises hfit hq hdim hwf hviews) hp
  exact hno k b hb hbp

end Passes

/-- A query of other dimensions is assembled from nothing. -/
theorem unsupplied_of_dims (hfit : l.Fits) (hq : BBX.ofIndex dims indexlb indexub = .ok q)
    (hdim : q.m_dims ≠ l.dims) (hwf : q.WellFormed) :
    ¬ l.NeverUnsupplied e dims indexlb indexub q := by
  intro hnever
  have hserves : (l.blockNetwork fun _ => []).Serves l := serves_blockNetwork hfit
  have hviews : matrixViewList (l.blockNetwork fun _ => []) 0 "" dims indexlb indexub = .ok [] :=
    bind_eq_ok.mpr ⟨[], hserves.metaServerList_dims hq hdim, rfl⟩
  have unraised : ¬ Raises (matrixAssemble e [] q) :=
    not_raises_of_within (by simp) (by simp) (by simp) (by simp)
  obtain ⟨p, hp⟩ := hwf.exists_point
  obtain ⟨_, b, hb, _⟩ := hnever.held hfit hq (by simp) hviews unraised hp
  cases hb

/-- On one axis, the cells from the start of the domain to the last cell or to the last share
start that the query reaches. -/
def hullBound (n L : Int) (b : Bound) : Bound :=
  ⟨max b.m_lb 0, min b.m_ub (max (n - 1) (min (b.m_ub / ceilDiv n L) (L - 1) * ceilDiv n L))⟩

/-- The part of a share that the query meets lies in the hull. -/
theorem hullBound_absorbs {n L k : Int} {b : Bound} (hn : 0 < n) (hL : 0 < L)
    (hk : 0 ≤ k ∧ k < L) (hb : b.m_lb ≤ b.m_ub) (hit : b.Hits (share n L k)) :
    ((b.meet (share n L k)).Hits (hullBound n L b) ∧
      (b.meet (share n L k)).meet (hullBound n L b) = b.meet (share n L k)) ∧
    (hullBound n L b).m_lb ≤ (hullBound n L b).m_ub ∧ (hullBound n L b).Hits b := by
  have hs := ceilDiv_pos hn hL
  obtain ⟨h1, h2⟩ := hit
  have he : (k + 1) * ceilDiv n L = k * ceilDiv n L + ceilDiv n L := by ring
  have h0 : 0 ≤ k * ceilDiv n L := mul_nonneg hk.1 hs.le
  have hx : k * ceilDiv n L ≤ min (b.m_ub / ceilDiv n L) (L - 1) * ceilDiv n L := by
    refine mul_le_mul_of_nonneg_right (le_min ?_ (by omega)) hs.le
    exact (Int.le_ediv_iff_mul_le hs).mpr h2
  simp only [share] at h1 h2
  simp only [hullBound, Bound.meet, Bound.Hits, share, Bound.mk.injEq]
  omega

/-- A coordinate of an unsafe axis that the hull leaves out. -/
theorem exists_not_hullBound {n L k : Int} {b : Bound} (hn : 0 < n) (hL : 0 < L)
    (hb : b.m_lb ≤ b.m_ub) (hk : 0 ≤ k) (hit : b.Hits (share n L k)) (h : ¬ AxisSafe n L b) :
    ∃ x, b.Contains x ∧ ¬ (hullBound n L b).Contains x := by
  have hs := ceilDiv_pos hn hL
  obtain ⟨h1, h2⟩ := hit
  have h0 : 0 ≤ k * ceilDiv n L := mul_nonneg hk hs.le
  simp only [share] at h1 h2
  by_cases hlb : b.m_lb < 0
  · refine ⟨b.m_lb, ⟨le_rfl, hb⟩, ?_⟩
    simp only [hullBound, Bound.Contains]
    omega
  · have hnot : ¬ (b.m_ub < n ∨ b.m_lb < n ∧ ∃ x, (0 ≤ x ∧ x < L) ∧ b.m_ub = x * ceilDiv n L) :=
      fun hor => h ⟨by omega, hor⟩
    have hstart : min (b.m_ub / ceilDiv n L) (L - 1) * ceilDiv n L ≠ b.m_ub := by
      intro heq
      have hub : 0 ≤ b.m_ub / ceilDiv n L := Int.ediv_nonneg (by omega) hs.le
      exact hnot (Or.inr ⟨by omega, _, ⟨le_min hub (by omega), by omega⟩, heq.symm⟩)
    have hle : min (b.m_ub / ceilDiv n L) (L - 1) * ceilDiv n L ≤ b.m_ub := by
      refine le_trans (mul_le_mul_of_nonneg_right (min_le_left _ _) hs.le) ?_
      exact (Int.le_ediv_iff_mul_le hs).mp le_rfl
    refine ⟨b.m_ub, ⟨hb, le_rfl⟩, ?_⟩
    simp only [hullBound, Bound.Contains]
    omega

def hullBounds : List Int → List Int → List Bound → List Bound
  | n :: ns, L :: Ls, b :: bs => hullBound n L b :: hullBounds ns Ls bs
  | _, _, _ => []

/-- The hull ends where a partition or the domain does, below `INT_MAX`. -/
theorem hullBounds_lt {ns Ls : List Int} (bs : List Bound)
    (hp : List.Forall₂ (fun n L => (0 < n ∧ n ≤ INT_MAX) ∧ 0 < L ∧ L ≤ INT_MAX) ns Ls)
    (fits : List.Forall₂ (fun n L => L * ceilDiv n L ≤ INT_MAX) ns Ls) :
    ∀ b ∈ hullBounds ns Ls bs, 0 ≤ b.m_lb ∧ b.m_ub < INT_MAX := by
  induction hp generalizing bs with
  | nil => simp [hullBounds]
  | @cons n L ns Ls hnL _ ih =>
    cases fits with
    | cons fit fits =>
    cases bs with
    | nil => simp [hullBounds]
    | cons b bs =>
      refine List.forall_mem_cons.mpr ⟨?_, ih bs fits⟩
      have start := share_start_lt (x := min (b.m_ub / ceilDiv n L) (L - 1)) hnL.1.1 hnL.2.1 fit
        (by omega)
      obtain ⟨⟨_, _⟩, _⟩ := hnL
      simp only [hullBound]
      omega

theorem length_hullBounds {ns Ls : List Int} {bs : List Bound} (h : ns.length = Ls.length)
    (hb : bs.length = Ls.length) : (hullBounds ns Ls bs).length = Ls.length := by
  induction ns generalizing Ls bs with
  | nil =>
    cases Ls with
    | nil => rfl
    | cons L Ls => simp at h
  | cons n ns ih =>
    cases Ls with
    | nil => simp at h
    | cons L Ls =>
      cases bs with
      | nil => simp at hb
      | cons b bs => simp [hullBounds, ih (by simpa using h) (by simpa using hb)]

theorem hullBounds_absorbs {ns Ls idx : List Int} {bs : List Bound}
    (hp : List.Forall₂ (fun n L => (0 < n ∧ n ≤ INT_MAX) ∧ 0 < L ∧ L ≤ INT_MAX) ns Ls)
    (hidx : Digits Ls idx) (hwf : ∀ b ∈ bs, b.m_lb ≤ b.m_ub)
    (hit : List.Forall₂ Bound.Hits bs (shares ns Ls idx)) :
    List.Forall₂ (fun x y => x.Hits y ∧ x.meet y = x)
      (List.zipWith Bound.meet bs (shares ns Ls idx)) (hullBounds ns Ls bs) ∧
    (∀ b ∈ hullBounds ns Ls bs, b.m_lb ≤ b.m_ub) ∧
    List.Forall₂ Bound.Hits (hullBounds ns Ls bs) bs := by
  induction hp generalizing idx bs with
  | nil =>
    cases hit
    exact ⟨.nil, by simp [hullBounds], .nil⟩
  | @cons n L ns Ls hnL _ ih =>
    cases hidx with
    | @cons _ k _ idx hk hidx =>
    cases hit with
    | @cons b _ bs _ hit0 hit =>
      obtain ⟨hb, hbs⟩ := List.forall_mem_cons.mp hwf
      obtain ⟨habs, hreal, hits⟩ := hullBound_absorbs hnL.1.1 hnL.2.1 hk hb hit0
      obtain ⟨habss, hreals, hitss⟩ := ih hidx hbs hit
      exact ⟨.cons habs habss, List.forall_mem_cons.mpr ⟨hreal, hreals⟩, .cons hits hitss⟩

theorem exists_not_hullBounds {ns Ls idx : List Int} {bs : List Bound}
    (hp : List.Forall₂ (fun n L => (0 < n ∧ n ≤ INT_MAX) ∧ 0 < L ∧ L ≤ INT_MAX) ns Ls)
    (hidx : Digits Ls idx) (hwf : ∀ b ∈ bs, b.m_lb ≤ b.m_ub)
    (hit : List.Forall₂ Bound.Hits bs (shares ns Ls idx)) (h : ¬ AxesSafe ns Ls bs) :
    ∃ p, List.Forall₂ Bound.Contains bs p ∧
      ¬ List.Forall₂ Bound.Contains (hullBounds ns Ls bs) p := by
  induction hp generalizing idx bs with
  | nil => exact absurd (by simp [AxesSafe]) h
  | @cons n L ns Ls hnL _ ih =>
    cases hidx with
    | @cons _ k _ idx hk hidx =>
    cases hit with
    | @cons b _ bs _ hit0 hit =>
      obtain ⟨hb, hbs⟩ := List.forall_mem_cons.mp hwf
      by_cases h0 : AxisSafe n L b
      · obtain ⟨p, hp, hno⟩ := ih hidx hbs hit fun hall => h ⟨h0, hall⟩
        refine ⟨b.m_lb :: p, .cons ⟨le_rfl, hb⟩ hp, fun hall => ?_⟩
        cases hall with
        | cons _ hrest => exact hno hrest
      · obtain ⟨x, hx, hno⟩ := exists_not_hullBound hnL.1.1 hnL.2.1 hb hk.1 hit0 h0
        obtain ⟨rest, hrest⟩ := BBX.WellFormed.exists_point (b := ⟨0, bs⟩) hbs
        refine ⟨x :: rest, .cons hx hrest, fun hall => ?_⟩
        cases hall with
        | cons hx' _ => exact hno hx'

/-- A query with an unsafe axis has a cell outside the hull that every named server accepts. -/
theorem unsupplied_of_axes (hfit : l.Fits) (hq : BBX.ofIndex dims indexlb indexub = .ok q)
    (hdim : q.m_dims = l.dims) (hwf : q.WellFormed)
    (h : ¬ AxesSafe l.lenArray l.partitionLayout q.BoundList) :
    ¬ l.NeverUnsupplied e dims indexlb indexub q := by
  by_cases hnamed : ∃ idx, l.Index idx ∧ q.Hits (l.box idx)
  · obtain ⟨idx, hidx, hits⟩ := hnamed
    let hull : BBX := ⟨0, hullBounds l.lenArray l.partitionLayout q.BoundList⟩
    have hdims : hull.m_dims = l.dims := length_hullBounds l.length_lenArray hdim
    have few : (blockAt hull).m_dims ≤ 3 := by
      show hull.m_dims ≤ 3
      rw [hdims]
      exact l.dims_le
    have hbbx : (blockAt hull).bbx = hull := bbx_blockAt few
    have absorbs := fun (jdx : List Int) (hjdx : l.Index jdx) (hits : q.Hits (l.box jdx)) =>
      hullBounds_absorbs l.positive hjdx hwf hits
    have sized : hull.IntSized := by
      intro b hb
      have ends := hullBounds_lt q.BoundList l.positive hfit.1 b hb
      exact ⟨(absorbs idx hidx hits).2.1 b hb, by omega⟩
    obtain ⟨p, hp, hno⟩ := exists_not_hullBounds l.positive hidx hwf hits h
    have hpass : l.Passes q fun _ => [hull] := by
      refine ⟨fun _ => by simpa using hdims, fun _ => by simpa using sized, fun jdx hj hits =>
        ⟨hull, List.mem_singleton_self _, (absorbs jdx hj hits).2.2⟩, fun jdx hj hits => ?_⟩
      refine MetaDataManager.ifCovered_absorbed rfl (by simpa using few) ?_ ?_
      · rw [BBX.Dims, BBX.dims_meet hits.dims]
        exact query_dims hdim
      · rw [hbbx]
        exact (absorbs jdx hj hits).1
    refine hpass.unsupplied hfit hq hdim hwf hp fun _ b hb hbp => ?_
    obtain rfl := List.mem_singleton.mp hb
    exact hno hbp
  · -- no server is named at all
    have none' : ∀ idx, l.Index idx → ¬ q.Hits (l.box idx) := fun idx hidx hits =>
      hnamed ⟨idx, hidx, hits⟩
    obtain ⟨p, hp⟩ := hwf.exists_point
    have hpass : l.Passes q fun _ => [] :=
      ⟨by simp, by simp, fun idx hidx hits => absurd hits (none' idx hidx),
        fun idx hidx hits => absurd hits (none' idx hidx)⟩
    exact hpass.unsupplied hfit hq hdim hwf hp (by simp)

/-- The upper corner of the query as a block. -/
def lastCell (q : BBX) : BBX := ⟨0, q.BoundList.map fun b => Bound.cell b.m_ub⟩

theorem corners_lastCell (q : BBX) :
    (lastCell q).getIndexlb = q.getIndexub ∧ (lastCell q).getIndexub = q.getIndexub := by
  constructor
  · simp [lastCell, BBX.getIndexlb, BBX.getIndexub, Bound.cell, Function.comp_def]
  · simp [lastCell, BBX.getIndexub, Bound.cell, Function.comp_def]

theorem hits_lastCell (hwf : q.WellFormed) : (lastCell q).Hits q := by
  rw [BBX.Hits, lastCell, List.forall₂_map_left_iff, List.forall₂_same]
  exact fun b hb => ⟨le_rfl, hwf b hb⟩

theorem meet_lastCell (hwf : q.WellFormed) : (lastCell q).meet q = lastCell q := by
  have cells : ∀ bs : List Bound, (∀ b ∈ bs, b.m_lb ≤ b.m_ub) →
      List.zipWith Bound.meet (bs.map fun b => Bound.cell b.m_ub) bs =
        bs.map fun b => Bound.cell b.m_ub := by
    intro bs filled
    induction bs with
    | nil => rfl
    | cons b bs ih =>
      obtain ⟨hb, hbs⟩ := List.forall_mem_cons.mp filled
      have corner : (Bound.cell b.m_ub).meet b = Bound.cell b.m_ub := by
        simp only [Bound.meet, Bound.cell, max_eq_left hb, min_self]
      rw [List.map_cons, List.zipWith_cons_cons, corner, ih hbs]
  rw [BBX.meet, lastCell, cells q.BoundList hwf]

theorem getElemNum_lastCell (q : BBX) : (lastCell q).getElemNum = .ok 1 := by
  have one : ∀ (bs : List Bound) (k : UInt64),
      BBX.elemNumOf (bs.map fun b => Bound.cell b.m_ub) k = .ok k := by
    intro bs k
    induction bs generalizing k with
    | nil => rfl
    | cons b bs ih =>
      have diff : int (b.m_ub - b.m_ub) = .ok 0 := by
        rw [Int.sub_self]
        rfl
      have len : int ((0 : Int) + 1) = .ok 1 := rfl
      refine bind_eq_ok.mpr ⟨0, diff, bind_eq_ok.mpr ⟨1, len, ?_⟩⟩
      have scale : k * size_t 1 = k := UInt64.mul_one k
      rw [scale]
      exact ih k
  exact one q.BoundList 1

/-- A block of the last cell alone is copied whole, to a place that `int` numbers. -/
theorem lastCell_copied {view : MatrixView} (box : view.m_bbx = lastCell q)
    (copied : ViewLine.Copied e q ⟨view, q.getIndexub.z, q.getIndexub.y⟩) :
    q.cells ≤ INT_MAX + 1 ∧ e.toNat ≤ view.m_data.length := by
  obtain ⟨lb, ub⟩ := corners_lastCell q
  have start : ViewLine.start ⟨view, q.getIndexub.z, q.getIndexub.y⟩ = q.getIndexub := by
    rw [ViewLine.start, box, lb]
  have len : ViewLine.len ⟨view, q.getIndexub.z, q.getIndexub.y⟩ = 1 := by
    rw [ViewLine.len, box, lb, ub]
    omega
  constructor
  · have last := copied.target.2.2
    rw [start] at last
    have count : q.cells = q.flat q.getIndexub + 1 := by
      simp only [BBX.cells, BBX.flat]
      ring
    omega
  · have read := copied.read
    have first : (lastCell q).flat q.getIndexub = 0 := by
      simp [BBX.flat, lb]
    have one : (e * size_t 1).toNat = e.toNat := congrArg UInt64.toNat (UInt64.mul_one e)
    rw [start, len, box, first, one] at read
    exact (Nat.le_add_left _ _).trans read

/-- A query that is safe but for the size of its elements or the number of its cells: with its last
cell as a block of its own, a copy leaves a buffer or an index overflows. -/
theorem room_of_neverUnsupplied (hfit : l.Fits)
    (hq : BBX.ofIndex dims indexlb indexub = .ok q) (hwf : q.WellFormed)
    (hdim : q.m_dims = l.dims) (axes : AxesSafe l.lenArray l.partitionLayout q.BoundList)
    (h : l.NeverUnsupplied e dims indexlb indexub q) :
    e.toNat ≤ 8 ∧ q.cells ≤ INT_MAX + 1 := by
  have hqd := query_dims hdim
  have bounds := axes.bounds l.positive hfit.1 hdim
  have few : ∀ b ∈ [blockAt q, blockAt (lastCell q)], b.m_dims ≤ 3 := by
    simpa [blockAt, lastCell, BBX.m_dims] using hqd.2
  have hpass : l.Passes q fun _ => [q, lastCell q] := by
    refine ⟨fun _ => ?_, fun _ => ?_, fun idx _ _ => ⟨q, List.mem_cons_self, ?_⟩,
      fun idx _ hits => ?_⟩
    · simpa [lastCell, BBX.m_dims] using hdim
    · refine List.forall_mem_cons.mpr
        ⟨intSized_of_bounds hwf bounds, List.forall_mem_singleton.mpr ?_⟩
      intro b hb
      obtain ⟨c, _, rfl⟩ := List.mem_map.mp hb
      exact ⟨le_rfl, by simp [Bound.cell, INT_MAX]⟩
    · exact List.forall₂_same.mpr fun b hb => ⟨hwf b hb, hwf b hb⟩
    · refine MetaDataManager.ifCovered_absorbed rfl few ?_ ?_
      · rw [BBX.Dims, BBX.dims_meet hits.dims]
        exact hqd
      · rw [bbx_blockAt hqd.2]
        exact hwf.absorbed_meet hits
  obtain ⟨views, hviews⟩ := hpass.views hfit hq hdim
  have hserves : (l.blockNetwork fun _ => [q, lastCell q]).Serves l := serves_blockNetwork hfit
  obtain ⟨out, hout⟩ : ∃ out, matrixAssemble e views q = .ok out :=
    (h.inside _ 0 "" views hserves wholeFiles_blockNetwork hviews).resolve_right
      (hpass.not_raises hfit hq hdim hwf hviews)
  -- some server is named, and lists the last cell
  obtain ⟨p, hp⟩ := hwf.exists_point
  obtain ⟨idx, _, hidx, hits, _⟩ := exists_probes l.positive hdim axes hp
  obtain ⟨s, hs, _, reads⟩ := named_read hserves hq hdim hviews hidx hits
  have mem : lastCell q ∈ [q, lastCell q] := by simp
  have listed : blockAt (lastCell q) ∈ s.m_metaManager.registered 0 "" := by
    rw [registered_blockNetwork hs]
    exact List.mem_map_of_mem mem
  have box : (blockAt (lastCell q)).bbx = lastCell q :=
    bbx_blockAt (by simpa [lastCell, BBX.m_dims] using hqd.2)
  obtain ⟨view, hv, hr⟩ := (reads _ listed).2 (by rw [box]; exact hits_lastCell hwf)
  obtain ⟨n, hn, hr'⟩ := hpass.read hdim (k := 0) mem (hits_lastCell hwf)
  obtain rfl := Except.ok.inj (hr.symm.trans hr')
  rw [meet_lastCell hwf, getElemNum_lastCell] at hn
  obtain rfl := Except.ok.inj hn
  obtain ⟨lb, ub⟩ := corners_lastCell q
  rw [meet_lastCell hwf] at hv
  have line : Work.copy ⟨⟨lastCell q, Buffer.malloc (8 * 1)⟩, q.getIndexub.z, q.getIndexub.y⟩ ∈
      work views := copy_mem hv (by simp [lb, ub]) (by simp [lb, ub])
  have small : ∀ mv ∈ views, mv.m_bbx.m_dims ≤ DEFAULT_MAX_DIM := by
    intro mv hmv
    obtain ⟨_, b, hb, _, part⟩ := hpass.view_eq hfit hq hdim hviews mv hmv
    have same : b.m_dims = q.m_dims := (hpass.dims 0 b hb).trans hdim.symm
    rw [part, BBX.dims_meet same, same]
    exact hqd.2
  obtain ⟨cells, elem⟩ := lastCell_copied rfl
    (copied_of_ok small (axesFit_of_bounds hwf bounds) hout line)
  exact ⟨elem, cells⟩

/-- In one dimension: the box registered on each rank, all of them without the first cell of the
part of rank `k0`. -/
def lineBound (n L k0 : Int) (b : Bound) (k : Int) : Bound :=
  if k = k0 then Bound.cell (b.meet (share n L k0)).m_ub
  else if (share n L k).m_lb < n then b.meet (share n L k)
  else ⟨n - 1, (share n L k).m_lb⟩

theorem lineBound_hits {n L k0 k : Int} {b : Bound} (hn : 0 < n) (hL : 0 < L) (hk : 0 ≤ k)
    (hb : b.m_lb ≤ b.m_ub) (hthick : (b.meet (share n L k0)).m_lb < (b.meet (share n L k0)).m_ub)
    (hit : b.Hits (share n L k)) :
    (lineBound n L k0 b k).m_lb ≤ (lineBound n L k0 b k).m_ub ∧
      (lineBound n L k0 b k).Hits b ∧
      (k = k0 → (b.meet (share n L k)).Hits (lineBound n L k0 b k)) ∧
      (k ≠ k0 → (b.meet (share n L k)).Hits (lineBound n L k0 b k) ∧
        (b.meet (share n L k)).meet (lineBound n L k0 b k) = b.meet (share n L k)) := by
  have hs := ceilDiv_pos hn hL
  have h0 : 0 ≤ k * ceilDiv n L := mul_nonneg hk hs.le
  have he : (k + 1) * ceilDiv n L = k * ceilDiv n L + ceilDiv n L := by ring
  obtain ⟨h1, h2⟩ := hit
  by_cases hk0 : k = k0
  · subst hk0
    rw [lineBound, if_pos rfl]
    simp only [Bound.meet, share, Bound.cell, Bound.Hits] at *
    omega
  · rw [lineBound, if_neg hk0]
    by_cases hreal : (share n L k).m_lb < n
    · rw [if_pos hreal]
      simp only [Bound.meet, share, Bound.Hits, Bound.mk.injEq] at *
      omega
    · rw [if_neg hreal]
      simp only [Bound.meet, share, Bound.Hits, Bound.mk.injEq] at *
      omega

theorem share_index {n L k x : Int} (hn : 0 < n) (hL : 0 < L) (h : (share n L k).Contains x) :
    k = x / ceilDiv n L := by
  have hs := ceilDiv_pos hn hL
  obtain ⟨h1, h2⟩ := h
  simp only [share] at h1 h2
  have hle : k ≤ x / ceilDiv n L := (Int.le_ediv_iff_mul_le hs).mpr h1
  have hlt : x / ceilDiv n L < k + 1 := (Int.ediv_lt_iff_lt_mul hs).mpr (by omega)
  omega

/-- No box of the line holds the first cell of the part of rank `k0`. -/
theorem not_lineBound {n L k0 : Int} {b : Bound} (hn : 0 < n) (hL : 0 < L)
    (hthick : (b.meet (share n L k0)).m_lb < (b.meet (share n L k0)).m_ub) (k : Int) :
    ¬ (lineBound n L k0 b k).Contains (b.meet (share n L k0)).m_lb := by
  have hs := ceilDiv_pos hn hL
  have hin : (b.meet (share n L k0)).Contains (b.meet (share n L k0)).m_lb := ⟨le_rfl, hthick.le⟩
  have hin0 := (Bound.contains_meet.mp hin).2
  by_cases hk : k = k0
  · rw [lineBound, if_pos hk]
    rintro ⟨h1, _⟩
    simp only [Bound.cell] at h1
    omega
  · rw [lineBound, if_neg hk]
    by_cases hreal : (share n L k).m_lb < n
    · rw [if_pos hreal]
      intro h
      have hshare := (Bound.contains_meet.mp h).2
      exact hk ((share_index hn hL hshare).trans (share_index hn hL hin0).symm)
    · rw [if_neg hreal]
      rintro ⟨h1, _⟩
      simp only [Bound.meet, share] at hthick h1
      omega

theorem lineBound_sized {n L k0 k : Int} {b : Bound} (hn : 0 < n ∧ n ≤ INT_MAX) (hL : 0 < L)
    (fits : L * ceilDiv n L ≤ INT_MAX) (hk : 0 ≤ k ∧ k < L) :
    (lineBound n L k0 b k).m_ub - (lineBound n L k0 b k).m_lb < INT_MAX := by
  have hs := ceilDiv_pos hn.1 hL
  have start := share_start_lt hn.1 hL fits hk.2
  have h0 : 0 ≤ k * ceilDiv n L := mul_nonneg hk.1 hs.le
  have hmax : INT_MAX = 2147483647 := rfl
  rw [lineBound]
  split
  · simp only [Bound.cell]
    omega
  · split
    · simp only [Bound.meet, share] at *
      omega
    · simp only [share]
      omega

/-- The boxes of the line on the ranks whose shares the query meets. -/
def lineBlocks (n L k0 : Int) (b : Bound) (k : Int) : List BBX :=
  if (0 ≤ k ∧ k < L) ∧ b.Hits (share n L k) then [⟨0, [lineBound n L k0 b k]⟩] else []

theorem mem_lineBlocks {n L k0 k : Int} {b : Bound} {block : BBX}
    (h : block ∈ lineBlocks n L k0 b k) : ((0 ≤ k ∧ k < L) ∧ b.Hits (share n L k)) ∧
      block = ⟨0, [lineBound n L k0 b k]⟩ := by
  unfold lineBlocks at h
  split at h
  · exact ⟨‹_›, List.mem_singleton.mp h⟩
  · cases h

section Line

variable {n L k0 : Int} {b : Bound} (hns : l.lenArray = [n]) (hLs : l.partitionLayout = [L])
  (hb : q.BoundList = [b])

include hns hLs in
/-- The boxes of a layout of one axis are its shares. -/
theorem line_box {jdx : List Int} (hjdx : l.Index jdx) : ∃ k, (0 ≤ k ∧ k < L) ∧ jdx = [k] ∧
    l.id jdx = k ∧ (l.box jdx).BoundList = [share n L k] := by
  simp only [Index, Digits, hLs] at hjdx
  cases hjdx with
  | @cons _ k _ rest hk hrest =>
    cases hrest
    exact ⟨k, hk, rfl, by simp [id, hLs, value], by simp [box, hns, hLs, shares]⟩

include hb in
theorem line_meet {jdx : List Int} {k : Int} (h : (l.box jdx).BoundList = [share n L k]) :
    (q.meet (l.box jdx)).BoundList = [b.meet (share n L k)] := by
  simp [BBX.meet, hb, h]

theorem bbx_line (bound : Bound) : (blockAt ⟨0, [bound]⟩).bbx = ⟨0, [bound]⟩ :=
  bbx_blockAt (by simp [BBX.m_dims])

include hns hLs hb in
/-- Each rank that the query names takes its block of the line for the whole of its part. -/
theorem lineBlocks_passes (hfit : l.Fits) (hdim : q.m_dims = l.dims) (hwf : q.WellFormed)
    (hthick : (b.meet (share n L k0)).m_lb < (b.meet (share n L k0)).m_ub) :
    l.Passes q (lineBlocks n L k0 b) := by
  have hline : l.dims = 1 := congrArg List.length hLs
  have hpos := l.positive
  rw [hns, hLs] at hpos
  obtain ⟨hn, hL, _⟩ := (List.forall₂_cons.mp hpos).1
  have fits := hfit.1
  rw [hns, hLs] at fits
  have fits := (List.forall₂_cons.mp fits).1
  have hbwf : b.m_lb ≤ b.m_ub := hwf b (by rw [hb]; exact List.mem_singleton_self b)
  have each : ∀ jdx, l.Index jdx → q.Hits (l.box jdx) → ∃ k, l.id jdx = k ∧
      (l.box jdx).BoundList = [share n L k] ∧ (0 ≤ k ∧ k < L) ∧ b.Hits (share n L k) ∧
      lineBlocks n L k0 b k = [⟨0, [lineBound n L k0 b k]⟩] := by
    intro jdx hjdx hits
    obtain ⟨k, hk, _, hid, hbx⟩ := line_box hns hLs hjdx
    rw [BBX.Hits, hb, hbx] at hits
    have hit := (List.forall₂_cons.mp hits).1
    exact ⟨k, hid, hbx, hk, hit, if_pos ⟨hk, hit⟩⟩
  refine ⟨fun k block hblock => ?_, fun k block hblock => ?_, ?_, ?_⟩
  · obtain ⟨_, rfl⟩ := mem_lineBlocks hblock
    exact hline.symm
  · obtain ⟨⟨hk, hit⟩, rfl⟩ := mem_lineBlocks hblock
    exact List.forall_mem_singleton.mpr ⟨(lineBound_hits hn.1 hL hk.1 hbwf hthick hit).1,
      lineBound_sized hn hL fits hk⟩
  · intro jdx hjdx hits
    obtain ⟨k, rfl, _, hk, hit, blocks⟩ := each jdx hjdx hits
    refine ⟨_, by rw [blocks]; exact List.mem_singleton_self _, ?_⟩
    rw [BBX.Hits, hb]
    exact .cons (lineBound_hits hn.1 hL hk.1 hbwf hthick hit).2.1 .nil
  · intro jdx hjdx hits
    obtain ⟨k, rfl, hbx, hk, hit, blocks⟩ := each jdx hjdx hits
    obtain ⟨_, _, hsame, hother⟩ := lineBound_hits hn.1 hL hk.1 hbwf hthick hit
    have hm := line_meet hb hbx
    rw [blocks]
    by_cases hk0' : l.id jdx = k0
    · refine MetaDataManager.ifCovered_line rfl (by simp [blockAt, BBX.m_dims]) hm ?_ ?_
      · rw [hk0']
        exact hthick.le
      · rw [BBX.Hits, bbx_line, hm]
        exact .cons (hsame hk0') .nil
    · refine MetaDataManager.ifCovered_absorbed rfl (by simp [blockAt, BBX.m_dims]) ?_ ?_
      · rw [BBX.Dims, BBX.dims_meet hits.dims, hdim, hline]
        decide
      · rw [BBX.Absorbed, bbx_line, hm]
        exact .cons (hother hk0') .nil

end Line

/-- In one dimension a part of more than one cell passes the test on its last cell alone. -/
theorem unsupplied_of_thick (hfit : l.Fits) (hq : BBX.ofIndex dims indexlb indexub = .ok q)
    (hdim : q.m_dims = l.dims) (hwf : q.WellFormed) (hline : l.dims = 1) {idx : List Int}
    (hidx : l.Index idx) {c : Bound}
    (hc : c ∈ (q.meet (l.box idx)).BoundList) (hthick : c.m_lb < c.m_ub) :
    ¬ l.NeverUnsupplied e dims indexlb indexub q := by
  obtain ⟨n, hns⟩ : ∃ n, l.lenArray = [n] :=
    List.length_eq_one_iff.mp (l.length_lenArray.trans hline)
  obtain ⟨L, hLs⟩ : ∃ L, l.partitionLayout = [L] := List.length_eq_one_iff.mp hline
  obtain ⟨b, hb⟩ : ∃ b, q.BoundList = [b] := List.length_eq_one_iff.mp (hdim.trans hline)
  obtain ⟨k0, hk0, rfl, _, hbox0⟩ := line_box hns hLs hidx
  obtain rfl : c = b.meet (share n L k0) := by
    rw [line_meet hb hbox0] at hc
    exact List.mem_singleton.mp hc
  have hpos := l.positive
  rw [hns, hLs] at hpos
  obtain ⟨hn, hL, _⟩ := (List.forall₂_cons.mp hpos).1
  have hpass := lineBlocks_passes hns hLs hb hfit hdim hwf hthick
  have hp : q.Contains [(b.meet (share n L k0)).m_lb] := by
    have hin : (b.meet (share n L k0)).Contains (b.meet (share n L k0)).m_lb := ⟨le_rfl, hthick.le⟩
    rw [BBX.Contains, hb]
    exact .cons (Bound.contains_meet.mp hin).1 .nil
  refine hpass.unsupplied hfit hq hdim hwf hp fun k block hblock hk => ?_
  obtain ⟨_, rfl⟩ := mem_lineBlocks hblock
  exact not_lineBound hn.1 hL hthick k (List.forall₂_cons.mp hk).1

/-- Five cells on one server. -/
def line : Layout := .single 5 (by decide)

end Layout

end Gorilla
