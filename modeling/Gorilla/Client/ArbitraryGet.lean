import Gorilla.Client.Deployment

/-!
# The region read returns the right data

The part of the query on each named server is covered by blocks registered there, every
block that overlaps the query is read and cut to it, and the assembly lays the parts over
each other. Blocks that agree with one function leave that function in every cell.
-/

namespace Gorilla

/-- A block in the raw data store: its descriptor and the eight bytes of each of its cells. -/
structure StoredBlock where
  descriptor : BlockDescriptor
  value : List Int → Vector UInt8 8
  wellFormed : descriptor.bbx.WellFormed
  backend : descriptor.m_backend = BACKEND.MEM ∨ descriptor.m_backend = BACKEND.FILE

namespace StoredBlock

def bbx (b : StoredBlock) : BBX := b.descriptor.bbx

/-- The bytes of a cell value in a buffer. -/
def bytes (v : Vector UInt8 8) : Buffer := v.toList.map some

/-- A descriptor names the block when it is the block's own up to the trigger status. -/
def Named (b : StoredBlock) (bd : BlockDescriptor) : Prop :=
  ∃ status, bd = { b.descriptor with m_metaStatus := status }

theorem Named.bbx_eq {b : StoredBlock} {bd : BlockDescriptor} (h : b.Named bd) :
    bd.bbx = b.bbx := by
  obtain ⟨status, rfl⟩ := h
  rfl

end StoredBlock

namespace Network

/-- The buffer holds the block's own cells of the sub-box, in the sub-box's row-major order. -/
structure Holds (b : StoredBlock) (sub : BBX) (data : Buffer) : Prop where
  length_eq : data.length = 8 * sub.cells.toNat
  cells : ∀ p i, sub.Contains p → sub.getPhysicalIndex sub.m_dims (.ofList 0 p) = .ok i →
    cellBytes 8 data i.toNat = StoredBlock.bytes (b.value p)

/-- A read of a sub-box of the block succeeds and returns the block's own cells of it. -/
def Reads (net : Network) (b : StoredBlock) : Prop :=
  ∀ sub : BBX, sub.Dims → sub.WellFormed → (∀ p, sub.Contains p → b.bbx.Contains p) →
    sub.cells ≤ INT_MAX → ∃ data, Holds b sub data ∧
      (b.descriptor.m_backend = BACKEND.MEM →
        net.getSubregionData b.descriptor.m_rawDataServerAddr b.descriptor.m_rawDataID sub.m_dims
          sub.getIndexlb sub.getIndexub = .ok (0, data)) ∧
      (b.descriptor.m_backend = BACKEND.FILE → ∃ blockid, blockid ≠ "" ∧
        net.getBlockSubregion b.descriptor.m_rawDataID sub.m_dims sub.getIndexlb sub.getIndexub =
          .ok (blockid, data))

end Network

namespace ClientForSim

open MATRIXTOOL

variable {net : Network} {q : BBX}

theorem fillContainer_full {allocSize : UInt64} {data : Buffer}
    (h : data.length = allocSize.toNat) : fillContainer allocSize data = .ok data := by
  rw [fillContainer, if_neg (by omega), h, Nat.sub_self]
  simp

theorem readPart_ok {b : StoredBlock} {bd : BlockDescriptor} {sub : BBX} {data : Buffer}
    {allocSize : UInt64} (hname : b.Named bd)
    (hmem : b.descriptor.m_backend = BACKEND.MEM →
      net.getSubregionData b.descriptor.m_rawDataServerAddr b.descriptor.m_rawDataID sub.m_dims
        sub.getIndexlb sub.getIndexub = .ok (0, data))
    (hfile : b.descriptor.m_backend = BACKEND.FILE → ∃ blockid, blockid ≠ "" ∧
      net.getBlockSubregion b.descriptor.m_rawDataID sub.m_dims sub.getIndexlb sub.getIndexub =
        .ok (blockid, data))
    (hlen : data.length = allocSize.toNat) :
    readPart net sub.m_dims (MetaDataManager.overlapDescriptor DATATYPE_CARGRID bd sub)
      allocSize = .ok data := by
  obtain ⟨status, rfl⟩ := hname
  unfold readPart
  show (if b.descriptor.m_backend = BACKEND.MEM then _ else _) = _
  rcases b.backend with hb | hb
  · rw [if_pos hb]
    refine bind_eq_ok.mpr ⟨(0, data), hmem hb, ?_⟩
    simpa using fillContainer_full hlen
  · have hne : b.descriptor.m_backend ≠ BACKEND.MEM := by
      rw [hb]
      decide
    rw [if_neg hne]
    show (if b.descriptor.m_backend = BACKEND.FILE then _ else _) = _
    rw [if_pos hb]
    obtain ⟨blockid, hid, hread⟩ := hfile hb
    refine bind_eq_ok.mpr ⟨(blockid, data), hread, ?_⟩
    simp [hid, pure, Except.pure]

/-- A registered block that overlaps the query is read, and its view holds the block's values. -/
theorem readBlock_ok {b : StoredBlock} {bd : BlockDescriptor} (hname : b.Named bd)
    (hreads : net.Reads b) (hq : q.Dims) (hwf : q.WellFormed) (hfit : q.cells ≤ INT_MAX)
    (hd : bd.bbx.m_dims = q.m_dims) (hit : bd.bbx.Hits q) :
    ∃ view, readBlock net q bd = .ok view ∧ Copyable 8 q view ∧
      ∀ p, view.m_bbx.Contains p → b.bbx.Contains p ∧
        view.m_bbx.cellAt 8 view.m_data (.ofList 0 p) = StoredBlock.bytes (b.value p) := by
  have hbwf : bd.bbx.WellFormed := by
    rw [hname.bbx_eq]
    exact b.wellFormed
  have hwd : (bd.bbx.meet q).m_dims = q.m_dims := (BBX.dims_meet hd).trans hd
  have hdims : (bd.bbx.meet q).Dims := by
    rw [BBX.Dims, hwd]
    exact hq
  have hwwf : (bd.bbx.meet q).WellFormed := BBX.Hits.wellFormed_meet hbwf hwf hit
  obtain ⟨n, hn, halloc, hle, hcopy⟩ :=
    copyable_part (e := 8) (by decide) hq hd hbwf hwf (BBX.axesFit_of_cells hq (hwf.corner hq) hfit)
      (by omega) hit
  have hcells := hle.trans hfit
  have inside : ∀ p, (bd.bbx.meet q).Contains p → b.bbx.Contains p := by
    intro p hp
    rw [← hname.bbx_eq]
    exact ((BBX.contains_meet hd).mp hp).1
  obtain ⟨data, hholds, hmem, hfile⟩ := hreads _ hdims hwwf inside hcells
  have hlen : data.length = (8 * n).toNat := hholds.length_eq.trans halloc.symm
  have hcorners := BBX.ofIndex_corners hdims.2
  have hread : readBlock net q bd = .ok ⟨bd.bbx.meet q, data⟩ := by
    rw [readBlock, ← hwd]
    refine bind_eq_ok.mpr ⟨_, hcorners, bind_eq_ok.mpr ⟨n, hn, bind_eq_ok.mpr ⟨data, ?_, rfl⟩⟩⟩
    exact readPart_ok hname hmem hfile hlen
  refine ⟨_, hread, hcopy data hlen, fun p hp => ⟨inside p hp, ?_⟩⟩
  have hin := BBX.in_of_contains hdims.2 hp
  have h0 := BBX.flat_nonneg hin
  have h1 := BBX.flat_lt_cells hin
  have hmax : INT_MAX = 2147483647 := rfl
  have hcell := hholds.cells p _ hp (BBX.getPhysicalIndex_ok hdims hin hcells)
  rw [size_t_toNat h0 (by omega)] at hcell
  exact hcell

variable {l : Layout} {step : Nat} {varName : String} {dims : Nat} {indexlb indexub : Array3 Int}

/-- A queried cell is in a view: the server whose partition holds it has a block that does. -/
theorem view_of_cell (hdims : 2 ≤ l.dims) (hserves : net.Serves l)
    (hq : BBX.ofIndex dims indexlb indexub = .ok q) (hdim : q.m_dims = l.dims)
    {views : List MatrixView}
    (hviews : matrixViewList net step varName dims indexlb indexub = .ok views) {p : List Int}
    (hp : q.Contains p) (inside : l.InDomain p) : ∃ view ∈ views, view.m_bbx.Contains p := by
  have hqd : q.Dims := by
    rw [BBX.Dims, hdim]
    exact ⟨l.dims_pos, l.dims_le⟩
  have hidx := l.index_ownerIndex inside
  have hbox := (l.box_contains hidx).mpr ⟨inside, rfl⟩
  have hits := BBX.hits_of_contains hp hbox
  have hmeet := (BBX.contains_meet (b := l.box (l.ownerIndex p)) hits.dims).mpr ⟨hp, hbox⟩
  have hprobe : (q.meet (l.box (l.ownerIndex p))).Probe (p.map Bound.cell) := by
    refine ⟨?_, fun h1 => ?_⟩
    · rw [List.forall₂_map_right_iff]
      exact List.Forall₂.imp (fun _ _ h => Bound.probe_cell.mpr h) hmeet
    · have := BBX.dims_meet hits.dims
      omega
  obtain ⟨bd, hd, hall, hread⟩ := probe_read hserves hq hdim hviews hidx hits hprobe
  have hbd := BBX.hitsAll_cells.mp hall
  obtain ⟨view, hv, hr⟩ := hread (BBX.hits_of_contains hbd hp)
  refine ⟨view, hv, ?_⟩
  rw [readBlock_bbx hqd hd hr]
  exact (BBX.contains_meet hd).mpr ⟨hbd, hp⟩

/-- The buffer the client assembles holds `f p` at the index of every queried cell `p`. -/
theorem getArbitraryData_values (hdims : 2 ≤ l.dims) (hserves : net.Serves l)
    {blocks : List StoredBlock} {f : List Int → Vector UInt8 8}
    (agree : ∀ b ∈ blocks, ∀ p, b.bbx.Contains p → b.value p = f p)
    (reads : ∀ b ∈ blocks, net.Reads b)
    (registered : ∀ addr, ∀ s ∈ net.polls addr, ∀ bd ∈ s.m_metaManager.registered step varName,
      ∃ b ∈ blocks, b.Named bd)
    (hq : BBX.ofIndex dims indexlb indexub = .ok q) (hdim : q.m_dims = l.dims)
    (hwf : q.WellFormed) (inside : ∀ p, q.Contains p → l.InDomain p) (hfit : q.cells ≤ INT_MAX)
    (answers : ∀ addrs, callRemote (getmetaServerList dims indexlb indexub)
      net.m_associatedDataServer = .ok addrs → ∀ addr ∈ addrs, ∃ bdList,
        pollDescriptors step varName dims indexlb indexub (net.polls addr) = .ok bdList) :
    ∃ out, getArbitraryData net step varName 8 dims indexlb indexub = .ok out ∧
      ∀ p, q.Contains p → ∃ i, q.getPhysicalIndex dims (.ofList 0 p) = .ok i ∧
        cellBytes 8 out.m_data i.toNat = StoredBlock.bytes (f p) := by
  have hqd : q.Dims := by
    rw [BBX.Dims, hdim]
    exact ⟨l.dims_pos, l.dims_le⟩
  have read : ∀ addr, ∀ s ∈ net.polls addr, ∀ bd ∈ s.m_metaManager.registered step varName,
      bd.bbx.m_dims = q.m_dims → bd.bbx.Hits q → ∃ view, readBlock net q bd = .ok view ∧
        Copyable 8 q view ∧ ∀ p, view.m_bbx.Contains p →
          view.m_bbx.cellAt 8 view.m_data (.ofList 0 p) = StoredBlock.bytes (f p) := by
    intro addr s hs bd hbd hd hit
    obtain ⟨b, hb, hname⟩ := registered addr s hs bd hbd
    obtain ⟨view, hv, hcopy, hcells⟩ := readBlock_ok hname (reads b hb) hqd hwf hfit hd hit
    refine ⟨view, hv, hcopy, fun p hp => ?_⟩
    obtain ⟨hbp, hval⟩ := hcells p hp
    rw [hval, agree b hb p hbp]
  obtain ⟨views, hviews⟩ := matrixViewList_ok hserves hq hdim
    (fun k hk => answers _ (hserves.metaServerList hq hdim) _ (List.mem_map_of_mem hk))
    (fun addr s hs bd hbd hd hit => (read addr s hs bd hbd hd hit).imp fun _ hv => hv.1)
  have hview : ∀ view ∈ views, Copyable 8 q view ∧ ∀ p, view.m_bbx.Contains p →
      view.m_bbx.cellAt 8 view.m_data (.ofList 0 p) = StoredBlock.bytes (f p) := by
    intro view hv
    obtain ⟨idx, s, _, _, hs, bd, hbd, hd, hit, hr⟩ := view_registered hserves hq hdim hviews hv
    obtain ⟨view', hr', h⟩ := read _ s hs bd hbd hd hit
    obtain rfl : view = view' := Except.ok.inj (hr.symm.trans hr')
    exact h
  have ends : q.LoopsEnd := BBX.loopsEnd_of_bounds fun b hb =>
    have bounds := l.bounds_of_inside hwf inside b hb
    ⟨le_trans (by decide) bounds.1, bounds.2⟩
  have axes := BBX.axesFit_of_cells hqd (hwf.corner hqd) hfit
  obtain ⟨out, hout, _⟩ := matrixAssemble_ok (e := 8) (addressable_of_le (by decide)) hqd hwf axes
    (by omega) (fun view hv => (hview view hv).1)
    fun view hv => ends.mono (hview view hv).1.within (hview view hv).1.corner
  refine ⟨out, bind_eq_ok.mpr ⟨views, hviews, bind_eq_ok.mpr ⟨q, hq, hout⟩⟩, ?_⟩
  intro p hp
  have hin := BBX.in_of_contains hqd.2 hp
  refine ⟨size_t (q.flat (.ofList 0 p)), ?_, ?_⟩
  · rw [← BBX.dims_ofIndex hq]
    exact BBX.getPhysicalIndex_ok hqd hin hfit
  obtain ⟨view, hv, hvp⟩ := view_of_cell hdims hserves hq hdim hviews hp (inside p hp)
  -- every view that holds the cell holds `f p` there
  have hfitting : Fitting q views := fun mv hmv =>
    ⟨(hview mv hmv).1.dims, (hview mv hmv).1.dims_eq, (hview mv hmv).1.ub_le⟩
  obtain ⟨w, hw, hwin, hcell⟩ := matrixAssemble_covered (e := 8) (by decide) hfitting
    hout hin ⟨view, hv, BBX.in_of_contains ((hview view hv).1.dims).2 hvp⟩
  have hwp : w.m_bbx.Contains p := by
    refine BBX.contains_of_in (hview w hw).1.dims.2 ?_ hwin
    rw [← (hview w hw).1.dims_eq]
    exact BBX.length_of_contains hp
  have h0 := BBX.flat_nonneg hin
  have h1 := BBX.flat_lt_cells hin
  rw [size_t_toNat h0 (by have hmax : INT_MAX = 2147483647 := rfl; omega)]
  exact hcell.trans ((hview w hw).2 p hwp)

/-- A two by two grid in two columns. -/
def columns : Layout := .pair 2 (by decide)

/-- The rows of the grid, each a block of its own over both columns. -/
def bottomRow : StoredBlock where
  descriptor := { m_rawDataID := "bottom", m_dims := 2, m_indexub := ⟨1, 0, 0⟩ }
  value _ := Vector.replicate 8 7
  wellFormed := by decide
  backend := Or.inl rfl

def topRow : StoredBlock where
  descriptor :=
    { m_rawDataID := "top", m_dims := 2, m_indexlb := ⟨0, 1, 0⟩, m_indexub := ⟨1, 1, 0⟩ }
  value _ := Vector.replicate 8 9
  wellFormed := by decide
  backend := Or.inl rfl

def rowValue (y : Int) : UInt8 := if y = 0 then 7 else 9

def readRow (_ : Nat) (indexlb indexub : Array3 Int) : Buffer :=
  List.replicate (8 * ((indexub.x - indexlb.x + 1) * ((indexub.y - indexlb.y + 1) *
    (indexub.z - indexlb.z + 1))).toNat) (some (rowValue indexlb.y))

/-- Reads of a part of a row give the value of the row. -/
theorem readRow_reads {b : StoredBlock} {y : Int} {reg : Int → List BlockDescriptor}
    (mem : b.descriptor.m_backend = BACKEND.MEM) (row : b.bbx.BoundList = [⟨0, 1⟩, ⟨y, y⟩])
    (same : ∀ p, b.value p = Vector.replicate 8 (rowValue y)) :
    (columns.network 0 "v" reg readRow).Reads b := by
  intro sub hd hwf within hfit
  have start : sub.getIndexlb.y = y := by
    have corner := within (sub.BoundList.map Bound.m_lb) (by
      rw [BBX.Contains, List.forall₂_map_right_iff, List.forall₂_same]
      exact fun c hc => ⟨le_rfl, hwf c hc⟩)
    obtain ⟨st, bs⟩ := sub
    rw [BBX.Contains, row, List.forall₂_map_right_iff] at corner
    cases corner with
    | cons _ rest =>
    cases rest with
    | cons second rest =>
      cases rest
      exact le_antisymm second.2 second.1
  refine ⟨readRow sub.m_dims sub.getIndexlb sub.getIndexub, ⟨?_, ?_⟩, fun _ => rfl, ?_⟩
  · exact List.length_replicate
  · intro p i hp hi
    have hin := BBX.in_of_contains hd.2 hp
    have h0 := BBX.flat_nonneg hin
    have h1 := BBX.flat_lt_cells hin
    have hmax : INT_MAX = 2147483647 := rfl
    obtain rfl := Except.ok.inj (hi.symm.trans (BBX.getPhysicalIndex_ok hd hin hfit))
    rw [size_t_toNat h0 (by omega), cellBytes, same]
    show ((List.replicate (8 * sub.cells.toNat) _).drop _).take 8 =
      List.replicate 8 (some (rowValue y))
    rw [List.drop_replicate, List.take_replicate, start]
    congr 1
    omega
  · intro file
    rw [mem] at file
    exact absurd file (by decide)

/-- The rows are registered on both servers, and the read puts them together. -/
theorem getArbitraryData_rows :
    ∃ out, getArbitraryData
        (columns.network 0 "v" (fun _ => [bottomRow.descriptor, topRow.descriptor]) readRow)
        0 "v" 8 2 ⟨0, 0, 0⟩ ⟨1, 1, 0⟩ = .ok out ∧
      ∀ p, (⟨0, [⟨0, 1⟩, ⟨0, 1⟩]⟩ : BBX).Contains p → ∃ i,
        (⟨0, [⟨0, 1⟩, ⟨0, 1⟩]⟩ : BBX).getPhysicalIndex 2 (.ofList 0 p) = .ok i ∧
        cellBytes 8 out.m_data i.toNat =
          StoredBlock.bytes (Vector.replicate 8 (rowValue (Array3.ofList 0 p).y)) := by
  have hfit : columns.Fits := ⟨by decide, by decide⟩
  have hserves : (columns.network 0 "v"
      (fun _ => [bottomRow.descriptor, topRow.descriptor]) readRow).Serves columns :=
    columns.network_serves hfit
  have rows : ∀ {b : BBX} {y : Int} {p : List Int}, b.BoundList = [⟨0, 1⟩, ⟨y, y⟩] →
      b.Contains p → (Array3.ofList 0 p).y = y := by
    intro b y p row hp
    have inside := (BBX.in_of_contains (by simp [BBX.m_dims, row]) hp).2.1
    obtain ⟨st, bs⟩ := b
    obtain rfl : bs = _ := row
    exact le_antisymm inside.2 inside.1
  have agree : ∀ b ∈ [bottomRow, topRow], ∀ p, b.bbx.Contains p →
      b.value p = Vector.replicate 8 (rowValue (Array3.ofList 0 p).y) := by
    intro b hb p hp
    simp only [List.mem_cons, List.not_mem_nil, or_false] at hb
    obtain rfl | rfl := hb
    · rw [rows (y := 0) (by decide) hp]
      rfl
    · rw [rows (y := 1) (by decide) hp]
      rfl
  refine getArbitraryData_values (f := fun p => Vector.replicate 8 (rowValue (Array3.ofList 0 p).y))
    (q := ⟨0, [⟨0, 1⟩, ⟨0, 1⟩]⟩) (by decide) hserves agree ?_ ?_ (by decide) (by decide)
    (by decide) ?_ (by decide) ?_
  · exact List.forall_mem_cons.mpr ⟨readRow_reads rfl rfl (y := 0) fun _ => rfl,
      List.forall_mem_cons.mpr ⟨readRow_reads rfl rfl (y := 1) fun _ => rfl, List.forall_mem_nil _⟩⟩
  · intro addr s hs bd hbd
    obtain rfl := List.mem_singleton.mp hs
    have hreg :
        (MetaDataManager.register 0 "v" [bottomRow.descriptor, topRow.descriptor]).registered
        0 "v" = [bottomRow.descriptor, topRow.descriptor] :=
      MetaDataManager.registered_register (by decide)
    have hmem : bd ∈ [bottomRow.descriptor, topRow.descriptor] := hreg ▸ hbd
    simp only [List.mem_cons, List.not_mem_nil, or_false] at hmem
    obtain rfl | rfl := hmem
    · exact ⟨bottomRow, by simp, _, rfl⟩
    · exact ⟨topRow, by simp, _, rfl⟩
  · intro p hp
    cases hp with
    | cons h0 hp =>
    cases hp with
    | cons h1 hp =>
      cases hp
      exact .cons ⟨h0.1, Int.lt_add_one_of_le h0.2⟩ (.cons ⟨h1.1, Int.lt_add_one_of_le h1.2⟩ .nil)
  · intro addrs haddrs addr haddr
    rw [hserves.metaServerList (q := ⟨0, [⟨0, 1⟩, ⟨0, 1⟩]⟩) (by decide) (by decide)] at haddrs
    obtain rfl := Except.ok.inj haddrs
    obtain ⟨k, hk, rfl⟩ := List.mem_map.mp haddr
    obtain ⟨idx, hidx, rfl, hits⟩ := columns.mem_named.mp hk
    have cover : MetaDataManager.ifCovered [bottomRow.descriptor, topRow.descriptor]
        (BBX.meet ⟨0, [⟨0, 1⟩, ⟨0, 1⟩]⟩ (columns.box idx)) = .ok true := by
      cases hidx with
      | @cons _ x _ _ first hidx =>
      cases hidx with
      | @cons _ y _ _ second hidx =>
        cases hidx
        obtain rfl : y = 0 := by omega
        obtain rfl | rfl : x = 0 ∨ x = 1 := by omega
        · rfl
        · rfl
    exact columns.network_poll hidx hits (by decide) (by decide) (by decide) (by decide) cover
      ⟨bottomRow.descriptor, by simp, by decide⟩

end ClientForSim

end Gorilla
