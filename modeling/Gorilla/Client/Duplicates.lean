import Gorilla.Client.Deployment

/-!
# Cells fetched twice

Each named server lists its blocks cut to the whole query, not to its own partition. A block
that lies in two of the named partitions is listed by both servers.
-/

namespace Gorilla

open HandLock Handler Traverse ClientForSim

/-- The two boxes share no cell. -/
def BBX.Disjoint (a b : BBX) : Prop := ∀ p, ¬ (a.Contains p ∧ b.Contains p)

theorem BBX.Disjoint.symm {a b : BBX} (h : a.Disjoint b) : b.Disjoint a := fun p hp =>
  h p ⟨hp.2, hp.1⟩

namespace Layout

/-- Pairwise disjoint blocks of the grid that a client can read. -/
structure Blocks where
  list : List BlockDescriptor
  carGrid : ∀ bd ∈ list, bd.m_dataType = DATATYPE_CARGRID
  readable : ∀ bd ∈ list, Readable bd
  disjoint : list.Pairwise fun a b => a.bbx.Disjoint b.bbx

variable (l : Layout) (blocks : Blocks)

/-- The blocks whose box `getMetaServerID` names the server of rank `k` for. -/
def blocksOf (k : Int) : List BlockDescriptor :=
  blocks.list.filter fun bd => k ∈ l.named bd.bbx

/-- Each block is registered on every server named for its box, in any order. -/
def RegisteredWhereNamed (net : Network) (step : Nat) (varName : String) : Prop :=
  ∀ k, 0 ≤ k → k < l.count → ∀ s ∈ net.polls (net.addr k),
    (s.m_metaManager.registered step varName).Perm (l.blocksOf blocks k)

/-- The sub-boxes a completed collection brings together are pairwise disjoint. -/
def FetchedOnce (dims : Nat) (indexlb indexub : Array3 Int) : Prop :=
  ∀ net step varName views, net.Serves l → l.RegisteredWhereNamed blocks net step varName →
    matrixViewList net step varName dims indexlb indexub = .ok views →
      views.Pairwise fun v w => v.m_bbx.Disjoint w.m_bbx

/-- Every server named for the query has blocks that, put in some order, pass its coverage test,
and one of them to list. -/
def Fetchable (q : BBX) : Prop :=
  ∀ idx, l.Index idx → q.Hits (l.box idx) → ∃ order : List BlockDescriptor,
    order.Perm (l.blocksOf blocks (l.id idx)) ∧
      MetaDataManager.ifCovered order (q.meet (l.box idx)) = .ok true ∧ ∃ bd ∈ order, bd.bbx.Hits q

/-- A block with a cell in the query is registered on two of the servers named for the query. -/
def Straddled (q : BBX) : Prop :=
  ∃ bd ∈ blocks.list, (∃ p, bd.bbx.Contains p ∧ q.Contains p) ∧
    ∃ k ∈ l.named q, ∃ k' ∈ l.named q, k ≠ k' ∧ k ∈ l.named bd.bbx ∧ k' ∈ l.named bd.bbx

variable {l blocks} {net : Network} {step : Nat} {varName : String} {dims : Nat}
  {indexlb indexub : Array3 Int} {q : BBX}

theorem mem_blocksOf {k : Int} {bd : BlockDescriptor} :
    bd ∈ l.blocksOf blocks k ↔ bd ∈ blocks.list ∧ k ∈ l.named bd.bbx := by
  simp [blocksOf]

/-- Two blocks with a common cell are the same block. -/
theorem Blocks.eq_of_contains (blocks : Blocks) {a b : BlockDescriptor} (ha : a ∈ blocks.list)
    (hb : b ∈ blocks.list) {p : List Int} (hap : a.bbx.Contains p) (hbp : b.bbx.Contains p) :
    a = b := by
  have : Std.Symm fun a b : BlockDescriptor => a.bbx.Disjoint b.bbx := ⟨fun _ _ h => h.symm⟩
  by_contra hne
  exact blocks.disjoint.forall ha hb hne p ⟨hap, hbp⟩

/-- A completed collection shows that its blocks can be fetched. -/
theorem fetchable_of_views {views : List MatrixView} (hserves : net.Serves l)
    (hreg : l.RegisteredWhereNamed blocks net step varName)
    (hq : BBX.ofIndex dims indexlb indexub = .ok q) (hdim : q.m_dims = l.dims)
    (h : matrixViewList net step varName dims indexlb indexub = .ok views) :
    l.Fetchable blocks q := by
  intro idx hidx hits
  obtain ⟨parts, _, hparts⟩ := matrixViewList_eq_ok hserves hq hdim h
  obtain ⟨part, _, jdx, s, bdList, hid, hgives, _⟩ :=
    exists_right_of_forall₂ hparts (l.mem_named.mpr ⟨idx, hidx, rfl, hits⟩)
  obtain rfl : jdx = idx := l.id_inj hgives.index hidx hid
  have hrange := l.id_mem_range hidx
  exact ⟨_, hreg _ hrange.1 hrange.2 s hgives.polled, hgives.covered, hgives.listed⟩

/-- The boxes of one server's views are its blocks cut to the query. -/
theorem part_eq {idx : List Int} {s : UniServer} {bdList : List BlockDescriptor}
    {part : List MatrixView} (hqd : q.Dims)
    (hgives : GivesOut net l step varName q idx s bdList)
    (hread : bdList.mapM (readDescriptor net q.m_dims) = .ok part) :
    List.Forall₂ (fun bd view => bd.bbx.m_dims = q.m_dims ∧ view.m_bbx = bd.bbx.meet q)
      ((s.m_metaManager.registered step varName).filter fun bd => bd.bbx.Hits q) part := by
  have h := mapM_eq_ok.mp hread
  rw [hgives.list_eq, List.forall₂_map_left_iff] at h
  refine forall₂_imp_mem (fun bd hbd view hv => ?_) h
  have hd := hgives.dims bd (List.mem_filter.mp hbd).1
  exact ⟨hd, readBlock_bbx hqd hd hv⟩

/-- A query inside the domain has extents of type `int`. -/
theorem intSized_of_inside (l : Layout) (hwf : q.WellFormed)
    (inside : ∀ p, q.Contains p → l.InDomain p) : q.IntSized := by
  intro b hb
  have := l.bounds_of_inside hwf inside b hb
  exact ⟨hwf b hb, by omega⟩

theorem disjoint_meet {a b : BBX} (ha : a.m_dims = q.m_dims) (hb : b.m_dims = q.m_dims)
    (h : a.Disjoint b) : (a.meet q).Disjoint (b.meet q) := by
  rintro p ⟨hap, hbp⟩
  exact h p ⟨((BBX.contains_meet ha).mp hap).1, ((BBX.contains_meet hb).mp hbp).1⟩

/-- Where no block is registered on two of the named servers, nothing is fetched twice. -/
theorem fetchedOnce_of_not_straddled (hq : BBX.ofIndex dims indexlb indexub = .ok q)
    (hdim : q.m_dims = l.dims) (h : l.Fetchable blocks q → ¬ l.Straddled blocks q) :
    l.FetchedOnce blocks dims indexlb indexub := by
  intro net step varName views hserves hreg hviews
  have hqd : q.Dims := by
    rw [BBX.Dims, hdim]
    exact ⟨l.dims_pos, l.dims_le⟩
  have hone := h (fetchable_of_views hserves hreg hq hdim hviews)
  obtain ⟨parts, rfl, hparts⟩ := matrixViewList_eq_ok hserves hq hdim hviews
  refine List.pairwise_flatten.mpr ⟨fun part hpart => ?_, ?_⟩
  · obtain ⟨k, _, idx, s, bdList, rfl, hgives, hread⟩ := exists_left_of_forall₂ hparts hpart
    have hrange := l.id_mem_range hgives.index
    have hperm := hreg _ hrange.1 hrange.2 s hgives.polled
    have hdis : (s.m_metaManager.registered step varName).Pairwise
        fun a b => a.bbx.Disjoint b.bbx :=
      (hperm.pairwise_iff fun h => h.symm).mpr
        (List.Pairwise.sublist List.filter_sublist blocks.disjoint)
    refine pairwise_of_forall₂ ?_ (part_eq hqd hgives hread)
      (List.Pairwise.sublist List.filter_sublist hdis)
    rintro a v b w ⟨ha, hv⟩ ⟨hb, hw⟩ hab
    rw [hv, hw]
    exact disjoint_meet ha hb hab
  · refine pairwise_of_forall₂ ?_ hparts (l.nodup_named q)
    rintro k part k' part' ⟨idx, s, bdList, rfl, hgives, hread⟩
      ⟨idx', s', bdList', rfl, hgives', hread'⟩ hne v hv w hw p ⟨hvp, hwp⟩
    obtain ⟨a, ha, hda, hva⟩ := exists_left_of_forall₂ (part_eq hqd hgives hread) hv
    obtain ⟨b, hb, hdb, hwb⟩ := exists_left_of_forall₂ (part_eq hqd hgives' hread') hw
    rw [hva, BBX.contains_meet hda] at hvp
    rw [hwb, BBX.contains_meet hdb] at hwp
    have hrange := l.id_mem_range hgives.index
    have hrange' := l.id_mem_range hgives'.index
    obtain ⟨hal, hak⟩ := mem_blocksOf.mp ((hreg _ hrange.1 hrange.2 s hgives.polled).mem_iff.mp
      (List.mem_filter.mp ha).1)
    obtain ⟨hbl, hbk⟩ := mem_blocksOf.mp ((hreg _ hrange'.1 hrange'.2 s' hgives'.polled).mem_iff.mp
      (List.mem_filter.mp hb).1)
    obtain rfl := blocks.eq_of_contains hal hbl hvp.1 hwp.1
    exact hone ⟨a, hal, ⟨p, hvp⟩, l.id idx, l.mem_named.mpr ⟨idx, hgives.index, rfl, hgives.hits⟩,
      l.id idx', l.mem_named.mpr ⟨idx', hgives'.index, rfl, hgives'.hits⟩, hne, hak, hbk⟩

/-- In a completed collection a block with a cell in the query has a view on every named server
it is registered on. -/
theorem view_of_block {k : Int} {part : List MatrixView} {bd : BlockDescriptor} (hqd : q.Dims)
    (hreg : l.RegisteredWhereNamed blocks net step varName)
    (h : Contributes net l step varName q k part) (hbd : bd ∈ blocks.list)
    (hk : k ∈ l.named bd.bbx) {p : List Int} (hp : bd.bbx.Contains p) (hqp : q.Contains p) :
    ∃ view ∈ part, view.m_bbx.Contains p := by
  obtain ⟨idx, s, bdList, rfl, hgives, hread⟩ := h
  have hrange := l.id_mem_range hgives.index
  have hmem := (hreg _ hrange.1 hrange.2 s hgives.polled).mem_iff.mpr (mem_blocksOf.mpr ⟨hbd, hk⟩)
  obtain ⟨view, hv, hd, hbox⟩ := exists_right_of_forall₂ (part_eq hqd hgives hread)
    (List.mem_filter.mpr ⟨hmem, by simpa using BBX.hits_of_contains hp hqp⟩)
  refine ⟨view, hv, ?_⟩
  rw [hbox]
  exact (BBX.contains_meet hd).mpr ⟨hp, hqp⟩

/-- Blocks that can be fetched are fetched in some run. -/
theorem Fetchable.exists_run (h : l.Fetchable blocks q) (hfit : l.Fits)
    (hq : BBX.ofIndex dims indexlb indexub = .ok q) (hdim : q.m_dims = l.dims)
    (hsize : q.IntSized) : ∃ net views, net.Serves l ∧ l.RegisteredWhereNamed blocks net 0 "" ∧
      matrixViewList net 0 "" dims indexlb indexub = .ok views := by
  have hqd : q.Dims := by
    rw [BBX.Dims, hdim]
    exact ⟨l.dims_pos, l.dims_le⟩
  have each : ∀ k, ∃ order : List BlockDescriptor, order.Perm (l.blocksOf blocks k) ∧
      ∀ idx, l.Index idx → l.id idx = k → q.Hits (l.box idx) →
        MetaDataManager.ifCovered order (q.meet (l.box idx)) = .ok true ∧
          ∃ bd ∈ order, bd.bbx.Hits q := by
    intro k
    by_cases hk : ∃ idx, l.Index idx ∧ l.id idx = k ∧ q.Hits (l.box idx)
    · obtain ⟨idx, hidx, rfl, hits⟩ := hk
      obtain ⟨order, hperm, hcov, hlist⟩ := h idx hidx hits
      refine ⟨order, hperm, fun jdx hjdx hid _ => ?_⟩
      obtain rfl := l.id_inj hjdx hidx hid
      exact ⟨hcov, hlist⟩
    · exact ⟨_, .refl _, fun idx hidx hid hits => absurd ⟨idx, hidx, hid, hits⟩ hk⟩
  choose reg hperm hreg using each
  have hmem : ∀ k, ∀ bd ∈ reg k, bd ∈ blocks.list ∧ k ∈ l.named bd.bbx := fun k bd hbd =>
    mem_blocksOf.mp ((hperm k).mem_iff.mp hbd)
  have htype : ∀ k, ∀ bd ∈ reg k, bd.m_dataType = DATATYPE_CARGRID := fun k bd hbd =>
    blocks.carGrid bd (hmem k bd hbd).1
  have hregs : ∀ k, (MetaDataManager.register 0 "" (reg k)).registered 0 "" = reg k := fun k =>
    MetaDataManager.registered_register (htype k)
  let net := l.network 0 "" reg fun _ _ _ => []
  have hserves : net.Serves l := l.network_serves hfit
  have hwhere : l.RegisteredWhereNamed blocks net 0 "" := by
    intro k h0 hk s hs
    rw [l.network_addr h0 hk] at hs
    obtain rfl := List.mem_singleton.mp hs
    show ((MetaDataManager.register 0 "" (reg (rankOf (addrOf k)))).registered 0 "").Perm _
    rw [rankOf_addrOf h0, hregs]
    exact hperm k
  obtain ⟨views, hviews⟩ : ∃ views, matrixViewList net 0 "" dims indexlb indexub = .ok views := by
    refine matrixViewList_ok hserves hq hdim (fun k hk => ?_) fun addr s hs bd hbd hd hit => ?_
    · obtain ⟨idx, hidx, rfl, hits⟩ := l.mem_named.mp hk
      obtain ⟨hcov, hlist⟩ := hreg _ idx hidx rfl hits
      refine l.network_poll hidx hits hq hdim (htype _) (fun bd hbd => ?_) hcov hlist
      have h3 : bd.m_dims ≤ 3 := ((MetaDataManager.ifCovered_eq_true rfl).mp hcov).1 bd hbd
      obtain ⟨jdx, hjdx, _, hbox⟩ := l.mem_named.mp (hmem _ bd hbd).2
      rw [← BlockDescriptor.dims_bbx h3, hbox.dims, l.dims_box hjdx]
    · obtain rfl := List.mem_singleton.mp hs
      have hbd' : bd ∈ reg (rankOf addr) := hregs _ ▸ hbd
      exact l.network_readable (blocks.readable bd (hmem _ bd hbd').1) hd hqd hsize hit
  exact ⟨net, views, hserves, hwhere, hviews⟩

/-- A block registered on two named servers is fetched from both. -/
theorem Straddled.fetched_twice (h : l.Straddled blocks q) (hfetch : l.Fetchable blocks q)
    (hfit : l.Fits) (hq : BBX.ofIndex dims indexlb indexub = .ok q) (hdim : q.m_dims = l.dims)
    (hsize : q.IntSized) : ¬ l.FetchedOnce blocks dims indexlb indexub := by
  intro honce
  obtain ⟨bd, hbd, ⟨p, hp, hqp⟩, k, hk, k', hk', hne, hbk, hbk'⟩ := h
  have hqd : q.Dims := by
    rw [BBX.Dims, hdim]
    exact ⟨l.dims_pos, l.dims_le⟩
  obtain ⟨net, views, hserves, hreg, hviews⟩ := hfetch.exists_run hfit hq hdim hsize
  have hdis := honce net 0 "" views hserves hreg hviews
  obtain ⟨parts, rfl, hparts⟩ := matrixViewList_eq_ok hserves hq hdim hviews
  obtain ⟨part, part', hpart, hpart', hrel⟩ :=
    related_of_forall₂ hparts (List.pairwise_flatten.mp hdis).2 hk hk' hne
  obtain ⟨v, hv, hvp⟩ := view_of_block hqd hreg hpart hbd hbk hp hqp
  obtain ⟨w, hw, hwp⟩ := view_of_block hqd hreg hpart' hbd hbk' hp hqp
  rcases hrel with h | h
  · exact h v hv w hw p ⟨hvp, hwp⟩
  · exact h w hw v hv p ⟨hwp, hvp⟩

/-- A query inside the domain is fetched without duplicates exactly when it cannot be fetched at
all or no block with a cell in it is registered on two of the named servers. -/
theorem fetchedOnce_iff (hfit : l.Fits) (hq : BBX.ofIndex dims indexlb indexub = .ok q)
    (hdim : q.m_dims = l.dims) (hwf : q.WellFormed) (inside : ∀ p, q.Contains p → l.InDomain p) :
    l.FetchedOnce blocks dims indexlb indexub ↔
      (l.Fetchable blocks q → ¬ l.Straddled blocks q) := by
  refine ⟨fun honce hfetch hstraddle => ?_, fetchedOnce_of_not_straddled hq hdim⟩
  exact hstraddle.fetched_twice hfetch hfit hq hdim (l.intSized_of_inside hwf inside) honce

/-- A four by four grid in two halves. -/
def halves : Layout := .pair 4 (by decide)

def grid : BBX := ⟨0, [⟨0, 3⟩, ⟨0, 3⟩]⟩

/-- One block over both halves. -/
def gridBlock : Blocks where
  list := [{ m_rawDataID := "grid", m_dims := 2, m_indexub := ⟨3, 3, 0⟩ }]
  carGrid := by decide
  readable := by
    intro bd hbd
    obtain rfl := List.mem_singleton.mp hbd
    exact Or.inl rfl
  disjoint := List.pairwise_singleton _ _

theorem fetchedOnce_grid : halves.FetchedOnce gridBlock 2 ⟨0, 0, 0⟩ ⟨3, 3, 0⟩ ↔
    (halves.Fetchable gridBlock grid → ¬ halves.Straddled gridBlock grid) := by
  refine fetchedOnce_iff ⟨by decide, by decide⟩ (by decide) (by decide) (by decide) ?_
  intro p hp
  cases hp with
  | cons h0 hp =>
  cases hp with
  | cons h1 hp =>
    cases hp
    exact .cons ⟨h0.1, Int.lt_add_one_of_le h0.2⟩ (.cons ⟨h1.1, Int.lt_add_one_of_le h1.2⟩ .nil)

theorem grid_fetched_twice : ¬ halves.FetchedOnce gridBlock 2 ⟨0, 0, 0⟩ ⟨3, 3, 0⟩ := by
  have named : ∀ x, 0 ≤ x ∧ x < 2 → halves.id [x, 0] ∈ halves.named grid := by
    intro x hx
    have hidx : halves.Index [x, 0] := .cons hx (.cons (by decide) .nil)
    refine halves.mem_named.mpr ⟨[x, 0], hidx, rfl, ?_⟩
    obtain rfl | rfl : x = 0 ∨ x = 1 := by omega
    · decide
    · decide
  have hfetch : halves.Fetchable gridBlock grid := by
    intro idx hidx hits
    have hk := halves.mem_named.mpr ⟨idx, hidx, rfl, hits⟩
    have hall : halves.blocksOf gridBlock (halves.id idx) = gridBlock.list :=
      List.filter_eq_self.mpr fun bd hbd => by
        obtain rfl := List.mem_singleton.mp hbd
        exact decide_eq_true hk
    refine ⟨gridBlock.list, by rw [hall], ?_, _, List.mem_singleton_self _, by decide⟩
    refine MetaDataManager.ifCovered_absorbed rfl (by decide) ?_
      (BBX.WellFormed.absorbed_meet (q := grid) (by decide) hits)
    rw [BBX.Dims, BBX.dims_meet hits.dims]
    decide
  refine Straddled.fetched_twice ?_ hfetch ⟨by decide, by decide⟩ (by decide) (by decide)
    (by simp [BBX.IntSized, grid, INT_MAX])
  exact ⟨_, List.mem_singleton_self _, ⟨[0, 0], by decide, by decide⟩, _, named 0 (by decide), _,
    named 1 (by decide), by decide, named 0 (by decide), named 1 (by decide)⟩

end Layout

end Gorilla
