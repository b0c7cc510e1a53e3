import Gorilla.Lib.Tiling
import Gorilla.Server.Partition
import Gorilla.Utils.Points

/-!
# Routing a query to the metadata servers

The servers `getMetaServerID` names after the initialisation, and the parts of the query it
gives them: a tiling of the query.
-/

namespace Gorilla

namespace Layout

variable (l : Layout)

/-- The partitions that overlap the query, in the order of their ids. -/
def named (q : BBX) : List Int := ((sortedEntries l.boxes).filter fun e => q.Hits e.2).map (·.1)

theorem mem_named {q : BBX} {k : Int} :
    k ∈ l.named q ↔ ∃ idx, l.Index idx ∧ l.id idx = k ∧ q.Hits (l.box idx) := by
  simp only [named, List.mem_map, List.mem_filter, mem_sortedEntries, decide_eq_true_eq]
  constructor
  · rintro ⟨e, ⟨he, hit⟩, rfl⟩
    obtain ⟨idx, hidx, hid, hb⟩ := l.lookup_boxes.mp he
    exact ⟨idx, hidx, hid, hb ▸ hit⟩
  · rintro ⟨idx, hidx, rfl, hit⟩
    exact ⟨⟨l.id idx, l.box idx⟩, ⟨l.lookup_boxes.mpr ⟨idx, hidx, rfl, rfl⟩, hit⟩, rfl⟩

theorem nodup_named (q : BBX) : (l.named q).Nodup := by
  have hkeys : ((sortedEntries l.boxes).map (·.1)).Nodup :=
    ((List.perm_insertionSort _ l.boxes.entries).map _).nodup_iff.mpr l.boxes.nodupKeys
  exact List.Nodup.sublist (List.Sublist.map _ List.filter_sublist) hkeys

theorem id_mem_range {idx : List Int} (h : l.Index idx) : 0 ≤ l.id idx ∧ l.id idx < l.count :=
  ⟨MixedRadix.value_nonneg h, MixedRadix.value_lt_prod h⟩

/-- A layout has a partition, so the query is always compared with a box. -/
theorem exists_entry : ∃ e ∈ sortedEntries l.boxes, e.2.m_dims = l.dims :=
  ⟨⟨l.id l.lastIndex, l.box l.lastIndex⟩,
    mem_sortedEntries.mpr (l.lookup_boxes.mpr ⟨_, l.index_last, rfl, rfl⟩), l.dims_box l.index_last⟩

theorem dims_entry {e : Σ _ : Int, BBX} (h : e ∈ sortedEntries l.boxes) : e.2.m_dims = l.dims := by
  obtain ⟨idx, hidx, _, hb⟩ := l.lookup_boxes.mp (mem_sortedEntries.mp h)
  rw [← hb]
  exact l.dims_box hidx

/-- The partitions that overlap the query, each with its part. -/
def responsible (q : BBX) : List ResponsibleMetaServer :=
  ((sortedEntries l.boxes).filter fun e => q.Hits e.2).map fun e => ⟨e.1, q.meet e.2⟩

theorem getMetaServerID_eq {m : DHTManager} {q : BBX} (boxes : m.metaServerIDToBBX = l.boxes)
    (hdim : q.m_dims = l.dims) : m.getMetaServerID q = .ok (l.responsible q) := by
  have hdims : q.Dims := by
    rw [BBX.Dims, hdim]
    exact ⟨l.dims_pos, l.dims_le⟩
  rw [DHTManager.getMetaServerID, boxes]
  exact responsible_eq_ok.mpr ⟨fun e he => ⟨by rw [hdim, l.dims_entry he], hdims⟩, rfl⟩

/-- The query lies in `[0, len - 1]` on every axis. -/
def Inside (q : BBX) : Prop :=
  List.Forall₂ (fun n (b : Bound) => 0 ≤ b.m_lb ∧ b.m_ub ≤ n - 1) l.lenArray q.BoundList

instance (q : BBX) : Decidable (l.Inside q) := inferInstanceAs (Decidable (List.Forall₂ _ _ _))

variable {l} {q : BBX}

theorem Inside.dims (h : l.Inside q) : q.m_dims = l.dims :=
  (List.Forall₂.length_eq h).symm.trans l.length_lenArray

theorem Inside.inDomain {p : List Int} (h : l.Inside q) (hp : q.Contains p) : l.InDomain p := by
  obtain ⟨_, bs⟩ := q
  simp only [Inside, BBX.Contains, InDomain, MixedRadix.Digits] at *
  generalize l.lenArray = ns at *
  induction h generalizing p with
  | nil =>
    cases hp
    exact .nil
  | @cons n b ns bs hb _ ih =>
    cases hp with
    | @cons _ x _ xs hx hxs =>
      obtain ⟨_, _⟩ := hx
      exact .cons (by omega) (ih hxs)

/-- A share past the end of its axis starts beyond every query of the domain. -/
theorem share_real_of_hits {n L x : Int} {b : Bound} (hn : 0 < n) (hL : 0 < L)
    (hub : b.m_ub ≤ n - 1) (hit : b.Hits (share n L x)) :
    (share n L x).m_lb ≤ (share n L x).m_ub := by
  have start : x * ceilDiv n L ≤ b.m_ub := hit.2
  exact (share_real hn hL).mpr (by omega)

theorem Inside.wellFormed_box {idx : List Int} (h : l.Inside q) (hidx : l.Index idx)
    (hit : q.Hits (l.box idx)) : (l.box idx).WellFormed := by
  have hpos := l.positive
  obtain ⟨_, bs⟩ := q
  simp only [Inside, BBX.Hits, box, BBX.WellFormed, Index, MixedRadix.Digits] at *
  generalize l.lenArray = ns, l.partitionLayout = Ls at *
  induction hpos generalizing bs idx with
  | nil => simp [shares]
  | @cons n L ns Ls hp _ ih =>
    cases hidx with
    | @cons _ x _ xs hx hxs =>
    cases h with
    | @cons _ b _ bs hb hbs =>
    cases hit with
    | cons hit hits =>
      exact List.forall_mem_cons.mpr
        ⟨share_real_of_hits hp.1.1 hp.2.1 hb.2 hit, ih bs hxs hbs hits⟩

/-- The servers a query is sent to, each with its own part, and nothing of the query missed. -/
structure Routes (m : DHTManager) (q : BBX) (servers : List ResponsibleMetaServer) : Prop where
  distinct : (servers.map (·.m_metaServerID)).Nodup
  owned : ∀ s ∈ servers, ∃ b, m.metaServerIDToBBX.lookup s.m_metaServerID = some b ∧
    ∀ p, s.m_bbx.Contains p ↔ q.Contains p ∧ b.Contains p
  wellFormed : ∀ s ∈ servers, s.m_bbx.m_dims = q.m_dims ∧ s.m_bbx.WellFormed
  tiles : Tiling.Tiles BBX.Contains (servers.map (·.m_bbx)) (Tiling.points BBX.Contains q)

theorem mem_responsible {s : ResponsibleMetaServer} (hs : s ∈ l.responsible q) :
    ∃ idx, l.Index idx ∧ q.Hits (l.box idx) ∧ s = ⟨l.id idx, q.meet (l.box idx)⟩ := by
  obtain ⟨⟨k, b⟩, he, rfl⟩ := List.mem_map.mp hs
  obtain ⟨hmem, hit⟩ := List.mem_filter.mp he
  obtain ⟨idx, hidx, rfl, rfl⟩ := l.lookup_boxes.mp (mem_sortedEntries.mp hmem)
  exact ⟨idx, hidx, of_decide_eq_true hit, rfl⟩

theorem map_id_responsible : (l.responsible q).map (·.m_metaServerID) = l.named q := by
  simp only [responsible, named, List.map_map, Function.comp_def]

theorem Inside.contains_meet {idx p : List Int} (h : l.Inside q) (hidx : l.Index idx) :
    (q.meet (l.box idx)).Contains p ↔ q.Contains p ∧ (l.box idx).Contains p :=
  BBX.contains_meet (h.dims.trans (l.dims_box hidx).symm)

/-- Two parts share no point, because a point has one owner. -/
theorem Inside.apart_responsible (h : l.Inside q) :
    ((l.responsible q).map (·.m_bbx)).Pairwise (Tiling.Apart BBX.Contains) := by
  have distinct : (l.responsible q).Pairwise fun s t => s.m_metaServerID ≠ t.m_metaServerID := by
    have nodup := l.nodup_named q
    rw [← map_id_responsible] at nodup
    exact List.pairwise_map.mp nodup
  refine List.pairwise_map.mpr (distinct.imp_of_mem fun {s t} hs ht ne p hps hpt => ne ?_)
  obtain ⟨idx, hidx, _, rfl⟩ := mem_responsible hs
  obtain ⟨jdx, hjdx, _, rfl⟩ := mem_responsible ht
  obtain ⟨_, hidxp⟩ := (h.contains_meet hidx).mp hps
  obtain ⟨_, hjdxp⟩ := (h.contains_meet hjdx).mp hpt
  have owner : idx = jdx := by
    rw [((l.box_contains hidx).mp hidxp).2, ((l.box_contains hjdx).mp hjdxp).2]
  exact congrArg l.id owner

/-- A point of the query lies in the part of its owner. -/
theorem Inside.covers_responsible {p : List Int} (h : l.Inside q) :
    q.Contains p ↔ ∃ b ∈ (l.responsible q).map (·.m_bbx), b.Contains p := by
  constructor
  · intro hp
    have hdom := h.inDomain hp
    have hidx := l.index_ownerIndex hdom
    have hbox : (l.box (l.ownerIndex p)).Contains p := (l.box_contains hidx).mpr ⟨hdom, rfl⟩
    refine ⟨q.meet (l.box (l.ownerIndex p)), ?_, (h.contains_meet hidx).mpr ⟨hp, hbox⟩⟩
    have entry : (⟨l.id (l.ownerIndex p), l.box (l.ownerIndex p)⟩ : Σ _ : Int, BBX) ∈
        sortedEntries l.boxes :=
      mem_sortedEntries.mpr (l.lookup_boxes.mpr ⟨_, hidx, rfl, rfl⟩)
    refine List.mem_map.mpr ⟨_, List.mem_map_of_mem (List.mem_filter.mpr ⟨entry, ?_⟩), rfl⟩
    exact decide_eq_true (BBX.hits_of_contains hp hbox)
  · rintro ⟨b, hb, hp⟩
    obtain ⟨s, hs, rfl⟩ := List.mem_map.mp hb
    obtain ⟨idx, hidx, _, rfl⟩ := mem_responsible hs
    exact ((h.contains_meet hidx).mp hp).1

theorem Inside.wellFormed_responsible {s : ResponsibleMetaServer} (h : l.Inside q)
    (hwf : q.WellFormed) (hs : s ∈ l.responsible q) :
    s.m_bbx.m_dims = q.m_dims ∧ s.m_bbx.WellFormed := by
  obtain ⟨idx, hidx, hit, rfl⟩ := mem_responsible hs
  exact ⟨BBX.dims_meet hit.dims, hit.wellFormed_meet hwf (h.wellFormed_box hidx hit)⟩

theorem Inside.routes {m : DHTManager} (h : l.Inside q) (hwf : q.WellFormed)
    (boxes : m.metaServerIDToBBX = l.boxes) : Routes m q (l.responsible q) where
  distinct := by
    rw [map_id_responsible]
    exact l.nodup_named q
  owned s hs := by
    obtain ⟨idx, hidx, _, rfl⟩ := mem_responsible hs
    rw [boxes]
    exact ⟨l.box idx, l.lookup_boxes.mpr ⟨idx, hidx, rfl, rfl⟩, fun p => h.contains_meet hidx⟩
  wellFormed s hs := h.wellFormed_responsible hwf hs
  tiles :=
    { inhabited := by
        intro b hb
        obtain ⟨s, hs, rfl⟩ := List.mem_map.mp hb
        exact (h.wellFormed_responsible hwf hs).2.exists_point
      apart := h.apart_responsible
      covers := fun p => h.covers_responsible }

/-- After the initialisation every well-formed query of the domain is cut into the parts of
distinct servers. -/
theorem getMetaServerID_tiles (l : Layout) {q : BBX} (fits : l.Fits) (hwf : q.WellFormed)
    (inside : l.Inside q) :
    ∃ m servers, DHTManager.initDHTManually l.lenArray l.partitionLayout {} = .ok m ∧
      m.getMetaServerID q = .ok servers ∧ Routes m q servers :=
  ⟨_, _, (l.initDHTManually_eq_ok rfl).mpr ⟨fits, rfl⟩,
    l.getMetaServerID_eq rfl inside.dims, inside.routes hwf rfl⟩

/-- Nine by ten by eleven cells in two by two by three shares, of which no axis divides evenly. -/
def unevenBlocks : Layout where
  lenArray := [9, 10, 11]
  partitionLayout := [2, 2, 3]
  dims_pos := by decide
  dims_le := by decide
  positive := by decide

theorem unevenBlocks_tiles : ∃ m servers,
    DHTManager.initDHTManually [9, 10, 11] [2, 2, 3] {} = .ok m ∧
      m.getMetaServerID ⟨0, [⟨3, 8⟩, ⟨0, 6⟩, ⟨4, 10⟩]⟩ = .ok servers ∧
      Routes m ⟨0, [⟨3, 8⟩, ⟨0, 6⟩, ⟨4, 10⟩]⟩ servers :=
  getMetaServerID_tiles unevenBlocks ⟨by decide, by decide⟩ (by decide) (by decide)

end Layout

end Gorilla
