import Gorilla.Client.Collect

/-!
# Deployments of a layout

For a layout and a list of descriptors for each rank, the servers in the state that
registering those descriptors leads to, each at an address of its own.
-/

namespace Gorilla

open HandLock Handler

namespace Layout

variable (l : Layout)

/-- Rank `k` listens at the address of `k` letters. -/
def addrOf (k : Int) : String := String.ofList (List.replicate k.toNat 'a')

def rankOf (addr : String) : Int := addr.length

theorem rankOf_addrOf {k : Int} (h : 0 ≤ k) : rankOf (addrOf k) = k := by
  simp only [rankOf, addrOf, String.length_ofList, List.length_replicate]
  omega

def dht : DHTManager where
  metaServerIDToBBX := l.boxes
  metaServerIDToAddr := MapFill.fill (fun k : Nat => (k : Int)) (fun k : Nat => addrOf k)
    (List.range l.count.toNat) ∅

theorem lookup_addr {k : Int} (h0 : 0 ≤ k) (hk : k < l.count) :
    l.dht.metaServerIDToAddr.lookup k = some (addrOf k) := by
  have inj : ∀ c ∈ List.range l.count.toNat, ∀ d ∈ List.range l.count.toNat,
      (c : Int) = (d : Int) → c = d := fun c _ d _ h => by omega
  refine (MapFill.lookup_fill inj ∅).mpr (Or.inl ⟨k.toNat, List.mem_range.mpr (by omega), ?_, ?_⟩)
  · show (k.toNat : Int) = k
    omega
  · show addrOf (k.toNat : Int) = addrOf k
    rw [Int.toNat_of_nonneg h0]

variable (step : Nat) (varName : String) (reg : Int → List BlockDescriptor)

/-- The server of a rank after its descriptors were put. -/
def server (k : Int) : UniServer where
  globalRank := k
  m_dhtManager := l.dht
  m_metaManager := .register step varName (reg k)

/-- The network of the layout's servers, each polled once. -/
def network (read : Nat → Array3 Int → Array3 Int → Buffer) : Network where
  m_associatedDataServer := l.server step varName reg 0
  polls addr := [l.server step varName reg (rankOf addr)]
  getSubregionData _ _ dims indexlb indexub := .ok (0, read dims indexlb indexub)
  getBlockSubregion blockID dims indexlb indexub := .ok (blockID, read dims indexlb indexub)

variable {step varName reg} {read : Nat → Array3 Int → Array3 Int → Buffer}

theorem network_addr {k : Int} (h0 : 0 ≤ k) (hk : k < l.count) :
    (l.network step varName reg read).addr k = addrOf k := by
  show (l.dht.metaServerIDToAddr.lookup k).getD "" = addrOf k
  rw [l.lookup_addr h0 hk]
  rfl

theorem network_serves (hfit : l.Fits) : (l.network step varName reg read).Serves l where
  initialised := by
    refine ⟨_, (l.initDHTManually_eq_ok rfl).mpr ⟨hfit, rfl⟩, rfl, ?_⟩
    intro addr s hs
    obtain rfl := List.mem_singleton.mp hs
    rfl
  known k h0 hk := by
    show (l.dht.metaServerIDToAddr.lookup k).isSome = true
    rw [l.lookup_addr h0 hk]
    rfl
  rank k h0 hk s hs := by
    rw [l.network_addr h0 hk] at hs
    obtain rfl := List.mem_singleton.mp hs
    exact rankOf_addrOf h0
  reached addr s hs := by
    obtain rfl := List.mem_singleton.mp hs
    exact MetaDataManager.register_reached _

variable {dims : Nat} {indexlb indexub : Array3 Int} {q : BBX}

/-- A server whose registered blocks pass the coverage test on its part of the query answers
with a list. -/
theorem network_poll {idx : List Int} (hidx : l.Index idx) (hits : q.Hits (l.box idx))
    (hq : BBX.ofIndex dims indexlb indexub = .ok q) (hdim : q.m_dims = l.dims)
    (htype : ∀ bd ∈ reg (l.id idx), bd.m_dataType = DATATYPE_CARGRID)
    (hdims : ∀ bd ∈ reg (l.id idx), bd.m_dims = l.dims)
    (hcover : MetaDataManager.ifCovered (reg (l.id idx)) (q.meet (l.box idx)) = .ok true)
    (hover : ∃ bd ∈ reg (l.id idx), bd.bbx.Hits q) :
    ∃ bdList, ClientForSim.pollDescriptors step varName dims indexlb indexub
      ((l.network step varName reg read).polls
        ((l.network step varName reg read).addr (l.id idx))) = .ok bdList := by
  have hrange := l.id_mem_range hidx
  have hqd : q.Dims := by
    rw [BBX.Dims, hdim]
    exact ⟨l.dims_pos, l.dims_le⟩
  have hbd : ∀ bd ∈ reg (l.id idx), bd.m_dims ≤ 3 ∧ bd.bbx.m_dims = q.m_dims ∧ bd.bbx.Dims := by
    intro bd hbd
    have h3 : bd.m_dims ≤ 3 := by
      rw [hdims bd hbd]
      exact l.dims_le
    have he : bd.bbx.m_dims = q.m_dims := by
      rw [BlockDescriptor.dims_bbx h3, hdims bd hbd, hdim]
    exact ⟨h3, he, by rw [BBX.Dims, he]; exact hqd⟩
  have hlist := (@MetaDataManager.overlapEndpoints_eq_ok q DATATYPE_CARGRID _ _).mpr ⟨hbd, rfl⟩
  have hreg : (MetaDataManager.register step varName (reg (l.id idx))).registered step varName =
      reg (l.id idx) := MetaDataManager.registered_register htype
  obtain ⟨bd, hmem, hit⟩ := hover
  have hentries : (MetaDataManager.register step varName (reg (l.id idx))).endpointsOf step varName
      DATATYPE_CARGRID = some (reg (l.id idx)) := by
    rw [MetaDataManager.registered] at hreg
    cases he : (MetaDataManager.register step varName (reg (l.id idx))).endpointsOf step varName
        DATATYPE_CARGRID with
    | none =>
      rw [he] at hreg
      rw [← hreg] at hmem
      cases hmem
    | some entries =>
      rw [he] at hreg
      rw [← hreg]
      rfl
  have hans : answerOf (l.server step varName reg (l.id idx)) step varName q (l.box idx) =
      .ok _ :=
    bind_eq_ok.mpr ⟨_, MetaDataManager.rawEndpoints_eq hentries,
      bind_eq_ok.mpr ⟨true, hcover, hlist⟩⟩
  have hreply := getBlockDescriptorList_reply (s := l.server step varName reg (l.id idx))
    (MetaDataManager.register_free _) hq (l.lookup_boxes.mpr ⟨idx, hidx, rfl, rfl⟩)
    (BBX.getOverlapBBX_eq_ok.mpr ⟨hits.dims, hqd, by rw [if_pos hits]⟩) hans
  rw [l.network_addr hrange.1 hrange.2]
  show ∃ bdList, ClientForSim.pollDescriptors step varName dims indexlb indexub
    [l.server step varName reg (rankOf (addrOf (l.id idx)))] = .ok bdList
  rw [rankOf_addrOf hrange.1]
  refine ⟨_, ClientForSim.pollDescriptors_first hreply ?_ []⟩
  intro h
  rw [List.map_eq_nil_iff, List.filter_eq_nil_iff] at h
  exact h bd hmem (by simpa using hit)

/-- Stores that return no bytes are read: the container keeps what malloc left in it. -/
theorem network_read {bd : BlockDescriptor} (hmem : bd.m_backend = BACKEND.MEM)
    (hd : bd.bbx.m_dims = q.m_dims) (hq : q.Dims) {n : UInt64}
    (hn : (bd.bbx.meet q).getElemNum = .ok n) :
    ClientForSim.readBlock (l.network step varName reg fun _ _ _ => []) q bd =
      .ok ⟨bd.bbx.meet q, Buffer.malloc (8 * n)⟩ := by
  have hwd : (bd.bbx.meet q).m_dims = q.m_dims := (BBX.dims_meet hd).trans hd
  have hcorners := BBX.ofIndex_corners (b := bd.bbx.meet q) (by rw [hwd]; exact hq.2)
  rw [ClientForSim.readBlock, ← hwd]
  refine bind_eq_ok.mpr ⟨_, hcorners, bind_eq_ok.mpr ⟨n, hn, bind_eq_ok.mpr ⟨_, ?_, rfl⟩⟩⟩
  unfold ClientForSim.readPart
  show (if bd.m_backend = BACKEND.MEM then _ else _) = _
  rw [if_pos hmem]
  rfl

/-- The backends the client can read a block from. -/
def Readable (bd : BlockDescriptor) : Prop :=
  bd.m_backend = BACKEND.MEM ∨ bd.m_backend = BACKEND.FILE ∧ bd.m_rawDataID ≠ ""

theorem network_readable {bd : BlockDescriptor} (hr : Readable bd)
    (hd : bd.bbx.m_dims = q.m_dims) (hq : q.Dims) (hsize : q.IntSized) (hit : bd.bbx.Hits q) :
    ∃ view,
      ClientForSim.readBlock (l.network step varName reg fun _ _ _ => []) q bd = .ok view := by
  obtain ⟨n, hn⟩ := BBX.getElemNum_meet hsize hit
  rcases hr with hmem | ⟨hfile, hid⟩
  · exact ⟨_, l.network_read hmem hd hq hn⟩
  · have hwd : (bd.bbx.meet q).m_dims = q.m_dims := (BBX.dims_meet hd).trans hd
    have hcorners := BBX.ofIndex_corners (b := bd.bbx.meet q) (by rw [hwd]; exact hq.2)
    rw [ClientForSim.readBlock, ← hwd]
    refine ⟨_, bind_eq_ok.mpr ⟨_, hcorners, bind_eq_ok.mpr ⟨n, hn, bind_eq_ok.mpr ⟨[], ?_, rfl⟩⟩⟩⟩
    unfold ClientForSim.readPart
    show (if bd.m_backend = BACKEND.MEM then _
      else if bd.m_backend = BACKEND.FILE then _ else _) = _
    rw [hfile, if_neg (by decide), if_pos rfl]
    refine bind_eq_ok.mpr ⟨(bd.m_rawDataID, []), rfl, ?_⟩
    show (if bd.m_rawDataID = "" then _ else _) = _
    rw [if_neg hid]
    rfl

end Layout

end Gorilla
