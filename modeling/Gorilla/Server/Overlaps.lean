import Gorilla.Server.Answers
import Gorilla.Server.Registration
import Gorilla.Utils.Points

/-!
# The registered blocks that overlap a query

The readers of a metadata map see its history: one descriptor for each registered block that
shares a point with the query.
-/

namespace Gorilla

open HandLock

/-- A call of `updateMetaData`. -/
structure Registration where
  step : Nat
  varName : String
  rde : BlockDescriptor
  deriving DecidableEq, Repr

namespace MetaDataManager

variable {m m' : MetaDataManager} {regs : List Registration} {step : Nat}
  {varName dataType : String}

/-- The calls, one after the other. -/
def updateAll : List Registration → EStateM Stop MetaDataManager Unit
  | [] => return
  | r :: regs => do
    updateMetaData r.step r.varName r.rde
    updateAll regs

/-- The blocks registered for a step, a variable and a data type, in the order of the calls. -/
def blocksFor (regs : List Registration) (step : Nat) (varName dataType : String) :
    List BlockDescriptor :=
  (regs.filter fun r => r.step = step ∧ r.varName = varName ∧ r.rde.m_dataType = dataType).map
    (·.rde)

/-- Some block of the step and the variable was registered. -/
def Known (regs : List Registration) (step : Nat) (varName : String) : Prop :=
  ∃ r ∈ regs, r.step = step ∧ r.varName = varName

/-- The map holds what the calls registered. -/
structure Holds (m : MetaDataManager) (regs : List Registration) : Prop where
  free : m.m_metaDataMapMutex = false
  known : ∀ step varName, (m.blockOf step varName).isSome ↔ Known regs step varName
  blocks : ∀ step varName dataType, m.endpointsOf step varName dataType =
    if blocksFor regs step varName dataType = [] then none
    else some (blocksFor regs step varName dataType)

theorem blockOf_store (rde : BlockDescriptor) (step' : Nat) (varName' : String) :
    ((m.store step varName rde).blockOf step' varName').isSome =
      if step' = step ∧ varName' = varName then true else (m.blockOf step' varName').isSome := by
  rw [store, blockOf_putBlockOf]
  split <;> rfl

theorem blocksFor_append (regs : List Registration) (r : Registration) (step : Nat)
    (varName dataType : String) :
    blocksFor (regs ++ [r]) step varName dataType = blocksFor regs step varName dataType ++
      if step = r.step ∧ varName = r.varName ∧ dataType = r.rde.m_dataType then [r.rde]
      else [] := by
  rw [blocksFor, List.filter_append, List.map_append, List.filter_singleton, blocksFor]
  by_cases own : step = r.step ∧ varName = r.varName ∧ dataType = r.rde.m_dataType
  · obtain ⟨rfl, rfl, rfl⟩ := own
    simp
  · have other : ¬ (r.step = step ∧ r.varName = varName ∧ r.rde.m_dataType = dataType) :=
      fun h => own ⟨h.1.symm, h.2.1.symm, h.2.2.symm⟩
    simp [own, other]

theorem Holds.store (h : m.Holds regs) (r : Registration) :
    (m.store r.step r.varName r.rde).Holds (regs ++ [r]) where
  free := h.free
  known step varName := by
    rw [blockOf_store]
    by_cases own : step = r.step ∧ varName = r.varName
    · rw [if_pos own]
      exact iff_of_true rfl ⟨r, by simp, own.1.symm, own.2.symm⟩
    · rw [if_neg own, h.known]
      simp only [Known, List.mem_append, List.mem_singleton, or_and_right, exists_or,
        exists_eq_left]
      exact (or_iff_left fun same => own ⟨same.1.symm, same.2.symm⟩).symm
  blocks step varName dataType := by
    rw [endpointsOf_store, blocksFor_append]
    by_cases own : step = r.step ∧ varName = r.varName ∧ dataType = r.rde.m_dataType
    · obtain ⟨rfl, rfl, rfl⟩ := own
      have last : blocksFor regs r.step r.varName r.rde.m_dataType ++ [r.rde] ≠ [] := by simp
      simp only [and_self, if_true, if_neg last, h.blocks]
      split
      · rename_i none
        rw [none]
        rfl
      · rfl
    · rw [if_neg own, if_neg own, List.append_nil]
      exact h.blocks step varName dataType

theorem Holds.updateAll {past : List Registration} (h : m.Holds past) (regs : List Registration) :
    ∃ m', MetaDataManager.updateAll regs m = .ok () m' ∧ m'.Holds (past ++ regs) := by
  induction regs generalizing m past with
  | nil => exact ⟨m, rfl, by rwa [List.append_nil]⟩
  | cons r regs ih =>
    obtain ⟨m', run, holds⟩ := ih (h.store r)
    refine ⟨m', (bind_ok (updateMetaData_run h.free r.rde)).trans run, ?_⟩
    rwa [List.append_assoc, List.singleton_append] at holds

theorem holds_empty (empty : m.m_metaDataMap = ∅) (free : m.m_metaDataMapMutex = false) :
    m.Holds [] where
  free := free
  known step varName := by simp [blockOf, empty, Known]
  blocks step varName dataType := by simp [endpointsOf, blockOf, empty, blocksFor]

/-- What the calls leave in an empty map. -/
theorem holds_of_updateAll {m₀ : MetaDataManager} (empty : m₀.m_metaDataMap = ∅)
    (free : m₀.m_metaDataMapMutex = false) (run : updateAll regs m₀ = .ok () m) : m.Holds regs := by
  obtain ⟨m', run', holds⟩ := (holds_empty empty free).updateAll regs
  cases run.symm.trans run'
  rwa [List.nil_append] at holds

end MetaDataManager

/-- Two boxes with cells overlap exactly when they share a point. -/
theorem BBX.WellFormed.hits_iff {a b : BBX} (ha : a.WellFormed) (hb : b.WellFormed)
    (hd : a.m_dims = b.m_dims) : a.Hits b ↔ ∃ p, a.Contains p ∧ b.Contains p := by
  constructor
  · intro hit
    obtain ⟨p, hp⟩ := (hit.wellFormed_meet ha hb).exists_point
    exact ⟨p, (contains_meet hd).mp hp⟩
  · rintro ⟨p, hap, hbp⟩
    exact hits_of_contains hap hbp

/-- A descriptor that names a registered block, with the part of its box that the query has. -/
structure BlockDescriptor.Describes (d bd : BlockDescriptor) (q : BBX) : Prop where
  serverAddr : d.m_rawDataServerAddr = bd.m_rawDataServerAddr
  rawDataID : d.m_rawDataID = bd.m_rawDataID
  dataType : d.m_dataType = bd.m_dataType
  backend : d.m_backend = bd.m_backend
  dims : d.m_dims = bd.m_dims
  wellFormed : d.bbx.WellFormed
  points : ∀ p, d.bbx.Contains p ↔ bd.bbx.Contains p ∧ q.Contains p
  unusedY : d.m_dims < 2 → d.m_indexlb.y = 0 ∧ d.m_indexub.y = 0
  unusedZ : d.m_dims < 3 → d.m_indexlb.z = 0 ∧ d.m_indexub.z = 0

namespace MetaDataManager

variable {m : MetaDataManager} {regs : List Registration} {step : Nat}
  {varName dataType : String} {q : BBX}

theorem bbx_overlapDescriptor {bd : BlockDescriptor} {w : BBX} (h3 : w.m_dims ≤ 3)
    (hd : bd.m_dims = w.m_dims) : (overlapDescriptor dataType bd w).bbx = ⟨0, w.BoundList⟩ := by
  have corners := BBX.ofIndex_corners h3
  rw [← hd] at corners
  have read : BBX.ofIndex (overlapDescriptor dataType bd w).m_dims
      (overlapDescriptor dataType bd w).m_indexlb (overlapDescriptor dataType bd w).m_indexub =
        .ok ⟨0, w.BoundList⟩ := corners
  exact (BBX.ofIndex_eq_ok.mp read).2.symm

/-- The axes a box lacks are at zero. -/
theorem unused_corners {w : BBX} :
    (w.m_dims < 2 → w.getIndexlb.y = 0 ∧ w.getIndexub.y = 0) ∧
      (w.m_dims < 3 → w.getIndexlb.z = 0 ∧ w.getIndexub.z = 0) := by
  obtain ⟨_, bs⟩ := w
  simp only [BBX.m_dims, BBX.getIndexlb, BBX.getIndexub]
  rcases bs with _ | ⟨b0, _ | ⟨b1, _ | ⟨b2, bs⟩⟩⟩
  · simp [Array3.ofList]
  · simp [Array3.ofList]
  · simp [Array3.ofList]
  · simp

theorem describes_overlap {bd : BlockDescriptor} (hq : q.Dims) (hwf : q.WellFormed)
    (hd : bd.m_dims = q.m_dims) (hb : bd.bbx.WellFormed) (hit : bd.bbx.Hits q) :
    (overlapDescriptor bd.m_dataType bd (bd.bbx.meet q)).Describes bd q := by
  have small : bd.m_dims ≤ 3 := by
    rw [hd]
    exact hq.2
  have hbd : bd.bbx.m_dims = bd.m_dims := BlockDescriptor.dims_bbx small
  have hw : (bd.bbx.meet q).m_dims = bd.m_dims := (BBX.dims_meet hit.dims).trans hbd
  have box : (overlapDescriptor bd.m_dataType bd (bd.bbx.meet q)).bbx = bd.bbx.meet q :=
    bbx_overlapDescriptor (by rwa [hw]) hw.symm
  obtain ⟨unusedY, unusedZ⟩ := unused_corners (w := bd.bbx.meet q)
  rw [hw] at unusedY unusedZ
  refine ⟨rfl, rfl, rfl, rfl, rfl, ?_, fun p => ?_, unusedY, unusedZ⟩
  · rw [box]
    exact hit.wellFormed_meet hb hwf
  · rw [box]
    exact BBX.contains_meet hit.dims

open Classical in
/-- The registered blocks that share a point with the query. -/
noncomputable def sharing (regs : List Registration) (step : Nat) (varName dataType : String)
    (q : BBX) : List BlockDescriptor :=
  (blocksFor regs step varName dataType).filter fun bd => ∃ p, bd.bbx.Contains p ∧ q.Contains p

theorem Holds.rawEndpoints_unknown (h : m.Holds regs) (unknown : ¬ Known regs step varName)
    (dataType : String) : m.rawEndpoints step varName dataType = .ok [] := by
  have none : m.blockOf step varName = none := by
    rw [← Option.not_isSome_iff_eq_none, h.known]
    exact unknown
  rw [rawEndpoints, none]

theorem Holds.rawEndpoints_untyped (h : m.Holds regs) (known : Known regs step varName)
    (untyped : blocksFor regs step varName dataType = []) :
    m.rawEndpoints step varName dataType = .error (.runtime_error "data type does not exist") := by
  obtain ⟨b, hb⟩ := Option.isSome_iff_exists.mp ((h.known step varName).mpr known)
  have none := h.blocks step varName dataType
  rw [if_pos untyped, endpointsOf, hb, Option.bind_some] at none
  simp only [rawEndpoints, hb, none]

theorem Holds.rawEndpoints_typed (h : m.Holds regs)
    (typed : blocksFor regs step varName dataType ≠ []) :
    m.rawEndpoints step varName dataType = .ok (blocksFor regs step varName dataType) := by
  refine rawEndpoints_eq ?_
  rw [h.blocks, if_neg typed]

theorem dataType_of_mem {bd : BlockDescriptor} (h : bd ∈ blocksFor regs step varName dataType) :
    bd.m_dataType = dataType := by
  obtain ⟨r, hr, rfl⟩ := List.mem_map.mp h
  have := (List.mem_filter.mp hr).2
  simp only [decide_eq_true_eq] at this
  exact this.2.2

/-- The overlaps are exact on the blocks of the query's dimension. -/
theorem overlapEndpoints_sharing (hq : q.Dims) (hwf : q.WellFormed)
    (boxes : ∀ bd ∈ blocksFor regs step varName dataType,
      bd.m_dims = q.m_dims ∧ bd.bbx.WellFormed) :
    ∃ l, overlapEndpoints q dataType (blocksFor regs step varName dataType) = .ok l ∧
      List.Forall₂ (fun d bd => d.Describes bd q) l (sharing regs step varName dataType q) := by
  have same : ∀ bd ∈ blocksFor regs step varName dataType, bd.bbx.m_dims = q.m_dims := by
    intro bd mem
    obtain ⟨hd, _⟩ := boxes bd mem
    rw [BlockDescriptor.dims_bbx (by rw [hd]; exact hq.2), hd]
  refine ⟨_, overlapEndpoints_eq_ok.mpr ⟨fun bd mem => ?_, rfl⟩, ?_⟩
  · have hd := same bd mem
    refine ⟨by rw [(boxes bd mem).1]; exact hq.2, hd, ?_⟩
    rw [BBX.Dims, hd]
    exact hq
  · have hits : (blocksFor regs step varName dataType).filter (fun bd => bd.bbx.Hits q) =
        sharing regs step varName dataType q := by
      refine List.filter_congr fun bd mem => ?_
      rw [decide_eq_decide]
      exact (boxes bd mem).2.hits_iff hwf (same bd mem)
    rw [hits, List.forall₂_map_left_iff, List.forall₂_same]
    intro bd mem
    have stored := (List.mem_filter.mp mem).1
    rw [← hits] at mem
    have hit : bd.bbx.Hits q := of_decide_eq_true (List.mem_filter.mp mem).2
    rw [← dataType_of_mem stored]
    exact describes_overlap hq hwf (boxes bd stored).1 (boxes bd stored).2 hit

/-- What a reader of the map is given after any sequence of registrations, the map left as it is. -/
theorem getOverlapEndpoints_exact {m₀ : MetaDataManager} (empty : m₀.m_metaDataMap = ∅)
    (free : m₀.m_metaDataMapMutex = false) (run : updateAll regs m₀ = .ok () m) (step : Nat)
    (varName dataType : String) (hq : q.Dims) (hwf : q.WellFormed)
    (boxes : ∀ bd ∈ blocksFor regs step varName dataType,
      bd.m_dims = q.m_dims ∧ bd.bbx.WellFormed) :
    (blocksFor regs step varName dataType ≠ [] →
      ∃ l, getOverlapEndpoints step varName q dataType m = .ok l m ∧
        List.Forall₂ (fun d bd => d.Describes bd q) l (sharing regs step varName dataType q)) ∧
    (¬ Known regs step varName → getOverlapEndpoints step varName q dataType m = .ok [] m) ∧
    (Known regs step varName → blocksFor regs step varName dataType = [] →
      getOverlapEndpoints step varName q dataType m =
        .error (.runtime_error "data type does not exist") m) := by
  have holds := holds_of_updateAll empty free run
  have answer := getOverlapEndpoints_eq holds.free step varName dataType q
  refine ⟨fun typed => ?_, fun unknown => ?_, fun known untyped => ?_⟩
  · obtain ⟨l, hl, described⟩ := overlapEndpoints_sharing hq hwf boxes
    rw [holds.rawEndpoints_typed typed] at answer
    refine ⟨l, answer.trans ?_, described⟩
    show runIn (overlapEndpoints q dataType _) m = _
    rw [hl]
    rfl
  · rw [holds.rawEndpoints_unknown unknown] at answer
    exact answer
  · rw [holds.rawEndpoints_untyped known untyped] at answer
    exact answer

/-- A block of a plane. -/
def planeBlock (rawDataID : String) (indexlb indexub : Array3 Int) : Registration where
  step := 0
  varName := "testVarName"
  rde :=
    { m_rawDataID := rawDataID
      m_dims := 2
      m_indexlb := indexlb
      m_indexub := indexub }

/-- Four quarters of a square, registered one after another. -/
def quarters : List Registration :=
  [planeBlock "testDataID1" ⟨0, 0, 0⟩ ⟨5, 5, 0⟩, planeBlock "testDataID2" ⟨0, 6, 0⟩ ⟨5, 11, 0⟩,
    planeBlock "testDataID3" ⟨6, 6, 0⟩ ⟨11, 11, 0⟩, planeBlock "testDataID4" ⟨6, 0, 0⟩ ⟨11, 5, 0⟩]

theorem quarters_overlap : ∃ m l, updateAll quarters {} = .ok () m ∧
    getOverlapEndpoints 0 "testVarName" ⟨0, [⟨0, 3⟩, ⟨0, 3⟩]⟩ DATATYPE_CARGRID m = .ok l m ∧
      List.Forall₂ (fun d bd => d.Describes bd ⟨0, [⟨0, 3⟩, ⟨0, 3⟩]⟩) l
        (sharing quarters 0 "testVarName" DATATYPE_CARGRID ⟨0, [⟨0, 3⟩, ⟨0, 3⟩]⟩) := by
  obtain ⟨m, run⟩ : ∃ m, updateAll quarters {} = .ok () m := ⟨_, rfl⟩
  obtain ⟨l, hl, described⟩ := (getOverlapEndpoints_exact rfl rfl run 0 "testVarName"
    DATATYPE_CARGRID (q := ⟨0, [⟨0, 3⟩, ⟨0, 3⟩]⟩) ⟨by decide, by decide⟩ (by decide)
    (by decide)).1 (by decide)
  exact ⟨m, l, run, hl, described⟩

end MetaDataManager

end Gorilla
