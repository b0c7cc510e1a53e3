import Gorilla.Server.RemoteErase

/-!
# Deleting a step on every server

The client asks one server after the other. Each erases the blocks its own descriptors of the
step name, wherever they are, and drops the step from its map.
-/

namespace Gorilla

open HandLock

namespace MetaDataManager

variable {m m' : MetaDataManager} {step other : Nat} {rde : BlockDescriptor}

theorem not_describes (h : m.m_metaDataMap.lookup step = none) : ¬ m.Describes step rde := by
  rintro ⟨varName, dataType, held⟩
  obtain ⟨list, stored, _⟩ := mem_listOf.mp held
  rw [endpointsOf, blockOf, h] at stored
  cases stored

theorem blocksOf_absent (h : m.m_metaDataMap.lookup step = none) : m.blocksOf step = [] := by
  unfold blocksOf
  rw [h]
  rfl

/-- Every erase is answered. -/
theorem forceErase_run {eraseRawData : String → String → Except Stop Unit}
    (answered : ∀ address id, eraseRawData address id = .ok ())
    (free : m.m_metaDataMapMutex = false) :
    forceEraseMetaAndRawManually eraseRawData step m =
      .ok () { m.dropStep step with m_metaDataMapMutex := false } := by
  have erases : ∀ (rdes : List (String × String)) (m : MetaDataManager),
      (rdes.forM fun rde =>
        (liftM (eraseRawData rde.1 rde.2) : EStateM Stop MetaDataManager Unit)) m =
        .ok () m := by
    intro rdes m
    induction rdes with
    | nil => rfl
    | cons rde rdes ih => exact (bind_ok (lift_ok (answered rde.1 rde.2))).trans ih
  have dropped : (get >>= fun m : MetaDataManager => do
        (m.blocksOf step).forM fun rde => liftM (eraseRawData rde.1 rde.2)
        modify fun m => m.dropStep step : EStateM Stop MetaDataManager Unit) (mapMutex.put true m) =
      .ok () ((mapMutex.put true m).dropStep step) :=
    bind_ok (erases (m.blocksOf step) (mapMutex.put true m))
  refine Eq.trans (region_ok free dropped) ?_
  rfl

end MetaDataManager

namespace Servers

variable {s t u : Servers} {self a : String} {step : Nat} {done asked : List Endpoint}

/-- On one of the servers: the erases reach the others. -/
def forceEraseMetaAndRawManually (self : String) (step : Nat) : EStateM Stop Servers Unit :=
  Gorilla.forceEraseMetaAndRawManually (mapMutex self) (fun s => (s.server self).m_metaManager)
    (onMeta self) eraseRawData step

/-- The client asks the endpoints it knows, in their order. -/
def deleteMetaStep (m_serverToEndpoints : List Endpoint) (step : Nat) :
    EStateM Stop Servers Unit :=
  m_serverToEndpoints.forM fun endpoint => forceEraseMetaAndRawManually endpoint step

/-- What a server that was asked leaves behind. -/
def withoutStep (s : Servers) (self : String) (step : Nat) : Servers :=
  (((s.server self).m_metaManager.blocksOf step).foldl (fun s rde => s.eraseBlock rde.1 rde.2)
    s).onMeta self fun m => { m.dropStep step with m_metaDataMapMutex := false }

theorem mapMutex_put (b : Bool) : (mapMutex self).put b s =
    s.onMeta self fun m => { m with m_metaDataMapMutex := b } := rfl

/-- The server can take its lock, and reaches every block that its descriptors of the step
name. -/
structure Deletable (here : String) (step : Nat) (s : Servers) : Prop where
  free : (s.server here).m_metaManager.m_metaDataMapMutex = false
  reaches : ∀ rde ∈ (s.server here).m_metaManager.blocksOf step, s.Reaches rde

theorem blocksOf_locked (b : Bool) : (((mapMutex self).put b s).server self).m_metaManager.blocksOf
    step = (s.server self).m_metaManager.blocksOf step := by
  rw [mapMutex_put, server_onMeta, if_pos rfl]
  rfl

theorem reaches_locked (b : Bool) (rde : String × String) :
    ((mapMutex self).put b s).Reaches rde ↔ s.Reaches rde := by
  rw [mapMutex_put]
  exact reaches_onMeta _ rde

/-- The erases of the region do not depend on the lock around them. -/
theorem unlock_dropped : (mapMutex self).put false
    ((((s.server self).m_metaManager.blocksOf step).foldl (fun s rde => s.eraseBlock rde.1 rde.2)
      ((mapMutex self).put true s)).onMeta self fun m => m.dropStep step) =
    s.withoutStep self step := by
  rw [mapMutex_put, mapMutex_put, eraseAll_onMeta, onMeta_onMeta, onMeta_onMeta]
  rfl

theorem forceErase_eq_ok : forceEraseMetaAndRawManually self step s = .ok () t ↔
    s.Deletable self step ∧ t = s.withoutStep self step := by
  constructor
  · intro run
    obtain ⟨free, v, body, rfl⟩ := region_eq_ok.mp run
    rw [bind_ok (get_run _)] at body
    obtain ⟨_, w, erases, dropped⟩ := bind_run_eq_ok.mp body
    cases dropped
    obtain ⟨reaches, rfl⟩ := eraseAll_eq_ok.mp erases
    rw [blocksOf_locked] at reaches ⊢
    exact ⟨⟨free, fun rde mem => (reaches_locked true rde).mp (reaches rde mem)⟩, unlock_dropped⟩
  · rintro ⟨⟨free, reaches⟩, rfl⟩
    refine region_eq_ok.mpr ⟨free, _, ?_, unlock_dropped.symm⟩
    rw [bind_ok (get_run _), blocksOf_locked]
    refine bind_ok (a := ()) (eraseAll_eq_ok.mpr ⟨fun rde mem => ?_, rfl⟩)
    exact (reaches_locked true rde).mpr (reaches rde mem)

/-- The request as one step of the servers. -/
theorem step_deleteMetaStep {out : Outside}
    (answered : ∀ address id, out.eraseRawData address id = .ok ())
    (free : (s.server self).m_metaManager.m_metaDataMapMutex = false) :
    Servers.step (.deleteMetaStep self out step) s = .ok (s.withoutStep self step) := by
  have handled : Gorilla.deleteMetaStep out step ⟨s.server self, []⟩ =
      .ok () ⟨{ s.server self with m_metaManager :=
        { (s.server self).m_metaManager.dropStep step with m_metaDataMapMutex := false } }, [0]⟩ :=
    bind_ok (Handler.onMetaManager_ok (MetaDataManager.forceErase_run answered free))
  have served := serve_eq_ok.mpr ⟨_, handled, rfl⟩
  refine (congrArg (fun x => x >>= _) served).trans (congrArg Except.ok ?_)
  exact eraseAll_onMeta (fun m => { m.dropStep step with m_metaDataMapMutex := false }) _

/-- The step is gone from the servers that were asked, with the blocks it names there. -/
structure Dropped (done : List Endpoint) (step : Nat) (s t : Servers) : Prop where
  gone : ∀ a ∈ done, (t.server a).m_metaManager.m_metaDataMap.lookup step = none
  waiting : ∀ a, a ∉ done → (t.server a).m_metaManager = (s.server a).m_metaManager
  others : ∀ a other, other ≠ step → (t.server a).m_metaManager.m_metaDataMap.lookup other =
    (s.server a).m_metaManager.m_metaDataMap.lookup other
  erased : ∀ a, (s.server a).m_blockManager.Erased
    (fun id => ∃ d ∈ done, (a, id) ∈ (s.server d).m_metaManager.blocksOf step)
    (t.server a).m_blockManager

theorem Dropped.refl (step : Nat) (s : Servers) : Dropped [] step s s where
  gone a mem := nomatch mem
  waiting _ _ := rfl
  others _ _ _ := rfl
  erased a := (BlockManager.Erased.refl _).congr fun id => by simp

theorem withoutStep_meta (a : String) :
    ((s.withoutStep self step).server a).m_metaManager =
      if a = self then
        { (s.server a).m_metaManager.dropStep step with m_metaDataMapMutex := false }
      else (s.server a).m_metaManager := by
  rw [withoutStep, server_onMeta]
  split
  · rw [eraseAll_meta]
  · rw [eraseAll_meta]

theorem erased_withoutStep (a : String) :
    (s.server a).m_blockManager.Erased
      (fun id => (a, id) ∈ (s.server self).m_metaManager.blocksOf step)
      ((s.withoutStep self step).server a).m_blockManager := by
  rw [withoutStep, onMeta_blocks]
  exact erased_eraseAll _ a

/-- One more server is asked. -/
theorem Dropped.ask (h : Dropped done step s t) (self : Endpoint) :
    Dropped (self :: done) step s (t.withoutStep self step) where
  gone a mem := by
    rw [withoutStep_meta]
    split
    · exact AList.lookup_erase (a := step) (t.server a).m_metaManager.m_metaDataMap
    · rename_i other
      exact h.gone a ((List.mem_cons.mp mem).resolve_left other)
  waiting a absent := by
    rw [List.mem_cons, not_or] at absent
    rw [withoutStep_meta, if_neg absent.1, h.waiting a absent.2]
  others a other ne := by
    rw [withoutStep_meta]
    split
    · exact (AList.lookup_erase_ne ne).trans (h.others a other ne)
    · exact h.others a other ne
  erased a := by
    refine ((h.erased a).trans (erased_withoutStep a)).congr fun id => ?_
    by_cases before : self ∈ done
    · have nothing := MetaDataManager.blocksOf_absent (h.gone self before)
      rw [nothing]
      constructor
      · rintro (⟨d, mem, named⟩ | named)
        · exact ⟨d, List.mem_cons_of_mem self mem, named⟩
        · cases named
      · rintro ⟨d, mem, named⟩
        rcases List.mem_cons.mp mem with rfl | mem
        · exact .inl ⟨d, before, named⟩
        · exact .inl ⟨d, mem, named⟩
    · rw [h.waiting self before, List.exists_mem_cons_iff, or_comm]

theorem Dropped.run (h : Dropped done step s t) (run : deleteMetaStep asked step t = .ok () u) :
    Dropped (asked.reverse ++ done) step s u := by
  induction asked generalizing done t with
  | nil =>
    cases run
    exact h
  | cons self asked ih =>
    obtain ⟨_, v, first, rest⟩ := bind_run_eq_ok.mp run
    obtain ⟨_, rfl⟩ := forceErase_eq_ok.mp first
    rw [List.reverse_cons, List.append_assoc]
    exact ih (h.ask self) rest

/-- Blocks of an id are used by one step only. -/
def OneStepIds (asked : List Endpoint) (s : Servers) : Prop :=
  ∀ a ∈ asked, ∀ b ∈ asked, ∀ step other rde rde', (s.server a).m_metaManager.Describes step rde →
    (s.server b).m_metaManager.Describes other rde' → rde.m_rawDataID = rde'.m_rawDataID →
      step = other

/-- Nothing is left of the step, and everything else is. -/
structure StepDeleted (asked : List Endpoint) (step : Nat) (s t : Servers) : Prop where
  undescribed : ∀ a ∈ asked, ∀ rde, ¬ (t.server a).m_metaManager.Describes step rde
  erased : ∀ a ∈ asked, ∀ rde, (s.server a).m_metaManager.Describes step rde →
    (t.server rde.m_rawDataServerAddr).m_blockManager.block rde.m_rawDataID = none
  fileErased : ∀ a ∈ asked, ∀ rde, (s.server a).m_metaManager.Describes step rde →
    (s.server rde.m_rawDataServerAddr).m_blockManager.Keyed →
    (s.server rde.m_rawDataServerAddr).m_blockManager.IsFile rde.m_rawDataID →
      (t.server rde.m_rawDataServerAddr).m_blockManager.files.lookup rde.m_rawDataID = none
  described : ∀ a other, other ≠ step → (t.server a).m_metaManager.m_metaDataMap.lookup other =
    (s.server a).m_metaManager.m_metaDataMap.lookup other
  stored : ∀ a ∈ asked, ∀ other, other ≠ step → ∀ rde,
    (s.server a).m_metaManager.Describes other rde → ∀ b,
      (t.server b).m_blockManager.block rde.m_rawDataID =
        (s.server b).m_blockManager.block rde.m_rawDataID ∧
      ((s.server b).m_blockManager.Keyed →
        (t.server b).m_blockManager.files.lookup rde.m_rawDataID =
        (s.server b).m_blockManager.files.lookup rde.m_rawDataID)

theorem Dropped.deleted (h : Dropped done step s t) (unique : s.OneStepIds done) :
    StepDeleted done step s t where
  undescribed a mem rde := MetaDataManager.not_describes (h.gone a mem)
  erased a mem rde held :=
    (h.erased _).gone _ ⟨a, mem, MetaDataManager.mem_blocksOf.mpr ⟨rde, held, rfl⟩⟩
  fileErased a mem rde held keyed file :=
    (h.erased _).file_gone keyed _ ⟨a, mem, MetaDataManager.mem_blocksOf.mpr ⟨rde, held, rfl⟩⟩ file
  described := h.others
  stored a mem other ne rde held b := by
    have unnamed : ¬ ∃ d ∈ done,
        (b, rde.m_rawDataID) ∈ (s.server d).m_metaManager.blocksOf step := by
      rintro ⟨d, asked, named⟩
      obtain ⟨rde', held', same⟩ := MetaDataManager.mem_blocksOf.mp named
      exact ne (unique a mem d asked other step rde rde' held held' (congrArg Prod.snd same))
    exact ⟨(h.erased b).kept _ unnamed, fun keyed =>
      (h.erased b).file_kept keyed _ fun both => unnamed both.1⟩

theorem reaches_withoutStep (h : s.Deletable self step) (rde : String × String) :
    (s.withoutStep self step).Reaches rde ↔ s.Reaches rde :=
  (reaches_onMeta _ rde).trans (reaches_eraseAll h.reaches rde)

/-- A server that was asked decides nothing about the others. -/
theorem deletable_withoutStep (h : s.Deletable self step) (a : String) :
    (s.withoutStep self step).Deletable a step ↔ s.Deletable a step := by
  by_cases own : a = self
  · subst own
    refine iff_of_true ⟨?_, fun rde mem => ?_⟩ h
    · rw [withoutStep_meta, if_pos rfl]
    · rw [withoutStep_meta, if_pos rfl] at mem
      have nothing : ({ (s.server a).m_metaManager.dropStep step with
          m_metaDataMapMutex := false } : MetaDataManager).blocksOf step = [] :=
        MetaDataManager.blocksOf_absent (AList.lookup_erase ..)
      rw [nothing] at mem
      cases mem
  · have kept : ((s.withoutStep self step).server a).m_metaManager =
        (s.server a).m_metaManager := by
      rw [withoutStep_meta, if_neg own]
    constructor
    · rintro ⟨free, reaches⟩
      rw [kept] at free reaches
      exact ⟨free, fun rde mem => (reaches_withoutStep h rde).mp (reaches rde mem)⟩
    · rintro ⟨free, reaches⟩
      rw [← kept] at free reaches
      exact ⟨free, fun rde mem => (reaches_withoutStep h rde).mpr (reaches rde mem)⟩

/-- The request to every server returns exactly when each of them can delete the step. -/
theorem deleteMetaStep_returns :
    (∃ t, deleteMetaStep asked step s = .ok () t) ↔ ∀ a ∈ asked, s.Deletable a step := by
  induction asked generalizing s with
  | nil => exact iff_of_true ⟨s, rfl⟩ fun _ mem => nomatch mem
  | cons self asked ih =>
    constructor
    · rintro ⟨t, run⟩
      obtain ⟨_, v, first, rest⟩ := bind_run_eq_ok.mp run
      obtain ⟨own, rfl⟩ := forceErase_eq_ok.mp first
      refine List.forall_mem_cons.mpr ⟨own, fun a mem => ?_⟩
      exact (deletable_withoutStep own a).mp (ih.mp ⟨t, rest⟩ a mem)
    · intro all
      obtain ⟨own, others⟩ := List.forall_mem_cons.mp all
      obtain ⟨t, rest⟩ := ih.mpr fun a mem => (deletable_withoutStep own a).mpr (others a mem)
      exact ⟨t, bind_run_eq_ok.mpr ⟨(), _, forceErase_eq_ok.mpr ⟨own, rfl⟩, rest⟩⟩

theorem stepDeleted_of_run (unique : s.OneStepIds asked)
    (run : deleteMetaStep asked step s = .ok () t) : StepDeleted asked step s t := by
  have dropped := (Dropped.refl step s).run run
  rw [List.append_nil] at dropped
  have same : ∀ a, a ∈ asked.reverse ↔ a ∈ asked := fun a => List.mem_reverse
  have unique' : s.OneStepIds asked.reverse := by simpa only [OneStepIds, same] using unique
  obtain ⟨undescribed, erased, fileErased, described, stored⟩ := dropped.deleted unique'
  simp only [same] at undescribed erased fileErased stored
  exact ⟨undescribed, erased, fileErased, described, stored⟩

/-- A step is deleted on every server that is asked, in whatever order and however often, and
nothing else is, exactly when each of the servers can delete it. -/
theorem deleteMetaStep_deletes_iff (unique : s.OneStepIds asked) :
    (∃ t, deleteMetaStep asked step s = .ok () t ∧ StepDeleted asked step s t) ↔
      ∀ a ∈ asked, s.Deletable a step := by
  rw [← deleteMetaStep_returns]
  constructor
  · rintro ⟨t, run, _⟩
    exact ⟨t, run⟩
  · rintro ⟨t, run⟩
    exact ⟨t, run, stepDeleted_of_run unique run⟩

/-! ## A block described on two servers -/

def blockOn (m_rawDataID : String) : MetaDataBlock :=
  MetaDataBlock.insertRDEP ∅ DATATYPE_CARGRID
    { m_rawDataServerAddr := "server2", m_rawDataID := m_rawDataID }

def twoSteps : MetaDataManager :=
  (({} : MetaDataManager).putBlockOf 2 "density" (blockOn "density_2_0")).putBlockOf 1 "density"
    (blockOn "density_1_0")

/-- Every server describes both blocks. -/
def replicas : Servers where
  server _ :=
    { m_metaManager := twoSteps
      m_blockManager :=
        { DataBlockMap := ((∅ : AList fun _ : String => DataBlock).insert "density_1_0"
            { m_blockid := "density_1_0", storage := .RawMemObj (some [some 1]) }).insert
              "density_2_0"
            { m_blockid := "density_2_0", storage := .RawMemObj (some [some 2]) } } }

theorem twoSteps_describes {rde : BlockDescriptor} (h : twoSteps.Describes step rde) :
    (step = 1 ∧ rde.m_rawDataID = "density_1_0") ∨
      (step = 2 ∧ rde.m_rawDataID = "density_2_0") := by
  have named := MetaDataManager.mem_blocksOf.mpr ⟨rde, h, rfl⟩
  by_cases one : step = 1
  · subst one
    have blocks : twoSteps.blocksOf 1 = [("server2", "density_1_0")] := by decide
    rw [blocks, List.mem_singleton] at named
    exact .inl ⟨rfl, congrArg Prod.snd named⟩
  · by_cases two : step = 2
    · subst two
      have blocks : twoSteps.blocksOf 2 = [("server2", "density_2_0")] := by decide
      rw [blocks, List.mem_singleton] at named
      exact .inr ⟨rfl, congrArg Prod.snd named⟩
    · have absent : twoSteps.m_metaDataMap.lookup step = none :=
        (AList.lookup_insert_ne one).trans (AList.lookup_insert_ne two)
      exact absurd h (MetaDataManager.not_describes absent)

theorem replicas_oneStepIds (asked : List Endpoint) : replicas.OneStepIds asked := by
  intro _ _ _ _ step other rde rde' held held' same
  rcases twoSteps_describes held with ⟨rfl, id⟩ | ⟨rfl, id⟩ <;>
    rcases twoSteps_describes held' with ⟨rfl, id'⟩ | ⟨rfl, id'⟩
  · rfl
  · rw [id, id'] at same
    exact absurd same (by decide)
  · rw [id, id'] at same
    exact absurd same (by decide)
  · rfl

theorem replicas_deleted :
    ∃ t, deleteMetaStep ["server0", "server1", "server0"] 1 replicas = .ok () t ∧
    StepDeleted ["server0", "server1", "server0"] 1 replicas t := by
  refine (@deleteMetaStep_deletes_iff replicas 1 ["server0", "server1", "server0"]
    (replicas_oneStepIds _)).mpr fun a _ => ⟨rfl, fun rde mem => ?_⟩
  have blocks : twoSteps.blocksOf 1 = [("server2", "density_1_0")] := by decide
  obtain rfl := List.mem_singleton.mp (blocks ▸ mem)
  exact ⟨rfl, BlockManager.erasable_of_memory (by decide)⟩

/-! ## A block in a file -/

/-- The block was written by its client: its descriptor names no server. -/
def oneFile : MetaDataManager :=
  ({} : MetaDataManager).putBlockOf 1 "density" (MetaDataBlock.insertRDEP ∅ DATATYPE_CARGRID
    { m_rawDataID := "density_1_0", m_backend := BACKEND.FILE })

def fileBacked : Servers where
  server _ := { m_metaManager := oneFile }

/-- The deletion stops at the descriptor, with the step still there and the map locked. -/
theorem fileBacked_stays : fileBacked.OneStepIds ["server0"] ∧
    ∃ e t, deleteMetaStep ["server0"] 1 fileBacked = .error e t ∧
      (t.server "server0").m_metaManager.blocksOf 1 = [("", "density_1_0")] ∧
      (t.server "server0").m_metaManager.m_metaDataMapMutex = true := by
  have only : ∀ step rde, oneFile.Describes step rde → step = 1 := by
    intro step rde held
    by_contra other
    have absent : oneFile.m_metaDataMap.lookup step = none := AList.lookup_insert_ne other
    exact MetaDataManager.not_describes absent held
  constructor
  · intro _ _ _ _ step other rde rde' held held' _
    exact (only step rde held).trans (only other rde' held').symm
  · refine ⟨_, _, rfl, ?_, ?_⟩
    · decide
    · decide

end Servers

end Gorilla
