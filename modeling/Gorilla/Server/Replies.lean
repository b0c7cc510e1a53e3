import Gorilla.Server.PutPhases
import Gorilla.Server.MetaHandlers

/-!
# When the work of a handler returns

Most handlers reply once their work has returned, so their replies are counted by the
condition under which it does.
-/

namespace Gorilla

open HandLock Outcome

variable {out : Outside}

namespace UniServer

variable {s : UniServer} {clientID : Int} {size : UInt64} {bs : BlockSummary}

theorem cacheClientAddr_error {addr : String} {m : ClientForStaging} {e : Stop}
    (h : m.cacheClientAddr addr = .error e) : IsUndefined e := by
  unfold ClientForStaging.cacheClientAddr at h
  cases hl : m.m_clientAddrToID.lookup addr with
  | some id =>
    rw [hl] at h
    cases h
  | none =>
    simp only [hl, int] at h
    split at h
    · cases h
    · cases h
      trivial

theorem dataContainer_none (h : s.containers.contents clientID = none) :
    dataContainer clientID s = .error (.undefined "read of a null container") s := by
  simp only [dataContainer, bind, EStateM.bind, get_run, h]
  rfl

theorem charge_returnsIff (own : bs.getArraySize bs.m_blockid = .ok size) :
    ReturnsIff IsUndefined (do assign (← bs.getArraySize bs.m_blockid)) s True :=
  .after (lift_ok own) (.of_ok rfl)

theorem storeGrid_returnsIff (own : bs.getArraySize bs.m_blockid = .ok size) :
    ReturnsIff IsUndefined (storeGrid clientID bs) s
      (s.m_bulkMapmutex = false ∧ s.m_blockManager.Takes bs BACKEND.MEM size) := by
  have body : ∀ t, ReturnsIff IsUndefined (do
      let contents ← dataContainer clientID
      onBlockManager (BlockManager.putBlock bs BACKEND.MEM (.bytes contents))) t
      (t.m_blockManager.Takes bs BACKEND.MEM size) := by
    intro t
    cases hc : t.containers.contents clientID with
    | none => exact .of_bad (bind_error (dataContainer_none hc)) trivial
    | some contents =>
      exact .after (dataContainer_eq_ok.mpr ⟨hc, rfl⟩) (BlockManager.putBlock_returnsIff own).zoom
  exact ((body _).region.bind fun _ t _ => charge_returnsIff own).congr (iff_of_eq (and_true _))

theorem storeVtk_returnsIff {contents : Buffer}
    (own : bs.getArraySize bs.m_blockid = .ok size)
    (hc : s.containers.contents clientID = some contents) (hlen : contents.length = size.toNat) :
    ReturnsIff IsUndefined (storeVtk out clientID size bs) s
      (s.m_bulkMapmutex = false ∧ (∃ recvbj, out.UnMarshalDataObject contents = .ok recvbj) ∧
        s.m_blockManager.Takes bs BACKEND.MEMVTKPTR size) := by
  have body : ∀ flag, (do
      let contents ← dataContainer clientID
      (Buffer.malloc size).memcpy 0 contents 0 size.toNat : EStateM Stop UniServer Buffer)
        (bulkMapmutex.put flag s) = .ok contents (bulkMapmutex.put flag s) := by
    intro flag
    have hread : dataContainer clientID (bulkMapmutex.put flag s) =
        .ok contents (bulkMapmutex.put flag s) := dataContainer_eq_ok.mpr ⟨hc, rfl⟩
    rw [bind_ok hread]
    have hcopy := (Buffer.copy_eq_ok (rfl : size.toNat = size.toNat)).mpr ⟨hlen.ge, rfl⟩
    rw [← hlen, List.take_length] at hcopy
    rw [← hlen]
    exact lift_ok hcopy
  cases free : s.m_bulkMapmutex with
  | true =>
    refine (ReturnsIff.of_error (bind_error (region_busy free))).congr ?_
    simp
  | false =>
    refine .after (region_ok free (body true)) ?_
    rw [Mutex.put_false_put free]
    have unmarshalled : ReturnsIff IsUndefined
        (liftM (raise (out.UnMarshalDataObject contents)) : EStateM Stop UniServer Buffer) s
        (∃ recvbj, out.UnMarshalDataObject contents = .ok recvbj) :=
      returnsIff_lift.congr (by simp only [raise_eq_ok])
    have taken : ∀ recvbj, ReturnsIff IsUndefined (do
        onBlockManager
          (BlockManager.putBlock bs BACKEND.MEMVTKPTR (.smartPointer recvbj))
        assign (← bs.getArraySize bs.m_blockid)) s
        (s.m_blockManager.Takes bs BACKEND.MEMVTKPTR size) := fun recvbj =>
      ((BlockManager.putBlock_returnsIff own).zoom.bind fun _ t _ =>
        charge_returnsIff own).congr (iff_of_eq (and_true _))
    have rest : ∀ recvbj t, (liftM (raise (out.UnMarshalDataObject contents)) :
        EStateM Stop UniServer Buffer) s = .ok recvbj t → ReturnsIff IsUndefined (do
          onBlockManager
            (BlockManager.putBlock bs BACKEND.MEMVTKPTR (.smartPointer recvbj))
          assign (← bs.getArraySize bs.m_blockid)) t
          (s.m_blockManager.Takes bs BACKEND.MEMVTKPTR size) := by
      intro recvbj t ht
      rw [(lift_eq_ok.mp ht).2]
      exact taken recvbj
    exact (unmarshalled.bind rest).congr (by simp)

/-- What the container of a client holds before the bytes of a put arrive. -/
def stale (s : UniServer) (clientID : Int) (size : UInt64) : Buffer :=
  ((s.stage clientID size).containers.contents clientID).getD []

/-- The put goes through: its memory is read, unmarshalled where it has to be, and taken by the
block manager. -/
def Puts (s : UniServer) (out : Outside) (clientID : Int) (bs : BlockSummary) : Prop :=
  bs.m_backend = BACKEND.MEM ∧ s.m_bulkMapmutex = false ∧
    ∃ size, bs.getArraySize bs.m_blockid = .ok size ∧ ∃ sent, out.exposed size = .ok sent ∧
      if bs.m_dataType = DATATYPE_VTKPTR then
        (∃ recvbj, out.UnMarshalDataObject (Containers.received (s.stale clientID size) sent) =
          .ok recvbj) ∧ s.m_blockManager.Takes bs BACKEND.MEMVTKPTR size
      else s.m_blockManager.Takes bs BACKEND.MEM size

theorem pull_error {b : Bulk} {sent : Buffer} {e : Stop} {k : Containers}
    (h : k.pull b sent = .error e) : IsUndefined e := by
  unfold Containers.pull at h
  split at h
  · cases h
    trivial
  · split at h
    · cases h
    · cases h
      trivial

/-- The bytes of the origin are all that can be missing. -/
theorem pull_run {b : Bulk} {sent : Buffer} (hx : out.exposed b.size = .ok sent) :
    (∃ k, s.containers.pull b sent = .ok k ∧ pull out b s = .ok () { s with containers := k }) ∨
      ∃ e t, pull out b s = .error e t ∧ IsUndefined e := by
  cases hp : s.containers.pull b sent with
  | ok k => exact .inl ⟨k, rfl, pull_eq_ok.mpr ⟨sent, k, hx, hp, rfl⟩⟩
  | error e =>
    refine .inr ⟨e, s, ?_, pull_error hp⟩
    unfold pull
    rw [bind_ok (lift_ok (raise_eq_ok.mpr hx)), bind_ok (get_run s)]
    exact bind_error (lift_error hp)

theorem pull_no_bytes {b : Bulk} {what : String} (hx : out.exposed b.size = .error what) :
    pull out b s = .error (.runtime_error what) s := by
  refine bind_error (lift_error ?_)
  rw [hx]
  rfl

theorem stage_containers {t : UniServer} (h : t.containers = s.containers) :
    (t.stage clientID size).containers = (s.stage clientID size).containers := by
  unfold stage
  rw [h]
  split
  · rfl
  · split
    · rfl
    · exact h

/-- The last phase of a put, on a server whose container holds its bytes. -/
theorem store_returnsIff {contents : Buffer} (own : bs.getArraySize bs.m_blockid = .ok size)
    (hc : s.containers.contents clientID = some contents) (hlen : contents.length = size.toNat) :
    ReturnsIff IsUndefined
      (if bs.m_dataType = DATATYPE_VTKPTR then storeVtk out clientID size bs
        else storeGrid clientID bs) s
      (s.m_bulkMapmutex = false ∧
        if bs.m_dataType = DATATYPE_VTKPTR then
          (∃ recvbj, out.UnMarshalDataObject contents = .ok recvbj) ∧
            s.m_blockManager.Takes bs BACKEND.MEMVTKPTR size
        else s.m_blockManager.Takes bs BACKEND.MEM size) := by
  split
  · exact storeVtk_returnsIff own hc hlen
  · exact storeGrid_returnsIff own

theorem stage_mutex : (s.stage clientID size).m_bulkMapmutex = s.m_bulkMapmutex := by
  rw [stage_eq]

theorem stage_blockManager : (s.stage clientID size).m_blockManager = s.m_blockManager := by
  rw [stage_eq]

theorem elem_eq_ok (own : bs.getArraySize bs.m_blockid = .ok size) :
    ∃ as : ArraySummary, bs.getArrayElemSize bs.m_blockid = .ok as.m_elemSize ∧
      bs.getArrayElemNum bs.m_blockid = .ok as.m_elemNum := by
  obtain ⟨sized, as, hf, _⟩ := BlockSummary.getArraySize_eq_ok.mp own
  have hread : ∀ what missing, bs.arrayOf what missing bs.m_blockid = .ok as := fun what missing =>
    BlockSummary.arrayOf_eq_ok.mpr ⟨sized, hf⟩
  refine ⟨as, ?_, ?_⟩
  · rw [BlockSummary.getArrayElemSize, hread]
    rfl
  · rw [BlockSummary.getArrayElemNum, hread]
    rfl

/-- The phases of a put on a server that takes its size. -/
theorem phases_returnsIff (own : bs.getArraySize bs.m_blockid = .ok size) :
    ReturnsIff IsUndefined (do
        let currentBulk ← acquire clientID size
        pull out currentBulk
        let _ ← bs.getArrayElemSize bs.m_blockid
        let _ ← bs.getArrayElemNum bs.m_blockid
        if bs.m_dataType = DATATYPE_VTKPTR then
          storeVtk out clientID size bs
        else
          storeGrid clientID bs) s
      (s.m_bulkMapmutex = false ∧ ∃ sent, out.exposed size = .ok sent ∧
        if bs.m_dataType = DATATYPE_VTKPTR then
          (∃ recvbj, out.UnMarshalDataObject (Containers.received (s.stale clientID size) sent) =
            .ok recvbj) ∧ s.m_blockManager.Takes bs BACKEND.MEMVTKPTR size
        else s.m_blockManager.Takes bs BACKEND.MEM size) := by
  obtain ⟨b, hb, hsize⟩ := stage_bulk s clientID size
  cases free : s.m_bulkMapmutex with
  | true => exact (ReturnsIff.of_error (bind_error (region_busy free))).congr (by simp)
  | false =>
    refine .after ((acquire_eq_ok free).mpr ⟨rfl, hb⟩) ?_
    cases hx : out.exposed size with
    | error what =>
      have hrun : pull out b (s.stage clientID size) =
          .error (.runtime_error what) (s.stage clientID size) :=
        pull_no_bytes (by rw [hsize, hx])
      exact (ReturnsIff.of_error (bind_error hrun)).congr (by simp)
    | ok sent =>
      have hx' : out.exposed b.size = .ok sent := by rw [hsize, hx]
      obtain ⟨k, hk, hrun⟩ | ⟨e, t, hrun, he⟩ := pull_run (s := s.stage clientID size) hx'
      · obtain ⟨as, helem, hnum⟩ := elem_eq_ok own
        refine .after hrun (.after (lift_ok helem) (.after (lift_ok hnum) ?_))
        obtain ⟨old, hold, hlen⟩ := Containers.exists_contents hb
        have hstale : s.stale clientID size = old := by rw [stale, hold]; rfl
        have hfits : (Containers.received old sent).length = size.toNat := by
          obtain ⟨old', held, hle, _⟩ := Containers.pull_eq_ok.mp hk
          rw [Containers.contents_of_bulk hb] at hold
          obtain rfl := Option.some.inj (held.symm.trans hold)
          rw [Containers.length_received hle, hlen, hsize]
        have filled :
            ({ s.stage clientID size with containers := k } : UniServer).containers.contents
            clientID = some (Containers.received old sent) := Containers.contents_pull hb hold hk
        refine (store_returnsIff own filled hfits).congr ?_
        simp only [stage_mutex, stage_blockManager, free, hstale]
        simp
      · exact .of_bad (bind_error hrun) he

theorem putData_returnsIff :
    ReturnsIff IsUndefined (putData out clientID bs) s (s.Puts out clientID bs) := by
  unfold putData Puts
  refine .after rfl ?_
  cases hcache : s.clientStaging.cacheClientAddr out.endpoint with
  | error e => exact .of_bad (bind_error (lift_error rfl)) (cacheClientAddr_error hcache)
  | ok clientStaging =>
    refine .after (lift_ok rfl) (.after rfl ?_)
    by_cases hmem : bs.m_backend = BACKEND.MEM
    · rw [if_neg (not_not.mpr hmem)]
      cases own : bs.getArraySize bs.m_blockid with
      | error e => exact (ReturnsIff.of_error (bind_error (lift_error rfl))).congr (by simp)
      | ok size =>
        refine .after (lift_ok rfl) ((phases_returnsIff own).congr ?_)
        have hstale : stale { s with clientStaging := clientStaging } clientID size =
            s.stale clientID size := by
          have hk : (stage { s with clientStaging := clientStaging } clientID size).containers =
              (s.stage clientID size).containers := stage_containers rfl
          rw [stale, stale, hk]
        simp [hmem, hstale]
    · rw [if_pos hmem]
      exact (ReturnsIff.of_error (bind_error rfl)).congr (by simp [hmem])

/-! ### Arrays -/

theorem putArray_returnsIff {as : ArraySummary} :
    ReturnsIff IsUndefined (putArray out bs as) s
      ((∃ sent, out.exposed (as.m_elemNum * as.m_elemSize) = .ok sent) ∧
        s.m_blockManager.TakesArray bs as bs.m_backend) := by
  unfold putArray
  obtain ⟨sent, hx⟩ | ⟨what, hx⟩ := ok_or_error (out.exposed (as.m_elemNum * as.m_elemSize))
  · refine .after (lift_ok (raise_eq_ok.mpr hx)) ?_
    by_cases hlen : (as.m_elemNum * as.m_elemSize).toNat < sent.length
    · rw [if_pos hlen]
      exact .of_bad (bind_error rfl) trivial
    · rw [if_neg hlen]
      exact BlockManager.putArray_returnsIff.zoom.congr (by simp [hx])
  · have hraise : raise (out.exposed (as.m_elemNum * as.m_elemSize)) =
        .error (.runtime_error what) := by rw [hx]; rfl
    exact (ReturnsIff.of_error (bind_error (lift_error hraise))).congr (by simp [hx])

/-- The three arrays are there and reach the origin. -/
def Sends (s : UniServer) (out : Outside) (blockID : String) : Prop :=
  ∃ points normals cells, s.m_blockManager.getArray blockID "points" = .ok points ∧
    s.m_blockManager.getArray blockID "normals" = .ok normals ∧
    s.m_blockManager.getArray blockID "cells" = .ok cells ∧
    out.sendTo [points.2, normals.2, cells.2] = .ok ()

theorem sendArrays_returnsIff {blockID : String} :
    ReturnsIff IsUndefined (sendArrays out blockID) s (s.Sends out blockID) := by
  unfold sendArrays Sends
  refine .after rfl ?_
  obtain ⟨points, hp⟩ | ⟨e, hp⟩ := ok_or_error (s.m_blockManager.getArray blockID "points")
  · refine .after (lift_ok hp) ?_
    obtain ⟨normals, hn⟩ | ⟨e, hn⟩ := ok_or_error (s.m_blockManager.getArray blockID "normals")
    · refine .after (lift_ok hn) ?_
      obtain ⟨cells, hc⟩ | ⟨e, hc⟩ := ok_or_error (s.m_blockManager.getArray blockID "cells")
      · refine .after (lift_ok hc) (returnsIff_lift.congr ?_)
        simp only [raise_eq_ok, hp, hn, hc]
        constructor
        · rintro ⟨_, h⟩
          exact ⟨points, normals, cells, rfl, rfl, rfl, h⟩
        · rintro ⟨_, _, _, ⟨⟩, ⟨⟩, ⟨⟩, h⟩
          exact ⟨(), h⟩
      · exact (ReturnsIff.of_error (bind_error (lift_error hc))).congr (by simp [hc])
    · exact (ReturnsIff.of_error (bind_error (lift_error hn))).congr (by simp [hn])
  · exact (ReturnsIff.of_error (bind_error (lift_error hp))).congr (by simp [hp])

/-! ### Timers and metrics -/

theorem timedExecute_returnsIff {blockID functionName : String} {funcParameters : List String}
    {dbi : DataBlock} :
    ReturnsIff IsUndefined (timedExecute blockID functionName funcParameters dbi) s
      (blockID ++ "_execute" ∉ s.m_timer_map ∧
        ∃ exeResults, s.m_frawmanager.execute dbi.m_blockSummary (getrawMemPtr dbi) functionName
          funcParameters = .ok exeResults) := by
  unfold timedExecute
  by_cases running : blockID ++ "_execute" ∈ s.m_timer_map
  · have hstart : startTimer (blockID ++ "_execute") s =
        .error (.runtime_error ("the timer exist with name: " ++ (blockID ++ "_execute"))) s := by
      simp only [startTimer, bind, EStateM.bind, get_run,
        if_pos running]
      rfl
    exact (ReturnsIff.of_error (bind_error hstart)).congr (by simp [running])
  · have hstart : startTimer (blockID ++ "_execute") s =
        .ok () { s with m_timer_map := s.m_timer_map ++ [blockID ++ "_execute"] } := by
      simp only [startTimer, bind, EStateM.bind, get_run,
        if_neg running]
      rfl
    refine .after hstart (.after rfl ?_)
    obtain ⟨exeResults, hx⟩ | ⟨e, hx⟩ := ok_or_error (s.m_frawmanager.execute dbi.m_blockSummary
      (getrawMemPtr dbi) functionName funcParameters)
    · have stays : ¬blockID ++ "_execute" ∉ s.m_timer_map ++ [blockID ++ "_execute"] := by simp
      have hend : endTimer (blockID ++ "_execute")
          { s with m_timer_map := s.m_timer_map ++ [blockID ++ "_execute"] } = .ok ()
          { s with m_timer_map :=
            (s.m_timer_map ++ [blockID ++ "_execute"]).erase (blockID ++ "_execute") } := by
        simp only [endTimer, bind, EStateM.bind, get_run,
          if_neg stays]
        rfl
      refine ReturnsIff.congr (.after (lift_ok hx) ?_)
        (iff_of_true trivial ⟨running, exeResults, hx⟩)
      exact .after hend (.of_ok rfl)
    · exact (ReturnsIff.of_error (bind_error (lift_error hx))).congr (by simp [hx])

/-- A metric that exists has a last value that can be read. -/
def Measured (s : UniServer) (metricName : String) : Prop :=
  ∀ arrayPtr, s.m_metricManager.m_metricsMap.lookup metricName = some arrayPtr →
    arrayPtr.m_indexMutex = false ∧ arrayPtr.Holds 1

theorem lastMetric_returnsIff {metricName : String} :
    ReturnsIff IsUndefined (lastMetric metricName) s (s.Measured metricName) := by
  unfold lastMetric Measured
  refine .after rfl ?_
  cases hl : s.m_metricManager.m_metricsMap.lookup metricName with
  | none =>
    have absent : s.m_metricManager.metricExist metricName = false := by
      rw [MetricManager.metricExist, hl]
      rfl
    rw [absent]
    exact (ReturnsIff.of_ok rfl).congr (by simp)
  | some arrayPtr =>
    have present : s.m_metricManager.metricExist metricName = true := by
      rw [MetricManager.metricExist, hl]
      rfl
    rw [present]
    have reads : MetricManager.getLastNmetrics metricName 1 s.m_metricManager =
        s.m_metricManager.onArray metricName arrayPtr (CircularDoubleArray.getLastN 1) := by
      simp only [MetricManager.getLastNmetrics, hl]
    have returns := CircularDoubleArray.getLastN_returns (m := arrayPtr) Nat.one_pos
    simp only [Option.some.injEq, forall_eq', ← returns]
    cases hrun : CircularDoubleArray.getLastN 1 arrayPtr with
    | error e arrayPtr' =>
      have herr : onMetricManager (MetricManager.getLastNmetrics metricName 1) s = .error e _ :=
        zoom_error (reads.trans (by rw [MetricManager.onArray, hrun]))
      exact (ReturnsIff.of_error (bind_error herr)).congr (by simp)
    | ok values arrayPtr' =>
      have hok : onMetricManager (MetricManager.getLastNmetrics metricName 1) s = .ok values _ :=
        zoom_ok (reads.trans (by rw [MetricManager.onArray, hrun]))
      obtain ⟨_, hvalues⟩ := CircularDoubleArray.getLastN_same hrun
      rw [hvalues] at hok
      refine ReturnsIff.congr ?_ (iff_of_true trivial ⟨values, arrayPtr', rfl⟩)
      exact .after hok (.of_ok rfl)

/-- The read of one metric leaves what is known of the others. -/
theorem lastMetric_measured {metricName other : String} {s' : UniServer} {v : Rat}
    (h : lastMetric metricName s = .ok v s') : s'.Measured other ↔ s.Measured other := by
  have same : ∀ name, s'.m_metricManager.m_metricsMap.lookup name =
      s.m_metricManager.m_metricsMap.lookup name := by
    obtain ⟨t, _, ht, h⟩ := bind_run_eq_ok.mp h
    cases ht
    cases hl : s.m_metricManager.m_metricsMap.lookup metricName with
    | none =>
      have absent : s.m_metricManager.metricExist metricName = false := by
        rw [MetricManager.metricExist, hl]
        rfl
      rw [absent] at h
      cases h
      exact fun _ => rfl
    | some arrayPtr =>
      have present : s.m_metricManager.metricExist metricName = true := by
        rw [MetricManager.metricExist, hl]
        rfl
      rw [present] at h
      obtain ⟨values, t, hread, h⟩ := bind_run_eq_ok.mp h
      obtain ⟨mm, hmm, rfl⟩ := zoom_eq_ok.mp hread
      have hs' : s' = { s with m_metricManager := mm } := by
        cases values with
        | nil => cases h
        | cons w rest =>
          cases h
          rfl
      rw [hs']
      simp only [MetricManager.getLastNmetrics, hl, MetricManager.onArray] at hmm
      cases hrun : CircularDoubleArray.getLastN 1 arrayPtr with
      | error e arrayPtr' =>
        rw [hrun] at hmm
        cases hmm
      | ok values' arrayPtr' =>
        obtain ⟨rfl, _⟩ := CircularDoubleArray.getLastN_same hrun
        rw [hrun] at hmm
        cases hmm
        intro name
        by_cases hn : name = metricName
        · rw [hn, AList.lookup_insert, hl]
        · exact AList.lookup_insert_ne hn
  simp only [Measured, same]

theorem stageStatus_returnsIff :
    ReturnsIff IsUndefined (stageStatus out) s
      (s.clientStaging.getIDFromClientAddr out.endpoint ≠ -1 →
        s.Measured ("default_schedule" ++
          toString (s.clientStaging.getIDFromClientAddr out.endpoint)) ∧
        s.Measured ("default_ana" ++
          toString (s.clientStaging.getIDFromClientAddr out.endpoint))) := by
  unfold stageStatus
  refine .after rfl ?_
  by_cases known : s.clientStaging.getIDFromClientAddr out.endpoint = -1
  · rw [if_pos known]
    exact (ReturnsIff.of_ok rfl).congr (by simp [known])
  · rw [if_neg known]
    have ana : ∀ v s', lastMetric ("default_schedule" ++
        toString (s.clientStaging.getIDFromClientAddr out.endpoint)) s = .ok v s' →
        ReturnsIff IsUndefined (do
          let ana ← lastMetric ("default_ana" ++
            toString (s.clientStaging.getIDFromClientAddr out.endpoint))
          return [v, ana, (← get).m_metricManager.m_runningThreads / 32]) s'
          (s.Measured ("default_ana" ++
            toString (s.clientStaging.getIDFromClientAddr out.endpoint))) := by
      intro v s' h
      refine ReturnsIff.congr ?_ (lastMetric_measured h)
      exact (lastMetric_returnsIff.bind fun w t _ => .after rfl (.of_ok rfl)).congr
        (iff_of_eq (and_true _))
    exact (lastMetric_returnsIff.bind ana).congr (by simp [known])

end UniServer

end Gorilla
