import Gorilla.Server.EndPoints
import Gorilla.Server.PutMetadata
import Gorilla.Server.Requests
import Gorilla.Server.Selection

/-!
# The requests that are answered once

For each request the states in which its handler sends one reply, as long as its run is
defined: what makes a handler wait, throw before it replies, or reply again.
-/

namespace Gorilla

open HandLock Handler Outcome Traverse

variable {out : Outside} {s : UniServer}

namespace Handler

variable {ρ α : Type} {x : Handler ρ Unit} {P : Prop}

theorem answersOnce_of_run {s' : UniServer} {sent : List ρ} (h : x ⟨s, []⟩ = .ok () ⟨s', sent⟩)
    (hP : sent.length = 1 ↔ P) : AnswersOnce x s ↔ Defined x s ∧ P :=
  answersOnce_iff fun _ => by rw [replies, h]; exact hP

/-- A run that throws has sent what it sent before. -/
theorem answersOnce_of_error {s' : UniServer} {e : Stop} {sent : List ρ}
    (h : x ⟨s, []⟩ = .error e ⟨s', sent⟩) (hP : ¬IsUndefined e → (sent.length = 1 ↔ P)) :
    AnswersOnce x s ↔ Defined x s ∧ P := by
  refine answersOnce_iff fun defined => ?_
  rw [replies, h]
  exact hP (defined e _ h)

theorem answersOnce_undefined {e : Stop} {c : Call ρ} (h : x ⟨s, []⟩ = .error e c)
    (he : IsUndefined e) : AnswersOnce x s ↔ Defined x s ∧ P :=
  answersOnce_iff fun defined => absurd he (defined e c h)

theorem answersOnce_of_caught_undefined {r : ρ} {c : Call ρ} {what : String}
    (h : x ⟨s, []⟩ = .error (.undefined what) c) :
    AnswersOnce (catchException x (respond r)) s ↔
      Defined (catchException x (respond r)) s ∧ P :=
  answersOnce_undefined (e := .undefined what) (c := c) (by rw [catchException, h]) trivial

/-- An exception before the first reply is caught, and replied to. -/
theorem answersOnce_of_thrown {r : ρ} {s' : UniServer} {e : Stop}
    (h : x ⟨s, []⟩ = .error e ⟨s', []⟩)
    (prompt : ¬Waits e) (hP : P) :
    AnswersOnce (catchException x (respond r)) s ↔
      Defined (catchException x (respond r)) s ∧ P := by
  cases e with
  | runtime_error what => exact answersOnce_of_ok (by rw [catchException, h]; rfl) hP
  | undefined what => exact answersOnce_of_caught_undefined h
  | blocked on => exact absurd trivial prompt

/-- What a handler does on a state decides whether it answers there. -/
theorem answersOnce_of_eq {y : Handler ρ Unit} (h : x ⟨s, []⟩ = y ⟨s, []⟩)
    (hy : AnswersOnce y s ↔ Defined y s ∧ P) : AnswersOnce x s ↔ Defined x s ∧ P := by
  simpa only [AnswersOnce, Defined, Avoids, replies, h] using hy

end Handler

/-! ### Requests that always reply -/

theorem updateDHT_once (datawrapperList : List MetaAddrWrapper) :
    AnswersOnce (updateDHT datawrapperList) s ↔ Defined (updateDHT datawrapperList) s ∧ True :=
  answersOnce_of_ok rfl trivial

theorem getAllServerAddr_once :
    AnswersOnce getAllServerAddr s ↔ Defined getAllServerAddr s ∧ True :=
  answersOnce_of_ok rfl trivial

theorem putTriggerInfo_once (triggerName : String) (dti : DynamicTriggerInfo) :
    AnswersOnce (putTriggerInfo triggerName dti) s ↔
      Defined (putTriggerInfo triggerName dti) s ∧ True :=
  answersOnce_of_ok rfl trivial

theorem getEvent_once (triggerName : String) :
    AnswersOnce (getEvent triggerName) s ↔ Defined (getEvent triggerName) s ∧ True :=
  answersOnce_of_ok rfl trivial

theorem getmetaServerList_once (dims : Nat) (indexlb indexub : Array3 Int) :
    AnswersOnce (getmetaServerList dims indexlb indexub) s ↔
      Defined (getmetaServerList dims indexlb indexub) s ∧ True := by
  have prompt : Prompt (BBX.ofIndex dims indexlb indexub >>= s.m_dhtManager.getMetaServerID) :=
    .bind (prompt_ofIndex _ _ _) fun q _ => prompt_getMetaServerID _ q
  unfold getmetaServerList
  refine answersOnce_of_eq (bind_ok getServer_run) ?_
  cases h : BBX.ofIndex dims indexlb indexub >>= s.m_dhtManager.getMetaServerID with
  | ok metaserverList => exact answersOnce_of_ok rfl trivial
  | error e =>
    cases e with
    | runtime_error what => exact answersOnce_of_ok rfl trivial
    | undefined what => exact answersOnce_undefined rfl trivial
    | blocked on => exact absurd trivial (prompt _ h)

theorem getDataSubregion_once (blockID : String) (dims : Nat)
    (subregionlb subregionub : Array3 Int) :
    AnswersOnce (getDataSubregion out blockID dims subregionlb subregionub) s ↔
      Defined (getDataSubregion out blockID dims subregionlb subregionub) s ∧ True :=
  answersOnce_caught (readSubregion_prompt out blockID dims subregionlb subregionub s)

/-! ### Requests that reply when their work returns -/

theorem eraseBlock_returnsIff {m : BlockManager} (blockID : String) :
    ReturnsIff IsUndefined (BlockManager.eraseBlock blockID) m (m.Erasable blockID) := by
  by_cases erasable : m.Erasable blockID
  · exact (ReturnsIff.of_ok (BlockManager.eraseBlock_erasable erasable)).congr
      (iff_of_true trivial erasable)
  · obtain ⟨what, thrown⟩ := BlockManager.eraseBlock_refused erasable
    exact (ReturnsIff.of_error thrown).congr (iff_of_false id erasable)

theorem eraserawdata_once (blockID : String) :
    AnswersOnce (eraserawdata blockID) s ↔
      Defined (eraserawdata blockID) s ∧ s.m_blockManager.Erasable blockID :=
  answersOnce_work (g := fun _ => 0) (ReturnsIff.zoom (eraseBlock_returnsIff blockID))

theorem putrawdata_once (clientID : Int) (bs : BlockSummary) :
    AnswersOnce (putrawdata out clientID bs) s ↔
      Defined (putrawdata out clientID bs) s ∧ s.Puts out clientID bs :=
  answersOnce_work UniServer.putData_returnsIff

theorem putArrayIntoBlock_once (bs : BlockSummary) (as : ArraySummary) :
    AnswersOnce (putArrayIntoBlock out bs as) s ↔ Defined (putArrayIntoBlock out bs as) s ∧
      (∃ sent, out.exposed (as.m_elemNum * as.m_elemSize) = .ok sent) ∧
        s.m_blockManager.TakesArray bs as bs.m_backend :=
  answersOnce_work UniServer.putArray_returnsIff

theorem getArraysExplicit_once (blockID : String) :
    AnswersOnce (getArraysExplicit out blockID) s ↔
      Defined (getArraysExplicit out blockID) s ∧ s.Sends out blockID :=
  answersOnce_work UniServer.sendArrays_returnsIff

/-- A client that is known has both of its metrics measured, if they are there. -/
def UniServer.StatusKnown (s : UniServer) (out : Outside) : Prop :=
  s.clientStaging.getIDFromClientAddr out.endpoint ≠ -1 →
    s.Measured ("default_schedule" ++
      toString (s.clientStaging.getIDFromClientAddr out.endpoint)) ∧
    s.Measured ("default_ana" ++ toString (s.clientStaging.getIDFromClientAddr out.endpoint))

theorem getStageStatus_once :
    AnswersOnce (getStageStatus out) s ↔ Defined (getStageStatus out) s ∧ s.StatusKnown out :=
  answersOnce_work UniServer.stageStatus_returnsIff

/-- The function of a stored block returns, and its timer is not running yet. -/
def UniServer.Executes (s : UniServer) (blockID functionName : String)
    (funcParameters : List String) : Prop :=
  ∀ dbi, s.m_blockManager.DataBlockMap.lookup blockID = some dbi →
    blockID ++ "_execute" ∉ s.m_timer_map ∧
      ∃ exeResults, s.m_frawmanager.execute dbi.m_blockSummary (UniServer.getrawMemPtr dbi)
        functionName funcParameters = .ok exeResults

theorem executeRawFunc_once (blockID functionName : String) (funcParameters : List String) :
    AnswersOnce (executeRawFunc blockID functionName funcParameters) s ↔
      Defined (executeRawFunc blockID functionName funcParameters) s ∧
        s.Executes blockID functionName funcParameters := by
  unfold executeRawFunc UniServer.Executes
  refine answersOnce_of_eq (bind_ok getServer_run) ?_
  cases hl : s.m_blockManager.DataBlockMap.lookup blockID with
  | none => exact answersOnce_of_ok rfl fun _ stored => by cases stored
  | some dbi =>
    simp only [Option.some.injEq, forall_eq']
    exact answersOnce_work UniServer.timedExecute_returnsIff

/-! ### Requests that reply in the middle of their work -/

/-- The position after one address was handed out. -/
def AddrManager.advanced (m : AddrManager) : AddrManager :=
  { m with m_rrobinValue := (m.m_rrobinValue + 1) % UInt64.ofNat m.m_endPointsLists.length }

theorem getByRRobin_run (m : AddrManager) :
    AddrManager.getByRRobin m =
      match m.m_endPointsLists[m.m_rrobinValue.toNat]? with
      | none => .error (.undefined "index past the end of m_endPointsLists") m
      | some serverAddr => .ok serverAddr m.advanced := by
  unfold AddrManager.getByRRobin
  rw [bind_ok (get_run m)]
  cases m.m_endPointsLists[m.m_rrobinValue.toNat]? <;> rfl

/-- An address is handed out, or the read of the list is undefined. -/
theorem handOut_run (sent : List String) :
    (do
      let serverAddr ← onServer
        (zoom UniServer.m_addrManager (fun m s => { s with m_addrManager := m })
          AddrManager.getByRRobin)
      respond serverAddr : Handler String Unit) ⟨s, sent⟩ =
      match s.m_addrManager.m_endPointsLists[s.m_addrManager.m_rrobinValue.toNat]? with
      | none => .error (.undefined "index past the end of m_endPointsLists") ⟨s, sent⟩
      | some serverAddr =>
        .ok () ⟨{ s with m_addrManager := s.m_addrManager.advanced }, sent ++ [serverAddr]⟩ := by
  have run := getByRRobin_run s.m_addrManager
  cases next : s.m_addrManager.m_endPointsLists[s.m_addrManager.m_rrobinValue.toNat]? with
  | none =>
    rw [next] at run
    exact bind_error (onServer_error (zoom_error run))
  | some serverAddr =>
    rw [next] at run
    exact bind_ok (onServer_ok (zoom_ok run))

/-- A server that is not the master says so and then hands out an address all the same. -/
theorem getaddrbyrrb_once :
    AnswersOnce getaddrbyrrb s ↔ Defined getaddrbyrrb s ∧ s.m_addrManager.ifMaster = true := by
  unfold getaddrbyrrb
  refine answersOnce_of_eq (bind_ok getServer_run) ?_
  cases master : s.m_addrManager.ifMaster with
  | false =>
    have run := handOut_run (s := s) ["NOTMASTER"]
    cases next : s.m_addrManager.m_endPointsLists[s.m_addrManager.m_rrobinValue.toNat]? with
    | none =>
      rw [next] at run
      exact answersOnce_undefined run trivial
    | some serverAddr =>
      rw [next] at run
      exact answersOnce_of_run run (by simp)
  | true =>
    have run := handOut_run (s := s) []
    cases next : s.m_addrManager.m_endPointsLists[s.m_addrManager.m_rrobinValue.toNat]? with
    | none =>
      rw [next] at run
      exact answersOnce_undefined run trivial
    | some serverAddr =>
      rw [next] at run
      exact answersOnce_of_ok run rfl

theorem undefined_of_ofIndex {dims : Nat} {indexlb indexub : Array3 Int} {e : Stop}
    (h : BBX.ofIndex dims indexlb indexub = .error e) : IsUndefined e := by
  unfold BBX.ofIndex at h
  split at h
  · cases h
    trivial
  · cases h

/-- A partition that can be compared with the box of the query. -/
def UniServer.Comparable (s : UniServer) (bbxdim : Nat) : Prop :=
  ∀ id own, s.m_dhtManager.metaServerIDToBBX.lookup id = some own →
    1 ≤ bbxdim ∧ own.m_dims = bbxdim

theorem UniServer.comparable_iff {bbxdim : Nat} {indexlb indexub : Array3 Int} {q : BBX}
    (hq : BBX.ofIndex bbxdim indexlb indexub = .ok q) :
    (∃ r, s.m_dhtManager.getMetaServerID q = .ok r) ↔ s.Comparable bbxdim := by
  have hd := BBX.dims_ofIndex hq
  have short : bbxdim ≤ 3 := by
    unfold BBX.ofIndex DEFAULT_MAX_DIM at hq
    split at hq
    · cases hq
    · omega
  simp only [DHTManager.getMetaServerID, responsible_eq_ok, exists_and_left, exists_eq, and_true,
    mem_sortedEntries, BBX.Dims, hd, Comparable]
  constructor
  · intro all id own h
    obtain ⟨same, first, _⟩ := all ⟨id, own⟩ h
    exact ⟨first, same.symm⟩
  · intro all e h
    obtain ⟨first, same⟩ := all e.1 e.2 h
    exact ⟨same.symm, first, short⟩

theorem getinfoForput_once (objSize : UInt64) (bbxdim : Nat) (indexlb indexub : Array3 Int) :
    AnswersOnce (getinfoForput objSize bbxdim indexlb indexub) s ↔
      Defined (getinfoForput objSize bbxdim indexlb indexub) s ∧ s.Comparable bbxdim := by
  unfold getinfoForput
  refine answersOnce_of_eq (bind_ok getServer_run) ?_
  cases hq : BBX.ofIndex bbxdim indexlb indexub with
  | error e =>
    exact answersOnce_undefined (bind_error (lift_error rfl)) (undefined_of_ofIndex hq)
  | ok q =>
    refine answersOnce_of_eq (bind_ok (lift_ok rfl)) ?_
    cases hm : s.m_dhtManager.getMetaServerID q with
    | error e =>
      refine answersOnce_of_error (bind_error (lift_error rfl)) fun _ => ?_
      refine iff_of_false (by simp) fun comparable => ?_
      obtain ⟨_, found⟩ := (UniServer.comparable_iff hq).mpr comparable
      rw [hm] at found
      cases found
    | ok metaserverList =>
      refine answersOnce_of_eq (bind_ok (lift_ok rfl)) ?_
      have comparable := (UniServer.comparable_iff hq).mp ⟨metaserverList, hm⟩
      cases hc : collectAddrs s.m_dhtManager.metaServerIDToAddr
          (.runtime_error "faild to get the coresponding server id in dhtManager")
          metaserverList [] with
      | mk destAddrs missing =>
        cases missing with
        | none => exact answersOnce_of_ok rfl comparable
        | some e => exact answersOnce_of_error rfl fun _ => iff_of_true rfl comparable

/-- A put of metadata that finds the map free stores it, and replies. -/
theorem putmetadata_once (step : Nat) (varName : String) (rde : BlockDescriptor) :
    AnswersOnce (putmetadata step varName rde) s ↔
      Defined (putmetadata step varName rde) s ∧ s.m_metaManager.m_metaDataMapMutex = false := by
  cases free : s.m_metaManager.m_metaDataMapMutex with
  | true => exact answersOnce_of_error (putmetadata_busy free step varName rde) fun _ => by simp
  | false =>
    obtain ⟨timers, run⟩ := putmetadata_run free step varName rde
    exact answersOnce_of_run run (by simp)

/-- The map is free, and the own part of the domain is met by the query once the descriptors
are read. -/
def UniServer.MeetsOwnPart (s : UniServer) (step : Nat) (varName : String) (dims : Nat)
    (indexlb indexub : Array3 Int) : Prop :=
  s.m_metaManager.m_metaDataMapMutex = false ∧
    ∀ q own rdeplist, BBX.ofIndex dims indexlb indexub = .ok q →
      s.m_metaManager.rawEndpoints step varName DATATYPE_CARGRID = .ok rdeplist →
      s.m_dhtManager.metaServerIDToBBX.lookup s.globalRank = some own →
      getOverlapBBX q own ≠ .ok none

/-- Once the descriptors and the own box are read, the box is met or the client hears twice: the
reply to a query beside it is followed by an exception, which is caught and replied to again. -/
theorem ownPart_once {step : Nat} {varName : String} {dims : Nat} {indexlb indexub : Array3 Int}
    {q own : BBX} {rdeplist : List BlockDescriptor}
    (free : s.m_metaManager.m_metaDataMapMutex = false)
    (hq : BBX.ofIndex dims indexlb indexub = .ok q)
    (hr : s.m_metaManager.rawEndpoints step varName DATATYPE_CARGRID = .ok rdeplist)
    (hown : s.m_dhtManager.metaServerIDToBBX.lookup s.globalRank = some own) :
    AnswersOnce (getBlockDescriptorList step varName dims indexlb indexub) s ↔
      Defined (getBlockDescriptorList step varName dims indexlb indexub) s ∧
        getOverlapBBX q own ≠ .ok none := by
  have run := getBlockDescriptorListBody_run step varName free hq hr hown
  cases ho : getOverlapBBX q own with
  | error e =>
    exact answersOnce_of_thrown (run.trans (bind_error (lift_error ho)))
      (prompt_getOverlapBBX q own e ho) (by simp)
  | ok r =>
    cases r with
    | none =>
      have twice : respondOwnPart step varName q rdeplist own ⟨s, []⟩ =
          .error (.runtime_error ("dht error, there should overlap between queried " ++
            "bbx and current metadata partition\n")) ⟨s, [[]]⟩ := by
        unfold respondOwnPart
        rw [bind_ok (lift_ok ho)]
        rfl
      have replied : getBlockDescriptorList step varName dims indexlb indexub ⟨s, []⟩ =
          .ok () ⟨s, [[], []]⟩ := by
        rw [getBlockDescriptorList, catchException, run, twice]
        rfl
      exact answersOnce_of_run replied (by simp)
    | some overlap =>
      obtain ⟨_, _, hw⟩ := BBX.getOverlapBBX_eq_ok.mp ho
      have hits : q.Hits own := by
        by_contra hits
        rw [if_neg hits] at hw
        cases hw
      obtain rfl := Option.some.inj (hw.trans (if_pos hits))
      rw [respondOwnPart_run free hr ho] at run
      cases ha : answerOf s step varName q own with
      | error e =>
        rw [ha] at run
        exact answersOnce_of_thrown run (prompt_answerOf s step varName q own e ha) (by simp)
      | ok l =>
        rw [ha] at run
        exact answersOnce_of_ok (by rw [getBlockDescriptorList, catchException, run]) (by simp)

theorem getBlockDescriptorList_once (step : Nat) (varName : String) (dims : Nat)
    (indexlb indexub : Array3 Int) :
    AnswersOnce (getBlockDescriptorList step varName dims indexlb indexub) s ↔
      Defined (getBlockDescriptorList step varName dims indexlb indexub) s ∧
        s.MeetsOwnPart step varName dims indexlb indexub := by
  cases body_reads s step varName dims indexlb indexub with
  | @box e hq stops =>
    have undefined := undefined_of_ofIndex hq
    cases e with
    | undefined what => exact answersOnce_of_caught_undefined stops
    | runtime_error what => cases undefined
    | blocked on => cases undefined
  | busy held stops =>
    have silent : getBlockDescriptorList step varName dims indexlb indexub ⟨s, []⟩ =
        .error MetaDataManager.mapBusy ⟨s, []⟩ := by
      rw [getBlockDescriptorList, catchException, stops]
      rfl
    exact answersOnce_of_error silent (by simp [UniServer.MeetsOwnPart, held])
  | @raw e free hr stops =>
    have prompt := MetaDataManager.prompt_rawEndpoints s.m_metaManager step varName
      DATATYPE_CARGRID e hr
    exact answersOnce_of_thrown stops prompt (by simp [UniServer.MeetsOwnPart, free, hr])
  | unowned stops => exact answersOnce_of_caught_undefined stops
  | own free hq hr hown =>
    rw [ownPart_once free hq hr hown]
    simp [UniServer.MeetsOwnPart, free, hq, hr, hown]

/-! ### Requests that loop -/

/-- A watcher of a registered trigger can be looked up, and the set of watchers is free. -/
def UniServer.Watches (s : UniServer) (out : Outside) (watcherAddr : String)
    (triggerNames : List String) : Prop :=
  ∀ name ∈ triggerNames, StagingGroup.Registered s name →
    s.m_dtmanager.m_watcherSetMutex = false ∧ ∃ endpoint, out.lookup watcherAddr = .ok endpoint

/-- The triggers and the mutex of the watchers are those of the server. -/
def UniServer.SameTriggers (s t : UniServer) : Prop :=
  t.m_dtmanager.m_dynamicTrigger = s.m_dtmanager.m_dynamicTrigger ∧
    t.m_dtmanager.m_watcherSetMutex = s.m_dtmanager.m_watcherSetMutex

theorem watch_returnsIff {watcherAddr name : String} {t : UniServer} (same : s.SameTriggers t) :
    ReturnsIff IsUndefined (watch out watcherAddr name) t
      (StagingGroup.Registered s name → s.m_dtmanager.m_watcherSetMutex = false ∧
        ∃ endpoint, out.lookup watcherAddr = .ok endpoint) ∧
    ∀ a t', watch out watcherAddr name t = .ok a t' → s.SameTriggers t' := by
  obtain ⟨triggers, mutex⟩ := same
  have known : StagingGroup.Registered t name ↔ StagingGroup.Registered s name := by
    rw [StagingGroup.Registered, StagingGroup.Registered, triggers]
  by_cases h : StagingGroup.Registered t name
  · by_cases watches : t.m_dtmanager.m_watcherSetMutex = false ∧
        ∃ endpoint, out.lookup watcherAddr = .ok endpoint
    · obtain ⟨free, endpoint, hr⟩ := watches
      obtain ⟨t', run, _, triggers', free'⟩ := StagingGroup.watch_ok h free hr
      refine ⟨(ReturnsIff.of_ok run).congr ?_, fun a t'' run' => ?_⟩
      · exact iff_of_true trivial fun _ => ⟨mutex ▸ free, endpoint, hr⟩
      · rw [run] at run'
        cases run'
        exact ⟨triggers'.trans triggers, free'.trans (free.symm.trans mutex)⟩
    · have fails : t.m_dtmanager.m_watcherSetMutex = true ∨
          ∃ what, out.lookup watcherAddr = .error what := by
        cases hm : t.m_dtmanager.m_watcherSetMutex with
        | true => exact .inl rfl
        | false =>
          obtain ⟨endpoint, hr⟩ | what := ok_or_error (out.lookup watcherAddr)
          · exact absurd ⟨hm, endpoint, hr⟩ watches
          · exact .inr what
      obtain ⟨e, t', run, _⟩ := StagingGroup.watch_fails h fails
      refine ⟨(ReturnsIff.of_error run).congr ?_, fun a t'' run' => ?_⟩
      · rw [mutex] at watches
        exact iff_of_false id fun all => watches (all (known.mp h))
      · rw [run] at run'
        cases run'
  · have run : watch out watcherAddr name t = .ok () t := StagingGroup.watch_skips h
    refine ⟨(ReturnsIff.of_ok run).congr ?_, fun a t'' run' => ?_⟩
    · exact iff_of_true trivial fun registered => absurd (known.mpr registered) h
    · rw [run] at run'
      cases run'
      exact ⟨triggers, mutex⟩

theorem registerWatcher_once (watcherAddr : String) (triggerNames : List String) :
    AnswersOnce (registerWatcher out watcherAddr triggerNames) s ↔
      Defined (registerWatcher out watcherAddr triggerNames) s ∧
        s.Watches out watcherAddr triggerNames := by
  have watched : ReturnsIff IsUndefined (triggerNames.forM (watch out watcherAddr)) s
      (s.Watches out watcherAddr triggerNames) :=
    ReturnsIff.forM ⟨rfl, rfl⟩ fun _ _ _ same => watch_returnsIff same
  exact answersOnce_work (g := fun _ => 0) watched

theorem deleteMetaStep_once (step : Nat) :
    AnswersOnce (deleteMetaStep out step) s ↔ Defined (deleteMetaStep out step) s ∧
      s.m_metaManager.m_metaDataMapMutex = false ∧
        ∀ rde ∈ s.m_metaManager.blocksOf step, ∃ u, out.eraseRawData rde.1 rde.2 = .ok u := by
  refine answersOnce_work (g := fun _ => 0) (ReturnsIff.zoom (ReturnsIff.region (.after rfl ?_)))
  have erased : ∀ m : MetaDataManager, ReturnsIff IsUndefined
      ((s.m_metaManager.blocksOf step).forM fun rde =>
        (liftM (out.eraseRawData rde.1 rde.2) : EStateM Stop MetaDataManager Unit)) m
      (∀ rde ∈ s.m_metaManager.blocksOf step, ∃ u, out.eraseRawData rde.1 rde.2 = .ok u) :=
    fun m => ReturnsIff.forM (trivial : (fun _ => True) m) fun rde _ t _ =>
      ⟨returnsIff_lift, fun _ _ _ => trivial⟩
  exact ((erased _).bind fun _ t _ => .of_ok rfl).congr (iff_of_eq (and_true _))

theorem length_recvArrays {elemSizes : List Nat} {transferSizeList : List UInt64} {lens : List Nat}
    (h : recvArrays elemSizes transferSizeList = .ok lens) : lens.length = elemSizes.length := by
  induction elemSizes generalizing transferSizeList lens with
  | nil =>
    cases h
    rfl
  | cons elemSize elemSizes ih =>
    cases transferSizeList with
    | nil => cases h
    | cons size transferSizeList =>
      rw [recvArrays] at h
      by_cases whole : size.toNat % elemSize ≠ 0
      · rw [if_pos whole] at h
        cases h
      · rw [if_neg whole] at h
        obtain ⟨rest, hrest, h⟩ := bind_eq_ok.mp h
        cases h
        rw [List.length_cons, List.length_cons, ih hrest]

theorem undefined_of_recvArrays {elemSizes : List Nat} {transferSizeList : List UInt64} {e : Stop}
    (h : recvArrays elemSizes transferSizeList = .error e) : IsUndefined e := by
  induction elemSizes generalizing transferSizeList with
  | nil => cases h
  | cons elemSize elemSizes ih =>
    cases transferSizeList with
    | nil =>
      cases h
      trivial
    | cons size transferSizeList =>
      rw [recvArrays] at h
      by_cases whole : size.toNat % elemSize ≠ 0
      · rw [if_pos whole] at h
        cases h
        trivial
      · rw [if_neg whole] at h
        cases hrest : recvArrays elemSizes transferSizeList with
        | error e' =>
          rw [hrest] at h
          cases h
          exact ih hrest
        | ok rest =>
          rw [hrest] at h
          cases h

/-- The arrays of a mesh are read or the read is undefined; what can be missing is the memory
of the origin. -/
theorem recvMesh_once {first second : Nat} {elemSizes : List Nat} (transferSizeList : List UInt64) :
    AnswersOnce (recvMesh out (first :: second :: elemSizes) transferSizeList) s ↔
      Defined (recvMesh out (first :: second :: elemSizes) transferSizeList) s ∧
        ∃ sent, out.exposed (transferSizeList.foldl (· + ·) 0) = .ok sent := by
  unfold recvMesh
  obtain ⟨sent, hx⟩ | ⟨what, hx⟩ := ok_or_error (out.exposed (transferSizeList.foldl (· + ·) 0))
  · refine answersOnce_of_eq (bind_ok (lift_ok (raise_eq_ok.mpr hx))) ?_
    cases hr : recvArrays (first :: second :: elemSizes) transferSizeList with
    | error e =>
      exact answersOnce_undefined (bind_error (lift_error rfl)) (undefined_of_recvArrays hr)
    | ok lens =>
      refine answersOnce_of_eq (bind_ok (lift_ok rfl)) ?_
      have length := length_recvArrays hr
      match lens, length with
      | bufPoints :: bufNormals :: rest, _ =>
        by_cases short : bufNormals < bufPoints / 3 * 3
        · exact answersOnce_undefined (bind_error (lift_error (if_pos short))) trivial
        · exact answersOnce_of_ok (bind_ok (lift_ok (if_neg short))) ⟨sent, hx⟩
  · have thrown : raise (out.exposed (transferSizeList.foldl (· + ·) 0)) =
        .error (.runtime_error what) := by rw [hx]; rfl
    exact answersOnce_of_error (bind_error (lift_error thrown)) fun _ => by simp [hx]

/-- Every summary the request finds has its three arrays by itself or under its own id. -/
def UniServer.Awaited (s : UniServer) (varSuffix : String) : Prop :=
  ∀ summary ∈ s.matching varSuffix, summary.m_arrayListLen = 3 ∨
    ∃ block, s.m_blockManager.DataBlockMap.lookup summary.m_blockid = some block ∧
      block.m_blockSummary.m_arrayListLen = 3

theorem UniServer.awaitArrays_returns {summary : BlockSummary} :
    (∃ found, s.awaitArrays summary = .ok found) ↔ summary.m_arrayListLen = 3 ∨
      ∃ block, s.m_blockManager.DataBlockMap.lookup summary.m_blockid = some block ∧
        block.m_blockSummary.m_arrayListLen = 3 := by
  unfold awaitArrays
  by_cases full : summary.m_arrayListLen = 3
  · simp [full]
  · cases hl : s.m_blockManager.DataBlockMap.lookup summary.m_blockid with
    | none => simp [full]
    | some block =>
      by_cases filled : block.m_blockSummary.m_arrayListLen = 3 <;> simp [full, filled]

theorem getBlockSummayBySuffix_once (varSuffix : String) :
    AnswersOnce (getBlockSummayBySuffix varSuffix) s ↔
      Defined (getBlockSummayBySuffix varSuffix) s ∧ s.Awaited varSuffix := by
  have awaited : s.Awaited varSuffix ↔
      ∃ list, (s.matching varSuffix).mapM s.awaitArrays = .ok list := by
    simp only [UniServer.Awaited, ← UniServer.awaitArrays_returns, mapM_eq_ok]
    exact ⟨exists_forall₂, fun ⟨_, found⟩ _ hmem =>
      (exists_right_of_forall₂ found hmem).imp fun _ h => h.2⟩
  rw [awaited]
  unfold getBlockSummayBySuffix
  refine answersOnce_of_eq (bind_ok getServer_run) ?_
  obtain ⟨list, h⟩ | ⟨e, h⟩ := ok_or_error ((s.matching varSuffix).mapM s.awaitArrays)
  · exact answersOnce_of_ok (bind_ok (lift_ok h)) ⟨list, h⟩
  · exact answersOnce_of_error (bind_error (lift_error h)) fun _ => by simp [h]

namespace Request

/-- The states in which a request is answered once, as long as its run is defined. -/
def Answered (out : Outside) (s : UniServer) : Request → Prop
  | getaddrbyrrb => s.m_addrManager.ifMaster = true
  | getinfoForput _ bbxdim _ _ => s.Comparable bbxdim
  | putrawdata clientID blockSummary => s.Puts out clientID blockSummary
  | eraserawdata blockID => s.m_blockManager.Erasable blockID
  | putmetadata .. => s.m_metaManager.m_metaDataMapMutex = false
  | getBlockDescriptorList step varName dims indexlb indexub =>
    s.MeetsOwnPart step varName dims indexlb indexub
  | executeRawFunc blockID functionName funcParameters =>
    s.Executes blockID functionName funcParameters
  | registerWatcher watcherAddr triggerNames => s.Watches out watcherAddr triggerNames
  | deleteMetaStep step => s.m_metaManager.m_metaDataMapMutex = false ∧
    ∀ rde ∈ s.m_metaManager.blocksOf step, ∃ u, out.eraseRawData rde.1 rde.2 = .ok u
  | putvtkexp transferSizeList | putvtkexpzero transferSizeList =>
    ∃ sent, out.exposed (transferSizeList.foldl (· + ·) 0) = .ok sent
  | putArrayIntoBlock blockSummary as =>
    (∃ sent, out.exposed (as.m_elemNum * as.m_elemSize) = .ok sent) ∧
      s.m_blockManager.TakesArray blockSummary as blockSummary.m_backend
  | getBlockSummayBySuffix varSuffix => s.Awaited varSuffix
  | getArraysExplicit blockID => s.Sends out blockID
  | getStageStatus => s.StatusKnown out
  | _ => True

/-- A request is answered once exactly where its run is defined and the condition of its
handler holds. -/
theorem once_iff (out : Outside) (s : UniServer) (r : Request) :
    AnswersOnce (r.handler out) s ↔ Defined (r.handler out) s ∧ r.Answered out s := by
  cases r with
  | updateDHT datawrapperList => exact updateDHT_once datawrapperList
  | getAllServerAddr => exact getAllServerAddr_once
  | getaddrbyrrb => exact getaddrbyrrb_once
  | getinfoForput objSize bbxdim indexlb indexub =>
    exact getinfoForput_once objSize bbxdim indexlb indexub
  | putrawdata clientID blockSummary => exact putrawdata_once clientID blockSummary
  | eraserawdata blockID => exact eraserawdata_once blockID
  | putmetadata step varName rde => exact putmetadata_once step varName rde
  | getmetaServerList dims indexlb indexub => exact getmetaServerList_once dims indexlb indexub
  | getBlockDescriptorList step varName dims indexlb indexub =>
    exact getBlockDescriptorList_once step varName dims indexlb indexub
  | getDataSubregion blockID dims subregionlb subregionub =>
    exact getDataSubregion_once blockID dims subregionlb subregionub
  | putTriggerInfo triggerName dti => exact putTriggerInfo_once triggerName dti
  | executeRawFunc blockID functionName funcParameters =>
    exact executeRawFunc_once blockID functionName funcParameters
  | registerWatcher watcherAddr triggerNames => exact registerWatcher_once watcherAddr triggerNames
  | getEvent triggerName => exact getEvent_once triggerName
  | deleteMetaStep step => exact deleteMetaStep_once step
  | putvtkexp transferSizeList => exact recvMesh_once transferSizeList
  | putvtkexpzero transferSizeList => exact recvMesh_once transferSizeList
  | putArrayIntoBlock blockSummary as => exact putArrayIntoBlock_once blockSummary as
  | getBlockSummayBySuffix varSuffix => exact getBlockSummayBySuffix_once varSuffix
  | getArraysExplicit blockID => exact getArraysExplicit_once blockID
  | getStageStatus => exact getStageStatus_once

end Request

/-- A server that is not the master: its client gets `NOTMASTER` and an address. -/
theorem notMaster_answers_twice :
    (getaddrbyrrb.replies { m_addrManager := { m_endPointsLists := ["server0"] } }) =
        ["NOTMASTER", "server0"] ∧
      ¬ AnswersOnce getaddrbyrrb { m_addrManager := { m_endPointsLists := ["server0"] } } := by
  have twice : getaddrbyrrb.replies { m_addrManager := { m_endPointsLists := ["server0"] } } =
      ["NOTMASTER", "server0"] := rfl
  refine ⟨twice, ?_⟩
  rintro ⟨_, once⟩
  rw [twice] at once
  cases once

end Gorilla
