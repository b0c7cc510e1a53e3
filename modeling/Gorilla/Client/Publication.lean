import Gorilla.BlockManager.Handles
import Gorilla.Lib.Runs
import Gorilla.Server.PutHandlers
import Gorilla.Server.PutMetadata
import Gorilla.Server.Statuses

/-!
# Data first, metadata second

A client puts a block on its data server and, once that has replied, its descriptor on the
metadata servers. Any number of clients do so at once, and the threads of the triggers move
the statuses of what is registered.
-/

namespace Gorilla

open HandLock Runs

namespace MetaDataManager

variable {m : MetaDataManager} {step : Nat} {varName : String} {rde rde' : BlockDescriptor}

/-- The descriptor is in the list of some step, variable and data type. -/
def Stored (m : MetaDataManager) (rde : BlockDescriptor) : Prop :=
  ∃ step varName dataType list, m.endpointsOf step varName dataType = some list ∧ rde ∈ list

theorem stored_store (h : (m.store step varName rde').Stored rde) : m.Stored rde ∨ rde = rde' := by
  obtain ⟨step₁, varName₁, dataType, list, held, mem⟩ := h
  rw [endpointsOf_store] at held
  split at held
  · cases held
    rcases List.mem_append.mp mem with old | new
    · cases hl : m.endpointsOf step varName rde'.m_dataType with
      | none =>
        rw [hl] at old
        cases old
      | some list =>
        rw [hl] at old
        exact .inl ⟨step, varName, _, list, hl, old⟩
    · exact .inr (List.mem_singleton.mp new)
  · exact .inl ⟨step₁, varName₁, dataType, list, held, mem⟩

/-- A thread that moves a status changes nothing else of a descriptor. -/
theorem stored_updateStatus {dataType rawDataID : String} {newstatus : MetaStatus}
    (h : (exit (updateMetaDataStatus step varName dataType rawDataID newstatus m)).Stored rde) :
    ∃ old status, m.Stored old ∧ rde = { old with m_metaStatus := status } := by
  have same : m.Stored rde → ∃ old status, m.Stored old ∧
      rde = { old with m_metaStatus := status } :=
    fun h => ⟨rde, rde.m_metaStatus, h, rfl⟩
  cases free : m.m_metaDataMapMutex with
  | true =>
    rw [updateMetaDataStatus_busy free] at h
    exact same h
  | false =>
    cases hb : m.blockOf step varName with
    | none =>
      obtain ⟨what, run⟩ := updateMetaDataStatus_absent free hb dataType rawDataID newstatus
      rw [run] at h
      exact same h
    | some b =>
      rw [updateMetaDataStatus_run free hb] at h
      cases hl : b.m_metadataBlock.lookup dataType with
      | none =>
        rw [show b.updateMetaBlockStatus dataType rawDataID newstatus = _ from by
          rw [MetaDataBlock.updateMetaBlockStatus, hl]] at h
        exact same h
      | some list =>
        rw [show b.updateMetaBlockStatus dataType rawDataID newstatus = _ from by
          rw [MetaDataBlock.updateMetaBlockStatus, hl]] at h
        obtain ⟨step₁, varName₁, dataType₁, list₁, held, mem⟩ := h
        rw [exit_ok, endpointsOf, blockOf_putBlockOf] at held
        by_cases own : step₁ = step ∧ varName₁ = varName
        · obtain ⟨rfl, rfl⟩ := own
          rw [if_pos ⟨rfl, rfl⟩, Option.bind_some] at held
          have stored : ∀ {dt l bd}, b.m_metadataBlock.lookup dt = some l → bd ∈ l →
              m.Stored bd := by
            intro dt l bd hl hbd
            exact ⟨step₁, varName₁, dt, l, by rw [endpointsOf, hb, Option.bind_some, hl], hbd⟩
          by_cases ht : dataType₁ = dataType
          · subst ht
            rw [AList.lookup_insert] at held
            cases held
            obtain ⟨old, hold, rfl⟩ := List.mem_map.mp mem
            refine ⟨old, if old.m_rawDataID = rawDataID then newstatus else old.m_metaStatus,
              stored hl hold, ?_⟩
            split <;> rfl
          · rw [AList.lookup_insert_ne ht] at held
            exact same (stored held mem)
        · rw [if_neg own] at held
          exact same ⟨step₁, varName₁, dataType₁, list₁, held, mem⟩

end MetaDataManager

/-- One block a client puts: where its bytes go, and where its descriptor goes afterwards. -/
structure PutJob where
  m_associatedDataServer : String
  step : Nat
  varName : String
  request : PutRequest
  m_metaServerList : List String

namespace PutJob

def blockID (job : PutJob) : String := job.request.blockSummary.m_blockid

def bdesc (job : PutJob) : BlockDescriptor where
  m_rawDataServerAddr := job.m_associatedDataServer
  m_rawDataID := job.blockID
  m_dataType := job.request.blockSummary.m_dataType
  m_dims := job.request.blockSummary.m_dims
  m_indexlb := job.request.blockSummary.m_indexlb
  m_indexub := job.request.blockSummary.m_indexub

end PutJob

/-- Where `putVTKData` is: it waits for `putrawdata`, or has metadata servers left. -/
inductive ClientPhase
  | idle
  | putting (job : PutJob) (phase : PutPhase)
  | publishing (job : PutJob) (metaServers : List String)

/-- The block a client is at work on. -/
def ClientPhase.job : ClientPhase → Option PutJob
  | .idle => none
  | .putting job _ => some job
  | .publishing job _ => some job

/-- The servers, the clients, and the ids of the blocks put so far. -/
structure Publication (ι : Type) where
  servers : Servers
  client : ι → ClientPhase
  used : List String

inductive PublicationStep (ι : Type)
  | putVTKData (i : ι) (job : PutJob)
  | putrawdata (i : ι)
  | putmetadata (i : ι)
  | updateStatus (address : String) (step : Nat) (varName dataType rawDataID : String)
    (newstatus : MetaStatus)

/-- A thread of a trigger moves a status, or fails to. -/
def UniServer.withStatus (u : UniServer) (step : Nat) (varName dataType rawDataID : String)
    (newstatus : MetaStatus) : UniServer :=
  { u with m_metaManager := exit (MetaDataManager.updateMetaDataStatus step varName dataType
      rawDataID newstatus u.m_metaManager) }

namespace Publication

variable {ι : Type} [DecidableEq ι] {s t : Publication ι} {i j : ι} {job job' : PutJob}

def start (s : Publication ι) (i : ι) (job : PutJob) : Publication ι where
  servers := s.servers
  client := Function.update s.client i (.putting job .received)
  used := job.blockID :: s.used

def move (s : Publication ι) (i : ι) (phase : ClientPhase) (servers : Servers) :
    Publication ι where
  servers := servers
  client := Function.update s.client i phase
  used := s.used

/-- The reply of the data server, or its exception, reaches the client. -/
def afterPut (job : PutJob) : PutPhase → ClientPhase
  | .replied => .publishing job job.m_metaServerList
  | .failed => .idle
  | phase => .putting job phase

/-- A step of a client is one phase of a handler it waits for. -/
def step (act : PublicationStep ι) (s : Publication ι) :
    Except Stop (Publication ι) :=
  match act with
  | .putVTKData i job =>
    match s.client i with
    | .idle =>
      if job.blockID ∈ s.used then .error (.blocked "the id of another block")
      else .ok (s.start i job)
    | _ => .error (.blocked "putVTKData")
  | .putrawdata i =>
    match s.client i with
    | .putting job phase => do
      let (phase, u) ← job.request.handle phase (s.servers.server job.m_associatedDataServer)
      return s.move i (afterPut job phase) (s.servers.put job.m_associatedDataServer u)
    | _ => .error (.blocked "putrawdata")
  | .putmetadata i =>
    match s.client i with
    | .publishing _ [] => .ok (s.move i .idle s.servers)
    | .publishing job (address :: rest) => do
      let servers ← s.servers.serve address (Gorilla.putmetadata job.step job.varName job.bdesc)
      return s.move i (.publishing job rest) servers
    | _ => .error (.blocked "putmetadata")
  | .updateStatus address step varName dataType rawDataID newstatus =>
    let u := (s.servers.server address).withStatus step varName dataType rawDataID newstatus
    .ok { s with servers := s.servers.put address u }

/-- The block that a descriptor names is on the server it names, with the same box. -/
def Present (servers : Servers) (rde : BlockDescriptor) : Prop :=
  ∃ block, (servers.server rde.m_rawDataServerAddr).m_blockManager.block rde.m_rawDataID =
      some block ∧ block.m_blockSummary.m_dims = rde.m_dims ∧
    block.m_blockSummary.m_indexlb = rde.m_indexlb ∧ block.m_blockSummary.m_indexub = rde.m_indexub

/-- A server has the descriptor among its metadata. -/
def Published (servers : Servers) (rde : BlockDescriptor) : Prop :=
  ∃ address, (servers.server address).m_metaManager.Stored rde

/-- No descriptor dangles. -/
def Backed (servers : Servers) : Prop := ∀ rde, Published servers rde → Present servers rde

section Servers
variable {servers : Servers} {address : String} {u : UniServer} {rde : BlockDescriptor}

theorem block_put {a id : String} (same : a = address → u.m_blockManager.block id =
      (servers.server address).m_blockManager.block id) :
    ((servers.put address u).server a).m_blockManager.block id =
      (servers.server a).m_blockManager.block id := by
  rw [Servers.server_put]
  split
  · rename_i own
    rw [own, same own]
  · rfl

/-- A block stays present when its server keeps it. -/
theorem present_put (h : Present servers rde)
    (same : rde.m_rawDataServerAddr = address → u.m_blockManager.block rde.m_rawDataID =
      (servers.server address).m_blockManager.block rde.m_rawDataID) :
    Present (servers.put address u) rde := by
  unfold Present
  rw [block_put same]
  exact h

theorem holds_put {r : PutRequest} {a : String} (h : r.Holds (servers.server a))
    (same : a = address → u.m_blockManager.block r.blockSummary.m_blockid =
      (servers.server address).m_blockManager.block r.blockSummary.m_blockid) :
    r.Holds ((servers.put address u).server a) := by
  obtain ⟨block, held, summary⟩ := h
  exact ⟨block, (block_put same).trans held, summary⟩

theorem present_bdesc {job : PutJob}
    (h : job.request.Holds (servers.server job.m_associatedDataServer)) :
    Present servers job.bdesc := by
  obtain ⟨block, held, summary⟩ := h
  refine ⟨block, held, ?_⟩
  rw [summary]
  exact ⟨rfl, rfl, rfl⟩

theorem published_put {P : Prop} (h : Published (servers.put address u) rde)
    (new : u.m_metaManager.Stored rde → (servers.server address).m_metaManager.Stored rde ∨ P) :
    Published servers rde ∨ P := by
  obtain ⟨a, stored⟩ := h
  rw [Servers.server_put] at stored
  split at stored
  · exact (new stored).imp_left fun old => ⟨address, old⟩
  · exact .inl ⟨a, stored⟩

/-- Only the box and the names of a descriptor count. -/
theorem Present.congr {rde' : BlockDescriptor} (h : Present servers rde) {status : MetaStatus}
    (same : rde' = { rde with m_metaStatus := status }) : Present servers rde' := by
  subst same
  exact h

end Servers

/-- What holds between two steps of any parties. -/
structure Inv (s : Publication ι) : Prop where
  backed : Backed s.servers
  stored : ∀ i job, s.client i = .putting job (.settling none) ∨
    (∃ rest, s.client i = .publishing job rest) →
      job.request.Holds (s.servers.server job.m_associatedDataServer)
  fresh : ∀ i job phase, s.client i = .putting job phase → ∀ rde, Published s.servers rde →
    rde.m_rawDataID ≠ job.blockID
  apart : ∀ i j job job', (s.client i).job = some job → (s.client j).job = some job' → i ≠ j →
    job.blockID ≠ job'.blockID
  taken : ∀ i job, (s.client i).job = some job → job.blockID ∈ s.used
  known : ∀ rde, Published s.servers rde → rde.m_rawDataID ∈ s.used

theorem client_start (j : ι) :
    (s.start i job).client j = if j = i then .putting job .received else s.client j :=
  Function.update_apply s.client i _ j

theorem client_move (phase : ClientPhase) (servers : Servers) (j : ι) :
    (s.move i phase servers).client j = if j = i then phase else s.client j :=
  Function.update_apply s.client i phase j

/-- A client that stays at its block or stops keeps apart from the others. -/
theorem jobs_move (h : s.Inv) (phase : ClientPhase) (servers : Servers)
    (kept : ∀ job, phase.job = some job → (s.client i).job = some job) :
    (∀ j k job job', ((s.move i phase servers).client j).job = some job →
      ((s.move i phase servers).client k).job = some job' → j ≠ k → job.blockID ≠ job'.blockID) ∧
    ∀ j job, ((s.move i phase servers).client j).job = some job → job.blockID ∈ s.used := by
  have old : ∀ j job, ((s.move i phase servers).client j).job = some job →
      (s.client j).job = some job := by
    intro j job hj
    rw [client_move] at hj
    split at hj
    · rename_i own
      exact own ▸ kept job hj
    · exact hj
  exact ⟨fun j k job job' hj hk => h.apart j k job job' (old j job hj) (old k job' hk),
    fun j job hj => h.taken j job (old j job hj)⟩

theorem putVTKData_ok (h : step (.putVTKData i job) s = .ok t) :
    job.blockID ∉ s.used ∧ t = s.start i job := by
  simp only [step] at h
  split at h
  · split at h
    · cases h
    · rename_i new
      cases h
      exact ⟨new, rfl⟩
  · cases h

theorem inv_putVTKData (h : s.Inv) (hs : step (.putVTKData i job) s = .ok t) : t.Inv := by
  obtain ⟨new, rfl⟩ := putVTKData_ok hs
  have jobs : ∀ j job', ((s.start i job).client j).job = some job' →
      j = i ∧ job' = job ∨ (s.client j).job = some job' := by
    intro j job' hj
    rw [client_start] at hj
    split at hj
    · rename_i own
      exact .inl ⟨own, (Option.some.inj hj).symm⟩
    · exact .inr hj
  refine ⟨h.backed, ?_, ?_, ?_, ?_, fun rde hr => List.mem_cons_of_mem _ (h.known rde hr)⟩
  · intro j job' hj
    rw [client_start] at hj
    split at hj
    · simp at hj
    · exact h.stored j job' hj
  · intro j job' phase hj rde hr
    rw [client_start] at hj
    split at hj
    · cases hj
      exact fun same => new (same ▸ h.known rde hr)
    · exact h.fresh j job' phase hj rde hr
  · intro j k job₁ job₂ hj hk hne
    rcases jobs j job₁ hj with ⟨rfl, rfl⟩ | old <;> rcases jobs k job₂ hk with ⟨rfl, rfl⟩ | old'
    · exact absurd rfl hne
    · exact fun same => new (same ▸ h.taken k job₂ old')
    · exact fun same => new (same ▸ h.taken j job₁ old)
    · exact h.apart j k job₁ job₂ old old' hne
  · intro j job' hj
    rcases jobs j job' hj with ⟨_, rfl⟩ | old
    · exact List.mem_cons_self
    · exact List.mem_cons_of_mem _ (h.taken j job' old)

theorem putrawdata_ok (h : step (.putrawdata i) s = .ok t) :
    ∃ job phase phase' u, s.client i = .putting job phase ∧
      job.request.handle phase (s.servers.server job.m_associatedDataServer) = .ok (phase', u) ∧
      t = s.move i (afterPut job phase') (s.servers.put job.m_associatedDataServer u) := by
  simp only [step] at h
  split at h
  · rename_i job phase hc
    obtain ⟨⟨phase', u⟩, handled, done⟩ := bind_eq_ok.mp h
    cases done
    exact ⟨job, phase, phase', u, hc, handled, rfl⟩
  · cases h

theorem job_afterPut {phase : PutPhase} {job' : PutJob} (h : (afterPut job phase).job = some job') :
    job' = job := by
  cases phase <;> cases h <;> rfl

/-- The reply, or the charge that is left, is for a block that is stored. -/
theorem stored_of_afterPut {phase : PutPhase} {job' : PutJob}
    (h : afterPut job phase = .putting job' (.settling none) ∨
      ∃ rest, afterPut job phase = .publishing job' rest) :
    job' = job ∧ (phase = .settling none ∨ phase = .replied) := by
  rcases h with h | ⟨rest, h⟩
  · cases phase <;> cases h
    exact ⟨rfl, .inl rfl⟩
  · cases phase <;> cases h
    exact ⟨rfl, .inr rfl⟩

theorem inv_putrawdata (h : s.Inv) (hs : step (.putrawdata i) s = .ok t) : t.Inv := by
  obtain ⟨job, phase, phase', u, hc, handled, rfl⟩ := putrawdata_ok hs
  obtain ⟨metadata, leaves⟩ := PutRequest.handle_leaves handled
  have current : (s.client i).job = some job := by rw [hc]; rfl
  have published : ∀ rde, Published (s.servers.put job.m_associatedDataServer u) rde →
      Published s.servers rde := fun rde hr =>
    (published_put hr fun stored => .inl (metadata ▸ stored)).resolve_right id
  obtain ⟨apart, taken⟩ := jobs_move h (i := i) (afterPut job phase')
    (s.servers.put job.m_associatedDataServer u) fun job' hj => job_afterPut hj ▸ current
  refine ⟨?_, ?_, ?_, apart, taken, fun rde hr => h.known rde (published rde hr)⟩
  · intro rde hr
    have old := published rde hr
    exact present_put (h.backed rde old) fun _ => leaves.others (h.fresh i job phase hc rde old)
  · intro j job' hj
    rw [client_move] at hj
    split at hj
    · obtain ⟨rfl, done⟩ := stored_of_afterPut hj
      have held := PutRequest.holds_of_handle handled
        (fun settling => h.stored i job' (.inl (settling ▸ hc))) done
      show job'.request.Holds ((s.servers.put job'.m_associatedDataServer u).server _)
      rw [Servers.server_put, if_pos rfl]
      exact held
    · rename_i other
      have held := h.stored j job' hj
      have current' : (s.client j).job = some job' := by
        rcases hj with hj | ⟨rest, hj⟩ <;> rw [hj] <;> rfl
      have differ := h.apart j i job' job current' current other
      exact holds_put held fun _ => leaves.others differ
  · intro j job' phase₁ hj rde hr
    rw [client_move] at hj
    split at hj
    · have same : job' = job := by
        have hjob : (afterPut job phase').job = some job' := by rw [hj]; rfl
        exact job_afterPut hjob
      rw [same]
      exact h.fresh i job phase hc rde (published rde hr)
    · exact h.fresh j job' phase₁ hj rde (published rde hr)

omit [DecidableEq ι] in
/-- A server keeps its blocks, and what it registers is known or is being published. -/
theorem inv_servers {address : String} {u : UniServer} (h : s.Inv)
    (blocks : u.m_blockManager = (s.servers.server address).m_blockManager)
    (new : ∀ rde, u.m_metaManager.Stored rde → ∃ old status,
      rde = { old with m_metaStatus := status } ∧
        ((s.servers.server address).m_metaManager.Stored old ∨
          ∃ j job rest, s.client j = .publishing job rest ∧ old = job.bdesc)) :
    ({ s with servers := s.servers.put address u } : Publication ι).Inv := by
  have same : ∀ id, u.m_blockManager.block id =
      (s.servers.server address).m_blockManager.block id := fun id => by rw [blocks]
  have published : ∀ rde, Published (s.servers.put address u) rde → ∃ old status,
      rde = { old with m_metaStatus := status } ∧ (Published s.servers old ∨
        ∃ j job rest, s.client j = .publishing job rest ∧ old = job.bdesc) := by
    rintro rde ⟨a, stored⟩
    rw [Servers.server_put] at stored
    split at stored
    · obtain ⟨old, status, rfl, known⟩ := new rde stored
      exact ⟨old, status, rfl, known.imp_left fun stored => ⟨address, stored⟩⟩
    · exact ⟨rde, rde.m_metaStatus, rfl, .inl ⟨a, stored⟩⟩
  refine ⟨?_, fun i job hi => holds_put (h.stored i job hi) fun _ => same _, ?_, h.apart,
    h.taken, ?_⟩
  · intro rde hr
    obtain ⟨old, status, status_eq, known⟩ := published rde hr
    have present : Present s.servers old := by
      rcases known with known | ⟨j, job, rest, hj, rfl⟩
      · exact h.backed old known
      · exact present_bdesc (h.stored j job (.inr ⟨rest, hj⟩))
    exact present_put (present.congr status_eq) fun _ => same _
  · intro i job phase hi rde hr
    obtain ⟨old, status, rfl, known⟩ := published rde hr
    rcases known with known | ⟨j, job', rest, hj, rfl⟩
    · exact h.fresh i job phase hi old known
    · have ne : j ≠ i := by
        rintro rfl
        rw [hi] at hj
        cases hj
      exact h.apart j i job' job (by rw [hj]; rfl) (by rw [hi]; rfl) ne
  · intro rde hr
    obtain ⟨old, status, rfl, known⟩ := published rde hr
    rcases known with known | ⟨j, job', rest, hj, rfl⟩
    · exact h.known old known
    · exact h.taken j job' (by rw [hj]; rfl)

/-- A client that goes on publishing its block, or is done with it. -/
theorem inv_publishing {rest : List String} {phase : ClientPhase} (h : s.Inv)
    (hc : s.client i = .publishing job rest)
    (next : phase = .idle ∨ ∃ rest, phase = .publishing job rest) :
    (s.move i phase s.servers).Inv := by
  have kept : ∀ job', phase.job = some job' → (s.client i).job = some job' := by
    intro job' hj
    rcases next with rfl | ⟨rest', rfl⟩
    · cases hj
    · rw [hc]
      exact hj
  obtain ⟨apart, taken⟩ := jobs_move h phase s.servers kept
  refine ⟨h.backed, ?_, ?_, apart, taken, h.known⟩
  · intro j job' hj
    rw [client_move] at hj
    split at hj
    · rcases next with rfl | ⟨rest', rfl⟩
      · simp at hj
      · have same : job' = job := by simpa [eq_comm] using hj
        rw [same]
        exact h.stored i job (.inr ⟨rest, hc⟩)
    · exact h.stored j job' hj
  · intro j job' phase' hj
    rw [client_move] at hj
    split at hj
    · rcases next with rfl | ⟨rest', rfl⟩ <;> cases hj
    · exact h.fresh j job' phase' hj

theorem inv_putmetadata (h : s.Inv) (hs : step (.putmetadata i) s = .ok t) : t.Inv := by
  simp only [step] at hs
  split at hs
  · rename_i job hc
    cases hs
    exact inv_publishing h hc (.inl rfl)
  · rename_i job address rest hc
    obtain ⟨servers, served, done⟩ := bind_eq_ok.mp hs
    cases done
    obtain ⟨c, run, rfl⟩ := Servers.serve_eq_ok.mp served
    cases free : (s.servers.server address).m_metaManager.m_metaDataMapMutex with
    | true =>
      rw [putmetadata_busy free] at run
      cases run
    | false =>
      obtain ⟨timers, stored⟩ := putmetadata_run free job.step job.varName job.bdesc
      rw [stored] at run
      cases run
      have registered : ({ s with servers := s.servers.put address { s.servers.server address with
          m_metaManager := (s.servers.server address).m_metaManager.store job.step job.varName
            ((s.servers.server address).marked job.bdesc)
          m_timer_map := timers } } : Publication ι).Inv := by
        refine inv_servers h rfl fun rde hr => ?_
        obtain ⟨status, marked⟩ := (s.servers.server address).marked_eq job.bdesc
        rcases MetaDataManager.stored_store hr with old | rfl
        · exact ⟨rde, rde.m_metaStatus, rfl, .inl old⟩
        · exact ⟨job.bdesc, status, marked, .inr ⟨i, job, address :: rest, hc, rfl⟩⟩
      exact inv_publishing registered hc (.inr ⟨rest, rfl⟩)
  · cases hs

theorem inv_updateStatus {address : String} {step' : Nat} {varName dataType rawDataID : String}
    {newstatus : MetaStatus} (h : s.Inv)
    (hs : step (.updateStatus address step' varName dataType rawDataID newstatus) s = .ok t) :
    t.Inv := by
  cases hs
  refine inv_servers h rfl fun rde hr => ?_
  obtain ⟨old, status, known, rfl⟩ := MetaDataManager.stored_updateStatus hr
  exact ⟨old, status, rfl, .inl known⟩

theorem inv_step {act : PublicationStep ι} (h : s.Inv) (hs : step act s = .ok t) : t.Inv := by
  cases act with
  | putVTKData i job => exact inv_putVTKData h hs
  | putrawdata i => exact inv_putrawdata h hs
  | putmetadata i => exact inv_putmetadata h hs
  | updateStatus => exact inv_updateStatus h hs

/-- No metadata is registered and no client is at work, whatever blocks the servers have. -/
def init (servers : Servers) : Publication ι where
  servers := { servers with server := fun address =>
    { servers.server address with
      m_metaManager := { (servers.server address).m_metaManager with m_metaDataMap := ∅ } } }
  client _ := .idle
  used := []

omit [DecidableEq ι] in
theorem inv_init (servers : Servers) : (init servers : Publication ι).Inv := by
  have none : ∀ rde, ¬ Published (init servers : Publication ι).servers rde := by
    rintro rde ⟨address, step, varName, dataType, list, held, _⟩
    cases held
  refine ⟨fun rde hr => absurd hr (none rde), ?_, fun _ _ _ hi => ?_, ?_, ?_,
    fun rde hr => absurd hr (none rde)⟩
  · rintro i job (hi | ⟨rest, hi⟩) <;> cases hi
  · cases hi
  · intro i j job job' hi
    cases hi
  · intro i job hi
    cases hi

/-- However the clients and the threads interleave, a descriptor is registered only while its
block is on the server it names, with the box it names. -/
theorem published_present {servers : Servers} {acts : List (PublicationStep ι)}
    (run : Run (Steps step) (init servers) acts t) :
    ∀ rde, Published t.servers rde → Present t.servers rde :=
  (run.invariant (inv_init servers) fun _ _ _ h hs => inv_step h hs).backed

/-- A block of one cell, of a client that exposes one byte. -/
def cellJob (rank : Int) (blockID : String) : PutJob where
  m_associatedDataServer := "server0"
  step := 0
  varName := "density"
  request :=
    { out :=
        { endpoint := blockID
          exposed := fun _ => .ok [some 7]
          sendTo := fun _ => .ok ()
          lookup := .ok
          eraseRawData := fun _ _ => .ok ()
          UnMarshalDataObject := .ok }
      clientID := rank
      blockSummary :=
        { m_dataType := DATATYPE_CARGRID
          m_blockid := blockID
          m_dims := 1
          m_arrayList := [{ m_arrayName := blockID, m_elemSize := 1, m_elemNum := 1 }] } }
  m_metaServerList := ["server1"]

/-- Two clients, the first of which is published while the other is still putting. -/
def twoClients : List (PublicationStep Bool) :=
  [.putVTKData true (cellJob 0 "density_0_0"), .putVTKData false (cellJob 1 "density_0_1"),
    .putrawdata true, .putrawdata false, .putrawdata true, .putrawdata true, .putrawdata false,
    .putrawdata true, .putrawdata true, .putmetadata true, .putrawdata false]

theorem twoClients_present : ∃ t, Run (Steps step) (init { server := fun _ => {} }) twoClients t ∧
    Published t.servers (cellJob 0 "density_0_0").bdesc ∧
    ∀ rde, Published t.servers rde → Present t.servers rde := by
  obtain ⟨t, ht, stored⟩ : ∃ t, runs step twoClients (init { server := fun _ => {} }) = .ok t ∧
      (t.servers.server "server1").m_metaManager.endpointsOf 0 "density" DATATYPE_CARGRID =
        some [(cellJob 0 "density_0_0").bdesc] := ⟨_, rfl, by decide +kernel⟩
  exact ⟨t, .of_runs ht, ⟨"server1", 0, "density", _, _, stored, List.mem_singleton_self _⟩,
    published_present (.of_runs ht)⟩

end Publication

end Gorilla
