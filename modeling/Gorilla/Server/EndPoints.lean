import Gorilla.Client.ClientForStaging
import Gorilla.Lib.Runs

/-!
# Who an aggregation asks

The list of the servers is filled once at the start. Every cached lookup and every watcher that
registers fills the same map.
-/

namespace Gorilla

open HandLock Runs

/-- What can add an address to the map. The network may answer differently each time. -/
inductive EndPointCall
  | initEndPoints (out : Outside) (serverList : List String)
  | lookup (out : Outside) (address : String)
  | registerWatcher (out : Outside) (watcherAddr : String) (triggerNames : List String)
  | notifyBack (out : Outside) (rcvNotify : Endpoint → BlockSummary → Except Stop Unit)
    (watcherAddr : String) (bs : BlockSummary)
  | putTriggerInfo (triggerName : String) (dti : DynamicTriggerInfo)

/-- The server, and the addresses passed to `initEndPoints` so far. -/
structure StagingGroup where
  server : UniServer
  serverList : List String := []

namespace StagingGroup

variable {s t : StagingGroup} {out : Outside} {a addr : String}

def onClient {α : Type} (x : EStateM Stop ClientForStaging α) (s : UniServer) : UniServer :=
  { s with clientStaging := exit (x s.clientStaging) }

/-- A call leaves what it wrote before it threw. -/
def after (call : EndPointCall) (s : StagingGroup) : StagingGroup :=
  match call with
  | .initEndPoints out serverList =>
    { server := onClient (ClientForStaging.initEndPoints out serverList) s.server
      serverList := s.serverList ++ serverList }
  | .lookup out address =>
    { s with server := onClient (ClientForStaging.lookup out address) s.server }
  | .registerWatcher out watcherAddr triggerNames =>
    { s with server := (registerWatcher out watcherAddr triggerNames).after s.server }
  | .notifyBack out rcvNotify watcherAddr bs =>
    { s with
      server := onClient (ClientForStaging.notifyBack out rcvNotify watcherAddr bs) s.server }
  | .putTriggerInfo triggerName dti =>
    { s with server := (putTriggerInfo triggerName dti).after s.server }

def step (call : EndPointCall) (s : StagingGroup) : Except Stop StagingGroup := .ok (after call s)

/-- The addresses an aggregation iterates over. -/
def contacted (s : StagingGroup) : List String := s.server.clientStaging.contacts.map fun kv => kv.1

/-- Every staging server is asked once, and nobody else. -/
def Exact (s : StagingGroup) : Prop :=
  s.contacted.Nodup ∧ ∀ addr, addr ∈ s.contacted ↔ addr ∈ s.serverList

/-- The engine resolves the address. -/
def Resolves (out : Outside) (address : String) : Bool := (out.lookup address).isOk

/-- A call adds addresses of staging servers only, and all of those it is given. -/
def Known (call : EndPointCall) (s : StagingGroup) : Prop :=
  match call with
  | .initEndPoints out serverList =>
    ∀ address ∈ serverList.dropWhile (Resolves out),
      address ∈ s.serverList ∨ address ∈ serverList.takeWhile (Resolves out)
  | .lookup out address => Resolves out address → address ∈ s.serverList
  | .notifyBack out _ watcherAddr _ => Resolves out watcherAddr → watcherAddr ∈ s.serverList
  | .registerWatcher out watcherAddr triggerNames =>
    Resolves out watcherAddr → s.server.m_dtmanager.m_watcherSetMutex = false →
      (∃ name ∈ triggerNames, (s.server.m_dtmanager.m_dynamicTrigger.lookup name).isSome) →
        watcherAddr ∈ s.serverList
  | .putTriggerInfo _ _ => True

end StagingGroup

namespace ClientForStaging

variable {m : ClientForStaging} {out : Outside}

/-- The address is in the map. -/
def Has (m : ClientForStaging) (addr : String) : Prop := (m.m_serverToEndpoints.lookup addr).isSome

theorem mem_contacts (addr : String) : addr ∈ m.contacts.map (fun kv => kv.1) ↔ m.Has addr := by
  unfold contacts Has
  rw [List.mem_map, Option.isSome_iff_exists]
  constructor
  · rintro ⟨kv, hkv, rfl⟩
    exact ⟨kv.2, mem_sortedEntries.mp hkv⟩
  · rintro ⟨endpoint, he⟩
    exact ⟨⟨addr, endpoint⟩, mem_sortedEntries.mpr he, rfl⟩

theorem nodup_contacts : (m.contacts.map fun kv => kv.1).Nodup := by
  unfold contacts sortedEntries
  have keys : (m.m_serverToEndpoints.entries.map Sigma.fst).Nodup :=
    m.m_serverToEndpoints.nodupKeys
  exact ((List.perm_insertionSort _ _).map _).nodup_iff.mpr keys

theorem has_cacheEndpoint (address : String) (endpoint : Endpoint) (addr : String) :
    (m.cacheEndpoint address endpoint).Has addr ↔ addr = address ∨ m.Has addr := by
  unfold Has cacheEndpoint
  by_cases h : addr = address
  · subst h
    simp
  · simp [h, AList.lookup_insert_ne h]

theorem resolves_iff {address : String} :
    StagingGroup.Resolves out address ↔ ∃ endpoint, out.lookup address = .ok endpoint := by
  unfold StagingGroup.Resolves
  cases out.lookup address <;> simp [Except.isOk, Except.toBool]

theorem has_lookup (address addr : String) :
    (exit (lookup out address m)).Has addr ↔
      m.Has addr ∨ addr = address ∧ StagingGroup.Resolves out address := by
  rw [resolves_iff]
  cases hm : m.m_serverToEndpoints.lookup address with
  | some endpoint =>
    have run : lookup out address m = .ok endpoint m := by
      simp [lookup, bind, EStateM.bind, get_run, hm, pure, EStateM.pure]
    rw [run, exit_ok]
    refine ⟨.inl, fun h => h.elim id fun h => ?_⟩
    rw [h.1, Has, hm]
    rfl
  | none =>
    cases hr : out.lookup address with
    | ok endpoint =>
      have run : lookup out address m = .ok endpoint (m.cacheEndpoint address endpoint) := by
        simp [lookup, bind, EStateM.bind, get_run, hm, hr, raise, runIn, modify_run, pure,
          EStateM.pure, liftM, monadLift, MonadLift.monadLift]
      rw [run, exit_ok, has_cacheEndpoint]
      simp [or_comm]
    | error what =>
      have run : lookup out address m = .error (.runtime_error what) m := by
        simp [lookup, bind, EStateM.bind, get_run, hm, hr,
          raise, runIn, liftM, monadLift, MonadLift.monadLift]
      rw [run, exit_error]
      simp

theorem has_initEndPoints (serverList : List String) (addr : String) :
    (exit (initEndPoints out serverList m)).Has addr ↔
      m.Has addr ∨ addr ∈ serverList.takeWhile (StagingGroup.Resolves out) := by
  induction serverList generalizing m with
  | nil => simp [initEndPoints, pure, EStateM.pure]
  | cons address rest ih =>
    cases hr : out.lookup address with
    | ok endpoint =>
      have resolves : StagingGroup.Resolves out address = true := resolves_iff.mpr ⟨endpoint, hr⟩
      have run : initEndPoints out (address :: rest) m =
          initEndPoints out rest (m.cacheEndpoint address endpoint) := by
        simp [initEndPoints, List.forM_cons, bind, EStateM.bind, hr, raise, runIn, modify_run,
          liftM, monadLift, MonadLift.monadLift]
      rw [run, ih, has_cacheEndpoint, List.takeWhile_cons_of_pos resolves, List.mem_cons]
      tauto
    | error what =>
      have fails : ¬ StagingGroup.Resolves out address = true := by simp [resolves_iff, hr]
      have run : initEndPoints out (address :: rest) m = .error (.runtime_error what) m := by
        simp [initEndPoints, List.forM_cons, bind, EStateM.bind, hr, raise, runIn, liftM,
          monadLift, MonadLift.monadLift]
      rw [run, exit_error, List.takeWhile_cons_of_neg fails]
      simp

theorem has_notifyBack (rcvNotify : Endpoint → BlockSummary → Except Stop Unit)
    (watcherAddr : String) (bs : BlockSummary) (addr : String) :
    (exit (notifyBack out rcvNotify watcherAddr bs m)).Has addr ↔
      m.Has addr ∨ addr = watcherAddr ∧ StagingGroup.Resolves out watcherAddr := by
  rw [← has_lookup]
  unfold notifyBack
  cases h : lookup out watcherAddr m with
  | error e m' =>
    rw [bind_error h]
    exact Iff.rfl
  | ok endpoint m' =>
    rw [bind_ok h]
    cases rcvNotify endpoint bs <;> exact Iff.rfl

end ClientForStaging

namespace StagingGroup

variable {u u' : UniServer} {out : Outside} {watcherAddr name : String}

/-- A trigger of the name is registered on the server. -/
def Registered (u : UniServer) (name : String) : Prop :=
  (u.m_dtmanager.m_dynamicTrigger.lookup name).isSome

theorem watch_skips (h : ¬ Registered u name) : watch out watcherAddr name u = .ok () u := by
  unfold Registered at h
  simp [watch, bind, EStateM.bind, get_run, h, pure, EStateM.pure]

theorem watch_registered (h : Registered u name) : watch out watcherAddr name u =
    region watcherSetMutex (.blocked "m_watcherSetMutex") (addWatcher out watcherAddr) u := by
  unfold Registered at h
  simp [watch, bind, EStateM.bind, get_run, h]

/-- A watcher that can be looked up is cached, and the set is free again. -/
theorem watch_ok {endpoint : Endpoint} (h : Registered u name)
    (free : u.m_dtmanager.m_watcherSetMutex = false)
    (hr : out.lookup watcherAddr = .ok endpoint) :
    ∃ u', watch out watcherAddr name u = .ok () u' ∧
      u'.clientStaging = u.clientStaging.cacheEndpoint watcherAddr endpoint ∧
      u'.m_dtmanager.m_dynamicTrigger = u.m_dtmanager.m_dynamicTrigger ∧
      u'.m_dtmanager.m_watcherSetMutex = false := by
  have body : ∃ v, addWatcher out watcherAddr (watcherSetMutex.put true u) = .ok () v ∧
      v.clientStaging = u.clientStaging.cacheEndpoint watcherAddr endpoint ∧
      v.m_dtmanager.m_dynamicTrigger = u.m_dtmanager.m_dynamicTrigger := by
    unfold addWatcher
    rw [hr]
    exact ⟨_, rfl, rfl, rfl⟩
  obtain ⟨v, run, cached, triggers⟩ := body
  exact ⟨_, (watch_registered h).trans (region_ok free run), cached, triggers, rfl⟩

/-- A watcher that cannot be looked up, or has to wait for the set, is not cached. -/
theorem watch_fails (h : Registered u name)
    (fails : u.m_dtmanager.m_watcherSetMutex = true ∨
      ∃ what, out.lookup watcherAddr = .error what) :
    ∃ e u', watch out watcherAddr name u = .error e u' ∧ u'.clientStaging = u.clientStaging := by
  cases hm : u.m_dtmanager.m_watcherSetMutex with
  | true =>
    exact ⟨_, u, (watch_registered h).trans (region_busy hm), rfl⟩
  | false =>
    obtain ⟨what, hr⟩ := fails.resolve_left (by simp [hm])
    have body : ∃ v, addWatcher out watcherAddr (watcherSetMutex.put true u) =
        .error (.runtime_error what) v ∧ v.clientStaging = u.clientStaging := by
      unfold addWatcher
      rw [hr]
      exact ⟨_, rfl, rfl⟩
    obtain ⟨v, run, kept⟩ := body
    exact ⟨_, v, (watch_registered h).trans (region_error hm run), kept⟩

/-- The watcher is cached when one of its triggers is registered and it can be. -/
theorem has_watches (triggerNames : List String) (addr : String) :
    (exit (triggerNames.forM (watch out watcherAddr) u)).clientStaging.Has addr ↔
      u.clientStaging.Has addr ∨ addr = watcherAddr ∧ Resolves out watcherAddr ∧
        u.m_dtmanager.m_watcherSetMutex = false ∧ ∃ name ∈ triggerNames, Registered u name := by
  induction triggerNames generalizing u with
  | nil => simp [pure, EStateM.pure]
  | cons name rest ih =>
    rw [show (name :: rest).forM (watch out watcherAddr) =
      (watch out watcherAddr name >>= fun _ => rest.forM (watch out watcherAddr)) from rfl]
    by_cases h : Registered u name
    · by_cases caches : u.m_dtmanager.m_watcherSetMutex = false ∧ Resolves out watcherAddr
      · obtain ⟨free, resolves⟩ := caches
        obtain ⟨endpoint, hr⟩ := ClientForStaging.resolves_iff.mp resolves
        obtain ⟨u', run, cached, triggers, free'⟩ := watch_ok h free hr
        rw [bind_ok run, ih, cached, ClientForStaging.has_cacheEndpoint]
        have first : ∃ name' ∈ name :: rest, Registered u name' := ⟨name, List.mem_cons_self, h⟩
        simp only [free, resolves, first, true_and, and_true]
        tauto
      · have fails : u.m_dtmanager.m_watcherSetMutex = true ∨
            ∃ what, out.lookup watcherAddr = .error what := by
          cases hm : u.m_dtmanager.m_watcherSetMutex with
          | true => exact .inl rfl
          | false =>
            refine .inr ?_
            cases hr : out.lookup watcherAddr with
            | error what => exact ⟨what, rfl⟩
            | ok endpoint =>
              exact absurd ⟨hm, ClientForStaging.resolves_iff.mpr ⟨endpoint, hr⟩⟩ caches
        obtain ⟨e, u', run, kept⟩ := watch_fails h fails
        rw [bind_error run, exit_error, kept]
        refine ⟨.inl, fun h => h.elim id fun h => absurd ⟨h.2.2.1, h.2.1⟩ caches⟩
    · rw [bind_ok (watch_skips h), ih]
      simp [h]

theorem after_registerWatcher (triggerNames : List String) :
    (registerWatcher out watcherAddr triggerNames).after u =
      exit (triggerNames.forM (watch out watcherAddr) u) := by
  unfold Handler.after registerWatcher Handler.onServer
  cases h : triggerNames.forM (watch out watcherAddr) u with
  | ok _ u' =>
    rw [bind_ok (zoom_ok (t := (⟨u, []⟩ : Call Int)) h)]
    rfl
  | error e u' =>
    rw [bind_error (zoom_error (t := (⟨u, []⟩ : Call Int)) h)]
    rfl

variable {s t : StagingGroup} {call : EndPointCall}

/-- The addresses a call puts into the map. -/
def Adds (call : EndPointCall) (s : StagingGroup) (addr : String) : Prop :=
  match call with
  | .initEndPoints out serverList => addr ∈ serverList.takeWhile (Resolves out)
  | .lookup out address => addr = address ∧ Resolves out address
  | .registerWatcher out watcherAddr triggerNames =>
    addr = watcherAddr ∧ Resolves out watcherAddr ∧
      s.server.m_dtmanager.m_watcherSetMutex = false ∧
      ∃ name ∈ triggerNames, Registered s.server name
  | .notifyBack out _ watcherAddr _ => addr = watcherAddr ∧ Resolves out watcherAddr
  | .putTriggerInfo _ _ => False

theorem mem_contacted_after (addr : String) :
    addr ∈ (after call s).contacted ↔ addr ∈ s.contacted ∨ Adds call s addr := by
  unfold contacted
  rw [ClientForStaging.mem_contacts, ClientForStaging.mem_contacts]
  cases call with
  | initEndPoints out serverList => exact ClientForStaging.has_initEndPoints serverList addr
  | lookup out address => exact ClientForStaging.has_lookup address addr
  | registerWatcher out watcherAddr triggerNames =>
    show ((registerWatcher out watcherAddr triggerNames).after s.server).clientStaging.Has addr ↔ _
    rw [after_registerWatcher]
    exact has_watches triggerNames addr
  | notifyBack out rcvNotify watcherAddr bs =>
    exact ClientForStaging.has_notifyBack rcvNotify watcherAddr bs addr
  | putTriggerInfo triggerName dti => exact (or_iff_left not_false).symm

/-- A call leaves the list exact when what it adds are the servers it is given. -/
theorem exact_after_iff (h : s.Exact) : (after call s).Exact ↔ Known call s := by
  obtain ⟨_, exact⟩ := h
  have nodup : (after call s).contacted.Nodup := ClientForStaging.nodup_contacts
  simp only [Exact, nodup, true_and, mem_contacted_after, exact]
  cases call with
  | initEndPoints out serverList =>
    have split : ∀ addr, addr ∈ serverList ↔
        addr ∈ serverList.takeWhile (Resolves out) ∨
          addr ∈ serverList.dropWhile (Resolves out) := by
      intro addr
      rw [← List.mem_append, List.takeWhile_append_dropWhile]
    simp only [after, Adds, Known, List.mem_append, split]
    constructor
    · intro all addr hdrop
      exact (all addr).mpr (.inr (.inr hdrop))
    · intro known addr
      have := known addr
      tauto
  | lookup out address =>
    simp only [after, Adds, Known]
    constructor
    · intro all resolves
      exact (all address).mp (.inr ⟨rfl, resolves⟩)
    · rintro known addr
      refine ⟨fun h => h.elim id ?_, .inl⟩
      rintro ⟨rfl, resolves⟩
      exact known resolves
  | registerWatcher out watcherAddr triggerNames =>
    simp only [after, Adds, Known]
    constructor
    · intro all resolves free registered
      exact (all watcherAddr).mp (.inr ⟨rfl, resolves, free, registered⟩)
    · rintro known addr
      refine ⟨fun h => h.elim id ?_, .inl⟩
      rintro ⟨rfl, resolves, free, registered⟩
      exact known resolves free registered
  | notifyBack out rcvNotify watcherAddr bs =>
    simp only [after, Adds, Known]
    constructor
    · intro all resolves
      exact (all watcherAddr).mp (.inr ⟨rfl, resolves⟩)
    · rintro known addr
      refine ⟨fun h => h.elim id ?_, .inl⟩
      rintro ⟨rfl, resolves⟩
      exact known resolves
  | putTriggerInfo triggerName dti => simp [after, Adds, Known]

/-- A server whose client has not looked up anything yet. -/
def init (server : UniServer) : StagingGroup := { server := { server with clientStaging := {} } }

theorem exact_init (server : UniServer) : (init server).Exact := by
  refine ⟨ClientForStaging.nodup_contacts, fun addr => ?_⟩
  unfold contacted
  rw [ClientForStaging.mem_contacts]
  simp [init, ClientForStaging.Has]

/-- The calls after which the list is exact. -/
def StaysExact (call : EndPointCall) (s : StagingGroup) : Prop := (after call s).Exact

theorem exact_of_run {server : UniServer} {calls : List EndPointCall}
    (run : Run (Meeting StaysExact (Steps step)) (init server) calls t) : t.Exact :=
  run.invariant (exact_init server) fun _ _ _ _ hs => by
    obtain ⟨stays, hstep⟩ := hs
    cases hstep
    exact stays

/-- The runs in which an aggregation asks every server once, and nobody else, are those in which
only servers are looked up, watch or are notified. -/
theorem exact_run_iff {server : UniServer} {calls : List EndPointCall} :
    Run (Meeting StaysExact (Steps step)) (init server) calls t ↔
      Run (Meeting Known (Steps step)) (init server) calls t :=
  Run.meeting_iff fun _ _ _ _ run _ => exact_after_iff (exact_of_run run)

/-- A client that watches a trigger is asked for blocks. -/
def reachable : Outside where
  endpoint := ""
  exposed _ := .ok []
  sendTo _ := .ok ()
  lookup := .ok
  eraseRawData _ _ := .ok ()
  UnMarshalDataObject := .ok

def watching : List EndPointCall :=
  [.initEndPoints reachable ["server0", "server1"], .putTriggerInfo "density" {},
    .registerWatcher reachable "client" ["density"]]

theorem watcher_contacted :
    ∃ t, Run (Steps step) (init {}) watching t ∧ t.serverList = ["server0", "server1"] ∧
      "client" ∈ t.contacted ∧ ¬ t.Exact := by
  obtain ⟨t, ht, servers, contacted⟩ : ∃ t, runs step watching (init {}) = .ok t ∧
      t.serverList = ["server0", "server1"] ∧
      t.server.clientStaging.m_serverToEndpoints.lookup "client" = some "client" :=
    ⟨_, rfl, rfl, rfl⟩
  have mem : "client" ∈ t.contacted := by
    rw [StagingGroup.contacted, ClientForStaging.mem_contacts, ClientForStaging.Has, contacted]
    rfl
  refine ⟨t, .of_runs ht, servers, mem, fun exact => ?_⟩
  have := (exact.2 "client").mp mem
  rw [servers] at this
  simp at this

end StagingGroup

end Gorilla
