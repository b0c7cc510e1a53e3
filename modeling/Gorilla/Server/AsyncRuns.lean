import Gorilla.BlockManager.Calls
import Gorilla.Lib.Moves
import Gorilla.Server.AsyncMetrics
import Gorilla.Server.PutPhases

/-!
# What tasks leave in any order

The timers, the count of the threads and the metrics of a server are those of its tasks, whatever
comes between their steps.
-/

namespace Gorilla

open HandLock Handler Runs Activities

/-- The numbers given to clients are positive, and each has one client. -/
structure ClientForStaging.Numbered (m : ClientForStaging) : Prop where
  base : 0 ≤ m.m_base
  range : ∀ client c, m.m_clientAddrToID.lookup client = some c → 1 ≤ c ∧ c ≤ m.m_base
  distinct : ∀ client client' c, m.m_clientAddrToID.lookup client = some c →
    m.m_clientAddrToID.lookup client' = some c → client = client'

theorem ClientForStaging.Numbered.cache {m m' : ClientForStaging} {client : String}
    (h : m.Numbered) (cached : m.cacheClientAddr client = .ok m') :
    m'.Numbered ∧ ∀ other c, m.m_clientAddrToID.lookup other = some c →
      m'.m_clientAddrToID.lookup other = some c := by
  unfold cacheClientAddr at cached
  cases known : m.m_clientAddrToID.lookup client with
  | some c =>
    rw [known] at cached
    cases cached
    exact ⟨h, fun _ _ found => found⟩
  | none =>
    rw [known] at cached
    obtain ⟨m_base, next, made⟩ := bind_eq_ok.mp cached
    obtain ⟨_, rfl⟩ := int_eq_ok.mp next
    cases made
    have kept : ∀ other c, m.m_clientAddrToID.lookup other = some c → other ≠ client := by
      rintro other c found rfl
      rw [known] at found
      cases found
    have cases_of : ∀ {other c}, (m.m_clientAddrToID.insert client (m.m_base + 1)).lookup other =
        some c → (other = client ∧ c = m.m_base + 1) ∨
          m.m_clientAddrToID.lookup other = some c := by
      intro other c found
      by_cases own : other = client
      · subst own
        rw [AList.lookup_insert] at found
        exact .inl ⟨rfl, (Option.some.inj found).symm⟩
      · rw [AList.lookup_insert_ne own] at found
        exact .inr found
    have base := h.base
    refine ⟨⟨?_, fun other c found => ?_, fun other other' c found found' => ?_⟩,
      fun other c found => ?_⟩
    · show 0 ≤ m.m_base + 1
      omega
    · show 1 ≤ c ∧ c ≤ m.m_base + 1
      rcases cases_of found with ⟨_, rfl⟩ | earlier
      · omega
      · have range := h.range other c earlier
        omega
    · rcases cases_of found with ⟨rfl, rfl⟩ | earlier <;>
        rcases cases_of found' with ⟨rfl, same⟩ | earlier'
      · rfl
      · have range := h.range other' _ earlier'
        omega
      · have range := h.range other _ earlier
        omega
      · exact h.distinct other other' c earlier earlier'
    · exact (AList.lookup_insert_ne (kept other c found)).trans found

/-- The numbers of the clients are the same. -/
structure ClientForStaging.SameNumbers (m m' : ClientForStaging) : Prop where
  ids : m'.m_clientAddrToID = m.m_clientAddrToID
  base : m'.m_base = m.m_base

theorem ClientForStaging.SameNumbers.refl (m : ClientForStaging) : m.SameNumbers m := ⟨rfl, rfl⟩

theorem ClientForStaging.SameNumbers.trans {m m' m'' : ClientForStaging} (h : m.SameNumbers m')
    (h' : m'.SameNumbers m'') : m.SameNumbers m'' :=
  ⟨h'.ids.trans h.ids, h'.base.trans h.base⟩

/-- A lookup gives no client a number. -/
theorem ClientForStaging.sameNumbers_lookup (out : Outside) (address : String) :
    Moves SameNumbers (ClientForStaging.lookup out address) := by
  refine (moves_get SameNumbers.refl).bind SameNumbers.trans fun m => ?_
  split
  · exact moves_pure SameNumbers.refl _
  · refine Moves.bind SameNumbers.trans (fun _ => ?_) fun _ =>
      (moves_modify fun m => ⟨rfl, rfl⟩).bind SameNumbers.trans fun _ =>
        moves_pure SameNumbers.refl _
    cases out.lookup address <;> exact .refl _

theorem ClientForStaging.lookup_error {out : Outside} {address : String} {e : Stop}
    {m m' : ClientForStaging} (run : ClientForStaging.lookup out address m = .error e m') :
    ∃ what, e = .runtime_error what := by
  unfold ClientForStaging.lookup at run
  rw [bind_ok (get_run m)] at run
  cases found : m.m_serverToEndpoints.lookup address with
  | some endpoint =>
    rw [found] at run
    cases run
  | none =>
    rw [found] at run
    rcases bind_run_eq_error.mp run with raised | ⟨endpoint, _, _, rest⟩
    · cases own : out.lookup address with
      | ok endpoint =>
        rw [own] at raised
        cases raised
      | error what =>
        rw [own] at raised
        cases raised
        exact ⟨what, rfl⟩
    · cases rest

theorem ClientForStaging.isSome_cache {m m' : ClientForStaging} {client : String}
    (cached : m.cacheClientAddr client = .ok m') (other : String) :
    (m'.m_clientAddrToID.lookup other).isSome ↔
      (m.m_clientAddrToID.lookup other).isSome ∨ client = other := by
  unfold cacheClientAddr at cached
  cases known : m.m_clientAddrToID.lookup client with
  | some c =>
    rw [known] at cached
    cases cached
    refine (or_iff_left_of_imp ?_).symm
    rintro rfl
    rw [known]
    rfl
  | none =>
    rw [known] at cached
    obtain ⟨m_base, next, made⟩ := bind_eq_ok.mp cached
    cases made
    show ((m.m_clientAddrToID.insert client m_base).lookup other).isSome ↔ _
    by_cases own : other = client
    · subst own
      rw [AList.lookup_insert]
      exact iff_of_true rfl (.inr rfl)
    · rw [AList.lookup_insert_ne own]
      exact (or_iff_left (Ne.symm own)).symm

namespace AsyncService

/-- The timer of a task, and whether it is counted. -/
def held (t : AsyncTask × AsyncPhase) : Option String := t.2.holds t.1

def counted (t : AsyncTask × AsyncPhase) : Bool := t.2.counts

/-- The name of the array to which a task is about to add. -/
def opened (t : AsyncTask × AsyncPhase) : Option String :=
  t.2.opens.map fun ana => Span.key ana t.1.clientid

/-- Every live timer is of one task or of one other request. -/
structure TimersOf (timers : List String) (tasks : List (AsyncTask × AsyncPhase))
    (others : List String) : Prop where
  perm : timers.Perm (tasks.filterMap held ++ others)
  nodup : timers.Nodup

/-- No timer of a task was gone when the task ended it, only functions that may throw did, and
only last tasks asked for the master. -/
structure Proper (t : AsyncTask × AsyncPhase) : Prop where
  stray : t.2 ≠ .stray
  threw : t.2 = .threw → t.1.MayThrow
  unticked : t.2 = .unticked → t.1.ifLastStep = true

/-- The clients of the tasks and of the spans have the numbers that these carry. -/
structure Known (m : ClientForStaging) (tasks : List (AsyncTask × AsyncPhase))
    (spans : List Span) : Prop where
  numbered : m.Numbered
  tasks : ∀ t ∈ tasks, m.m_clientAddrToID.lookup t.1.client = some t.1.clientid
  spans : ∀ span ∈ spans, m.m_clientAddrToID.lookup span.client = some span.clientid

structure Inv (s : AsyncService) : Prop where
  timers : TimersOf s.server.m_timer_map s.tasks s.others
  running : s.server.m_metricManager.m_runningThreads = s.tasks.countP counted
  proper : ∀ t ∈ s.tasks, Proper t
  known : Known s.server.clientStaging s.tasks s.spans
  metrics : s.server.m_metricManager.Tracks (Span.log s.spans) (s.tasks.filterMap opened)

variable {timers others : List String} {tasks : List (AsyncTask × AsyncPhase)} {i : Nat}
  {task : AsyncTask} {phase next : AsyncPhase} {name : String}

theorem Known.same {m m' : ClientForStaging} {spans : List Span} (h : Known m tasks spans)
    (same : m.SameNumbers m') : Known m' tasks spans := by
  obtain ⟨ids, base⟩ := same
  refine ⟨⟨base ▸ h.numbered.base, fun client c found => ?_, ?_⟩, ?_, ?_⟩
  · rw [base]
    exact h.numbered.range client c (ids ▸ found)
  · rw [ids]
    exact h.numbered.distinct
  · rw [ids]
    exact h.tasks
  · rw [ids]
    exact h.spans

section Opened

theorem opened_same (hi : tasks[i]? = some (task, phase)) (same : next.opens = phase.opens) :
    ((tasks.set i (task, next)).filterMap opened).Perm (tasks.filterMap opened) := by
  have moved := filterMap_set_perm (c := (task, next)) opened hi
  rw [opened, opened, same] at moved
  exact (List.perm_append_right_iff _).mp moved

theorem mem_opened {ana : Bool} (hi : tasks[i]? = some (task, phase))
    (opens : phase.opens = some ana) : Span.key ana task.clientid ∈ tasks.filterMap opened :=
  List.mem_filterMap.mpr ⟨_, List.mem_of_getElem? hi, by rw [opened, opens]; rfl⟩

theorem mem_opened_find {ana : Bool} (hi : tasks[i]? = some (task, phase))
    (closed : phase.opens = none) (opens : next.opens = some ana) :
    name ∈ (tasks.set i (task, next)).filterMap opened ↔
      name ∈ Span.key ana task.clientid :: tasks.filterMap opened := by
  have moved := filterMap_set_perm (c := (task, next)) opened hi
  rw [opened, opened, closed, opens, Option.map_none, Option.toList_none, List.append_nil,
    Option.map_some, Option.toList_some] at moved
  rw [moved.mem_iff, List.mem_append, List.mem_singleton, List.mem_cons, or_comm]

theorem mem_opened_add {ana : Bool} (hi : tasks[i]? = some (task, phase))
    (opens : phase.opens = some ana) (closed : next.opens = none)
    (other : name ≠ Span.key ana task.clientid) :
    name ∈ (tasks.set i (task, next)).filterMap opened ↔ name ∈ tasks.filterMap opened := by
  have moved := filterMap_set_perm (c := (task, next)) opened hi
  rw [opened, opened, closed, opens, Option.map_none, Option.toList_none, List.append_nil,
    Option.map_some, Option.toList_some] at moved
  rw [← moved.mem_iff, List.mem_append, List.mem_singleton, or_iff_left other]

end Opened

section Timers

theorem nodup_concat (nodup : timers.Nodup) (free : name ∉ timers) : (timers ++ [name]).Nodup :=
  List.nodup_append.mpr ⟨nodup, List.nodup_singleton name, by
    intro n hn m hm
    rw [List.mem_singleton.mp hm]
    rintro rfl
    exact free hn⟩

theorem TimersOf.same (h : TimersOf timers tasks others) (hi : tasks[i]? = some (task, phase))
    (hold : next.holds task = phase.holds task) :
    TimersOf timers (tasks.set i (task, next)) others := by
  have moved := filterMap_set_perm (c := (task, next)) held hi
  rw [held, held, hold] at moved
  have kept := (List.perm_append_right_iff _).mp moved
  exact ⟨h.perm.trans (kept.symm.append_right others), h.nodup⟩

theorem TimersOf.start (h : TimersOf timers tasks others) (hi : tasks[i]? = some (task, phase))
    (idle : phase.holds task = none) (hold : next.holds task = some name) (free : name ∉ timers) :
    TimersOf (timers ++ [name]) (tasks.set i (task, next)) others := by
  have moved := filterMap_set_perm (c := (task, next)) held hi
  rw [held, held, idle, hold, Option.toList_none, List.append_nil, Option.toList_some] at moved
  constructor
  · refine (h.perm.append_right _).trans ?_
    rw [List.append_assoc]
    refine (List.perm_append_comm.append_left _).trans ?_
    rw [← List.append_assoc]
    exact moved.symm.append_right _
  · exact nodup_concat h.nodup free

theorem TimersOf.stop (h : TimersOf timers tasks others) (hi : tasks[i]? = some (task, phase))
    (hold : phase.holds task = some name) (idle : next.holds task = none) :
    name ∈ timers ∧ TimersOf (timers.erase name) (tasks.set i (task, next)) others := by
  have moved := filterMap_set_perm (c := (task, next)) held hi
  rw [held, held, idle, hold, Option.toList_none, List.append_nil, Option.toList_some] at moved
  have split : timers.Perm (name :: ((tasks.set i (task, next)).filterMap held ++ others)) := by
    refine h.perm.trans ((moved.symm.append_right others).trans ?_)
    rw [List.append_assoc]
    exact List.perm_middle
  refine ⟨split.mem_iff.mpr List.mem_cons_self, ?_, h.nodup.erase name⟩
  have erased := split.erase name
  rwa [List.erase_cons_head] at erased

theorem TimersOf.spawn (h : TimersOf timers tasks others) (hold : next.holds task = some name)
    (free : name ∉ timers) : TimersOf (timers ++ [name]) (tasks ++ [(task, next)]) others := by
  refine ⟨?_, nodup_concat h.nodup free⟩
  have own : [(task, next)].filterMap held = [name] := by
    rw [List.filterMap_cons_some (by rw [held, hold]), List.filterMap_nil]
  rw [List.filterMap_append, own]
  refine (h.perm.append_right _).trans ?_
  rw [List.append_assoc, List.append_assoc]
  exact List.perm_append_comm.append_left _

theorem TimersOf.startOther (h : TimersOf timers tasks others) (free : name ∉ timers) :
    TimersOf (timers ++ [name]) tasks (others ++ [name]) := by
  refine ⟨?_, nodup_concat h.nodup free⟩
  rw [← List.append_assoc]
  exact h.perm.append_right _

theorem TimersOf.endOther (h : TimersOf timers tasks others) (own : name ∈ others) :
    name ∈ timers ∧ TimersOf (timers.erase name) tasks (others.erase name) := by
  have nodup := h.perm.nodup_iff.mp h.nodup
  have apart : name ∉ tasks.filterMap held := fun mem =>
    (List.nodup_append.mp nodup).2.2 name mem name own rfl
  refine ⟨h.perm.mem_iff.mpr (List.mem_append_right _ own), ?_, h.nodup.erase name⟩
  have erased := h.perm.erase name
  rwa [List.erase_append_right _ apart] at erased

end Timers

variable {s t : AsyncService}

theorem call_ok {α : Type} {x : EStateM Stop UniServer α} {a : α} {u : UniServer}
    {returned : α → AsyncService → AsyncService} {thrown : AsyncService → AsyncService}
    (run : x s.server = .ok a u) :
    s.call x returned thrown = .ok (returned a { s with server := u }) := by
  rw [call, run]

theorem call_eq_ok {α : Type} {x : EStateM Stop UniServer α}
    {returned : α → AsyncService → AsyncService} {thrown : AsyncService → AsyncService}
    (h : s.call x returned thrown = .ok t) :
    (∃ a u, x s.server = .ok a u ∧ t = returned a { s with server := u }) ∨
      ∃ what u, x s.server = .error (.runtime_error what) u ∧
        t = thrown { s with server := u } := by
  unfold call at h
  split at h
  · rename_i a u run
    exact .inl ⟨a, u, run, (Except.ok.inj h).symm⟩
  · rename_i what u run
    exact .inr ⟨what, u, run, (Except.ok.inj h).symm⟩
  · cases h

/-- A thread moves on, with what its call left on the server. -/
theorem Inv.goesOn {u : UniServer} {spans : List Span} (h : s.Inv)
    (hi : s.tasks[i]? = some (task, phase))
    (timers : TimersOf u.m_timer_map (s.tasks.set i (task, next)) s.others)
    {n : Int} (gain : (next.counts.toNat : Int) = phase.counts.toNat + n)
    (running : u.m_metricManager.m_runningThreads =
      s.server.m_metricManager.m_runningThreads + n)
    (proper : Proper (task, next)) (numbers : s.server.clientStaging.SameNumbers u.clientStaging)
    (metrics : u.m_metricManager.Tracks (Span.log spans)
      ((s.tasks.set i (task, next)).filterMap opened))
    (known : ∀ span ∈ spans, span ∈ s.spans ∨
      span.client = task.client ∧ span.clientid = task.clientid) :
    Inv { s with server := u, tasks := s.tasks.set i (task, next), spans := spans } := by
  have own := h.known.tasks _ (List.mem_of_getElem? hi)
  have moved := countP_set (c := (task, next)) counted hi
  have before : counted (task, phase) = phase.counts := rfl
  have after : counted (task, next) = next.counts := rfl
  have earlier := h.running
  have clients : Known s.server.clientStaging (s.tasks.set i (task, next)) spans := by
    refine ⟨h.known.numbered, fun t mem => ?_, fun span mem => ?_⟩
    · rcases List.mem_or_eq_of_mem_set mem with old | rfl
      · exact h.known.tasks t old
      · exact own
    · rcases known span mem with old | ⟨client, clientid⟩
      · exact h.known.spans span old
      · rw [client, clientid]
        exact own
  refine ⟨timers, ?_, fun t mem => ?_, clients.same numbers, metrics⟩
  · rw [before, after] at moved
    show u.m_metricManager.m_runningThreads =
      ((s.tasks.set i (task, next)).countP counted : Int)
    omega
  · rcases List.mem_or_eq_of_mem_set mem with old | rfl
    · exact h.proper t old
    · exact proper

/-- What the counting of a thread leaves. -/
def addedRunning (u : UniServer) (n : Int) : UniServer :=
  { u with m_metricManager :=
    { u.m_metricManager with m_runningThreads := u.m_metricManager.m_runningThreads + n } }

theorem addRunning_eq {u : UniServer} {n : Int} : UniServer.addRunning n u =
    if IsInt (u.m_metricManager.m_runningThreads + n) then .ok () (addedRunning u n)
    else .error (.undefined "signed overflow") u := by
  unfold UniServer.addRunning
  refine (bind_ok (get_run u)).trans ?_
  by_cases fits : IsInt (u.m_metricManager.m_runningThreads + n)
  · rw [if_pos fits]
    exact (bind_ok (lift_ok (int_of_isInt fits))).trans rfl
  · rw [if_neg fits]
    exact bind_error (lift_error (if_neg fits))

theorem proper_of_ne (stray : next ≠ .stray) (threw : next ≠ .threw) (unticked : next ≠ .unticked) :
    Proper (task, next) :=
  ⟨stray, fun h => absurd h threw, fun h => absurd h unticked⟩

/-- What a step that is not about the tasks leaves. -/
structure Leaves (u u' : UniServer) : Prop where
  timers : u'.m_timer_map = u.m_timer_map
  metrics : u'.m_metricManager = u.m_metricManager
  numbers : u.clientStaging.SameNumbers u'.clientStaging

theorem Leaves.keepTasks (u u' : UniServer) : Leaves u (u.keepTasks u') := ⟨rfl, rfl, rfl, rfl⟩

/-- A block that cannot be erased leaves the server as it is. -/
theorem erase_outcome (blockID : String) (u : UniServer) :
    ∃ u', Leaves u u' ∧
      (UniServer.onBlockManager (BlockManager.eraseBlock blockID) u = .ok () u' ∨
        ∃ what, UniServer.onBlockManager (BlockManager.eraseBlock blockID) u =
          .error (.runtime_error what) u') := by
  by_cases erasable : u.m_blockManager.Erasable blockID
  · exact ⟨{ u with m_blockManager := u.m_blockManager.erased blockID }, ⟨rfl, rfl, .refl _⟩,
      .inl (zoom_ok (BlockManager.eraseBlock_erasable erasable))⟩
  · obtain ⟨what, thrown⟩ := BlockManager.eraseBlock_refused erasable
    exact ⟨u, ⟨rfl, rfl, .refl _⟩, .inr ⟨what, zoom_error thrown⟩⟩

/-- Whoever asks for the master finds its endpoint or an exception. -/
theorem askTick_outcome (out : Outside) (u : UniServer) :
    ∃ u', Leaves u u' ∧ (UniServer.askTick out u = .ok () u' ∨
      ∃ what, UniServer.askTick out u = .error (.runtime_error what) u') := by
  have same := ClientForStaging.sameNumbers_lookup out u.clientStaging.m_masterAddr u.clientStaging
  cases run : ClientForStaging.lookup out u.clientStaging.m_masterAddr u.clientStaging with
  | ok endpoint m =>
    rw [run] at same
    refine ⟨{ u with clientStaging := m }, ⟨rfl, rfl, same⟩, .inl ?_⟩
    unfold UniServer.askTick
    refine (bind_ok (get_run u)).trans ((bind_ok (zoom_ok run)).trans rfl)
  | error e m =>
    rw [run] at same
    obtain ⟨what, rfl⟩ := ClientForStaging.lookup_error run
    refine ⟨{ u with clientStaging := m }, ⟨rfl, rfl, same⟩, .inr ⟨what, ?_⟩⟩
    unfold UniServer.askTick
    exact (bind_ok (get_run u)).trans (bind_error (zoom_error run))

/-- A call that is not about the tasks, with either end. -/
theorem inv_calls {x : EStateM Stop UniServer Unit} {next failed : AsyncPhase}
    (outcome : ∃ u', Leaves s.server u' ∧ (x s.server = .ok () u' ∨
      ∃ what, x s.server = .error (.runtime_error what) u'))
    (hs : s.call x (fun _ => moved i task next) (moved i task failed) = .ok t)
    (returns : ∀ u, Leaves s.server u → Inv ({ s with server := u }.moved i task next))
    (throws : ∀ u, Leaves s.server u → Inv ({ s with server := u }.moved i task failed)) :
    t.Inv := by
  obtain ⟨u, leaves, run | ⟨what, run⟩⟩ := outcome
  · rw [call_ok run] at hs
    cases hs
    exact returns u leaves
  · rw [call, run] at hs
    cases hs
    exact throws u leaves

section Advance

variable (h : s.Inv) (hi : s.tasks[i]? = some (task, phase))

include h hi

theorem Inv.metrics_same (same : next.opens = phase.opens) :
    s.server.m_metricManager.Tracks (Span.log s.spans)
      ((s.tasks.set i (task, next)).filterMap opened) :=
  h.metrics.congr fun _ _ => (opened_same hi same).mem_iff.symm

/-- A thread ends its timer, which is live. -/
theorem Inv.ends {next failed : AsyncPhase}
    (hs : s.call (UniServer.endTimer name) (fun _ => moved i task next) (moved i task failed) =
      .ok t)
    (hold : phase.holds task = some name) (idle : next.holds task = none)
    (opens : next.opens = phase.opens) (counts : next.counts = phase.counts)
    (proper : Proper (task, next)) : t.Inv := by
  obtain ⟨live, stopped⟩ := h.timers.stop hi hold idle
  rw [call_ok (UniServer.endTimer_run live)] at hs
  cases hs
  exact h.goesOn hi stopped (by rw [counts, Int.add_zero]) (Int.add_zero _).symm proper (.refl _)
    (h.metrics_same hi opens) fun _ mem => .inl mem

/-- A thread finds the array of its time. -/
theorem Inv.finds {next failed : AsyncPhase} (ana : Bool)
    (hs : s.call
      (UniServer.onMetricManager (MetricManager.findArray (Span.key ana task.clientid)))
      (fun _ => moved i task next) (moved i task failed) = .ok t)
    (hold : next.holds task = phase.holds task) (closed : phase.opens = none)
    (opens : next.opens = some ana) (counts : next.counts = phase.counts)
    (proper : Proper (task, next)) : t.Inv := by
  obtain ⟨mm, found, running, tracks⟩ := h.metrics.findArray_run (Span.key ana task.clientid)
  have run : UniServer.onMetricManager (MetricManager.findArray (Span.key ana task.clientid))
      s.server = .ok () { s.server with m_metricManager := mm } := zoom_ok found
  rw [call_ok run] at hs
  cases hs
  exact h.goesOn hi (h.timers.same hi hold) (by rw [counts, Int.add_zero])
    (by rw [Int.add_zero]; exact running) proper (.refl _)
    (tracks.congr fun _ _ => (mem_opened_find hi closed opens).symm) fun _ mem => .inl mem

/-- A thread adds its time to the array it has found. -/
theorem Inv.adds {next failed : AsyncPhase} {timeSpan : TimeSpan} (ana : Bool)
    (hs : s.call
      (UniServer.onMetricManager (MetricManager.addToArray (Span.key ana task.clientid) timeSpan))
      (fun _ s => (s.logged task ana timeSpan).moved i task next) (moved i task failed) = .ok t)
    (hold : next.holds task = phase.holds task) (opens : phase.opens = some ana)
    (closed : next.opens = none) (counts : next.counts = phase.counts)
    (proper : Proper (task, next)) : t.Inv := by
  obtain ⟨mm, added, running, tracks⟩ :=
    h.metrics.addToArray_run (mem_opened hi opens) timeSpan.property
  have run : UniServer.onMetricManager
      (MetricManager.addToArray (Span.key ana task.clientid) timeSpan) s.server =
        .ok () { s.server with m_metricManager := mm } := zoom_ok added
  rw [call_ok run] at hs
  cases hs
  refine h.goesOn hi (h.timers.same hi hold) (by rw [counts, Int.add_zero])
    (by rw [Int.add_zero]; exact running) proper (.refl _) ?_ ?_
  · show mm.Tracks (Span.log (s.spans ++ [⟨task.client, task.clientid, ana, timeSpan⟩])) _
    rw [Span.log_append]
    refine tracks.congr fun name empty => (mem_opened_add hi opens closed ?_).symm
    rintro rfl
    rw [MetricManager.valuesOf_append_self] at empty
    exact List.append_ne_nil_of_right_ne_nil _ (List.cons_ne_nil _ _) empty
  · intro span mem
    rcases List.mem_append.mp mem with old | new
    · exact .inl old
    · rw [List.mem_singleton.mp new]
      exact .inr ⟨rfl, rfl⟩

/-- A thread counts itself, one way or the other. -/
theorem Inv.counts {next failed : AsyncPhase} {n : Int}
    (hs : s.call (UniServer.addRunning n) (fun _ => moved i task next) (moved i task failed) =
      .ok t)
    (hold : next.holds task = phase.holds task) (opens : next.opens = phase.opens)
    (gain : (next.counts.toNat : Int) = phase.counts.toNat + n) (proper : Proper (task, next)) :
    t.Inv := by
  rw [call, addRunning_eq] at hs
  split_ifs at hs
  cases hs
  have same := h.metrics_same hi opens
  exact h.goesOn hi (h.timers.same hi hold) gain rfl proper (.refl _)
    ⟨same.slots, same.found, same.records⟩ fun _ mem => .inl mem

/-- A thread moves on and leaves the timers and the metrics. -/
theorem Inv.moves {next : AsyncPhase} {u : UniServer} (leaves : Leaves s.server u)
    (hold : next.holds task = phase.holds task) (opens : next.opens = phase.opens)
    (counts : next.counts = phase.counts) (proper : Proper (task, next)) :
    Inv ({ s with server := u }.moved i task next) := by
  have same := h.metrics_same hi opens
  exact h.goesOn hi (leaves.timers ▸ h.timers.same hi hold) (by rw [counts, Int.add_zero])
    (by rw [leaves.metrics, Int.add_zero]) proper leaves.numbers (leaves.metrics ▸ same)
    fun _ mem => .inl mem

/-- A thread starts the timer of its function, unless another runs on the block. -/
theorem Inv.starts {next : AsyncPhase}
    (hs : s.call (UniServer.startTimer name) (fun _ => moved i task next)
      (moved i task .collided) = .ok t)
    (idle : phase.holds task = none) (hold : next.holds task = some name)
    (closed : phase.opens = none) (opens : next.opens = none)
    (counts : next.counts = phase.counts) (counted : phase.counts = true)
    (proper : Proper (task, next)) : t.Inv := by
  by_cases live : name ∈ s.server.m_timer_map
  · rw [call, UniServer.startTimer_live live] at hs
    cases hs
    exact h.moves hi ⟨rfl, rfl, .refl _⟩ idle.symm closed.symm (by rw [counted]; rfl)
      (proper_of_ne (by simp) (by simp) (by simp))
  · rw [call_ok (UniServer.startTimer_run live)] at hs
    cases hs
    exact h.goesOn hi (h.timers.start hi idle hold live) (by rw [counts, Int.add_zero])
      (Int.add_zero _).symm proper (.refl _) (h.metrics_same hi (opens.trans closed.symm))
      fun _ mem => .inl mem

/-- The next call of a thread keeps the accounts. -/
theorem inv_advance {timeSpan : TimeSpan} {out : Outside}
    (hs : s.advance i task timeSpan out phase = .ok t) : t.Inv := by
  cases phase with
  | spawned => exact h.ends hi hs rfl rfl rfl rfl (proper_of_ne (by simp) (by simp) (by simp))
  | scheduled =>
    exact h.finds hi false hs rfl rfl rfl rfl (proper_of_ne (by simp) (by simp) (by simp))
  | scheduleFound =>
    exact h.adds hi false hs rfl rfl rfl rfl (proper_of_ne (by simp) (by simp) (by simp))
  | recorded => exact h.counts hi hs rfl rfl rfl (proper_of_ne (by simp) (by simp) (by simp))
  | counted =>
    exact h.starts hi hs rfl rfl rfl rfl rfl rfl (proper_of_ne (by simp) (by simp) (by simp))
  | executing => cases hs
  | executed => exact h.ends hi hs rfl rfl rfl rfl (proper_of_ne (by simp) (by simp) (by simp))
  | timed => exact h.finds hi true hs rfl rfl rfl rfl (proper_of_ne (by simp) (by simp) (by simp))
  | anaFound => exact h.adds hi true hs rfl rfl rfl rfl (proper_of_ne (by simp) (by simp) (by simp))
  | analysed =>
    refine inv_calls (erase_outcome task.blockCompleteName s.server) hs (fun u leaves => ?_)
      fun u leaves => ?_
    · exact h.moves hi leaves rfl rfl rfl (proper_of_ne (by simp) (by simp) (by simp))
    · exact h.moves hi leaves rfl rfl rfl (proper_of_ne (by simp) (by simp) (by simp))
  | erased => exact h.counts hi hs rfl rfl rfl (proper_of_ne (by simp) (by simp) (by simp))
  | discounted =>
    rw [advance] at hs
    split_ifs at hs with last
    · refine inv_calls (askTick_outcome out s.server) hs (fun u leaves => ?_) fun u leaves => ?_
      · exact h.moves hi leaves rfl rfl rfl (proper_of_ne (by simp) (by simp) (by simp))
      · exact h.moves hi leaves rfl rfl rfl ⟨by simp, by simp, fun _ => last⟩
    · cases hs
      exact h.moves hi ⟨rfl, rfl, .refl _⟩ rfl rfl rfl
        (proper_of_ne (by simp) (by simp) (by simp))
  | finished | collided | threw | kept | unticked | stray => cases hs

end Advance

section Step

theorem cacheClient_ok {client : String} {u u' : UniServer}
    (run : UniServer.cacheClient client u = .ok () u') :
    ∃ m, u.clientStaging.cacheClientAddr client = .ok m ∧ u' = { u with clientStaging := m } := by
  unfold UniServer.cacheClient at run
  obtain ⟨_, _, got, rest⟩ := bind_run_eq_ok.mp run
  cases got
  obtain ⟨m, _, lifted, put⟩ := bind_run_eq_ok.mp rest
  obtain ⟨cached, rfl⟩ := lift_eq_ok.mp lifted
  cases put
  exact ⟨m, cached, rfl⟩

theorem cacheClient_error {client : String} {e : Stop} {u u' : UniServer}
    (run : UniServer.cacheClient client u = .error e u') :
    u.clientStaging.cacheClientAddr client = .error e ∧ u' = u := by
  unfold UniServer.cacheClient at run
  rcases bind_run_eq_error.mp run with got | ⟨_, _, got, rest⟩
  · cases got
  · cases got
    rcases bind_run_eq_error.mp rest with lifted | ⟨_, _, _, put⟩
    · exact lift_eq_error.mp lifted
    · cases put

variable {client blockIDSuffix functionName : String} {blockIndex : Int}
  {funcParameters : List String} {ifLastStep : Bool}

/-- The handler makes a thread for a client that has a number, and starts the timer of it. -/
theorem executeAsyncExp_eq (u : UniServer) {clientid : Int}
    (id : u.clientStaging.getIDFromClientAddr client = clientid) :
    let task : AsyncTask :=
      { client, clientid, blockIDSuffix, blockIndex, functionName, funcParameters, ifLastStep }
    UniServer.executeAsyncExp client blockIDSuffix blockIndex functionName funcParameters ifLastStep
      u =
      if clientid = -1 then
        .error (.runtime_error "the execute async is called but there is not clientid") u
      else if task.timerNameSchedule ∈ u.m_timer_map then
        .error (.runtime_error ("the timer exist with name: " ++ task.timerNameSchedule)) u
      else .ok task (u.withTimers (u.m_timer_map ++ [task.timerNameSchedule])) := by
  intro task
  unfold UniServer.executeAsyncExp
  refine (bind_ok (get_run u)).trans ?_
  rw [id]
  by_cases unknown : clientid = -1
  · rw [if_pos unknown, if_pos unknown]
    rfl
  · rw [if_neg unknown, if_neg unknown]
    by_cases live : task.timerNameSchedule ∈ u.m_timer_map
    · rw [if_pos live]
      exact bind_error (UniServer.startTimer_live live)
    · rw [if_neg live]
      exact (bind_ok (UniServer.startTimer_run live)).trans rfl

/-- The number found for a client is its own. -/
theorem lookup_of_id {m : ClientForStaging} {clientid : Int}
    (id : m.getIDFromClientAddr client = clientid) (known : clientid ≠ -1) :
    m.m_clientAddrToID.lookup client = some clientid := by
  unfold ClientForStaging.getIDFromClientAddr at id
  cases found : m.m_clientAddrToID.lookup client with
  | none =>
    rw [found] at id
    exact absurd id.symm known
  | some c =>
    rw [found] at id
    exact congrArg some id

/-- A request leaves the tasks and the metrics of the server. -/
theorem Inv.requested {u : UniServer} {others : List String} (h : s.Inv)
    (timers : TimersOf u.m_timer_map s.tasks others)
    (known : Known u.clientStaging s.tasks s.spans)
    (unchanged : s.server.m_metricManager.Unchanged u.m_metricManager) :
    Inv { s with server := u, others := others } :=
  ⟨timers, unchanged.running.trans h.running, h.proper, known, unchanged.tracks h.metrics⟩

/-- A request with an exception leaves the server. -/
theorem inv_call {α : Type} {x : EStateM Stop UniServer α}
    {returned : α → AsyncService → AsyncService} (h : s.Inv)
    (ok : ∀ a u, x s.server = .ok a u → (returned a { s with server := u }).Inv)
    (error : ∀ e u, x s.server = .error e u → u = s.server)
    (hs : s.call x returned id = .ok t) : t.Inv := by
  rcases call_eq_ok hs with ⟨a, u, run, rfl⟩ | ⟨what, u, run, rfl⟩
  · exact ok a u run
  · rw [error _ u run]
    exact h

theorem Known.cache {m m' : ClientForStaging} {spans : List Span} (h : Known m tasks spans)
    (cached : m.cacheClientAddr client = .ok m') : Known m' tasks spans := by
  obtain ⟨numbered, kept⟩ := h.numbered.cache cached
  exact ⟨numbered, fun t mem => kept _ _ (h.tasks t mem),
    fun span mem => kept _ _ (h.spans span mem)⟩

/-- The spans with the number of a client are those of the client. -/
theorem Known.own {m : ClientForStaging} {spans : List Span} {c : Int} (h : Known m tasks spans)
    (found : m.m_clientAddrToID.lookup client = some c) :
    ∀ span ∈ spans, 0 ≤ span.clientid ∧ (span.clientid = c ↔ span.client = client) := by
  intro span mem
  have own := h.spans span mem
  have range := h.numbered.range _ _ own
  refine ⟨by omega, fun same => ?_, fun same => ?_⟩
  · rw [same] at own
    exact h.numbered.distinct _ _ c own found
  · rw [same, found] at own
    exact (Option.some.inj own).symm

theorem inv_executeAsyncExp (h : s.Inv)
    (hs : step (.executeAsyncExp client blockIDSuffix blockIndex functionName funcParameters
      ifLastStep) s = .ok t) : t.Inv := by
  rw [step] at hs
  refine inv_call h (fun task u run => ?_) (fun e u run => ?_) hs <;>
    rw [executeAsyncExp_eq s.server rfl] at run
  · split_ifs at run with unknown live
    cases run
    have own := lookup_of_id rfl unknown
    refine ⟨h.timers.spawn rfl live, ?_, fun t mem => ?_, ⟨h.known.numbered, fun t mem => ?_,
      h.known.spans⟩, ?_⟩
    · rw [List.countP_append]
      exact h.running
    · rcases List.mem_append.mp mem with old | new
      · exact h.proper t old
      · rw [List.mem_singleton.mp new]
        exact proper_of_ne (by simp) (by simp) (by simp)
    · rcases List.mem_append.mp mem with old | new
      · exact h.known.tasks t old
      · rw [List.mem_singleton.mp new]
        exact own
    · rw [List.filterMap_append]
      show s.server.m_metricManager.Tracks _ (s.tasks.filterMap opened ++ [])
      rw [List.append_nil]
      exact h.metrics
  · split_ifs at run <;>
    · cases run
      rfl

theorem inv_getStageStatus {out : Outside} (h : s.Inv)
    (hs : step (.getStageStatus out) s = .ok t) : t.Inv := by
  cases found : s.server.clientStaging.m_clientAddrToID.lookup out.endpoint with
  | none =>
    rw [step, call_ok (UniServer.stageStatus_unknown found)] at hs
    cases hs
    exact h
  | some c =>
    have range := h.known.numbered.range _ _ found
    have own := h.known.own found
    by_cases ready : UniServer.Ready (s.tasks.filterMap opened) out.endpoint c s.spans
    · obtain ⟨mm, run, unchanged⟩ :=
        UniServer.stageStatus_known h.metrics found range.1 own ready
      rw [step, call_ok run] at hs
      cases hs
      exact h.requested h.timers h.known unchanged
    · obtain ⟨what, mm, run, unchanged⟩ :=
        UniServer.stageStatus_throws h.metrics found range.1 own ready
      rw [step, call, run] at hs
      cases hs
      exact h.requested h.timers h.known unchanged

theorem inv_startTimer (h : s.Inv) (hs : step (.startTimer name) s = .ok t) : t.Inv := by
  rw [step] at hs
  refine inv_call h (fun _ u run => ?_) (fun e u run => ?_) hs <;>
    by_cases live : name ∈ s.server.m_timer_map
  · rw [UniServer.startTimer_live live] at run
    cases run
  · rw [UniServer.startTimer_run live] at run
    cases run
    exact h.requested (h.timers.startOther live) h.known (.refl _)
  · rw [UniServer.startTimer_live live] at run
    cases run
    rfl
  · rw [UniServer.startTimer_run live] at run
    cases run

/-- A live timer that no task holds is of another request. -/
theorem TimersOf.other (h : TimersOf timers tasks others) (live : name ∈ timers)
    (free : some name ∉ tasks.map fun t => t.2.holds t.1) : name ∈ others := by
  refine (List.mem_append.mp (h.perm.mem_iff.mp live)).resolve_left fun mem => free ?_
  obtain ⟨t, ht, hold⟩ := List.mem_filterMap.mp mem
  exact List.mem_map.mpr ⟨t, ht, hold⟩

theorem inv_endTimer (h : s.Inv) (hs : step (.endTimer name) s = .ok t) : t.Inv := by
  rw [step] at hs
  split_ifs at hs with free
  by_cases live : name ∈ s.server.m_timer_map
  · rw [call_ok (UniServer.endTimer_run live)] at hs
    cases hs
    exact h.requested (h.timers.endOther (h.timers.other live free)).2 h.known (.refl _)
  · rw [call, UniServer.endTimer_gone live] at hs
    cases hs
    exact h

/-- One action keeps the accounts. -/
theorem inv_step {a : AsyncAction} (h : s.Inv) (hs : step a s = .ok t) : t.Inv := by
  cases a with
  | putrawdata client =>
    rw [step] at hs
    refine inv_call h (fun _ u run => ?_) (fun e u run => (cacheClient_error run).2) hs
    obtain ⟨m, cached, rfl⟩ := cacheClient_ok run
    exact h.requested h.timers (h.known.cache cached) (.refl _)
  | executeAsyncExp client blockIDSuffix blockIndex functionName funcParameters ifLastStep =>
    exact inv_executeAsyncExp h hs
  | run i timeSpan out =>
    rw [step] at hs
    split at hs
    · cases hs
    · rename_i hi
      exact inv_advance h hi hs
  | returns i u =>
    rw [step] at hs
    split at hs
    · rename_i hi
      split at hs
      · cases hs
        exact h.moves hi (.keepTasks _ u) rfl rfl rfl
          (proper_of_ne (by simp) (by simp) (by simp))
      · cases hs
    · cases hs
  | throws i u =>
    rw [step] at hs
    split at hs
    · rename_i hi
      split_ifs at hs with mayThrow
      cases hs
      exact h.moves hi (.keepTasks _ u) rfl rfl rfl ⟨by simp, fun _ => mayThrow, by simp⟩
    · cases hs
  | getStageStatus out => exact inv_getStageStatus h hs
  | startTimer timerName => exact inv_startTimer h hs
  | endTimer timerName => exact inv_endTimer h hs
  | request u =>
    cases hs
    exact h.requested h.timers (h.known.same (Leaves.keepTasks s.server u).numbers) (.refl _)

end Step

/-- A server that has started, before its first request. -/
def start (u : UniServer) : AsyncService :=
  { server := { u with
      m_metricManager := { m_slot := 50 }
      m_timer_map := []
      clientStaging := { m_masterAddr := u.clientStaging.m_masterAddr } } }

theorem inv_start (u : UniServer) : (start u).Inv where
  timers := ⟨.refl _, List.nodup_nil⟩
  running := rfl
  proper _ mem := absurd mem List.not_mem_nil
  known :=
    { numbered :=
        ⟨le_refl _, fun _ _ found => (by cases found), fun _ _ _ found => (by cases found)⟩
      tasks _ mem := absurd mem List.not_mem_nil
      spans _ mem := absurd mem List.not_mem_nil }
  metrics := MetricManager.tracks_start

theorem inv_run {u : UniServer} {as : List AsyncAction} (run : Run (Steps step) (start u) as s) :
    s.Inv :=
  run.invariant (inv_start u) fun _ _ _ => inv_step

end AsyncService

end Gorilla
