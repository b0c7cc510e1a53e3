import Gorilla.Lib.Moves
import Gorilla.Server.AsyncRuns
import Gorilla.Server.Replies

/-!
# How tasks end

No task waits for another: left alone it comes to an end, or into a function that may spin. What
it leaves behind depends on the end. The status of a client is read off what its tasks have put.
-/

namespace Gorilla

open HandLock Handler Runs Activities

namespace AsyncPhase

/-- The steps a thread has left. -/
def left : AsyncPhase → Nat
  | .spawned => 12
  | .scheduled _ => 11
  | .scheduleFound _ => 10
  | .recorded => 9
  | .counted => 8
  | .executing => 7
  | .executed => 6
  | .timed _ => 5
  | .anaFound _ => 4
  | .analysed => 3
  | .erased => 2
  | .discounted => 1
  | .finished | .collided | .threw | .kept | .unticked | .stray => 0

/-- The thread has ended and is counted as running. -/
def leaked : AsyncPhase → Bool
  | .collided | .threw | .kept => true
  | _ => false

end AsyncPhase

namespace AsyncAction

/-- The action is one of the thread's own, with the answers of an engine. A function that may
spin need not end. -/
def Of (i : Nat) (task : AsyncTask) (out : Outside) : AsyncAction → Prop
  | .run j _ answers => j = i ∧ answers = out
  | .returns j _ | .throws j _ => j = i ∧ ¬ task.MaySpin
  | _ => False

end AsyncAction

namespace AsyncService

variable {s t : AsyncService} {i j : Nat} {task task' : AsyncTask} {phase phase' : AsyncPhase}
  {name : String}

/-- The phase follows on the other by a step of the task. -/
structure Follows (s t : AsyncService) (i : Nat) (task : AsyncTask) (phase next : AsyncPhase) :
    Prop where
  tasks : t.tasks = s.tasks.set i (task, next)
  fewer : next.left < phase.left

/-- A call that is not about the tasks ends one way or the other. -/
theorem calls_run {x : EStateM Stop UniServer Unit} (next failed : AsyncPhase)
    (outcome : ∃ u', Leaves s.server u' ∧ (x s.server = .ok () u' ∨
      ∃ what, x s.server = .error (.runtime_error what) u'))
    (fewer : next.left < phase.left) (failed_fewer : failed.left < phase.left) :
    ∃ t next', s.call x (fun _ => moved i task next) (moved i task failed) = .ok t ∧
      Follows s t i task phase next' := by
  obtain ⟨u, _, run | ⟨what, run⟩⟩ := outcome
  · exact ⟨_, next, call_ok run, rfl, fewer⟩
  · refine ⟨moved i task failed { s with server := u }, failed, ?_, rfl, failed_fewer⟩
    rw [call, run]

section Progress

variable (h : s.Inv) (hi : s.tasks[i]? = some (task, phase))

include h hi

theorem ends_run (next failed : AsyncPhase) (hold : phase.holds task = some name)
    (idle : next.holds task = none) (fewer : next.left < phase.left) :
    ∃ t last, s.call (UniServer.endTimer name) (fun _ => moved i task next)
      (moved i task failed) = .ok t ∧ Follows s t i task phase last :=
  ⟨_, next, call_ok (UniServer.endTimer_run (h.timers.stop hi hold idle).1), rfl, fewer⟩

omit hi in
theorem finds_run (next failed : AsyncPhase) (key : String) (fewer : next.left < phase.left) :
    ∃ t last, s.call (UniServer.onMetricManager (MetricManager.findArray key))
      (fun _ => moved i task next) (moved i task failed) = .ok t ∧
        Follows s t i task phase last := by
  obtain ⟨mm, found, _⟩ := h.metrics.findArray_run key
  have run : UniServer.onMetricManager (MetricManager.findArray key) s.server =
      .ok () { s.server with m_metricManager := mm } := zoom_ok found
  exact ⟨_, next, call_ok run, rfl, fewer⟩

theorem adds_run (next failed : AsyncPhase) (ana : Bool) (timeSpan : TimeSpan)
    (opens : phase.opens = some ana) (fewer : next.left < phase.left) :
    ∃ t last, s.call (UniServer.onMetricManager
        (MetricManager.addToArray (Span.key ana task.clientid) timeSpan))
      (fun _ s => (s.logged task ana timeSpan).moved i task next) (moved i task failed) = .ok t ∧
        Follows s t i task phase last := by
  obtain ⟨mm, added, _⟩ := h.metrics.addToArray_run (mem_opened hi opens) timeSpan.property
  have run : UniServer.onMetricManager
      (MetricManager.addToArray (Span.key ana task.clientid) timeSpan) s.server =
        .ok () { s.server with m_metricManager := mm } := zoom_ok added
  exact ⟨_, next, call_ok run, rfl, fewer⟩

/-- There are no more threads than an int can count. -/
theorem counts_run (next failed : AsyncPhase) (n : Int) (few : (s.tasks.length : Int) ≤ INT_MAX)
    (gain : (next.counts.toNat : Int) = phase.counts.toNat + n) (fewer : next.left < phase.left) :
    ∃ t last, s.call (UniServer.addRunning n) (fun _ => moved i task next)
      (moved i task failed) = .ok t ∧ Follows s t i task phase last := by
  have moved := countP_set (c := (task, next)) counted hi
  have before : counted (task, phase) = phase.counts := rfl
  have after : counted (task, next) = next.counts := rfl
  have some_tasks := List.countP_le_length (p := counted) (l := s.tasks.set i (task, next))
  rw [List.length_set] at some_tasks
  rw [before, after] at moved
  have fits : IsInt (s.server.m_metricManager.m_runningThreads + n) := by
    rw [h.running, IsInt, INT_MIN]
    omega
  have run := addRunning_eq (u := s.server) (n := n)
  rw [if_pos fits] at run
  exact ⟨_, next, call_ok run, rfl, fewer⟩

/-- A thread that is not in its function takes its next step. -/
theorem advance_run (few : (s.tasks.length : Int) ≤ INT_MAX) (timeSpan : TimeSpan)
    (out : Outside) (outside : phase ≠ .executing) (running : phase.ended = false) :
    ∃ t next, s.advance i task timeSpan out phase = .ok t ∧ Follows s t i task phase next := by
  cases phase with
  | spawned => exact ends_run h hi (.scheduled timeSpan) .stray rfl rfl (Nat.lt_succ_self _)
  | scheduled timeSpan =>
    exact finds_run h (.scheduleFound timeSpan) .stray task.scheduleKey (Nat.lt_succ_self _)
  | scheduleFound timeSpan =>
    exact adds_run h hi .recorded .stray false timeSpan rfl (Nat.lt_succ_self _)
  | recorded => exact counts_run h hi .counted .stray 1 few rfl (Nat.lt_succ_self _)
  | counted =>
    by_cases live : task.executeNameSchedule ∈ s.server.m_timer_map
    · refine ⟨s.moved i task .collided, .collided, ?_, rfl, by decide⟩
      rw [advance, call, UniServer.startTimer_live live]
    · exact ⟨_, .executing, call_ok (UniServer.startTimer_run live), rfl, by decide⟩
  | executing => exact absurd rfl outside
  | executed => exact ends_run h hi (.timed timeSpan) .stray rfl rfl (Nat.lt_succ_self _)
  | timed timeSpan => exact finds_run h (.anaFound timeSpan) .stray task.anaKey (Nat.lt_succ_self _)
  | anaFound timeSpan => exact adds_run h hi .analysed .stray true timeSpan rfl (Nat.lt_succ_self _)
  | analysed =>
    exact calls_run .erased .kept (erase_outcome task.blockCompleteName s.server) (by decide)
      (by decide)
  | erased => exact counts_run h hi .discounted .stray (-1) few rfl (Nat.lt_succ_self _)
  | discounted =>
    rw [advance]
    split_ifs
    · exact calls_run .finished .unticked (askTick_outcome out s.server) (by decide) (by decide)
    · exact ⟨_, .finished, rfl, rfl, by decide⟩
  | finished | collided | threw | kept | unticked | stray => cases running

omit h in
/-- A function that does not spin returns or throws. -/
theorem function_run (out : Outside) (executing : phase = .executing) (ends : ¬ task.MaySpin) :
    ∃ a t next, AsyncAction.Of i task out a ∧ step a s = .ok t ∧ Follows s t i task phase next := by
  subst executing
  cases called : task.function with
  | ok f =>
    refine ⟨.returns i s.server, moved i task .executed
      { s with server := s.server.keepTasks s.server }, .executed, ⟨rfl, ends⟩, ?_, rfl, by decide⟩
    simp only [step, hi, called]
  | error e =>
    have mayThrow : task.MayThrow := by
      unfold AsyncTask.MayThrow
      rw [called]
      trivial
    refine ⟨.throws i s.server, moved i task .threw
      { s with server := s.server.keepTasks s.server }, .threw, ⟨rfl, ends⟩, ?_, rfl, by decide⟩
    simp only [step, hi, mayThrow, if_true]

theorem own_step (few : (s.tasks.length : Int) ≤ INT_MAX) (out : Outside)
    (running : phase.ended = false) (ends : phase = .executing → ¬ task.MaySpin) :
    ∃ a t next, AsyncAction.Of i task out a ∧ step a s = .ok t ∧
      Follows s t i task phase next := by
  by_cases executing : phase = .executing
  · exact function_run hi out executing (ends executing)
  · have finite : (0 : Rat) ≠ DBL_MAX := by norm_num [DBL_MAX]
    obtain ⟨t, next, run, follows⟩ := advance_run h hi few ⟨0, finite⟩ out executing running
    refine ⟨.run i ⟨0, finite⟩ out, t, next, ⟨rfl, rfl⟩, ?_, follows⟩
    simp only [step, hi, run]

end Progress

/-- Where a task comes to by its own steps: an end, or a function that may spin. -/
def Rests (task : AsyncTask) (phase last : AsyncPhase) : Prop :=
  last.ended = true ∨ last = .executing ∧ task.MaySpin ∧ AsyncPhase.executing.left ≤ phase.left

/-- A task is run to an end by its own steps, whatever the others hold. -/
theorem own_run (out : Outside) (h : s.Inv) (hi : s.tasks[i]? = some (task, phase))
    (few : (s.tasks.length : Int) ≤ INT_MAX) :
    ∃ as t last, Run (Steps step) s as t ∧ (∀ a ∈ as, AsyncAction.Of i task out a) ∧ t.Inv ∧
      t.tasks = s.tasks.set i (task, last) ∧ Rests task phase last := by
  generalize steps : phase.left = n
  induction n using Nat.strongRecOn generalizing s phase with
  | ind n ih =>
    by_cases rests : phase.ended = true ∨ phase = .executing ∧ task.MaySpin
    · refine ⟨[], s, phase, .start, fun a mem => absurd mem List.not_mem_nil, h, ?_, ?_⟩
      · obtain ⟨inside, here⟩ := List.getElem?_eq_some_iff.mp hi
        rw [← here, List.set_getElem_self]
      · rcases rests with ended | ⟨executing, spins⟩
        · exact .inl ended
        · exact .inr ⟨executing, spins, by rw [executing]⟩
    · rw [not_or, not_and] at rests
      obtain ⟨a, t, next, own, hstep, set, fewer⟩ :=
        own_step h hi few out (Bool.not_eq_true _ ▸ rests.1) rests.2
      have inside := (List.getElem?_eq_some_iff.mp hi).1
      have moved : t.tasks[i]? = some (task, next) := by
        rw [set, List.getElem?_set_self inside]
      obtain ⟨as, u, last, rest, owns, inv, ended_set, ended⟩ :=
        ih _ (steps ▸ fewer) (inv_step h hstep) moved (by rw [set, List.length_set]; exact few) rfl
      refine ⟨[a] ++ as, u, last, ?_, ?_, inv, ?_, ?_⟩
      · exact Run.append (.next .start hstep) rest
      · intro b mem
        rcases List.mem_append.mp mem with first | later
        · rw [List.mem_singleton.mp first]
          exact own
        · exact owns b later
      · rw [ended_set, set, List.set_set]
      · refine ended.imp_right fun ⟨executing, spins, before⟩ => ⟨executing, spins, ?_⟩
        exact Nat.le_trans before (Nat.le_of_lt fewer)

section Clients

/-- The numbers of the clients are those of before. -/
def SameClients (u u' : UniServer) : Prop := u.clientStaging.SameNumbers u'.clientStaging

theorem SameClients.refl (u : UniServer) : SameClients u u := ClientForStaging.SameNumbers.refl _

theorem SameClients.trans {u u' u'' : UniServer} (h : SameClients u u') (h' : SameClients u' u'') :
    SameClients u u'' := ClientForStaging.SameNumbers.trans h h'

theorem moves_lift {α : Type} (x : Except Stop α) :
    Moves SameClients (liftM x : EStateM Stop UniServer α) := by
  intro u
  cases x with
  | ok a => exact SameClients.refl u
  | error e => exact SameClients.refl u

theorem moves_metrics {α : Type} (x : EStateM Stop MetricManager α) :
    Moves SameClients (UniServer.onMetricManager x) := by
  intro u
  cases run : x u.m_metricManager with
  | ok a mm =>
    rw [UniServer.onMetricManager, zoom_ok run]
    exact .refl u
  | error e mm =>
    rw [UniServer.onMetricManager, zoom_error run]
    exact .refl u

theorem moves_startTimer (name : String) : Moves SameClients (UniServer.startTimer name) := by
  intro u
  by_cases live : name ∈ u.m_timer_map
  · rw [UniServer.startTimer_live live]
    exact .refl u
  · rw [UniServer.startTimer_run live]
    exact .refl u

theorem moves_endTimer (name : String) : Moves SameClients (UniServer.endTimer name) := by
  intro u
  by_cases live : name ∈ u.m_timer_map
  · rw [UniServer.endTimer_run live]
    exact .refl u
  · rw [UniServer.endTimer_gone live]
    exact .refl u

theorem moves_addRunning (n : Int) : Moves SameClients (UniServer.addRunning n) :=
  (moves_get SameClients.refl).bind SameClients.trans fun _ =>
    (moves_lift _).bind SameClients.trans fun _ => moves_modify fun s => SameClients.refl s

theorem moves_executeAsyncExp (client blockIDSuffix : String) (blockIndex : Int)
    (functionName : String) (funcParameters : List String) (ifLastStep : Bool) :
    Moves SameClients (UniServer.executeAsyncExp client blockIDSuffix blockIndex functionName
      funcParameters ifLastStep) := by
  intro u
  rw [executeAsyncExp_eq u rfl]
  split_ifs <;> exact .refl u

/-- A call that leaves the tasks leaves the clients. -/
theorem moves_of_outcome {x : EStateM Stop UniServer Unit}
    (outcome : ∀ u, ∃ u', Leaves u u' ∧ (x u = .ok () u' ∨
      ∃ what, x u = .error (.runtime_error what) u')) : Moves SameClients x := by
  intro u
  obtain ⟨u', leaves, run | ⟨what, run⟩⟩ := outcome u
  · rw [run]
    exact leaves.numbers
  · rw [run]
    exact leaves.numbers

theorem moves_lastMetric (name : String) : Moves SameClients (UniServer.lastMetric name) := by
  refine Moves.bind SameClients.trans (moves_get SameClients.refl) fun u => ?_
  split
  · exact moves_pure SameClients.refl _
  · refine (moves_metrics _).bind SameClients.trans fun values => ?_
    split
    · exact moves_throw SameClients.refl _
    · exact moves_pure SameClients.refl _

theorem moves_stageStatus (out : Outside) : Moves SameClients (UniServer.stageStatus out) := by
  refine Moves.bind SameClients.trans (moves_get SameClients.refl) fun u => ?_
  dsimp only
  split
  · exact moves_pure SameClients.refl _
  · exact (moves_lastMetric _).bind SameClients.trans fun _ =>
      (moves_lastMetric _).bind SameClients.trans fun _ =>
        (moves_get SameClients.refl).bind SameClients.trans fun _ => moves_pure SameClients.refl _

/-- A call that keeps the clients, in a step that keeps what the call leaves. -/
theorem call_clients {α : Type} {x : EStateM Stop UniServer α}
    {returned : α → AsyncService → AsyncService} {thrown : AsyncService → AsyncService}
    (hs : s.call x returned thrown = .ok t) (keeps : Moves SameClients x)
    (returns : ∀ a s, (returned a s).server = s.server)
    (throws : ∀ s, (thrown s).server = s.server) : SameClients s.server t.server := by
  have moved := keeps s.server
  rcases call_eq_ok hs with ⟨a, u, run, rfl⟩ | ⟨what, u, run, rfl⟩
  · rw [run] at moved
    rw [returns]
    exact moved
  · rw [run] at moved
    rw [throws]
    exact moved

theorem advance_clients {timeSpan : TimeSpan} {out : Outside}
    (hs : s.advance i task timeSpan out phase = .ok t) : SameClients s.server t.server := by
  cases phase with
  | spawned => exact call_clients hs (moves_endTimer _) (fun _ _ => rfl) fun _ => rfl
  | scheduled => exact call_clients hs (moves_metrics _) (fun _ _ => rfl) fun _ => rfl
  | scheduleFound =>
    rw [advance] at hs
    exact call_clients hs (moves_metrics _) (fun _ _ => rfl) fun _ => rfl
  | recorded => exact call_clients hs (moves_addRunning _) (fun _ _ => rfl) fun _ => rfl
  | counted => exact call_clients hs (moves_startTimer _) (fun _ _ => rfl) fun _ => rfl
  | executed => exact call_clients hs (moves_endTimer _) (fun _ _ => rfl) fun _ => rfl
  | timed => exact call_clients hs (moves_metrics _) (fun _ _ => rfl) fun _ => rfl
  | anaFound =>
    rw [advance] at hs
    exact call_clients hs (moves_metrics _) (fun _ _ => rfl) fun _ => rfl
  | analysed =>
    exact call_clients hs (moves_of_outcome (erase_outcome _)) (fun _ _ => rfl) fun _ => rfl
  | erased => exact call_clients hs (moves_addRunning _) (fun _ _ => rfl) fun _ => rfl
  | discounted =>
    rw [advance] at hs
    split_ifs at hs
    · exact call_clients hs (moves_of_outcome (askTick_outcome out)) (fun _ _ => rfl) fun _ => rfl
    · cases hs
      exact .refl s.server
  | executing | finished | collided | threw | kept | unticked | stray => cases hs

/-- A client has a number once it has put something. -/
theorem step_clients {a : AsyncAction} (hs : step a s = .ok t) (client : String) :
    (t.server.clientStaging.m_clientAddrToID.lookup client).isSome ↔
      (s.server.clientStaging.m_clientAddrToID.lookup client).isSome ∨
        a = .putrawdata client := by
  have kept : SameClients s.server t.server → (∀ client, a ≠ .putrawdata client) →
      ((t.server.clientStaging.m_clientAddrToID.lookup client).isSome ↔
        (s.server.clientStaging.m_clientAddrToID.lookup client).isSome ∨
          a = .putrawdata client) := by
    intro same other
    rw [same.ids, or_iff_left (other client)]
  cases a with
  | putrawdata putter =>
    rw [step] at hs
    rcases call_eq_ok hs with ⟨_, u, run, rfl⟩ | ⟨what, u, run, rfl⟩
    · obtain ⟨m, cached, rfl⟩ := cacheClient_ok run
      refine (ClientForStaging.isSome_cache cached client).trans (or_congr_right ?_)
      exact ⟨fun same => by rw [same], fun same => by injection same⟩
    · obtain ⟨overflow, _⟩ := cacheClient_error run
      exact (UniServer.cacheClientAddr_error overflow).elim
  | executeAsyncExp client blockIDSuffix blockIndex functionName funcParameters ifLastStep =>
    rw [step] at hs
    exact kept (call_clients hs (moves_executeAsyncExp _ _ _ _ _ _) (fun _ _ => rfl) fun _ => rfl)
      fun _ => by simp
  | run i timeSpan out =>
    rw [step] at hs
    split at hs
    · cases hs
    · exact kept (advance_clients hs) fun _ => by simp
  | returns i u =>
    rw [step] at hs
    split at hs
    · split at hs
      · cases hs
        exact kept (Leaves.keepTasks s.server u).numbers fun _ => by simp
      · cases hs
    · cases hs
  | throws i u =>
    rw [step] at hs
    split at hs
    · split_ifs at hs
      cases hs
      exact kept (Leaves.keepTasks s.server u).numbers fun _ => by simp
    · cases hs
  | getStageStatus out =>
    rw [step] at hs
    exact kept (call_clients hs (moves_stageStatus out) (fun _ _ => rfl) fun _ => rfl)
      fun _ => by simp
  | startTimer timerName =>
    rw [step] at hs
    exact kept (call_clients hs (moves_startTimer _) (fun _ _ => rfl) fun _ => rfl)
      fun _ => by simp
  | endTimer timerName =>
    rw [step] at hs
    split_ifs at hs
    exact kept (call_clients hs (moves_endTimer _) (fun _ _ => rfl) fun _ => rfl)
      fun _ => by simp
  | request u =>
    cases hs
    exact kept (Leaves.keepTasks s.server u).numbers fun _ => by simp

end Clients

section Results

variable {u : UniServer} {as : List AsyncAction}

/-- What a server with tasks keeps. -/
structure Accounted (s : AsyncService) : Prop where
  /-- Every live timer is of one task or of one other request. -/
  timers : TimersOf s.server.m_timer_map s.tasks s.others
  /-- No two tasks time the same, so no two execute one block. -/
  alone : ∀ (i j : Nat) t t' name, s.tasks[i]? = some t → s.tasks[j]? = some t' →
    held t = some name →
    held t' = some name → i = j
  running : s.server.m_metricManager.m_runningThreads = s.tasks.countP counted
  proper : ∀ t ∈ s.tasks, Proper t
  /-- The tasks that did not come to their end are counted for good. -/
  leaks : (∀ t ∈ s.tasks, t.2.ended = true) →
    s.server.m_metricManager.m_runningThreads = s.tasks.countP fun t => t.2.leaked

theorem tasks_accounted (run : Run (Steps step) (start u) as s) : s.Accounted := by
  have h := inv_run run
  refine ⟨h.timers, fun i j t t' name hi hj hold hold' => ?_, h.running,
    h.proper, fun all => ?_⟩
  · have nodup := h.timers.perm.nodup_iff.mp h.timers.nodup
    exact same_of_nodup (List.nodup_append.mp nodup).1 hi hj hold hold'
  · rw [h.running]
    refine congrArg Nat.cast (List.countP_congr fun t mem => ?_)
    have ended := all t mem
    obtain ⟨task, phase⟩ := t
    cases phase <;> first | rfl | cases ended

/-- No server is known to the engine. -/
def asking : Outside where
  endpoint := "c"
  exposed _ := .error "no memory"
  sendTo _ := .error "no memory"
  lookup _ := .error "no server"
  eraseRawData _ _ := .error (.runtime_error "no server")
  UnMarshalDataObject _ := .error "no data"

/-- Two tasks on one block: the second finds the timer of the first and stays counted, the first
does not find its master. -/
def oneBlock : List AsyncAction :=
  have task : AsyncAction := .executeAsyncExp "c" "v_1" 0 "dummyAna" ["5", "s", "0"] true
  have tick : Nat → AsyncAction := fun i => .run i ⟨0, by norm_num [DBL_MAX]⟩ asking
  [.putrawdata "c", task, tick 0, tick 0, tick 0, tick 0, tick 0, task, tick 1, tick 1, tick 1,
    tick 1, tick 1, .returns 0 {}, tick 0, tick 0, tick 0, tick 0, tick 0, tick 0]

/-- What is computed of a run is so of its state. -/
theorem exists_of_runs {β : Type} {f : AsyncService → β} {b : β}
    (ran : (runs step as (start u)).toOption.map f = some b) :
    ∃ s, runs step as (start u) = .ok s ∧ f s = b := by
  cases result : runs step as (start u) with
  | error e =>
    rw [result] at ran
    cases ran
  | ok s =>
    rw [result] at ran
    exact ⟨s, rfl, Option.some.inj ran⟩

theorem oneBlock_accounted : ∃ s, runs step oneBlock (start {}) = .ok s ∧ s.Accounted ∧
    s.server.m_metricManager.m_runningThreads = 1 := by
  obtain ⟨s, ran, counts⟩ := exists_of_runs
    (by decide : (runs step oneBlock (start {})).toOption.map
      (·.server.m_metricManager.m_runningThreads) = some 1)
  exact ⟨s, ran, tasks_accounted (.of_runs ran), counts⟩

/-- Left to itself a task ends, at one of its ends, or comes into a function that may spin. -/
theorem task_ends (run : Run (Steps step) (start u) as s)
    (few : (s.tasks.length : Int) ≤ INT_MAX) (hi : s.tasks[i]? = some (task, phase))
    (out : Outside) :
    ∃ bs t last, Run (Steps step) s bs t ∧ (∀ a ∈ bs, AsyncAction.Of i task out a) ∧
      t.tasks = s.tasks.set i (task, last) ∧
        (last = .finished ∨ last = .collided ∨ last = .threw ∧ task.MayThrow ∨ last = .kept ∨
          last = .unticked ∧ task.ifLastStep = true ∨
          last = .executing ∧ task.MaySpin ∧ AsyncPhase.executing.left ≤ phase.left) := by
  obtain ⟨bs, t, last, rest, own, inv, set, rests⟩ := own_run out (inv_run run) hi few
  have inside := (List.getElem?_eq_some_iff.mp hi).1
  have here : t.tasks[i]? = some (task, last) := by
    rw [set, List.getElem?_set_self inside]
  have proper := inv.proper _ (List.mem_of_getElem? here)
  refine ⟨bs, t, last, rest, own, set, ?_⟩
  rcases rests with ended | spins
  · cases last with
    | finished => exact .inl rfl
    | collided => exact .inr (.inl rfl)
    | threw => exact .inr (.inr (.inl ⟨rfl, proper.threw rfl⟩))
    | kept => exact .inr (.inr (.inr (.inl rfl)))
    | unticked => exact .inr (.inr (.inr (.inr (.inl ⟨rfl, proper.unticked rfl⟩))))
    | stray => exact absurd rfl proper.stray
    | spawned | scheduled | scheduleFound | recorded | counted | executing | executed | timed
    | anaFound | analysed | erased | discounted => cases ended
  · exact .inr (.inr (.inr (.inr (.inr spins))))

/-- The second of the two comes to an end, the first being in its function. -/
theorem oneBlock_ends : ∃ s t bs task last, runs step (oneBlock.take 8) (start {}) = .ok s ∧
    Run (Steps step) s bs t ∧ (∀ a ∈ bs, AsyncAction.Of 1 task asking a) ∧
      t.tasks = s.tasks.set 1 (task, last) ∧
        (last = .finished ∨ last = .collided ∨ last = .threw ∧ task.MayThrow ∨ last = .kept ∨
          last = .unticked ∧ task.ifLastStep = true ∨
          last = .executing ∧ task.MaySpin ∧
            AsyncPhase.executing.left ≤ AsyncPhase.spawned.left) := by
  obtain ⟨s, ran, both⟩ := exists_of_runs
    (by decide : (runs step (oneBlock.take 8) (start {})).toOption.map
      (fun s => (s.tasks.length, s.tasks[1]?.map fun t => t.2.left)) = some (2, some 12))
  obtain ⟨two, second⟩ := Prod.mk.inj both
  obtain ⟨⟨task, phase⟩, hi, fresh⟩ := Option.map_eq_some_iff.mp second
  obtain ⟨bs, t, last, rest⟩ := task_ends (.of_runs ran) (by rw [two]; decide) hi asking
  rw [show phase.left = AsyncPhase.spawned.left from fresh] at rest
  exact ⟨s, t, bs, task, last, ran, rest⟩

theorem clients_run (run : Run (Steps step) (start u) as s) (client : String) :
    (s.server.clientStaging.m_clientAddrToID.lookup client).isSome ↔
      AsyncAction.putrawdata client ∈ as := by
  induction run with
  | start => exact iff_of_false (by simp [start]) List.not_mem_nil
  | next _ hstep ih =>
    rw [step_clients hstep, ih, List.mem_append, List.mem_singleton, eq_comm]

/-- The status of a client that has put something. -/
def status (client : String) (s : AsyncService) : List Rat :=
  [Span.last client false s.spans, Span.last client true s.spans, s.tasks.countP counted / 32]

/-- A task of the client has found an array, and no value was ever added to it. -/
def Awaits (s : AsyncService) (client : String) : Prop :=
  ∃ ana, Span.kind client ana s.spans = [] ∧
    ∃ t ∈ s.tasks, t.1.client = client ∧ t.2.opens = some ana

/-- The arrays of a client are those that its tasks have found. -/
theorem Known.mem_opened_iff {m : ClientForStaging} {tasks : List (AsyncTask × AsyncPhase)}
    {spans : List Span} {client : String} {c : Int} (h : Known m tasks spans)
    (found : m.m_clientAddrToID.lookup client = some c) (ana : Bool) :
    Span.key ana c ∈ tasks.filterMap opened ↔
      ∃ t ∈ tasks, t.1.client = client ∧ t.2.opens = some ana := by
  rw [List.mem_filterMap]
  refine exists_congr fun t => and_congr_right fun mem => ?_
  have own := h.tasks t mem
  have here := (h.numbered.range _ _ own).1
  have pos := (h.numbered.range _ _ found).1
  have same : t.1.clientid = c ↔ t.1.client = client := by
    refine ⟨fun id => h.numbered.distinct _ _ c (id ▸ own) found, fun id => ?_⟩
    rw [id, found] at own
    exact (Option.some.inj own).symm
  rw [opened, Option.map_eq_some_iff]
  constructor
  · rintro ⟨ana', opens, key⟩
    obtain ⟨rfl, id⟩ := (Span.key_inj (by omega) (by omega)).mp key
    exact ⟨same.mp id, opens⟩
  · rintro ⟨id, opens⟩
    exact ⟨ana, opens, by rw [same.mpr id]⟩

theorem ready_iff {client : String} {c : Int} (h : s.Inv)
    (found : s.server.clientStaging.m_clientAddrToID.lookup client = some c) :
    UniServer.Ready (s.tasks.filterMap opened) client c s.spans ↔ ¬ s.Awaits client := by
  unfold UniServer.Ready Awaits
  rw [not_exists]
  refine forall_congr' fun ana => ?_
  rw [h.known.mem_opened_iff found, not_and']

/-- A client that has put something gets its last times, but no reply at all while its first time
is half put. -/
theorem stageStatus_answered (run : Run (Steps step) (start u) as s) (out : Outside) :
    (AsyncAction.putrawdata out.endpoint ∉ as →
      (getStageStatus out).replies s.server = [[0, 0, 0]]) ∧
    (AsyncAction.putrawdata out.endpoint ∈ as → ¬ s.Awaits out.endpoint →
      (getStageStatus out).replies s.server = [s.status out.endpoint]) ∧
    (AsyncAction.putrawdata out.endpoint ∈ as → s.Awaits out.endpoint →
      (getStageStatus out).replies s.server = []) := by
  have h := inv_run run
  have put := clients_run run out.endpoint
  cases found : s.server.clientStaging.m_clientAddrToID.lookup out.endpoint with
  | none =>
    rw [found] at put
    have absent : AsyncAction.putrawdata out.endpoint ∉ as := fun mem =>
      absurd (put.mpr mem) Bool.false_ne_true
    refine ⟨fun _ => ?_, fun mem => absurd mem absent, fun mem => absurd mem absent⟩
    rw [Handler.replies, getStageStatus,
      bind_ok (onServer_ok (UniServer.stageStatus_unknown found))]
    rfl
  | some c =>
    rw [found] at put
    have range := h.known.numbered.range _ _ found
    have own := h.known.own found
    refine ⟨fun absent => absurd (put.mp rfl) absent, fun _ ready => ?_, fun _ waits => ?_⟩
    · obtain ⟨mm, answered, _⟩ :=
        UniServer.stageStatus_known h.metrics found range.1 own ((ready_iff h found).mpr ready)
      rw [Handler.replies, getStageStatus, bind_ok (onServer_ok answered), status, h.running]
      rfl
    · obtain ⟨what, mm, thrown, _⟩ := UniServer.stageStatus_throws h.metrics found range.1 own
        fun ready => (ready_iff h found).mp ready waits
      rw [Handler.replies, getStageStatus, bind_error (onServer_error thrown)]
      rfl

/-- A client that asks when its first time is half put, and at the end. -/
theorem oneBlock_answered : (∃ s, runs step (oneBlock.take 4) (start {}) = .ok s ∧
    (getStageStatus asking).replies s.server = []) ∧
      ∃ s, runs step oneBlock (start {}) = .ok s ∧
        (getStageStatus asking).replies s.server = [s.status "c"] := by
  constructor
  · obtain ⟨s, ran, half⟩ := exists_of_runs
      (by decide : (runs step (oneBlock.take 4) (start {})).toOption.map
        (fun s => (s.spans.length, s.tasks.map fun t => (t.1.client, t.2.opens))) =
          some (0, [("c", some false)]))
    refine ⟨s, ran, (stageStatus_answered (.of_runs ran) asking).2.2 List.mem_cons_self ?_⟩
    obtain ⟨empty, tasks⟩ := Prod.mk.inj half
    refine ⟨false, ?_, ?_⟩
    · rw [List.eq_nil_of_length_eq_zero empty]
      rfl
    · obtain ⟨t, mem, same⟩ := List.mem_map.mp (tasks ▸ List.mem_singleton_self ("c", some false))
      obtain ⟨client, opens⟩ := Prod.mk.inj same
      exact ⟨t, mem, client, opens⟩
  · obtain ⟨s, ran, idle⟩ := exists_of_runs
      (by decide : (runs step oneBlock (start {})).toOption.map
        (fun s => s.tasks.all fun t => t.2.opens.isNone) = some true)
    refine ⟨s, ran, (stageStatus_answered (.of_runs ran) asking).2.1 List.mem_cons_self ?_⟩
    rintro ⟨ana, _, t, mem, _, opens⟩
    have closed := List.all_eq_true.mp idle t mem
    rw [opens] at closed
    cases closed

end Results

end AsyncService

end Gorilla
