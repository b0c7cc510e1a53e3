import Gorilla.Lib.Holders
import Gorilla.Lib.Runs
import Gorilla.Server.UniServer

/-!
# Timers of concurrent activities

The handlers of `putmetadata` and `executeRawFunc` and the trigger threads between them, on
any number of servers, stepped one call at a time. Each server has one map of live timers.
-/

namespace Gorilla

open HandLock Runs Holders

/-- The next thing an activity does. The first argument is the server it runs on. -/
inductive TimerPhase (ι : Type)
  | putmetadata (server : String) (rde : BlockDescriptor)
  | spawned (server : String) (rde : BlockDescriptor)
  | scheduled (server : String) (rde : BlockDescriptor)
  | inTrigger (server : String) (rde : BlockDescriptor)
  | calling (server : String) (rde : BlockDescriptor) (handler : ι)
  | returning (server : String) (rde : BlockDescriptor)
  | triggered (server : String) (rde : BlockDescriptor)
  | lookup (server blockID : String)
  | found (server blockID : String)
  | inFunction (server blockID : String)
  | executed (server blockID : String)
  | replied
  | failed (server blockID : String)
  | aborted

namespace TimerPhase
variable {ι : Type}

/-- The block an activity executes, or executed when an exception ended it, and where. -/
def executing : TimerPhase ι → Option (String × String)
  | .inTrigger server rde | .calling server rde _ | .returning server rde
  | .triggered server rde => some (server, rde.m_rawDataID)
  | .inFunction server blockID | .executed server blockID | .failed server blockID =>
    some (server, blockID)
  | _ => none

/-- The block whose wait timer an activity starts or ends. -/
def waiting : TimerPhase ι → Option (String × String)
  | .putmetadata server rde | .spawned server rde => some (server, rde.m_rawDataID)
  | _ => none

/-- The timer an activity has started and not ended. -/
def holds : TimerPhase ι → Option (String × String)
  | .spawned server rde => some (server, rde.m_rawDataID ++ "_wait")
  | phase => phase.executing.map fun x => (x.1, x.2 ++ "_execute")

/-- The block whose execution an activity is about to time. -/
def starting : TimerPhase ι → Option (String × String)
  | .scheduled server rde => some (server, rde.m_rawDataID)
  | .found server blockID => some (server, blockID)
  | _ => none

/-- The timer an activity starts next. -/
def starts : TimerPhase ι → Option (String × String)
  | .putmetadata server rde => some (server, rde.m_rawDataID ++ "_wait")
  | phase => phase.starting.map fun x => (x.1, x.2 ++ "_execute")

/-- The timer an activity ends next. -/
def ends : TimerPhase ι → Option (String × String)
  | .spawned server rde => some (server, rde.m_rawDataID ++ "_wait")
  | .triggered server rde => some (server, rde.m_rawDataID ++ "_execute")
  | .executed server blockID => some (server, blockID ++ "_execute")
  | _ => none

end TimerPhase

inductive TimerAction (ι : Type)
  | putmetadata (i : ι) (server : String) (rde : BlockDescriptor)
  | executeRawFunc (i : ι) (server blockID : String)
  | call (i handler : ι)
  | run (i : ι)
  | throw (i : ι)

/-- The servers and the activities on them; `puts` are the blocks each server was told of. -/
structure TimerService (ι : Type) where
  servers : String → UniServer
  phase : ι → Option (TimerPhase ι) := fun _ => none
  puts : List (String × String) := []

namespace TimerService
variable {ι : Type} [DecidableEq ι]

def moved (s : TimerService ι) (i : ι) (phase : TimerPhase ι) : TimerService ι :=
  { s with phase := Function.update s.phase i (some phase) }

def onServer (s : TimerService ι) (server : String) (u : UniServer) : TimerService ι :=
  { s with servers := Function.update s.servers server u }

/-- A timer call of an activity; its exception ends the activity. -/
def timed (s : TimerService ι) (server : String) (call : EStateM Stop UniServer Unit) (i : ι)
    (next : TimerPhase ι) : Except Stop (TimerService ι) :=
  match call (s.servers server) with
  | .ok _ u => .ok ((s.onServer server u).moved i next)
  | .error (.runtime_error _) u => .ok ((s.onServer server u).moved i .aborted)
  | .error e _ => .error e

/-- The next step of an activity that nothing goes wrong in. -/
def advance (s : TimerService ι) (i : ι) : TimerPhase ι → Except Stop (TimerService ι)
  | .putmetadata server rde =>
    s.timed server (UniServer.startTimer (rde.m_rawDataID ++ "_wait")) i (.spawned server rde)
  | .spawned server rde =>
    s.timed server (UniServer.endTimer (rde.m_rawDataID ++ "_wait")) i (.scheduled server rde)
  | .scheduled server rde =>
    s.timed server (UniServer.startTimer (rde.m_rawDataID ++ "_execute")) i
      (.inTrigger server rde)
  | .inTrigger server rde => .ok (s.moved i (.triggered server rde))
  | .calling server rde handler =>
    match s.phase handler with
    | some .replied => .ok (s.moved i (.returning server rde))
    | _ => .error (.blocked "executeRawFunc")
  | .returning server rde => .ok (s.moved i (.triggered server rde))
  | .triggered server rde =>
    s.timed server (UniServer.endTimer (rde.m_rawDataID ++ "_execute")) i .replied
  | .lookup server blockID =>
    .ok (s.moved i
      (if ((s.servers server).m_blockManager.DataBlockMap.lookup blockID).isSome then
        .found server blockID
      else .replied))
  | .found server blockID =>
    s.timed server (UniServer.startTimer (blockID ++ "_execute")) i (.inFunction server blockID)
  | .inFunction server blockID => .ok (s.moved i (.executed server blockID))
  | .executed server blockID =>
    s.timed server (UniServer.endTimer (blockID ++ "_execute")) i .replied
  | .replied | .failed _ _ | .aborted => .error (.blocked "the activity has ended")

/-- A server is told of a block once. The action of a trigger sends its request to the server
of the block unless that is the master. -/
def step (m_masterAddr : String) : TimerAction ι → TimerService ι → Except Stop (TimerService ι)
  | .putmetadata i server rde, s =>
    if s.phase i = none ∧ (server, rde.m_rawDataID) ∉ s.puts then
      .ok ({ s with puts := (server, rde.m_rawDataID) :: s.puts }.moved i (.putmetadata server rde))
    else .error (.blocked "putmetadata")
  | .executeRawFunc i server blockID, s =>
    match s.phase i with
    | none => .ok (s.moved i (.lookup server blockID))
    | some _ => .error (.blocked "executeRawFunc")
  | .call i handler, s =>
    match s.phase i, s.phase handler with
    | some (.inTrigger server rde), none =>
      if rde.m_rawDataServerAddr = m_masterAddr then
        .error (.blocked "InsituExpAction")
      else
        .ok ((s.moved handler (.lookup rde.m_rawDataServerAddr rde.m_rawDataID)).moved i
          (.calling server rde handler))
    | _, _ => .error (.blocked "InsituExpAction")
  | .run i, s =>
    match s.phase i with
    | none => .error (.blocked "no request")
    | some phase => s.advance i phase
  | .throw i, s =>
    match s.phase i with
    | some (.inTrigger server rde) | some (.returning server rde) =>
      .ok (s.moved i (.failed server rde.m_rawDataID))
    | some (.inFunction server blockID) => .ok (s.moved i (.failed server blockID))
    | _ => .error (.blocked "no exception")

end TimerService

/-! ## Names -/

theorem wait_ne_execute (a b : String) : a ++ "_wait" ≠ b ++ "_execute" := by
  intro h
  have last := congrArg (fun name : String => name.toList.getLast?) h
  simp [String.toList_append] at last

namespace TimerPhase
variable {ι : Type} {phase : TimerPhase ι} {server blockID : String}

theorem holds_of_executing (h : phase.executing = some (server, blockID)) :
    phase.holds = some (server, blockID ++ "_execute") := by
  cases phase <;> simp_all [holds, executing]

theorem executing_of_holds (h : phase.holds = some (server, blockID ++ "_execute")) :
    phase.executing = some (server, blockID) := by
  cases phase <;> simp_all [holds, executing, wait_ne_execute]

theorem holds_execute_iff :
    phase.holds = some (server, blockID ++ "_execute") ↔
      phase.executing = some (server, blockID) := ⟨executing_of_holds, holds_of_executing⟩

theorem spawned_of_holds (h : phase.holds = some (server, blockID ++ "_wait")) :
    ∃ rde, phase = .spawned server rde ∧ rde.m_rawDataID = blockID := by
  cases phase <;> simp_all [holds, executing, (wait_ne_execute _ _).symm]

end TimerPhase

namespace UniServer

def withTimers (s : UniServer) (timers : List String) : UniServer :=
  { s with m_timer_map := timers }

theorem startTimer_run {s : UniServer} {timerName : String} (h : timerName ∉ s.m_timer_map) :
    startTimer timerName s =
      .ok () (s.withTimers (s.m_timer_map ++ [timerName])) := by
  unfold startTimer
  refine (bind_ok rfl).trans ?_
  rw [if_neg h]
  rfl

theorem startTimer_live {s : UniServer} {timerName : String} (h : timerName ∈ s.m_timer_map) :
    startTimer timerName s =
      .error (.runtime_error ("the timer exist with name: " ++ timerName)) s := by
  unfold startTimer
  refine (bind_ok rfl).trans ?_
  rw [if_pos h]
  rfl

theorem endTimer_run {s : UniServer} {timerName : String} (h : timerName ∈ s.m_timer_map) :
    endTimer timerName s =
      .ok () (s.withTimers (s.m_timer_map.erase timerName)) := by
  unfold endTimer
  refine (bind_ok rfl).trans ?_
  rw [if_neg (not_not_intro h)]
  rfl

theorem endTimer_gone {s : UniServer} {timerName : String} (h : timerName ∉ s.m_timer_map) :
    endTimer timerName s =
      .error (.runtime_error ("the timer is not initilized with name: " ++ timerName)) s := by
  unfold endTimer
  refine (bind_ok rfl).trans ?_
  rw [if_pos h]
  rfl

end UniServer

namespace TimerService
variable {ι : Type} [DecidableEq ι] {s t : TimerService ι} {i : ι} {next : TimerPhase ι}

def live (s : TimerService ι) (server : String) : List String := (s.servers server).m_timer_map

def holds (s : TimerService ι) (i : ι) : Option (String × String) :=
  (s.phase i).bind TimerPhase.holds

def waiting (s : TimerService ι) (i : ι) : Option (String × String) :=
  (s.phase i).bind TimerPhase.waiting

/-- The wait timer of a block belongs to the one activity that was told of it there. -/
structure Waits (s : TimerService ι) : Prop where
  known : ∀ i x, s.waiting i = some x → x ∈ s.puts
  alone : ∀ i j x, s.waiting i = some x → s.waiting j = some x → i = j

structure Inv (s : TimerService ι) : Prop where
  mirrors : Mirrors s.live s.holds
  waits : s.Waits

theorem holds_update (hp : t.phase = Function.update s.phase i (some next)) :
    t.holds = Function.update s.holds i next.holds := by
  funext j
  rw [holds, hp]
  by_cases hj : j = i
  · subst hj
    simp
  · simp [Function.update_of_ne hj, holds]

/-- An activity that moves on waits for nothing new. -/
theorem waits_update (h : s.Waits) (hw : next.waiting = none ∨ next.waiting = s.waiting i)
    (hp : t.phase = Function.update s.phase i (some next)) (puts : t.puts = s.puts) :
    t.Waits := by
  have before : ∀ j x, t.waiting j = some x → s.waiting j = some x := by
    intro j x hj
    rw [waiting, hp] at hj
    by_cases hji : j = i
    · subst hji
      rw [Function.update_self, Option.bind_some] at hj
      rcases hw with hn | hn
      · rw [hn] at hj
        cases hj
      · rw [← hn, hj]
    · rwa [Function.update_of_ne hji] at hj
  refine ⟨fun j x hj => ?_, fun j k x hj hk => h.alone j k x (before j x hj) (before k x hk)⟩
  rw [puts]
  exact h.known j x (before j x hj)

theorem inv_same (h : s.Inv) (hh : next.holds = s.holds i)
    (hw : next.waiting = none ∨ next.waiting = s.waiting i)
    (hp : t.phase = Function.update s.phase i (some next)) (puts : t.puts = s.puts)
    (timers : ∀ server, t.live server = s.live server) : t.Inv := by
  refine ⟨h.mirrors.congr timers fun j => ?_, waits_update h.waits hw hp puts⟩
  rw [holds_update hp, hh, Function.update_eq_self]

theorem inv_moved (h : s.Inv) (hh : next.holds = s.holds i)
    (hw : next.waiting = none ∨ next.waiting = s.waiting i) : (s.moved i next).Inv :=
  inv_same h hh hw rfl rfl fun _ => rfl

theorem live_onServer (server : String) (u : UniServer) (v : String) :
    ((s.onServer server u).moved i next).live v =
      Function.update s.live server u.m_timer_map v := by
  show (Function.update s.servers server u v).m_timer_map = _
  by_cases hv : v = server
  · subst hv
    simp
  · simp [Function.update_of_ne hv, live]

section Timed
variable {server timerName : String}

/-- A start takes the name, and ends the activity where the name is live. -/
theorem timed_start (hs : s.timed server (UniServer.startTimer timerName) i next = .ok t) :
    (timerName ∉ s.live server ∧
      t = (s.onServer server
        ((s.servers server).withTimers (s.live server ++ [timerName]))).moved i next) ∨
    (timerName ∈ s.live server ∧
      t = (s.onServer server (s.servers server)).moved i .aborted) := by
  by_cases hl : timerName ∈ s.live server
  · rw [timed, UniServer.startTimer_live hl] at hs
    cases hs
    exact .inr ⟨hl, rfl⟩
  · rw [timed, UniServer.startTimer_run hl] at hs
    cases hs
    exact .inl ⟨hl, rfl⟩

theorem inv_start (h : s.Inv)
    (hs : s.timed server (UniServer.startTimer timerName) i next = .ok t)
    (idle : s.holds i = none) (hh : next.holds = some (server, timerName))
    (hw : next.waiting = none ∨ next.waiting = s.waiting i) : t.Inv := by
  rcases timed_start hs with ⟨free, rfl⟩ | ⟨_, rfl⟩
  · refine ⟨(h.mirrors.take (v := server) idle free).congr (live_onServer _ _) fun j => ?_,
      waits_update h.waits hw rfl rfl⟩
    rw [← hh]
    exact congrFun (holds_update rfl) j
  · have ended : (.aborted : TimerPhase ι).holds = s.holds i := by
      rw [idle]
      rfl
    refine inv_same h ended (.inl rfl) rfl rfl fun v => ?_
    rw [live_onServer]
    exact congrFun (Function.update_eq_self server s.live) v

theorem inv_stop (h : s.Inv)
    (hs : s.timed server (UniServer.endTimer timerName) i next = .ok t)
    (held : s.holds i = some (server, timerName)) (hh : next.holds = none)
    (hw : next.waiting = none) : t.Inv := by
  have hl : timerName ∈ s.live server := (h.mirrors.live_iff server timerName).mpr ⟨i, held⟩
  rw [timed, UniServer.endTimer_run hl] at hs
  cases hs
  refine ⟨(h.mirrors.drop held).congr (live_onServer _ _) fun j => ?_,
    waits_update h.waits (.inl hw) rfl rfl⟩
  rw [← hh]
  exact congrFun (holds_update rfl) j

end Timed

omit [DecidableEq ι] in
theorem holds_eq {phase : TimerPhase ι} (hp : s.phase i = some phase) :
    s.holds i = phase.holds := by
  rw [holds, hp, Option.bind_some]

omit [DecidableEq ι] in
theorem waiting_eq {phase : TimerPhase ι} (hp : s.phase i = some phase) :
    s.waiting i = phase.waiting := by
  rw [waiting, hp, Option.bind_some]

theorem inv_advance {phase : TimerPhase ι} (h : s.Inv) (hp : s.phase i = some phase)
    (hs : s.advance i phase = .ok t) : t.Inv := by
  have held := holds_eq hp
  have waits := waiting_eq hp
  cases phase with
  | putmetadata server rde => exact inv_start h hs held rfl (.inr waits.symm)
  | spawned server rde => exact inv_stop h hs held rfl rfl
  | scheduled server rde => exact inv_start h hs held rfl (.inl rfl)
  | inTrigger server rde =>
    cases hs
    exact inv_moved h held.symm (.inl rfl)
  | calling server rde handler =>
    rw [advance] at hs
    split at hs
    · cases hs
      exact inv_moved h held.symm (.inl rfl)
    · cases hs
  | returning server rde =>
    cases hs
    exact inv_moved h held.symm (.inl rfl)
  | triggered server rde => exact inv_stop h hs held rfl rfl
  | lookup server blockID =>
    cases hs
    refine inv_moved h ?_ (.inl ?_)
    · rw [held]
      split <;> rfl
    · split <;> rfl
  | found server blockID => exact inv_start h hs held rfl (.inl rfl)
  | inFunction server blockID =>
    cases hs
    exact inv_moved h held.symm (.inl rfl)
  | executed server blockID => exact inv_stop h hs held rfl rfl
  | replied => cases hs
  | failed server blockID => cases hs
  | aborted => cases hs

theorem inv_put (h : s.Inv) {server : String} {rde : BlockDescriptor} (idle : s.phase i = none)
    (fresh : (server, rde.m_rawDataID) ∉ s.puts) :
    ({ s with puts := (server, rde.m_rawDataID) :: s.puts }.moved i
      (.putmetadata server rde)).Inv := by
  have held : s.holds i = none := by
    rw [holds, idle]
    rfl
  have before : ∀ j x, j ≠ i → ({ s with puts := (server, rde.m_rawDataID) :: s.puts }.moved i
      (.putmetadata server rde)).waiting j = some x → s.waiting j = some x := by
    intro j x hj h
    simpa [waiting, moved, Function.update_of_ne hj] using h
  have own : ∀ x, ({ s with puts := (server, rde.m_rawDataID) :: s.puts }.moved i
      (.putmetadata server rde)).waiting i = some x → x = (server, rde.m_rawDataID) := by
    intro x h
    simpa [waiting, moved, TimerPhase.waiting, eq_comm] using h
  refine ⟨h.mirrors.congr (fun _ => rfl) fun j => ?_, fun j x hj => ?_, fun j k x hj hk => ?_⟩
  · refine (congrFun (holds_update (s := s) rfl) j).trans ?_
    show Function.update s.holds i none j = s.holds j
    rw [← held, Function.update_eq_self]
  · by_cases hji : j = i
    · subst hji
      rw [own x hj]
      exact List.mem_cons_self
    · exact List.mem_cons_of_mem _ (h.waits.known j x (before j x hji hj))
  · by_cases hji : j = i <;> by_cases hki : k = i
    · rw [hji, hki]
    · subst hji
      rw [own x hj] at hk
      exact absurd (h.waits.known k _ (before k _ hki hk)) fresh
    · subst hki
      rw [own x hk] at hj
      exact absurd (h.waits.known j _ (before j _ hji hj)) fresh
    · exact h.waits.alone j k x (before j x hji hj) (before k x hki hk)

theorem inv_arrive (h : s.Inv) (server blockID : String) (idle : s.phase i = none) :
    (s.moved i (.lookup server blockID)).Inv := by
  refine inv_moved h ?_ (.inl rfl)
  rw [holds, idle]
  rfl

theorem inv_throw {phase : TimerPhase ι} {server blockID : String} (h : s.Inv)
    (hp : s.phase i = some phase) (executing : phase.executing = some (server, blockID)) :
    (s.moved i (.failed server blockID)).Inv := by
  refine inv_moved h ?_ (.inl rfl)
  rw [holds_eq hp, TimerPhase.holds_of_executing executing]
  rfl

theorem inv_step {m_masterAddr : String} {a : TimerAction ι} (h : s.Inv)
    (hs : step m_masterAddr a s = .ok t) : t.Inv := by
  cases a with
  | putmetadata i server rde =>
    rw [step] at hs
    by_cases hput : s.phase i = none ∧ (server, rde.m_rawDataID) ∉ s.puts
    · rw [if_pos hput] at hs
      cases hs
      exact inv_put h hput.1 hput.2
    · rw [if_neg hput] at hs
      cases hs
  | executeRawFunc i server blockID =>
    rw [step] at hs
    cases hi : s.phase i with
    | none =>
      rw [hi] at hs
      cases hs
      exact inv_arrive h server blockID hi
    | some phase =>
      rw [hi] at hs
      cases hs
  | call i handler =>
    unfold step at hs
    dsimp only at hs
    split at hs
    · rename_i server rde hi hj
      split at hs
      · cases hs
      · cases hs
        have hne : i ≠ handler := by
          rintro rfl
          rw [hj] at hi
          cases hi
        have arrived := inv_arrive h rde.m_rawDataServerAddr rde.m_rawDataID hj
        have hi' : (s.moved handler (.lookup rde.m_rawDataServerAddr rde.m_rawDataID)).phase i =
            some (.inTrigger server rde) := by
          simpa [moved, Function.update_of_ne hne] using hi
        exact inv_moved arrived (holds_eq hi').symm (.inl rfl)
    · cases hs
  | run i =>
    rw [step] at hs
    cases hi : s.phase i with
    | none =>
      rw [hi] at hs
      cases hs
    | some phase =>
      rw [hi] at hs
      exact inv_advance h hi hs
  | throw i =>
    unfold step at hs
    dsimp only at hs
    split at hs
    · rename_i hi
      cases hs
      exact inv_throw h hi rfl
    · rename_i hi
      cases hs
      exact inv_throw h hi rfl
    · rename_i hi
      cases hs
      exact inv_throw h hi rfl
    · cases hs

/-- Servers on which no timer is live. -/
def init (servers : String → UniServer) : TimerService ι :=
  { servers := fun server => (servers server).withTimers [] }

omit [DecidableEq ι] in
theorem inv_init (servers : String → UniServer) : (init servers : TimerService ι).Inv := by
  refine ⟨⟨fun v n => ?_, fun i j x h => ?_, fun v => List.nodup_nil⟩, fun i x h => ?_,
    fun i j x h => ?_⟩
  · simp [init, live, holds, UniServer.withTimers]
  · cases h
  · cases h
  · cases h

theorem inv_of_run {m_masterAddr : String} {servers : String → UniServer}
    {as : List (TimerAction ι)} (run : Run (Steps (step m_masterAddr)) (init servers) as s) :
    s.Inv :=
  run.invariant (inv_init servers) fun _ _ _ h hs => inv_step h hs

/-- No timer is started while its name is live, and none is ended while it is not. -/
def Timely : TimerAction ι → TimerService ι → Prop
  | .run i, s => ∀ server timerName,
    ((s.phase i).bind TimerPhase.starts = some (server, timerName) →
      timerName ∉ (s.servers server).m_timer_map) ∧
    ((s.phase i).bind TimerPhase.ends = some (server, timerName) →
      timerName ∈ (s.servers server).m_timer_map)
  | _, _ => True

/-- An execution of a block starts where no other execution of it is in progress, or was
left by an exception. -/
def Apart : TimerAction ι → TimerService ι → Prop
  | .run i, s => ∀ server blockID,
    (s.phase i).bind TimerPhase.starting = some (server, blockID) →
      ∀ j, (s.phase j).bind TimerPhase.executing ≠ some (server, blockID)
  | _, _ => True

omit [DecidableEq ι] in
/-- An execute timer is live where an activity executes the block. -/
theorem execute_live_iff (h : s.Inv) (server blockID : String) :
    blockID ++ "_execute" ∈ (s.servers server).m_timer_map ↔
      ∃ j, (s.phase j).bind TimerPhase.executing = some (server, blockID) := by
  rw [show (s.servers server).m_timer_map = s.live server from rfl, h.mirrors.live_iff]
  refine exists_congr fun j => ?_
  rw [holds]
  cases s.phase j with
  | none => simp
  | some phase => exact TimerPhase.holds_execute_iff

omit [DecidableEq ι] in
/-- The wait timer of an activity that was told of a block is not live. -/
theorem wait_not_live (h : s.Inv) {server : String} {rde : BlockDescriptor}
    (hi : s.phase i = some (.putmetadata server rde)) :
    rde.m_rawDataID ++ "_wait" ∉ (s.servers server).m_timer_map := by
  intro live
  obtain ⟨j, hj⟩ := (h.mirrors.live_iff server _).mp live
  obtain ⟨phase, hphase, held⟩ := Option.bind_eq_some_iff.mp hj
  obtain ⟨rde', rfl, same⟩ := TimerPhase.spawned_of_holds held
  have waits : s.waiting j = s.waiting i := by
    rw [waiting_eq hphase, waiting_eq hi]
    simp only [TimerPhase.waiting, same]
  have hij := h.waits.alone j i (server, rde.m_rawDataID) (waits.trans (waiting_eq hi))
    (waiting_eq hi)
  rw [hij, hi] at hphase
  cases hphase

omit [DecidableEq ι] in
/-- What an activity ends it has started. -/
theorem holds_of_ends {phase : TimerPhase ι} {x : String × String} (h : phase.ends = some x) :
    phase.holds = some x := by
  cases phase <;> simp_all [TimerPhase.ends, TimerPhase.holds, TimerPhase.executing]

omit [DecidableEq ι] in
theorem timely_iff_apart (h : s.Inv) (a : TimerAction ι) : Timely a s ↔ Apart a s := by
  cases a with
  | run i =>
    cases hi : s.phase i with
    | none => simp [Timely, Apart, hi]
    | some phase =>
      have ends : ∀ server timerName, phase.ends = some (server, timerName) →
          timerName ∈ (s.servers server).m_timer_map := fun server timerName he =>
        (h.mirrors.live_iff server timerName).mpr ⟨i, (holds_eq hi).trans (holds_of_ends he)⟩
      simp only [Timely, Apart, hi, Option.bind_some]
      constructor
      · intro timely server blockID hs j hj
        have starts : phase.starts = some (server, blockID ++ "_execute") := by
          cases phase <;> simp_all [TimerPhase.starts, TimerPhase.starting]
        exact (timely server _).1 starts ((execute_live_iff h server blockID).mpr ⟨j, hj⟩)
      · intro apart server timerName
        refine ⟨fun starts live => ?_, ends server timerName⟩
        cases phase with
        | putmetadata server rde =>
          cases starts
          exact wait_not_live h hi live
        | scheduled server rde =>
          cases starts
          obtain ⟨j, hj⟩ := (execute_live_iff h server rde.m_rawDataID).mp live
          exact apart server rde.m_rawDataID rfl j hj
        | found server blockID =>
          cases starts
          obtain ⟨j, hj⟩ := (execute_live_iff h server blockID).mp live
          exact apart server blockID rfl j hj
        | _ => cases starts
  | _ => exact Iff.rfl

/-- The runs in which no timer name collides are those in which the executions of a block
on a server never overlap. -/
theorem timely_run_iff {m_masterAddr : String} {servers : String → UniServer}
    {as : List (TimerAction ι)} :
    Run (Meeting Timely (Steps (step m_masterAddr))) (init servers) as t ↔
      Run (Meeting Apart (Steps (step m_masterAddr))) (init servers) as t :=
  Run.meeting_iff fun _ a _ _ run _ => timely_iff_apart (inv_of_run run.of_meeting) a

/-- The metadata server of a block is also the server that holds it. -/
def sameServer : List (TimerAction Bool) :=
  [.putmetadata false "server1" { m_rawDataServerAddr := "server1", m_rawDataID := "density_0_0" },
    .run false, .run false, .run false, .call false true, .run true]

def storing (_ : String) : UniServer where
  m_blockManager :=
    { DataBlockMap := (∅ : AList _).insert "density_0_0"
        { m_blockid := "density_0_0", storage := .RawMemObj (some []) } }

/-- The trigger on the server of the block starts the timer that its own request starts. -/
theorem sameServer_collides :
    ∃ t, Run (Steps (step "server0")) (init storing) sameServer t ∧ ¬ Timely (.run true) t := by
  obtain ⟨t, ht, starts, live⟩ : ∃ t, runs (step "server0") sameServer (init storing) = .ok t ∧
      (t.phase true).bind TimerPhase.starts = some ("server1", "density_0_0_execute") ∧
      (t.servers "server1").m_timer_map = ["density_0_0_execute"] := ⟨_, rfl, rfl, rfl⟩
  refine ⟨t, .of_runs ht, fun timely => (timely "server1" _).1 starts ?_⟩
  rw [live]
  exact List.mem_singleton_self _

end TimerService

end Gorilla
