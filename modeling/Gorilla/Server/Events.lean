import Gorilla.Lib.Runs
import Gorilla.Server.TriggerManager
import Mathlib.Data.Set.Card

/-!
# Concurrent `putEvent` and `getEvent`

Each handler is stepped on its own. `getEvent` looks at the queue twice before it takes
`m_eventMapQueueMutex`, and takes the front event only after that.
-/

namespace Gorilla

open Runs

/-- The next thing a handler does; `none` stands for a handler with no request. -/
inductive EventPhase
  | put (varName : String) (event : EventWrapper)
  | push (varName : String) (event : EventWrapper)
  | count (varName : String)
  | size (varName : String)
  | lock (varName : String)
  | front (varName : String)
  | pop (varName : String) (event : EventWrapper)
  | unlock
  deriving DecidableEq, Repr

/-- The requests that come in. -/
inductive EventRequest
  | putEvent (varName : String) (event : EventWrapper)
  | getEvent (varName : String)
  deriving DecidableEq, Repr

def EventRequest.first : EventRequest → EventPhase
  | putEvent varName event => .put varName event
  | getEvent varName => .count varName

inductive EventAction (ι : Type)
  | arrive (i : ι) (request : EventRequest)
  | run (i : ι)

/-- The manager, the owner of its event mutex and the handlers. `puts` and `gets` record
every event pushed and every event popped, in the order in which that happened. -/
structure EventService (ι : Type) where
  m_dtmanager : DynamicTriggerManager
  owner : Option ι := none
  handler : ι → Option EventPhase := fun _ => none
  puts : List (String × EventWrapper) := []
  gets : List (String × EventWrapper) := []

namespace DynamicTriggerManager

/-- The events of a queue, none where the name has no queue. -/
def eventsOf (m : DynamicTriggerManager) (varName : String) : List EventWrapper :=
  (m.eventMapQueue.lookup varName).getD []

theorem eventsOf_putEvent (m : DynamicTriggerManager) (varName name : String)
    (event : EventWrapper) :
    (m.putEvent varName event).eventsOf name =
      m.eventsOf name ++ if name = varName then [event] else [] := by
  by_cases h : name = varName
  · subst h
    simp [putEvent, eventsOf]
  · simp [putEvent, eventsOf, AList.lookup_insert_ne h, h]

/-- `front` of an empty queue is undefined. -/
def frontEvent (m : DynamicTriggerManager) (varName : String) : Except Stop EventWrapper :=
  match m.eventsOf varName with
  | [] => .error (.undefined "front of an empty queue")
  | event :: _ => .ok event

/-- `pop` of an empty queue is undefined. -/
def popEvent (m : DynamicTriggerManager) (varName : String) :
    Except Stop DynamicTriggerManager :=
  match m.eventsOf varName with
  | [] => .error (.undefined "pop of an empty queue")
  | _ :: rest => .ok { m with eventMapQueue := m.eventMapQueue.insert varName rest }

theorem frontEvent_eq_ok {m : DynamicTriggerManager} {varName : String} {event : EventWrapper} :
    m.frontEvent varName = .ok event ↔ ∃ rest, m.eventsOf varName = event :: rest := by
  unfold frontEvent
  cases m.eventsOf varName <;> simp

theorem popEvent_eq_ok {m m' : DynamicTriggerManager} {varName : String} :
    m.popEvent varName = .ok m' ↔ ∃ event rest, m.eventsOf varName = event :: rest ∧
      m' = { m with eventMapQueue := m.eventMapQueue.insert varName rest } := by
  unfold popEvent
  cases m.eventsOf varName <;> simp [eq_comm]

end DynamicTriggerManager

theorem DynamicTriggerManager.eventsOf_popEvent {m m' : DynamicTriggerManager} {varName : String}
    (h : m.popEvent varName = .ok m') (name : String) :
    m'.eventsOf name =
      if name = varName then (m.eventsOf name).tail else m.eventsOf name := by
  obtain ⟨event, rest, front, rfl⟩ := popEvent_eq_ok.mp h
  by_cases hn : name = varName
  · subst hn
    rw [front]
    simp [eventsOf]
  · simp [eventsOf, AList.lookup_insert_ne hn, hn]

namespace EventService
variable {ι : Type} [DecidableEq ι]

def moved (s : EventService ι) (i : ι) (phase : Option EventPhase) : EventService ι :=
  { s with handler := Function.update s.handler i phase }

@[simp] theorem handler_moved_self (s : EventService ι) (i : ι) (phase : Option EventPhase) :
    (s.moved i phase).handler i = phase := by
  simp [moved]

theorem handler_moved_ne (s : EventService ι) {i j : ι} (phase : Option EventPhase) (h : j ≠ i) :
    (s.moved i phase).handler j = s.handler j := by
  simp [moved, h]

@[simp] theorem owner_moved (s : EventService ι) (i : ι) (phase : Option EventPhase) :
    (s.moved i phase).owner = s.owner := rfl

@[simp] theorem manager_moved (s : EventService ι) (i : ι) (phase : Option EventPhase) :
    (s.moved i phase).m_dtmanager = s.m_dtmanager := rfl

@[simp] theorem puts_moved (s : EventService ι) (i : ι) (phase : Option EventPhase) :
    (s.moved i phase).puts = s.puts := rfl

@[simp] theorem gets_moved (s : EventService ι) (i : ι) (phase : Option EventPhase) :
    (s.moved i phase).gets = s.gets := rfl

/-- Taking the mutex waits while another handler owns it. -/
def enter (s : EventService ι) (i : ι) (next : EventPhase) : Except Stop (EventService ι) :=
  match s.owner with
  | none => .ok ({ s with owner := some i }.moved i (some next))
  | some _ => .error (.blocked "m_eventMapQueueMutex")

theorem enter_eq_ok {s t : EventService ι} {i : ι} {next : EventPhase} :
    s.enter i next = .ok t ↔
      s.owner = none ∧ t = { s with owner := some i }.moved i (some next) := by
  unfold enter
  cases s.owner <;> simp [eq_comm]

/-- One step of a handler that is in a phase. -/
def advance (s : EventService ι) (i : ι) : EventPhase → Except Stop (EventService ι)
  | .put varName event => s.enter i (.push varName event)
  | .push varName event =>
    .ok ({ s with
      m_dtmanager := s.m_dtmanager.putEvent varName event
      puts := s.puts ++ [(varName, event)] }.moved i (some .unlock))
  | .count varName =>
    .ok (s.moved i
      (if (s.m_dtmanager.eventMapQueue.lookup varName).isNone then none
        else some (.size varName)))
  | .size varName =>
    .ok (s.moved i
      (if (s.m_dtmanager.eventsOf varName).length = 0 then none else some (.lock varName)))
  | .lock varName => s.enter i (.front varName)
  | .front varName => do
    let event ← s.m_dtmanager.frontEvent varName
    return s.moved i (some (.pop varName event))
  | .pop varName event => do
    let m ← s.m_dtmanager.popEvent varName
    return { s with m_dtmanager := m, gets := s.gets ++ [(varName, event)] }.moved i (some .unlock)
  | .unlock => .ok ({ s with owner := none }.moved i none)

/-- A handler that is at work takes no other request. -/
def step : EventAction ι → EventService ι → Except Stop (EventService ι)
  | .arrive i request, s =>
    match s.handler i with
    | none => .ok (s.moved i (some request.first))
    | some _ => .error (.blocked "handler at work")
  | .run i, s =>
    match s.handler i with
    | none => .error (.blocked "no request")
    | some phase => s.advance i phase

theorem arrive_eq_ok {s t : EventService ι} {i : ι} {request : EventRequest} :
    step (.arrive i request) s = .ok t ↔
      s.handler i = none ∧ t = s.moved i (some request.first) := by
  rw [step]
  cases s.handler i <;> simp [eq_comm]

theorem run_eq_ok {s t : EventService ι} {i : ι} :
    step (.run i) s = .ok t ↔ ∃ phase, s.handler i = some phase ∧ s.advance i phase = .ok t := by
  rw [step]
  cases s.handler i <;> simp

/-- The server before any request has come in. -/
def init (m : DynamicTriggerManager) : EventService ι :=
  { m_dtmanager := { m with eventMapQueue := ∅ } }

/-- The events of one queue name in a record. -/
def named (varName : String) (log : List (String × EventWrapper)) : List EventWrapper :=
  (log.filter fun e => e.1 = varName).map Prod.snd

@[simp] theorem named_append (varName : String) (log log' : List (String × EventWrapper)) :
    named varName (log ++ log') = named varName log ++ named varName log' := by
  simp [named]

theorem named_singleton (varName name : String) (event : EventWrapper) :
    named name [(varName, event)] = if name = varName then [event] else [] := by
  by_cases h : name = varName
  · simp [named, h]
  · simp [named, h, Ne.symm h]

/-- The events returned, then the events still queued, are the events put. -/
def Exact (s : EventService ι) : Prop :=
  ∀ varName, named varName s.gets ++ s.m_dtmanager.eventsOf varName = named varName s.puts

end EventService

/-- A handler between taking the mutex and giving it back. -/
def EventPhase.inside : EventPhase → Bool
  | .push _ _ | .front _ | .pop _ _ | .unlock => true
  | _ => false

/-- The queue that a handler found non-empty and has not popped yet. -/
def EventPhase.claim : EventPhase → Option String
  | .lock varName | .front varName | .pop varName _ => some varName
  | _ => none

/-- The queue that a handler with the mutex is about to push to. -/
def EventPhase.supply : EventPhase → Option String
  | .push varName _ => some varName
  | _ => none

namespace EventService
variable {ι : Type} [DecidableEq ι] {s t : EventService ι} {i : ι} {p : Option EventPhase}

def Inside (s : EventService ι) (i : ι) : Prop := (s.handler i).any EventPhase.inside

/-- The handlers whose phase concerns a queue. -/
def concerned (s : EventService ι) (f : EventPhase → Option String) (varName : String) : Set ι :=
  {i | (s.handler i).bind f = some varName}

/-- The handlers paused between the checks of `getEvent` and its pop. -/
def paused (s : EventService ι) (varName : String) : Set ι := s.concerned EventPhase.claim varName

def pushing (s : EventService ι) (varName : String) : Set ι := s.concerned EventPhase.supply varName

/-- The mutex is owned by the one handler inside, and by nobody when there is none. -/
def Owned (s : EventService ι) : Prop := ∀ i, s.owner = some i ↔ s.Inside i

/-- The event a handler is about to pop is the front of its queue. -/
def Fronted (s : EventService ι) : Prop :=
  ∀ i varName event, s.handler i = some (.pop varName event) →
    ∃ rest, s.m_dtmanager.eventsOf varName = event :: rest

theorem owned_enter (h : s.Owned) (free : s.owner = none) (hi : p.any EventPhase.inside)
    (ho : t.owner = some i) (hh : t.handler = Function.update s.handler i p) : t.Owned := by
  intro j
  have outside := h j
  rw [free] at outside
  rw [ho, Inside, hh]
  by_cases hj : j = i
  · subst hj
    simp [hi]
  · rw [Function.update_of_ne hj]
    constructor
    · intro he
      exact absurd (Option.some.inj he).symm hj
    · intro hin
      exact absurd (outside.mpr hin) (by simp)

theorem owned_stay (h : s.Owned)
    (hi : p.any EventPhase.inside = (s.handler i).any EventPhase.inside)
    (ho : t.owner = s.owner) (hh : t.handler = Function.update s.handler i p) : t.Owned := by
  intro j
  rw [ho, h j, Inside, Inside, hh]
  by_cases hj : j = i
  · subst hj
    rw [Function.update_self, hi]
  · rw [Function.update_of_ne hj]

theorem owned_leave (h : s.Owned) (hin : s.Inside i) (hi : p.any EventPhase.inside = false)
    (ho : t.owner = none) (hh : t.handler = Function.update s.handler i p) : t.Owned := by
  intro j
  rw [ho, Inside, hh]
  by_cases hj : j = i
  · subst hj
    simp [hi]
  · rw [Function.update_of_ne hj]
    have owner := (h i).mpr hin
    constructor
    · intro he
      cases he
    · intro hin'
      rw [(h j).mpr hin'] at owner
      exact absurd (Option.some.inj owner) hj

/-- A step that leaves the queues alone and does not end in front of a pop. -/
theorem fronted_stay (h : s.Fronted) (hp : ∀ varName event, p ≠ some (.pop varName event))
    (hm : t.m_dtmanager = s.m_dtmanager)
    (hh : t.handler = Function.update s.handler i p) : t.Fronted := by
  intro j varName event hj
  rw [hm]
  rw [hh] at hj
  by_cases hi : j = i
  · subst hi
    rw [Function.update_self] at hj
    exact absurd hj (hp varName event)
  · rw [Function.update_of_ne hi] at hj
    exact h j varName event hj

/-- The handler inside is the only one that can be in front of a pop. -/
theorem fronted_inside (h : s.Owned) (hin : s.Inside i)
    (hp : ∀ varName event, p ≠ some (.pop varName event))
    (hh : t.handler = Function.update s.handler i p) : t.Fronted := by
  intro j varName event hj
  rw [hh] at hj
  by_cases hi : j = i
  · subst hi
    rw [Function.update_self] at hj
    exact absurd hj (hp varName event)
  · rw [Function.update_of_ne hi] at hj
    have inside : s.Inside j := by
      rw [Inside, hj]
      rfl
    have owner := (h j).mpr inside
    rw [(h i).mpr hin] at owner
    exact absurd (Option.some.inj owner).symm hi

structure Inv (s : EventService ι) : Prop where
  owned : s.Owned
  fronted : s.Fronted
  exact : s.Exact

omit [DecidableEq ι] in
theorem inv_init (m : DynamicTriggerManager) : (init m : EventService ι).Inv := by
  constructor
  · intro i
    simp [init, Inside]
  · intro i varName event h
    simp [init] at h
  · intro varName
    simp [init, named, DynamicTriggerManager.eventsOf]

/-- A step keeps the invariant if it moves one handler without touching mutex or queues. -/
theorem inv_moved (h : s.Inv)
    (hi : p.any EventPhase.inside = (s.handler i).any EventPhase.inside)
    (hp : ∀ varName event, p ≠ some (.pop varName event)) : (s.moved i p).Inv :=
  ⟨owned_stay h.owned hi rfl rfl, fronted_stay h.fronted hp rfl rfl, h.exact⟩

theorem inv_enter (h : s.Inv) (free : s.owner = none) (hi : p.any EventPhase.inside)
    (hp : ∀ varName event, p ≠ some (.pop varName event)) :
    ({ s with owner := some i }.moved i p).Inv :=
  ⟨owned_enter h.owned free hi rfl rfl, fronted_stay h.fronted hp rfl rfl, h.exact⟩

theorem inv_leave (h : s.Inv) (hin : s.Inside i) :
    ({ s with owner := none }.moved i none).Inv :=
  ⟨owned_leave h.owned hin rfl rfl rfl, fronted_stay h.fronted (by simp) rfl rfl, h.exact⟩

omit [DecidableEq ι] in
theorem exact_push (h : s.Exact) (varName : String) (event : EventWrapper) :
    ({ s with
      m_dtmanager := s.m_dtmanager.putEvent varName event
      puts := s.puts ++ [(varName, event)] } : EventService ι).Exact := by
  intro name
  show named name s.gets ++ (s.m_dtmanager.putEvent varName event).eventsOf name =
    named name (s.puts ++ [(varName, event)])
  rw [DynamicTriggerManager.eventsOf_putEvent, ← List.append_assoc, h name, named_append,
    named_singleton]

omit [DecidableEq ι] in
/-- What is popped moves from the queue to the record of what was returned. -/
theorem exact_pop (h : s.Exact) {varName : String} {event : EventWrapper}
    {m : DynamicTriggerManager} {rest : List EventWrapper}
    (front : s.m_dtmanager.eventsOf varName = event :: rest)
    (hm : s.m_dtmanager.popEvent varName = .ok m) :
    ({ s with m_dtmanager := m, gets := s.gets ++ [(varName, event)] } : EventService ι).Exact := by
  intro name
  show named name (s.gets ++ [(varName, event)]) ++ m.eventsOf name = named name s.puts
  rw [DynamicTriggerManager.eventsOf_popEvent hm, named_append, named_singleton, ← h name]
  by_cases hn : name = varName
  · subst hn
    simp [front]
  · simp [hn]

theorem inv_advance {p : EventPhase} (h : s.Inv) (hp : s.handler i = some p)
    (hs : s.advance i p = .ok t) : t.Inv := by
  cases p with
  | put varName event =>
    obtain ⟨free, rfl⟩ := enter_eq_ok.mp hs
    exact inv_enter h free rfl (by simp)
  | push varName event =>
    cases hs
    have hin : s.Inside i := by
      rw [Inside, hp]
      rfl
    refine ⟨owned_stay h.owned ?_ rfl rfl, fronted_inside h.owned hin (by simp) rfl,
      exact_push h.exact varName event⟩
    rw [hp]
    rfl
  | count varName =>
    cases hs
    refine inv_moved h ?_ ?_
    · rw [hp]
      split <;> rfl
    · split <;> simp
  | size varName =>
    cases hs
    refine inv_moved h ?_ ?_
    · rw [hp]
      split <;> rfl
    · split <;> simp
  | lock varName =>
    obtain ⟨free, rfl⟩ := enter_eq_ok.mp hs
    exact inv_enter h free rfl (by simp)
  | front varName =>
    obtain ⟨event, he, hs⟩ := bind_eq_ok.mp hs
    cases hs
    refine ⟨owned_stay h.owned ?_ rfl rfl, ?_, h.exact⟩
    · rw [hp]
      rfl
    · intro j name event' hj
      by_cases hi : j = i
      · subst hi
        rw [handler_moved_self] at hj
        cases hj
        exact DynamicTriggerManager.frontEvent_eq_ok.mp he
      · rw [handler_moved_ne _ _ hi] at hj
        exact h.fronted j name event' hj
  | pop varName event =>
    obtain ⟨m, hm, hs⟩ := bind_eq_ok.mp hs
    cases hs
    have hin : s.Inside i := by
      rw [Inside, hp]
      rfl
    obtain ⟨rest, front⟩ := h.fronted i varName event hp
    refine ⟨owned_stay h.owned ?_ rfl rfl, fronted_inside h.owned hin (by simp) rfl,
      exact_pop h.exact front hm⟩
    rw [hp]
    rfl
  | unlock =>
    cases hs
    refine inv_leave h ?_
    rw [Inside, hp]
    rfl

theorem inv_step {a : EventAction ι} (h : s.Inv) (hs : step a s = .ok t) : t.Inv := by
  cases a with
  | arrive i request =>
    obtain ⟨idle, rfl⟩ := arrive_eq_ok.mp hs
    refine inv_moved h ?_ ?_
    · rw [idle]
      cases request <;> rfl
    · cases request <;> simp [EventRequest.first]
  | run i =>
    obtain ⟨phase, at_work, hs⟩ := run_eq_ok.mp hs
    exact inv_advance h at_work hs

/-! ## Handlers that found the queue non-empty -/

section Concerned
variable {f : EventPhase → Option String}

theorem concerned_same (hf : p.bind f = (s.handler i).bind f)
    (hh : t.handler = Function.update s.handler i p) : t.concerned f = s.concerned f := by
  funext varName
  ext j
  rw [concerned, concerned, Set.mem_ofPred_eq, Set.mem_ofPred_eq, hh]
  by_cases hj : j = i
  · subst hj
    rw [Function.update_self, hf]
  · rw [Function.update_of_ne hj]

theorem concerned_ne (varName : String) (hf : (s.handler i).bind f ≠ some varName)
    (hp : p.bind f ≠ some varName)
    (hh : t.handler = Function.update s.handler i p) :
    t.concerned f varName = s.concerned f varName := by
  ext j
  rw [concerned, concerned, Set.mem_ofPred_eq, Set.mem_ofPred_eq, hh]
  by_cases hj : j = i
  · subst hj
    rw [Function.update_self]
    exact ⟨fun h => absurd h hp, fun h => absurd h hf⟩
  · rw [Function.update_of_ne hj]

theorem concerned_gain (varName : String) (hf : (s.handler i).bind f ≠ some varName)
    (hp : p.bind f = some varName)
    (hh : t.handler = Function.update s.handler i p) :
    (t.concerned f varName).encard = (s.concerned f varName).encard + 1 := by
  rw [← Set.encard_insert_of_notMem (show i ∉ s.concerned f varName from hf)]
  congr 1
  ext j
  rw [concerned, concerned, Set.mem_insert_iff, Set.mem_ofPred_eq, Set.mem_ofPred_eq, hh]
  by_cases hj : j = i
  · subst hj
    simp [hp]
  · simp [hj]

/-- A handler that leaves a set had entered it. -/
theorem concerned_loss (varName : String) (hf : (s.handler i).bind f = some varName)
    (hp : p.bind f ≠ some varName)
    (hh : t.handler = Function.update s.handler i p) :
    (s.concerned f varName).encard = (t.concerned f varName).encard + 1 := by
  refine concerned_gain (p := s.handler i) (i := i) varName ?_ hf ?_
  · rw [hh, Function.update_self]
    exact hp
  · rw [hh, Function.update_idem, Function.update_eq_self]

end Concerned

/-- No more handlers are paused in front of a pop than the queue has events for. -/
def Room (s : EventService ι) : Prop :=
  ∀ varName, (s.paused varName).encard ≤
    (s.m_dtmanager.eventsOf varName).length + (s.pushing varName).encard

/-- A check that finds events finds more of them than handlers paused before their pop,
the one counted that a `putEvent` with the mutex is about to push. -/
def RoomAtCheck : EventAction ι → EventService ι → Prop
  | .arrive _ _, _ => True
  | .run i, s => ∀ varName, s.handler i = some (.size varName) →
    s.m_dtmanager.eventsOf varName ≠ [] →
    (s.paused varName).encard <
      (s.m_dtmanager.eventsOf varName).length + (s.pushing varName).encard

omit [DecidableEq ι] in
theorem room_init (m : DynamicTriggerManager) : (init m : EventService ι).Room := by
  intro varName
  have none_paused : (init m : EventService ι).paused varName = ∅ := by
    simp [paused, concerned, init]
  rw [none_paused, Set.encard_empty]
  exact bot_le

/-- A step that concerns no queue. -/
theorem room_same (h : s.Room)
    (hc : p.bind EventPhase.claim = (s.handler i).bind EventPhase.claim)
    (hp : p.bind EventPhase.supply = (s.handler i).bind EventPhase.supply)
    (hm : t.m_dtmanager = s.m_dtmanager)
    (hh : t.handler = Function.update s.handler i p) : t.Room := by
  intro varName
  rw [paused, pushing, concerned_same hc hh, concerned_same hp hh, hm]
  exact h varName

theorem room_put (h : s.Room) {varName : String} {event : EventWrapper}
    (hp : s.handler i = some (.put varName event)) (hm : t.m_dtmanager = s.m_dtmanager)
    (hh : t.handler = Function.update s.handler i (some (.push varName event))) : t.Room := by
  intro name
  have claims : t.paused = s.paused :=
    concerned_same (by rw [hp]; rfl) hh
  rw [claims, hm]
  refine (h name).trans (add_le_add le_rfl ?_)
  by_cases hn : varName = name
  · subst hn
    have gain := concerned_gain (f := EventPhase.supply) varName
      (by rw [hp]; simp [EventPhase.supply]) (show _ = some varName from rfl) hh
    rw [pushing, pushing, gain]
    exact le_self_add
  · rw [pushing, pushing, concerned_ne name (by rw [hp]; simp [EventPhase.supply])
      (by simpa [EventPhase.supply] using hn) hh]

theorem room_push (h : s.Room) {varName : String} {event : EventWrapper}
    (hp : s.handler i = some (.push varName event))
    (hm : t.m_dtmanager = s.m_dtmanager.putEvent varName event)
    (hh : t.handler = Function.update s.handler i (some .unlock)) : t.Room := by
  intro name
  have claims : t.paused = s.paused :=
    concerned_same (by rw [hp]; rfl) hh
  rw [claims, hm, DynamicTriggerManager.eventsOf_putEvent]
  by_cases hn : name = varName
  · subst hn
    have loss := concerned_loss (f := EventPhase.supply) name
      (by rw [hp]; rfl) (by simp [EventPhase.supply]) hh
    have room := h name
    rw [pushing, loss] at room
    simpa [pushing, add_assoc, add_comm, add_left_comm] using room
  · have rest := concerned_ne (f := EventPhase.supply) name
      (by rw [hp]; simpa [EventPhase.supply] using Ne.symm hn) (by simp [EventPhase.supply]) hh
    rw [pushing, rest, if_neg hn, List.append_nil]
    exact h name

theorem room_check (h : s.Room) {varName : String}
    (hp : s.handler i = some (.size varName))
    (room : (s.paused varName).encard <
      (s.m_dtmanager.eventsOf varName).length + (s.pushing varName).encard)
    (hm : t.m_dtmanager = s.m_dtmanager)
    (hh : t.handler = Function.update s.handler i (some (.lock varName))) : t.Room := by
  intro name
  have supplies : t.pushing = s.pushing :=
    concerned_same (by rw [hp]; rfl) hh
  rw [supplies, hm]
  by_cases hn : varName = name
  · subst hn
    rw [paused, concerned_gain varName (by rw [hp]; simp [EventPhase.claim]) rfl hh]
    exact Order.add_one_le_of_lt room
  · rw [paused, concerned_ne name (by rw [hp]; simp [EventPhase.claim])
      (by simpa [EventPhase.claim] using hn) hh]
    exact h name

theorem room_pop (h : s.Room) {varName : String} {event : EventWrapper}
    {m : DynamicTriggerManager} {rest : List EventWrapper}
    (hp : s.handler i = some (.pop varName event))
    (front : s.m_dtmanager.eventsOf varName = event :: rest)
    (pop : s.m_dtmanager.popEvent varName = .ok m) (hm : t.m_dtmanager = m)
    (hh : t.handler = Function.update s.handler i (some .unlock)) : t.Room := by
  intro name
  have supplies : t.pushing = s.pushing :=
    concerned_same (by rw [hp]; rfl) hh
  rw [supplies, hm, DynamicTriggerManager.eventsOf_popEvent pop]
  by_cases hn : name = varName
  · subst hn
    have room := h name
    rw [paused, concerned_loss name (by rw [hp]; rfl) (by simp [EventPhase.claim]) hh, front,
      List.length_cons, Nat.cast_add, add_right_comm] at room
    rw [if_pos rfl, front]
    exact (ENat.add_le_add_iff_right ENat.one_ne_top).mp room
  · rw [if_neg hn, paused, concerned_ne name (by rw [hp]; simpa [EventPhase.claim] using Ne.symm hn)
      (by simp [EventPhase.claim]) hh]
    exact h name

theorem room_advance {p : EventPhase} (h : s.Room) (inv : s.Inv) (hp : s.handler i = some p)
    (check : RoomAtCheck (.run i) s) (hs : s.advance i p = .ok t) : t.Room := by
  cases p with
  | put varName event =>
    obtain ⟨_, rfl⟩ := enter_eq_ok.mp hs
    exact room_put h hp rfl rfl
  | push varName event =>
    cases hs
    exact room_push h hp rfl rfl
  | count varName =>
    cases hs
    refine room_same (i := i) h ?_ ?_ rfl rfl
    · rw [hp]
      split <;> rfl
    · rw [hp]
      split <;> rfl
  | size varName =>
    rw [advance] at hs
    by_cases found : (s.m_dtmanager.eventsOf varName).length = 0
    · rw [if_pos found] at hs
      cases hs
      refine room_same (i := i) (p := none) h ?_ ?_ rfl rfl
      · rw [hp]
        rfl
      · rw [hp]
        rfl
    · rw [if_neg found] at hs
      cases hs
      have events : s.m_dtmanager.eventsOf varName ≠ [] := fun he => found (by rw [he]; rfl)
      exact room_check h hp (check varName hp events) rfl rfl
  | lock varName =>
    obtain ⟨_, rfl⟩ := enter_eq_ok.mp hs
    refine room_same (i := i) (p := some (.front varName)) h ?_ ?_ rfl rfl
    · rw [hp]
      rfl
    · rw [hp]
      rfl
  | front varName =>
    obtain ⟨event, _, hs⟩ := bind_eq_ok.mp hs
    cases hs
    refine room_same (i := i) (p := some (.pop varName event)) h ?_ ?_ rfl rfl
    · rw [hp]
      rfl
    · rw [hp]
      rfl
  | pop varName event =>
    obtain ⟨m, pop, hs⟩ := bind_eq_ok.mp hs
    cases hs
    obtain ⟨rest, front⟩ := inv.fronted i varName event hp
    exact room_pop h hp front pop rfl rfl
  | unlock =>
    cases hs
    refine room_same (i := i) (p := none) h ?_ ?_ rfl rfl
    · rw [hp]
      rfl
    · rw [hp]
      rfl

theorem room_step {a : EventAction ι} (h : s.Room) (inv : s.Inv) (check : RoomAtCheck a s)
    (hs : step a s = .ok t) : t.Room := by
  cases a with
  | arrive i request =>
    obtain ⟨idle, rfl⟩ := arrive_eq_ok.mp hs
    refine room_same (i := i) (p := some request.first) h ?_ ?_ rfl rfl
    · rw [idle]
      cases request <;> rfl
    · rw [idle]
      cases request <;> rfl
  | run i =>
    obtain ⟨phase, at_work, hs⟩ := run_eq_ok.mp hs
    exact room_advance h inv at_work check hs

omit [DecidableEq ι] in
/-- While the mutex is with a handler that is not pushing, no handler is. -/
theorem pushing_eq_empty {p : EventPhase} (inv : s.Inv) (hp : s.handler i = some p)
    (inside : p.inside) (supplies : p.supply = none) (varName : String) :
    s.pushing varName = ∅ := by
  ext j
  rw [pushing, concerned, Set.mem_ofPred_eq]
  constructor
  · intro hj
    have owner := (inv.owned i).mpr (by rw [Inside, hp]; exact inside)
    obtain ⟨q, hq, hs⟩ := Option.bind_eq_some_iff.mp hj
    have pushes : s.Inside j := by
      rw [Inside, hq]
      cases q <;> simp [EventPhase.supply] at hs ⊢
      rfl
    rw [(inv.owned j).mpr pushes] at owner
    cases owner
    rw [hp] at hq
    cases hq
    rw [supplies] at hs
    cases hs
  · intro hj
    cases hj

omit [DecidableEq ι] in
theorem eventsOf_ne_nil {p : EventPhase} {varName : String} (h : s.Room) (inv : s.Inv)
    (hp : s.handler i = some p) (inside : p.inside) (supplies : p.supply = none)
    (claims : p.claim = some varName) : s.m_dtmanager.eventsOf varName ≠ [] := by
  intro empty
  have room := h varName
  rw [empty, pushing_eq_empty inv hp inside supplies, Set.encard_empty] at room
  have mem : i ∈ s.paused varName := by
    rw [paused, concerned, Set.mem_ofPred_eq, hp]
    exact claims
  exact Set.encard_ne_zero_of_mem mem (le_antisymm (by simpa using room) bot_le)

/-- A pop on an empty queue, or a look at its front, is attempted by no handler. -/
def NoEmptyPop (s : EventService ι) : Prop :=
  ∀ i what, step (.run i) s ≠ .error (.undefined what)

theorem noEmptyPop_of_room (h : s.Room) (inv : s.Inv) : s.NoEmptyPop := by
  intro i what
  unfold step
  dsimp only
  split
  · simp
  · rename_i phase hp
    cases phase with
    | put varName event =>
      rw [advance, enter]
      split <;> simp
    | lock varName =>
      rw [advance, enter]
      split <;> simp
    | front varName =>
      have events := eventsOf_ne_nil h inv hp rfl rfl rfl
      obtain ⟨event, rest, front⟩ := List.exists_cons_of_ne_nil events
      rw [advance, DynamicTriggerManager.frontEvent, front]
      simp [bind, Except.bind, pure, Except.pure]
    | pop varName event =>
      obtain ⟨rest, front⟩ := inv.fronted i varName event hp
      rw [advance, DynamicTriggerManager.popEvent, front]
      simp [bind, Except.bind, pure, Except.pure]
    | _ => simp [advance]

/-- Where every check leaves room, no run pops an empty queue, and the events returned,
then those still queued, are the events put. -/
theorem events_exact_of_room (m : DynamicTriggerManager) {as : List (EventAction ι)}
    (run : Run (Meeting RoomAtCheck (Steps step)) (init m) as t) : t.NoEmptyPop ∧ t.Exact := by
  have kept : t.Inv ∧ t.Room := by
    refine run.invariant (I := fun s => s.Inv ∧ s.Room) ⟨inv_init m, room_init m⟩ ?_
    intro a s u ⟨inv, room⟩ ⟨check, hs⟩
    exact ⟨inv_step inv hs, room_step room inv check hs⟩
  exact ⟨noEmptyPop_of_room kept.2 kept.1, kept.1.exact⟩

/-- A check that finds events finds as many as there are handlers. -/
def manyAtCheck [Fintype ι] : EventAction ι → EventService ι → Bool
  | .arrive _ _, _ => true
  | .run i, s =>
    match s.handler i with
    | some (.size varName) => s.m_dtmanager.eventsOf varName = [] ∨
      Fintype.card ι ≤ (s.m_dtmanager.eventsOf varName).length
    | _ => true

omit [DecidableEq ι] in
/-- The handler at the check is not paused itself, so one event is left for it. -/
theorem roomAtCheck_of_many [Fintype ι] (a : EventAction ι) (s : EventService ι)
    (many : manyAtCheck a s = true) : RoomAtCheck a s := by
  cases a with
  | arrive i request => trivial
  | run i =>
    intro varName hp events
    have enough : Fintype.card ι ≤ (s.m_dtmanager.eventsOf varName).length := by
      simp only [manyAtCheck, hp, decide_eq_true_eq] at many
      exact many.resolve_left events
    have free : i ∉ s.paused varName := by
      rw [paused, concerned, Set.mem_ofPred_eq, hp]
      simp [EventPhase.claim]
    have others : (s.paused varName).encard + 1 ≤ Fintype.card ι := by
      rw [← Set.encard_insert_of_notMem free, ← ENat.card_eq_coe_fintype_card, ← Set.encard_univ]
      exact Set.encard_le_encard (Set.subset_univ _)
    have fewer : (s.paused varName).encard < Fintype.card ι :=
      (ENat.add_one_le_iff (Set.toFinite _).encard_lt_top.ne).mp others
    calc (s.paused varName).encard
        < Fintype.card ι := fewer
      _ ≤ (s.m_dtmanager.eventsOf varName).length := by exact_mod_cast enough
      _ ≤ (s.m_dtmanager.eventsOf varName).length + (s.pushing varName).encard := le_self_add

/-- Two events are put by two handlers at once, and taken by two that both find them first. -/
def twoEvents : List (EventAction Bool) :=
  [.arrive false (.putEvent "testVar" {}), .arrive true (.putEvent "testVar" { m_step := 1 }),
    .run false, .run false, .run false, .run true, .run true, .run true,
    .arrive false (.getEvent "testVar"), .arrive true (.getEvent "testVar"),
    .run false, .run true, .run false, .run true, .run true, .run true, .run true, .run true,
    .run false, .run false, .run false, .run false]

theorem twoEvents_exact : ∃ t, Run (Steps step) (init {}) twoEvents t ∧
    t.gets = [("testVar", {}), ("testVar", { m_step := 1 })] ∧ t.NoEmptyPop ∧ t.Exact := by
  obtain ⟨t, ht, returned⟩ : ∃ t, runs step twoEvents (init {}) = .ok t ∧
      t.gets = [("testVar", {}), ("testVar", { m_step := 1 })] := ⟨_, rfl, rfl⟩
  have run : Run (Meeting RoomAtCheck (Steps step)) (init {}) twoEvents t :=
    .of_passes roomAtCheck_of_many ht (by decide)
  exact ⟨t, run.of_meeting, returned, events_exact_of_room {} run⟩

/-- One event and two consumers that both find it before either takes it. -/
def twoConsumers : List (EventAction Bool) :=
  [.arrive false (.putEvent "testVar" {}), .run false, .run false, .run false,
    .arrive false (.getEvent "testVar"), .run false, .run false,
    .arrive true (.getEvent "testVar"), .run true, .run true,
    .run false, .run false, .run false, .run false, .run true]

theorem twoConsumers_pop_empty :
    ∃ t, Run (Steps step) (init {}) twoConsumers t ∧
      step (.run true) t = .error (.undefined "front of an empty queue") :=
  ⟨_, Run.of_runs rfl, rfl⟩

/-! ## A handler that nobody interrupts -/

/-- Alone, the steps of `putEvent` are the operation of the manager. -/
theorem putEvent_alone (s : EventService ι) (free : s.owner = none) (idle : s.handler i = none)
    (varName : String) (event : EventWrapper) :
    ∃ t, runs step [.arrive i (.putEvent varName event), .run i, .run i, .run i] s = .ok t ∧
      t.m_dtmanager = s.m_dtmanager.putEvent varName event ∧ t.handler i = none := by
  simp [runs, step, idle, EventRequest.first, advance, enter, free]

/-- Alone, the steps of `getEvent` are the operation of the manager. -/
theorem getEvent_alone (s : EventService ι) (free : s.owner = none) (idle : s.handler i = none)
    (varName : String) :
    ∃ n t, runs step (.arrive i (.getEvent varName) :: List.replicate n (.run i)) s = .ok t ∧
      t.m_dtmanager = (s.m_dtmanager.getEvent varName).2 ∧ t.handler i = none := by
  cases h : s.m_dtmanager.eventMapQueue.lookup varName with
  | none =>
    refine ⟨1, ?_⟩
    simp [runs, step, idle, EventRequest.first, advance, h, DynamicTriggerManager.getEvent]
  | some events =>
    have queue : s.m_dtmanager.eventsOf varName = events := by
      rw [DynamicTriggerManager.eventsOf, h]
      rfl
    cases events with
    | nil =>
      refine ⟨2, ?_⟩
      simp [List.replicate, runs, step, idle, EventRequest.first, advance, h, queue,
        DynamicTriggerManager.getEvent]
    | cons event rest =>
      refine ⟨6, ?_⟩
      simp [List.replicate, runs, step, idle, EventRequest.first, advance, enter, free, h, queue,
        DynamicTriggerManager.getEvent, DynamicTriggerManager.frontEvent,
        DynamicTriggerManager.popEvent, bind, Except.bind, pure, Except.pure]

end EventService

end Gorilla
