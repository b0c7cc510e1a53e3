import Gorilla.Lib.Periodic
import Gorilla.Server.TriggerFunctions

/-!
# In-situ triggers

An initial trigger starts in-situ triggers from a step on. Each of them calls its function for a
fixed part of the steps, as long as the step is an int.
-/

namespace Gorilla

open HandLock

/-- The parameters that `InsituExpCompare` knows. -/
inductive InsituRate
  | all
  | two
  | four
  | six
  | eight

namespace InsituRate

def text : InsituRate → String
  | .all => "0"
  | .two => "2"
  | .four => "4"
  | .six => "6"
  | .eight => "8"

/-- How many of five steps in a row are taken. -/
def ofFive : InsituRate → Nat
  | .all => 5
  | .two => 1
  | .four => 2
  | .six => 3
  | .eight => 4

def fires (rate : InsituRate) (step : Nat) : Bool :=
  match rate with
  | .all => true
  | _ => 1 ≤ step % 5 ∧ step % 5 ≤ rate.ofFive

end InsituRate

/-- A trigger whose three functions are the in-situ ones. -/
structure InsituTrigger where
  anaTime : String
  rate : InsituRate
  functionName : String
  m_masterAddr : String := ""

namespace InsituTrigger

def info (t : InsituTrigger) : DynamicTriggerInfo where
  m_checkFunc := "InsituExpCheck"
  m_checkFuncPara := [t.anaTime]
  m_comparisonFunc := "InsituExpCompare"
  m_comparisonFuncPara := [t.rate.text]
  m_actionFunc := "InsituExpAction"
  m_actionFuncPara := [t.functionName]
  m_masterAddr := t.m_masterAddr

/-- The call for a block, which a block on the server with the master address does not get. -/
def call (t : InsituTrigger) (r : Sender) (step : Nat) (varName : String) (rde : BlockDescriptor) :
    Option Sent :=
  if t.rate.fires step ∧ rde.m_rawDataServerAddr ≠ r.m_masterAddr then
    some (.executeRawFunc rde.m_rawDataServerAddr rde.m_rawDataID t.functionName
      [toString step, varName])
  else none

end InsituTrigger

/-- The triggers that a server was given: the initial one starts the others from a step on. -/
structure InsituChain (m : DynamicTriggerManager) (steplb : Nat)
    (triggers : List (String × InsituTrigger)) : Prop where
  init : ∃ stepStrLb, readSize stepStrLb = .ok steplb ∧
    m.m_dynamicTrigger.lookup "InitTrigger" = some
      { m_checkFunc := "defaultCheckGetStep"
        m_comparisonFunc := "defaultComparisonStep"
        m_comparisonFuncPara := [stepStrLb]
        m_actionFunc := "defaultActionSartDt"
        m_actionFuncPara := triggers.map Prod.fst }
  started : triggers ≠ []
  infos : ∀ t ∈ triggers, m.m_dynamicTrigger.lookup t.1 = some t.2.info
  times : ∀ t ∈ triggers, ∃ anaTime, stoi t.2.anaTime = .ok anaTime

/-- No request ends in a way that cannot be caught. -/
def Sender.Catches (r : Sender) : Prop :=
  ∀ message, r.answer message = .ok () ∨ ∃ what, r.answer message = .error (.runtime_error what)

variable {r : Sender} {m : DynamicTriggerManager} {t : InsituTrigger} {step steplb : Nat}
  {triggerName varName : String} {rde : BlockDescriptor} {sent : List Sent}
  {triggers : List (String × InsituTrigger)}

theorem insituExpCompare_eq (rate : InsituRate) (step : Nat) :
    InsituExpCompare (toString step) [rate.text] =
      if (step : Int) ≤ INT_MAX then .ok (rate.fires step)
      else .error (.runtime_error "stoi") := by
  have rest : (step : Int).tmod 5 = ((step % 5 : Nat) : Int) := by
    rw [Int.tmod_eq_emod_of_nonneg (Int.natCast_nonneg step)]
    rfl
  have below := Nat.mod_lt step (by decide : 0 < 5)
  unfold InsituExpCompare
  dsimp only
  rw [stoi_toString]
  by_cases fits : (step : Int) ≤ INT_MAX
  · rw [if_pos fits, if_pos fits]
    cases rate with
    | all => rfl
    | two =>
      show Except.ok (decide ((step : Int).tmod 5 = 1)) = .ok (decide (1 ≤ step % 5 ∧ step % 5 ≤ 1))
      exact congrArg Except.ok (decide_eq_decide.mpr (by rw [rest]; omega))
    | four =>
      show Except.ok (decide ((step : Int).tmod 5 = 1 ∨ (step : Int).tmod 5 = 2)) =
        .ok (decide (1 ≤ step % 5 ∧ step % 5 ≤ 2))
      exact congrArg Except.ok (decide_eq_decide.mpr (by rw [rest]; omega))
    | six =>
      show Except.ok (decide ((step : Int).tmod 5 = 1 ∨ (step : Int).tmod 5 = 2 ∨
        (step : Int).tmod 5 = 3)) = .ok (decide (1 ≤ step % 5 ∧ step % 5 ≤ 3))
      exact congrArg Except.ok (decide_eq_decide.mpr (by rw [rest]; omega))
    | eight =>
      show Except.ok (decide ((step : Int).tmod 5 ≠ 0)) = .ok (decide (1 ≤ step % 5 ∧ step % 5 ≤ 4))
      exact congrArg Except.ok (decide_eq_decide.mpr (by rw [rest]; omega))
  · rw [if_neg fits, if_neg fits]
    rfl

/-- Only the requests that are caught are sent. -/
theorem Sender.Catches.caught_send (catches : r.Catches) (message : Sent) :
    Sender.caught (r.send message) sent = .ok () (sent ++ [message]) := by
  have run : r.send message sent =
      (liftM (r.answer message) : Sending Unit) (sent ++ [message]) := rfl
  unfold Sender.caught
  rcases catches message with answered | ⟨what, failed⟩
  · rw [run, answered]
    rfl
  · rw [run, failed]
    rfl

theorem InsituTrigger.action_run (catches : r.Catches) (triggerMaster : String) :
    r.InsituExpAction step varName triggerMaster rde [t.functionName] sent =
      .ok () (sent ++ if rde.m_rawDataServerAddr = r.m_masterAddr then [] else
        [.executeRawFunc rde.m_rawDataServerAddr rde.m_rawDataID t.functionName
          [toString step, varName]]) := by
  unfold Sender.InsituExpAction
  dsimp only
  by_cases master : rde.m_rawDataServerAddr = r.m_masterAddr
  · rw [if_pos master, if_pos master, List.append_nil]
    rfl
  · rw [if_neg master, if_neg master]
    exact catches.caught_send _

/-- A start of an in-situ trigger sends its call, or throws where the step is no int. -/
theorem commonstart_insitu (catches : r.Catches)
    (known : m.m_dynamicTrigger.lookup triggerName = some t.info)
    (timed : ∃ anaTime, stoi t.anaTime = .ok anaTime) (step : Nat) (varName : String)
    (rde : BlockDescriptor) (sent : List Sent) :
    r.commonstart m triggerName step varName rde sent =
      if (step : Int) ≤ INT_MAX then .ok () (sent ++ (t.call r step varName rde).toList)
      else .error (.runtime_error "stoi") sent := by
  obtain ⟨anaTime, read⟩ := timed
  have check : InsituExpCheck step varName rde [t.anaTime] = .ok (toString step) := by
    unfold InsituExpCheck
    dsimp only
    rw [read]
    rfl
  unfold Sender.commonstart
  rw [known]
  show (liftM (InsituExpCheck step varName rde [t.anaTime]) >>= fun checkResults =>
    liftM (InsituExpCompare checkResults [t.rate.text]) >>= fun indicator =>
      if indicator = true then
        r.InsituExpAction step varName t.m_masterAddr rde [t.functionName]
      else pure () : Sending Unit) sent = _
  rw [bind_ok (lift_ok check)]
  have compare := insituExpCompare_eq t.rate step
  by_cases fits : (step : Int) ≤ INT_MAX
  · rw [if_pos fits] at compare ⊢
    rw [bind_ok (lift_ok compare)]
    by_cases fires : t.rate.fires step = true
    · rw [if_pos fires, InsituTrigger.action_run catches, InsituTrigger.call]
      by_cases master : rde.m_rawDataServerAddr = r.m_masterAddr
      · rw [if_pos master, if_neg (fun h => h.2 master)]
        rfl
      · rw [if_neg master, if_pos ⟨fires, master⟩]
        rfl
    · rw [if_neg fires, InsituTrigger.call, if_neg (fun h => fires h.1)]
      exact congrArg _ (List.append_nil sent).symm
  · rw [if_neg fits] at compare ⊢
    exact bind_error (lift_error compare)

/-- The calls for a block. -/
def insituCalls (r : Sender) (triggers : List (String × InsituTrigger)) (step : Nat)
    (varName : String) (rde : BlockDescriptor) : List Sent :=
  triggers.filterMap fun t => t.2.call r step varName rde

theorem insituCalls_cons (t : String × InsituTrigger) :
    insituCalls r (t :: triggers) step varName rde =
      (t.2.call r step varName rde).toList ++ insituCalls r triggers step varName rde := by
  unfold insituCalls
  rw [List.filterMap_cons]
  cases t.2.call r step varName rde <;> rfl

/-- The in-situ triggers are started one after the other. -/
theorem commonstart_forM (catches : r.Catches) (fits : (step : Int) ≤ INT_MAX)
    (infos : ∀ t ∈ triggers, m.m_dynamicTrigger.lookup t.1 = some t.2.info)
    (times : ∀ t ∈ triggers, ∃ anaTime, stoi t.2.anaTime = .ok anaTime) :
    ((triggers.map Prod.fst).forM fun name => r.commonstart m name step varName rde) sent =
      .ok () (sent ++ insituCalls r triggers step varName rde) := by
  induction triggers generalizing sent with
  | nil => exact congrArg _ (List.append_nil sent).symm
  | cons t rest ih =>
    obtain ⟨known, infos⟩ := List.forall_mem_cons.mp infos
    obtain ⟨timed, times⟩ := List.forall_mem_cons.mp times
    have first := commonstart_insitu catches known timed step varName rde sent
    rw [if_pos fits] at first
    rw [List.map_cons, insituCalls_cons, ← List.append_assoc]
    exact (bind_ok first).trans (ih infos times)

/-- A block whose step is no int stops at the first in-situ trigger. -/
theorem commonstart_forM_large (catches : r.Catches) (large : ¬ (step : Int) ≤ INT_MAX)
    (chain : InsituChain m steplb triggers) :
    ((triggers.map Prod.fst).forM fun name => r.commonstart m name step varName rde) sent =
      .error (.runtime_error "stoi") sent := by
  cases all : triggers with
  | nil => exact absurd all chain.started
  | cons t rest =>
    have mem : t ∈ triggers := all ▸ List.mem_cons_self
    have first := commonstart_insitu catches (chain.infos t mem) (chain.times t mem)
      step varName rde
      sent
    rw [if_neg large] at first
    rw [List.map_cons]
    exact bind_error first

/-- The initial trigger starts the in-situ triggers from its step on. -/
theorem initTrigger_run (chain : InsituChain m steplb triggers) (size : step < 2 ^ 64) :
    r.initTrigger m "InitTrigger" step varName rde sent =
      if steplb ≤ step then
        ((triggers.map Prod.fst).forM fun name => r.commonstart m name step varName rde) sent
      else .ok () sent := by
  obtain ⟨stepStrLb, lower, known⟩ := chain.init
  have some_names : (triggers.map Prod.fst).isEmpty = false := by
    rw [List.isEmpty_eq_false_iff]
    exact fun none => chain.started (List.map_eq_nil_iff.mp none)
  have compare : defaultComparisonStep (toString step) [stepStrLb] =
      .ok (decide (steplb ≤ step)) := by
    unfold defaultComparisonStep
    dsimp only
    rw [readSize_toString size, lower]
    rfl
  unfold Sender.initTrigger
  rw [known]
  show (liftM (Except.ok (toString step)) >>= fun checkResults =>
    liftM (defaultComparisonStep checkResults [stepStrLb]) >>= fun indicator =>
      if indicator = true then
        r.defaultActionSartDt m step varName rde (triggers.map Prod.fst)
      else pure () : Sending Unit) sent = _
  rw [bind_ok (lift_ok rfl), bind_ok (lift_ok compare)]
  by_cases late : steplb ≤ step
  · rw [if_pos (decide_eq_true late), if_pos late, Sender.defaultActionSartDt, some_names]
    rfl
  · rw [if_neg (by rwa [decide_eq_true_eq]), if_neg late]
    rfl

/-- The function is called for every fifth step. -/
def testAdios : InsituTrigger where
  anaTime := "500000"
  rate := .two
  functionName := "adiosWrite"

def adiosTriggers : DynamicTriggerManager where
  m_dynamicTrigger := ((∅ : AList fun _ : String => DynamicTriggerInfo).insert "testAdios"
    testAdios.info).insert "InitTrigger"
      { m_checkFunc := "defaultCheckGetStep"
        m_comparisonFunc := "defaultComparisonStep"
        m_comparisonFuncPara := ["0"]
        m_actionFunc := "defaultActionSartDt"
        m_actionFuncPara := ["testAdios"] }

theorem adiosTriggers_chain : InsituChain adiosTriggers 0 [("testAdios", testAdios)] where
  init := ⟨"0", rfl, rfl⟩
  started := by simp
  infos := by
    intro t mem
    rw [List.mem_singleton.mp mem]
    rfl
  times := by
    intro t mem
    rw [List.mem_singleton.mp mem]
    exact ⟨500000, rfl⟩

def answering : Sender where
  m_masterAddr := "master"
  m_rank := 0
  m_registeredWatcherSet := []
  answer _ := .ok ()

def gridBlock : BlockDescriptor where
  m_rawDataServerAddr := "server"
  m_rawDataID := "grid"

/-- A block that was put, with its step and variable. -/
structure TriggeredBlock where
  step : Nat
  varName : String
  rde : BlockDescriptor

/-- The call for a block that was put. -/
def InsituTrigger.calls (t : InsituTrigger) (r : Sender) (b : TriggeredBlock) : Bool :=
  (t.call r b.step b.varName b.rde).isSome

theorem InsituRate.countP_fires (rate : InsituRate) (first n : Nat) :
    (List.range' first (n * 5)).countP rate.fires = n * rate.ofFive := by
  have periodic : Function.Periodic rate.fires 5 := fun step => by
    unfold fires
    rw [Nat.add_mod_right]
  rw [Periodic.countP_periods periodic]
  cases rate <;> rfl

theorem length_insituCalls (blocks : List TriggeredBlock) :
    (blocks.flatMap fun b => insituCalls r triggers b.step b.varName b.rde).length =
      (triggers.map fun t => blocks.countP (t.2.calls r)).sum := by
  induction blocks with
  | nil => simp
  | cons b rest ih =>
    have own : (insituCalls r triggers b.step b.varName b.rde).length =
        (triggers.map fun t => if t.2.calls r b then 1 else 0).sum := by
      clear ih
      induction triggers with
      | nil => rfl
      | cons t rest ih =>
        rw [insituCalls_cons, List.length_append, ih, List.map_cons, List.sum_cons,
          InsituTrigger.calls]
        cases t.2.call r b.step b.varName b.rde <;> rfl
    rw [List.flatMap_cons, List.length_append, ih, own, ← List.sum_map_add]
    congr 2
    funext t
    rw [List.countP_cons, Nat.add_comm]

/-- A block away from the master calls for the steps that the rate takes. -/
theorem InsituTrigger.countP_calls (t : InsituTrigger) {blocks : List TriggeredBlock}
    (away : ∀ b ∈ blocks, b.rde.m_rawDataServerAddr ≠ r.m_masterAddr) :
    blocks.countP (t.calls r) = (blocks.map TriggeredBlock.step).countP t.rate.fires := by
  rw [List.countP_map]
  refine List.countP_congr fun b mem => ?_
  unfold calls call
  by_cases fires : t.rate.fires b.step = true
  · rw [if_pos ⟨fires, away b mem⟩]
    exact iff_of_true rfl fires
  · rw [if_neg fun h => fires h.1]
    exact iff_of_false Bool.false_ne_true fires

theorem initTrigger_forM (chain : InsituChain m steplb triggers) (catches : r.Catches)
    {blocks : List TriggeredBlock}
    (steps : ∀ b ∈ blocks, steplb ≤ b.step ∧ (b.step : Int) ≤ INT_MAX) :
    (blocks.forM fun b => r.initTrigger m "InitTrigger" b.step b.varName b.rde) sent =
      .ok () (sent ++
        blocks.flatMap fun b => insituCalls r triggers b.step b.varName b.rde) := by
  induction blocks generalizing sent with
  | nil => exact congrArg _ (List.append_nil sent).symm
  | cons b rest ih =>
    obtain ⟨⟨late, fits⟩, steps⟩ := List.forall_mem_cons.mp steps
    have size : b.step < 2 ^ 64 := by
      rw [INT_MAX] at fits
      omega
    have first := @initTrigger_run r m b.step steplb b.varName b.rde sent triggers chain size
    rw [if_pos late, commonstart_forM catches fits chain.infos chain.times] at first
    rw [List.flatMap_cons, ← List.append_assoc]
    exact (bind_ok first).trans (ih steps)

def tenBlocks : List TriggeredBlock :=
  (List.range' 10 10).map fun step => ⟨step, "grid", gridBlock⟩

end Gorilla
