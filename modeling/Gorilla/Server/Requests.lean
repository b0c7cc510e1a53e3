import Gorilla.Server.Prompt
import Gorilla.Server.Replies

/-!
# One reply to each request

The requests of the handlers that are registered with a response, and the exact states
in which each of them is answered once.
-/

namespace Gorilla

open HandLock Outcome

namespace Handler

variable {ρ α : Type} {x : Handler ρ Unit} {s : UniServer} {P : Prop}

/-- The run has no undefined behaviour. -/
def Defined (x : Handler ρ α) (s : UniServer) : Prop := Avoids IsUndefined x ⟨s, []⟩

/-- The run is defined and sends exactly one reply. -/
def AnswersOnce (x : Handler ρ α) (s : UniServer) : Prop :=
  Defined x s ∧ (replies x s).length = 1

/-- Where a defined run sends one reply exactly under a condition. -/
theorem answersOnce_iff (h : Defined x s → ((replies x s).length = 1 ↔ P)) :
    AnswersOnce x s ↔ Defined x s ∧ P := and_congr_right h

theorem answersOnce_of_ok {s' : UniServer} {r : ρ} (h : x ⟨s, []⟩ = .ok () ⟨s', [r]⟩) (hP : P) :
    AnswersOnce x s ↔ Defined x s ∧ P :=
  answersOnce_iff fun _ => iff_of_true (by rw [replies, h]; rfl) hP

/-- A handler that replies once its work has returned. -/
theorem answersOnce_work {y : EStateM Stop UniServer α} {g : α → ρ}
    (h : ReturnsIff IsUndefined y s P) :
    AnswersOnce (do let a ← onServer y; respond (g a)) s ↔
      Defined (do let a ← onServer y; respond (g a) : Handler ρ Unit) s ∧ P := by
  refine answersOnce_iff fun defined => ?_
  cases hy : y s with
  | ok a s' =>
    have hrun : (do let a ← onServer y; respond (g a) : Handler ρ Unit) ⟨s, []⟩ =
        .ok () ⟨s', [g a]⟩ := bind_ok (onServer_ok hy)
    rw [← h (Returns.avoids ⟨a, s', hy⟩), replies, hrun]
    exact iff_of_true rfl ⟨a, s', hy⟩
  | error e s' =>
    have hrun : (do let a ← onServer y; respond (g a) : Handler ρ Unit) ⟨s, []⟩ =
        .error e ⟨s', []⟩ := bind_error (onServer_error hy)
    have avoids : Avoids IsUndefined y s := by
      intro e' s'' he
      rw [hy] at he
      cases he
      exact defined e _ hrun
    rw [← h avoids, replies, hrun]
    refine iff_of_false (by simp) ?_
    rintro ⟨a, t, ha⟩
    rw [hy] at ha
    cases ha

/-- A handler that catches the exceptions of its work and replies to both. -/
theorem answersOnce_caught {y : EStateM Stop UniServer α} {g : α → ρ} {r : ρ}
    (h : Avoids Waits y s) :
    AnswersOnce (catchException (do let a ← onServer y; respond (g a)) (respond r)) s ↔
      Defined (catchException (do let a ← onServer y; respond (g a)) (respond r)) s ∧ True := by
  refine answersOnce_iff fun defined => iff_of_true ?_ trivial
  cases hy : y s with
  | ok a s' =>
    have hrun : (do let a ← onServer y; respond (g a) : Handler ρ Unit) ⟨s, []⟩ =
        .ok () ⟨s', [g a]⟩ := bind_ok (onServer_ok hy)
    rw [replies, catchException, hrun]
    rfl
  | error e s' =>
    have hrun : (do let a ← onServer y; respond (g a) : Handler ρ Unit) ⟨s, []⟩ =
        .error e ⟨s', []⟩ := bind_error (onServer_error hy)
    cases e with
    | runtime_error what =>
      rw [replies, catchException, hrun]
      rfl
    | undefined what =>
      refine absurd trivial (defined (.undefined what) ⟨s', []⟩ ?_)
      rw [catchException, hrun]
    | blocked what => exact absurd trivial (h _ _ hy)

end Handler

/-- A request to a handler that is registered with a response, with its arguments. -/
inductive Request
  | updateDHT (datawrapperList : List MetaAddrWrapper)
  | getAllServerAddr
  | getaddrbyrrb
  | getinfoForput (objSize : UInt64) (bbxdim : Nat) (indexlb indexub : Array3 Int)
  | putrawdata (clientID : Int) (blockSummary : BlockSummary)
  | eraserawdata (blockID : String)
  | putmetadata (step : Nat) (varName : String) (rde : BlockDescriptor)
  | getmetaServerList (dims : Nat) (indexlb indexub : Array3 Int)
  | getBlockDescriptorList (step : Nat) (varName : String) (dims : Nat)
      (indexlb indexub : Array3 Int)
  | getDataSubregion (blockID : String) (dims : Nat) (subregionlb subregionub : Array3 Int)
  | putTriggerInfo (triggerName : String) (dti : DynamicTriggerInfo)
  | executeRawFunc (blockID functionName : String) (funcParameters : List String)
  | registerWatcher (watcherAddr : String) (triggerNames : List String)
  | getEvent (triggerName : String)
  | deleteMetaStep (step : Nat)
  | putvtkexp (transferSizeList : List UInt64)
  | putvtkexpzero (transferSizeList : List UInt64)
  | putArrayIntoBlock (blockSummary : BlockSummary) (arraySummary : ArraySummary)
  | getBlockSummayBySuffix (varSuffix : String)
  | getArraysExplicit (blockID : String)
  | getStageStatus

namespace Request

/-- The type of the reply. -/
def Reply : Request → Type
  | getAllServerAddr => List MetaAddrWrapper
  | getaddrbyrrb => String
  | getinfoForput .. => InfoForPut
  | getmetaServerList .. => List String
  | getBlockDescriptorList .. => List BlockDescriptor
  | executeRawFunc .. => String
  | getEvent _ => EventWrapper
  | getBlockSummayBySuffix _ => List BlockSummary
  | getStageStatus => List Rat
  | _ => Int

def handler (out : Outside) : (r : Request) → Handler r.Reply Unit
  | updateDHT datawrapperList => Gorilla.updateDHT datawrapperList
  | getAllServerAddr => Gorilla.getAllServerAddr
  | getaddrbyrrb => Gorilla.getaddrbyrrb
  | getinfoForput objSize bbxdim indexlb indexub =>
    Gorilla.getinfoForput objSize bbxdim indexlb indexub
  | putrawdata clientID blockSummary => Gorilla.putrawdata out clientID blockSummary
  | eraserawdata blockID => Gorilla.eraserawdata blockID
  | putmetadata step varName rde => Gorilla.putmetadata step varName rde
  | getmetaServerList dims indexlb indexub => Gorilla.getmetaServerList dims indexlb indexub
  | getBlockDescriptorList step varName dims indexlb indexub =>
    Gorilla.getBlockDescriptorList step varName dims indexlb indexub
  | getDataSubregion blockID dims subregionlb subregionub =>
    Gorilla.getDataSubregion out blockID dims subregionlb subregionub
  | putTriggerInfo triggerName dti => Gorilla.putTriggerInfo triggerName dti
  | executeRawFunc blockID functionName funcParameters =>
    Gorilla.executeRawFunc blockID functionName funcParameters
  | registerWatcher watcherAddr triggerNames =>
    Gorilla.registerWatcher out watcherAddr triggerNames
  | getEvent triggerName => Gorilla.getEvent triggerName
  | deleteMetaStep step => Gorilla.deleteMetaStep out step
  | putvtkexp transferSizeList => Gorilla.putvtkexp out transferSizeList
  | putvtkexpzero transferSizeList => Gorilla.putvtkexpzero out transferSizeList
  | putArrayIntoBlock blockSummary arraySummary =>
    Gorilla.putArrayIntoBlock out blockSummary arraySummary
  | getBlockSummayBySuffix varSuffix => Gorilla.getBlockSummayBySuffix varSuffix
  | getArraysExplicit blockID => Gorilla.getArraysExplicit out blockID
  | getStageStatus => Gorilla.getStageStatus out

end Request

end Gorilla
