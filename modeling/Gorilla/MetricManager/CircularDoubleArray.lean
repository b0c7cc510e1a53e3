import Gorilla.Basic
import Gorilla.Lib.HandLock
import Gorilla.Lib.Ring
import Mathlib.Data.Rat.Init
import Mathlib.Algebra.Order.Ring.Unbundled.Rat

/-!
# The circular array of metric values

Finite doubles are rationals. `DBL_MAX` marks a slot that holds no value.
-/

namespace Gorilla

open HandLock

/-- `(2^53 - 1) * 2^971` -/
def DBL_MAX : Rat := (2 ^ 53 - 1) * 2 ^ 971

structure CircularDoubleArray where
  m_slotNum : Nat
  m_circularArraybuffer : List Rat
  m_head : Nat
  m_tail : Nat
  m_indexMutex : Bool
  length_buffer : m_circularArraybuffer.length = m_slotNum
  head_lt : m_head < m_slotNum
  tail_lt : m_tail < m_slotNum

namespace CircularDoubleArray

/-- The constructor: every slot is empty. -/
def new (slotNum : Int) : Except Stop CircularDoubleArray :=
  if h : slotNum < 1 then
    .error (.runtime_error "the length of the circular array should larger than 1")
  else
    .ok {
      m_slotNum := slotNum.toNat
      m_circularArraybuffer := List.replicate slotNum.toNat DBL_MAX
      m_head := 0
      m_tail := 0
      m_indexMutex := false
      length_buffer := List.length_replicate
      head_lt := Ring.slots_pos h
      tail_lt := Ring.slots_pos h }

def indexMutex : Mutex CircularDoubleArray where
  held m := m.m_indexMutex
  put b m := { m with m_indexMutex := b }
  held_put _ _ := rfl
  put_put _ _ _ := rfl
  put_held _ := rfl

def indexBusy : Stop := .blocked "m_indexMutex"

theorem slotNum_pos (m : CircularDoubleArray) : 0 < m.m_slotNum :=
  Nat.lt_of_le_of_lt (Nat.zero_le _) m.head_lt

/-- The slot at a position of the buffer. -/
def slot (m : CircularDoubleArray) (i : Nat) : Rat := m.m_circularArraybuffer.getD i DBL_MAX

def setSlot (m : CircularDoubleArray) (i : Nat) (v : Rat) : CircularDoubleArray :=
  { m with
    m_circularArraybuffer := m.m_circularArraybuffer.set i v
    length_buffer := by rw [List.length_set, m.length_buffer] }

def moveHead (m : CircularDoubleArray) : CircularDoubleArray :=
  { m with
    m_head := (m.m_head + 1) % m.m_slotNum
    head_lt := Nat.mod_lt _ m.slotNum_pos }

def moveTail (m : CircularDoubleArray) : CircularDoubleArray :=
  { m with
    m_tail := (m.m_tail + 1) % m.m_slotNum
    tail_lt := Nat.mod_lt _ m.slotNum_pos }

def addElement (element : Rat) : EStateM Stop CircularDoubleArray Int := do
  lock indexMutex indexBusy
  modify fun m => m.setSlot m.m_head element
  modify moveHead
  if (← get).m_head = (← get).m_tail then
    modify moveTail
  unlock indexMutex
  return 0

/-- The three cases of `bufferLen`. The sum of the last one is a signed `int`. -/
def len (m : CircularDoubleArray) : Except Stop Nat :=
  if m.m_head = m.m_tail then .ok 0
  else if m.m_tail < m.m_head then .ok (m.m_head - m.m_tail)
  else do
    let sum ← int (m.m_slotNum + m.m_head)
    return (sum - (m.m_tail : Int)).toNat

def bufferLen : EStateM Stop CircularDoubleArray Nat := do
  lock indexMutex indexBusy
  let m ← get
  match m.len with
  | .error e => throw e
  | .ok len =>
    unlock indexMutex
    return len

/-- The loop of `getLastN`: it throws on an empty slot. -/
def lastLoop (tempPosition : Nat) : Nat → EStateM Stop CircularDoubleArray (List Rat)
  | 0 => return []
  | n + 1 => do
    let m ← get
    if m.slot tempPosition = DBL_MAX then
      throw (.runtime_error "try to get an empty element")
    let results ← lastLoop ((tempPosition + 1) % m.m_slotNum) n
    return m.slot tempPosition :: results

/-- The last values, oldest first. `m_head - number + m_slotNum` is unsigned, and not negative
since `number` is at most the length of the buffer. -/
def getLastN (number : Nat) : EStateM Stop CircularDoubleArray (List Rat) := do
  if number = 0 then
    throw (.runtime_error "the number should be larger than 1")
  let len ← bufferLen
  if len < number then
    throw (.runtime_error "the required number is larger than actual buffer length")
  let m ← get
  let startPosition := (m.m_head + m.m_slotNum - number) % m.m_slotNum
  lock indexMutex indexBusy
  let results ← lastLoop startPosition number
  unlock indexMutex
  return results

def removeElement : EStateM Stop CircularDoubleArray Int := do
  lock indexMutex indexBusy
  let m ← get
  if m.m_tail = m.m_head then
    throw (.runtime_error "current array is empty")
  if m.slot m.m_tail = DBL_MAX then
    unlock indexMutex
    throw (.runtime_error "entry supposed to be removed is already nullptr")
  else
    modify fun m => m.setSlot m.m_tail DBL_MAX
  modify moveTail
  unlock indexMutex
  return 0

end CircularDoubleArray

/-- The metrics of one server, each in an array of `m_slot` slots. -/
structure MetricManager where
  m_slot : Nat
  m_metricsMap : AList fun _ : String => CircularDoubleArray := ∅
  m_runningThreads : Int := 0

namespace MetricManager

def metricExist (m : MetricManager) (metricName : String) : Bool :=
  (m.m_metricsMap.lookup metricName).isSome

/-- Run a call on the array a name points to. -/
def onArray {α : Type} (m : MetricManager) (metricName : String) (arrayPtr : CircularDoubleArray)
    (x : EStateM Stop CircularDoubleArray α) : EStateM.Result Stop MetricManager α :=
  match x arrayPtr with
  | .ok a arrayPtr =>
    .ok a { m with m_metricsMap := m.m_metricsMap.insert metricName arrayPtr }
  | .error e arrayPtr =>
    .error e { m with m_metricsMap := m.m_metricsMap.insert metricName arrayPtr }

def putMetric (metricName : String) (metricValue : Rat) : EStateM Stop MetricManager Unit :=
  fun m =>
    match m.m_metricsMap.lookup metricName with
    | some arrayPtr => m.onArray metricName arrayPtr (do
      let _ ← CircularDoubleArray.addElement metricValue)
    -- the slots are a `size_t` here and an `int` in the array
    | none =>
      match CircularDoubleArray.new (sizeToInt m.m_slot) with
      | .error e => .error e m
      | .ok arrayPtr => m.onArray metricName arrayPtr (do
        let _ ← CircularDoubleArray.addElement metricValue)

/-- The first critical section of `putMetric`: the array of a name is found or made. -/
def findArray (metricName : String) : EStateM Stop MetricManager Unit := fun m =>
  match m.m_metricsMap.lookup metricName with
  | some _ => .ok () m
  | none =>
    match CircularDoubleArray.new (sizeToInt m.m_slot) with
    | .error e => .error e m
    | .ok arrayPtr =>
      .ok () { m with m_metricsMap := m.m_metricsMap.insert metricName arrayPtr }

/-- The second: no array is ever taken out of the map. -/
def addToArray (metricName : String) (metricValue : Rat) : EStateM Stop MetricManager Unit :=
  fun m =>
    match m.m_metricsMap.lookup metricName with
    | none => .error (.undefined "no array") m
    | some arrayPtr => m.onArray metricName arrayPtr (do
      let _ ← CircularDoubleArray.addElement metricValue)

section Sections

variable {m : MetricManager} {metricName : String} {metricValue : Rat}
  {arrayPtr : CircularDoubleArray}

theorem findArray_found (found : m.m_metricsMap.lookup metricName = some arrayPtr) :
    findArray metricName m = .ok () m := by
  unfold findArray
  generalize CircularDoubleArray.new (sizeToInt m.m_slot) = result
  rw [found]

theorem findArray_first (absent : m.m_metricsMap.lookup metricName = none)
    (created : CircularDoubleArray.new (sizeToInt m.m_slot) = .ok arrayPtr) :
    findArray metricName m =
      .ok () { m with m_metricsMap := m.m_metricsMap.insert metricName arrayPtr } := by
  unfold findArray
  generalize CircularDoubleArray.new (sizeToInt m.m_slot) = result at created ⊢
  rw [absent, created]

theorem findArray_throws {e : Stop} (absent : m.m_metricsMap.lookup metricName = none)
    (failed : CircularDoubleArray.new (sizeToInt m.m_slot) = .error e) :
    findArray metricName m = .error e m := by
  unfold findArray
  generalize CircularDoubleArray.new (sizeToInt m.m_slot) = result at failed ⊢
  rw [absent, failed]

theorem addToArray_found (found : m.m_metricsMap.lookup metricName = some arrayPtr) :
    addToArray metricName metricValue m = m.onArray metricName arrayPtr (do
      let _ ← CircularDoubleArray.addElement metricValue) := by
  unfold addToArray
  rw [found]

/-- A put that nothing comes between. -/
theorem putMetric_eq (metricName : String) (metricValue : Rat) :
    putMetric metricName metricValue =
      findArray metricName >>= fun _ => addToArray metricName metricValue := by
  funext m
  unfold putMetric
  cases found : m.m_metricsMap.lookup metricName with
  | some arrayPtr =>
    rw [bind_ok (findArray_found found), addToArray_found found]
  | none =>
    generalize created : CircularDoubleArray.new (sizeToInt m.m_slot) = result
    cases result with
    | error e => rw [bind_error (findArray_throws found created)]
    | ok arrayPtr =>
      rw [bind_ok (findArray_first found created), addToArray_found (AList.lookup_insert _)]
      simp only [onArray]
      split <;> rw [AList.insert_insert]

end Sections

def getLastNmetrics (metricName : String) (number : Nat) :
    EStateM Stop MetricManager (List Rat) := fun m =>
  match m.m_metricsMap.lookup metricName with
  | none => .error (.runtime_error "metric name not exist") m
  | some arrayPtr => m.onArray metricName arrayPtr (CircularDoubleArray.getLastN number)

/-- A name that is not there gets a null pointer, which is followed. -/
def getBufferLen (metricName : String) : EStateM Stop MetricManager Nat := fun m =>
  match m.m_metricsMap.lookup metricName with
  | none => .error (.undefined "null pointer") m
  | some arrayPtr => m.onArray metricName arrayPtr CircularDoubleArray.bufferLen

end MetricManager

end Gorilla
