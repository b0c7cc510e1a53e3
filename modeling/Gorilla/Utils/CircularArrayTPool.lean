import Gorilla.Basic
import Gorilla.Lib.HandLock
import Gorilla.Lib.Ring

/-!
# The pool of execution streams

A stream is the number of its creation, and a slot without one is empty. The streams that were
waited for are kept in order.
-/

namespace Gorilla

open HandLock

/-- The two positions stay below `m_slotNum`, so none of the sums below leaves `int`. -/
structure CircularArrayTP where
  m_slotNum : Nat
  m_circularESbuffer : List (Option Nat)
  m_head : Nat
  m_tail : Nat
  m_indexMutex : Bool
  created : Nat
  joined : List Nat
  length_buffer : m_circularESbuffer.length = m_slotNum
  head_lt : m_head < m_slotNum
  tail_lt : m_tail < m_slotNum

namespace CircularArrayTP

/-- The constructor: every slot is empty. -/
def new (slotNum : Int) : Except Stop CircularArrayTP :=
  if h : slotNum < 1 then
    .error (.runtime_error "the length of the es array should larger than 1")
  else
    .ok {
      m_slotNum := slotNum.toNat
      m_circularESbuffer := List.replicate slotNum.toNat none
      m_head := 0
      m_tail := 0
      m_indexMutex := false
      created := 0
      joined := []
      length_buffer := List.length_replicate
      head_lt := Ring.slots_pos h
      tail_lt := Ring.slots_pos h }

def indexMutex : Mutex CircularArrayTP where
  held m := m.m_indexMutex
  put b m := { m with m_indexMutex := b }
  held_put _ _ := rfl
  put_put _ _ _ := rfl
  put_held _ := rfl

def indexBusy : Stop := .blocked "m_indexMutex"

theorem slotNum_pos (m : CircularArrayTP) : 0 < m.m_slotNum :=
  Nat.lt_of_le_of_lt (Nat.zero_le _) m.head_lt

/-- The stream at a position of the buffer. -/
def slot (m : CircularArrayTP) (i : Nat) : Option Nat := (m.m_circularESbuffer[i]?).join

def setSlot (m : CircularArrayTP) (i : Nat) (es : Option Nat) : CircularArrayTP :=
  { m with
    m_circularESbuffer := m.m_circularESbuffer.set i es
    length_buffer := by rw [List.length_set, m.length_buffer] }

def moveHead (m : CircularArrayTP) : CircularArrayTP :=
  { m with
    m_head := (m.m_head + 1) % m.m_slotNum
    head_lt := Nat.mod_lt _ m.slotNum_pos }

def moveTail (m : CircularArrayTP) : CircularArrayTP :=
  { m with
    m_tail := (m.m_tail + 1) % m.m_slotNum
    tail_lt := Nat.mod_lt _ m.slotNum_pos }

/-- `tl::xstream::create()` into the slot at the head. -/
def create (m : CircularArrayTP) : CircularArrayTP :=
  { m.setSlot m.m_head (some m.created) with created := m.created + 1 }

/-- The stream is waited for, and its slot made empty. -/
def join (m : CircularArrayTP) (i es : Nat) : CircularArrayTP :=
  { m.setSlot i none with joined := m.joined ++ [es] }

/-- Neither this call nor the next returns the `int` it declares, and no caller reads one. -/
def addES : EStateM Stop CircularArrayTP Unit := do
  lock indexMutex indexBusy
  let m ← get
  if (m.m_head + 1) % m.m_slotNum = m.m_tail then
    unlock indexMutex
    throw (.runtime_error "the es buffer is full")
  modify moveHead
  let m ← get
  if (m.slot m.m_head).isSome then
    unlock indexMutex
    throw (.runtime_error ("the ess at the new position " ++ toString m.m_head ++
      " should be empty before moving head ptr"))
  modify create
  unlock indexMutex

/-- The slot is the one the tail leaves. It is emptied without the mutex. -/
def removeES : EStateM Stop CircularArrayTP Unit := do
  lock indexMutex indexBusy
  let temptail := (← get).m_tail
  modify moveTail
  unlock indexMutex
  match (← get).slot temptail with
  | none => return ()
  | some es => modify fun m => m.join temptail es

/-- The three cases of `esbufferLen`. -/
def len (m : CircularArrayTP) : Nat :=
  if m.m_head = m.m_tail then 0
  else if m.m_tail < m.m_head then m.m_head - m.m_tail
  else m.m_slotNum + m.m_head - m.m_tail

def esbufferLen : EStateM Stop CircularArrayTP Nat := do
  lock indexMutex indexBusy
  let len := (← get).len
  unlock indexMutex
  return len

end CircularArrayTP

end Gorilla
