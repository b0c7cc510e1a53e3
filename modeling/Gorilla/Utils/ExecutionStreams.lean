import Gorilla.Utils.CircularArrayTPool
import Gorilla.Lib.Runs

/-!
# The streams a pool holds

A stream is put behind the head after the head has moved, and the tail is emptied before it
moves. The first removal finds the slot that was never filled.
-/

namespace Gorilla.CircularArrayTP

open HandLock Ring Runs

variable {m t : CircularArrayTP}

/-- The number of slots that hold a live stream. -/
def live (m : CircularArrayTP) : Nat := m.m_circularESbuffer.countP Option.isSome

theorem slot_setSlot {i : Nat} (hi : i < m.m_slotNum) (es : Option Nat) (j : Nat) :
    (m.setSlot i es).slot j = if j = i then es else m.slot j := by
  have hlen : i < m.m_circularESbuffer.length := by rwa [m.length_buffer]
  by_cases own : j = i
  · subst own
    simp [slot, setSlot, List.getElem?_set_self hlen]
  · simp [slot, setSlot, List.getElem?_set_ne (Ne.symm own), own]

theorem slot_eq_none {j : Nat} (hj : m.m_slotNum ≤ j) : m.slot j = none := by
  rw [slot, List.getElem?_eq_none (by rwa [m.length_buffer])]
  rfl

theorem live_eq (m : CircularArrayTP) :
    m.live = (List.range m.m_slotNum).countP fun j => (m.slot j).isSome := by
  have slots : m.m_circularESbuffer = (List.range m.m_slotNum).map m.slot := by
    apply List.ext_getElem
    · simp [m.length_buffer]
    · intro i hi _
      simp [slot, List.getElem?_eq_getElem hi]
  rw [live, slots, List.countP_map]
  rfl

theorem len_eq_gap (m : CircularArrayTP) : m.len = gap m.m_slotNum m.m_tail m.m_head := rfl

theorem len_lt (m : CircularArrayTP) : m.len < m.m_slotNum := by
  rw [len_eq_gap]
  exact gap_lt m.tail_lt m.head_lt

theorem head_eq (m : CircularArrayTP) : (m.m_tail + m.len) % m.m_slotNum = m.m_head := by
  rw [len_eq_gap]
  exact add_gap m.tail_lt m.head_lt

/-- The next position of the head is the tail. -/
def Full (m : CircularArrayTP) : Prop := (m.m_head + 1) % m.m_slotNum = m.m_tail

instance (m : CircularArrayTP) : Decidable m.Full := inferInstanceAs (Decidable (_ = _))

theorem full_iff : m.Full ↔ m.len + 1 = m.m_slotNum := next_eq_iff m.tail_lt m.head_lt

/-! ### The runs of the calls -/

theorem esbufferLen_run (free : m.m_indexMutex = false) : esbufferLen m = .ok m.len m := by
  rw [esbufferLen, bind_ok (lock_free free)]
  exact congrArg (EStateM.Result.ok m.len) (Mutex.put_free (m := indexMutex) free)

theorem addES_full (free : m.m_indexMutex = false) (full : m.Full) :
    addES m = .error (.runtime_error "the es buffer is full") m := by
  rw [addES, bind_ok (lock_free free), bind_ok (get_run _)]
  have full' : ((indexMutex.put true m).m_head + 1) % (indexMutex.put true m).m_slotNum =
    (indexMutex.put true m).m_tail := full
  rw [if_pos full']
  exact congrArg (EStateM.Result.error _) (Mutex.put_free (m := indexMutex) free)

/-- The pool with one more stream. -/
def added (m : CircularArrayTP) : CircularArrayTP := m.moveHead.create

theorem addES_run (free : m.m_indexMutex = false) (room : ¬ m.Full)
    (empty : m.slot ((m.m_head + 1) % m.m_slotNum) = none) : addES m = .ok () m.added := by
  rw [addES, bind_ok (lock_free free), bind_ok (get_run _)]
  have room' : ¬ ((indexMutex.put true m).m_head + 1) % (indexMutex.put true m).m_slotNum =
    (indexMutex.put true m).m_tail := room
  rw [if_neg room']
  have vacant : ¬ ((indexMutex.put true m).moveHead.slot
      (indexMutex.put true m).moveHead.m_head).isSome := by
    show ¬ (m.slot ((m.m_head + 1) % m.m_slotNum)).isSome
    rw [empty]
    exact Bool.false_ne_true
  refine (bind_ok (modify_run moveHead _)).trans ?_
  refine (bind_ok (get_run _)).trans ?_
  refine (congrFun (if_neg vacant) _).trans ?_
  have freed : indexMutex.put false m.added = m.added := Mutex.put_free free
  exact congrArg (EStateM.Result.ok ()) freed

theorem removeES_run (free : m.m_indexMutex = false) : removeES m = .ok () (
    match m.slot m.m_tail with
    | none => m.moveTail
    | some es => m.moveTail.join m.m_tail es) := by
  rw [removeES, bind_ok (lock_free free), bind_ok (get_run _)]
  refine (bind_ok (modify_run moveTail _)).trans ?_
  have moved : (unlock indexMutex : EStateM Stop CircularArrayTP PUnit)
      (indexMutex.put true m).moveTail = .ok ⟨⟩ m.moveTail :=
    congrArg (EStateM.Result.ok PUnit.unit)
      (Mutex.put_free (m := indexMutex) (s := m.moveTail) free)
  refine (bind_ok moved).trans ?_
  refine (bind_ok (get_run _)).trans ?_
  show (match m.slot m.m_tail with | none => _ | some es => _ : EStateM Stop _ Unit) m.moveTail = _
  cases m.slot m.m_tail with
  | none => rfl
  | some es => rfl

theorem len_added (room : ¬ m.Full) : m.added.len = m.len + 1 := by
  have lt := m.len_lt
  rw [full_iff] at room
  refine gap_eq m.tail_lt m.added.head_lt (by show m.len + 1 < m.m_slotNum; omega) ?_
  show (m.m_tail + (m.len + 1)) % m.m_slotNum = (m.m_head + 1) % m.m_slotNum
  rw [← m.head_eq, Nat.mod_add_mod, Nat.add_assoc]

theorem len_moveTail (taken : 0 < m.len) : m.moveTail.len = m.len - 1 := by
  have lt := m.len_lt
  refine gap_eq m.moveTail.tail_lt m.head_lt (by show m.len - 1 < m.m_slotNum; omega) ?_
  show ((m.m_tail + 1) % m.m_slotNum + (m.len - 1)) % m.m_slotNum = m.m_head
  rw [Nat.mod_add_mod, Nat.add_assoc, Nat.add_sub_cancel' taken, m.head_eq]

/-! ### What the slots hold -/

/-- The slot of the oldest stream: the one behind the tail, and once a stream was removed the
tail itself. -/
def start (removed : Bool) (m : CircularArrayTP) : Nat :=
  if removed then m.m_tail else (m.m_tail + 1) % m.m_slotNum

/-- The live streams: those created after the ones that were joined, one more than the two
positions tell once a stream was removed. -/
def streams (removed : Bool) (m : CircularArrayTP) : List Nat :=
  List.range' m.joined.length (m.len + removed.toNat)

/-- The slots hold the live streams and nothing else. -/
structure Inv (removed : Bool) (m : CircularArrayTP) : Prop where
  free : m.m_indexMutex = false
  ring : Holds m.slot m.m_slotNum (m.start removed) (m.streams removed)
  created : m.created = m.joined.length + (m.len + removed.toNat)
  joined : m.joined = List.range m.joined.length

variable {removed : Bool}

theorem start_lt : m.start removed < m.m_slotNum := by
  unfold start
  split
  · exact m.tail_lt
  · exact Nat.mod_lt _ m.slotNum_pos

@[simp] theorem length_streams : (m.streams removed).length = m.len + removed.toNat :=
  List.length_range'

/-- The stream added next goes behind the others. -/
theorem behind_streams (removed : Bool) (m : CircularArrayTP) :
    (m.start removed + (m.streams removed).length) % m.m_slotNum =
      (m.m_head + 1) % m.m_slotNum := by
  have head := m.head_eq
  rw [length_streams, ← head, Nat.mod_add_mod]
  cases removed with
  | false =>
    show ((m.m_tail + 1) % m.m_slotNum + m.len) % m.m_slotNum = _
    rw [Nat.mod_add_mod]
    congr 1
    omega
  | true =>
    show (m.m_tail + (m.len + 1)) % m.m_slotNum = _
    rfl

theorem length_streams_lt (room : ¬ m.Full) : (m.streams removed).length < m.m_slotNum := by
  have lt := m.len_lt
  rw [full_iff] at room
  rw [length_streams]
  have one : removed.toNat ≤ 1 := Bool.toNat_le removed
  omega

namespace Inv

variable (h : m.Inv removed)

include h

/-- A stream more than the positions tell is live once one was removed. -/
theorem live_eq : m.live = m.len + removed.toNat := by
  rw [CircularArrayTP.live_eq, h.ring.count start_lt, length_streams]

/-- The slot ahead of the head is empty. -/
theorem vacant (room : ¬ m.Full) : m.slot ((m.m_head + 1) % m.m_slotNum) = none := by
  rw [← behind_streams removed m]
  exact h.ring.behind (length_streams_lt room)

theorem added (room : ¬ m.Full) : m.added.Inv removed := by
  have more := len_added room
  have same : m.added.streams removed = m.streams removed ++ [m.created] := by
    rw [streams, more, h.created, Nat.add_right_comm, List.range'_1_concat]
    rfl
  refine ⟨h.free, ?_, ?_, h.joined⟩
  · rw [same]
    refine h.ring.push (length_streams_lt room) fun j => ?_
    rw [behind_streams removed m]
    exact slot_setSlot (m := m.moveHead) m.moveHead.head_lt _ j
  · show m.created + 1 = m.joined.length + (m.added.len + removed.toNat)
    rw [more, h.created]
    omega

end Inv

/-- The first removal finds the tail empty, and clears nothing. -/
theorem Inv.first (h : m.Inv false) (taken : 0 < m.len) :
    m.slot m.m_tail = none ∧ m.moveTail.Inv true := by
  have lt := m.len_lt
  have fewer := len_moveTail taken
  constructor
  · have last := h.ring.2 (m.m_slotNum - 1) (by omega)
    have around : (m.start false + (m.m_slotNum - 1)) % m.m_slotNum = m.m_tail := by
      show ((m.m_tail + 1) % m.m_slotNum + (m.m_slotNum - 1)) % m.m_slotNum = m.m_tail
      have turn : m.m_tail + 1 + (m.m_slotNum - 1) = m.m_tail + m.m_slotNum := by omega
      rw [Nat.mod_add_mod, turn, Nat.add_mod_right, Nat.mod_eq_of_lt m.tail_lt]
    rw [around] at last
    rw [last]
    exact List.getElem?_eq_none (by rw [length_streams]; show m.len ≤ _; omega)
  · have same : m.moveTail.len + 1 = m.len := by omega
    refine ⟨h.free, ?_, ?_, h.joined⟩
    · have streams : m.moveTail.streams true = m.streams false := by
        unfold CircularArrayTP.streams
        rw [Bool.toNat_true, same]
        rfl
      rw [streams]
      exact h.ring
    · rw [Bool.toNat_true, same]
      exact h.created

/-- Every later removal joins the oldest stream and clears its slot. -/
theorem Inv.later (h : m.Inv true) (taken : 0 < m.len) :
    m.slot m.m_tail = some m.joined.length ∧
      (m.moveTail.join m.m_tail m.joined.length).Inv true := by
  have fewer := len_moveTail taken
  have parts : m.streams true =
      m.joined.length :: List.range' (m.joined.length + 1) m.len := List.range'_succ
  have ring := h.ring
  rw [parts] at ring
  have same : m.moveTail.len + 1 = m.len := by omega
  have counted : (m.moveTail.join m.m_tail m.joined.length).joined.length =
      m.joined.length + 1 := by
    show (m.joined ++ [m.joined.length]).length = _
    rw [List.length_append, List.length_singleton]
  refine ⟨ring.first m.tail_lt, h.free, ?_, ?_, ?_⟩
  · have streams : (m.moveTail.join m.m_tail m.joined.length).streams true =
        List.range' (m.joined.length + 1) m.len := by
      unfold CircularArrayTP.streams
      rw [counted, Bool.toNat_true]
      exact congrArg (fun k => List.range' (m.joined.length + 1) k) same
    rw [streams]
    exact ring.pop m.tail_lt fun j => slot_setSlot (m := m.moveTail) m.tail_lt none j
  · have created := h.created
    show m.created = _ + (m.moveTail.len + true.toNat)
    rw [counted, Bool.toNat_true, same, created, Bool.toNat_true]
    omega
  · rw [counted, List.range_succ]
    exact congrArg (· ++ [m.joined.length]) h.joined

theorem inv_new {slotNum : Int} (two : 2 ≤ slotNum) (made : new slotNum = .ok m) :
    m.Inv false := by
  unfold new at made
  rw [dif_neg (by omega)] at made
  cases made
  have empty : ∀ j, (⟨slotNum.toNat, List.replicate slotNum.toNat none, 0, 0, false, 0, [],
      List.length_replicate, by omega, by omega⟩ : CircularArrayTP).slot j = none := by
    intro j
    rw [slot, List.getElem?_replicate]
    split <;> rfl
  exact ⟨rfl, .nil empty _ _, rfl, rfl⟩

end Gorilla.CircularArrayTP

namespace Gorilla

/-! ## Calls one after the other -/

open HandLock Ring Runs

inductive PoolCall
  | addES | removeES
  deriving DecidableEq, Repr

namespace PoolCall

variable {m t : CircularArrayTP} {removed : Bool} {calls : List PoolCall}

def run : PoolCall → EStateM Stop CircularArrayTP Unit
  | addES => CircularArrayTP.addES
  | removeES => CircularArrayTP.removeES

/-- The next call. The pool is used on after an exception. -/
def step (call : PoolCall) (m : CircularArrayTP) : Except Stop CircularArrayTP :=
  match call.run m with
  | .ok _ m => .ok m
  | .error (.runtime_error _) m => .ok m
  | .error stop _ => .error stop

/-- A stream is removed only if the pool is not empty. -/
def Allowed : PoolCall → CircularArrayTP → Prop
  | addES, _ => True
  | removeES, m => ∃ len, CircularArrayTP.esbufferLen m = .ok len m ∧ 0 < len

/-- The length is the number of live streams. -/
def Counted (m : CircularArrayTP) : Prop := CircularArrayTP.esbufferLen m = .ok m.live m

/-- What holds of a call: a stream is refused only by a pool that has one slot left, and goes
into an empty slot; a removal joins and clears the oldest stream, and no other. -/
def Lawful : PoolCall → CircularArrayTP → Prop
  | addES, m =>
    (∀ what m', CircularArrayTP.addES m = .error (.runtime_error what) m' →
      m.live + 1 = m.m_slotNum) ∧
    (¬ m.Full → m.slot ((m.m_head + 1) % m.m_slotNum) = none)
  | removeES, m => ∃ i es m', CircularArrayTP.removeES m = .ok () m' ∧ m.slot i = some es ∧
      (∀ j other, m.slot j = some other → es ≤ other) ∧
      m'.joined = m.joined ++ [es] ∧ ∀ j, m'.slot j = if j = i then none else m.slot j

theorem step_addES (h : m.Inv removed) : ∃ t, addES.step m = .ok t ∧ t.Inv removed := by
  by_cases full : m.Full
  · have run := CircularArrayTP.addES_full h.free full
    exact ⟨m, by simp only [step, PoolCall.run, run], h⟩
  · have run := CircularArrayTP.addES_run h.free full (h.vacant full)
    exact ⟨m.added, by simp only [step, PoolCall.run, run], h.added full⟩

theorem step_removeES (h : m.Inv removed) (taken : 0 < m.len) :
    ∃ t, removeES.step m = .ok t ∧ t.Inv true := by
  have run := CircularArrayTP.removeES_run h.free
  cases removed with
  | false =>
    obtain ⟨empty, inv⟩ := h.first taken
    rw [empty] at run
    exact ⟨_, by simp only [step, PoolCall.run, run], inv⟩
  | true =>
    obtain ⟨oldest, inv⟩ := h.later taken
    rw [oldest] at run
    exact ⟨_, by simp only [step, PoolCall.run, run], inv⟩

theorem allowed_removeES (h : m.Inv removed) : removeES.Allowed m ↔ 0 < m.len := by
  show (∃ len, CircularArrayTP.esbufferLen m = .ok len m ∧ 0 < len) ↔ _
  rw [CircularArrayTP.esbufferLen_run h.free]
  simp

theorem counted_iff (h : m.Inv removed) : Counted m ↔ removed = false := by
  unfold Counted
  rw [CircularArrayTP.esbufferLen_run h.free, h.live_eq]
  cases removed <;> simp

/-- As long as nothing was removed, streams are added as they should be. -/
theorem lawful_addES (h : m.Inv false) : addES.Lawful m := by
  refine ⟨fun what m' thrown => ?_, h.vacant⟩
  by_cases full : m.Full
  · rw [h.live_eq]
    exact CircularArrayTP.full_iff.mp full
  · rw [CircularArrayTP.addES_run h.free full (h.vacant full)] at thrown
    cases thrown

/-- The first removal joins nothing. -/
theorem not_lawful_removeES (h : m.Inv false) (taken : 0 < m.len) : ¬ removeES.Lawful m := by
  rintro ⟨i, es, m', run, _, _, joined, _⟩
  rw [CircularArrayTP.removeES_run h.free, (h.first taken).1] at run
  cases run
  exact absurd joined (by simp [CircularArrayTP.moveTail])

/-- Later removals join the oldest stream. -/
theorem lawful_removeES (h : m.Inv true) (taken : 0 < m.len) : removeES.Lawful m := by
  have run := CircularArrayTP.removeES_run h.free
  obtain ⟨oldest, _⟩ := h.later taken
  rw [oldest] at run
  refine ⟨_, _, _, run, oldest, ?_, rfl, fun j => ?_⟩
  · intro j other held
    by_cases hj : j < m.m_slotNum
    · have mem := h.ring.mem CircularArrayTP.start_lt hj held
      exact (List.mem_range'_1.mp mem).1
    · rw [CircularArrayTP.slot_eq_none (Nat.not_lt.mp hj)] at held
      cases held
  · exact CircularArrayTP.slot_setSlot (m := m.moveTail) m.tail_lt none j

/-- Allowed calls keep the slots in order, and tell only whether a stream was removed. -/
theorem inv_along (h : m.Inv removed)
    (allowed : Throughout (fun _ => True) Allowed step calls m) {done rest : List PoolCall}
    (whole : calls = done ++ rest) (run : runs step done m = .ok t) :
    t.Inv (removed || decide (removeES ∈ done)) := by
  induction done generalizing m calls removed with
  | nil =>
    cases run
    simpa using h
  | cons call done ih =>
    subst whole
    obtain ⟨_, next, later⟩ := throughout_cons.mp allowed
    rw [runs] at run
    cases call with
    | addES =>
      obtain ⟨u, stepped, inv⟩ := step_addES h
      rw [stepped] at run
      simpa using ih inv (later u stepped) rfl run
    | removeES =>
      obtain ⟨u, stepped, inv⟩ := step_removeES h ((allowed_removeES h).mp next)
      rw [stepped] at run
      simpa using ih inv (later u stepped) rfl run

theorem throughout_iff (h : m.Inv false)
    (allowed : Throughout (fun _ => True) Allowed step calls m) :
    Throughout Counted Lawful step calls m ↔ removeES ∉ calls := by
  induction calls generalizing m with
  | nil => exact iff_of_true (throughout_nil.mpr ((counted_iff h).mpr rfl)) List.not_mem_nil
  | cons call calls ih =>
    obtain ⟨_, next, later⟩ := throughout_cons.mp allowed
    rw [throughout_cons, and_iff_right ((counted_iff h).mpr rfl), List.mem_cons, not_or]
    cases call with
    | addES =>
      obtain ⟨t, stepped, inv⟩ := step_addES h
      rw [and_iff_right (lawful_addES h), ← ih inv (later t stepped), stepped]
      simp
    | removeES =>
      have taken := (allowed_removeES h).mp next
      exact iff_of_false (fun rest => not_lawful_removeES h taken rest.1) fun kept => kept.1 rfl

/-- Along allowed calls a stream always goes into an empty slot. Once one was removed the pool
holds a stream more than its length, and each further removal joins the oldest. -/
theorem ring_along {slotNum : Int} (two : 2 ≤ slotNum)
    (made : CircularArrayTP.new slotNum = .ok m)
    (allowed : Throughout (fun _ => True) Allowed step calls m) {done rest : List PoolCall}
    (whole : calls = done ++ rest) (run : runs step done m = .ok t) :
    t.live = t.len + (decide (removeES ∈ done)).toNat ∧
      (¬ t.Full → t.slot ((t.m_head + 1) % t.m_slotNum) = none) ∧
      (removeES ∈ done → 0 < t.len → removeES.Lawful t) := by
  have inv := inv_along (CircularArrayTP.inv_new two made) allowed whole run
  rw [Bool.false_or] at inv
  refine ⟨inv.live_eq, inv.vacant, fun removed taken => ?_⟩
  rw [decide_eq_true removed] at inv
  exact lawful_removeES inv taken

end PoolCall

end Gorilla
