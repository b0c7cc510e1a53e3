import Gorilla.MetricManager.CircularDoubleArray

/-!
# The last values of a metric

The runs of the reads, by what the buffer holds.
-/

namespace Gorilla

open HandLock

namespace CircularDoubleArray

variable {m : CircularDoubleArray}

/-- The number of values between the tail and the head. -/
def length (m : CircularDoubleArray) : Nat :=
  if m.m_head = m.m_tail then 0
  else if m.m_tail < m.m_head then m.m_head - m.m_tail
  else m.m_slotNum + m.m_head - m.m_tail

def startPosition (m : CircularDoubleArray) (number : Nat) : Nat :=
  (m.m_head + m.m_slotNum - number) % m.m_slotNum

/-- The slots from a position on, around the end of the buffer. -/
def valuesFrom (m : CircularDoubleArray) (p number : Nat) : List Rat :=
  (List.range number).map fun i => m.slot ((p + i) % m.m_slotNum)

theorem valuesFrom_succ (m : CircularDoubleArray) {p : Nat} (hp : p < m.m_slotNum) (number : Nat) :
    m.valuesFrom p (number + 1) =
      m.slot p :: m.valuesFrom ((p + 1) % m.m_slotNum) number := by
  unfold valuesFrom
  rw [List.range_succ_eq_map, List.map_cons, List.map_map, Nat.add_zero, Nat.mod_eq_of_lt hp]
  congr 1
  refine List.map_congr_left fun i _ => ?_
  rw [Function.comp_apply, Nat.mod_add_mod, Nat.add_assoc, Nat.add_comm 1 i]

def emptyElement : Stop := .runtime_error "try to get an empty element"

/-- The loop reads up to the first empty slot. -/
theorem lastLoop_run (m : CircularDoubleArray) (number : Nat) {p : Nat} (hp : p < m.m_slotNum) :
    lastLoop p number m =
      if DBL_MAX ∈ m.valuesFrom p number then .error emptyElement m
      else .ok (m.valuesFrom p number) m := by
  induction number generalizing p with
  | zero => rfl
  | succ number ih =>
    have hnext : (p + 1) % m.m_slotNum < m.m_slotNum := Nat.mod_lt _ m.slotNum_pos
    rw [valuesFrom_succ m hp, lastLoop, bind_ok (get_run m)]
    by_cases h : m.slot p = DBL_MAX
    · rw [if_pos h, if_pos (by rw [h]; exact List.mem_cons_self)]
      rfl
    · rw [if_neg h]
      have hrun := ih hnext
      by_cases hrest : DBL_MAX ∈ m.valuesFrom ((p + 1) % m.m_slotNum) number
      · rw [if_pos hrest] at hrun
        rw [if_pos (List.mem_cons_of_mem _ hrest)]
        exact bind_error hrun
      · rw [if_neg hrest] at hrun
        have hnone : DBL_MAX ∉ m.slot p :: m.valuesFrom ((p + 1) % m.m_slotNum) number := by
          rw [List.mem_cons, not_or]
          exact ⟨fun e => h e.symm, hrest⟩
        rw [if_neg hnone]
        exact bind_ok hrun

/-- The sum of the slots and the head is no `int` where the length needs it. -/
def Overflows (m : CircularDoubleArray) : Prop :=
  m.m_head < m.m_tail ∧ INT_MAX < m.m_slotNum + m.m_head

theorem len_eq_ok : m.len = .ok m.length ↔ ¬ m.Overflows := by
  have tail := m.tail_lt
  unfold len length Overflows
  by_cases empty : m.m_head = m.m_tail
  · simp [empty]
  · by_cases ahead : m.m_tail < m.m_head
    · simp [empty, ahead, Nat.lt_asymm ahead]
    · have behind : m.m_head < m.m_tail := by omega
      rw [if_neg empty, if_neg ahead, if_neg empty, if_neg ahead]
      by_cases small : IsInt (m.m_slotNum + m.m_head)
      · rw [int_of_isInt small]
        obtain ⟨_, small⟩ := small
        refine iff_of_true ?_ fun exceeds => absurd exceeds.2 (not_lt.mpr small)
        show Except.ok _ = _
        congr 1
        omega
      · have large : INT_MAX < m.m_slotNum + m.m_head := by
          simp only [IsInt, INT_MIN, INT_MAX] at small ⊢
          omega
        refine iff_of_false ?_ (not_not.mpr ⟨behind, large⟩)
        rw [int, if_neg small]
        intro h
        cases h

theorem len_overflow (exceeds : m.Overflows) : m.len = .error (.undefined "signed overflow") := by
  obtain ⟨behind, large⟩ := exceeds
  have small : ¬ IsInt (m.m_slotNum + m.m_head) := by
    simp only [IsInt, INT_MIN, INT_MAX] at large ⊢
    omega
  rw [len, if_neg (Nat.ne_of_lt behind), if_neg (Nat.lt_asymm behind), int, if_neg small]
  rfl

theorem bufferLen_run (free : m.m_indexMutex = false) (fits : ¬ m.Overflows) :
    bufferLen m = .ok m.length m := by
  have hlen : (indexMutex.put true m).len = .ok m.length := len_eq_ok.mpr fits
  rw [bufferLen, bind_ok (lock_free free), bind_ok (get_run _), hlen]
  exact bind_ok (unlock_put free true)

theorem bufferLen_overflow (free : m.m_indexMutex = false) (exceeds : m.Overflows) :
    bufferLen m = .error (.undefined "signed overflow") (indexMutex.put true m) := by
  have hlen : (indexMutex.put true m).len = .error (.undefined "signed overflow") :=
    len_overflow exceeds
  rw [bufferLen, bind_ok (lock_free free), bind_ok (get_run _), hlen]
  rfl

theorem bufferLen_busy (held : m.m_indexMutex = true) : bufferLen m = .error indexBusy m :=
  bind_error (lock_busy held)

/-- There are as many values before the head, and none of their slots is empty. -/
def Holds (m : CircularDoubleArray) (number : Nat) : Prop :=
  0 < number ∧ ¬ m.Overflows ∧ number ≤ m.length ∧
    DBL_MAX ∉ m.valuesFrom (m.startPosition number) number

/-- The read of a stretch with an empty slot ends inside the locked region. -/
theorem getLastN_run (free : m.m_indexMutex = false) (fits : ¬ m.Overflows) {number : Nat}
    (hpos : 0 < number) (hlen : number ≤ m.length) :
    getLastN number m =
      if DBL_MAX ∈ m.valuesFrom (m.startPosition number) number then
        .error emptyElement (indexMutex.put true m)
      else .ok (m.valuesFrom (m.startPosition number) number) m := by
  have hrun : lastLoop ((m.m_head + m.m_slotNum - number) % m.m_slotNum) number
      (indexMutex.put true m) =
        if DBL_MAX ∈ m.valuesFrom (m.startPosition number) number then
          .error emptyElement (indexMutex.put true m)
        else .ok (m.valuesFrom (m.startPosition number) number) (indexMutex.put true m) :=
    lastLoop_run (indexMutex.put true m) number
      (Nat.mod_lt (m.m_head + m.m_slotNum - number) m.slotNum_pos)
  rw [getLastN, if_neg (Nat.ne_of_gt hpos)]
  refine (bind_ok (bufferLen_run free fits)).trans ?_
  rw [if_neg (Nat.not_lt.mpr hlen)]
  refine (bind_ok (get_run m)).trans ((bind_ok (lock_free free)).trans ?_)
  by_cases h : DBL_MAX ∈ m.valuesFrom (m.startPosition number) number
  · rw [if_pos h] at hrun
    rw [if_pos h]
    exact bind_error hrun
  · rw [if_neg h] at hrun
    rw [if_neg h]
    exact (bind_ok hrun).trans (bind_ok (unlock_put free true))

theorem getLastN_zero : getLastN 0 m =
    .error (.runtime_error "the number should be larger than 1") m := rfl

/-- A request for more than there is touches nothing. -/
theorem getLastN_refused (free : m.m_indexMutex = false) (fits : ¬ m.Overflows) {number : Nat}
    (hlt : m.length < number) : getLastN number m =
      .error (.runtime_error "the required number is larger than actual buffer length") m := by
  rw [getLastN, if_neg (Nat.ne_zero_of_lt hlt)]
  refine (bind_ok (bufferLen_run free fits)).trans ?_
  rw [if_pos hlt]
  rfl

theorem getLastN_overflow (free : m.m_indexMutex = false) (exceeds : m.Overflows) {number : Nat}
    (hpos : 0 < number) : getLastN number m =
      .error (.undefined "signed overflow") (indexMutex.put true m) := by
  rw [getLastN, if_neg (Nat.ne_of_gt hpos)]
  exact bind_error (bufferLen_overflow free exceeds)

theorem getLastN_busy (held : m.m_indexMutex = true) {number : Nat} (hpos : 0 < number) :
    getLastN number m = .error indexBusy m := by
  rw [getLastN, if_neg (Nat.ne_of_gt hpos)]
  exact bind_error (bufferLen_busy held)

/-- A read returns exactly when the mutex is free and the values are there. -/
theorem getLastN_returns {number : Nat} (hpos : 0 < number) :
    (∃ values m', getLastN number m = .ok values m') ↔
      m.m_indexMutex = false ∧ m.Holds number := by
  cases free : m.m_indexMutex with
  | true => simp [getLastN_busy free hpos]
  | false =>
    by_cases exceeds : m.Overflows
    · simp [getLastN_overflow free exceeds hpos, Holds, exceeds]
    · by_cases hlen : number ≤ m.length
      · rw [getLastN_run free exceeds hpos hlen]
        by_cases h : DBL_MAX ∈ m.valuesFrom (m.startPosition number) number
        · simp [Holds, h]
        · simp [Holds, h, hpos, hlen, exceeds]
      · simp [getLastN_refused free exceeds (Nat.lt_of_not_le hlen), Holds, hlen]

/-- A read that returns leaves the array as it was. -/
theorem getLastN_same {number : Nat} {values : List Rat} {m' : CircularDoubleArray}
    (h : getLastN number m = .ok values m') :
    m' = m ∧ values = m.valuesFrom (m.startPosition number) number := by
  have hpos : 0 < number := by
    rcases Nat.eq_zero_or_pos number with hz | hpos
    · rw [getLastN, if_pos hz] at h
      cases h
    · exact hpos
  obtain ⟨free, _, fits, hlen, hnone⟩ := (getLastN_returns hpos).mp ⟨values, m', h⟩
  rw [getLastN_run free fits hpos hlen, if_neg hnone] at h
  cases h
  exact ⟨rfl, rfl⟩

end CircularDoubleArray

end Gorilla
