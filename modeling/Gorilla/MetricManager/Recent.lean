import Gorilla.Lib.Ring
import Gorilla.Lib.Runs
import Gorilla.MetricManager.LastValues

/-!
# The recent values of a metric

Between the tail and the head an array holds the values it retains, oldest first. It retains as
many as there are slots but one.
-/

namespace Gorilla

open HandLock Ring Runs

namespace CircularDoubleArray

variable {m m' : CircularDoubleArray} {vs rest : List Rat} {v : Rat}

theorem valuesFrom_eq (p k : Nat) : m.valuesFrom p k = window m.slot m.m_slotNum p k := rfl

theorem length_lt (m : CircularDoubleArray) : m.length < m.m_slotNum :=
  gap_lt m.tail_lt m.head_lt

theorem head_eq (m : CircularDoubleArray) : m.m_head = (m.m_tail + m.length) % m.m_slotNum :=
  (add_gap m.tail_lt m.head_lt).symm

/-- The number of values is told by the two positions. -/
theorem length_eq {k : Nat} (hk : k < m.m_slotNum)
    (head : m.m_head = (m.m_tail + k) % m.m_slotNum) : m.length = k :=
  gap_eq m.tail_lt m.head_lt hk head.symm

/-- The values an array retains. -/
def contents (m : CircularDoubleArray) : List Rat := m.valuesFrom m.m_tail m.length

@[simp] theorem length_contents : m.contents.length = m.length := length_window

/-- The array is free, and every value it retains is one that was added. -/
structure Sound (m : CircularDoubleArray) : Prop where
  free : m.m_indexMutex = false
  held : DBL_MAX ∉ m.contents

theorem slot_setSlot (m : CircularDoubleArray) {i j : Nat} (hi : i < m.m_slotNum) :
    (m.setSlot i v).slot j = if i = j then v else m.slot j := by
  have hlen : i < m.m_circularArraybuffer.length := by rwa [m.length_buffer]
  by_cases own : i = j
  · subst own
    simp [slot, setSlot, List.getD_eq_getElem?_getD, List.getElem?_set_self hlen]
  · simp [slot, setSlot, List.getD_eq_getElem?_getD, List.getElem?_set_ne own, own]

/-- The new value stands behind the others. -/
theorem window_added : window (m.setSlot m.m_head v).slot m.m_slotNum m.m_tail (m.length + 1) =
    m.contents ++ [v] := by
  rw [window_succ, ← m.head_eq, slot_setSlot m m.head_lt, if_pos rfl]
  congr 1
  refine window_congr fun i hi => ?_
  have ne : m.m_head ≠ (m.m_tail + i) % m.m_slotNum := by
    rw [m.head_eq]
    exact (mod_ne hi (by have lt := m.length_lt; omega)).symm
  rw [slot_setSlot m m.head_lt, if_neg ne]

/-- The array once a value is added. -/
def added (m : CircularDoubleArray) (v : Rat) : CircularDoubleArray :=
  let moved := (m.setSlot m.m_head v).moveHead
  if moved.m_head = moved.m_tail then moved.moveTail else moved

theorem addElement_run (free : m.m_indexMutex = false) :
    addElement v m = .ok 0 (m.added v) := by
  rw [addElement, bind_ok (lock_free free)]
  let moved := (m.setSlot m.m_head v).moveHead
  have freed : indexMutex.put false moved = moved := Mutex.put_free free
  show (if moved.m_head = moved.m_tail then _ else _ : EStateM Stop CircularDoubleArray Int)
    (indexMutex.put true moved) = _
  by_cases full : moved.m_head = moved.m_tail
  · rw [if_pos full, added, if_pos full]
    have freedTail : indexMutex.put false moved.moveTail = moved.moveTail := Mutex.put_free free
    exact congrArg (EStateM.Result.ok 0) freedTail
  · rw [if_neg full, added, if_neg full]
    exact congrArg (EStateM.Result.ok 0) freed

/-- The move of the tail changes the tail alone. -/
theorem added_field {β : Type} (field : CircularDoubleArray → β)
    (kept : ∀ m : CircularDoubleArray, field m.moveTail = field m) :
    field (m.added v) = field (m.setSlot m.m_head v).moveHead := by
  unfold added
  dsimp only
  split
  · exact kept _
  · rfl

theorem head_added : (m.added v).m_head = (m.m_head + 1) % m.m_slotNum :=
  added_field CircularDoubleArray.m_head fun _ => rfl

theorem slotNum_added : (m.added v).m_slotNum = m.m_slotNum :=
  added_field CircularDoubleArray.m_slotNum fun _ => rfl

theorem free_added : (m.added v).m_indexMutex = m.m_indexMutex :=
  added_field CircularDoubleArray.m_indexMutex fun _ => rfl

theorem tail_added : (m.added v).m_tail = if (m.m_head + 1) % m.m_slotNum = m.m_tail then
    (m.m_tail + 1) % m.m_slotNum else m.m_tail := by
  unfold added
  by_cases full : (m.m_head + 1) % m.m_slotNum = m.m_tail
  · rw [if_pos full]
    have onto : (m.setSlot m.m_head v).moveHead.m_head =
      (m.setSlot m.m_head v).moveHead.m_tail := full
    simp only [if_pos onto]
    rfl
  · rw [if_neg full]
    have apart : ¬ (m.setSlot m.m_head v).moveHead.m_head =
      (m.setSlot m.m_head v).moveHead.m_tail := full
    simp only [if_neg apart]
    rfl

/-- The head catches the tail when all slots but one are taken. -/
theorem head_moves_onto_tail :
    (m.m_head + 1) % m.m_slotNum = m.m_tail ↔ m.length + 1 = m.m_slotNum :=
  next_eq_iff m.tail_lt m.head_lt

/-- An addition drops the oldest value when the others fill the array. -/
theorem contents_added :
    (m.added v).contents = (m.contents ++ [v]).rtake (m.m_slotNum - 1) := by
  have lt := m.length_lt
  have all := window_added (m := m) (v := v)
  rw [rtake_concat v (by rw [length_contents]; omega), length_contents]
  by_cases full : m.length + 1 = m.m_slotNum
  · have onto : (m.setSlot m.m_head v).moveHead.m_head =
        (m.setSlot m.m_head v).moveHead.m_tail := head_moves_onto_tail.mpr full
    have is : m.added v = (m.setSlot m.m_head v).moveHead.moveTail := if_pos onto
    have len : (m.setSlot m.m_head v).moveHead.moveTail.length = m.length := by
      refine length_eq lt ?_
      show (m.m_head + 1) % m.m_slotNum =
        ((m.m_tail + 1) % m.m_slotNum + m.length) % m.m_slotNum
      rw [Nat.mod_add_mod, m.head_eq, Nat.mod_add_mod]
      congr 1
      omega
    rw [if_neg (by omega), ← all, window_cons _ _ _ m.tail_lt, List.tail_cons, contents, is, len]
    rfl
  · have apart : ¬ (m.setSlot m.m_head v).moveHead.m_head =
        (m.setSlot m.m_head v).moveHead.m_tail := fun onto => full (head_moves_onto_tail.mp onto)
    have is : m.added v = (m.setSlot m.m_head v).moveHead := if_neg apart
    have len : (m.setSlot m.m_head v).moveHead.length = m.length + 1 := by
      refine length_eq (by show m.length + 1 < m.m_slotNum; omega) ?_
      show (m.m_head + 1) % m.m_slotNum = (m.m_tail + (m.length + 1)) % m.m_slotNum
      rw [m.head_eq, Nat.mod_add_mod, Nat.add_assoc]
    rw [if_pos (by omega), ← all, contents, is, len]
    rfl

theorem Sound.added (h : m.Sound) (value : v ≠ DBL_MAX) : (m.added v).Sound where
  free := free_added.trans h.free
  held := by
    rw [contents_added]
    intro mem
    rcases List.mem_append.mp (List.mem_of_mem_drop mem) with old | new
    · exact h.held old
    · exact value (List.mem_singleton.mp new).symm

/-- The array once the value at its tail is taken out. -/
def removed (m : CircularDoubleArray) : CircularDoubleArray :=
  (m.setSlot m.m_tail DBL_MAX).moveTail

theorem contents_cons (full : 0 < m.length) : m.contents = m.slot m.m_tail ::
    window m.slot m.m_slotNum ((m.m_tail + 1) % m.m_slotNum) (m.length - 1) := by
  have whole := window_cons m.slot m.m_slotNum (m.length - 1) m.tail_lt
  rwa [Nat.sub_add_cancel full] at whole

theorem removeElement_run (h : m.Sound) (full : 0 < m.length) :
    removeElement m = .ok 0 m.removed := by
  have apart : ¬ m.m_tail = m.m_head := by
    intro same
    rw [length, if_pos same.symm] at full
    exact Nat.lt_irrefl 0 full
  have value : ¬ m.slot m.m_tail = DBL_MAX := by
    intro marked
    have held := h.held
    rw [contents_cons full, marked] at held
    exact held (List.mem_cons_self ..)
  have freed : indexMutex.put false m.removed = m.removed := Mutex.put_free h.free
  rw [removeElement, bind_ok (lock_free h.free)]
  show (if m.m_tail = m.m_head then _ else _ : EStateM Stop CircularDoubleArray Int)
    (indexMutex.put true m) = _
  rw [if_neg apart]
  show (if m.slot m.m_tail = DBL_MAX then _ else _ : EStateM Stop CircularDoubleArray Int)
    (indexMutex.put true m) = _
  rw [if_neg value]
  exact congrArg (EStateM.Result.ok 0) freed

/-- A removal drops the oldest value. -/
theorem contents_removed (full : 0 < m.length) : m.removed.contents = m.contents.tail := by
  have lt := m.length_lt
  have len : m.removed.length = m.length - 1 := by
    refine length_eq (by show m.length - 1 < m.m_slotNum; omega) ?_
    show m.m_head = ((m.m_tail + 1) % m.m_slotNum + (m.length - 1)) % m.m_slotNum
    rw [Nat.mod_add_mod, m.head_eq, Nat.add_assoc, Nat.add_sub_cancel' full]
  rw [contents_cons full, List.tail_cons, contents, len]
  refine window_congr fun i hi => ?_
  show (m.setSlot m.m_tail DBL_MAX).slot (((m.m_tail + 1) % m.m_slotNum + i) % m.m_slotNum) = _
  have ne : m.m_tail ≠ ((m.m_tail + 1) % m.m_slotNum + i) % m.m_slotNum := by
    have apart : (m.m_tail + 0) % m.m_slotNum ≠ (m.m_tail + (1 + i)) % m.m_slotNum :=
      mod_ne (by omega) (by omega)
    rwa [Nat.add_zero, Nat.mod_eq_of_lt m.tail_lt, ← Nat.add_assoc, ← Nat.mod_add_mod] at apart
  rw [slot_setSlot m m.tail_lt, if_neg ne]
  rfl

theorem Sound.removed (h : m.Sound) (full : 0 < m.length) : m.removed.Sound where
  free := h.free
  held := by
    rw [contents_removed full]
    exact fun mem => h.held (List.mem_of_mem_tail mem)

/-- The last values of a window that is read from the tail on. -/
theorem valuesFrom_startPosition {number : Nat} (le : number ≤ m.length) :
    m.valuesFrom (m.startPosition number) number = m.contents.rtake number := by
  have lt := m.length_lt
  have start : m.startPosition number = (m.m_tail + (m.length - number)) % m.m_slotNum := by
    have turn : m.m_tail + m.length + m.m_slotNum - number =
        m.m_tail + (m.length - number) + m.m_slotNum := by omega
    have back : (m.m_head + m.m_slotNum - number) % m.m_slotNum =
        (m.m_tail + m.length + m.m_slotNum - number) % m.m_slotNum := by
      rw [Nat.add_sub_assoc (by omega), Nat.add_sub_assoc (by omega), m.head_eq, Nat.mod_add_mod]
    rw [startPosition, back, turn, Nat.add_mod_right]
  rw [contents, valuesFrom_eq, valuesFrom_eq, rtake_window le, start]

/-- A read returns the last values it is asked for. -/
theorem Sound.getLastN (h : m.Sound) (fits : ¬ m.Overflows) {number : Nat} (pos : 0 < number)
    (le : number ≤ m.length) :
    CircularDoubleArray.getLastN number m = .ok (m.contents.rtake number) m := by
  have held : DBL_MAX ∉ m.valuesFrom (m.startPosition number) number := by
    rw [valuesFrom_startPosition le]
    exact fun mem => h.held (List.mem_of_mem_drop mem)
  rw [getLastN_run h.free fits pos le, if_neg held, valuesFrom_startPosition le]

/-- The array of some slots after the values were added to it, and nothing was removed. -/
structure Records (m : CircularDoubleArray) (slotNum : Nat) (vs : List Rat) : Prop where
  sound : m.Sound
  slots : m.m_slotNum = slotNum
  recent : m.contents = vs.rtake (slotNum - 1)
  head : m.m_head = vs.length % slotNum
  tail : m.m_tail = if vs.length < slotNum then 0 else (vs.length + 1) % slotNum

theorem Records.new {slotNum : Int} (created : new slotNum = .ok m) :
    m.Records slotNum.toNat [] := by
  unfold CircularDoubleArray.new at created
  by_cases small : slotNum < 1
  · rw [dif_pos small] at created
    cases created
  · rw [dif_neg small] at created
    cases created
    have pos : 0 < slotNum.toNat := by omega
    exact {
      sound := { free := rfl, held := by simp [contents, length, valuesFrom] }
      slots := rfl
      recent := by simp [contents, length, valuesFrom]
      head := (Nat.zero_mod _).symm
      tail := (if_pos pos).symm }

theorem new_run {slotNum : Int} (pos : 1 ≤ slotNum) : ∃ m, new slotNum = .ok m := by
  unfold CircularDoubleArray.new
  rw [dif_neg (not_lt.mpr pos)]
  exact ⟨_, rfl⟩

theorem new_throws {slotNum : Int} (small : slotNum < 1) : new slotNum =
    .error (.runtime_error "the length of the circular array should larger than 1") := dif_pos small

theorem Records.added {slotNum : Nat} (h : m.Records slotNum vs) (value : v ≠ DBL_MAX) :
    (m.added v).Records slotNum (vs ++ [v]) where
  sound := h.sound.added value
  slots := slotNum_added.trans h.slots
  recent := by rw [contents_added, h.slots, h.recent, rtake_rtake_concat]
  head := by
    rw [head_added, h.slots, h.head, Nat.mod_add_mod, List.length_append, List.length_singleton]
  tail := by
    have pos : 0 < slotNum := h.slots ▸ m.slotNum_pos
    rw [tail_added, h.slots, h.head, h.tail, Nat.mod_add_mod, List.length_append,
      List.length_singleton]
    by_cases first : vs.length < slotNum
    · rw [if_pos first]
      by_cases full : vs.length + 1 < slotNum
      · rw [Nat.mod_eq_of_lt full, if_neg (Nat.succ_ne_zero _), if_pos full]
      · have last : vs.length + 1 = slotNum := by omega
        rw [last, Nat.mod_self, if_pos rfl, if_neg (Nat.lt_irrefl _), Nat.zero_add,
          Nat.add_mod_left]
    · rw [if_neg first, if_pos rfl, if_neg (by omega), Nat.mod_add_mod]

theorem Records.length {slotNum : Nat} (h : m.Records slotNum vs) :
    m.length = min vs.length (slotNum - 1) := by
  have kept := congrArg List.length h.recent
  rw [length_contents, List.rtake, List.length_drop] at kept
  omega

/-- The sum in `bufferLen` is too large for an array that has turned around. -/
def Turned (slotNum count : Nat) : Prop :=
  slotNum ≤ count ∧ count % slotNum + 1 < slotNum ∧ INT_MAX < slotNum + count % slotNum

theorem Records.overflows_iff {slotNum : Nat} (h : m.Records slotNum vs) :
    m.Overflows ↔ Turned slotNum vs.length := by
  have pos : 0 < slotNum := h.slots ▸ m.slotNum_pos
  have below := Nat.mod_lt vs.length pos
  unfold Overflows Turned
  rw [h.head, h.tail, h.slots]
  by_cases first : vs.length < slotNum
  · rw [if_pos first]
    omega
  · rw [if_neg first]
    have behind : vs.length % slotNum < (vs.length + 1) % slotNum ↔
        vs.length % slotNum + 1 < slotNum := by
      rw [← Nat.mod_add_mod]
      by_cases room : vs.length % slotNum + 1 < slotNum
      · rw [Nat.mod_eq_of_lt room]
        omega
      · have last : vs.length % slotNum + 1 = slotNum := by omega
        rw [last, Nat.mod_self]
        omega
    rw [behind]
    push_cast
    omega

end CircularDoubleArray

/-- The calls that write to an array. -/
inductive ArrayWrite
  | addElement (element : Rat)
  | removeElement

namespace ArrayWrite

/-- A call that throws ends the run. -/
def step : ArrayWrite → CircularDoubleArray → Except Stop CircularDoubleArray
  | addElement element, m =>
    match CircularDoubleArray.addElement element m with
    | .ok _ m' => .ok m'
    | .error e _ => .error e
  | removeElement, m =>
    match CircularDoubleArray.removeElement m with
    | .ok _ m' => .ok m'
    | .error e _ => .error e

/-- No value is the mark of an empty slot. -/
def Unmarked : ArrayWrite → CircularDoubleArray → Prop
  | addElement element, _ => element ≠ DBL_MAX
  | removeElement, _ => True

/-- A list that keeps the last `room` values. -/
def retain (room : Nat) (vs : List Rat) : ArrayWrite → List Rat
  | addElement element => (vs ++ [element]).rtake room
  | removeElement => vs.tail

open CircularDoubleArray

theorem removeElement_empty {m : CircularDoubleArray} (free : m.m_indexMutex = false)
    (empty : m.length = 0) : CircularDoubleArray.removeElement m =
      .error (.runtime_error "current array is empty") (indexMutex.put true m) := by
  have met : m.m_tail = m.m_head := by
    have head := m.head_eq
    rw [empty, Nat.add_zero, Nat.mod_eq_of_lt m.tail_lt] at head
    exact head.symm
  rw [CircularDoubleArray.removeElement, bind_ok (lock_free free)]
  show (if m.m_tail = m.m_head then _ else _ : EStateM Stop CircularDoubleArray Int)
    (indexMutex.put true m) = _
  rw [if_pos met]
  rfl

/-- The array that the calls lead to retains what the list does. -/
structure Refines (slotNum : Nat) (writes : List ArrayWrite) (m : CircularDoubleArray) : Prop where
  sound : m.Sound
  slots : m.m_slotNum = slotNum
  contents : m.contents = writes.foldl (retain (slotNum - 1)) []

theorem Refines.step {slotNum : Nat} {writes : List ArrayWrite} {m m' : CircularDoubleArray}
    {write : ArrayWrite} (h : Refines slotNum writes m) (unmarked : write.Unmarked m)
    (hstep : write.step m = .ok m') : Refines slotNum (writes ++ [write]) m' := by
  cases write with
  | addElement element =>
    rw [ArrayWrite.step, addElement_run h.sound.free] at hstep
    cases hstep
    refine ⟨h.sound.added unmarked, slotNum_added.trans h.slots, ?_⟩
    rw [List.foldl_append, ← h.contents, contents_added, h.slots]
    rfl
  | removeElement =>
    by_cases full : 0 < m.length
    · rw [ArrayWrite.step, removeElement_run h.sound full] at hstep
      cases hstep
      refine ⟨h.sound.removed full, h.slots, ?_⟩
      rw [List.foldl_append, ← h.contents, contents_removed full]
      rfl
    · rw [ArrayWrite.step, removeElement_empty h.sound.free (by omega)] at hstep
      cases hstep

theorem refines_run {slotNum : Int} {writes : List ArrayWrite} {first m : CircularDoubleArray}
    (created : new slotNum = .ok first)
    (run : Run (Meeting Unmarked (Steps step)) first writes m) :
    Refines slotNum.toNat writes m := by
  have records := Records.new created
  refine run.history ⟨records.sound, records.slots, ?_⟩ ?_
  · exact records.recent.trans (List.rtake_nil _)
  intro writes write t u _ h hstep
  exact h.step hstep.1 hstep.2

end ArrayWrite

/-- From an array with values a removal takes the oldest, and nothing else. -/
def CircularDoubleArray.RemovesOldest : Prop :=
  ∀ (slotNum : Int) (writes : List ArrayWrite) (first m : CircularDoubleArray),
    new slotNum = .ok first →
      Run (Meeting ArrayWrite.Unmarked (Steps ArrayWrite.step)) first writes m →
        m.contents = writes.foldl (ArrayWrite.retain (slotNum.toNat - 1)) [] ∧
          (m.contents ≠ [] → ∃ m', removeElement m = .ok 0 m' ∧ m'.contents = m.contents.tail)

theorem CircularDoubleArray.removesOldest : RemovesOldest := by
  intro slotNum writes first m created run
  have refines := ArrayWrite.refines_run created run
  refine ⟨refines.contents, fun held => ?_⟩
  have full : 0 < m.length := by
    rw [← length_contents]
    exact List.length_pos_iff.mpr held
  exact ⟨m.removed, removeElement_run refines.sound full, contents_removed full⟩

namespace MetricManager

open CircularDoubleArray

variable {mm mm' : MetricManager} {log puts : List (String × Rat)} {name : String} {v : Rat}

/-- The values put under a name. -/
def valuesOf (name : String) (log : List (String × Rat)) : List Rat :=
  (log.filter fun p => p.1 = name).map Prod.snd

theorem valuesOf_append_self : valuesOf name (log ++ [(name, v)]) = valuesOf name log ++ [v] := by
  simp [valuesOf]

theorem valuesOf_append_ne {other : String} (ne : name ≠ other) :
    valuesOf other (log ++ [(name, v)]) = valuesOf other log := by
  simp [valuesOf, ne]

/-- The array of a name, once a value was put under it. -/
def Keeps (mm : MetricManager) (log : List (String × Rat)) : Prop :=
  ∀ name, if valuesOf name log = [] then mm.m_metricsMap.lookup name = none
    else ∃ arrayPtr, mm.m_metricsMap.lookup name = some arrayPtr ∧
      arrayPtr.Records (sizeToInt mm.m_slot).toNat (valuesOf name log)

/-- The metrics of a log of puts. -/
def putAll (puts : List (String × Rat)) : EStateM Stop MetricManager Unit :=
  puts.forM fun p => putMetric p.1 p.2

theorem keeps_insert {arrayPtr : CircularDoubleArray} (h : mm.Keeps log)
    (records : arrayPtr.Records (sizeToInt mm.m_slot).toNat (valuesOf name log ++ [v])) :
    ({ mm with m_metricsMap := mm.m_metricsMap.insert name arrayPtr } : MetricManager).Keeps
      (log ++ [(name, v)]) := by
  intro other
  by_cases own : other = name
  · subst own
    rw [valuesOf_append_self, if_neg (by simp)]
    exact ⟨arrayPtr, AList.lookup_insert _, records⟩
  · rw [valuesOf_append_ne (Ne.symm own), AList.lookup_insert_ne own]
    exact h other

theorem onArray_added {arrayPtr : CircularDoubleArray} (free : arrayPtr.m_indexMutex = false) :
    mm.onArray name arrayPtr (do let _ ← addElement v) = .ok ()
      { mm with m_metricsMap := mm.m_metricsMap.insert name (arrayPtr.added v) } := by
  have run : (do let _ ← addElement v : EStateM Stop CircularDoubleArray Unit) arrayPtr =
      .ok () (arrayPtr.added v) := bind_ok (addElement_run free)
  rw [onArray, run]

theorem putMetric_first {arrayPtr : CircularDoubleArray}
    (absent : mm.m_metricsMap.lookup name = none)
    (created : CircularDoubleArray.new (sizeToInt mm.m_slot) = .ok arrayPtr)
    (free : arrayPtr.m_indexMutex = false) : putMetric name v mm = .ok ()
      { mm with m_metricsMap := mm.m_metricsMap.insert name (arrayPtr.added v) } := by
  rw [putMetric_eq, bind_ok (findArray_first absent created),
    addToArray_found (AList.lookup_insert _), onArray_added free, AList.insert_insert]

theorem putMetric_next {arrayPtr : CircularDoubleArray}
    (found : mm.m_metricsMap.lookup name = some arrayPtr)
    (free : arrayPtr.m_indexMutex = false) : putMetric name v mm = .ok ()
      { mm with m_metricsMap := mm.m_metricsMap.insert name (arrayPtr.added v) } := by
  rw [putMetric_eq, bind_ok (findArray_found found), addToArray_found found]
  exact onArray_added free

/-- A put adds to the array of its name, and to no other. -/
theorem putMetric_run (h : mm.Keeps log) (slots : 1 ≤ sizeToInt mm.m_slot) (value : v ≠ DBL_MAX) :
    ∃ mm', putMetric name v mm = .ok () mm' ∧ mm'.m_slot = mm.m_slot ∧
      mm'.Keeps (log ++ [(name, v)]) := by
  have kept := h name
  by_cases first : valuesOf name log = []
  · rw [if_pos first] at kept
    obtain ⟨arrayPtr, created⟩ := new_run slots
    have records : (arrayPtr.added v).Records (sizeToInt mm.m_slot).toNat
        (valuesOf name log ++ [v]) := by
      rw [first]
      exact (Records.new created).added value
    exact ⟨_, putMetric_first kept created (Records.new created).sound.free, rfl,
      keeps_insert h records⟩
  · rw [if_neg first] at kept
    obtain ⟨arrayPtr, found, records⟩ := kept
    exact ⟨_, putMetric_next found records.sound.free, rfl, keeps_insert h (records.added value)⟩

theorem putAll_run (slots : 1 ≤ sizeToInt mm.m_slot) (values : ∀ p ∈ puts, p.2 ≠ DBL_MAX)
    (h : mm.Keeps log) :
    ∃ mm', putAll puts mm = .ok () mm' ∧ mm'.m_slot = mm.m_slot ∧ mm'.Keeps (log ++ puts) := by
  induction puts generalizing mm log with
  | nil => exact ⟨mm, rfl, rfl, by rwa [List.append_nil]⟩
  | cons put puts ih =>
    have value := values put (List.mem_cons_self ..)
    obtain ⟨next, run, slot, kept⟩ := @putMetric_run mm log put.1 put.2 h slots value
    obtain ⟨mm', rest, slot', kept'⟩ := ih (slot ▸ slots)
      (fun p mem => values p (List.mem_cons_of_mem _ mem)) kept
    refine ⟨mm', (bind_ok run).trans rest, slot'.trans slot, ?_⟩
    rwa [List.append_assoc] at kept'

/-- The same slots and the same arrays, in whatever order. -/
def Same (mm mm' : MetricManager) : Prop :=
  mm'.m_slot = mm.m_slot ∧
    ∀ name, mm'.m_metricsMap.lookup name = mm.m_metricsMap.lookup name

theorem same_insert {arrayPtr : CircularDoubleArray}
    (found : mm.m_metricsMap.lookup name = some arrayPtr) : mm.Same
      { mm with m_metricsMap := mm.m_metricsMap.insert name arrayPtr } := by
  refine ⟨rfl, fun other => ?_⟩
  by_cases own : other = name
  · subst own
    exact (AList.lookup_insert _).trans found.symm
  · exact AList.lookup_insert_ne own

/-- The length and the reads of a name are those of its last values. A read returns what it is
asked for, and throws when that is nothing or more than there is. -/
structure Recent (mm : MetricManager) (name : String) (slotNum : Nat) (vs : List Rat) : Prop where
  getBufferLen : ∃ mm', getBufferLen name mm = .ok (min vs.length (slotNum - 1)) mm' ∧ mm.Same mm'
  getLastNmetrics : ∀ number, 1 ≤ number → number ≤ min vs.length (slotNum - 1) →
    ∃ mm', getLastNmetrics name number mm = .ok (vs.rtake number) mm' ∧ mm.Same mm'
  throws : ∀ number, number = 0 ∨ min vs.length (slotNum - 1) < number →
    ∃ what mm', MetricManager.getLastNmetrics name number mm = .error (.runtime_error what) mm' ∧
      mm.Same mm'

/-- The slots of a server keep as many values as asked for: their number is an `int` or larger
than the number of values, and `bufferLen` has no overflow. -/
def Fits (slotNum count : Nat) : Prop :=
  1 ≤ sizeToInt slotNum ∧ (sizeToInt slotNum = slotNum ∨ count < sizeToInt slotNum) ∧
    ¬ Turned (sizeToInt slotNum).toNat count

/-- What a call on the array of a name does to the manager. -/
theorem onArray_ok {α : Type} {arrayPtr arrayPtr' : CircularDoubleArray} {a : α}
    {x : EStateM Stop CircularDoubleArray α} (run : x arrayPtr = .ok a arrayPtr') :
    mm.onArray name arrayPtr x =
      .ok a { mm with m_metricsMap := mm.m_metricsMap.insert name arrayPtr' } := by
  rw [onArray, run]

theorem onArray_error {α : Type} {arrayPtr arrayPtr' : CircularDoubleArray} {e : Stop}
    {x : EStateM Stop CircularDoubleArray α} (run : x arrayPtr = .error e arrayPtr') :
    mm.onArray name arrayPtr x =
      .error e { mm with m_metricsMap := mm.m_metricsMap.insert name arrayPtr' } := by
  rw [onArray, run]

theorem Keeps.found (h : mm.Keeps log) (put : valuesOf name log ≠ []) :
    ∃ arrayPtr, mm.m_metricsMap.lookup name = some arrayPtr ∧
      arrayPtr.Records (sizeToInt mm.m_slot).toNat (valuesOf name log) := by
  have kept := h name
  rwa [if_neg put] at kept

theorem getBufferLen_found {arrayPtr : CircularDoubleArray}
    (found : mm.m_metricsMap.lookup name = some arrayPtr) :
    getBufferLen name mm = mm.onArray name arrayPtr CircularDoubleArray.bufferLen := by
  simp only [getBufferLen, found]

theorem getLastNmetrics_found {arrayPtr : CircularDoubleArray} (number : Nat)
    (found : mm.m_metricsMap.lookup name = some arrayPtr) : getLastNmetrics name number mm =
      mm.onArray name arrayPtr (CircularDoubleArray.getLastN number) := by
  simp only [getLastNmetrics, found]

/-- What was put last under a name is read again. -/
theorem recent_of_records {arrayPtr : CircularDoubleArray} {vs : List Rat}
    (found : mm.m_metricsMap.lookup name = some arrayPtr)
    (records : arrayPtr.Records (sizeToInt mm.m_slot).toNat vs) (fits : Fits mm.m_slot vs.length) :
    mm.Recent name mm.m_slot vs := by
  obtain ⟨pos, wide, straight⟩ := fits
  have exceeds : ¬ arrayPtr.Overflows := fun o => straight (records.overflows_iff.mp o)
  have len : arrayPtr.length = min vs.length (mm.m_slot - 1) := by
    have narrow := sizeToInt_le mm.m_slot
    rw [records.length]
    omega
  constructor
  · refine ⟨_, ?_, same_insert found⟩
    rw [getBufferLen_found found, ← len]
    exact onArray_ok (bufferLen_run records.sound.free exceeds)
  · intro number one le
    have read := records.sound.getLastN exceeds one (len ▸ le)
    rw [records.recent, rtake_rtake (by have held := records.length; omega)] at read
    refine ⟨_, ?_, same_insert found⟩
    rw [getLastNmetrics_found number found]
    exact onArray_ok read
  · rintro number (rfl | more)
    · exact ⟨_, _, (getLastNmetrics_found 0 found).trans (onArray_error getLastN_zero),
        same_insert found⟩
    · have refused := getLastN_refused records.sound.free exceeds (len ▸ more)
      exact ⟨_, _, (getLastNmetrics_found number found).trans (onArray_error refused),
        same_insert found⟩

theorem Keeps.recent (h : mm.Keeps log) (put : valuesOf name log ≠ [])
    (fits : Fits mm.m_slot (valuesOf name log).length) :
    mm.Recent name mm.m_slot (valuesOf name log) := by
  obtain ⟨arrayPtr, found, records⟩ := h.found put
  exact recent_of_records found records fits

/-- After the puts every name has its recent values. -/
def KeepsRecent (slotNum : Nat) (puts : List (String × Rat)) : Prop :=
  ∃ mm, putAll puts { m_slot := slotNum } = .ok () mm ∧
    ∀ name, valuesOf name puts ≠ [] → mm.Recent name slotNum (valuesOf name puts)

theorem keeps_nil {slotNum : Nat} : Keeps { m_slot := slotNum } [] := by
  intro name
  exact AList.lookup_empty name

theorem putAll_init {slotNum : Nat} (pos : 1 ≤ sizeToInt slotNum)
    (values : ∀ p ∈ puts, p.2 ≠ DBL_MAX) : ∃ mm, putAll puts { m_slot := slotNum } = .ok () mm ∧
      mm.m_slot = slotNum ∧ mm.Keeps puts :=
  @putAll_run { m_slot := slotNum } [] puts pos values keeps_nil

theorem putMetric_throws {e : Stop} (absent : mm.m_metricsMap.lookup name = none)
    (failed : CircularDoubleArray.new (sizeToInt mm.m_slot) = .error e) :
    putMetric name v mm = .error e mm := by
  rw [putMetric_eq]
  exact bind_error (findArray_throws absent failed)

/-- Without a slot the first put throws. -/
theorem putAll_throws (small : sizeToInt mm.m_slot < 1) (some_put : puts ≠ []) (h : mm.Keeps []) :
    ∃ e, putAll puts mm = .error e mm := by
  cases puts with
  | nil => exact absurd rfl some_put
  | cons put puts =>
    have thrown : putMetric put.1 put.2 mm = _ := putMetric_throws (h put.1) (new_throws small)
    exact ⟨_, bind_error thrown⟩

theorem ne_nil_of_valuesOf (put : valuesOf name puts ≠ []) : puts ≠ [] := by
  rintro rfl
  exact put rfl

theorem keepsRecent_iff {slotNum : Nat} (values : ∀ p ∈ puts, p.2 ≠ DBL_MAX) :
    KeepsRecent slotNum puts ↔
      ∀ name, valuesOf name puts ≠ [] → Fits slotNum (valuesOf name puts).length := by
  constructor
  · rintro ⟨mm, run, recent⟩ name put
    by_cases pos : 1 ≤ sizeToInt slotNum
    · obtain ⟨mm', run', slot, kept⟩ := putAll_init pos values
      cases run.symm.trans run'
      obtain ⟨arrayPtr, found, records⟩ := kept.found put
      rw [slot] at records
      obtain ⟨mm'', len, _⟩ := (recent name put).getBufferLen
      rw [getBufferLen_found found] at len
      by_cases exceeds : arrayPtr.Overflows
      · rw [onArray_error (bufferLen_overflow records.sound.free exceeds)] at len
        cases len
      · rw [onArray_ok (bufferLen_run records.sound.free exceeds)] at len
        have same := (EStateM.Result.ok.inj len).1
        have held := records.length
        have narrow := sizeToInt_le slotNum
        have turned : ¬ Turned (sizeToInt slotNum).toNat (valuesOf name puts).length :=
          fun t => exceeds (records.overflows_iff.mpr t)
        refine ⟨pos, ?_, turned⟩
        rw [held] at same
        omega
    · obtain ⟨e, thrown⟩ := @putAll_throws { m_slot := slotNum } puts (not_le.mp pos)
        (ne_nil_of_valuesOf put) keeps_nil
      rw [thrown] at run
      cases run
  · intro fits
    by_cases some_put : puts = []
    · subst some_put
      exact ⟨_, rfl, fun name put => absurd rfl put⟩
    · have pos : 1 ≤ sizeToInt slotNum := by
        obtain ⟨put, mem⟩ := List.exists_mem_of_ne_nil puts some_put
        refine (fits put.1 fun none => ?_).1
        have mem' : put.2 ∈ valuesOf put.1 puts :=
          List.mem_map_of_mem (List.mem_filter.mpr ⟨mem, by simp⟩)
        rw [none] at mem'
        cases mem'
      obtain ⟨mm, run, slot, kept⟩ := putAll_init pos values
      refine ⟨mm, run, fun name put => ?_⟩
      have recent := kept.recent put (slot ▸ fits name put)
      rwa [slot] at recent

/-- Up to `2^30` slots fit any number of values. -/
theorem fits_of_le {slotNum : Nat} (pos : 1 ≤ slotNum) (le : slotNum ≤ 2 ^ 30) (count : Nat) :
    Fits slotNum count := by
  have same : sizeToInt slotNum = slotNum := by
    unfold sizeToInt Int.bmod
    dsimp only
    split <;> omega
  have below := Nat.mod_lt count pos
  rw [Fits, same, Int.toNat_natCast, Turned, INT_MAX]
  omega

/-- Arrays drop their oldest value, and every name keeps its most recent ones exactly when the
slots fit the number of values put under it. -/
theorem recent_iff {slotNum : Nat} (values : ∀ p ∈ puts, p.2 ≠ DBL_MAX) :
    KeepsRecent slotNum puts ∧ RemovesOldest ↔
      ∀ name, valuesOf name puts ≠ [] → Fits slotNum (valuesOf name puts).length :=
  (and_iff_left removesOldest).trans (keepsRecent_iff values)

/-- Three slots keep the last two values of each name. -/
theorem three_slots : KeepsRecent 3 [("time", 1), ("size", 8), ("time", 2), ("time", 3)] ∧
    RemovesOldest := by
  exact (recent_iff (by decide +kernel)).mpr fun name _ => fits_of_le (by decide) (by decide) _

/-- An array of `2^32 + 2` slots has two, and keeps one value. -/
theorem slots_narrowed :
    (∃ mm mm', putAll [("time", 1), ("time", 2)] { m_slot := 2 ^ 32 + 2 } = .ok () mm ∧
      getBufferLen "time" mm = .ok 1 mm') ∧
        ¬ KeepsRecent (2 ^ 32 + 2) [("time", 1), ("time", 2)] := by
  have values : ∀ p ∈ [("time", (1 : Rat)), ("time", 2)], p.2 ≠ DBL_MAX := by decide +kernel
  have two : sizeToInt (2 ^ 32 + 2) = 2 := by decide +kernel
  have put : valuesOf "time" [("time", 1), ("time", 2)] = [1, 2] := by decide +kernel
  have pos : 1 ≤ sizeToInt (2 ^ 32 + 2) := by
    rw [two]
    decide
  have some_put : valuesOf "time" [("time", 1), ("time", 2)] ≠ [] := by
    rw [put]
    simp
  obtain ⟨mm, run, slot, kept⟩ := putAll_init pos values
  constructor
  · obtain ⟨arrayPtr, found, records⟩ := kept.found some_put
    rw [slot, two, put] at records
    have exceeds : ¬ arrayPtr.Overflows := by
      rw [records.overflows_iff, Turned]
      decide
    have len : bufferLen arrayPtr = .ok 1 arrayPtr := by
      rw [bufferLen_run records.sound.free exceeds, records.length]
      rfl
    exact ⟨mm, _, run, (getBufferLen_found found).trans (onArray_ok len)⟩
  · rw [keepsRecent_iff values]
    intro fits
    have wide := (fits "time" some_put).2.1
    rw [two, put] at wide
    simp at wide

end MetricManager

end Gorilla
