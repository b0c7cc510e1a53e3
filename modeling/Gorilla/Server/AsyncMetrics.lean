import Gorilla.Server.AsyncTasks

/-!
# The times of a client

The times of the tasks are put into the metrics under the number of their client. The status of a
client is the last two of them.
-/

namespace Gorilla

open HandLock Handler

namespace Span

def key (ana : Bool) (clientid : Int) : String :=
  (if ana then "default_ana" else "default_schedule") ++ toString clientid

def metricName (span : Span) : String := key span.ana span.clientid

theorem toString_inj {c c' : Int} (nonneg : 0 ≤ c) (nonneg' : 0 ≤ c')
    (same : (toString c).toList = (toString c').toList) : c = c' := by
  obtain ⟨n, rfl⟩ := Int.eq_ofNat_of_zero_le nonneg
  obtain ⟨n', rfl⟩ := Int.eq_ofNat_of_zero_le nonneg'
  have digits : (toString n).toList = (toString n').toList := same
  have read := congrArg (fun ds => Nat.ofDigitChars 10 ds 0) digits
  exact congrArg Int.ofNat (by simpa [Nat.toString_eq_ofList_toDigits] using read)

theorem key_inj {ana ana' : Bool} {c c' : Int} (nonneg : 0 ≤ c) (nonneg' : 0 ≤ c') :
    key ana c = key ana' c' ↔ ana = ana' ∧ c = c' := by
  constructor
  · intro same
    have chars := congrArg String.toList same
    unfold key at chars
    rw [String.toList_append, String.toList_append] at chars
    cases ana <;> cases ana'
    · exact ⟨rfl, toString_inj nonneg nonneg' (List.append_cancel_left chars)⟩
    · simp at chars
    · simp at chars
    · exact ⟨rfl, toString_inj nonneg nonneg' (List.append_cancel_left chars)⟩
  · rintro ⟨rfl, rfl⟩
    rfl

/-- What was put into the metrics. -/
def log (spans : List Span) : List (String × Rat) :=
  spans.map fun span => (span.metricName, span.timeSpan.val)

/-- The spans of one kind of a client. -/
def kind (client : String) (ana : Bool) (spans : List Span) : List Rat :=
  (spans.filter fun span => span.client = client ∧ span.ana = ana).map fun span => span.timeSpan.val

/-- The last span, or zero when there is none. -/
def last (client : String) (ana : Bool) (spans : List Span) : Rat :=
  (kind client ana spans).getLastD 0

end Span

namespace Span

variable {spans : List Span} {client : String} {c : Int}

/-- The metrics of a client are its own spans. -/
theorem valuesOf_log
    (own : ∀ span ∈ spans, 0 ≤ span.clientid ∧ (span.clientid = c ↔ span.client = client))
    (nonneg : 0 ≤ c) (ana : Bool) :
    MetricManager.valuesOf (key ana c) (log spans) = kind client ana spans := by
  induction spans with
  | nil => rfl
  | cons span spans ih =>
    obtain ⟨⟨pos, here⟩, own⟩ := List.forall_mem_cons.mp own
    have same : span.metricName = key ana c ↔ span.client = client ∧ span.ana = ana := by
      rw [metricName, key_inj pos nonneg, here]
      exact And.comm
    have rest := ih own
    unfold MetricManager.valuesOf log kind at rest ⊢
    rw [List.map_cons, List.filter_cons, List.filter_cons]
    by_cases mine : span.client = client ∧ span.ana = ana
    · rw [if_pos (decide_eq_true (same.mpr mine)), if_pos (decide_eq_true mine), List.map_cons,
        List.map_cons, rest]
    · rw [if_neg (by simpa using mt same.mp mine), if_neg (by simpa using mine), rest]

theorem log_append (span : Span) :
    log (spans ++ [span]) = log spans ++ [(span.metricName, span.timeSpan.val)] := by
  rw [log, List.map_append]
  rfl

end Span

namespace MetricManager

open CircularDoubleArray

variable {mm mm' : MetricManager} {puts : List (String × Rat)}

/-- What a read leaves of the metrics. -/
structure Unchanged (mm mm' : MetricManager) : Prop where
  same : mm.Same mm'
  running : mm'.m_runningThreads = mm.m_runningThreads

theorem Unchanged.refl (mm : MetricManager) : mm.Unchanged mm := ⟨⟨rfl, fun _ => rfl⟩, rfl⟩

theorem Unchanged.trans {mm'' : MetricManager} (h : mm.Unchanged mm') (h' : mm'.Unchanged mm'') :
    mm.Unchanged mm'' :=
  ⟨⟨h'.same.1.trans h.same.1, fun name => (h'.same.2 name).trans (h.same.2 name)⟩,
    h'.running.trans h.running⟩

/-- A call on an array counts no thread. -/
theorem running_onArray {α : Type} (mm : MetricManager) (name : String)
    (arrayPtr : CircularDoubleArray) (x : EStateM Stop CircularDoubleArray α) :
    (exit (mm.onArray name arrayPtr x)).m_runningThreads = mm.m_runningThreads := by
  unfold onArray
  split <;> rfl

theorem rtake_one {vs : List Rat} (put : vs ≠ []) : vs.rtake 1 = [vs.getLastD 0] := by
  induction vs using List.reverseRecOn with
  | nil => exact absurd rfl put
  | append_singleton vs v _ => rw [List.rtake_concat_succ, List.rtake_zero]; simp

/-- The slots of a server are enough for one value and not too many for any number of puts. -/
theorem fits_fifty (count : Nat) : Fits 50 count := fits_of_le (by decide) (by decide) count

/-- The arrays of a server: of the names with values, and of those that are about to get one. -/
structure Tracks (mm : MetricManager) (puts : List (String × Rat)) (opened : List String) :
    Prop where
  slots : mm.m_slot = 50
  found : ∀ name, (mm.m_metricsMap.lookup name).isSome ↔
    valuesOf name puts ≠ [] ∨ name ∈ opened
  records : ∀ name arrayPtr, mm.m_metricsMap.lookup name = some arrayPtr →
    arrayPtr.Records (sizeToInt mm.m_slot).toNat (valuesOf name puts)

theorem tracks_start : Tracks { m_slot := 50 } [] [] where
  slots := rfl
  found name := by simp [valuesOf]
  records _ _ found := by cases found

theorem Unchanged.tracks {opened : List String} (h : mm.Unchanged mm')
    (tracks : mm.Tracks puts opened) : mm'.Tracks puts opened where
  slots := h.same.1.trans tracks.slots
  found name := by
    rw [h.same.2]
    exact tracks.found name
  records name arrayPtr found := by
    rw [h.same.1]
    exact tracks.records name arrayPtr (h.same.2 name ▸ found)

namespace Tracks

variable {opened opened' : List String} {v : Rat} (h : mm.Tracks puts opened)

include h

theorem congr (same : ∀ name, valuesOf name puts = [] → (name ∈ opened ↔ name ∈ opened')) :
    mm.Tracks puts opened' := by
  refine ⟨h.slots, fun name => (h.found name).trans ?_, h.records⟩
  by_cases put : valuesOf name puts = []
  · rw [same name put]
  · exact iff_of_true (.inl put) (.inl put)

theorem slot_pos : 1 ≤ sizeToInt mm.m_slot := by
  rw [h.slots]
  decide

/-- The array of one name is put into the map. -/
theorem insert {puts' : List (String × Rat)} {name : String} {arrayPtr : CircularDoubleArray}
    (records : arrayPtr.Records (sizeToInt mm.m_slot).toNat (valuesOf name puts'))
    (values : ∀ other, other ≠ name → valuesOf other puts' = valuesOf other puts)
    (named : valuesOf name puts' ≠ [] ∨ name ∈ opened')
    (others : ∀ other, other ≠ name → (other ∈ opened' ↔ other ∈ opened)) :
    ({ mm with m_metricsMap := mm.m_metricsMap.insert name arrayPtr } : MetricManager).Tracks
      puts' opened' where
  slots := h.slots
  found other := by
    by_cases own : other = name
    · subst own
      refine iff_of_true ?_ named
      rw [AList.lookup_insert]
      rfl
    · rw [AList.lookup_insert_ne own, values other own, others other own]
      exact h.found other
  records other ptr found := by
    by_cases own : other = name
    · subst own
      rw [AList.lookup_insert] at found
      obtain rfl := Option.some.inj found
      exact records
    · rw [values other own]
      rw [AList.lookup_insert_ne own] at found
      exact h.records other ptr found

/-- After the first region there is an array of the name. -/
theorem findArray_run (name : String) : ∃ mm', findArray name mm = .ok () mm' ∧
    mm'.m_runningThreads = mm.m_runningThreads ∧ mm'.Tracks puts (name :: opened) := by
  have others : ∀ other, other ≠ name → (other ∈ name :: opened ↔ other ∈ opened) := by
    intro other ne
    rw [List.mem_cons, or_iff_right ne]
  cases found : mm.m_metricsMap.lookup name with
  | some arrayPtr =>
    refine ⟨mm, findArray_found found, rfl, h.slots, fun other => ?_, h.records⟩
    by_cases own : other = name
    · subst own
      exact iff_of_true (found ▸ rfl) (.inr List.mem_cons_self)
    · rw [others other own]
      exact h.found other
  | none =>
    obtain ⟨arrayPtr, created⟩ := new_run h.slot_pos
    have empty : valuesOf name puts = [] := by
      by_contra put
      have some_array := (h.found name).mpr (.inl put)
      rw [found] at some_array
      cases some_array
    refine ⟨_, findArray_first found created, rfl, ?_⟩
    refine h.insert ?_ (fun _ _ => rfl) (.inr List.mem_cons_self) others
    rw [empty]
    exact Records.new created

/-- The second region adds the value. -/
theorem addToArray_run {name : String} (mem : name ∈ opened) (value : v ≠ DBL_MAX) :
    ∃ mm', addToArray name v mm = .ok () mm' ∧ mm'.m_runningThreads = mm.m_runningThreads ∧
      mm'.Tracks (puts ++ [(name, v)]) opened := by
  obtain ⟨arrayPtr, found⟩ := Option.isSome_iff_exists.mp ((h.found name).mpr (.inr mem))
  have records := h.records name arrayPtr found
  refine ⟨_, (addToArray_found found).trans (onArray_added records.sound.free), rfl, ?_⟩
  refine h.insert ?_ (fun other ne => valuesOf_append_ne (Ne.symm ne)) (.inr mem) fun _ _ => .rfl
  rw [valuesOf_append_self]
  exact records.added value

/-- The last value of a name is read. -/
theorem getLast_run {name : String} (put : valuesOf name puts ≠ []) :
    ∃ mm', getLastNmetrics name 1 mm = .ok [(valuesOf name puts).getLastD 0] mm' ∧
      mm.Unchanged mm' := by
  obtain ⟨arrayPtr, found⟩ := Option.isSome_iff_exists.mp ((h.found name).mpr (.inl put))
  have some_values : 0 < (valuesOf name puts).length := List.length_pos_of_ne_nil put
  have recent := recent_of_records found (h.records name arrayPtr found)
    (by rw [h.slots]; exact fits_fifty _)
  obtain ⟨mm', run, same⟩ := recent.getLastNmetrics 1 (Nat.le_refl _) (by rw [h.slots]; omega)
  rw [rtake_one put] at run
  refine ⟨mm', run, same, ?_⟩
  have running := running_onArray mm name arrayPtr (CircularDoubleArray.getLastN 1)
  rw [← getLastNmetrics_found 1 found, run] at running
  exact running

/-- An array without a value has no last one. -/
theorem getLast_throws {name : String} (empty : valuesOf name puts = []) (mem : name ∈ opened) :
    ∃ what mm', getLastNmetrics name 1 mm = .error (.runtime_error what) mm' ∧
      mm.Unchanged mm' := by
  obtain ⟨arrayPtr, found⟩ := Option.isSome_iff_exists.mp ((h.found name).mpr (.inr mem))
  have recent := recent_of_records found (h.records name arrayPtr found)
    (by rw [h.slots]; exact fits_fifty _)
  rw [empty] at recent
  obtain ⟨what, mm', run, same⟩ := recent.throws 1 (.inr (by simp))
  refine ⟨what, mm', run, same, ?_⟩
  have running := running_onArray mm name arrayPtr (CircularDoubleArray.getLastN 1)
  rw [← getLastNmetrics_found 1 found, run] at running
  exact running

theorem metricExist_iff (name : String) :
    mm.metricExist name = true ↔ valuesOf name puts ≠ [] ∨ name ∈ opened :=
  h.found name

end Tracks

end MetricManager

namespace UniServer

variable {s : UniServer} {puts : List (String × Rat)} {opened : List String}

theorem lastMetric_run (tracks : s.m_metricManager.Tracks puts opened) (name : String)
    (ready : name ∈ opened → MetricManager.valuesOf name puts ≠ []) :
    ∃ mm', lastMetric name s = .ok ((MetricManager.valuesOf name puts).getLastD 0)
      { s with m_metricManager := mm' } ∧ s.m_metricManager.Unchanged mm' := by
  have exist := tracks.metricExist_iff name
  unfold lastMetric
  by_cases put : MetricManager.valuesOf name puts = []
  · have absent : s.m_metricManager.metricExist name = false := by
      rw [← Bool.not_eq_true, exist, not_or]
      exact ⟨not_not_intro put, fun mem => ready mem put⟩
    refine ⟨s.m_metricManager, ?_, .refl _⟩
    refine (bind_ok (get_run s)).trans ?_
    rw [absent, put]
    rfl
  · obtain ⟨mm', run, unchanged⟩ := tracks.getLast_run put
    refine ⟨mm', ?_, unchanged⟩
    refine (bind_ok (get_run s)).trans ?_
    rw [exist.mpr (.inl put)]
    have read : onMetricManager (MetricManager.getLastNmetrics name 1) s =
        .ok _ { s with m_metricManager := mm' } := zoom_ok run
    exact (bind_ok read).trans rfl

theorem lastMetric_throws (tracks : s.m_metricManager.Tracks puts opened) (name : String)
    (empty : MetricManager.valuesOf name puts = []) (mem : name ∈ opened) :
    ∃ what mm', lastMetric name s = .error (.runtime_error what)
      { s with m_metricManager := mm' } ∧ s.m_metricManager.Unchanged mm' := by
  obtain ⟨what, mm', run, unchanged⟩ := tracks.getLast_throws empty mem
  refine ⟨what, mm', ?_, unchanged⟩
  unfold lastMetric
  refine (bind_ok (get_run s)).trans ?_
  rw [(tracks.metricExist_iff name).mpr (.inr mem)]
  have read : onMetricManager (MetricManager.getLastNmetrics name 1) s =
      .error _ { s with m_metricManager := mm' } := zoom_error run
  exact bind_error read

variable {out : Outside} {spans : List Span} {c : Int}

/-- No array of the client is without its first value. -/
def Ready (opened : List String) (client : String) (c : Int) (spans : List Span) : Prop :=
  ∀ ana, Span.key ana c ∈ opened → Span.kind client ana spans ≠ []

/-- The status of a client that has a number. -/
theorem stageStatus_known (tracks : s.m_metricManager.Tracks (Span.log spans) opened)
    (known : s.clientStaging.m_clientAddrToID.lookup out.endpoint = some c) (pos : 1 ≤ c)
    (own : ∀ span ∈ spans, 0 ≤ span.clientid ∧ (span.clientid = c ↔ span.client = out.endpoint))
    (ready : Ready opened out.endpoint c spans) :
    ∃ mm', stageStatus out s = .ok [Span.last out.endpoint false spans,
        Span.last out.endpoint true spans, s.m_metricManager.m_runningThreads / 32]
      { s with m_metricManager := mm' } ∧ s.m_metricManager.Unchanged mm' := by
  have clientid : s.clientStaging.getIDFromClientAddr out.endpoint = c := by
    rw [ClientForStaging.getIDFromClientAddr, known, Option.getD_some]
  have values := fun ana => Span.valuesOf_log own (by omega) ana
  obtain ⟨mm1, schedule, first⟩ := lastMetric_run tracks (Span.key false c)
    (by rw [values]; exact ready false)
  rw [values false] at schedule
  have tracks1 : ({ s with m_metricManager := mm1 } : UniServer).m_metricManager.Tracks
      (Span.log spans) opened := first.tracks tracks
  obtain ⟨mm2, ana, second⟩ := lastMetric_run tracks1 (Span.key true c)
    (by rw [values]; exact ready true)
  rw [values true] at ana
  refine ⟨mm2, ?_, first.trans second⟩
  unfold stageStatus
  refine (bind_ok (get_run s)).trans ?_
  rw [clientid, if_neg (by omega)]
  refine (bind_ok schedule).trans ((bind_ok ana).trans ((bind_ok (get_run _)).trans ?_))
  rw [second.running, first.running]
  rfl

/-- The status of a client with an array that is still empty. -/
theorem stageStatus_throws (tracks : s.m_metricManager.Tracks (Span.log spans) opened)
    (known : s.clientStaging.m_clientAddrToID.lookup out.endpoint = some c) (pos : 1 ≤ c)
    (own : ∀ span ∈ spans, 0 ≤ span.clientid ∧ (span.clientid = c ↔ span.client = out.endpoint))
    (waits : ¬ Ready opened out.endpoint c spans) :
    ∃ what mm', stageStatus out s = .error (.runtime_error what)
      { s with m_metricManager := mm' } ∧ s.m_metricManager.Unchanged mm' := by
  have clientid : s.clientStaging.getIDFromClientAddr out.endpoint = c := by
    rw [ClientForStaging.getIDFromClientAddr, known, Option.getD_some]
  have values := fun ana => Span.valuesOf_log own (by omega) ana
  have begin_run : stageStatus out s = (lastMetric (Span.key false c) >>= fun schedule =>
      lastMetric (Span.key true c) >>= fun ana => get >>= fun s =>
        pure [schedule, ana, s.m_metricManager.m_runningThreads / 32]) s := by
    unfold stageStatus
    refine (bind_ok (get_run s)).trans ?_
    rw [clientid, if_neg (by omega)]
    rfl
  rw [begin_run]
  by_cases first_ready : Span.key false c ∈ opened → Span.kind out.endpoint false spans ≠ []
  · obtain ⟨mm1, schedule, first⟩ := lastMetric_run tracks (Span.key false c)
      (by rw [values]; exact first_ready)
    have tracks1 : ({ s with m_metricManager := mm1 } : UniServer).m_metricManager.Tracks
        (Span.log spans) opened := first.tracks tracks
    have second : Span.key true c ∈ opened ∧ Span.kind out.endpoint true spans = [] := by
      by_contra other
      refine waits fun ana => ?_
      cases ana with
      | false => exact first_ready
      | true => exact fun mem empty => other ⟨mem, empty⟩
    obtain ⟨what, mm2, ana, last⟩ := lastMetric_throws tracks1 (Span.key true c)
      (by rw [values]; exact second.2) second.1
    exact ⟨what, mm2, (bind_ok schedule).trans (bind_error ana), first.trans last⟩
  · push Not at first_ready
    obtain ⟨what, mm1, schedule, first⟩ := lastMetric_throws tracks (Span.key false c)
      (by rw [values]; exact first_ready.2) first_ready.1
    exact ⟨what, mm1, bind_error schedule, first⟩

theorem stageStatus_unknown {out : Outside}
    (unknown : s.clientStaging.m_clientAddrToID.lookup out.endpoint = none) :
    stageStatus out s = .ok [0, 0, 0] s := by
  have clientid : s.clientStaging.getIDFromClientAddr out.endpoint = -1 := by
    rw [ClientForStaging.getIDFromClientAddr, unknown, Option.getD_none]
  unfold stageStatus
  refine (bind_ok (get_run s)).trans ?_
  rw [clientid]
  rfl

end UniServer

end Gorilla
