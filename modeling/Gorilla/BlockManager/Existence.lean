import Gorilla.BlockManager.Calls

/-!
# Which blocks exist

A block should exist from its first successful put to its erase. Every call that asks for a
handle makes one, also when the call then throws.
-/

namespace Gorilla

open HandLock Outcome Runs

/-- The manager, and for each id whether a put of it has succeeded since its last erase. -/
structure BlockRecord where
  manager : BlockManager
  stored : String → Bool := fun _ => false

namespace BlockRecord

open BlockManager

variable {s t : BlockRecord} {call : BlockCall}

/-- What a call that returned, or threw, adds to the record. -/
def record (call : BlockCall) (done : Bool) (stored : String → Bool) : String → Bool :=
  if call.isErase && done then Function.update stored call.blockID false
  else if call.isPut && done then Function.update stored call.blockID true
  else stored

def step (call : BlockCall) (s : BlockRecord) : Except Stop BlockRecord :=
  match call.outcome s.manager with
  | .ok (done, m) => .ok ⟨m, record call done s.stored⟩
  | .error e => .error e

theorem step_eq_ok : step call s = .ok t ↔
    ∃ done m, call.outcome s.manager = .ok (done, m) ∧ t = ⟨m, record call done s.stored⟩ := by
  unfold step
  cases call.outcome s.manager with
  | error e => simp
  | ok r => simp [eq_comm, Prod.ext_iff]

/-- The manager says that a block exists exactly when it was stored. -/
def Faithful (s : BlockRecord) : Prop :=
  ∀ id, s.manager.blockSummaryExist id = s.stored id ∧
    ∀ backend, backend ≠ BACKEND.FILE →
      s.manager.checkDataExistance id backend = .ok (s.stored id)

theorem faithful_iff : s.Faithful ↔ ∀ id, (s.manager.block id).isSome = s.stored id := by
  refine forall_congr' fun id => ⟨And.left, fun h => ⟨h, fun backend hne => ?_⟩⟩
  rw [checkDataExistance, if_neg hne]
  exact congrArg Except.ok h

/-- A call that makes the handle of an id is a put that can succeed. -/
def PutsWhatItOpens (call : BlockCall) (m : BlockManager) : Prop :=
  m.block call.blockID = none → ∀ handle, call.object m = some handle →
    match call with
    | .putBlock blockSummary _ _ =>
      ({ handle with m_blockSummary := blockSummary } : DataBlock).Storable m.files
    | .putArray blockSummary as backend _ => m.TakesArray blockSummary as backend
    | _ => False

theorem putBlock_done {m m' : BlockManager} {blockSummary : BlockSummary} {backend : Int}
    {src : DataPointer} {handle : DataBlock} {done : Bool}
    (h : m.asked blockSummary.m_blockid backend = some handle)
    (out : (BlockCall.putBlock blockSummary backend src).outcome m = .ok (done, m')) :
    done = true ↔
      ({ handle with m_blockSummary := blockSummary } : DataBlock).Storable m.files := by
  have outcome := putBlock_outcome h out
  have defined : ∀ w, ({ handle with m_blockSummary := blockSummary } : DataBlock).putData
      m.files src ≠ .error (.undefined w) := by
    intro w he
    rcases outcome with ⟨_, _, _, put, _⟩ | ⟨_, ⟨_, put⟩, _⟩ <;>
      cases put.symm.trans he
  rw [← DataBlock.putData_returns_iff defined]
  rcases outcome with ⟨hd, handle', files, put, _⟩ | ⟨hd, ⟨what, put⟩, _⟩
  · exact iff_of_true hd ⟨_, put⟩
  · refine iff_of_false (by simp [hd]) ?_
    rintro ⟨r, he⟩
    cases put.symm.trans he

theorem putArray_done {m m' : BlockManager} {blockSummary : BlockSummary} {as : ArraySummary}
    {backend : Int} {data : Buffer} {done : Bool}
    (out : (BlockCall.putArray blockSummary as backend data).outcome m = .ok (done, m')) :
    done = true ↔ m.TakesArray blockSummary as backend := by
  cases run : (BlockCall.putArray blockSummary as backend data).run m with
  | ok u n =>
    rw [BlockCall.outcome_of_ok run] at out
    cases out
    have returned : Returns (putArray blockSummary as backend data) m := ⟨u, m', run⟩
    exact iff_of_true rfl ((putArray_returnsIff returned.avoids).mp returned)
  | error e n =>
    obtain ⟨⟨what, rfl⟩, rfl, rfl⟩ := BlockCall.outcome_of_error run out
    have run' : putArray blockSummary as backend data m = .error (.runtime_error what) m' := run
    refine iff_of_false (by simp) fun takes => ?_
    have avoids : Avoids IsUndefined (putArray blockSummary as backend data) m := by
      intro e' n' he
      rw [run'] at he
      cases he
      exact id
    obtain ⟨u, n', he⟩ := (putArray_returnsIff avoids).mpr takes
    rw [run'] at he
    cases he

/-- What the record says of the id of a call that is no erase. -/
theorem record_self (hc : call.isErase = false) (done : Bool) (stored : String → Bool) :
    record call done stored call.blockID =
      (stored call.blockID || (call.isPut && done)) := by
  unfold record
  rw [hc, Bool.false_and, if_neg Bool.false_ne_true]
  by_cases h : (call.isPut && done) = true
  · rw [if_pos h, Function.update_self, h, Bool.or_true]
  · rw [if_neg h, Bool.eq_false_iff.mpr h, Bool.or_false]

theorem record_ne {id : String} (hne : id ≠ call.blockID) (done : Bool)
    (stored : String → Bool) : record call done stored id = stored id := by
  unfold record
  split
  · exact Function.update_of_ne hne _ _
  · split
    · exact Function.update_of_ne hne _ _
    · rfl

variable {m : BlockManager} {done : Bool}

/-- An erase takes its block out of the map, or throws and leaves it there. -/
theorem faithful_erase {blockID : String} (h : ∀ id, (s.manager.block id).isSome = s.stored id)
    (out : (BlockCall.eraseBlock blockID).outcome s.manager = .ok (done, m)) (id : String) :
    (m.block id).isSome = record (.eraseBlock blockID) done s.stored id := by
  rcases BlockCall.eraseBlock_outcome out with ⟨rfl, _, rfl⟩ | ⟨rfl, _, rfl⟩
  · rw [BlockCall.block_erased]
    by_cases hid : id = blockID
    · subst hid
      simp [record, BlockCall.isErase, BlockCall.blockID]
    · rw [if_neg hid, h id, record_ne hid]
  · rw [h id]
    simp [record, BlockCall.isErase, BlockCall.isPut]

/-- A call that opens nothing puts nothing. -/
theorem faithful_refused (h : ∀ id, (s.manager.block id).isSome = s.stored id)
    (hc : call.isErase = false) (ho : call.object s.manager = none)
    (out : call.outcome s.manager = .ok (done, m)) (id : String) :
    (m.block id).isSome = record call done s.stored id := by
  obtain ⟨rfl, refused⟩ := BlockCall.outcome_none ho hc out
  by_cases hid : id = call.blockID
  · subst hid
    rw [record_self hc, h]
    by_cases hp : call.isPut
    · simp [refused hp]
    · simp [hp]
  · rw [record_ne hid, h]

/-- The object that a call opens is in the map afterwards, so its id has to be put. -/
theorem faithful_opened_iff {handle : DataBlock}
    (h : ∀ id, (s.manager.block id).isSome = s.stored id) (hc : call.isErase = false)
    (ho : call.object s.manager = some handle) (out : call.outcome s.manager = .ok (done, m)) :
    (∀ id, (m.block id).isSome = record call done s.stored id) ↔
      (s.stored call.blockID || (call.isPut && done)) = true := by
  obtain ⟨present, others⟩ := BlockCall.outcome_some ho out
  constructor
  · intro hall
    rw [← record_self hc, ← hall, present]
  · intro hown id
    by_cases hid : id = call.blockID
    · subst hid
      rw [record_self hc, hown, present]
    · rw [record_ne hid, others id hid, h]

theorem puts_iff {handle : DataBlock} (hb : s.manager.block call.blockID = none)
    (ho : call.object s.manager = some handle) (out : call.outcome s.manager = .ok (done, m)) :
    (call.isPut && done) = true ↔ PutsWhatItOpens call s.manager := by
  cases call with
  | putBlock blockSummary backend src =>
    refine (putBlock_done ho out).trans ⟨fun hst _ handle' hh => ?_, fun hk => hk hb handle ho⟩
    rw [ho] at hh
    cases hh
    exact hst
  | putArray blockSummary as backend data =>
    exact (putArray_done out).trans ⟨fun ht _ _ _ => ht, fun hk => hk hb handle ho⟩
  | getBlock blockID backend =>
    exact iff_of_false (by simp [BlockCall.isPut]) fun hk => hk hb handle ho
  | getBlockSubregion blockID backend dims lb ub =>
    exact iff_of_false (by simp [BlockCall.isPut]) fun hk => hk hb handle ho
  | getArray blockName arrayName => cases ho
  | getBlockSummary blockID => cases ho
  | eraseBlock blockID => cases ho

/-- A call keeps the record faithful exactly when it puts what it opens. -/
theorem faithful_step_iff (h : s.Faithful) (hs : step call s = .ok t) :
    t.Faithful ↔ PutsWhatItOpens call s.manager := by
  obtain ⟨done, m, out, rfl⟩ := step_eq_ok.mp hs
  rw [faithful_iff] at h ⊢
  show (∀ id, (m.block id).isSome = record call done s.stored id) ↔ _
  cases hc : call.isErase with
  | true =>
    cases call with
    | eraseBlock blockID =>
      exact iff_of_true (faithful_erase h out) fun _ handle hh => by cases hh
    | _ => cases hc
  | false =>
    cases ho : call.object s.manager with
    | none =>
      refine iff_of_true (faithful_refused h hc ho out) fun _ handle hh => ?_
      rw [ho] at hh
      cases hh
    | some handle =>
      rw [faithful_opened_iff h hc ho out, ← h]
      cases hb : s.manager.block call.blockID with
      | some old =>
        refine iff_of_true rfl fun absent => ?_
        rw [hb] at absent
        cases absent
      | none =>
        rw [Option.isSome_none, Bool.false_or]
        exact puts_iff hb ho out

/-- The manager before any call, with whatever files are on disk. -/
def init (files : Files) : BlockRecord := { manager := { files := files } }

theorem faithful_init (files : Files) : (init files).Faithful :=
  faithful_iff.mpr fun _ => rfl

/-- The steps that leave a faithful record. -/
def StaysFaithful (call : BlockCall) (s : BlockRecord) : Prop :=
  ∀ t, step call s = .ok t → t.Faithful

theorem faithful_of_run {files : Files} {calls : List BlockCall}
    (run : Run (Meeting StaysFaithful (Steps step)) (init files) calls t) : t.Faithful :=
  run.invariant (faithful_init files) fun _ _ u _ hs => hs.1 u hs.2

/-- The runs in which existence stays faithful are those whose calls put what they open. -/
theorem faithful_run_iff {files : Files} {calls : List BlockCall} :
    Run (Meeting StaysFaithful (Steps step)) (init files) calls t ↔
      Run (Meeting (fun call s => PutsWhatItOpens call s.manager) (Steps step))
        (init files) calls t := by
  refine Run.meeting_iff fun _ call s u run hs => ?_
  have known := faithful_of_run run
  constructor
  · intro stays
    exact (faithful_step_iff known hs).mp (stays u hs)
  · intro puts u' hs'
    exact (faithful_step_iff known hs').mpr puts

/-- A read of a block that nobody put. -/
def phantom : BlockCall := .getBlockSubregion "density_0_0" BACKEND.MEM 1 ⟨0, 0, 0⟩ ⟨9, 0, 0⟩

theorem phantom_exists : ∃ t, Run (Steps step) (init {}) [phantom] t ∧
    t.manager.blockSummaryExist "density_0_0" = true ∧ t.stored "density_0_0" = false :=
  ⟨_, .of_runs rfl, rfl, rfl⟩

end BlockRecord

end Gorilla
