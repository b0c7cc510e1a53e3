import Gorilla.BlockManager.Calls
import Mathlib.Data.Fintype.Card
import Mathlib.Data.Fintype.EquivFin

/-!
# Arrays put at the same time

The calls that put the arrays of one block share its object and come in between each other.
-/

namespace Gorilla

open Runs

/-- How far a call of `putArray` has come. -/
inductive ArrayPhase
  | starting
  | testing
  | overwriting
  | appending
  | storing
  | finished
  | thrown (what : String)
  deriving DecidableEq, Repr

/-- The array summary of the call was appended. -/
def ArrayPhase.Appended (phase : ArrayPhase) : Prop := phase = .storing ∨ phase = .finished

instance (phase : ArrayPhase) : Decidable phase.Appended := inferInstanceAs (Decidable (_ ∨ _))

namespace BlockManager

/-- One access to the object that a handle points to. -/
def onHandle (blockID : String) (access : EStateM Stop DataBlock ArrayPhase) :
    EStateM Stop BlockManager ArrayPhase := fun m =>
  match m.DataBlockMap.lookup blockID with
  | none => .error (.undefined "handle of an erased block") m
  | some handle =>
    match access handle with
    | .error e handle => .error e (m.store blockID handle)
    | .ok next handle => .ok next (m.store blockID handle)

section Phases
variable (blockSummary : BlockSummary) (as : ArraySummary) (backend : Int) (dataPointer : Buffer)

def appendSummary : EStateM Stop DataBlock ArrayPhase := fun handle =>
  match handle.m_blockSummary.addArraySummary as handle.m_blockSummary with
  | .error e summary => .error e { handle with m_blockSummary := summary }
  | .ok _ summary => .ok .storing { handle with m_blockSummary := summary }

def storePointer : EStateM Stop DataBlock ArrayPhase := fun handle =>
  match handle.putArray as dataPointer with
  | .error e => .error e handle
  | .ok handle => .ok .finished handle

/-- What a call does next. Nothing is locked between two phases. -/
def arrayPhase : ArrayPhase → EStateM Stop BlockManager ArrayPhase
  | .starting => fun m =>
    match m.getBlockHandle blockSummary.m_blockid backend with
    | .error e => .error e m
    | .ok (_, m) => .ok .testing m
  | .testing => fun m =>
    match m.DataBlockMap.lookup blockSummary.m_blockid with
    | none => .error (.undefined "handle of an erased block") m
    | some handle =>
      .ok (if handle.m_blockSummary.m_blockid = "" then .overwriting else .appending) m
  | .overwriting =>
    onHandle blockSummary.m_blockid fun handle =>
      .ok .appending { handle with m_blockSummary := blockSummary }
  | .appending => onHandle blockSummary.m_blockid (appendSummary as)
  | .storing => onHandle blockSummary.m_blockid (storePointer as dataPointer)
  | .finished => return .finished
  | .thrown what => throw (.runtime_error what)

/-- The phases a call goes through when no other call comes in between. -/
def arrayPhases : Nat → ArrayPhase → EStateM Stop BlockManager ArrayPhase
  | 0, phase => return phase
  | n + 1, phase => do
    let next ← arrayPhase blockSummary as backend dataPointer phase
    arrayPhases n next

end Phases

section Uninterrupted
variable {m : BlockManager} {blockSummary : BlockSummary} {as : ArraySummary} {backend : Int}
  {dataPointer : Buffer} {handle : DataBlock}

theorem arrayPhases_of_ok {n : Nat} {phase next : ArrayPhase} {m' : BlockManager}
    (h : arrayPhase blockSummary as backend dataPointer phase m = .ok next m') :
    arrayPhases blockSummary as backend dataPointer (n + 1) phase m =
      arrayPhases blockSummary as backend dataPointer n next m' := HandLock.bind_ok h

theorem arrayPhases_of_error {n : Nat} {phase : ArrayPhase} {e : Stop} {m' : BlockManager}
    (h : arrayPhase blockSummary as backend dataPointer phase m = .error e m') :
    arrayPhases blockSummary as backend dataPointer (n + 1) phase m = .error e m' :=
  HandLock.bind_error h

theorem arrayPhases_finished (n : Nat) :
    arrayPhases blockSummary as backend dataPointer n .finished m = .ok .finished m := by
  induction n with
  | zero => rfl
  | succ n ih => exact (arrayPhases_of_ok rfl).trans ih

theorem onHandle_eq {blockID : String} (hb : m.block blockID = some handle)
    (access : EStateM Stop DataBlock ArrayPhase) :
    onHandle blockID access m =
      match access handle with
      | .error e handle => .error e (m.store blockID handle)
      | .ok next handle => .ok next (m.store blockID handle) := by
  rw [block] at hb
  simp only [onHandle, hb]

theorem block_store_self {blockID : String} :
    (m.store blockID handle).block blockID = some handle :=
  (block_store blockID).trans (if_pos rfl)

/-- The last two phases of a call, from the object they find. -/
theorem arrayPhases_appending (n : Nat) (hb : m.block blockSummary.m_blockid = some handle) :
    arrayPhases blockSummary as backend dataPointer (n + 2) .appending m =
      match handle.m_blockSummary.addArraySummary as handle.m_blockSummary with
      | .error e summary =>
        .error e (m.store blockSummary.m_blockid { handle with m_blockSummary := summary })
      | .ok _ summary =>
        let handle := { handle with m_blockSummary := summary }
        match handle.putArray as dataPointer with
        | .error e => .error e (m.store blockSummary.m_blockid handle)
        | .ok handle => .ok .finished (m.store blockSummary.m_blockid handle) := by
  have append : arrayPhase blockSummary as backend dataPointer .appending m = _ :=
    onHandle_eq hb (appendSummary as)
  cases hadd : handle.m_blockSummary.addArraySummary as handle.m_blockSummary with
  | error e summary =>
    simp only [appendSummary, hadd] at append
    exact arrayPhases_of_error append
  | ok u summary =>
    simp only [appendSummary, hadd] at append
    refine (arrayPhases_of_ok append).trans ?_
    have store : arrayPhase blockSummary as backend dataPointer .storing
        (m.store blockSummary.m_blockid { handle with m_blockSummary := summary }) = _ :=
      onHandle_eq block_store_self (storePointer as dataPointer)
    cases hput :
        ({ handle with m_blockSummary := summary } : DataBlock).putArray as dataPointer with
    | error e =>
      simp only [storePointer, hput, store_store] at store
      simp only [arrayPhases_of_error store, hput]
    | ok handle' =>
      simp only [storePointer, hput, store_store] at store
      simp only [arrayPhases_of_ok store, arrayPhases_finished, hput]

/-- Uninterrupted, the phases of a call are `putArray`. -/
theorem arrayPhases_putArray : arrayPhases blockSummary as backend dataPointer 5 .starting = (do
    putArray blockSummary as backend dataPointer
    return .finished) := by
  funext m
  cases found : m.getBlockHandle blockSummary.m_blockid backend with
  | error e =>
    have start : arrayPhase blockSummary as backend dataPointer .starting m = .error e m := by
      simp only [arrayPhase, found]
    have put : putArray blockSummary as backend dataPointer m = .error e m := by
      simp only [putArray, found]
    rw [arrayPhases_of_error start, HandLock.bind_error put]
  | ok r =>
    obtain ⟨handle, m₁⟩ := r
    have start : arrayPhase blockSummary as backend dataPointer .starting m = .ok .testing m₁ := by
      simp only [arrayPhase, found]
    obtain ⟨hid, hof, opened⟩ := getBlockHandle_eq_ok.mp found
    have hb : m₁.block blockSummary.m_blockid = some handle := by
      have held := block_opened (asked_eq_some.mpr ⟨hid, hof⟩) blockSummary.m_blockid
      rw [if_pos rfl] at held
      rw [opened]
      exact held
    have test : arrayPhase blockSummary as backend dataPointer .testing m₁ =
        .ok (if handle.m_blockSummary.m_blockid = "" then .overwriting else .appending) m₁ := by
      rw [block] at hb
      simp only [arrayPhase, hb]
    rw [arrayPhases_of_ok start, arrayPhases_of_ok test]
    by_cases empty : handle.m_blockSummary.m_blockid = ""
    · have overwrite : arrayPhase blockSummary as backend dataPointer .overwriting m₁ =
          .ok .appending (m₁.store blockSummary.m_blockid
            { handle with m_blockSummary := blockSummary }) :=
        onHandle_eq hb fun handle =>
          .ok .appending { handle with m_blockSummary := blockSummary }
      rw [if_pos empty, arrayPhases_of_ok overwrite, arrayPhases_appending 0 block_store_self]
      simp only [putArray, found, if_pos empty, store_store, bind, EStateM.bind, pure, EStateM.pure]
      cases blockSummary.addArraySummary as blockSummary with
      | error e summary => rfl
      | ok u summary =>
        dsimp only
        cases ({ handle with m_blockSummary := summary } : DataBlock).putArray as dataPointer
          <;> rfl
    · rw [if_neg empty, arrayPhases_appending 1 hb]
      simp only [putArray, found, if_neg empty, bind, EStateM.bind, pure, EStateM.pure]
      cases handle.m_blockSummary.addArraySummary as handle.m_blockSummary with
      | error e summary => rfl
      | ok u summary =>
        dsimp only
        cases ({ handle with m_blockSummary := summary } : DataBlock).putArray as dataPointer
          <;> rfl

end Uninterrupted

end BlockManager

/-- Calls that put the arrays of one block, each with a name of its own. The summaries they bring
list no array yet. -/
structure ArrayPuts (ι : Type) [Fintype ι] where
  blockID : String
  blockSummary : ι → BlockSummary
  as : ι → ArraySummary
  data : ι → Buffer
  named : blockID ≠ ""
  short : blockID.utf8ByteSize < STRLENLONG
  own : ∀ i, (blockSummary i).m_blockid = blockID
  explicit : ∀ i, (blockSummary i).m_backend = BACKEND.MEMVTKEXPLICIT
  bare : ∀ i, (blockSummary i).m_arrayList = []
  names : Function.Injective fun i => (as i).m_arrayName
  few : Fintype.card ι ≤ 9

/-- The block manager of a server and the calls that are handled on it. -/
structure ArrayService (ι : Type) where
  m_blockManager : BlockManager
  phase : ι → ArrayPhase := fun _ => .starting

theorem BlockSummary.addArraySummary_eq_ok {bs : BlockSummary} {as : ArraySummary}
    (fresh : bs.findArray as.m_arrayName = none) (room : bs.m_arrayListLen + 1 < ARRAYLENINBLOCK) :
    bs.addArraySummary as bs = .ok () { bs with m_arrayList := bs.m_arrayList ++ [as] } := by
  have inside : ¬ ARRAYLENINBLOCK ≤ bs.m_arrayListLen := by omega
  unfold BlockSummary.addArraySummary
  rw [fresh]
  simp only [Option.isSome_none, Bool.false_eq_true, if_false, if_neg inside,
    if_neg (Nat.not_le.mpr room)]
  rfl

namespace ArrayPuts
variable {ι : Type} [Fintype ι] [DecidableEq ι] (puts : ArrayPuts ι)

open BlockManager

/-- The next step of one call. An exception ends it. -/
def advance (i : ι) (s : ArrayService ι) : Except Stop (ArrayService ι) :=
  match arrayPhase (puts.blockSummary i) (puts.as i) (puts.blockSummary i).m_backend (puts.data i)
      (s.phase i) s.m_blockManager with
  | .ok next m => .ok ⟨m, Function.update s.phase i next⟩
  | .error (.runtime_error what) m => .ok ⟨m, Function.update s.phase i (.thrown what)⟩
  | .error e _ => .error e

/-- The summary lists every array once, and every array is found. -/
def Kept (m : BlockManager) : Prop :=
  ∀ i, (∃ handle, m.block puts.blockID = some handle ∧
      handle.m_blockSummary.m_arrayList.count (puts.as i) = 1) ∧
    m.getArray puts.blockID (puts.as i).m_arrayName = .ok (puts.as i, puts.data i)

/-- An overwrite finds no array in the summary it resets. -/
def FindsNone (i : ι) (s : ArrayService ι) : Prop :=
  s.phase i = .overwriting → ∀ handle, s.m_blockManager.block puts.blockID = some handle →
    handle.m_blockSummary.m_arrayList = []

/-- The object of the block, with the arrays that were stored and summaries that were appended. -/
structure Held (phase : ι → ArrayPhase) (handle : DataBlock)
    (m_arrayMap : List (ArraySummary × Buffer)) : Prop where
  storage : handle.storage = .VTKMemExplicitObj m_arrayMap
  stored : ∀ i, m_arrayMap.find? (fun e => e.1 == puts.as i) =
    if phase i = .finished then some (puts.as i, puts.data i) else none
  nodup : handle.m_blockSummary.m_arrayList.Nodup
  listed : ∀ a ∈ handle.m_blockSummary.m_arrayList, ∃ i, puts.as i = a ∧ (phase i).Appended
  calm : ∀ i what, phase i ≠ .thrown what

/-- Every summary that was appended is still listed. -/
def Intact (phase : ι → ArrayPhase) (handle : DataBlock) : Prop :=
  ∀ i, (phase i).Appended → puts.as i ∈ handle.m_blockSummary.m_arrayList

/-- What a step of a call does to the object. -/
inductive Move (i : ι) (handle : DataBlock) (m_arrayMap : List (ArraySummary × Buffer)) :
    ArrayPhase → ArrayPhase → DataBlock → List (ArraySummary × Buffer) → Prop
  | start : Move i handle m_arrayMap .starting .testing handle m_arrayMap
  | empty : Move i handle m_arrayMap .testing .overwriting handle m_arrayMap
  | filled : Move i handle m_arrayMap .testing .appending handle m_arrayMap
  | overwrite : Move i handle m_arrayMap .overwriting .appending
      { handle with m_blockSummary := puts.blockSummary i } m_arrayMap
  | append : Move i handle m_arrayMap .appending .storing
      { handle with
        m_blockSummary :=
          { handle.m_blockSummary with
            m_arrayList := handle.m_blockSummary.m_arrayList ++ [puts.as i] } } m_arrayMap
  | store : Move i handle m_arrayMap .storing .finished
      { handle with storage := .VTKMemExplicitObj (m_arrayMap ++ [(puts.as i, puts.data i)]) }
      (m_arrayMap ++ [(puts.as i, puts.data i)])
  | stay : Move i handle m_arrayMap .finished .finished handle m_arrayMap

variable {puts} {phase : ι → ArrayPhase} {handle handle' : DataBlock} {i : ι} {next : ArrayPhase}
  {m_arrayMap m_arrayMap' : List (ArraySummary × Buffer)}

omit [DecidableEq ι] in
theorem as_injective (puts : ArrayPuts ι) : Function.Injective puts.as :=
  fun _ _ h => puts.names (congrArg ArraySummary.m_arrayName h)

/-- A step that appends and stores nothing keeps what is known of the object. -/
theorem Held.quiet (held : puts.Held phase handle m_arrayMap) (before : ¬ (phase i).Appended)
    (after : ¬ next.Appended) (calm : ∀ what, next ≠ .thrown what) :
    puts.Held (Function.update phase i next) handle m_arrayMap where
  storage := held.storage
  stored j := by
    rw [held.stored]
    by_cases hj : j = i
    · subst hj
      rw [Function.update_self, if_neg fun h => before (.inr h), if_neg fun h => after (.inr h)]
    · rw [Function.update_of_ne hj]
  nodup := held.nodup
  listed a ha := by
    obtain ⟨j, rfl, appended⟩ := held.listed a ha
    have hj : j ≠ i := by
      rintro rfl
      exact before appended
    exact ⟨j, rfl, by rwa [Function.update_of_ne hj]⟩
  calm j what := by
    by_cases hj : j = i
    · subst hj
      rw [Function.update_self]
      exact calm what
    · rw [Function.update_of_ne hj]
      exact held.calm j what

omit [DecidableEq ι] in
/-- A summary that was not appended yet is not listed. -/
theorem Held.not_listed (held : puts.Held phase handle m_arrayMap) (before : ¬ (phase i).Appended) :
    ∀ a ∈ handle.m_blockSummary.m_arrayList, a.m_arrayName ≠ (puts.as i).m_arrayName := by
  intro a ha same
  obtain ⟨j, rfl, appended⟩ := held.listed a ha
  obtain rfl := puts.names same
  exact before appended

theorem Held.append (held : puts.Held phase handle m_arrayMap) (at_ : phase i = .appending) :
    puts.Held (Function.update phase i .storing)
      { handle with
        m_blockSummary :=
          { handle.m_blockSummary with
            m_arrayList := handle.m_blockSummary.m_arrayList ++ [puts.as i] } } m_arrayMap where
  storage := held.storage
  stored j := by
    rw [held.stored]
    by_cases hj : j = i
    · subst hj
      rw [Function.update_self, at_]
      rfl
    · rw [Function.update_of_ne hj]
  nodup := by
    refine List.nodup_append.mpr ⟨held.nodup, List.nodup_singleton _, fun a ha b hb => ?_⟩
    rw [List.mem_singleton.mp hb]
    rintro rfl
    exact held.not_listed (by rw [at_]; decide) _ ha rfl
  listed a ha := by
    rcases List.mem_append.mp ha with ha | ha
    · obtain ⟨j, rfl, appended⟩ := held.listed a ha
      have hj : j ≠ i := by
        rintro rfl
        rw [at_] at appended
        exact absurd appended (by decide)
      exact ⟨j, rfl, by rwa [Function.update_of_ne hj]⟩
    · refine ⟨i, (List.mem_singleton.mp ha).symm, ?_⟩
      rw [Function.update_self]
      exact .inl rfl
  calm j what := by
    by_cases hj : j = i
    · subst hj
      rw [Function.update_self]
      nofun
    · rw [Function.update_of_ne hj]
      exact held.calm j what

theorem Held.store (held : puts.Held phase handle m_arrayMap) (at_ : phase i = .storing) :
    puts.Held (Function.update phase i .finished)
      { handle with storage := .VTKMemExplicitObj (m_arrayMap ++ [(puts.as i, puts.data i)]) }
      (m_arrayMap ++ [(puts.as i, puts.data i)]) where
  storage := rfl
  stored j := by
    rw [List.find?_append, held.stored]
    by_cases hj : j = i
    · subst hj
      simp [at_]
    · have other : ¬ puts.as i = puts.as j := fun h => hj (puts.as_injective h).symm
      rw [Function.update_of_ne hj]
      simp [other]
  nodup := held.nodup
  listed a ha := by
    obtain ⟨j, rfl, appended⟩ := held.listed a ha
    refine ⟨j, rfl, ?_⟩
    by_cases hj : j = i
    · subst hj
      rw [Function.update_self]
      exact .inr rfl
    · rwa [Function.update_of_ne hj]
  calm j what := by
    by_cases hj : j = i
    · subst hj
      rw [Function.update_self]
      nofun
    · rw [Function.update_of_ne hj]
      exact held.calm j what

theorem Held.move (held : puts.Held phase handle m_arrayMap)
    (move : puts.Move i handle m_arrayMap (phase i) next handle' m_arrayMap') :
    puts.Held (Function.update phase i next) handle' m_arrayMap' := by
  generalize at_ : phase i = now at move
  have quiet : ∀ next : ArrayPhase, ¬ now.Appended → ¬ next.Appended →
      (∀ what, next ≠ .thrown what) →
      puts.Held (Function.update phase i next) handle m_arrayMap := by
    intro next before after calm
    exact held.quiet (by rwa [at_]) after calm
  cases move with
  | start => exact quiet .testing (by decide) (by decide) nofun
  | empty => exact quiet .overwriting (by decide) (by decide) nofun
  | filled => exact quiet .appending (by decide) (by decide) nofun
  | overwrite =>
    have kept := quiet .appending (by decide) (by decide) nofun
    exact ⟨kept.storage, kept.stored, by simp [puts.bare], by simp [puts.bare], kept.calm⟩
  | append => exact held.append at_
  | store => exact held.store at_
  | stay =>
    rw [← at_, Function.update_eq_self]
    exact held

/-- Summaries are lost by an overwrite that finds some, and by no other step. -/
theorem Held.intact_iff (held : puts.Held phase handle m_arrayMap)
    (move : puts.Move i handle m_arrayMap (phase i) next handle' m_arrayMap') :
    puts.Intact (Function.update phase i next) handle' ↔ puts.Intact phase handle ∧
      (phase i = .overwriting → handle.m_blockSummary.m_arrayList = []) := by
  generalize at_ : phase i = now at move
  have same : ∀ next : ArrayPhase, (next.Appended ↔ now.Appended) →
      ∀ j, (Function.update phase i next j).Appended ↔ (phase j).Appended := by
    intro next h j
    by_cases hj : j = i
    · subst hj
      rw [Function.update_self, at_, h]
    · rw [Function.update_of_ne hj]
  have quiet : ∀ next : ArrayPhase, (next.Appended ↔ now.Appended) → now ≠ .overwriting →
      (puts.Intact (Function.update phase i next) handle ↔ puts.Intact phase handle ∧
        (now = .overwriting → handle.m_blockSummary.m_arrayList = [])) := by
    intro next h other
    simp only [Intact, same next h]
    exact ⟨fun intact => ⟨intact, fun h => absurd h other⟩, And.left⟩
  cases move with
  | start => exact quiet _ (by decide) nofun
  | empty => exact quiet _ (by decide) nofun
  | filled => exact quiet _ (by decide) nofun
  | store => exact quiet _ (by decide) nofun
  | stay => exact quiet _ Iff.rfl nofun
  | overwrite =>
    simp only [Intact, same .appending (by decide), puts.bare, List.not_mem_nil,
      imp_false, forall_const]
    constructor
    · intro none
      refine ⟨fun j appended => absurd appended (none j), List.eq_nil_iff_forall_not_mem.mpr ?_⟩
      intro a ha
      obtain ⟨j, _, appended⟩ := held.listed a ha
      exact none j appended
    · rintro ⟨intact, empty⟩ j appended
      have := intact j appended
      rw [empty] at this
      cases this
  | append =>
    constructor
    · intro intact
      refine ⟨fun j appended => ?_, nofun⟩
      have hj : j ≠ i := by
        rintro rfl
        rw [at_] at appended
        exact absurd appended (by decide)
      have mem := intact j (by rwa [Function.update_of_ne hj])
      refine (List.mem_append.mp mem).resolve_right fun own => hj ?_
      exact puts.as_injective (List.mem_singleton.mp own)
    · rintro ⟨intact, _⟩ j appended
      by_cases hj : j = i
      · subst hj
        exact List.mem_append_right _ (List.mem_singleton_self _)
      · rw [Function.update_of_ne hj] at appended
        exact List.mem_append_left _ (intact j appended)

theorem Held.room (held : puts.Held phase handle m_arrayMap) (before : ¬ (phase i).Appended) :
    handle.m_blockSummary.m_arrayListLen + 1 < ARRAYLENINBLOCK := by
  have sub : handle.m_blockSummary.m_arrayList.toFinset ⊆
      (Finset.univ.erase i).image puts.as := by
    intro a ha
    obtain ⟨j, rfl, appended⟩ := held.listed a (List.mem_toFinset.mp ha)
    refine Finset.mem_image_of_mem _ (Finset.mem_erase.mpr ⟨?_, Finset.mem_univ j⟩)
    rintro rfl
    exact before appended
  have len : handle.m_blockSummary.m_arrayListLen ≤ (Finset.univ.erase i).card := by
    rw [BlockSummary.m_arrayListLen, ← List.toFinset_card_of_nodup held.nodup]
    exact (Finset.card_le_card sub).trans Finset.card_image_le
  have one : (Finset.univ.erase i).card = Fintype.card ι - 1 :=
    Finset.card_erase_of_mem (Finset.mem_univ i)
  have few := puts.few
  show handle.m_blockSummary.m_arrayListLen + 1 < 10
  omega

omit [DecidableEq ι] in
theorem Held.fresh (held : puts.Held phase handle m_arrayMap) (before : ¬ (phase i).Appended) :
    handle.m_blockSummary.findArray (puts.as i).m_arrayName = none := by
  rw [BlockSummary.findArray, List.find?_eq_none]
  intro a ha
  rw [beq_iff_eq]
  exact held.not_listed before a ha

/-- A call is never stopped, and its step is one of the moves. -/
theorem arrayPhase_run {m : BlockManager} (held : puts.Held phase handle m_arrayMap)
    (asked : m.asked puts.blockID BACKEND.MEMVTKEXPLICIT = some handle)
    (present : ∀ i, phase i ≠ .starting → m.block puts.blockID = some handle) (i : ι) :
    ∃ next m' handle' m_arrayMap', arrayPhase (puts.blockSummary i) (puts.as i)
        (puts.blockSummary i).m_backend (puts.data i) (phase i) m = .ok next m' ∧
      puts.Move i handle m_arrayMap (phase i) next handle' m_arrayMap' ∧
        m'.block puts.blockID = some handle' := by
  have there : phase i ≠ .starting → m.block (puts.blockSummary i).m_blockid = some handle := by
    rw [puts.own]
    exact present i
  rw [puts.explicit, ← puts.own i] at *
  generalize at_ : phase i = now at *
  cases now with
  | starting =>
    refine ⟨.testing, _, handle, m_arrayMap, ?_, .start, (block_opened asked _).trans (if_pos rfl)⟩
    simp only [arrayPhase, getBlockHandle_asked asked]
  | testing =>
    have hb := there (by simp)
    have test : arrayPhase (puts.blockSummary i) (puts.as i) BACKEND.MEMVTKEXPLICIT (puts.data i)
        .testing m =
        .ok (if handle.m_blockSummary.m_blockid = "" then .overwriting else .appending) m := by
      rw [block] at hb
      simp only [arrayPhase, hb]
    by_cases empty : handle.m_blockSummary.m_blockid = ""
    · rw [if_pos empty] at test
      exact ⟨_, _, _, _, test, .empty, hb⟩
    · rw [if_neg empty] at test
      exact ⟨_, _, _, _, test, .filled, hb⟩
  | overwriting =>
    exact ⟨_, _, _, _, onHandle_eq (there (by simp)) fun handle =>
      .ok .appending { handle with m_blockSummary := puts.blockSummary i }, .overwrite,
      block_store_self⟩
  | appending =>
    have before : ¬ (phase i).Appended := by
      rw [at_]
      decide
    have added := BlockSummary.addArraySummary_eq_ok (held.fresh before) (held.room before)
    have run := onHandle_eq (there (by simp)) (appendSummary (puts.as i))
    simp only [appendSummary, added] at run
    exact ⟨_, _, _, _, run, .append, block_store_self⟩
  | storing =>
    have absent := held.stored i
    rw [at_, if_neg (by decide)] at absent
    have put : handle.putArray (puts.as i) (puts.data i) = .ok
        { handle with
          storage := .VTKMemExplicitObj (m_arrayMap ++ [(puts.as i, puts.data i)]) } := by
      simp only [DataBlock.putArray, held.storage, absent]
      rfl
    have run := onHandle_eq (there (by simp)) (storePointer (puts.as i) (puts.data i))
    simp only [storePointer, put] at run
    exact ⟨_, _, _, _, run, .store, block_store_self⟩
  | finished => exact ⟨_, _, _, _, rfl, .stay, there (by simp)⟩
  | thrown what => exact absurd at_ (held.calm i what)

/-- What holds of the block in every interleaving. -/
structure Inv (puts : ArrayPuts ι) (s : ArrayService ι) (handle : DataBlock)
    (m_arrayMap : List (ArraySummary × Buffer)) : Prop where
  held : puts.Held s.phase handle m_arrayMap
  asked : s.m_blockManager.asked puts.blockID BACKEND.MEMVTKEXPLICIT = some handle
  present : ∀ i, s.phase i ≠ .starting → s.m_blockManager.block puts.blockID = some handle

variable {s t : ArrayService ι}

theorem Inv.advance_run (inv : puts.Inv s handle m_arrayMap) (i : ι) :
    ∃ next m handle' m_arrayMap', puts.advance i s = .ok ⟨m, Function.update s.phase i next⟩ ∧
      puts.Move i handle m_arrayMap (s.phase i) next handle' m_arrayMap' ∧
        puts.Inv ⟨m, Function.update s.phase i next⟩ handle' m_arrayMap' := by
  obtain ⟨next, m, handle', m_arrayMap', run, move, hb⟩ :=
    arrayPhase_run inv.held inv.asked inv.present i
  exact ⟨next, m, handle', m_arrayMap', by simp only [advance, run], move,
    inv.held.move move, asked_of_block puts.named hb _, fun _ _ => hb⟩

/-- A state that the calls can reach. -/
def Sound (puts : ArrayPuts ι) (s : ArrayService ι) : Prop :=
  ∃ handle m_arrayMap, puts.Inv s handle m_arrayMap

/-- No call is ever stopped by the others. -/
theorem advance_total (sound : puts.Sound s) (i : ι) :
    ∃ t, puts.advance i s = .ok t := by
  obtain ⟨handle, m_arrayMap, inv⟩ := sound
  obtain ⟨next, m, _, _, run, _⟩ := inv.advance_run i
  exact ⟨_, run⟩

theorem sound_advance (sound : puts.Sound s) (hs : puts.advance i s = .ok t) : puts.Sound t := by
  obtain ⟨handle, m_arrayMap, inv⟩ := sound
  obtain ⟨next, m, handle', m_arrayMap', run, _, inv'⟩ := inv.advance_run i
  cases hs.symm.trans run
  exact ⟨handle', m_arrayMap', inv'⟩

omit [DecidableEq ι] in
theorem sound_init {m : BlockManager} (fresh : m.block puts.blockID = none) :
    puts.Sound ⟨m, fun _ => .starting⟩ := by
  refine ⟨{ m_blockid := puts.blockID, storage := .VTKMemExplicitObj [] }, [], ?_, ?_, nofun⟩
  · exact ⟨rfl, fun _ => rfl, List.nodup_nil, by simp, fun _ _ => nofun⟩
  · refine asked_eq_some.mpr ⟨puts.named, ?_⟩
    rw [block] at fresh
    simp only [handleOf, fresh, newHandle, if_neg (Nat.not_le.mpr puts.short)]
    rfl

/-- The summaries that were appended are all listed. -/
def IntactAt (puts : ArrayPuts ι) (s : ArrayService ι) : Prop :=
  ∃ handle m_arrayMap, puts.Inv s handle m_arrayMap ∧ puts.Intact s.phase handle

omit [DecidableEq ι] in
theorem Inv.handle_eq (inv : puts.Inv s handle m_arrayMap) (inv' : puts.Inv s handle' m_arrayMap') :
    handle = handle' := Option.some.inj (inv.asked.symm.trans inv'.asked)

omit [DecidableEq ι] in
theorem Inv.intactAt (inv : puts.Inv s handle m_arrayMap) :
    puts.IntactAt s ↔ puts.Intact s.phase handle := by
  constructor
  · rintro ⟨handle', m_arrayMap', inv', intact⟩
    rwa [inv.handle_eq inv']
  · exact fun intact => ⟨handle, m_arrayMap, inv, intact⟩

omit [DecidableEq ι] in
theorem Inv.findsNone (inv : puts.Inv s handle m_arrayMap) :
    puts.FindsNone i s ↔
      (s.phase i = .overwriting → handle.m_blockSummary.m_arrayList = []) := by
  constructor
  · intro none at_
    exact none at_ handle (inv.present i (by rw [at_]; nofun))
  · intro none at_ handle' hb
    rw [inv.present i (by rw [at_]; nofun)] at hb
    cases hb
    exact none at_

theorem intactAt_advance (sound : puts.Sound s) (hs : puts.advance i s = .ok t) :
    puts.IntactAt t ↔ puts.IntactAt s ∧ puts.FindsNone i s := by
  obtain ⟨handle, m_arrayMap, inv⟩ := sound
  obtain ⟨next, m, handle', m_arrayMap', run, move, inv'⟩ := inv.advance_run i
  cases hs.symm.trans run
  rw [inv'.intactAt, inv.intactAt, inv.findsNone]
  exact inv.held.intact_iff move

omit [DecidableEq ι] in
/-- A listed summary is found by its name, and a stored array by its summary. -/
theorem Held.getArray (held : puts.Held phase handle m_arrayMap) {m : BlockManager}
    (hb : m.block puts.blockID = some handle) (done : phase i = .finished)
    (mem : puts.as i ∈ handle.m_blockSummary.m_arrayList) :
    m.getArray puts.blockID (puts.as i).m_arrayName = .ok (puts.as i, puts.data i) := by
  have found : handle.m_blockSummary.findArray (puts.as i).m_arrayName = some (puts.as i) := by
    rw [BlockSummary.findArray]
    cases hf : handle.m_blockSummary.m_arrayList.find? fun a =>
        a.m_arrayName == (puts.as i).m_arrayName with
    | none =>
      have := List.find?_eq_none.mp hf _ mem
      simp at this
    | some a =>
      obtain ⟨j, rfl, _⟩ := held.listed a (List.mem_of_find?_eq_some hf)
      have same := List.find?_some hf
      rw [beq_iff_eq] at same
      rw [puts.names same]
  have stored := held.stored i
  rw [if_pos done] at stored
  have own : handle.getArray (puts.as i) = .ok (puts.data i) := by
    simp only [DataBlock.getArray, held.storage, stored]
  rw [block] at hb
  simp only [BlockManager.getArray, hb, BlockSummary.getArraySummary, found, if_neg puts.named]
  show (do return (puts.as i, ← handle.getArray (puts.as i)) : Except Stop _) = _
  rw [own]
  rfl

omit [DecidableEq ι] in
theorem Inv.kept_iff (inv : puts.Inv s handle m_arrayMap) (done : ∀ i, s.phase i = .finished) :
    puts.Kept s.m_blockManager ↔ puts.IntactAt s := by
  rw [inv.intactAt]
  constructor
  · intro kept i _
    obtain ⟨⟨handle', hb, once⟩, _⟩ := kept i
    rw [inv.present i (by rw [done i]; nofun)] at hb
    cases hb
    exact List.count_pos_iff.mp (by rw [once]; exact Nat.one_pos)
  · intro intact i
    have hb := inv.present i (by rw [done i]; nofun)
    have mem := intact i (.inr (done i))
    exact ⟨⟨handle, hb, List.count_eq_one_of_mem inv.held.nodup mem⟩,
      inv.held.getArray hb (done i) mem⟩

/-- The call returned or threw. -/
def Ended (phase : ArrayPhase) : Prop := phase = .finished ∨ ∃ what, phase = .thrown what

/-- Once every call has ended, nothing is lost exactly when no call reset a summary that listed an
array already. -/
theorem kept_iff_meeting (puts : ArrayPuts ι) {m : BlockManager}
    (fresh : m.block puts.blockID = none) {is : List ι}
    (run : Run (Steps puts.advance) ⟨m, fun _ => .starting⟩ is s)
    (done : ∀ i, Ended (s.phase i)) :
    puts.Kept s.m_blockManager ↔
      Run (Meeting puts.FindsNone (Steps puts.advance)) ⟨m, fun _ => .starting⟩ is s := by
  have start := sound_init fresh
  have keeps : ∀ (i : ι) (s t : ArrayService ι), puts.Sound s → puts.advance i s = .ok t →
      puts.Sound t := fun _ _ _ sound hs => sound_advance sound hs
  obtain ⟨handle, m_arrayMap, inv⟩ := run.invariant start keeps
  have finished : ∀ i, s.phase i = .finished := fun i =>
    (done i).resolve_right fun ⟨what, thrown⟩ => inv.held.calm i what thrown
  rw [inv.kept_iff finished]
  have first : puts.IntactAt ⟨m, fun _ => .starting⟩ := by
    obtain ⟨handle, m_arrayMap, inv⟩ := start
    exact inv.intactAt.mpr fun i appended =>
      absurd (show ArrayPhase.starting.Appended from appended) (by decide)
  exact (run.meeting_iff_recorded start keeps first fun _ _ _ sound hs =>
    intactAt_advance sound hs).symm

section TwoArrays

/-- The points and the normals of one mesh. -/
def pointsAndNormals : ArrayPuts Bool where
  blockID := "mesh_0_0"
  blockSummary _ :=
    { m_dataType := DATATYPE_VTKEXPLICIT
      m_blockid := "mesh_0_0"
      m_backend := BACKEND.MEMVTKEXPLICIT }
  as i := { m_arrayName := if i then "normals" else "points", m_elemSize := 4, m_elemNum := 3 }
  data i := [some (if i then 1 else 0)]
  named := by decide
  short := by decide
  own _ := rfl
  explicit _ := rfl
  bare _ := rfl
  names := by decide
  few := by decide

/-- The second call starts in the middle of the first and tests the summary after it was set. -/
def inTurn : List Bool :=
  [false, false, true, false, true, false, true, true, false]

theorem inTurn_meets : ∃ s,
    Run (Meeting pointsAndNormals.FindsNone (Steps pointsAndNormals.advance))
      ⟨{}, fun _ => .starting⟩ inTurn s := by
  obtain ⟨s, hs, done, kept⟩ : ∃ s, runs pointsAndNormals.advance inTurn ⟨{}, fun _ => .starting⟩ =
      .ok s ∧ (∀ i, s.phase i = .finished) ∧ pointsAndNormals.Kept s.m_blockManager := by
    refine ⟨_, rfl, fun i => ?_, fun i => ?_⟩
    · cases i <;> rfl
    · cases i <;> exact ⟨⟨_, rfl, rfl⟩, rfl⟩
  exact ⟨s, (kept_iff_meeting pointsAndNormals rfl (.of_runs hs) fun i => .inl (done i)).mp kept⟩

/-- Both calls find the summary empty, and the first one sets it after the second appended. -/
def bothEmpty : List Bool :=
  [false, false, true, true, true, true, false, false, true, false]

theorem normals_lost : ∃ s,
    Run (Steps pointsAndNormals.advance) ⟨{}, fun _ => .starting⟩ bothEmpty s ∧
      (∀ i, s.phase i = .finished) ∧ ¬ pointsAndNormals.Kept s.m_blockManager := by
  obtain ⟨s, hs, done, lost⟩ : ∃ s, runs pointsAndNormals.advance bothEmpty
      ⟨{}, fun _ => .starting⟩ = .ok s ∧ (∀ i, s.phase i = .finished) ∧
        s.m_blockManager.getArray "mesh_0_0" "normals" =
          .error (.runtime_error "failed to get ArraySummary: normals") := by
    refine ⟨_, rfl, fun i => ?_, rfl⟩
    cases i <;> rfl
  refine ⟨s, .of_runs hs, done, fun kept => ?_⟩
  have found : s.m_blockManager.getArray "mesh_0_0" "normals" = .ok _ := (kept true).2
  rw [lost] at found
  cases found

end TwoArrays

end ArrayPuts

end Gorilla
