import Gorilla.BlockManager.Calls

/-!
# Summaries and the bytes they describe

A raw block is one summary and one buffer, which the same put should have given. The summary
is written first, also by a put that is then refused.
-/

namespace Gorilla

open HandLock Outcome Runs

/-- The calls on raw blocks: every put is for memory. -/
inductive MemCall
  | putBlock (blockSummary : BlockSummary) (dataPointer : DataPointer)
  | getBlock (blockID : String) (backend : Int)
  | getBlockSubregion (blockID : String) (backend : Int) (dims : Nat)
    (subregionlb subregionub : Array3 Int)
  | eraseBlock (blockID : String)

def MemCall.toCall : MemCall → BlockCall
  | .putBlock blockSummary dataPointer => .putBlock blockSummary BACKEND.MEM dataPointer
  | .getBlock blockID backend => .getBlock blockID backend
  | .getBlockSubregion blockID backend dims subregionlb subregionub =>
    .getBlockSubregion blockID backend dims subregionlb subregionub
  | .eraseBlock blockID => .eraseBlock blockID

/-- The bytes a put is given for a summary. -/
def BlockSummary.bytesOf (bs : BlockSummary) (dataPointer : DataPointer) : Buffer :=
  match bs.getArraySize bs.m_blockid with
  | .ok size => dataPointer.readable.take size.toNat
  | .error _ => []

/-- The manager, and for each id the summary and the bytes of its last successful put. -/
structure BlockOrigins where
  manager : BlockManager
  origin : String → Option (BlockSummary × Buffer) := fun _ => none

namespace BlockOrigins

open BlockManager

variable {s t : BlockOrigins} {call : MemCall}

def record (call : MemCall) (done : Bool) (origin : String → Option (BlockSummary × Buffer)) :
    String → Option (BlockSummary × Buffer) :=
  match call with
  | .putBlock blockSummary dataPointer =>
    if done then
      Function.update origin blockSummary.m_blockid
        (some (blockSummary, blockSummary.bytesOf dataPointer))
    else origin
  | .eraseBlock blockID => if done then Function.update origin blockID none else origin
  | _ => origin

def step (call : MemCall) (s : BlockOrigins) : Except Stop BlockOrigins :=
  match call.toCall.outcome s.manager with
  | .ok (done, m) => .ok ⟨m, record call done s.origin⟩
  | .error e => .error e

theorem step_eq_ok : step call s = .ok t ↔
    ∃ done m, call.toCall.outcome s.manager = .ok (done, m) ∧
      t = ⟨m, record call done s.origin⟩ := by
  unfold step
  cases call.toCall.outcome s.manager with
  | error e => simp
  | ok r => simp [eq_comm, Prod.ext_iff]

/-- A raw block that has bytes has as many as its summary says, and both are of its put. -/
def Described (origin : Option (BlockSummary × Buffer)) (handle : DataBlock) : Prop :=
  ∀ data, handle.storage = .RawMemObj (some data) →
    (∃ size, handle.OwnSize size ∧ data.length = size.toNat) ∧
      origin = some (handle.m_blockSummary, data)

def Sound (s : BlockOrigins) : Prop :=
  ∀ id handle, s.manager.block id = some handle → Described (s.origin id) handle

/-- A put into a block that has bytes repeats its summary, and one into a block that has none
has a size that fits an `int`, or one whose low half does not. -/
def Consistent (call : MemCall) (m : BlockManager) : Prop :=
  match call with
  | .putBlock blockSummary _ =>
    ∀ handle, m.asked blockSummary.m_blockid BACKEND.MEM = some handle →
      match handle.storage with
      | .RawMemObj (some _) => blockSummary = handle.m_blockSummary
      | .RawMemObj none => ∀ size, blockSummary.getArraySize blockSummary.m_blockid = .ok size →
        DataBlock.truncInt size < 0 ∨ size.toNat < 2 ^ 31
      | _ => True
  | _ => True

theorem sound_iff_at {id : String} (h : s.Sound)
    (others : ∀ id', id' ≠ id → t.manager.block id' = s.manager.block id')
    (origins : ∀ id', id' ≠ id → t.origin id' = s.origin id') :
    t.Sound ↔ ∀ handle, t.manager.block id = some handle → Described (t.origin id) handle := by
  refine ⟨fun ht handle hb => ht id handle hb, fun own id' handle hb => ?_⟩
  by_cases hid : id' = id
  · subst hid
    exact own handle hb
  · rw [others id' hid] at hb
    rw [origins id' hid]
    exact h id' handle hb

/-- The object a call gets is described: a new one has no bytes. -/
theorem described_of_asked {id : String} {backend : Int} {handle : DataBlock} (h : s.Sound)
    (hasked : s.manager.asked id backend = some handle) : Described (s.origin id) handle := by
  obtain ⟨_, hof⟩ := asked_eq_some.mp hasked
  cases hb : s.manager.DataBlockMap.lookup id with
  | some old =>
    rw [handleOf, hb] at hof
    cases hof
    exact h id handle hb
  | none =>
    rw [handleOf, hb] at hof
    cases hn : newHandle id backend with
    | error e => simp [hn, Except.toOption] at hof
    | ok new =>
      rw [hn] at hof
      cases hof
      intro data hdata
      unfold newHandle newStorage at hn
      split at hn
      · cases hn
      · rename_i storage hst
        split at hn
        · cases hn
        · cases hn
          obtain rfl : storage = .RawMemObj (some data) := hdata
          split at hst
          · cases hst
          · split at hst
            · cases hst
            · split at hst
              · cases hst
              · split at hst <;> cases hst

section Put
variable {handle : DataBlock} {blockSummary : BlockSummary} {src : DataPointer} {files : Files}

/-- A put that throws replaces a summary; nothing changes where it repeats it. -/
theorem described_thrown_iff {origin : Option (BlockSummary × Buffer)}
    (h : Described origin handle)
    (thrown : ∃ what, ({ handle with m_blockSummary := blockSummary } : DataBlock).putData
      files src = .error (.runtime_error what)) :
    Described origin { handle with m_blockSummary := blockSummary } ↔
      match handle.storage with
      | .RawMemObj (some _) => blockSummary = handle.m_blockSummary
      | .RawMemObj none => ∀ size, blockSummary.getArraySize blockSummary.m_blockid = .ok size →
        DataBlock.truncInt size < 0 ∨ size.toNat < 2 ^ 31
      | _ => True := by
  obtain ⟨what, hput⟩ := thrown
  obtain ⟨id, summary, storage⟩ := handle
  cases storage with
  | RawMemObj m_rawMemPtr =>
    cases m_rawMemPtr with
    | some data =>
      obtain ⟨_, horigin⟩ := h data rfl
      constructor
      · intro hd
        have hnew := (hd data rfl).2
        rw [horigin] at hnew
        cases hnew
        rfl
      · rintro rfl
        exact h
    | none =>
      refine iff_of_true (fun data hdata => by cases hdata) fun size own => .inl ?_
      by_contra hneg
      have hrun := @DataBlock.rawPutData_none ⟨id, blockSummary, .RawMemObj none⟩ src
        size own
      rw [if_neg hneg] at hrun
      simp only [DataBlock.putData, hrun] at hput
      split at hput
      · cases hput
      · cases hput
  | FileObj => exact iff_of_true (fun data hdata => by cases hdata) trivial
  | VTKMemObj m_vtkobject => exact iff_of_true (fun data hdata => by cases hdata) trivial
  | VTKMemExplicitObj m_arrayMap => exact iff_of_true (fun data hdata => by cases hdata) trivial

/-- A put that returns gives the bytes of its summary unless its size was cut. -/
theorem described_put_iff {handle' : DataBlock} {files' : Files}
    (hput : ({ handle with m_blockSummary := blockSummary } : DataBlock).putData files src =
      .ok (handle', files')) :
    Described (some (blockSummary, blockSummary.bytesOf src)) handle' ↔
      match handle.storage with
      | .RawMemObj (some _) => blockSummary = handle.m_blockSummary
      | .RawMemObj none => ∀ size, blockSummary.getArraySize blockSummary.m_blockid = .ok size →
        DataBlock.truncInt size < 0 ∨ size.toNat < 2 ^ 31
      | _ => True := by
  cases DataBlock.stores_of_putData hput with
  | @raw size empty own sized readable =>
    have held : handle.storage = .RawMemObj none := empty
    have same : ∀ n, blockSummary.getArraySize blockSummary.m_blockid = .ok n ↔ n = size := by
      intro n
      rw [show blockSummary.getArraySize blockSummary.m_blockid = .ok size from own]
      simp [eq_comm]
    have bytes : blockSummary.bytesOf src = src.readable.take size.toNat := by
      rw [BlockSummary.bytesOf, (same size).mpr rfl]
    have fits := DataBlock.truncInt_eq_iff (Int.not_lt.mp sized)
    simp only [held, same, forall_eq, sized, false_or]
    rw [← fits]
    constructor
    · intro hd
      obtain ⟨⟨n, hn, hlen⟩, _⟩ := hd _ rfl
      obtain rfl := (same n).mp hn
      rw [List.length_take, min_eq_left readable] at hlen
      exact hlen
    · intro hfit data hdata
      cases hdata
      refine ⟨⟨size, own, ?_⟩, by rw [bytes, ← hfit]; rfl⟩
      rw [List.length_take, min_eq_left readable, hfit]
  | file file =>
    have held : handle.storage = .FileObj := file
    rw [held]
    exact iff_of_true (fun data hdata => by cases hdata) trivial
  | vtk empty =>
    have held : handle.storage = .VTKMemObj none := empty
    rw [held]
    exact iff_of_true (fun data hdata => by cases hdata) trivial

end Put

/-- A read leaves what is described as it was. -/
theorem sound_read {id : String} {backend : Int} {handle : DataBlock} (h : s.Sound)
    (hasked : s.manager.asked id backend = some handle) :
    (⟨(s.manager.opened id handle).reread id handle, s.origin⟩ : BlockOrigins).Sound := by
  obtain ⟨⟨summary, own, raw⟩, others⟩ := BlockCall.block_read hasked
  refine Iff.mpr (sound_iff_at h others fun _ _ => rfl) fun handle' hb data hdata => ?_
  rw [own] at hb
  cases hb
  have kept := raw (by rw [show handle.storage = .RawMemObj (some data) from hdata]; simp)
  subst kept
  exact described_of_asked h hasked data hdata

/-- A put into an object keeps the blocks described exactly when it is consistent with it. -/
theorem sound_put_iff {handle : DataBlock} {done : Bool} {m : BlockManager} (h : s.Sound)
    (ha : s.manager.asked blockSummary.m_blockid BACKEND.MEM = some handle)
    (out : (BlockCall.putBlock blockSummary BACKEND.MEM src).outcome s.manager = .ok (done, m)) :
    (⟨m, record (.putBlock blockSummary src) done s.origin⟩ : BlockOrigins).Sound ↔
      Consistent (.putBlock blockSummary src) s.manager := by
  have consistent : Consistent (.putBlock blockSummary src) s.manager ↔
      match handle.storage with
      | .RawMemObj (some _) => blockSummary = handle.m_blockSummary
      | .RawMemObj none => ∀ size,
        blockSummary.getArraySize blockSummary.m_blockid = .ok size →
          DataBlock.truncInt size < 0 ∨ size.toNat < 2 ^ 31
      | _ => True := by
    refine ⟨fun hc => hc handle ha, fun hc handle' hh => ?_⟩
    rw [ha] at hh
    cases hh
    exact hc
  rw [consistent]
  rcases putBlock_outcome ha out with ⟨rfl, handle', files, put, rfl⟩ | ⟨rfl, thrown, rfl⟩
  · rw [← described_put_iff put]
    refine (sound_iff_at h (fun id hne => (BlockCall.block_insert id).trans (if_neg hne))
      fun id hne => Function.update_of_ne hne _ _).trans ?_
    simp [BlockCall.block_insert, record]
  · rw [← described_thrown_iff (described_of_asked h ha) thrown]
    have others : ∀ id, id ≠ blockSummary.m_blockid →
        (s.manager.store blockSummary.m_blockid
          { handle with m_blockSummary := blockSummary }).block id = s.manager.block id :=
      fun id hne => (block_store id).trans (if_neg hne)
    have at_id := sound_iff_at
      (t := ⟨s.manager.store blockSummary.m_blockid
        { handle with m_blockSummary := blockSummary }, s.origin⟩) h others fun id hne => rfl
    refine Iff.trans at_id ?_
    simp [block_store]

/-- A call keeps the blocks described exactly when it is consistent with what is stored. -/
theorem sound_step_iff (h : s.Sound) (hs : step call s = .ok t) :
    t.Sound ↔ Consistent call s.manager := by
  obtain ⟨done, m, out, rfl⟩ := step_eq_ok.mp hs
  cases call with
  | putBlock blockSummary src =>
    cases ha : s.manager.asked blockSummary.m_blockid BACKEND.MEM with
    | none =>
      obtain ⟨rfl, rfl⟩ := putBlock_refused ha out
      refine iff_of_true h fun handle hh => ?_
      rw [ha] at hh
      cases hh
    | some handle => exact sound_put_iff h ha out
  | getBlock blockID backend =>
    refine iff_of_true ?_ trivial
    cases ha : s.manager.askedRead blockID backend with
    | none =>
      rw [getBlock_refused ha out]
      exact h
    | some handle =>
      rw [getBlock_outcome ha out]
      exact sound_read h (BlockCall.askedRead_asked ha)
  | getBlockSubregion blockID backend dims lb ub =>
    refine iff_of_true ?_ trivial
    cases ha : s.manager.asked blockID backend with
    | none =>
      rw [getBlockSubregion_refused ha out]
      exact h
    | some handle =>
      rw [getBlockSubregion_outcome ha out]
      exact sound_read h ha
  | eraseBlock blockID =>
    refine iff_of_true ?_ trivial
    rcases BlockCall.eraseBlock_outcome out with ⟨rfl, _, rfl⟩ | ⟨rfl, _, rfl⟩
    · refine Iff.mpr (sound_iff_at h
        (fun id hne => (BlockCall.block_erased id).trans (if_neg hne))
        fun id hne => Function.update_of_ne hne _ _) fun handle hb => ?_
      rw [show (s.manager.erased blockID).block blockID = none from
          (BlockCall.block_erased blockID).trans (if_pos rfl)] at hb
      cases hb
    · exact h

def init (files : Files) : BlockOrigins := { manager := { files := files } }

/-- The steps after which every block is described. -/
def StaysSound (call : MemCall) (s : BlockOrigins) : Prop := ∀ t, step call s = .ok t → t.Sound

theorem sound_of_run {files : Files} {calls : List MemCall}
    (run : Run (Meeting StaysSound (Steps step)) (init files) calls t) : t.Sound :=
  run.invariant (fun _ _ hb => by cases hb) fun _ _ u _ hs => hs.1 u hs.2

/-- The runs in which every summary describes its bytes are those of consistent calls. -/
theorem sound_run_iff {files : Files} {calls : List MemCall} :
    Run (Meeting StaysSound (Steps step)) (init files) calls t ↔
      Run (Meeting (fun call s => Consistent call s.manager) (Steps step))
        (init files) calls t := by
  refine Run.meeting_iff fun _ call s u run hs => ?_
  have known := sound_of_run run
  constructor
  · intro stays
    exact (sound_step_iff known hs).mp (stays u hs)
  · intro consistent u' hs'
    exact (sound_step_iff known hs').mpr consistent

/-- One cell, then a refused put of two under the same id. -/
def summaryOf (cells : UInt64) : BlockSummary where
  m_dataType := DATATYPE_CARGRID
  m_blockid := "density_0_0"
  m_dims := 1
  m_arrayList := [{ m_arrayName := "density_0_0", m_elemSize := 1, m_elemNum := cells }]

def secondPut : List MemCall :=
  [.putBlock (summaryOf 1) (.bytes [some 7]), .putBlock (summaryOf 2) (.bytes [some 7, some 8])]

theorem secondPut_unsound : ∃ t, Run (Steps step) (init {}) secondPut t ∧ ¬ t.Sound := by
  obtain ⟨t, ht, held⟩ : ∃ t, runs step secondPut (init {}) = .ok t ∧
      t.manager.block "density_0_0" = some
        { m_blockid := "density_0_0", m_blockSummary := summaryOf 2,
          storage := .RawMemObj (some [some 7]) } := ⟨_, rfl, rfl⟩
  refine ⟨t, .of_runs ht, fun sound => ?_⟩
  obtain ⟨⟨size, own, hlen⟩, _⟩ := sound "density_0_0" _ held _ rfl
  cases own
  cases hlen

end BlockOrigins

end Gorilla
