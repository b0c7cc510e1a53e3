import Gorilla.BlockManager.Calls

/-!
# Objects and files

Every object carries the id it is kept under, so that the file it reads is its own. A call
replaces the storage of an object only by a put that returns, and writes a file only so.
-/

namespace Gorilla

open HandLock Runs

namespace DataBlock

variable {b b' : DataBlock} {files files' : Files} {src : DataPointer}

/-- A put keeps the id and the summary of its object; what it writes is its own file. -/
theorem putData_kept (h : b.putData files src = .ok (b', files')) :
    b'.m_blockid = b.m_blockid ∧ b'.m_blockSummary = b.m_blockSummary ∧
      ∀ id, id ≠ b.m_blockSummary.m_blockid → files'.lookup id = files.lookup id := by
  cases stores_of_putData h with
  | raw => exact ⟨rfl, rfl, fun _ _ => rfl⟩
  | file => exact ⟨rfl, rfl, fun _ ne => Files.lookup_insert_ne ne⟩
  | vtk => exact ⟨rfl, rfl, fun _ _ => rfl⟩

end DataBlock

namespace BlockManager

variable {m m' : BlockManager} {handle : DataBlock}

/-- Every object of the map carries its key. -/
def Keyed (m : BlockManager) : Prop :=
  ∀ id handle, m.block id = some handle → handle.m_blockid = id

/-- A block manager as its calls leave it. -/
structure Kept extends BlockManager where
  keyed : toBlockManager.Keyed

/-- The object in the map has a file of its own. -/
def IsFile (m : BlockManager) (blockID : String) : Prop :=
  (m.block blockID).map DataBlock.storage = some .FileObj

instance (m : BlockManager) (blockID : String) : Decidable (m.IsFile blockID) :=
  inferInstanceAs (Decidable (_ = _))

theorem erasable_of_memory {blockID : String} (memory : ¬ m.IsFile blockID) :
    m.Erasable blockID := by
  intro handle hb file
  exact absurd (by rw [IsFile, hb, Option.map_some, file]) memory

/-- A call puts a block under the id, and the put returns. -/
def Puts (call : BlockCall) (done : Bool) (id : String) : Prop :=
  match call with
  | .putBlock blockSummary _ _ => done = true ∧ blockSummary.m_blockid = id
  | _ => False

/-- A summary of its own id, or none yet; a file object may have read any. -/
def Named (id : String) (handle : DataBlock) : Prop :=
  handle.storage = .FileObj ∨ handle.m_blockSummary.m_blockid = "" ∨
    handle.m_blockSummary.m_blockid = id

def SelfNamed (m : BlockManager) : Prop := ∀ id handle, m.block id = some handle → Named id handle

/-- The managers that their own calls lead to. -/
def Reached (m : BlockManager) : Prop :=
  ∃ files calls, Run (fun call s t => ∃ done, BlockCall.outcome call s = .ok (done, t))
    { files := files } calls m

theorem newHandle_eq_ok {blockID : String} {backend : Int} :
    newHandle blockID backend = .ok handle ↔
      (∃ storage, newStorage backend = some storage ∧
        handle = { m_blockid := blockID, storage := storage }) ∧
      blockID.utf8ByteSize < STRLENLONG := by
  unfold newHandle
  cases newStorage backend with
  | none => simp
  | some storage =>
    by_cases long : STRLENLONG ≤ blockID.utf8ByteSize
    · simp [long]
    · simp [long, eq_comm, Nat.not_le.mp long]

/-- The object a call gets is in the map, or is new. -/
theorem asked_cases {blockID : String} {backend : Int}
    (h : m.asked blockID backend = some handle) :
    m.block blockID = some handle ∨
      (∃ storage, newStorage backend = some storage ∧
        handle = { m_blockid := blockID, storage := storage }) ∧
        blockID ≠ "" ∧ blockID.utf8ByteSize < STRLENLONG := by
  obtain ⟨hid, hof⟩ := asked_eq_some.mp h
  cases hl : m.DataBlockMap.lookup blockID with
  | some old =>
    rw [handleOf, hl] at hof
    cases hof
    exact .inl hl
  | none =>
    rw [handleOf, hl] at hof
    cases hn : newHandle blockID backend with
    | error e => simp [hn, Except.toOption] at hof
    | ok new =>
      rw [hn] at hof
      cases hof
      obtain ⟨made, short⟩ := newHandle_eq_ok.mp hn
      exact .inr ⟨made, hid, short⟩

theorem Keyed.asked {blockID : String} {backend : Int} (keyed : m.Keyed)
    (h : m.asked blockID backend = some handle) : handle.m_blockid = blockID := by
  obtain hb | ⟨⟨_, _, rfl⟩, _⟩ := asked_cases h
  · exact keyed blockID handle hb
  · rfl

theorem SelfNamed.asked {blockID : String} {backend : Int} (named : m.SelfNamed)
    (h : m.asked blockID backend = some handle) : Named blockID handle := by
  obtain hb | ⟨⟨_, _, rfl⟩, _⟩ := asked_cases h
  · exact named blockID handle hb
  · exact .inr (.inl rfl)

end BlockManager

namespace BlockCall

variable {call : BlockCall} {m m' : BlockManager} {handle : DataBlock} {done : Bool}

open BlockManager

/-- The object of a call is one that was asked for. -/
theorem object_asked (h : call.object m = some handle) :
    ∃ backend, m.asked call.blockID backend = some handle := by
  cases call with
  | putBlock blockSummary backend src => exact ⟨backend, h⟩
  | putArray blockSummary as backend data => exact ⟨backend, h⟩
  | getBlock blockID backend => exact ⟨backend, askedRead_asked h⟩
  | getBlockSubregion blockID backend dims lb ub => exact ⟨backend, h⟩
  | getArray blockName arrayName => cases h
  | getBlockSummary blockID => cases h
  | eraseBlock blockID => cases h

/-- The storage of an object changes only by a put that returns, or gets an array more. -/
theorem outcome_handle (h : call.object m = some handle) (out : call.outcome m = .ok (done, m')) :
    ∃ handle', m'.block call.blockID = some handle' ∧ handle'.m_blockid = handle.m_blockid ∧
      (Puts call done call.blockID ∨ handle'.storage = handle.storage ∨
        ∃ m_arrayMap, handle'.storage = .VTKMemExplicitObj m_arrayMap) := by
  have reads : ∀ {blockID backend}, m.asked blockID backend = some handle →
      m' = (m.opened blockID handle).reread blockID handle →
      ∃ handle', m'.block blockID = some handle' ∧ handle'.m_blockid = handle.m_blockid ∧
        handle'.storage = handle.storage := by
    rintro blockID backend hasked rfl
    obtain ⟨⟨summary, own, _⟩, _⟩ := block_read hasked
    exact ⟨_, own, rfl, rfl⟩
  cases call with
  | putBlock blockSummary backend src =>
    rcases putBlock_outcome h out with ⟨done, handle', files, put, rfl⟩ | ⟨_, _, rfl⟩
    · exact ⟨handle', (block_insert _).trans (if_pos rfl), (DataBlock.putData_kept put).1,
        .inl ⟨done, rfl⟩⟩
    · exact ⟨_, (block_store _).trans (if_pos rfl), rfl, .inr (.inl rfl)⟩
  | putArray blockSummary as backend data =>
    obtain ⟨summary, _, ⟨_, m_arrayMap, _, _, rfl⟩ | ⟨_, rfl⟩⟩ := putArray_outcome h out
    · exact ⟨_, (block_store _).trans (if_pos rfl), rfl, .inr (.inr ⟨_, rfl⟩)⟩
    · exact ⟨_, (block_store _).trans (if_pos rfl), rfl, .inr (.inl rfl)⟩
  | getBlock blockID backend =>
    obtain ⟨handle', own, hid, hst⟩ := reads (askedRead_asked h) (getBlock_outcome h out)
    exact ⟨handle', own, hid, .inr (.inl hst)⟩
  | getBlockSubregion blockID backend dims lb ub =>
    obtain ⟨handle', own, hid, hst⟩ := reads h (getBlockSubregion_outcome h out)
    exact ⟨handle', own, hid, .inr (.inl hst)⟩
  | getArray blockName arrayName => cases h
  | getBlockSummary blockID => cases h
  | eraseBlock blockID => cases h

/-- A manager whose objects carry their keys is left as one. -/
theorem keyed_outcome (keyed : m.Keyed) (out : call.outcome m = .ok (done, m')) : m'.Keyed := by
  by_cases erases : call.isErase
  · cases call <;> cases erases
    rcases eraseBlock_outcome out with ⟨_, _, rfl⟩ | ⟨_, _, rfl⟩
    · intro id handle hb
      rw [block_erased] at hb
      split at hb
      · cases hb
      · exact keyed id handle hb
    · exact keyed
  cases h : call.object m with
  | none =>
    obtain ⟨rfl, _⟩ := outcome_none h (by simpa using erases) out
    exact keyed
  | some handle =>
    obtain ⟨handle', own, kept, _⟩ := outcome_handle h out
    obtain ⟨_, others⟩ := outcome_some h out
    obtain ⟨backend, asked⟩ := object_asked h
    have hid := keyed.asked asked
    intro id other hb
    by_cases same : id = call.blockID
    · subst same
      rw [own] at hb
      cases hb
      rw [kept, hid]
    · rw [others id same] at hb
      exact keyed id other hb

/-- What a call leaves of its object is named after its id. -/
theorem named_outcome {handle' : DataBlock} (h : call.object m = some handle)
    (named : Named call.blockID handle) (out : call.outcome m = .ok (done, m'))
    (hb : m'.block call.blockID = some handle') : Named call.blockID handle' := by
  have reads : ∀ {blockID backend}, m.asked blockID backend = some handle →
      m' = (m.opened blockID handle).reread blockID handle →
      m'.block blockID = some handle' → Named blockID handle → Named blockID handle' := by
    rintro blockID backend hasked rfl hb named
    obtain ⟨⟨summary, own, kept⟩, _⟩ := block_read hasked
    rw [own] at hb
    cases hb
    by_cases file : handle.storage = .FileObj
    · exact .inl file
    · rw [kept file]
      exact named
  cases call with
  | putBlock blockSummary backend src =>
    rcases putBlock_outcome h out with ⟨_, new, files, put, rfl⟩ | ⟨_, _, rfl⟩
    · rw [block_insert] at hb
      cases (if_pos rfl).symm.trans hb
      exact .inr (.inr (congrArg BlockSummary.m_blockid (DataBlock.putData_kept put).2.1))
    · rw [block_store] at hb
      cases (if_pos rfl).symm.trans hb
      exact .inr (.inr rfl)
  | putArray blockSummary as backend data =>
    have own : ∀ storage summary,
        summary.m_blockid = (summaryFor handle blockSummary).m_blockid →
        (handle.storage = .FileObj → storage = .FileObj) →
        Named blockSummary.m_blockid
          { handle with m_blockSummary := summary, storage := storage } := by
      intro storage summary kept file
      rcases named with isFile | none | own
      · exact .inl (file isFile)
      · rw [summaryFor, if_pos none] at kept
        exact .inr (.inr kept)
      · rw [summaryFor] at kept
        split at kept
        · exact .inr (.inr kept)
        · exact .inr (.inr (kept.trans own))
    obtain ⟨summary, kept, ⟨_, m_arrayMap, explicit, _, rfl⟩ | ⟨_, rfl⟩⟩ :=
      putArray_outcome h out
    · rw [block_store] at hb
      cases (if_pos rfl).symm.trans hb
      exact own _ _ kept (fun file => by rw [explicit] at file; cases file)
    · rw [block_store] at hb
      cases (if_pos rfl).symm.trans hb
      exact own _ _ kept id
  | getBlock blockID backend =>
    exact reads (askedRead_asked h) (getBlock_outcome h out) hb named
  | getBlockSubregion blockID backend dims lb ub =>
    exact reads h (getBlockSubregion_outcome h out) hb named
  | getArray blockName arrayName => cases h
  | getBlockSummary blockID => cases h
  | eraseBlock blockID => cases h

/-- An object that is no file object keeps a summary of its own id, or none yet. -/
theorem selfNamed_outcome (named : m.SelfNamed) (out : call.outcome m = .ok (done, m')) :
    m'.SelfNamed := by
  by_cases erases : call.isErase
  · cases call <;> cases erases
    rcases eraseBlock_outcome out with ⟨_, _, rfl⟩ | ⟨_, _, rfl⟩
    · intro id handle hb
      rw [block_erased] at hb
      split at hb
      · cases hb
      · exact named id handle hb
    · exact named
  cases h : call.object m with
  | none =>
    obtain ⟨rfl, _⟩ := outcome_none h (by simpa using erases) out
    exact named
  | some handle =>
    obtain ⟨_, others⟩ := outcome_some h out
    obtain ⟨backend, asked⟩ := object_asked h
    intro id other hb
    by_cases same : id = call.blockID
    · subst same
      exact named_outcome h (named.asked asked) out hb
    · rw [others id same] at hb
      exact named id other hb

theorem selfNamed_reached (h : m.Reached) : m.SelfNamed := by
  obtain ⟨files, calls, run⟩ := h
  exact run.invariant (fun _ _ hb => by cases hb) fun _ _ _ named hs =>
    hs.elim fun _ out => selfNamed_outcome named out

/-- An erase removes the file of a file object, and no other. -/
theorem files_erased {blockID : String} (keyed : m.Keyed) :
    (m.erased blockID).files =
      if m.IsFile blockID then m.files.erase blockID else m.files := by
  unfold BlockManager.erased DataBlock.withoutFile
  cases hl : m.DataBlockMap.lookup blockID with
  | none =>
    have own : ¬ m.IsFile blockID := by simp [IsFile, block, hl]
    rw [if_neg own]
  | some handle =>
    have own : m.IsFile blockID ↔ handle.storage = .FileObj := by simp [IsFile, block, hl]
    obtain ⟨name, summary, storage⟩ := handle
    obtain rfl : name = blockID := keyed blockID _ hl
    cases storage with
    | FileObj => rw [if_pos (own.mpr rfl)]
    | RawMemObj m_rawMemPtr => rw [if_neg (by simp [own])]
    | VTKMemObj m_vtkobject => rw [if_neg (by simp [own])]
    | VTKMemExplicitObj m_arrayMap => rw [if_neg (by simp [own])]

/-- A file changes only by a put of its id that returns, or is removed. -/
theorem files_outcome (keyed : m.Keyed) (out : call.outcome m = .ok (done, m')) (id : String) :
    m'.files.lookup id = m.files.lookup id ∨ m'.files.lookup id = none ∨ Puts call done id := by
  cases call with
  | putBlock blockSummary backend src =>
    cases h : m.asked blockSummary.m_blockid backend with
    | none =>
      obtain ⟨_, rfl⟩ := putBlock_refused h out
      exact .inl rfl
    | some handle =>
      rcases putBlock_outcome h out with ⟨hdone, handle', files, put, rfl⟩ | ⟨_, _, rfl⟩
      · by_cases same : id = blockSummary.m_blockid
        · exact .inr (.inr ⟨hdone, same.symm⟩)
        · exact .inl ((DataBlock.putData_kept put).2.2 id same)
      · exact .inl rfl
  | putArray blockSummary as backend data =>
    cases h : m.asked blockSummary.m_blockid backend with
    | none =>
      obtain ⟨_, rfl⟩ := putArray_refused h out
      exact .inl rfl
    | some handle =>
      obtain ⟨summary, _, ⟨_, m_arrayMap, _, _, rfl⟩ | ⟨_, rfl⟩⟩ := putArray_outcome h out
      · exact .inl rfl
      · exact .inl rfl
  | getBlock blockID backend =>
    cases h : m.askedRead blockID backend with
    | none => rw [getBlock_refused h out]; exact .inl rfl
    | some handle => rw [getBlock_outcome h out]; simp
  | getBlockSubregion blockID backend dims lb ub =>
    cases h : m.asked blockID backend with
    | none => rw [getBlockSubregion_refused h out]; exact .inl rfl
    | some handle => rw [getBlockSubregion_outcome h out]; simp
  | getArray blockName arrayName => rw [getArray_outcome out]; exact .inl rfl
  | getBlockSummary blockID =>
    cases out
    exact .inl rfl
  | eraseBlock blockID =>
    rcases eraseBlock_outcome out with ⟨_, _, rfl⟩ | ⟨_, _, rfl⟩
    · rw [files_erased keyed]
      split
      · by_cases same : id = blockID
        · subst same
          exact .inr (.inl Files.lookup_erase)
        · exact .inl (Files.lookup_erase_ne same)
      · exact .inl rfl
    · exact .inl rfl

end BlockCall

end Gorilla
