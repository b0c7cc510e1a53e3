import Gorilla.BlockManager.Handles

/-!
# Managers that share a directory

Each manager has its own map, the files are common. An erase looks for the block in the map of
its manager only, and a read of a file block looks on disk.
-/

namespace Gorilla

open HandLock Runs

/-- Managers over one directory, their objects under the ids they carry. -/
structure Directory (κ : Type) where
  objects : κ → AList fun _ : String => DataBlock
  files : Files
  keyed : ∀ k, (BlockManager.mk (objects k) files).Keyed

/-- A file from which a block can be read: it is as long as its summary says. -/
def Files.Readable (files : Files) (id : String) : Prop :=
  ∃ file, files.lookup id = some file ∧
    ∃ size, file.1.getArraySize file.1.m_blockid = .ok size ∧ size.toNat = file.2.length

namespace Directory

open BlockManager

variable {κ : Type} [DecidableEq κ] {w w' : Directory κ} {k : κ} {id : String}

def manager (w : Directory κ) (k : κ) : BlockManager := ⟨w.objects k, w.files⟩

omit [DecidableEq κ] in
theorem keyed_manager (w : Directory κ) (k : κ) : (w.manager k).Keyed := w.keyed k

/-- The directory after one of the managers has worked on it. -/
def replace (w : Directory κ) (k : κ) (m : BlockManager) (keyed : m.Keyed) : Directory κ where
  objects := Function.update w.objects k m.DataBlockMap
  files := m.files
  keyed j := by
    by_cases same : j = k
    · subst same
      rw [Function.update_self]
      exact keyed
    · rw [Function.update_of_ne same]
      exact w.keyed j

@[simp] theorem manager_replace {m : BlockManager} (keyed : m.Keyed) :
    (w.replace k m keyed).manager k = m := by
  simp [manager, replace]

/-- A call to one of the managers, and whether it returned. -/
def call (w : Directory κ) (k : κ) (call : BlockCall) : Except Stop (Bool × Directory κ) :=
  match h : call.outcome (w.manager k) with
  | .ok (done, m) => .ok (done, w.replace k m (BlockCall.keyed_outcome (w.keyed_manager k) h))
  | .error e => .error e

/-- A call works on the map of its manager and on the files. -/
theorem call_eq_ok {call : BlockCall} {done : Bool} (h : w.call k call = .ok (done, w')) :
    call.outcome (w.manager k) = .ok (done, w'.manager k) ∧
      ∀ j, j ≠ k → w'.objects j = w.objects j := by
  unfold Directory.call at h
  split at h
  · rename_i done' m out
    cases h
    refine ⟨?_, fun j hne => Function.update_of_ne hne _ _⟩
    rw [manager_replace]
    exact out
  · cases h

theorem call_ok {call : BlockCall} {done : Bool} {m : BlockManager}
    (out : call.outcome (w.manager k) = .ok (done, m)) :
    ∃ w', w.call k call = .ok (done, w') ∧ w'.manager k = m := by
  unfold Directory.call
  split
  · rename_i done' m' out'
    rw [out] at out'
    cases out'
    exact ⟨_, rfl, manager_replace _⟩
  · rename_i e out'
    rw [out] at out'
    cases out'

/-- The read throws or gives an empty summary. -/
def Gone (w : Directory κ) (k : κ) (id : String) (backend : Int) : Prop :=
  match getBlock id backend (w.manager k) with
  | .ok (bs, data) _ => bs = {} ∧ data = none
  | .error (.runtime_error _) _ => True
  | .error _ _ => False

/-- The steps of any of the managers, no put of the id among them returning. -/
def Quiet (id : String) (act : κ × BlockCall) (w w' : Directory κ) : Prop :=
  ∃ done, w.call act.1 act.2 = .ok (done, w') ∧ ¬ Puts act.2 done id

/-- The id has no file that can be read, or the manager has a file object for it. -/
def Removable (w : Directory κ) (k : κ) (id : String) : Prop :=
  id = "" ∨ STRLENLONG ≤ id.utf8ByteSize ∨ ¬ w.files.Readable id ∨ (w.manager k).IsFile id

/-- An id that a handle can be made for. -/
def Openable (id : String) : Prop := id ≠ "" ∧ id.utf8ByteSize < STRLENLONG

/-- An object without data of its own: what it reads, if anything, is its file. -/
def NoData (handle : DataBlock) : Prop :=
  match handle.storage with
  | .RawMemObj (some _) | .VTKMemObj (some _) => False
  | _ => True

theorem asked_noData {m : BlockManager} {backend : Int} {handle : DataBlock}
    (h : m.asked id backend = some handle)
    (held : ∀ handle, m.block id = some handle → NoData handle ∧ Openable id) :
    NoData handle ∧ Openable id := by
  obtain hb | ⟨⟨storage, hst, rfl⟩, openable⟩ := asked_cases h
  · exact held handle hb
  · refine ⟨?_, openable⟩
    unfold newStorage at hst
    split at hst
    · cases hst
      trivial
    · split at hst
      · cases hst
        trivial
      · split at hst
        · cases hst
          trivial
        · split at hst <;> cases hst
          trivial

/-- A call that puts no block under the id gives no object of the id data. -/
theorem noData_outcome {m m' : BlockManager} {call : BlockCall} {done : Bool}
    (held : ∀ handle, m.block id = some handle → NoData handle ∧ Openable id)
    (out : call.outcome m = .ok (done, m')) (quiet : ¬ Puts call done id) :
    ∀ handle, m'.block id = some handle → NoData handle ∧ Openable id := by
  by_cases erases : call.isErase
  · cases call <;> cases erases
    rcases BlockCall.eraseBlock_outcome out with ⟨_, _, rfl⟩ | ⟨_, _, rfl⟩
    · intro handle hb
      rw [BlockCall.block_erased] at hb
      split at hb
      · cases hb
      · exact held handle hb
    · exact held
  cases h : call.object m with
  | none =>
    obtain ⟨rfl, _⟩ := BlockCall.outcome_none h (by simpa using erases) out
    exact held
  | some handle =>
    obtain ⟨handle', own, _, storage⟩ := BlockCall.outcome_handle h out
    obtain ⟨_, others⟩ := BlockCall.outcome_some h out
    intro other hb
    by_cases same : id = call.blockID
    swap
    · rw [others id same] at hb
      exact held other hb
    subst same
    rw [own] at hb
    cases hb
    obtain ⟨backend, asked⟩ := BlockCall.object_asked h
    have asked := asked_noData asked held
    rcases storage with puts | same | ⟨m_arrayMap, array⟩
    · exact absurd puts quiet
    · refine ⟨?_, asked.2⟩
      unfold NoData
      rw [same]
      exact asked.1
    · refine ⟨?_, asked.2⟩
      unfold NoData
      rw [array]
      trivial

/-- No object of the manager under the id has data, and none could read a file. -/
def Silent (w : Directory κ) (k : κ) (id : String) : Prop :=
  (∀ handle, (w.manager k).block id = some handle → NoData handle ∧ Openable id) ∧
    (Openable id → ¬ w.files.Readable id)

theorem silent_step {act : κ × BlockCall} (h : w.Silent k id) (hs : Quiet id act w w') :
    w'.Silent k id := by
  obtain ⟨done, hcall, quiet⟩ := hs
  obtain ⟨out, others⟩ := call_eq_ok hcall
  constructor
  · by_cases same : act.1 = k
    · subst same
      exact noData_outcome h.1 out quiet
    · intro handle hb
      refine h.1 handle ?_
      rw [← hb]
      unfold block manager
      rw [others k fun he => same he.symm]
  · intro openable readable
    refine h.2 openable ?_
    obtain ⟨file, hfile, whole⟩ := readable
    refine ⟨file, ?_, whole⟩
    rcases BlockCall.files_outcome (w.keyed_manager act.1) out id with kept | removed | puts
    · exact kept.symm.trans hfile
    · rw [show w'.files.lookup id = none from removed] at hfile
      cases hfile
    · exact absurd puts quiet

theorem getArraySize_thrown {bs : BlockSummary} {name : String} {e : Stop}
    (h : bs.getArraySize name = .error e) : ∃ what, e = .runtime_error what := by
  unfold BlockSummary.getArraySize BlockSummary.arrayOf at h
  split at h
  · cases h
    exact ⟨_, rfl⟩
  · cases hf : bs.findArray name with
    | some as =>
      rw [hf] at h
      cases h
    | none =>
      rw [hf] at h
      cases h
      exact ⟨_, rfl⟩

/-- A read of an object without data throws when its file cannot be read. -/
theorem getData_thrown {handle : DataBlock} {files : Files} (noData : NoData handle)
    (unread : ¬ files.Readable handle.m_blockid) :
    ∃ what, handle.getData files = .error (.runtime_error what) := by
  obtain ⟨id, summary, storage⟩ := handle
  cases storage with
  | RawMemObj m_rawMemPtr =>
    cases m_rawMemPtr with
    | none => exact ⟨_, rfl⟩
    | some held => exact absurd noData not_false
  | FileObj =>
    unfold DataBlock.getData
    dsimp only
    cases hf : files.lookup id with
    | none => exact ⟨_, rfl⟩
    | some file =>
      dsimp only
      cases hs : file.1.getArraySize file.1.m_blockid with
      | error e =>
        obtain ⟨what, rfl⟩ := getArraySize_thrown hs
        exact ⟨what, rfl⟩
      | ok size =>
        have short : size.toNat ≠ file.2.length :=
          fun whole => unread ⟨file, hf, size, hs, whole⟩
        refine ⟨_, if_pos short⟩
  | VTKMemObj m_vtkobject =>
    cases m_vtkobject with
    | none => exact ⟨_, rfl⟩
    | some held => exact absurd noData not_false
  | VTKMemExplicitObj m_arrayMap => exact ⟨_, rfl⟩

omit [DecidableEq κ] in
theorem gone_of_silent (h : w.Silent k id) (backend : Int) : w.Gone k id backend := by
  unfold Gone
  cases hasked : (w.manager k).askedRead id backend with
  | none =>
    rcases getBlock_none hasked with empty | ⟨what, thrown⟩
    · rw [empty]
      exact ⟨rfl, rfl⟩
    · rw [thrown]
      trivial
  | some handle =>
    obtain ⟨noData, openable⟩ := asked_noData (BlockCall.askedRead_asked hasked) h.1
    have own := (w.keyed_manager k).asked (BlockCall.askedRead_asked hasked)
    have unread : ¬ w.files.Readable handle.m_blockid := by
      rw [own]
      exact h.2 openable
    obtain ⟨what, thrown⟩ := getData_thrown noData unread
    rw [getBlock_some hasked, show (w.manager k).files = w.files from rfl, thrown]
    trivial

theorem erase_eq_ok (h : w.call k (.eraseBlock id) = .ok (true, w')) :
    w'.manager k = (w.manager k).erased id := by
  obtain ⟨out, _⟩ := call_eq_ok h
  rcases BlockCall.eraseBlock_outcome out with ⟨_, _, erased⟩ | ⟨thrown, _⟩
  · exact erased
  · cases thrown

theorem silent_erase (h : w.Removable k id)
    (hcall : w.call k (.eraseBlock id) = .ok (true, w')) : w'.Silent k id := by
  have erased := erase_eq_ok hcall
  constructor
  · intro handle hb
    rw [erased, BlockCall.block_erased, if_pos rfl] at hb
    cases hb
  · rintro ⟨named, short⟩ ⟨file, hfile, whole⟩
    have files : w'.files = ((w.manager k).erased id).files :=
      congrArg BlockManager.files erased
    rw [files, BlockCall.files_erased (w.keyed_manager k)] at hfile
    split at hfile
    · rw [Files.lookup_erase] at hfile
      cases hfile
    · rename_i other
      rcases h with empty | long | unread | isFile
      · exact named empty
      · omega
      · exact unread ⟨file, hfile, whole⟩
      · exact other isFile

omit [DecidableEq κ] in
/-- A manager whose object of the id is a file object reads the file. -/
theorem not_gone {handle : DataBlock} {backend : Int}
    (hasked : (w.manager k).askedRead id backend = some handle)
    (isFile : handle.storage = .FileObj) (readable : w.files.Readable id) :
    (∃ bs data m, getBlock id backend (w.manager k) = .ok (bs, some data) m) ∧
      ¬ w.Gone k id backend := by
  obtain ⟨file, hfile, size, hsize, whole⟩ := readable
  have own := (w.keyed_manager k).asked (BlockCall.askedRead_asked hasked)
  have read : handle.getData (w.manager k).files = .ok file := by
    unfold DataBlock.getData
    rw [isFile, own, show (w.manager k).files.lookup id = some file from hfile]
    dsimp only
    rw [hsize]
    exact if_neg (not_not.mpr whole)
  have get := getBlock_some hasked
  rw [read] at get
  refine ⟨⟨file.1, file.2, _, get⟩, fun gone => ?_⟩
  rw [Gone, get] at gone
  cases gone.2

theorem askedRead_some {m : BlockManager} {handle : DataBlock} (named : id ≠ "")
    (h : m.block id = some handle) (backend : Int) : m.askedRead id backend = some handle := by
  unfold askedRead
  rw [if_neg (by simp [h])]
  exact asked_of_block named h backend

/-- After an erase that left a readable file, one read from the file brings the block back. -/
theorem comes_back (h : ¬ w.Removable k id) (backend : Int) :
    ∃ w₁, w.call k (.eraseBlock id) = .ok (true, w₁) ∧
      ∃ acts w₂, Run (Quiet id) w₁ acts w₂ ∧ ¬ w₂.Gone k id backend := by
  simp only [Removable, not_or, not_not, Nat.not_le] at h
  obtain ⟨named, short, readable, notFile⟩ := h
  have run : (BlockCall.eraseBlock id).run (w.manager k) = .ok () ((w.manager k).erased id) :=
    eraseBlock_erasable (erasable_of_memory notFile)
  have out := BlockCall.outcome_of_ok run
  obtain ⟨w₁, erase, _⟩ := call_ok out
  have erased := erase_eq_ok erase
  have files₁ : w₁.files = w.files := by
    have := congrArg BlockManager.files erased
    rw [BlockCall.files_erased (w.keyed_manager k), if_neg notFile] at this
    exact this
  have absent : (w₁.manager k).block id = none := by
    rw [erased, BlockCall.block_erased, if_pos rfl]
  have asked : (w₁.manager k).askedRead id BACKEND.FILE =
      some { m_blockid := id, storage := .FileObj } := by
    have new : newHandle id BACKEND.FILE = .ok { m_blockid := id, storage := .FileObj } :=
      newHandle_eq_ok.mpr ⟨⟨.FileObj, rfl, rfl⟩, short⟩
    unfold askedRead
    rw [if_neg fun h => absurd h.1 (by decide)]
    refine asked_eq_some.mpr ⟨named, ?_⟩
    rw [handleOf, show (w₁.manager k).DataBlockMap.lookup id = none from absent, new]
    rfl
  obtain ⟨⟨bs, data, m, get⟩, _⟩ := not_gone asked rfl (by rwa [files₁])
  have out : (BlockCall.getBlock id BACKEND.FILE).outcome (w₁.manager k) = .ok (true, m) :=
    BlockCall.outcome_of_ok ((bind_ok get).trans rfl)
  obtain ⟨w₂, read, hm⟩ := call_ok out
  refine ⟨w₁, erase, [(k, .getBlock id BACKEND.FILE)], w₂,
    Run.next .start ⟨true, read, not_false⟩, ?_⟩
  have left := getBlock_outcome asked out
  rw [← hm] at left
  obtain ⟨⟨summary, own, _⟩, _⟩ := BlockCall.block_read (BlockCall.askedRead_asked asked)
  rw [← left] at own
  have files₂ : w₂.files = w.files := by
    have := congrArg BlockManager.files left
    rw [files_reread, files_opened] at this
    exact this.trans files₁
  exact (not_gone (askedRead_some named own backend) rfl (by rwa [files₂])).2

/-- An erased block stays away until a put exactly when the erase could remove it. -/
theorem erased_iff (w : Directory κ) (k : κ) (id : String) (backend : Int) :
    (∀ w₁, w.call k (.eraseBlock id) = .ok (true, w₁) →
      ∀ acts w₂, Run (Quiet id) w₁ acts w₂ → w₂.Gone k id backend) ↔ w.Removable k id := by
  constructor
  · intro gone
    by_contra h
    obtain ⟨w₁, erase, acts, w₂, run, back⟩ := comes_back h backend
    exact back (gone w₁ erase acts w₂ run)
  · intro h w₁ erase acts w₂ run
    have silent : w₂.Silent k id :=
      run.invariant (I := fun w => w.Silent k id) (silent_erase h erase)
        fun _ _ _ hs hstep => silent_step hs hstep
    exact gone_of_silent silent backend

/-- A manager started over a directory in which an earlier one left a block. -/
def restarted : Directory Unit where
  objects _ := ∅
  files.entries := AList.singleton "density_0_0"
    ({ m_dataType := DATATYPE_CARGRID, m_blockid := "density_0_0", m_dims := 1,
       m_arrayList := [{ m_arrayName := "density_0_0", m_elemSize := 1, m_elemNum := 1 }] },
     [some 7])
  keyed _ _ _ h := by cases h

theorem erased_and_read : ∃ w, restarted.call () (.eraseBlock "density_0_0") = .ok (true, w) ∧
    ¬ w.Gone () "density_0_0" BACKEND.FILE :=
  ⟨_, rfl, fun gone => by cases gone.2⟩

end Directory

end Gorilla
