import Gorilla.BlockManager.Put
import Gorilla.Lib.Runs

/-!
# Runs of calls to a block manager

What a call leaves behind, whether it returned or threw: the block of its own id, and every
other block as it was.
-/

namespace Gorilla

open HandLock Runs

inductive BlockCall
  | putBlock (blockSummary : BlockSummary) (backend : Int) (dataPointer : DataPointer)
  | putArray (blockSummary : BlockSummary) (as : ArraySummary) (backend : Int)
    (dataPointer : Buffer)
  | getBlock (blockID : String) (backend : Int)
  | getBlockSubregion (blockID : String) (backend : Int) (dims : Nat)
    (subregionlb subregionub : Array3 Int)
  | getArray (blockName arrayName : String)
  | getBlockSummary (blockID : String)
  | eraseBlock (blockID : String)

namespace BlockCall

def blockID : BlockCall → String
  | .putBlock blockSummary _ _ | .putArray blockSummary _ _ _ => blockSummary.m_blockid
  | .getBlock blockID _ | .getBlockSubregion blockID _ _ _ _ | .getArray blockID _
  | .getBlockSummary blockID | .eraseBlock blockID => blockID

def run : BlockCall → EStateM Stop BlockManager Unit
  | .putBlock blockSummary backend dataPointer =>
    BlockManager.putBlock blockSummary backend dataPointer
  | .putArray blockSummary as backend dataPointer =>
    BlockManager.putArray blockSummary as backend dataPointer
  | .getBlock blockID backend => do
    let _ ← BlockManager.getBlock blockID backend
  | .getBlockSubregion blockID backend dims subregionlb subregionub => do
    let _ ← BlockManager.getBlockSubregion blockID backend dims subregionlb subregionub
  | .getArray blockName arrayName => fun m =>
    match m.getArray blockName arrayName with
    | .ok _ => .ok () m
    | .error e => .error e m
  | .getBlockSummary _ => fun m => .ok () m
  | .eraseBlock blockID => BlockManager.eraseBlock blockID

/-- Whether a call returned, and the manager it left: an exception leaves one as well. -/
def outcome (call : BlockCall) (m : BlockManager) : Except Stop (Bool × BlockManager) :=
  match call.run m with
  | .ok _ m' => .ok (true, m')
  | .error (.runtime_error _) m' => .ok (false, m')
  | .error e _ => .error e

theorem outcome_of_ok {call : BlockCall} {m m' : BlockManager} (h : call.run m = .ok () m') :
    call.outcome m = .ok (true, m') := by
  simp only [outcome, h]

theorem outcome_of_thrown {call : BlockCall} {m m' : BlockManager} {what : String}
    (h : call.run m = .error (.runtime_error what) m') :
    call.outcome m = .ok (false, m') := by
  simp only [outcome, h]

/-- A call that ends in an error and still has an outcome threw. -/
theorem outcome_of_error {call : BlockCall} {m m' m'' : BlockManager} {e : Stop} {done : Bool}
    (h : call.run m = .error e m') (out : call.outcome m = .ok (done, m'')) :
    (∃ what, e = .runtime_error what) ∧ done = false ∧ m'' = m' := by
  rw [outcome, h] at out
  cases e with
  | runtime_error what =>
    cases out
    exact ⟨⟨what, rfl⟩, rfl, rfl⟩
  | undefined what => cases out
  | blocked on => cases out

end BlockCall

namespace DataBlock

variable {b : DataBlock} {files : Files} {src : DataPointer}

/-- A put into the block can succeed: a VTK object is stored whatever its summary says. -/
def Storable (b : DataBlock) (files : Files) : Prop :=
  match b.storage with
  | .RawMemObj none => ∃ size, b.OwnSize size ∧ 0 ≤ truncInt size
  | .FileObj => (∃ size, b.OwnSize size) ∧ files.lookup b.m_blockSummary.m_blockid = none ∧
    files.creatable b.m_blockSummary.m_blockid
  | .VTKMemObj none => True
  | _ => False

theorem putData_returns_iff (defined : ∀ w, b.putData files src ≠ .error (.undefined w)) :
    (∃ r, b.putData files src = .ok r) ↔ b.Storable files := by
  obtain ⟨size, own⟩ | ⟨e, none_own⟩ :=
    ok_or_error (b.m_blockSummary.getArraySize b.m_blockSummary.m_blockid)
  · have same : ∀ n, b.OwnSize n ↔ n = size := by
      intro n
      rw [OwnSize, own]
      simp [eq_comm]
    rw [putData_returns own defined, Takes, Storable]
    cases b.storage with
    | RawMemObj m_rawMemPtr => cases m_rawMemPtr <;> simp [same]
    | VTKMemObj m_vtkobject => cases m_vtkobject <;> simp
    | _ => simp [same]
  · have unsized : ∀ n, ¬ b.OwnSize n := by
      intro n h
      rw [OwnSize, none_own] at h
      cases h
    unfold putData at *
    rw [Storable]
    cases hst : b.storage with
    | RawMemObj m_rawMemPtr =>
      cases m_rawMemPtr <;> simp [rawPutData, none_own, unsized, bind, Except.bind]
    | FileObj => simp [filePutData, none_own, unsized, bind, Except.bind]
    | VTKMemObj m_vtkobject =>
      rw [hst] at defined
      cases m_vtkobject with
      | some held => simp
      | none =>
        cases src with
        | smartPointer obj => simp [vtkPutData, bind, Except.bind, pure, Except.pure]
        | bytes contents => simp [vtkPutData, bind, Except.bind] at defined
    | VTKMemExplicitObj m_arrayMap => simp

/-- The block can be erased: a file of its own, if there is one, can be removed. -/
def Erasable (b : DataBlock) (files : Files) : Prop :=
  b.storage = .FileObj →
    b.m_blockid ≠ "" ∧ (files.lookup b.m_blockid ≠ none → files.removable b.m_blockid)

/-- The files without the block's own. -/
def withoutFile (b : DataBlock) (files : Files) : Files :=
  match b.storage with
  | .FileObj => files.erase b.m_blockid
  | _ => files

theorem eraseData_erasable (h : b.Erasable files) :
    b.eraseData files = .ok (b.withoutFile files) := by
  unfold Erasable at h
  unfold eraseData withoutFile
  cases hst : b.storage with
  | FileObj =>
    obtain ⟨named, removable⟩ := h hst
    dsimp only
    rw [if_neg named]
    cases hf : files.lookup b.m_blockid with
    | none =>
      rw [if_pos Option.isNone_none, Files.erase_absent hf]
    | some file =>
      rw [if_neg (by simp), if_pos (removable (by simp [hf]))]
  | _ => rfl

theorem eraseData_refused (h : ¬ b.Erasable files) :
    ∃ what, b.eraseData files = .error (.runtime_error what) := by
  unfold Erasable at h
  push Not at h
  obtain ⟨file, cannot⟩ := h
  unfold eraseData
  rw [file]
  dsimp only
  by_cases named : b.m_blockid = ""
  · exact ⟨_, if_pos named⟩
  · obtain ⟨found, kept⟩ := cannot named
    refine ⟨_, (if_neg named).trans ((if_neg ?_).trans (if_neg kept))⟩
    simpa using found

end DataBlock

namespace BlockManager

variable {m m' : BlockManager} {blockID : String} {backend : Int} {handle : DataBlock}

def block (m : BlockManager) (blockID : String) : Option DataBlock :=
  m.DataBlockMap.lookup blockID

/-- An erase of the id returns: there is no such block, or it can be erased. -/
def Erasable (m : BlockManager) (blockID : String) : Prop :=
  ∀ handle, m.block blockID = some handle → handle.Erasable m.files

/-- The manager without the block of the id, and without the file of that block. -/
def erased (m : BlockManager) (blockID : String) : BlockManager :=
  match m.DataBlockMap.lookup blockID with
  | none => m
  | some handle =>
    { DataBlockMap := m.DataBlockMap.erase blockID, files := handle.withoutFile m.files }

theorem eraseBlock_erasable (h : m.Erasable blockID) :
    eraseBlock blockID m = .ok () (m.erased blockID) := by
  unfold eraseBlock erased
  cases hl : m.DataBlockMap.lookup blockID with
  | none => rfl
  | some handle =>
    dsimp only
    rw [DataBlock.eraseData_erasable (h handle hl)]

/-- An erase that throws leaves the manager as it was. -/
theorem eraseBlock_refused (h : ¬ m.Erasable blockID) :
    ∃ what, eraseBlock blockID m = .error (.runtime_error what) m := by
  unfold Erasable at h
  push Not at h
  obtain ⟨handle, hl, cannot⟩ := h
  obtain ⟨what, thrown⟩ := DataBlock.eraseData_refused cannot
  unfold eraseBlock
  rw [show m.DataBlockMap.lookup blockID = some handle from hl]
  dsimp only
  rw [thrown]
  exact ⟨what, rfl⟩

/-- The object that a call gets when it asks for the handle of an id. -/
def asked (m : BlockManager) (blockID : String) (backend : Int) : Option DataBlock :=
  if blockID = "" then none else m.handleOf blockID backend

theorem asked_eq_some :
    m.asked blockID backend = some handle ↔
      blockID ≠ "" ∧ m.handleOf blockID backend = some handle := by
  unfold asked
  by_cases h : blockID = "" <;> simp [h]

theorem newHandle_thrown {e : Stop} (h : newHandle blockID backend = .error e) :
    ∃ what, e = .runtime_error what := by
  unfold newHandle at h
  split at h
  · cases h
    exact ⟨_, rfl⟩
  · split at h
    · cases h
      exact ⟨_, rfl⟩
    · cases h

theorem getBlockHandle_refused (h : m.asked blockID backend = none) :
    ∃ what, m.getBlockHandle blockID backend = .error (.runtime_error what) := by
  unfold getBlockHandle
  unfold asked at h
  split
  · exact ⟨_, rfl⟩
  · rename_i hid
    rw [if_neg hid, handleOf] at h
    cases hl : m.DataBlockMap.lookup blockID with
    | some old => simp [hl] at h
    | none =>
      rw [hl] at h
      dsimp only at h ⊢
      cases hn : newHandle blockID backend with
      | ok new => simp [hn, Except.toOption] at h
      | error e =>
        obtain ⟨what, rfl⟩ := newHandle_thrown hn
        exact ⟨what, rfl⟩

/-- The manager once the handle of an id is in its map. -/
def opened (m : BlockManager) (blockID : String) (handle : DataBlock) : BlockManager :=
  if (m.DataBlockMap.lookup blockID).isSome then m else m.store blockID handle

theorem getBlockHandle_asked (h : m.asked blockID backend = some handle) :
    m.getBlockHandle blockID backend = .ok (handle, m.opened blockID handle) := by
  obtain ⟨hid, hof⟩ := asked_eq_some.mp h
  exact getBlockHandle_eq_ok.mpr ⟨hid, hof, rfl⟩

@[simp] theorem files_opened : (m.opened blockID handle).files = m.files := by
  unfold opened
  split <;> rfl

theorem block_store (id : String) :
    (m.store blockID handle).block id = if id = blockID then some handle else m.block id := by
  by_cases h : id = blockID
  · subst h
    simp [store, block]
  · simp [store, block, h, AList.lookup_insert_ne h]

theorem block_opened (h : m.asked blockID backend = some handle) (id : String) :
    (m.opened blockID handle).block id = if id = blockID then some handle else m.block id := by
  unfold opened
  split
  · rename_i present
    by_cases hid : id = blockID
    · subst hid
      obtain ⟨_, hof⟩ := asked_eq_some.mp h
      obtain ⟨old, hold⟩ := Option.isSome_iff_exists.mp present
      rw [handleOf, hold] at hof
      rw [if_pos rfl, block, hold]
      exact hof
    · rw [if_neg hid]
  · exact block_store id

theorem store_opened (a : DataBlock) :
    (m.opened blockID handle).store blockID a = m.store blockID a := by
  unfold opened
  split
  · rfl
  · exact store_store blockID handle a

theorem asked_of_block (hid : blockID ≠ "") (h : m.block blockID = some handle) (backend : Int) :
    m.asked blockID backend = some handle := by
  rw [block] at h
  exact asked_eq_some.mpr ⟨hid, by rw [handleOf, h]⟩

/-- A read takes over the summary of a file, and changes nothing else of the block. -/
theorem block_reread (h : m.block blockID = some handle) :
    ∃ summary, (m.reread blockID handle).block blockID =
      some { handle with m_blockSummary := summary } ∧
      (handle.storage ≠ .FileObj → summary = handle.m_blockSummary) := by
  unfold reread
  split
  · rename_i hs
    split
    · rename_i file hf
      exact ⟨file.1, by rw [block_store, if_pos rfl], fun hne => absurd hs hne⟩
    · exact ⟨handle.m_blockSummary, h, fun _ => rfl⟩
  · exact ⟨handle.m_blockSummary, h, fun _ => rfl⟩

theorem block_reread_ne {id : String} (hne : id ≠ blockID) :
    (m.reread blockID handle).block id = m.block id := by
  unfold reread
  split
  · split
    · rw [block_store, if_neg hne]
    · rfl
  · rfl

@[simp] theorem files_reread : (m.reread blockID handle).files = m.files := by
  unfold reread
  split
  · split <;> rfl
  · rfl

/-! ### What each call leaves -/

section Outcomes
variable {blockSummary : BlockSummary} {src : DataPointer} {as : ArraySummary} {data : Buffer}
  {done : Bool}

theorem putBlock_refused (h : m.asked blockSummary.m_blockid backend = none)
    (out : (BlockCall.putBlock blockSummary backend src).outcome m = .ok (done, m')) :
    done = false ∧ m' = m := by
  obtain ⟨what, hh⟩ := getBlockHandle_refused h
  have run : (BlockCall.putBlock blockSummary backend src).run m =
      .error (.runtime_error what) m := by
    simp only [BlockCall.run, putBlock, hh]
  rw [BlockCall.outcome_of_thrown run] at out
  cases out
  exact ⟨rfl, rfl⟩

/-- A put that throws has put its summary and nothing else. -/
theorem putBlock_outcome (h : m.asked blockSummary.m_blockid backend = some handle)
    (out : (BlockCall.putBlock blockSummary backend src).outcome m = .ok (done, m')) :
    (done = true ∧ ∃ handle' files,
      ({ handle with m_blockSummary := blockSummary } : DataBlock).putData m.files src =
        .ok (handle', files) ∧
      m' = ⟨m.DataBlockMap.insert blockSummary.m_blockid handle', files⟩) ∨
    (done = false ∧ (∃ what,
      ({ handle with m_blockSummary := blockSummary } : DataBlock).putData m.files src =
        .error (.runtime_error what)) ∧
      m' = m.store blockSummary.m_blockid { handle with m_blockSummary := blockSummary }) := by
  obtain ⟨hid, hof⟩ := asked_eq_some.mp h
  have run : (BlockCall.putBlock blockSummary backend src).run m = _ :=
    putBlock_of_handle hid hof
  cases hput : ({ handle with m_blockSummary := blockSummary } : DataBlock).putData m.files src with
  | ok r =>
    rw [hput] at run
    rw [BlockCall.outcome_of_ok run] at out
    cases out
    exact .inl ⟨rfl, r.1, r.2, rfl, rfl⟩
  | error e =>
    rw [hput] at run
    obtain ⟨⟨what, rfl⟩, rfl, rfl⟩ := BlockCall.outcome_of_error run out
    exact .inr ⟨rfl, ⟨what, rfl⟩, rfl⟩

theorem putArray_refused (h : m.asked blockSummary.m_blockid backend = none)
    (out : (BlockCall.putArray blockSummary as backend data).outcome m = .ok (done, m')) :
    done = false ∧ m' = m := by
  obtain ⟨what, hh⟩ := getBlockHandle_refused h
  have run : (BlockCall.putArray blockSummary as backend data).run m =
      .error (.runtime_error what) m := by
    simp only [BlockCall.run, putArray, hh]
  rw [BlockCall.outcome_of_thrown run] at out
  cases out
  exact ⟨rfl, rfl⟩

theorem addArraySummary_kept (bs : BlockSummary) (as : ArraySummary) :
    (exit (bs.addArraySummary as bs)).m_blockid = bs.m_blockid := by
  unfold BlockSummary.addArraySummary
  cases bs.findArray as.m_arrayName with
  | some old => rfl
  | none =>
    by_cases full : ARRAYLENINBLOCK ≤ bs.m_arrayListLen
    · simp only [Option.isSome_none, Bool.false_eq_true, if_false, if_pos full]
      rfl
    · simp only [Option.isSome_none, Bool.false_eq_true, if_false, if_neg full]
      by_cases last : ARRAYLENINBLOCK ≤ bs.m_arrayListLen + 1
      · rw [if_pos last]
        rfl
      · rw [if_neg last]
        rfl

theorem addArraySummary_ok {bs bs' : BlockSummary} (h : bs.addArraySummary as bs = .ok () bs') :
    bs' = { bs with m_arrayList := bs.m_arrayList ++ [as] } := by
  unfold BlockSummary.addArraySummary at h
  cases hf : bs.findArray as.m_arrayName with
  | some old =>
    rw [hf] at h
    cases h
  | none =>
    rw [hf] at h
    by_cases full : ARRAYLENINBLOCK ≤ bs.m_arrayListLen
    · simp only [Option.isSome_none, Bool.false_eq_true, if_false, if_pos full] at h
      cases h
    · simp only [Option.isSome_none, Bool.false_eq_true, if_false, if_neg full] at h
      by_cases last : ARRAYLENINBLOCK ≤ bs.m_arrayListLen + 1
      · rw [if_pos last] at h
        cases h
      · rw [if_neg last] at h
        cases h
        rfl

/-- An array goes into a block that holds arrays, or leaves the storage as it was. -/
theorem putArray_outcome (h : m.asked blockSummary.m_blockid backend = some handle)
    (out : (BlockCall.putArray blockSummary as backend data).outcome m = .ok (done, m')) :
    ∃ summary, summary.m_blockid = (summaryFor handle blockSummary).m_blockid ∧
      ((done = true ∧ ∃ m_arrayMap, handle.storage = .VTKMemExplicitObj m_arrayMap ∧
        (summaryFor handle blockSummary).addArraySummary as (summaryFor handle blockSummary) =
          .ok () summary ∧
        m' = m.store blockSummary.m_blockid { handle with
          m_blockSummary := summary
          storage := .VTKMemExplicitObj (m_arrayMap ++ [(as, data)]) }) ∨
      (done = false ∧
        m' = m.store blockSummary.m_blockid { handle with m_blockSummary := summary })) := by
  have hh := getBlockHandle_asked h
  have kept := addArraySummary_kept (summaryFor handle blockSummary) as
  cases hadd : (summaryFor handle blockSummary).addArraySummary as
      (summaryFor handle blockSummary) with
  | error e summary =>
    rw [hadd, exit_error] at kept
    have run : (BlockCall.putArray blockSummary as backend data).run m =
        .error e (m.store blockSummary.m_blockid { handle with m_blockSummary := summary }) := by
      rw [summaryFor] at hadd
      simp only [BlockCall.run, putArray, hh, hadd, store_opened]
    obtain ⟨_, rfl, rfl⟩ := BlockCall.outcome_of_error run out
    exact ⟨summary, kept, .inr ⟨rfl, rfl⟩⟩
  | ok u summary =>
    rw [hadd, exit_ok] at kept
    have run : (BlockCall.putArray blockSummary as backend data).run m = _ := putArray_added hh hadd
    simp only [store_opened] at run
    cases hput : ({ handle with m_blockSummary := summary } : DataBlock).putArray as data with
    | error e =>
      rw [hput] at run
      obtain ⟨_, rfl, rfl⟩ := BlockCall.outcome_of_error run out
      exact ⟨summary, kept, .inr ⟨rfl, rfl⟩⟩
    | ok handle' =>
      rw [hput] at run
      rw [BlockCall.outcome_of_ok run] at out
      cases out
      obtain ⟨m_arrayMap, hst, _⟩ := handle_putArray_returns.mp ⟨handle', hput⟩
      dsimp only at hst
      have put : handle' = { handle with
          m_blockSummary := summary
          storage := .VTKMemExplicitObj (m_arrayMap ++ [(as, data)]) } := by
        simp only [DataBlock.putArray, hst] at hput
        split at hput
        · cases hput
        · exact (Except.ok.inj hput).symm
      exact ⟨summary, kept, .inl ⟨rfl, m_arrayMap, hst, rfl, by rw [put]⟩⟩

theorem getBlockSubregion_refused {dims : Nat} {lb ub : Array3 Int}
    (h : m.asked blockID backend = none)
    (out : (BlockCall.getBlockSubregion blockID backend dims lb ub).outcome m = .ok (done, m')) :
    m' = m := by
  obtain ⟨what, hh⟩ := getBlockHandle_refused h
  have run : (BlockCall.getBlockSubregion blockID backend dims lb ub).run m =
      .error (.runtime_error what) m := by
    refine bind_error ?_
    simp only [getBlockSubregion, hh]
  rw [BlockCall.outcome_of_thrown run] at out
  cases out
  rfl

theorem getBlockSubregion_outcome {dims : Nat} {lb ub : Array3 Int}
    (h : m.asked blockID backend = some handle)
    (out : (BlockCall.getBlockSubregion blockID backend dims lb ub).outcome m = .ok (done, m')) :
    m' = (m.opened blockID handle).reread blockID handle := by
  have hh := getBlockHandle_asked h
  cases hr : handle.getDataSubregion (m.opened blockID handle).files dims lb ub with
  | ok r =>
    have run : (BlockCall.getBlockSubregion blockID backend dims lb ub).run m =
        .ok () ((m.opened blockID handle).reread blockID handle) := by
      refine (bind_ok (a := r) ?_).trans rfl
      simp only [getBlockSubregion, hh, hr]
    rw [BlockCall.outcome_of_ok run] at out
    cases out
    rfl
  | error e =>
    have run : (BlockCall.getBlockSubregion blockID backend dims lb ub).run m =
        .error e ((m.opened blockID handle).reread blockID handle) := by
      refine bind_error ?_
      simp only [getBlockSubregion, hh, hr]
    exact (BlockCall.outcome_of_error run out).2.2

/-- The backends whose blocks are not looked for outside the map. -/
def InMemory (backend : Int) : Prop :=
  backend = BACKEND.MEMVTKPTR ∨ backend = BACKEND.MEMVTKEXPLICIT ∨ backend = BACKEND.MEM

instance (backend : Int) : Decidable (InMemory backend) := inferInstanceAs (Decidable (_ ∨ _))

/-- The object `getBlock` reads. -/
def askedRead (m : BlockManager) (blockID : String) (backend : Int) : Option DataBlock :=
  if InMemory backend ∧ (m.block blockID).isNone then none else m.asked blockID backend

/-- Without an object the read is empty, or throws. -/
theorem getBlock_none (h : m.askedRead blockID backend = none) :
    getBlock blockID backend m = .ok ({}, none) m ∨
      ∃ what, getBlock blockID backend m = .error (.runtime_error what) m := by
  unfold askedRead at h
  by_cases hin : InMemory backend ∧ (m.block blockID).isNone
  · exact .inl (if_pos hin)
  · rw [if_neg hin] at h
    obtain ⟨what, hh⟩ := getBlockHandle_refused h
    refine .inr ⟨what, (if_neg hin).trans ?_⟩
    rw [hh]

theorem getBlock_some (h : m.askedRead blockID backend = some handle) :
    getBlock blockID backend m =
      match handle.getData m.files with
      | .error e => .error e ((m.opened blockID handle).reread blockID handle)
      | .ok (bs, data) =>
        .ok (bs, some data) ((m.opened blockID handle).reread blockID handle) := by
  unfold askedRead at h
  by_cases hin : InMemory backend ∧ (m.block blockID).isNone
  · rw [if_pos hin] at h
    cases h
  · rw [if_neg hin] at h
    refine (if_neg hin).trans ?_
    cases hd : handle.getData m.files <;>
      simp only [getBlockHandle_asked h, files_opened, hd]

theorem getBlock_refused (h : m.askedRead blockID backend = none)
    (out : (BlockCall.getBlock blockID backend).outcome m = .ok (done, m')) : m' = m := by
  rcases getBlock_none h with empty | ⟨what, thrown⟩
  · have run : (BlockCall.getBlock blockID backend).run m = .ok () m := (bind_ok empty).trans rfl
    rw [BlockCall.outcome_of_ok run] at out
    cases out
    rfl
  · have run : (BlockCall.getBlock blockID backend).run m = .error (.runtime_error what) m :=
      bind_error thrown
    rw [BlockCall.outcome_of_thrown run] at out
    cases out
    rfl

theorem getBlock_outcome (h : m.askedRead blockID backend = some handle)
    (out : (BlockCall.getBlock blockID backend).outcome m = .ok (done, m')) :
    m' = (m.opened blockID handle).reread blockID handle := by
  have get := getBlock_some h
  cases hr : handle.getData m.files with
  | ok r =>
    rw [hr] at get
    have run : (BlockCall.getBlock blockID backend).run m =
        .ok () ((m.opened blockID handle).reread blockID handle) := (bind_ok get).trans rfl
    rw [BlockCall.outcome_of_ok run] at out
    cases out
    rfl
  | error e =>
    rw [hr] at get
    have run : (BlockCall.getBlock blockID backend).run m =
        .error e ((m.opened blockID handle).reread blockID handle) := bind_error get
    exact (BlockCall.outcome_of_error run out).2.2

theorem getArray_outcome {blockName arrayName : String}
    (out : (BlockCall.getArray blockName arrayName).outcome m = .ok (done, m')) : m' = m := by
  cases hr : m.getArray blockName arrayName with
  | ok r =>
    have run : (BlockCall.getArray blockName arrayName).run m = .ok () m := by
      simp only [BlockCall.run, hr]
    rw [BlockCall.outcome_of_ok run] at out
    cases out
    rfl
  | error e =>
    have run : (BlockCall.getArray blockName arrayName).run m = .error e m := by
      simp only [BlockCall.run, hr]
    exact (BlockCall.outcome_of_error run out).2.2

/-! ### The block a call works on -/

end Outcomes

end BlockManager

namespace BlockCall

variable {call : BlockCall} {m m' : BlockManager} {handle : DataBlock} {done : Bool}

open BlockManager

/-- The object a call works on; the other calls make none. -/
def object (call : BlockCall) (m : BlockManager) : Option DataBlock :=
  match call with
  | .putBlock blockSummary backend _ => m.asked blockSummary.m_blockid backend
  | .putArray blockSummary _ backend _ => m.asked blockSummary.m_blockid backend
  | .getBlock blockID backend => m.askedRead blockID backend
  | .getBlockSubregion blockID backend _ _ _ => m.asked blockID backend
  | .getArray _ _ | .getBlockSummary _ | .eraseBlock _ => none

def isPut : BlockCall → Bool
  | .putBlock _ _ _ | .putArray _ _ _ _ => true
  | _ => false

def isErase : BlockCall → Bool
  | .eraseBlock _ => true
  | _ => false

/-- A call that gets no object leaves the manager as it was, and no put of it returns. -/
theorem outcome_none (h : call.object m = none) (keeps : call.isErase = false)
    (out : call.outcome m = .ok (done, m')) : m' = m ∧ (call.isPut → done = false) := by
  cases call with
  | putBlock blockSummary backend src =>
    obtain ⟨refused, same⟩ := putBlock_refused h out
    exact ⟨same, fun _ => refused⟩
  | putArray blockSummary as backend data =>
    obtain ⟨refused, same⟩ := putArray_refused h out
    exact ⟨same, fun _ => refused⟩
  | getBlock blockID backend => exact ⟨getBlock_refused h out, by simp [isPut]⟩
  | getBlockSubregion blockID backend dims lb ub =>
    exact ⟨getBlockSubregion_refused h out, by simp [isPut]⟩
  | getArray blockName arrayName => exact ⟨getArray_outcome out, by simp [isPut]⟩
  | getBlockSummary blockID =>
    cases out
    exact ⟨rfl, by simp [isPut]⟩
  | eraseBlock blockID => cases keeps

theorem askedRead_asked {blockID : String} {backend : Int}
    (h : m.askedRead blockID backend = some handle) : m.asked blockID backend = some handle := by
  unfold askedRead at h
  split at h
  · cases h
  · exact h

/-- A read leaves the block it opened under its id, and no other block touched. -/
theorem block_read {blockID : String} {backend : Int}
    (h : m.asked blockID backend = some handle) :
    (∃ summary, ((m.opened blockID handle).reread blockID handle).block blockID =
      some { handle with m_blockSummary := summary } ∧
      (handle.storage ≠ .FileObj → summary = handle.m_blockSummary)) ∧
    ∀ id, id ≠ blockID → ((m.opened blockID handle).reread blockID handle).block id =
      m.block id := by
  have hopen := block_opened h
  refine ⟨block_reread ((hopen blockID).trans (if_pos rfl)), fun id hne => ?_⟩
  rw [block_reread_ne hne, hopen, if_neg hne]

theorem block_insert {blockID : String} {files : Files} (id : String) :
    (BlockManager.mk (m.DataBlockMap.insert blockID handle) files).block id =
      if id = blockID then some handle else m.block id :=
  block_store (m := m) id

/-- A call that gets an object leaves a block under its id, and every other block as it was. -/
theorem outcome_some (h : call.object m = some handle)
    (out : call.outcome m = .ok (done, m')) :
    (m'.block call.blockID).isSome ∧ ∀ id, id ≠ call.blockID → m'.block id = m.block id := by
  have reads : ∀ {blockID backend}, m.asked blockID backend = some handle →
      m' = (m.opened blockID handle).reread blockID handle →
      (m'.block blockID).isSome ∧ ∀ id, id ≠ blockID → m'.block id = m.block id := by
    rintro blockID backend hasked rfl
    obtain ⟨⟨summary, own, _⟩, others⟩ := block_read hasked
    exact ⟨by rw [own]; rfl, others⟩
  have stores : ∀ {blockID handle'},
      (∀ id, m'.block id = if id = blockID then some handle' else m.block id) →
      (m'.block blockID).isSome ∧ ∀ id, id ≠ blockID → m'.block id = m.block id := by
    intro blockID handle' h
    refine ⟨?_, fun id hne => ?_⟩
    · rw [h, if_pos rfl]
      rfl
    · rw [h, if_neg hne]
  cases call with
  | putBlock blockSummary backend src =>
    rcases putBlock_outcome h out with ⟨_, handle', files, _, rfl⟩ | ⟨_, _, rfl⟩
    · exact stores block_insert
    · exact stores block_store
  | putArray blockSummary as backend data =>
    obtain ⟨summary, _, ⟨_, m_arrayMap, _, _, rfl⟩ | ⟨_, rfl⟩⟩ := putArray_outcome h out
    · exact stores block_store
    · exact stores block_store
  | getBlock blockID backend => exact reads (askedRead_asked h) (getBlock_outcome h out)
  | getBlockSubregion blockID backend dims lb ub => exact reads h (getBlockSubregion_outcome h out)
  | getArray blockName arrayName => cases h
  | getBlockSummary blockID => cases h
  | eraseBlock blockID => cases h

theorem eraseBlock_outcome {blockID : String}
    (out : (BlockCall.eraseBlock blockID).outcome m = .ok (done, m')) :
    (done = true ∧ m.Erasable blockID ∧ m' = m.erased blockID) ∨
      (done = false ∧ ¬ m.Erasable blockID ∧ m' = m) := by
  by_cases erasable : m.Erasable blockID
  · have run : (BlockCall.eraseBlock blockID).run m = .ok () (m.erased blockID) :=
      eraseBlock_erasable erasable
    rw [outcome_of_ok run] at out
    cases out
    exact .inl ⟨rfl, erasable, rfl⟩
  · obtain ⟨what, thrown⟩ := eraseBlock_refused erasable
    have run : (BlockCall.eraseBlock blockID).run m = .error (.runtime_error what) m := thrown
    rw [outcome_of_thrown run] at out
    cases out
    exact .inr ⟨rfl, erasable, rfl⟩

theorem block_erased {blockID : String} (id : String) :
    (m.erased blockID).block id = if id = blockID then none else m.block id := by
  unfold BlockManager.erased
  cases hl : m.DataBlockMap.lookup blockID with
  | none =>
    by_cases h : id = blockID
    · subst h
      rw [if_pos rfl]
      exact hl
    · rw [if_neg h]
  | some old =>
    by_cases h : id = blockID
    · subst h
      simp [block]
    · simp [block, h, AList.lookup_erase_ne h]

end BlockCall

end Gorilla
