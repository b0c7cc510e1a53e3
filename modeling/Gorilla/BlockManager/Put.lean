import Gorilla.BlockManager.BlockManager
import Gorilla.Lib.Outcome

/-!
# What a put leaves in the block manager

A put that returns leaves exactly one block different, the one it names. A block that
holds data takes no second put.
-/

namespace Gorilla

open HandLock Outcome

/-- Nothing can be said of a run with undefined behaviour. -/
def IsUndefined : Stop → Prop
  | .undefined _ => True
  | _ => False

namespace BlockSummary

variable {bs : BlockSummary} {what missing arrayName : String} {as : ArraySummary}

/-- The data types whose arrays carry sizes. -/
def Sized (bs : BlockSummary) : Prop :=
  bs.m_dataType = DATATYPE_CARGRID ∨ bs.m_dataType = DATATYPE_VTKPTR

instance (bs : BlockSummary) : Decidable bs.Sized := inferInstanceAs (Decidable (_ ∨ _))

theorem arrayOf_eq_ok : bs.arrayOf what missing arrayName = .ok as ↔
    bs.Sized ∧ bs.findArray arrayName = some as := by
  unfold arrayOf
  by_cases h : bs.Sized
  · have hn : ¬(bs.m_dataType ≠ DATATYPE_CARGRID ∧ bs.m_dataType ≠ DATATYPE_VTKPTR) := by
      rintro ⟨hc, hv⟩
      exact h.elim hc hv
    rw [if_neg hn]
    cases bs.findArray arrayName <;> simp [h]
  · rw [if_pos (not_or.mp h)]
    simp [h]

/-- The size of the array that has the block's own name. -/
theorem getArraySize_eq_ok {size : UInt64} : bs.getArraySize arrayName = .ok size ↔
    bs.Sized ∧ ∃ as, bs.findArray arrayName = some as ∧ as.m_elemNum * as.m_elemSize = size := by
  unfold getArraySize
  rw [bind_eq_ok]
  simp only [arrayOf_eq_ok, and_assoc]
  constructor
  · rintro ⟨as, hs, hf, he⟩
    exact ⟨hs, as, hf, Except.ok.inj he⟩
  · rintro ⟨hs, as, hf, rfl⟩
    exact ⟨as, hs, hf, rfl⟩

end BlockSummary

namespace DataBlock

variable {b b' : DataBlock} {files files' : Files} {src : DataPointer} {size : UInt64}

theorem truncInt_le (n : UInt64) : truncInt n ≤ INT_MAX := by
  unfold truncInt INT_MAX
  dsimp only
  split <;> omega

theorem truncInt_of_lt {n : UInt64} (h : n.toNat < 2 ^ 31) : truncInt n = n.toNat := by
  unfold truncInt INT_MAX
  dsimp only
  rw [if_pos (by omega)]
  omega

/-- Of the sizes that stay positive, `int` keeps the small ones. -/
theorem truncInt_eq_iff {n : UInt64} (h : 0 ≤ truncInt n) :
    (truncInt n).toNat = n.toNat ↔ n.toNat < 2 ^ 31 := by
  constructor
  · intro he
    have hle := truncInt_le n
    unfold INT_MAX at hle
    omega
  · intro hlt
    rw [truncInt_of_lt hlt]
    rfl

/-- The array with the block's own name has the size. -/
def OwnSize (b : DataBlock) (size : UInt64) : Prop :=
  b.m_blockSummary.getArraySize b.m_blockSummary.m_blockid = .ok size

/-- The block after its raw memory was filled. -/
def filled (b : DataBlock) (src : DataPointer) (size : UInt64) : DataBlock :=
  { b with storage := .RawMemObj (some (src.readable.take (truncInt size).toNat)) }

theorem rawPutData_none (own : b.OwnSize size) : b.rawPutData src none =
    if truncInt size < 0 then .error (.runtime_error "std::bad_alloc")
    else if (truncInt size).toNat ≤ src.readable.length then .ok (b.filled src size)
    else .error (.undefined "memcpy outside a buffer") := by
  unfold rawPutData
  rw [OwnSize] at own
  rw [own]
  show (if truncInt size < 0 then _ else _) = _
  by_cases h : truncInt size < 0
  · rw [if_pos h, if_pos h]
    rfl
  · rw [if_neg h, if_neg h]
    have hn : (size_t (truncInt size)).toNat = (truncInt size).toNat := by
      have hle := truncInt_le size
      unfold INT_MAX at hle
      exact size_t_toNat (by omega) (by omega)
    by_cases hr : (truncInt size).toNat ≤ src.readable.length
    · have hc := (Buffer.copy_eq_ok hn).mpr ⟨hr, rfl⟩
      rw [if_pos hr]
      exact bind_eq_ok.mpr ⟨_, hc, rfl⟩
    · rw [if_neg hr, Buffer.memcpy, if_neg (by omega)]
      rfl

theorem rawPutData_some (own : b.OwnSize size) (held : Buffer) :
    b.rawPutData src (some held) = .error (.runtime_error
      "failed to putData the memroy for RawMemObj, there is existing data") := by
  unfold rawPutData
  rw [OwnSize] at own
  rw [own]
  rfl

theorem filePutData_eq (own : b.OwnSize size) : filePutData files b src =
    if (files.lookup b.m_blockSummary.m_blockid).isSome then .error (.runtime_error "file exist")
    else if ¬ files.creatable b.m_blockSummary.m_blockid then
      .error (.runtime_error "not good to write into the file")
    else if size.toNat ≤ src.readable.length then
      .ok (b, files.insert b.m_blockSummary.m_blockid
        (b.m_blockSummary, src.readable.take size.toNat))
    else .error (.undefined "memcpy outside a buffer") := by
  unfold filePutData
  rw [OwnSize] at own
  rw [own]
  show (if (files.lookup b.m_blockSummary.m_blockid).isSome then _ else _) = _
  by_cases h : (files.lookup b.m_blockSummary.m_blockid).isSome
  · rw [if_pos h, if_pos h]
    rfl
  · rw [if_neg h, if_neg h]
    show (if ¬ files.creatable b.m_blockSummary.m_blockid then _ else _) = _
    by_cases hc : files.creatable b.m_blockSummary.m_blockid
    · rw [if_neg (not_not.mpr hc), if_neg (not_not.mpr hc)]
      by_cases hr : size.toNat ≤ src.readable.length
      · have copied := (Buffer.copy_eq_ok (rfl : size.toNat = size.toNat)).mpr ⟨hr, rfl⟩
        rw [if_pos hr]
        exact bind_eq_ok.mpr ⟨_, copied, rfl⟩
      · rw [if_neg hr]
        show (Buffer.memcpy _ _ _ _ _ >>= _) = _
        rw [Buffer.memcpy, if_neg (by omega)]
        rfl
    · rw [if_pos hc, if_pos hc]
      rfl

/-- What a put that returns does: it fills empty memory, writes a new file, or keeps the object
it was given. -/
inductive Stores (b : DataBlock) (files : Files) (src : DataPointer) : DataBlock → Files → Prop
  | raw {size : UInt64} (empty : b.storage = .RawMemObj none) (own : b.OwnSize size)
    (sized : ¬truncInt size < 0) (readable : (truncInt size).toNat ≤ src.readable.length) :
    Stores b files src (b.filled src size) files
  | file {size : UInt64} (file : b.storage = .FileObj) (own : b.OwnSize size)
    (creatable : files.creatable b.m_blockSummary.m_blockid)
    (readable : size.toNat ≤ src.readable.length) :
    Stores b files src b (files.insert b.m_blockSummary.m_blockid
      (b.m_blockSummary, src.readable.take size.toNat))
  | vtk {vtkobject : Buffer} (empty : b.storage = .VTKMemObj none)
    (object : src = .smartPointer vtkobject) :
    Stores b files src { b with storage := .VTKMemObj (some vtkobject) } files

theorem stores_of_putData (put : b.putData files src = .ok (b', files')) :
    Stores b files src b' files' := by
  cases hst : b.storage with
  | RawMemObj m_rawMemPtr =>
    unfold putData at put
    rw [hst] at put
    obtain ⟨filled, hraw, done⟩ := bind_eq_ok.mp put
    cases done
    cases m_rawMemPtr with
    | some held =>
      obtain ⟨_, _, thrown⟩ := bind_eq_ok.mp hraw
      cases thrown
    | none =>
      obtain ⟨size, own, _⟩ := bind_eq_ok.mp hraw
      rw [rawPutData_none own] at hraw
      by_cases negative : truncInt size < 0
      · rw [if_pos negative] at hraw
        cases hraw
      · rw [if_neg negative] at hraw
        by_cases readable : (truncInt size).toNat ≤ src.readable.length
        · rw [if_pos readable] at hraw
          cases hraw
          exact .raw hst own negative readable
        · rw [if_neg readable] at hraw
          cases hraw
  | FileObj =>
    unfold putData at put
    rw [hst] at put
    obtain ⟨size, own, _⟩ := bind_eq_ok.mp put
    have run : filePutData files b src = .ok (b', files') := put
    rw [filePutData_eq own] at run
    by_cases exist : (files.lookup b.m_blockSummary.m_blockid).isSome
    · rw [if_pos exist] at run
      cases run
    · rw [if_neg exist] at run
      by_cases creatable : files.creatable b.m_blockSummary.m_blockid
      · rw [if_neg (not_not.mpr creatable)] at run
        by_cases readable : size.toNat ≤ src.readable.length
        · rw [if_pos readable] at run
          cases run
          exact .file hst own creatable readable
        · rw [if_neg readable] at run
          cases run
      · rw [if_pos creatable] at run
        cases run
  | VTKMemObj m_vtkobject =>
    unfold putData at put
    rw [hst] at put
    cases m_vtkobject with
    | some held => cases put
    | none =>
      obtain ⟨vtk, hvtk, done⟩ := bind_eq_ok.mp put
      cases done
      cases src with
      | bytes contents => cases hvtk
      | smartPointer vtkobject =>
        cases hvtk
        exact .vtk hst rfl
  | VTKMemExplicitObj m_arrayMap =>
    unfold putData at put
    rw [hst] at put
    cases put

/-- The storage has room for data of the size. -/
def Takes (b : DataBlock) (files : Files) (size : UInt64) : Prop :=
  match b.storage with
  | .RawMemObj none => 0 ≤ truncInt size
  | .FileObj => files.lookup b.m_blockSummary.m_blockid = none ∧
    files.creatable b.m_blockSummary.m_blockid
  | .VTKMemObj none => True
  | _ => False

/-- A put whose pointer can be read returns exactly when the storage has room. -/
theorem putData_returns (own : b.OwnSize size)
    (defined : ∀ w, b.putData files src ≠ .error (.undefined w)) :
    (∃ r, b.putData files src = .ok r) ↔ b.Takes files size := by
  unfold putData at *
  unfold Takes
  cases hst : b.storage with
  | RawMemObj m_rawMemPtr =>
    rw [hst] at defined
    cases m_rawMemPtr with
    | some held =>
      simp only [rawPutData_some own held]
      simp [bind, Except.bind]
    | none =>
      simp only [rawPutData_none own] at *
      by_cases hneg : truncInt size < 0
      · simp [hneg, Int.not_le.mpr hneg, bind, Except.bind]
      · by_cases hr : (truncInt size).toNat ≤ src.readable.length
        · simp [hneg, hr, Int.not_lt.mp hneg, bind, Except.bind, pure, Except.pure]
        · simp [hneg, hr, bind, Except.bind] at defined
  | FileObj =>
    rw [hst] at defined
    simp only [filePutData_eq own] at *
    cases hf : files.lookup b.m_blockSummary.m_blockid with
    | some file => simp
    | none =>
      cases hc : files.creatable b.m_blockSummary.m_blockid with
      | false => simp
      | true =>
        by_cases hr : size.toNat ≤ src.readable.length
        · simp [hr]
        · simp [hf, hc, hr] at defined
  | VTKMemObj m_vtkobject =>
    rw [hst] at defined
    cases m_vtkobject with
    | some held => simp
    | none =>
      cases src with
      | smartPointer obj => simp [vtkPutData, bind, Except.bind, pure, Except.pure]
      | bytes contents => simp [vtkPutData, bind, Except.bind] at defined
  | VTKMemExplicitObj m_arrayMap => simp

/-- Bytes are put into raw memory or into a file. -/
theorem putData_bytes {contents : Buffer} (noFile : b.storage ≠ .FileObj)
    (own : b.OwnSize size) (put : b.putData files (.bytes contents) = .ok (b', files')) :
    b' = b.filled (.bytes contents) size := by
  cases stores_of_putData put with
  | raw empty own' sized readable =>
    cases own.symm.trans own'
    rfl
  | file file => exact absurd file noFile
  | vtk empty object => cases object

/-- Only a file stays a file. -/
theorem storage_of_putData (file : b'.storage = .FileObj)
    (put : b.putData files src = .ok (b', files')) : b.storage = .FileObj := by
  cases stores_of_putData put with
  | raw => cases file
  | file stays => exact stays
  | vtk => cases file

/-- Raw memory or a VTK object was put into the block. -/
def HasData (b : DataBlock) : Prop :=
  (∃ data, b.storage = .RawMemObj (some data)) ∨ ∃ vtk, b.storage = .VTKMemObj (some vtk)

theorem putData_hasData (h : b.HasData) : b.putData files src ≠ .ok (b', files') := by
  intro put
  rcases h with ⟨data, held⟩ | ⟨vtk, held⟩ <;> cases stores_of_putData put with
  | raw empty => cases held.symm.trans empty
  | file file => cases held.symm.trans file
  | vtk empty => cases held.symm.trans empty

/-- A put into an empty handle of memory leaves its data there. -/
theorem hasData_of_putData (empty : b.storage = .RawMemObj none ∨ b.storage = .VTKMemObj none)
    (put : b.putData files src = .ok (b', files')) : b'.HasData := by
  cases stores_of_putData put with
  | raw => exact .inl ⟨_, rfl⟩
  | file file => rcases empty with held | held <;> cases held.symm.trans file
  | vtk => exact .inr ⟨_, rfl⟩
end DataBlock

namespace BlockManager

variable {m m' : BlockManager} {blockSummary : BlockSummary} {backend : Int} {src : DataPointer}
  {size : UInt64}

theorem store_store (blockID : String) (a b : DataBlock) :
    (m.store blockID a).store blockID b = m.store blockID b := by
  simp only [store, AList.insert_insert]

/-- The object a put or a read with the id and the backend works on. -/
def handleOf (m : BlockManager) (blockID : String) (backend : Int) : Option DataBlock :=
  match m.DataBlockMap.lookup blockID with
  | some handle => some handle
  | none => (newHandle blockID backend).toOption

theorem getBlockHandle_eq_ok {blockID : String} {handle : DataBlock} :
    m.getBlockHandle blockID backend = .ok (handle, m') ↔
      blockID ≠ "" ∧ m.handleOf blockID backend = some handle ∧
        m' = if (m.DataBlockMap.lookup blockID).isSome then m else m.store blockID handle := by
  unfold getBlockHandle handleOf
  by_cases h : blockID = ""
  · simp [h]
  · rw [if_neg h]
    cases hl : m.DataBlockMap.lookup blockID with
    | some old => simp [h, eq_comm]
    | none =>
      cases hs : newHandle blockID backend with
      | error e => simp [Except.toOption]
      | ok new =>
        simp only [store, Except.ok.injEq, Prod.mk.injEq, Except.toOption, Option.some.injEq,
          Option.isSome_none, Bool.false_eq_true, if_false]
        constructor
        · rintro ⟨rfl, rfl⟩
          exact ⟨h, rfl, rfl⟩
        · rintro ⟨_, rfl, rfl⟩
          exact ⟨rfl, rfl⟩

theorem getBlockHandle_store {blockID : String} {handle : DataBlock} (a : DataBlock)
    (h : m.getBlockHandle blockID backend = .ok (handle, m')) :
    m'.store blockID a = m.store blockID a := by
  obtain ⟨_, _, rfl⟩ := getBlockHandle_eq_ok.mp h
  split
  · rfl
  · exact store_store blockID handle a

/-- Once the object is found, the put is a put into its storage under the new summary. -/
theorem putBlock_of_handle {handle : DataBlock} (hid : blockSummary.m_blockid ≠ "")
    (hof : m.handleOf blockSummary.m_blockid backend = some handle) :
    putBlock blockSummary backend src m =
      match ({ handle with m_blockSummary := blockSummary } : DataBlock).putData m.files src with
      | .error e =>
        .error e (m.store blockSummary.m_blockid { handle with m_blockSummary := blockSummary })
      | .ok (handle', files) =>
        .ok () ⟨m.DataBlockMap.insert blockSummary.m_blockid handle', files⟩ := by
  have hh := getBlockHandle_eq_ok.mpr ⟨hid, hof, rfl⟩
  have hstore := getBlockHandle_store { handle with m_blockSummary := blockSummary } hh
  simp only [putBlock, hh, hstore]
  rw [show (m.store blockSummary.m_blockid { handle with m_blockSummary := blockSummary }).files =
    m.files from rfl]
  cases ({ handle with m_blockSummary := blockSummary } : DataBlock).putData m.files src with
  | error e => rfl
  | ok r => simp only [store, AList.insert_insert]

/-- The put of a block leaves every other block as it was. -/
theorem putBlock_eq_ok : putBlock blockSummary backend src m = .ok () m' ↔
    blockSummary.m_blockid ≠ "" ∧ ∃ handle,
      m.handleOf blockSummary.m_blockid backend = some handle ∧ ∃ handle' files,
        ({ handle with m_blockSummary := blockSummary } : DataBlock).putData m.files src =
          .ok (handle', files) ∧
        m' = ⟨m.DataBlockMap.insert blockSummary.m_blockid handle', files⟩ := by
  constructor
  · intro h
    cases hh : m.getBlockHandle blockSummary.m_blockid backend with
    | error e =>
      simp only [putBlock, hh] at h
      cases h
    | ok r =>
      obtain ⟨hid, hof, _⟩ := getBlockHandle_eq_ok.mp hh
      rw [putBlock_of_handle hid hof] at h
      refine ⟨hid, r.1, hof, ?_⟩
      cases hput :
          ({ r.1 with m_blockSummary := blockSummary } : DataBlock).putData m.files src with
      | error e =>
        rw [hput] at h
        cases h
      | ok r' =>
        rw [hput] at h
        cases h
        exact ⟨_, _, rfl, rfl⟩
  · rintro ⟨hid, handle, hof, handle', files, hput, rfl⟩
    rw [putBlock_of_handle hid hof, hput]

/-- The manager takes a put of the size under the id. -/
def Takes (m : BlockManager) (blockSummary : BlockSummary) (backend : Int) (size : UInt64) : Prop :=
  blockSummary.m_blockid ≠ "" ∧ ∃ handle,
    m.handleOf blockSummary.m_blockid backend = some handle ∧
      ({ handle with m_blockSummary := blockSummary } : DataBlock).Takes m.files size

/-- A put returns exactly when the manager takes it. -/
theorem putBlock_returnsIff (own : blockSummary.getArraySize blockSummary.m_blockid = .ok size) :
    ReturnsIff IsUndefined (putBlock blockSummary backend src) m
      (m.Takes blockSummary backend size) := by
  intro avoids
  have own' : ∀ handle : DataBlock,
      ({ handle with m_blockSummary := blockSummary } : DataBlock).OwnSize size := fun _ => own
  have defined : blockSummary.m_blockid ≠ "" → ∀ handle,
      m.handleOf blockSummary.m_blockid backend = some handle → ∀ w,
        ({ handle with m_blockSummary := blockSummary } : DataBlock).putData m.files src ≠
          .error (.undefined w) := by
    intro hid handle hof w hput
    have hrun : putBlock blockSummary backend src m = _ := putBlock_of_handle hid hof
    rw [hput] at hrun
    exact avoids _ _ hrun trivial
  constructor
  · rintro ⟨_, m', h⟩
    obtain ⟨hid, handle, hof, handle', files, hput, _⟩ := putBlock_eq_ok.mp h
    exact ⟨hid, handle, hof,
      (DataBlock.putData_returns (own' handle) (defined hid handle hof)).mp ⟨_, hput⟩⟩
  · rintro ⟨hid, handle, hof, takes⟩
    obtain ⟨⟨handle', files⟩, hput⟩ :=
      (DataBlock.putData_returns (own' handle) (defined hid handle hof)).mpr takes
    exact ⟨(), _, putBlock_eq_ok.mpr ⟨hid, handle, hof, handle', files, hput, rfl⟩⟩

theorem storage_of_newHandle {blockID : String} {handle : DataBlock}
    (memory : backend = BACKEND.MEM ∨ backend = BACKEND.MEMVTKPTR)
    (h : (newHandle blockID backend).toOption = some handle) :
    handle.storage = .RawMemObj none ∨ handle.storage = .VTKMemObj none := by
  rcases memory with rfl | rfl
  · rw [newHandle, show newStorage BACKEND.MEM = some (.RawMemObj none) from rfl] at h
    dsimp only at h
    split at h <;> cases h
    exact .inl rfl
  · rw [newHandle, show newStorage BACKEND.MEMVTKPTR = some (.VTKMemObj none) from rfl] at h
    dsimp only at h
    split at h <;> cases h
    exact .inr rfl

/-- Whether it returns or throws, a put that finds an object writes that one and nothing else. -/
theorem exit_putBlock (blockSummary : BlockSummary) (backend : Int) (src : DataPointer)
    (m : BlockManager) :
    exit (putBlock blockSummary backend src m) = m ∨ ∃ handle handle' files,
      m.handleOf blockSummary.m_blockid backend = some handle ∧
      exit (putBlock blockSummary backend src m) =
        ⟨m.DataBlockMap.insert blockSummary.m_blockid handle', files⟩ ∧
      (handle' = { handle with m_blockSummary := blockSummary } ∨
        ({ handle with m_blockSummary := blockSummary } : DataBlock).putData m.files src =
          .ok (handle', files)) := by
  cases hh : m.getBlockHandle blockSummary.m_blockid backend with
  | error e =>
    left
    simp only [putBlock, hh, exit_error]
  | ok r =>
    obtain ⟨hid, hof, _⟩ := getBlockHandle_eq_ok.mp hh
    right
    rw [putBlock_of_handle hid hof]
    cases hput : ({ r.1 with m_blockSummary := blockSummary } : DataBlock).putData m.files src with
    | error e => exact ⟨r.1, _, m.files, hof, rfl, .inl rfl⟩
    | ok r' => exact ⟨r.1, r'.1, r'.2, hof, rfl, .inr hput⟩

/-- A put touches no block but its own. -/
theorem lookup_exit_putBlock {id : String} (other : id ≠ blockSummary.m_blockid) :
    (exit (putBlock blockSummary backend src m)).DataBlockMap.lookup id =
      m.DataBlockMap.lookup id := by
  rcases exit_putBlock blockSummary backend src m with same | ⟨handle, handle', files, _, new, _⟩
  · rw [same]
  · rw [new]
    exact AList.lookup_insert_ne other

/-- Data that was put stays. -/
theorem data_exit_putBlock {id : String} {b : DataBlock} (h : m.DataBlockMap.lookup id = some b)
    (data : b.HasData) : ∃ b', (exit (putBlock blockSummary backend src m)).DataBlockMap.lookup id =
      some b' ∧ b'.storage = b.storage := by
  rcases exit_putBlock blockSummary backend src m with
    same | ⟨handle, handle', files, hof, new, kind⟩
  · exact ⟨b, by rw [same, h], rfl⟩
  · by_cases own : id = blockSummary.m_blockid
    · have held : handle = b := by
        rw [handleOf, ← own, h] at hof
        exact (Option.some.inj hof).symm
      rcases kind with rfl | put
      · exact ⟨_, by rw [new, own]; exact AList.lookup_insert _, by rw [← held]⟩
      · exact absurd put (DataBlock.putData_hasData (held ▸ data))
    · exact ⟨b, (lookup_exit_putBlock own).trans h, rfl⟩

/-- No block is a file. -/
def NoFiles (m : BlockManager) : Prop :=
  ∀ id b, m.DataBlockMap.lookup id = some b → b.storage ≠ .FileObj

theorem storage_of_handleOf {id : String} {handle : DataBlock} (h : m.NoFiles)
    (memory : backend = BACKEND.MEM ∨ backend = BACKEND.MEMVTKPTR)
    (hof : m.handleOf id backend = some handle) : handle.storage ≠ .FileObj := by
  unfold handleOf at hof
  split at hof
  · rename_i held
    exact Option.some.inj hof ▸ h _ _ held
  · rcases storage_of_newHandle memory hof with raw | vtk
    · simp [raw]
    · simp [vtk]

/-- A put into memory makes no file. -/
theorem noFiles_exit_putBlock (h : m.NoFiles)
    (memory : backend = BACKEND.MEM ∨ backend = BACKEND.MEMVTKPTR) :
    (exit (putBlock blockSummary backend src m)).NoFiles := by
  rcases exit_putBlock blockSummary backend src m with
    same | ⟨handle, handle', files, hof, new, kind⟩
  · rw [same]
    exact h
  · rw [new]
    intro id b hb
    by_cases own : id = blockSummary.m_blockid
    · have stored : handle' = b := by
        rw [own, AList.lookup_insert] at hb
        exact Option.some.inj hb
      have noFile : handle.storage ≠ .FileObj := storage_of_handleOf h memory hof
      rw [← stored]
      rcases kind with rfl | put
      · exact noFile
      · intro file
        have old := DataBlock.storage_of_putData file put
        exact noFile old
    · rw [AList.lookup_insert_ne own] at hb
      exact h id b hb

/-! ### Arrays -/

variable {as : ArraySummary} {data : Buffer}

/-- The summary an array is added to: the block's own, or the one sent with its first array. -/
def summaryFor (handle : DataBlock) (blockSummary : BlockSummary) : BlockSummary :=
  if handle.m_blockSummary.m_blockid = "" then blockSummary else handle.m_blockSummary

/-- The manager takes an array under the id: its name is new, a place is left after it, and the
block holds arrays. -/
def TakesArray (m : BlockManager) (blockSummary : BlockSummary) (as : ArraySummary)
    (backend : Int) : Prop :=
  blockSummary.m_blockid ≠ "" ∧ ∃ handle, m.handleOf blockSummary.m_blockid backend = some handle ∧
    (summaryFor handle blockSummary).findArray as.m_arrayName = none ∧
    (summaryFor handle blockSummary).m_arrayListLen + 1 < ARRAYLENINBLOCK ∧
    ∃ m_arrayMap, handle.storage = .VTKMemExplicitObj m_arrayMap ∧ ∀ e ∈ m_arrayMap, e.1 ≠ as

theorem addArraySummary_returnsIff (bs : BlockSummary) (as : ArraySummary) :
    ReturnsIff IsUndefined (bs.addArraySummary as) bs
      (bs.findArray as.m_arrayName = none ∧ bs.m_arrayListLen + 1 < ARRAYLENINBLOCK) := by
  unfold BlockSummary.addArraySummary
  cases hf : bs.findArray as.m_arrayName with
  | some old => exact (ReturnsIff.of_error (bind_error rfl)).congr (by simp)
  | none =>
    by_cases hl : ARRAYLENINBLOCK ≤ bs.m_arrayListLen
    · simp only [Option.isSome_none, Bool.false_eq_true, if_false, if_pos hl]
      exact .of_bad (bind_error rfl) trivial
    · simp only [Option.isSome_none, Bool.false_eq_true, if_false, if_neg hl]
      by_cases hn : ARRAYLENINBLOCK ≤ bs.m_arrayListLen + 1
      · rw [if_pos hn]
        exact (ReturnsIff.of_error rfl).congr (by simp [hn])
      · rw [if_neg hn]
        exact (ReturnsIff.of_ok rfl).congr (by simpa using hn)

theorem handle_putArray_returns {handle : DataBlock} :
    (∃ handle', handle.putArray as data = .ok handle') ↔
      ∃ m_arrayMap, handle.storage = .VTKMemExplicitObj m_arrayMap ∧
        ∀ e ∈ m_arrayMap, e.1 ≠ as := by
  unfold DataBlock.putArray
  cases handle.storage with
  | RawMemObj _ => simp
  | FileObj => simp
  | VTKMemObj _ => simp
  | VTKMemExplicitObj m_arrayMap =>
    simp only [Storage.VTKMemExplicitObj.injEq, exists_eq_left']
    cases hf : m_arrayMap.find? fun e => e.1 == as with
    | none => simpa using List.find?_eq_none.mp hf
    | some e =>
      have he : e.1 = as := by simpa using List.find?_some hf
      simp only [Option.isSome_some, if_true, reduceCtorEq, exists_false, false_iff, not_forall]
      exact ⟨e, List.mem_of_find?_eq_some hf, not_not.mpr he⟩

/-- A put of an array whose entry was added goes on with the storage of the block. -/
theorem putArray_added {handle : DataBlock} {m₁ : BlockManager} {u : Unit} {summary : BlockSummary}
    (hh : m.getBlockHandle blockSummary.m_blockid backend = .ok (handle, m₁))
    (hadd : (summaryFor handle blockSummary).addArraySummary as (summaryFor handle blockSummary) =
      .ok u summary) :
    putArray blockSummary as backend data m =
      match ({ handle with m_blockSummary := summary } : DataBlock).putArray as data with
      | .error e =>
        .error e (m₁.store blockSummary.m_blockid { handle with m_blockSummary := summary })
      | .ok handle => .ok () (m₁.store blockSummary.m_blockid handle) := by
  rw [summaryFor] at hadd
  cases hput : ({ handle with m_blockSummary := summary } : DataBlock).putArray as data <;>
    simp only [putArray, hh, hadd, hput]

/-- An array is put exactly when the manager takes it. -/
theorem putArray_returnsIff :
    ReturnsIff IsUndefined (putArray blockSummary as backend data) m
      (m.TakesArray blockSummary as backend) := by
  cases hh : m.getBlockHandle blockSummary.m_blockid backend with
  | error e =>
    have hrun : putArray blockSummary as backend data m = .error e m := by
      simp only [putArray, hh]
    refine (ReturnsIff.of_error hrun).congr (iff_of_false id ?_)
    rintro ⟨hid, handle, hof, _⟩
    have hok := getBlockHandle_eq_ok.mpr ⟨hid, hof, rfl⟩
    rw [hh] at hok
    cases hok
  | ok r =>
    obtain ⟨handle, m₁⟩ := r
    obtain ⟨hid, hof, _⟩ := getBlockHandle_eq_ok.mp hh
    have takes : m.TakesArray blockSummary as backend ↔
        ((summaryFor handle blockSummary).findArray as.m_arrayName = none ∧
          (summaryFor handle blockSummary).m_arrayListLen + 1 < ARRAYLENINBLOCK) ∧
        ∃ handle', handle.putArray as data = .ok handle' := by
      rw [handle_putArray_returns, and_assoc]
      constructor
      · rintro ⟨_, other, hof', rest⟩
        obtain rfl := Option.some.inj (hof.symm.trans hof')
        exact rest
      · intro rest
        exact ⟨hid, handle, hof, rest⟩
    have listed := addArraySummary_returnsIff (summaryFor handle blockSummary) as
    cases hadd : (summaryFor handle blockSummary).addArraySummary as
        (summaryFor handle blockSummary) with
    | error e summary =>
      have hrun : putArray blockSummary as backend data m = .error e
          (m₁.store blockSummary.m_blockid { handle with m_blockSummary := summary }) := by
        rw [summaryFor] at hadd
        simp only [putArray, hh, hadd]
      by_cases he : IsUndefined e
      · exact .of_bad hrun he
      · refine (ReturnsIff.of_error hrun).congr (iff_of_false id fun h => ?_)
        have avoids : Avoids IsUndefined ((summaryFor handle blockSummary).addArraySummary as)
            (summaryFor handle blockSummary) := by
          intro e' s' he'
          rw [hadd] at he'
          cases he'
          exact he
        obtain ⟨a, s', hret⟩ := (listed avoids).mpr (takes.mp h).1
        rw [hadd] at hret
        cases hret
    | ok u summary =>
      have room := (listed (Returns.avoids ⟨u, summary, hadd⟩)).mp ⟨u, summary, hadd⟩
      rw [takes, and_iff_right room]
      have same : (∃ handle', handle.putArray as data = .ok handle') ↔
          ∃ handle', ({ handle with m_blockSummary := summary } : DataBlock).putArray as data =
            .ok handle' := by
        rw [handle_putArray_returns, handle_putArray_returns]
      rw [same]
      intro _
      rw [Returns, putArray_added hh hadd]
      cases ({ handle with m_blockSummary := summary } : DataBlock).putArray as data <;> simp

end BlockManager

end Gorilla
