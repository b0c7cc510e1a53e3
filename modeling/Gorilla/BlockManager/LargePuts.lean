import Gorilla.BlockManager.Calls

/-!
# Puts of every size

The size of an array is a `size_t` product, and a put into memory copies as many bytes as an
`int` keeps of it.
-/

namespace Gorilla

namespace DataBlock

theorem truncInt_nonneg_iff {n : UInt64} : 0 ≤ truncInt n ↔ n.toNat % 2 ^ 32 < 2 ^ 31 := by
  unfold truncInt INT_MAX
  dsimp only
  split <;> omega

theorem truncInt_toNat_le (n : UInt64) : (truncInt n).toNat ≤ n.toNat := by
  unfold truncInt INT_MAX
  dsimp only
  split <;> omega

end DataBlock

namespace BlockManager

variable {m m' : BlockManager} {bs : BlockSummary} {as : ArraySummary} {source : Buffer}
  {size : UInt64}

/-- No handle is made for an id that is empty or does not fit its array. -/
def Refused (blockID : String) : Prop := blockID = "" ∨ STRLENLONG ≤ blockID.utf8ByteSize

instance (blockID : String) : Decidable (Refused blockID) := inferInstanceAs (Decidable (_ ∨ _))

/-- A block in memory. -/
def memoryBlock (bs : BlockSummary) (data : Option Buffer) : DataBlock where
  m_blockid := bs.m_blockid
  m_blockSummary := bs
  storage := .RawMemObj data

theorem asked_new (new : m.block bs.m_blockid = none) :
    m.asked bs.m_blockid BACKEND.MEM =
      if Refused bs.m_blockid then none
      else some { m_blockid := bs.m_blockid, storage := .RawMemObj none } := by
  have missing : m.DataBlockMap.lookup bs.m_blockid = none := new
  have made : newStorage BACKEND.MEM = some (.RawMemObj none) := rfl
  unfold asked
  by_cases empty : bs.m_blockid = ""
  · have refused : Refused bs.m_blockid := .inl empty
    rw [if_pos empty, if_pos refused]
  · rw [if_neg empty, handleOf, missing]
    dsimp only
    rw [newHandle, made]
    by_cases long : STRLENLONG ≤ bs.m_blockid.utf8ByteSize
    · have refused : Refused bs.m_blockid := .inr long
      simp [long, refused, Except.toOption]
    · have taken : ¬ Refused bs.m_blockid := not_or.mpr ⟨empty, long⟩
      simp [long, taken, Except.toOption]

/-- The puts of a new block into memory that return. -/
theorem putBlock_memory (own : bs.getArraySize bs.m_blockid = .ok size)
    (new : m.block bs.m_blockid = none) :
    putBlock bs BACKEND.MEM (.bytes source) m = .ok () m' ↔
      ¬ Refused bs.m_blockid ∧ 0 ≤ DataBlock.truncInt size ∧
        (DataBlock.truncInt size).toNat ≤ source.length ∧
        m' = m.store bs.m_blockid
          (memoryBlock bs (some (source.take (DataBlock.truncInt size).toNat))) := by
  have handles := asked_new new
  by_cases refused : Refused bs.m_blockid
  · rw [if_pos refused] at handles
    constructor
    · intro put
      obtain ⟨hid, handle, hof, _⟩ := putBlock_eq_ok.mp put
      rw [asked_eq_some.mpr ⟨hid, hof⟩] at handles
      cases handles
    · exact fun h => absurd refused h.1
  · rw [if_neg refused] at handles
    obtain ⟨hid, hof⟩ := asked_eq_some.mp handles
    have own' : (memoryBlock bs none).OwnSize size := own
    have fills : (memoryBlock bs none).rawPutData (.bytes source) none = _ :=
      DataBlock.rawPutData_none own'
    rw [putBlock_of_handle hid hof, DataBlock.putData]
    simp only [memoryBlock] at fills ⊢
    rw [fills]
    by_cases negative : DataBlock.truncInt size < 0
    · simp [negative, Int.not_le.mpr negative, bind, Except.bind]
    · rw [if_neg negative]
      by_cases readable : (DataBlock.truncInt size).toNat ≤ source.length
      · simp [refused, Int.not_lt.mp negative, readable, DataPointer.readable, bind, Except.bind,
          pure, Except.pure, store, DataBlock.filled, eq_comm]
      · simp [readable, DataPointer.readable, bind, Except.bind]

/-- A block in memory is read as it lies there. -/
theorem getBlock_memoryBlock {data : Buffer} (hid : bs.m_blockid ≠ "") :
    getBlock bs.m_blockid BACKEND.MEM (m.store bs.m_blockid (memoryBlock bs (some data))) =
      .ok (bs, some data) (m.store bs.m_blockid (memoryBlock bs (some data))) := by
  have held : (m.store bs.m_blockid (memoryBlock bs (some data))).block bs.m_blockid =
      some (memoryBlock bs (some data)) := by rw [block_store, if_pos rfl]
  have read : (m.store bs.m_blockid (memoryBlock bs (some data))).askedRead bs.m_blockid
      BACKEND.MEM =
      some (memoryBlock bs (some data)) := by
    rw [askedRead, held, if_neg (by simp)]
    exact asked_of_block hid held _
  have present : ((m.store bs.m_blockid (memoryBlock bs (some data))).DataBlockMap.lookup
      bs.m_blockid).isSome := by
    rw [block] at held
    rw [held]
    rfl
  rw [getBlock_some read, opened, if_pos present]
  rfl

/-- The block holds the source, whole, under the summary, and a read gives both back. -/
def Stored (m : BlockManager) (bs : BlockSummary) (source : Buffer) : Prop :=
  (∃ handle, m.block bs.m_blockid = some handle ∧ handle.m_blockSummary = bs ∧
    handle.storage = .RawMemObj (some source)) ∧
  getBlock bs.m_blockid BACKEND.MEM m = .ok (bs, some source) m

theorem stored_memoryBlock {data : Buffer} (hid : bs.m_blockid ≠ "") :
    (m.store bs.m_blockid (memoryBlock bs (some data))).Stored bs source ↔ data = source := by
  unfold Stored
  rw [getBlock_memoryBlock hid, block_store, if_pos rfl]
  simp [memoryBlock]

/-- A put of the source that returns stores all of it. -/
def StoresAll (m : BlockManager) (bs : BlockSummary) (source : Buffer) : Prop :=
  ∀ m', putBlock bs BACKEND.MEM (.bytes source) m = .ok () m' → m'.Stored bs source

theorem storesAll_iff (own : bs.getArraySize bs.m_blockid = .ok size)
    (whole : source.length = size.toNat) (new : m.block bs.m_blockid = none) :
    m.StoresAll bs source ↔
      Refused bs.m_blockid ∨ size.toNat < 2 ^ 31 ∨ 2 ^ 31 ≤ size.toNat % 2 ^ 32 := by
  unfold StoresAll
  simp only [putBlock_memory own new]
  by_cases refused : Refused bs.m_blockid
  · simp [refused]
  have hid : bs.m_blockid ≠ "" := fun empty => refused (.inl empty)
  by_cases negative : DataBlock.truncInt size < 0
  · have high : ¬ size.toNat % 2 ^ 32 < 2 ^ 31 := by
      rw [← DataBlock.truncInt_nonneg_iff]
      exact Int.not_le.mpr negative
    exact iff_of_true (fun _ h => absurd h.2.1 (Int.not_le.mpr negative))
      (.inr (.inr (Nat.not_lt.mp high)))
  · have kept := Int.not_lt.mp negative
    have low := DataBlock.truncInt_nonneg_iff.mp kept
    have readable : (DataBlock.truncInt size).toNat ≤ source.length := by
      rw [whole]
      exact DataBlock.truncInt_toNat_le size
    have all : source.take (DataBlock.truncInt size).toNat = source ↔ size.toNat < 2 ^ 31 := by
      rw [← DataBlock.truncInt_eq_iff kept, ← whole]
      constructor
      · intro same
        have len := congrArg List.length same
        rw [List.length_take, min_eq_left readable] at len
        exact len
      · intro same
        exact List.take_of_length_le same.ge
    -- the put returns, and has copied as much as the `int` says
    simp only [refused, not_false_eq_true, kept, readable, true_and, false_or, forall_eq]
    rw [stored_memoryBlock hid, all]
    exact ⟨.inl, fun h => h.resolve_right (Nat.not_le.mpr low)⟩

theorem toNat_size (as : ArraySummary)
    (fits : as.m_elemNum.toNat * as.m_elemSize.toNat < 2 ^ 64) :
    (as.m_elemNum * as.m_elemSize).toNat = as.m_elemNum.toNat * as.m_elemSize.toNat := by
  rw [UInt64.toNat_mul, Nat.mod_eq_of_lt fits]

/-- A put stores the whole source unless the `int` that copies it has lost the upper half of its
size and kept a lower half that is not negative. -/
theorem putBlock_storesAll_iff (cargrid : bs.m_dataType = DATATYPE_CARGRID)
    (named : bs.findArray bs.m_blockid = some as)
    (fits : as.m_elemNum.toNat * as.m_elemSize.toNat < 2 ^ 64)
    (whole : source.length = as.m_elemNum.toNat * as.m_elemSize.toNat)
    (new : m.block bs.m_blockid = none) :
    m.StoresAll bs source ↔
      Refused bs.m_blockid ∨ source.length < 2 ^ 31 ∨ 2 ^ 31 ≤ source.length % 2 ^ 32 := by
  have size := toNat_size as fits
  have own : bs.getArraySize bs.m_blockid = .ok (as.m_elemNum * as.m_elemSize) :=
    BlockSummary.getArraySize_eq_ok.mpr ⟨.inl cargrid, as, named, rfl⟩
  have iff := storesAll_iff own (whole.trans size.symm) new
  rw [size, ← whole] at iff
  exact iff

/-- A block of doubles, as many as the box has cells. -/
def doubles (n : UInt64) (ub : Array3 Int) : BlockSummary where
  m_dataType := DATATYPE_CARGRID
  m_blockid := "pressure_0_0"
  m_indexub := ub
  m_arrayList := [⟨"pressure_0_0", 8, n⟩]

/-- Two cells are stored as they were given. -/
theorem twoCells_stored :
    StoresAll {} (doubles 2 ⟨1, 0, 0⟩) ((List.range 16).map fun i => some i.toUInt8) :=
  have named : (doubles 2 ⟨1, 0, 0⟩).findArray "pressure_0_0" = some ⟨"pressure_0_0", 8, 2⟩ := by
    decide
  (putBlock_storesAll_iff rfl named (by decide) (by decide) rfl).mpr (.inr (.inl (by decide)))

/-- Of the four gigabytes of 1024 by 1024 by 512 doubles nothing is stored. -/
theorem fourGigabytes_lost :
    ¬ ∀ (m : BlockManager) (bs : BlockSummary) (as : ArraySummary) (source : Buffer),
      bs.m_dataType = DATATYPE_CARGRID → bs.findArray bs.m_blockid = some as →
      as.m_elemNum.toNat * as.m_elemSize.toNat < 2 ^ 64 →
      source.length = as.m_elemNum.toNat * as.m_elemSize.toNat →
      m.block bs.m_blockid = none → m.StoresAll bs source := by
  intro all
  let as : ArraySummary := ⟨"pressure_0_0", 8, 536870912⟩
  have size : as.m_elemNum.toNat * as.m_elemSize.toNat = 2 ^ 32 := by decide
  have own : (doubles 536870912 ⟨1023, 1023, 511⟩).getArraySize "pressure_0_0" =
      .ok (as.m_elemNum * as.m_elemSize) := by decide
  have bytes := toNat_size as (by rw [size]; decide)
  have len : (List.replicate (2 ^ 32) (some 0) : Buffer).length = 2 ^ 32 := List.length_replicate
  have stores := all {} (doubles 536870912 ⟨1023, 1023, 511⟩) as _ rfl (by decide)
    (by rw [size]; decide) (len.trans size.symm) rfl
  have cond := (storesAll_iff own (len.trans (bytes.trans size).symm) rfl).mp stores
  rw [bytes, size] at cond
  revert cond
  decide

end BlockManager

end Gorilla
