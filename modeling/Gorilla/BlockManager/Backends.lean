import Gorilla.BlockManager.Handles
import Gorilla.BlockManager.Subregions

/-!
# Memory and file blocks read alike

A block put in memory and the same block put into a file give the same part to a request,
as long as the copy of that part is defined.
-/

namespace Gorilla

open HandLock MATRIXTOOL

namespace BlockSummary

/-- One array, named after the block, with an element for each cell of the box. -/
structure Grid (bs : BlockSummary) (as : ArraySummary) : Prop where
  cargrid : bs.m_dataType = DATATYPE_CARGRID
  array : bs.m_arrayList = [as]
  named : as.m_arrayName = bs.m_blockid
  dims : 1 ≤ bs.m_dims ∧ bs.m_dims ≤ 3
  box : bs.m_indexlb.x ≤ bs.m_indexub.x ∧ bs.m_indexlb.y ≤ bs.m_indexub.y ∧
    bs.m_indexlb.z ≤ bs.m_indexub.z
  unusedY : bs.m_dims < 2 → bs.m_indexlb.y = 0 ∧ bs.m_indexub.y = 0
  unusedZ : bs.m_dims < 3 → bs.m_indexlb.z = 0 ∧ bs.m_indexub.z = 0
  elemNum : (as.m_elemNum.toNat : Int) = (bs.m_indexub.x - bs.m_indexlb.x + 1) *
    ((bs.m_indexub.y - bs.m_indexlb.y + 1) * (bs.m_indexub.z - bs.m_indexlb.z + 1))
  size : as.m_elemNum.toNat * as.m_elemSize.toNat < 2 ^ 31

/-- A request of the right dimensions that is not the whole box has offsets that are `int`
values, and is not the last cell alone. -/
def Served (bs : BlockSummary) (as : ArraySummary) (dims : Nat)
    (subregionlb subregionub : Array3 Int) : Prop :=
  dims = bs.m_dims → DataBlock.ifAllMatch dims bs subregionlb subregionub = false →
    bs.Offsets subregionlb ∧ bs.Offsets subregionub ∧ bs.Offsets bs.m_indexub ∧
      ¬ (as.m_elemSize ≠ 0 ∧ subregionlb = bs.m_indexub ∧ subregionub = bs.m_indexub)

instance (bs : BlockSummary) (as : ArraySummary) (dims : Nat) (lb ub : Array3 Int) :
    Decidable (bs.Served as dims lb ub) :=
  inferInstanceAs (Decidable (_ → _ → _))

end BlockSummary

namespace DataBlock

variable {bs : BlockSummary} {as : ArraySummary} {lb ub : Array3 Int} {data : Buffer}

/-- A call returns or throws. -/
def Settles {α : Type} : Except Stop α → Prop
  | .ok _ | .error (.runtime_error _) => True
  | .error (.undefined _) | .error (.blocked _) => False

section Grid
variable (grid : bs.Grid as)

include grid

theorem arrayOf_grid (what missing : String) : bs.arrayOf what missing bs.m_blockid = .ok as := by
  unfold BlockSummary.arrayOf BlockSummary.findArray
  rw [grid.array, grid.cargrid]
  simp [grid.named]

theorem cellCount_grid (hub : bs.Offsets bs.m_indexub) :
    cellCount (shifted bs bs.m_indexub) = as.m_elemNum.toNat := by
  obtain ⟨hx, hy, hz⟩ := hub
  obtain ⟨bx, byy, bz⟩ := grid.box
  have extent : ∀ {l u : Int}, l ≤ u → IsInt (u - l) →
      ((size_t (u - l)).toNat : Int) + 1 = u - l + 1 := by
    intro l u hle hint
    unfold IsInt INT_MAX at hint
    rw [size_t_toNat (by omega) (by omega)]
    omega
  have h := grid.elemNum
  rw [← extent bx hx, ← extent byy hy, ← extent bz hz] at h
  exact_mod_cast h.symm

theorem getArraySize_grid :
    bs.getArraySize bs.m_blockid = .ok (as.m_elemNum * as.m_elemSize) := by
  unfold BlockSummary.getArraySize
  rw [arrayOf_grid grid]
  rfl

/-- The number of elements passes its check, so only the copy can fail. -/
theorem subregionOf_eq : subregionOf bs lb ub data =
    if bs.Offsets lb ∧ bs.Offsets ub ∧ bs.Offsets bs.m_indexub then
      (getSubMatrix as.m_elemSize (shifted bs lb) (shifted bs ub) (shifted bs bs.m_indexub)
        data).map fun result => ({ bs with m_indexlb := lb, m_indexub := ub }, result)
    else .error (.undefined "signed overflow") := by
  rw [subregionOf_eq_with, subregionWith_eq (arrayOf_grid grid)]
  by_cases offsets : bs.Offsets lb ∧ bs.Offsets ub ∧ bs.Offsets bs.m_indexub
  swap
  · rw [if_neg offsets, if_neg offsets]
  have enough : ¬ as.m_elemNum < currentElemNum (shifted bs bs.m_indexub) := by
    rw [UInt64.not_lt, UInt64.le_iff_toNat_le, ← cellCount_grid grid offsets.2.2]
    exact currentElemNum_le _
  rw [if_pos offsets, if_pos offsets, if_neg enough]

/-- A request that is not the whole box can be the last cell only if there are others. -/
theorem cellCount_ne_one (hub : bs.Offsets bs.m_indexub)
    (part : ifAllMatch bs.m_dims bs bs.m_indexub bs.m_indexub = false) :
    cellCount (shifted bs bs.m_indexub) ≠ 1 := by
  intro one
  have count := grid.elemNum
  rw [← cellCount_grid grid hub, one] at count
  obtain ⟨bx, byy, bz⟩ := grid.box
  have hyz : 1 ≤ (bs.m_indexub.y - bs.m_indexlb.y + 1) * (bs.m_indexub.z - bs.m_indexlb.z + 1) :=
    one_le_mul_of_one_le_of_one_le (by omega) (by omega)
  have hx := Int.eq_one_of_mul_eq_one_right (by omega) count.symm
  have hyz := Int.eq_one_of_mul_eq_one_left (by omega) count.symm
  have hy := Int.eq_one_of_mul_eq_one_right (by omega) hyz
  have hz := Int.eq_one_of_mul_eq_one_left (by omega) hyz
  have same : bs.m_indexub = bs.m_indexlb := Array3.ext (by omega) (by omega) (by omega)
  simp [ifAllMatch, same] at part

/-- A part that is not the whole box is read unless an offset overflows or it is the last cell
alone. -/
theorem subregionOf_settles_iff (len : data.length = as.m_elemNum.toNat * as.m_elemSize.toNat)
    (part : ifAllMatch bs.m_dims bs lb ub = false) :
    Settles (subregionOf bs lb ub data) ↔
      bs.Offsets lb ∧ bs.Offsets ub ∧ bs.Offsets bs.m_indexub ∧
        ¬ (as.m_elemSize ≠ 0 ∧ lb = bs.m_indexub ∧ ub = bs.m_indexub) := by
  rw [subregionOf_eq grid]
  by_cases offsets : bs.Offsets lb ∧ bs.Offsets ub ∧ bs.Offsets bs.m_indexub
  swap
  · rw [if_neg offsets]
    exact iff_of_false id fun h => offsets ⟨h.1, h.2.1, h.2.2.1⟩
  rw [if_pos offsets]
  obtain ⟨hlb, hub, hall⟩ := offsets
  have count := cellCount_grid grid hall
  have corner : ∀ {c : Array3 Int}, bs.Offsets c →
      (shifted bs c = shifted bs bs.m_indexub ↔ c = bs.m_indexub) := by
    rintro c ⟨hx, hy, hz⟩
    obtain ⟨kx, ky, kz⟩ := hall
    simp only [shifted, size_t_inj hx kx, size_t_inj hy ky, size_t_inj hz kz,
      sub_left_inj, Array3.ext_iff]
  by_cases hin : Inside (shifted bs lb) (shifted bs ub) (shifted bs bs.m_indexub)
  · have hfit : as.m_elemSize.toNat * cellCount (shifted bs bs.m_indexub) < 2 ^ 64 := by
      have := grid.size
      rw [count, Nat.mul_comm]
      omega
    have hsrc : data.length = as.m_elemSize.toNat * cellCount (shifted bs bs.m_indexub) := by
      rw [len, count, Nat.mul_comm]
    have copied := getSubMatrix_inside hin hfit hsrc
    have last : as.m_elemSize ≠ 0 ∧ shifted bs lb = shifted bs bs.m_indexub ∧
        cellCount (shifted bs bs.m_indexub) ≠ 1 ↔
        as.m_elemSize ≠ 0 ∧ lb = bs.m_indexub ∧ ub = bs.m_indexub := by
      constructor
      · rintro ⟨he, hl, _⟩
        refine ⟨he, (corner hlb).mp hl, (corner hub).mp ?_⟩
        rw [hl] at hin
        exact Array3.ext (UInt64.le_antisymm hin.1.2 hin.1.1)
          (UInt64.le_antisymm hin.2.1.2 hin.2.1.1) (UInt64.le_antisymm hin.2.2.2 hin.2.2.1)
      · rintro ⟨he, rfl, rfl⟩
        exact ⟨he, rfl, cellCount_ne_one grid hall part⟩
    split at copied
    · rename_i hlast
      rw [copied]
      exact iff_of_false id fun h => h.2.2.2 (last.mp hlast)
    · rename_i hlast
      obtain ⟨m, hm, _⟩ := copied
      rw [hm]
      exact iff_of_true trivial ⟨hlb, hub, hall, fun h => hlast (last.mpr h)⟩
  · obtain ⟨what, thrown⟩ := getSubMatrix_thrown (e := as.m_elemSize) hin data
    rw [thrown]
    refine iff_of_true trivial ⟨hlb, hub, hall, ?_⟩
    rintro ⟨_, rfl, rfl⟩
    exact hin ⟨⟨UInt64.le_refl _, UInt64.le_refl _⟩, ⟨UInt64.le_refl _, UInt64.le_refl _⟩,
      UInt64.le_refl _, UInt64.le_refl _⟩

/-- What either storage reads of a block: they differ in the text of one error. -/
def partOf (what : String) (bs : BlockSummary) (data : Buffer) (dims : Nat)
    (lb ub : Array3 Int) : Except Stop (BlockSummary × Option Buffer) :=
  if dims ≠ bs.m_dims then .error (.runtime_error what)
  else if ifAllMatch dims bs lb ub then .ok (bs, some data)
  else (subregionOf bs lb ub data).map fun r => (r.1, some r.2)

/-- The object of a block that was put: its bytes are in memory or in its file. -/
def Holds (handle : DataBlock) (files : Files) (bs : BlockSummary) (data : Buffer) : Prop :=
  handle.m_blockid = bs.m_blockid ∧ handle.m_blockSummary = bs ∧
    (handle.storage = .RawMemObj (some data) ∨
      handle.storage = .FileObj ∧ files.lookup bs.m_blockid = some (bs, data))

theorem getDataSubregion_holds {handle : DataBlock} {files : Files}
    (len : data.length = as.m_elemNum.toNat * as.m_elemSize.toNat)
    (h : handle.Holds files bs data) (dims : Nat) (lb ub : Array3 Int) :
    ∃ what, handle.getDataSubregion files dims lb ub = partOf what bs data dims lb ub := by
  obtain ⟨id, summary, storage⟩ := handle
  obtain ⟨hid, hbs, hst⟩ := h
  dsimp only at hid hbs hst
  subst hid
  subst hbs
  have small : dims = summary.m_dims → ¬ DEFAULT_MAX_DIM < dims := by
    rintro rfl
    exact Nat.not_lt.mpr grid.dims.2
  rcases hst with rfl | ⟨rfl, stored⟩
  · refine ⟨"the dims is not equal to the value in blockSummary", ?_⟩
    unfold getDataSubregion partOf
    dsimp only
    by_cases hd : dims = summary.m_dims
    swap
    · rw [if_pos hd, if_pos hd]
    rw [if_neg (not_not.mpr hd), if_neg (not_not.mpr hd), if_neg (small hd)]
    split
    · rfl
    · rw [Option.getD_some]
      cases subregionOf summary lb ub data <;> rfl
  · refine ⟨"the dims is not equal to the value in blockSummary for fileobj", ?_⟩
    have bytes : (as.m_elemNum * as.m_elemSize).toNat = data.length := by
      have := grid.size
      rw [len, UInt64.toNat_mul, Nat.mod_eq_of_lt (by omega)]
    unfold getDataSubregion partOf
    dsimp only
    rw [stored]
    dsimp only
    rw [if_neg (not_not.mpr rfl)]
    by_cases hd : dims = summary.m_dims
    swap
    · rw [if_pos hd, if_pos hd]
    rw [if_neg (not_not.mpr hd), if_neg (not_not.mpr hd), if_neg (small hd),
      getArraySize_grid grid]
    have temp : data.take (as.m_elemNum * as.m_elemSize).toNat ++ Buffer.malloc
        (size_t ((as.m_elemNum * as.m_elemSize).toNat - data.length : Nat)) = data := by
      rw [bytes, List.take_length, Nat.sub_self]
      exact List.append_nil data
    show (if _ then _ else _) = _
    rw [temp]
    split
    · rfl
    · cases subregionOf summary lb ub data <;> rfl

theorem partOf_settles_iff (len : data.length = as.m_elemNum.toNat * as.m_elemSize.toNat)
    (what : String) (dims : Nat) :
    Settles (partOf what bs data dims lb ub) ↔ bs.Served as dims lb ub := by
  unfold partOf BlockSummary.Served
  by_cases hd : dims = bs.m_dims
  swap
  · rw [if_pos hd]
    exact iff_of_true trivial fun h => absurd h hd
  subst hd
  rw [if_neg (not_not.mpr rfl)]
  by_cases whole : ifAllMatch bs.m_dims bs lb ub = true
  · rw [if_pos whole]
    exact iff_of_true trivial fun _ h => by simp [whole] at h
  · rw [if_neg whole]
    have part := eq_false_of_ne_true whole
    have inner : Settles ((subregionOf bs lb ub data).map fun r => (r.1, some r.2)) ↔
        Settles (subregionOf bs lb ub data) := by
      cases subregionOf bs lb ub data with
      | ok r => rfl
      | error e => cases e <;> rfl
    rw [inner, subregionOf_settles_iff grid len part]
    simp [part]

end Grid

end DataBlock

namespace BlockManager

variable {bs : BlockSummary} {as : ArraySummary} {contents : Buffer} {backend : Int}

/-- A put of bytes that returns leaves an object that holds them. -/
theorem putBlock_holds {m : Kept} {m' : BlockManager} (grid : bs.Grid as)
    (len : contents.length = as.m_elemNum.toNat * as.m_elemSize.toNat)
    (put : putBlock bs backend (.bytes contents) m.toBlockManager = .ok () m') :
    bs.m_blockid ≠ "" ∧ ∃ handle, m'.block bs.m_blockid = some handle ∧
      handle.Holds m'.files bs contents := by
  obtain ⟨hid, handle, hof, handle', files, hput, rfl⟩ := putBlock_eq_ok.mp put
  have own := m.keyed.asked (asked_eq_some.mpr ⟨hid, hof⟩)
  refine ⟨hid, handle', AList.lookup_insert _, ?_⟩
  have kept := DataBlock.putData_kept hput
  refine ⟨kept.1.trans own, kept.2.1, ?_⟩
  have bytes : (as.m_elemNum * as.m_elemSize).toNat = contents.length := by
    have := grid.size
    rw [len, UInt64.toNat_mul, Nat.mod_eq_of_lt (by omega)]
  have all : contents.take (as.m_elemNum * as.m_elemSize).toNat = contents := by
    rw [bytes, List.take_length]
  have own' : ∀ {size}, ({ handle with m_blockSummary := bs } : DataBlock).OwnSize size →
      size = as.m_elemNum * as.m_elemSize := fun h =>
    Except.ok.inj (h.symm.trans (DataBlock.getArraySize_grid grid))
  have small : (as.m_elemNum * as.m_elemSize).toNat < 2 ^ 31 := by
    rw [bytes, len]
    exact grid.size
  cases DataBlock.stores_of_putData hput with
  | raw empty sized =>
    obtain rfl := own' sized
    left
    simp only [DataBlock.filled, DataPointer.readable, DataBlock.truncInt_of_lt small,
      Int.toNat_natCast, all]
  | file file sized =>
    obtain rfl := own' sized
    right
    refine ⟨file, ?_⟩
    rw [Files.lookup_insert]
    simp only [DataPointer.readable, all]
  | vtk empty object => cases object

/-- Both calls throw, or both return the same bounds and the same bytes. -/
def Agree (a b : EStateM.Result Stop BlockManager (BlockSummary × Option Buffer)) : Prop :=
  match a, b with
  | .error (.runtime_error _) _, .error (.runtime_error _) _ => True
  | .ok (bs, data) _, .ok (bs', data') _ =>
    (bs.m_indexlb = bs'.m_indexlb ∧ bs.m_indexub = bs'.m_indexub) ∧ data = data'
  | _, _ => False

theorem getBlockSubregion_holds {m : BlockManager} {handle : DataBlock} (grid : bs.Grid as)
    (len : contents.length = as.m_elemNum.toNat * as.m_elemSize.toNat)
    (held : bs.m_blockid ≠ "" ∧ m.block bs.m_blockid = some handle ∧
      handle.Holds m.files bs contents) (backend : Int) (dims : Nat) (lb ub : Array3 Int) :
    ∃ what m', getBlockSubregion bs.m_blockid backend dims lb ub m =
      match DataBlock.partOf what bs contents dims lb ub with
      | .ok r => .ok r m'
      | .error e => .error e m' := by
  obtain ⟨hid, hb, holds⟩ := held
  have hh := getBlockHandle_asked (asked_of_block hid hb backend)
  obtain ⟨what, hr⟩ := DataBlock.getDataSubregion_holds grid len holds dims lb ub
  refine ⟨what, (m.opened bs.m_blockid handle).reread bs.m_blockid handle, ?_⟩
  unfold getBlockSubregion
  rw [hh]
  dsimp only
  rw [files_opened, hr]
  cases DataBlock.partOf what bs contents dims lb ub <;> rfl

/-- The two backends agree on the requests whose copy is defined, and on no other. -/
theorem backends_agree_iff {m₁ m₂ : Kept} {m₁' m₂' : BlockManager} (grid : bs.Grid as)
    (len : contents.length = as.m_elemNum.toNat * as.m_elemSize.toNat)
    (memory : putBlock bs BACKEND.MEM (.bytes contents) m₁.toBlockManager = .ok () m₁')
    (file : putBlock bs BACKEND.FILE (.bytes contents) m₂.toBlockManager = .ok () m₂')
    (dims : Nat) (lb ub : Array3 Int) :
    Agree (getBlockSubregion bs.m_blockid BACKEND.MEM dims lb ub m₁')
      (getBlockSubregion bs.m_blockid BACKEND.FILE dims lb ub m₂') ↔ bs.Served as dims lb ub := by
  obtain ⟨hid, handle₁, held₁⟩ := putBlock_holds grid len memory
  obtain ⟨_, handle₂, held₂⟩ := putBlock_holds grid len file
  obtain ⟨what₁, n₁, run₁⟩ :=
    getBlockSubregion_holds grid len ⟨hid, held₁⟩ BACKEND.MEM dims lb ub
  obtain ⟨what₂, n₂, run₂⟩ :=
    getBlockSubregion_holds grid len ⟨hid, held₂⟩ BACKEND.FILE dims lb ub
  rw [run₁, run₂, ← DataBlock.partOf_settles_iff grid len what₁]
  by_cases hd : dims ≠ bs.m_dims
  · simp only [DataBlock.partOf, if_pos hd]
    exact iff_of_true trivial trivial
  by_cases whole : DataBlock.ifAllMatch dims bs lb ub = true
  · simp only [DataBlock.partOf, if_neg hd, if_pos whole]
    exact iff_of_true ⟨⟨rfl, rfl⟩, rfl⟩ trivial
  · simp only [DataBlock.partOf, if_neg hd, if_neg whole]
    cases DataBlock.subregionOf bs lb ub contents with
    | ok r => exact iff_of_true ⟨⟨rfl, rfl⟩, rfl⟩ trivial
    | error e => cases e <;> exact Iff.rfl

/-- Four one-byte cells. -/
def square : BlockSummary where
  m_dataType := DATATYPE_CARGRID
  m_blockid := "density_0_0"
  m_dims := 2
  m_indexub := ⟨1, 1, 0⟩
  m_arrayList := [{ m_arrayName := "density_0_0", m_elemSize := 1, m_elemNum := 4 }]

def squareCells : Buffer := [some 1, some 2, some 3, some 4]

def noBlocks : Kept := ⟨{}, fun _ _ h => by cases h⟩

theorem column_agrees : ∃ m₁ m₂,
    putBlock square BACKEND.MEM (.bytes squareCells) noBlocks.toBlockManager = .ok () m₁ ∧
    putBlock square BACKEND.FILE (.bytes squareCells) noBlocks.toBlockManager = .ok () m₂ ∧
    Agree (getBlockSubregion "density_0_0" BACKEND.MEM 2 ⟨1, 0, 0⟩ ⟨1, 1, 0⟩ m₁)
      (getBlockSubregion "density_0_0" BACKEND.FILE 2 ⟨1, 0, 0⟩ ⟨1, 1, 0⟩ m₂) := by
  obtain ⟨m₁, memory⟩ : ∃ m₁,
      putBlock square BACKEND.MEM (.bytes squareCells) noBlocks.toBlockManager = .ok () m₁ :=
    ⟨_, rfl⟩
  obtain ⟨m₂, file⟩ : ∃ m₂,
      putBlock square BACKEND.FILE (.bytes squareCells) noBlocks.toBlockManager = .ok () m₂ :=
    ⟨_, rfl⟩
  have grid : square.Grid { m_arrayName := "density_0_0", m_elemSize := 1, m_elemNum := 4 } :=
    { cargrid := rfl, array := rfl, named := rfl, dims := by decide, box := by decide
      unusedY := by decide, unusedZ := by decide, elemNum := by decide, size := by decide }
  exact ⟨m₁, m₂, memory, file,
    (backends_agree_iff grid (by decide) memory file 2 ⟨1, 0, 0⟩ ⟨1, 1, 0⟩).mpr (by decide)⟩

/-- A request for the last cell copies the whole block into a buffer of one cell. -/
theorem lastCell_undefined : ∃ m₁ m₂,
    putBlock square BACKEND.MEM (.bytes squareCells) noBlocks.toBlockManager = .ok () m₁ ∧
    putBlock square BACKEND.FILE (.bytes squareCells) noBlocks.toBlockManager = .ok () m₂ ∧
    ¬ Agree (getBlockSubregion "density_0_0" BACKEND.MEM 2 ⟨1, 1, 0⟩ ⟨1, 1, 0⟩ m₁)
      (getBlockSubregion "density_0_0" BACKEND.FILE 2 ⟨1, 1, 0⟩ ⟨1, 1, 0⟩ m₂) :=
  ⟨_, _, rfl, rfl, id⟩

end BlockManager

end Gorilla
