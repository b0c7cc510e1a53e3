import Gorilla.CommonData.Wire
import Mathlib.Data.List.TakeWhile

/-!
# Names in fixed arrays

The constructors copy their strings into arrays of characters. A string that is not rejected has
to fit with its terminator.
-/

universe u

namespace Gorilla.Wire

/-- The base of the data blocks. -/
structure DataBlockInterface where
  m_blockid : BlOCKID
  m_blockSummary : BlockSummary
  deriving DecidableEq

def DataBlockInterface.new (raw : DataBlockInterface) (blockid : List UInt8) :
    Except Stop DataBlockInterface :=
  if STRLENLONG ≤ (data blockid).length then
    .error (.runtime_error "long blockid")
  else do
    let m_blockid ← strcpy raw.m_blockid (data blockid)
    return { m_blockid, m_blockSummary := raw.m_blockSummary.blank }

/-! ## Strings and their copies -/

section
variable {n : Nat} {dst field : Vector UInt8 n} {s : List UInt8}

/-- A string without zeros is held whole. -/
theorem data_eq (text : 0 ∉ s) : data s = s :=
  List.takeWhile_eq_self_iff.mpr fun c mem => by
    have ne : c ≠ 0 := fun zero => text (zero ▸ mem)
    simpa using ne

theorem data_append (text : 0 ∉ s) (rest : List UInt8) : data (s ++ 0 :: rest) = s := by
  have whole := data_eq text
  unfold data at whole ⊢
  rw [List.takeWhile_append, whole, if_pos rfl]
  simp

/-- The field holds a terminated copy of the string. -/
def Kept (field : Vector UInt8 n) (s : List UInt8) : Prop :=
  0 ∈ field.toList ∧ data field.toList = s

/-- A copy is the string and its terminator over what the field held. -/
theorem strcpy_toList (copy : strcpy dst s = .ok field) :
    field.toList = s ++ 0 :: dst.toList.drop (s.length + 1) := by
  unfold strcpy at copy
  split at copy
  case isFalse => cases copy
  case isTrue fits =>
    cases copy
    apply List.ext_getElem
    · simp
      omega
    · intro i hi _
      have hn : i < n := by simpa using hi
      rw [Vector.getElem_toList, Vector.getElem_ofFn]
      show ((s ++ [0])[i]?).getD dst[i] = _
      rcases Nat.lt_trichotomy i s.length with less | rfl | more
      · simp [less, List.getElem?_append]
      · simp
      · have past : (s ++ [0])[i]? = none := List.getElem?_eq_none (by simp; omega)
        have behind : i - s.length = (i - (s.length + 1)) + 1 := by omega
        have same : s.length + 1 + (i - (s.length + 1)) = i := by omega
        rw [past, List.getElem_append_right more.le]
        simp [behind, same]

theorem strcpy_kept (text : 0 ∉ s) (copy : strcpy dst s = .ok field) : Kept field s := by
  refine ⟨strcpy_terminated copy, ?_⟩
  rw [strcpy_toList copy, data_append text]

theorem strcpy_fits (dst : Vector UInt8 n) (fits : s.length < n) :
    ∃ field, strcpy dst s = .ok field :=
  ⟨_, if_pos fits⟩

end

/-- A call throws only what does not fit, and what it makes keeps what it was given. -/
def FitsOrThrows {α : Type} (made : Except Stop α) (fits : Prop) (kept : α → Prop) : Prop :=
  match made with
  | .ok a => kept a
  | .error (.runtime_error _) => ¬ fits
  | .error (.undefined _) | .error (.blocked _) => False

/-! ## The three constructors -/

variable {arrayName dataType blockid extraInfo : List UInt8}

/-- The name fits its array with a terminator, which the check does not ask for. -/
theorem ArraySummary.fitsOrThrows_iff (raw : ArraySummary) (elemSize elemNum : UInt64)
    (text : 0 ∉ arrayName) :
    FitsOrThrows (ArraySummary.new raw arrayName elemSize elemNum)
      (arrayName.length < STRLENLONG) (fun as => Kept as.m_arrayName arrayName) ↔
      arrayName.length ≠ STRLENLONG := by
  unfold ArraySummary.new
  rw [data_eq text]
  by_cases long : STRLENLONG < arrayName.length
  · rw [if_pos long]
    exact iff_of_true (Nat.not_lt.mpr long.le) long.ne'
  · rw [if_neg long]
    by_cases fits : arrayName.length < STRLENLONG
    · obtain ⟨field, copy⟩ := strcpy_fits raw.m_arrayName fits
      rw [copy]
      exact iff_of_true (strcpy_kept text copy) fits.ne
    · have full : arrayName.length = STRLENLONG := by omega
      have past : strcpy raw.m_arrayName arrayName =
          .error (.undefined "strcpy past the end of an array") := if_neg fits
      rw [past]
      exact iff_of_false id (not_not.mpr full)

theorem DataBlockInterface.fitsOrThrows (raw : DataBlockInterface) (text : 0 ∉ blockid) :
    FitsOrThrows (DataBlockInterface.new raw blockid) (blockid.length < STRLENLONG)
      fun b => Kept b.m_blockid blockid := by
  unfold DataBlockInterface.new
  rw [data_eq text]
  by_cases long : STRLENLONG ≤ blockid.length
  · rw [if_pos long]
    exact Nat.not_lt.mpr long
  · rw [if_neg long]
    obtain ⟨field, copy⟩ := strcpy_fits raw.m_blockid (Nat.not_le.mp long)
    rw [copy]
    exact strcpy_kept text copy

namespace BlockSummary

/-- The three strings fit their arrays. -/
def Fit (dataType blockid extraInfo : List UInt8) : Prop :=
  dataType.length < STRLENSHORT ∧ blockid.length < STRLENLONG ∧ extraInfo.length < STRLENSHORT

instance : Decidable (Fit dataType blockid extraInfo) := inferInstanceAs (Decidable (_ ∧ _))

/-- The number of arrays passes its check. -/
def Counted (arrayList : List ArraySummary) : Prop :=
  (size_t (arrayListSize arrayList)).toNat ≤ ARRAYLENINBLOCK

instance (arrayList : List ArraySummary) : Decidable (Counted arrayList) :=
  inferInstanceAs (Decidable (_ ≤ _))

/-- The fields of a summary keep the strings. -/
structure Keeps (bs : BlockSummary) (dataType blockid extraInfo : List UInt8) : Prop where
  dataType : Kept bs.m_dataType dataType
  blockid : Kept bs.m_blockid blockid
  extraInfo : Kept bs.m_extraInfo extraInfo

variable {arrayList : List ArraySummary} {dims : UInt64} {indexlb indexub : Array3 Int32}

theorem new_uncounted (raw : BlockSummary) (dataType blockid extraInfo : List UInt8) (dims : UInt64)
    (indexlb indexub : Array3 Int32) (count : ¬ Counted arrayList) :
    ∃ what, new raw arrayList dataType blockid dims indexlb indexub extraInfo =
      .error (.runtime_error what) :=
  ⟨_, if_pos (Nat.not_le.mp count)⟩

theorem new_unfit (raw : BlockSummary) (arrayList : List ArraySummary) (dims : UInt64)
    (indexlb indexub : Array3 Int32)
    (dataTypeText : 0 ∉ dataType) (blockidText : 0 ∉ blockid) (extraInfoText : 0 ∉ extraInfo)
    (unfit : ¬ Fit dataType blockid extraInfo) :
    ∃ what, new raw arrayList dataType blockid dims indexlb indexub extraInfo =
      .error (.runtime_error what) := by
  unfold new
  rw [data_eq dataTypeText, data_eq blockidText, data_eq extraInfoText]
  split_ifs with _ longType longId longInfo
  · exact ⟨_, rfl⟩
  · exact ⟨_, rfl⟩
  · exact ⟨_, rfl⟩
  · exact ⟨_, rfl⟩
  · exact absurd ⟨Nat.not_le.mp longType, Nat.not_le.mp longId, Nat.not_le.mp longInfo⟩ unfit

theorem new_fit (raw : BlockSummary) (dims : UInt64) (indexlb indexub : Array3 Int32)
    (dataTypeText : 0 ∉ dataType) (blockidText : 0 ∉ blockid) (extraInfoText : 0 ∉ extraInfo)
    (count : Counted arrayList) (fit : Fit dataType blockid extraInfo) :
    ∃ bs, new raw arrayList dataType blockid dims indexlb indexub extraInfo = .ok bs ∧
      bs.Keeps dataType blockid extraInfo := by
  obtain ⟨shortType, shortId, shortInfo⟩ := fit
  obtain ⟨m_dataType, copyType⟩ := strcpy_fits raw.m_dataType shortType
  obtain ⟨m_blockid, copyId⟩ := strcpy_fits raw.m_blockid shortId
  obtain ⟨m_extraInfo, copyInfo⟩ := strcpy_fits raw.m_extraInfo shortInfo
  unfold new
  rw [data_eq dataTypeText, data_eq blockidText, data_eq extraInfoText,
    if_neg (Nat.not_lt.mpr count), if_neg (Nat.not_le.mpr shortType),
    if_neg (Nat.not_le.mpr shortId), if_neg (Nat.not_le.mpr shortInfo),
    copyType, copyId, copyInfo]
  exact ⟨_, rfl, strcpy_kept dataTypeText copyType, strcpy_kept blockidText copyId,
    strcpy_kept extraInfoText copyInfo⟩

theorem fitsOrThrows_iff (raw : BlockSummary) (arrayList : List ArraySummary) (dims : UInt64)
    (indexlb indexub : Array3 Int32)
    (dataTypeText : 0 ∉ dataType) (blockidText : 0 ∉ blockid) (extraInfoText : 0 ∉ extraInfo) :
    FitsOrThrows (new raw arrayList dataType blockid dims indexlb indexub extraInfo)
      (Fit dataType blockid extraInfo) (fun bs => bs.Keeps dataType blockid extraInfo) ↔
      (Fit dataType blockid extraInfo → Counted arrayList) := by
  by_cases fit : Fit dataType blockid extraInfo
  · by_cases count : Counted arrayList
    · obtain ⟨bs, made, keeps⟩ :=
        new_fit raw dims indexlb indexub dataTypeText blockidText extraInfoText count fit
      rw [made]
      exact iff_of_true keeps fun _ => count
    · obtain ⟨what, thrown⟩ :=
        new_uncounted raw dataType blockid extraInfo dims indexlb indexub count
      rw [thrown]
      exact iff_of_false (fun unfit => unfit fit) fun h => count (h fit)
  · obtain ⟨what, thrown⟩ := new_unfit raw arrayList dims indexlb indexub dataTypeText blockidText
      extraInfoText fit
    rw [thrown]
    exact iff_of_true fit fun h => absurd h fit

end BlockSummary

/-! ## All names of a block -/

/-- The memory the three objects are constructed in. -/
structure Memory where
  arraySummary : ArraySummary
  blockSummary : BlockSummary
  dataBlock : DataBlockInterface

/-- The arguments of the constructors, the block id being the same for both that take one. -/
structure Arguments where
  arrayName : List UInt8
  elemSize : UInt64 := 8
  elemNum : UInt64 := 1
  arrayList : List ArraySummary := []
  dataType : List UInt8
  blockid : List UInt8
  dims : UInt64 := 3
  indexlb : Array3 Int32 := ⟨0, 0, 0⟩
  indexub : Array3 Int32 := ⟨0, 0, 0⟩
  extraInfo : List UInt8 := []

namespace Arguments

/-- The strings have no zero inside. -/
structure Text (args : Arguments) : Prop where
  arrayName : 0 ∉ args.arrayName
  dataType : 0 ∉ args.dataType
  blockid : 0 ∉ args.blockid
  extraInfo : 0 ∉ args.extraInfo

/-- Each constructor keeps its strings, or throws because one of them does not fit. -/
def FitOrThrow (raw : Memory) (args : Arguments) : Prop :=
  FitsOrThrows (ArraySummary.new raw.arraySummary args.arrayName args.elemSize args.elemNum)
    (args.arrayName.length < STRLENLONG) (fun as => Kept as.m_arrayName args.arrayName) ∧
  FitsOrThrows (BlockSummary.new raw.blockSummary args.arrayList args.dataType args.blockid
      args.dims args.indexlb args.indexub args.extraInfo)
    (BlockSummary.Fit args.dataType args.blockid args.extraInfo)
    (fun bs => bs.Keeps args.dataType args.blockid args.extraInfo) ∧
  FitsOrThrows (DataBlockInterface.new raw.dataBlock args.blockid)
    (args.blockid.length < STRLENLONG) fun b => Kept b.m_blockid args.blockid

/-- The strings of a block summary are looked at only after its arrays were counted. -/
theorem fitOrThrow_iff {args : Arguments} (text : args.Text) (raw : Memory) :
    FitOrThrow raw args ↔ args.arrayName.length ≠ STRLENLONG ∧
      (BlockSummary.Fit args.dataType args.blockid args.extraInfo →
        BlockSummary.Counted args.arrayList) := by
  have array := ArraySummary.fitsOrThrows_iff raw.arraySummary args.elemSize args.elemNum
    text.arrayName
  have block := BlockSummary.fitsOrThrows_iff raw.blockSummary args.arrayList args.dims
    args.indexlb args.indexub text.dataType text.blockid text.extraInfo
  have data := DataBlockInterface.fitsOrThrows raw.dataBlock text.blockid
  unfold FitOrThrow
  rw [array, block, and_iff_left data]

/-- The strings of the mesh of a block, the array's name of as many characters. -/
def mesh (length : Nat) : Arguments where
  arrayName := List.replicate length 97
  dataType := [67, 65, 82, 71, 82, 73, 68]
  blockid := [109, 101, 115, 104, 95, 48, 95, 48]

theorem mesh_text (length : Nat) : (mesh length).Text where
  arrayName := fun mem => absurd (List.eq_of_mem_replicate mem) (by decide)
  dataType := by simp [mesh]
  blockid := by simp [mesh]
  extraInfo := by simp [mesh]

/-- Memory that was all zeros. -/
def zeros : Memory where
  arraySummary := RawMemory.zeros.arraySummary
  blockSummary := RawMemory.zeros.blockSummary
  dataBlock := ⟨Vector.replicate _ 0, RawMemory.zeros.blockSummary⟩

/-- The longest name that its array can hold. -/
theorem mesh_fits : FitOrThrow zeros (mesh 127) :=
  have count : BlockSummary.Counted (mesh 127).arrayList := by decide
  (fitOrThrow_iff (mesh_text 127) _).mpr ⟨by simp [mesh, STRLENLONG], fun _ => count⟩

/-- One character more passes the check, and its terminator is written past the array. -/
theorem mesh_overflows :
    ¬ ∀ (raw : Memory) (args : Arguments), args.Text → FitOrThrow raw args := by
  intro all
  have whole := all zeros (mesh 128) (mesh_text 128)
  rw [FitOrThrow, ArraySummary.fitsOrThrows_iff _ _ _ (mesh_text 128).arrayName] at whole
  exact whole.1 List.length_replicate

end Arguments

end Gorilla.Wire
