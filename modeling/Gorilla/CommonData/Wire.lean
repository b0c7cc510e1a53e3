import Gorilla.CommonData.Metadata
import Gorilla.Lib.Archive

/-!
# The messages on the wire

Each record lists its members once for both directions. Records with numbers appear here as
they lie in memory, each number with its width, and summaries with their character arrays,
the fixed array of entries and `m_clientID`. The rest of the development reads what
`BlockSummary.summary` and its like extract.
-/

universe u

namespace Gorilla.Wire

open Archive

def STRLENSHORT : Nat := 64

abbrev DATAYPE := Vector UInt8 STRLENSHORT
abbrev BlOCKID := Vector UInt8 STRLENLONG
abbrev ARRAYID := Vector UInt8 STRLENLONG
abbrev EXTRAINFO := Vector UInt8 STRLENSHORT

/-- Whether `strcmp` returns zero. It must not run off either array. -/
def strcmp : List UInt8 → List UInt8 → Except Stop Bool
  | a :: as, b :: bs =>
    if a ≠ b then .ok false else if a = 0 then .ok true else strcmp as bs
  | _, _ => .error (.undefined "strcmp past the end of an array")

theorem strcmp_self : ∀ {as : List UInt8}, 0 ∈ as → strcmp as as = .ok true
  | [], h => absurd h (by simp)
  | a :: as, h => by
    by_cases stop : a = 0
    · simp [strcmp, stop]
    · have rest : 0 ∈ as := by simpa [Ne.symm stop] using h
      simp [strcmp, stop, strcmp_self rest]

/-- `strcpy(dst, src)`: the terminator has to fit as well. -/
def strcpy {n : Nat} (dst : Vector UInt8 n) (src : List UInt8) : Except Stop (Vector UInt8 n) :=
  if src.length < n then .ok (Vector.ofFn fun i => ((src ++ [0])[i]?).getD (dst.get i))
  else .error (.undefined "strcpy past the end of an array")

theorem strcpy_terminated {n : Nat} {dst arr : Vector UInt8 n} {src : List UInt8}
    (h : strcpy dst src = .ok arr) : 0 ∈ arr.toList := by
  unfold strcpy at h
  split at h
  case isTrue fits =>
    cases h
    apply Vector.mem_toList_iff.mpr
    apply Vector.mem_iff_getElem.mpr
    refine ⟨src.length, fits, ?_⟩
    rw [Vector.getElem_ofFn]
    simp
  case isFalse => cases h

/-- What a `std::string` holds up to its first zero. -/
def data (s : List UInt8) : List UInt8 := s.takeWhile (· ≠ 0)

def text (s : List UInt8) : String := String.ofList (s.map fun c => Char.ofNat c.toNat)

structure ArraySummary where
  m_arrayName : ARRAYID
  m_elemSize : UInt64
  m_elemNum : UInt64
  deriving DecidableEq

/-- The default constructor leaves the name as the memory was. -/
def ArraySummary.blank (raw : ArraySummary) : ArraySummary :=
  { raw with m_elemSize := 0, m_elemNum := 0 }

/-- The other constructor. A name as long as the array passes the check. -/
def ArraySummary.new (raw : ArraySummary) (arrayName : List UInt8) (elemSize elemNum : UInt64) :
    Except Stop ArraySummary :=
  if STRLENLONG < arrayName.length then
    .error (.runtime_error ("length of arrayName should less than " ++ toString STRLENLONG))
  else do
    let m_arrayName ← strcpy raw.m_arrayName (data arrayName)
    return { m_arrayName, m_elemSize := elemSize, m_elemNum := elemNum }

def ArraySummary.summary (as : ArraySummary) : Gorilla.ArraySummary where
  m_arrayName := text (data as.m_arrayName.toList)
  m_elemSize := as.m_elemSize
  m_elemNum := as.m_elemNum

structure BlockSummary where
  m_dataType : DATAYPE
  m_blockid : BlOCKID
  m_backend : Int32
  m_dims : UInt64
  m_indexlb : Array3 Int32
  m_indexub : Array3 Int32
  m_clientID : Int32
  m_arrayListLen : UInt8
  m_arrayList : Vector ArraySummary ARRAYLENINBLOCK
  m_extraInfo : EXTRAINFO
  deriving DecidableEq

namespace BlockSummary

/-- The default constructor, over what the memory held. -/
def blank (raw : BlockSummary) : BlockSummary where
  m_dataType := raw.m_dataType.set 0 0 (by decide)
  m_blockid := Vector.replicate STRLENLONG 0
  m_backend := .ofInt BACKEND.MEM
  m_dims := 3
  m_indexlb := ⟨0, 0, 0⟩
  m_indexub := ⟨0, 0, 0⟩
  m_clientID := raw.m_clientID
  m_arrayListLen := raw.m_arrayListLen
  m_arrayList := raw.m_arrayList.map ArraySummary.blank
  m_extraInfo := raw.m_extraInfo.set 0 0 (by decide)

/-- `int arrayListSize = arrayList.size()` -/
def arrayListSize (arrayList : List ArraySummary) : Int := sizeToInt arrayList.length

/-- The other constructor. It leaves `m_clientID` alone as well. -/
def new (raw : BlockSummary) (arrayList : List ArraySummary) (dataType blockid : List UInt8)
    (dims : UInt64) (indexlb indexub : Array3 Int32) (extraInfo : List UInt8) :
    Except Stop BlockSummary :=
  -- the comparison is one of `size_t` values
  if ARRAYLENINBLOCK < (size_t (arrayListSize arrayList)).toNat then
    .error (.runtime_error
      ("size of array should in the range from 0 to " ++ toString ARRAYLENINBLOCK))
  else if STRLENSHORT ≤ (data dataType).length then
    .error (.runtime_error ("length of data type should less than 256: " ++ text dataType))
  else if STRLENLONG ≤ (data blockid).length then
    .error (.runtime_error ("length of blockid should less than 512: " ++ text blockid))
  else if STRLENSHORT ≤ (data extraInfo).length then
    .error (.runtime_error ("length of extraInfo should less than 512: " ++ text extraInfo))
  else do
    let copied := arrayList.take (arrayListSize arrayList).toNat
    let m_dataType ← strcpy raw.m_dataType (data dataType)
    let m_blockid ← strcpy raw.m_blockid (data blockid)
    let m_extraInfo ← strcpy raw.m_extraInfo (data extraInfo)
    return {
      m_dataType, m_blockid, m_extraInfo
      m_backend := .ofInt BACKEND.MEM, m_dims := dims, m_indexlb := indexlb, m_indexub := indexub
      m_clientID := raw.m_clientID
      m_arrayListLen := (arrayListSize arrayList).toNat.toUInt8
      m_arrayList := Vector.ofFn fun i => (copied[i]?).getD raw.m_arrayList[i].blank }

def equals (this other : BlockSummary) : Except Stop Bool := do
  if !(← strcmp this.m_dataType.toList other.m_dataType.toList) then return false
  if !(← strcmp this.m_blockid.toList other.m_blockid.toList) then return false
  if this.m_backend ≠ other.m_backend then return false
  if this.m_dims ≠ other.m_dims then return false
  if this.m_indexlb ≠ other.m_indexlb then return false
  if this.m_indexub ≠ other.m_indexub then return false
  if this.m_clientID ≠ other.m_clientID then return false
  if !(← strcmp this.m_extraInfo.toList other.m_extraInfo.toList) then return false
  return true

/-- The character arrays compared by `equals` end inside their memory. -/
structure Terminated (bs : BlockSummary) : Prop where
  dataType : 0 ∈ bs.m_dataType.toList
  blockid : 0 ∈ bs.m_blockid.toList
  extraInfo : 0 ∈ bs.m_extraInfo.toList

theorem blank_terminated (raw : BlockSummary) : raw.blank.Terminated where
  dataType := Vector.mem_toList_iff.mpr (Vector.mem_set (by decide))
  blockid := by simp [blank, STRLENLONG]
  extraInfo := Vector.mem_toList_iff.mpr (Vector.mem_set (by decide))

/-- Every summary the constructor lets through can be compared. -/
theorem new_terminated {raw bs : BlockSummary} {arrayList : List ArraySummary}
    {dataType blockid extraInfo : List UInt8} {dims : UInt64} {indexlb indexub : Array3 Int32}
    (h : new raw arrayList dataType blockid dims indexlb indexub extraInfo = .ok bs) :
    bs.Terminated := by
  unfold new at h
  split at h
  · cases h
  split at h
  · cases h
  split at h
  · cases h
  split at h
  · cases h
  simp only [bind_eq_ok] at h
  obtain ⟨dt, hdt, bid, hbid, extra, hextra, made⟩ := h
  cases made
  exact ⟨strcpy_terminated hdt, strcpy_terminated hbid, strcpy_terminated hextra⟩

/-- Summaries that agree but for `m_clientID` are told apart by it. -/
theorem equals_clientID {bs : BlockSummary} (ends : bs.Terminated) (c : Int32) :
    bs.equals { bs with m_clientID := c } = .ok (decide (bs.m_clientID = c)) := by
  by_cases own : bs.m_clientID = c
  · simp [equals, strcmp_self ends.dataType, strcmp_self ends.blockid,
      strcmp_self ends.extraInfo, own, bind, Except.bind, pure, Except.pure]
  · simp [equals, strcmp_self ends.dataType, strcmp_self ends.blockid, own, bind, Except.bind,
      pure, Except.pure]

/-- The array and its length as the list of entries in use, the strings without their arrays. -/
def summary (bs : BlockSummary) : Gorilla.BlockSummary where
  m_dataType := text (data bs.m_dataType.toList)
  m_blockid := text (data bs.m_blockid.toList)
  m_backend := bs.m_backend.toInt
  m_dims := bs.m_dims.toNat
  m_indexlb := bs.m_indexlb.map Int32.toInt
  m_indexub := bs.m_indexub.map Int32.toInt
  m_arrayList := (bs.m_arrayList.toList.take bs.m_arrayListLen.toNat).map ArraySummary.summary
  m_extraInfo := text (data bs.m_extraInfo.toList)

end BlockSummary

structure MetaAddrWrapper where
  m_index : Int32
  m_addr : String
  deriving DecidableEq

/-- The default constructor leaves the index as the memory was. -/
def MetaAddrWrapper.blank (raw : MetaAddrWrapper) : MetaAddrWrapper := { raw with m_addr := "" }

def MetaAddrWrapper.wrapper (v : MetaAddrWrapper) : Gorilla.MetaAddrWrapper where
  m_index := v.m_index.toInt
  m_addr := v.m_addr

/-- The number of an enumerator. -/
def number : MetaStatus → Int32
  | .ERROR => 0
  | .BEFOREPROCESS => 1
  | .INPROCESS => 2
  | .AFTERPROCESS => 3
  | .UNDELETABLE => 4

/-- The enumerator a number stands for. An `int` can hold others. -/
def enumerator (status : Int32) : Option MetaStatus :=
  [.ERROR, .BEFOREPROCESS, .INPROCESS, .AFTERPROCESS, .UNDELETABLE].find? (number · = status)

structure BlockDescriptor where
  m_rawDataServerAddr : String := ""
  m_rawDataID : String := ""
  m_metaStatus : Int32 := number .BEFOREPROCESS
  m_dataType : String := DATATYPE_CARGRID
  m_backend : Int32 := .ofInt BACKEND.MEM
  m_dims : UInt64 := 0
  m_indexlb : Array3 Int32 := ⟨0, 0, 0⟩
  m_indexub : Array3 Int32 := ⟨0, 0, 0⟩
  deriving DecidableEq

def BlockDescriptor.descriptor (v : BlockDescriptor) : Option Gorilla.BlockDescriptor :=
  (enumerator v.m_metaStatus).map fun m_metaStatus => {
    m_rawDataServerAddr := v.m_rawDataServerAddr
    m_rawDataID := v.m_rawDataID
    m_metaStatus
    m_dataType := v.m_dataType
    m_backend := v.m_backend.toInt
    m_dims := v.m_dims.toNat
    m_indexlb := v.m_indexlb.map Int32.toInt
    m_indexub := v.m_indexub.map Int32.toInt }

structure EventWrapper where
  m_type : String := EVENT_DATA_PUT
  m_varName : String := "NULL"
  m_step : UInt64 := 0
  m_dims : Int32 := 0
  m_indexlb : Array3 Int32 := ⟨0, 0, 0⟩
  m_indexub : Array3 Int32 := ⟨0, 0, 0⟩
  deriving DecidableEq

def EventWrapper.event (v : EventWrapper) : Gorilla.EventWrapper where
  m_type := v.m_type
  m_varName := v.m_varName
  m_step := v.m_step.toNat
  m_dims := v.m_dims.toInt
  m_indexlb := v.m_indexlb.map Int32.toInt
  m_indexub := v.m_indexub.map Int32.toInt

/-! ## The members each record lists -/

/-- An archive for every type the records have members of. -/
class Members (W : Type u) where
  string : Coded W String
  strings : Coded W (List String)
  int : Coded W Int32
  size_t : Coded W UInt64
  byte : Coded W UInt8
  bounds : Coded W (Array3 Int32)

attribute [reducible, instance] Members.string Members.strings Members.int Members.size_t
  Members.byte Members.bounds

section
open Pass

variable {W : Type u} [Members W]

def ArraySummary.serialize : Pass W ArraySummary := all [
  member (array _ value) (·.m_arrayName) fun t x => { t with m_arrayName := x },
  member value (·.m_elemSize) fun t x => { t with m_elemSize := x },
  member value (·.m_elemNum) fun t x => { t with m_elemNum := x }]

theorem ArraySummary.assign_serialize (v old : ArraySummary) :
    (ArraySummary.serialize : Pass W ArraySummary).assign v old = v := by
  simp [ArraySummary.serialize]

def BlockSummary.serialize : Pass W BlockSummary := all [
  member (array _ value) (·.m_dataType) fun t x => { t with m_dataType := x },
  member (array _ value) (·.m_blockid) fun t x => { t with m_blockid := x },
  member value (·.m_backend) fun t x => { t with m_backend := x },
  member value (·.m_dims) fun t x => { t with m_dims := x },
  member value (·.m_indexlb) fun t x => { t with m_indexlb := x },
  member value (·.m_indexub) fun t x => { t with m_indexub := x },
  member value (·.m_arrayListLen) fun t x => { t with m_arrayListLen := x },
  member (array _ ArraySummary.serialize) (·.m_arrayList) fun t x => { t with m_arrayList := x },
  member (array _ value) (·.m_extraInfo) fun t x => { t with m_extraInfo := x }]

/-- All of a summary is written but `m_clientID`. -/
theorem BlockSummary.assign_serialize (v old : BlockSummary) :
    (BlockSummary.serialize : Pass W BlockSummary).assign v old =
      { v with m_clientID := old.m_clientID } := by
  simp [BlockSummary.serialize, assign_array_eq, ArraySummary.assign_serialize]

/-- The part of a summary that handlers read is what the client sent. -/
theorem BlockSummary.summary_arrives (v old : BlockSummary) :
    ((BlockSummary.serialize : Pass W BlockSummary).load old (serialize.write v)).map summary =
      some v.summary := by
  rw [load_write, assign_serialize]
  rfl

/-- What arrives of a summary: equal under `equals`, and with the same entries in use. -/
def BlockSummary.Arrives (W : Type u) [Members W] (v blank : BlockSummary) : Prop :=
  ∃ w, (BlockSummary.serialize : Pass W BlockSummary).load blank (serialize.write v) = some w ∧
    v.equals w = .ok true ∧ w.m_arrayListLen = v.m_arrayListLen ∧
    ∀ i : Fin ARRAYLENINBLOCK, i < v.m_arrayListLen.toNat → w.m_arrayList[i] = v.m_arrayList[i]

theorem BlockSummary.arrives_iff {v : BlockSummary} (ends : v.Terminated) (blank : BlockSummary) :
    v.Arrives W blank ↔ v.m_clientID = blank.m_clientID := by
  rw [BlockSummary.Arrives, load_write, BlockSummary.assign_serialize]
  constructor
  · rintro ⟨w, hw, same, -⟩
    cases hw
    rw [equals_clientID ends] at same
    simpa using same
  · intro same
    refine ⟨_, rfl, ?_, rfl, fun _ _ => rfl⟩
    rw [equals_clientID ends, decide_eq_true same]

def FilterProfile.serialize : Pass W FilterProfile := all [
  member value (·.m_profileName) fun t x => { t with m_profileName := x },
  member value (·.m_stepFilterName) fun t x => { t with m_stepFilterName := x },
  member value (·.m_blockIDFilterName) fun t x => { t with m_blockIDFilterName := x },
  member value (·.m_contentFilterName) fun t x => { t with m_contentFilterName := x },
  member value (·.m_subscriberAddr) fun t x => { t with m_subscriberAddr := x }]

theorem FilterProfile.assign_serialize (v old : FilterProfile) :
    (FilterProfile.serialize : Pass W FilterProfile).assign v old = v := by
  simp [FilterProfile.serialize]

def MetaAddrWrapper.serialize : Pass W MetaAddrWrapper := all [
  member value (·.m_index) fun t x => { t with m_index := x },
  member value (·.m_addr) fun t x => { t with m_addr := x }]

theorem MetaAddrWrapper.assign_serialize (v old : MetaAddrWrapper) :
    (MetaAddrWrapper.serialize : Pass W MetaAddrWrapper).assign v old = v := by
  simp [MetaAddrWrapper.serialize]

theorem MetaAddrWrapper.wrapper_arrives (v old : MetaAddrWrapper) :
    ((MetaAddrWrapper.serialize : Pass W MetaAddrWrapper).load old
      (serialize.write v)).map wrapper = some v.wrapper := by
  rw [load_write, assign_serialize]
  rfl

def BlockDescriptor.serialize : Pass W BlockDescriptor := all [
  member value (·.m_rawDataServerAddr) fun t x => { t with m_rawDataServerAddr := x },
  member value (·.m_rawDataID) fun t x => { t with m_rawDataID := x },
  member value (·.m_metaStatus) fun t x => { t with m_metaStatus := x },
  member value (·.m_dataType) fun t x => { t with m_dataType := x },
  member value (·.m_backend) fun t x => { t with m_backend := x },
  member value (·.m_dims) fun t x => { t with m_dims := x },
  member value (·.m_indexlb) fun t x => { t with m_indexlb := x },
  member value (·.m_indexub) fun t x => { t with m_indexub := x }]

theorem BlockDescriptor.assign_serialize (v old : BlockDescriptor) :
    (BlockDescriptor.serialize : Pass W BlockDescriptor).assign v old = v := by
  simp [BlockDescriptor.serialize]

theorem BlockDescriptor.descriptor_arrives (v old : BlockDescriptor) :
    ((BlockDescriptor.serialize : Pass W BlockDescriptor).load old
      (serialize.write v)).bind descriptor = v.descriptor := by
  rw [load_write, assign_serialize]
  rfl

def InfoForPut.serialize : Pass W InfoForPut := all [
  member value (·.m_putMethod) fun t x => { t with m_putMethod := x },
  member value (·.m_metaServerList) fun t x => { t with m_metaServerList := x }]

theorem InfoForPut.assign_serialize (v old : InfoForPut) :
    (InfoForPut.serialize : Pass W InfoForPut).assign v old = v := by
  simp [InfoForPut.serialize]

def DynamicTriggerInfo.serialize : Pass W DynamicTriggerInfo := all [
  member value (·.m_checkFunc) fun t x => { t with m_checkFunc := x },
  member value (·.m_checkFuncPara) fun t x => { t with m_checkFuncPara := x },
  member value (·.m_comparisonFunc) fun t x => { t with m_comparisonFunc := x },
  member value (·.m_comparisonFuncPara) fun t x => { t with m_comparisonFuncPara := x },
  member value (·.m_actionFunc) fun t x => { t with m_actionFunc := x },
  member value (·.m_actionFuncPara) fun t x => { t with m_actionFuncPara := x },
  member value (·.m_masterAddr) fun t x => { t with m_masterAddr := x }]

theorem DynamicTriggerInfo.assign_serialize (v old : DynamicTriggerInfo) :
    (DynamicTriggerInfo.serialize : Pass W DynamicTriggerInfo).assign v old = v := by
  simp [DynamicTriggerInfo.serialize]

def EventWrapper.serialize : Pass W EventWrapper := all [
  member value (·.m_type) fun t x => { t with m_type := x },
  member value (·.m_varName) fun t x => { t with m_varName := x },
  member value (·.m_step) fun t x => { t with m_step := x },
  member value (·.m_dims) fun t x => { t with m_dims := x },
  member value (·.m_indexlb) fun t x => { t with m_indexlb := x },
  member value (·.m_indexub) fun t x => { t with m_indexub := x }]

theorem EventWrapper.assign_serialize (v old : EventWrapper) :
    (EventWrapper.serialize : Pass W EventWrapper).assign v old = v := by
  simp [EventWrapper.serialize]

theorem EventWrapper.event_arrives (v old : EventWrapper) :
    ((EventWrapper.serialize : Pass W EventWrapper).load old
      (serialize.write v)).map event = some v.event := by
  rw [load_write, assign_serialize]
  rfl

/-- A value of one of the eight records. -/
inductive Message
  | filterProfile (v : FilterProfile)
  | metaAddrWrapper (v : MetaAddrWrapper)
  | arraySummary (v : ArraySummary)
  | blockSummary (v : BlockSummary) (ends : v.Terminated)
  | blockDescriptor (v : BlockDescriptor)
  | infoForPut (v : InfoForPut)
  | dynamicTriggerInfo (v : DynamicTriggerInfo)
  | eventWrapper (v : EventWrapper)

/-- What the memory of the objects read into held before they were constructed. -/
structure RawMemory where
  metaAddrWrapper : MetaAddrWrapper
  arraySummary : ArraySummary
  blockSummary : BlockSummary

namespace Message

/-- The value, written and read into a default-constructed object, is there again. -/
def RoundTrips (W : Type u) [Members W] (raw : RawMemory) : Message → Prop
  | filterProfile v =>
    (FilterProfile.serialize : Pass W _).load {} (FilterProfile.serialize.write v) = some v
  | metaAddrWrapper v =>
    (MetaAddrWrapper.serialize : Pass W _).load (MetaAddrWrapper.blank raw.metaAddrWrapper)
      (MetaAddrWrapper.serialize.write v) = some v
  | arraySummary v =>
    (ArraySummary.serialize : Pass W _).load raw.arraySummary.blank
      (ArraySummary.serialize.write v) = some v
  | blockSummary v _ => v.Arrives W raw.blockSummary.blank
  | blockDescriptor v =>
    (BlockDescriptor.serialize : Pass W _).load {} (BlockDescriptor.serialize.write v) = some v
  | infoForPut v =>
    (InfoForPut.serialize : Pass W _).load {} (InfoForPut.serialize.write v) = some v
  | dynamicTriggerInfo v =>
    (DynamicTriggerInfo.serialize : Pass W _).load {} (DynamicTriggerInfo.serialize.write v) =
      some v
  | eventWrapper v =>
    (EventWrapper.serialize : Pass W _).load {} (EventWrapper.serialize.write v) = some v

/-- The member no list names has the value that lay in the receiver's memory. -/
def ClientIDKept (raw : RawMemory) : Message → Prop
  | blockSummary v _ => v.m_clientID = raw.blockSummary.m_clientID
  | _ => True

theorem roundTrips_iff (raw : RawMemory) (m : Message) :
    m.RoundTrips W raw ↔ m.ClientIDKept raw := by
  have whole {T : Type} {p : Pass W T} {v old : T} (h : p.assign v old = v) :
      p.load old (p.write v) = some v ↔ True := iff_of_true (load_write_eq_iff.mpr h) trivial
  cases m with
  | blockSummary v ends => exact BlockSummary.arrives_iff ends _
  | filterProfile v => exact whole (FilterProfile.assign_serialize v _)
  | metaAddrWrapper v => exact whole (MetaAddrWrapper.assign_serialize v _)
  | arraySummary v => exact whole (ArraySummary.assign_serialize v _)
  | blockDescriptor v => exact whole (BlockDescriptor.assign_serialize v _)
  | infoForPut v => exact whole (InfoForPut.assign_serialize v _)
  | dynamicTriggerInfo v => exact whole (DynamicTriggerInfo.assign_serialize v _)
  | eventWrapper v => exact whole (EventWrapper.assign_serialize v _)

end Message
end

/-! ## A summary whose client is forgotten -/

/-- An archive of one word for each member. -/
inductive Word
  | string (s : String)
  | strings (l : List String)
  | int (z : Int32)
  | size_t (n : UInt64)
  | byte (b : UInt8)
  | bounds (a : Array3 Int32)

/-- One kind of word carries one type. -/
@[reducible] def Word.coded {α : Type} (word : α → Word) (value : Word → Option α)
    (own : ∀ x, value (word x) = some x) : Coded Word α where
  put x := [word x]
  get
    | [] => none
    | w :: ws => (value w).map fun x => (x, ws)
  get_put x rest := by simp [own]

instance : Members Word where
  string := Word.coded .string (fun | .string s => some s | _ => none) fun _ => rfl
  strings := Word.coded .strings (fun | .strings l => some l | _ => none) fun _ => rfl
  int := Word.coded .int (fun | .int z => some z | _ => none) fun _ => rfl
  size_t := Word.coded .size_t (fun | .size_t n => some n | _ => none) fun _ => rfl
  byte := Word.coded .byte (fun | .byte b => some b | _ => none) fun _ => rfl
  bounds := Word.coded .bounds (fun | .bounds a => some a | _ => none) fun _ => rfl

/-- Memory that was all zeros. -/
def RawMemory.zeros : RawMemory where
  metaAddrWrapper := ⟨0, ""⟩
  arraySummary := ⟨Vector.replicate _ 0, 0, 0⟩
  blockSummary :=
    ⟨Vector.replicate _ 0, Vector.replicate _ 0, 0, 0, ⟨0, 0, 0⟩, ⟨0, 0, 0⟩, 0, 0,
      Vector.replicate _ ⟨Vector.replicate _ 0, 0, 0⟩, Vector.replicate _ 0⟩

/-- A summary of the client with identifier 1. -/
def ofClient : BlockSummary :=
  { RawMemory.zeros.blockSummary.blank with m_clientID := 1 }

theorem ofClient_terminated : ofClient.Terminated :=
  BlockSummary.blank_terminated { RawMemory.zeros.blockSummary with m_clientID := 1 }

/-- Received where one of the same client lay before, it is there again. -/
theorem clientID_kept :
    (Message.blockSummary ofClient ofClient_terminated).RoundTrips Word
      { RawMemory.zeros with blockSummary := ofClient } :=
  (Message.roundTrips_iff _ _).mpr rfl

/-- Received into zeroed memory, it has lost its client. -/
theorem clientID_lost :
    ¬ ∀ (raw : RawMemory) (m : Message), m.RoundTrips Word raw := by
  intro all
  have arrived := all RawMemory.zeros (.blockSummary _ ofClient_terminated)
  have same := (BlockSummary.arrives_iff ofClient_terminated _).mp arrived
  exact absurd same (by decide)

end Gorilla.Wire
