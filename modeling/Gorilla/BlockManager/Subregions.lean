import Gorilla.BlockManager.DataBlock
import Gorilla.Utils.Copies

/-!
# Parts of a block in memory

What `RawMemObj::getDataSubregion` returns for a part of a block whose elements match its box.
Offsets below the box become large `size_t` values, which the checks of `getSubMatrix` refuse.
-/

universe u

namespace Gorilla

open MATRIXTOOL

namespace BlockSummary

/-- The offsets of a corner from the lower corner of the box are `int` values. -/
def Offsets (bs : BlockSummary) (corner : Array3 Int) : Prop :=
  IsInt (corner.x - bs.m_indexlb.x) ∧ IsInt (corner.y - bs.m_indexlb.y) ∧
    IsInt (corner.z - bs.m_indexlb.z)

instance (bs : BlockSummary) (corner : Array3 Int) : Decidable (bs.Offsets corner) :=
  inferInstanceAs (Decidable (_ ∧ _))

end BlockSummary

namespace DataBlock

variable {bs : BlockSummary} {as : ArraySummary} {lb ub : Array3 Int} {data : Buffer}

/-- The corner of a request counted from the lower corner of the box. -/
def shifted (bs : BlockSummary) (corner : Array3 Int) : Array3 UInt64 :=
  ⟨size_t (corner.x - bs.m_indexlb.x), size_t (corner.y - bs.m_indexlb.y),
    size_t (corner.z - bs.m_indexlb.z)⟩

theorem nonoffset_eq (corner : Array3 Int) : nonoffset corner bs.m_indexlb =
    if bs.Offsets corner then .ok (shifted bs corner)
    else .error (.undefined "signed overflow") := by
  unfold nonoffset int BlockSummary.Offsets shifted
  by_cases hx : IsInt (corner.x - bs.m_indexlb.x)
  · by_cases hy : IsInt (corner.y - bs.m_indexlb.y)
    · by_cases hz : IsInt (corner.z - bs.m_indexlb.z)
      · simp [hx, hy, hz, bind, Except.bind, pure, Except.pure]
      · simp [hx, hy, hz, bind, Except.bind]
    · simp [hx, hy, bind, Except.bind]
  · simp [hx, bind, Except.bind]

theorem size_t_inj {a b : Int} (ha : IsInt a) (hb : IsInt b) : size_t a = size_t b ↔ a = b := by
  refine ⟨fun h => ?_, fun h => by rw [h]⟩
  have h := congrArg UInt64.toNat h
  unfold size_t at h
  unfold IsInt INT_MIN INT_MAX at ha hb
  rw [UInt64.toNat_ofNat_of_lt' (by show _ < 2 ^ 64; omega),
    UInt64.toNat_ofNat_of_lt' (by show _ < 2 ^ 64; omega)] at h
  omega

/-- The number of elements a block is asked to have: axes of one cell are left out, and the
others count one cell less. -/
def currentElemNum (globalUbNonoffset : Array3 UInt64) : UInt64 :=
  globalUbNonoffset.toList.foldl (fun n ub => if ub ≠ 0 then n * ub else n) 1

theorem currentElemNum_le (ub : Array3 UInt64) : (currentElemNum ub).toNat ≤ cellCount ub := by
  have keep : ∀ n u : UInt64, (if u ≠ 0 then n * u else n).toNat ≤ n.toNat * (u.toNat + 1) := by
    intro n u
    split
    · rw [UInt64.toNat_mul]
      exact (Nat.mod_le _ _).trans (Nat.mul_le_mul_left _ (Nat.le_succ _))
    · exact Nat.le_mul_of_pos_right _ (Nat.succ_pos _)
  simp only [currentElemNum, Array3.toList, List.foldl]
  calc _ ≤ _ * (ub.z.toNat + 1) := keep _ _
    _ ≤ _ * (ub.y.toNat + 1) * (ub.z.toNat + 1) := Nat.mul_le_mul_right _ (keep _ _)
    _ ≤ (1 * (ub.x.toNat + 1)) * (ub.y.toNat + 1) * (ub.z.toNat + 1) :=
      Nat.mul_le_mul_right _ (Nat.mul_le_mul_right _ (keep _ _))
    _ = cellCount ub := by rw [cellCount]; ring

/-- `subregionOf` with its last call left open. -/
def subregionWith {ρ : Type} (getSubMatrix : UInt64 → Array3 UInt64 → Array3 UInt64 →
    Array3 UInt64 → Except Stop ρ) (bs : BlockSummary) (subregionlb subregionub : Array3 Int) :
    Except Stop (BlockSummary × ρ) := do
  let elemSize ← bs.getArrayElemSize bs.m_blockid
  let offset := bs.m_indexlb
  let subregionLbNonoffset ← nonoffset subregionlb offset
  let subregionUbNonoffset ← nonoffset subregionub offset
  let globalUbNonoffset ← nonoffset bs.m_indexub offset
  let elemNum ← bs.getArrayElemNum bs.m_blockid
  if elemNum < currentElemNum globalUbNonoffset then
    throw (.runtime_error ("failed to getDataSubregion, current elem number is larger " ++
      "than the value in Blocksummary"))
  let result ← getSubMatrix elemSize subregionLbNonoffset subregionUbNonoffset globalUbNonoffset
  return ({ bs with m_indexlb := subregionlb, m_indexub := subregionub }, result)

theorem subregionOf_eq_with : subregionOf bs lb ub data =
    subregionWith (fun e subLb subUb globalUb => getSubMatrix e subLb subUb globalUb data)
      bs lb ub := rfl

/-- The array of the block is there, so the call stops at an offset, at the number of elements
or in its last call. -/
theorem subregionWith_eq {ρ : Type} {getSubMatrix : UInt64 → Array3 UInt64 → Array3 UInt64 →
    Array3 UInt64 → Except Stop ρ}
    (found : ∀ what missing, bs.arrayOf what missing bs.m_blockid = .ok as) :
    subregionWith getSubMatrix bs lb ub =
      if bs.Offsets lb ∧ bs.Offsets ub ∧ bs.Offsets bs.m_indexub then
        if as.m_elemNum < currentElemNum (shifted bs bs.m_indexub) then
          .error (.runtime_error ("failed to getDataSubregion, current elem number is larger " ++
            "than the value in Blocksummary"))
        else
          (getSubMatrix as.m_elemSize (shifted bs lb) (shifted bs ub)
            (shifted bs bs.m_indexub)).map
            fun result => ({ bs with m_indexlb := lb, m_indexub := ub }, result)
      else .error (.undefined "signed overflow") := by
  have elemSize : bs.getArrayElemSize bs.m_blockid = .ok as.m_elemSize := by
    unfold BlockSummary.getArrayElemSize
    rw [found]
    rfl
  have elemNum : bs.getArrayElemNum bs.m_blockid = .ok as.m_elemNum := by
    unfold BlockSummary.getArrayElemNum
    rw [found]
    rfl
  unfold subregionWith
  rw [elemSize, elemNum]
  simp only [nonoffset_eq]
  by_cases hlb : bs.Offsets lb
  swap
  · refine Eq.trans ?_ (if_neg fun h => hlb h.1).symm
    rw [if_neg hlb]
    rfl
  by_cases hub : bs.Offsets ub
  swap
  · refine Eq.trans ?_ (if_neg fun h => hub h.2.1).symm
    rw [if_pos hlb, if_neg hub]
    rfl
  by_cases hall : bs.Offsets bs.m_indexub
  swap
  · refine Eq.trans ?_ (if_neg fun h => hall h.2.2).symm
    rw [if_pos hlb, if_pos hub, if_neg hall]
    rfl
  refine Eq.trans ?_ (if_pos ⟨hlb, hub, hall⟩).symm
  rw [if_pos hlb, if_pos hub, if_pos hall]
  by_cases few : as.m_elemNum < currentElemNum (shifted bs bs.m_indexub)
  · exact (if_pos few).trans (if_pos few).symm
  · refine (if_neg few).trans (Eq.trans ?_ (if_neg few).symm)
    cases getSubMatrix as.m_elemSize (shifted bs lb) (shifted bs ub)
      (shifted bs bs.m_indexub) with
    | ok result => rfl
    | error e => rfl

/-- `RawMemObj::getDataSubregion` with its last call left open; `whole` stands for the stored
elements. -/
def rawSubregionWith {ρ : Type} (getSubMatrix : UInt64 → Array3 UInt64 → Array3 UInt64 →
    Array3 UInt64 → Except Stop ρ) (whole : ρ) (bs : BlockSummary) (dims : Nat)
    (subregionlb subregionub : Array3 Int) : Except Stop (BlockSummary × ρ) :=
  if dims ≠ bs.m_dims then
    .error (.runtime_error "the dims is not equal to the value in blockSummary")
  else if DEFAULT_MAX_DIM < dims then
    .error (.undefined "index past the end of std::array")
  else if ifAllMatch dims bs subregionlb subregionub then
    .ok (bs, whole)
  else
    subregionWith getSubMatrix bs subregionlb subregionub

theorem subregionWith_mono {ρ : Type} {f g : UInt64 → Array3 UInt64 → Array3 UInt64 →
    Array3 UInt64 → Except Stop ρ}
    (h : ∀ e subLb subUb globalUb r, f e subLb subUb globalUb = .ok r →
      g e subLb subUb globalUb = .ok r) {r : BlockSummary × ρ}
    (run : subregionWith f bs lb ub = .ok r) : subregionWith g bs lb ub = .ok r := by
  unfold subregionWith at run ⊢
  obtain ⟨elemSize, hsize, run⟩ := bind_eq_ok.mp run
  obtain ⟨subLb, hlb, run⟩ := bind_eq_ok.mp run
  obtain ⟨subUb, hub, run⟩ := bind_eq_ok.mp run
  obtain ⟨globalUb, hall, run⟩ := bind_eq_ok.mp run
  obtain ⟨elemNum, hnum, run⟩ := bind_eq_ok.mp run
  refine bind_eq_ok.mpr ⟨elemSize, hsize, bind_eq_ok.mpr ⟨subLb, hlb, bind_eq_ok.mpr
    ⟨subUb, hub, bind_eq_ok.mpr ⟨globalUb, hall, bind_eq_ok.mpr ⟨elemNum, hnum, ?_⟩⟩⟩⟩⟩
  by_cases few : elemNum < currentElemNum globalUb
  · rw [if_pos few] at run
    cases run
  · rw [if_neg few] at run
    obtain ⟨result, hr, run⟩ := bind_eq_ok.mp run
    exact (if_neg few).trans (bind_eq_ok.mpr ⟨result, h _ _ _ _ _ hr, run⟩)

theorem rawSubregionWith_mono {ρ : Type} {f g : UInt64 → Array3 UInt64 → Array3 UInt64 →
    Array3 UInt64 → Except Stop ρ}
    (h : ∀ e subLb subUb globalUb r, f e subLb subUb globalUb = .ok r →
      g e subLb subUb globalUb = .ok r) {whole : ρ} {dims : Nat} {r : BlockSummary × ρ}
    (run : rawSubregionWith f whole bs dims lb ub = .ok r) :
    rawSubregionWith g whole bs dims lb ub = .ok r := by
  unfold rawSubregionWith at run ⊢
  by_cases hd : dims ≠ bs.m_dims
  · rw [if_pos hd] at run
    cases run
  by_cases many : DEFAULT_MAX_DIM < dims
  · rw [if_neg hd, if_pos many] at run
    cases run
  rw [if_neg hd, if_neg many] at run ⊢
  by_cases whole : ifAllMatch dims bs lb ub = true
  · rwa [if_pos whole] at run ⊢
  · rw [if_neg whole] at run ⊢
    exact subregionWith_mono h run

theorem getDataSubregion_raw {b : DataBlock} (h : b.storage = .RawMemObj (some data))
    (files : Files) (dims : Nat) (lb ub : Array3 Int) :
    b.getDataSubregion files dims lb ub =
      (rawSubregionWith (fun e subLb subUb globalUb => getSubMatrix e subLb subUb globalUb data)
        data b.m_blockSummary dims lb ub).map fun r => (r.1, some r.2) := by
  unfold getDataSubregion rawSubregionWith
  rw [h]
  dsimp only
  split
  · rfl
  split
  · rfl
  split
  · rfl
  rw [Option.getD_some, subregionOf_eq_with]
  cases subregionWith (fun e subLb subUb globalUb => getSubMatrix e subLb subUb globalUb data)
    b.m_blockSummary lb ub <;> rfl

/-- The buffer and the summary a request leaves its caller with. -/
def rawSubregionContents (bs : BlockSummary) (data : Buffer) (dims : Nat)
    (subregionlb subregionub : Array3 Int) : Except Stop (BlockSummary × Buffer) :=
  rawSubregionWith (fun e subLb subUb globalUb => getSubMatrixContents e subLb subUb globalUb data)
    data bs dims subregionlb subregionub

/-- What a call returns is what it leaves in the buffer. -/
theorem rawSubregionContents_of_returns {b : DataBlock} (h : b.storage = .RawMemObj (some data))
    {files : Files} {dims : Nat} {part : Buffer}
    (run : b.getDataSubregion files dims lb ub = .ok (bs, some part)) :
    rawSubregionContents b.m_blockSummary data dims lb ub = .ok (bs, part) := by
  rw [getDataSubregion_raw h] at run
  unfold rawSubregionContents
  cases raw : rawSubregionWith
      (fun e subLb subUb globalUb => getSubMatrix e subLb subUb globalUb data) data
      b.m_blockSummary dims lb ub with
  | error e =>
    rw [raw] at run
    cases run
  | ok r =>
    rw [raw] at run
    cases run
    exact rawSubregionWith_mono (fun _ _ _ _ _ => getSubMatrixContents_eq) raw

end DataBlock

/-- The cell lies between the two corners. -/
def Between (lb ub p : Array3 Int) : Prop :=
  (lb.x ≤ p.x ∧ p.x ≤ ub.x) ∧ (lb.y ≤ p.y ∧ p.y ≤ ub.y) ∧ (lb.z ≤ p.z ∧ p.z ≤ ub.z)

instance (lb ub p : Array3 Int) : Decidable (Between lb ub p) := inferInstanceAs (Decidable (_ ∧ _))

/-- The number of cells between two corners. -/
def countBetween (lb ub : Array3 Int) : Nat :=
  (ub.x - lb.x + 1).toNat * ((ub.y - lb.y + 1).toNat * (ub.z - lb.z + 1).toNat)

/-- The row-major position of a cell between two corners. -/
def positionIn (lb ub p : Array3 Int) : Nat :=
  cellIndex (ub.x - lb.x + 1).toNat (ub.y - lb.y + 1).toNat (p.x - lb.x).toNat (p.y - lb.y).toNat
    (p.z - lb.z).toNat

/-- The axes past the dimensions have the bounds zero. -/
def UnusedZero (dims : Nat) (lb ub : Array3 Int) : Prop :=
  (dims < 2 → lb.y = 0 ∧ ub.y = 0) ∧ (dims < 3 → lb.z = 0 ∧ ub.z = 0)

instance (dims : Nat) (lb ub : Array3 Int) : Decidable (UnusedZero dims lb ub) :=
  inferInstanceAs (Decidable (_ ∧ _))

namespace BlockSummary

/-- A block in memory with an element for each cell of its box. -/
structure CarGrid (bs : BlockSummary) (as : ArraySummary) (data : Buffer) : Prop where
  cargrid : bs.m_dataType = DATATYPE_CARGRID
  array : bs.findArray bs.m_blockid = some as
  dims : 1 ≤ bs.m_dims ∧ bs.m_dims ≤ 3
  box : bs.m_indexlb.x ≤ bs.m_indexub.x ∧ bs.m_indexlb.y ≤ bs.m_indexub.y ∧
    bs.m_indexlb.z ≤ bs.m_indexub.z
  unused : UnusedZero bs.m_dims bs.m_indexlb bs.m_indexub
  offsets : bs.Offsets bs.m_indexub
  elemNum : as.m_elemNum.toNat = countBetween bs.m_indexlb bs.m_indexub
  stored : data.length = as.m_elemSize.toNat * as.m_elemNum.toNat
  memory : data.length < 2 ^ 64

/-- The requests a block can serve: a part of its box, of its dimensions, with a cell. -/
def Granted (bs : BlockSummary) (dims : Nat) (lb ub : Array3 Int) : Prop :=
  dims = bs.m_dims ∧ (lb.x ≤ ub.x ∧ lb.y ≤ ub.y ∧ lb.z ≤ ub.z) ∧
    Between bs.m_indexlb bs.m_indexub lb ∧ Between bs.m_indexlb bs.m_indexub ub

instance (bs : BlockSummary) (dims : Nat) (lb ub : Array3 Int) :
    Decidable (bs.Granted dims lb ub) :=
  inferInstanceAs (Decidable (_ ∧ _))

end BlockSummary

namespace DataBlock

variable {bs : BlockSummary} {as : ArraySummary} {lb ub : Array3 Int} {data : Buffer}

theorem toNat_size_t (z : Int) : (size_t z).toNat = (z % 2 ^ 64).toNat :=
  UInt64.toNat_ofNat_of_lt' (by show _ < 2 ^ 64; omega)

/-- One axis: an offset below zero is too large for both checks. -/
theorem size_t_inside_iff {L l u U : Int} (hbox : L ≤ U) (hl : IsInt (l - L)) (hu : IsInt (u - L))
    (hU : IsInt (U - L)) : size_t (l - L) ≤ size_t (u - L) ∧ size_t (u - L) ≤ size_t (U - L) ↔
      l ≤ u ∧ (L ≤ l ∧ l ≤ U) ∧ (L ≤ u ∧ u ≤ U) := by
  unfold IsInt INT_MIN INT_MAX at hl hu hU
  simp only [UInt64.le_iff_toNat_le, toNat_size_t]
  omega

section CarGrid
variable (block : bs.CarGrid as data)

include block

theorem inside_iff (hlb : bs.Offsets lb) (hub : bs.Offsets ub) :
    Inside (shifted bs lb) (shifted bs ub) (shifted bs bs.m_indexub) ↔
      bs.Granted bs.m_dims lb ub := by
  obtain ⟨lx, ly, lz⟩ := hlb
  obtain ⟨ux, uy, uz⟩ := hub
  obtain ⟨ox, oy, oz⟩ := block.offsets
  obtain ⟨bx, byy, bz⟩ := block.box
  unfold Inside
  rw [shifted, shifted, shifted, size_t_inside_iff bx lx ux ox, size_t_inside_iff byy ly uy oy,
    size_t_inside_iff bz lz uz oz]
  unfold BlockSummary.Granted Between
  tauto

theorem offsets_of_granted {dims : Nat} (h : bs.Granted dims lb ub) :
    bs.Offsets lb ∧ bs.Offsets ub := by
  obtain ⟨_, _, ⟨⟨_, _⟩, ⟨_, _⟩, _, _⟩, ⟨_, _⟩, ⟨_, _⟩, _, _⟩ := h
  have offsets := block.offsets
  unfold BlockSummary.Offsets IsInt INT_MIN INT_MAX at offsets ⊢
  omega

theorem arrayOf_carGrid (what missing : String) :
    bs.arrayOf what missing bs.m_blockid = .ok as := by
  unfold BlockSummary.arrayOf
  rw [block.array, block.cargrid]
  simp

/-- Under zero bounds on the unused axes the shortcut is taken for the whole box alone. -/
theorem ifAllMatch_iff (unused : UnusedZero bs.m_dims lb ub) :
    ifAllMatch bs.m_dims bs lb ub = true ↔ lb = bs.m_indexlb ∧ ub = bs.m_indexub := by
  obtain ⟨uy, uz⟩ := unused
  obtain ⟨by', bz⟩ := block.unused
  simp only [Array3.ext_iff]
  have dims : bs.m_dims = 1 ∨ bs.m_dims = 2 ∨ bs.m_dims = 3 := by
    have := block.dims
    omega
  rcases dims with one | two | three
  · rw [one] at uy uz by' bz ⊢
    simp [ifAllMatch, Array3.toList] at *
    omega
  · rw [two] at uy uz by' bz ⊢
    simp [ifAllMatch, Array3.toList] at *
    omega
  · rw [three]
    simp [ifAllMatch, Array3.toList]

theorem toNat_corner {c : Array3 Int} (hc : Between bs.m_indexlb bs.m_indexub c) :
    (shifted bs c).x.toNat = (c.x - bs.m_indexlb.x).toNat ∧
      (shifted bs c).y.toNat = (c.y - bs.m_indexlb.y).toNat ∧
      (shifted bs c).z.toNat = (c.z - bs.m_indexlb.z).toNat := by
  have offsets := block.offsets
  obtain ⟨⟨_, _⟩, ⟨_, _⟩, _, _⟩ := hc
  unfold BlockSummary.Offsets IsInt INT_MIN INT_MAX at offsets
  exact ⟨size_t_toNat (by omega) (by omega), size_t_toNat (by omega) (by omega),
    size_t_toNat (by omega) (by omega)⟩

theorem between_upper : Between bs.m_indexlb bs.m_indexub bs.m_indexub := by
  obtain ⟨bx, byy, bz⟩ := block.box
  exact ⟨⟨bx, le_rfl⟩, ⟨byy, le_rfl⟩, bz, le_rfl⟩

theorem cellCount_carGrid : cellCount (shifted bs bs.m_indexub) = as.m_elemNum.toNat := by
  obtain ⟨hx, hy, hz⟩ := toNat_corner block (between_upper block)
  obtain ⟨bx, byy, bz⟩ := block.box
  rw [block.elemNum, cellCount, hx, hy, hz, countBetween]
  congr 1
  · omega
  · congr 1 <;> omega

theorem toNat_extents (filled : lb.x ≤ ub.x ∧ lb.y ≤ ub.y ∧ lb.z ≤ ub.z)
    (lower : Between bs.m_indexlb bs.m_indexub lb) (upper : Between bs.m_indexlb bs.m_indexub ub) :
    (extents (shifted bs lb) (shifted bs ub)).x.toNat = (ub.x - lb.x + 1).toNat ∧
      (extents (shifted bs lb) (shifted bs ub)).y.toNat = (ub.y - lb.y + 1).toNat ∧
      (extents (shifted bs lb) (shifted bs ub)).z.toNat = (ub.z - lb.z + 1).toNat := by
  have axis : ∀ {L l u U : Int}, IsInt (U - L) → l ≤ u → L ≤ l ∧ l ≤ U → L ≤ u ∧ u ≤ U →
      (size_t (u - L) - size_t (l - L) + 1).toNat = (u - l + 1).toNat := by
    intro L l u U hint hle hl hu
    unfold IsInt INT_MIN INT_MAX at hint
    have le : size_t (l - L) ≤ size_t (u - L) := by
      rw [UInt64.le_iff_toNat_le, toNat_size_t, toNat_size_t]
      omega
    rw [UInt64.toNat_add, UInt64.toNat_sub_of_le _ _ le, toNat_size_t, toNat_size_t,
      UInt64.toNat_one]
    omega
  obtain ⟨ox, oy, oz⟩ := block.offsets
  exact ⟨axis ox filled.1 lower.1 upper.1, axis oy filled.2.1 lower.2.1 upper.2.1,
    axis oz filled.2.2 lower.2.2 upper.2.2⟩

/-- A part that is granted is copied element by element. -/
theorem copied_cells (h : bs.Granted bs.m_dims lb ub) :
    ∃ part, getSubMatrixContents as.m_elemSize (shifted bs lb) (shifted bs ub)
        (shifted bs bs.m_indexub) data = .ok part ∧
      part.length = as.m_elemSize.toNat * countBetween lb ub ∧
      ∀ p, Between lb ub p → cellBytes as.m_elemSize.toNat part (positionIn lb ub p) =
        cellBytes as.m_elemSize.toNat data (positionIn bs.m_indexlb bs.m_indexub p) := by
  obtain ⟨hlb, hub⟩ := offsets_of_granted block h
  have hin := (inside_iff block hlb hub).mpr h
  obtain ⟨_, ⟨nx, ny, nz⟩, lower, upper⟩ := h
  have count := cellCount_carGrid block
  obtain ⟨part, hpart, len, cells⟩ := getSubMatrixContents_cells hin
    (by rw [block.stored, count]) block.memory
  obtain ⟨ex, ey, ez⟩ := toNat_extents block ⟨nx, ny, nz⟩ lower upper
  refine ⟨part, hpart, ?_, ?_⟩
  · rw [len, subCount, ex, ey, ez, countBetween]
  · intro p hp
    obtain ⟨⟨x1, x2⟩, ⟨y1, y2⟩, z1, z2⟩ := hp
    obtain ⟨⟨lx, _⟩, ⟨ly, _⟩, lz, _⟩ := lower
    obtain ⟨⟨_, ux⟩, ⟨_, uy⟩, _, uz⟩ := upper
    have here : Between bs.m_indexlb bs.m_indexub p :=
      ⟨⟨by omega, by omega⟩, ⟨by omega, by omega⟩, by omega, by omega⟩
    obtain ⟨px, py, pz⟩ := toNat_corner block here
    obtain ⟨cx, cy, cz⟩ := toNat_corner block ⟨⟨lx, by omega⟩, ⟨ly, by omega⟩, lz, by omega⟩
    obtain ⟨dx, dy, dz⟩ := toNat_corner block ⟨⟨by omega, ux⟩, ⟨by omega, uy⟩, by omega, uz⟩
    have copied := cells (shifted bs p).x (shifted bs p).y (shifted bs p).z
      ⟨UInt64.le_iff_toNat_le.mpr (by omega), UInt64.le_iff_toNat_le.mpr (by omega)⟩
      ⟨UInt64.le_iff_toNat_le.mpr (by omega), UInt64.le_iff_toNat_le.mpr (by omega)⟩
      ⟨UInt64.le_iff_toNat_le.mpr (by omega), UInt64.le_iff_toNat_le.mpr (by omega)⟩
    obtain ⟨gx, gy, gz⟩ := toNat_corner block (between_upper block)
    rw [ex, ey, px, py, pz, cx, cy, cz, gx, gy] at copied
    have between : ∀ {L l i : Int}, L ≤ l → l ≤ i →
        (i - L).toNat - (l - L).toNat = (i - l).toNat := by
      clear * -
      omega
    have length : ∀ {L U : Int}, L ≤ U → (U - L).toNat + 1 = (U - L + 1).toNat := by
      clear * -
      omega
    rw [between lx x1, between ly y1, between lz z1, length block.box.1, length block.box.2.1]
      at copied
    exact copied

/-- A request of the block's dimensions is served by the shortcut or by the copy. -/
theorem rawSubregionContents_eq (unused : UnusedZero bs.m_dims lb ub) :
    rawSubregionContents bs data bs.m_dims lb ub =
      if lb = bs.m_indexlb ∧ ub = bs.m_indexub then .ok (bs, data)
      else if bs.Offsets lb ∧ bs.Offsets ub then
        (getSubMatrixContents as.m_elemSize (shifted bs lb) (shifted bs ub)
          (shifted bs bs.m_indexub) data).map
          fun part => ({ bs with m_indexlb := lb, m_indexub := ub }, part)
      else .error (.undefined "signed overflow") := by
  have few : ¬ DEFAULT_MAX_DIM < bs.m_dims := Nat.not_lt.mpr block.dims.2
  unfold rawSubregionContents rawSubregionWith
  rw [if_neg (not_not.mpr rfl), if_neg few]
  by_cases whole : lb = bs.m_indexlb ∧ ub = bs.m_indexub
  · rw [if_pos ((ifAllMatch_iff block unused).mpr whole), if_pos whole]
  rw [if_neg fun h => whole ((ifAllMatch_iff block unused).mp h), if_neg whole,
    subregionWith_eq (arrayOf_carGrid block)]
  by_cases offsets : bs.Offsets lb ∧ bs.Offsets ub
  swap
  · rw [if_neg offsets, if_neg fun h => offsets ⟨h.1, h.2.1⟩]
  have enough : ¬ as.m_elemNum < currentElemNum (shifted bs bs.m_indexub) := by
    rw [UInt64.not_lt, UInt64.le_iff_toNat_le, ← cellCount_carGrid block]
    exact currentElemNum_le _
  rw [if_pos offsets, if_pos ⟨offsets.1, offsets.2, block.offsets⟩, if_neg enough]

/-- The whole box is granted, and returned as it is stored. -/
theorem granted_whole : bs.Granted bs.m_dims bs.m_indexlb bs.m_indexub := by
  obtain ⟨bx, byy, bz⟩ := block.box
  exact ⟨rfl, block.box, ⟨⟨le_rfl, bx⟩, ⟨le_rfl, byy⟩, le_rfl, bz⟩, between_upper block⟩

/-- A request is served exactly when it asks for a part of the box, and what is returned holds
the stored elements of that part. Any other request throws, unless an offset overflows. -/
theorem rawSubregion_exact (dims : Nat) (unused : UnusedZero dims lb ub) :
    ((∃ r, rawSubregionContents bs data dims lb ub = .ok r) ↔ bs.Granted dims lb ub) ∧
    (¬ bs.Granted dims lb ub → bs.Offsets lb ∧ bs.Offsets ub →
      ∃ what, rawSubregionContents bs data dims lb ub = .error (.runtime_error what)) ∧
    ∀ bs' part, rawSubregionContents bs data dims lb ub = .ok (bs', part) →
      (bs'.m_indexlb = lb ∧ bs'.m_indexub = ub) ∧
      part.length = as.m_elemSize.toNat * countBetween lb ub ∧
      ∀ p, Between lb ub p → cellBytes as.m_elemSize.toNat part (positionIn lb ub p) =
        cellBytes as.m_elemSize.toNat data (positionIn bs.m_indexlb bs.m_indexub p) := by
  by_cases hd : dims = bs.m_dims
  swap
  · have thrown : rawSubregionContents bs data dims lb ub =
        .error (.runtime_error "the dims is not equal to the value in blockSummary") := if_pos hd
    rw [thrown]
    refine ⟨iff_of_false ?_ fun h => hd h.1, fun _ _ => ⟨_, rfl⟩, ?_⟩
    · rintro ⟨_, ⟨⟩⟩
    · rintro _ _ ⟨⟩
  subst hd
  rw [rawSubregionContents_eq block unused]
  by_cases whole : lb = bs.m_indexlb ∧ ub = bs.m_indexub
  · rw [if_pos whole]
    obtain ⟨rfl, rfl⟩ := whole
    refine ⟨iff_of_true ⟨_, rfl⟩ (granted_whole block),
      fun h => absurd (granted_whole block) h, ?_⟩
    rintro _ _ ⟨⟩
    exact ⟨⟨rfl, rfl⟩, by rw [block.stored, block.elemNum], fun _ _ => rfl⟩
  rw [if_neg whole]
  by_cases granted : bs.Granted bs.m_dims lb ub
  · rw [if_pos (offsets_of_granted block granted)]
    obtain ⟨part, hpart, len, cells⟩ := copied_cells block granted
    rw [hpart]
    refine ⟨iff_of_true ⟨_, rfl⟩ granted, fun h => absurd granted h, ?_⟩
    rintro _ _ ⟨⟩
    exact ⟨⟨rfl, rfl⟩, len, cells⟩
  by_cases offsets : bs.Offsets lb ∧ bs.Offsets ub
  swap
  · rw [if_neg offsets]
    refine ⟨iff_of_false ?_ granted, fun _ h => absurd h offsets, ?_⟩
    · rintro ⟨_, ⟨⟩⟩
    · rintro _ _ ⟨⟩
  rw [if_pos offsets]
  have outside := mt (inside_iff block offsets.1 offsets.2).mp granted
  obtain ⟨what, thrown⟩ := getSubMatrixCopies_thrown (e := as.m_elemSize) outside
  have refused : getSubMatrixContents as.m_elemSize (shifted bs lb) (shifted bs ub)
      (shifted bs bs.m_indexub) data = .error (.runtime_error what) := by
    unfold getSubMatrixContents
    rw [thrown]
    rfl
  rw [refused]
  refine ⟨iff_of_false ?_ granted, fun _ _ => ⟨what, rfl⟩, ?_⟩
  · rintro ⟨_, ⟨⟩⟩
  · rintro _ _ ⟨⟩

end CarGrid

/-- Nine one-byte cells from (2, 5) to (4, 7). -/
def nineCells : BlockSummary where
  m_dataType := DATATYPE_CARGRID
  m_blockid := "density_0_0"
  m_dims := 2
  m_indexlb := ⟨2, 5, 0⟩
  m_indexub := ⟨4, 7, 0⟩
  m_arrayList := [{ m_arrayName := "density_0_0", m_elemSize := 1, m_elemNum := 9 }]

theorem nineCells_served :
    (∃ r, rawSubregionContents nineCells (List.replicate 9 (some 7)) 2 ⟨3, 5, 0⟩ ⟨4, 6, 0⟩ =
      .ok r) ∧
    ¬ ∃ r, rawSubregionContents nineCells (List.replicate 9 (some 7)) 2 ⟨1, 5, 0⟩ ⟨4, 6, 0⟩ =
      .ok r := by
  have block : nineCells.CarGrid { m_arrayName := "density_0_0", m_elemSize := 1, m_elemNum := 9 }
      (List.replicate 9 (some 7)) :=
    { cargrid := rfl
      array := by decide
      dims := by decide
      box := by decide
      unused := by decide
      offsets := by decide
      elemNum := by decide
      stored := by decide
      memory := by decide }
  exact ⟨(rawSubregion_exact block 2 (by decide)).1.mpr (by decide),
    mt (rawSubregion_exact block 2 (by decide)).1.mp (by decide)⟩

end DataBlock

end Gorilla
