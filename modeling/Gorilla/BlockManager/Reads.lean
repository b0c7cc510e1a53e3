import Gorilla.BlockManager.Subregions

/-!
# The stored elements a request touches

The number of elements is compared with a product that leaves out axes of one cell and counts
the others one cell short, and not at all when the whole box is asked for. So a request can
touch elements a block was not stored with.
-/

namespace Gorilla

open MATRIXTOOL

namespace DataBlock

/-- The ranges of stored bytes, as offset and length, that a request reads, or exposes to its
client when the stored pointer itself is returned. -/
def touchedRanges (bs : BlockSummary) (dims : Nat) (subregionlb subregionub : Array3 Int) :
    Except Stop (List (Nat × Nat)) := do
  let r ← rawSubregionWith
    (fun e subLb subUb globalUb => (getSubMatrixCopies e subLb subUb globalUb).map some)
    none bs dims subregionlb subregionub
  match r.2 with
  | some cs => return cs.map fun c => (c.srcOff, c.bytes)
  | none =>
    let elemSize ← bs.getArrayElemSize bs.m_blockid
    let bbx ← BBX.ofIndex dims subregionlb subregionub
    let allocSize := elemSize * (← bbx.getElemNum)
    return [(0, allocSize.toNat)]

/-- A byte of the range belongs to the element. -/
def Touches (elemSize : Nat) (range : Nat × Nat) (i : Nat) : Prop :=
  ∃ byte, (range.1 ≤ byte ∧ byte < range.1 + range.2) ∧ byte / elemSize = i

/-- A request that is not refused touches stored elements only. -/
def TouchesStored (bs : BlockSummary) (as : ArraySummary) (dims : Nat) (lb ub : Array3 Int) :
    Prop :=
  match touchedRanges bs dims lb ub with
  | .ok ranges => ∀ r ∈ ranges, ∀ i, Touches as.m_elemSize.toNat r i → i < as.m_elemNum.toNat
  | .error (.runtime_error _) => True
  | .error _ => False

/-- A range with no byte past the stored elements; an empty one starts at none. -/
theorem touches_lt_iff {e n : Nat} {range : Nat × Nat} (he : e = 0 → range.2 = 0)
    (empty : range.2 = 0 → range.1 = 0) :
    (∀ i, Touches e range i → i < n) ↔ range.1 + range.2 ≤ e * n := by
  obtain ⟨off, len⟩ := range
  dsimp only at he empty ⊢
  by_cases hlen : len = 0
  · rw [hlen, empty hlen]
    refine iff_of_true ?_ (Nat.zero_le _)
    rintro i ⟨byte, ⟨_, hi⟩, _⟩
    exact absurd hi (Nat.not_lt_zero _)
  have pos : 0 < e := Nat.pos_of_ne_zero fun h => hlen (he h)
  constructor
  · intro h
    have inside : off ≤ off + len - 1 ∧ off + len - 1 < off + len := by omega
    have last := h ((off + len - 1) / e) ⟨off + len - 1, inside, rfl⟩
    rw [Nat.div_lt_iff_lt_mul pos, Nat.mul_comm] at last
    omega
  · rintro fits _ ⟨byte, ⟨_, hi⟩, rfl⟩
    rw [Nat.div_lt_iff_lt_mul pos, Nat.mul_comm]
    exact hi.trans_le fits

theorem cellIndex_mono {a b x y z x' y' z' : Nat} (hx : x ≤ x') (hy : y ≤ y') (hz : z ≤ z') :
    cellIndex a b x y z ≤ cellIndex a b x' y' z' :=
  Nat.add_le_add hx (Nat.mul_le_mul_left a (Nat.add_le_add hy (Nat.mul_le_mul_left b hz)))

theorem cellIndex_last (a b c : Nat) : cellIndex (a + 1) (b + 1) a b c + 1 =
    (a + 1) * ((b + 1) * (c + 1)) := by
  unfold cellIndex
  ring

/-- The row-major byte offset of a cell in `size_t`. -/
def globalOffset (elemSize : UInt64) (globalUb : Array3 UInt64) (z y x : UInt64) : UInt64 :=
  (z * (globalUb.y + 1) * (globalUb.x + 1) + y * (globalUb.x + 1) + x) * elemSize

/-- The last cell of the part ends within the stored bytes. For a box past the address space,
whose offsets wrap, so does each cell, and the whole box where it is copied. -/
def PartFits (elemSize : UInt64) (stored : Nat) (subLb subUb globalUb : Array3 UInt64) : Prop :=
  if elemSize.toNat * cellCount globalUb < 2 ^ 64 then
    elemSize.toNat * (cellIndex (globalUb.x.toNat + 1) (globalUb.y.toNat + 1) subUb.x.toNat
      subUb.y.toNat subUb.z.toNat + 1) ≤ stored
  else
    (subLb = globalUb → (elemSize *
      ((globalUb.x + 1) * (globalUb.y + 1) * (globalUb.z + 1))).toNat ≤ stored) ∧
    ∀ z y x : UInt64, (subLb.z ≤ z ∧ z ≤ subUb.z) → (subLb.y ≤ y ∧ y ≤ subUb.y) →
      (subLb.x ≤ x ∧ x ≤ subUb.x) →
      (globalOffset elemSize globalUb z y x).toNat + elemSize.toNat ≤ stored

/-- The requests that touch stored elements only: the number of elements sent for a whole box
is stored, and a part that passes the checks ends within the stored bytes. -/
def RequestFits (bs : BlockSummary) (as : ArraySummary) (dims : Nat) (lb ub : Array3 Int) : Prop :=
  dims = bs.m_dims →
    if ifAllMatch dims bs lb ub then
      ∃ n, (BBX.ofIndex dims lb ub >>= BBX.getElemNum) = .ok n ∧
        (as.m_elemSize * n).toNat ≤ as.m_elemSize.toNat * as.m_elemNum.toNat
    else
      (bs.Offsets lb ∧ bs.Offsets ub ∧ bs.Offsets bs.m_indexub) ∧
        (currentElemNum (shifted bs bs.m_indexub) ≤ as.m_elemNum →
          Inside (shifted bs lb) (shifted bs ub) (shifted bs bs.m_indexub) →
          PartFits as.m_elemSize (as.m_elemSize.toNat * as.m_elemNum.toNat) (shifted bs lb)
            (shifted bs ub) (shifted bs bs.m_indexub))

section Part
variable {e : UInt64} {stored : Nat} {subLb subUb globalUb : Array3 UInt64}

theorem elementCopies_read_iff : (∀ c ∈ elementCopies e subLb subUb globalUb,
      c.srcOff + c.bytes ≤ stored) ↔
    ∀ z ∈ inRange globalUb.z subLb.z subUb.z, ∀ y ∈ inRange globalUb.y subLb.y subUb.y,
      ∀ x ∈ inRange globalUb.x subLb.x subUb.x,
        (globalOffset e globalUb z y x).toNat + e.toNat ≤ stored := by
  constructor
  · intro h z hz y hy x hx
    exact h _ (mem_elementCopies.mpr ⟨z, hz, y, hy, x, hx, rfl⟩)
  · rintro h c hc
    obtain ⟨z, hz, y, hy, x, hx, rfl⟩ := mem_elementCopies.mp hc
    exact h z hz y hy x hx

theorem wholeCopies_read_iff : (∀ c ∈ wholeCopies e subLb globalUb, c.srcOff + c.bytes ≤ stored) ↔
    (subLb = globalUb → (e *
      ((globalUb.x + 1) * (globalUb.y + 1) * (globalUb.z + 1))).toNat ≤ stored) := by
  unfold wholeCopies
  by_cases corner : subLb = globalUb
  · rw [if_pos corner]
    simp [corner]
  · rw [if_neg corner]
    simp [corner]

/-- The copies of a part read stored bytes only, exactly when it fits. -/
theorem copies_read_iff (hin : Inside subLb subUb globalUb) :
    (∀ c ∈ copies e subLb subUb globalUb, c.srcOff + c.bytes ≤ stored) ↔
      PartFits e stored subLb subUb globalUb := by
  unfold copies PartFits
  rw [List.forall_mem_append, wholeCopies_read_iff, elementCopies_read_iff]
  have ranges : ∀ {g lb ub : UInt64}, lb ≤ ub ∧ ub ≤ g → ∀ i, i ∈ inRange g lb ub ↔
      lb ≤ i ∧ i ≤ ub := fun h i =>
        ⟨fun hi => (mem_inRange hi).2, fun hi => mem_inRange_of_le hi h.2⟩
  have rx := ranges hin.1
  have ry := ranges hin.2.1
  have rz := ranges hin.2.2
  simp only [rx, ry, rz]
  by_cases hfit : e.toNat * cellCount globalUb < 2 ^ 64
  swap
  · rw [if_neg hfit]
    exact and_congr_right fun _ =>
      ⟨fun h z y x hz hy hx => h z hz y hy x hx, fun h z hz y hy x hx => h z y x hz hy hx⟩
  rw [if_pos hfit]
  by_cases he : e = 0
  · subst he
    simp [globalOffset]
  have pos : 0 < e.toNat := Nat.pos_of_ne_zero fun h => he (UInt64.toNat_inj.mp h)
  have offset : ∀ {z y x : UInt64}, (subLb.z ≤ z ∧ z ≤ subUb.z) → (subLb.y ≤ y ∧ y ≤ subUb.y) →
      (subLb.x ≤ x ∧ x ≤ subUb.x) → (globalOffset e globalUb z y x).toNat + e.toNat =
        e.toNat * (cellIndex (globalUb.x.toNat + 1) (globalUb.y.toNat + 1) x.toNat y.toNat z.toNat
          + 1) := by
    intro z y x hz hy hx
    have src := congrArg Copy.srcOff (copyOf_eq hin pos hfit hx hy hz).2.2
    dsimp only at src
    rw [Nat.mul_succ, Nat.mul_comm, ← src]
    rfl
  constructor
  · rintro ⟨_, elements⟩
    have last := elements subUb.z ⟨hin.2.2.1, UInt64.le_refl _⟩
      subUb.y ⟨hin.2.1.1, UInt64.le_refl _⟩
      subUb.x ⟨hin.1.1, UInt64.le_refl _⟩
    rwa [offset ⟨hin.2.2.1, UInt64.le_refl _⟩ ⟨hin.2.1.1, UInt64.le_refl _⟩
      ⟨hin.1.1, UInt64.le_refl _⟩] at last
  · intro last
    refine ⟨?_, fun z hz y hy x hx => ?_⟩
    · rintro rfl
      obtain ⟨⟨xl, xu⟩, ⟨yl, yu⟩, zl, zu⟩ := hin
      rw [UInt64.le_antisymm xu xl, UInt64.le_antisymm yu yl, UInt64.le_antisymm zu zl,
        cellIndex_last] at last
      rwa [(toNat_sizes ⟨⟨xl, xu⟩, ⟨yl, yu⟩, zl, zu⟩ pos hfit).2]
    · rw [offset hz hy hx]
      refine le_trans (Nat.mul_le_mul_left _ (Nat.succ_le_succ (cellIndex_mono ?_ ?_ ?_))) last
      · exact UInt64.le_iff_toNat_le.mp hx.2
      · exact UInt64.le_iff_toNat_le.mp hy.2
      · exact UInt64.le_iff_toNat_le.mp hz.2

end Part

/-- The bytes of an element are none only if its size is zero. -/
theorem copies_empty {e : UInt64} {subLb subUb globalUb : Array3 UInt64} {c : Copy}
    (hc : c ∈ copies e subLb subUb globalUb) :
    (e.toNat = 0 → c.bytes = 0) ∧ (c.bytes = 0 → c.srcOff = 0) := by
  rcases List.mem_append.mp hc with whole | element
  · unfold wholeCopies at whole
    split at whole
    · obtain rfl := List.mem_singleton.mp whole
      refine ⟨fun he => ?_, fun _ => rfl⟩
      obtain rfl : e = 0 := UInt64.toNat_inj.mp he
      simp
    · cases whole
  · obtain ⟨z, _, y, _, x, _, rfl⟩ := mem_elementCopies.mp element
    refine ⟨id, fun he => ?_⟩
    obtain rfl : e = 0 := UInt64.toNat_inj.mp he
    simp [copyOf]

/-- Counting the cells of a box fails by overflow alone. -/
theorem elemNumOf_stop {bs : List Bound} {n : UInt64} {stop : Stop}
    (h : BBX.elemNumOf bs n = .error stop) : ∃ what, stop = .undefined what := by
  induction bs generalizing n with
  | nil => cases h
  | cons b bs ih =>
    unfold BBX.elemNumOf at h
    unfold int at h
    by_cases hd : IsInt (b.m_ub - b.m_lb)
    swap
    · rw [if_neg hd] at h
      cases h
      exact ⟨_, rfl⟩
    rw [if_pos hd] at h
    by_cases hn : IsInt (b.m_ub - b.m_lb + 1)
    swap
    · simp [bind, Except.bind, hn] at h
      exact ⟨_, h.symm⟩
    · simp only [bind, Except.bind, hn] at h
      exact ih h

theorem boxCount_stop {dims : Nat} {lb ub : Array3 Int} {stop : Stop}
    (few : ¬ DEFAULT_MAX_DIM < dims)
    (h : (BBX.ofIndex dims lb ub >>= BBX.getElemNum) = .error stop) :
    ∃ what, stop = .undefined what := by
  unfold BBX.ofIndex at h
  rw [if_neg few] at h
  exact elemNumOf_stop h

section Requests
variable {bs : BlockSummary} {as : ArraySummary} {lb ub : Array3 Int}

theorem touchedRanges_whole (array : ∀ what missing, bs.arrayOf what missing bs.m_blockid = .ok as)
    (few : ¬ DEFAULT_MAX_DIM < bs.m_dims) (whole : ifAllMatch bs.m_dims bs lb ub = true) :
    touchedRanges bs bs.m_dims lb ub = (BBX.ofIndex bs.m_dims lb ub >>= BBX.getElemNum).map
      fun n => [(0, (as.m_elemSize * n).toNat)] := by
  have elemSize : bs.getArrayElemSize bs.m_blockid = .ok as.m_elemSize := by
    unfold BlockSummary.getArrayElemSize
    rw [array]
    rfl
  unfold touchedRanges rawSubregionWith
  rw [if_neg (not_not.mpr rfl), if_neg few, if_pos whole, elemSize]
  cases BBX.ofIndex bs.m_dims lb ub with
  | error stop => rfl
  | ok bbx =>
    show (do let n ← bbx.getElemNum; pure [(0, (as.m_elemSize * n).toNat)]) = _
    cases hn : bbx.getElemNum with
    | error stop => simp [hn, bind, Except.bind, Except.map]
    | ok n => simp [hn, bind, Except.bind, Except.map, pure, Except.pure]

theorem touchedRanges_part (array : ∀ what missing, bs.arrayOf what missing bs.m_blockid = .ok as)
    (few : ¬ DEFAULT_MAX_DIM < bs.m_dims) (part : ifAllMatch bs.m_dims bs lb ub = false) :
    touchedRanges bs bs.m_dims lb ub =
      if bs.Offsets lb ∧ bs.Offsets ub ∧ bs.Offsets bs.m_indexub then
        if as.m_elemNum < currentElemNum (shifted bs bs.m_indexub) then
          .error (.runtime_error ("failed to getDataSubregion, current elem number is larger " ++
            "than the value in Blocksummary"))
        else
          (getSubMatrixCopies as.m_elemSize (shifted bs lb) (shifted bs ub)
            (shifted bs bs.m_indexub)).map fun cs => cs.map fun c => (c.srcOff, c.bytes)
      else .error (.undefined "signed overflow") := by
  unfold touchedRanges rawSubregionWith
  rw [if_neg (not_not.mpr rfl), if_neg few, if_neg (by simp [part]), subregionWith_eq array]
  by_cases offsets : bs.Offsets lb ∧ bs.Offsets ub ∧ bs.Offsets bs.m_indexub
  swap
  · rw [if_neg offsets, if_neg offsets]
    rfl
  rw [if_pos offsets, if_pos offsets]
  by_cases low : as.m_elemNum < currentElemNum (shifted bs bs.m_indexub)
  · rw [if_pos low, if_pos low]
    rfl
  rw [if_neg low, if_neg low]
  cases getSubMatrixCopies as.m_elemSize (shifted bs lb) (shifted bs ub)
    (shifted bs bs.m_indexub) <;> rfl

/-- A request for the whole box touches as many elements as are counted. -/
theorem touchesStored_whole (array : ∀ what missing, bs.arrayOf what missing bs.m_blockid = .ok as)
    (few : ¬ DEFAULT_MAX_DIM < bs.m_dims) (whole : ifAllMatch bs.m_dims bs lb ub = true) :
    TouchesStored bs as bs.m_dims lb ub ↔
      ∃ n, (BBX.ofIndex bs.m_dims lb ub >>= BBX.getElemNum) = .ok n ∧
        (as.m_elemSize * n).toNat ≤ as.m_elemSize.toNat * as.m_elemNum.toNat := by
  unfold TouchesStored
  rw [touchedRanges_whole array few whole]
  cases count : BBX.ofIndex bs.m_dims lb ub >>= BBX.getElemNum with
  | error stop =>
    obtain ⟨what, rfl⟩ := boxCount_stop few count
    exact iff_of_false id nofun
  | ok n =>
    show (∀ r ∈ [(0, (as.m_elemSize * n).toNat)], _) ↔ _
    have empty : as.m_elemSize.toNat = 0 → (as.m_elemSize * n).toNat = 0 := by
      intro he
      rw [UInt64.toNat_mul, he, Nat.zero_mul, Nat.zero_mod]
    rw [List.forall_mem_singleton, touches_lt_iff empty fun _ => rfl, Nat.zero_add]
    exact ⟨fun h => ⟨n, rfl, h⟩, fun ⟨_, same, h⟩ => Except.ok.inj same ▸ h⟩

/-- The bytes the copies of a part read belong to stored elements, exactly when it fits. -/
theorem copies_touch_iff {subLb subUb globalUb : Array3 UInt64}
    (hin : Inside subLb subUb globalUb) :
    (∀ r ∈ (copies as.m_elemSize subLb subUb globalUb).map fun c => (c.srcOff, c.bytes),
      ∀ i, Touches as.m_elemSize.toNat r i → i < as.m_elemNum.toNat) ↔
      PartFits as.m_elemSize (as.m_elemSize.toNat * as.m_elemNum.toNat) subLb subUb globalUb := by
  rw [List.forall_mem_map, ← copies_read_iff hin]
  refine forall₂_congr fun c hc => ?_
  exact touches_lt_iff (copies_empty hc).1 (copies_empty hc).2

/-- A request for a part touches stored elements only, when it is refused or the part fits. -/
theorem touchesStored_part (array : ∀ what missing, bs.arrayOf what missing bs.m_blockid = .ok as)
    (few : ¬ DEFAULT_MAX_DIM < bs.m_dims) (part : ifAllMatch bs.m_dims bs lb ub = false) :
    TouchesStored bs as bs.m_dims lb ub ↔
      (bs.Offsets lb ∧ bs.Offsets ub ∧ bs.Offsets bs.m_indexub) ∧
        (currentElemNum (shifted bs bs.m_indexub) ≤ as.m_elemNum →
          Inside (shifted bs lb) (shifted bs ub) (shifted bs bs.m_indexub) →
          PartFits as.m_elemSize (as.m_elemSize.toNat * as.m_elemNum.toNat) (shifted bs lb)
            (shifted bs ub) (shifted bs bs.m_indexub)) := by
  unfold TouchesStored
  rw [touchedRanges_part array few part]
  by_cases offsets : bs.Offsets lb ∧ bs.Offsets ub ∧ bs.Offsets bs.m_indexub
  swap
  · rw [if_neg offsets]
    exact iff_of_false id fun h => offsets h.1
  rw [if_pos offsets]
  by_cases low : as.m_elemNum < currentElemNum (shifted bs bs.m_indexub)
  · rw [if_pos low]
    exact iff_of_true trivial ⟨offsets, fun h => absurd h (UInt64.not_le.mpr low)⟩
  rw [if_neg low]
  by_cases hin : Inside (shifted bs lb) (shifted bs ub) (shifted bs bs.m_indexub)
  swap
  · obtain ⟨what, thrown⟩ := getSubMatrixCopies_thrown (e := as.m_elemSize) hin
    rw [thrown]
    exact iff_of_true trivial ⟨offsets, fun _ h => absurd h hin⟩
  rw [getSubMatrixCopies_inside hin]
  refine (copies_touch_iff hin).trans ⟨fun h => ⟨offsets, fun _ _ => h⟩, fun h => h.2 ?_ hin⟩
  exact UInt64.not_lt.mp low

/-- Whatever a request touches lies in the stored bytes, exactly when the request fits. -/
theorem touchesStored_iff (few : bs.m_dims ≤ 3) (found : bs.findArray bs.m_blockid = some as)
    (typed : bs.m_dataType = DATATYPE_CARGRID ∨ bs.m_dataType = DATATYPE_VTKPTR)
    (dims : Nat) (lb ub : Array3 Int) :
    TouchesStored bs as dims lb ub ↔ RequestFits bs as dims lb ub := by
  have array : ∀ what missing, bs.arrayOf what missing bs.m_blockid = .ok as := by
    intro what missing
    unfold BlockSummary.arrayOf
    rw [found, if_neg fun h => typed.elim h.1 h.2]
  have few : ¬ DEFAULT_MAX_DIM < bs.m_dims := Nat.not_lt.mpr few
  unfold RequestFits
  by_cases hd : dims = bs.m_dims
  swap
  · have thrown : touchedRanges bs dims lb ub =
        .error (.runtime_error "the dims is not equal to the value in blockSummary") := by
      unfold touchedRanges rawSubregionWith
      rw [if_pos hd]
      rfl
    unfold TouchesStored
    rw [thrown]
    exact iff_of_true trivial fun h => absurd h hd
  subst hd
  rw [forall_prop_of_true rfl]
  by_cases whole : ifAllMatch bs.m_dims bs lb ub = true
  · rw [if_pos whole]
    exact touchesStored_whole array few whole
  · rw [if_neg whole]
    exact touchesStored_part array few (eq_false_of_ne_true whole)

end Requests

/-- A box of four cells with one element: the guard asks for one. -/
def oneOfFour : BlockSummary where
  m_dataType := DATATYPE_CARGRID
  m_blockid := "density_0_0"
  m_dims := 2
  m_indexub := ⟨1, 1, 0⟩
  m_arrayList := [{ m_arrayName := "density_0_0", m_elemSize := 8, m_elemNum := 1 }]

def oneElement : ArraySummary where
  m_arrayName := "density_0_0"
  m_elemSize := 8
  m_elemNum := 1

theorem firstCell_touchesStored : TouchesStored oneOfFour oneElement 2 ⟨0, 0, 0⟩ ⟨0, 0, 0⟩ := by
  refine (@touchesStored_iff oneOfFour oneElement (by decide) (by decide) (by decide) 2 _ _).mpr ?_
  intro _
  rw [if_neg (by decide)]
  refine ⟨by decide, fun _ _ => ?_⟩
  rw [PartFits, if_pos (by decide)]
  decide

/-- A request for the second cell passes every check and reads past the only element. -/
theorem secondCell_past : oneOfFour.findArray oneOfFour.m_blockid = some oneElement ∧
    ¬ TouchesStored oneOfFour oneElement 2 ⟨1, 0, 0⟩ ⟨1, 0, 0⟩ := by
  refine ⟨by decide, fun stored => ?_⟩
  have ranges : touchedRanges oneOfFour 2 ⟨1, 0, 0⟩ ⟨1, 0, 0⟩ = .ok [(8, 8)] := by decide
  unfold TouchesStored at stored
  rw [ranges] at stored
  exact absurd (stored (8, 8) (by decide) 1 ⟨8, by decide, by decide⟩) (by decide)

end DataBlock

end Gorilla
