import Gorilla.Lib.MapFill
import Gorilla.Lib.MixedRadix
import Gorilla.Server.DHTManager
import Gorilla.Utils.Overlap

/-!
# The partition of the domain

The boxes `initDHTManually` builds are the products of the ceil-sized shares of
each axis, numbered row-major by the share indices.
-/

namespace Gorilla

open MixedRadix

theorem ceilDiv_bounds {n L : Int} (hL : 0 < L) :
    n ≤ L * ceilDiv n L ∧ L * (ceilDiv n L - 1) < n := by
  have hq : Int.fdiv (-n) L = (-n) / L := Int.fdiv_eq_ediv_of_nonneg (-n) (by omega)
  have h := Int.emod_add_mul_ediv (-n) L
  have h0 := Int.emod_nonneg (-n) (show L ≠ 0 by omega)
  have h1 := Int.emod_lt_of_pos (-n) hL
  simp only [ceilDiv, hq]
  have hd : L * (-(-n / L)) = -(L * (-n / L)) := by ring
  have he : L * (-(-n / L) - 1) = -(L * (-n / L)) - L := by ring
  rw [hd, he]
  omega

theorem ceilDiv_pos {n L : Int} (hn : 0 < n) (hL : 0 < L) : 0 < ceilDiv n L := by
  have h := (ceilDiv_bounds (n := n) hL).1
  by_contra hle
  have := mul_nonpos_of_nonneg_of_nonpos (show 0 ≤ L by omega) (not_lt.mp hle)
  omega

theorem ceilDiv_le {n L : Int} (hn : 0 < n) (hL : 0 < L) : ceilDiv n L ≤ n := by
  have h := (ceilDiv_bounds (n := n) hL).2
  have hs := ceilDiv_pos hn hL
  have : ceilDiv n L - 1 ≤ L * (ceilDiv n L - 1) := by
    have := mul_le_mul_of_nonneg_right (show 1 ≤ L by omega) (show 0 ≤ ceilDiv n L - 1 by omega)
    omega
  omega

/-- A global domain and the number of shares of each of its axes. -/
structure Layout where
  lenArray : List Int
  partitionLayout : List Int
  dims_pos : 1 ≤ partitionLayout.length
  dims_le : partitionLayout.length ≤ 3
  positive : List.Forall₂ (fun n L => (0 < n ∧ n ≤ INT_MAX) ∧ 0 < L ∧ L ≤ INT_MAX)
    lenArray partitionLayout

namespace Layout

/-- A line of `n` cells on one server. -/
def single (n : Int) (fits : 0 < n ∧ n ≤ INT_MAX) : Layout where
  lenArray := [n]
  partitionLayout := [1]
  dims_pos := by decide
  dims_le := by decide
  positive := .cons ⟨fits, by decide⟩ .nil

/-- A grid of `n` by `n` cells, cut along its first axis between two servers. -/
def pair (n : Int) (fits : 0 < n ∧ n ≤ INT_MAX) : Layout where
  lenArray := [n, n]
  partitionLayout := [2, 1]
  dims_pos := by decide
  dims_le := by decide
  positive := .cons ⟨fits, by decide⟩ (.cons ⟨fits, by decide⟩ .nil)

variable (l : Layout)

def dims : Nat := l.partitionLayout.length

theorem length_lenArray : l.lenArray.length = l.dims := List.Forall₂.length_eq l.positive

/-- The number of partitions. -/
def count : Int := l.partitionLayout.prod

/-- A point of the global domain. -/
def InDomain (p : List Int) : Prop := Digits l.lenArray p

/-- The cells of share `x` of an axis of `n` cells cut into `L` shares. -/
def share (n L x : Int) : Bound :=
  ⟨x * ceilDiv n L, min ((x + 1) * ceilDiv n L - 1) (n - 1)⟩

/-- The shares of each axis with the given indices. -/
def shares : List Int → List Int → List Int → List Bound
  | n :: ns, L :: Ls, x :: xs => share n L x :: shares ns Ls xs
  | _, _, _ => []

/-- The box of the partition with the given share indices. -/
def box (idx : List Int) : BBX := ⟨0, shares l.lenArray l.partitionLayout idx⟩

/-- The share indices of the partitions. -/
def Index (idx : List Int) : Prop := Digits l.partitionLayout idx

def id (idx : List Int) : Int := value l.partitionLayout idx

/-- No span and no partition number of the initialisation leaves the range of `int`. -/
def Fits : Prop :=
  List.Forall₂ (fun n L => L * ceilDiv n L ≤ INT_MAX) l.lenArray l.partitionLayout ∧
    l.count ≤ INT_MAX + 1

end Layout

theorem axisBound_eq {c span n : Int} {b : Bound} (h : axisBound c span n = .ok b) :
    b = ⟨c * span, min ((c + 1) * span - 1) (n - 1)⟩ ∧ IsInt ((c + 1) * span) := by
  obtain ⟨lb, h1, h⟩ := bind_eq_ok.mp h
  obtain ⟨c1, h2, h⟩ := bind_eq_ok.mp h
  obtain ⟨next, h3, h⟩ := bind_eq_ok.mp h
  obtain ⟨u, h4, h⟩ := bind_eq_ok.mp h
  obtain ⟨v, h5, h⟩ := bind_eq_ok.mp h
  obtain ⟨_, rfl⟩ := int_eq_ok.mp h1
  obtain ⟨_, rfl⟩ := int_eq_ok.mp h2
  obtain ⟨hn, rfl⟩ := int_eq_ok.mp h3
  obtain ⟨_, rfl⟩ := int_eq_ok.mp h4
  obtain ⟨_, rfl⟩ := int_eq_ok.mp h5
  cases h
  exact ⟨rfl, hn⟩

theorem axisBound_ok {c span n : Int} (hc : 0 ≤ c) (hs : 0 < span) (hn : 0 < n)
    (hn' : n ≤ INT_MAX) (hf : (c + 1) * span ≤ INT_MAX) :
    axisBound c span n = .ok ⟨c * span, min ((c + 1) * span - 1) (n - 1)⟩ := by
  have h0 : 0 ≤ c * span := mul_nonneg hc hs.le
  have h1 : c * span ≤ (c + 1) * span := by
    have : (c + 1) * span = c * span + span := by ring
    omega
  have h2 : c + 1 ≤ (c + 1) * span := by
    have := mul_le_mul_of_nonneg_left (show 1 ≤ span by omega) (show 0 ≤ c + 1 by omega)
    omega
  have hm : INT_MIN ≤ 0 := by decide
  rw [axisBound, int_of_isInt ⟨by omega, by omega⟩, int_of_isInt ⟨by omega, by omega⟩]
  show (do
    let next ← int ((c + 1) * span)
    return (⟨c * span, min (← int (next - 1)) (← int (n - 1))⟩ : Bound)) = _
  rw [int_of_isInt ⟨by omega, by omega⟩]
  show (do return (⟨c * span, min (← int ((c + 1) * span - 1)) (← int (n - 1))⟩ : Bound)) = _
  rw [int_of_isInt ⟨by omega, by omega⟩, int_of_isInt ⟨by omega, by omega⟩]
  rfl

namespace Layout

variable (l : Layout)

theorem spans_ok : ceilSpans l.lenArray l.partitionLayout =
    .ok (List.zipWith ceilDiv l.lenArray l.partitionLayout) := by
  have h := l.positive
  generalize l.lenArray = ns, l.partitionLayout = Ls at h
  induction h with
  | nil => rfl
  | @cons n L ns Ls h _ ih =>
    have hs := ceilDiv_pos h.1.1 h.2.1
    have hle := ceilDiv_le h.1.1 h.2.1
    have hm : INT_MIN ≤ 0 := by decide
    have hspan : ceilSpan n L = .ok (ceilDiv n L) := by
      rw [ceilSpan, if_neg (by omega)]
      exact int_of_isInt ⟨by omega, by omega⟩
    simp [ceilSpans, hspan, ih, bind, Except.bind, pure, Except.pure]

theorem length_index {idx : List Int} (h : l.Index idx) : idx.length = l.dims :=
  (List.Forall₂.length_eq h).symm

theorem layout_pos : ∀ L ∈ l.partitionLayout, 0 < L := by
  intro L hL
  have h := l.positive
  generalize l.lenArray = ns, l.partitionLayout = Ls at h hL
  induction h with
  | nil => cases hL
  | cons h _ ih =>
    rcases List.mem_cons.mp hL with rfl | hL
    · exact h.2.1
    · exact ih hL

/-- The loops run over all triples below the layout. -/
theorem mem_partitionIndices_iff {layout c : Array3 Int} : c ∈ partitionIndices layout ↔
    (0 ≤ c.x ∧ c.x < layout.x) ∧ (0 ≤ c.y ∧ c.y < layout.y) ∧ (0 ≤ c.z ∧ c.z < layout.z) := by
  have range : ∀ {L x : Int}, (∃ k : Nat, k < L.toNat ∧ (k : Int) = x) ↔ 0 ≤ x ∧ x < L := by
    intro L x
    constructor
    · rintro ⟨k, hk, rfl⟩
      omega
    · intro h
      exact ⟨x.toNat, by omega, by omega⟩
  simp only [partitionIndices, List.mem_flatMap, List.mem_range, List.mem_map, ← range]
  constructor
  · rintro ⟨z, hz, y, hy, x, hx, rfl⟩
    exact ⟨⟨x, hx, rfl⟩, ⟨y, hy, rfl⟩, ⟨z, hz, rfl⟩⟩
  · rintro ⟨⟨x, hx, ex⟩, ⟨y, hy, ey⟩, ⟨z, hz, ez⟩⟩
    exact ⟨z, hz, y, hy, x, hx, by rw [ex, ey, ez]⟩

/-- The loop variables are the share indices, the axes a layout lacks held at zero. -/
theorem mem_partitionIndices {c : Array3 Int} :
    c ∈ partitionIndices (.ofList 1 l.partitionLayout) ↔
      ∃ idx, l.Index idx ∧ c = .ofList 0 idx := by
  have hpos := l.layout_pos
  have h1 := l.dims_pos
  have h3 := l.dims_le
  rw [mem_partitionIndices_iff]
  obtain ⟨x, y, z⟩ := c
  simp only [Index, Digits]
  generalize l.partitionLayout = Ls at *
  induction Ls, h3 using Array3.axes_cases with
  | nil => simp at h1
  | line a =>
    constructor
    · rintro ⟨hx, hy, hz⟩
      simp only [Array3.ofList] at hx hy hz
      obtain rfl : y = 0 := by omega
      obtain rfl : z = 0 := by omega
      exact ⟨[x], .cons hx .nil, rfl⟩
    · rintro ⟨_, hf, he⟩
      cases hf with
      | cons hx hf =>
        cases hf
        cases he
        exact ⟨hx, by simp [Array3.ofList], by simp [Array3.ofList]⟩
  | plane a b =>
    constructor
    · rintro ⟨hx, hy, hz⟩
      simp only [Array3.ofList] at hx hy hz
      obtain rfl : z = 0 := by omega
      exact ⟨[x, y], .cons hx (.cons hy .nil), rfl⟩
    · rintro ⟨_, hf, he⟩
      cases hf with
      | cons hx hf =>
      cases hf with
      | cons hy hf =>
        cases hf
        cases he
        exact ⟨hx, hy, by simp [Array3.ofList]⟩
  | space a b d =>
    constructor
    · rintro ⟨hx, hy, hz⟩
      exact ⟨[x, y, z], .cons hx (.cons hy (.cons hz .nil)), rfl⟩
    · rintro ⟨_, hf, he⟩
      cases hf with
      | cons hx hf =>
      cases hf with
      | cons hy hf =>
      cases hf with
      | cons hz hf =>
        cases hf
        cases he
        exact ⟨hx, hy, hz⟩

/-- The row-major number of the padded loop variables is the id of the partition. -/
theorem rowMajor_index {idx : List Int} (h : l.Index idx) :
    (Array3.ofList 0 idx).x + (Array3.ofList 1 l.partitionLayout).x *
        ((Array3.ofList 0 idx).y +
          (Array3.ofList 1 l.partitionLayout).y * (Array3.ofList 0 idx).z) =
      l.id idx ∧
    0 ≤ (Array3.ofList 0 idx).x ∧ 0 ≤ (Array3.ofList 0 idx).y ∧ 0 ≤ (Array3.ofList 0 idx).z ∧
    0 < (Array3.ofList 1 l.partitionLayout).x ∧ 0 ≤ (Array3.ofList 1 l.partitionLayout).y := by
  have h1 := l.dims_pos
  have h3 := l.dims_le
  simp only [Index, Digits, id] at *
  generalize l.partitionLayout = Ls at *
  induction Ls, h3 using Array3.axes_cases with
  | nil => simp at h1
  | line a =>
    cases h with
    | cons hx hf =>
      cases hf
      simp only [Array3.ofList, value]
      omega
  | plane a b =>
    cases h with
    | cons hx hf =>
    cases hf with
    | cons hy hf =>
      cases hf
      simp only [Array3.ofList, value, mul_zero, add_zero, true_and]
      omega
  | space a b d =>
    cases h with
    | cons hx hf =>
    cases hf with
    | cons hy hf =>
    cases hf with
    | cons hz hf =>
      cases hf
      simp only [Array3.ofList, value, mul_zero, add_zero, true_and]
      omega

theorem ofList_toList_take {idx : List Int} (h : l.Index idx) :
    (Array3.ofList 0 idx).toList.take l.dims = idx := by
  have hlen := l.length_index h
  have h3 : idx.length ≤ 3 := by rw [hlen]; exact l.dims_le
  rw [← hlen]
  clear hlen h
  induction idx, h3 using Array3.axes_cases with
  | nil => rfl
  | line c0 => rfl
  | plane c0 c1 => rfl
  | space c0 c1 c2 => rfl

end Layout

theorem axisBounds_take (cs spans lens : List Int) (k : Nat) (h : spans.length ≤ k) :
    axisBounds (cs.take k) spans lens = axisBounds cs spans lens := by
  induction cs generalizing spans lens k with
  | nil => simp
  | cons c cs ih =>
    cases spans with
    | nil => cases k <;> simp [axisBounds]
    | cons span spans =>
      cases lens with
      | nil => cases k <;> simp [axisBounds]
      | cons len lens =>
        obtain ⟨k, rfl⟩ : ∃ j, k = j + 1 := ⟨k - 1, by simp at h; omega⟩
        simp only [List.take_succ_cons, axisBounds]
        rw [ih spans lens k (by simpa using h)]

namespace Layout

variable (l : Layout)

/-- The spans of the axes, each with the length it was computed from. -/
theorem axisBounds_eq {ns Ls xs : List Int} {bs : List Bound} (hlen : ns.length = Ls.length)
    (hx : xs.length = Ls.length)
    (h : axisBounds xs (List.zipWith ceilDiv ns Ls) ns = .ok bs) :
    bs = shares ns Ls xs := by
  induction ns generalizing Ls xs bs with
  | nil =>
    cases Ls with
    | cons L Ls => simp at hlen
    | nil =>
      cases xs with
      | cons x xs => simp at hx
      | nil =>
        cases h
        rfl
  | cons n ns ih =>
    cases Ls with
    | nil => simp at hlen
    | cons L Ls =>
      cases xs with
      | nil => simp at hx
      | cons x xs =>
        obtain ⟨b, hb, h⟩ := bind_eq_ok.mp h
        obtain ⟨rest, hr, h⟩ := bind_eq_ok.mp h
        cases h
        rw [shares, share, (axisBound_eq hb).1, ih (by simpa using hlen) (by simpa using hx) hr]

theorem axisBounds_ok {ns Ls xs : List Int}
    (hp : List.Forall₂ (fun n L => (0 < n ∧ n ≤ INT_MAX) ∧ 0 < L ∧ L ≤ INT_MAX) ns Ls)
    (hx : Digits Ls xs) (hf : List.Forall₂ (fun n L => L * ceilDiv n L ≤ INT_MAX) ns Ls) :
    axisBounds xs (List.zipWith ceilDiv ns Ls) ns = .ok (shares ns Ls xs) := by
  induction hp generalizing xs with
  | nil =>
    cases hx
    rfl
  | @cons n L ns Ls h _ ih =>
    cases hx with
    | @cons _ x _ xs hx hxs =>
    cases hf with
    | cons hf hfs =>
      have hs := ceilDiv_pos h.1.1 h.2.1
      have hnext : (x + 1) * ceilDiv n L ≤ INT_MAX :=
        le_trans (mul_le_mul_of_nonneg_right (by omega) hs.le) hf
      have hb := axisBound_ok hx.1 hs h.1.1 h.1.2 hnext
      simp [axisBounds, hb, ih hxs hfs, bind, Except.bind, pure, Except.pure, shares, share]

/-- What one pass of the loops inserts. -/
theorem partitionEntry_eq {idx : List Int} (h : l.Index idx) {e : Int × BBX}
    (he : partitionEntry l.lenArray (List.zipWith ceilDiv l.lenArray l.partitionLayout)
      (.ofList 1 l.partitionLayout) (.ofList 0 idx) = .ok e) : e = (l.id idx, l.box idx) := by
  obtain ⟨r, hr, he⟩ := bind_eq_ok.mp he
  obtain ⟨bs, hb, he⟩ := bind_eq_ok.mp he
  cases he
  rw [← axisBounds_take _ _ _ l.dims (by simp [l.length_lenArray, dims]),
    l.ofList_toList_take h] at hb
  rw [axisBounds_eq l.length_lenArray (l.length_index h) hb, (BBX.rowMajor_eq hr).1,
    (l.rowMajor_index h).1, box]

theorem partitionEntry_ok (hfit : l.Fits) {idx : List Int} (h : l.Index idx) :
    partitionEntry l.lenArray (List.zipWith ceilDiv l.lenArray l.partitionLayout)
      (.ofList 1 l.partitionLayout) (.ofList 0 idx) = .ok (l.id idx, l.box idx) := by
  obtain ⟨hid, hx, hy, hz, sx, sy⟩ := l.rowMajor_index h
  have hlt : l.id idx < l.count := value_lt_prod h
  have hcount := hfit.2
  have hr := BBX.rowMajor_ok hx hy hz sx sy (by rw [hid]; omega)
  have hb := axisBounds_ok l.positive h hfit.1
  rw [partitionEntry, hr, hid, ← axisBounds_take _ _ _ l.dims (by simp [l.length_lenArray, dims]),
    l.ofList_toList_take h, hb]
  rfl

theorem id_inj {idx jdx : List Int} (h : l.Index idx) (h' : l.Index jdx)
    (he : l.id idx = l.id jdx) : idx = jdx := value_inj h h' he

/-- The last partition of every axis at once. -/
def lastIndex : List Int := l.partitionLayout.map fun L => L - 1

theorem index_last : l.Index l.lastIndex := by
  have h := l.layout_pos
  simp only [Index, Digits, lastIndex]
  generalize l.partitionLayout = Ls at h
  induction Ls with
  | nil => exact .nil
  | cons L Ls ih =>
    have := h L List.mem_cons_self
    exact .cons ⟨by show 0 ≤ L - 1; omega, by show L - 1 < L; omega⟩
      (ih fun M hM => h M (List.mem_cons_of_mem L hM))

theorem id_last : l.id l.lastIndex = l.count - 1 := by
  simp only [id, lastIndex, count]
  generalize l.partitionLayout = Ls
  induction Ls with
  | nil => simp [value]
  | cons L Ls ih =>
    rw [List.map_cons, value, ih, List.prod_cons]
    ring

theorem spans_fit {ns Ls : List Int} {bs : List Bound} (hlen : ns.length = Ls.length)
    (h : axisBounds (Ls.map fun L => L - 1) (List.zipWith ceilDiv ns Ls) ns = .ok bs) :
    List.Forall₂ (fun n L => L * ceilDiv n L ≤ INT_MAX) ns Ls := by
  induction ns generalizing Ls bs with
  | nil =>
    cases Ls with
    | nil => exact .nil
    | cons L Ls => simp at hlen
  | cons n ns ih =>
    cases Ls with
    | nil => simp at hlen
    | cons L Ls =>
      obtain ⟨b, hb0, hb⟩ := bind_eq_ok.mp h
      obtain ⟨rest, hrest, _⟩ := bind_eq_ok.mp hb
      have hn := (axisBound_eq hb0).2.2
      rw [sub_add_cancel] at hn
      exact .cons hn (ih (by simpa using hlen) hrest)

/-- The last pass of the loops overflows when any pass does. -/
theorem fits_of_entry_last {e : Int × BBX}
    (he : partitionEntry l.lenArray (List.zipWith ceilDiv l.lenArray l.partitionLayout)
      (.ofList 1 l.partitionLayout) (.ofList 0 l.lastIndex) = .ok e) : l.Fits := by
  obtain ⟨r, hr, he⟩ := bind_eq_ok.mp he
  obtain ⟨bs, hb, _⟩ := bind_eq_ok.mp he
  rw [← axisBounds_take _ _ _ l.dims (by simp [l.length_lenArray, dims]),
    l.ofList_toList_take l.index_last] at hb
  have hi := BBX.rowMajor_eq hr
  rw [(l.rowMajor_index l.index_last).1, l.id_last] at hi
  exact ⟨spans_fit l.length_lenArray hb, by have := hi.2.2; omega⟩

/-- The padded loop variables of a partition, read back as its share indices. -/
def indexOf (c : Array3 Int) : List Int := c.toList.take l.dims

/-- The boxes the servers answer for, by partition id. -/
def boxes : AList fun _ : Int => BBX :=
  MapFill.fill (fun c => l.id (l.indexOf c)) (fun c => l.box (l.indexOf c))
    (partitionIndices (.ofList 1 l.partitionLayout)) ∅

/-- The initialisation runs through exactly when no intermediate value overflows. -/
theorem initDHTManually_eq_ok {m m' : DHTManager} (hempty : m.metaServerIDToBBX = ∅) :
    m.initDHTManually l.lenArray l.partitionLayout = .ok m' ↔
      l.Fits ∧ m' = { m with metaServerIDToBBX := l.boxes } := by
  have hlen := l.length_lenArray
  simp only [dims] at hlen
  have hlt : ¬ DEFAULT_MAX_DIM < l.partitionLayout.length := not_lt.mpr l.dims_le
  have run : m.initDHTManually l.lenArray l.partitionLayout =
      ((partitionIndices (.ofList 1 l.partitionLayout)).foldlM (fun map c => do
        let e ← partitionEntry l.lenArray (List.zipWith ceilDiv l.lenArray l.partitionLayout)
          (.ofList 1 l.partitionLayout) c
        return map.insert e.1 e.2) m.metaServerIDToBBX >>= fun map =>
          .ok { m with metaServerIDToBBX := map }) := by
    simp only [DHTManager.initDHTManually, l.spans_ok, hlen, hlt, ne_eq, not_true_eq_false,
      if_false]
    rfl
  have entry : ∀ c ∈ partitionIndices (.ofList 1 l.partitionLayout), ∀ e,
      partitionEntry l.lenArray (List.zipWith ceilDiv l.lenArray l.partitionLayout)
        (.ofList 1 l.partitionLayout) c = .ok e →
          e = (l.id (l.indexOf c), l.box (l.indexOf c)) := by
    intro c hc e he
    obtain ⟨idx, hidx, rfl⟩ := l.mem_partitionIndices.mp hc
    rw [indexOf, l.ofList_toList_take hidx]
    exact l.partitionEntry_eq hidx he
  have all : (∀ c ∈ partitionIndices (.ofList 1 l.partitionLayout), ∃ e,
      partitionEntry l.lenArray (List.zipWith ceilDiv l.lenArray l.partitionLayout)
        (.ofList 1 l.partitionLayout) c = .ok e) ↔ l.Fits := by
    constructor
    · intro h
      obtain ⟨e, he⟩ := h _ (l.mem_partitionIndices.mpr ⟨_, l.index_last, rfl⟩)
      exact l.fits_of_entry_last he
    · intro h c hc
      obtain ⟨idx, hidx, rfl⟩ := l.mem_partitionIndices.mp hc
      exact ⟨_, l.partitionEntry_ok h hidx⟩
  rw [run, bind_eq_ok, hempty]
  simp only [MapFill.foldlM_fill entry, all, Except.ok.injEq]
  constructor
  · rintro ⟨_, ⟨h, rfl⟩, rfl⟩
    exact ⟨h, rfl⟩
  · rintro ⟨h, rfl⟩
    exact ⟨_, ⟨h, rfl⟩, rfl⟩

/-- The box of each partition id, and no others. -/
theorem lookup_boxes {k : Int} {b : BBX} :
    l.boxes.lookup k = some b ↔ ∃ idx, l.Index idx ∧ l.id idx = k ∧ l.box idx = b := by
  have back : ∀ {idx}, l.Index idx → l.indexOf (.ofList 0 idx) = idx :=
    fun h => l.ofList_toList_take h
  rw [boxes, MapFill.lookup_fill]
  · constructor
    · rintro (⟨c, hc, hk, hb⟩ | ⟨h, _⟩)
      · obtain ⟨idx, hidx, rfl⟩ := l.mem_partitionIndices.mp hc
        rw [back hidx] at hk hb
        exact ⟨idx, hidx, hk, hb⟩
      · simp at h
    · rintro ⟨idx, hidx, hk, hb⟩
      refine Or.inl ⟨_, l.mem_partitionIndices.mpr ⟨idx, hidx, rfl⟩, ?_, ?_⟩
      · rw [back hidx, hk]
      · rw [back hidx, hb]
  · intro c hc d hd he
    obtain ⟨idx, hidx, rfl⟩ := l.mem_partitionIndices.mp hc
    obtain ⟨jdx, hjdx, rfl⟩ := l.mem_partitionIndices.mp hd
    rw [back hidx, back hjdx] at he
    rw [l.id_inj hidx hjdx he]

/-- The share of each axis a point lies in. -/
def owners : List Int → List Int → List Int → List Int
  | n :: ns, L :: Ls, p :: ps => p / ceilDiv n L :: owners ns Ls ps
  | _, _, _ => []

theorem share_contains {n L x p : Int} (hn : 0 < n) (hL : 0 < L) (hx : 0 ≤ x) :
    (share n L x).Contains p ↔ (0 ≤ p ∧ p < n) ∧ x = p / ceilDiv n L := by
  have hs := ceilDiv_pos hn hL
  simp only [share, Bound.Contains]
  constructor
  · rintro ⟨h1, h2⟩
    have h0 : 0 ≤ x * ceilDiv n L := mul_nonneg hx hs.le
    have hle : x ≤ p / ceilDiv n L := (Int.le_ediv_iff_mul_le hs).mpr h1
    have hlt : p / ceilDiv n L < x + 1 := (Int.ediv_lt_iff_lt_mul hs).mpr (by omega)
    exact ⟨by omega, by omega⟩
  · rintro ⟨h, rfl⟩
    have hle : p / ceilDiv n L * ceilDiv n L ≤ p := (Int.le_ediv_iff_mul_le hs).mp le_rfl
    have hlt : p < (p / ceilDiv n L + 1) * ceilDiv n L :=
      (Int.ediv_lt_iff_lt_mul hs).mp (Int.lt_succ _)
    exact ⟨hle, by omega⟩

/-- A point of the domain lies in the box of its own shares and in no other. -/
theorem shares_contains {ns Ls xs ps : List Int}
    (hp : List.Forall₂ (fun n L => (0 < n ∧ n ≤ INT_MAX) ∧ 0 < L ∧ L ≤ INT_MAX) ns Ls)
    (hx : Digits Ls xs) :
    List.Forall₂ Bound.Contains (shares ns Ls xs) ps ↔ Digits ns ps ∧ xs = owners ns Ls ps := by
  induction hp generalizing xs ps with
  | nil =>
    cases hx
    cases ps <;> simp [shares, owners, Digits]
  | @cons n L ns Ls h _ ih =>
    cases hx with
    | @cons _ x _ xs hx hxs =>
      cases ps with
      | nil => simp [shares, Digits]
      | cons p ps =>
        have := @ih xs ps hxs
        simp only [Digits] at this
        simp only [shares, owners, Digits, List.forall₂_cons, List.cons.injEq, this,
          share_contains h.1.1 h.2.1 hx.1]
        tauto

theorem digits_owners {ns Ls ps : List Int}
    (hp : List.Forall₂ (fun n L => (0 < n ∧ n ≤ INT_MAX) ∧ 0 < L ∧ L ≤ INT_MAX) ns Ls)
    (h : Digits ns ps) : Digits Ls (owners ns Ls ps) := by
  induction hp generalizing ps with
  | nil =>
    cases h
    exact .nil
  | @cons n L ns Ls hp _ ih =>
    cases h with
    | @cons _ p _ ps h hps =>
      have hs := ceilDiv_pos hp.1.1 hp.2.1
      have hle := (ceilDiv_bounds (n := n) hp.2.1).1
      refine .cons ⟨Int.ediv_nonneg h.1 hs.le, (Int.ediv_lt_iff_lt_mul hs).mpr (by omega)⟩ ?_
      exact ih hps

/-- The partition a point of the domain belongs to. -/
def ownerIndex (p : List Int) : List Int := owners l.lenArray l.partitionLayout p

theorem index_ownerIndex {p : List Int} (h : l.InDomain p) : l.Index (l.ownerIndex p) :=
  digits_owners l.positive h

theorem box_contains {idx p : List Int} (hidx : l.Index idx) :
    (l.box idx).Contains p ↔ l.InDomain p ∧ idx = l.ownerIndex p :=
  shares_contains l.positive hidx

/-- Every share of the axis has a first cell inside the domain. -/
def NoEmptyShare : Prop :=
  List.Forall₂ (fun n L => (L - 1) * ceilDiv n L < n) l.lenArray l.partitionLayout

theorem share_real {n L x : Int} (hn : 0 < n) (hL : 0 < L) :
    (share n L x).m_lb ≤ (share n L x).m_ub ↔ x * ceilDiv n L < n := by
  have hs := ceilDiv_pos hn hL
  have he : (x + 1) * ceilDiv n L = x * ceilDiv n L + ceilDiv n L := by ring
  simp only [share]
  omega

theorem shares_real {ns Ls xs : List Int}
    (hp : List.Forall₂ (fun n L => (0 < n ∧ n ≤ INT_MAX) ∧ 0 < L ∧ L ≤ INT_MAX) ns Ls)
    (hx : Digits Ls xs) (h : List.Forall₂ (fun n L => (L - 1) * ceilDiv n L < n) ns Ls) :
    ∀ b ∈ shares ns Ls xs, b.m_lb ≤ b.m_ub := by
  induction hp generalizing xs with
  | nil => simp [shares]
  | @cons n L ns Ls hp _ ih =>
    cases hx with
    | @cons _ x _ xs hx hxs =>
    cases h with
    | cons h hs =>
      have hc := ceilDiv_pos hp.1.1 hp.2.1
      have hle : x * ceilDiv n L ≤ (L - 1) * ceilDiv n L :=
        mul_le_mul_of_nonneg_right (by omega) hc.le
      exact List.forall_mem_cons.mpr
        ⟨(share_real hp.1.1 hp.2.1).mpr (by omega), ih hxs hs⟩

theorem noEmptyShare_of_last {ns Ls : List Int}
    (hp : List.Forall₂ (fun n L => (0 < n ∧ n ≤ INT_MAX) ∧ 0 < L ∧ L ≤ INT_MAX) ns Ls)
    (h : ∀ b ∈ shares ns Ls (Ls.map fun L => L - 1), b.m_lb ≤ b.m_ub) :
    List.Forall₂ (fun n L => (L - 1) * ceilDiv n L < n) ns Ls := by
  induction hp with
  | nil => exact .nil
  | @cons n L ns Ls hp _ ih =>
    obtain ⟨h0, hs⟩ := List.forall_mem_cons.mp h
    exact .cons ((share_real hp.1.1 hp.2.1).mp h0) (ih hs)

theorem length_shares {ns Ls xs : List Int} (h : ns.length = Ls.length)
    (hx : xs.length = Ls.length) : (shares ns Ls xs).length = Ls.length := by
  induction ns generalizing Ls xs with
  | nil =>
    cases Ls with
    | nil => rfl
    | cons L Ls => simp at h
  | cons n ns ih =>
    cases Ls with
    | nil => simp at h
    | cons L Ls =>
      cases xs with
      | nil => simp at hx
      | cons x xs => simp [shares, ih (by simpa using h) (by simpa using hx)]

theorem dims_box {idx : List Int} (h : l.Index idx) : (l.box idx).m_dims = l.dims :=
  length_shares l.length_lenArray (l.length_index h)

theorem exists_index {k : Int} (h0 : 0 ≤ k) (hk : k < l.count) :
    ∃ idx, l.Index idx ∧ l.id idx = k :=
  exists_digits l.layout_pos h0 hk

/-- What the servers own after the initialisation: a box with cells for every partition id, and
every point of the domain in exactly one of the boxes. -/
structure OwnsRealRegions (m : DHTManager) : Prop where
  real : ∀ k, 0 ≤ k → k < l.count → ∃ b, m.metaServerIDToBBX.lookup k = some b ∧
    b.m_dims = l.dims ∧ ∀ bound ∈ b.BoundList, bound.m_lb ≤ bound.m_ub
  owned : ∀ p, l.InDomain p → ∃! k, ∃ b, m.metaServerIDToBBX.lookup k = some b ∧ b.Contains p

theorem boxes_real_iff :
    (∀ k, 0 ≤ k → k < l.count → ∃ b, l.boxes.lookup k = some b ∧
      b.m_dims = l.dims ∧ ∀ bound ∈ b.BoundList, bound.m_lb ≤ bound.m_ub) ↔ l.NoEmptyShare := by
  constructor
  · intro h
    have hlast := value_lt_prod l.index_last
    obtain ⟨b, hb, _, hreal⟩ := h (l.id l.lastIndex) (value_nonneg l.index_last) hlast
    obtain ⟨idx, hidx, hid, rfl⟩ := l.lookup_boxes.mp hb
    obtain rfl := l.id_inj hidx l.index_last hid
    exact noEmptyShare_of_last l.positive hreal
  · intro h k h0 hk
    obtain ⟨idx, hidx, rfl⟩ := l.exists_index h0 hk
    exact ⟨l.box idx, l.lookup_boxes.mpr ⟨idx, hidx, rfl, rfl⟩, l.dims_box hidx,
      shares_real l.positive hidx h⟩

theorem boxes_owned {p : List Int} (hp : l.InDomain p) :
    ∃! k, ∃ b, l.boxes.lookup k = some b ∧ b.Contains p := by
  have hidx := l.index_ownerIndex hp
  refine ⟨l.id (l.ownerIndex p), ⟨l.box (l.ownerIndex p),
    l.lookup_boxes.mpr ⟨_, hidx, rfl, rfl⟩, (l.box_contains hidx).mpr ⟨hp, rfl⟩⟩, ?_⟩
  rintro k ⟨b, hb, hc⟩
  obtain ⟨jdx, hjdx, rfl, rfl⟩ := l.lookup_boxes.mp hb
  rw [((l.box_contains hjdx).mp hc).2]

/-- The initialisation gives every server a region exactly when no share of an axis starts
past the end of the domain and the numbering fits in `int`. -/
theorem initDHTManually_owns_iff :
    (∃ m, DHTManager.initDHTManually l.lenArray l.partitionLayout {} = .ok m ∧
      l.OwnsRealRegions m) ↔ l.Fits ∧ l.NoEmptyShare := by
  constructor
  · rintro ⟨m, hm, hreal, _⟩
    obtain ⟨hfit, rfl⟩ := (l.initDHTManually_eq_ok rfl).mp hm
    exact ⟨hfit, l.boxes_real_iff.mp hreal⟩
  · rintro ⟨hfit, hreal⟩
    exact ⟨_, (l.initDHTManually_eq_ok rfl).mpr ⟨hfit, rfl⟩,
      l.boxes_real_iff.mpr hreal, fun p hp => l.boxes_owned hp⟩

/-- Five cells in four shares: spans of two leave the last share `[6, 4]`. -/
def fiveInFour : Layout where
  lenArray := [5]
  partitionLayout := [4]
  dims_pos := by decide
  dims_le := by decide
  positive := by decide

theorem fiveInFour_last_inverted :
    List.Forall₂ (fun n L => L ≤ n) fiveInFour.lenArray fiveInFour.partitionLayout ∧
    ¬ ∃ m, DHTManager.initDHTManually fiveInFour.lenArray fiveInFour.partitionLayout {} = .ok m ∧
      fiveInFour.OwnsRealRegions m := by
  refine ⟨by decide, ?_⟩
  rintro ⟨m, hm, hreal, _⟩
  obtain ⟨b, hb, _, hle⟩ := hreal 3 (by decide) (by decide)
  obtain ⟨_, rfl⟩ := (fiveInFour.initDHTManually_eq_ok rfl).mp hm
  have hlast : fiveInFour.boxes.lookup 3 = some ⟨0, [⟨6, 4⟩]⟩ := by decide
  obtain rfl := Option.some.inj (hb.symm.trans hlast)
  exact absurd (hle ⟨6, 4⟩ (by decide)) (by decide)

end Layout

theorem BBX.dims_ofIndex {dims : Nat} {indexlb indexub : Array3 Int} {q : BBX}
    (h : BBX.ofIndex dims indexlb indexub = .ok q) : q.m_dims = dims := by
  unfold BBX.ofIndex at h
  by_cases h3 : DEFAULT_MAX_DIM < dims
  · simp [h3] at h
  · rw [if_neg h3] at h
    cases h
    simp only [DEFAULT_MAX_DIM] at h3
    simp only [BBX.m_dims, List.length_zipWith, List.length_take, Array3.toList, List.length_cons,
      List.length_nil]
    omega

/-- The partitions a query is sent to: those that its box hits. -/
theorem responsible_eq_ok {q : BBX} {es : List (Σ _ : Int, BBX)} {r : List ResponsibleMetaServer} :
    DHTManager.responsible q es = .ok r ↔
      (∀ e ∈ es, q.m_dims = e.2.m_dims ∧ q.Dims) ∧
        r = (es.filter fun e => q.Hits e.2).map fun e => ⟨e.1, q.meet e.2⟩ := by
  induction es generalizing r with
  | nil => simp [DHTManager.responsible, pure, Except.pure, eq_comm]
  | cons e es ih =>
    rw [DHTManager.responsible, bind_eq_ok, List.forall_mem_cons]
    constructor
    · rintro ⟨o, ho, h⟩
      obtain ⟨hdim, hdims, rfl⟩ := BBX.getOverlapBBX_eq_ok.mp ho
      by_cases hit : q.Hits e.2
      · rw [if_pos hit] at h
        obtain ⟨rest, hr, h⟩ := bind_eq_ok.mp h
        cases h
        obtain ⟨hes, rfl⟩ := ih.mp hr
        exact ⟨⟨⟨hdim, hdims⟩, hes⟩, by simp [hit]⟩
      · rw [if_neg hit] at h
        obtain ⟨hes, rfl⟩ := ih.mp h
        exact ⟨⟨⟨hdim, hdims⟩, hes⟩, by simp [hit]⟩
    · rintro ⟨⟨⟨hdim, hdims⟩, hes⟩, rfl⟩
      refine ⟨_, BBX.getOverlapBBX_eq_ok.mpr ⟨hdim, hdims, rfl⟩, ?_⟩
      have tail := ih.mpr ⟨hes, rfl⟩
      by_cases hit : q.Hits e.2
      · rw [if_pos hit]
        exact bind_eq_ok.mpr ⟨_, tail, by simp [hit, pure, Except.pure]⟩
      · rw [if_neg hit]
        simpa [hit] using tail

end Gorilla
