import Gorilla.Utils.MatrixTool
import Mathlib.Tactic.Linarith
import Mathlib.Tactic.Ring

/-!
# Where a sub-matrix is copied

The two argument checks of `getSubMatrix` keep every element inside both buffers. The copy of
the whole matrix before the loops does not.
-/

namespace Gorilla

namespace MATRIXTOOL

/-- The position of a cell in a row-major layout with rows of `a` and planes of `b` rows. -/
def cellIndex (a b x y z : Nat) : Nat := x + a * (y + b * z)

theorem cellIndex_lt {a b c x y z : Nat} (hx : x < a) (hy : y < b) (hz : z < c) :
    cellIndex a b x y z < a * (b * c) := by
  have row : y + b * z + 1 ≤ b * c := by
    calc y + b * z + 1 ≤ b * (z + 1) := by rw [Nat.mul_succ]; omega
      _ ≤ b * c := Nat.mul_le_mul_left b hz
  calc x + a * (y + b * z) < a * (y + b * z + 1) := by rw [Nat.mul_succ]; omega
    _ ≤ a * (b * c) := Nat.mul_le_mul_left a row

theorem cellIndex_inj {a b x y z x' y' z' : Nat} (hx : x < a) (hx' : x' < a) (hy : y < b)
    (hy' : y' < b) (h : cellIndex a b x y z = cellIndex a b x' y' z') :
    x = x' ∧ y = y' ∧ z = z' := by
  have digits : ∀ {n d q d' q' : Nat}, d < n → d' < n → d + n * q = d' + n * q' →
      d = d' ∧ q = q' := by
    intro n d q d' q' hd hd' h
    have hmod := congrArg (· % n) h
    have hdiv := congrArg (· / n) h
    simp only [Nat.add_mul_mod_self_left, Nat.mod_eq_of_lt hd, Nat.mod_eq_of_lt hd'] at hmod
    simp only [Nat.add_mul_div_left _ _ (Nat.zero_lt_of_lt hd), Nat.div_eq_of_lt hd,
      Nat.div_eq_of_lt hd', Nat.zero_add] at hdiv
    exact ⟨hmod, hdiv⟩
  obtain ⟨hxx, rest⟩ := digits hx hx' h
  obtain ⟨hyy, hzz⟩ := digits hy hy' rest
  exact ⟨hxx, hyy, hzz⟩

/-- The index as the code computes it, in `size_t`. -/
theorem toNat_index {a b x y z : UInt64} {c : Nat} (hx : x.toNat < a.toNat)
    (hy : y.toNat < b.toNat) (hz : z.toNat < c) (hfit : a.toNat * (b.toNat * c) < 2 ^ 64) :
    (z * b * a + y * a + x).toNat = cellIndex a.toNat b.toNat x.toNat y.toNat z.toNat := by
  have lt := cellIndex_lt hx hy hz
  have index : z * b * a + y * a + x =
      UInt64.ofNat (cellIndex a.toNat b.toNat x.toNat y.toNat z.toNat) := by
    simp only [cellIndex, UInt64.ofNat_add, UInt64.ofNat_mul, UInt64.ofNat_toNat]
    grind
  rw [index, UInt64.toNat_ofNat_of_lt' (lt.trans hfit)]

theorem toNat_mul_of_lt {i e : UInt64} {n : Nat} (hi : i.toNat < n)
    (hfit : e.toNat * n < 2 ^ 64) : (i * e).toNat = i.toNat * e.toNat := by
  have le : i.toNat * e.toNat ≤ e.toNat * n := by
    rw [Nat.mul_comm]
    exact Nat.mul_le_mul_left _ hi.le
  rw [UInt64.toNat_mul, Nat.mod_eq_of_lt (by omega)]

/-- The number of cells of a box from the origin to `ub`. -/
def cellCount (ub : Array3 UInt64) : Nat :=
  (ub.x.toNat + 1) * ((ub.y.toNat + 1) * (ub.z.toNat + 1))

/-- The extents of a sub-box, as the code computes them. -/
def extents (subLb subUb : Array3 UInt64) : Array3 UInt64 :=
  ⟨subUb.x - subLb.x + 1, subUb.y - subLb.y + 1, subUb.z - subLb.z + 1⟩

/-- The sub-boxes both argument checks let through. -/
def Inside (subLb subUb globalUb : Array3 UInt64) : Prop :=
  (subLb.x ≤ subUb.x ∧ subUb.x ≤ globalUb.x) ∧ (subLb.y ≤ subUb.y ∧ subUb.y ≤ globalUb.y) ∧
    (subLb.z ≤ subUb.z ∧ subUb.z ≤ globalUb.z)

instance (subLb subUb globalUb : Array3 UInt64) : Decidable (Inside subLb subUb globalUb) :=
  inferInstanceAs (Decidable (_ ∧ _))

/-- The ranges of one `memcpy`: `bytes` bytes are read from `srcOff` on and written from `dstOff`
on. -/
structure Copy where
  dstOff : Nat
  srcOff : Nat
  bytes : Nat
  deriving DecidableEq, Repr

namespace Copy

def run (src m : Buffer) (c : Copy) : Except Stop Buffer := m.memcpy c.dstOff src c.srcOff c.bytes

/-- Both ranges lie inside buffers of the given sizes. -/
def Fits (dst src : Nat) (c : Copy) : Prop := c.dstOff + c.bytes ≤ dst ∧ c.srcOff + c.bytes ≤ src

instance (dst src : Nat) (c : Copy) : Decidable (c.Fits dst src) :=
  inferInstanceAs (Decidable (_ ∧ _))

theorem run_eq_ok {src m m' : Buffer} {c : Copy} : c.run src m = .ok m' ↔
    c.Fits m.length src.length ∧
      m' = m.take c.dstOff ++ (src.drop c.srcOff).take c.bytes ++ m.drop (c.dstOff + c.bytes) :=
  Buffer.memcpy_eq_ok

end Copy

/-- The copy of one element of the part. -/
def copyOf (elemSize : UInt64) (subLb subUb globalUb : Array3 UInt64) (z y x : UInt64) : Copy :=
  let subLen := extents subLb subUb
  let globalLen : Array3 UInt64 := ⟨globalUb.x + 1, globalUb.y + 1, globalUb.z + 1⟩
  let globalIndex := z * globalLen.y * globalLen.x + y * globalLen.x + x
  let subIndex := (z - subLb.z) * subLen.y * subLen.x + (y - subLb.y) * subLen.x + x - subLb.x
  ⟨(subIndex * elemSize).toNat, (globalIndex * elemSize).toNat, elemSize.toNat⟩

theorem copyElement_eq_run (e : UInt64) (subLb subUb globalUb : Array3 UInt64) (src m : Buffer)
    (z y x : UInt64) : copyElement e subLb (extents subLb subUb)
      ⟨globalUb.x + 1, globalUb.y + 1, globalUb.z + 1⟩ src m z y x =
    (copyOf e subLb subUb globalUb z y x).run src m := rfl

theorem mem_inRange {globalUb lb ub i : UInt64} (h : i ∈ inRange globalUb lb ub) :
    i ≤ globalUb ∧ lb ≤ i ∧ i ≤ ub := by
  obtain ⟨hm, hrange⟩ := List.mem_filter.mp h
  obtain ⟨k, hk, rfl⟩ := List.mem_map.mp hm
  have hk : k ≤ globalUb.toNat := Nat.lt_succ_iff.mp (List.mem_range.mp hk)
  refine ⟨?_, by simpa using hrange⟩
  rw [UInt64.le_iff_toNat_le, UInt64.toNat_ofNat_of_lt' (hk.trans_lt globalUb.toNat_lt)]
  exact hk

theorem toNat_succ {g : UInt64} (hg : g.toNat + 1 < 2 ^ 64) : (g + 1).toNat = g.toNat + 1 := by
  rw [UInt64.toNat_add]
  exact Nat.mod_eq_of_lt (by simpa using hg)

theorem mem_inRange_of_le {g lb ub i : UInt64} (hi : lb ≤ i ∧ i ≤ ub) (hg : ub ≤ g) :
    i ∈ inRange g lb ub := by
  refine List.mem_filter.mpr ⟨List.mem_map.mpr ⟨i.toNat, ?_, UInt64.ofNat_toNat⟩, by simpa using hi⟩
  have := UInt64.le_iff_toNat_le.mp (UInt64.le_trans hi.2 hg)
  exact List.mem_range.mpr (by omega)

/-- One axis of a sub-box that was let through. -/
theorem toNat_extent {lb ub g : UInt64} (h : lb ≤ ub ∧ ub ≤ g) (hg : g.toNat + 1 < 2 ^ 64) :
    (ub - lb + 1).toNat = ub.toNat - lb.toNat + 1 := by
  obtain ⟨hlb, hub⟩ := h
  rw [UInt64.le_iff_toNat_le] at hlb hub
  rw [UInt64.toNat_add, UInt64.toNat_sub_of_le _ _ hlb]
  exact Nat.mod_eq_of_lt (by simp only [UInt64.toNat_one]; omega)

/-- A coordinate of a sub-box, counted from its lower corner and from the origin. -/
theorem toNat_offset {lb ub g i : UInt64} (h : lb ≤ ub ∧ ub ≤ g) (hg : g.toNat + 1 < 2 ^ 64)
    (hi : lb ≤ i ∧ i ≤ ub) : (i - lb).toNat = i.toNat - lb.toNat ∧
      i.toNat - lb.toNat < (ub - lb + 1).toNat ∧ i.toNat < g.toNat + 1 := by
  rw [toNat_extent h hg]
  simp only [UInt64.le_iff_toNat_le] at h hi
  exact ⟨UInt64.toNat_sub_of_le _ _ (UInt64.le_iff_toNat_le.mpr hi.1), by omega, by omega⟩

section Layout
variable {e : UInt64} {subLb subUb globalUb : Array3 UInt64}

/-- The whole matrix fits the address space, and so does each of its axes. -/
theorem axes_lt (he : 0 < e.toNat) (hfit : e.toNat * cellCount globalUb < 2 ^ 64) :
    cellCount globalUb < 2 ^ 64 ∧ globalUb.x.toNat + 1 < 2 ^ 64 ∧ globalUb.y.toNat + 1 < 2 ^ 64 ∧
      globalUb.z.toNat + 1 < 2 ^ 64 := by
  have count : cellCount globalUb < 2 ^ 64 := (Nat.le_mul_of_pos_left _ he).trans_lt hfit
  have hyz : (globalUb.y.toNat + 1) * (globalUb.z.toNat + 1) ≤ cellCount globalUb :=
    Nat.le_mul_of_pos_left _ (Nat.succ_pos _)
  have hx : globalUb.x.toNat + 1 ≤ cellCount globalUb :=
    Nat.le_mul_of_pos_right _ (by positivity)
  have hy : globalUb.y.toNat + 1 ≤ (globalUb.y.toNat + 1) * (globalUb.z.toNat + 1) :=
    Nat.le_mul_of_pos_right _ (Nat.succ_pos _)
  have hz : globalUb.z.toNat + 1 ≤ (globalUb.y.toNat + 1) * (globalUb.z.toNat + 1) :=
    Nat.le_mul_of_pos_left _ (Nat.succ_pos _)
  exact ⟨count, by omega, by omega, by omega⟩

/-- The number of cells of a sub-box. -/
def subCount (subLb subUb : Array3 UInt64) : Nat :=
  (extents subLb subUb).x.toNat *
    ((extents subLb subUb).y.toNat * (extents subLb subUb).z.toNat)

theorem subCount_le (hin : Inside subLb subUb globalUb) (he : 0 < e.toNat)
    (hfit : e.toNat * cellCount globalUb < 2 ^ 64) :
    subCount subLb subUb ≤ cellCount globalUb := by
  obtain ⟨_, hx, hy, hz⟩ := axes_lt he hfit
  obtain ⟨inx, iny, inz⟩ := hin
  have below : ∀ {lb ub g : UInt64}, lb ≤ ub ∧ ub ≤ g → g.toNat + 1 < 2 ^ 64 →
      (ub - lb + 1).toNat ≤ g.toNat + 1 := by
    intro lb ub g h hg
    rw [toNat_extent h hg]
    have := UInt64.le_iff_toNat_le.mp h.2
    omega
  exact Nat.mul_le_mul (below inx hx) (Nat.mul_le_mul (below iny hy) (below inz hz))

/-- One element is copied between its places in the two row-major layouts. -/
theorem copyOf_eq (hin : Inside subLb subUb globalUb) (he : 0 < e.toNat)
    (hfit : e.toNat * cellCount globalUb < 2 ^ 64) {x y z : UInt64}
    (hx : subLb.x ≤ x ∧ x ≤ subUb.x) (hy : subLb.y ≤ y ∧ y ≤ subUb.y)
    (hz : subLb.z ≤ z ∧ z ≤ subUb.z) :
    let part := cellIndex (extents subLb subUb).x.toNat (extents subLb subUb).y.toNat
      (x.toNat - subLb.x.toNat) (y.toNat - subLb.y.toNat) (z.toNat - subLb.z.toNat)
    let whole := cellIndex (globalUb.x.toNat + 1) (globalUb.y.toNat + 1) x.toNat y.toNat z.toNat
    part < subCount subLb subUb ∧ whole < cellCount globalUb ∧
      copyOf e subLb subUb globalUb z y x = ⟨part * e.toNat, whole * e.toNat, e.toNat⟩ := by
  intro part whole
  have le := subCount_le hin he hfit
  obtain ⟨count, gx, gy, gz⟩ := axes_lt he hfit
  obtain ⟨inx, iny, inz⟩ := hin
  obtain ⟨ox, px, wx⟩ := toNat_offset inx gx hx
  obtain ⟨oy, py, wy⟩ := toNat_offset iny gy hy
  obtain ⟨oz, pz, wz⟩ := toNat_offset inz gz hz
  have hpart : part < subCount subLb subUb := cellIndex_lt px py pz
  have hwhole : whole < cellCount globalUb := cellIndex_lt wx wy wz
  refine ⟨hpart, hwhole, ?_⟩
  have globalIndex : (z * (globalUb.y + 1) * (globalUb.x + 1) + y * (globalUb.x + 1) + x).toNat =
      whole := by
    rw [toNat_index (c := globalUb.z.toNat + 1) (by rwa [toNat_succ gx]) (by rwa [toNat_succ gy]) wz
      (by rw [toNat_succ gx, toNat_succ gy]; exact count), toNat_succ gx, toNat_succ gy]
  have subIndex : ((z - subLb.z) * (extents subLb subUb).y * (extents subLb subUb).x +
      (y - subLb.y) * (extents subLb subUb).x + x - subLb.x).toNat = part := by
    have regroup : ∀ i j k l : UInt64, i + j + k - l = i + j + (k - l) := by grind
    rw [regroup, toNat_index (c := (extents subLb subUb).z.toNat) (by rwa [ox])
      (by rwa [oy]) (by rwa [oz]) (le.trans_lt count), ox, oy, oz]
  have from' := toNat_mul_of_lt (globalIndex.trans_lt hwhole) hfit
  have to' := toNat_mul_of_lt (subIndex.trans_lt hpart) ((Nat.mul_le_mul_left _ le).trans_lt hfit)
  rw [globalIndex] at from'
  rw [subIndex] at to'
  exact congrArg₂ (fun d s => Copy.mk d s e.toNat) to' from'

/-- The loops of `getSubMatrix` over the elements of the part. -/
def copyElements (e : UInt64) (subLb subUb globalUb : Array3 UInt64) (globalMatrix : Buffer)
    (subMrx : Buffer) : Except Stop Buffer :=
  (inRange globalUb.z subLb.z subUb.z).foldlM (fun m z =>
    (inRange globalUb.y subLb.y subUb.y).foldlM (fun m y =>
      (inRange globalUb.x subLb.x subUb.x).foldlM (fun m x =>
        copyElement e subLb (extents subLb subUb)
          ⟨globalUb.x + 1, globalUb.y + 1, globalUb.z + 1⟩ globalMatrix m z y x) m) m) subMrx

theorem copyElements_ok (hin : Inside subLb subUb globalUb)
    (hfit : e.toNat * cellCount globalUb < 2 ^ 64) {src subMrx : Buffer}
    (hsrc : src.length = e.toNat * cellCount globalUb)
    (hlen : subMrx.length = e.toNat * subCount subLb subUb) :
    ∃ m, copyElements e subLb subUb globalUb src subMrx = .ok m ∧
      m.length = e.toNat * subCount subLb subUb := by
  refine foldlM_ok (P := fun m : Buffer => m.length = e.toNat * subCount subLb subUb) ?_ hlen
  intro z hz m hm
  refine foldlM_ok (P := fun m : Buffer => m.length = e.toNat * subCount subLb subUb) ?_ hm
  intro y hy m hm
  refine foldlM_ok (P := fun m : Buffer => m.length = e.toNat * subCount subLb subUb) ?_ hm
  intro x hx m hm
  have fits : (copyOf e subLb subUb globalUb z y x).Fits m.length src.length := by
    by_cases he : e = 0
    · subst he
      constructor <;> simp [copyOf]
    · have pos : 0 < e.toNat := Nat.pos_of_ne_zero fun h => he (UInt64.toNat_inj.mp h)
      obtain ⟨hpart, hwhole, eq⟩ := copyOf_eq hin pos hfit (mem_inRange hx).2
        (mem_inRange hy).2 (mem_inRange hz).2
      rw [eq]
      constructor
      · show _ * e.toNat + e.toNat ≤ m.length
        rw [hm, ← Nat.succ_mul, Nat.mul_comm]
        exact Nat.mul_le_mul_left _ hpart
      · show _ * e.toNat + e.toNat ≤ src.length
        rw [hsrc, ← Nat.succ_mul, Nat.mul_comm]
        exact Nat.mul_le_mul_left _ hwhole
  have copied := Copy.run_eq_ok.mpr ⟨fits, rfl⟩
  exact ⟨_, (copyElement_eq_run ..).trans copied, (Buffer.length_memcpy copied).trans hm⟩

theorem toNat_elemNum {a b c : UInt64} (hfit : a.toNat * (b.toNat * c.toNat) < 2 ^ 64) :
    (a * b * c).toNat = a.toNat * (b.toNat * c.toNat) := by
  rw [UInt64.toNat_mul, UInt64.toNat_mul, Nat.mod_mul_mod, Nat.mul_assoc, Nat.mod_eq_of_lt hfit]

/-- The two argument checks refuse what is not inside. -/
theorem inside_iff_checks : Inside subLb subUb globalUb ↔
    ¬ (subUb.z < subLb.z ∨ subUb.y < subLb.y ∨ subUb.x < subLb.x) ∧
      ¬ (globalUb.z < subUb.z ∨ globalUb.y < subUb.y ∨ globalUb.x < subUb.x) := by
  simp only [not_or, UInt64.not_lt]
  constructor
  · rintro ⟨⟨hx, gx⟩, ⟨hy, gy⟩, hz, gz⟩
    exact ⟨⟨hz, hy, hx⟩, gz, gy, gx⟩
  · rintro ⟨⟨hz, hy, hx⟩, gz, gy, gx⟩
    exact ⟨⟨hx, gx⟩, ⟨hy, gy⟩, hz, gz⟩

theorem getSubMatrix_thrown (h : ¬ Inside subLb subUb globalUb) (src : Buffer) :
    ∃ what, getSubMatrix e subLb subUb globalUb src = .error (.runtime_error what) := by
  rw [inside_iff_checks, not_and_or, not_not, not_not] at h
  unfold getSubMatrix
  by_cases lower : subUb.z < subLb.z ∨ subUb.y < subLb.y ∨ subUb.x < subLb.x
  · rw [if_pos lower]
    exact ⟨_, rfl⟩
  · rw [if_neg lower, if_pos (h.resolve_left lower)]
    exact ⟨_, rfl⟩

/-- The buffer of the part before the loops. -/
def startOf (e : UInt64) (subLb subUb globalUb : Array3 UInt64) (globalMatrix : Buffer) :
    Except Stop Buffer :=
  let subMrx := Buffer.malloc (e * ((extents subLb subUb).x * (extents subLb subUb).y *
    (extents subLb subUb).z))
  if subLb = globalUb then
    subMrx.memcpy 0 globalMatrix 0
      (e * ((globalUb.x + 1) * (globalUb.y + 1) * (globalUb.z + 1))).toNat
  else .ok subMrx

theorem getSubMatrix_eq (hin : Inside subLb subUb globalUb) (src : Buffer) :
    getSubMatrix e subLb subUb globalUb src =
      startOf e subLb subUb globalUb src >>= copyElements e subLb subUb globalUb src := by
  obtain ⟨lower, upper⟩ := inside_iff_checks.mp hin
  unfold getSubMatrix startOf
  rw [if_neg lower, if_neg upper]
  by_cases corner : subLb = globalUb
  · rw [if_pos corner, if_pos corner]
    rfl
  · rw [if_neg corner, if_neg corner]
    rfl

/-- The bytes of the part and of the whole, as the code computes them. -/
theorem toNat_sizes (hin : Inside subLb subUb globalUb) (he : 0 < e.toNat)
    (hfit : e.toNat * cellCount globalUb < 2 ^ 64) :
    (e * ((extents subLb subUb).x * (extents subLb subUb).y * (extents subLb subUb).z)).toNat =
        e.toNat * subCount subLb subUb ∧
      (e * ((globalUb.x + 1) * (globalUb.y + 1) * (globalUb.z + 1))).toNat =
        e.toNat * cellCount globalUb := by
  obtain ⟨count, gx, gy, gz⟩ := axes_lt he hfit
  have le := subCount_le hin he hfit
  constructor
  · rw [UInt64.toNat_mul, toNat_elemNum (le.trans_lt count)]
    exact Nat.mod_eq_of_lt ((Nat.mul_le_mul_left _ le).trans_lt hfit)
  · have elems : ((globalUb.x + 1) * (globalUb.y + 1) * (globalUb.z + 1)).toNat =
        cellCount globalUb := by
      rw [toNat_elemNum (by rw [toNat_succ gx, toNat_succ gy, toNat_succ gz]; exact count),
        toNat_succ gx, toNat_succ gy, toNat_succ gz]
      rfl
    rw [UInt64.toNat_mul, elems]
    exact Nat.mod_eq_of_lt hfit

/-- A part that starts at the last cell is that cell. -/
theorem subCount_corner (hin : Inside globalUb subUb globalUb) : subCount globalUb subUb = 1 := by
  obtain ⟨hx, hy, hz⟩ := hin
  have last : ∀ {lb ub : UInt64}, lb ≤ ub ∧ ub ≤ lb → (ub - lb + 1).toNat = 1 := by
    intro lb ub h
    rw [UInt64.le_antisymm h.1 h.2, UInt64.sub_self]
    rfl
  simp only [subCount, extents, last hx, last hy, last hz, Nat.mul_one]

theorem startOf_corner (hin : Inside globalUb subUb globalUb) (he : 0 < e.toNat)
    (hfit : e.toNat * cellCount globalUb < 2 ^ 64) (src : Buffer) :
    startOf e globalUb subUb globalUb src =
      (Buffer.malloc e).memcpy 0 src 0 (e.toNat * cellCount globalUb) := by
  obtain ⟨part, whole⟩ := toNat_sizes hin he hfit
  unfold startOf
  rw [if_pos rfl, whole]
  unfold Buffer.malloc
  rw [part, subCount_corner hin, Nat.mul_one]

/-- A part that was let through is copied, unless the copy of the whole comes first and the
whole has more than one element. -/
theorem getSubMatrix_inside (hin : Inside subLb subUb globalUb)
    (hfit : e.toNat * cellCount globalUb < 2 ^ 64) {src : Buffer}
    (hsrc : src.length = e.toNat * cellCount globalUb) :
    if e ≠ 0 ∧ subLb = globalUb ∧ cellCount globalUb ≠ 1 then
      getSubMatrix e subLb subUb globalUb src = .error (.undefined "memcpy outside a buffer")
    else ∃ m, getSubMatrix e subLb subUb globalUb src = .ok m ∧
      m.length = e.toNat * subCount subLb subUb := by
  rw [getSubMatrix_eq hin]
  have copied : ∀ {m}, startOf e subLb subUb globalUb src = .ok m →
      m.length = e.toNat * subCount subLb subUb →
      ∃ m, startOf e subLb subUb globalUb src >>= copyElements e subLb subUb globalUb src = .ok m ∧
        m.length = e.toNat * subCount subLb subUb := by
    intro m hstart hlen
    obtain ⟨m', hm', hlen'⟩ := copyElements_ok hin hfit hsrc hlen
    exact ⟨m', bind_eq_ok.mpr ⟨m, hstart, hm'⟩, hlen'⟩
  by_cases he : e = 0
  · rw [if_neg fun h => h.1 he]
    subst he
    refine copied (m := []) ?_ (by simp)
    unfold startOf
    simp [Buffer.malloc, Buffer.memcpy]
  have pos : 0 < e.toNat := Nat.pos_of_ne_zero fun h => he (UInt64.toNat_inj.mp h)
  by_cases corner : subLb = globalUb
  · subst corner
    have start := startOf_corner hin pos hfit src
    by_cases one : cellCount subLb = 1
    · rw [if_neg fun h => h.2.2 one]
      rw [one, Nat.mul_one] at start hsrc
      refine copied (start.trans ((Buffer.copy_eq_ok rfl).mpr ⟨hsrc.ge, rfl⟩)) ?_
      rw [List.length_take, hsrc, subCount_corner hin, Nat.mul_one, min_self]
    · rw [if_pos ⟨he, rfl, one⟩, start]
      have many : 1 < cellCount subLb := by
        have : 0 < cellCount subLb := by
          unfold cellCount
          positivity
        omega
      have past : ¬ (0 + e.toNat * cellCount subLb ≤ (Buffer.malloc e).length ∧
          0 + e.toNat * cellCount subLb ≤ src.length) := by
        rintro ⟨hle, _⟩
        rw [Buffer.malloc, List.length_replicate, Nat.zero_add] at hle
        exact absurd ((Nat.lt_mul_iff_one_lt_right pos).mpr many) (Nat.not_lt.mpr hle)
      rw [Buffer.memcpy, if_neg past]
      rfl
  · rw [if_neg fun h => corner h.2.1]
    refine copied (if_neg corner) ?_
    rw [Buffer.malloc, List.length_replicate]
    exact (toNat_sizes hin pos hfit).1

end Layout

end MATRIXTOOL

end Gorilla
