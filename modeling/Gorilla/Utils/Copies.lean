import Gorilla.Lib.Loop
import Gorilla.Lib.Overlay
import Gorilla.Utils.SubMatrix

/-!
# The copies of `getSubMatrix`

`getSubMatrix` as the list of its `memcpy` calls. They stay inside the two buffers except
for the copy of the whole matrix, which comes first when the part starts at the last cell.
What that copy leaves in the part is written again by the loops.
-/

namespace Gorilla

namespace Buffer

/-- What a `memcpy` leaves of its destination, whatever it writes past the end. -/
def overwrite (dst : Buffer) (dstOff : Nat) (src : Buffer) (srcOff n : Nat) : Buffer :=
  dst.mapIdx fun i byte =>
    if dstOff ≤ i ∧ i < dstOff + n then (src[srcOff + (i - dstOff)]?).join else byte

@[simp] theorem length_overwrite (dst : Buffer) (dstOff : Nat) (src : Buffer) (srcOff n : Nat) :
    (dst.overwrite dstOff src srcOff n).length = dst.length := by
  simp [overwrite]

/-- A copy inside both buffers leaves what it returns. -/
theorem overwrite_of_memcpy {dst src m : Buffer} {dstOff srcOff n : Nat}
    (h : dst.memcpy dstOff src srcOff n = .ok m) : dst.overwrite dstOff src srcOff n = m := by
  obtain ⟨⟨hd, hs⟩, _⟩ := memcpy_eq_ok.mp h
  refine List.ext_getElem? fun j => ?_
  rw [memcpy_getElem? h, overwrite, List.getElem?_mapIdx]
  by_cases hj : dstOff ≤ j ∧ j < dstOff + n
  · rw [if_pos hj, List.getElem?_eq_getElem (by omega : j < dst.length),
      List.getElem?_eq_getElem (by omega : srcOff + (j - dstOff) < src.length)]
    simp [hj]
  · simp [hj]

end Buffer

namespace MATRIXTOOL

def Copy.overwrite (src m : Buffer) (c : Copy) : Buffer :=
  Buffer.overwrite m c.dstOff src c.srcOff c.bytes

theorem foldl_overwrite_of_run {src m m' : Buffer} {cs : List Copy}
    (h : cs.foldlM (Copy.run src) m = .ok m') : cs.foldl (Copy.overwrite src) m = m' := by
  induction cs generalizing m with
  | nil => exact Except.ok.inj h
  | cons c cs ih =>
    rw [List.foldlM_cons] at h
    obtain ⟨n, hn, h⟩ := bind_eq_ok.mp h
    have : Copy.overwrite src m c = n := Buffer.overwrite_of_memcpy hn
    rw [List.foldl_cons, this]
    exact ih h

theorem length_foldl_overwrite (src m : Buffer) (cs : List Copy) :
    (cs.foldl (Copy.overwrite src) m).length = m.length := by
  induction cs generalizing m with
  | nil => rfl
  | cons c cs ih =>
    rw [List.foldl_cons, ih]
    exact Buffer.length_overwrite _ _ _ _ _

/-- A list of copies runs to its end exactly when each of them fits. -/
theorem foldlM_run_ok_iff {src m : Buffer} (cs : List Copy) :
    (∃ m', cs.foldlM (Copy.run src) m = .ok m') ↔ ∀ c ∈ cs, c.Fits m.length src.length := by
  induction cs generalizing m with
  | nil => exact iff_of_true ⟨m, rfl⟩ (by simp)
  | cons c cs ih =>
    rw [List.foldlM_cons, List.forall_mem_cons]
    constructor
    · rintro ⟨m', h⟩
      obtain ⟨n, hn, h⟩ := bind_eq_ok.mp h
      have rest := ih.mp ⟨m', h⟩
      rw [Buffer.length_memcpy hn] at rest
      exact ⟨(Copy.run_eq_ok.mp hn).1, rest⟩
    · rintro ⟨hc, rest⟩
      have hn := (Copy.run_eq_ok (m := m)).mpr ⟨hc, rfl⟩
      rw [← Buffer.length_memcpy hn] at rest
      obtain ⟨m', h⟩ := ih.mpr rest
      exact ⟨m', bind_eq_ok.mpr ⟨_, hn, h⟩⟩

/-- The copies of the loops. -/
def elementCopies (elemSize : UInt64) (subLb subUb globalUb : Array3 UInt64) : List Copy :=
  (inRange globalUb.z subLb.z subUb.z).flatMap fun z =>
    (inRange globalUb.y subLb.y subUb.y).flatMap fun y =>
      (inRange globalUb.x subLb.x subUb.x).map (copyOf elemSize subLb subUb globalUb z y)

/-- The copy of the whole matrix, made when `subLb` is the upper corner of the whole. -/
def wholeCopies (elemSize : UInt64) (subLb globalUb : Array3 UInt64) : List Copy :=
  let globalLen : Array3 UInt64 := ⟨globalUb.x + 1, globalUb.y + 1, globalUb.z + 1⟩
  let globalelemNum := globalLen.x * globalLen.y * globalLen.z
  if subLb = globalUb then [⟨0, 0, (elemSize * globalelemNum).toNat⟩] else []

/-- Every `memcpy` of `getSubMatrix` on a part it lets through, in order. -/
def copies (elemSize : UInt64) (subLb subUb globalUb : Array3 UInt64) : List Copy :=
  wholeCopies elemSize subLb globalUb ++ elementCopies elemSize subLb subUb globalUb

/-- The buffer of the part, as it is allocated. -/
def subMrxOf (elemSize : UInt64) (subLb subUb : Array3 UInt64) : Buffer :=
  let subLen := extents subLb subUb
  .malloc (elemSize * (subLen.x * subLen.y * subLen.z))

/-- The `memcpy` calls of `getSubMatrix`, behind its two argument checks. -/
def getSubMatrixCopies (elemSize : UInt64) (subLb subUb gloablUb : Array3 UInt64) :
    Except Stop (List Copy) := do
  if subUb.z < subLb.z ∨ subUb.y < subLb.y ∨ subUb.x < subLb.x then
    throw (.runtime_error "invalid subdomain bounding box")
  if gloablUb.z < subUb.z ∨ gloablUb.y < subUb.y ∨ gloablUb.x < subUb.x then
    throw (.runtime_error "subdomain should in the bounding box of the global domain")
  return copies elemSize subLb subUb gloablUb

/-- What is left in the returned buffer: bytes written past its end are not looked at. -/
def getSubMatrixContents (elemSize : UInt64) (subLb subUb gloablUb : Array3 UInt64)
    (globalMatrix : Buffer) : Except Stop Buffer := do
  let cs ← getSubMatrixCopies elemSize subLb subUb gloablUb
  return cs.foldl (Copy.overwrite globalMatrix) (subMrxOf elemSize subLb subUb)

section Layout
variable {e : UInt64} {subLb subUb globalUb : Array3 UInt64} {src : Buffer}

theorem getSubMatrixCopies_inside (hin : Inside subLb subUb globalUb) :
    getSubMatrixCopies e subLb subUb globalUb = .ok (copies e subLb subUb globalUb) := by
  obtain ⟨lower, upper⟩ := inside_iff_checks.mp hin
  unfold getSubMatrixCopies
  rw [if_neg lower, if_neg upper]
  rfl

theorem getSubMatrixCopies_thrown (h : ¬ Inside subLb subUb globalUb) :
    ∃ what, getSubMatrixCopies e subLb subUb globalUb = .error (.runtime_error what) := by
  rw [inside_iff_checks, not_and_or, not_not, not_not] at h
  unfold getSubMatrixCopies
  by_cases lower : subUb.z < subLb.z ∨ subUb.y < subLb.y ∨ subUb.x < subLb.x
  · rw [if_pos lower]
    exact ⟨_, rfl⟩
  · rw [if_neg lower, if_pos (h.resolve_left lower)]
    exact ⟨_, rfl⟩

theorem copyElements_eq_copies (m : Buffer) : copyElements e subLb subUb globalUb src m =
    (elementCopies e subLb subUb globalUb).foldlM (Copy.run src) m := by
  simp only [elementCopies, Loop.foldlM_flatMap, List.foldlM_map]
  rfl

theorem startOf_eq_copies : startOf e subLb subUb globalUb src =
    (wholeCopies e subLb globalUb).foldlM (Copy.run src) (subMrxOf e subLb subUb) := by
  unfold startOf wholeCopies
  by_cases corner : subLb = globalUb
  · rw [if_pos corner, if_pos corner, List.foldlM_cons]
    exact (bind_pure _).symm
  · rw [if_neg corner, if_neg corner]
    rfl

/-- A part that is let through is what its copies make of the new buffer. -/
theorem getSubMatrix_eq_copies (hin : Inside subLb subUb globalUb) :
    getSubMatrix e subLb subUb globalUb src =
      (copies e subLb subUb globalUb).foldlM (Copy.run src) (subMrxOf e subLb subUb) := by
  rw [getSubMatrix_eq hin, copies, List.foldlM_append, startOf_eq_copies]
  congr 1
  funext m
  exact copyElements_eq_copies m

theorem length_subMrxOf (hin : Inside subLb subUb globalUb) (he : 0 < e.toNat)
    (hfit : e.toNat * cellCount globalUb < 2 ^ 64) :
    (subMrxOf e subLb subUb).length = e.toNat * subCount subLb subUb := by
  unfold subMrxOf Buffer.malloc
  rw [List.length_replicate]
  exact (toNat_sizes hin he hfit).1

/-- Where `getSubMatrix` returns, its result is these contents. -/
theorem getSubMatrixContents_eq {m : Buffer} (h : getSubMatrix e subLb subUb globalUb src = .ok m) :
    getSubMatrixContents e subLb subUb globalUb src = .ok m := by
  by_cases hin : Inside subLb subUb globalUb
  · rw [getSubMatrix_eq_copies hin] at h
    unfold getSubMatrixContents
    rw [getSubMatrixCopies_inside hin]
    exact congrArg Except.ok (foldl_overwrite_of_run h)
  · obtain ⟨what, thrown⟩ := getSubMatrix_thrown (e := e) hin src
    rw [thrown] at h
    cases h

theorem mem_elementCopies {c : Copy} : c ∈ elementCopies e subLb subUb globalUb ↔
    ∃ z ∈ inRange globalUb.z subLb.z subUb.z, ∃ y ∈ inRange globalUb.y subLb.y subUb.y,
      ∃ x ∈ inRange globalUb.x subLb.x subUb.x, copyOf e subLb subUb globalUb z y x = c := by
  simp only [elementCopies, List.mem_flatMap, List.mem_map]

/-- What the copy of an element puts into the cells of the part. -/
def Copy.layer (e : Nat) (src : Buffer) (c : Copy) (i : Nat) : Option Buffer :=
  if i * e = c.dstOff then some ((src.drop c.srcOff).take e) else none

/-- The copy of an element lays its bytes over one cell of the part. -/
theorem copyOf_lays (hin : Inside subLb subUb globalUb) (he : 0 < e.toNat)
    (hfit : e.toNat * cellCount globalUb < 2 ^ 64) {c : Copy}
    (hc : c ∈ elementCopies e subLb subUb globalUb) {m m' : Buffer} (h : c.run src m = .ok m')
    (i : Nat) : cellBytes e.toNat m' i =
      Overlay.lay (cellBytes e.toNat m) (c.layer e.toNat src) i := by
  obtain ⟨z, hz, y, hy, x, hx, rfl⟩ := mem_elementCopies.mp hc
  obtain ⟨_, _, eq⟩ :=
    copyOf_eq hin he hfit (mem_inRange hx).2 (mem_inRange hy).2 (mem_inRange hz).2
  rw [eq] at h ⊢
  have cells := @Buffer.memcpy_cells m src m' e.toNat _ _ 1 (by rwa [Nat.mul_one]) i
  rw [cells, Overlay.lay, Copy.layer]
  by_cases here : i = cellIndex (extents subLb subUb).x.toNat (extents subLb subUb).y.toNat
      (x.toNat - subLb.x.toNat) (y.toNat - subLb.y.toNat) (z.toNat - subLb.z.toNat)
  · rw [if_pos (by omega), if_pos (by rw [here]), Option.getD_some, here, Nat.sub_self]
    rfl
  · rw [if_neg (by omega), if_neg fun h => here (Nat.eq_of_mul_eq_mul_right he h),
      Option.getD_none]

/-- Two elements of the sub-box with the same place in the part are the same. -/
theorem place_inj (hin : Inside subLb subUb globalUb) (he : 0 < e.toNat)
    (hfit : e.toNat * cellCount globalUb < 2 ^ 64) {x y z x' y' z' : UInt64}
    (hx : subLb.x ≤ x ∧ x ≤ subUb.x) (hy : subLb.y ≤ y ∧ y ≤ subUb.y)
    (hz : subLb.z ≤ z ∧ z ≤ subUb.z) (hx' : subLb.x ≤ x' ∧ x' ≤ subUb.x)
    (hy' : subLb.y ≤ y' ∧ y' ≤ subUb.y) (hz' : subLb.z ≤ z' ∧ z' ≤ subUb.z)
    (same : cellIndex (extents subLb subUb).x.toNat (extents subLb subUb).y.toNat
        (x.toNat - subLb.x.toNat) (y.toNat - subLb.y.toNat) (z.toNat - subLb.z.toNat) =
      cellIndex (extents subLb subUb).x.toNat (extents subLb subUb).y.toNat
        (x'.toNat - subLb.x.toNat) (y'.toNat - subLb.y.toNat) (z'.toNat - subLb.z.toNat)) :
    x.toNat = x'.toNat ∧ y.toNat = y'.toNat ∧ z.toNat = z'.toNat := by
  obtain ⟨_, gx, gy, gz⟩ := axes_lt he hfit
  obtain ⟨inx, iny, inz⟩ := hin
  have digits := cellIndex_inj (toNat_offset inx gx hx).2.1 (toNat_offset inx gx hx').2.1
    (toNat_offset iny gy hy).2.1 (toNat_offset iny gy hy').2.1 same
  have axis : ∀ {lb i j : UInt64}, lb ≤ i → lb ≤ j →
      i.toNat - lb.toNat = j.toNat - lb.toNat → i.toNat = j.toNat := by
    intro lb i j hi hj h
    rw [UInt64.le_iff_toNat_le] at hi hj
    omega
  exact ⟨axis hx.1 hx'.1 digits.1, axis hy.1 hy'.1 digits.2.1, axis hz.1 hz'.1 digits.2.2⟩

/-- The loops put each element of the sub-box into its place, whatever was there. -/
theorem copyElements_cells (hin : Inside subLb subUb globalUb) (he : 0 < e.toNat)
    (hfit : e.toNat * cellCount globalUb < 2 ^ 64) {m m' : Buffer}
    (h : (elementCopies e subLb subUb globalUb).foldlM (Copy.run src) m = .ok m')
    {x y z : UInt64} (hx : subLb.x ≤ x ∧ x ≤ subUb.x) (hy : subLb.y ≤ y ∧ y ≤ subUb.y)
    (hz : subLb.z ≤ z ∧ z ≤ subUb.z) :
    cellBytes e.toNat m' (cellIndex (extents subLb subUb).x.toNat (extents subLb subUb).y.toNat
      (x.toNat - subLb.x.toNat) (y.toNat - subLb.y.toNat) (z.toNat - subLb.z.toNat)) =
    cellBytes e.toNat src
      (cellIndex (globalUb.x.toNat + 1) (globalUb.y.toNat + 1) x.toNat y.toNat z.toNat) := by
  have layered := @Overlay.foldlM_lay Nat Buffer Buffer Copy Stop (cellBytes e.toNat)
    (fun _ => True) _ (Copy.layer e.toNat src) _
    (fun c hc _ _ run i _ => copyOf_lays hin he hfit hc run i) m m' h
  rw [layered _ trivial]
  refine Overlay.layAll_eq ?_ ?_
  · rintro _ hw v hv
    obtain ⟨c, hc, rfl⟩ := List.mem_map.mp hw
    obtain ⟨z', hz', y', hy', x', hx', rfl⟩ := mem_elementCopies.mp hc
    have px' := (mem_inRange hx').2
    have py' := (mem_inRange hy').2
    have pz' := (mem_inRange hz').2
    obtain ⟨_, _, eq⟩ := copyOf_eq hin he hfit px' py' pz'
    rw [eq, Copy.layer] at hv
    split at hv
    swap
    · cases hv
    rename_i same
    obtain ⟨sx, sy, sz⟩ := place_inj hin he hfit hx hy hz px' py' pz'
      (Nat.eq_of_mul_eq_mul_right he same)
    rw [sx, sy, sz]
    exact (Option.some.inj hv).symm
  · have mz := mem_inRange_of_le hz hin.2.2.2
    have my := mem_inRange_of_le hy hin.2.1.2
    have mx := mem_inRange_of_le hx hin.1.2
    obtain ⟨_, _, eq⟩ := copyOf_eq hin he hfit hx hy hz
    refine ⟨_, List.mem_map_of_mem (mem_elementCopies.mpr ⟨z, mz, y, my, x, mx, rfl⟩), ?_⟩
    rw [eq, Copy.layer, if_pos rfl]
    exact Option.some_ne_none _

/-- The part that is returned holds the elements of the sub-box. -/
theorem getSubMatrixContents_cells (hin : Inside subLb subUb globalUb)
    (hsrc : src.length = e.toNat * cellCount globalUb) (memory : src.length < 2 ^ 64) :
    ∃ m, getSubMatrixContents e subLb subUb globalUb src = .ok m ∧
      m.length = e.toNat * subCount subLb subUb ∧
      ∀ x y z : UInt64, subLb.x ≤ x ∧ x ≤ subUb.x → subLb.y ≤ y ∧ y ≤ subUb.y →
        subLb.z ≤ z ∧ z ≤ subUb.z →
        cellBytes e.toNat m (cellIndex (extents subLb subUb).x.toNat (extents subLb subUb).y.toNat
          (x.toNat - subLb.x.toNat) (y.toNat - subLb.y.toNat) (z.toNat - subLb.z.toNat)) =
        cellBytes e.toNat src
          (cellIndex (globalUb.x.toNat + 1) (globalUb.y.toNat + 1) x.toNat y.toNat z.toNat) := by
  have hfit := hsrc ▸ memory
  have contents : getSubMatrixContents e subLb subUb globalUb src =
      .ok ((copies e subLb subUb globalUb).foldl (Copy.overwrite src)
        (subMrxOf e subLb subUb)) := by
    unfold getSubMatrixContents
    rw [getSubMatrixCopies_inside hin]
    rfl
  refine ⟨_, contents, ?_⟩
  rw [copies, List.foldl_append]
  generalize hm : (wholeCopies e subLb globalUb).foldl (Copy.overwrite src)
    (subMrxOf e subLb subUb) = m
  have hlen : m.length = (subMrxOf e subLb subUb).length := by
    rw [← hm]
    exact length_foldl_overwrite ..
  by_cases he : e = 0
  · subst he
    rw [length_foldl_overwrite, hlen]
    exact ⟨by simp [subMrxOf, Buffer.malloc], fun _ _ _ _ _ _ => by simp [cellBytes]⟩
  have pos : 0 < e.toNat := Nat.pos_of_ne_zero fun h => he (UInt64.toNat_inj.mp h)
  rw [length_subMrxOf hin pos hfit] at hlen
  obtain ⟨m', run, hm'⟩ := copyElements_ok hin hfit hsrc hlen
  rw [copyElements_eq_copies] at run
  rw [foldl_overwrite_of_run run]
  exact ⟨hm', fun x y z hx hy hz => copyElements_cells hin pos hfit run hx hy hz⟩

/-- The ranges stay inside a source that holds the whole matrix, and inside the part, exactly
when the part does not start at the last of several cells. -/
theorem copies_fit_iff (he : e ≠ 0) (hin : Inside subLb subUb globalUb)
    (hsrc : src.length = e.toNat * cellCount globalUb) (memory : src.length < 2 ^ 64) :
    (∀ c ∈ copies e subLb subUb globalUb,
        c.Fits (e.toNat * subCount subLb subUb) src.length) ↔
      ¬ (subLb = globalUb ∧ cellCount globalUb ≠ 1) := by
  have pos : 0 < e.toNat := Nat.pos_of_ne_zero fun h => he (UInt64.toNat_inj.mp h)
  have hfit := hsrc ▸ memory
  have part := length_subMrxOf hin pos hfit
  have run := @foldlM_run_ok_iff src (subMrxOf e subLb subUb) (copies e subLb subUb globalUb)
  rw [← getSubMatrix_eq_copies hin, part] at run
  rw [← run]
  have copied := getSubMatrix_inside hin hfit hsrc
  split at copied
  · rename_i outside
    rw [copied]
    exact iff_of_false nofun fun h => h outside.2
  · rename_i inside
    obtain ⟨m, hm, _⟩ := copied
    exact iff_of_true ⟨m, hm⟩ fun h => inside ⟨he, h⟩

end Layout

theorem column_fits : Inside ⟨1, 0, 0⟩ ⟨1, 1, 0⟩ ⟨1, 1, 0⟩ ∧
    ∀ c ∈ copies 8 ⟨1, 0, 0⟩ ⟨1, 1, 0⟩ ⟨1, 1, 0⟩,
      c.Fits (8 * subCount ⟨1, 0, 0⟩ ⟨1, 1, 0⟩) (Buffer.malloc 32).length :=
  ⟨by decide,
    (copies_fit_iff (e := 8) (by decide) (by decide) (by decide) (by decide)).mpr (by decide)⟩

/-- The last cell of four: all four are copied into its place. -/
theorem lastCell_overflows : Inside ⟨1, 1, 0⟩ ⟨1, 1, 0⟩ ⟨1, 1, 0⟩ ∧
    (Buffer.malloc 32).length = 8 * cellCount ⟨1, 1, 0⟩ ∧
    ¬ ∀ c ∈ copies 8 ⟨1, 1, 0⟩ ⟨1, 1, 0⟩ ⟨1, 1, 0⟩,
      c.Fits (8 * subCount ⟨1, 1, 0⟩ ⟨1, 1, 0⟩) (Buffer.malloc 32).length := by
  decide

end MATRIXTOOL

end Gorilla
