import Gorilla.Utils.BBXTool

/-!
# Matrices in memory

A buffer is a list of bytes, `none` where nothing was written yet. Copies that leave
a buffer are undefined behaviour.
-/

namespace Gorilla

abbrev Buffer : Type := List (Option UInt8)

/-- The bytes of one cell of a buffer of `e`-byte cells. -/
def cellBytes (e : Nat) (m : Buffer) (i : Nat) : Buffer := (m.drop (i * e)).take e

theorem cellBytes_getElem? (e : Nat) (m : Buffer) (i k : Nat) :
    (cellBytes e m i)[k]? = if k < e then m[i * e + k]? else none := by
  rw [cellBytes, List.getElem?_take, List.getElem?_drop]

namespace Buffer

/-- `malloc(n)`: the contents are not initialised. -/
def malloc (n : UInt64) : Buffer := List.replicate n.toNat none

/-- `memcpy(dst + dstOff, src + srcOff, n)` -/
def memcpy (dst : Buffer) (dstOff : Nat) (src : Buffer) (srcOff n : Nat) : Except Stop Buffer :=
  if dstOff + n ≤ dst.length ∧ srcOff + n ≤ src.length then
    .ok (dst.take dstOff ++ (src.drop srcOff).take n ++ dst.drop (dstOff + n))
  else
    .error (.undefined "memcpy outside a buffer")

theorem memcpy_eq_ok {dst src m : Buffer} {dstOff srcOff n : Nat} :
    dst.memcpy dstOff src srcOff n = .ok m ↔
      (dstOff + n ≤ dst.length ∧ srcOff + n ≤ src.length) ∧
        m = dst.take dstOff ++ (src.drop srcOff).take n ++ dst.drop (dstOff + n) := by
  unfold memcpy
  split <;> simp_all [eq_comm]

@[simp] theorem not_raises_memcpy (dst src : Buffer) (dstOff srcOff n : Nat) :
    ¬ Raises (dst.memcpy dstOff src srcOff n) := by
  unfold Buffer.memcpy
  split <;> simp [Raises]

theorem length_memcpy {dst src m : Buffer} {dstOff srcOff n : Nat}
    (h : dst.memcpy dstOff src srcOff n = .ok m) : m.length = dst.length := by
  obtain ⟨⟨_, _⟩, rfl⟩ := memcpy_eq_ok.mp h
  simp only [List.length_append, List.length_take, List.length_drop]
  omega

/-- A fresh allocation filled from the start of a buffer. -/
theorem copy_eq_ok {n : UInt64} {k : Nat} {src m : Buffer} (hk : n.toNat = k) :
    (malloc n).memcpy 0 src 0 k = .ok m ↔ k ≤ src.length ∧ m = src.take k := by
  rw [memcpy_eq_ok, malloc, List.length_replicate, hk]
  simp

theorem memcpy_getElem? {dst src m : Buffer} {dstOff srcOff n : Nat}
    (h : dst.memcpy dstOff src srcOff n = .ok m) (j : Nat) :
    m[j]? = if dstOff ≤ j ∧ j < dstOff + n then src[srcOff + (j - dstOff)]? else dst[j]? := by
  obtain ⟨⟨hd, hs⟩, rfl⟩ := memcpy_eq_ok.mp h
  have htake : (dst.take dstOff).length = dstOff := by
    rw [List.length_take]
    omega
  have hmid : ((src.drop srcOff).take n).length = n := by
    rw [List.length_take, List.length_drop]
    omega
  by_cases h1 : j < dstOff
  · rw [List.append_assoc, List.getElem?_append_left (by omega), List.getElem?_take,
      if_pos h1, if_neg (by omega)]
  · by_cases h2 : j < dstOff + n
    · rw [if_pos ⟨by omega, h2⟩, List.append_assoc, List.getElem?_append_right (by omega), htake,
        List.getElem?_append_left (by omega), List.getElem?_take, if_pos (by omega),
        List.getElem?_drop]
    · rw [if_neg (by omega), List.getElem?_append_right (by simp [htake, hmid]; omega),
        List.getElem?_drop, List.length_append, htake, hmid]
      congr 1
      omega

/-- A copy of whole cells replaces exactly the cells it covers. -/
theorem memcpy_cells {dst src m : Buffer} {e g s len : Nat}
    (h : dst.memcpy (g * e) src (s * e) (e * len) = .ok m) (i : Nat) :
    cellBytes e m i =
      if g ≤ i ∧ i < g + len then cellBytes e src (s + (i - g)) else cellBytes e dst i := by
  have lower : ∀ k, k < e → (g * e ≤ i * e + k ↔ g ≤ i) := by
    intro k hk
    constructor
    · intro hle
      by_contra hlt
      have : (i + 1) * e ≤ g * e := Nat.mul_le_mul_right e (by omega)
      rw [Nat.add_mul] at this
      omega
    · intro hle
      have : g * e ≤ i * e := Nat.mul_le_mul_right e hle
      omega
  have upper : ∀ k, k < e → (i * e + k < g * e + e * len ↔ i < g + len) := by
    intro k hk
    have hd : g * e + e * len = (g + len) * e := by rw [Nat.add_mul, Nat.mul_comm e]
    rw [hd]
    constructor
    · intro hlt
      by_contra hge
      have : (g + len) * e ≤ i * e := Nat.mul_le_mul_right e (by omega)
      omega
    · intro hlt
      have : (i + 1) * e ≤ (g + len) * e := Nat.mul_le_mul_right e (by omega)
      rw [Nat.add_mul] at this
      omega
  refine List.ext_getElem? fun k => ?_
  rw [cellBytes_getElem?]
  by_cases hk : k < e
  · rw [if_pos hk, memcpy_getElem? h]
    by_cases hc : g ≤ i ∧ i < g + len
    · rw [if_pos ⟨(lower k hk).mpr hc.1, (upper k hk).mpr hc.2⟩, if_pos hc, cellBytes_getElem?,
        if_pos hk]
      congr 1
      have : (s + (i - g)) * e = s * e + (i * e - g * e) := by rw [Nat.add_mul, Nat.sub_mul]
      have := Nat.mul_le_mul_right e hc.1
      omega
    · rw [if_neg, if_neg hc, cellBytes_getElem?, if_pos hk]
      rwa [lower k hk, upper k hk]
  · rw [if_neg hk]
    split <;> rw [cellBytes_getElem?, if_neg hk]

end Buffer

/-- The values at which a loop from `lb` up to `ub` runs its body. -/
def intRange (lb ub : Int) : List Int :=
  (List.range (ub + 1 - lb).toNat).map fun (k : Nat) => lb + k

/-- One pass of a loop over an `int`, with the `i++` behind it. -/
def intPass {M : Type} (body : M → Int → Except Stop M) (m : M) (i : Int) : Except Stop M := do
  let m ← body m i
  let _ ← int (i + 1)
  return m

/-- `for (int i = lb; i <= ub; i++)` -/
def forInt {M : Type} (lb ub : Int) (body : M → Int → Except Stop M) (m : M) : Except Stop M :=
  (intRange lb ub).foldlM (intPass body) m

structure MatrixView where
  m_bbx : BBX
  m_data : Buffer
  deriving DecidableEq, Repr

namespace MATRIXTOOL

/-- One element of the sub-matrix, copied from its place in the whole. -/
def copyElement (elemSize : UInt64) (subLb subLen globalLen : Array3 UInt64)
    (globalMatrix subMrx : Buffer) (z y x : UInt64) : Except Stop Buffer :=
  let globalIndex := z * globalLen.y * globalLen.x + y * globalLen.x + x
  let subIndex := (z - subLb.z) * subLen.y * subLen.x + (y - subLb.y) * subLen.x + x - subLb.x
  subMrx.memcpy (subIndex * elemSize).toNat globalMatrix (globalIndex * elemSize).toNat
    elemSize.toNat

/-- The values of a `size_t` loop variable up to `globalUb` that pass the range check. -/
def inRange (globalUb lb ub : UInt64) : List UInt64 :=
  ((List.range (globalUb.toNat + 1)).map UInt64.ofNat).filter fun i => lb ≤ i ∧ i ≤ ub

def getSubMatrix (elemSize : UInt64) (subLb subUb gloablUb : Array3 UInt64)
    (globalMatrix : Buffer) : Except Stop Buffer := do
  if subUb.z < subLb.z ∨ subUb.y < subLb.y ∨ subUb.x < subLb.x then
    throw (.runtime_error "invalid subdomain bounding box")
  if gloablUb.z < subUb.z ∨ gloablUb.y < subUb.y ∨ gloablUb.x < subUb.x then
    throw (.runtime_error "subdomain should in the bounding box of the global domain")
  let subLen : Array3 UInt64 :=
    ⟨subUb.x - subLb.x + 1, subUb.y - subLb.y + 1, subUb.z - subLb.z + 1⟩
  let globalLen : Array3 UInt64 := ⟨gloablUb.x + 1, gloablUb.y + 1, gloablUb.z + 1⟩
  let subelemNum := subLen.x * subLen.y * subLen.z
  let globalelemNum := globalLen.x * globalLen.y * globalLen.z
  let subMrx := Buffer.malloc (elemSize * subelemNum)
  -- the shortcut compares the lower corner of the part with the upper corner of the whole
  let subMrx ←
    if subLb = gloablUb then
      subMrx.memcpy 0 globalMatrix 0 (elemSize * globalelemNum).toNat
    else pure subMrx
  (inRange gloablUb.z subLb.z subUb.z).foldlM (fun m z =>
    (inRange gloablUb.y subLb.y subUb.y).foldlM (fun m y =>
      (inRange gloablUb.x subLb.x subUb.x).foldlM (fun m x =>
        copyElement elemSize subLb subLen globalLen globalMatrix m z y x) m) m) subMrx

/-- One continuous line of a view, copied to its place in the whole box. -/
def copyRow (elemSize : UInt64) (mv : MatrixView) (intactBBX : BBX) (m_data : Buffer) (z y : Int) :
    Except Stop Buffer := do
  let xlb := mv.m_bbx.getIndexlb.x
  let xub := mv.m_bbx.getIndexub.x
  let dim := mv.m_bbx.m_dims
  let subIndex ← mv.m_bbx.getPhysicalIndex dim ⟨xlb, y, z⟩
  let globalIndex ← intactBBX.getPhysicalIndex dim ⟨xlb, y, z⟩
  let len ← int ((← int (xub - xlb)) + 1)
  m_data.memcpy (globalIndex * elemSize).toNat mv.m_data (subIndex * elemSize).toNat
    (elemSize * size_t len).toNat

def copyView (elemSize : UInt64) (intactBBX : BBX) (m_data : Buffer) (mv : MatrixView) :
    Except Stop Buffer :=
  forInt mv.m_bbx.getIndexlb.z mv.m_bbx.getIndexub.z (fun m z =>
    forInt mv.m_bbx.getIndexlb.y mv.m_bbx.getIndexub.y (fun m y =>
      copyRow elemSize mv intactBBX m z y) m) m_data

/-- The views copied one after another into a buffer that is not cleared. -/
def matrixAssemble (elemSize : UInt64) (matrixViewList : List MatrixView) (intactBBX : BBX) :
    Except Stop MatrixView := do
  let intactElemNum ← intactBBX.getElemNum
  let intactDataPtr := Buffer.malloc (elemSize * intactElemNum)
  let m_data ← matrixViewList.foldlM (copyView elemSize intactBBX) intactDataPtr
  return ⟨intactBBX, m_data⟩

end MATRIXTOOL

end Gorilla
