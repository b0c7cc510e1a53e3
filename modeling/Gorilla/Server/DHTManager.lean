import Gorilla.Utils.BBXTool

/-!
# The DHT manager

The domain is cut into equal ceil-sized spans along each axis; partition `id` is
served by the metadata server of that rank.
-/

namespace Gorilla

structure ResponsibleMetaServer where
  m_metaServerID : Int
  m_bbx : BBX
  deriving DecidableEq, Repr

structure DHTManager where
  metaServerIDToBBX : AList fun _ : Int => BBX := ∅
  metaServerIDToAddr : AList fun _ : Int => String := ∅

/-- The least integer not below `len / parts`. -/
def ceilDiv (len parts : Int) : Int := -Int.fdiv (-len) parts

/-- `(int)std::ceil(len * 1.0 / parts)`. The double quotient of two ints never rounds onto
or across an integer, so its ceiling is the exact one. -/
def ceilSpan (len parts : Int) : Except Stop Int :=
  if parts = 0 then .error (.undefined "conversion of an infinite double to int")
  else int (ceilDiv len parts)

def axisBound (c span len : Int) : Except Stop Bound := do
  let lb ← int (c * span)
  let next ← int ((← int (c + 1)) * span)
  return ⟨lb, min (← int (next - 1)) (← int (len - 1))⟩

def axisBounds : List Int → List Int → List Int → Except Stop (List Bound)
  | c :: cs, span :: spans, len :: lens => do
    let b ← axisBound c span len
    return b :: (← axisBounds cs spans lens)
  | _, _, _ => return []

/-- The loop variables `x`, `y`, `z` of the three nested loops, in order. -/
def partitionIndices (partitionLayout3d : Array3 Int) : List (Array3 Int) :=
  (List.range partitionLayout3d.z.toNat).flatMap fun (z : Nat) =>
    (List.range partitionLayout3d.y.toNat).flatMap fun (y : Nat) =>
      (List.range partitionLayout3d.x.toNat).map fun (x : Nat) => ⟨x, y, z⟩

def ceilSpans : List Int → List Int → Except Stop (List Int)
  | len :: lens, parts :: layout => do
    let span ← ceilSpan len parts
    return span :: (← ceilSpans lens layout)
  | _, _ => return []

/-- The body of the loops: the id of a partition and its box. -/
def partitionEntry (lenArray spans : List Int) (partitionLayout3d c : Array3 Int) :
    Except Stop (Int × BBX) := do
  let partitionID ← BBX.rowMajor c partitionLayout3d
  return (partitionID, ⟨0, ← axisBounds c.toList spans lenArray⟩)

namespace DHTManager

def initDHTManually (lenArray partitionLayout : List Int) (m : DHTManager) :
    Except Stop DHTManager := do
  if lenArray.length ≠ partitionLayout.length then
    throw (.runtime_error
      "the dimention of the lenArray should match with the partitionLayout")
  let spans ← ceilSpans lenArray partitionLayout
  if DEFAULT_MAX_DIM < partitionLayout.length then
    throw (.undefined "write past the end of partitionLayout3d")
  let partitionLayout3d := Array3.ofList 1 partitionLayout
  let map ← (partitionIndices partitionLayout3d).foldlM (fun map c => do
    let e ← partitionEntry lenArray spans partitionLayout3d c
    return map.insert e.1 e.2) m.metaServerIDToBBX
  return { m with metaServerIDToBBX := map }

def responsible (BBXQuery : BBX) :
    List (Σ _ : Int, BBX) → Except Stop (List ResponsibleMetaServer)
  | [] => return []
  | it :: rest => do
    match ← getOverlapBBX BBXQuery it.2 with
    | none => responsible BBXQuery rest
    | some overlapBBX => return ⟨it.1, overlapBBX⟩ :: (← responsible BBXQuery rest)

/-- The partitions that overlap the query, in the order of their ids. -/
def getMetaServerID (m : DHTManager) (BBXQuery : BBX) :
    Except Stop (List ResponsibleMetaServer) :=
  responsible BBXQuery (sortedEntries m.metaServerIDToBBX)

end DHTManager

end Gorilla
