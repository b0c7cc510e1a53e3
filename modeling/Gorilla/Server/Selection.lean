import Gorilla.BlockManager.Calls
import Gorilla.Lib.Separated
import Gorilla.Lib.Traverse
import Gorilla.Server.RawData

/-!
# The blocks an aggregation asks for

Clients join the variable, the step and the numbers of a block with `_`. A request for a
variable and a step is answered with every block whose id contains the two.
-/

namespace Gorilla

open HandLock Handler Traverse

namespace UniServer

variable {s : UniServer} {varSuffix : String}

theorem mem_matching {summary : BlockSummary} :
    summary ∈ s.matching varSuffix ↔ ∃ id block, s.m_blockManager.block id = some block ∧
      varSuffix.toList <:+: id.toList ∧ block.m_blockSummary = summary := by
  simp only [matching, List.mem_map, List.mem_filter, mem_sortedEntries, decide_eq_true_eq]
  constructor
  · rintro ⟨⟨id, block⟩, ⟨stored, occurs⟩, rfl⟩
    exact ⟨id, block, stored, occurs, rfl⟩
  · rintro ⟨id, block, stored, occurs, rfl⟩
    exact ⟨⟨id, block⟩, ⟨stored, occurs⟩, rfl⟩

/-- Nothing is waited for when the arrays are there. -/
theorem awaitArrays_full {summary : BlockSummary} (h : summary.m_arrayListLen = 3) :
    s.awaitArrays summary = .ok summary := if_pos h

theorem full_of_awaitArrays {summary found : BlockSummary}
    (h : s.awaitArrays summary = .ok found) : found.m_arrayListLen = 3 := by
  unfold awaitArrays at h
  split at h
  · rename_i full
    cases h
    exact full
  · split at h
    · cases h
    · split at h
      · rename_i full
        cases h
        exact full
      · cases h

/-- The request is answered when every summary it awaits is full. -/
theorem summaries_eq_ok {list : List BlockSummary} :
    callRemote (getBlockSummayBySuffix varSuffix) s = .ok list ↔
      List.Forall₂ (fun summary found => s.awaitArrays summary = .ok found)
        (s.matching varSuffix) list := by
  rw [← mapM_eq_ok]
  have sent : (getBlockSummayBySuffix varSuffix).replies s =
      match (s.matching varSuffix).mapM s.awaitArrays with
      | .ok found => [found]
      | .error _ => [] := by
    unfold replies getBlockSummayBySuffix
    rw [bind_ok (show getServer ⟨s, []⟩ = .ok s (⟨s, []⟩ : Call (List BlockSummary)) from rfl)]
    cases h : (s.matching varSuffix).mapM s.awaitArrays with
    | ok found => rw [bind_ok (lift_ok rfl)]; rfl
    | error e => rw [bind_error (lift_error rfl)]; rfl
  rw [callRemote, sent]
  cases (s.matching varSuffix).mapM s.awaitArrays with
  | ok found => simp
  | error e => simp

end UniServer

/-- What the clients make a block id of. -/
structure BlockName where
  varName : String
  step : Nat
  rank : Nat
  index : Option Nat := none
  deriving DecidableEq

namespace BlockName

/-- `varName + "_" + std::to_string(step)` -/
def suffix (varName : String) (step : Nat) : String := varName ++ "_" ++ toString step

def blockID (n : BlockName) : String :=
  match n.index with
  | none => suffix n.varName n.step ++ "_" ++ toString n.rank
  | some index => suffix n.varName n.step ++ "_" ++ toString n.rank ++ "_" ++ toString index

def Of (n : BlockName) (varName : String) (step : Nat) : Prop :=
  n.varName = varName ∧ n.step = step

instance (n : BlockName) (varName : String) (step : Nat) : Decidable (n.Of varName step) :=
  inferInstanceAs (Decidable (_ ∧ _))

def digits (n : Nat) : List Char := (toString n).toList

/-- A name that ends in the variable is followed by a number that begins with the step, or
the name of the block contains both. -/
def Clashes (n : BlockName) (varName : String) (step : Nat) : Prop :=
  (suffix varName step).toList <:+: n.varName.toList ∨
  (varName.toList <:+ n.varName.toList ∧ digits step <+: digits n.step) ∨
  (varName.toList <:+ (suffix n.varName n.step).toList ∧ digits step <+: digits n.rank) ∨
  ∃ index, n.index = some index ∧
    varName.toList <:+ (suffix n.varName n.step ++ "_" ++ toString n.rank).toList ∧
    digits step <+: digits index

theorem not_mem_digits (n : Nat) : '_' ∉ digits n := by
  rw [digits, Nat.toString_eq_ofList_toDigits, String.toList_ofList]
  exact Nat.underscore_not_in_toDigits

theorem toList_joined (left : String) (n : Nat) :
    (left ++ "_" ++ toString n).toList = left.toList ++ '_' :: digits n := by
  simp [digits]

/-- Where the variable and the step can occur in an id, piece by piece. -/
theorem occurs_iff (n : BlockName) (varName : String) (step : Nat) :
    (suffix varName step).toList <:+: n.blockID.toList ↔ n.Clashes varName step := by
  have joined : ∀ left number, (suffix varName step).toList <:+:
      (left ++ "_" ++ toString number).toList ↔ (suffix varName step).toList <:+: left.toList ∨
        (varName.toList <:+ left.toList ∧ digits step <+: digits number) := by
    intro left number
    rw [suffix, toList_joined, toList_joined]
    exact Separated.infix_joined (not_mem_digits step) (not_mem_digits number)
  have ranked : (suffix varName step).toList <:+:
      (suffix n.varName n.step ++ "_" ++ toString n.rank).toList ↔
        ((suffix varName step).toList <:+: n.varName.toList ∨
          (varName.toList <:+ n.varName.toList ∧ digits step <+: digits n.step)) ∨
        (varName.toList <:+ (suffix n.varName n.step).toList ∧ digits step <+: digits n.rank) :=
    (joined _ _).trans (or_congr_left (joined n.varName n.step))
  unfold blockID Clashes
  cases n.index with
  | none => simp only [ranked, reduceCtorEq, false_and, exists_false, or_false, or_assoc]
  | some index =>
    refine ((joined _ index).trans (or_congr_left ranked)).trans ?_
    simp only [Option.some.injEq, exists_eq_left', or_assoc]

theorem Of.clashes {n : BlockName} {varName : String} {step : Nat} (h : n.Of varName step) :
    n.Clashes varName step := by
  obtain ⟨rfl, rfl⟩ := h
  exact .inr (.inl ⟨List.suffix_refl _, List.prefix_refl _⟩)

end BlockName

/-- A server whose block ids all follow the scheme, with what they were made of. -/
structure NamedServer where
  server : UniServer
  names : String → BlockName
  follows : ∀ id block, server.m_blockManager.block id = some block → (names id).blockID = id

namespace NamedServer

variable (l : NamedServer) (varName : String) (step : Nat)

/-- The summaries of the blocks of one variable and one step. -/
def summariesOf : List BlockSummary :=
  ((sortedEntries l.server.m_blockManager.DataBlockMap).filter fun kv =>
    decide ((l.names kv.1).Of varName step)).map fun kv => kv.2.m_blockSummary

/-- The reply to a request for a variable and a step are the summaries of its blocks. -/
def Selects : Prop :=
  ∃ list, callRemote (getBlockSummayBySuffix (BlockName.suffix varName step)) l.server = .ok list ∧
    list.Perm (l.summariesOf varName step)

/-- The blocks of the variable and the step have their three arrays. -/
def Complete : Prop :=
  ∀ id block, l.server.m_blockManager.block id = some block → (l.names id).Of varName step →
    block.m_blockSummary.m_arrayListLen = 3

/-- No name of another variable or another step clashes. -/
def Separate : Prop :=
  ∀ id block, l.server.m_blockManager.block id = some block →
    (l.names id).Clashes varName step → (l.names id).Of varName step

variable {l varName step}

theorem occurs_iff {id : String} {block : DataBlock}
    (stored : l.server.m_blockManager.block id = some block) :
    (BlockName.suffix varName step).toList <:+: id.toList ↔ (l.names id).Clashes varName step := by
  rw [← BlockName.occurs_iff, l.follows id block stored]

/-- The entries of the map that the request finds. -/
def found (l : NamedServer) (varSuffix : String) : List (Σ _ : String, DataBlock) :=
  (sortedEntries l.server.m_blockManager.DataBlockMap).filter fun kv =>
    decide (varSuffix.toList <:+: kv.1.toList)

theorem mem_found {kv : Σ _ : String, DataBlock} :
    kv ∈ l.found (BlockName.suffix varName step) ↔
      l.server.m_blockManager.block kv.1 = some kv.2 ∧ (l.names kv.1).Clashes varName step := by
  rw [found, List.mem_filter, mem_sortedEntries, decide_eq_true_eq]
  exact and_congr_right l.occurs_iff

/-- What is asked for is found. -/
theorem summariesOf_eq : l.summariesOf varName step =
    ((l.found (BlockName.suffix varName step)).filter fun kv =>
      decide ((l.names kv.1).Of varName step)).map fun kv => kv.2.m_blockSummary := by
  rw [summariesOf, found, List.filter_filter]
  refine congrArg _ (List.filter_congr fun kv hkv => ?_)
  have stored := mem_sortedEntries.mp hkv
  by_cases own : (l.names kv.1).Of varName step
  · have occurs := (l.occurs_iff stored).mpr own.clashes
    simp only [own, occurs, decide_true, Bool.and_self]
  · simp only [own, decide_false, Bool.false_and]

/-- Nothing else is found where no name clashes. -/
theorem separate_iff : l.Separate varName step ↔
    ((l.found (BlockName.suffix varName step)).filter fun kv =>
      decide ((l.names kv.1).Of varName step)).length =
      (l.found (BlockName.suffix varName step)).length := by
  rw [List.length_filter_eq_length_iff]
  constructor
  · intro separate kv hkv
    obtain ⟨stored, clashes⟩ := mem_found.mp hkv
    exact decide_eq_true (separate kv.1 kv.2 stored clashes)
  · intro all id block stored clashes
    exact of_decide_eq_true (all ⟨id, block⟩ (mem_found.mpr ⟨stored, clashes⟩))

theorem matching_eq (varSuffix : String) : l.server.matching varSuffix =
    (l.found varSuffix).map fun kv => kv.2.m_blockSummary := rfl

/-- A request for a variable and a step selects their blocks exactly when these have all their
arrays and no name of another clashes. -/
theorem selects_iff :
    l.Selects varName step ↔ l.Complete varName step ∧ l.Separate varName step := by
  constructor
  · rintro ⟨list, reply, same⟩
    have awaited := UniServer.summaries_eq_ok.mp reply
    refine ⟨fun id block stored own => ?_, ?_⟩
    · have listed : block.m_blockSummary ∈ l.summariesOf varName step :=
        List.mem_map.mpr ⟨⟨id, block⟩, List.mem_filter.mpr
          ⟨mem_sortedEntries.mpr stored, decide_eq_true own⟩, rfl⟩
      obtain ⟨_, _, run⟩ := exists_left_of_forall₂ awaited (same.mem_iff.mpr listed)
      exact UniServer.full_of_awaitArrays run
    · have counted := awaited.length_eq.trans same.length_eq
      rw [matching_eq, summariesOf_eq, List.length_map, List.length_map] at counted
      exact separate_iff.mpr counted.symm
  · rintro ⟨complete, separate⟩
    have all : l.summariesOf varName step =
        l.server.matching (BlockName.suffix varName step) := by
      rw [summariesOf_eq, matching_eq, List.filter_eq_self.mpr]
      exact List.length_filter_eq_length_iff.mp (separate_iff.mp separate)
    refine ⟨l.summariesOf varName step, UniServer.summaries_eq_ok.mpr ?_, .refl _⟩
    rw [all, List.forall₂_same]
    intro summary hmem
    obtain ⟨id, block, stored, occurs, rfl⟩ := UniServer.mem_matching.mp hmem
    have own := separate id block stored ((l.occurs_iff stored).mp occurs)
    exact UniServer.awaitArrays_full (complete id block stored own)

/-- A mesh without points, under its own id. -/
def emptyMesh (name : BlockName) : DataBlock where
  m_blockid := name.blockID
  m_blockSummary :=
    { m_dataType := DATATYPE_VTKEXPLICIT
      m_blockid := name.blockID
      m_backend := BACKEND.MEMVTKEXPLICIT
      m_arrayList := [⟨"points", 8, 0⟩, ⟨"normals", 8, 0⟩, ⟨"cells", 4, 0⟩] }
  storage := .VTKMemExplicitObj
    [(⟨"points", 8, 0⟩, []), (⟨"normals", 8, 0⟩, []), (⟨"cells", 4, 0⟩, [])]

def first : BlockName := ⟨"grascott_u", 1, 0, some 0⟩

def tenth : BlockName := ⟨"grascott_u", 10, 0, some 0⟩

/-- Two steps of one variable. -/
def twoSteps : NamedServer where
  server := { m_blockManager := { DataBlockMap :=
    (AList.insert first.blockID (emptyMesh first) ∅).insert tenth.blockID (emptyMesh tenth) } }
  names id := if id = tenth.blockID then tenth else first
  follows id block stored := by
    by_cases isTenth : id = tenth.blockID
    · rw [if_pos isTenth, isTenth]
    · rw [if_neg isTenth]
      rw [BlockManager.block, AList.lookup_insert_ne isTenth] at stored
      by_contra other
      rw [AList.lookup_insert_ne (Ne.symm other)] at stored
      cases stored

/-- A request for step 1 is answered with the block of step 10 as well. -/
theorem tenth_selected :
    callRemote (getBlockSummayBySuffix (BlockName.suffix "grascott_u" 1)) twoSteps.server =
        .ok [(emptyMesh tenth).m_blockSummary, (emptyMesh first).m_blockSummary] ∧
      ¬ twoSteps.Selects "grascott_u" 1 := by
  have reply : callRemote (getBlockSummayBySuffix (BlockName.suffix "grascott_u" 1))
      twoSteps.server =
        .ok [(emptyMesh tenth).m_blockSummary, (emptyMesh first).m_blockSummary] := by
    decide
  refine ⟨reply, ?_⟩
  rintro ⟨list, answered, same⟩
  obtain rfl := Except.ok.inj (reply.symm.trans answered)
  have one : (twoSteps.summariesOf "grascott_u" 1).length = 1 := by decide
  rw [← same.length_eq] at one
  cases one

end NamedServer

end Gorilla
