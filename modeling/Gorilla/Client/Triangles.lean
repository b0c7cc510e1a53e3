import Gorilla.BlockManager.Handles
import Gorilla.Client.ClientForStaging
import Gorilla.Server.PutPhases
import Gorilla.Server.Selection

/-!
# Meshes from the simulation to the aggregation

The simulation puts a mesh as four arrays of floats and long indices. The aggregation asks for
blocks of three arrays, which it reads as doubles and ints.
-/

namespace Gorilla

open HandLock Handler Runs Traverse

namespace ClientForSim

variable {R : Type}

/-- Where each triangle begins in the connectivity, and where the last one ends. -/
def offsets (polys : List (Array3 Int)) : List Int :=
  (List.range (polys.length + 1)).map fun i => 3 * i

def segment {α : Type} (arrayName : String) (elemSize : Nat) (write : α → Buffer)
    (elems : List α) : ArraySummary × Buffer :=
  (⟨arrayName, UInt64.ofNat elemSize, UInt64.ofNat elems.length⟩, elems.flatMap write)

/-- The arrays of a mesh in the order they are put, each one a request of its own. -/
def putArrayIntoBlockZero (f : Formats R) (polyData : PolyData R) : List (ArraySummary × Buffer) :=
  [segment "cellsOffset" sizeofLong f.toLong (offsets polyData.polys),
    segment "cellsConnect" sizeofLong f.toLong (polyData.polys.flatMap Array3.toList),
    segment "points" sizeofFloat f.toFloat (polyData.points.flatMap Array3.toList),
    segment "normals" sizeofFloat f.toFloat (polyData.normals.flatMap Array3.toList)]

end ClientForSim

namespace UniServer

/-- One array of the block is handled and answered with zero, or something else happens on the
server that leaves the block as it was. -/
inductive Handles (blockSummary : BlockSummary) :
    Option (ArraySummary × Buffer) → UniServer → UniServer → Prop
  | array {s : UniServer} {out : Outside} {as : ArraySummary} {contents : Buffer} :
    out.exposed (as.m_elemNum * as.m_elemSize) = .ok contents →
    (putArrayIntoBlock out blockSummary as).replies s = [0] →
    Handles blockSummary (some (as, contents)) s ((putArrayIntoBlock out blockSummary as).after s)
  | other {s t : UniServer} :
    t.m_blockManager.block blockSummary.m_blockid =
      s.m_blockManager.block blockSummary.m_blockid →
    Handles blockSummary none s t

/-- The request for the block is answered, and its summary is in the answer. -/
def Answers (s : UniServer) (varSuffix blockID : String) : Prop :=
  ∃ list, callRemote (getBlockSummayBySuffix varSuffix) s = .ok list ∧
    ∃ summary ∈ list, summary.m_blockid = blockID

end UniServer

/-- The aggregation returns, and the mesh is in its list. -/
def ClientForStaging.Rebuilds {R : Type} (m : ClientForStaging) (f : Formats R)
    (servers : Endpoint → Option UniServer) (blockIDSuffix : String) (polyData : PolyData R) :
    Prop :=
  ∃ polylist, m.aggregatePolyBySuffix f servers blockIDSuffix = .ok polylist ∧ polyData ∈ polylist

namespace UniServer

variable {s t : UniServer} {bs : BlockSummary} {out : Outside} {as : ArraySummary}

/-- The block is there under its own id, with the array in its summary. -/
def Lists (s : UniServer) (blockID : String) (as : ArraySummary) : Prop :=
  ∃ block, s.m_blockManager.block blockID = some block ∧
    block.m_blockSummary.m_blockid = blockID ∧ as ∈ block.m_blockSummary.m_arrayList

/-- The block, where it is there, has a summary of its own, and in it the arrays handled so
far. -/
structure Gathered (s : UniServer) (blockID : String) (handled : List ArraySummary) : Prop where
  own : ∀ block, s.m_blockManager.block blockID = some block → BlockManager.Named blockID block
  lists : ∀ as ∈ handled, s.Lists blockID as

/-- A put that is answered with zero has returned from the block manager. -/
theorem putArray_handled (h : (putArrayIntoBlock out bs as).replies s = [0]) :
    ∃ data, (BlockCall.putArray bs as bs.m_backend data).outcome s.m_blockManager =
      .ok (true, ((putArrayIntoBlock out bs as).after s).m_blockManager) := by
  cases run : putArray out bs as s with
  | error e t =>
    have handled : putArrayIntoBlock out bs as ⟨s, []⟩ = .error e ⟨t, []⟩ :=
      bind_error (onServer_error run)
    rw [replies, handled] at h
    cases h
  | ok _ t =>
    have handled : putArrayIntoBlock out bs as ⟨s, []⟩ = .ok () ⟨t, [0]⟩ :=
      bind_ok (onServer_ok run)
    rw [after, handled]
    unfold putArray at run
    obtain ⟨sent, _, hraise, stored⟩ := bind_run_eq_ok.mp run
    obtain rfl := (lift_eq_ok.mp hraise).2
    by_cases long : (as.m_elemNum * as.m_elemSize).toNat < sent.length
    · rw [if_pos long] at stored
      cases stored
    · rw [if_neg long] at stored
      obtain ⟨m, put, rfl⟩ := zoom_eq_ok.mp stored
      exact ⟨_, BlockCall.outcome_of_ok put⟩

/-- What a handled array leaves of its block: the array is added to the summary that was
there, or to a new one. -/
theorem block_after {contents : Buffer} {handled : List ArraySummary}
    (gathered : s.Gathered bs.m_blockid handled) (h : Handles bs (some (as, contents)) s t) :
    ∃ block, t.m_blockManager.block bs.m_blockid = some block ∧
      block.m_blockSummary.m_blockid = bs.m_blockid ∧ as ∈ block.m_blockSummary.m_arrayList ∧
      ∀ as', s.Lists bs.m_blockid as' → as' ∈ block.m_blockSummary.m_arrayList := by
  cases h with
  | array _ replied =>
    obtain ⟨data, out⟩ := putArray_handled replied
    cases hasked : s.m_blockManager.asked bs.m_blockid bs.m_backend with
    | none =>
      obtain ⟨thrown, _⟩ := BlockManager.putArray_refused hasked out
      cases thrown
    | some handle =>
      obtain ⟨summary, kept, ⟨_, m_arrayMap, explicit, added, left⟩ | ⟨thrown, _⟩⟩ :=
        BlockManager.putArray_outcome hasked out
      · refine ⟨_, by rw [left, BlockManager.block_store, if_pos rfl], ?_⟩
        obtain rfl := BlockManager.addArraySummary_ok added
        have named : BlockManager.Named bs.m_blockid handle := by
          obtain hb | ⟨⟨_, _, rfl⟩, _⟩ := BlockManager.asked_cases hasked
          · exact gathered.own handle hb
          · exact .inr (.inl rfl)
        have filled : (BlockManager.summaryFor handle bs).m_blockid = bs.m_blockid := by
          unfold BlockManager.summaryFor
          split
          · rfl
          · rename_i used
            exact (named.resolve_left (by simp [explicit])).resolve_left used
        refine ⟨filled, by simp, ?_⟩
        rintro as' ⟨block, hb, hid, listed⟩
        have hne := (BlockManager.asked_eq_some.mp hasked).1
        obtain rfl := Option.some.inj
          ((BlockManager.asked_of_block hne hb bs.m_backend).symm.trans hasked)
        rw [BlockManager.summaryFor, if_neg (by rw [hid]; exact hne)]
        exact List.mem_append_left _ listed
      · cases thrown

/-- One step gathers the array it handles. -/
theorem gathered_step {act : Option (ArraySummary × Buffer)} {handled : List ArraySummary}
    (gathered : s.Gathered bs.m_blockid handled) (h : Handles bs act s t) :
    t.Gathered bs.m_blockid (handled ++ (act.map Prod.fst).toList) := by
  cases act with
  | none =>
    cases h with
    | other same =>
      refine ⟨fun block hb => gathered.own block (same ▸ hb), fun as has => ?_⟩
      obtain ⟨block, hb, listed⟩ := gathered.lists as (by simpa using has)
      exact ⟨block, same.trans hb, listed⟩
  | some segment =>
    obtain ⟨block, hb, hid, added, kept⟩ := block_after gathered h
    refine ⟨fun block' hb' => ?_, fun as has => ?_⟩
    · rw [hb] at hb'
      cases hb'
      exact .inr (.inr hid)
    · refine ⟨block, hb, hid, ?_⟩
      rcases List.mem_append.mp has with earlier | now
      · exact kept as (gathered.lists as earlier)
      · obtain rfl : as = segment.1 := by simpa using now
        exact added

theorem gathered_run {acts : List (Option (ArraySummary × Buffer))}
    (start : s.m_blockManager.Reached) (run : Run (Handles bs) s acts t) :
    t.Gathered bs.m_blockid ((acts.filterMap id).map Prod.fst) := by
  have first : s.Gathered bs.m_blockid [] :=
    ⟨BlockCall.selfNamed_reached start bs.m_blockid, fun _ has => by cases has⟩
  refine run.history (I := fun acts t =>
    t.Gathered bs.m_blockid ((acts.filterMap id).map Prod.fst)) first ?_
  intro acts act t u _ gathered hstep
  have next := gathered_step gathered hstep
  cases act <;> simpa using next

/-- The four arrays of a mesh are more than the three that are waited for. -/
theorem overfull {R : Type} {f : Formats R} {polyData : PolyData R} {handled : List ArraySummary}
    (all : handled.Perm ((ClientForSim.putArrayIntoBlockZero f polyData).map Prod.fst))
    {summary : BlockSummary} (listed : handled ⊆ summary.m_arrayList) :
    summary.m_arrayListLen ≠ 3 := by
  have names : (handled.map ArraySummary.m_arrayName).Perm
      ["cellsOffset", "cellsConnect", "points", "normals"] := all.map ArraySummary.m_arrayName
  have distinct : handled.Nodup :=
    List.Nodup.of_map _ (names.nodup_iff.mpr (by decide))
  have four : handled.length = 4 := by simpa using names.length_eq
  have enough := (List.subperm_of_subset distinct listed).length_le
  rw [BlockSummary.m_arrayListLen]
  omega

/-- The request for a block with the four arrays waits for as long as they are there. -/
theorem unanswered {R : Type} {f : Formats R} {polyData : PolyData R} {varSuffix : String}
    {handled : List ArraySummary} (gathered : t.Gathered bs.m_blockid handled)
    (all : handled.Perm ((ClientForSim.putArrayIntoBlockZero f polyData).map Prod.fst))
    (part : varSuffix.toList <:+: bs.m_blockid.toList) (list : List BlockSummary) :
    callRemote (getBlockSummayBySuffix varSuffix) t ≠ .ok list := by
  intro answered
  have first : (ClientForSim.segment "cellsOffset" sizeofLong f.toLong
      (ClientForSim.offsets polyData.polys)).1 ∈ handled := all.mem_iff.mpr List.mem_cons_self
  obtain ⟨block, hb, hid, _⟩ := gathered.lists _ first
  have listed : handled ⊆ block.m_blockSummary.m_arrayList := by
    intro as has
    obtain ⟨block', hb', _, listed⟩ := gathered.lists as has
    rwa [Option.some.inj (hb.symm.trans hb')]
  have waits : t.awaitArrays block.m_blockSummary = .error (.blocked "arrays of a block") := by
    have stored : t.m_blockManager.DataBlockMap.lookup block.m_blockSummary.m_blockid =
        some block := by rw [hid]; exact hb
    rw [awaitArrays, if_neg (overfull all listed), stored]
    exact if_neg (overfull all listed)
  obtain ⟨_, _, run⟩ := exists_right_of_forall₂ (summaries_eq_ok.mp answered)
    (mem_matching.mpr ⟨_, block, hb, part, rfl⟩)
  rw [waits] at run
  cases run

end UniServer

namespace ClientForStaging

variable {R : Type} {f : Formats R} {servers : Endpoint → Option UniServer}
  {m : ClientForStaging} {blockIDSuffix : String}

/-- An aggregation that returns was answered by every server that it asked. -/
theorem answered_of_aggregate {polylist : List (PolyData R)}
    (h : m.aggregatePolyBySuffix f servers blockIDSuffix = .ok polylist)
    {kv : Σ _ : String, Endpoint} (asked : kv ∈ m.contacts) {server : UniServer}
    (serves : servers kv.2 = some server) :
    ∃ list, callRemote (getBlockSummayBySuffix blockIDSuffix) server = .ok list := by
  obtain ⟨parts, hparts, _⟩ := bind_eq_ok.mp h
  obtain ⟨part, _, run⟩ := exists_right_of_forall₂ (mapM_eq_ok.mp hparts) asked
  rw [serves] at run
  obtain ⟨list, answered, _⟩ := bind_eq_ok.mp run
  exact ⟨list, answered⟩

end ClientForStaging

/-- No mesh that was put is read back: neither is its block listed, nor does an aggregation
that asks its server return. -/
theorem polyData_lost {R : Type} {f : Formats R} {polyData : PolyData R} {bs : BlockSummary}
    {s t : UniServer} {acts : List (Option (ArraySummary × Buffer))}
    {servers : Endpoint → Option UniServer} {m : ClientForStaging} {blockIDSuffix : String}
    {k : Σ _ : String, Endpoint} (start : s.m_blockManager.Reached)
    (run : Run (UniServer.Handles bs) s acts t)
    (all : (acts.filterMap id).Perm (ClientForSim.putArrayIntoBlockZero f polyData))
    (part : blockIDSuffix.toList <:+: bs.m_blockid.toList)
    (asked : k ∈ m.contacts) (serves : servers k.2 = some t) :
    ¬ t.Answers blockIDSuffix bs.m_blockid ∧ ¬ m.Rebuilds f servers blockIDSuffix polyData := by
  have unanswered := UniServer.unanswered (UniServer.gathered_run start run)
    (all.map Prod.fst) part
  constructor
  · rintro ⟨list, answered, _⟩
    exact unanswered list answered
  · rintro ⟨polylist, aggregated, _⟩
    obtain ⟨list, answered⟩ := ClientForStaging.answered_of_aggregate aggregated asked serves
    exact unanswered list answered

namespace OneTriangle

/-- Numbers of one byte, with the widths that the writer and the reader use. -/
def formats : Formats UInt8 where
  toFloat r := some r :: List.replicate 3 (some 0)
  toLong z := some (UInt8.ofNat z.toNat) :: List.replicate 7 (some 0)
  ofDouble bytes := (bytes.head?.join).getD 0
  ofInt bytes := ((bytes.head?.join).getD 0).toNat

def triangle : PolyData UInt8 where
  points := [⟨0, 0, 0⟩, ⟨1, 0, 0⟩, ⟨0, 1, 0⟩]
  normals := [⟨0, 0, 1⟩, ⟨0, 0, 1⟩, ⟨0, 0, 1⟩]
  polys := [⟨0, 1, 2⟩]

def block : BlockSummary where
  m_dataType := DATATYPE_VTKEXPLICIT
  m_blockid := "grascott_u_1_0_0"
  m_backend := BACKEND.MEMVTKEXPLICIT

/-- A client that exposes the bytes of one array. -/
def client (contents : Buffer) : Outside where
  endpoint := ""
  exposed _ := .ok contents
  sendTo _ := .ok ()
  lookup := .ok
  eraseRawData _ _ := .ok ()
  UnMarshalDataObject := .ok

def put (s : UniServer) (segment : ArraySummary × Buffer) : UniServer :=
  (putArrayIntoBlock (client segment.2) block segment.1).after s

/-- The server once the four arrays were handled in the order they are put. -/
def server : UniServer := (ClientForSim.putArrayIntoBlockZero formats triangle).foldl put {}

def staging : ClientForStaging := ClientForStaging.cacheEndpoint {} "server0" "server0"

theorem run_put :
    Run (UniServer.Handles block) {}
      ((ClientForSim.putArrayIntoBlockZero formats triangle).map some) server :=
  .next (.next (.next (.next .start (.array rfl (by decide))) (.array rfl (by decide)))
    (.array rfl (by decide))) (.array rfl (by decide))

theorem triangle_lost :
    ¬ server.Answers "grascott_u_1" block.m_blockid ∧
      ¬ staging.Rebuilds formats (fun _ => some server) "grascott_u_1" triangle :=
  polyData_lost ⟨{}, [], .start⟩ run_put (by rw [List.filterMap_map]; simp) (by decide)
    (k := ⟨"server0", "server0"⟩) (mem_sortedEntries.mpr (AList.lookup_insert _)) rfl

/-- The four requests are handled, and neither the block nor the mesh can be had. -/
theorem triangle_put_and_lost :
    Run (UniServer.Handles block) {}
        ((ClientForSim.putArrayIntoBlockZero formats triangle).map some) server ∧
      ¬ (server.Answers "grascott_u_1" block.m_blockid ∧
        staging.Rebuilds formats (fun _ => some server) "grascott_u_1" triangle) := by
  refine ⟨run_put, ?_⟩
  rintro ⟨⟨list, answered, _⟩, _⟩
  have waits : callRemote (getBlockSummayBySuffix "grascott_u_1") server =
      .error (.blocked "no reply") := by decide +kernel
  rw [waits] at answered
  cases answered

end OneTriangle

end Gorilla
