import Gorilla.Server.Coverage
import Gorilla.Server.MetaHandlers
import Gorilla.Server.Partition

/-!
# What the metadata servers answer

The runs of the metadata manager in terms of its stored descriptors, and from them the
replies of `getmetaServerList` and `getBlockDescriptorList`.
-/

namespace Gorilla

open HandLock

namespace MetaDataManager

variable {m : MetaDataManager}

theorem stepCount_busy (h : m.m_metaDataMapMutex = true) (step : Nat) :
    stepCount step m = .error mapBusy m := locked_busy h

theorem stepCount_run (free : m.m_metaDataMapMutex = false) (step : Nat) :
    stepCount step m = .ok (m.m_metaDataMap.lookup step).isSome m := locked_reads _ free

theorem varCount_run (free : m.m_metaDataMapMutex = false) (step : Nat) (varName : String) :
    varCount step varName m = .ok (m.blockOf step varName).isSome m := locked_reads _ free

/-- The descriptors a reader sees: none before the step and the variable exist. -/
theorem getRawEndpoints_run (free : m.m_metaDataMapMutex = false) (step : Nat)
    (varName dataType : String) :
    getRawEndpoints step varName dataType m =
      match m.blockOf step varName with
      | none => .ok [] m
      | some b =>
        match b.m_metadataBlock.lookup dataType with
        | none => .error (.runtime_error "data type does not exist") m
        | some list => .ok list m := by
  unfold getRawEndpoints
  rw [bind_ok (stepCount_run free step)]
  cases h1 : m.m_metaDataMap.lookup step with
  | none =>
    have hb : m.blockOf step varName = none := by simp [blockOf, h1]
    rw [hb]
    rfl
  | some vars =>
    rw [if_neg (by simp), bind_ok (varCount_run free step varName)]
    cases h2 : m.blockOf step varName with
    | none => rfl
    | some b =>
      have hep : m.endpointsOf step varName dataType = b.m_metadataBlock.lookup dataType := by
        simp [endpointsOf, h2]
      rw [if_neg (by simp), bind_ok (locked_reads _ free)]
      show (if (!(m.endpointsOf step varName dataType).isSome) = true then _ else _ :
        EStateM Stop MetaDataManager _) m = match b.m_metadataBlock.lookup dataType with
          | none => _
          | some list => _
      rw [hep]
      cases h3 : b.m_metadataBlock.lookup dataType with
      | none => rfl
      | some list =>
        rw [if_neg (by simp)]
        show locked _ m = _
        rw [locked_reads _ free]
        show EStateM.Result.ok ((m.endpointsOf step varName dataType).getD []) m = _
        rw [hep, h3]
        rfl

/-- The overlapped descriptors of a list, without the locking. -/
def overlapEndpoints (querybbx : BBX) (dataType : String) :
    List BlockDescriptor → Except Stop (List BlockDescriptor)
  | [] => .ok []
  | bd :: rest => do
    let bbx ← BBX.ofIndex bd.m_dims bd.m_indexlb bd.m_indexub
    match ← getOverlapBBX bbx querybbx with
    | none => overlapEndpoints querybbx dataType rest
    | some overlapbbx =>
      return overlapDescriptor dataType bd overlapbbx ::
        (← overlapEndpoints querybbx dataType rest)

theorem overlapLoop_run (free : m.m_metaDataMapMutex = false) (q : BBX) (dataType : String)
    (entries : List BlockDescriptor) :
    overlapLoop q dataType entries m = runIn (overlapEndpoints q dataType entries) m := by
  unfold runIn
  induction entries with
  | nil => rfl
  | cons entry rest ih =>
    have hr : locked (reads fun _ => entry) m = .ok entry m := locked_reads _ free
    rw [overlapLoop, bind_ok hr, overlapEndpoints]
    cases hb : BBX.ofIndex entry.m_dims entry.m_indexlb entry.m_indexub with
    | error e => rfl
    | ok bbx =>
      rw [bind_ok (lift_ok (a := bbx) rfl)]
      cases ho : getOverlapBBX bbx q with
      | error e =>
        simp only [bind, Except.bind, ho]
        rfl
      | ok r =>
        rw [bind_ok (lift_ok (a := r) rfl)]
        cases r with
        | none => simpa [bind, Except.bind, ho] using ih
        | some overlapbbx =>
          show (locked _ >>= _) m = _
          rw [bind_ok hr]
          cases hl : overlapEndpoints q dataType rest with
          | error e =>
            rw [hl] at ih
            rw [bind_error ih]
            simp [bind, Except.bind, ho]
          | ok l =>
            rw [hl] at ih
            rw [bind_ok ih]
            simp [bind, Except.bind, ho, pure, EStateM.pure, Except.pure]

/-- The checks of the two readers are the same, and what is absent has nothing to overlap. -/
theorem getOverlapEndpoints_bind (step : Nat) (varName dataType : String) (q : BBX) :
    getOverlapEndpoints step varName q dataType =
      getRawEndpoints step varName dataType >>= overlapLoop q dataType := by
  have none : overlapLoop q dataType [] = pure [] := rfl
  unfold getOverlapEndpoints getRawEndpoints
  rw [bind_assoc]
  congr 1
  funext found
  split
  · rw [pure_bind, none]
  rw [bind_assoc]
  congr 1
  funext found
  split
  · rw [pure_bind, none]
  rw [bind_assoc]
  congr 1
  funext found
  split <;> rfl

/-- The stored descriptors a reader asks for, without the locking. -/
def rawEndpoints (m : MetaDataManager) (step : Nat) (varName dataType : String) :
    Except Stop (List BlockDescriptor) :=
  match m.blockOf step varName with
  | none => .ok []
  | some b =>
    match b.m_metadataBlock.lookup dataType with
    | none => .error (.runtime_error "data type does not exist")
    | some list => .ok list

theorem rawEndpoints_eq {step : Nat} {varName dataType : String} {list : List BlockDescriptor}
    (h : m.endpointsOf step varName dataType = some list) :
    m.rawEndpoints step varName dataType = .ok list := by
  obtain ⟨b, hb, hl⟩ := Option.bind_eq_some_iff.mp h
  simp [rawEndpoints, hb, hl]

theorem getRawEndpoints_eq (free : m.m_metaDataMapMutex = false) (step : Nat)
    (varName dataType : String) :
    getRawEndpoints step varName dataType m = runIn (m.rawEndpoints step varName dataType) m := by
  rw [getRawEndpoints_run free, rawEndpoints]
  cases m.blockOf step varName with
  | none => rfl
  | some b =>
    show (match b.m_metadataBlock.lookup dataType with
      | none => _
      | some list => _) = runIn (match b.m_metadataBlock.lookup dataType with
      | none => _
      | some list => _) m
    cases b.m_metadataBlock.lookup dataType <;> rfl

theorem getOverlapEndpoints_eq (free : m.m_metaDataMapMutex = false) (step : Nat)
    (varName dataType : String) (q : BBX) :
    getOverlapEndpoints step varName q dataType m =
      runIn (m.rawEndpoints step varName dataType >>= overlapEndpoints q dataType) m := by
  have raw := getRawEndpoints_eq free step varName dataType
  rw [getOverlapEndpoints_bind]
  cases hr : m.rawEndpoints step varName dataType with
  | error e =>
    rw [hr] at raw
    exact bind_error raw
  | ok list =>
    rw [hr] at raw
    rw [bind_ok raw]
    exact overlapLoop_run free q dataType list

/-- The overlapped descriptors are those of the hit boxes, in order; one descriptor of other
dimensions makes the whole call throw. -/
theorem overlapEndpoints_eq_ok {q : BBX} {dataType : String} {entries l : List BlockDescriptor} :
    overlapEndpoints q dataType entries = .ok l ↔
      (∀ bd ∈ entries, bd.m_dims ≤ 3 ∧ bd.bbx.m_dims = q.m_dims ∧ bd.bbx.Dims) ∧
        l = (entries.filter fun bd => bd.bbx.Hits q).map fun bd =>
          overlapDescriptor dataType bd (bd.bbx.meet q) := by
  induction entries generalizing l with
  | nil => simp [overlapEndpoints, eq_comm]
  | cons bd rest ih =>
    rw [overlapEndpoints, bind_eq_ok, List.forall_mem_cons]
    constructor
    · rintro ⟨b, hb, h⟩
      obtain ⟨hd, rfl⟩ := BBX.ofIndex_eq_ok.mp hb
      obtain ⟨r, hr, h⟩ := bind_eq_ok.mp h
      obtain ⟨hdim, hdims, rfl⟩ := BBX.getOverlapBBX_eq_ok.mp hr
      by_cases hit : bd.bbx.Hits q
      · rw [if_pos hit] at h
        obtain ⟨l', hl', h⟩ := bind_eq_ok.mp h
        cases h
        obtain ⟨hrest, rfl⟩ := ih.mp hl'
        exact ⟨⟨⟨hd, hdim, hdims⟩, hrest⟩, by simp [hit]⟩
      · rw [if_neg hit] at h
        obtain ⟨hrest, rfl⟩ := ih.mp h
        exact ⟨⟨⟨hd, hdim, hdims⟩, hrest⟩, by simp [hit]⟩
    · rintro ⟨⟨⟨hd, hdim, hdims⟩, hrest⟩, rfl⟩
      refine ⟨bd.bbx, BBX.ofIndex_eq_ok.mpr ⟨hd, rfl⟩, bind_eq_ok.mpr
        ⟨_, BBX.getOverlapBBX_eq_ok.mpr ⟨hdim, hdims, rfl⟩, ?_⟩⟩
      have tail := ih.mpr ⟨hrest, rfl⟩
      by_cases hit : bd.bbx.Hits q
      · rw [if_pos hit]
        exact bind_eq_ok.mpr ⟨_, tail, by simp [hit, pure, Except.pure]⟩
      · rw [if_neg hit]
        simpa [hit] using tail

end MetaDataManager

namespace Handler

variable {ρ α : Type} {s : UniServer} {sent : List ρ}

/-- A call of the metadata manager that leaves it as it is leaves the server as it is. -/
theorem onMetaManager_lift (sent : List ρ) {x : EStateM Stop MetaDataManager α} {y : Except Stop α}
    (h : x s.m_metaManager = runIn y s.m_metaManager) :
    onMetaManager x ⟨s, sent⟩ = runIn y ⟨s, sent⟩ := by
  cases y with
  | ok a => exact onMetaManager_ok h
  | error e => exact onMetaManager_error h

theorem getServer_run : (getServer : Handler ρ UniServer) ⟨s, sent⟩ = .ok s ⟨s, sent⟩ := rfl

end Handler

open Handler

theorem getRawEndpoints_busy {m : MetaDataManager} (h : m.m_metaDataMapMutex = true) (step : Nat)
    (varName dataType : String) :
    MetaDataManager.getRawEndpoints step varName dataType m =
      .error MetaDataManager.mapBusy m :=
  bind_error (MetaDataManager.stepCount_busy h step)

/-- The list a server gives out, once it gives one out. -/
def answerOf (s : UniServer) (step : Nat) (varName : String) (q own : BBX) :
    Except Stop (List BlockDescriptor) := do
  let rdeplist ← s.m_metaManager.rawEndpoints step varName DATATYPE_CARGRID
  let ifcover ← MetaDataManager.ifCovered rdeplist (q.meet own)
  if ifcover = false then return []
  MetaDataManager.overlapEndpoints q DATATYPE_CARGRID rdeplist

variable {s : UniServer} {step : Nat} {varName : String} {dims : Nat} {indexlb indexub : Array3 Int}

/-- The reply on a server whose part of the query is not empty. -/
theorem respondOwnPart_run {q own : BBX} {rdeplist : List BlockDescriptor}
    (free : s.m_metaManager.m_metaDataMapMutex = false)
    (hraw : s.m_metaManager.rawEndpoints step varName DATATYPE_CARGRID = .ok rdeplist)
    (hover : getOverlapBBX q own = .ok (some (q.meet own))) :
    respondOwnPart step varName q rdeplist own ⟨s, []⟩ =
      match answerOf s step varName q own with
      | .ok l => .ok () ⟨s, [l]⟩
      | .error e => .error e ⟨s, []⟩ := by
  have hlap := onMetaManager_lift ([] : List (List BlockDescriptor))
    (MetaDataManager.getOverlapEndpoints_eq free step varName DATATYPE_CARGRID q)
  have hans : answerOf s step varName q own =
      (MetaDataManager.ifCovered rdeplist (q.meet own) >>= fun ifcover =>
        if ifcover = false then .ok []
        else MetaDataManager.overlapEndpoints q DATATYPE_CARGRID rdeplist) := by
    rw [answerOf, hraw]
    rfl
  rw [hraw] at hlap
  rw [hans]
  unfold respondOwnPart
  rw [bind_ok (lift_ok hover)]
  show (liftM (MetaDataManager.ifCovered rdeplist (q.meet own)) >>= _ :
    Handler (List BlockDescriptor) Unit) ⟨s, []⟩ = _
  cases hc : MetaDataManager.ifCovered rdeplist (q.meet own) with
  | error e => rfl
  | ok ifcover =>
    rw [bind_ok (lift_ok (a := ifcover) rfl)]
    cases ifcover with
    | false => rfl
    | true =>
      have hlap' : onMetaManager (MetaDataManager.getOverlapEndpoints step varName q) ⟨s, []⟩ =
          runIn (MetaDataManager.overlapEndpoints q DATATYPE_CARGRID rdeplist) ⟨s, []⟩ := hlap
      show (onMetaManager (MetaDataManager.getOverlapEndpoints step varName q) >>= respond :
          Handler (List BlockDescriptor) Unit) ⟨s, []⟩ =
        match MetaDataManager.overlapEndpoints q DATATYPE_CARGRID rdeplist with
        | .ok l => .ok () ⟨s, [l]⟩
        | .error e => .error e ⟨s, []⟩
      cases ho : MetaDataManager.overlapEndpoints q DATATYPE_CARGRID rdeplist with
      | error e =>
        rw [ho] at hlap'
        exact bind_error hlap'
      | ok l =>
        rw [ho] at hlap'
        rw [bind_ok hlap']
        rfl

theorem getBlockDescriptorListBody_run (step : Nat) (varName : String) {q own : BBX}
    {rdeplist : List BlockDescriptor}
    (free : s.m_metaManager.m_metaDataMapMutex = false)
    (hq : BBX.ofIndex dims indexlb indexub = .ok q)
    (hraw : s.m_metaManager.rawEndpoints step varName DATATYPE_CARGRID = .ok rdeplist)
    (hown : s.m_dhtManager.metaServerIDToBBX.lookup s.globalRank = some own) :
    getBlockDescriptorListBody step varName dims indexlb indexub ⟨s, []⟩ =
      respondOwnPart step varName q rdeplist own ⟨s, []⟩ := by
  have hread := onMetaManager_lift ([] : List (List BlockDescriptor))
    (MetaDataManager.getRawEndpoints_eq free step varName DATATYPE_CARGRID)
  rw [hraw] at hread
  unfold getBlockDescriptorListBody
  rw [bind_ok (lift_ok hq), bind_ok hread, bind_ok getServer_run]
  show (match s.m_dhtManager.metaServerIDToBBX.lookup s.globalRank with
    | none => throw (.undefined "null box of the own rank")
    | some own => respondOwnPart step varName q rdeplist own :
      Handler (List BlockDescriptor) Unit) ⟨s, []⟩ = _
  rw [hown]

/-- Where the body stops before the own part, or what it has read when it comes there. -/
inductive BodyReads (s : UniServer) (step : Nat) (varName : String) (dims : Nat)
    (indexlb indexub : Array3 Int) : Prop
  | box {e : Stop} (hq : BBX.ofIndex dims indexlb indexub = .error e)
    (stops : getBlockDescriptorListBody step varName dims indexlb indexub ⟨s, []⟩ =
      .error e ⟨s, []⟩)
  | busy (held : s.m_metaManager.m_metaDataMapMutex = true)
    (stops : getBlockDescriptorListBody step varName dims indexlb indexub ⟨s, []⟩ =
      .error MetaDataManager.mapBusy ⟨s, []⟩)
  | raw {e : Stop} (free : s.m_metaManager.m_metaDataMapMutex = false)
    (hraw : s.m_metaManager.rawEndpoints step varName DATATYPE_CARGRID = .error e)
    (stops : getBlockDescriptorListBody step varName dims indexlb indexub ⟨s, []⟩ =
      .error e ⟨s, []⟩)
  | unowned (stops : getBlockDescriptorListBody step varName dims indexlb indexub ⟨s, []⟩ =
      .error (.undefined "null box of the own rank") ⟨s, []⟩)
  | own {q own : BBX} {rdeplist : List BlockDescriptor}
    (free : s.m_metaManager.m_metaDataMapMutex = false)
    (hq : BBX.ofIndex dims indexlb indexub = .ok q)
    (hraw : s.m_metaManager.rawEndpoints step varName DATATYPE_CARGRID = .ok rdeplist)
    (hown : s.m_dhtManager.metaServerIDToBBX.lookup s.globalRank = some own)

theorem body_reads (s : UniServer) (step : Nat) (varName : String) (dims : Nat)
    (indexlb indexub : Array3 Int) : BodyReads s step varName dims indexlb indexub := by
  cases hq : BBX.ofIndex dims indexlb indexub with
  | error e => exact .box hq (bind_error (lift_error hq))
  | ok q =>
    cases free : s.m_metaManager.m_metaDataMapMutex with
    | true =>
      exact .busy free ((bind_ok (lift_ok hq)).trans
        (bind_error (onMetaManager_error (getRawEndpoints_busy free step varName _))))
    | false =>
      have read := onMetaManager_lift ([] : List (List BlockDescriptor))
        (MetaDataManager.getRawEndpoints_eq free step varName DATATYPE_CARGRID)
      cases hraw : s.m_metaManager.rawEndpoints step varName DATATYPE_CARGRID with
      | error e =>
        rw [hraw] at read
        exact .raw free hraw ((bind_ok (lift_ok hq)).trans (bind_error read))
      | ok rdeplist =>
        rw [hraw] at read
        cases hown : s.m_dhtManager.metaServerIDToBBX.lookup s.globalRank with
        | none =>
          refine .unowned (((bind_ok (lift_ok hq)).trans
            ((bind_ok read).trans (bind_ok getServer_run))).trans ?_)
          simp only [hown]
          rfl
        | some own => exact .own free hq hraw hown

/-- The reply of a server whose part of the query is not empty. -/
theorem getBlockDescriptorList_reply {q own : BBX}
    (free : s.m_metaManager.m_metaDataMapMutex = false)
    (hq : BBX.ofIndex dims indexlb indexub = .ok q)
    (hown : s.m_dhtManager.metaServerIDToBBX.lookup s.globalRank = some own)
    (hover : getOverlapBBX q own = .ok (some (q.meet own))) {l : List BlockDescriptor}
    (h : answerOf s step varName q own = .ok l) :
    callRemote (getBlockDescriptorList step varName dims indexlb indexub) s = .ok l := by
  obtain ⟨rdeplist, hraw, _⟩ := bind_eq_ok.mp h
  have hrun := getBlockDescriptorListBody_run step varName
    free hq hraw hown
  rw [respondOwnPart_run free hraw hover, h] at hrun
  rw [callRemote, Handler.replies, getBlockDescriptorList, catchException, hrun]
  rfl

/-- What is known of a server that gives out a list. -/
structure Answered (s : UniServer) (step : Nat) (varName : String) (q : BBX)
    (l : List BlockDescriptor) (own : BBX) (entries : List BlockDescriptor) : Prop where
  own_eq : s.m_dhtManager.metaServerIDToBBX.lookup s.globalRank = some own
  dims_eq : q.m_dims = own.m_dims
  dims : q.Dims
  hits : q.Hits own
  entries_eq : s.m_metaManager.endpointsOf step varName DATATYPE_CARGRID = some entries
  covered : MetaDataManager.ifCovered entries (q.meet own) = .ok true
  overlaps : MetaDataManager.overlapEndpoints q DATATYPE_CARGRID entries = .ok l

theorem answerOf_eq_ok {q own : BBX} {l : List BlockDescriptor} (hne : l ≠ [])
    (h : answerOf s step varName q own = .ok l) :
    ∃ entries, s.m_metaManager.endpointsOf step varName DATATYPE_CARGRID = some entries ∧
      MetaDataManager.ifCovered entries (q.meet own) = .ok true ∧
      MetaDataManager.overlapEndpoints q DATATYPE_CARGRID entries = .ok l := by
  obtain ⟨entries, hr, h⟩ := bind_eq_ok.mp h
  obtain ⟨ifcover, hc, h⟩ := bind_eq_ok.mp h
  cases ifcover with
  | false =>
    cases h
    exact absurd rfl hne
  | true =>
    have ho : MetaDataManager.overlapEndpoints q DATATYPE_CARGRID entries = .ok l := h
    refine ⟨entries, ?_, hc, ho⟩
    unfold MetaDataManager.rawEndpoints at hr
    unfold MetaDataManager.endpointsOf
    cases hb : s.m_metaManager.blockOf step varName with
    | none =>
      rw [hb] at hr
      cases hr
      cases ho
      exact absurd rfl hne
    | some b =>
      simp only [hb] at hr
      cases hl : b.m_metadataBlock.lookup DATATYPE_CARGRID with
      | none => simp [hl] at hr
      | some list =>
        simp only [hl, Except.ok.injEq] at hr
        simp [hl, hr]

/-- A body that ends in an exception before its first reply leaves an empty reply or none. -/
theorem body_ne_error {l : List BlockDescriptor} (hne : l ≠ [])
    (h : callRemote (getBlockDescriptorList step varName dims indexlb indexub) s = .ok l)
    (e : Stop) :
    getBlockDescriptorListBody step varName dims indexlb indexub ⟨s, []⟩ ≠ .error e ⟨s, []⟩ := by
  intro he
  rw [callRemote, Handler.replies, getBlockDescriptorList, catchException, he] at h
  cases e with
  | runtime_error w =>
    cases h
    exact hne rfl
  | undefined w => cases h
  | blocked w => cases h

/-- A reply that is not empty comes from the stored descriptors of a covered part. -/
theorem answered_of_reply {l : List BlockDescriptor} (hne : l ≠ [])
    (h : callRemote (getBlockDescriptorList step varName dims indexlb indexub) s = .ok l) :
    ∃ q own entries, BBX.ofIndex dims indexlb indexub = .ok q ∧
      Answered s step varName q l own entries := by
  have failed := body_ne_error hne h
  cases body_reads s step varName dims indexlb indexub with
  | box hq stops => exact absurd stops (failed _)
  | busy held stops => exact absurd stops (failed _)
  | raw free hraw stops => exact absurd stops (failed _)
  | unowned stops => exact absurd stops (failed _)
  | @own q own rdeplist free hq hraw hown =>
    have run := getBlockDescriptorListBody_run step varName free hq hraw hown
    cases ho : getOverlapBBX q own with
    | error e => exact absurd (run.trans (bind_error (lift_error ho))) (failed e)
    | ok r =>
      obtain ⟨hdim, hdims, hw⟩ := BBX.getOverlapBBX_eq_ok.mp ho
      by_cases hits : q.Hits own
      · rw [if_pos hits] at hw
        subst hw
        rw [respondOwnPart_run free hraw ho] at run
        cases ha : answerOf s step varName q own with
        | error e =>
          rw [ha] at run
          exact absurd run (failed e)
        | ok l' =>
          have reply := getBlockDescriptorList_reply free hq hown ho ha
          obtain rfl : l' = l := Except.ok.inj (reply.symm.trans h)
          obtain ⟨entries, he, hc, hl⟩ := answerOf_eq_ok hne ha
          exact ⟨q, own, entries, hq, hown, hdim, hdims, hits, he, hc, hl⟩
      · rw [if_neg hits] at hw
        subst hw
        have thrown : respondOwnPart step varName q rdeplist own ⟨s, []⟩ =
            .error (.runtime_error ("dht error, there should overlap between queried bbx " ++
              "and current metadata partition\n")) ⟨s, [[]]⟩ := by
          unfold respondOwnPart
          rw [bind_ok (lift_ok ho)]
          rfl
        rw [callRemote, Handler.replies, getBlockDescriptorList, catchException, run, thrown] at h
        cases h
        exact absurd rfl hne

/-- A server that gives out a list has its map free. -/
theorem free_of_reply {l : List BlockDescriptor} (hne : l ≠ [])
    (h : callRemote (getBlockDescriptorList step varName dims indexlb indexub) s = .ok l) :
    s.m_metaManager.m_metaDataMapMutex = false := by
  have failed := body_ne_error hne h
  cases body_reads s step varName dims indexlb indexub with
  | box hq stops => exact absurd stops (failed _)
  | busy held stops => exact absurd stops (failed _)
  | raw free hraw stops => exact free
  | unowned stops => exact absurd stops (failed _)
  | own free hq hraw hown => exact free

/-- What a server gives out depends on its metadata, its boxes and its rank. -/
theorem reply_congr {s' : UniServer} {l : List BlockDescriptor} (hne : l ≠ [])
    (h : callRemote (getBlockDescriptorList step varName dims indexlb indexub) s = .ok l)
    (metadata : s'.m_metaManager = s.m_metaManager) (dht : s'.m_dhtManager = s.m_dhtManager)
    (rank : s'.globalRank = s.globalRank) :
    callRemote (getBlockDescriptorList step varName dims indexlb indexub) s' = .ok l := by
  have free := free_of_reply hne h
  obtain ⟨q, own, entries, hq, ans⟩ := answered_of_reply hne h
  have own_eq : s'.m_dhtManager.metaServerIDToBBX.lookup s'.globalRank = some own := by
    rw [dht, rank]
    exact ans.own_eq
  refine getBlockDescriptorList_reply (metadata ▸ free) hq own_eq ?_ ?_
  · exact BBX.getOverlapBBX_eq_ok.mpr ⟨ans.dims_eq, ans.dims, by rw [if_pos ans.hits]⟩
  · refine bind_eq_ok.mpr ⟨entries, ?_, bind_eq_ok.mpr ⟨true, ans.covered, ans.overlaps⟩⟩
    rw [metadata]
    exact MetaDataManager.rawEndpoints_eq ans.entries_eq

end Gorilla
