import Gorilla.Server.Window

/-!
# What eviction leaves of the evicted steps

An eviction that returns rewrites the lists of the evicted steps by the status of their
descriptors and erases the blocks of those it drops.
-/

namespace Gorilla

open HandLock

namespace BlockDescriptor

def Stays (rde : BlockDescriptor) : Prop :=
  rde.m_metaStatus = .INPROCESS ∨ rde.m_metaStatus = .UNDELETABLE

def Doomed (rde : BlockDescriptor) : Prop :=
  rde.m_metaStatus = .BEFOREPROCESS ∨ rde.m_metaStatus = .AFTERPROCESS

instance (rde : BlockDescriptor) : Decidable rde.Stays := inferInstanceAs (Decidable (_ ∨ _))

instance (rde : BlockDescriptor) : Decidable rde.Doomed := inferInstanceAs (Decidable (_ ∨ _))

end BlockDescriptor

/-- What becomes of the list of a key. -/
abbrev Rewriting : Type :=
  Nat → String → String → List BlockDescriptor → Option (List BlockDescriptor)

namespace Servers

variable {s t u : Servers} {self : String} {step : Nat} {varName dataType : String}
  {W W' : Nat → Prop} {f g : Rewriting} {p q : String × String → Prop}

/-- The lists of the server are rewritten, those of the visited steps only, and the named blocks
are erased, wherever they are. The blocks that can be reached stay the same ones. -/
structure Evicts (here : String) (W : Nat → Prop) (f : Rewriting) (p : String × String → Prop)
    (s t : Servers) : Prop where
  outside : ∀ step, ¬ W step → (t.server here).m_metaManager.m_metaDataMap.lookup step =
    (s.server here).m_metaManager.m_metaDataMap.lookup step
  lists : ∀ step varName dataType, (t.server here).m_metaManager.endpointsOf step varName dataType =
    ((s.server here).m_metaManager.endpointsOf step varName dataType).bind (f step varName dataType)
  erased : ∀ a, (s.server a).m_blockManager.Erased (fun id => p (a, id)) (t.server a).m_blockManager
  reaches : ∀ b, t.Reaches b ↔ s.Reaches b

/-- A rewriting that leaves every list. -/
def same : Rewriting := fun _ _ _ list => some list

theorem bind_same (list : Option (List BlockDescriptor)) (step : Nat) (varName dataType : String) :
    list.bind (same step varName dataType) = list := Option.bind_fun_some list

theorem Evicts.refl (s : Servers) : Evicts self W same (fun _ => False) s s where
  outside _ _ := rfl
  lists step varName dataType := (bind_same _ step varName dataType).symm
  erased _ := BlockManager.Erased.refl _
  reaches _ := Iff.rfl

theorem Evicts.trans (h : Evicts self W f p s t) (h' : Evicts self W g q t u) :
    Evicts self W (fun step varName dataType list =>
      (f step varName dataType list).bind (g step varName dataType)) (fun b => p b ∨ q b) s u where
  outside step out := (h'.outside step out).trans (h.outside step out)
  lists step varName dataType := by
    rw [h'.lists, h.lists, Option.bind_assoc]
  erased a := (h.erased a).trans (h'.erased a)
  reaches b := (h'.reaches b).trans (h.reaches b)

theorem Evicts.mono (h : Evicts self W f p s t) (wider : ∀ step, W step → W' step) :
    Evicts self W' f p s t where
  outside step out := h.outside step fun visited => out (wider step visited)
  lists := h.lists
  erased := h.erased
  reaches := h.reaches

/-- The rewriting counts where there are lists. -/
theorem Evicts.congr (h : Evicts self W f p s t)
    (lists : ∀ step varName dataType list,
      (s.server self).m_metaManager.endpointsOf step varName dataType = some list →
        f step varName dataType list = g step varName dataType list)
    (named : ∀ b, p b ↔ q b) : Evicts self W g q s t where
  outside := h.outside
  lists step varName dataType := by
    rw [h.lists]
    cases held : (s.server self).m_metaManager.endpointsOf step varName dataType with
    | none => rfl
    | some list => exact lists step varName dataType list held
  erased a := (h.erased a).congr fun id => named (a, id)
  reaches := h.reaches

theorem evicts_onMeta {f : MetaDataManager → MetaDataManager} {g : Rewriting}
    (outside : ∀ m step, ¬ W step → (f m).m_metaDataMap.lookup step = m.m_metaDataMap.lookup step)
    (lists : ∀ step varName dataType,
      (f (s.server self).m_metaManager).endpointsOf step varName dataType =
        ((s.server self).m_metaManager.endpointsOf step varName dataType).bind
          (g step varName dataType)) :
    Evicts self W g (fun _ => False) s (s.onMeta self f) where
  outside step out := by rw [server_onMeta, if_pos rfl]; exact outside _ step out
  lists step varName dataType := by
    rw [server_onMeta, if_pos rfl]
    exact lists step varName dataType
  erased a := by rw [onMeta_blocks]; exact BlockManager.Erased.refl _
  reaches := reaches_onMeta f

theorem evicts_eraseBlock {serverAddr blockID : String}
    (reaches : s.Reaches (serverAddr, blockID)) :
    Evicts self W same (· = (serverAddr, blockID)) s (s.eraseBlock serverAddr blockID) where
  outside step _ := by rw [eraseBlock_meta]
  lists step varName dataType := by
    rw [eraseBlock_meta]
    exact (bind_same _ step varName dataType).symm
  erased a := erased_eraseBlock serverAddr blockID a
  reaches := reaches_eraseBlock reaches

/-- The lists of one variable are filtered, those of the given types. -/
def filters (step : Nat) (varName : String) (types : String → Prop) [DecidablePred types] :
    Rewriting := fun step' varName' dataType list =>
  if step' = step ∧ varName' = varName ∧ types dataType then some (list.filter (·.Stays))
  else some list

/-- The blocks of the descriptors of a list that are dropped. -/
def dropped (list : List BlockDescriptor) (b : String × String) : Prop :=
  ∃ rde ∈ list, rde.Doomed ∧ b = (rde.m_rawDataServerAddr, rde.m_rawDataID)

/-- The list is written at its key. -/
def writes (step : Nat) (varName dataType : String) (list : List BlockDescriptor) : Rewriting :=
  fun step' varName' dataType' list' =>
    if step' = step ∧ varName' = varName ∧ dataType' = dataType then some list else some list'

theorem evicts_putListOf {old : List BlockDescriptor}
    (own : (s.server self).m_metaManager.endpointsOf step varName dataType = some old)
    (list : List BlockDescriptor) :
    Evicts self (· = step) (writes step varName dataType list) (fun _ => False) s
      (s.onMeta self fun m => m.putListOf step varName dataType list) := by
  refine evicts_onMeta (fun m step' ne => AList.lookup_insert_ne ne)
    fun step' varName' dataType' => ?_
  rw [MetaDataManager.endpointsOf_putListOf]
  split
  · rename_i key
    obtain ⟨rfl, rfl, rfl⟩ := key
    rw [own, Option.bind_some, writes, if_pos ⟨rfl, rfl, rfl⟩]
  · rename_i other
    cases (s.server self).m_metaManager.endpointsOf step' varName' dataType' with
    | none => rfl
    | some list' => rw [Option.bind_some, writes, if_neg other]

theorem evictVector_stays {kept rest : List BlockDescriptor} {rde : BlockDescriptor}
    (h : rde.Stays) : evictVector self step varName dataType kept (rde :: rest) =
      evictVector self step varName dataType (kept ++ [rde]) rest := by
  unfold BlockDescriptor.Stays at h
  rcases h with h | h
  · rw [evictVector, h]
  · rw [evictVector, h]

/-- The state after one descriptor was dropped with its block. -/
def dropOne (s : Servers) (self : String) (step : Nat) (varName dataType : String)
    (list : List BlockDescriptor) (rde : BlockDescriptor) : Servers :=
  (s.onMeta self fun m => m.putListOf step varName dataType list).eraseBlock
    rde.m_rawDataServerAddr rde.m_rawDataID

theorem evictVector_drops {kept rest : List BlockDescriptor} {rde : BlockDescriptor}
    (h : rde.Doomed) : evictVector self step varName dataType kept (rde :: rest) = (do
      modify fun s => s.onMeta self fun m => m.putListOf step varName dataType (kept ++ rest)
      eraseRawData rde.m_rawDataServerAddr rde.m_rawDataID
      evictVector self step varName dataType kept rest) := by
  unfold BlockDescriptor.Doomed at h
  rcases h with h | h
  · rw [evictVector, h]
  · rw [evictVector, h]

/-- A descriptor is dropped, and the loop goes on when its block is erased. -/
theorem evictVector_doomed {kept rest : List BlockDescriptor} {rde : BlockDescriptor}
    (h : rde.Doomed) : evictVector self step varName dataType kept (rde :: rest) s = .ok () t ↔
      s.Reaches (rde.m_rawDataServerAddr, rde.m_rawDataID) ∧
        evictVector self step varName dataType kept rest
          (s.dropOne self step varName dataType (kept ++ rest) rde) = .ok () t := by
  let b := (rde.m_rawDataServerAddr, rde.m_rawDataID)
  let wrote := s.onMeta self fun m => m.putListOf step varName dataType (kept ++ rest)
  have reaches : wrote.Reaches b ↔ s.Reaches b := reaches_onMeta _ b
  rw [evictVector_drops h, bind_ok (modify_run _ s), bind_run_eq_ok]
  constructor
  · rintro ⟨_, v, erased, run⟩
    obtain ⟨found, rfl⟩ := (@eraseRawData_eq_ok wrote v b).mp erased
    exact ⟨reaches.mp found, run⟩
  · rintro ⟨found, run⟩
    exact ⟨(), _, (@eraseRawData_eq_ok wrote _ b).mpr ⟨reaches.mpr found, rfl⟩, run⟩

theorem reaches_dropOne {list : List BlockDescriptor} {rde : BlockDescriptor}
    (h : s.Reaches (rde.m_rawDataServerAddr, rde.m_rawDataID)) (b : String × String) :
    (s.dropOne self step varName dataType list rde).Reaches b ↔ s.Reaches b := by
  let wrote := s.onMeta self fun m => m.putListOf step varName dataType list
  have found : wrote.Reaches (rde.m_rawDataServerAddr, rde.m_rawDataID) :=
    (reaches_onMeta _ _).mpr h
  exact (reaches_eraseBlock found b).trans (reaches_onMeta _ b)

theorem evicts_dropOne {old : List BlockDescriptor}
    (own : (s.server self).m_metaManager.endpointsOf step varName dataType = some old)
    (list : List BlockDescriptor) {rde : BlockDescriptor}
    (reaches : s.Reaches (rde.m_rawDataServerAddr, rde.m_rawDataID)) :
    Evicts self (· = step) (writes step varName dataType list)
      (· = (rde.m_rawDataServerAddr, rde.m_rawDataID)) s
      (s.dropOne self step varName dataType list rde) := by
  have found : (s.onMeta self fun m => m.putListOf step varName dataType list).Reaches
      (rde.m_rawDataServerAddr, rde.m_rawDataID) := (reaches_onMeta _ _).mpr reaches
  refine ((evicts_putListOf own list).trans (evicts_eraseBlock found)).congr ?_ fun b => by simp
  intro step' varName' dataType' list' _
  exact bind_same _ step' varName' dataType'

theorem evictVector_evicts {kept rest : List BlockDescriptor}
    (own : (s.server self).m_metaManager.endpointsOf step varName dataType = some (kept ++ rest))
    (clean : ∀ rde ∈ rest, rde.m_metaStatus ≠ .ERROR)
    (reaches : ∀ b, dropped rest b → s.Reaches b) :
    ∃ t, evictVector self step varName dataType kept rest s = .ok () t ∧
      Evicts self (· = step) (writes step varName dataType (kept ++ rest.filter (·.Stays)))
        (dropped rest) s t := by
  induction rest generalizing kept s with
  | nil =>
    refine ⟨s, rfl, (Evicts.refl s).congr ?_ fun b => by simp [dropped]⟩
    intro step' varName' dataType' list held
    unfold same writes
    split
    · rename_i key
      obtain ⟨rfl, rfl, rfl⟩ := key
      rw [own] at held
      simpa using held.symm
    · rfl
  | cons rde rest ih =>
    have clean' : ∀ rde ∈ rest, rde.m_metaStatus ≠ .ERROR := fun rde' mem =>
      clean rde' (List.mem_cons_of_mem rde mem)
    have reaches' : ∀ b, dropped rest b → s.Reaches b := fun b ⟨rde', mem, doomed⟩ =>
      reaches b ⟨rde', List.mem_cons_of_mem rde mem, doomed⟩
    by_cases stays : rde.Stays
    · have own' : (s.server self).m_metaManager.endpointsOf step varName dataType =
          some ((kept ++ [rde]) ++ rest) := by simpa using own
      obtain ⟨t, run, evicts⟩ := ih own' clean' reaches'
      refine ⟨t, (congrFun (evictVector_stays stays) s).trans run, ?_⟩
      have undoomed : ¬ rde.Doomed := by
        unfold BlockDescriptor.Stays at stays
        unfold BlockDescriptor.Doomed
        rcases stays with status | status <;> simp [status]
      refine evicts.congr (fun _ _ _ _ _ => ?_) fun b => by simp [dropped, undoomed]
      simp [stays]
    · have doomed : rde.Doomed := by
        have known := clean rde (List.mem_cons_self ..)
        unfold BlockDescriptor.Stays at stays
        unfold BlockDescriptor.Doomed
        cases h : rde.m_metaStatus <;> simp_all
      have found := reaches _ ⟨rde, List.mem_cons_self .., doomed, rfl⟩
      have first := evicts_dropOne own (kept ++ rest) found
      have own' : ((s.dropOne self step varName dataType (kept ++ rest) rde).server
          self).m_metaManager.endpointsOf step varName dataType = some (kept ++ rest) := by
        rw [first.lists, own, Option.bind_some, writes, if_pos ⟨rfl, rfl, rfl⟩]
      obtain ⟨t, run, evicts⟩ := ih own' clean' fun b named =>
        (first.reaches b).mpr (reaches' b named)
      refine ⟨t, (evictVector_doomed doomed).mpr ⟨found, run⟩, ?_⟩
      refine (first.trans evicts).congr (fun step' varName' dataType' list _ => ?_) fun b => ?_
      · unfold writes
        by_cases key : step' = step ∧ varName' = varName ∧ dataType' = dataType
        · simp [key, stays]
        · simp [key]
      · simp [dropped, doomed]

/-- A descriptor without a status holds the loop, and so does a block that cannot be erased. -/
theorem evicted_of_evictVector {kept rest : List BlockDescriptor}
    (h : evictVector self step varName dataType kept rest s = .ok () t) :
    (∀ rde ∈ rest, rde.m_metaStatus ≠ .ERROR) ∧ (∀ b, dropped rest b → s.Reaches b) ∧
      ∀ b, t.Reaches b ↔ s.Reaches b := by
  induction rest generalizing kept s with
  | nil =>
    cases h
    exact ⟨fun _ mem => (nomatch mem), fun _ ⟨_, mem, _⟩ => (nomatch mem), fun _ => Iff.rfl⟩
  | cons rde rest ih =>
    by_cases stays : rde.Stays
    · rw [evictVector_stays stays] at h
      obtain ⟨clean, reaches, still⟩ := ih h
      unfold BlockDescriptor.Stays at stays
      refine ⟨List.forall_mem_cons.mpr ⟨?_, clean⟩, ?_, still⟩
      · rcases stays with status | status <;> simp [status]
      · rintro b ⟨rde', mem, doomed, named⟩
        rcases List.mem_cons.mp mem with rfl | mem
        · unfold BlockDescriptor.Doomed at doomed
          rcases stays with status | status <;> simp [status] at doomed
        · exact reaches b ⟨rde', mem, doomed, named⟩
    · by_cases doomed : rde.Doomed
      · obtain ⟨found, run⟩ := (evictVector_doomed doomed).mp h
        obtain ⟨clean, reaches, still⟩ := ih run
        have same := @reaches_dropOne s self step varName dataType (kept ++ rest) rde found
        refine ⟨List.forall_mem_cons.mpr ⟨?_, clean⟩, ?_, fun b => (still b).trans (same b)⟩
        · unfold BlockDescriptor.Doomed at doomed
          rcases doomed with status | status <;> simp [status]
        · rintro b ⟨rde', mem, doomed', named⟩
          rcases List.mem_cons.mp mem with rfl | mem
          · exact named ▸ found
          · exact (same b).mp (reaches b ⟨rde', mem, doomed', named⟩)
      · have error : rde.m_metaStatus = .ERROR := by
          unfold BlockDescriptor.Stays at stays
          unfold BlockDescriptor.Doomed at doomed
          cases status : rde.m_metaStatus <;> simp_all
        rw [evictVector, error] at h
        cases h

/-- The vectors of a variable, one for each data type. -/
abbrev Vectors : Type := List ((_ : String) × List BlockDescriptor)

/-- No descriptor of the vectors is without a status. -/
def Clean (vectors : Vectors) : Prop :=
  ∀ kvinner ∈ vectors, ∀ rde ∈ kvinner.2, rde.m_metaStatus ≠ .ERROR

/-- The blocks the vectors drop. -/
def droppedOf (vectors : Vectors) (b : String × String) : Prop :=
  ∃ kvinner ∈ vectors, dropped kvinner.2 b

theorem evictVectors_evicts {vectors : Vectors} (distinct : vectors.NodupKeys)
    (own : ∀ kvinner ∈ vectors, (s.server self).m_metaManager.endpointsOf step varName kvinner.1 =
      some kvinner.2)
    (clean : Clean vectors) (reaches : ∀ b, droppedOf vectors b → s.Reaches b) :
    ∃ t, (vectors.forM fun kvinner => evictVector self step varName kvinner.1 [] kvinner.2) s =
        .ok () t ∧
      Evicts self (· = step) (filters step varName (· ∈ vectors.keys)) (droppedOf vectors) s t := by
  induction vectors generalizing s with
  | nil =>
    refine ⟨s, rfl, (Evicts.refl s).congr (fun _ _ _ _ _ => ?_) fun b => by simp [droppedOf]⟩
    simp [same, filters]
  | cons kvinner vectors ih =>
    obtain ⟨fresh, distinct'⟩ := List.nodupKeys_cons.mp distinct
    obtain ⟨v, run, first⟩ := @evictVector_evicts s self step varName kvinner.1 [] kvinner.2
      (own kvinner (List.mem_cons_self ..)) (clean kvinner (List.mem_cons_self ..))
      fun b named => reaches b ⟨kvinner, List.mem_cons_self .., named⟩
    have own' : ∀ other ∈ vectors,
        (v.server self).m_metaManager.endpointsOf step varName other.1 = some other.2 := by
      intro other mem
      have ne : other.1 ≠ kvinner.1 := fun same =>
        fresh (same ▸ List.mem_keys_of_mem mem)
      rw [first.lists, own other (List.mem_cons_of_mem kvinner mem), Option.bind_some, writes,
        if_neg fun key => ne key.2.2]
    obtain ⟨t, rest, evicts⟩ := ih distinct' own'
      (fun other mem => clean other (List.mem_cons_of_mem kvinner mem))
      fun b ⟨other, mem, named⟩ =>
        (first.reaches b).mpr (reaches b ⟨other, List.mem_cons_of_mem kvinner mem, named⟩)
    refine ⟨t, bind_run_eq_ok.mpr ⟨(), v, run, rest⟩, ?_⟩
    refine (first.trans evicts).congr (fun step' varName' dataType' list held => ?_) fun b => ?_
    · by_cases now : step' = step ∧ varName' = varName ∧ dataType' = kvinner.1
      · obtain ⟨rfl, rfl, rfl⟩ := now
        obtain rfl := Option.some.inj ((own kvinner (List.mem_cons_self ..)).symm.trans held)
        simp [writes, filters, fresh]
      · have keys : dataType' ∈ (kvinner :: vectors).keys ↔
            dataType' = kvinner.1 ∨ dataType' ∈ vectors.keys := by
          rw [List.keys_cons, List.mem_cons]
        rw [writes, if_neg now, Option.bind_some, filters, filters]
        by_cases later : step' = step ∧ varName' = varName ∧ dataType' ∈ vectors.keys
        · rw [if_pos later, if_pos ⟨later.1, later.2.1, keys.mpr (.inr later.2.2)⟩]
        · rw [if_neg later, if_neg]
          rintro ⟨hs, hv, mem⟩
          rcases keys.mp mem with ht | mem
          · exact now ⟨hs, hv, ht⟩
          · exact later ⟨hs, hv, mem⟩
    · simp [droppedOf]

theorem evicted_of_evictVectors {vectors : Vectors}
    (h : (vectors.forM fun kvinner => evictVector self step varName kvinner.1 [] kvinner.2) s =
      .ok () t) : Clean vectors ∧ ∀ b, droppedOf vectors b → s.Reaches b := by
  induction vectors generalizing s with
  | nil => exact ⟨fun _ mem => (nomatch mem), fun _ ⟨_, mem, _⟩ => (nomatch mem)⟩
  | cons kvinner vectors ih =>
    obtain ⟨_, v, first, rest⟩ := bind_run_eq_ok.mp h
    obtain ⟨clean, reaches, kept⟩ := evicted_of_evictVector first
    obtain ⟨clean', reaches'⟩ := ih rest
    refine ⟨List.forall_mem_cons.mpr ⟨clean, clean'⟩, ?_⟩
    rintro b ⟨other, mem, named⟩
    rcases List.mem_cons.mp mem with rfl | mem
    · exact reaches b named
    · exact (kept b).mp (reaches' b ⟨other, mem, named⟩)

/-- What is left of a list. The count of the grids goes through an `int`. -/
def left (dataType : String) (list : List BlockDescriptor) : Option (List BlockDescriptor) :=
  if dataType = DATATYPE_CARGRID ∧ sizeToInt (list.filter (·.Stays)).length = 0 then none
  else some (list.filter (·.Stays))

/-- The lists of some variables of a step are evicted. -/
def leaves (step : Nat) (vars : String → Prop) [DecidablePred vars] : Rewriting :=
  fun step' varName dataType list =>
    if step' = step ∧ vars varName then left dataType list else some list

theorem evictBlock_eq_ok {b : MetaDataBlock} : evictBlock self step varName b s = .ok () u ↔
    ∃ t, (b.m_metadataBlock.entries.forM fun kvinner =>
        evictVector self step varName kvinner.1 [] kvinner.2) s = .ok () t ∧
      ∃ grids, (t.server self).m_metaManager.endpointsOf step varName DATATYPE_CARGRID =
          some grids ∧
        u = if sizeToInt grids.length = 0 then
            t.onMeta self fun m => m.eraseBlocksOf step varName DATATYPE_CARGRID
          else t := by
  have tail : ∀ t : Servers, (do
      let m := ((← get).server self).m_metaManager
      let blockSize ← ((m.blockOf step varName).getD ∅).getBlockNumberByVersion DATATYPE_CARGRID
      if blockSize = 0 then
        modify fun s => s.onMeta self fun m => m.eraseBlocksOf step varName DATATYPE_CARGRID
      : EStateM Stop Servers Unit) t = .ok () u ↔
      ∃ grids, (t.server self).m_metaManager.endpointsOf step varName DATATYPE_CARGRID =
          some grids ∧
        u = if sizeToInt grids.length = 0 then
            t.onMeta self fun m => m.eraseBlocksOf step varName DATATYPE_CARGRID
          else t := by
    intro t
    let b := ((t.server self).m_metaManager.blockOf step varName).getD ∅
    have held : b.m_metadataBlock.lookup DATATYPE_CARGRID =
        (t.server self).m_metaManager.endpointsOf step varName DATATYPE_CARGRID :=
      MetaDataManager.endpointsOf_getD
    show (liftM (b.getBlockNumberByVersion DATATYPE_CARGRID) >>= fun blockSize =>
      if blockSize = 0 then _ else pure () : EStateM Stop Servers Unit) t = _ ↔ _
    rw [← held, MetaDataBlock.getBlockNumberByVersion]
    cases b.m_metadataBlock.lookup DATATYPE_CARGRID with
    | none =>
      rw [bind_error (lift_error rfl)]
      simp
    | some grids =>
      rw [bind_ok (lift_ok rfl)]
      by_cases empty : sizeToInt grids.length = 0
      · simp only [empty, if_true, Option.some.injEq, exists_eq_left']
        exact ⟨fun run => by cases run; rfl, fun same => same ▸ rfl⟩
      · simp only [empty, if_false, Option.some.injEq, exists_eq_left']
        exact ⟨fun run => by cases run; rfl, fun same => same ▸ rfl⟩
  unfold evictBlock
  rw [bind_run_eq_ok]
  constructor
  · rintro ⟨_, t, run, rest⟩
    exact ⟨t, run, (tail t).mp rest⟩
  · rintro ⟨t, run, rest⟩
    exact ⟨(), t, run, (tail t).mpr rest⟩

/-- The variable has grids, all of its descriptors have a status, and the blocks of those it
drops are reached. -/
structure Evictable (s : Servers) (b : MetaDataBlock) : Prop where
  grids : ∃ list, b.m_metadataBlock.lookup DATATYPE_CARGRID = some list
  clean : Clean b.m_metadataBlock.entries
  reaches : ∀ rde, droppedOf b.m_metadataBlock.entries rde → s.Reaches rde

theorem evictable_congr {b : MetaDataBlock} (same : ∀ rde, t.Reaches rde ↔ s.Reaches rde) :
    t.Evictable b ↔ s.Evictable b := by
  constructor
  · rintro ⟨grids, clean, reaches⟩
    exact ⟨grids, clean, fun rde named => (same rde).mp (reaches rde named)⟩
  · rintro ⟨grids, clean, reaches⟩
    exact ⟨grids, clean, fun rde named => (same rde).mpr (reaches rde named)⟩

/-- The metadata of the variable as it is when the loop comes to it. -/
def Current (s : Servers) (self : String) (step : Nat) (varName : String) (b : MetaDataBlock) :
    Prop :=
  ∀ dataType, (s.server self).m_metaManager.endpointsOf step varName dataType =
    b.m_metadataBlock.lookup dataType

theorem evictVectors_block {b : MetaDataBlock} (own : s.Current self step varName b)
    (clean : Clean b.m_metadataBlock.entries)
    (reaches : ∀ rde, droppedOf b.m_metadataBlock.entries rde → s.Reaches rde) :
    ∃ t, (b.m_metadataBlock.entries.forM fun kvinner =>
        evictVector self step varName kvinner.1 [] kvinner.2) s = .ok () t ∧
      Evicts self (· = step) (filters step varName (· ∈ b.m_metadataBlock.entries.keys))
        (droppedOf b.m_metadataBlock.entries) s t :=
  evictVectors_evicts b.m_metadataBlock.nodupKeys
    (fun kvinner mem => (own kvinner.1).trans (AList.mem_lookup_iff.mpr mem)) clean
    reaches

theorem evicts_eraseBlocksOf :
    Evicts self (· = step) (fun step' varName' dataType' list =>
        if step' = step ∧ varName' = varName ∧ dataType' = dataType then none else some list)
      (fun _ => False) s (s.onMeta self fun m => m.eraseBlocksOf step varName dataType) := by
  refine evicts_onMeta (fun m step' ne => AList.lookup_insert_ne ne)
    fun step' varName' dataType' => ?_
  rw [MetaDataManager.endpointsOf_eraseBlocksOf]
  cases (s.server self).m_metaManager.endpointsOf step' varName' dataType' with
  | none => simp
  | some list =>
    split <;> simp

theorem evictBlock_evicts {b : MetaDataBlock} (own : s.Current self step varName b)
    (evictable : s.Evictable b) :
    ∃ t, evictBlock self step varName b s = .ok () t ∧
      Evicts self (· = step) (leaves step (· = varName))
        (droppedOf b.m_metadataBlock.entries) s t := by
  obtain ⟨t, run, filtered⟩ := evictVectors_block own evictable.clean evictable.reaches
  obtain ⟨list, held⟩ := evictable.grids
  have key : ∀ dataType list, b.m_metadataBlock.lookup dataType = some list →
      dataType ∈ b.m_metadataBlock.entries.keys := fun dataType list held =>
    AList.mem_keys.mp (AList.lookup_isSome.mp (by rw [held]; rfl))
  have grids : (t.server self).m_metaManager.endpointsOf step varName DATATYPE_CARGRID =
      some (list.filter (·.Stays)) := by
    rw [filtered.lists, own, held, Option.bind_some, filters, if_pos ⟨rfl, rfl, key _ _ held⟩]
  have filters_eq : ∀ step' varName' dataType' list',
      (s.server self).m_metaManager.endpointsOf step' varName' dataType' = some list' →
        filters step varName (· ∈ b.m_metadataBlock.entries.keys) step' varName' dataType' list' =
          if step' = step ∧ varName' = varName then some (list'.filter (·.Stays))
          else some list' := by
    intro step' varName' dataType' list' held'
    by_cases mine : step' = step ∧ varName' = varName
    · obtain ⟨rfl, rfl⟩ := mine
      have mem := key dataType' list' ((own dataType').symm.trans held')
      rw [filters, if_pos ⟨rfl, rfl, mem⟩, if_pos ⟨rfl, rfl⟩]
    · rw [filters, if_neg mine, if_neg fun h => mine ⟨h.1, h.2.1⟩]
  by_cases empty : sizeToInt (list.filter (·.Stays)).length = 0
  · refine ⟨_, evictBlock_eq_ok.mpr ⟨t, run, _, grids, (if_pos empty).symm⟩, ?_⟩
    refine (filtered.trans evicts_eraseBlocksOf).congr
      (fun step' varName' dataType' list' held' => ?_)
      fun b => by simp
    rw [filters_eq step' varName' dataType' list' held', leaves]
    by_cases mine : step' = step ∧ varName' = varName
    · obtain ⟨rfl, rfl⟩ := mine
      rw [if_pos ⟨rfl, rfl⟩, if_pos ⟨rfl, rfl⟩, Option.bind_some, left]
      by_cases grid : dataType' = DATATYPE_CARGRID
      · subst grid
        obtain rfl := Option.some.inj (held.symm.trans ((own _).symm.trans held'))
        rw [if_pos ⟨rfl, rfl, rfl⟩, if_pos ⟨rfl, empty⟩]
      · rw [if_neg fun h => grid h.2.2, if_neg fun h => grid h.1]
    · rw [if_neg mine, if_neg mine, Option.bind_some, if_neg fun h => mine ⟨h.1, h.2.1⟩]
  · refine ⟨_, evictBlock_eq_ok.mpr ⟨t, run, _, grids, (if_neg empty).symm⟩, ?_⟩
    refine filtered.congr (fun step' varName' dataType' list' held' => ?_) fun b => Iff.rfl
    rw [filters_eq step' varName' dataType' list' held', leaves]
    by_cases mine : step' = step ∧ varName' = varName
    · obtain ⟨rfl, rfl⟩ := mine
      rw [if_pos ⟨rfl, rfl⟩, if_pos ⟨rfl, rfl⟩, left, if_neg]
      rintro ⟨rfl, none⟩
      obtain rfl := Option.some.inj (held.symm.trans ((own _).symm.trans held'))
      exact empty none
    · rw [if_neg mine, if_neg mine]

theorem evictable_of_evictBlock {b : MetaDataBlock} (own : s.Current self step varName b)
    (h : evictBlock self step varName b s = .ok () t) : s.Evictable b := by
  obtain ⟨v, run, grids, held, _⟩ := evictBlock_eq_ok.mp h
  obtain ⟨clean, reaches⟩ := evicted_of_evictVectors run
  obtain ⟨v', run', filtered⟩ := evictVectors_block own clean reaches
  rw [run] at run'
  cases run'
  rw [filtered.lists, own] at held
  obtain ⟨list, had, _⟩ := Option.bind_eq_some_iff.mp held
  exact ⟨⟨list, had⟩, clean, reaches⟩

/-- The variables of a step. -/
abbrev Variables : Type := List ((_ : String) × MetaDataBlock)

def droppedFrom (vars : Variables) (b : String × String) : Prop :=
  ∃ kv ∈ vars, droppedOf kv.2.m_metadataBlock.entries b

/-- One variable that is done leaves the others as they are. -/
theorem Evicts.current {b : MetaDataBlock} {varName' : String}
    (h : Evicts self W (leaves step (· = varName)) p s t) (ne : varName' ≠ varName)
    (own : s.Current self step varName' b) : t.Current self step varName' b := by
  intro dataType
  rw [h.lists, own dataType]
  cases b.m_metadataBlock.lookup dataType with
  | none => rfl
  | some list => rw [Option.bind_some, leaves, if_neg fun mine => ne mine.2]

theorem evictVars_evicts {vars : Variables} (distinct : vars.NodupKeys)
    (own : ∀ kv ∈ vars, s.Current self step kv.1 kv.2) (evictable : ∀ kv ∈ vars, s.Evictable kv.2) :
    ∃ t, (vars.forM fun kv => evictBlock self step kv.1 kv.2) s = .ok () t ∧
      Evicts self (· = step) (leaves step (· ∈ vars.keys)) (droppedFrom vars) s t := by
  induction vars generalizing s with
  | nil =>
    refine ⟨s, rfl, (Evicts.refl s).congr (fun _ _ _ _ _ => ?_) fun b => by simp [droppedFrom]⟩
    simp [same, leaves]
  | cons kv vars ih =>
    obtain ⟨fresh, distinct'⟩ := List.nodupKeys_cons.mp distinct
    obtain ⟨v, run, first⟩ := evictBlock_evicts (own kv (List.mem_cons_self ..))
      (evictable kv (List.mem_cons_self ..))
    obtain ⟨t, rest, evicts⟩ := ih distinct'
      (fun other mem => first.current (fun same => fresh (same ▸ List.mem_keys_of_mem mem))
        (own other (List.mem_cons_of_mem kv mem)))
      fun other mem =>
        (evictable_congr first.reaches).mpr (evictable other (List.mem_cons_of_mem kv mem))
    refine ⟨t, bind_run_eq_ok.mpr ⟨(), v, run, rest⟩, ?_⟩
    refine (first.trans evicts).congr (fun step' varName' dataType list _ => ?_) fun b => ?_
    · unfold leaves
      rw [List.keys_cons]
      simp only [List.mem_cons]
      by_cases now : step' = step ∧ varName' = kv.1
      · obtain ⟨rfl, rfl⟩ := now
        simp [fresh]
      · by_cases later : step' = step ∧ varName' ∈ vars.keys
        · have ne : varName' ≠ kv.1 := fun same => now ⟨later.1, same⟩
          simp [later, ne]
        · rw [if_neg now, Option.bind_some, if_neg later, if_neg]
          rintro ⟨hs, rfl | mem⟩
          · exact now ⟨hs, rfl⟩
          · exact later ⟨hs, mem⟩
    · simp [droppedFrom]

theorem evictable_of_evictVars {vars : Variables} (distinct : vars.NodupKeys)
    (own : ∀ kv ∈ vars, s.Current self step kv.1 kv.2)
    (h : (vars.forM fun kv => evictBlock self step kv.1 kv.2) s = .ok () t) :
    ∀ kv ∈ vars, s.Evictable kv.2 := by
  induction vars generalizing s with
  | nil => exact fun _ mem => nomatch mem
  | cons kv vars ih =>
    obtain ⟨fresh, distinct'⟩ := List.nodupKeys_cons.mp distinct
    obtain ⟨_, v, run, rest⟩ := bind_run_eq_ok.mp h
    have now := evictable_of_evictBlock (own kv (List.mem_cons_self ..)) run
    obtain ⟨v', run', first⟩ := evictBlock_evicts (own kv (List.mem_cons_self ..)) now
    cases run.symm.trans run'
    intro other mem
    rcases List.mem_cons.mp mem with rfl | mem
    · exact now
    · exact (evictable_congr first.reaches).mp (ih distinct' (fun other mem => first.current
        (fun same => fresh (same ▸ List.mem_keys_of_mem mem))
        (own other (List.mem_cons_of_mem kv mem))) rest other mem)

/-- The variables of a step, as the map has them. -/
def varsOf (s : Servers) (self : String) (step : Nat) : StepMetaData :=
  ((s.server self).m_metaManager.m_metaDataMap.lookup step).getD ∅

/-- Every variable of the step can be evicted. -/
def EvictableStep (s : Servers) (self : String) (step : Nat) : Prop :=
  ∀ kv ∈ (s.varsOf self step).entries, s.Evictable kv.2

theorem evictableStep_congr (vars : t.varsOf self step = s.varsOf self step)
    (same : ∀ rde, t.Reaches rde ↔ s.Reaches rde) :
    t.EvictableStep self step ↔ s.EvictableStep self step := by
  unfold EvictableStep
  rw [vars]
  exact forall₂_congr fun kv _ => evictable_congr same

theorem current_varsOf : ∀ kv ∈ (s.varsOf self step).entries, s.Current self step kv.1 kv.2 := by
  intro kv mem dataType
  unfold varsOf at mem
  rw [MetaDataManager.endpointsOf, MetaDataManager.blockOf]
  cases h : (s.server self).m_metaManager.m_metaDataMap.lookup step with
  | none =>
    rw [h] at mem
    cases mem
  | some vars =>
    rw [h] at mem
    have stored : vars.lookup kv.1 = some kv.2 := AList.mem_lookup_iff.mpr mem
    rw [Option.bind_some, stored, Option.bind_some]

/-- The blocks the eviction of a step erases. -/
def DroppedAt (s : Servers) (self : String) (step : Nat) (b : String × String) : Prop :=
  ∃ rde, (s.server self).m_metaManager.Describes step rde ∧ rde.Doomed ∧
    b = (rde.m_rawDataServerAddr, rde.m_rawDataID)

theorem droppedFrom_iff {b : String × String} :
    droppedFrom (s.varsOf self step).entries b ↔ s.DroppedAt self step b := by
  simp only [droppedFrom, droppedOf, dropped, DroppedAt, MetaDataManager.describes_iff, varsOf]
  constructor
  · rintro ⟨kv, hkv, kvinner, hinner, rde, hrde, doomed, rfl⟩
    exact ⟨rde, ⟨kv, hkv, kvinner, hinner, hrde⟩, doomed, rfl⟩
  · rintro ⟨rde, ⟨kv, hkv, kvinner, hinner, hrde⟩, doomed, rfl⟩
    exact ⟨kv, hkv, kvinner, hinner, rde, hrde, doomed, rfl⟩

theorem evicts_touchStep : Evicts self (· = step) same (fun _ => False) s
    (s.onMeta self fun m => m.touchStep step) := by
  refine evicts_onMeta ?_ fun step' varName dataType => ?_
  · intro m step' ne
    unfold MetaDataManager.touchStep
    split
    · rfl
    · exact AList.lookup_insert_ne ne
  · rw [MetaDataManager.endpointsOf_touchStep, bind_same]

theorem varsOf_touchStep :
    (s.onMeta self fun m => m.touchStep step).varsOf self step = s.varsOf self step := by
  unfold varsOf
  rw [server_onMeta, if_pos rfl]
  show (AList.lookup step (MetaDataManager.touchStep _ step).m_metaDataMap).getD ∅ = _
  unfold MetaDataManager.touchStep
  split
  · rfl
  · rename_i fresh
    rw [AList.lookup_insert, fresh]
    rfl

theorem evictStep_run : evictStep self step s =
    ((s.varsOf self step).entries.forM fun kv => evictBlock self step kv.1 kv.2)
      (s.onMeta self fun m => m.touchStep step) := by
  rw [← varsOf_touchStep]
  rfl

theorem evictStep_evicts (evictable : s.EvictableStep self step) :
    ∃ t, evictStep self step s = .ok () t ∧
      Evicts self (· = step) (leaves step fun _ => True) (s.DroppedAt self step) s t := by
  have touched : Evicts self (· = step) same (fun _ => False) s
      (s.onMeta self fun m => m.touchStep step) := evicts_touchStep
  have own : ∀ kv ∈ (s.varsOf self step).entries,
      (s.onMeta self fun m => m.touchStep step).Current self step kv.1 kv.2 := by
    rw [← varsOf_touchStep]
    exact current_varsOf
  have evictable' : ∀ kv ∈ (s.varsOf self step).entries,
      (s.onMeta self fun m => m.touchStep step).Evictable kv.2 := fun kv mem =>
    (evictable_congr (reaches_onMeta _)).mpr (evictable kv mem)
  obtain ⟨t, run, evicts⟩ := evictVars_evicts (s.varsOf self step).nodupKeys own evictable'
  refine ⟨t, evictStep_run.trans run, ?_⟩
  refine (touched.trans evicts).congr (fun step' varName dataType list held => ?_) fun b => ?_
  · rw [same, Option.bind_some, leaves, leaves]
    by_cases mine : step' = step
    · subst mine
      have key : varName ∈ (s.varsOf self step').entries.keys := by
        obtain ⟨block, hb, _⟩ := Option.bind_eq_some_iff.mp held
        obtain ⟨vars, hs, stored⟩ := Option.bind_eq_some_iff.mp hb
        rw [varsOf, hs]
        exact AList.mem_keys.mp (AList.lookup_isSome.mp (by rw [Option.getD_some, stored]; rfl))
      rw [if_pos ⟨rfl, key⟩, if_pos ⟨rfl, trivial⟩]
    · rw [if_neg fun h => mine h.1, if_neg fun h => mine h.1]
  · rw [droppedFrom_iff]
    simp

theorem evictable_of_evictStep (h : evictStep self step s = .ok () t) :
    s.EvictableStep self step := by
  have own : ∀ kv ∈ (s.varsOf self step).entries,
      (s.onMeta self fun m => m.touchStep step).Current self step kv.1 kv.2 := by
    rw [← varsOf_touchStep]
    exact current_varsOf
  have evictable := evictable_of_evictVars (s.varsOf self step).nodupKeys own
    (evictStep_run.symm.trans h)
  exact fun kv mem => (evictable_congr (reaches_onMeta _)).mp (evictable kv mem)

theorem evicts_mapMutex (b : Bool) :
    Evicts self W same (fun _ => False) s ((mapMutex self).put b s) := by
  rw [mapMutex_put]
  exact evicts_onMeta (fun _ _ _ => rfl) fun step varName dataType =>
    (bind_same _ step varName dataType).symm

theorem varsOf_mapMutex (b : Bool) (step : Nat) :
    ((mapMutex self).put b s).varsOf self step = s.varsOf self step := by
  unfold varsOf
  rw [(evicts_mapMutex b : Evicts self (fun _ => False) same _ s _).outside step id]

theorem evictableStep_mapMutex (b : Bool) :
    ((mapMutex self).put b s).EvictableStep self step ↔ s.EvictableStep self step :=
  evictableStep_congr (varsOf_mapMutex b step) (reaches_locked b)

theorem droppedAt_congr {b : String × String}
    (h : ∀ varName dataType, (t.server self).m_metaManager.endpointsOf step varName dataType =
      (s.server self).m_metaManager.endpointsOf step varName dataType) :
    t.DroppedAt self step b ↔ s.DroppedAt self step b := by
  simp only [DroppedAt, MetaDataManager.Describes, MetaDataManager.listOf, h]

theorem lockedStep_evicts (free : (s.server self).m_metaManager.m_metaDataMapMutex = false)
    (evictable : s.EvictableStep self step) :
    ∃ t, region (mapMutex self) MetaDataManager.mapBusy (evictStep self step) s = .ok () t ∧
      (t.server self).m_metaManager.m_metaDataMapMutex = false ∧
      Evicts self (· = step) (leaves step fun _ => True) (s.DroppedAt self step) s t := by
  have taken : Evicts self (· = step) same (fun _ => False) s ((mapMutex self).put true s) :=
    evicts_mapMutex true
  have evictable' : ((mapMutex self).put true s).EvictableStep self step :=
    (evictableStep_mapMutex true).mpr evictable
  obtain ⟨t, run, evicts⟩ := evictStep_evicts evictable'
  refine ⟨_, region_ok free run, (mapMutex self).held_put false t, ?_⟩
  refine ((taken.trans evicts).trans (evicts_mapMutex false)).congr
    (fun _ _ _ _ _ => ?_) fun b => ?_
  · rw [bind_same]
    rfl
  · have named : ((mapMutex self).put true s).DroppedAt self step b ↔ s.DroppedAt self step b :=
      droppedAt_congr fun varName dataType => by rw [taken.lists, bind_same]
    simp [named]

theorem evictable_of_lockedStep
    (h : region (mapMutex self) MetaDataManager.mapBusy (evictStep self step) s = .ok () t) :
    (s.server self).m_metaManager.m_metaDataMapMutex = false ∧ s.EvictableStep self step := by
  obtain ⟨free, u, run, _⟩ := region_eq_ok.mp h
  exact ⟨free, (evictableStep_mapMutex true).mp (evictable_of_evictStep run)⟩

/-- The eviction of a step decides nothing about the others. -/
theorem Evicts.evictableStep (h : Evicts self W f p s t) (out : ¬ W step) :
    t.EvictableStep self step ↔ s.EvictableStep self step :=
  evictableStep_congr (by rw [varsOf, varsOf, h.outside step out]) h.reaches

/-- The lists of some steps are evicted. -/
def leavesAt (steps : List Nat) : Rewriting := fun step _ dataType list =>
  if step ∈ steps then left dataType list else some list

theorem evictSteps_evicts {n lb : Nat} {i : Int}
    (free : n ≠ 0 → (s.server self).m_metaManager.m_metaDataMapMutex = false)
    (low : 0 ≤ i) (counts : i + n ≤ INT_MAX) (distinct : (MetaDataManager.visited lb n).Nodup)
    (evictable : ∀ st ∈ MetaDataManager.visited lb n, s.EvictableStep self st) :
    ∃ t, evictSteps self n i lb s = .ok () t ∧
      Evicts self (· ∈ MetaDataManager.visited lb n) (leavesAt (MetaDataManager.visited lb n))
        (fun b => ∃ st ∈ MetaDataManager.visited lb n, s.DroppedAt self st b) s t := by
  induction n generalizing s lb i with
  | zero =>
    refine ⟨s, rfl, (Evicts.refl s).congr (fun _ _ _ _ _ => ?_) fun b => ?_⟩
    · simp [same, leavesAt, MetaDataManager.visited]
    · simp [MetaDataManager.visited]
  | succ n ih =>
    rw [MetaDataManager.visited] at distinct evictable ⊢
    obtain ⟨fresh, distinct'⟩ := List.nodup_cons.mp distinct
    obtain ⟨v, run, free', first⟩ := lockedStep_evicts (free (Nat.succ_ne_zero n))
      (evictable lb (List.mem_cons_self ..))
    have untouched : ∀ st ∈ MetaDataManager.visited ((lb + 1) % 2 ^ 64) n, st ≠ lb :=
      fun st mem same => fresh (same ▸ mem)
    have evictable' : ∀ st ∈ MetaDataManager.visited ((lb + 1) % 2 ^ 64) n,
        v.EvictableStep self st := by
      intro st mem
      exact (first.evictableStep (untouched st mem)).mpr
        (evictable st (List.mem_cons_of_mem lb mem))
    obtain ⟨t, rest, evicts⟩ := ih (i := i + 1) (fun _ => free') (by omega) (by omega) distinct'
      evictable'
    have counted : int (i + 1) = .ok (i + 1) := int_of_isInt ⟨by unfold INT_MIN; omega, by omega⟩
    refine ⟨t, ?_, ?_⟩
    · rw [evictSteps, bind_ok run, bind_ok (lift_ok counted)]
      exact rest
    · have firstWider : Evicts self (· ∈ lb :: MetaDataManager.visited ((lb + 1) % 2 ^ 64) n)
          (leaves lb fun _ => True) (s.DroppedAt self lb) s v :=
        first.mono fun st same => same ▸ List.mem_cons_self ..
      have restWider := evicts.mono fun st mem => List.mem_cons_of_mem lb mem
      refine (firstWider.trans restWider).congr (fun st varName dataType list _ => ?_) fun b => ?_
      · unfold leaves leavesAt
        by_cases now : st = lb
        · subst now
          rw [if_pos ⟨rfl, trivial⟩, if_pos (List.mem_cons_self ..)]
          simp only [fresh, if_false, Option.bind_fun_some]
        · simp [now]
      · have later : ∀ st ∈ MetaDataManager.visited ((lb + 1) % 2 ^ 64) n,
            (v.DroppedAt self st b ↔ s.DroppedAt self st b) := fun st mem =>
          droppedAt_congr fun varName dataType => by
            rw [first.lists]
            cases (s.server self).m_metaManager.endpointsOf st varName dataType with
            | none => rfl
            | some list => rw [Option.bind_some, leaves, if_neg fun h => untouched st mem h.1]
        rw [List.exists_mem_cons_iff]
        refine or_congr_right ?_
        constructor
        · rintro ⟨st, mem, named⟩
          exact ⟨st, mem, (later st mem).mp named⟩
        · rintro ⟨st, mem, named⟩
          exact ⟨st, mem, (later st mem).mpr named⟩

/-- The counter of a loop that returns stays an `int`, and its mutex is there to be taken. -/
theorem counts_of_evictSteps {n lb : Nat} {i : Int} (h : evictSteps self n i lb s = .ok () t)
    (some : n ≠ 0) :
    (s.server self).m_metaManager.m_metaDataMapMutex = false ∧ i + n ≤ INT_MAX := by
  induction n generalizing s lb i with
  | zero => exact absurd rfl some
  | succ n ih =>
    rw [evictSteps] at h
    simp only [bind_run_eq_ok] at h
    obtain ⟨_, v, run, j, v', counted, rest⟩ := h
    refine ⟨(evictable_of_lockedStep run).1, ?_⟩
    cases hj : int (i + 1) with
    | error e =>
      rw [hj] at counted
      cases counted
    | ok k =>
      rw [hj] at counted
      cases counted
      obtain ⟨range, rfl⟩ := int_eq_ok.mp hj
      cases n with
      | zero => exact range.2
      | succ n =>
        have later := (ih rest (Nat.succ_ne_zero n)).2
        omega

theorem evictable_of_evictSteps {n lb : Nat} {i : Int}
    (distinct : (MetaDataManager.visited lb n).Nodup) (h : evictSteps self n i lb s = .ok () t) :
    ∀ st ∈ MetaDataManager.visited lb n, s.EvictableStep self st := by
  induction n generalizing s lb i with
  | zero => exact fun _ mem => nomatch mem
  | succ n ih =>
    rw [MetaDataManager.visited] at distinct ⊢
    obtain ⟨fresh, distinct'⟩ := List.nodup_cons.mp distinct
    rw [evictSteps] at h
    simp only [bind_run_eq_ok] at h
    obtain ⟨_, v, run, j, v', counted, rest⟩ := h
    obtain ⟨free, now⟩ := evictable_of_lockedStep run
    obtain ⟨u, run', _, first⟩ := lockedStep_evicts free now
    cases run.symm.trans run'
    have kept : v' = v := by
      cases hj : int (i + 1) with
      | error e =>
        rw [hj] at counted
        cases counted
      | ok k =>
        rw [hj] at counted
        cases counted
        rfl
    subst kept
    intro st mem
    rcases List.mem_cons.mp mem with rfl | mem
    · exact now
    · have later := ih distinct' rest st mem
      have untouched : st ≠ lb := fun same => fresh (same ▸ mem)
      exact (first.evictableStep untouched).mp later

/-- The steps a call with the latest step evicts. -/
def evictedBy (s : Servers) (self : String) (latest : Nat) : List Nat :=
  (s.server self).m_metaManager.evicted latest

/-- The call gets through the steps it evicts. -/
structure Passable (here : String) (latest : Nat) (s : Servers) : Prop where
  free : s.evictedBy here latest ≠ [] → (s.server here).m_metaManager.m_metaDataMapMutex = false
  counts : s.evictedBy here latest ≠ [] → (s.server here).m_metaManager.m_deletedNum ≤ INT_MAX
  evictable : ∀ st ∈ s.evictedBy here latest, s.EvictableStep here st

theorem evicts_slide (latest : Nat) : Evicts self W same (fun _ => False) s
    (s.onMeta self fun m => m.slide latest) := by
  refine evicts_onMeta (fun m step _ => by rw [MetaDataManager.slide_map])
    fun step varName dataType => ?_
  rw [bind_same, MetaDataManager.endpointsOf, MetaDataManager.blockOf, MetaDataManager.slide_map]
  rfl

theorem slide_mutex (m : MetaDataManager) (latest : Nat) :
    (m.slide latest).m_metaDataMapMutex = m.m_metaDataMapMutex := by
  unfold MetaDataManager.slide
  split <;> rfl

theorem varsOf_slide (latest : Nat) (step : Nat) :
    (s.onMeta self fun m => m.slide latest).varsOf self step = s.varsOf self step := by
  unfold varsOf
  rw [(evicts_slide latest : Evicts self (fun _ => False) same _ s _).outside step id]

theorem evictableStep_slide (latest : Nat) :
    (s.onMeta self fun m => m.slide latest).EvictableStep self step ↔ s.EvictableStep self step :=
  evictableStep_congr (varsOf_slide latest step) (reaches_onMeta _)

theorem evictedBy_full {latest : Nat} (full : ¬ s.Idle self latest) :
    s.evictedBy self latest = MetaDataManager.visited (s.server self).m_metaManager.m_windowlb
      (s.server self).m_metaManager.m_deletedNum := evicted_full full

theorem evictedBy_ne_nil {latest : Nat} (full : ¬ s.Idle self latest) :
    s.evictedBy self latest ≠ [] ↔ (s.server self).m_metaManager.m_deletedNum ≠ 0 := by
  rw [evictedBy_full full]
  cases (s.server self).m_metaManager.m_deletedNum with
  | zero => simp [MetaDataManager.visited]
  | succ n => simp [MetaDataManager.visited]

theorem Passable.small {latest : Nat} (h : Passable self latest s) (full : ¬ s.Idle self latest) :
    (s.server self).m_metaManager.m_deletedNum ≤ INT_MAX := by
  by_cases zero : (s.server self).m_metaManager.m_deletedNum = 0
  · rw [zero]
    decide
  · exact h.counts ((evictedBy_ne_nil full).mpr zero)

theorem visited_nodup_of_small {m : MetaDataManager} (small : m.m_deletedNum ≤ INT_MAX) :
    (MetaDataManager.visited m.m_windowlb m.m_deletedNum).Nodup :=
  MetaDataManager.visited_nodup (by unfold INT_MAX at small; omega)

/-- A call that gets through has evicted its steps. -/
theorem eraseMetaAndRaw_evicts {latest : Nat} (passable : Passable self latest s) :
    ∃ t, eraseMetaAndRaw self latest s = .ok () t ∧
      Evicts self (· ∈ s.evictedBy self latest) (leavesAt (s.evictedBy self latest))
        (fun b => ∃ st ∈ s.evictedBy self latest, s.DroppedAt self st b) s t := by
  have slid : Evicts self (· ∈ s.evictedBy self latest) same (fun _ => False) s
      (s.onMeta self fun m => m.slide latest) := evicts_slide latest
  by_cases idle : s.Idle self latest
  · have none : s.evictedBy self latest = [] := evicted_idle idle
    refine ⟨_, eraseMetaAndRaw_idle idle, slid.congr (fun _ _ _ _ _ => ?_) fun b => ?_⟩
    · simp [same, leavesAt, none]
    · simp [none]
  · have small := passable.small idle
    have free : (s.server self).m_metaManager.m_deletedNum ≠ 0 →
        ((s.onMeta self fun m => m.slide latest).server self).m_metaManager.m_metaDataMapMutex =
          false := by
      intro positive
      rw [server_onMeta, if_pos rfl]
      exact (slide_mutex _ latest).trans (passable.free ((evictedBy_ne_nil idle).mpr positive))
    have evictable : ∀ st ∈ s.evictedBy self latest,
        (s.onMeta self fun m => m.slide latest).EvictableStep self st := fun st mem =>
      (evictableStep_slide latest).mpr (passable.evictable st mem)
    rw [evictedBy_full idle] at evictable slid ⊢
    obtain ⟨t, run, evicts⟩ := evictSteps_evicts free (Int.le_refl 0) (by omega)
      (visited_nodup_of_small small) evictable
    refine ⟨t, (eraseMetaAndRaw_full idle).trans run, ?_⟩
    refine (slid.trans evicts).congr (fun _ _ _ _ _ => rfl) fun b => ?_
    have named : ∀ st, (s.onMeta self fun m => m.slide latest).DroppedAt self st b ↔
        s.DroppedAt self st b := fun st =>
      droppedAt_congr fun varName dataType => by rw [slid.lists, bind_same]
    simp only [named, false_or]

theorem passable_of_eraseMetaAndRaw {latest : Nat} (h : eraseMetaAndRaw self latest s = .ok () t) :
    Passable self latest s := by
  by_cases idle : s.Idle self latest
  · have none : s.evictedBy self latest = [] := evicted_idle idle
    refine ⟨fun some => absurd none some, fun some => absurd none some, fun st mem => ?_⟩
    rw [none] at mem
    cases mem
  · rw [eraseMetaAndRaw_full idle] at h
    have counts := fun some => counts_of_evictSteps h ((evictedBy_ne_nil idle).mp some)
    refine ⟨fun some => ?_, fun some => ?_, ?_⟩
    · have free := (counts some).1
      rw [server_onMeta, if_pos rfl] at free
      exact (slide_mutex _ latest).symm.trans free
    · have bound := (counts some).2
      omega
    · have small : (s.server self).m_metaManager.m_deletedNum ≤ INT_MAX := by
        by_cases zero : (s.server self).m_metaManager.m_deletedNum = 0
        · rw [zero]
          decide
        · have bound := (counts ((evictedBy_ne_nil idle).mpr zero)).2
          omega
      intro st mem
      exact (evictableStep_slide latest).mp (evictable_of_evictSteps (visited_nodup_of_small small)
        h st (evictedBy_full idle ▸ mem))

/-- A trigger may still need the block. -/
def StillNeeded (rde : BlockDescriptor) : Prop :=
  rde.m_metaStatus = .BEFOREPROCESS ∨ rde.m_metaStatus = .INPROCESS ∨
    rde.m_metaStatus = .UNDELETABLE

/-- The call returns without what was processed and with all that is still needed. -/
structure Respects (here : String) (latest : Nat) (s t : Servers) : Prop where
  removed : ∀ step ∈ s.evictedBy here latest, ∀ varName dataType rde,
    rde ∈ (s.server here).m_metaManager.listOf step varName dataType →
    rde.m_metaStatus = .AFTERPROCESS →
      rde ∉ (t.server here).m_metaManager.listOf step varName dataType ∧
      (t.server rde.m_rawDataServerAddr).m_blockManager.block rde.m_rawDataID = none
  kept : ∀ step varName dataType rde,
    rde ∈ (s.server here).m_metaManager.listOf step varName dataType → StillNeeded rde →
      rde ∈ (t.server here).m_metaManager.listOf step varName dataType ∧
      (t.server rde.m_rawDataServerAddr).m_blockManager.block rde.m_rawDataID =
        (s.server rde.m_rawDataServerAddr).m_blockManager.block rde.m_rawDataID

/-- Nothing of the evicted steps waits for a trigger, no number of kept grids looks like zero,
and no block that is still needed is also described as processed. -/
structure Harmless (here : String) (latest : Nat) (s : Servers) : Prop extends
    Passable here latest s where
  unscheduled : ∀ step ∈ s.evictedBy here latest, ∀ rde,
    (s.server here).m_metaManager.Describes step rde → rde.m_metaStatus ≠ .BEFOREPROCESS
  counted : ∀ step ∈ s.evictedBy here latest, ∀ varName,
    sizeToInt (((s.server here).m_metaManager.listOf step varName DATATYPE_CARGRID).filter
      (·.Stays)).length = 0 →
    ((s.server here).m_metaManager.listOf step varName DATATYPE_CARGRID).filter (·.Stays) = []
  unshared : ∀ step ∈ s.evictedBy here latest, ∀ rde,
    (s.server here).m_metaManager.Describes step rde → rde.m_metaStatus = .AFTERPROCESS →
    ∀ other rde', (s.server here).m_metaManager.Describes other rde' → StillNeeded rde' →
      (s.server rde'.m_rawDataServerAddr).m_blockManager.block rde'.m_rawDataID ≠ none →
        (rde'.m_rawDataServerAddr, rde'.m_rawDataID) ≠ (rde.m_rawDataServerAddr, rde.m_rawDataID)

theorem listOf_evicted {steps : List Nat} (h : Evicts self W (leavesAt steps) p s t)
    (mem : step ∈ steps) : (t.server self).m_metaManager.listOf step varName dataType =
      (left dataType ((s.server self).m_metaManager.listOf step varName dataType)).getD [] := by
  rw [MetaDataManager.listOf, MetaDataManager.listOf, h.lists]
  cases (s.server self).m_metaManager.endpointsOf step varName dataType with
  | none =>
    unfold left
    split <;> rfl
  | some list => rw [Option.bind_some, leavesAt, if_pos mem, Option.getD_some]

theorem listOf_other {steps : List Nat} (h : Evicts self W (leavesAt steps) p s t)
    (out : step ∉ steps) : (t.server self).m_metaManager.listOf step varName dataType =
      (s.server self).m_metaManager.listOf step varName dataType := by
  rw [MetaDataManager.listOf, MetaDataManager.listOf, h.lists]
  cases (s.server self).m_metaManager.endpointsOf step varName dataType with
  | none => rfl
  | some list => rw [Option.bind_some, leavesAt, if_neg out]

theorem mem_left {rde : BlockDescriptor} {list : List BlockDescriptor}
    (h : rde ∈ (left dataType list).getD []) : rde ∈ list ∧ rde.Stays := by
  unfold left at h
  split at h
  · cases h
  · rwa [Option.getD_some, List.mem_filter, decide_eq_true_eq] at h

theorem Respects.harmless {latest : Nat} (h : Respects self latest s t)
    (run : eraseMetaAndRaw self latest s = .ok () t) : Harmless self latest s := by
  have passable := passable_of_eraseMetaAndRaw run
  obtain ⟨t', run', evicts⟩ := eraseMetaAndRaw_evicts passable
  cases run.symm.trans run'
  refine ⟨passable, ?_, ?_, ?_⟩
  · rintro step mem rde ⟨varName, dataType, held⟩ scheduled
    have kept := (h.kept step varName dataType rde held (.inl scheduled)).1
    rw [listOf_evicted evicts mem] at kept
    have stays := (mem_left kept).2
    unfold BlockDescriptor.Stays at stays
    rw [scheduled] at stays
    simp at stays
  · intro step mem varName zero
    refine List.eq_nil_iff_forall_not_mem.mpr fun rde there => ?_
    rw [List.mem_filter, decide_eq_true_eq] at there
    have kept := (h.kept step varName DATATYPE_CARGRID rde there.1 (.inr there.2)).1
    rw [listOf_evicted evicts mem, left, if_pos ⟨rfl, zero⟩] at kept
    cases kept
  · rintro step mem rde ⟨varName, dataType, held⟩ processed other rde' ⟨varName', dataType', held'⟩
      needed there same
    have gone := (h.removed step mem varName dataType rde held processed).2
    have kept := (h.kept other varName' dataType' rde' held' needed).2
    rw [Prod.mk.injEq] at same
    rw [same.1, same.2, gone] at kept
    rw [same.1, same.2] at there
    exact there kept.symm

theorem Harmless.respects {latest : Nat} (h : Harmless self latest s)
    (evicts : Evicts self (· ∈ s.evictedBy self latest) (leavesAt (s.evictedBy self latest))
      (fun b => ∃ st ∈ s.evictedBy self latest, s.DroppedAt self st b) s t) :
    Respects self latest s t where
  removed step mem varName dataType rde held processed := by
    constructor
    · intro kept
      rw [listOf_evicted evicts mem] at kept
      have stays := (mem_left kept).2
      unfold BlockDescriptor.Stays at stays
      rw [processed] at stays
      simp at stays
    · exact (evicts.erased _).gone _
        ⟨step, mem, rde, ⟨varName, dataType, held⟩, .inr processed, rfl⟩
  kept step varName dataType rde held needed := by
    constructor
    · by_cases mem : step ∈ s.evictedBy self latest
      · have stays : rde.Stays := needed.resolve_left
          (h.unscheduled step mem rde ⟨varName, dataType, held⟩)
        have there : rde ∈ ((s.server self).m_metaManager.listOf step varName dataType).filter
            (·.Stays) := by
          rw [List.mem_filter, decide_eq_true_eq]
          exact ⟨held, stays⟩
        rw [listOf_evicted evicts mem, left, if_neg, Option.getD_some]
        · exact there
        · rintro ⟨rfl, zero⟩
          rw [h.counted step mem varName zero] at there
          cases there
      · rwa [listOf_other evicts mem]
    · by_cases named : ∃ st ∈ s.evictedBy self latest,
          s.DroppedAt self st (rde.m_rawDataServerAddr, rde.m_rawDataID)
      · have gone := (evicts.erased rde.m_rawDataServerAddr).gone _ named
        rw [gone]
        by_contra there
        obtain ⟨st, mem, rde', held', doomed, same⟩ := named
        have processed := doomed.resolve_left (h.unscheduled st mem rde' held')
        exact h.unshared st mem rde' held' processed step rde ⟨varName, dataType, held⟩ needed
          (Ne.symm there) same
      · exact (evicts.erased rde.m_rawDataServerAddr).kept _ named

/-- A call evicts as the life cycle asks exactly when its steps are harmless to evict. -/
theorem eraseMetaAndRaw_respects_iff (self : String) (latest : Nat) (s : Servers) :
    (∃ t, eraseMetaAndRaw self latest s = .ok () t ∧ Respects self latest s t) ↔
      Harmless self latest s := by
  constructor
  · rintro ⟨t, run, respects⟩
    exact respects.harmless run
  · intro harmless
    obtain ⟨t, run, evicts⟩ := eraseMetaAndRaw_evicts harmless.toPassable
    exact ⟨t, run, harmless.respects evicts⟩

/-! ## A block that waits for its trigger -/

/-- The fourth step with a window of three: the block of the first step was not processed yet. -/
theorem scheduled_evicted :
    ¬ ∃ t, eraseMetaAndRaw "server0" 4 (threeSteps 1).servers = .ok () t ∧
      Respects "server0" 4 (threeSteps 1).servers t := by
  rintro ⟨t, run, respects⟩
  have held :
      ({ m_rawDataServerAddr := "server2", m_rawDataID := "density_1_0" } : BlockDescriptor) ∈
      ((threeSteps 1).servers.server "server0").m_metaManager.listOf 1 "density"
        DATATYPE_CARGRID := by
    decide +kernel
  have kept := (respects.kept 1 "density" DATATYPE_CARGRID _ held (.inl rfl)).1
  have gone : ((exit (eraseMetaAndRaw "server0" 4 (threeSteps 1).servers)).server
      "server0").m_metaManager.listOf 1 "density" DATATYPE_CARGRID = [] := by decide +kernel
  rw [run] at gone
  rw [exit_ok] at gone
  rw [gone] at kept
  cases kept

end Servers

end Gorilla
