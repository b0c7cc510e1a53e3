import Gorilla.Lib.Runs
import Gorilla.Server.DeleteStep

/-!
# The window of steps a server keeps

Every call carries the latest step. When the window between the bounds is larger than its size,
`m_deletedNum` steps from the lower bound on are evicted: descriptors are dropped by their
status, with their blocks.
-/

namespace Gorilla

open HandLock

namespace MetaDataBlock

def eraseBlocks (b : MetaDataBlock) (dataType : String) : MetaDataBlock :=
  ⟨b.m_metadataBlock.erase dataType⟩

def getBlockNumberByVersion (b : MetaDataBlock) (version : String) : Except Stop Int :=
  match b.m_metadataBlock.lookup version with
  | none => .error (.runtime_error "the version does not exist when getBlockNumberByVersion")
  | some list => .ok (sizeToInt list.length)

end MetaDataBlock

namespace MetaDataManager

/-- `m_metaDataMap[step]` makes an empty entry for a step that has none. -/
def touchStep (m : MetaDataManager) (step : Nat) : MetaDataManager :=
  match m.m_metaDataMap.lookup step with
  | some _ => m
  | none => { m with m_metaDataMap := m.m_metaDataMap.insert step ∅ }

/-- Write the list of a key. -/
def putListOf (m : MetaDataManager) (step : Nat) (varName dataType : String)
    (list : List BlockDescriptor) : MetaDataManager :=
  m.putBlockOf step varName
    ⟨((m.blockOf step varName).getD ∅).m_metadataBlock.insert dataType list⟩

def eraseBlocksOf (m : MetaDataManager) (step : Nat) (varName dataType : String) :
    MetaDataManager :=
  m.putBlockOf step varName (((m.blockOf step varName).getD ∅).eraseBlocks dataType)

/-- The bounds are `size_t`, so the width of the window wraps. -/
def ifOutOfBuffer (m : MetaDataManager) : Bool :=
  m.m_windowSize < (m.m_windowub + (2 ^ 64 - m.m_windowlb) + 1) % 2 ^ 64

def advance (m : MetaDataManager) : MetaDataManager :=
  { m with m_windowlb := (m.m_windowlb + m.m_deletedNum) % 2 ^ 64 }

variable {m : MetaDataManager} {step : Nat} {varName dataType : String}

theorem endpointsOf_getD :
    ((m.blockOf step varName).getD ∅).m_metadataBlock.lookup dataType =
      m.endpointsOf step varName dataType := by
  unfold endpointsOf
  cases m.blockOf step varName with
  | none => exact AList.lookup_empty dataType
  | some b => rfl

theorem endpointsOf_touchStep (step' : Nat) (varName dataType : String) :
    (m.touchStep step).endpointsOf step' varName dataType =
      m.endpointsOf step' varName dataType := by
  unfold touchStep
  cases h : m.m_metaDataMap.lookup step with
  | some vars => rfl
  | none =>
    by_cases same : step' = step
    · subst same
      have fresh : ((m.m_metaDataMap.insert step' ∅).lookup step') = some ∅ :=
        AList.lookup_insert m.m_metaDataMap
      simp only [endpointsOf, blockOf, fresh, h, Option.bind_some, Option.bind_none]
      rfl
    · simp only [endpointsOf, blockOf, AList.lookup_insert_ne same]

theorem endpointsOf_putListOf (list : List BlockDescriptor) (step' : Nat)
    (varName' dataType' : String) :
    (m.putListOf step varName dataType list).endpointsOf step' varName' dataType' =
      if step' = step ∧ varName' = varName ∧ dataType' = dataType then some list
      else m.endpointsOf step' varName' dataType' := by
  rw [endpointsOf, putListOf, blockOf_putBlockOf]
  by_cases own : step' = step ∧ varName' = varName
  · obtain ⟨rfl, rfl⟩ := own
    by_cases same : dataType' = dataType
    · subst same
      simp
    · simp [same, AList.lookup_insert_ne same, endpointsOf_getD]
  · have other : ¬ (step' = step ∧ varName' = varName ∧ dataType' = dataType) := fun h =>
      own ⟨h.1, h.2.1⟩
    rw [if_neg own, if_neg other]
    rfl

theorem endpointsOf_eraseBlocksOf (step' : Nat) (varName' dataType' : String) :
    (m.eraseBlocksOf step varName dataType).endpointsOf step' varName' dataType' =
      if step' = step ∧ varName' = varName ∧ dataType' = dataType then none
      else m.endpointsOf step' varName' dataType' := by
  rw [endpointsOf, eraseBlocksOf, blockOf_putBlockOf]
  by_cases own : step' = step ∧ varName' = varName
  · obtain ⟨rfl, rfl⟩ := own
    by_cases same : dataType' = dataType
    · subst same
      simp [MetaDataBlock.eraseBlocks]
    · simp [same, MetaDataBlock.eraseBlocks, AList.lookup_erase_ne same, endpointsOf_getD]
  · have other : ¬ (step' = step ∧ varName' = varName ∧ dataType' = dataType) := fun h =>
      own ⟨h.1, h.2.1⟩
    rw [if_neg own, if_neg other]
    rfl

theorem describes_congr {m' : MetaDataManager} {rde : BlockDescriptor}
    (h : m'.m_metaDataMap = m.m_metaDataMap) : m'.Describes step rde ↔ m.Describes step rde := by
  unfold Describes listOf endpointsOf blockOf
  rw [h]

/-- The settings and the bounds of the window. -/
def window (m : MetaDataManager) : Nat × Nat × Nat × Nat :=
  (m.m_windowSize, m.m_deletedNum, m.m_windowlb, m.m_windowub)

/-- The steps a run of the loop visits. -/
def visited (currentlb : Nat) : Nat → List Nat
  | 0 => []
  | n + 1 => currentlb :: visited ((currentlb + 1) % 2 ^ 64) n

/-- The steps a call with the latest step evicts. -/
def evicted (m : MetaDataManager) (step : Nat) : List Nat :=
  if ifOutOfBuffer { m with m_windowub := step } then visited m.m_windowlb m.m_deletedNum else []

/-- The window after a call. -/
def slide (m : MetaDataManager) (step : Nat) : MetaDataManager :=
  if ifOutOfBuffer { m with m_windowub := step } then advance { m with m_windowub := step }
  else { m with m_windowub := step }

/-- As long as nothing wraps, the loop visits the next steps. -/
theorem mem_visited {lb n step : Nat} (fits : lb + n ≤ 2 ^ 64) (h : step ∈ visited lb n) :
    lb ≤ step ∧ step < lb + n := by
  induction n generalizing lb with
  | zero => cases h
  | succ n ih =>
    rcases List.mem_cons.mp h with rfl | later
    · omega
    · cases n with
      | zero => cases later
      | succ n =>
        rw [Nat.mod_eq_of_lt (by omega)] at later
        have range := ih (by omega) later
        omega

theorem visited_mod {lb n step : Nat} (h : step ∈ visited lb n) :
    ∃ k < n, step % 2 ^ 64 = (lb + k) % 2 ^ 64 := by
  induction n generalizing lb with
  | zero => cases h
  | succ n ih =>
    rcases List.mem_cons.mp h with rfl | later
    · exact ⟨0, by omega, rfl⟩
    · obtain ⟨k, hk, same⟩ := ih later
      exact ⟨k + 1, by omega, by omega⟩

/-- The counter of the steps comes around only after all of them. -/
theorem visited_nodup {lb n : Nat} (h : n ≤ 2 ^ 64) : (visited lb n).Nodup := by
  induction n generalizing lb with
  | zero => exact List.nodup_nil
  | succ n ih =>
    refine List.nodup_cons.mpr ⟨fun mem => ?_, ih (by omega)⟩
    obtain ⟨k, hk, same⟩ := visited_mod mem
    omega

/-- A step that is not late is out of the buffer when the window has passed the lower bound. -/
theorem ifOutOfBuffer_iff (positive : 1 ≤ m.m_windowlb) (word : step < 2 ^ 64)
    (timely : m.m_windowlb ≤ step + 1) :
    ifOutOfBuffer { m with m_windowub := step } = true ↔ m.m_windowlb + m.m_windowSize ≤ step := by
  have width : (step + (2 ^ 64 - m.m_windowlb) + 1) % 2 ^ 64 = step + 1 - m.m_windowlb := by
    omega
  unfold ifOutOfBuffer
  rw [width, decide_eq_true_eq]
  show m.m_windowSize < step + 1 - m.m_windowlb ↔ _
  omega

theorem slide_map (step : Nat) : (m.slide step).m_metaDataMap = m.m_metaDataMap := by
  unfold slide
  split <;> rfl

end MetaDataManager

namespace Servers

/-- The descriptors still to visit follow those that stay. The second case of the source for
`BEFOREPROCESS` is never reached, and no case of its inner loop ends it for `ERROR`. -/
def evictVector (self : String) (step : Nat) (varName dataType : String) :
    List BlockDescriptor → List BlockDescriptor → EStateM Stop Servers Unit
  | _, [] => return ()
  | kept, rde :: rest =>
    match rde.m_metaStatus with
    | .BEFOREPROCESS | .AFTERPROCESS => do
      modify fun s => s.onMeta self fun m => m.putListOf step varName dataType (kept ++ rest)
      eraseRawData rde.m_rawDataServerAddr rde.m_rawDataID
      evictVector self step varName dataType kept rest
    | .INPROCESS | .UNDELETABLE => evictVector self step varName dataType (kept ++ [rde]) rest
    | .ERROR => throw (.blocked "while (true)")

/-- A variable that is left without grids loses their entry. -/
def evictBlock (self : String) (step : Nat) (varName : String) (b : MetaDataBlock) :
    EStateM Stop Servers Unit := do
  b.m_metadataBlock.entries.forM fun kvinner =>
    evictVector self step varName kvinner.1 [] kvinner.2
  let m := ((← get).server self).m_metaManager
  let blockSize ← ((m.blockOf step varName).getD ∅).getBlockNumberByVersion DATATYPE_CARGRID
  if blockSize = 0 then
    modify fun s => s.onMeta self fun m => m.eraseBlocksOf step varName DATATYPE_CARGRID

def evictStep (self : String) (currentlb : Nat) : EStateM Stop Servers Unit := do
  modify fun s => s.onMeta self fun m => m.touchStep currentlb
  let m := ((← get).server self).m_metaManager
  ((m.m_metaDataMap.lookup currentlb).getD ∅).entries.forM fun kv =>
    evictBlock self currentlb kv.1 kv.2

/-- The steps left to evict; the counter `i` is an `int`. -/
def evictSteps (self : String) : Nat → Int → Nat → EStateM Stop Servers Unit
  | 0, _, _ => return ()
  | n + 1, i, currentlb => do
    region (mapMutex self) MetaDataManager.mapBusy (evictStep self currentlb)
    let i ← int (i + 1)
    evictSteps self n i ((currentlb + 1) % 2 ^ 64)

def eraseMetaAndRaw (self : String) (step : Nat) : EStateM Stop Servers Unit := do
  modify fun s => s.onMeta self fun m => { m with m_windowub := step }
  let m := ((← get).server self).m_metaManager
  if m.ifOutOfBuffer then
    modify fun s => s.onMeta self fun m => m.advance
    evictSteps self m.m_deletedNum 0 m.m_windowlb

variable {s t u : Servers} {self : String} {step : Nat} {W : Nat → Prop}
  {named : String × String → Prop}

/-- What evicting some steps may change, however far it gets. -/
structure Touches (here : String) (W : Nat → Prop) (named : String × String → Prop)
    (s t : Servers) : Prop where
  others : ∀ a, a ≠ here → (t.server a).m_metaManager = (s.server a).m_metaManager
  window : (t.server here).m_metaManager.window = (s.server here).m_metaManager.window
  outside : ∀ step, ¬ W step → (t.server here).m_metaManager.m_metaDataMap.lookup step =
    (s.server here).m_metaManager.m_metaDataMap.lookup step
  described : ∀ step rde, (t.server here).m_metaManager.Describes step rde →
    (s.server here).m_metaManager.Describes step rde ∨
      named (rde.m_rawDataServerAddr, rde.m_rawDataID)
  stored : ∀ a id, (t.server a).m_blockManager.block id = (s.server a).m_blockManager.block id ∨
    named (a, id)

theorem Touches.refl (s : Servers) : Touches self W named s s where
  others _ _ := rfl
  window := rfl
  outside _ _ := rfl
  described _ _ held := .inl held
  stored _ _ := .inl rfl

theorem Touches.trans (h : Touches self W named s t) (h' : Touches self W named t u) :
    Touches self W named s u where
  others a other := (h'.others a other).trans (h.others a other)
  window := h'.window.trans h.window
  outside step out := (h'.outside step out).trans (h.outside step out)
  described step rde held :=
    (h'.described step rde held).elim (h.described step rde) .inr
  stored a id :=
    (h'.stored a id).elim (fun same => (h.stored a id).imp_left same.trans) .inr

/-- Metadata that changes in the evicted steps only, and gets no other descriptors. -/
theorem touches_onMeta {f : MetaDataManager → MetaDataManager}
    (window : ∀ m, (f m).window = m.window)
    (outside : ∀ m step, ¬ W step → (f m).m_metaDataMap.lookup step = m.m_metaDataMap.lookup step)
    (described : ∀ m step rde, (f m).Describes step rde → m.Describes step rde ∨
      named (rde.m_rawDataServerAddr, rde.m_rawDataID)) :
    Touches self W named s (s.onMeta self f) where
  others a other := by rw [server_onMeta, if_neg other]
  window := by rw [server_onMeta, if_pos rfl]; exact window _
  outside step out := by rw [server_onMeta, if_pos rfl]; exact outside _ step out
  described step rde := by rw [server_onMeta, if_pos rfl]; exact described _ step rde
  stored a id := by rw [onMeta_blocks]; exact .inl rfl

theorem touches_eraseBlock {serverAddr blockID : String} (own : named (serverAddr, blockID)) :
    Touches self W named s (s.eraseBlock serverAddr blockID) where
  others a _ := eraseBlock_meta serverAddr blockID a
  window := by rw [eraseBlock_meta]
  outside _ _ := by rw [eraseBlock_meta]
  described _ _ held := by rw [eraseBlock_meta] at held; exact .inl held
  stored a id := by
    by_cases same : (a, id) = (serverAddr, blockID)
    · exact .inr (same ▸ own)
    · exact .inl ((erased_eraseBlock serverAddr blockID a).kept id same)

theorem moves_eraseRawData {serverAddr blockID : String} (own : named (serverAddr, blockID)) :
    Moves (Touches self W named) (eraseRawData serverAddr blockID) := by
  intro s
  by_cases reaches : s.Reaches (serverAddr, blockID)
  · rw [eraseRawData_reaches reaches]
    exact touches_eraseBlock own
  · obtain ⟨e, refused⟩ := eraseRawData_refused reaches
    rw [refused]
    exact .refl s

theorem moves_putListOf (evicted : W step) (varName dataType : String)
    {list : List BlockDescriptor}
    (own : ∀ rde ∈ list, named (rde.m_rawDataServerAddr, rde.m_rawDataID)) :
    Moves (Touches self W named)
      (modify fun s => s.onMeta self fun m => m.putListOf step varName dataType list :
        EStateM Stop Servers Unit) := by
  refine moves_modify fun s => touches_onMeta (fun _ => rfl) ?_ ?_
  · intro m step' out
    have ne : step' ≠ step := fun same => out (same ▸ evicted)
    exact AList.lookup_insert_ne ne
  · rintro m step' rde ⟨varName', dataType', held⟩
    rw [MetaDataManager.listOf, MetaDataManager.endpointsOf_putListOf] at held
    split at held
    · exact .inr (own rde held)
    · exact .inl ⟨varName', dataType', held⟩

theorem moves_evictVector (evicted : W step) (varName dataType : String)
    {kept rest : List BlockDescriptor}
    (own : ∀ rde ∈ kept ++ rest, named (rde.m_rawDataServerAddr, rde.m_rawDataID)) :
    Moves (Touches self W named) (evictVector self step varName dataType kept rest) := by
  induction rest generalizing kept with
  | nil => exact moves_pure Touches.refl ()
  | cons rde rest ih =>
    have front : named (rde.m_rawDataServerAddr, rde.m_rawDataID) := own rde (by simp)
    have left : ∀ rde ∈ kept ++ rest, named (rde.m_rawDataServerAddr, rde.m_rawDataID) :=
      fun rde' mem => own rde' (by
        rcases List.mem_append.mp mem with mem | mem <;> simp [mem])
    have drops : Moves (Touches self W named) (do
        modify fun s => s.onMeta self fun m => m.putListOf step varName dataType (kept ++ rest)
        eraseRawData rde.m_rawDataServerAddr rde.m_rawDataID
        evictVector self step varName dataType kept rest : EStateM Stop Servers Unit) :=
      (moves_putListOf evicted varName dataType left).bind Touches.trans fun _ =>
        (moves_eraseRawData front).bind Touches.trans fun _ => ih left
    have stays : Moves (Touches self W named)
        (evictVector self step varName dataType (kept ++ [rde]) rest) := ih (by simpa using own)
    unfold evictVector
    cases rde.m_metaStatus with
    | ERROR => exact moves_throw Touches.refl _
    | BEFOREPROCESS => exact drops
    | INPROCESS => exact stays
    | AFTERPROCESS => exact drops
    | UNDELETABLE => exact stays

theorem moves_lift {α : Type} {R : Servers → Servers → Prop} (refl : ∀ s, R s s)
    (x : Except Stop α) : Moves R (liftM x : EStateM Stop Servers α) := by
  intro s
  cases x <;> exact refl s

theorem moves_eraseBlocksOf (evicted : W step) (varName dataType : String) :
    Moves (Touches self W named)
      (modify fun s => s.onMeta self fun m => m.eraseBlocksOf step varName dataType :
        EStateM Stop Servers Unit) := by
  refine moves_modify fun s => touches_onMeta (fun _ => rfl) ?_ ?_
  · intro m step' out
    have ne : step' ≠ step := fun same => out (same ▸ evicted)
    exact AList.lookup_insert_ne ne
  · rintro m step' rde ⟨varName', dataType', held⟩
    rw [MetaDataManager.listOf, MetaDataManager.endpointsOf_eraseBlocksOf] at held
    split at held
    · cases held
    · exact .inl ⟨varName', dataType', held⟩

theorem moves_evictBlock (evicted : W step) (varName : String) {b : MetaDataBlock}
    (own : ∀ kvinner ∈ b.m_metadataBlock.entries, ∀ rde ∈ kvinner.2,
      named (rde.m_rawDataServerAddr, rde.m_rawDataID)) :
    Moves (Touches self W named) (evictBlock self step varName b) := by
  unfold evictBlock
  refine (Moves.forM Touches.refl Touches.trans fun kvinner mem => ?_).bind Touches.trans fun _ =>
    ?_
  · exact moves_evictVector evicted varName kvinner.1 (own kvinner mem)
  refine (moves_get Touches.refl).bind Touches.trans fun s => ?_
  refine (moves_lift Touches.refl _).bind Touches.trans fun blockSize => ?_
  split
  · exact moves_eraseBlocksOf evicted varName DATATYPE_CARGRID
  · exact moves_pure Touches.refl ()

/-- Every descriptor of the evicted steps names one of the blocks. -/
def Named (W : Nat → Prop) (named : String × String → Prop) (m : MetaDataManager) : Prop :=
  ∀ step, W step → ∀ rde, m.Describes step rde → named (rde.m_rawDataServerAddr, rde.m_rawDataID)

theorem Touches.keeps_named (h : Touches self W named s t)
    (own : Named W named (s.server self).m_metaManager) :
    Named W named (t.server self).m_metaManager := fun step evicted rde held =>
  (h.described step rde held).elim (own step evicted rde) id

theorem touches_touchStep (evicted : W step) :
    Touches self W named s (s.onMeta self fun m => m.touchStep step) := by
  refine touches_onMeta ?_ ?_ ?_
  · intro m
    unfold MetaDataManager.touchStep
    split <;> rfl
  · intro m step' out
    have ne : step' ≠ step := fun same => out (same ▸ evicted)
    unfold MetaDataManager.touchStep
    split
    · rfl
    · exact AList.lookup_insert_ne ne
  · rintro m step' rde ⟨varName, dataType, held⟩
    rw [MetaDataManager.listOf, MetaDataManager.endpointsOf_touchStep] at held
    exact .inl ⟨varName, dataType, held⟩

theorem touches_evictStep (evicted : W step) (own : Named W named (s.server self).m_metaManager) :
    Touches self W named s (exit (evictStep self step s)) := by
  have first : Touches self W named s (s.onMeta self fun m => m.touchStep step) :=
    touches_touchStep evicted
  have own' := first.keeps_named own
  refine first.trans ?_
  refine Moves.forM Touches.refl Touches.trans (fun kv hkv => ?_) (s.onMeta self _)
  refine moves_evictBlock evicted kv.1 fun kvinner hinner rde hrde => ?_
  exact own' step evicted rde (MetaDataManager.describes_iff.mpr ⟨kv, hkv, kvinner, hinner, hrde⟩)

theorem touches_mapMutex (b : Bool) : Touches self W named s ((mapMutex self).put b s) := by
  rw [mapMutex_put]
  exact touches_onMeta (fun _ => rfl) (fun _ _ _ => rfl) fun _ _ _ held => .inl held

theorem touches_lockedStep (evicted : W step) (own : Named W named (s.server self).m_metaManager) :
    Touches self W named s (exit (region (mapMutex self) MetaDataManager.mapBusy
      (evictStep self step) s)) := by
  cases free : (mapMutex self).held s with
  | true =>
    rw [region_busy free]
    exact .refl s
  | false =>
    have taken : Touches self W named s ((mapMutex self).put true s) := touches_mapMutex true
    have body := touches_evictStep evicted (taken.keeps_named own)
    cases h : evictStep self step ((mapMutex self).put true s) with
    | ok a t =>
      rw [h] at body
      rw [region_ok free h]
      exact (taken.trans body).trans (touches_mapMutex false)
    | error e t =>
      rw [h] at body
      rw [region_error free h]
      exact taken.trans body

theorem touches_evictSteps {n currentlb : Nat} {i : Int}
    (evicted : ∀ step ∈ MetaDataManager.visited currentlb n, W step)
    (own : Named W named (s.server self).m_metaManager) :
    Touches self W named s (exit (evictSteps self n i currentlb s)) := by
  induction n generalizing s i currentlb with
  | zero => exact .refl s
  | succ n ih =>
    have now : W currentlb := evicted currentlb (List.mem_cons_self ..)
    have first := touches_lockedStep now own
    unfold evictSteps
    cases h : region (mapMutex self) MetaDataManager.mapBusy (evictStep self currentlb) s with
    | error e t =>
      rw [h] at first
      rw [bind_error h]
      exact first
    | ok a t =>
      rw [h] at first
      rw [bind_ok h]
      cases int (i + 1) with
      | error e =>
        rw [bind_error (lift_error rfl)]
        exact first
      | ok j =>
        rw [bind_ok (lift_ok rfl)]
        exact first.trans (ih (fun step mem => evicted step (List.mem_cons_of_mem _ mem))
          (first.keeps_named own))

/-- The window has room for the step. -/
def Idle (self : String) (step : Nat) (s : Servers) : Prop :=
  MetaDataManager.ifOutOfBuffer { (s.server self).m_metaManager with m_windowub := step } = false

theorem eraseMetaAndRaw_idle (idle : s.Idle self step) :
    eraseMetaAndRaw self step s = .ok () (s.onMeta self fun m => m.slide step) := by
  let latest := s.onMeta self fun m => { m with m_windowub := step }
  have own : (latest.server self).m_metaManager.ifOutOfBuffer = false := by
    rw [server_onMeta, if_pos rfl]
    exact idle
  have slid : s.onMeta self (fun m => m.slide step) = latest := by
    refine onMeta_congr ?_
    show MetaDataManager.slide _ step = _
    unfold MetaDataManager.slide
    rw [idle]
    rfl
  show (if (latest.server self).m_metaManager.ifOutOfBuffer then _ else pure () :
    EStateM Stop Servers Unit) latest = _
  rw [own, slid]
  rfl

theorem eraseMetaAndRaw_full (full : ¬ s.Idle self step) :
    eraseMetaAndRaw self step s = evictSteps self (s.server self).m_metaManager.m_deletedNum 0
      (s.server self).m_metaManager.m_windowlb (s.onMeta self fun m => m.slide step) := by
  let latest := s.onMeta self fun m => { m with m_windowub := step }
  have own : (latest.server self).m_metaManager =
      { (s.server self).m_metaManager with m_windowub := step } := by
    rw [server_onMeta, if_pos rfl]
  have full' := Bool.eq_true_of_not_eq_false full
  have slid : s.onMeta self (fun m => m.slide step) = latest.onMeta self fun m => m.advance := by
    rw [onMeta_onMeta]
    refine onMeta_congr ?_
    show MetaDataManager.slide _ step = _
    unfold MetaDataManager.slide
    rw [full']
    rfl
  show (if (latest.server self).m_metaManager.ifOutOfBuffer then _ else pure () :
    EStateM Stop Servers Unit) latest = _
  rw [own, full', slid]
  rfl

theorem evicted_idle (idle : s.Idle self step) :
    (s.server self).m_metaManager.evicted step = [] := by
  unfold MetaDataManager.evicted
  rw [idle]
  rfl

theorem evicted_full (full : ¬ s.Idle self step) : (s.server self).m_metaManager.evicted step =
    MetaDataManager.visited (s.server self).m_metaManager.m_windowlb
      (s.server self).m_metaManager.m_deletedNum := by
  unfold MetaDataManager.evicted
  rw [Bool.eq_true_of_not_eq_false full]
  rfl

/-- What a call does, however it ends: the window slides, and the steps it evicts are touched. -/
theorem eraseMetaAndRaw_touches (step : Nat) :
    Touches self (fun st => st ∈ (s.server self).m_metaManager.evicted step)
      (fun block => ∃ st ∈ (s.server self).m_metaManager.evicted step,
        block ∈ (s.server self).m_metaManager.blocksOf st)
      (s.onMeta self fun m => m.slide step) (exit (eraseMetaAndRaw self step s)) := by
  by_cases idle : s.Idle self step
  · rw [eraseMetaAndRaw_idle idle]
    exact .refl _
  · rw [eraseMetaAndRaw_full idle]
    refine touches_evictSteps (fun st mem => (evicted_full idle).symm ▸ mem) ?_
    intro st mem rde held
    rw [server_onMeta, if_pos rfl] at held
    have held' := (MetaDataManager.describes_congr (MetaDataManager.slide_map step)).mp held
    exact ⟨st, mem, MetaDataManager.mem_blocksOf.mpr ⟨rde, held', rfl⟩⟩

/-- The call removes a block of the step: its descriptor, or the block where no other step
describes it. -/
def Removes (self : String) (s t : Servers) (step : Nat) : Prop :=
  ∃ rde, (s.server self).m_metaManager.Describes step rde ∧
    (¬ (t.server self).m_metaManager.Describes step rde ∨
      (s.server rde.m_rawDataServerAddr).m_blockManager.block rde.m_rawDataID ≠ none ∧
      (t.server rde.m_rawDataServerAddr).m_blockManager.block rde.m_rawDataID = none ∧
      ∀ other, (rde.m_rawDataServerAddr, rde.m_rawDataID) ∈
        (s.server self).m_metaManager.blocksOf other → other = step)

/-- Blocks are removed from the evicted steps only. -/
theorem removes_evicted {latest : Nat}
    (h : Removes self s (exit (eraseMetaAndRaw self latest s)) step) :
    step ∈ (s.server self).m_metaManager.evicted latest := by
  have touched := @eraseMetaAndRaw_touches s self latest
  obtain ⟨rde, held, gone | ⟨there, gone, only⟩⟩ := h
  · by_contra out
    refine gone ?_
    have same := touched.outside step out
    rw [server_onMeta, if_pos rfl, MetaDataManager.slide_map] at same
    obtain ⟨varName, dataType, mem⟩ := held
    refine ⟨varName, dataType, ?_⟩
    rwa [MetaDataManager.listOf, MetaDataManager.endpointsOf, MetaDataManager.blockOf, same]
  · rcases touched.stored rde.m_rawDataServerAddr rde.m_rawDataID with same | ⟨st, mem, named⟩
    · rw [onMeta_blocks, gone] at same
      exact absurd same.symm there
    · exact only st named ▸ mem

/-- The servers, with the largest step that was passed so far. -/
structure Watched where
  servers : Servers
  largest : Nat

/-- A call of the eviction, or whatever else happens to the servers without touching the
window. -/
inductive Slides (self : String) : Option Nat → Watched → Watched → Prop
  | call {v : Watched} {step : Nat} (positive : 1 ≤ step) (word : step < 2 ^ 64) :
    Slides self (some step) v ⟨exit (eraseMetaAndRaw self step v.servers), max v.largest step⟩
  | other {v : Watched} {t : Servers}
    (kept : (t.server self).m_metaManager.window = (v.servers.server self).m_metaManager.window) :
    Slides self none v ⟨t, v.largest⟩

/-- No call is more than one step below the window it finds. -/
def Timely (self : String) : Option Nat → Watched → Prop
  | some step, v => (v.servers.server self).m_metaManager.m_windowlb ≤ step + 1
  | none, _ => True

instance (self : String) (v : Watched) : ∀ call, Decidable (Timely self call v)
  | some step => inferInstanceAs (Decidable (_ ≤ step + 1))
  | none => .isTrue trivial

/-- The settings are as they were and the lower bound is a step. -/
structure Sliding (self : String) (w d : Nat) (v : Watched) : Prop where
  size : (v.servers.server self).m_metaManager.m_windowSize = w
  deleted : (v.servers.server self).m_metaManager.m_deletedNum = d
  positive : 1 ≤ (v.servers.server self).m_metaManager.m_windowlb
  word : (v.servers.server self).m_metaManager.m_windowlb < 2 ^ 64

variable {v v' : Watched} {w d : Nat} {call : Option Nat}

theorem eraseMetaAndRaw_window (step : Nat) :
    ((exit (eraseMetaAndRaw self step s)).server self).m_metaManager.window =
      ((s.server self).m_metaManager.slide step).window := by
  rw [(eraseMetaAndRaw_touches step).window, server_onMeta, if_pos rfl]

/-- The steps a timely call evicts were followed by a window of others, or by less than a window
when several are evicted at once. -/
theorem evicted_bound {latest : Nat} (sliding : Sliding self w d v) (room : d + 1 ≤ w)
    (word : latest < 2 ^ 64) (timely : Timely self (some latest) v)
    (h : step ∈ (v.servers.server self).m_metaManager.evicted latest) :
    step + w ≤ latest + (d - 1) := by
  obtain ⟨size, deleted, positive, _⟩ := sliding
  unfold MetaDataManager.evicted at h
  split at h
  · rename_i full
    have passed := (MetaDataManager.ifOutOfBuffer_iff positive word timely).mp full
    rw [size] at passed
    rw [deleted] at h
    have range := MetaDataManager.mem_visited (by omega) h
    omega
  · cases h

theorem Sliding.slides (sliding : Sliding self w d v) (room : d + 1 ≤ w)
    (timely : Timely self call v) (h : Slides self call v v') : Sliding self w d v' := by
  obtain ⟨size, deleted, positive, below⟩ := sliding
  cases h with
  | other kept =>
    simp only [MetaDataManager.window, Prod.mk.injEq] at kept
    obtain ⟨size', deleted', lb', _⟩ := kept
    exact ⟨size'.trans size, deleted'.trans deleted, lb' ▸ positive, lb' ▸ below⟩
  | @call _ step _ word =>
    have kept := @eraseMetaAndRaw_window v.servers self step
    unfold MetaDataManager.slide at kept
    split at kept
    · rename_i full
      have passed := (MetaDataManager.ifOutOfBuffer_iff positive word timely).mp full
      simp only [MetaDataManager.window, MetaDataManager.advance, Prod.mk.injEq] at kept
      obtain ⟨size', deleted', lb', _⟩ := kept
      rw [deleted, Nat.mod_eq_of_lt (by omega)] at lb'
      exact ⟨size'.trans size, deleted'.trans deleted, by rw [lb']; omega, by rw [lb']; omega⟩
    · simp only [MetaDataManager.window, Prod.mk.injEq] at kept
      obtain ⟨size', deleted', lb', _⟩ := kept
      exact ⟨size'.trans size, deleted'.trans deleted, lb' ▸ positive, lb' ▸ below⟩

/-- In a run of timely calls a removed step lies a window behind the largest step, up to the
steps that are evicted together. -/
theorem removed_left_window {calls : List (Option Nat)} (initial : Sliding self w d v)
    (room : d + 1 ≤ w) (run : Runs.Run (Runs.Meeting (Timely self) (Slides self)) v calls v')
    {u : Watched} (timely : Timely self call v') (last : Slides self call v' u)
    (passed : call ≠ none) (removed : Removes self v'.servers u.servers step) :
    step + w ≤ u.largest + (d - 1) := by
  have sliding : Sliding self w d v' :=
    run.invariant initial fun _ _ _ kept meets => kept.slides room meets.1 meets.2
  cases last with
  | other _ => exact absurd rfl passed
  | @call _ latest _ word =>
    have bound := evicted_bound sliding room word timely (removes_evicted removed)
    show step + w ≤ max v'.largest latest + (d - 1)
    omega

/-! ## Windows of three steps -/

/-- Every server describes a block of each of two steps. -/
def threeSteps (m_deletedNum : Nat) : Watched where
  servers.server _ :=
    { replicas.server "server2" with
      m_metaManager := { twoSteps with m_windowSize := 3, m_deletedNum := m_deletedNum } }
  largest := 0

/-- The servers after a call with the step. -/
def Watched.pass (v : Watched) (step : Nat) : Watched :=
  ⟨exit (eraseMetaAndRaw "server0" step v.servers), max v.largest step⟩

theorem slides_pass (v : Watched) {step : Nat} (positive : 1 ≤ step) (word : step < 2 ^ 64) :
    Slides "server0" (some step) v (v.pass step) := .call positive word

theorem removes_described {s t : Servers}
    (before : (s.server self).m_metaManager.blocksOf step ≠ [])
    (after : (t.server self).m_metaManager.blocksOf step = []) : Removes self s t step := by
  obtain ⟨block, mem⟩ := List.exists_mem_of_ne_nil _ before
  obtain ⟨rde, held, _⟩ := MetaDataManager.mem_blocksOf.mp mem
  refine ⟨rde, held, .inl fun held' => ?_⟩
  have mem' := MetaDataManager.mem_blocksOf.mpr ⟨rde, held', rfl⟩
  rw [after] at mem'
  cases mem'

/-- Two steps are evicted at once: the second is one of the last three. -/
theorem batch_inside_window : ∃ v u : Watched,
    Runs.Run (Slides "server0") (threeSteps 2) [some 1, some 2, some 3] v ∧
      Slides "server0" (some 4) v u ∧ Removes "server0" v.servers u.servers 2 ∧
        ¬ 2 + 3 ≤ u.largest := by
  let v := (((threeSteps 2).pass 1).pass 2).pass 3
  refine ⟨v, v.pass 4, ?_, slides_pass v (by decide) (by decide), ?_, by decide⟩
  · exact .next (.next (.next .start (slides_pass _ (by decide) (by decide)))
      (slides_pass _ (by decide) (by decide))) (slides_pass _ (by decide) (by decide))
  · exact removes_described (by decide +kernel) (by decide +kernel)

theorem single_left_window : ∃ v u : Watched,
    Runs.Run (Slides "server0") (threeSteps 1) [some 1, some 2, some 3] v ∧
      Slides "server0" (some 4) v u ∧ Removes "server0" v.servers u.servers 1 ∧
        1 + 3 ≤ u.largest + (1 - 1) := by
  let v := (((threeSteps 1).pass 1).pass 2).pass 3
  have last := slides_pass v (show 1 ≤ 4 by decide) (by decide)
  have run : Runs.Run (Runs.Meeting (Timely "server0") (Slides "server0")) (threeSteps 1)
      [some 1, some 2, some 3] v :=
    .next (.next (.next .start ⟨by decide +kernel, slides_pass _ (by decide) (by decide)⟩)
      ⟨by decide +kernel, slides_pass _ (by decide) (by decide)⟩)
      ⟨by decide +kernel, slides_pass _ (by decide) (by decide)⟩
  have initial : Sliding "server0" 3 1 (threeSteps 1) := ⟨rfl, rfl, by decide, by decide⟩
  have removed : Removes "server0" v.servers (v.pass 4).servers 1 :=
    removes_described (by decide +kernel) (by decide +kernel)
  exact ⟨v, v.pass 4, run.of_meeting, last, removed,
    removed_left_window initial (by decide) run (by decide +kernel) last (by decide) removed⟩

end Servers

end Gorilla
