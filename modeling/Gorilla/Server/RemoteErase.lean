import Gorilla.BlockManager.Handles
import Gorilla.Lib.Moves
import Gorilla.Server.Ledger

/-!
# Erasing blocks on other servers

A metadata server that deletes its descriptors asks the servers they name to erase the blocks,
one request after the other, while its own map is locked.
-/

namespace Gorilla

open HandLock

namespace BlockManager

variable {m m' m'' : BlockManager} {p q : String → Prop} {id : String}

/-- The blocks of the named ids are gone, with their files, and all others are as they were. -/
structure Erased (named : String → Prop) (m m' : BlockManager) : Prop where
  gone : ∀ id, named id → m'.block id = none
  kept : ∀ id, ¬ named id → m'.block id = m.block id
  keyed : m.Keyed → m'.Keyed
  file_gone : m.Keyed → ∀ id, named id → m.IsFile id → m'.files.lookup id = none
  file_kept : m.Keyed → ∀ id, ¬ (named id ∧ m.IsFile id) → m'.files.lookup id = m.files.lookup id

theorem isFile_congr (h : m'.block id = m.block id) : m'.IsFile id ↔ m.IsFile id := by
  unfold IsFile
  rw [h]

theorem not_isFile (h : m.block id = none) : ¬ m.IsFile id := by
  unfold IsFile
  rw [h]
  exact fun file => nomatch file

theorem Erased.refl (m : BlockManager) : m.Erased (fun _ => False) m where
  gone _ named := named.elim
  kept _ _ := rfl
  keyed keyed := keyed
  file_gone _ _ named := named.elim
  file_kept _ _ _ := rfl

theorem Erased.congr (h : m.Erased p m') (same : ∀ id, p id ↔ q id) : m.Erased q m' := by
  have same' : p = q := funext fun id => propext (same id)
  rwa [← same']

theorem Erased.trans (h : m.Erased p m') (h' : m'.Erased q m'') :
    m.Erased (fun id => p id ∨ q id) m'' where
  gone id named := by
    by_cases second : q id
    · exact h'.gone id second
    · rw [h'.kept id second]
      exact h.gone id (named.resolve_right second)
  kept id other := by
    rw [not_or] at other
    rw [h'.kept id other.2, h.kept id other.1]
  keyed keyed := h'.keyed (h.keyed keyed)
  file_gone keyed id named file := by
    by_cases first : p id
    · rw [h'.file_kept (h.keyed keyed) id fun both => not_isFile (h.gone id first) both.2]
      exact h.file_gone keyed id first file
    · exact h'.file_gone (h.keyed keyed) id (named.resolve_left first)
        ((isFile_congr (h.kept id first)).mpr file)
  file_kept keyed id other := by
    have first : ¬ (p id ∧ m.IsFile id) := fun both => other ⟨.inl both.1, both.2⟩
    have second : ¬ (q id ∧ m'.IsFile id) := by
      rintro ⟨named, file⟩
      by_cases before : p id
      · exact not_isFile (h.gone id before) file
      · exact other ⟨.inr named, (isFile_congr (h.kept id before)).mp file⟩
    rw [h'.file_kept (h.keyed keyed) id second, h.file_kept keyed id first]

theorem erased_erased (m : BlockManager) (blockID : String) :
    m.Erased (· = blockID) (m.erased blockID) where
  gone id named := by rw [BlockCall.block_erased, if_pos named]
  kept id other := by rw [BlockCall.block_erased, if_neg other]
  keyed keyed id handle hb := by
    rw [BlockCall.block_erased] at hb
    split at hb
    · cases hb
    · exact keyed id handle hb
  file_gone keyed id named file := by
    rw [BlockCall.files_erased keyed, if_pos (named ▸ file), named, Files.lookup_erase]
  file_kept keyed id other := by
    rw [BlockCall.files_erased keyed]
    split
    · rename_i file
      have ne : id ≠ blockID := fun same => other ⟨same, same ▸ file⟩
      exact Files.lookup_erase_ne ne
    · rfl

theorem removable_erased (m : BlockManager) (blockID : String) :
    (m.erased blockID).files.removable = m.files.removable := by
  unfold erased DataBlock.withoutFile
  cases m.DataBlockMap.lookup blockID with
  | none => rfl
  | some handle =>
    dsimp only
    cases handle.storage <;> rfl

/-- An erase that returned left every file there was, or removed one that could be removed. -/
theorem lookup_erased {blockID : String} (erasable : m.Erasable blockID) (id : String) :
    (m.erased blockID).files.lookup id = m.files.lookup id ∨
      (m.erased blockID).files.lookup id = none ∧
        (m.files.lookup id ≠ none → m.files.removable id) := by
  unfold erased DataBlock.withoutFile
  cases hb : m.DataBlockMap.lookup blockID with
  | none => exact .inl rfl
  | some handle =>
    dsimp only
    cases hst : handle.storage with
    | FileObj =>
      by_cases same : id = handle.m_blockid
      · subst same
        exact .inr ⟨Files.lookup_erase, (erasable handle hb hst).2⟩
      · exact .inl (Files.lookup_erase_ne same)
    | _ => exact .inl rfl

/-- An erase that returned decides nothing about the erase of another block. -/
theorem erasable_erased {blockID : String} (erasable : m.Erasable blockID) (id : String) :
    (m.erased blockID).Erasable id ↔ m.Erasable id := by
  by_cases same : id = blockID
  · subst same
    refine iff_of_true (fun handle hb => ?_) erasable
    rw [BlockCall.block_erased, if_pos rfl] at hb
    cases hb
  · have found : (m.erased blockID).block id = m.block id := by
      rw [BlockCall.block_erased, if_neg same]
    unfold Erasable DataBlock.Erasable
    rw [found, removable_erased]
    refine forall_congr' fun handle => imp_congr_right fun _ => imp_congr_right fun _ =>
      and_congr_right fun _ => ?_
    rcases lookup_erased erasable handle.m_blockid with kept | ⟨gone, removable⟩
    · rw [kept]
    · rw [gone]
      exact iff_of_true (fun some => absurd rfl some) removable

end BlockManager

namespace MetaDataManager

variable {m : MetaDataManager} {step : Nat} {varName dataType : String} {rde : BlockDescriptor}

/-- The descriptors of a key, in their order. -/
def listOf (m : MetaDataManager) (step : Nat) (varName dataType : String) : List BlockDescriptor :=
  (m.endpointsOf step varName dataType).getD []

/-- Some descriptor of the step, whatever its variable and type. -/
def Describes (m : MetaDataManager) (step : Nat) (rde : BlockDescriptor) : Prop :=
  ∃ varName dataType, rde ∈ m.listOf step varName dataType

theorem mem_listOf : rde ∈ m.listOf step varName dataType ↔
    ∃ list, m.endpointsOf step varName dataType = some list ∧ rde ∈ list := by
  unfold listOf
  cases m.endpointsOf step varName dataType <;> simp

/-- The descriptors of a step, found by walking the maps. -/
theorem describes_iff : m.Describes step rde ↔
    ∃ kv ∈ ((m.m_metaDataMap.lookup step).getD ∅).entries,
      ∃ kvinner ∈ kv.2.m_metadataBlock.entries, rde ∈ kvinner.2 := by
  simp only [Describes, mem_listOf]
  constructor
  · rintro ⟨varName, dataType, list, held, hrde⟩
    obtain ⟨block, hb, typed⟩ := Option.bind_eq_some_iff.mp held
    obtain ⟨vars, hs, stored⟩ := Option.bind_eq_some_iff.mp hb
    refine ⟨⟨varName, block⟩, ?_, ⟨dataType, list⟩, AList.mem_lookup_iff.mp typed, hrde⟩
    rw [hs]
    exact AList.mem_lookup_iff.mp stored
  · rintro ⟨⟨varName, block⟩, hvar, ⟨dataType, list⟩, htype, hrde⟩
    refine ⟨varName, dataType, list, ?_, hrde⟩
    cases hs : m.m_metaDataMap.lookup step with
    | none =>
      rw [hs] at hvar
      cases hvar
    | some vars =>
      rw [hs] at hvar
      have stored : vars.lookup varName = some block := AList.mem_lookup_iff.mpr hvar
      have typed : block.m_metadataBlock.lookup dataType = some list :=
        AList.mem_lookup_iff.mpr htype
      rw [endpointsOf, blockOf, hs, Option.bind_some, stored, Option.bind_some, typed]

theorem mem_blocksOf {b : String × String} : b ∈ m.blocksOf step ↔
    ∃ rde, m.Describes step rde ∧ b = (rde.m_rawDataServerAddr, rde.m_rawDataID) := by
  simp only [blocksOf, List.mem_flatMap, List.mem_map, describes_iff]
  constructor
  · rintro ⟨kv, hkv, kvinner, hinner, rde, hrde, rfl⟩
    exact ⟨rde, ⟨kv, hkv, kvinner, hinner, hrde⟩, rfl⟩
  · rintro ⟨rde, ⟨kv, hkv, kvinner, hinner, hrde⟩, rfl⟩
    exact ⟨kv, hkv, kvinner, hinner, rde, hrde, rfl⟩

end MetaDataManager

namespace Servers

variable {s t : Servers} {self a : String}

/-- Change the metadata of one server. -/
def onMeta (self : String) (f : MetaDataManager → MetaDataManager) (s : Servers) : Servers :=
  s.put self { s.server self with m_metaManager := f (s.server self).m_metaManager }

theorem server_onMeta (f : MetaDataManager → MetaDataManager) (a : String) :
    (s.onMeta self f).server a =
      if a = self then { s.server a with m_metaManager := f (s.server a).m_metaManager }
      else s.server a := by
  rw [onMeta, server_put]
  split
  · rename_i own
    rw [own]
  · rfl

theorem onMeta_blocks (f : MetaDataManager → MetaDataManager) (a : String) :
    ((s.onMeta self f).server a).m_blockManager = (s.server a).m_blockManager := by
  rw [server_onMeta]
  split <;> rfl

theorem onMeta_onMeta (f g : MetaDataManager → MetaDataManager) :
    (s.onMeta self f).onMeta self g = s.onMeta self (g ∘ f) := by
  simp only [onMeta, put, Function.update_self, Function.update_idem, Function.comp_apply]

theorem onMeta_congr {f g : MetaDataManager → MetaDataManager}
    (h : f (s.server self).m_metaManager = g (s.server self).m_metaManager) :
    s.onMeta self f = s.onMeta self g := by
  rw [onMeta, onMeta, h]

theorem onMeta_self {f : MetaDataManager → MetaDataManager}
    (h : f (s.server self).m_metaManager = (s.server self).m_metaManager) :
    s.onMeta self f = s := by
  rw [onMeta, h]
  exact put_server s self

/-- `m_metaDataMapMutex` of one server. -/
def mapMutex (self : String) : Mutex Servers where
  held s := (s.server self).m_metaManager.m_metaDataMapMutex
  put b s := s.onMeta self fun m => { m with m_metaDataMapMutex := b }
  held_put b s := by rw [server_onMeta, if_pos rfl]
  put_put b c s := by rw [onMeta_onMeta]; rfl
  put_held s := onMeta_self rfl

/-- `clientStaging->eraseRawData(serverAddr, blockID)`: the engine may not find the address. -/
def eraseRawData (serverAddr blockID : String) : EStateM Stop Servers Unit := do
  if ¬ (← get).lookup serverAddr then
    throw (.runtime_error "lookup")
  let _ ← call serverAddr (eraserawdata blockID)

/-- The server of the block is found, and can erase it. -/
def Reaches (s : Servers) (rde : String × String) : Prop :=
  s.lookup rde.1 ∧ (s.server rde.1).m_blockManager.Erasable rde.2

theorem reaches_onMeta (f : MetaDataManager → MetaDataManager) (rde : String × String) :
    (s.onMeta self f).Reaches rde ↔ s.Reaches rde := by
  unfold Reaches
  rw [onMeta_blocks]
  rfl

/-- A server that throws does not reply, and its caller waits. -/
theorem eraseRawData_refused {rde : String × String} (h : ¬ s.Reaches rde) :
    ∃ e, eraseRawData rde.1 rde.2 s = .error e s := by
  unfold Reaches at h
  unfold eraseRawData
  rw [bind_ok (get_run s)]
  by_cases found : s.lookup rde.1
  · rw [if_neg (not_not.mpr found)]
    obtain ⟨what, thrown⟩ := BlockManager.eraseBlock_refused (not_and.mp h found)
    have run : eraserawdata rde.2 ⟨s.server rde.1, []⟩ =
        .error (.runtime_error what) ⟨s.server rde.1, []⟩ :=
      bind_error (Handler.onServer_error (zoom_error thrown))
    have waits : call rde.1 (eraserawdata rde.2) s = .error (.blocked "no reply") s := by
      unfold call
      rw [run]
      show EStateM.Result.error _ (s.put rde.1 (s.server rde.1)) = _
      rw [put_server]
    exact ⟨_, bind_error waits⟩
  · rw [if_pos found]
    exact ⟨_, rfl⟩

theorem eraseRawData_reaches {rde : String × String} (h : s.Reaches rde) :
    eraseRawData rde.1 rde.2 s = .ok () (s.eraseBlock rde.1 rde.2) := by
  obtain ⟨found, erasable⟩ := h
  unfold eraseRawData
  rw [bind_ok (get_run s), if_neg (not_not.mpr found)]
  refine bind_ok (a := (0 : Int)) (call_eq_ok.mpr ⟨[], ?_, ?_⟩)
  · rw [eraserawdata_erasable erasable]
    rfl
  · rw [eraserawdata_erasable erasable]
    rfl

theorem eraseRawData_eq_ok {rde : String × String} :
    eraseRawData rde.1 rde.2 s = .ok () t ↔ s.Reaches rde ∧ t = s.eraseBlock rde.1 rde.2 := by
  by_cases h : s.Reaches rde
  · rw [eraseRawData_reaches h]
    simp [h, eq_comm]
  · obtain ⟨e, thrown⟩ := eraseRawData_refused h
    rw [thrown]
    simp [h]

theorem server_eraseBlock (serverAddr blockID a : String) :
    (s.eraseBlock serverAddr blockID).server a =
      if a = serverAddr then
        { s.server a with m_blockManager := (s.server a).m_blockManager.erased blockID }
      else s.server a := by
  rw [eraseBlock, server_put]
  split
  · rename_i own
    rw [own]
  · rfl

theorem eraseBlock_meta (serverAddr blockID a : String) :
    ((s.eraseBlock serverAddr blockID).server a).m_metaManager = (s.server a).m_metaManager := by
  rw [server_eraseBlock]
  split <;> rfl

theorem erased_eraseBlock (serverAddr blockID a : String) :
    (s.server a).m_blockManager.Erased (fun id => (a, id) = (serverAddr, blockID))
      ((s.eraseBlock serverAddr blockID).server a).m_blockManager := by
  rw [server_eraseBlock]
  split
  · rename_i own
    subst own
    exact (BlockManager.erased_erased _ blockID).congr fun id => by simp
  · rename_i other
    exact (BlockManager.Erased.refl _).congr fun id => by simp [other]

theorem lookup_eraseBlock (serverAddr blockID : String) :
    (s.eraseBlock serverAddr blockID).lookup = s.lookup := rfl

/-- An erase that returned decides nothing about the others. -/
theorem reaches_eraseBlock {rde : String × String} (h : s.Reaches rde) (other : String × String) :
    (s.eraseBlock rde.1 rde.2).Reaches other ↔ s.Reaches other := by
  unfold Reaches
  rw [lookup_eraseBlock, server_eraseBlock]
  split
  · rename_i same
    have erasable : (s.server other.1).m_blockManager.Erasable rde.2 := same ▸ h.2
    exact and_congr_right fun _ => BlockManager.erasable_erased erasable other.2
  · rfl

/-- The erases of a list of blocks, one by one. -/
def eraseAll (rdes : List (String × String)) : EStateM Stop Servers Unit :=
  rdes.forM fun rde => eraseRawData rde.1 rde.2

/-- They return exactly when each of the blocks is reached. -/
theorem eraseAll_eq_ok {rdes : List (String × String)} :
    eraseAll rdes s = .ok () t ↔ (∀ rde ∈ rdes, s.Reaches rde) ∧
      t = rdes.foldl (fun s rde => s.eraseBlock rde.1 rde.2) s := by
  induction rdes generalizing s with
  | nil =>
    show EStateM.Result.ok () s = .ok () t ↔ _
    simp [eq_comm]
  | cons rde rdes ih =>
    show (eraseRawData rde.1 rde.2 >>= fun _ => eraseAll rdes) s = _ ↔ _
    rw [bind_run_eq_ok]
    constructor
    · rintro ⟨_, v, first, rest⟩
      obtain ⟨reaches, rfl⟩ := eraseRawData_eq_ok.mp first
      obtain ⟨all, rfl⟩ := ih.mp rest
      refine ⟨List.forall_mem_cons.mpr ⟨reaches, fun other mem => ?_⟩, rfl⟩
      exact (reaches_eraseBlock reaches other).mp (all other mem)
    · rintro ⟨all, rfl⟩
      obtain ⟨reaches, rest⟩ := List.forall_mem_cons.mp all
      refine ⟨(), _, eraseRawData_reaches reaches, ih.mpr ⟨fun other mem => ?_, rfl⟩⟩
      exact (reaches_eraseBlock reaches other).mpr (rest other mem)

theorem reaches_eraseAll {rdes : List (String × String)} (all : ∀ rde ∈ rdes, s.Reaches rde)
    (other : String × String) :
    (rdes.foldl (fun s rde => s.eraseBlock rde.1 rde.2) s).Reaches other ↔ s.Reaches other := by
  induction rdes generalizing s with
  | nil => rfl
  | cons rde rdes ih =>
    obtain ⟨reaches, rest⟩ := List.forall_mem_cons.mp all
    rw [List.foldl_cons, ih fun rde' mem => (reaches_eraseBlock reaches rde').mpr (rest rde' mem)]
    exact reaches_eraseBlock reaches other

theorem eraseAll_meta (rdes : List (String × String)) (a : String) :
    ((rdes.foldl (fun s rde => s.eraseBlock rde.1 rde.2) s).server a).m_metaManager =
      (s.server a).m_metaManager := by
  rw [eraseBlocks_server]

theorem erased_eraseAll (rdes : List (String × String)) (a : String) :
    (s.server a).m_blockManager.Erased (fun id => (a, id) ∈ rdes)
      ((rdes.foldl (fun s rde => s.eraseBlock rde.1 rde.2) s).server a).m_blockManager := by
  induction rdes generalizing s with
  | nil => exact (BlockManager.Erased.refl _).congr fun id => by simp
  | cons rde rdes ih =>
    exact ((erased_eraseBlock rde.1 rde.2 a).trans ih).congr fun id => by simp

theorem eq_of_server (h : ∀ a, s.server a = t.server a) (found : s.lookup = t.lookup) : s = t := by
  cases s
  cases t
  cases found
  exact congrArg (Servers.mk · _) (funext h)

/-- An erase changes no metadata, whoever holds it. -/
theorem eraseBlock_onMeta (f : MetaDataManager → MetaDataManager) (serverAddr blockID : String) :
    (s.onMeta self f).eraseBlock serverAddr blockID =
      (s.eraseBlock serverAddr blockID).onMeta self f := by
  refine eq_of_server (fun a => ?_) rfl
  rw [server_onMeta]
  simp only [server_eraseBlock, server_onMeta]
  by_cases erased : a = serverAddr
  · by_cases own : a = self
    · rw [if_pos erased, if_pos own, if_pos own, if_pos erased]
    · rw [if_pos erased, if_neg own, if_neg own, if_pos erased]
  · by_cases own : a = self
    · rw [if_neg erased, if_pos own, if_pos own, if_neg erased]
    · rw [if_neg erased, if_neg own, if_neg own, if_neg erased]

theorem eraseAll_onMeta (f : MetaDataManager → MetaDataManager) (rdes : List (String × String)) :
    rdes.foldl (fun s rde => s.eraseBlock rde.1 rde.2) (s.onMeta self f) =
      (rdes.foldl (fun s rde => s.eraseBlock rde.1 rde.2) s).onMeta self f := by
  induction rdes generalizing s with
  | nil => rfl
  | cons rde rdes ih =>
    rw [List.foldl_cons, eraseBlock_onMeta, ih]
    rfl

end Servers

end Gorilla
