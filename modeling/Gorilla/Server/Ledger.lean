import Gorilla.Lib.Runs
import Gorilla.Lib.Totals
import Gorilla.Server.PutHandlers
import Gorilla.Server.PutMetadata
import Mathlib.Data.UInt
import Mathlib.Tactic.Abel

/-!
# What the memory ledger accounts for

The limit of a server is split between the memory it calls available, its staging containers
and its `CARGRID` blocks, as far as the handlers keep the ledger by hand.
-/

namespace Gorilla

open HandLock Runs Totals

/-- The size a put of the block is charged for. -/
def DataBlock.gridSize (b : DataBlock) : UInt64 :=
  if b.m_blockSummary.m_dataType = DATATYPE_CARGRID then
    (b.m_blockSummary.getArraySize b.m_blockSummary.m_blockid).toOption.getD 0
  else 0

/-- The sum wraps like the counter does. -/
def Containers.size (k : Containers) : UInt64 := total (fun _ b => b.size) k.m_bulkMap

def BlockManager.gridSize (m : BlockManager) : UInt64 :=
  total (fun _ b => b.gridSize) m.DataBlockMap

/-- The size of the `CARGRID` block of the id, if there is one. -/
def BlockManager.sizeOf (m : BlockManager) (blockID : String) : UInt64 :=
  share (fun _ b => b.gridSize) m.DataBlockMap blockID

namespace BlockManager

/-- The data of every block was put. -/
def Filled (m : BlockManager) : Prop := ∀ id b, m.block id = some b → b.HasData

variable {m m' : BlockManager} {bs : BlockSummary} {backend : Int} {src : DataPointer}

theorem map_erased (m : BlockManager) (blockID : String) :
    (m.erased blockID).DataBlockMap = m.DataBlockMap.erase blockID := by
  unfold erased
  cases h : m.DataBlockMap.lookup blockID with
  | some handle => rfl
  | none =>
    have absent : blockID ∉ m.DataBlockMap.entries.keys := fun mem =>
      absurd (AList.lookup_isSome.mpr (AList.mem_keys.mpr mem)) (by rw [h]; simp)
    exact AList.ext (List.kerase_of_notMem_keys absent).symm

/-- Data in memory is erased with its block. -/
theorem erasable_of_filled (h : m.Filled) (blockID : String) : m.Erasable blockID := by
  intro handle hb file
  rcases h blockID handle hb with ⟨data, raw⟩ | ⟨vtk, held⟩
  · cases raw.symm.trans file
  · cases held.symm.trans file

theorem filled_erased (h : m.Filled) (blockID : String) : (m.erased blockID).Filled := by
  intro id b hb
  rw [BlockCall.block_erased] at hb
  split at hb
  · cases hb
  · exact h id b hb

/-- A put into a filled manager is a put of a new block. -/
theorem putBlock_new (h : m.Filled) (memory : backend = BACKEND.MEM ∨ backend = BACKEND.MEMVTKPTR)
    (put : putBlock bs backend src m = .ok () m') :
    m.block bs.m_blockid = none ∧ m'.Filled ∧
      ∃ b, b.m_blockSummary = bs ∧ m'.DataBlockMap = m.DataBlockMap.insert bs.m_blockid b := by
  obtain ⟨_, handle, hof, handle', files, hput, rfl⟩ := putBlock_eq_ok.mp put
  cases held : m.DataBlockMap.lookup bs.m_blockid with
  | some old =>
    have same : old = handle := by
      rw [handleOf, held] at hof
      exact Option.some.inj hof
    have hasData : ({ handle with m_blockSummary := bs } : DataBlock).HasData :=
      same ▸ h bs.m_blockid old held
    exact absurd hput (DataBlock.putData_hasData hasData)
  | none =>
    rw [handleOf, held] at hof
    have empty := storage_of_newHandle memory hof
    have hasData : handle'.HasData :=
      DataBlock.hasData_of_putData (by exact empty) hput
    refine ⟨held, ?_, handle', (DataBlock.putData_kept hput).2.1, rfl⟩
    intro id b hb
    rw [BlockCall.block_insert] at hb
    split at hb
    · exact Option.some.inj hb ▸ hasData
    · exact h id b hb

end BlockManager

namespace UniServer

/-- The limit the counter, the containers and the blocks together account for. -/
def ledger (s : UniServer) : UInt64 :=
  s.m_schedulerManager.m_avaliableMem + s.containers.size + s.m_blockManager.gridSize

variable {s s' : UniServer} {out : Outside} {clientID : Int} {size : UInt64} {bs : BlockSummary}

/-- A new container is charged, and a container that is replaced is given back. -/
theorem stage_ledger (s : UniServer) (clientID : Int) (size : UInt64) :
    (s.stage clientID size).ledger = s.ledger := by
  have assigned : share (fun _ b => b.size) s.containers.m_bulkMap clientID +
      (s.containers.assign clientID size).size = size + s.containers.size :=
    share_add_total_insert
  unfold stage
  cases h : s.containers.m_bulkMap.lookup clientID with
  | none =>
    rw [share_none h, zero_add] at assigned
    show s.m_schedulerManager.m_avaliableMem - size + (s.containers.assign clientID size).size +
      s.m_blockManager.gridSize = s.ledger
    rw [assigned, ledger]
    abel
  | some b =>
    rw [share_some h] at assigned
    by_cases same : b.size = size
    · simp [same]
    · simp only [ne_eq, same, not_false_eq_true, if_true]
      show s.m_schedulerManager.m_avaliableMem + b.size - size +
        (s.containers.assign clientID size).size + s.m_blockManager.gridSize = s.ledger
      rw [ledger, eq_sub_of_add_eq' assigned]
      abel

theorem pull_ledger {containers : Containers} {b : Bulk} {sent : Buffer}
    (h : s.containers.pull b sent = .ok containers) :
    ledger { s with containers := containers } = s.ledger := by
  rw [ledger, ledger, Containers.size, Containers.size, Containers.pull_bulkMap h]

/-- A block that is stored is counted when it is a grid. -/
theorem putBlock_ledger {backend : Int} {src : DataPointer} {m : BlockManager}
    (filled : s.m_blockManager.Filled)
    (memory : backend = BACKEND.MEM ∨ backend = BACKEND.MEMVTKPTR)
    (own : bs.getArraySize bs.m_blockid = .ok size)
    (put : BlockManager.putBlock bs backend src s.m_blockManager = .ok () m) :
    m.Filled ∧ ledger { s with m_blockManager := m } =
      s.ledger + if bs.m_dataType = DATATYPE_CARGRID then size else 0 := by
  obtain ⟨absent, filled', b, hb, stored⟩ := BlockManager.putBlock_new filled memory put
  have new : m.gridSize = b.gridSize + s.m_blockManager.gridSize := by
    rw [BlockManager.gridSize, stored, total_insert_new absent]
    rfl
  have size : b.gridSize = if bs.m_dataType = DATATYPE_CARGRID then size else 0 := by
    rw [DataBlock.gridSize, hb, own]
    rfl
  refine ⟨filled', ?_⟩
  show s.m_schedulerManager.m_avaliableMem + s.containers.size + m.gridSize = _
  rw [new, size, ledger]
  abel

/-- A `VTKPTR` block is charged like a grid and is no grid. -/
def uncounted (bs : BlockSummary) : UInt64 :=
  if bs.m_dataType = DATATYPE_VTKPTR then (bs.getArraySize bs.m_blockid).toOption.getD 0 else 0

theorem uncounted_of_vtk (vtk : bs.m_dataType = DATATYPE_VTKPTR)
    (own : bs.getArraySize bs.m_blockid = .ok size) : uncounted bs = size := by
  rw [uncounted, if_pos vtk, own]
  rfl

theorem assignMem_ledger (s : UniServer) (size : UInt64) :
    ledger { s with m_schedulerManager := s.m_schedulerManager.assignMem size } + size =
      s.ledger := by
  show s.m_schedulerManager.m_avaliableMem - size + s.containers.size + s.m_blockManager.gridSize +
    size = s.ledger
  rw [ledger]
  abel

/-- The ledger is kept until the container is copied. -/
theorem copying_ledger {r : PutRequest} {p₁ p₂ p₃ : PutPhase} {s₁ s₂ s₃ : UniServer}
    (first : PutRequest.Phase r .received p₁ s s₁) (second : PutRequest.Phase r p₁ p₂ s₁ s₂)
    (third : PutRequest.Phase r p₂ p₃ s₂ s₃) :
    s₃.ledger = s.ledger ∧ s₃.m_blockManager = s.m_blockManager ∧ ∃ size, p₃ = .copying size ∧
      r.blockSummary.getArraySize r.blockSummary.m_blockid = .ok size := by
  cases first with
  | @receive _ size clientStaging mem own =>
    cases second with
    | acquire free held =>
      cases third with
      | pull exposed pulled =>
        have staged := stage_ledger { s with clientStaging := clientStaging } r.clientID size
        have kept :
            (stage { s with clientStaging := clientStaging } r.clientID size).m_blockManager =
            s.m_blockManager := by rw [stage_eq]
        exact ⟨(pull_ledger pulled).trans staged, kept, size, rfl, own⟩

/-- A put that returns loses the size of a `VTKPTR` block from the ledger, and nothing else. -/
theorem putData_ledger (filled : s.m_blockManager.Filled)
    (h : putData out clientID bs s = .ok () s') :
    s'.m_blockManager.Filled ∧ s'.ledger + uncounted bs = s.ledger := by
  obtain ⟨_, _, _, _, p₃, s₃, _, s₄, _, first, second, third, fourth, fifth⟩ :=
    PutRequest.phases_of_putData (r := ⟨out, clientID, bs⟩) h
  obtain ⟨kept, blocks, size, rfl, own⟩ := copying_ledger first second third
  rw [← kept]
  have filled₃ : s₃.m_blockManager.Filled := blocks ▸ filled
  cases fourth with
  | store free grid held put =>
    cases fifth with
    | charge own' =>
      obtain rfl := Except.ok.inj (own.symm.trans own')
      obtain ⟨filled', stored⟩ := putBlock_ledger filled₃ (.inl rfl) own put
      have cargrid : bs.m_dataType = DATATYPE_CARGRID :=
        (BlockSummary.getArraySize_eq_ok.mp own).1.resolve_right grid
      rw [if_pos cargrid, ← assignMem_ledger _ size] at stored
      rw [uncounted, if_neg grid, add_zero]
      exact ⟨filled', add_right_cancel stored⟩
  | copy free vtk held fits =>
    cases fifth with
    | storeVtk own' unmarshalled put =>
      obtain rfl := Except.ok.inj (own.symm.trans own')
      obtain ⟨filled', stored⟩ := putBlock_ledger filled₃ (.inr rfl) own put
      have vtk' : bs.m_dataType = DATATYPE_VTKPTR := vtk
      have noGrid : bs.m_dataType ≠ DATATYPE_CARGRID := by
        rw [vtk']
        decide
      rw [if_neg noGrid, add_zero, ← assignMem_ledger _ size] at stored
      rw [uncounted_of_vtk vtk own]
      exact ⟨filled', stored⟩

end UniServer

/-- What fills the memory of the servers and empties it. -/
inductive MemoryCall
  | putrawdata (address : String) (out : Outside) (clientID : Int) (blockSummary : BlockSummary)
  | putmetadata (address : String) (step : Nat) (varName : String) (rde : BlockDescriptor)
  | eraserawdata (address blockID : String)
  | deleteMetaStep (address : String) (out : Outside) (step : Nat)
  | endTask (address blockCompleteName : String)

namespace Servers

open Handler

variable {s t : Servers} {address a : String}

/-- The block is gone from the server. -/
def eraseBlock (s : Servers) (address blockID : String) : Servers :=
  s.put address
    { s.server address with
      m_blockManager := (s.server address).m_blockManager.erased blockID }

/-- The erases a deletion sends reach the servers that its descriptors name, and no block there
has a file that could stay. A task erases the block it was run on when it ends. -/
def step (call : MemoryCall) (s : Servers) : Except Stop Servers :=
  match call with
  | .putrawdata address out clientID blockSummary =>
    s.serve address (putrawdata out clientID blockSummary)
  | .putmetadata address step varName rde => s.serve address (putmetadata step varName rde)
  | .eraserawdata address blockID => s.serve address (eraserawdata blockID)
  | .deleteMetaStep address out step => do
    let s' ← s.serve address (deleteMetaStep out step)
    return ((s.server address).m_metaManager.blocksOf step).foldl
      (fun s rde => s.eraseBlock rde.1 rde.2) s'
  | .endTask address blockCompleteName => .ok (s.eraseBlock address blockCompleteName)

/-- The blocks on a server that a step's descriptors name. -/
def named (rdes : List (String × String)) (address : String) : List String :=
  (rdes.filter fun rde => rde.1 = address).map fun rde => rde.2

/-- What a call takes from the ledger of a server and gives to nobody. -/
def lost (call : MemoryCall) (s : Servers) (address : String) : UInt64 :=
  match call with
  | .putrawdata address' _ _ blockSummary =>
    if address' = address then UniServer.uncounted blockSummary else 0
  | .putmetadata _ _ _ _ => 0
  | .eraserawdata address' blockID | .endTask address' blockID =>
    if address' = address then (s.server address).m_blockManager.sizeOf blockID else 0
  | .deleteMetaStep address' _ step =>
    ∑ blockID ∈ (named ((s.server address').m_metaManager.blocksOf step) address).toFinset,
      (s.server address).m_blockManager.sizeOf blockID

/-- The ledger of every server gives its limit. -/
def Accurate (limit : String → UInt64) (s : Servers) : Prop :=
  ∀ address, (s.server address).ledger = limit address

/-- No call of the kind loses anything. -/
def Balanced (call : MemoryCall) (s : Servers) : Prop := ∀ address, lost call s address = 0

def Filled (s : Servers) : Prop := ∀ address, (s.server address).m_blockManager.Filled

theorem eraserawdata_erasable {u : UniServer} {blockID : String}
    (erasable : u.m_blockManager.Erasable blockID) : eraserawdata blockID ⟨u, []⟩ =
      .ok () ⟨{ u with m_blockManager := u.m_blockManager.erased blockID }, [0]⟩ :=
  bind_ok (onServer_ok (UniServer.onBlockManager_eq_ok.mpr
    ⟨_, BlockManager.eraseBlock_erasable erasable, rfl⟩))

theorem eraseBlocks_server (rdes : List (String × String)) (a : String) :
    (rdes.foldl (fun s rde => s.eraseBlock rde.1 rde.2) s).server a =
      { s.server a with
        m_blockManager := (named rdes a).foldl BlockManager.erased
          (s.server a).m_blockManager } := by
  induction rdes generalizing s with
  | nil => rfl
  | cons rde rdes ih =>
    rw [List.foldl_cons, ih, eraseBlock, server_put]
    by_cases h : a = rde.1
    · simp [h, named]
    · simp [h, named, Ne.symm h]

theorem eraseBlocks_map (m : BlockManager) (ids : List String) :
    (ids.foldl BlockManager.erased m).DataBlockMap = eraseAll m.DataBlockMap ids := by
  induction ids generalizing m with
  | nil => rfl
  | cons id ids ih =>
    rw [List.foldl_cons, ih, BlockManager.map_erased]
    rfl

theorem eraseBlocks_filled {m : BlockManager} (h : m.Filled) (ids : List String) :
    (ids.foldl BlockManager.erased m).Filled := by
  induction ids generalizing m with
  | nil => exact h
  | cons id ids ih => exact ih (BlockManager.filled_erased h id)

/-- The sizes of the blocks that are erased are lost, each once. -/
theorem eraseBlocks_ledger (u : UniServer) (ids : List String) :
    UniServer.ledger { u with m_blockManager := ids.foldl BlockManager.erased u.m_blockManager } +
      ∑ id ∈ ids.toFinset, u.m_blockManager.sizeOf id = u.ledger := by
  have sizes : ∑ id ∈ ids.toFinset, u.m_blockManager.sizeOf id +
      (ids.foldl BlockManager.erased u.m_blockManager).gridSize = u.m_blockManager.gridSize := by
    rw [BlockManager.gridSize, eraseBlocks_map]
    exact sum_share_add_total_eraseAll ids
  show u.m_schedulerManager.m_avaliableMem + u.containers.size + _ + _ = _
  rw [UniServer.ledger, ← sizes]
  abel

theorem eraseBlock_ledger (address id a : String) :
    ((s.eraseBlock address id).server a).ledger +
      (if address = a then (s.server a).m_blockManager.sizeOf id else 0) =
        (s.server a).ledger := by
  rw [eraseBlock, server_put]
  by_cases h : a = address
  · subst h
    have one := eraseBlocks_ledger (s.server a) [id]
    simpa using one
  · rw [if_neg h, if_neg (Ne.symm h), add_zero]

theorem eraseBlock_filled (h : s.Filled) (address id : String) :
    (s.eraseBlock address id).Filled := by
  intro a
  rw [eraseBlock, server_put]
  split
  · exact BlockManager.filled_erased (h address) id
  · exact h a

/-- The handler itself drops the step and nothing else. -/
theorem deleteMetaStep_kept {out : Outside} {step : Nat} {u : UniServer} {c : Call Int}
    (h : deleteMetaStep out step ⟨u, []⟩ = .ok () c) :
    ∃ m, c.server = { u with m_metaManager := m } := by
  obtain ⟨_, c', deleted, rest⟩ := bind_run_eq_ok.mp h
  cases rest
  obtain ⟨v, dropped, rfl⟩ := onServer_eq_ok.mp deleted
  obtain ⟨m, _, rfl⟩ := zoom_eq_ok.mp dropped
  exact ⟨m, rfl⟩

/-- A request to one server keeps the ledgers of the others. -/
theorem put_ledger {u : UniServer} {n : UInt64} (filled : s.Filled)
    (h : u.m_blockManager.Filled ∧ u.ledger + n = (s.server address).ledger) :
    (s.put address u).Filled ∧ ∀ a, ((s.put address u).server a).ledger +
      (if address = a then n else 0) = (s.server a).ledger := by
  constructor
  · intro a
    rw [server_put]
    split
    · exact h.1
    · exact filled a
  · intro a
    rw [server_put]
    by_cases own : a = address
    · rw [if_pos own, if_pos own.symm, own]
      exact h.2
    · rw [if_neg own, if_neg (Ne.symm own), add_zero]

/-- What a call does to the ledger of every server. -/
theorem step_ledger {call : MemoryCall} (filled : s.Filled) (h : step call s = .ok t) :
    t.Filled ∧ ∀ a, (t.server a).ledger + lost call s a = (s.server a).ledger := by
  cases call with
  | putrawdata address out clientID bs =>
    obtain ⟨c, run, rfl⟩ := serve_eq_ok.mp (show serve s address _ = _ from h)
    obtain ⟨_, c', stored, rest⟩ := bind_run_eq_ok.mp run
    cases rest
    obtain ⟨u, put, rfl⟩ := onServer_eq_ok.mp stored
    exact put_ledger filled (UniServer.putData_ledger (filled address) put)
  | putmetadata address step varName rde =>
    obtain ⟨c, run, rfl⟩ := serve_eq_ok.mp (show serve s address _ = _ from h)
    cases free : (s.server address).m_metaManager.m_metaDataMapMutex with
    | true =>
      rw [putmetadata_busy free] at run
      cases run
    | false =>
      obtain ⟨timers, stored⟩ := putmetadata_run free step varName rde
      rw [stored] at run
      cases run
      have kept := put_ledger (u := { s.server address with
        m_metaManager := (s.server address).m_metaManager.store step varName
          ((s.server address).marked rde)
        m_timer_map := timers }) filled ⟨filled address, add_zero _⟩
      simpa [lost] using kept
  | eraserawdata address blockID =>
    obtain ⟨c, run, rfl⟩ := serve_eq_ok.mp (show serve s address (eraserawdata blockID) = _ from h)
    have erasable := BlockManager.erasable_of_filled (filled address) blockID
    cases (eraserawdata_erasable erasable).symm.trans run
    exact ⟨eraseBlock_filled filled address blockID, eraseBlock_ledger address blockID⟩
  | deleteMetaStep address out step =>
    obtain ⟨s', served, done⟩ := bind_eq_ok.mp h
    cases done
    obtain ⟨c, run, rfl⟩ := serve_eq_ok.mp served
    obtain ⟨m, kept⟩ := deleteMetaStep_kept run
    have server' : ∀ a, ((s.put address c.server).server a).ledger = (s.server a).ledger ∧
        ((s.put address c.server).server a).m_blockManager = (s.server a).m_blockManager := by
      intro a
      rw [server_put, kept]
      by_cases own : a = address
      · rw [if_pos own, own]
        exact ⟨rfl, rfl⟩
      · rw [if_neg own]
        exact ⟨rfl, rfl⟩
    constructor
    · intro a
      rw [eraseBlocks_server, (server' a).2]
      exact eraseBlocks_filled (filled a) _
    · intro a
      rw [eraseBlocks_server, ← (server' a).1]
      have erased := eraseBlocks_ledger ((s.put address c.server).server a)
        (named ((s.server address).m_metaManager.blocksOf step) a)
      rw [(server' a).2] at erased ⊢
      exact erased
  | endTask address blockCompleteName =>
    cases h
    exact ⟨eraseBlock_filled filled address blockCompleteName,
      eraseBlock_ledger address blockCompleteName⟩

/-- The servers before the first put, whatever metadata they have. -/
def init (s : Servers) : Servers :=
  { s with server := fun address =>
    { s.server address with
      containers := {}
      m_blockManager := { (s.server address).m_blockManager with DataBlockMap := ∅ }
      m_bulkMapmutex := false } }

def limit (s : Servers) (address : String) : UInt64 :=
  (s.server address).m_schedulerManager.m_avaliableMem

theorem filled_init (s : Servers) : (init s).Filled := by
  intro address id b h
  cases h

theorem accurate_init (s : Servers) : Accurate (limit s) (init s) := by
  intro address
  show limit s address + 0 + 0 = limit s address
  rw [add_zero, add_zero]

/-- The calls that leave every ledger accurate. -/
def StaysAccurate (limit : String → UInt64) (call : MemoryCall) (s : Servers) : Prop :=
  ∀ t, step call s = .ok t → Accurate limit t

theorem accurate_step_iff {limit : String → UInt64} {call : MemoryCall}
    (accurate : Accurate limit s)
    (filled : s.Filled) (h : step call s = .ok t) :
    StaysAccurate limit call s ↔ Balanced call s := by
  have exact := (step_ledger filled h).2
  constructor
  · intro stays address
    have kept := exact address
    rw [stays t h address, accurate address] at kept
    exact add_eq_left.mp kept
  · intro balanced t' h' address
    obtain rfl := Except.ok.inj (h.symm.trans h')
    rw [← accurate address, ← exact address, balanced address, add_zero]

variable {calls : List MemoryCall}

theorem accurate_of_run
    (run : Run (Meeting (StaysAccurate (limit s)) (Steps step)) (init s) calls t) :
    t.Filled ∧ Accurate (limit s) t :=
  run.invariant (I := fun u => u.Filled ∧ Accurate (limit s) u) ⟨filled_init s, accurate_init s⟩
    fun _ _ v inv hs => ⟨(step_ledger inv.1 hs.2).1, hs.1 v hs.2⟩

/-- The runs in which every ledger stays accurate are those that lose nothing. -/
theorem accurate_run_iff :
    Run (Meeting (StaysAccurate (limit s)) (Steps step)) (init s) calls t ↔
      Run (Meeting Balanced (Steps step)) (init s) calls t :=
  Run.meeting_iff fun _ _ _ _ run h =>
    accurate_step_iff (accurate_of_run run).2 (accurate_of_run run).1 h

/-- Eight cells of one byte. -/
def cells : BlockSummary where
  m_dataType := DATATYPE_CARGRID
  m_blockid := "density_0_0"
  m_dims := 1
  m_indexub := ⟨7, 0, 0⟩
  m_arrayList := [{ m_arrayName := "density_0_0", m_elemSize := 1, m_elemNum := 8 }]

def sendsCells : Outside where
  endpoint := "client0"
  exposed _ := .ok (List.replicate 8 (some 1))
  sendTo _ := .ok ()
  lookup := .ok
  eraseRawData _ _ := .ok ()
  UnMarshalDataObject := .ok

def kilobytes : Servers where
  server _ := { m_schedulerManager := ⟨1024⟩ }

theorem erased_cells_lost : ∃ t,
    Run (Steps step) (init kilobytes)
      [.putrawdata "server0" sendsCells 0 cells, .eraserawdata "server0" "density_0_0"] t ∧
    (t.server "server0").ledger = 1016 ∧ ¬ Accurate (limit kilobytes) t := by
  obtain ⟨t, run, lost⟩ : ∃ t, runs step
      [.putrawdata "server0" sendsCells 0 cells, .eraserawdata "server0" "density_0_0"]
      (init kilobytes) = .ok t ∧ (t.server "server0").ledger = 1016 := ⟨_, rfl, by decide +kernel⟩
  refine ⟨t, .of_runs run, lost, fun accurate => ?_⟩
  have limited := accurate "server0"
  rw [lost] at limited
  exact absurd limited (by decide)

end Servers

end Gorilla
