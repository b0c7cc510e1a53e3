import Gorilla.BlockManager.Handles
import Gorilla.Server.PutPhases

/-!
# A put in progress

Between two phases of a put its handler holds no mutex, and other handlers run. A phase that
waits for the mutex is taken again later, and after undefined behaviour nothing is known.
-/

namespace Gorilla

open HandLock

namespace UniServer

/-- The client is numbered and the request is checked before the containers are touched. -/
def receive (out : Outside) (blockSummary : BlockSummary) : EStateM Stop UniServer UInt64 := do
  let clientStaging ← (← get).clientStaging.cacheClientAddr out.endpoint
  modify fun s => { s with clientStaging := clientStaging }
  if blockSummary.m_backend ≠ BACKEND.MEM then
    throw (.runtime_error "the backend is supposed to be mem for putrawdata")
  liftM (blockSummary.getArraySize blockSummary.m_blockid)

/-- The copy out of the container: a `CARGRID` block is stored with the mutex held, the bytes
of a `VTKPTR` block are kept. -/
def copyOut (clientID : Int) (transferSize : UInt64) (blockSummary : BlockSummary) :
    EStateM Stop UniServer (Option Buffer) := do
  let _ ← blockSummary.getArrayElemSize blockSummary.m_blockid
  let _ ← blockSummary.getArrayElemNum blockSummary.m_blockid
  if blockSummary.m_dataType = DATATYPE_VTKPTR then
    let recvbuffer ← region bulkMapmutex bulkBusy do
      let contents ← dataContainer clientID
      (Buffer.malloc transferSize).memcpy 0 contents 0 transferSize.toNat
    return some recvbuffer
  else
    region bulkMapmutex bulkBusy do
      let contents ← dataContainer clientID
      onBlockManager (BlockManager.putBlock blockSummary BACKEND.MEM (.bytes contents))
    return none

/-- A `VTKPTR` block is stored after the mutex was given back. Both kinds are charged last. -/
def settle (out : Outside) (blockSummary : BlockSummary) (recvbuffer : Option Buffer) :
    EStateM Stop UniServer Unit := do
  match recvbuffer with
  | none => assign (← blockSummary.getArraySize blockSummary.m_blockid)
  | some recvbuffer =>
    let recvbj ← raise (out.UnMarshalDataObject recvbuffer)
    onBlockManager (BlockManager.putBlock blockSummary BACKEND.MEMVTKPTR (.smartPointer recvbj))
    assign (← blockSummary.getArraySize blockSummary.m_blockid)

variable {s s' : UniServer} {out : Outside} {clientID : Int} {bs : BlockSummary}
  {size : UInt64} {b : Bulk} {recvbuffer : Option Buffer}

/-- The handler is its phases, one after the other. -/
theorem putData_eq (out : Outside) (clientID : Int) (bs : BlockSummary) :
    putData out clientID bs = (do
      let transferSize ← receive out bs
      let currentBulk ← acquire clientID transferSize
      pull out currentBulk
      let recvbuffer ← copyOut clientID transferSize bs
      settle out bs recvbuffer) := by
  by_cases mem : bs.m_backend = BACKEND.MEM <;> by_cases vtk : bs.m_dataType = DATATYPE_VTKPTR <;>
    simp [putData, receive, copyOut, settle, storeVtk, storeGrid, mem, vtk]

theorem receive_eq_ok : receive out bs s = .ok size s' ↔
    bs.m_backend = BACKEND.MEM ∧ bs.getArraySize bs.m_blockid = .ok size ∧
      ∃ clientStaging, s.clientStaging.cacheClientAddr out.endpoint = .ok clientStaging ∧
        s' = { s with clientStaging := clientStaging } := by
  unfold receive
  simp only [bind_run_eq_ok, lift_eq_ok]
  constructor
  · rintro ⟨_, _, hget, clientStaging, _, ⟨hcache, rfl⟩, _, t, ht, h⟩
    cases hget
    cases ht
    by_cases mem : bs.m_backend = BACKEND.MEM
    · rw [if_neg (not_not.mpr mem)] at h
      obtain ⟨own, rfl⟩ := lift_eq_ok.mp h
      exact ⟨mem, own, clientStaging, hcache, rfl⟩
    · rw [if_pos mem] at h
      cases h
  · rintro ⟨mem, own, clientStaging, hcache, rfl⟩
    refine ⟨s, s, rfl, clientStaging, s, ⟨hcache, rfl⟩, (), _, rfl, ?_⟩
    rw [if_neg (not_not.mpr mem)]
    exact lift_eq_ok.mpr ⟨own, rfl⟩

theorem copyOut_ok (h : copyOut clientID size bs s = .ok recvbuffer s') :
    s.m_bulkMapmutex = false ∧ ∃ contents, s.containers.contents clientID = some contents ∧
      if bs.m_dataType = DATATYPE_VTKPTR then
        size.toNat ≤ contents.length ∧ recvbuffer = some (contents.take size.toNat) ∧ s' = s
      else ∃ m, BlockManager.putBlock bs BACKEND.MEM (.bytes contents) s.m_blockManager =
          .ok () m ∧ recvbuffer = none ∧ s' = { s with m_blockManager := m } := by
  unfold copyOut at h
  simp only [bind_run_eq_ok, lift_eq_ok] at h
  obtain ⟨_, _, ⟨_, rfl⟩, _, t, ⟨_, rfl⟩, h⟩ := h
  have same : ∀ t : UniServer, t.m_bulkMapmutex = false →
      bulkMapmutex.put false (bulkMapmutex.put true t) = t := by
    intro t free
    exact Mutex.put_false_put free true
  by_cases vtk : bs.m_dataType = DATATYPE_VTKPTR
  · rw [if_pos vtk] at h
    simp only [bind_run_eq_ok, region_eq_ok, dataContainer_eq_ok, lift_eq_ok,
      Buffer.copy_eq_ok (rfl : size.toNat = size.toNat)] at h
    obtain ⟨_, _, ⟨free, _, ⟨contents, _, ⟨hc, rfl⟩, ⟨hlen, rfl⟩, rfl⟩, rfl⟩, h⟩ := h
    cases h
    refine ⟨free, contents, hc, ?_⟩
    rw [if_pos vtk]
    exact ⟨hlen, rfl, same _ free⟩
  · rw [if_neg vtk] at h
    simp only [bind_run_eq_ok, region_eq_ok, dataContainer_eq_ok, onBlockManager_eq_ok] at h
    obtain ⟨_, _, ⟨free, _, ⟨contents, _, ⟨hc, rfl⟩, m, hput, rfl⟩, rfl⟩, h⟩ := h
    cases h
    refine ⟨free, contents, hc, ?_⟩
    rw [if_neg vtk]
    have free' : t.m_bulkMapmutex = false := free
    refine ⟨m, hput, rfl, ?_⟩
    simp only [bulkMapmutex, ← free']

theorem settle_ok (h : settle out bs recvbuffer s = .ok () s') :
    ∃ size, bs.getArraySize bs.m_blockid = .ok size ∧
      match recvbuffer with
      | none => s' = { s with m_schedulerManager := s.m_schedulerManager.assignMem size }
      | some recvbuffer => ∃ recvbj m, out.UnMarshalDataObject recvbuffer = .ok recvbj ∧
        BlockManager.putBlock bs BACKEND.MEMVTKPTR (.smartPointer recvbj) s.m_blockManager =
          .ok () m ∧
        s' = { s with
          m_blockManager := m
          m_schedulerManager := s.m_schedulerManager.assignMem size } := by
  unfold settle at h
  cases recvbuffer with
  | none =>
    simp only [bind_run_eq_ok, lift_eq_ok] at h
    obtain ⟨size, _, ⟨own, rfl⟩, done⟩ := h
    cases done
    exact ⟨size, own, rfl⟩
  | some recvbuffer =>
    simp only [bind_run_eq_ok, lift_eq_ok, raise_eq_ok, onBlockManager_eq_ok] at h
    obtain ⟨recvbj, _, ⟨hx, rfl⟩, _, _, ⟨m, hput, rfl⟩, size, _, ⟨own, rfl⟩, h⟩ := h
    cases h
    exact ⟨size, own, recvbj, m, hx, hput, rfl⟩

/-- The blocks are as they were, or as a put of the block leaves them. -/
def PutLeaves (bs : BlockSummary) (m m' : BlockManager) : Prop :=
  m' = m ∨ ∃ backend src, (backend = BACKEND.MEM ∨ backend = BACKEND.MEMVTKPTR) ∧
    m' = exit (BlockManager.putBlock bs backend src m)

namespace PutLeaves

variable {m m' : BlockManager}

theorem of_ok {backend : Int} {src : DataPointer}
    (memory : backend = BACKEND.MEM ∨ backend = BACKEND.MEMVTKPTR)
    (h : BlockManager.putBlock bs backend src m = .ok () m') : PutLeaves bs m m' :=
  .inr ⟨backend, src, memory, by rw [h, exit_ok]⟩

theorem of_error {backend : Int} {src : DataPointer} {e : Stop}
    (memory : backend = BACKEND.MEM ∨ backend = BACKEND.MEMVTKPTR)
    (h : BlockManager.putBlock bs backend src m = .error e m') : PutLeaves bs m m' :=
  .inr ⟨backend, src, memory, by rw [h, exit_error]⟩

theorem others (h : PutLeaves bs m m') {id : String} (other : id ≠ bs.m_blockid) :
    m'.block id = m.block id := by
  rcases h with rfl | ⟨backend, src, _, rfl⟩
  · rfl
  · exact BlockManager.lookup_exit_putBlock other

theorem data (h : PutLeaves bs m m') {id : String} {b : DataBlock} (held : m.block id = some b)
    (data : b.HasData) : ∃ b', m'.block id = some b' ∧ b'.storage = b.storage := by
  rcases h with rfl | ⟨backend, src, _, rfl⟩
  · exact ⟨b, held, rfl⟩
  · exact BlockManager.data_exit_putBlock held data

theorem noFiles (h : PutLeaves bs m m') (none : m.NoFiles) : m'.NoFiles := by
  rcases h with rfl | ⟨backend, src, memory, rfl⟩
  · exact none
  · exact BlockManager.noFiles_exit_putBlock none memory

end PutLeaves

/-- What an exception leaves of a put: its block, and a mutex nobody releases. -/
def Thrown (bs : BlockSummary) (s s' : UniServer) : Prop :=
  ∃ clientStaging m held,
    s' = { s with
      clientStaging := clientStaging
      m_blockManager := m
      m_bulkMapmutex := held } ∧ PutLeaves bs s.m_blockManager m

theorem Thrown.refl (bs : BlockSummary) (s : UniServer) : Thrown bs s s :=
  ⟨s.clientStaging, s.m_blockManager, s.m_bulkMapmutex, rfl, .inl rfl⟩

variable {what : String}

theorem receive_thrown (h : receive out bs s = .error (.runtime_error what) s') :
    Thrown bs s s' := by
  unfold receive at h
  simp only [bind_run_eq_error, lift_eq_error, lift_eq_ok] at h
  rcases h with h | ⟨_, _, hget, ⟨_, rfl⟩ | ⟨clientStaging, _, ⟨_, rfl⟩, h | ⟨_, t, ht, h⟩⟩⟩
  · cases h
  · cases hget
    exact .refl _ _
  · cases h
  · cases hget
    cases ht
    have left : Thrown bs s { s with clientStaging := clientStaging } :=
      ⟨clientStaging, s.m_blockManager, s.m_bulkMapmutex, rfl, .inl rfl⟩
    by_cases mem : bs.m_backend = BACKEND.MEM
    · rw [if_neg (not_not.mpr mem)] at h
      obtain ⟨_, rfl⟩ := lift_eq_error.mp h
      exact left
    · rw [if_pos mem] at h
      cases h
      exact left

/-- The first phase waits or returns. -/
theorem acquire_thrown (h : acquire clientID size s = .error (.runtime_error what) s') : False := by
  unfold acquire at h
  rcases region_eq_error.mp h with ⟨_, busy, _⟩ | ⟨_, body⟩
  · cases busy
  · cases body

theorem pull_thrown (h : pull out b s = .error (.runtime_error what) s') : s' = s := by
  unfold pull at h
  simp only [bind_run_eq_error, lift_eq_error, lift_eq_ok] at h
  rcases h with ⟨_, rfl⟩ | ⟨_, _, ⟨_, rfl⟩, h | ⟨_, _, hget, ⟨freed, rfl⟩ | ⟨_, _, _, h⟩⟩⟩
  · rfl
  · cases h
  · cases hget
    rfl
  · cases h

theorem onBlockManager_thrown {backend : Int} {src : DataPointer}
    (memory : backend = BACKEND.MEM ∨ backend = BACKEND.MEMVTKPTR)
    (h : onBlockManager (BlockManager.putBlock bs backend src) s =
      .error (.runtime_error what) s') : Thrown bs s s' := by
  obtain ⟨m, hput, rfl⟩ := zoom_eq_error.mp h
  exact ⟨s.clientStaging, m, s.m_bulkMapmutex, rfl, .of_error memory hput⟩

theorem dataContainer_not_thrown
    (h : dataContainer clientID s = .error (.runtime_error what) s') : False := by
  unfold dataContainer at h
  simp only [bind_run_eq_error] at h
  rcases h with h | ⟨t, _, hget, h⟩
  · cases h
  · cases hget
    cases hc : s.containers.contents clientID <;> rw [hc] at h <;> cases h

theorem copyOut_thrown (h : copyOut clientID size bs s = .error (.runtime_error what) s') :
    Thrown bs s s' := by
  unfold copyOut at h
  simp only [bind_run_eq_error, lift_eq_error, lift_eq_ok] at h
  rcases h with ⟨_, rfl⟩ | ⟨_, _, ⟨_, rfl⟩, ⟨_, rfl⟩ | ⟨_, t, ⟨_, rfl⟩, h⟩⟩
  · exact .refl _ _
  · exact .refl _ _
  by_cases vtk : bs.m_dataType = DATATYPE_VTKPTR
  · rw [if_pos vtk] at h
    simp only [bind_run_eq_error, region_eq_error, dataContainer_eq_ok] at h
    rcases h with (⟨_, busy, _⟩ | ⟨_, h | ⟨_, _, ⟨_, rfl⟩, h⟩⟩) | ⟨_, _, _, h⟩
    · cases busy
    · exact (dataContainer_not_thrown h).elim
    · obtain ⟨past, _⟩ := lift_eq_error.mp h
      unfold Buffer.memcpy at past
      split at past <;> cases past
    · cases h
  · rw [if_neg vtk] at h
    simp only [bind_run_eq_error, region_eq_error, dataContainer_eq_ok] at h
    rcases h with (⟨_, busy, _⟩ | ⟨_, h | ⟨_, _, ⟨_, rfl⟩, h⟩⟩) | ⟨_, _, _, h⟩
    · cases busy
    · exact (dataContainer_not_thrown h).elim
    · obtain ⟨clientStaging, m, held, rfl, leaves⟩ := onBlockManager_thrown (.inl rfl) h
      exact ⟨clientStaging, m, held, rfl, leaves⟩
    · cases h

theorem settle_thrown (h : settle out bs recvbuffer s = .error (.runtime_error what) s') :
    Thrown bs s s' := by
  unfold settle at h
  cases recvbuffer with
  | none =>
    simp only [bind_run_eq_error, lift_eq_error, lift_eq_ok] at h
    rcases h with ⟨_, rfl⟩ | ⟨_, _, _, h⟩
    · exact .refl _ _
    · cases h
  | some recvbuffer =>
    simp only [bind_run_eq_error, lift_eq_error, lift_eq_ok] at h
    rcases h with ⟨_, rfl⟩ | ⟨_, _, ⟨_, rfl⟩, h | ⟨_, t, hput, ⟨_, rfl⟩ | ⟨_, _, _, h⟩⟩⟩
    · exact .refl _ _
    · exact onBlockManager_thrown (.inr rfl) h
    · obtain ⟨m, stored, rfl⟩ := onBlockManager_eq_ok.mp hput
      exact ⟨_, m, _, rfl, .of_ok (.inr rfl) stored⟩
    · cases h

end UniServer

structure PutRequest where
  out : Outside
  clientID : Int
  blockSummary : BlockSummary

/-- Where the handler of a put is, with the values it keeps. -/
inductive PutPhase
  | received
  | acquiring (transferSize : UInt64)
  | pulling (transferSize : UInt64) (currentBulk : Bulk)
  | copying (transferSize : UInt64)
  | settling (recvbuffer : Option Buffer)
  | replied
  | failed
  deriving DecidableEq

namespace PutRequest

open UniServer

/-- The handler's next phase. After the reply there is none. -/
def advance (r : PutRequest) : PutPhase → EStateM Stop UniServer PutPhase
  | .received => return .acquiring (← receive r.out r.blockSummary)
  | .acquiring transferSize => return .pulling transferSize (← acquire r.clientID transferSize)
  | .pulling transferSize currentBulk => do
    pull r.out currentBulk
    return .copying transferSize
  | .copying transferSize => return .settling (← copyOut r.clientID transferSize r.blockSummary)
  | .settling recvbuffer => do
    settle r.out r.blockSummary recvbuffer
    return .replied
  | .replied => throw (.blocked "replied")
  | .failed => throw (.blocked "failed")

/-- A put that is never interrupted takes five phases. -/
theorem putData_eq_advance (r : PutRequest) :
    putData r.out r.clientID r.blockSummary = (do
      let phase ← r.advance .received
      let phase ← r.advance phase
      let phase ← r.advance phase
      let phase ← r.advance phase
      let _ ← r.advance phase) := by
  simp [putData_eq, advance]

/-- One phase of the handler. An exception ends it, and what it wrote stays. -/
def handle (r : PutRequest) (phase : PutPhase) (s : UniServer) :
    Except Stop (PutPhase × UniServer) :=
  match r.advance phase s with
  | .ok phase' s' => .ok (phase', s')
  | .error (.runtime_error _) s' => .ok (.failed, s')
  | .error e _ => .error e

variable {r : PutRequest} {phase phase' : PutPhase} {s s' : UniServer}

theorem handle_eq_ok : r.handle phase s = .ok (phase', s') ↔
    r.advance phase s = .ok phase' s' ∨
      phase' = .failed ∧ ∃ what, r.advance phase s = .error (.runtime_error what) s' := by
  unfold handle
  cases h : r.advance phase s with
  | ok p t => simp
  | error e t =>
    cases e with
    | runtime_error what => simp [eq_comm]
    | undefined what => simp
    | blocked on => simp

theorem thrown_of_advance {what : String}
    (h : r.advance phase s = .error (.runtime_error what) s') :
    Thrown r.blockSummary s s' := by
  cases phase with
  | received =>
    rcases bind_run_eq_error.mp h with h | ⟨_, _, _, h⟩
    · exact receive_thrown h
    · cases h
  | acquiring transferSize =>
    rcases bind_run_eq_error.mp h with h | ⟨_, _, _, h⟩
    · exact (acquire_thrown h).elim
    · cases h
  | pulling transferSize currentBulk =>
    rcases bind_run_eq_error.mp h with h | ⟨_, _, _, h⟩
    · rw [pull_thrown h]
      exact .refl _ _
    · cases h
  | copying transferSize =>
    rcases bind_run_eq_error.mp h with h | ⟨_, _, _, h⟩
    · exact copyOut_thrown h
    · cases h
  | settling recvbuffer =>
    rcases bind_run_eq_error.mp h with h | ⟨_, _, _, h⟩
    · exact settle_thrown h
    · cases h
  | replied => cases h
  | failed => cases h

/-- What a phase that returns does to the server, in the order of the phases. -/
inductive Phase (r : PutRequest) : PutPhase → PutPhase → UniServer → UniServer → Prop
  | receive {s : UniServer} {size : UInt64} {clientStaging : ClientForStaging}
    (mem : r.blockSummary.m_backend = BACKEND.MEM)
    (own : r.blockSummary.getArraySize r.blockSummary.m_blockid = .ok size) :
    Phase r .received (.acquiring size) s { s with clientStaging := clientStaging }
  | acquire {s : UniServer} {size : UInt64} {b : Bulk} (free : s.m_bulkMapmutex = false)
    (held : (s.stage r.clientID size).containers.m_bulkMap.lookup r.clientID = some b) :
    Phase r (.acquiring size) (.pulling size b) s (s.stage r.clientID size)
  | pull {s : UniServer} {size : UInt64} {b : Bulk} {sent : Buffer} {containers : Containers}
    (exposed : r.out.exposed b.size = .ok sent)
    (pulled : s.containers.pull b sent = .ok containers) :
    Phase r (.pulling size b) (.copying size) s { s with containers := containers }
  | store {s : UniServer} {size : UInt64} {contents : Buffer} {m : BlockManager}
    (free : s.m_bulkMapmutex = false)
    (grid : r.blockSummary.m_dataType ≠ DATATYPE_VTKPTR)
    (held : s.containers.contents r.clientID = some contents)
    (put : BlockManager.putBlock r.blockSummary BACKEND.MEM (.bytes contents) s.m_blockManager =
      .ok () m) :
    Phase r (.copying size) (.settling none) s { s with m_blockManager := m }
  | copy {s : UniServer} {size : UInt64} {contents : Buffer}
    (free : s.m_bulkMapmutex = false)
    (vtk : r.blockSummary.m_dataType = DATATYPE_VTKPTR)
    (held : s.containers.contents r.clientID = some contents)
    (fits : size.toNat ≤ contents.length) :
    Phase r (.copying size) (.settling (some (contents.take size.toNat))) s s
  | charge {s : UniServer} {size : UInt64}
    (own : r.blockSummary.getArraySize r.blockSummary.m_blockid = .ok size) :
    Phase r (.settling none) .replied s
      { s with m_schedulerManager := s.m_schedulerManager.assignMem size }
  | storeVtk {s : UniServer} {size : UInt64} {recvbuffer recvbj : Buffer} {m : BlockManager}
    (own : r.blockSummary.getArraySize r.blockSummary.m_blockid = .ok size)
    (unmarshalled : r.out.UnMarshalDataObject recvbuffer = .ok recvbj)
    (put : BlockManager.putBlock r.blockSummary BACKEND.MEMVTKPTR (.smartPointer recvbj)
      s.m_blockManager = .ok () m) :
    Phase r (.settling (some recvbuffer)) .replied s
      { s with
        m_blockManager := m
        m_schedulerManager := s.m_schedulerManager.assignMem size }

theorem phase_of_advance (h : r.advance phase s = .ok phase' s') :
    Phase r phase phase' s s' := by
  cases phase with
  | received =>
    obtain ⟨size, t, hr, done⟩ := bind_run_eq_ok.mp h
    cases done
    obtain ⟨mem, own, clientStaging, _, rfl⟩ := receive_eq_ok.mp hr
    exact .receive mem own
  | acquiring transferSize =>
    obtain ⟨b, t, ha, done⟩ := bind_run_eq_ok.mp h
    cases done
    have free : s.m_bulkMapmutex = false := (region_eq_ok.mp ha).1
    obtain ⟨rfl, held⟩ := (acquire_eq_ok free).mp ha
    exact .acquire free held
  | pulling transferSize currentBulk =>
    obtain ⟨_, t, hp, done⟩ := bind_run_eq_ok.mp h
    cases done
    obtain ⟨sent, containers, exposed, pulled, rfl⟩ := pull_eq_ok.mp hp
    exact .pull exposed pulled
  | copying transferSize =>
    obtain ⟨recvbuffer, t, hc, done⟩ := bind_run_eq_ok.mp h
    cases done
    obtain ⟨free, contents, held, kind⟩ := copyOut_ok hc
    by_cases vtk : r.blockSummary.m_dataType = DATATYPE_VTKPTR
    · rw [if_pos vtk] at kind
      obtain ⟨fits, rfl, rfl⟩ := kind
      exact .copy free vtk held fits
    · rw [if_neg vtk] at kind
      obtain ⟨m, put, rfl, rfl⟩ := kind
      exact .store free vtk held put
  | settling recvbuffer =>
    obtain ⟨_, t, hs, done⟩ := bind_run_eq_ok.mp h
    cases done
    obtain ⟨size, own, kind⟩ := settle_ok hs
    cases recvbuffer with
    | none =>
      have charged : s' = { s with m_schedulerManager := s.m_schedulerManager.assignMem size } :=
        kind
      rw [charged]
      exact .charge own
    | some recvbuffer =>
      obtain ⟨recvbj, m, unmarshalled, put, rfl⟩ := kind
      exact .storeVtk own unmarshalled put
  | replied => cases h
  | failed => cases h

/-- No phase touches the metadata, or a block but the request's. -/
theorem handle_leaves (h : r.handle phase s = .ok (phase', s')) :
    s'.m_metaManager = s.m_metaManager ∧
      PutLeaves r.blockSummary s.m_blockManager s'.m_blockManager := by
  rcases handle_eq_ok.mp h with run | ⟨_, what, run⟩
  · cases phase_of_advance run with
    | receive | pull | copy | charge => exact ⟨rfl, .inl rfl⟩
    | acquire =>
      rw [stage_eq]
      exact ⟨rfl, .inl rfl⟩
    | store free grid held put => exact ⟨rfl, .of_ok (.inl rfl) put⟩
    | storeVtk own unmarshalled put => exact ⟨rfl, .of_ok (.inr rfl) put⟩
  · obtain ⟨clientStaging, m, held, rfl, leaves⟩ := thrown_of_advance run
    exact ⟨rfl, leaves⟩

/-- The summary of the request is in the block of its id. -/
def Holds (r : PutRequest) (s : UniServer) : Prop :=
  ∃ block, s.m_blockManager.block r.blockSummary.m_blockid = some block ∧
    block.m_blockSummary = r.blockSummary

theorem holds_of_putBlock {backend : Int} {src : DataPointer} {m : BlockManager}
    (put : BlockManager.putBlock r.blockSummary backend src s.m_blockManager = .ok () m) :
    ∃ block, m.block r.blockSummary.m_blockid = some block ∧
      block.m_blockSummary = r.blockSummary := by
  obtain ⟨_, handle, _, handle', files, hput, rfl⟩ := BlockManager.putBlock_eq_ok.mp put
  refine ⟨handle', ?_, (DataBlock.putData_kept hput).2.1⟩
  rw [BlockCall.block_insert, if_pos rfl]

/-- A `CARGRID` block is there before it is charged, a `VTKPTR` block with the reply. -/
theorem holds_of_handle (h : r.handle phase s = .ok (phase', s'))
    (held : phase = .settling none → r.Holds s)
    (stored : phase' = .settling none ∨ phase' = .replied) : r.Holds s' := by
  rcases handle_eq_ok.mp h with run | ⟨rfl, _⟩
  · cases phase_of_advance run with
    | receive | acquire | pull => simp at stored
    | copy => simp at stored
    | store free grid contents put => exact holds_of_putBlock put
    | charge own => exact held rfl
    | storeVtk own unmarshalled put => exact holds_of_putBlock put
  · simp at stored

/-- A put that returns went through its five phases. -/
theorem phases_of_putData (h : putData r.out r.clientID r.blockSummary s = .ok () s') :
    ∃ p₁ s₁ p₂ s₂ p₃ s₃ p₄ s₄ p₅, Phase r .received p₁ s s₁ ∧ Phase r p₁ p₂ s₁ s₂ ∧
      Phase r p₂ p₃ s₂ s₃ ∧ Phase r p₃ p₄ s₃ s₄ ∧ Phase r p₄ p₅ s₄ s' := by
  rw [putData_eq_advance] at h
  simp only [bind_run_eq_ok] at h
  obtain ⟨p₁, s₁, h₁, p₂, s₂, h₂, p₃, s₃, h₃, p₄, s₄, h₄, p₅, s₅, h₅, done⟩ := h
  cases done
  exact ⟨p₁, s₁, p₂, s₂, p₃, s₃, p₄, s₄, p₅, phase_of_advance h₁, phase_of_advance h₂,
    phase_of_advance h₃, phase_of_advance h₄, phase_of_advance h₅⟩

end PutRequest

end Gorilla
