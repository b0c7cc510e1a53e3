import Gorilla.Client.PutCarGrid
import Gorilla.Lib.Reserve
import Gorilla.Server.Ledger
import Gorilla.Server.StagedBytes

/-!
# The memory the puts of a server take

A client asks before it puts, and the answer compares one size with the counter. The put takes
its size from the counter twice, in two phases, and other puts run in between.
-/

namespace Gorilla

open HandLock Handler Reserve Runs Totals

namespace ScheduleManager

variable {m : ScheduleManager} {memSize : UInt64}

/-- The subtraction of a size that is larger than the counter. -/
def Wraps (m : ScheduleManager) (memSize : UInt64) : Prop := m.m_avaliableMem < memSize

instance (m : ScheduleManager) (memSize : UInt64) : Decidable (m.Wraps memSize) :=
  inferInstanceAs (Decidable (_ < _))

theorem assignMem_toNat (fits : memSize.toNat ≤ m.m_avaliableMem.toNat) :
    (m.assignMem memSize).m_avaliableMem.toNat = m.m_avaliableMem.toNat - memSize.toNat :=
  UInt64.toNat_sub_of_le _ _ (UInt64.le_iff_toNat_le.mpr fits)

theorem releaseMem_toNat (fits : m.m_avaliableMem.toNat + memSize.toNat < 2 ^ 64) :
    (m.releaseMem memSize).m_avaliableMem.toNat = m.m_avaliableMem.toNat + memSize.toNat := by
  rw [releaseMem, UInt64.toNat_add]
  exact Nat.mod_eq_of_lt fits

end ScheduleManager

namespace UniServer

variable {s : UniServer} {clientID c' : Int} {size : UInt64}

/-- The size of the container of a client, if it has one. -/
def slot (s : UniServer) (clientID : Int) : ℕ :=
  share (fun _ b => b.size.toNat) s.containers.m_bulkMap clientID

/-- What the containers of all clients take. -/
def slots (s : UniServer) : ℕ := total (fun _ b => b.size.toNat) s.containers.m_bulkMap

/-- The counter when the size of a container is subtracted: the old one was given back. -/
def beforeAssign (s : UniServer) (clientID : Int) (transferSize : UInt64) :
    Option ScheduleManager :=
  match s.containers.m_bulkMap.lookup clientID with
  | none => some s.m_schedulerManager
  | some bulk =>
    if bulk.size ≠ transferSize then some (s.m_schedulerManager.releaseMem bulk.size) else none

theorem stage_scheduler (s : UniServer) (clientID : Int) (size : UInt64) :
    (s.stage clientID size).m_schedulerManager =
      match s.beforeAssign clientID size with
      | none => s.m_schedulerManager
      | some m => m.assignMem size := by
  unfold stage beforeAssign
  cases s.containers.m_bulkMap.lookup clientID with
  | none => rfl
  | some b => by_cases same : b.size = size <;> simp [same]

theorem stage_slot (s : UniServer) (clientID c' : Int) (size : UInt64) :
    (s.stage clientID size).slot c' = Function.update s.slot clientID size.toNat c' := by
  by_cases own : c' = clientID
  · subst own
    obtain ⟨b, held, exact⟩ := stage_bulk s c' size
    rw [Function.update_self, slot, share_some held, exact]
  · rw [Function.update_of_ne own, slot, slot, share, share, stage_bulk_ne own]

theorem stage_slots (s : UniServer) (clientID : Int) (size : UInt64) :
    s.slot clientID + (s.stage clientID size).slots = size.toNat + s.slots := by
  have assigned : s.slot clientID +
      total (fun _ b => b.size.toNat) (s.containers.assign clientID size).m_bulkMap =
        size.toNat + s.slots :=
    share_add_total_insert
  unfold stage
  cases held : s.containers.m_bulkMap.lookup clientID with
  | none => exact assigned
  | some b =>
    by_cases same : b.size = size
    · have own : s.slot clientID = size.toNat := by rw [slot, share_some held, same]
      simp [same, own]
    · simp only [ne_eq, same, not_false_eq_true, if_true]
      exact assigned

theorem slot_le_slots (s : UniServer) (clientID : Int) : s.slot clientID ≤ s.slots := by
  have split := share_add_total_erase (f := fun _ b => b.size.toNat)
    (m := s.containers.m_bulkMap) clientID
  rw [slot, slots]
  omega

/-- What the counter and the containers hold fits a counter. -/
def Bounded (s : UniServer) : Prop :=
  s.m_schedulerManager.m_avaliableMem.toNat + s.slots < 2 ^ 64

theorem slot_congr {u : UniServer}
    (containers : u.containers.m_bulkMap = s.containers.m_bulkMap) : u.slot = s.slot := by
  funext c
  rw [slot, containers, slot]

/-- Only the counter and the sizes of the containers count. -/
theorem Bounded.less {u : UniServer} (bounded : s.Bounded)
    (counter : u.m_schedulerManager.m_avaliableMem.toNat ≤
      s.m_schedulerManager.m_avaliableMem.toNat)
    (containers : u.containers.m_bulkMap = s.containers.m_bulkMap) : u.Bounded := by
  have slots : u.slots = s.slots := by rw [UniServer.slots, containers, UniServer.slots]
  unfold Bounded at bounded ⊢
  omega

/-- The counter a container is taken from holds what was given back. -/
theorem beforeAssign_toNat {m : ScheduleManager} (bounded : s.Bounded)
    (h : s.beforeAssign clientID size = some m) :
    m.m_avaliableMem.toNat = s.m_schedulerManager.m_avaliableMem.toNat + s.slot clientID := by
  unfold beforeAssign at h
  cases held : s.containers.m_bulkMap.lookup clientID with
  | none =>
    rw [held] at h
    cases h
    rw [slot, share_none held, add_zero]
  | some b =>
    have own : s.slot clientID = b.size.toNat := by rw [slot, share_some held]
    have part := s.slot_le_slots clientID
    rw [held] at h
    by_cases same : b.size = size
    · simp [same] at h
    · obtain rfl : s.m_schedulerManager.releaseMem b.size = m := by simpa [same] using h
      unfold Bounded at bounded
      rw [ScheduleManager.releaseMem_toNat (by omega), own]

/-- A container that fits is taken without a wrap. -/
theorem stage_counter (bounded : s.Bounded)
    (fits : size.toNat ≤ s.m_schedulerManager.m_avaliableMem.toNat + s.slot clientID) :
    (s.stage clientID size).m_schedulerManager.m_avaliableMem.toNat =
      s.m_schedulerManager.m_avaliableMem.toNat + s.slot clientID - size.toNat := by
  rw [stage_scheduler]
  cases taken : s.beforeAssign clientID size with
  | some m =>
    have before := beforeAssign_toNat bounded taken
    show (m.assignMem size).m_avaliableMem.toNat = _
    rw [ScheduleManager.assignMem_toNat (by omega), before]
  | none =>
    unfold beforeAssign at taken
    cases held : s.containers.m_bulkMap.lookup clientID with
    | none =>
      rw [held] at taken
      cases taken
    | some b =>
      rw [held] at taken
      have same : b.size = size := by simpa using taken
      rw [slot, share_some held, same]
      exact (Nat.add_sub_cancel ..).symm

theorem bounded_stage (bounded : s.Bounded)
    (fits : size.toNat ≤ s.m_schedulerManager.m_avaliableMem.toNat + s.slot clientID) :
    (s.stage clientID size).Bounded := by
  have counter := stage_counter bounded fits
  have moved := s.stage_slots clientID size
  unfold Bounded at bounded ⊢
  omega

end UniServer

/-- What a put in a phase has taken. -/
def PutPhase.stage : PutPhase → Stage
  | .received | .acquiring _ => .waiting
  | .pulling .. | .copying _ | .settling _ => .filled
  | .replied | .failed => .ended

namespace PutRequest

variable {r : PutRequest} {phase phase' : PutPhase} {s s' : UniServer}

def size (r : PutRequest) : ℕ := (r.arraySize.toOption.getD 0).toNat

theorem size_of_arraySize {size : UInt64} (own : r.arraySize = .ok size) : r.size = size.toNat := by
  rw [PutRequest.size, own]
  rfl

def job (r : PutRequest) (phase : PutPhase) : Job Int := ⟨r.clientID, r.size, phase.stage⟩

/-- What a phase subtracts, and the counter it is subtracted from. -/
def takes (r : PutRequest) (s : UniServer) : PutPhase → PutPhase → Option (ScheduleManager × UInt64)
  | .acquiring transferSize, .pulling .. =>
    (s.beforeAssign r.clientID transferSize).map (·, transferSize)
  | .settling _, .replied => r.arraySize.toOption.map (s.m_schedulerManager, ·)
  | _, _ => none

/-- The counter changes by what a phase takes, and by nothing else. -/
theorem scheduler_handle (h : r.handle phase s = .ok (phase', s')) :
    s'.m_schedulerManager =
      match r.takes s phase phase' with
      | none => s.m_schedulerManager
      | some (m, size) => m.assignMem size := by
  rcases handle_eq_ok.mp h with run | ⟨rfl, what, run⟩
  · cases phase_of_advance run with
    | receive | pull | store | copy => rfl
    | acquire free held =>
      rw [UniServer.stage_scheduler, takes]
      cases s.beforeAssign r.clientID _ <;> rfl
    | charge own =>
      have own' : r.arraySize = .ok _ := own
      rw [takes, own']
      rfl
    | storeVtk own unmarshalled put =>
      have own' : r.arraySize = .ok _ := own
      rw [takes, own']
      rfl
  · obtain ⟨clientStaging, m, held, rfl, _⟩ := thrown_of_advance run
    cases phase <;> rfl

/-- A container is acquired for the size of the array. -/
def Sized (r : PutRequest) : PutPhase → Prop
  | .acquiring size => r.arraySize = .ok size
  | _ => True

end PutRequest

/-- The server, the sizes its clients were told to put into its memory, and the puts they sent. -/
structure Admission where
  server : UniServer
  answered : List (String × UInt64)
  puts : List (PutRequest × PutPhase)

inductive AdmissionStep
  | getinfoForput (clientAddr : String) (objSize : UInt64) (bbxdim : Nat)
    (indexlb indexub : Array3 Int)
  | putrawdata (r : PutRequest)
  | phase (n : ℕ)

namespace Admission

variable {s t : Admission} {r : PutRequest} {phase phase' : PutPhase} {n : ℕ} {u : UniServer}

/-- The client of the put was told to put as many bytes into memory. -/
def Admitted (s : Admission) (r : PutRequest) : Prop :=
  match r.arraySize with
  | .ok size => (r.out.endpoint, size) ∈ s.answered
  | .error _ => True

instance (s : Admission) (r : PutRequest) : Decidable (s.Admitted r) := by
  unfold Admitted
  split <;> infer_instance

def send (s : Admission) (r : PutRequest) : Admission :=
  { s with puts := s.puts ++ [(r, .received)] }

def step (act : AdmissionStep) (s : Admission) : Except Stop Admission :=
  match act with
  | .getinfoForput clientAddr objSize bbxdim indexlb indexub => do
    let asked := Gorilla.getinfoForput objSize bbxdim indexlb indexub
    let ifp ← callRemote asked s.server
    return { s with
      server := after asked s.server
      answered :=
        if ifp.m_putMethod = RDMAPUT then (clientAddr, objSize) :: s.answered else s.answered }
  | .putrawdata r =>
    if s.Admitted r then .ok (s.send r) else .error (.blocked "putrawdata")
  | .phase n =>
    match s.puts[n]? with
    | none => .error (.blocked "no put under way")
    | some (r, phase) => do
      let (phase, server) ← r.handle phase s.server
      return { s with server := server, puts := s.puts.set n (r, phase) }

/-- No phase that could come next subtracts more than the counter holds. -/
def NeverWraps (s : Admission) : Prop :=
  ∀ (n : ℕ) (r : PutRequest) (phase phase' : PutPhase) (u : UniServer) (m : ScheduleManager)
    (size : UInt64), s.puts[n]? = some (r, phase) → r.handle phase s.server = .ok (phase', u) →
      r.takes s.server phase phase' = some (m, size) → ¬m.Wraps size

/-- The counter, the containers and what each put has taken. -/
def account (s : Admission) : Account Int where
  free := s.server.m_schedulerManager.m_avaliableMem.toNat
  slot := s.server.slot
  jobs := s.puts.map fun p => p.1.job p.2

/-- A put is sent only when the counter covers what it and the puts under way can still take. -/
def Covered (act : AdmissionStep) (s : Admission) : Prop :=
  match act with
  | .putrawdata r => (s.send r).account.Covered
  | _ => True

structure Inv (s : Admission) : Prop where
  covered : s.account.Covered
  bounded : s.server.Bounded
  sized : ∀ p ∈ s.puts, p.1.Sized p.2

theorem job_at (h : s.puts[n]? = some (r, phase)) : s.account.jobs[n]? = some (r.job phase) := by
  rw [account, List.getElem?_map, h]
  rfl

/-- The account after a phase. -/
theorem account_set (s : Admission) (n : ℕ) (r : PutRequest) (phase : PutPhase) (u : UniServer) :
    account { s with server := u, puts := s.puts.set n (r, phase) } =
      ⟨u.m_schedulerManager.m_avaliableMem.toNat, u.slot, s.account.jobs.set n (r.job phase)⟩ := by
  rw [account, account, List.map_set]

theorem sized_set (inv : s.Inv) (sized : r.Sized phase') :
    ∀ p ∈ s.puts.set n (r, phase'), p.1.Sized p.2 := by
  intro p hp
  rcases List.mem_or_eq_of_mem_set hp with old | rfl
  · exact inv.sized p old
  · exact sized

/-- A phase that takes nothing and gives nothing back. -/
theorem inv_quiet (inv : s.Inv) (h : s.puts[n]? = some (r, phase))
    (counter : u.m_schedulerManager = s.server.m_schedulerManager)
    (containers : u.containers.m_bulkMap = s.server.containers.m_bulkMap)
    (stage : phase'.stage = phase.stage) (sized : r.Sized phase') :
    Inv { s with server := u, puts := s.puts.set n (r, phase') } := by
  have same : r.job phase' = r.job phase := by rw [PutRequest.job, stage, PutRequest.job]
  have kept : account { s with server := u, puts := s.puts.set n (r, phase') } = s.account := by
    have jobs : s.account.jobs.set n (r.job phase') = s.account.jobs := by
      simpa using map_set_of_eq (y := r.job phase') id (job_at h) same
    rw [account_set, jobs, counter, UniServer.slot_congr containers]
    rfl
  exact ⟨kept ▸ inv.covered, inv.bounded.less (by rw [counter]) containers,
    sized_set inv sized⟩

/-- A put that acquires its container takes its size for it, and holds it from then on. -/
theorem inv_acquire {size : UInt64} {b : Bulk} (inv : s.Inv)
    (h : s.puts[n]? = some (r, .acquiring size)) :
    Inv { s with
      server := s.server.stage r.clientID size
      puts := s.puts.set n (r, .pulling size b) } := by
  have own : r.size = size.toNat :=
    PutRequest.size_of_arraySize (inv.sized _ (List.mem_of_getElem? h))
  have job := job_at h
  have fits := Account.fill_fits inv.covered job rfl
  have fits' : size.toNat ≤
      s.server.m_schedulerManager.m_avaliableMem.toNat + s.server.slot r.clientID := by
    have twice : r.size + r.size ≤
      s.server.m_schedulerManager.m_avaliableMem.toNat + s.server.slot r.clientID := fits
    omega
  refine ⟨?_, UniServer.bounded_stage inv.bounded fits', sized_set inv trivial⟩
  have filled := Account.covered_fill inv.covered job rfl
  have slot : (s.server.stage r.clientID size).slot =
      Function.update s.server.slot r.clientID r.size := by
    funext c
    rw [UniServer.stage_slot, own]
  rw [account_set, UniServer.stage_counter inv.bounded fits', slot, ← own]
  exact filled

/-- The last phase takes the size again, for the block. -/
theorem inv_charge {size : UInt64} {recvbuffer : Option Buffer} (inv : s.Inv)
    (h : s.puts[n]? = some (r, .settling recvbuffer)) (own : r.arraySize = .ok size)
    (counter : u.m_schedulerManager = s.server.m_schedulerManager.assignMem size)
    (containers : u.containers.m_bulkMap = s.server.containers.m_bulkMap) :
    Inv { s with server := u, puts := s.puts.set n (r, .replied) } := by
  have job := job_at h
  have own' : r.size = size.toNat := PutRequest.size_of_arraySize own
  have fits : size.toNat ≤ s.server.m_schedulerManager.m_avaliableMem.toNat :=
    own' ▸ Account.keep_fits inv.covered job rfl
  have counter' : u.m_schedulerManager.m_avaliableMem.toNat =
      s.server.m_schedulerManager.m_avaliableMem.toNat - size.toNat := by
    rw [counter, ScheduleManager.assignMem_toNat fits]
  have less : u.m_schedulerManager.m_avaliableMem.toNat ≤
      s.server.m_schedulerManager.m_avaliableMem.toNat := counter' ▸ Nat.sub_le _ _
  refine ⟨?_, inv.bounded.less less containers, sized_set inv trivial⟩
  have kept := Account.covered_keep inv.covered job rfl
  rw [account_set, counter', UniServer.slot_congr containers, ← own']
  exact kept

/-- A put that fails takes nothing more, and its container stays. -/
theorem inv_failed (inv : s.Inv) (h : s.puts[n]? = some (r, phase))
    (left : UniServer.Thrown r.blockSummary s.server u) :
    Inv { s with server := u, puts := s.puts.set n (r, .failed) } := by
  have counter : u.m_schedulerManager = s.server.m_schedulerManager := by
    obtain ⟨clientStaging, m, held, rfl, _⟩ := left
    rfl
  have containers : u.containers.m_bulkMap = s.server.containers.m_bulkMap := by
    obtain ⟨clientStaging, m, held, rfl, _⟩ := left
    rfl
  refine ⟨?_, inv.bounded.less (by rw [counter]) containers, sized_set inv trivial⟩
  have dropped := Account.covered_drop inv.covered (job_at h)
  rw [account_set, counter, UniServer.slot_congr containers]
  exact dropped

theorem inv_phase (inv : s.Inv) (hs : step (.phase n) s = .ok t) : t.Inv := by
  simp only [step] at hs
  split at hs
  · cases hs
  · rename_i r phase hn
    obtain ⟨⟨phase', u⟩, handled, done⟩ := bind_eq_ok.mp hs
    cases done
    rcases PutRequest.handle_eq_ok.mp handled with run | ⟨rfl, what, run⟩
    · cases PutRequest.phase_of_advance run with
      | receive mem own => exact inv_quiet inv hn rfl rfl rfl own
      | acquire free held => exact inv_acquire inv hn
      | pull exposed pulled =>
        exact inv_quiet inv hn rfl (Containers.pull_bulkMap pulled) rfl trivial
      | store free grid held put => exact inv_quiet inv hn rfl rfl rfl trivial
      | copy free vtk held fits => exact inv_quiet inv hn rfl rfl rfl trivial
      | charge own => exact inv_charge inv hn own rfl rfl
      | storeVtk own unmarshalled put => exact inv_charge inv hn own rfl rfl
    · exact inv_failed inv hn (PutRequest.thrown_of_advance run)

theorem inv_step {act : AdmissionStep} (inv : s.Inv) (covered : Covered act s)
    (hs : step act s = .ok t) : t.Inv := by
  cases act with
  | getinfoForput clientAddr objSize bbxdim indexlb indexub =>
    obtain ⟨ifp, _, done⟩ := bind_eq_ok.mp hs
    cases done
    have server : after (Gorilla.getinfoForput objSize bbxdim indexlb indexub) s.server =
        s.server := by rw [after, Servers.getinfoForput_exit]
    refine ⟨?_, ?_, inv.sized⟩
    · rw [account, server]
      exact inv.covered
    · rw [server]
      exact inv.bounded
  | putrawdata r =>
    simp only [step] at hs
    split at hs
    · cases hs
      refine ⟨covered, inv.bounded, fun p hp => ?_⟩
      rcases List.mem_append.mp hp with old | new
      · exact inv.sized p old
      · rw [List.mem_singleton.mp new]
        exact trivial
    · cases hs
  | phase n => exact inv_phase inv hs

/-- What a phase takes was set aside for it. -/
theorem neverWraps_of_inv (inv : s.Inv) : s.NeverWraps := by
  intro n r phase phase' u m size hn handled takes wraps
  have less : m.m_avaliableMem.toNat < size.toNat := UInt64.lt_iff_toNat_lt.mp wraps
  have job := job_at hn
  unfold PutRequest.takes at takes
  split at takes
  · obtain ⟨m', before, pair⟩ := Option.map_eq_some_iff.mp takes
    cases pair
    have own : r.size = size.toNat :=
      PutRequest.size_of_arraySize (inv.sized _ (List.mem_of_getElem? hn))
    have twice : r.size + r.size ≤
      s.server.m_schedulerManager.m_avaliableMem.toNat + s.server.slot r.clientID :=
        Account.fill_fits inv.covered job rfl
    have counter := UniServer.beforeAssign_toNat inv.bounded before
    omega
  · cases own : r.arraySize with
    | error e =>
      rw [own] at takes
      cases takes
    | ok size' =>
      rw [own] at takes
      cases takes
      have fits : r.size ≤ s.server.m_schedulerManager.m_avaliableMem.toNat :=
        Account.keep_fits inv.covered job rfl
      rw [PutRequest.size_of_arraySize own] at fits
      omega
  · cases takes

/-- A server with the memory it was given and no container yet. -/
def init (server : UniServer) (m_avaliableMem : UInt64) : Admission where
  server := { server with m_schedulerManager := ⟨m_avaliableMem⟩, containers := {} }
  answered := []
  puts := []

theorem inv_init (server : UniServer) (m_avaliableMem : UInt64) :
    (init server m_avaliableMem).Inv := by
  refine ⟨Nat.zero_le _, ?_, fun p hp => by cases hp⟩
  exact m_avaliableMem.toNat_lt

/-- However the puts interleave, the counter never wraps as long as each is covered when it is
sent. -/
theorem covered_never_wraps {server : UniServer} {m_avaliableMem : UInt64}
    {acts : List AdmissionStep}
    (run : Run (Meeting Covered (Steps step)) (init server m_avaliableMem) acts t) :
    t.NeverWraps :=
  neverWraps_of_inv (run.invariant (inv_init server m_avaliableMem)
    fun _ _ _ inv hs => inv_step inv hs.1 hs.2)

/-- The client at `client0` puts eight bytes. -/
def putCells : PutRequest := ⟨Servers.sendsCells, 0, Servers.cells⟩

/-- The client at `client1` puts as many, under an id of its own. -/
def putOther : PutRequest where
  out := { Servers.sendsCells with endpoint := "client1" }
  clientID := 1
  blockSummary :=
    { Servers.cells with
      m_blockid := "density_0_1", m_arrayList := [⟨"density_0_1", 1, 8⟩] }

/-- Both clients are told to put before either puts. -/
def bothAsk : List AdmissionStep :=
  ["client0", "client1"].map fun endpoint =>
    .getinfoForput endpoint 8 1 ⟨0, 0, 0⟩ ⟨7, 0, 0⟩

/-- The phases of the two puts alternate, up to the last one of the second. -/
def inTurns : List AdmissionStep :=
  (List.range 9).map fun turn => .phase (turn % 2)

/-- What is left is what the second put takes last. -/
theorem thirtyTwo_suffice : ∃ t : Admission,
    Run (Meeting Covered (Steps step)) (init {} 32)
      (bothAsk ++ [.putrawdata putCells] ++ [.putrawdata putOther] ++ inTurns) t ∧
    t.server.m_schedulerManager.m_avaliableMem = 8 ∧ t.NeverWraps := by
  obtain ⟨s, u, v, t, asked, first, sent, second, sent', rest, left⟩ :
      ∃ s u v t : Admission,
        runs step bothAsk (init {} 32) = .ok s ∧
        (s.send putCells).account.Covered ∧ step (.putrawdata putCells) s = .ok u ∧
        (u.send putOther).account.Covered ∧ step (.putrawdata putOther) u = .ok v ∧
        runs step inTurns v = .ok t ∧ t.server.m_schedulerManager.m_avaliableMem = 8 :=
    ⟨_, _, _, _, rfl, by decide +kernel, rfl, by decide +kernel, rfl, rfl, rfl⟩
  have asking : Run (Meeting Covered (Steps step)) (init {} 32) bothAsk s :=
    (Run.of_runs asked).meeting_of_forall fun act ha _ => by
      obtain ⟨endpoint, -, rfl⟩ := List.mem_map.mp ha
      exact trivial
  have sending : Run (Meeting Covered (Steps step)) (init {} 32)
      (bothAsk ++ [.putrawdata putCells] ++ [.putrawdata putOther]) v :=
    .next (.next asking ⟨first, sent⟩) ⟨second, sent'⟩
  have whole := sending.append ((Run.of_runs rest).meeting_of_forall fun act ha _ => by
    obtain ⟨turn, -, rfl⟩ := List.mem_map.mp ha
    exact trivial)
  exact ⟨t, whole, left, covered_never_wraps whole⟩

/-- A client that is alone asks and puts, up to the last phase. -/
def asks : List AdmissionStep :=
  [.getinfoForput "client0" 8 1 ⟨0, 0, 0⟩ ⟨7, 0, 0⟩, .putrawdata putCells]

def phases : List AdmissionStep := List.replicate 4 (.phase 0)

/-- The limit is as large as the put: its container takes all of it, and its block wraps. -/
theorem put_charged_twice : ∃ t u : Admission,
    Run (Steps step) (init {} 8) (asks ++ phases) t ∧ ¬t.NeverWraps ∧ step (.phase 0) t = .ok u ∧
      u.server.m_schedulerManager.m_avaliableMem = 0xfffffffffffffff8 := by
  obtain ⟨t, phase, u, m, ran, sent, handled, takes, wraps, last⟩ :
      ∃ (t : Admission) (phase : PutPhase) (u : UniServer) (m : ScheduleManager),
        runs step (asks ++ phases) (init {} 8) = .ok t ∧ t.puts[0]? = some (putCells, phase) ∧
        putCells.handle phase t.server = .ok (.replied, u) ∧
        putCells.takes t.server phase .replied = some (m, 8) ∧ m.Wraps 8 ∧
        u.m_schedulerManager.m_avaliableMem = 0xfffffffffffffff8 :=
    ⟨_, _, _, _, rfl, rfl, rfl, rfl, by decide +kernel, by decide +kernel⟩
  refine ⟨t, { t with server := u, puts := t.puts.set 0 (putCells, .replied) }, .of_runs ran,
    fun never => never 0 putCells phase .replied u m 8 sent handled takes wraps, ?_, last⟩
  rw [step, sent]
  exact congrArg (fun x => x >>= _) handled

end Admission

end Gorilla
