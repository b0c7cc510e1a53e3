import Gorilla.BlockManager.Put
import Gorilla.MetricManager.LastValues
import Gorilla.Server.RawData

/-!
# The phases of a put

What each phase does to the server when it returns, and when it returns.
-/

namespace Gorilla

open HandLock Outcome

theorem raise_eq_ok {α : Type} {x : Except String α} {a : α} : raise x = .ok a ↔ x = .ok a := by
  cases x <;> simp [raise]

/-- A call that does not touch the state returns when it has a value. -/
theorem returnsIff_lift {σ α : Type} {x : Except Stop α} {s : σ} :
    ReturnsIff IsUndefined (liftM x : EStateM Stop σ α) s (∃ a, x = .ok a) := by
  cases x with
  | ok a => exact (ReturnsIff.of_ok (lift_ok rfl)).congr (by simp)
  | error e => exact (ReturnsIff.of_error (lift_error rfl)).congr (by simp)

theorem lift_eq_ok {σ α : Type} {x : Except Stop α} {s s' : σ} {a : α} :
    (liftM x : EStateM Stop σ α) s = .ok a s' ↔ x = .ok a ∧ s' = s := by
  cases x with
  | ok b => simp [lift_ok, eq_comm]
  | error e => simp [lift_error]

theorem lift_eq_error {σ α : Type} {x : Except Stop α} {s s' : σ} {e : Stop} :
    (liftM x : EStateM Stop σ α) s = .error e s' ↔ x = .error e ∧ s' = s := by
  cases x with
  | ok b => simp [lift_ok]
  | error e' => simp [lift_error, eq_comm]

namespace UniServer

variable {s s' : UniServer} {clientID c' : Int} {size : UInt64} {out : Outside} {b : Bulk}
  {bs : BlockSummary}

/-! ### The container of a client -/

theorem stage_bulk (s : UniServer) (clientID : Int) (size : UInt64) :
    ∃ b, (s.stage clientID size).containers.m_bulkMap.lookup clientID = some b ∧
      b.size = size := by
  unfold stage
  cases h : s.containers.m_bulkMap.lookup clientID with
  | none => exact ⟨_, Containers.assign_bulk, rfl⟩
  | some b =>
    by_cases hs : b.size = size
    · exact ⟨b, by simp [hs, h], hs⟩
    · exact ⟨_, by simpa [hs] using Containers.assign_bulk, rfl⟩

theorem stage_bulk_ne (h : c' ≠ clientID) :
    (s.stage clientID size).containers.m_bulkMap.lookup c' =
      s.containers.m_bulkMap.lookup c' := by
  unfold stage
  split
  · exact Containers.assign_bulk_ne h
  · split
    · exact Containers.assign_bulk_ne h
    · rfl

theorem stage_contents_ne (h : c' ≠ clientID) :
    (s.stage clientID size).containers.contents c' = s.containers.contents c' := by
  unfold stage
  split
  · exact Containers.contents_assign_ne h
  · split
    · exact Containers.contents_assign_ne h
    · rfl

/-- The phase touches the containers and the ledger only. -/
theorem stage_eq (s : UniServer) (clientID : Int) (size : UInt64) :
    s.stage clientID size =
      { s with
        m_schedulerManager := (s.stage clientID size).m_schedulerManager
        containers := (s.stage clientID size).containers } := by
  unfold stage
  split
  · rfl
  · split <;> rfl

theorem stage_put (flag : Bool) (s : UniServer) (clientID : Int) (size : UInt64) :
    (bulkMapmutex.put flag s).stage clientID size =
      bulkMapmutex.put flag (s.stage clientID size) := by
  unfold stage
  simp only [bulkMapmutex]
  split
  · rfl
  · split <;> rfl

theorem acquire_eq_ok (free : s.m_bulkMapmutex = false) :
    acquire clientID size s = .ok b s' ↔
      s' = s.stage clientID size ∧ s'.containers.m_bulkMap.lookup clientID = some b := by
  obtain ⟨b', hb, _⟩ := stage_bulk s clientID size
  have body : ∀ t : UniServer, (do
      modify fun s => s.stage clientID size
      return ((← get).containers.m_bulkMap.lookup clientID).getD ⟨0, 0⟩ :
        EStateM Stop UniServer Bulk) t = .ok
      (((t.stage clientID size).containers.m_bulkMap.lookup clientID).getD ⟨0, 0⟩)
      (t.stage clientID size) := fun t => rfl
  have held : (s.stage clientID size).m_bulkMapmutex = false := by rw [stage_eq]; exact free
  have hrun : acquire clientID size s = .ok b' (s.stage clientID size) := by
    rw [acquire, region_ok free (body _), stage_put]
    rw [Mutex.put_false_put held]
    show EStateM.Result.ok
      (((s.stage clientID size).containers.m_bulkMap.lookup clientID).getD ⟨0, 0⟩) _ = _
    rw [hb]
    rfl
  rw [hrun]
  constructor
  · intro h
    cases h
    exact ⟨rfl, hb⟩
  · rintro ⟨rfl, hb'⟩
    obtain rfl := Option.some.inj (hb.symm.trans hb')
    rfl

theorem pull_eq_ok : pull out b s = .ok () s' ↔
    ∃ sent containers, out.exposed b.size = .ok sent ∧
      s.containers.pull b sent = .ok containers ∧ s' = { s with containers := containers } := by
  unfold pull
  simp only [bind_run_eq_ok, lift_eq_ok, raise_eq_ok]
  constructor
  · rintro ⟨sent, _, ⟨hx, rfl⟩, t, _, ht, containers, _, ⟨hp, rfl⟩, hm⟩
    cases ht
    cases hm
    exact ⟨sent, containers, hx, hp, rfl⟩
  · rintro ⟨sent, containers, hx, hp, rfl⟩
    exact ⟨sent, s, ⟨hx, rfl⟩, s, s, rfl, containers, s, ⟨hp, rfl⟩, rfl⟩

theorem dataContainer_eq_ok {contents : Buffer} :
    dataContainer clientID s = .ok contents s' ↔
      s.containers.contents clientID = some contents ∧ s' = s := by
  unfold dataContainer
  simp only [bind_run_eq_ok]
  constructor
  · rintro ⟨t, _, ht, h⟩
    cases ht
    cases hc : s.containers.contents clientID with
    | none =>
      rw [hc] at h
      cases h
    | some buf =>
      rw [hc] at h
      cases h
      exact ⟨rfl, rfl⟩
  · rintro ⟨hc, rfl⟩
    refine ⟨s', s', rfl, ?_⟩
    rw [hc]
    rfl

theorem onBlockManager_eq_ok {α : Type} {x : EStateM Stop BlockManager α} {a : α} :
    onBlockManager x s = .ok a s' ↔
      ∃ m, x s.m_blockManager = .ok a m ∧ s' = { s with m_blockManager := m } :=
  zoom_eq_ok

end UniServer

end Gorilla
