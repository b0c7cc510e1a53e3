import Gorilla.Lib.Runs
import Gorilla.Server.PutHandlers

/-!
# Whose bytes a block holds

The handlers of any number of puts run at once on one server. A handler finds its container by
the number its client sent, and looks it up again when it copies.
-/

namespace Gorilla

open HandLock Runs

namespace PutRequest

open UniServer

variable {r r' : PutRequest} {phase phase' : PutPhase} {s s' : UniServer}

def arraySize (r : PutRequest) : Except Stop UInt64 :=
  r.blockSummary.getArraySize r.blockSummary.m_blockid

/-- What a handler relies on between its phases: the container it looked up is still its
client's, and after the transfer holds the client's bytes. -/
def Staged (r : PutRequest) (s : UniServer) : PutPhase → Prop
  | .acquiring size => r.arraySize = .ok size
  | .pulling size b => r.arraySize = .ok size ∧
    s.containers.m_bulkMap.lookup r.clientID = some b ∧ b.size = size
  | .copying size => r.arraySize = .ok size ∧ ∃ sent, r.out.exposed size = .ok sent ∧
    s.containers.contents r.clientID = some sent
  | _ => True

/-- The client exposes as many bytes as its array has, and the array's size is an `int`. -/
def Whole (r : PutRequest) : Prop :=
  ∀ size, r.arraySize = .ok size → size.toNat < 2 ^ 31 ∧
    ∀ sent, r.out.exposed size = .ok sent → sent.length = size.toNat

/-- The block of the request holds the bytes its client exposed. -/
def Kept (r : PutRequest) (s : UniServer) : Prop :=
  ∃ size sent b, r.arraySize = .ok size ∧ r.out.exposed size = .ok sent ∧
    s.m_blockManager.block r.blockSummary.m_blockid = some b ∧
    b.storage = .RawMemObj (some sent)

theorem staged_handle (whole : r.Whole) (staged : r.Staged s phase)
    (h : r.handle phase s = .ok (phase', s')) : r.Staged s' phase' := by
  rcases handle_eq_ok.mp h with run | ⟨rfl, _⟩
  · cases phase_of_advance run with
    | receive mem own => exact own
    | @acquire _ size b free held =>
      obtain ⟨b', held', exact⟩ := stage_bulk s r.clientID size
      have same : b' = b := Option.some.inj (held'.symm.trans held)
      exact ⟨staged, held, same ▸ exact⟩
    | @pull _ size b sent containers exposed pulled =>
      obtain ⟨own, held, rfl⟩ := staged
      obtain ⟨old, hold, len⟩ := Containers.exists_contents held
      have full : sent.length = old.length := by rw [len, (whole _ own).2 sent exposed]
      refine ⟨own, sent, exposed, ?_⟩
      rw [Containers.contents_pull held hold pulled, Containers.received_of_length full]
    | store | copy | charge | storeVtk => exact trivial
  · exact trivial

/-- A phase leaves the containers of other clients alone. -/
theorem container_ne {clientID : Int} (ne : clientID ≠ r.clientID) (staged : r.Staged s phase)
    (h : r.handle phase s = .ok (phase', s')) :
    s'.containers.m_bulkMap.lookup clientID = s.containers.m_bulkMap.lookup clientID ∧
      s'.containers.contents clientID = s.containers.contents clientID := by
  rcases handle_eq_ok.mp h with run | ⟨_, what, run⟩
  · cases phase_of_advance run with
    | receive | store | copy | charge | storeVtk => exact ⟨rfl, rfl⟩
    | acquire free held => exact ⟨stage_bulk_ne ne, stage_contents_ne ne⟩
    | pull exposed pulled =>
      exact ⟨by rw [Containers.pull_bulkMap pulled],
        Containers.contents_pull_ne staged.2.1 ne pulled⟩
  · obtain ⟨clientStaging, m, held, rfl, _⟩ := thrown_of_advance run
    exact ⟨rfl, rfl⟩

theorem staged_ne (ne : r'.clientID ≠ r.clientID) (staged : r.Staged s phase)
    (h : r.handle phase s = .ok (phase', s')) {p : PutPhase} (other : r'.Staged s p) :
    r'.Staged s' p := by
  obtain ⟨bulk, contents⟩ := container_ne ne staged h
  cases p with
  | pulling size b => exact ⟨other.1, bulk.trans other.2.1, other.2.2⟩
  | copying size =>
    obtain ⟨own, sent, exposed, held⟩ := other
    exact ⟨own, sent, exposed, contents.trans held⟩
  | acquiring size => exact other
  | received | settling | replied | failed => exact trivial

/-- A block that is stored holds what its client exposed. -/
theorem kept_of_handle (whole : r.Whole) (staged : r.Staged s phase)
    (noFiles : s.m_blockManager.NoFiles) (h : r.handle phase s = .ok (.settling none, s')) :
    r.Kept s' := by
  rcases handle_eq_ok.mp h with run | ⟨failed, _⟩
  · cases phase_of_advance run with
    | @store _ size contents m free grid held put =>
      obtain ⟨own, sent, exposed, held'⟩ := staged
      obtain rfl := Option.some.inj (held.symm.trans held')
      obtain ⟨small, len⟩ := whole size own
      obtain ⟨_, handle, hof, handle', files, hput, rfl⟩ := BlockManager.putBlock_eq_ok.mp put
      have noFile := BlockManager.storage_of_handleOf noFiles (.inl rfl) hof
      have filled := DataBlock.putData_bytes (by exact noFile) (by exact own) hput
      refine ⟨size, contents, handle', own, exposed, AList.lookup_insert _, ?_⟩
      have all : contents.take (DataBlock.truncInt size).toNat = contents := by
        rw [DataBlock.truncInt_of_lt small, Int.toNat_natCast, ← len contents exposed,
          List.take_length]
      rw [filled]
      show Storage.RawMemObj (some (contents.take _)) = _
      rw [all]
  · cases failed

/-- Nothing that puts do later changes the data of a block. -/
theorem kept_handle (kept : r'.Kept s) (h : r.handle phase s = .ok (phase', s')) : r'.Kept s' := by
  obtain ⟨size, sent, b, own, exposed, held, storage⟩ := kept
  obtain ⟨b', held', same⟩ := (handle_leaves h).2.data held (.inl ⟨sent, storage⟩)
  exact ⟨size, sent, b', own, exposed, held', same.trans storage⟩

end PutRequest

/-- The server, the put each client has under way, and the puts whose `CARGRID` block was copied
out of a container. -/
structure PutHandlers (ι : Type) where
  server : UniServer
  handler : ι → Option (PutRequest × PutPhase)
  stored : List PutRequest

inductive PutStep (ι : Type)
  | arrive (i : ι) (r : PutRequest)
  | phase (i : ι)

namespace PutHandlers

variable {ι : Type} [DecidableEq ι] {s t : PutHandlers ι} {i j : ι} {r : PutRequest}

/-- A put that has ended, one way or the other, is no longer under way. -/
def underWay (r : PutRequest) : PutPhase → Option (PutRequest × PutPhase)
  | .replied => none
  | .failed => none
  | phase => some (r, phase)

/-- A client sends its next put when the one before has ended. -/
def step (act : PutStep ι) (s : PutHandlers ι) : Except Stop (PutHandlers ι) :=
  match act with
  | .arrive i r =>
    match s.handler i with
    | none => .ok { s with handler := Function.update s.handler i (some (r, .received)) }
    | some _ => .error (.blocked "putrawdata")
  | .phase i =>
    match s.handler i with
    | none => .error (.blocked "no put under way")
    | some (r, phase) => do
      let (phase, server) ← r.handle phase s.server
      return {
        server := server
        handler := Function.update s.handler i (underWay r phase)
        stored := if phase = .settling none then r :: s.stored else s.stored }

/-- The number a client sends is no other client's, and it exposes its whole array. -/
def OwnContainer (act : PutStep ι) (s : PutHandlers ι) : Prop :=
  match act with
  | .arrive _ r => (∀ j r' phase, s.handler j = some (r', phase) → r'.clientID ≠ r.clientID) ∧
    r.Whole
  | .phase _ => True

structure Inv (s : PutHandlers ι) : Prop where
  noFiles : s.server.m_blockManager.NoFiles
  apart : ∀ i j r r' p p', s.handler i = some (r, p) → s.handler j = some (r', p') → i ≠ j →
    r.clientID ≠ r'.clientID
  staged : ∀ i r p, s.handler i = some (r, p) → r.Whole ∧ r.Staged s.server p
  stored : ∀ r ∈ s.stored, r.Kept s.server

theorem inv_arrive (h : s.Inv) (own : OwnContainer (.arrive i r) s)
    (hs : step (.arrive i r) s = .ok t) : t.Inv := by
  obtain ⟨new, whole⟩ := own
  simp only [step] at hs
  split at hs
  · cases hs
    have handler : ∀ j r' p, Function.update s.handler i (some (r, .received)) j = some (r', p) →
        j = i ∧ r' = r ∧ p = .received ∨ j ≠ i ∧ s.handler j = some (r', p) := by
      intro j r' p hj
      rw [Function.update_apply] at hj
      split at hj
      · cases hj
        rename_i own
        exact .inl ⟨own, rfl, rfl⟩
      · rename_i other
        exact .inr ⟨other, hj⟩
    refine ⟨h.noFiles, ?_, ?_, h.stored⟩
    · intro j k r₁ r₂ p₁ p₂ hj hk hne
      rcases handler j r₁ p₁ hj with ⟨rfl, rfl, rfl⟩ | ⟨_, old⟩ <;>
        rcases handler k r₂ p₂ hk with ⟨rfl, rfl, rfl⟩ | ⟨_, old'⟩
      · exact absurd rfl hne
      · exact (new k r₂ p₂ old').symm
      · exact new j r₁ p₁ old
      · exact h.apart j k r₁ r₂ p₁ p₂ old old' hne
    · intro j r' p hj
      rcases handler j r' p hj with ⟨rfl, rfl, rfl⟩ | ⟨_, hj⟩
      · exact ⟨whole, trivial⟩
      · exact h.staged j r' p hj
  · cases hs

theorem underWay_eq_some {r' : PutRequest} {p p' : PutPhase} (h : underWay r p = some (r', p')) :
    r' = r ∧ p' = p := by
  cases p <;> cases h <;> exact ⟨rfl, rfl⟩

theorem inv_phase (h : s.Inv) (hs : step (.phase i) s = .ok t) : t.Inv := by
  simp only [step] at hs
  split at hs
  · cases hs
  · rename_i r phase hi
    obtain ⟨⟨phase', server⟩, handled, done⟩ := bind_eq_ok.mp hs
    cases done
    obtain ⟨whole, staged⟩ := h.staged i r phase hi
    have handler : ∀ j r' p, Function.update s.handler i (underWay r phase') j = some (r', p) →
        j = i ∧ r' = r ∧ p = phase' ∨ j ≠ i ∧ s.handler j = some (r', p) := by
      intro j r' p hj
      rw [Function.update_apply] at hj
      split at hj
      · rename_i own
        obtain ⟨rfl, rfl⟩ := underWay_eq_some hj
        exact .inl ⟨own, rfl, rfl⟩
      · rename_i other
        exact .inr ⟨other, hj⟩
    refine ⟨(PutRequest.handle_leaves handled).2.noFiles h.noFiles, ?_, ?_, ?_⟩
    · intro j k r₁ r₂ p₁ p₂ hj hk hne
      rcases handler j r₁ p₁ hj with ⟨rfl, rfl, rfl⟩ | ⟨_, old⟩ <;>
        rcases handler k r₂ p₂ hk with ⟨rfl, rfl, rfl⟩ | ⟨_, old'⟩
      · exact absurd rfl hne
      · exact h.apart _ k _ r₂ _ p₂ hi old' hne
      · exact h.apart j _ r₁ _ p₁ _ old hi hne
      · exact h.apart j k r₁ r₂ p₁ p₂ old old' hne
    · intro j r' p hj
      rcases handler j r' p hj with ⟨rfl, rfl, rfl⟩ | ⟨other, hj⟩
      · exact ⟨whole, PutRequest.staged_handle whole staged handled⟩
      · have ne := h.apart j i r' r p phase hj hi other
        exact ⟨(h.staged j r' p hj).1,
          PutRequest.staged_ne ne staged handled (h.staged j r' p hj).2⟩
    · intro r' hr
      have old : ∀ r' ∈ s.stored, r'.Kept server := fun r' hr =>
        PutRequest.kept_handle (h.stored r' hr) handled
      by_cases now : phase' = .settling none
      · rw [now] at handled
        rw [if_pos now] at hr
        rcases List.mem_cons.mp hr with rfl | hr
        · exact PutRequest.kept_of_handle whole staged h.noFiles handled
        · exact old r' hr
      · rw [if_neg now] at hr
        exact old r' hr

/-- No block is stored and no put has arrived, whatever containers are left. -/
def init (server : UniServer) : PutHandlers ι where
  server := { server with m_blockManager := { server.m_blockManager with DataBlockMap := ∅ } }
  handler _ := none
  stored := []

omit [DecidableEq ι] in
theorem inv_init (server : UniServer) : (init server : PutHandlers ι).Inv := by
  refine ⟨?_, ?_, ?_, ?_⟩
  · intro id b hb
    cases hb
  · intro i j r r' p p' hi
    cases hi
  · intro i r p hi
    cases hi
  · intro r hr
    cases hr

/-- However the handlers interleave, a stored block holds the bytes of the client that put it,
as long as no two clients under way share a number. -/
theorem stored_kept {server : UniServer} {acts : List (PutStep ι)}
    (run : Run (Meeting OwnContainer (Steps step)) (init server) acts t) :
    ∀ r ∈ t.stored, r.Kept t.server := by
  have inv : t.Inv := run.invariant (inv_init server) fun act _ _ h hs => by
    cases act with
    | arrive i r => exact inv_arrive h hs.1 hs.2
    | phase i => exact inv_phase h hs.2
  exact inv.stored

/-- A block of one cell, whose client exposes the byte. -/
def byteRequest (clientID : Int) (blockID : String) (byte : Option UInt8) : PutRequest where
  out :=
    { endpoint := blockID
      exposed := fun _ => .ok [byte]
      sendTo := fun _ => .ok ()
      lookup := .ok
      eraseRawData := fun _ _ => .ok ()
      UnMarshalDataObject := .ok }
  clientID := clientID
  blockSummary :=
    { m_dataType := DATATYPE_CARGRID
      m_blockid := blockID
      m_dims := 1
      m_arrayList := [{ m_arrayName := blockID, m_elemSize := 1, m_elemNum := 1 }] }

theorem byteRequest_whole (clientID : Int) (blockID : String) (byte : Option UInt8) :
    (byteRequest clientID blockID byte).Whole := by
  intro size own
  have one : (byteRequest clientID blockID byte).arraySize = .ok 1 :=
    BlockSummary.getArraySize_eq_ok.mpr
      ⟨.inl rfl, ⟨blockID, 1, 1⟩, by simp [BlockSummary.findArray, byteRequest], rfl⟩
  cases one.symm.trans own
  refine ⟨by decide, fun sent exposed => ?_⟩
  cases exposed
  rfl

/-- Two clients put a block at once: both are pulled before the first is copied. -/
def arrivals (first second : Int) : List (PutStep Bool) :=
  [.arrive true (byteRequest first "density_0_0" (some 1)),
    .arrive false (byteRequest second "density_0_1" (some 2))]

def overlapping : List (PutStep Bool) :=
  [.phase true, .phase false, .phase true, .phase false, .phase true, .phase false,
    .phase true, .phase true, .phase false, .phase false]

theorem overlapping_kept : ∃ t : PutHandlers Bool,
    Run (Meeting OwnContainer (Steps step)) (init {}) (arrivals 0 1 ++ overlapping) t ∧
      t.stored = [byteRequest 1 "density_0_1" (some 2), byteRequest 0 "density_0_0" (some 1)] ∧
      ∀ r ∈ t.stored, r.Kept t.server := by
  obtain ⟨u, v, t, first, second, rest, stored⟩ : ∃ u v t : PutHandlers Bool,
      step (.arrive true (byteRequest 0 "density_0_0" (some 1))) (init {}) = .ok u ∧
      step (.arrive false (byteRequest 1 "density_0_1" (some 2))) u = .ok v ∧
      runs step overlapping v = .ok t ∧
      t.stored = [byteRequest 1 "density_0_1" (some 2), byteRequest 0 "density_0_0" (some 1)] :=
    ⟨_, _, _, rfl, rfl, rfl, rfl⟩
  have own : OwnContainer (.arrive true (byteRequest 0 "density_0_0" (some 1)))
      (init {} : PutHandlers Bool) :=
    ⟨fun j r' phase hj => (by cases hj), byteRequest_whole _ _ _⟩
  have own' : OwnContainer (.arrive false (byteRequest 1 "density_0_1" (some 2))) u := by
    refine ⟨fun j r' phase hj => ?_, byteRequest_whole _ _ _⟩
    cases first
    cases j <;> cases hj
    decide
  have arrived : Run (Meeting OwnContainer (Steps step)) (init {}) (arrivals 0 1) v :=
    .next (.next .start ⟨own, first⟩) ⟨own', second⟩
  have run := arrived.append ((Run.of_runs rest).meeting_of_forall fun a ha u => by
    simp only [overlapping, List.mem_cons, List.not_mem_nil, or_false] at ha
    rcases ha with rfl | rfl | rfl | rfl | rfl | rfl | rfl | rfl | rfl | rfl <;> exact trivial)
  exact ⟨t, run, stored, stored_kept run⟩

/-- Two clients of one number: the first block holds the bytes of the second client. -/
theorem overlapping_mixed : ∃ t : PutHandlers Bool,
    Run (Steps step) (init {}) (arrivals 0 0 ++ overlapping) t ∧
      ¬ ∀ r ∈ t.stored, r.Kept t.server := by
  obtain ⟨t, ht, stored, held⟩ : ∃ t : PutHandlers Bool,
      runs step (arrivals 0 0 ++ overlapping) (init {}) = .ok t ∧
      t.stored = [byteRequest 0 "density_0_1" (some 2), byteRequest 0 "density_0_0" (some 1)] ∧
      (t.server.m_blockManager.block "density_0_0").map DataBlock.storage =
        some (.RawMemObj (some [some 2])) := ⟨_, rfl, rfl, by decide +kernel⟩
  refine ⟨t, .of_runs ht, fun kept => ?_⟩
  obtain ⟨size, sent, b, _, exposed, block, storage⟩ :=
    kept (byteRequest 0 "density_0_0" (some 1)) (by rw [stored]; simp)
  cases exposed
  have block' : t.server.m_blockManager.block "density_0_0" = some b := block
  rw [block', Option.map_some, storage] at held
  cases held

end PutHandlers

end Gorilla
