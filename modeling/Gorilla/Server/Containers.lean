import Gorilla.Utils.MatrixTool

/-!
# The staging containers

A put is pulled into a malloc'ed container that is kept for its client. The bulk and the
pointer of a client are recorded in two maps, which have the same view.
-/

namespace Gorilla

/-- An exposed region of the server's memory. -/
structure Bulk where
  ptr : Nat
  size : UInt64
  deriving DecidableEq, Repr

namespace Containers

theorem sameView_empty (c : Int) :
    (∅ : AList fun _ : Int => Nat).lookup c =
      ((∅ : AList fun _ : Int => Bulk).lookup c).map Bulk.ptr :=
  rfl

theorem live_empty (c : Int) (b : Bulk) (h : (∅ : AList fun _ : Int => Bulk).lookup c = some b) :
    ∃ buf, (∅ : AList fun _ : Nat => Buffer).lookup b.ptr = some buf ∧
      buf.length = b.size.toNat := by
  cases h

theorem owned_empty (c c' : Int) (b b' : Bulk)
    (h : (∅ : AList fun _ : Int => Bulk).lookup c = some b)
    (_ : (∅ : AList fun _ : Int => Bulk).lookup c' = some b') (_ : b.ptr = b'.ptr) : c = c' := by
  cases h

theorem fresh_empty (p : Nat) (buf : Buffer)
    (h : (∅ : AList fun _ : Nat => Buffer).lookup p = some buf) : p < 0 := by
  cases h

end Containers

structure Containers where
  m_bulkMap : AList fun _ : Int => Bulk := ∅
  m_dataContainerMap : AList fun _ : Int => Nat := ∅
  heap : AList fun _ : Nat => Buffer := ∅
  nextPtr : Nat := 0
  sameView : ∀ c, m_dataContainerMap.lookup c = (m_bulkMap.lookup c).map Bulk.ptr := by
    exact Containers.sameView_empty
  live : ∀ c b, m_bulkMap.lookup c = some b →
      ∃ buf, heap.lookup b.ptr = some buf ∧ buf.length = b.size.toNat := by
    exact Containers.live_empty
  owned : ∀ c c' b b', m_bulkMap.lookup c = some b → m_bulkMap.lookup c' = some b' →
      b.ptr = b'.ptr → c = c' := by
    exact Containers.owned_empty
  fresh : ∀ p buf, heap.lookup p = some buf → p < nextPtr := by
    exact Containers.fresh_empty

namespace Containers

/-- `free(m_dataContainerMap[clientID])`, when the client has a container. -/
def freed (k : Containers) (clientID : Int) : AList fun _ : Nat => Buffer :=
  match k.m_dataContainerMap.lookup clientID with
  | none => k.heap
  | some dataContainer => k.heap.erase dataContainer

theorem freed_lookup_of_ne {k : Containers} {c c' : Int} {b : Bulk}
    (h : k.m_bulkMap.lookup c' = some b) (hne : c' ≠ c) :
    (k.freed c).lookup b.ptr = k.heap.lookup b.ptr := by
  unfold freed
  rw [k.sameView c]
  cases hb : k.m_bulkMap.lookup c with
  | none => rfl
  | some b' =>
    have hptr : b.ptr ≠ b'.ptr := fun e => hne (k.owned c' c b b' h hb e)
    exact AList.lookup_erase_ne hptr

theorem freed_fresh {k : Containers} {c : Int} {p : Nat} {buf : Buffer}
    (h : (k.freed c).lookup p = some buf) : p < k.nextPtr := by
  unfold freed at h
  cases hd : k.m_dataContainerMap.lookup c with
  | none =>
    rw [hd] at h
    exact k.fresh p buf h
  | some q =>
    rw [hd] at h
    by_cases hpq : p = q
    · rw [hpq, AList.lookup_erase] at h
      cases h
    · exact k.fresh p buf ((AList.lookup_erase_ne hpq).symm.trans h)

/-- `free`, `malloc`, `expose` and the two assignments to the maps. -/
def assign (k : Containers) (clientID : Int) (size : UInt64) : Containers where
  m_bulkMap := k.m_bulkMap.insert clientID ⟨k.nextPtr, size⟩
  m_dataContainerMap := k.m_dataContainerMap.insert clientID k.nextPtr
  heap := (k.freed clientID).insert k.nextPtr (Buffer.malloc size)
  nextPtr := k.nextPtr + 1
  sameView := by
    intro c
    by_cases hc : c = clientID
    · rw [hc, AList.lookup_insert, AList.lookup_insert]
      rfl
    · rw [AList.lookup_insert_ne hc, AList.lookup_insert_ne hc, k.sameView c]
  live := by
    intro c b h
    by_cases hc : c = clientID
    · rw [hc, AList.lookup_insert] at h
      obtain rfl := Option.some.inj h
      exact ⟨Buffer.malloc size, AList.lookup_insert _, List.length_replicate⟩
    · rw [AList.lookup_insert_ne hc] at h
      obtain ⟨buf, hbuf, hlen⟩ := k.live c b h
      have hptr : b.ptr ≠ k.nextPtr := Nat.ne_of_lt (k.fresh b.ptr buf hbuf)
      exact ⟨buf, by rw [AList.lookup_insert_ne hptr, freed_lookup_of_ne h hc, hbuf], hlen⟩
  owned := by
    have old : ∀ c b, k.m_bulkMap.lookup c = some b → b.ptr ≠ k.nextPtr := by
      intro c b h
      obtain ⟨buf, hbuf, _⟩ := k.live c b h
      exact Nat.ne_of_lt (k.fresh b.ptr buf hbuf)
    intro c c' b b' h h' hptr
    by_cases hc : c = clientID <;> by_cases hc' : c' = clientID
    · rw [hc, hc']
    · rw [hc, AList.lookup_insert] at h
      rw [AList.lookup_insert_ne hc'] at h'
      obtain rfl := Option.some.inj h
      exact absurd hptr.symm (old c' b' h')
    · rw [hc', AList.lookup_insert] at h'
      rw [AList.lookup_insert_ne hc] at h
      obtain rfl := Option.some.inj h'
      exact absurd hptr (old c b h)
    · rw [AList.lookup_insert_ne hc] at h
      rw [AList.lookup_insert_ne hc'] at h'
      exact k.owned c c' b b' h h' hptr
  fresh := by
    intro p buf h
    by_cases hp : p = k.nextPtr
    · omega
    · rw [AList.lookup_insert_ne hp] at h
      exact Nat.lt_succ_of_lt (freed_fresh h)

/-- The heap once a live region holds other bytes of the same length. -/
def write (k : Containers) (ptr : Nat) (old new : Buffer) (held : k.heap.lookup ptr = some old)
    (same : new.length = old.length) : Containers :=
  { k with
    heap := k.heap.insert ptr new
    live := by
      intro c b h
      by_cases hp : b.ptr = ptr
      · obtain ⟨buf, hbuf, hlen⟩ := k.live c b h
        rw [hp, held] at hbuf
        obtain rfl := Option.some.inj hbuf
        exact ⟨new, by rw [hp, AList.lookup_insert], by rw [same, hlen]⟩
      · obtain ⟨buf, hbuf, hlen⟩ := k.live c b h
        exact ⟨buf, by rw [AList.lookup_insert_ne hp, hbuf], hlen⟩
    fresh := by
      intro p buf h
      by_cases hp : p = ptr
      · rw [hp]
        exact k.fresh ptr old held
      · rw [AList.lookup_insert_ne hp] at h
        exact k.fresh p buf h }

/-- What the transfer into a region leaves there: the bytes sent, then what is left over. -/
def received (old sent : Buffer) : Buffer := sent ++ old.drop sent.length

theorem length_received {old sent : Buffer} (h : sent.length ≤ old.length) :
    (received old sent).length = old.length := by
  rw [received, List.length_append, List.length_drop]
  omega

theorem received_of_length {old sent : Buffer} (h : sent.length = old.length) :
    received old sent = sent := by
  rw [received, h, List.drop_length, List.append_nil]

/-- `dataBulk.on(ep) >> currentBulk`: the region may have been freed since it was looked up. -/
def pull (k : Containers) (currentBulk : Bulk) (sent : Buffer) : Except Stop Containers :=
  match held : k.heap.lookup currentBulk.ptr with
  | none => .error (.undefined "transfer into a freed container")
  | some old =>
    if h : sent.length ≤ old.length then
      .ok (k.write currentBulk.ptr old (received old sent) held (length_received h))
    else
      .error (.undefined "transfer past the end of a container")

/-- The bytes `m_dataContainerMap[clientID]` points to. -/
def contents (k : Containers) (clientID : Int) : Option Buffer :=
  (k.m_dataContainerMap.lookup clientID).bind k.heap.lookup

variable {k k' : Containers} {c c' : Int} {b : Bulk} {size : UInt64} {sent : Buffer}

theorem contents_of_bulk (h : k.m_bulkMap.lookup c = some b) :
    k.contents c = k.heap.lookup b.ptr := by
  rw [contents, k.sameView, h]
  rfl

theorem exists_contents (h : k.m_bulkMap.lookup c = some b) :
    ∃ buf, k.contents c = some buf ∧ buf.length = b.size.toNat := by
  rw [contents_of_bulk h]
  exact k.live c b h

theorem assign_bulk : (k.assign c size).m_bulkMap.lookup c = some ⟨k.nextPtr, size⟩ :=
  AList.lookup_insert _

theorem assign_bulk_ne (h : c' ≠ c) :
    (k.assign c size).m_bulkMap.lookup c' = k.m_bulkMap.lookup c' :=
  AList.lookup_insert_ne h

theorem contents_assign_ne (h : c' ≠ c) : (k.assign c size).contents c' = k.contents c' := by
  cases hb : k.m_bulkMap.lookup c' with
  | none =>
    rw [contents, contents, sameView, sameView, assign_bulk_ne h, hb]
    rfl
  | some b =>
    obtain ⟨buf, hbuf, _⟩ := k.live c' b hb
    have hptr : b.ptr ≠ k.nextPtr := Nat.ne_of_lt (k.fresh b.ptr buf hbuf)
    rw [contents_of_bulk ((assign_bulk_ne h).trans hb), contents_of_bulk hb]
    exact (AList.lookup_insert_ne hptr).trans (freed_lookup_of_ne hb h)

/-- A transfer into a live region, and nothing else. -/
theorem pull_eq_ok : k.pull b sent = .ok k' ↔
    ∃ (old : Buffer) (held : k.heap.lookup b.ptr = some old) (h : sent.length ≤ old.length),
      k' = k.write b.ptr old (received old sent) held (length_received h) := by
  unfold pull
  split
  case h_1 none => simp [none]
  case h_2 old held =>
    by_cases h : sent.length ≤ old.length
    · rw [dif_pos h]
      constructor
      · intro he
        exact ⟨old, held, h, (Except.ok.inj he).symm⟩
      · rintro ⟨old', held', _, rfl⟩
        obtain rfl := Option.some.inj (held.symm.trans held')
        rfl
    · rw [dif_neg h]
      constructor
      · intro he
        cases he
      · rintro ⟨old', held', h', _⟩
        obtain rfl := Option.some.inj (held.symm.trans held')
        exact absurd h' h

theorem pull_bulkMap (h : k.pull b sent = .ok k') : k'.m_bulkMap = k.m_bulkMap := by
  obtain ⟨_, _, _, rfl⟩ := pull_eq_ok.mp h
  rfl

/-- The container of the client the bulk belongs to holds the bytes sent. -/
theorem contents_pull {old : Buffer} (hb : k.m_bulkMap.lookup c = some b)
    (hold : k.contents c = some old) (h : k.pull b sent = .ok k') :
    k'.contents c = some (received old sent) := by
  have hb' : k'.m_bulkMap.lookup c = some b := by rw [pull_bulkMap h, hb]
  obtain ⟨old', held, _, rfl⟩ := pull_eq_ok.mp h
  rw [contents_of_bulk hb] at hold
  obtain rfl := Option.some.inj (held.symm.trans hold)
  rw [contents_of_bulk hb']
  exact AList.lookup_insert _

theorem contents_pull_ne (hb : k.m_bulkMap.lookup c = some b) (hne : c' ≠ c)
    (h : k.pull b sent = .ok k') : k'.contents c' = k.contents c' := by
  have hmap : k'.m_bulkMap.lookup c' = k.m_bulkMap.lookup c' := by rw [pull_bulkMap h]
  cases hb' : k.m_bulkMap.lookup c' with
  | none => rw [contents, contents, sameView, sameView, hmap, hb']; rfl
  | some b' =>
    obtain ⟨_, _, _, rfl⟩ := pull_eq_ok.mp h
    have hptr : b'.ptr ≠ b.ptr := fun e => hne (k.owned c' c b' b hb' hb e)
    rw [contents_of_bulk (hmap.trans hb'), contents_of_bulk hb']
    exact AList.lookup_insert_ne hptr

end Containers

end Gorilla
