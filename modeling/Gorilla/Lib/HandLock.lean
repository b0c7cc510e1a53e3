import Mathlib.Tactic.Basic

/-!
# Mutexes taken and released by hand

A mutex is a flag of the state. Nothing releases it when an exception leaves a
locked region, so a run that throws there exits with the flag still set.
-/

universe u v

namespace HandLock

variable {ε σ : Type u} {α β : Type u}

theorem bind_ok {x : EStateM ε σ α} {f : α → EStateM ε σ β} {s s' : σ} {a : α}
    (h : x s = .ok a s') : (x >>= f) s = f a s' := by
  simp only [bind, EStateM.bind, h]

theorem bind_error {x : EStateM ε σ α} {f : α → EStateM ε σ β} {s s' : σ} {e : ε}
    (h : x s = .error e s') : (x >>= f) s = .error e s' := by
  simp only [bind, EStateM.bind, h]

theorem bind_run_eq_ok {x : EStateM ε σ α} {f : α → EStateM ε σ β} {s t : σ} {b : β} :
    (x >>= f) s = .ok b t ↔ ∃ a s', x s = .ok a s' ∧ f a s' = .ok b t := by
  constructor
  · intro hb
    cases h : x s with
    | ok a s' => exact ⟨a, s', rfl, (bind_ok h).symm.trans hb⟩
    | error e s' =>
      rw [bind_error h] at hb
      cases hb
  · rintro ⟨a, s', h, hb⟩
    exact (bind_ok h).trans hb

theorem bind_run_eq_error {x : EStateM ε σ α} {f : α → EStateM ε σ β} {s t : σ} {e : ε} :
    (x >>= f) s = .error e t ↔
      x s = .error e t ∨ ∃ a s', x s = .ok a s' ∧ f a s' = .error e t := by
  cases h : x s with
  | ok a s' =>
    rw [bind_ok h]
    constructor
    · exact fun he => .inr ⟨a, s', rfl, he⟩
    · rintro (he | ⟨a', t', he, hf⟩)
      · cases he
      · cases he
        exact hf
  | error e' s' =>
    rw [bind_error h]
    simp

theorem get_run (s : σ) : (get : EStateM ε σ σ) s = .ok s s := rfl

theorem modify_run (f : σ → σ) (s : σ) : (modify f : EStateM ε σ PUnit) s = .ok ⟨⟩ (f s) := rfl

/-- The flag of one mutex inside a larger state. -/
structure Mutex (σ : Type u) where
  held : σ → Bool
  put : Bool → σ → σ
  held_put : ∀ b s, held (put b s) = b
  put_put : ∀ b c s, put b (put c s) = put b s
  put_held : ∀ s, put (held s) s = s

/-- The state a run ends in, whether it returned or threw. -/
def exit : EStateM.Result ε σ α → σ
  | .ok _ s => s
  | .error _ s => s

@[simp] theorem exit_ok (a : α) (s : σ) : exit (.ok a s : EStateM.Result ε σ α) = s := rfl

@[simp] theorem exit_error (e : ε) (s : σ) : exit (.error e s : EStateM.Result ε σ α) = s := rfl

/-- Taking a mutex that is held waits for an owner that is not coming back. -/
def lock (m : Mutex σ) (busy : ε) : EStateM ε σ PUnit := fun s =>
  if m.held s then .error busy s else .ok ⟨⟩ (m.put true s)

def unlock (m : Mutex σ) : EStateM ε σ PUnit := fun s => .ok ⟨⟩ (m.put false s)

/-- A mutex that is free stays as it is when it is given back. -/
theorem Mutex.put_free {m : Mutex σ} {s : σ} (free : m.held s = false) : m.put false s = s := by
  rw [← free, m.put_held]

theorem Mutex.put_false_put {m : Mutex σ} {s : σ} (free : m.held s = false) (b : Bool) :
    m.put false (m.put b s) = s := by
  rw [m.put_put, put_free free]

theorem lock_free {m : Mutex σ} {busy : ε} {s : σ} (free : m.held s = false) :
    lock m busy s = .ok ⟨⟩ (m.put true s) := by
  rw [lock, free]
  rfl

theorem lock_busy {m : Mutex σ} {busy : ε} {s : σ} (held : m.held s = true) :
    lock m busy s = .error busy s := if_pos held

theorem unlock_put {m : Mutex σ} {s : σ} (free : m.held s = false) (b : Bool) :
    (unlock m : EStateM ε σ PUnit) (m.put b s) = .ok ⟨⟩ s := by
  rw [unlock, Mutex.put_false_put free]

/-- `lock(); body; unlock();`: the unlock is reached only when the body returns. -/
def region (m : Mutex σ) (busy : ε) (body : EStateM ε σ α) : EStateM ε σ α := do
  lock m busy
  let a ← body
  unlock m
  return a

theorem region_ok {m : Mutex σ} {busy : ε} {body : EStateM ε σ α} {s s' : σ} {a : α}
    (free : m.held s = false) (h : body (m.put true s) = .ok a s') :
    region m busy body s = .ok a (m.put false s') := by
  simp [region, lock, unlock, bind, EStateM.bind, free, h, pure, EStateM.pure]

theorem region_error {m : Mutex σ} {busy : ε} {body : EStateM ε σ α} {s s' : σ} {e : ε}
    (free : m.held s = false) (h : body (m.put true s) = .error e s') :
    region m busy body s = .error e s' := by
  simp [region, lock, bind, EStateM.bind, free, h]

theorem region_busy {m : Mutex σ} {busy : ε} {body : EStateM ε σ α} {s : σ}
    (h : m.held s = true) : region m busy body s = .error busy s := by
  simp [region, lock, bind, EStateM.bind, h]

theorem region_eq_ok {m : Mutex σ} {busy : ε} {body : EStateM ε σ α} {s s' : σ} {a : α} :
    region m busy body s = .ok a s' ↔
      m.held s = false ∧ ∃ t, body (m.put true s) = .ok a t ∧ s' = m.put false t := by
  cases free : m.held s with
  | true => simp [region_busy free]
  | false =>
    cases h : body (m.put true s) with
    | ok b t =>
      rw [region_ok free h]
      constructor
      · intro he
        cases he
        exact ⟨rfl, t, rfl, rfl⟩
      · rintro ⟨_, t', ht, rfl⟩
        cases ht
        rfl
    | error e t => simp [region_error free h]

theorem region_eq_error {m : Mutex σ} {busy : ε} {body : EStateM ε σ α} {s s' : σ} {e : ε} :
    region m busy body s = .error e s' ↔
      m.held s = true ∧ e = busy ∧ s' = s ∨
        m.held s = false ∧ body (m.put true s) = .error e s' := by
  cases free : m.held s with
  | true => simp [region_busy free, eq_comm]
  | false =>
    cases h : body (m.put true s) with
    | ok b t => simp [region_ok free h]
    | error e' t => simp [region_error free h]

def reads (f : σ → α) : EStateM ε σ α := do return f (← get)

/-- A region that only reads leaves the state as it was. -/
theorem region_reads {m : Mutex σ} {busy : ε} {s : σ} (f : σ → α) (free : m.held s = false) :
    region m busy (reads f) s = .ok (f (m.put true s)) s := by
  have body : (reads f : EStateM ε σ α) (m.put true s) = .ok (f (m.put true s)) (m.put true s) :=
    rfl
  rw [region_ok free body, Mutex.put_false_put free]

/-- A computation on one part of a larger state. -/
def zoom {τ : Type u} (part : τ → σ) (put : σ → τ → τ) (x : EStateM ε σ α) : EStateM ε τ α :=
  fun t =>
    match x (part t) with
    | .ok a s => .ok a (put s t)
    | .error e s => .error e (put s t)

theorem zoom_ok {τ : Type u} {part : τ → σ} {put : σ → τ → τ} {x : EStateM ε σ α} {t : τ} {a : α}
    {s : σ} (h : x (part t) = .ok a s) : zoom part put x t = .ok a (put s t) := by
  simp only [zoom, h]

theorem zoom_error {τ : Type u} {part : τ → σ} {put : σ → τ → τ} {x : EStateM ε σ α} {t : τ}
    {e : ε} {s : σ} (h : x (part t) = .error e s) : zoom part put x t = .error e (put s t) := by
  simp only [zoom, h]

theorem zoom_eq_ok {τ : Type u} {part : τ → σ} {put : σ → τ → τ} {x : EStateM ε σ α} {t t' : τ}
    {a : α} : zoom part put x t = .ok a t' ↔ ∃ s, x (part t) = .ok a s ∧ t' = put s t := by
  cases h : x (part t) with
  | ok b s =>
    rw [zoom_ok h]
    constructor
    · intro he
      cases he
      exact ⟨s, rfl, rfl⟩
    · rintro ⟨s', hs, rfl⟩
      cases hs
      rfl
  | error e s => simp [zoom_error h]

theorem zoom_eq_error {τ : Type u} {part : τ → σ} {put : σ → τ → τ} {x : EStateM ε σ α}
    {t t' : τ} {e : ε} :
    zoom part put x t = .error e t' ↔ ∃ s, x (part t) = .error e s ∧ t' = put s t := by
  cases h : x (part t) with
  | ok b s => simp [zoom_ok h]
  | error e' s =>
    rw [zoom_error h]
    constructor
    · intro he
      cases he
      exact ⟨s, rfl, rfl⟩
    · rintro ⟨s', hs, rfl⟩
      cases hs
      rfl

/-- The run leaves the mutex free when it returns and when it throws. -/
def Releases (throws : ε → Prop) (m : Mutex σ) (x : EStateM ε σ α) (s : σ) : Prop :=
  match x s with
  | .ok _ s' => m.held s' = false
  | .error e s' => throws e → m.held s' = false

/-- Whoever finds the mutex free leaves it free. -/
def LeavesFree (throws : ε → Prop) (m : Mutex σ) (x : EStateM ε σ α) (s : σ) : Prop :=
  m.held s = false → Releases throws m x s

variable {throws : ε → Prop} {m : Mutex σ} {x : EStateM ε σ α} {s s' : σ}

theorem releases_of_ok {a : α} (h : x s = .ok a s') :
    Releases throws m x s ↔ m.held s' = false := by
  rw [Releases, h]

theorem releases_of_error {e : ε} (h : x s = .error e s') (he : throws e) :
    Releases throws m x s ↔ m.held s' = false := by
  rw [Releases, h]
  exact forall_prop_of_true he

/-- A run that waits has neither returned nor thrown. -/
theorem releases_of_wait {e : ε} (h : x s = .error e s') (he : ¬throws e) :
    Releases throws m x s := by
  rw [Releases, h]
  exact fun he' => absurd he' he

theorem releases_bind {f : α → EStateM ε σ β} (hx : Releases throws m x s)
    (hf : ∀ a s', x s = .ok a s' → Releases throws m (f a) s') :
    Releases throws m (x >>= f) s := by
  cases h : x s with
  | ok a s' =>
    have hrest := hf a s' h
    rw [Releases] at *
    rw [bind_ok h]
    exact hrest
  | error e s' =>
    rw [Releases, h] at hx
    rw [Releases, bind_error h]
    exact hx

end HandLock
