import Gorilla.Lib.HandLock

/-!
# When a run returns

The errors `bad` stand for behaviour nothing can be said about. For a run that avoids
them, `ReturnsIff` gives the exact condition under which it returns; the rules below
compose these conditions along the program.
-/

universe u

namespace Outcome

open HandLock

variable {ε σ : Type u} {α β : Type u} {bad : ε → Prop} {s : σ} {P Q : Prop}
  {x : EStateM ε σ α} {f : α → EStateM ε σ β}

def Returns (x : EStateM ε σ α) (s : σ) : Prop := ∃ a s', x s = .ok a s'

/-- The run does not end in an error of the kind. -/
def Avoids (bad : ε → Prop) (x : EStateM ε σ α) (s : σ) : Prop :=
  ∀ e s', x s = .error e s' → ¬bad e

def ReturnsIff (bad : ε → Prop) (x : EStateM ε σ α) (s : σ) (P : Prop) : Prop :=
  Avoids bad x s → (Returns x s ↔ P)

theorem Returns.avoids (h : Returns x s) : Avoids bad x s := by
  obtain ⟨a, s', h⟩ := h
  intro e s'' he
  rw [h] at he
  cases he

theorem returns_bind : Returns (x >>= f) s ↔ ∃ a s', x s = .ok a s' ∧ Returns (f a) s' := by
  simp only [Returns, bind_run_eq_ok]
  constructor
  · rintro ⟨b, t, a, s', h, hb⟩
    exact ⟨a, s', h, b, t, hb⟩
  · rintro ⟨a, s', h, b, t, hb⟩
    exact ⟨b, t, a, s', h, hb⟩

theorem Avoids.of_bind (h : Avoids bad (x >>= f) s) : Avoids bad x s := by
  intro e s' he
  exact h e s' (bind_error he)

theorem Avoids.rest {a : α} {s' : σ} (h : Avoids bad (x >>= f) s) (hx : x s = .ok a s') :
    Avoids bad (f a) s' := by
  intro e s'' he
  exact h e s'' ((bind_ok hx).trans he)

theorem Avoids.bind (hx : Avoids bad x s)
    (hf : ∀ a s', x s = .ok a s' → Avoids bad (f a) s') : Avoids bad (x >>= f) s := by
  cases h : x s with
  | ok a s' =>
    intro e t he
    exact hf a s' h e t ((bind_ok h).symm.trans he)
  | error e s' =>
    intro e' t he
    rw [bind_error h] at he
    cases he
    exact hx e s' h

theorem ReturnsIff.congr (h : ReturnsIff bad x s P) (hpq : P ↔ Q) : ReturnsIff bad x s Q :=
  fun avoids => (h avoids).trans hpq

theorem ReturnsIff.of_returns (h : Returns x s) : ReturnsIff bad x s True :=
  fun _ => iff_true_intro h

theorem ReturnsIff.of_ok {a : α} {s' : σ} (h : x s = .ok a s') : ReturnsIff bad x s True :=
  .of_returns ⟨a, s', h⟩

theorem ReturnsIff.of_error {e : ε} {s' : σ} (h : x s = .error e s') :
    ReturnsIff bad x s False := by
  intro _
  simp [Returns, h]

/-- A run that ends badly meets every condition. -/
theorem ReturnsIff.of_bad {e : ε} {s' : σ} (h : x s = .error e s') (he : bad e) :
    ReturnsIff bad x s P :=
  fun avoids => absurd he (avoids e s' h)

theorem ReturnsIff.bind (hx : ReturnsIff bad x s P)
    (hf : ∀ a s', x s = .ok a s' → ReturnsIff bad (f a) s' Q) :
    ReturnsIff bad (x >>= f) s (P ∧ Q) := by
  intro avoids
  rw [returns_bind, ← hx avoids.of_bind]
  constructor
  · rintro ⟨a, s', h, hr⟩
    exact ⟨⟨a, s', h⟩, (hf a s' h (avoids.rest h)).mp hr⟩
  · rintro ⟨⟨a, s', h⟩, hq⟩
    exact ⟨a, s', h, (hf a s' h (avoids.rest h)).mpr hq⟩

/-- The step that surely returns adds no condition. -/
theorem ReturnsIff.after {a : α} {s' : σ} (h : x s = .ok a s') (hf : ReturnsIff bad (f a) s' Q) :
    ReturnsIff bad (x >>= f) s Q := by
  intro avoids
  have hr := hf (avoids.rest h)
  rw [← hr, Returns, Returns, bind_ok h]

/-- A region returns when its mutex is free and its body returns while it is held. -/
theorem ReturnsIff.region {m : Mutex σ} {busy : ε} (h : ReturnsIff bad x (m.put true s) P) :
    ReturnsIff bad (HandLock.region m busy x) s (m.held s = false ∧ P) := by
  intro avoids
  cases free : m.held s with
  | true => simp [Returns, region_busy free]
  | false =>
    cases hx : x (m.put true s) with
    | ok a s' =>
      have hr := h (Returns.avoids ⟨a, s', hx⟩)
      rw [← hr]
      simp [Returns, region_ok free hx, hx]
    | error e s' =>
      have hr := h (fun e' s'' he => avoids e' s''
        (by rw [hx] at he; cases he; exact region_error free hx))
      rw [← hr]
      simp [Returns, region_error free hx, hx]

theorem ReturnsIff.zoom {τ : Type u} {part : τ → σ} {put : σ → τ → τ} {t : τ}
    (h : ReturnsIff bad x (part t) P) : ReturnsIff bad (HandLock.zoom part put x) t P := by
  intro avoids
  cases hx : x (part t) with
  | ok a s' =>
    rw [← h (Returns.avoids ⟨a, s', hx⟩)]
    simp [Returns, zoom_ok hx, hx]
  | error e s' =>
    rw [← h (fun e' s'' he => avoids e' (put s'' t)
      (by rw [hx] at he; cases he; exact zoom_error hx))]
    simp [Returns, zoom_error hx, hx]

/-- A loop returns when each of its passes does, wherever they start. -/
theorem ReturnsIff.forM {γ : Type u} {g : γ → EStateM ε σ PUnit} {p : γ → Prop} {l : List γ}
    {inv : σ → Prop} (hs : inv s)
    (hg : ∀ c ∈ l, ∀ t, inv t → ReturnsIff bad (g c) t (p c) ∧
      ∀ a t', g c t = .ok a t' → inv t') :
    ReturnsIff bad (l.forM g) s (∀ c ∈ l, p c) := by
  induction l generalizing s with
  | nil => exact (ReturnsIff.of_ok rfl).congr (by simp)
  | cons c l ih =>
    obtain ⟨hc, keep⟩ := hg c List.mem_cons_self s hs
    have rest : ∀ a s', g c s = .ok a s' → ReturnsIff bad (l.forM g) s' (∀ c ∈ l, p c) :=
      fun a s' h => ih (keep a s' h) fun d hd => hg d (List.mem_cons_of_mem c hd)
    exact (hc.bind rest).congr List.forall_mem_cons.symm

end Outcome
