import Gorilla.Lib.HandLock

/-!
# What a run may do to its state

A computation moves its state along a relation when every run does, whether it returns or
throws. For a reflexive and transitive relation the pieces of a program compose.
-/

universe u

namespace HandLock

variable {ε σ : Type u} {α β : Type u} {R : σ → σ → Prop} {x : EStateM ε σ α}

def Moves (R : σ → σ → Prop) (x : EStateM ε σ α) : Prop := ∀ s, R s (exit (x s))

theorem Moves.of_ok (h : Moves R x) {s s' : σ} {a : α} (run : x s = .ok a s') : R s s' := by
  have moved := h s
  rwa [run] at moved

theorem moves_pure (refl : ∀ s, R s s) (a : α) : Moves R (pure a : EStateM ε σ α) := refl

theorem moves_throw (refl : ∀ s, R s s) (e : ε) : Moves R (throw e : EStateM ε σ α) := refl

theorem moves_get (refl : ∀ s, R s s) : Moves R (get : EStateM ε σ σ) := refl

theorem moves_modify {f : σ → σ} (step : ∀ s, R s (f s)) :
    Moves R (modify f : EStateM ε σ PUnit) := step

theorem Moves.bind {f : α → EStateM ε σ β} (trans : ∀ {s t u}, R s t → R t u → R s u)
    (hx : Moves R x) (hf : ∀ a, Moves R (f a)) : Moves R (x >>= f) := by
  intro s
  cases h : x s with
  | ok a t =>
    rw [bind_ok h]
    exact trans (hx.of_ok h) (hf a t)
  | error e t =>
    have moved := hx s
    rw [h] at moved
    rwa [bind_error h]

theorem Moves.region {m : Mutex σ} {busy : ε} (refl : ∀ s, R s s)
    (trans : ∀ {s t u}, R s t → R t u → R s u) (put : ∀ b s, R s (m.put b s)) (hx : Moves R x) :
    Moves R (region m busy x) := by
  intro s
  cases free : m.held s with
  | true =>
    rw [region_busy free]
    exact refl s
  | false =>
    cases h : x (m.put true s) with
    | ok a t =>
      rw [region_ok free h]
      exact trans (trans (put true s) (hx.of_ok h)) (put false t)
    | error e t =>
      have moved := hx (m.put true s)
      rw [h] at moved
      rw [region_error free h]
      exact trans (put true s) moved

theorem Moves.forM {X : Type u} {f : X → EStateM ε σ PUnit} (refl : ∀ s, R s s)
    (trans : ∀ {s t u}, R s t → R t u → R s u) :
    ∀ {l : List X}, (∀ x ∈ l, Moves R (f x)) → Moves R (l.forM f)
  | [], _ => refl
  | x :: _, hf => (hf x (List.mem_cons_self ..)).bind trans fun _ =>
      Moves.forM refl trans fun y hy => hf y (List.mem_cons_of_mem x hy)

end HandLock
