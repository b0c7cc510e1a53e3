import Mathlib.Logic.Basic

/-!
# Loops that can stop

Nested loops as one loop over a list, and the pass at which a loop over `Except` stops.
-/

universe u v w

namespace Loop

section Nested

variable {F : Type u → Type v} [Monad F] [LawfulMonad F] {M : Type u} {X Y : Type w}

theorem foldlM_flatMap (f : M → Y → F M) (g : X → List Y) (l : List X) (m : M) :
    (l.flatMap g).foldlM f m = l.foldlM (fun m x => (g x).foldlM f m) m := by
  induction l generalizing m with
  | nil => rfl
  | cons x l ih => simp only [List.flatMap_cons, List.foldlM_append, List.foldlM_cons, ih]

end Nested

section Stops

variable {ε M : Type u} {X : Type w} {P : M → Prop} {Good Bad : X → Prop} {E : ε → Prop}
  {f : M → X → Except ε M} {l : List X}

/-- A loop stops with an error of a kind at the first pass that does. While `P` holds, the
passes that return and the passes that stop so are known beforehand. -/
theorem foldlM_error_iff (good : ∀ x ∈ l, ∀ m, P m → (Good x ↔ ∃ m', f m x = .ok m'))
    (keep : ∀ x ∈ l, ∀ m m', P m → f m x = .ok m' → P m')
    (bad : ∀ x ∈ l, ∀ m, P m → (Bad x ↔ ∃ e, f m x = .error e ∧ E e)) {m : M} (hm : P m) :
    (∃ e, l.foldlM f m = .error e ∧ E e) ↔
      ∃ before x after, l = before ++ x :: after ∧ (∀ y ∈ before, Good y) ∧ Bad x := by
  induction l generalizing m with
  | nil =>
    refine iff_of_false nofun ?_
    rintro ⟨before, x, after, h, _⟩
    simp at h
  | cons x l ih =>
    have good' := fun y hy => good y (List.mem_cons_of_mem x hy)
    have keep' := fun y hy => keep y (List.mem_cons_of_mem x hy)
    have bad' := fun y hy => bad y (List.mem_cons_of_mem x hy)
    cases hx : f m x with
    | error e =>
      have run : (x :: l).foldlM f m = .error e := by
        rw [List.foldlM_cons, hx]
        rfl
      rw [run]
      constructor
      · rintro ⟨_, ⟨⟩, he⟩
        exact ⟨[], x, l, rfl, by simp, (bad x List.mem_cons_self m hm).mpr ⟨e, hx, he⟩⟩
      · rintro ⟨before, y, after, split, hgood, hbad⟩
        cases before with
        | nil =>
          obtain ⟨rfl, _⟩ := List.cons.inj split
          obtain ⟨e', he', hE⟩ := (bad x List.mem_cons_self m hm).mp hbad
          exact ⟨e, rfl, Except.error.inj (he'.symm.trans hx) ▸ hE⟩
        | cons z before =>
          obtain ⟨rfl, _⟩ := List.cons.inj split
          obtain ⟨m', hm'⟩ := (good x List.mem_cons_self m hm).mp (hgood x List.mem_cons_self)
          rw [hx] at hm'
          cases hm'
    | ok m' =>
      have run : (x :: l).foldlM f m = l.foldlM f m' := by
        rw [List.foldlM_cons, hx]
        rfl
      rw [run, ih good' keep' bad' (keep x List.mem_cons_self m m' hm hx)]
      have here : Good x := (good x List.mem_cons_self m hm).mpr ⟨m', hx⟩
      constructor
      · rintro ⟨before, y, after, rfl, hgood, hbad⟩
        exact ⟨x :: before, y, after, rfl, List.forall_mem_cons.mpr ⟨here, hgood⟩, hbad⟩
      · rintro ⟨before, y, after, split, hgood, hbad⟩
        cases before with
        | nil =>
          obtain ⟨rfl, _⟩ := List.cons.inj split
          obtain ⟨e, he, _⟩ := (bad x List.mem_cons_self m hm).mp hbad
          rw [hx] at he
          cases he
        | cons z before =>
          obtain ⟨_, rfl⟩ := List.cons.inj split
          exact ⟨before, y, after, rfl, (List.forall_mem_cons.mp hgood).2, hbad⟩

/-- In a loop that returns every pass was one of those that do. -/
theorem forall_good (good : ∀ x ∈ l, ∀ m, P m → (Good x ↔ ∃ m', f m x = .ok m'))
    (keep : ∀ x ∈ l, ∀ m m', P m → f m x = .ok m' → P m') {m m' : M} (hm : P m)
    (run : l.foldlM f m = .ok m') : ∀ x ∈ l, Good x := by
  induction l generalizing m with
  | nil => exact List.forall_mem_nil _
  | cons x l ih =>
    cases hx : f m x with
    | error e =>
      rw [List.foldlM_cons, hx] at run
      cases run
    | ok n =>
      rw [List.foldlM_cons, hx] at run
      have rest := ih (fun y hy => good y (List.mem_cons_of_mem x hy))
        (fun y hy => keep y (List.mem_cons_of_mem x hy)) (keep x List.mem_cons_self m n hm hx) run
      exact List.forall_mem_cons.mpr ⟨(good x List.mem_cons_self m hm).mpr ⟨n, hx⟩, rest⟩

end Stops

end Loop
