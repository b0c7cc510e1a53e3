import Mathlib.Tactic.Basic

/-!
# Covering by repeated cutting

A set of pieces is cut by one cover after another; what a cutter takes away must
lie in the cover it was cut by. When no piece is left, everything the first
pieces held is covered. `Probe c t` says that the piece `c` still holds the
point `t`.
-/

universe u

namespace Peel

variable {ε C B P : Type u}

/-- Every remaining piece is cut by one cover. -/
def layer (cut : C → B → Except ε (List C)) (b : B) : List C → Except ε (List C)
  | [] => .ok []
  | c :: cs => do
    let us ← cut c b
    let rest ← layer cut b cs
    return us ++ rest

/-- The pieces left once all covers have been used in turn. -/
def peel (cut : C → B → Except ε (List C)) : List C → List B → Except ε (List C)
  | cs, [] => .ok cs
  | cs, b :: bs => do
    let us ← layer cut b cs
    peel cut us bs

/-- Where no piece is left the other covers have nothing to cut. -/
theorem peel_nothing (cut : C → B → Except ε (List C)) (bs : List B) : peel cut [] bs = .ok [] := by
  induction bs with
  | nil => rfl
  | cons b bs ih => exact ih

/-- What a cut drops was hit by the cover. -/
def SoundCut (cut : C → B → Except ε (List C)) (Probe : C → P → Prop) (Hits : B → P → Prop) :
    Prop :=
  ∀ c b us t, cut c b = .ok us → Probe c t → Hits b t ∨ ∃ u ∈ us, Probe u t

variable {cut : C → B → Except ε (List C)} {Probe : C → P → Prop} {Hits : B → P → Prop}

theorem layer_sound (sound : SoundCut cut Probe Hits) {b : B} {cs us : List C}
    (h : layer cut b cs = .ok us) {c : C} (hc : c ∈ cs) {t : P} (ht : Probe c t) :
    Hits b t ∨ ∃ u ∈ us, Probe u t := by
  induction cs generalizing us with
  | nil => cases hc
  | cons d cs ih =>
    cases hd : cut d b with
    | error e => simp [layer, hd, bind, Except.bind] at h
    | ok vs =>
      cases hr : layer cut b cs with
      | error e => simp [layer, hd, hr, bind, Except.bind] at h
      | ok rest =>
        have hus : vs ++ rest = us := by
          simpa [layer, hd, hr, bind, Except.bind, pure, Except.pure] using h
        subst us
        rcases List.mem_cons.mp hc with rfl | hc
        · rcases sound c b vs t hd ht with hit | ⟨u, hu, hp⟩
          · exact Or.inl hit
          · exact Or.inr ⟨u, List.mem_append_left _ hu, hp⟩
        · rcases ih hr hc with hit | ⟨u, hu, hp⟩
          · exact Or.inl hit
          · exact Or.inr ⟨u, List.mem_append_right _ hu, hp⟩

theorem peel_sound (sound : SoundCut cut Probe Hits) {bs : List B} {cs us : List C}
    (h : peel cut cs bs = .ok us) {c : C} (hc : c ∈ cs) {t : P} (ht : Probe c t) :
    (∃ b ∈ bs, Hits b t) ∨ ∃ u ∈ us, Probe u t := by
  induction bs generalizing cs c with
  | nil =>
    cases h
    exact Or.inr ⟨c, hc, ht⟩
  | cons b bs ih =>
    cases hl : layer cut b cs with
    | error e => simp [peel, hl, bind, Except.bind] at h
    | ok vs =>
      have hp : peel cut vs bs = .ok us := by simpa [peel, hl, bind, Except.bind] using h
      rcases layer_sound sound hl hc ht with hit | ⟨u, hu, hpu⟩
      · exact Or.inl ⟨b, List.mem_cons_self, hit⟩
      · rcases ih hp hu hpu with ⟨d, hd, hit⟩ | left
        · exact Or.inl ⟨d, List.mem_cons_of_mem b hd, hit⟩
        · exact Or.inr left

/-- When nothing is left, every point the pieces held is hit by some cover. -/
theorem peel_covers (sound : SoundCut cut Probe Hits) {bs : List B} {cs : List C}
    (h : peel cut cs bs = .ok []) {c : C} (hc : c ∈ cs) {t : P} (ht : Probe c t) :
    ∃ b ∈ bs, Hits b t := by
  rcases peel_sound sound h hc ht with hit | ⟨u, hu, _⟩
  · exact hit
  · cases hu

end Peel
