import Mathlib.Data.List.Forall2

/-!
# Lists related entry by entry

A traversal that succeeds relates its list to its results one by one.
-/

universe u v w

namespace Traverse

variable {α : Type u} {β : Type v} {R S : α → β → Prop} {as : List α} {bs : List β}

theorem forall₂_imp_mem (imp : ∀ a ∈ as, ∀ b, R a b → S a b) (h : List.Forall₂ R as bs) :
    List.Forall₂ S as bs := by
  induction h with
  | nil => exact .nil
  | @cons a b as bs h0 _ ih =>
    exact .cons (imp a List.mem_cons_self b h0) (ih fun c hc => imp c (List.mem_cons_of_mem a hc))

theorem exists_right_of_forall₂ (h : List.Forall₂ R as bs) {a : α} (ha : a ∈ as) :
    ∃ b ∈ bs, R a b := by
  induction h with
  | nil => cases ha
  | @cons a0 b0 as bs h0 _ ih =>
    rcases List.mem_cons.mp ha with rfl | ha
    · exact ⟨b0, List.mem_cons_self, h0⟩
    · obtain ⟨b, hb, hr⟩ := ih ha
      exact ⟨b, List.mem_cons_of_mem b0 hb, hr⟩

theorem exists_left_of_forall₂ (h : List.Forall₂ R as bs) {b : β} (hb : b ∈ bs) :
    ∃ a ∈ as, R a b :=
  exists_right_of_forall₂ h.flip hb

theorem exists_forall₂ (h : ∀ a ∈ as, ∃ b, R a b) : ∃ bs, List.Forall₂ R as bs := by
  induction as with
  | nil => exact ⟨[], .nil⟩
  | cons a as ih =>
    obtain ⟨b, hb⟩ := h a List.mem_cons_self
    obtain ⟨bs, hbs⟩ := ih fun c hc => h c (List.mem_cons_of_mem a hc)
    exact ⟨b :: bs, .cons hb hbs⟩

theorem forall₂_iff (h : ∀ a b, R a b ↔ S a b) : List.Forall₂ R as bs ↔ List.Forall₂ S as bs :=
  ⟨fun all => all.imp fun a b => (h a b).mp, fun all => all.imp fun a b => (h a b).mpr⟩

/-- Two traversals, the second of the results of the first, are one. -/
theorem forall₂_comp {γ : Type w} {T : β → γ → Prop} {cs : List γ} :
    (∃ bs, List.Forall₂ R as bs ∧ List.Forall₂ T bs cs) ↔
      List.Forall₂ (fun a c => ∃ b, R a b ∧ T b c) as cs := by
  constructor
  · rintro ⟨bs, first, second⟩
    induction first generalizing cs with
    | nil =>
      cases second
      exact .nil
    | @cons a b as bs h0 _ ih =>
      cases second with
      | cons hc rest => exact .cons ⟨b, h0, hc⟩ (ih rest)
  · intro both
    induction both with
    | nil => exact ⟨[], .nil, .nil⟩
    | cons h0 _ ih =>
      obtain ⟨b, hb, hc⟩ := h0
      obtain ⟨bs, first, second⟩ := ih
      exact ⟨b :: bs, .cons hb first, .cons hc second⟩

/-- A relation between entries carries over to the entries they are related to. -/
theorem pairwise_of_forall₂ {T : α → α → Prop} {U : β → β → Prop}
    (imp : ∀ a b a' b', R a b → R a' b' → T a a' → U b b')
    (h : List.Forall₂ R as bs) (hs : as.Pairwise T) : bs.Pairwise U := by
  induction h with
  | nil => exact .nil
  | @cons a b as bs h0 hrest ih =>
    obtain ⟨hhead, htail⟩ := List.pairwise_cons.mp hs
    refine List.pairwise_cons.mpr ⟨fun b' hb' => ?_, ih htail⟩
    obtain ⟨a', ha', hr⟩ := exists_left_of_forall₂ hrest hb'
    exact imp a b a' b' h0 hr (hhead a' ha')

/-- Two different entries are related to entries that are related, one way or the other. -/
theorem related_of_forall₂ {T : β → β → Prop} (h : List.Forall₂ R as bs) (ht : bs.Pairwise T)
    {a a' : α} (ha : a ∈ as) (ha' : a' ∈ as) (hne : a ≠ a') :
    ∃ b b', R a b ∧ R a' b' ∧ (T b b' ∨ T b' b) := by
  induction h with
  | nil => cases ha
  | @cons c b as bs h0 hrest ih =>
    obtain ⟨hhead, htail⟩ := List.pairwise_cons.mp ht
    rcases List.mem_cons.mp ha with hc | hmem
    · rcases List.mem_cons.mp ha' with hc' | hmem'
      · exact absurd (hc.trans hc'.symm) hne
      · obtain ⟨b', hb', hr⟩ := exists_right_of_forall₂ hrest hmem'
        exact ⟨b, b', hc ▸ h0, hr, Or.inl (hhead b' hb')⟩
    · rcases List.mem_cons.mp ha' with hc' | hmem'
      · obtain ⟨b', hb', hr⟩ := exists_right_of_forall₂ hrest hmem
        exact ⟨b', b, hr, hc' ▸ h0, Or.inr (hhead b' hb')⟩
      · exact ih htail hmem hmem'

/-- A traversal returns the results of the entries, and only if each has one. -/
theorem mapM_eq_ok {ε : Type w} {α β : Type u} {f : α → Except ε β} {l : List α} {r : List β} :
    l.mapM f = .ok r ↔ List.Forall₂ (fun a b => f a = .ok b) l r := by
  induction l generalizing r with
  | nil => simp [pure, Except.pure, eq_comm]
  | cons a l ih =>
    rw [List.mapM_cons]
    cases ha : f a with
    | error e =>
      refine iff_of_false (by simp [bind, Except.bind]) fun h => ?_
      cases h with
      | cons hb _ =>
        rw [ha] at hb
        cases hb
    | ok b =>
      cases hl : l.mapM f with
      | error e =>
        refine iff_of_false (by simp [bind, Except.bind]) fun h => ?_
        cases h with
        | cons _ hbs => simpa [hl] using ih.mpr hbs
      | ok bs =>
        have hbs := ih.mp hl
        constructor
        · intro h
          cases h
          exact .cons ha hbs
        · intro h
          cases h with
          | cons hb hrest =>
            obtain rfl := Except.ok.inj (ha.symm.trans hb)
            obtain rfl := Except.ok.inj (hl.symm.trans (ih.mpr hrest))
            rfl

end Traverse
