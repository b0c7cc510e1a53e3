import Mathlib.Data.List.AList

/-!
# Filling a finite map in a loop

A loop that inserts one entry for each item, where different items have
different keys, leaves exactly those entries over what the map held before.
-/

universe u v w

namespace MapFill

variable {κ : Type u} {β : Type v} {γ : Type w} [DecidableEq κ]

def fill (key : γ → κ) (val : γ → β) (l : List γ) (m : AList fun _ : κ => β) :
    AList fun _ : κ => β :=
  l.foldl (fun m c => m.insert (key c) (val c)) m

theorem lookup_fill {key : γ → κ} {val : γ → β} {l : List γ}
    (inj : ∀ c ∈ l, ∀ d ∈ l, key c = key d → c = d) (m : AList fun _ : κ => β) {k : κ} {v : β} :
    (fill key val l m).lookup k = some v ↔
      (∃ c ∈ l, key c = k ∧ val c = v) ∨ (m.lookup k = some v ∧ ∀ c ∈ l, key c ≠ k) := by
  induction l generalizing m with
  | nil => simp [fill]
  | cons c l ih =>
    have inj' : ∀ d ∈ l, ∀ e ∈ l, key d = key e → d = e := fun d hd e he =>
      inj d (List.mem_cons_of_mem c hd) e (List.mem_cons_of_mem c he)
    have step : fill key val (c :: l) m = fill key val l (m.insert (key c) (val c)) := rfl
    rw [step, ih inj']
    by_cases hk : key c = k
    · subst hk
      rw [AList.lookup_insert]
      constructor
      · rintro (⟨d, hd, hkd, hv⟩ | ⟨hv, _⟩)
        · exact Or.inl ⟨d, List.mem_cons_of_mem c hd, hkd, hv⟩
        · exact Or.inl ⟨c, List.mem_cons_self, rfl, Option.some.inj hv⟩
      · rintro (⟨d, hd, hkd, hv⟩ | ⟨_, hno⟩)
        · have : d = c := inj d hd c List.mem_cons_self hkd
          subst this
          by_cases hl : ∃ e ∈ l, key e = key d
          · obtain ⟨e, he, hke⟩ := hl
            have : e = d := inj e (List.mem_cons_of_mem d he) d List.mem_cons_self hke
            exact Or.inl ⟨e, he, hke, by rw [this, hv]⟩
          · exact Or.inr ⟨by rw [hv], fun e he hke => hl ⟨e, he, hke⟩⟩
        · exact absurd rfl (hno c List.mem_cons_self)
    · rw [AList.lookup_insert_ne (Ne.symm hk)]
      constructor
      · rintro (⟨d, hd, h⟩ | ⟨hm, hno⟩)
        · exact Or.inl ⟨d, List.mem_cons_of_mem c hd, h⟩
        · exact Or.inr ⟨hm, List.forall_mem_cons.mpr ⟨hk, hno⟩⟩
      · rintro (⟨d, hd, hkd, hv⟩ | ⟨hm, hno⟩)
        · rcases List.mem_cons.mp hd with rfl | hd
          · exact absurd hkd hk
          · exact Or.inl ⟨d, hd, hkd, hv⟩
        · exact Or.inr ⟨hm, fun d hd => hno d (List.mem_cons_of_mem c hd)⟩

/-- A loop whose body can fail inserts the entries its bodies computed. -/
theorem foldlM_fill {β : Type u} {ε : Type w} {f : γ → Except ε (κ × β)} {key : γ → κ}
    {val : γ → β} {l : List γ} (hf : ∀ c ∈ l, ∀ e, f c = .ok e → e = (key c, val c))
    {m m' : AList fun _ : κ => β} :
    l.foldlM (fun m c => do
      let e ← f c
      return m.insert e.1 e.2) m = (.ok m' : Except ε _) ↔
      (∀ c ∈ l, ∃ e, f c = .ok e) ∧ m' = fill key val l m := by
  induction l generalizing m with
  | nil => simp [fill, pure, Except.pure, eq_comm]
  | cons c l ih =>
    have hf' : ∀ d ∈ l, ∀ e, f d = .ok e → e = (key d, val d) :=
      fun d hd => hf d (List.mem_cons_of_mem c hd)
    rw [List.foldlM_cons]
    cases hc : f c with
    | error e => simp [bind, Except.bind, hc]
    | ok e =>
      obtain rfl := hf c List.mem_cons_self e hc
      have good : ∃ e, f c = .ok e := ⟨_, hc⟩
      have step : fill key val (c :: l) m = fill key val l (m.insert (key c) (val c)) := rfl
      rw [List.forall_mem_cons, and_iff_right good, step, ← ih hf']
      rfl

end MapFill
