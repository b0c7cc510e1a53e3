import Mathlib.Tactic.Basic

/-!
# Runs of a stepping system

A system takes one action at a time, in any order its steps allow. What one step
keeps, a whole run keeps.
-/

universe u v w

namespace Runs

variable {S : Type u} {A : Type v} {ε : Type w}

/-- From `s` the actions, one after the other, lead to the state. -/
inductive Run (step : A → S → S → Prop) (s : S) : List A → S → Prop
  | start : Run step s [] s
  | next {as : List A} {a : A} {t u : S} :
    Run step s as t → step a t u → Run step s (as ++ [a]) u

namespace Run
variable {step : A → S → S → Prop} {s t : S} {as : List A}

/-- What holds at the start and is kept by every step holds wherever a run leads. -/
theorem invariant {I : S → Prop} (first : I s) (keeps : ∀ a t u, I t → step a t u → I u)
    (run : Run step s as t) : I t := by
  induction run with
  | start => exact first
  | next _ hstep ih => exact keeps _ _ _ ih hstep

/-- An invariant of the state together with the actions that led to it. -/
theorem history {I : List A → S → Prop} (first : I [] s)
    (keeps : ∀ as a t u, Run step s as t → I as t → step a t u → I (as ++ [a]) u)
    (run : Run step s as t) : I as t := by
  induction run with
  | start => exact first
  | next hrun hstep ih => exact keeps _ _ _ _ hrun ih hstep

theorem mono {step' : A → S → S → Prop} (weaker : ∀ a t u, step a t u → step' a t u)
    (run : Run step s as t) : Run step' s as t := by
  induction run with
  | start => exact .start
  | next _ hstep ih => exact .next ih (weaker _ _ _ hstep)

theorem append {u : S} {bs : List A} (run : Run step s as t) (rest : Run step t bs u) :
    Run step s (as ++ bs) u := by
  induction rest with
  | start => simpa using run
  | next _ hstep ih =>
    rw [← List.append_assoc]
    exact .next ih hstep

end Run

/-- The steps of a function that returns. -/
def Steps (f : A → S → Except ε S) (a : A) (s t : S) : Prop := f a s = .ok t

/-- The steps whose action meets a condition in the state before it. -/
def Meeting (meets : A → S → Prop) (step : A → S → S → Prop) (a : A) (s t : S) : Prop :=
  meets a s ∧ step a s t

theorem Run.of_meeting {meets : A → S → Prop} {step : A → S → S → Prop} {s t : S} {as : List A}
    (run : Run (Meeting meets step) s as t) : Run step s as t :=
  run.mono fun _ _ _ h => h.2

/-- Actions that meet the condition in every state meet it along every run. -/
theorem Run.meeting_of_forall {meets : A → S → Prop} {step : A → S → S → Prop} {s t : S}
    {as : List A} (run : Run step s as t) (all : ∀ a ∈ as, ∀ u, meets a u) :
    Run (Meeting meets step) s as t := by
  induction run with
  | start => exact .start
  | next _ hstep ih =>
    have last := all _ (List.mem_append_right _ (List.mem_singleton_self _))
    exact .next (ih fun a ha => all a (List.mem_append_left _ ha)) ⟨last _, hstep⟩

/-- The last step of a run. -/
theorem Run.last {step : A → S → S → Prop} {s u : S} {as : List A} {a : A}
    (run : Run step s (as ++ [a]) u) : ∃ t, Run step s as t ∧ step a t u := by
  generalize whole : as ++ [a] = bs at run
  cases run with
  | start => simp at whole
  | @next cs c t u run hstep =>
    obtain ⟨rfl, same⟩ := List.append_inj' whole rfl
    cases same
    exact ⟨t, run, hstep⟩

/-- The actions determine where a function leads. -/
theorem Run.functional {f : A → S → Except ε S} {s t t' : S} {as : List A}
    (run : Run (Steps f) s as t) (run' : Run (Steps f) s as t') : t = t' := by
  induction run generalizing t' with
  | start =>
    generalize empty : ([] : List A) = bs at run'
    cases run' with
    | start => rfl
    | next => simp at empty
  | next _ hstep ih =>
    obtain ⟨v, before, hstep'⟩ := run'.last
    obtain rfl := ih before
    exact Except.ok.inj (hstep.symm.trans hstep')

/-- A condition that a record of the run keeps account of, where an invariant holds, is met by
every step of the run. -/
theorem Run.meeting_iff_recorded {meets : A → S → Prop} {good I : S → Prop} {f : A → S → Except ε S}
    {s t : S} {as : List A} (inv : I s) (keeps : ∀ a t u, I t → f a t = .ok u → I u)
    (first : good s) (record : ∀ a t u, I t → f a t = .ok u → (good u ↔ good t ∧ meets a t))
    (run : Run (Steps f) s as t) : Run (Meeting meets (Steps f)) s as t ↔ good t := by
  induction run with
  | start => exact iff_of_true .start first
  | @next as a t u run hstep ih =>
    rw [record _ _ _ (run.invariant inv keeps) hstep, ← ih]
    constructor
    · intro whole
      obtain ⟨v, before, met, _⟩ := whole.last
      obtain rfl := run.functional before.of_meeting
      exact ⟨before, met⟩
    · rintro ⟨before, met⟩
      exact .next before ⟨met, hstep⟩

theorem Run.meeting_iff_record {meets : A → S → Prop} {good : S → Prop} {f : A → S → Except ε S}
    {s t : S} {as : List A} (first : good s)
    (record : ∀ a t u, f a t = .ok u → (good u ↔ good t ∧ meets a t))
    (run : Run (Steps f) s as t) : Run (Meeting meets (Steps f)) s as t ↔ good t :=
  run.meeting_iff_recorded (I := fun _ => True) trivial (fun _ _ _ _ _ => trivial) first
    fun a t u _ hstep => record a t u hstep

/-- Two conditions that agree as long as the first has held allow the same runs. -/
theorem Run.meeting_iff {P Q : A → S → Prop} {step : A → S → S → Prop} {s t : S} {as : List A}
    (agree : ∀ as a t u, Run (Meeting P step) s as t → step a t u → (P a t ↔ Q a t)) :
    Run (Meeting P step) s as t ↔ Run (Meeting Q step) s as t := by
  constructor
  · intro run
    induction run with
    | start => exact .start
    | next run hstep ih => exact .next ih ⟨(agree _ _ _ _ run hstep.2).mp hstep.1, hstep.2⟩
  · intro run
    induction run with
    | start => exact .start
    | next _ hstep ih => exact .next ih ⟨(agree _ _ _ _ ih hstep.2).mpr hstep.1, hstep.2⟩

/-- The state after a list of actions, as far as it can be computed. -/
def runs (f : A → S → Except ε S) : List A → S → Except ε S
  | [], s => .ok s
  | a :: as, s =>
    match f a s with
    | .ok t => runs f as t
    | .error e => .error e

theorem Run.of_runs {f : A → S → Except ε S} {as : List A} {s t : S}
    (h : runs f as s = .ok t) : Run (Steps f) s as t := by
  induction as generalizing s with
  | nil =>
    cases h
    exact .start
  | cons a as ih =>
    rw [runs] at h
    cases hstep : f a s with
    | error e => simp [hstep] at h
    | ok u =>
      rw [hstep] at h
      exact (Run.next .start hstep : Run (Steps f) s [a] u).append (ih h)

/-- A check that every action of a computed run passes. -/
def passes (check : A → S → Bool) (f : A → S → Except ε S) : List A → S → Bool
  | [], _ => true
  | a :: as, s =>
    check a s &&
      match f a s with
      | .ok t => passes check f as t
      | .error _ => true

/-- A computed run of checked actions meets whatever the check stands for. -/
theorem Run.of_passes {meets : A → S → Prop} {check : A → S → Bool} {f : A → S → Except ε S}
    {as : List A} {s t : S} (sound : ∀ a s, check a s = true → meets a s)
    (h : runs f as s = .ok t) (passed : passes check f as s = true) :
    Run (Meeting meets (Steps f)) s as t := by
  induction as generalizing s with
  | nil =>
    cases h
    exact .start
  | cons a as ih =>
    rw [runs] at h
    rw [passes, Bool.and_eq_true] at passed
    obtain ⟨here, later⟩ := passed
    cases hstep : f a s with
    | error e => simp [hstep] at h
    | ok u =>
      rw [hstep] at h later
      have first : Run (Meeting meets (Steps f)) s [a] u := .next .start ⟨sound a s here, hstep⟩
      exact first.append (ih h later)

/-- As far as the actions can be taken, every state they lead to is good and meets the condition
of the action taken next. -/
def Throughout (good : S → Prop) (meets : A → S → Prop) (f : A → S → Except ε S) (as : List A)
    (s : S) : Prop :=
  ∀ done rest t, as = done ++ rest → runs f done s = .ok t →
    good t ∧ ∀ a, rest.head? = some a → meets a t

section Throughout
variable {good : S → Prop} {meets : A → S → Prop} {f : A → S → Except ε S} {as : List A} {s : S}

theorem throughout_nil : Throughout good meets f [] s ↔ good s := by
  constructor
  · intro h
    exact (h [] [] s rfl rfl).1
  · intro h done rest t whole run
    obtain ⟨rfl, rfl⟩ := List.nil_eq_append_iff.mp whole
    cases run
    exact ⟨h, nofun⟩

theorem throughout_cons {a : A} : Throughout good meets f (a :: as) s ↔
    good s ∧ meets a s ∧ ∀ t, f a s = .ok t → Throughout good meets f as t := by
  constructor
  · intro h
    obtain ⟨here, next⟩ := h [] (a :: as) s rfl rfl
    refine ⟨here, next a rfl, fun t step done rest u whole run => ?_⟩
    refine h (a :: done) rest u (by rw [whole, List.cons_append]) ?_
    rw [runs, step]
    exact run
  · rintro ⟨here, next, later⟩ done rest u whole run
    cases done with
    | nil =>
      cases run
      rw [List.nil_append] at whole
      subst whole
      exact ⟨here, fun b hb => by cases hb; exact next⟩
    | cons b done =>
      obtain ⟨rfl, parts⟩ := List.cons.inj whole
      rw [runs] at run
      cases step : f a s with
      | error e => simp [step] at run
      | ok t =>
        rw [step] at run
        exact later t step done rest u parts run

end Throughout

end Runs
