import Mathlib.Data.List.TakeWhile

/-!
# Words between marks

A word starts behind an opening mark and ends before the next closing mark, or with the text.
Empty words are dropped, and so is what lies between a closing and the next opening mark.
-/

universe u

namespace Marked

variable {α : Type u} [DecidableEq α] {opens closes : α} {p s t : List α}

/-- One word, unless it is empty. -/
def emit (t : List α) : List (List α) := if t = [] then [] else [t]

/-- Outside of a word, or inside with what was read of it. -/
def scan (opens closes : α) : Option (List α) → List α → List (List α)
  | none, [] => []
  | none, c :: s => if c = opens then scan opens closes (some []) s else scan opens closes none s
  | some t, [] => emit t
  | some t, c :: s =>
    if c = closes then emit t ++ scan opens closes none s
    else scan opens closes (some (t ++ [c])) s

def words (opens closes : α) (s : List α) : List (List α) := scan opens closes none s

omit [DecidableEq α] in
theorem emit_of_ne (h : t ≠ []) : emit t = [t] := if_neg h

theorem words_skip (h : opens ∉ p) (s : List α) :
    words opens closes (p ++ s) = words opens closes s := by
  induction p with
  | nil => rfl
  | cons c p ih =>
    rw [List.mem_cons, not_or] at h
    rw [← ih h.2]
    exact if_neg (Ne.symm h.1)

theorem scan_word (h : closes ∉ t) (read s : List α) :
    scan opens closes (some read) (t ++ closes :: s) =
      emit (read ++ t) ++ scan opens closes none s := by
  induction t generalizing read with
  | nil =>
    rw [List.append_nil]
    exact if_pos rfl
  | cons c t ih =>
    rw [List.mem_cons, not_or] at h
    have step := ih h.2 (read ++ [c])
    rw [List.append_assoc] at step
    exact (if_neg (Ne.symm h.1)).trans step

theorem scan_open (h : closes ∉ t) (read : List α) :
    scan opens closes (some read) t = emit (read ++ t) := by
  induction t generalizing read with
  | nil =>
    rw [List.append_nil]
    rfl
  | cons c t ih =>
    rw [List.mem_cons, not_or] at h
    have step := ih h.2 (read ++ [c])
    rw [List.append_assoc] at step
    exact (if_neg (Ne.symm h.1)).trans step

/-- A word with both of its marks. -/
theorem words_word (h : closes ∉ t) (s : List α) :
    words opens closes (opens :: (t ++ closes :: s)) = emit t ++ words opens closes s :=
  (if_pos rfl).trans (scan_word h [] s)

/-- A word that the text ends in. -/
theorem words_open (h : closes ∉ t) : words opens closes (opens :: t) = emit t :=
  (if_pos rfl).trans (scan_open h [])

/-- Every opening mark is directly followed by a closing one. -/
def Quiet (opens closes : α) (p : List α) : Prop :=
  ∀ before after, p = before ++ opens :: after → ∃ rest, after = closes :: rest

omit [DecidableEq α] in
theorem quiet_nil : Quiet opens closes [] := fun before after h => by simp at h

omit [DecidableEq α] in
theorem Quiet.cons (h : Quiet opens closes p) {c : α} (other : c ≠ opens) :
    Quiet opens closes (c :: p) := by
  intro before after same
  cases before with
  | nil => exact absurd (List.cons.inj same).1 other
  | cons d before => exact h before after (List.cons.inj same).2

omit [DecidableEq α] in
theorem Quiet.pair (h : Quiet opens closes p) (distinct : opens ≠ closes) :
    Quiet opens closes (opens :: closes :: p) := by
  intro before after same
  cases before with
  | nil => exact ⟨p, (List.cons.inj same).2.symm⟩
  | cons d before =>
    exact (h.cons (Ne.symm distinct)) before after (List.cons.inj same).2

omit [DecidableEq α] in
theorem Quiet.of_cons {c : α} (h : Quiet opens closes (c :: p)) : Quiet opens closes p :=
  fun before after same => h (c :: before) after (congrArg (c :: ·) same)

theorem words_quiet (h : Quiet opens closes p) (s : List α) :
    words opens closes (p ++ s) = words opens closes s := by
  induction hn : p.length using Nat.strongRecOn generalizing p with
  | ind n ih =>
    cases p with
    | nil => rfl
    | cons c p =>
      by_cases mark : c = opens
      · subst mark
        obtain ⟨rest, rfl⟩ := h [] p rfl
        have pair : words c closes (c :: ([] ++ closes :: (rest ++ s))) =
            words c closes (rest ++ s) := words_word (List.not_mem_nil) (rest ++ s)
        exact pair.trans (ih rest.length (by simp at hn; omega) h.of_cons.of_cons rfl)
      · exact (if_neg mark).trans (ih p.length (by simp at hn; omega) h.of_cons rfl)

/-- A text is quiet, or has a first word, which is closed or not. -/
theorem quiet_or_word (distinct : opens ≠ closes) (p : List α) :
    Quiet opens closes p ∨
      (∃ before t after, p = before ++ opens :: (t ++ closes :: after) ∧
        Quiet opens closes before ∧ t ≠ [] ∧ closes ∉ t) ∨
      ∃ before t, p = before ++ opens :: t ∧ Quiet opens closes before ∧ closes ∉ t := by
  induction hn : p.length using Nat.strongRecOn generalizing p with
  | ind n ih =>
    cases p with
    | nil => exact .inl quiet_nil
    | cons c p =>
      by_cases mark : c = opens
      · subst mark
        by_cases closed : closes ∈ p
        · obtain ⟨t, after, rfl, first⟩ := List.eq_append_cons_of_mem closed
          cases t with
          | cons d t => exact .inr (.inl ⟨[], d :: t, after, rfl, quiet_nil, by simp, first⟩)
          | nil =>
            rcases ih after.length (by simp at hn; omega) after rfl with
              quiet | ⟨before, t, rest, rfl, quiet, some, inside⟩ | ⟨before, t, rfl, quiet, inside⟩
            · exact .inl (quiet.pair distinct)
            · exact .inr (.inl
                ⟨c :: closes :: before, t, rest, rfl, quiet.pair distinct, some, inside⟩)
            · exact .inr (.inr ⟨c :: closes :: before, t, rfl, quiet.pair distinct, inside⟩)
        · exact .inr (.inr ⟨[], p, rfl, quiet_nil, closed⟩)
      · rcases ih p.length (by simp at hn; omega) p rfl with
          quiet | ⟨before, t, after, rfl, quiet, some, closed⟩ | ⟨before, t, rfl, quiet, closed⟩
        · exact .inl (quiet.cons mark)
        · exact .inr (.inl ⟨c :: before, t, after, rfl, quiet.cons mark, some, closed⟩)
        · exact .inr (.inr ⟨c :: before, t, rfl, quiet.cons mark, closed⟩)

theorem closes_notMem_scan {read : Option (List α)} (h : t ∈ scan opens closes read s)
    (clean : ∀ r, read = some r → closes ∉ r) : closes ∉ t := by
  have emitted : ∀ {r : List α}, t ∈ emit r → t = r := fun {r} mem => by
    unfold emit at mem
    split at mem
    · cases mem
    · exact List.mem_singleton.mp mem
  induction s generalizing read with
  | nil =>
    cases read with
    | none => cases h
    | some r => exact emitted h ▸ clean r rfl
  | cons c s ih =>
    cases read with
    | none =>
      unfold scan at h
      split at h
      · exact ih h fun r same => by cases same; exact List.not_mem_nil
      · exact ih h fun r same => by cases same
    | some r =>
      unfold scan at h
      split at h
      · rcases List.mem_append.mp h with first | later
        · exact emitted first ▸ clean r rfl
        · exact ih later fun r same => by cases same
      · rename_i other
        refine ih h fun r' same => ?_
        cases same
        rw [List.mem_append, not_or]
        exact ⟨clean r rfl, fun mem => other (List.mem_singleton.mp mem).symm⟩

/-- No word contains the mark it ends at. -/
theorem closes_notMem (h : t ∈ words opens closes s) : closes ∉ t :=
  closes_notMem_scan h fun _ same => by cases same

theorem words_nil : words opens closes [] = [] := rfl

theorem span_of_mem {c : α} {s : List α} (h : c ∈ s) : ∃ after, c ∉ s.takeWhile (· ≠ c) ∧
    s.dropWhile (· ≠ c) = c :: after ∧ s = s.takeWhile (· ≠ c) ++ c :: after := by
  obtain ⟨before, after, rfl, first⟩ := List.eq_append_cons_of_mem h
  have all : ∀ d ∈ before, decide (d ≠ c) = true := fun d mem =>
    decide_eq_true fun same => first (same ▸ mem)
  rw [List.takeWhile_append_of_pos all, List.dropWhile_append_of_pos all]
  simp [first]

theorem span_of_notMem {c : α} {s : List α} (h : c ∉ s) :
    s.takeWhile (· ≠ c) = s ∧ s.dropWhile (· ≠ c) = [] := by
  have all : ∀ d ∈ s, decide (d ≠ c) = true := fun d mem =>
    decide_eq_true fun same => h (same ▸ mem)
  exact ⟨List.takeWhile_eq_self_iff.mpr all, List.dropWhile_eq_nil_iff.mpr all⟩

/-- Behind the first opening mark is the first word, and behind its end are the others. -/
theorem words_eq (distinct : opens ≠ closes) (s : List α) : words opens closes s =
    emit ((s.dropWhile (· ≠ opens)).tail.takeWhile (· ≠ closes)) ++
      words opens closes ((s.dropWhile (· ≠ opens)).tail.dropWhile (· ≠ closes)) := by
  by_cases mark : opens ∈ s
  · obtain ⟨inside, first, drop, split⟩ := span_of_mem mark
    rw [drop, List.tail_cons]
    have skipped : words opens closes s = words opens closes (opens :: inside) := by
      rw [split, words_skip first]
    rw [skipped]
    by_cases closed : closes ∈ inside
    · obtain ⟨after, clean, drop', split'⟩ := span_of_mem closed
      have next : words opens closes (closes :: after) = words opens closes after :=
        if_neg (Ne.symm distinct)
      rw [drop', next, ← words_word clean, ← split']
    · obtain ⟨take, drop'⟩ := span_of_notMem closed
      rw [take, drop', words_nil, List.append_nil, words_open closed]
  · have skipped : words opens closes (s ++ []) = words opens closes [] := words_skip mark []
    rw [List.append_nil] at skipped
    rw [skipped, (span_of_notMem mark).2]
    rfl

end Marked
