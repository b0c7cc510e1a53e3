import Mathlib.Data.Fintype.Basic
import Mathlib.Tactic.Basic

/-!
# Objects written to an archive and read back

An archive is a stream of words. One list of members serves both directions: writing
appends the words of each member, reading takes them off again into an object that exists
already. Members the list leaves out keep what that object held.
-/

universe u v w

namespace Archive

/-- A type whose values an archive writes and reads as a whole. -/
class Coded (W : Type u) (α : Type v) where
  put : α → List W
  get : List W → Option (α × List W)
  get_put (x : α) (rest : List W) : get (put x ++ rest) = some (x, rest)

/-- One pass of an archive over an object. What is read lands in an old object, and
`assign` says what the object is afterwards. -/
structure Pass (W : Type u) (T : Type v) where
  write : T → List W
  read : T → List W → Option (T × List W)
  assign : T → T → T
  read_write (v old : T) (rest : List W) : read old (write v ++ rest) = some (assign v old, rest)

namespace Pass
variable {W : Type u} {T : Type v} {α : Type w}

/-- A value of a type the archive knows replaces the old one. -/
def value [Coded W α] : Pass W α where
  write := Coded.put
  read _ ws := Coded.get ws
  assign x _ := x
  read_write x _ rest := Coded.get_put x rest

/-- A member of an object, visited by the pass over its own type. -/
def member (p : Pass W α) (get : T → α) (set : T → α → T) : Pass W T where
  write v := p.write (get v)
  read old ws := (p.read (get old) ws).map fun r => (set old r.1, r.2)
  assign v old := set old (p.assign (get v) (get old))
  read_write v old rest := by rw [p.read_write]; rfl

/-- The members of a list, visited in its order. -/
def all : List (Pass W T) → Pass W T
  | [] =>
    { write := fun _ => []
      read := fun old ws => some (old, ws)
      assign := fun _ old => old
      read_write := fun _ _ _ => rfl }
  | p :: ps =>
    { write := fun v => p.write v ++ (all ps).write v
      read := fun old ws => (p.read old ws).bind fun r => (all ps).read r.1 r.2
      assign := fun v old => (all ps).assign v (p.assign v old)
      read_write := fun v old rest => by
        rw [List.append_assoc, p.read_write, Option.bind_some, (all ps).read_write] }

@[simp] theorem assign_value [Coded W α] (x old : α) : (value : Pass W α).assign x old = x := rfl

@[simp] theorem assign_member (p : Pass W α) (get : T → α) (set : T → α → T) (v old : T) :
    (member p get set).assign v old = set old (p.assign (get v) (get old)) := rfl

@[simp] theorem assign_nil (v old : T) : (all [] : Pass W T).assign v old = old := rfl

@[simp] theorem assign_cons (p : Pass W T) (ps : List (Pass W T)) (v old : T) :
    (all (p :: ps)).assign v old = (all ps).assign v (p.assign v old) := rfl

/-- The object that reading fills with the words of a whole archive. -/
def load (p : Pass W T) (old : T) (ws : List W) : Option T := (p.read old ws).map Prod.fst

/-- What was written arrives, up to what the pass leaves alone. -/
theorem load_write (p : Pass W T) (v old : T) : p.load old (p.write v) = some (p.assign v old) := by
  have arrived := p.read_write v old []
  rw [List.append_nil] at arrived
  rw [load, arrived]
  rfl

theorem load_write_eq_iff {p : Pass W T} {v old : T} :
    p.load old (p.write v) = some v ↔ p.assign v old = v := by
  rw [load_write, Option.some.injEq]

/-- One element of an array of fixed length. -/
def element {n : Nat} (p : Pass W α) (i : Fin n) : Pass W (Vector α n) :=
  member p (fun a => a[i]) fun a x => a.set i x

/-- The elements of an array of fixed length, from the first to the last. -/
def array (n : Nat) (p : Pass W α) : Pass W (Vector α n) :=
  all ((List.finRange n).map (element p))

theorem assign_elements {n : Nat} (p : Pass W α) (v : Vector α n) (j : Fin n) :
    ∀ (is : List (Fin n)) (old : Vector α n), is.Nodup →
      ((all (is.map (element p))).assign v old)[j] =
        if j ∈ is then p.assign v[j] old[j] else old[j]
  | [], old, _ => by simp
  | i :: is, old, distinct => by
    obtain ⟨fresh, distinct⟩ := List.nodup_cons.mp distinct
    rw [List.map_cons, assign_cons, assign_elements p v j is _ distinct]
    by_cases own : i = j
    · subst own
      simp [fresh, element]
    · have other : (i : Nat) ≠ j := fun h => own (Fin.ext h)
      have kept : ((element p i).assign v old)[j] = old[j] := Vector.getElem_set_ne i.2 j.2 other
      simp [Ne.symm own, kept]

theorem assign_array {n : Nat} (p : Pass W α) (v old : Vector α n) (j : Fin n) :
    ((array n p).assign v old)[j] = p.assign v[j] old[j] := by
  rw [array, assign_elements p v j _ old (List.nodup_finRange n), if_pos (List.mem_finRange j)]

/-- An array whose elements arrive whole arrives whole. -/
theorem assign_array_eq {n : Nat} {p : Pass W α} (whole : ∀ x y, p.assign x y = x)
    (v old : Vector α n) : (array n p).assign v old = v := by
  apply Vector.ext
  intro j hj
  calc ((array n p).assign v old)[j]
      _ = p.assign v[j] old[j] := assign_array p v old ⟨j, hj⟩
      _ = v[j] := whole _ _

@[simp] theorem assign_array_value [Coded W α] {n : Nat} (v old : Vector α n) :
    (array n (value : Pass W α)).assign v old = v :=
  assign_array_eq assign_value v old

end Pass
end Archive
