import Gorilla.Server.Coverage
import Gorilla.Utils.Split

/-!
# The coverage test in two and three dimensions

The pieces in the queue tile the part of the query that the blocks so far do not have, so the queue
is empty exactly when nothing of the query is left.
-/

namespace Gorilla

open Tiling

namespace BBX

variable {c b u : BBX} {d : Nat}

theorem ints_of_contains {bounds : List Bound} {p : List Int} (h : ∀ bound ∈ bounds, bound.Proper)
    (hp : List.Forall₂ Bound.Contains bounds p) : ∀ x ∈ p, IsInt x := by
  induction hp with
  | nil => simp
  | cons hx _ ih =>
    rw [List.forall_mem_cons] at h ⊢
    obtain ⟨⟨_, ⟨hlb, _⟩, _, hub⟩, rest⟩ := h
    obtain ⟨hx1, hx2⟩ := hx
    exact ⟨⟨hlb.trans hx1, hx2.trans hub⟩, ih rest⟩

/-- A box with cells inside a proper one has `int` ends too. -/
theorem Proper.of_subset (h : c.Proper) (wellFormed : u.WellFormed)
    (sub : ∀ p, u.Contains p → c.Contains p) : u.Proper := by
  have lbs : u.Contains (u.BoundList.map Bound.m_lb) := by
    rw [Contains, List.forall₂_map_right_iff, List.forall₂_same]
    exact fun bound hb => ⟨le_rfl, wellFormed bound hb⟩
  have ubs : u.Contains (u.BoundList.map Bound.m_ub) := by
    rw [Contains, List.forall₂_map_right_iff, List.forall₂_same]
    exact fun bound hb => ⟨wellFormed bound hb, le_rfl⟩
  intro bound hb
  exact ⟨wellFormed bound hb, ints_of_contains h (sub _ lbs) _ (List.mem_map_of_mem hb),
    ints_of_contains h (sub _ ubs) _ (List.mem_map_of_mem hb)⟩

/-- A query inside the box can be taken out of it, on two axes or three. -/
theorem subtractable_of_within (dims : 2 ≤ c.m_dims)
    (within : List.Forall₂ (fun o q => q.Within o) c.BoundList b.BoundList) :
    c.Subtractable b := by
  unfold Subtractable
  match h : c.m_dims with
  | 0 => omega
  | 1 => omega
  | 2 => exact within.imp fun _ _ inside around => Bound.within_antisymm around inside
  | _ + 3 => exact within

theorem meet_within_bounds {as bs : List Bound} (len : as.length = bs.length) :
    List.Forall₂ (fun o q => q.Within o) as (List.zipWith Bound.meet as bs) := by
  induction as generalizing bs with
  | nil => exact .nil
  | cons a as ih =>
    cases bs with
    | nil => cases len
    | cons b bs =>
      exact .cons ⟨le_max_left _ _, min_le_left _ _⟩ (ih (Nat.succ.inj len))

/-- A piece of the query in the queue. -/
def Piece (d : Nat) (c : BBX) : Prop := c.m_dims = d ∧ c.Proper

/-- A cut leaves a tiling of what the block does not have. -/
theorem cut_exact (two : 2 ≤ d) (three : d ≤ 3) (hb : b.m_dims = d) (wellFormed : b.WellFormed) :
    ExactCut Contains Contains (Piece d) cut b := by
  rintro c ⟨hc, proper⟩
  have dims : c.Dims := ⟨by omega, by omega⟩
  have same : c.m_dims = b.m_dims := hc.trans hb.symm
  have overlaps := getOverlapBBX_eq_ok.mpr ⟨same, dims, rfl⟩
  by_cases hit : c.Hits b
  · rw [if_pos hit] at overlaps
    by_cases whole : (c.meet b).equal c = true
    · refine ⟨[], ?_, by simp, tiles_nil.congr fun p => iff_of_false ?_ id⟩
      · refine bind_eq_ok.mpr ⟨_, overlaps, ?_⟩
        simp only [if_pos whole]
        rfl
      · rintro ⟨hp, out⟩
        have held : (c.meet b).Contains p := by
          rw [Contains, equal_iff.mp whole]
          exact hp
        exact out ((contains_meet same).mp held).2
    · have met : (c.meet b).WellFormed := hit.wellFormed_meet proper.wellFormed wellFormed
      have inside : ∀ p, (c.meet b).Contains p → c.Contains p := fun p hp =>
        ((contains_meet same).mp hp).1
      obtain ⟨p, hp⟩ := met.exists_point
      obtain ⟨r, run, sub⟩ := (subtracts_iff dims (dims_meet same) proper
        (proper.of_subset met inside) ⟨p, inside p hp, hp⟩).mpr
          (subtractable_of_within (by omega) (meet_within_bounds same))
      refine ⟨r.map fun v => { v with m_status := c.m_status + 1 }, ?_, ?_, ?_⟩
      · refine bind_eq_ok.mpr ⟨_, overlaps, ?_⟩
        simp only [if_neg whole]
        exact bind_eq_ok.mpr ⟨r, run, rfl⟩
      · intro u hu
        obtain ⟨v, hv, rfl⟩ := List.mem_map.mp hu
        obtain ⟨len, wf⟩ := sub.wellFormed v hv
        exact ⟨len.trans hc, proper.of_subset wf fun p hp => (sub.tiles.points_subset hv hp).1⟩
      · have named : ∀ (v : BBX) p,
            Contains { v with m_status := c.m_status + 1 } p ↔ v.Contains p := fun _ _ => Iff.rfl
        refine (sub.tiles.map named).congr fun p => ?_
        show c.Contains p ∧ ¬ b.Contains p ↔ c.Contains p ∧ ¬ (c.meet b).Contains p
        rw [contains_meet same]
        tauto
  · rw [if_neg hit] at overlaps
    refine ⟨[{ c with m_status := c.m_status + 1 }], bind_eq_ok.mpr ⟨_, overlaps, rfl⟩, ?_, ?_⟩
    · intro u hu
      rw [List.mem_singleton.mp hu]
      exact ⟨hc, proper⟩
    · obtain ⟨p, hp⟩ := proper.wellFormed.exists_point
      have alone : Tiles Contains [{ c with m_status := c.m_status + 1 }] (points Contains c) :=
        tiles_singleton (w := { c with m_status := c.m_status + 1 }) hp
      refine alone.congr fun x => ⟨fun hx => hx.1, fun hx => ⟨hx, fun out => ?_⟩⟩
      exact hit (hits_of_contains hx out)

end BBX

namespace MetaDataManager

/-- Two blocks that overlap and leave a corner of a square to a third one. -/
def threeBlocks : List BlockDescriptor :=
  [{ m_dims := 2, m_indexub := ⟨3, 7, 0⟩ }, { m_dims := 2, m_indexub := ⟨7, 3, 0⟩ },
    { m_dims := 2, m_indexlb := ⟨2, 2, 0⟩, m_indexub := ⟨9, 9, 0⟩ }]

/-- On two axes or three the test returns, and accepts the query exactly when the blocks have every
point of it. -/
theorem ifCovered_exact {list : List BlockDescriptor} {q : BBX} (status : q.m_status = 0)
    (two : 2 ≤ q.m_dims) (three : q.m_dims ≤ 3) (proper : q.Proper)
    (registered : ∀ bd ∈ list, bd.m_dims = q.m_dims ∧ bd.bbx.WellFormed) :
    ∃ covered, ifCovered list q = .ok covered ∧
      (covered = true ↔ ∀ p, q.Contains p → ∃ bd ∈ list, bd.bbx.Contains p) := by
  have small : ∀ bd ∈ list, bd.m_dims ≤ 3 := fun bd mem => (registered bd mem).1.trans_le three
  have exact : ∀ b ∈ list.map BlockDescriptor.bbx,
      ExactCut BBX.Contains BBX.Contains (BBX.Piece q.m_dims) BBX.cut b := by
    intro b hb
    obtain ⟨bd, mem, rfl⟩ := List.mem_map.mp hb
    have dims : bd.bbx.m_dims = q.m_dims :=
      (BlockDescriptor.dims_bbx (small bd mem)).trans (registered bd mem).1
    exact BBX.cut_exact two three dims (registered bd mem).2
  obtain ⟨x, hx⟩ := proper.wellFormed.exists_point
  obtain ⟨rest, run, tiles⟩ := ExactCut.peel exact (tiles_singleton hx)
    (fun c hc => by
      rw [List.mem_singleton.mp hc]
      exact ⟨rfl, proper⟩)
  have queue : coverQueue list 0 [q] = .ok rest :=
    (coverQueue_eq_ok (by simpa using status)).mpr ⟨small, run⟩
  refine ⟨rest.isEmpty, bind_eq_ok.mpr ⟨rest, queue, rfl⟩, ?_⟩
  rw [List.isEmpty_iff, tiles.eq_nil_iff]
  constructor
  · intro empty p hp
    by_contra out
    refine empty p ⟨hp, fun b hb held => ?_⟩
    obtain ⟨bd, mem, rfl⟩ := List.mem_map.mp hb
    exact out ⟨bd, mem, held⟩
  · rintro covers p ⟨hp, out⟩
    obtain ⟨bd, mem, held⟩ := covers p hp
    exact out _ (List.mem_map_of_mem mem) held

theorem threeBlocks_cover : ifCovered threeBlocks BBX.square = .ok true ∧
    ∀ p, BBX.square.Contains p → ∃ bd ∈ threeBlocks, bd.bbx.Contains p := by
  obtain ⟨covered, run, exact⟩ := @ifCovered_exact threeBlocks BBX.square rfl (by decide)
    (by decide) (by decide) (by decide)
  have all : ifCovered threeBlocks BBX.square = .ok true := by decide
  cases all.symm.trans run
  exact ⟨all, exact.mp rfl⟩

end MetaDataManager

end Gorilla
