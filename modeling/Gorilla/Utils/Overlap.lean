import Gorilla.Utils.BBXTool
import Mathlib.Data.List.Forall2

/-!
# Overlaps and splits

What an intersection holds and what a split keeps, axis by axis. An inverted
bound holds no cell, but the overlap test still sees it, so the probes of this
module are single cells on the ordinary axes and the whole bound on inverted ones.
-/

namespace Gorilla

namespace Bound

/-- The two bounds share a cell, or one is inverted and lies inside the other. -/
def Hits (b t : Bound) : Prop := b.m_lb ≤ t.m_ub ∧ t.m_lb ≤ b.m_ub

instance (b t : Bound) : Decidable (b.Hits t) := inferInstanceAs (Decidable (_ ∧ _))

def meet (a b : Bound) : Bound := ⟨max a.m_lb b.m_lb, min a.m_ub b.m_ub⟩

/-- `c` still holds the probe `t`: a single cell, or an inverted bound met exactly. -/
def Probe (c t : Bound) : Prop :=
  (t.m_ub < t.m_lb ∧ c = t) ∨ (t.m_lb = t.m_ub ∧ c.Contains t.m_lb)

def cell (x : Int) : Bound := ⟨x, x⟩

@[simp] theorem probe_cell {c : Bound} {x : Int} : c.Probe (cell x) ↔ c.Contains x := by
  simp [Probe, cell]

theorem hits_cell {b : Bound} {x : Int} : b.Hits (cell x) ↔ b.Contains x := Iff.rfl

theorem contains_meet {a b : Bound} {x : Int} :
    (a.meet b).Contains x ↔ a.Contains x ∧ b.Contains x := by
  simp only [Contains, meet]
  omega

theorem getOverlapBound_eq {a b : Bound} :
    getOverlapBound a b = if a.Hits b then some (a.meet b) else none := by
  by_cases h : a.Hits b
  · obtain ⟨h1, h2⟩ := h
    rw [getOverlapBound, if_neg (by omega), if_pos ⟨h1, h2⟩, meet]
  · have hm : a.m_ub < b.m_lb ∨ b.m_ub < a.m_lb := by
      simp only [Hits] at h
      omega
    rw [getOverlapBound, if_pos hm, if_neg h]

theorem Hits.symm {a b : Bound} (h : a.Hits b) : b.Hits a := ⟨h.2, h.1⟩

theorem hits_of_contains {a b : Bound} {x : Int} (ha : a.Contains x) (hb : b.Contains x) :
    a.Hits b := by
  obtain ⟨_, _⟩ := ha
  obtain ⟨_, _⟩ := hb
  exact ⟨by omega, by omega⟩

theorem meet_meet (c b : Bound) : c.meet (c.meet b) = c.meet b := by
  simp only [meet, mk.injEq]
  omega

/-- A bound that survives the overlap unchanged was hit wherever it is probed. -/
theorem hits_of_probe_meet {c b t : Bound} (hit : c.Hits b) (hc : c.Probe t)
    (he : c.meet b = c) : b.Hits t := by
  have hl : max c.m_lb b.m_lb = c.m_lb := congrArg m_lb he
  have hu : min c.m_ub b.m_ub = c.m_ub := congrArg m_ub he
  rcases hc with ⟨_, rfl⟩ | ⟨ht, hx⟩
  · exact hit.symm
  · obtain ⟨_, _⟩ := hx
    exact ⟨by omega, by omega⟩

/-- A split keeps every probe in some piece, and the piece that is the overlap was hit. -/
theorem splitBound_probe {c b t : Bound} {us : List Bound}
    (second : c.Hits (c.meet b)) (hs : c.splitBound (c.meet b) = .ok us) (hc : c.Probe t) :
    ∃ u ∈ us, u.Probe t ∧ (u = c.meet b → b.Hits t) := by
  obtain ⟨h1, h2⟩ := second
  rcases hc with ⟨hlt, rfl⟩ | ⟨ht, hx⟩
  · simp only [meet] at h1 h2
    omega
  have hit : ∀ u : Bound, u.Contains t.m_lb → u = c.meet b → b.Hits t := by
    intro u hu he
    rw [he, contains_meet] at hu
    obtain ⟨_, _⟩ := hu.2
    exact ⟨by omega, by omega⟩
  have take : ∀ u ∈ us, u.Contains t.m_lb →
      ∃ u ∈ us, u.Probe t ∧ (u = c.meet b → b.Hits t) :=
    fun u hu hux => ⟨u, hu, Or.inr ⟨ht, hux⟩, hit u hux⟩
  obtain ⟨hx1, hx2⟩ := hx
  have hl : c.m_lb ≤ (c.meet b).m_lb := by simp only [meet]; omega
  have hu : (c.meet b).m_ub ≤ c.m_ub := by simp only [meet]; omega
  unfold splitBound at hs
  rw [if_neg (by omega)] at hs
  by_cases he : c.equal (c.meet b) = true
  · rw [if_pos he] at hs
    cases hs
    exact take _ (by simp) ⟨hx1, hx2⟩
  rw [if_neg he] at hs
  generalize c.meet b = q at *
  by_cases left : q.m_lb ≤ c.m_lb ∧ c.m_lb ≤ q.m_ub ∧ q.m_ub < c.m_ub
  · rw [if_pos left] at hs
    obtain ⟨r, hr, hs⟩ := bind_eq_ok.mp hs
    obtain ⟨_, rfl⟩ := int_eq_ok.mp hr
    cases hs
    by_cases hq : t.m_lb ≤ q.m_ub
    · exact take ⟨c.m_lb, q.m_ub⟩ (by simp) ⟨hx1, hq⟩
    · exact take ⟨q.m_ub + 1, c.m_ub⟩ (by simp) ⟨by show q.m_ub + 1 ≤ _; omega, hx2⟩
  rw [if_neg left] at hs
  by_cases inner : c.m_lb < q.m_lb ∧ q.m_ub < c.m_ub
  · rw [if_pos inner] at hs
    obtain ⟨r, hr, hs⟩ := bind_eq_ok.mp hs
    obtain ⟨_, rfl⟩ := int_eq_ok.mp hr
    obtain ⟨r', hr', hs⟩ := bind_eq_ok.mp hs
    obtain ⟨_, rfl⟩ := int_eq_ok.mp hr'
    cases hs
    by_cases hq : t.m_lb < q.m_lb
    · exact take ⟨c.m_lb, q.m_lb - 1⟩ (by simp) ⟨hx1, by show _ ≤ q.m_lb - 1; omega⟩
    · by_cases hq' : t.m_lb ≤ q.m_ub
      · exact take ⟨q.m_lb, q.m_ub⟩ (by simp) ⟨by show q.m_lb ≤ _; omega, hq'⟩
      · exact take ⟨q.m_ub + 1, c.m_ub⟩ (by simp) ⟨by show q.m_ub + 1 ≤ _; omega, hx2⟩
  rw [if_neg inner] at hs
  by_cases right : q.m_lb ≤ c.m_ub ∧ c.m_ub ≤ q.m_ub
  · rw [if_pos right] at hs
    obtain ⟨r, hr, hs⟩ := bind_eq_ok.mp hs
    obtain ⟨_, rfl⟩ := int_eq_ok.mp hr
    cases hs
    by_cases hq : t.m_lb < q.m_lb
    · exact take ⟨c.m_lb, q.m_lb - 1⟩ (by simp) ⟨hx1, by show _ ≤ q.m_lb - 1; omega⟩
    · exact take ⟨q.m_lb, c.m_ub⟩ (by simp) ⟨by show q.m_lb ≤ _; omega, hx2⟩
  · rw [if_neg right] at hs
    cases hs

end Bound

/-- Boxes overlap when every axis does; the overlap is then taken axis by axis. -/
theorem overlapBounds_eq_some {as bs ws : List Bound} (hlen : as.length = bs.length) :
    overlapBounds as bs = some ws ↔
      List.Forall₂ Bound.Hits as bs ∧ ws = List.zipWith Bound.meet as bs := by
  induction as generalizing bs ws with
  | nil =>
    cases bs with
    | nil => simp [overlapBounds, eq_comm]
    | cons b bs => simp at hlen
  | cons a as ih =>
    cases bs with
    | nil => simp at hlen
    | cons b bs =>
      have hl : as.length = bs.length := by simpa using hlen
      rw [overlapBounds, Bound.getOverlapBound_eq]
      by_cases h : a.Hits b
      · cases hr : overlapBounds as bs with
        | none =>
          have none' : ¬ List.Forall₂ Bound.Hits as bs := by
            intro hf
            have hw : overlapBounds as bs = some _ := (ih hl).mpr ⟨hf, rfl⟩
            simp [hr] at hw
          simp [h, none', List.forall₂_cons]
        | some rest =>
          obtain ⟨hf, rfl⟩ := (ih hl).mp hr
          simp [h, hf, List.forall₂_cons, eq_comm]
      · simp [h, List.forall₂_cons]

namespace BBX

/-- The overlap of two boxes, one axis at a time. -/
def meet (a b : BBX) : BBX := ⟨0, List.zipWith Bound.meet a.BoundList b.BoundList⟩

def Hits (a b : BBX) : Prop := List.Forall₂ Bound.Hits a.BoundList b.BoundList

instance (a b : BBX) : Decidable (a.Hits b) := inferInstanceAs (Decidable (List.Forall₂ _ _ _))

theorem Hits.dims {a b : BBX} (h : a.Hits b) : a.m_dims = b.m_dims := List.Forall₂.length_eq h

theorem Hits.symm {a b : BBX} (h : a.Hits b) : b.Hits a :=
  List.Forall₂.flip (List.Forall₂.imp (fun _ _ hab => hab.symm) h)

/-- The dimensions the overlap test accepts. -/
def Dims (b : BBX) : Prop := 1 ≤ b.m_dims ∧ b.m_dims ≤ 3

theorem getOverlapBBX_eq_ok {a b : BBX} {r : Option BBX} :
    getOverlapBBX a b = .ok r ↔
      a.m_dims = b.m_dims ∧ a.Dims ∧ r = if a.Hits b then some (a.meet b) else none := by
  unfold getOverlapBBX
  by_cases hd : a.m_dims = b.m_dims
  · rw [if_neg (not_not.mpr hd)]
    by_cases hz : a.m_dims = 0 ∨ DEFAULT_MAX_DIM < b.m_dims
    · rw [if_pos hz]
      have : ¬ a.Dims := by
        intro h
        obtain ⟨_, _⟩ := h
        simp only [DEFAULT_MAX_DIM] at hz
        omega
      simp [this]
    · rw [if_neg hz]
      have hdims : a.Dims := by
        simp only [DEFAULT_MAX_DIM] at hz
        exact ⟨by omega, by omega⟩
      have hr : ((overlapBounds a.BoundList b.BoundList).map fun bounds => (⟨0, bounds⟩ : BBX)) =
          if a.Hits b then some (a.meet b) else none := by
        by_cases h : a.Hits b
        · rw [if_pos h, (overlapBounds_eq_some hd).mpr ⟨h, rfl⟩]
          rfl
        · rw [if_neg h]
          cases ho : overlapBounds a.BoundList b.BoundList with
          | none => rfl
          | some ws => exact False.elim (h ((overlapBounds_eq_some hd).mp ho).1)
      simp [hd, hdims, hr, eq_comm]
  · simp [hd]

theorem contains_meet {a b : BBX} {p : List Int} (hd : a.m_dims = b.m_dims) :
    (a.meet b).Contains p ↔ a.Contains p ∧ b.Contains p := by
  obtain ⟨_, as⟩ := a
  obtain ⟨_, bs⟩ := b
  simp only [m_dims] at hd
  simp only [Contains, meet]
  induction as generalizing bs p with
  | nil =>
    cases bs with
    | nil => simp
    | cons b bs => simp at hd
  | cons a as ih =>
    cases bs with
    | nil => simp at hd
    | cons b bs =>
      cases p with
      | nil => simp
      | cons x p =>
        have := ih bs (p := p) (by simpa using hd)
        simp only [List.zipWith_cons_cons, List.forall₂_cons, Bound.contains_meet, this]
        tauto

theorem hits_of_contains {a b : BBX} {p : List Int} (ha : a.Contains p) (hb : b.Contains p) :
    a.Hits b := by
  obtain ⟨_, as⟩ := a
  obtain ⟨_, bs⟩ := b
  simp only [Contains] at ha hb
  simp only [Hits]
  induction ha generalizing bs with
  | nil =>
    cases hb
    exact .nil
  | cons hx _ ih =>
    cases hb with
    | cons hy hb => exact .cons (Bound.hits_of_contains hx hy) (ih _ hb)

/-- On every axis the overlap with `b` is the whole of `a`. -/
def Absorbed (a b : BBX) : Prop :=
  List.Forall₂ (fun x y => x.Hits y ∧ x.meet y = x) a.BoundList b.BoundList

theorem Absorbed.hits_meet {a b : BBX} (h : a.Absorbed b) :
    a.Hits b ∧ (a.meet b).BoundList = a.BoundList := by
  obtain ⟨_, as⟩ := a
  obtain ⟨_, bs⟩ := b
  simp only [Absorbed, Hits, meet] at *
  induction h with
  | nil => exact ⟨.nil, rfl⟩
  | cons h0 _ ih =>
    rw [List.zipWith_cons_cons, h0.2, ih.2]
    exact ⟨.cons h0.1 ih.1, rfl⟩

end BBX

end Gorilla
