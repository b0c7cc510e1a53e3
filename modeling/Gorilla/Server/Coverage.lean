import Gorilla.Lib.Peel
import Gorilla.Server.MetaDataManager
import Gorilla.Utils.Split

/-!
# What the coverage test proves

The queue of `ifCovered` is the layered peeling of the query by the registered
boxes. Each pass cuts every piece by one block, and in two and three dimensions
a cut only drops what the block holds. In one dimension the split of a partly
covered box is empty, so the test is sound there for single cells only.
-/

namespace Gorilla

namespace BBX

/-- The piece still holds the probe on every axis; a one-dimensional piece is a single cell
or inverted, since the one-dimensional split returns no piece. -/
def Probe (c : BBX) (ts : List Bound) : Prop :=
  List.Forall₂ Bound.Probe c.BoundList ts ∧
    (c.m_dims = 1 → ∀ b ∈ c.BoundList, b.m_ub ≤ b.m_lb)

def HitsAll (b : BBX) (ts : List Bound) : Prop := List.Forall₂ Bound.Hits b.BoundList ts

theorem hitsAll_cells {b : BBX} {p : List Int} :
    b.HitsAll (p.map Bound.cell) ↔ b.Contains p := by
  simp only [HitsAll, Contains, List.forall₂_map_right_iff, Bound.hits_cell]

/-- The pieces `existBBX` leaves of `curBBX`. -/
def cut (curBBX existBBX : BBX) : Except Stop (List BBX) := do
  match ← getOverlapBBX curBBX existBBX with
  | none => return [{ curBBX with m_status := curBBX.m_status + 1 }]
  | some overlap =>
    if overlap.equal curBBX then
      return []
    else
      let bbxlist ← splitReduceBBX curBBX overlap
      return bbxlist.map fun v => { v with m_status := curBBX.m_status + 1 }

theorem meet_meet (c b : BBX) : c.meet (c.meet b) = c.meet b := by
  obtain ⟨_, cs⟩ := c
  obtain ⟨_, bs⟩ := b
  simp only [meet, mk.injEq, true_and]
  induction cs generalizing bs with
  | nil => rfl
  | cons c cs ih =>
    cases bs with
    | nil => rfl
    | cons b bs => simp only [List.zipWith_cons_cons, Bound.meet_meet, ih]

/-- On one axis a hit piece that holds a probe is a single cell or inverted, so the overlap is
the piece. -/
theorem meet_eq_of_thin {c b : Bound} (hit : c.Hits b) (thin : c.m_ub ≤ c.m_lb) :
    c.meet b = c := by
  obtain ⟨_, _⟩ := hit
  cases c
  simp only [Bound.meet, Bound.mk.injEq] at *
  omega

/-- Where the split of a hit piece returns, a probe of the piece is hit or still held. -/
theorem splitReduceBBX_probe {c b : BBX} {us : List BBX} {ts : List Bound}
    (hit : c.Hits b) (hne : c.meet b ≠ ⟨0, c.BoundList⟩)
    (hs : splitReduceBBX c (c.meet b) = .ok us) (hc : c.Probe ts) :
    b.HitsAll ts ∨ ∃ u ∈ us, List.Forall₂ Bound.Probe u.BoundList ts ∧ u.m_dims ≠ 1 := by
  obtain ⟨hp, thin⟩ := hc
  obtain ⟨⟨_, h3⟩, second⟩ := hits_of_splitReduceBBX (dims_meet hit.dims) hs
  obtain ⟨st, cs⟩ := c
  obtain ⟨st', bs⟩ := b
  simp only [m_dims] at thin h3
  simp only [Hits, meet] at hit second
  simp only [HitsAll]
  cases hp with
  | nil =>
    rename_i dims
    simp [m_dims] at dims
  | @cons c0 t0 cs ts hp0 hp =>
  cases hit with
  | @cons _ b0 _ bs hit0 hit =>
  cases second with
  | cons second0 second =>
  cases hp with
  | nil =>
    cases hit
    refine False.elim (hne ?_)
    simp only [meet, List.zipWith_cons_cons, List.zipWith_nil_right,
      meet_eq_of_thin hit0 (thin rfl c0 List.mem_cons_self)]
  | @cons c1 t1 cs ts hp1 hp =>
  cases hit with
  | @cons _ b1 _ bs hit1 hit =>
  cases second with
  | cons second1 second =>
  cases hp with
  | nil =>
    cases hit
    obtain ⟨us0, us1, h0, h1, rfl⟩ := (splitReduceBBX_plane second0 second1).mp hs
    obtain ⟨u0, hu0, hpu0, hx0⟩ := Bound.splitBound_probe second0 h0 hp0
    obtain ⟨u1, hu1, hpu1, hx1⟩ := Bound.splitBound_probe second1 h1 hp1
    by_cases he : u0 = c0.meet b0 ∧ u1 = c1.meet b1
    · exact Or.inl (.cons (hx0 he.1) (.cons (hx1 he.2) .nil))
    · refine Or.inr ⟨⟨0, [u0, u1]⟩, mem_pieces.mpr ⟨rfl, .cons hu0 (.cons hu1 .nil), ?_⟩,
        .cons hpu0 (.cons hpu1 .nil), by simp [m_dims]⟩
      simpa [Bound.meet_meet] using he
  | @cons c2 t2 cs ts hp2 hp =>
  cases hit with
  | @cons _ b2 _ bs hit2 hit =>
  cases second with
  | cons second2 second =>
  cases hp with
  | nil =>
    cases hit
    obtain ⟨us0, us1, us2, h0, h1, h2, rfl⟩ := (splitReduceBBX_space second0 second1 second2).mp hs
    obtain ⟨u0, hu0, hpu0, hx0⟩ := Bound.splitBound_probe second0 h0 hp0
    obtain ⟨u1, hu1, hpu1, hx1⟩ := Bound.splitBound_probe second1 h1 hp1
    obtain ⟨u2, hu2, hpu2, hx2⟩ := Bound.splitBound_probe second2 h2 hp2
    by_cases he : u0 = c0.meet b0 ∧ u1 = c1.meet b1 ∧ u2 = c2.meet b2
    · exact Or.inl (.cons (hx0 he.1) (.cons (hx1 he.2.1) (.cons (hx2 he.2.2) .nil)))
    · refine Or.inr ⟨⟨0, [u0, u1, u2]⟩,
        mem_pieces.mpr ⟨rfl, .cons hu0 (.cons hu1 (.cons hu2 .nil)), ?_⟩,
        .cons hpu0 (.cons hpu1 (.cons hpu2 .nil)), by simp [m_dims]⟩
      simpa using he
  | cons hp3 hp =>
    simp only [List.length_cons] at h3
    omega

theorem probe_hits_of_meet_eq {c b : BBX} {ts : List Bound} (hit : c.Hits b)
    (he : (c.meet b).BoundList = c.BoundList) (hc : List.Forall₂ Bound.Probe c.BoundList ts) :
    b.HitsAll ts := by
  obtain ⟨_, cs⟩ := c
  obtain ⟨_, bs⟩ := b
  simp only [Hits, meet, HitsAll] at *
  induction hit generalizing ts with
  | nil =>
    cases hc
    exact .nil
  | cons hit0 _ ih =>
    simp only [List.zipWith_cons_cons, List.cons.injEq] at he
    cases hc with
    | cons hc0 hc => exact .cons (Bound.hits_of_probe_meet hit0 hc0 he.1) (ih hc he.2)

/-- A cut never drops a probe the block did not hit. -/
theorem cut_sound : Peel.SoundCut cut Probe HitsAll := by
  intro c b us ts hcut hc
  obtain ⟨r, hr, hcut⟩ := bind_eq_ok.mp hcut
  obtain ⟨_, _, rfl⟩ := getOverlapBBX_eq_ok.mp hr
  by_cases hit : c.Hits b
  · rw [if_pos hit] at hcut
    by_cases he : (c.meet b).equal c = true
    · exact Or.inl (probe_hits_of_meet_eq hit (equal_iff.mp he) hc.1)
    · simp only [if_neg he] at hcut
      obtain ⟨vs, hv, hcut⟩ := bind_eq_ok.mp hcut
      cases hcut
      have hne : c.meet b ≠ ⟨0, c.BoundList⟩ := fun h => he (by simp [h])
      rcases splitReduceBBX_probe hit hne hv hc with h | ⟨u, hu, hpu, hd⟩
      · exact Or.inl h
      · exact Or.inr ⟨_, List.mem_map_of_mem hu, hpu, fun h => absurd h hd⟩
  · rw [if_neg hit] at hcut
    cases hcut
    exact Or.inr ⟨_, List.mem_singleton_self _, hc⟩

theorem cut_status {c b : BBX} {us : List BBX} (h : cut c b = .ok us) :
    ∀ u ∈ us, u.m_status = c.m_status + 1 := by
  obtain ⟨r, hr, hcut⟩ := bind_eq_ok.mp h
  cases r with
  | none =>
    cases hcut
    simp
  | some overlap =>
    by_cases he : overlap.equal c = true
    · simp only [if_pos he] at hcut
      cases hcut
      simp
    · simp only [if_neg he] at hcut
      obtain ⟨vs, hv, hcut⟩ := bind_eq_ok.mp hcut
      cases hcut
      simp

end BBX

namespace MetaDataManager

open Peel

/-- A pass of the queue cuts the boxes of the old layer and appends what is left of them. -/
theorem coverLayer_eq (existBBX : BBX) (curStatus : Int) (old : List BBX) :
    ∀ (new : List BBX) (fuel : Nat), old.length < fuel →
      (∀ c ∈ old, c.m_status = curStatus) → (∀ c ∈ new, c.m_status = curStatus + 1) →
      coverLayer existBBX curStatus fuel (old ++ new) =
        (layer BBX.cut existBBX old >>= fun us => .ok (new ++ us)) := by
  induction old with
  | nil =>
    intro new fuel hf _ hnew
    obtain ⟨fuel, rfl⟩ := Nat.exists_eq_add_of_lt hf
    cases new with
    | nil => simp [coverLayer, layer, bind, Except.bind]
    | cons c new =>
      have hc : c.m_status ≠ curStatus := by
        have := hnew c List.mem_cons_self
        omega
      simp [coverLayer, layer, bind, Except.bind, hc]
  | cons c old ih =>
    intro new fuel hf hold hnew
    obtain ⟨fuel, rfl⟩ : ∃ k, fuel = k + 1 := ⟨fuel - 1, by omega⟩
    have hf' : old.length < fuel := by simpa using hf
    have hc : c.m_status = curStatus := hold c List.mem_cons_self
    have hold' : ∀ d ∈ old, d.m_status = curStatus :=
      fun d hd => hold d (List.mem_cons_of_mem c hd)
    have push : ∀ us : List BBX, (∀ u ∈ us, u.m_status = curStatus + 1) →
        coverLayer existBBX curStatus fuel (old ++ (new ++ us)) =
          (layer BBX.cut existBBX old >>= fun vs => .ok (new ++ (us ++ vs))) := by
      intro us hus
      rw [ih (new ++ us) fuel hf' hold' (by
        intro d hd
        rcases List.mem_append.mp hd with hd | hd
        · exact hnew d hd
        · exact hus d hd)]
      simp only [List.append_assoc]
    rw [List.cons_append, coverLayer, if_neg (not_not.mpr hc), layer, BBX.cut]
    cases ho : getOverlapBBX c existBBX with
    | error e => rfl
    | ok r =>
      cases r with
      | none =>
        have := push [{ c with m_status := c.m_status + 1 }] (by simp [hc])
        simp only [bind, Except.bind, pure, Except.pure, List.append_assoc] at this ⊢
        rw [this]
        cases layer BBX.cut existBBX old <;> rfl
      | some overlap =>
        by_cases he : overlap.equal c = true
        · have := push [] (by simp)
          simp only [bind, Except.bind, pure, Except.pure, if_pos he, List.append_nil,
            List.nil_append] at this ⊢
          rw [this]
          cases layer BBX.cut existBBX old <;> rfl
        · simp only [bind, Except.bind, pure, Except.pure, if_neg he] at push ⊢
          cases hs : splitReduceBBX c overlap with
          | error e => rfl
          | ok vs =>
            have := push (vs.map fun v => { v with m_status := c.m_status + 1 }) (by simp [hc])
            simp only [List.append_assoc] at this ⊢
            rw [this]
            cases layer BBX.cut existBBX old <;> rfl

theorem layer_status {b : BBX} {cs us : List BBX} {k : Int} (h : layer BBX.cut b cs = .ok us)
    (hcs : ∀ c ∈ cs, c.m_status = k) : ∀ u ∈ us, u.m_status = k + 1 := by
  induction cs generalizing us with
  | nil =>
    cases h
    simp
  | cons c cs ih =>
    obtain ⟨vs, hv, h⟩ := bind_eq_ok.mp h
    obtain ⟨rest, hr, h⟩ := bind_eq_ok.mp h
    cases h
    intro u hu
    rcases List.mem_append.mp hu with hu | hu
    · rw [BBX.cut_status hv u hu, hcs c List.mem_cons_self]
    · exact ih hr (fun d hd => hcs d (List.mem_cons_of_mem c hd)) u hu

end MetaDataManager

/-- The registered box of a descriptor with at most three axes. -/
def BlockDescriptor.bbx (bd : BlockDescriptor) : BBX :=
  ⟨0, List.zipWith Bound.mk (bd.m_indexlb.toList.take bd.m_dims)
    (bd.m_indexub.toList.take bd.m_dims)⟩

theorem BlockDescriptor.dims_bbx {bd : BlockDescriptor} (h : bd.m_dims ≤ 3) :
    bd.bbx.m_dims = bd.m_dims := by
  simp only [BBX.m_dims, bbx, List.length_zipWith, List.length_take, Array3.toList,
    List.length_cons, List.length_nil]
  omega

theorem BBX.ofIndex_eq_ok {bd : BlockDescriptor} {b : BBX} :
    BBX.ofIndex bd.m_dims bd.m_indexlb bd.m_indexub = .ok b ↔ bd.m_dims ≤ 3 ∧ b = bd.bbx := by
  unfold BBX.ofIndex DEFAULT_MAX_DIM BlockDescriptor.bbx
  by_cases h : 3 < bd.m_dims
  · simp [h]
  · simp [h, eq_comm, Nat.not_lt.mp h]

namespace MetaDataManager

open Peel

/-- The queue of `ifCovered` peels the query by the registered boxes. -/
theorem coverQueue_eq_ok {list : List BlockDescriptor} {k : Int} {queue rest : List BBX}
    (hq : ∀ c ∈ queue, c.m_status = k) :
    coverQueue list k queue = .ok rest ↔
      (∀ bd ∈ list, bd.m_dims ≤ 3) ∧
        peel BBX.cut queue (list.map BlockDescriptor.bbx) = .ok rest := by
  induction list generalizing k queue with
  | nil => simp [coverQueue, peel]
  | cons bd list ih =>
    rw [coverQueue, bind_eq_ok]
    simp only [List.map_cons, peel, bind_eq_ok, List.forall_mem_cons]
    have pass : coverLayer bd.bbx k (queue.length + 1) queue = layer BBX.cut bd.bbx queue := by
      have := coverLayer_eq bd.bbx k queue [] (queue.length + 1) (by omega) hq (by simp)
      rw [List.append_nil] at this
      rw [this]
      cases layer BBX.cut bd.bbx queue <;> rfl
    constructor
    · rintro ⟨b, hb, us, hus, h⟩
      obtain ⟨hd, rfl⟩ := BBX.ofIndex_eq_ok.mp hb
      rw [pass] at hus
      obtain ⟨hds, hp⟩ := (ih (layer_status hus hq)).mp h
      exact ⟨⟨hd, hds⟩, us, hus, hp⟩
    · rintro ⟨⟨hd, hds⟩, us, hus, hp⟩
      exact ⟨bd.bbx, BBX.ofIndex_eq_ok.mpr ⟨hd, rfl⟩, us, by rw [pass, hus],
        (ih (layer_status hus hq)).mpr ⟨hds, hp⟩⟩

theorem ifCovered_eq_true {list : List BlockDescriptor} {q : BBX} (hq : q.m_status = 0) :
    ifCovered list q = .ok true ↔
      (∀ bd ∈ list, bd.m_dims ≤ 3) ∧
        peel BBX.cut [q] (list.map BlockDescriptor.bbx) = .ok [] := by
  rw [← coverQueue_eq_ok (k := 0) (by simpa using hq), ifCovered, bind_eq_ok]
  constructor
  · rintro ⟨rest, hr, he⟩
    have : rest = [] := by simpa [pure, Except.pure] using he
    rwa [this] at hr
  · intro h
    exact ⟨[], h, rfl⟩

/-- A region the test accepts holds no probe that every registered block misses. -/
theorem ifCovered_sound {list : List BlockDescriptor} {q : BBX} (hq : q.m_status = 0)
    (h : ifCovered list q = .ok true) {ts : List Bound} (hp : q.Probe ts) :
    ∃ bd ∈ list, bd.bbx.HitsAll ts := by
  obtain ⟨_, hpeel⟩ := (ifCovered_eq_true hq).mp h
  obtain ⟨b, hb, hit⟩ := peel_covers BBX.cut_sound hpeel (List.mem_singleton_self q) hp
  obtain ⟨bd, hbd, rfl⟩ := List.mem_map.mp hb
  exact ⟨bd, hbd, hit⟩

/-- A first block that holds the whole region, or that an inverted region lies in, passes the
test. -/
theorem ifCovered_absorbed {bd : BlockDescriptor} {rest : List BlockDescriptor} {c : BBX}
    (hstatus : c.m_status = 0) (h3 : ∀ b ∈ bd :: rest, b.m_dims ≤ 3) (hdims : c.Dims)
    (h : c.Absorbed bd.bbx) : ifCovered (bd :: rest) c = .ok true := by
  obtain ⟨hit, he⟩ := BBX.Absorbed.hits_meet h
  have hcut : BBX.cut c bd.bbx = .ok [] := by
    refine bind_eq_ok.mpr ⟨_, BBX.getOverlapBBX_eq_ok.mpr ⟨hit.dims, hdims, rfl⟩, ?_⟩
    rw [if_pos hit]
    show (if (c.meet bd.bbx).equal c then _ else _) = _
    rw [if_pos (BBX.equal_iff.mpr he)]
    rfl
  rw [ifCovered_eq_true hstatus]
  refine ⟨h3, ?_⟩
  have first : layer BBX.cut bd.bbx [c] = .ok [] := by
    simp [layer, hcut, bind, Except.bind, pure, Except.pure]
  rw [List.map_cons, peel, first]
  exact peel_nothing _ _

/-- On one axis the split of a partly covered region is empty, so any block that meets the region
passes the test. -/
theorem ifCovered_line {bd : BlockDescriptor} {c : BBX} {x : Bound} (hstatus : c.m_status = 0)
    (h3 : bd.m_dims ≤ 3) (hc : c.BoundList = [x]) (hx : x.m_lb ≤ x.m_ub) (hit : c.Hits bd.bbx) :
    ifCovered [bd] c = .ok true := by
  obtain ⟨st, cs⟩ := c
  obtain rfl : st = 0 := hstatus
  obtain rfl : cs = [x] := hc
  have hdims : (⟨0, [x]⟩ : BBX).Dims := ⟨le_rfl, by simp [BBX.m_dims]⟩
  have hcut : BBX.cut ⟨0, [x]⟩ bd.bbx = .ok [] := by
    refine bind_eq_ok.mpr ⟨_, BBX.getOverlapBBX_eq_ok.mpr ⟨hit.dims, hdims, rfl⟩, ?_⟩
    rw [if_pos hit]
    show (if (BBX.meet ⟨0, [x]⟩ bd.bbx).equal ⟨0, [x]⟩ then _ else _) = _
    by_cases he : (BBX.meet ⟨0, [x]⟩ bd.bbx).equal ⟨0, [x]⟩ = true
    · rw [if_pos he]
      rfl
    · rw [if_neg he]
      obtain ⟨y, hy⟩ : ∃ y, bd.bbx.BoundList = [y] := List.length_eq_one_iff.mp hit.dims.symm
      have hm : BBX.meet ⟨0, [x]⟩ bd.bbx = ⟨0, [x.meet y]⟩ := by simp [BBX.meet, hy]
      have hxy : x.Hits y := by
        simp only [BBX.Hits, hy] at hit
        exact (List.forall₂_cons.mp hit).1
      have second : (⟨0, [x]⟩ : BBX).Hits ⟨0, [x.meet y]⟩ := by
        obtain ⟨_, _⟩ := hxy
        refine .cons ⟨?_, ?_⟩ .nil
        · simp only [Bound.meet]
          omega
        · simp only [Bound.meet]
          omega
      have hover := BBX.getOverlapBBX_eq_ok.mpr ⟨second.dims, hdims, by rw [if_pos second]⟩
      have hsplit : splitReduceBBX ⟨0, [x]⟩ ⟨0, [x.meet y]⟩ = .ok [] := by
        simp only [splitReduceBBX, BBX.m_dims, List.length_cons, ne_eq, not_true_eq_false, if_false]
        exact bind_eq_ok.mpr ⟨_, hover, rfl⟩
      rw [hm]
      exact bind_eq_ok.mpr ⟨[], hsplit, rfl⟩
  rw [ifCovered_eq_true rfl]
  refine ⟨by simpa using h3, ?_⟩
  simp [peel, layer, hcut, bind, Except.bind, pure, Except.pure]

end MetaDataManager

end Gorilla
