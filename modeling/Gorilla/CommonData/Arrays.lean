import Gorilla.CommonData.Names
import Gorilla.Lib.Runs
import Mathlib.Data.Finset.Card

/-!
# The arrays a block summary lists

Arrays are added one after the other to the fixed array of a summary. An array is listed and
counted before the limit is looked at.
-/

namespace Gorilla.Wire

open Runs

namespace ArraySummary

/-- The characters of the name. -/
def name (as : ArraySummary) : List UInt8 := data as.m_arrayName.toList

/-- The name ends inside its array. -/
def Named (as : ArraySummary) : Prop := 0 ∈ as.m_arrayName.toList

/-- The constructor makes no name that does not end. -/
theorem new_named {raw as : ArraySummary} {arrayName : List UInt8} {elemSize elemNum : UInt64}
    (made : new raw arrayName elemSize elemNum = .ok as) : as.Named := by
  unfold new at made
  split at made
  · cases made
  · obtain ⟨m_arrayName, copy, done⟩ := bind_eq_ok.mp made
    cases done
    exact strcpy_terminated copy

end ArraySummary

theorem strcmp_eq : ∀ {as bs : List UInt8}, 0 ∈ as → 0 ∈ bs →
    strcmp as bs = .ok (decide (data as = data bs))
  | [], _, h, _ => absurd h List.not_mem_nil
  | _ :: _, [], _, h => absurd h List.not_mem_nil
  | a :: as, b :: bs, ha, hb => by
    by_cases same : a = b
    · subst same
      by_cases stop : a = 0
      · simp [strcmp, stop, data]
      · have restA : 0 ∈ as := by simpa [Ne.symm stop] using ha
        have restB : 0 ∈ bs := by simpa [Ne.symm stop] using hb
        simp [strcmp, stop, strcmp_eq restA restB, data]
    · have apart : data (a :: as) ≠ data (b :: bs) := by
        by_cases stop : a = 0
        · simp [data, stop, show b ≠ 0 from fun h => same (stop.trans h.symm)]
        · by_cases stop' : b = 0 <;> simp [data, stop, stop', same]
      simp [strcmp, same, apart]

namespace BlockSummary

/-- The loops over the entries in use. -/
def search (arrayName : List UInt8) :
    Nat → List ArraySummary → Except Stop (Option ArraySummary)
  | 0, _ => .ok none
  | _ + 1, [] => .error (.undefined "read past the end of m_arrayList")
  | n + 1, as :: rest => do
    if ← strcmp as.m_arrayName.toList arrayName then return some as
    search arrayName n rest

def findArray (bs : BlockSummary) (arrayName : List UInt8) : Except Stop (Option ArraySummary) :=
  search arrayName bs.m_arrayListLen.toNat bs.m_arrayList.toList

def getArraySummary (bs : BlockSummary) (arrayName : List UInt8) : Except Stop ArraySummary := do
  match ← bs.findArray arrayName with
  | some as => return as
  | none => throw (.runtime_error ("failed to get ArraySummary: " ++ text (data arrayName)))

/-- The summary with one more entry. -/
def listing (bs : BlockSummary) (as : ArraySummary)
    (room : bs.m_arrayListLen.toNat < ARRAYLENINBLOCK) : BlockSummary :=
  { bs with
    m_arrayList := bs.m_arrayList.set bs.m_arrayListLen.toNat as room
    m_arrayListLen := bs.m_arrayListLen + 1 }

def addArraySummary (as : ArraySummary) : EStateM Stop BlockSummary Unit := fun bs =>
  match bs.findArray as.m_arrayName.toList with
  | .error e => .error e bs
  | .ok (some _) => .error (.runtime_error "failed to insert arraysummary, the name exist") bs
  | .ok none =>
    if room : bs.m_arrayListLen.toNat < ARRAYLENINBLOCK then
      let bs := bs.listing as room
      if 10 ≤ bs.m_arrayListLen then
        .error (.runtime_error ("the maximum array is " ++ toString ARRAYLENINBLOCK)) bs
      else .ok () bs
    else .error (.undefined "write past the end of m_arrayList") bs

/-- The entries in use. -/
def arrays (bs : BlockSummary) : List ArraySummary :=
  bs.m_arrayList.toList.take bs.m_arrayListLen.toNat

def names (bs : BlockSummary) : List (List UInt8) := bs.arrays.map ArraySummary.name

/-- No more entries than the array has, each with a name of its own. -/
structure Listed (bs : BlockSummary) : Prop where
  bounded : bs.m_arrayListLen.toNat ≤ ARRAYLENINBLOCK
  named : ∀ as ∈ bs.arrays, as.Named
  distinct : bs.names.Nodup

variable {bs : BlockSummary} {as : ArraySummary} {arrayName : List UInt8}

theorem search_eq (ends : 0 ∈ arrayName) : ∀ {n : Nat} {l : List ArraySummary}, n ≤ l.length →
    (∀ as ∈ l.take n, as.Named) →
      search arrayName n l = .ok ((l.take n).find? fun as => as.name == data arrayName)
  | 0, _, _, _ => by simp [search]
  | n + 1, [], le, _ => absurd le (by simp)
  | n + 1, as :: l, le, named => by
    have own : as.Named := named as (by simp)
    have rest := search_eq ends (Nat.le_of_succ_le_succ le) fun as' mem =>
      named as' (by rw [List.take_succ_cons]; exact List.mem_cons_of_mem _ mem)
    rw [search, strcmp_eq own ends, List.take_succ_cons, List.find?_cons]
    by_cases same : as.name = data arrayName
    · have same' : data as.m_arrayName.toList = data arrayName := same
      simp [same, same', bind, Except.bind, pure, Except.pure]
    · have apart : ¬ data as.m_arrayName.toList = data arrayName := same
      have skip : (as.name == data arrayName) = false := beq_eq_false_iff_ne.mpr same
      simp [skip, apart, rest, bind, Except.bind]

theorem findArray_eq (listed : bs.Listed) (ends : 0 ∈ arrayName) :
    bs.findArray arrayName = .ok (bs.arrays.find? fun as => as.name == data arrayName) :=
  search_eq ends (by simpa using listed.bounded) listed.named

@[simp] theorem length_arrays (listed : bs.Listed) :
    bs.arrays.length = bs.m_arrayListLen.toNat := by
  rw [arrays, List.length_take, Vector.length_toList, min_eq_left listed.bounded]

/-- The name of an entry finds that entry. -/
theorem getArraySummary_listed (listed : bs.Listed) (mem : as ∈ bs.arrays) :
    bs.getArraySummary as.m_arrayName.toList = .ok as := by
  have found : bs.arrays.find? (fun as' => as'.name == as.name) = some as := by
    obtain ⟨before, after, parts⟩ := List.append_of_mem mem
    have distinct := listed.distinct
    rw [names, parts, List.map_append, List.map_cons, List.nodup_append] at distinct
    rw [parts, List.find?_append, List.find?_cons_of_pos (by simp)]
    have none : before.find? (fun as' => as'.name == as.name) = none := by
      rw [List.find?_eq_none]
      intro as' mem' same
      exact distinct.2.2 _ (List.mem_map_of_mem mem') _ List.mem_cons_self (by simpa using same)
    rw [none]
    rfl
  unfold getArraySummary
  rw [findArray_eq listed (listed.named as mem), show data as.m_arrayName.toList = as.name from rfl,
    found]
  rfl

/-! ### One call -/

theorem toNat_listing (as : ArraySummary)
    (room : bs.m_arrayListLen.toNat < ARRAYLENINBLOCK) :
    (bs.listing as room).m_arrayListLen.toNat = bs.m_arrayListLen.toNat + 1 := by
  show (bs.m_arrayListLen + 1).toNat = _
  unfold ARRAYLENINBLOCK at room
  rw [UInt8.toNat_add]
  exact Nat.mod_eq_of_lt (by simp; omega)

theorem arrays_listing (as : ArraySummary)
    (room : bs.m_arrayListLen.toNat < ARRAYLENINBLOCK) :
    (bs.listing as room).arrays = bs.arrays ++ [as] := by
  have fits : bs.m_arrayListLen.toNat < bs.m_arrayList.toList.length := by simpa using room
  rw [arrays, toNat_listing]
  show (bs.m_arrayList.set bs.m_arrayListLen.toNat as room).toList.take _ = _
  rw [Vector.toList_set, List.take_add_one, List.take_set_of_le (Nat.le_refl _),
    List.getElem?_set_self fits]
  rfl

theorem names_listing (as : ArraySummary)
    (room : bs.m_arrayListLen.toNat < ARRAYLENINBLOCK) :
    (bs.listing as room).names = bs.names ++ [as.name] := by
  rw [names, arrays_listing, List.map_append]
  rfl

/-- A new name may be listed. -/
theorem Listed.listing (listed : bs.Listed) (named : as.Named) (new : as.name ∉ bs.names)
    (room : bs.m_arrayListLen.toNat < ARRAYLENINBLOCK) : (bs.listing as room).Listed where
  bounded := by
    rw [toNat_listing]
    exact room
  named := by
    intro as' mem
    rw [arrays_listing, List.mem_append, List.mem_singleton] at mem
    rcases mem with old | rfl
    · exact listed.named as' old
    · exact named
  distinct := by
    rw [names_listing, ← List.concat_eq_append]
    exact listed.distinct.concat new

theorem listing_ne (as : ArraySummary)
    (room : bs.m_arrayListLen.toNat < ARRAYLENINBLOCK) :
    bs.listing as room ≠ bs := by
  intro same
  have counted := toNat_listing as room
  rw [same] at counted
  omega

section Call
variable (listed : bs.Listed) (named : as.Named)

include listed named

/-- A name that is there is refused. -/
theorem addArraySummary_known (known : as.name ∈ bs.names) :
    addArraySummary as bs =
      .error (.runtime_error "failed to insert arraysummary, the name exist") bs := by
  obtain ⟨old, mem, same⟩ := List.mem_map.mp known
  have found : (bs.arrays.find? fun as' => as'.name == as.name).isSome :=
    List.find?_isSome.mpr ⟨old, mem, by simpa using same⟩
  obtain ⟨first, hfirst⟩ := Option.isSome_iff_exists.mp found
  have run : bs.findArray as.m_arrayName.toList = .ok (some first) :=
    (findArray_eq listed named).trans (congrArg Except.ok hfirst)
  simp only [addArraySummary, run]

/-- A new name is listed if there is room for it, and the call throws if that was the last. -/
theorem addArraySummary_new (new : as.name ∉ bs.names) :
    addArraySummary as bs =
      if room : bs.m_arrayListLen.toNat < ARRAYLENINBLOCK then
        if bs.m_arrayListLen.toNat + 1 < ARRAYLENINBLOCK then .ok () (bs.listing as room)
        else .error (.runtime_error ("the maximum array is " ++ toString ARRAYLENINBLOCK))
          (bs.listing as room)
      else .error (.undefined "write past the end of m_arrayList") bs := by
  have missing : (bs.arrays.find? fun as' => as'.name == as.name) = none := by
    rw [List.find?_eq_none]
    intro old mem same
    exact new (List.mem_map.mpr ⟨old, mem, by simpa using same⟩)
  have run : bs.findArray as.m_arrayName.toList = .ok none :=
    (findArray_eq listed named).trans (congrArg Except.ok missing)
  simp only [addArraySummary, run]
  by_cases room : bs.m_arrayListLen.toNat < ARRAYLENINBLOCK
  · rw [dif_pos room, dif_pos room]
    have counted := toNat_listing as room
    have full : 10 ≤ (bs.listing as room).m_arrayListLen ↔
        ¬ bs.m_arrayListLen.toNat + 1 < ARRAYLENINBLOCK := by
      rw [UInt8.le_iff_toNat_le, counted, Nat.not_lt]
      rfl
    by_cases last : bs.m_arrayListLen.toNat + 1 < ARRAYLENINBLOCK
    · rw [if_pos last, if_neg (by rw [full]; exact not_not.mpr last)]
    · rw [if_neg last, if_pos (full.mpr last)]
  · rw [dif_neg room, dif_neg room]

end Call

/-! ### The list behind the array -/

theorem text_injective : Function.Injective text := by
  have byte (c : UInt8) : (Char.ofNat c.toNat).toNat = c.toNat := by
    have lt := c.toNat_lt
    have valid : c.toNat.isValidChar := .inl (by omega)
    rw [Char.ofNat, dif_pos valid]
    rfl
  have chars : Function.Injective fun c : UInt8 => Char.ofNat c.toNat := by
    intro a b same
    have nats := congrArg Char.toNat same
    simp only [byte] at nats
    exact UInt8.toNat_inj.mp nats
  intro a b same
  exact List.map_injective_iff.mpr chars (String.ofList_injective same)

/-- The result over the part of a summary that handlers read. -/
def overSummary {α : Type} :
    EStateM.Result Stop BlockSummary α → EStateM.Result Stop Gorilla.BlockSummary α
  | .ok a bs => .ok a bs.summary
  | .error e bs => .error e bs.summary

theorem summary_listing (as : ArraySummary)
    (room : bs.m_arrayListLen.toNat < ARRAYLENINBLOCK) :
    (bs.listing as room).summary =
      { bs.summary with m_arrayList := bs.summary.m_arrayList ++ [as.summary] } := by
  have arrays := congrArg (List.map ArraySummary.summary) (arrays_listing as room)
  rw [List.map_append] at arrays
  exact congrArg (fun l => { bs.summary with m_arrayList := l }) arrays

theorem findArray_summary (bs : BlockSummary) (as : ArraySummary) :
    (bs.summary.findArray as.summary.m_arrayName).isSome = decide (as.name ∈ bs.names) := by
  rw [Bool.eq_iff_iff, decide_eq_true_iff, names, List.mem_map]
  show (List.find? _ (bs.arrays.map ArraySummary.summary)).isSome ↔ _
  rw [List.find?_isSome]
  constructor
  · rintro ⟨_, mem, same⟩
    obtain ⟨old, mem', rfl⟩ := List.mem_map.mp mem
    exact ⟨old, mem', text_injective (beq_iff_eq.mp same)⟩
  · rintro ⟨old, mem, same⟩
    exact ⟨old.summary, List.mem_map_of_mem mem, beq_iff_eq.mpr (congrArg text same)⟩

/-- What the call does to the array, it does to the list of the entries in use. -/
theorem addArraySummary_summary (listed : bs.Listed) (named : as.Named) :
    overSummary (addArraySummary as bs) =
      Gorilla.BlockSummary.addArraySummary bs.summary as.summary bs.summary := by
  have find := findArray_summary bs as
  have count : bs.summary.m_arrayListLen = bs.m_arrayListLen.toNat :=
    (List.length_map _).trans (length_arrays listed)
  unfold Gorilla.BlockSummary.addArraySummary
  rw [find, count]
  by_cases known : as.name ∈ bs.names
  · rw [addArraySummary_known listed named known, decide_eq_true known]
    rfl
  · rw [addArraySummary_new listed named known, decide_eq_false known]
    by_cases room : bs.m_arrayListLen.toNat < ARRAYLENINBLOCK
    · have list := summary_listing as room
      rw [dif_pos room, if_neg (Nat.not_le.mpr room), ← list]
      by_cases last : bs.m_arrayListLen.toNat + 1 < ARRAYLENINBLOCK
      · rw [if_pos last, if_neg (Nat.not_le.mpr last)]
        rfl
      · rw [if_neg last, if_pos (Nat.not_lt.mp last)]
        rfl
    · rw [dif_neg room, if_pos (Nat.not_lt.mp room)]
      rfl

/-! ### What the constructor lists -/

theorem counted_iff {arrayList : List ArraySummary} : Counted arrayList ↔
    0 ≤ arrayListSize arrayList ∧ arrayListSize arrayList ≤ (ARRAYLENINBLOCK : Int) := by
  have low : -(2 ^ 31 : Int) ≤ arrayListSize arrayList := by
    have le := @Int.le_bmod arrayList.length (2 ^ 32) (by decide)
    unfold arrayListSize sizeToInt
    omega
  have high : arrayListSize arrayList < (2 ^ 31 : Int) := by
    have lt := @Int.bmod_lt arrayList.length (2 ^ 32) (by decide)
    unfold arrayListSize sizeToInt
    omega
  have small : (arrayListSize arrayList % 2 ^ 64).toNat < 2 ^ 64 := by omega
  rw [Counted, size_t, UInt64.toNat_ofNat_of_lt' small]
  unfold ARRAYLENINBLOCK
  omega

theorem arrays_new {raw : BlockSummary} {arrayList : List ArraySummary}
    {dataType blockid extraInfo : List UInt8} {dims : UInt64} {indexlb indexub : Array3 Int32}
    (built : new raw arrayList dataType blockid dims indexlb indexub extraInfo = .ok bs) :
    bs.m_arrayListLen.toNat ≤ ARRAYLENINBLOCK ∧
      bs.arrays = arrayList.take (arrayListSize arrayList).toNat := by
  have count : Counted arrayList := by
    by_contra uncounted
    obtain ⟨what, thrown⟩ := new_uncounted raw dataType blockid extraInfo dims indexlb indexub
      uncounted
    rw [thrown] at built
    cases built
  obtain ⟨positive, bounded⟩ := counted_iff.mp count
  have short : (arrayListSize arrayList).toNat ≤ arrayList.length := by
    have le := sizeToInt_le arrayList.length
    unfold arrayListSize
    omega
  have small : (arrayListSize arrayList).toNat ≤ ARRAYLENINBLOCK := Int.toNat_le.mpr bounded
  have len : (arrayListSize arrayList).toNat.toUInt8.toNat = (arrayListSize arrayList).toNat :=
    UInt8.toNat_ofNat_of_lt' (small.trans_lt (by decide))
  unfold new at built
  rw [if_neg (Nat.not_lt.mpr count)] at built
  split_ifs at built
  simp only [bind_eq_ok] at built
  obtain ⟨_, _, _, _, _, _, made⟩ := built
  cases made
  rw [arrays, len]
  refine ⟨small, ?_⟩
  generalize (arrayListSize arrayList).toNat = n at *
  apply List.ext_getElem
  · simp [short, small]
  · intro i hi _
    have hn : i < n := by simpa [small] using hi
    simp [hn, Nat.lt_of_lt_of_le hn short]

/-- The constructor lists the arrays it is given. -/
theorem listed_new {raw : BlockSummary} {arrayList : List ArraySummary}
    {dataType blockid extraInfo : List UInt8} {dims : UInt64} {indexlb indexub : Array3 Int32}
    (built : new raw arrayList dataType blockid dims indexlb indexub extraInfo = .ok bs)
    (named : ∀ as ∈ arrayList, as.Named)
    (distinct : (arrayList.map ArraySummary.name).Nodup) : bs.Listed := by
  obtain ⟨bounded, arrays⟩ := arrays_new built
  refine ⟨bounded, ?_, ?_⟩
  · intro as mem
    rw [arrays] at mem
    exact named as (List.mem_of_mem_take mem)
  · rw [names, arrays, List.map_take]
    exact distinct.sublist (List.take_sublist _ _)

end BlockSummary

/-! ## Calls one after the other -/

/-- A summary and the arrays it was to take over: those of the constructor, and those whose call
returned. -/
structure Calls where
  summary : BlockSummary
  accepted : List ArraySummary

namespace Calls

/-- The next call. A summary is used on after an exception. -/
def add (as : ArraySummary) (s : Calls) : Except Stop Calls :=
  match s.summary.addArraySummary as with
  | .ok _ summary => .ok ⟨summary, s.accepted ++ [as]⟩
  | .error (.runtime_error _) summary => .ok ⟨summary, s.accepted⟩
  | .error stop _ => .error stop

/-- What holds between the calls. -/
structure Sound (s : Calls) : Prop where
  bounded : s.summary.m_arrayListLen.toNat ≤ ARRAYLENINBLOCK
  distinct : s.summary.names.Nodup
  found : ∀ as ∈ s.accepted, s.summary.getArraySummary as.m_arrayName.toList = .ok as

/-- What holds of a call: it writes inside the array, it leaves the summary alone if it throws,
and it takes a new name as long as the array has room. -/
structure Lawful (as : ArraySummary) (s : Calls) : Prop where
  inside : ∀ what summary, s.summary.addArraySummary as ≠ .error (.undefined what) summary
  atomic : ∀ what summary,
    s.summary.addArraySummary as = .error (.runtime_error what) summary → summary = s.summary
  accepts : as.name ∉ s.summary.names → s.summary.m_arrayListLen.toNat < ARRAYLENINBLOCK →
    ∃ summary, s.summary.addArraySummary as = .ok () summary

/-- No call brings a new name, or the names there are and those to come are fewer than the array
can hold. -/
def Room (bs : BlockSummary) (calls : List ArraySummary) : Prop :=
  (∀ as ∈ calls, as.name ∈ bs.names) ∨
    (bs.names ++ calls.map ArraySummary.name).toFinset.card < ARRAYLENINBLOCK

instance (bs : BlockSummary) (calls : List ArraySummary) : Decidable (Room bs calls) :=
  inferInstanceAs (Decidable (_ ∨ _))

/-- The summary is well formed, and lists all arrays it took over. -/
structure Inv (s : Calls) : Prop where
  listed : s.summary.Listed
  accepted : ∀ as ∈ s.accepted, as ∈ s.summary.arrays

variable {s : Calls} {as : ArraySummary} {calls : List ArraySummary}

theorem Inv.sound (h : s.Inv) : s.Sound where
  bounded := h.listed.bounded
  distinct := h.listed.distinct
  found := fun as mem => BlockSummary.getArraySummary_listed h.listed (h.accepted as mem)

section Call
variable (h : s.Inv) (named : as.Named)

include h named

theorem add_known (known : as.name ∈ s.summary.names) : add as s = .ok s ∧ s.Lawful as := by
  have run := BlockSummary.addArraySummary_known h.listed named known
  refine ⟨by simp only [add, run], ?_, ?_, ?_⟩
  · intro what summary stop
    rw [run] at stop
    cases stop
  · intro what summary thrown
    rw [run] at thrown
    cases thrown
    rfl
  · exact fun new => absurd known new

/-- The last place is taken by a call that throws. -/
theorem lawful_new (new : as.name ∉ s.summary.names) :
    s.Lawful as ↔ s.summary.m_arrayListLen.toNat + 1 < ARRAYLENINBLOCK := by
  have run := BlockSummary.addArraySummary_new h.listed named new
  by_cases room : s.summary.m_arrayListLen.toNat < ARRAYLENINBLOCK
  · rw [dif_pos room] at run
    by_cases last : s.summary.m_arrayListLen.toNat + 1 < ARRAYLENINBLOCK
    · rw [if_pos last] at run
      refine iff_of_true ⟨?_, ?_, fun _ _ => ⟨_, run⟩⟩ last
      · intro what summary stop
        rw [run] at stop
        cases stop
      · intro what summary thrown
        rw [run] at thrown
        cases thrown
    · rw [if_neg last] at run
      refine iff_of_false (fun lawful => ?_) last
      exact BlockSummary.listing_ne as room (lawful.atomic _ _ run)
  · rw [dif_neg room] at run
    exact iff_of_false (fun lawful => lawful.inside _ _ run) (by omega)

theorem add_new (new : as.name ∉ s.summary.names)
    (last : s.summary.m_arrayListLen.toNat + 1 < ARRAYLENINBLOCK) :
    ∃ t, add as s = .ok t ∧ t.Inv ∧ t.summary.names = s.summary.names ++ [as.name] := by
  have room : s.summary.m_arrayListLen.toNat < ARRAYLENINBLOCK := by omega
  have run := BlockSummary.addArraySummary_new h.listed named new
  rw [dif_pos room, if_pos last] at run
  refine ⟨⟨s.summary.listing as room, s.accepted ++ [as]⟩, by simp only [add, run], ?_,
    BlockSummary.names_listing as room⟩
  refine ⟨h.listed.listing named new room, fun as' mem => ?_⟩
  show as' ∈ (s.summary.listing as room).arrays
  rw [BlockSummary.arrays_listing, List.mem_append]
  exact (List.mem_append.mp mem).imp_left (h.accepted as')

end Call

/-! ### Room for the names to come -/

theorem room_known (known : as.name ∈ s.summary.names) :
    Room s.summary (as :: calls) ↔ Room s.summary calls := by
  have same : (s.summary.names ++ (as :: calls).map ArraySummary.name).toFinset =
      (s.summary.names ++ calls.map ArraySummary.name).toFinset := by
    ext n
    simp only [List.mem_toFinset, List.mem_append, List.map_cons, List.mem_cons]
    constructor
    · rintro (old | rfl | new)
      · exact .inl old
      · exact .inl known
      · exact .inr new
    · exact Or.imp_right .inr
  unfold Room
  rw [same, List.forall_mem_cons, and_iff_right known]

theorem room_new {t : Calls} (new : as.name ∉ s.summary.names)
    (names : t.summary.names = s.summary.names ++ [as.name])
    (last : s.summary.names.length + 1 < ARRAYLENINBLOCK) :
    Room s.summary (as :: calls) ↔ Room t.summary calls := by
  have same : (t.summary.names ++ calls.map ArraySummary.name).toFinset =
      (s.summary.names ++ (as :: calls).map ArraySummary.name).toFinset := by
    rw [names, List.append_assoc]
    rfl
  unfold Room
  rw [same]
  constructor
  · rintro (old | few)
    · exact absurd (old as List.mem_cons_self) new
    · exact .inr few
  · rintro (old | few)
    · -- the names to come are all there, so there are as many as are listed
      right
      have all : (t.summary.names ++ calls.map ArraySummary.name).toFinset =
          t.summary.names.toFinset := by
        ext n
        simp only [List.mem_toFinset, List.mem_append, List.mem_map]
        constructor
        · rintro (here | ⟨as', mem, rfl⟩)
          · exact here
          · exact old as' mem
        · exact .inl
      rw [← same, all, names]
      refine (List.toFinset_card_le _).trans_lt ?_
      simpa using last
    · exact .inr few

/-- Names that are listed and one more take as many places. -/
theorem not_room (distinct : s.summary.names.Nodup) (new : as.name ∉ s.summary.names)
    (full : ARRAYLENINBLOCK ≤ s.summary.names.length + 1) : ¬ Room s.summary (as :: calls) := by
  rintro (old | few)
  · exact new (old as List.mem_cons_self)
  · have more : (s.summary.names ++ [as.name]).toFinset ⊆
        (s.summary.names ++ (as :: calls).map ArraySummary.name).toFinset := by
      intro n mem
      simp only [List.mem_toFinset, List.mem_append, List.mem_singleton] at mem
      simp only [List.mem_toFinset, List.mem_append, List.map_cons, List.mem_cons]
      exact mem.imp_right .inl
    have nodup : (s.summary.names ++ [as.name]).Nodup := by
      rw [← List.concat_eq_append]
      exact distinct.concat new
    have card := Finset.card_le_card more
    rw [List.toFinset_card_of_nodup nodup, List.length_append, List.length_singleton] at card
    omega

theorem throughout_iff_room (h : s.Inv) (named : ∀ as ∈ calls, as.Named) :
    Throughout Sound (fun as s => s.Lawful as) add calls s ↔ Room s.summary calls := by
  induction calls generalizing s with
  | nil => exact iff_of_true (throughout_nil.mpr h.sound) (.inl nofun)
  | cons as calls ih =>
    obtain ⟨own, later⟩ := List.forall_mem_cons.mp named
    rw [throughout_cons, and_iff_right h.sound]
    by_cases known : as.name ∈ s.summary.names
    · obtain ⟨step, lawful⟩ := add_known h own known
      rw [and_iff_right lawful, step, room_known known, ← ih h later]
      simp
    · have count : s.summary.names.length = s.summary.m_arrayListLen.toNat := by
        rw [BlockSummary.names, List.length_map, BlockSummary.length_arrays h.listed]
      rw [lawful_new h own known]
      by_cases last : s.summary.m_arrayListLen.toNat + 1 < ARRAYLENINBLOCK
      · obtain ⟨t, step, inv, names⟩ := add_new h own known last
        rw [and_iff_right last, step,
          room_new known names (count ▸ last), ← ih inv later]
        simp
      · have full : ARRAYLENINBLOCK ≤ s.summary.names.length + 1 := by omega
        exact iff_of_false (fun rest => last rest.1) (not_room h.listed.distinct known full)

end Calls

/-- Arrays are added in bounds, and by calls that return or change nothing, as long as the tenth
place is not asked for. -/
theorem addArraySummary_throughout_iff {raw bs : BlockSummary} {arrayList : List ArraySummary}
    {dataType blockid extraInfo : List UInt8} {dims : UInt64} {indexlb indexub : Array3 Int32}
    (built : BlockSummary.new raw arrayList dataType blockid dims indexlb indexub extraInfo =
      .ok bs)
    (named : ∀ as ∈ arrayList, as.Named) (distinct : (arrayList.map ArraySummary.name).Nodup)
    {calls : List ArraySummary} (callsNamed : ∀ as ∈ calls, as.Named) :
    Throughout Calls.Sound (fun as s => s.Lawful as) Calls.add calls ⟨bs, bs.arrays⟩ ↔
      Calls.Room bs calls := by
  have listed := BlockSummary.listed_new built named distinct
  exact Calls.throughout_iff_room ⟨listed, fun _ mem => mem⟩ callsNamed

/-- Eight bytes under a name of one character. -/
def letter (c : UInt8) : ArraySummary where
  m_arrayName := (Vector.replicate STRLENLONG 0).set 0 c (by decide)
  m_elemSize := 8
  m_elemNum := 1

theorem letter_toList (c : UInt8) :
    (letter c).m_arrayName.toList = c :: 0 :: List.replicate 126 0 := by
  rw [letter, Vector.toList_set, Vector.toList_replicate]
  rfl

theorem letter_named (c : UInt8) : (letter c).Named := by
  rw [ArraySummary.Named, letter_toList]
  exact List.mem_cons_of_mem _ List.mem_cons_self

theorem letter_name {c : UInt8} (text : c ≠ 0) : (letter c).name = [c] := by
  rw [ArraySummary.name, letter_toList]
  exact data_append (s := [c]) (by simpa using text.symm) _

/-- A summary that lists no array yet. -/
theorem exists_empty : ∃ bs, BlockSummary.new RawMemory.zeros.blockSummary [] [67] [109] 3
    ⟨0, 0, 0⟩ ⟨0, 0, 0⟩ [] = .ok bs ∧ bs.names = [] ∧ bs.arrays = [] := by
  have count : BlockSummary.Counted [] := by decide
  have fit : BlockSummary.Fit [67] [109] [] := by decide
  obtain ⟨bs, built, _⟩ := BlockSummary.new_fit RawMemory.zeros.blockSummary 3 ⟨0, 0, 0⟩ ⟨0, 0, 0⟩
    (by decide) (by decide) (by decide) count fit
  have arrays := (BlockSummary.arrays_new built).2
  rw [List.take_nil] at arrays
  exact ⟨bs, built, by rw [BlockSummary.names, arrays]; rfl, arrays⟩

/-- Two arrays are added, the second a second time. -/
theorem twoLetters_added : ∃ bs, BlockSummary.new RawMemory.zeros.blockSummary [] [67] [109] 3
    ⟨0, 0, 0⟩ ⟨0, 0, 0⟩ [] = .ok bs ∧
      Throughout Calls.Sound (fun as s => s.Lawful as) Calls.add
        ([97, 98, 98].map letter) ⟨bs, bs.arrays⟩ := by
  obtain ⟨bs, built, names, _⟩ := exists_empty
  refine ⟨bs, built, (addArraySummary_throughout_iff built nofun List.nodup_nil ?_).mpr (.inr ?_)⟩
  · intro as mem
    obtain ⟨c, _, rfl⟩ := List.mem_map.mp mem
    exact letter_named c
  · rw [names]
    simp only [List.map_cons, List.map_nil, List.nil_append]
    rw [letter_name (by decide), letter_name (by decide)]
    decide

/-- The tenth array is listed by a call that throws. -/
theorem tenthLetter_throws :
    ¬ ∀ (raw bs : BlockSummary) (arrayList : List ArraySummary)
      (dataType blockid extraInfo : List UInt8) (dims : UInt64) (indexlb indexub : Array3 Int32)
      (calls : List ArraySummary),
      BlockSummary.new raw arrayList dataType blockid dims indexlb indexub extraInfo = .ok bs →
      (∀ as ∈ arrayList, as.Named) → (arrayList.map ArraySummary.name).Nodup →
      (∀ as ∈ calls, as.Named) →
      Throughout Calls.Sound (fun as s => s.Lawful as) Calls.add calls ⟨bs, bs.arrays⟩ := by
  intro all
  obtain ⟨bs, built, names, arrays⟩ := exists_empty
  let letters : List UInt8 := [97, 98, 99, 100, 101, 102, 103, 104, 105, 106]
  have named : ∀ as ∈ letters.map letter, as.Named := by
    intro as mem
    obtain ⟨c, _, rfl⟩ := List.mem_map.mp mem
    exact letter_named c
  have throughout := all _ bs [] _ _ _ _ _ _ _ built nofun List.nodup_nil named
  have listed : bs.Listed := BlockSummary.listed_new built nofun List.nodup_nil
  have room := (Calls.throughout_iff_room ⟨listed, fun _ mem => mem⟩ named).mp throughout
  have own : (letters.map letter).map ArraySummary.name = letters.map fun c => [c] := by
    rw [List.map_map]
    exact List.map_congr_left fun c mem =>
      letter_name fun zero => absurd (zero ▸ mem) (by decide)
  rcases room with old | few
  · have here := old (letter 97) List.mem_cons_self
    rw [names] at here
    cases here
  · have few' : (bs.names ++ (letters.map letter).map ArraySummary.name).toFinset.card <
        ARRAYLENINBLOCK := few
    rw [names, own] at few'
    revert few'
    decide

end Gorilla.Wire
