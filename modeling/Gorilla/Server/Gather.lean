import Gorilla.Server.UniServer
import Gorilla.Utils.StringTool

/-!
# Gathering the addresses of the servers

Every rank sends its address between two marks in a slot of fixed length. The slots are
gathered and broadcast, and each rank scans them for addresses.
-/

namespace Gorilla

open Marked

def msgPaddingLen : Nat := 200

/-- One rank, with the memory `malloc` gives its slot. -/
structure Rank where
  endpoint : String
  malloced : List Char
  named : endpoint ≠ ""
  size : malloced.length = msgPaddingLen

namespace Rank

/-- `sprintf(sendipStr, "H%sE", endpoint.c_str())` -/
def marked (r : Rank) : List Char := 'H' :: (cstr r.endpoint.toList ++ ['E', '\x00'])

/-- What was in the memory stays behind the text. -/
def sendipStr (r : Rank) : Except Stop (List Char) :=
  if msgPaddingLen < r.endpoint.length then
    .error (.runtime_error
      "current addr is longer than msgPaddingLen, reset the addr buffer to make it larger")
  else if msgPaddingLen < r.marked.length then
    .error (.undefined "sprintf past the end of sendipStr")
  else
    .ok (r.marked ++ r.malloced.drop r.marked.length)

/-- The part of the slot that is never written. -/
def padding (r : Rank) : List Char := r.malloced.drop (r.endpoint.length + 3)

end Rank

/-- `MPI_Gather` to the first rank, and `MPI_Bcast` of what it has. -/
def rcvString (ranks : List Rank) : Except Stop (List Char) := do
  let slots ← ranks.mapM Rank.sendipStr
  return slots.flatten

/-- What one rank does with the slots of all. -/
def gatherIP (ranks : List Rank) (globalRank : Int) (endpoint : String) (m : AddrManager) :
    Except Stop AddrManager := do
  let slots ← rcvString ranks
  let _ ← int (msgPaddingLen * ranks.length)
  let ipList ← IPTOOL.split slots 'H' 'E'
  return { m with
    ifMaster := globalRank = 0 || m.ifMaster
    nodeAddr := endpoint
    m_endPointsLists := m.m_endPointsLists ++ ipList }

namespace Rank

variable {r : Rank} {ranks : List Rank} {padding s : List Char}

/-- Neither the closing mark nor a zero is part of the address. -/
def Unmarked (r : Rank) : Prop := 'E' ∉ r.endpoint.toList ∧ '\x00' ∉ r.endpoint.toList

/-- A slot as the receivers see it. -/
def slot (r : Rank) : List Char :=
  'H' :: (r.endpoint.toList ++ 'E' :: '\x00' :: r.padding)

theorem endpoint_ne (r : Rank) : r.endpoint.toList ≠ [] := fun empty =>
  r.named (String.toList_eq_nil_iff.mp empty)

theorem cstr_of_notMem {s : List Char} (h : '\x00' ∉ s) : cstr s = s := (span_of_notMem h).1

theorem sendipStr_eq_ok (unmarked : r.Unmarked) : r.sendipStr = .ok s ↔
    r.endpoint.length + 3 ≤ msgPaddingLen ∧ s = r.slot := by
  have size : r.marked.length = r.endpoint.length + 3 := by
    rw [marked, cstr_of_notMem unmarked.2]
    simp [String.length_toList]
  have text : r.marked ++ r.malloced.drop r.marked.length = r.slot := by
    rw [size, marked, cstr_of_notMem unmarked.2, slot, padding]
    simp
  unfold sendipStr
  rw [text, size]
  split
  · simp
    omega
  · split
    · simp
      omega
    · simp [eq_comm]
      omega

/-- An address that is sent is read, and what follows it goes on behind its padding. -/
theorem words_slot (unmarked : r.Unmarked) (s : List Char) :
    words 'H' 'E' (r.slot ++ s) = r.endpoint.toList :: words 'H' 'E' (r.padding ++ s) := by
  have split : r.slot ++ s =
      'H' :: (r.endpoint.toList ++ 'E' :: ('\x00' :: (r.padding ++ s))) := by
    rw [slot]
    simp
  have zero : words 'H' 'E' (['\x00'] ++ (r.padding ++ s)) = words 'H' 'E' (r.padding ++ s) :=
    words_skip (by decide) _
  rw [split, words_word unmarked.1, emit_of_ne r.endpoint_ne]
  exact congrArg (r.endpoint.toList :: ·) zero

/-- A slot whose opening mark is taken for a part of a word that began before it. -/
theorem words_merged (unmarked : r.Unmarked) {t : List Char} (inside : 'E' ∉ t) (s : List Char) :
    words 'H' 'E' ('H' :: (t ++ (r.slot ++ s))) =
      (t ++ 'H' :: r.endpoint.toList) :: words 'H' 'E' (r.padding ++ s) := by
  have split : 'H' :: (t ++ (r.slot ++ s)) =
      'H' :: ((t ++ 'H' :: r.endpoint.toList) ++ 'E' :: ('\x00' :: (r.padding ++ s))) := by
    rw [slot]
    simp
  have zero : words 'H' 'E' (['\x00'] ++ (r.padding ++ s)) = words 'H' 'E' (r.padding ++ s) :=
    words_skip (by decide) _
  have inside' : 'E' ∉ t ++ 'H' :: r.endpoint.toList := by
    rw [List.mem_append, List.mem_cons]
    rintro (mem | mark | mem)
    · exact inside mem
    · exact absurd mark (by decide)
    · exact unmarked.1 mem
  rw [split, words_word inside', emit_of_ne (by simp)]
  exact congrArg ((t ++ 'H' :: r.endpoint.toList) :: ·) zero

/-- Padding in front of a slot is quiet, has a word of its own, or takes the slot's mark. -/
theorem padding_cases (unmarked : r.Unmarked) (padding s : List Char) :
    (Quiet 'H' 'E' padding ∧ words 'H' 'E' (padding ++ (r.slot ++ s)) =
      r.endpoint.toList :: words 'H' 'E' (r.padding ++ s)) ∨
    (∃ t after, after.length < padding.length ∧ words 'H' 'E' (padding ++ (r.slot ++ s)) =
      t :: words 'H' 'E' (after ++ (r.slot ++ s))) ∨
    ∃ before t, padding = before ++ 'H' :: t ∧ Quiet 'H' 'E' before ∧ 'E' ∉ t ∧
      words 'H' 'E' (padding ++ (r.slot ++ s)) =
        (t ++ 'H' :: r.endpoint.toList) :: words 'H' 'E' (r.padding ++ s) := by
  rcases quiet_or_word (by decide : 'H' ≠ 'E') padding with
    quiet | ⟨before, t, after, rfl, quiet, some, inside⟩ | ⟨before, t, rfl, quiet, inside⟩
  · exact .inl ⟨quiet, (words_quiet quiet _).trans (words_slot unmarked s)⟩
  · refine .inr (.inl ⟨t, after, by simp; omega, ?_⟩)
    rw [List.append_assoc, words_quiet quiet, List.cons_append, List.append_assoc,
      List.cons_append, words_word inside, emit_of_ne some]
    rfl
  · refine .inr (.inr ⟨before, t, rfl, quiet, inside, ?_⟩)
    rw [List.append_assoc, words_quiet quiet, List.cons_append]
    exact words_merged unmarked inside s

/-- Every slot gives at least one word. -/
theorem length_le_words (unmarked : ∀ r ∈ ranks, r.Unmarked) (padding : List Char) :
    ranks.length ≤ (words 'H' 'E' (padding ++ ranks.flatMap slot)).length := by
  induction ranks generalizing padding with
  | nil => exact Nat.zero_le _
  | cons r ranks ih =>
    have rest := ih (fun r' mem => unmarked r' (List.mem_cons_of_mem r mem)) r.padding
    rw [List.flatMap_cons]
    induction hn : padding.length using Nat.strongRecOn generalizing padding with
    | ind n more =>
      rcases padding_cases (unmarked r (List.mem_cons_self ..)) padding (ranks.flatMap slot) with
        ⟨_, same⟩ | ⟨t, after, shorter, same⟩ | ⟨_, t, _, _, _, same⟩
      · rw [same]
        exact Nat.succ_le_succ rest
      · rw [same]
        exact (more after.length (hn ▸ shorter) after rfl).trans (Nat.le_succ _)
      · rw [same]
        exact Nat.succ_le_succ rest

/-- The mark at the end of some padding is forgiven when the word it starts reads as the next
address, or is empty. -/
def Forgiven (t : List Char) : Option Rank → Prop
  | none => t = []
  | some r => (∃ t', t = r.endpoint.toList ++ '\x00' :: t') ∧ t.length + 1 + r.endpoint.length < 100

/-- The padding in front of a slot, or at the end, adds no address and spoils none. -/
def Harmless (padding : List Char) (next : Option Rank) : Prop :=
  Quiet 'H' 'E' padding ∨
    ∃ before t, padding = before ++ 'H' :: t ∧ Quiet 'H' 'E' before ∧ 'E' ∉ t ∧ Forgiven t next

def Paddings : List Rank → Prop
  | [] => True
  | r :: ranks => Harmless r.padding ranks.head? ∧ Paddings ranks

/-- The scanner reads the addresses of the slots behind the padding. -/
def Reads (padding : List Char) (ranks : List Rank) : Prop :=
  (∀ token ∈ words 'H' 'E' (padding ++ ranks.flatMap slot), token.length < 100) ∧
    (words 'H' 'E' (padding ++ ranks.flatMap slot)).map cstr = ranks.map (·.endpoint.toList)

theorem cstr_zero {t : List Char} (h : '\x00' ∉ t) (s : List Char) :
    cstr (t ++ '\x00' :: s) = t := by
  have all : ∀ c ∈ t, decide (c ≠ '\x00') = true := fun c mem =>
    decide_eq_true fun same => h (same ▸ mem)
  rw [cstr, List.takeWhile_append_of_pos all]
  simp

/-- A longer word reads as the address only up to a zero. -/
theorem cstr_merged (unmarked : r.Unmarked) {t : List Char} :
    cstr (t ++ 'H' :: r.endpoint.toList) = r.endpoint.toList ↔
      ∃ t', t = r.endpoint.toList ++ '\x00' :: t' := by
  constructor
  · intro h
    by_cases zero : '\x00' ∈ t
    · obtain ⟨before, after, rfl, first⟩ := List.eq_append_cons_of_mem zero
      rw [List.append_assoc, List.cons_append, cstr_zero first] at h
      exact ⟨after, by rw [h]⟩
    · have clean : '\x00' ∉ t ++ 'H' :: r.endpoint.toList := by
        rw [List.mem_append, List.mem_cons]
        rintro (mem | mark | mem)
        · exact zero mem
        · exact absurd mark (by decide)
        · exact unmarked.2 mem
      rw [cstr_of_notMem clean] at h
      have long := congrArg List.length h
      rw [List.length_append, List.length_cons] at long
      omega
  · rintro ⟨t', rfl⟩
    rw [List.append_assoc, List.cons_append]
    exact cstr_zero unmarked.2 _

theorem reads_nil (padding : List Char) : Reads padding [] ↔ Harmless padding none := by
  have all : padding ++ ([] : List Rank).flatMap slot = padding := List.append_nil padding
  unfold Reads
  rw [all]
  constructor
  · rintro ⟨_, none⟩
    have empty : words 'H' 'E' padding = [] := List.map_eq_nil_iff.mp none
    rcases quiet_or_word (by decide : 'H' ≠ 'E') padding with
      quiet | ⟨before, t, after, rfl, quiet, some, inside⟩ | ⟨before, t, rfl, quiet, inside⟩
    · exact .inl quiet
    · rw [words_quiet quiet, words_word inside, emit_of_ne some] at empty
      cases empty
    · rw [words_quiet quiet, words_open inside] at empty
      refine .inr ⟨before, t, rfl, quiet, inside, ?_⟩
      by_contra some
      rw [emit_of_ne some] at empty
      cases empty
  · intro h
    have empty : words 'H' 'E' padding = [] := by
      rcases h with quiet | ⟨before, t, rfl, quiet, inside, rfl⟩
      · have skipped := words_quiet quiet []
        rwa [List.append_nil] at skipped
      · rw [words_quiet quiet, words_open inside]
        rfl
    rw [empty]
    exact ⟨fun _ mem => (List.not_mem_nil mem).elim, rfl⟩

theorem reads_cons (unmarked : ∀ r' ∈ r :: ranks, r'.Unmarked) (padding : List Char) :
    Reads padding (r :: ranks) ↔
      Harmless padding (some r) ∧ r.endpoint.length < 100 ∧ Reads r.padding ranks := by
  have own := unmarked r (List.mem_cons_self ..)
  have size : r.endpoint.toList.length = r.endpoint.length := String.length_toList
  constructor
  · rintro ⟨short, read⟩
    rw [List.flatMap_cons] at short read
    rcases padding_cases own padding (ranks.flatMap slot) with
      ⟨quiet, same⟩ | ⟨t, after, _, same⟩ | ⟨before, t, rfl, quiet, inside, same⟩
    · rw [same, List.forall_mem_cons] at short
      rw [same, List.map_cons, List.map_cons, List.cons.injEq] at read
      exact ⟨.inl quiet, size ▸ short.1, short.2, read.2⟩
    · have count := congrArg List.length read
      rw [same, List.length_map, List.length_map, List.length_cons, List.length_cons] at count
      have enough := length_le_words unmarked after
      rw [List.flatMap_cons, List.length_cons] at enough
      omega
    · rw [same, List.forall_mem_cons] at short
      rw [same, List.map_cons, List.map_cons, List.cons.injEq, cstr_merged own] at read
      have room := short.1
      rw [List.length_append, List.length_cons, size] at room
      exact ⟨.inr ⟨before, t, rfl, quiet, inside, read.1, by omega⟩, by omega, short.2, read.2⟩
  · rintro ⟨harmless, short, shorts, read⟩
    unfold Reads
    rw [List.flatMap_cons]
    rcases harmless with quiet | ⟨before, t, rfl, quiet, inside, replays, room⟩
    · rw [words_quiet quiet, words_slot own, List.forall_mem_cons, List.map_cons, List.map_cons,
        cstr_of_notMem own.2, read]
      exact ⟨⟨size ▸ short, shorts⟩, rfl⟩
    · rw [List.append_assoc, words_quiet quiet, List.cons_append, words_merged own inside,
        List.forall_mem_cons, List.map_cons, List.map_cons, (cstr_merged own).mpr replays, read]
      refine ⟨⟨?_, shorts⟩, rfl⟩
      rw [List.length_append, List.length_cons, size]
      omega

theorem reads_iff (unmarked : ∀ r ∈ ranks, r.Unmarked) (padding : List Char) :
    Reads padding ranks ↔ Harmless padding ranks.head? ∧ (∀ r ∈ ranks, r.endpoint.length < 100) ∧
      Paddings ranks := by
  induction ranks generalizing padding with
  | nil =>
    rw [reads_nil]
    simp [Paddings]
  | cons r ranks ih =>
    rw [reads_cons unmarked, ih fun r' mem => unmarked r' (List.mem_cons_of_mem r mem),
      List.forall_mem_cons, Paddings, List.head?_cons]
    tauto

end Rank

/-- The slots the ranks send are short enough, the marks stay out of the addresses, and the
padding adds and spoils nothing. -/
structure Gatherable (ranks : List Rank) : Prop where
  size : IsInt (msgPaddingLen * ranks.length)
  unmarked : ∀ r ∈ ranks, r.Unmarked
  short : ∀ r ∈ ranks, r.endpoint.length < 100
  paddings : Rank.Paddings ranks

variable {ranks : List Rank} {m : AddrManager}

theorem rcvString_eq_ok (unmarked : ∀ r ∈ ranks, r.Unmarked) {slots : List Char} :
    rcvString ranks = .ok slots ↔
      (∀ r ∈ ranks, r.endpoint.length + 3 ≤ msgPaddingLen) ∧ slots = ranks.flatMap Rank.slot := by
  have sent : ∀ {sends : List (List Char)}, ranks.mapM Rank.sendipStr = .ok sends ↔
      (∀ r ∈ ranks, r.endpoint.length + 3 ≤ msgPaddingLen) ∧ sends = ranks.map Rank.slot := by
    induction ranks with
    | nil =>
      intro sends
      simp [pure, Except.pure, eq_comm]
    | cons r ranks ih =>
      intro sends
      have rest := fun sends => @ih (fun r' mem => unmarked r' (List.mem_cons_of_mem r mem)) sends
      rw [List.mapM_cons, bind_eq_ok]
      simp only [bind_eq_ok, Rank.sendipStr_eq_ok (unmarked r (List.mem_cons_self ..)), rest,
        List.forall_mem_cons, List.map_cons]
      constructor
      · rintro ⟨_, ⟨short, rfl⟩, _, ⟨shorts, rfl⟩, hall⟩
        cases hall
        exact ⟨⟨short, shorts⟩, rfl⟩
      · rintro ⟨⟨short, shorts⟩, rfl⟩
        exact ⟨_, ⟨short, rfl⟩, _, ⟨shorts, rfl⟩, rfl⟩
  unfold rcvString
  rw [bind_eq_ok]
  constructor
  · rintro ⟨sends, hsends, hslots⟩
    cases hslots
    obtain ⟨short, rfl⟩ := sent.mp hsends
    exact ⟨short, List.flatMap_def.symm⟩
  · rintro ⟨short, rfl⟩
    exact ⟨_, sent.mpr ⟨short, rfl⟩, congrArg Except.ok List.flatMap_def.symm⟩

theorem gatherIP_eq_ok {globalRank : Int} {endpoint : String} {m' : AddrManager} :
    gatherIP ranks globalRank endpoint m = .ok m' ↔
      ∃ slots ipList, rcvString ranks = .ok slots ∧ IsInt (msgPaddingLen * ranks.length) ∧
        IPTOOL.split slots 'H' 'E' = .ok ipList ∧
        m' = { m with
          ifMaster := globalRank = 0 || m.ifMaster
          nodeAddr := endpoint
          m_endPointsLists := m.m_endPointsLists ++ ipList } := by
  unfold gatherIP
  simp only [bind_eq_ok, int_eq_ok]
  constructor
  · rintro ⟨slots, hslots, _, ⟨size, _⟩, ipList, hsplit, hm⟩
    cases hm
    exact ⟨slots, ipList, hslots, size, hsplit, rfl⟩
  · rintro ⟨slots, ipList, hslots, size, hsplit, rfl⟩
    exact ⟨slots, hslots, _, ⟨size, rfl⟩, ipList, hsplit, rfl⟩

/-- What the scanner returns has neither the closing mark nor a zero in it. -/
theorem unmarked_of_split {slots : List Char}
    (h : IPTOOL.split slots 'H' 'E' = .ok (ranks.map Rank.endpoint)) : ∀ r ∈ ranks, r.Unmarked := by
  obtain ⟨_, same⟩ := (IPTOOL.split_eq_ok (by decide)).mp h
  intro r mem
  have mem' := List.mem_map_of_mem (f := Rank.endpoint) mem
  rw [same, List.mem_map] at mem'
  obtain ⟨token, htoken, heq⟩ := mem'
  have chars : r.endpoint.toList = cstr token := by
    rw [← heq, String.toList_ofList]
  unfold Rank.Unmarked
  rw [chars]
  refine ⟨fun inside => closes_notMem htoken ((List.takeWhile_sublist _).subset inside),
    fun zero => ?_⟩
  have nonzero := List.mem_takeWhile_imp zero
  simp at nonzero

/-- Every rank ends with the addresses of all ranks, in their order, exactly when the slots can be
gathered. -/
theorem gatherIP_iff (ranks : List Rank) (globalRank : Int) (endpoint : String) (m : AddrManager) :
    (∃ m', gatherIP ranks globalRank endpoint m = .ok m' ∧
      m'.m_endPointsLists = m.m_endPointsLists ++ ranks.map Rank.endpoint) ↔ Gatherable ranks := by
  have strings : ∀ tokens : List (List Char),
      (tokens.map fun token => String.ofList (cstr token)) = ranks.map Rank.endpoint ↔
        tokens.map cstr = ranks.map fun r => r.endpoint.toList := by
    intro tokens
    constructor
    · intro h
      have chars := congrArg (List.map String.toList) h
      simpa [List.map_map, Function.comp_def, String.toList_ofList] using chars
    · intro h
      have strings := congrArg (List.map String.ofList) h
      simpa [List.map_map, Function.comp_def, String.ofList_toList] using strings
  have quiet : Rank.Harmless [] ranks.head? := .inl quiet_nil
  constructor
  · rintro ⟨m', run, lists⟩
    obtain ⟨slots, ipList, hslots, size, hsplit, rfl⟩ := gatherIP_eq_ok.mp run
    obtain rfl := List.append_cancel_left lists
    have unmarked := unmarked_of_split hsplit
    obtain ⟨_, rfl⟩ := (rcvString_eq_ok unmarked).mp hslots
    obtain ⟨short, same⟩ := (IPTOOL.split_eq_ok (by decide)).mp hsplit
    have reads : Rank.Reads [] ranks := ⟨short, (strings _).mp same.symm⟩
    obtain ⟨_, short', paddings⟩ := (Rank.reads_iff unmarked []).mp reads
    exact ⟨size, unmarked, short', paddings⟩
  · rintro ⟨size, unmarked, short, paddings⟩
    obtain ⟨short', read⟩ := (Rank.reads_iff unmarked []).mpr ⟨quiet, short, paddings⟩
    have slots : rcvString ranks = .ok (ranks.flatMap Rank.slot) :=
      (rcvString_eq_ok unmarked).mpr ⟨fun r mem => by
        have bound := short r mem
        unfold msgPaddingLen
        omega, rfl⟩
    have list : IPTOOL.split (ranks.flatMap Rank.slot) 'H' 'E' = .ok (ranks.map Rank.endpoint) :=
      (IPTOOL.split_eq_ok (by decide)).mpr ⟨short', ((strings _).mpr read).symm⟩
    exact ⟨_, gatherIP_eq_ok.mpr ⟨_, _, slots, size, list, rfl⟩, rfl⟩

/-! ## An address with the closing mark -/

/-- A slot in memory that was zero before. -/
def zeroed (endpoint : String) (named : endpoint ≠ "") : Rank where
  endpoint := endpoint
  malloced := List.replicate msgPaddingLen '\x00'
  named := named
  size := List.length_replicate

/-- The scanner stops at the first letter of the host. -/
theorem host_cut : ¬ ∃ m',
    gatherIP [zeroed "tcp://EAST:80" (by decide)] 0 "tcp://EAST:80" {} = .ok m' ∧
    m'.m_endPointsLists = [] ++ [zeroed "tcp://EAST:80" (by decide)].map Rank.endpoint := by
  rintro ⟨m', run, lists⟩
  have cut : (gatherIP [zeroed "tcp://EAST:80" (by decide)] 0 "tcp://EAST:80" {}).toOption.map
      AddrManager.m_endPointsLists = some ["tcp://"] := by decide +kernel
  rw [run] at cut
  have lists' : m'.m_endPointsLists = ["tcp://"] := Option.some.inj cut
  rw [lists'] at lists
  exact absurd lists (by decide)

end Gorilla
