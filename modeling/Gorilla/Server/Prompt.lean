import Gorilla.Lib.Outcome
import Gorilla.Server.Answers
import Gorilla.Server.RawData

/-!
# Calls that do not wait

Only mutexes and other requests are waited for. The computations of the handlers end in
a value, an exception or undefined behaviour.
-/

namespace Gorilla

open HandLock Outcome

def Waits : Stop → Prop
  | .blocked _ => True
  | _ => False

/-- The call does not wait. -/
def Prompt {α : Type} (x : Except Stop α) : Prop := ∀ e, x = .error e → ¬Waits e

namespace Prompt

variable {α β : Type}

@[simp] theorem ok (a : α) : Prompt (.ok a : Except Stop α) := nofun

@[simp] theorem pure (a : α) : Prompt (Pure.pure a : Except Stop α) := nofun

@[simp] theorem runtime_error (what : String) :
    Prompt (.error (.runtime_error what) : Except Stop α) := by
  intro e he
  cases he
  exact id

@[simp] theorem undefined (what : String) :
    Prompt (.error (.undefined what) : Except Stop α) := by
  intro e he
  cases he
  exact id

@[simp] theorem throw_runtime_error (what : String) :
    Prompt (throw (.runtime_error what) : Except Stop α) := runtime_error what

@[simp] theorem throw_undefined (what : String) :
    Prompt (throw (.undefined what) : Except Stop α) := undefined what

theorem bind {x : Except Stop α} {f : α → Except Stop β} (hx : Prompt x)
    (hf : ∀ a, x = .ok a → Prompt (f a)) : Prompt (x >>= f) := by
  cases x with
  | ok a => exact hf a rfl
  | error e =>
    intro e' he
    cases he
    exact hx e rfl

theorem int (z : Int) : Prompt (Gorilla.int z) := by
  unfold Gorilla.int
  split <;> simp

theorem memcpy (dst : Buffer) (dstOff : Nat) (src : Buffer) (srcOff n : Nat) :
    Prompt (dst.memcpy dstOff src srcOff n) := by
  unfold Buffer.memcpy
  split <;> simp

theorem foldlM {γ : Type} {f : β → γ → Except Stop β} {l : List γ} (b : β)
    (hf : ∀ b, ∀ c ∈ l, Prompt (f b c)) : Prompt (l.foldlM f b) := by
  induction l generalizing b with
  | nil => exact ok b
  | cons c l ih =>
    rw [List.foldlM_cons]
    exact bind (hf b c List.mem_cons_self) fun b' _ =>
      ih b' fun b d hd => hf b d (List.mem_cons_of_mem c hd)

theorem raise (x : Except String α) : Prompt (Gorilla.raise x) := by
  cases x <;> simp [Gorilla.raise]

theorem lift {σ : Type} {x : Except Stop α} (hx : Prompt x) (s : σ) :
    Avoids Waits (liftM x : EStateM Stop σ α) s := by
  cases x with
  | ok a => exact Returns.avoids ⟨a, s, rfl⟩
  | error e =>
    intro e' s' he
    cases he
    exact hx e rfl

end Prompt

/-! ### Boxes -/

theorem prompt_ofIndex (dims : Nat) (indexlb indexub : Array3 Int) :
    Prompt (BBX.ofIndex dims indexlb indexub) := by
  unfold BBX.ofIndex
  split <;> simp

theorem prompt_elemNumOf (bs : List Bound) (n : UInt64) : Prompt (BBX.elemNumOf bs n) := by
  induction bs generalizing n with
  | nil => exact .ok n
  | cons b bs ih => exact .bind (.int _) fun _ _ => .bind (.int _) fun _ _ => ih _

theorem prompt_getOverlapBBX (a b : BBX) : Prompt (getOverlapBBX a b) := by
  unfold getOverlapBBX
  split
  · simp
  · split <;> simp

theorem prompt_splitBound (a b : Bound) : Prompt (a.splitBound b) := by
  unfold Bound.splitBound
  repeat' split
  all_goals
    first
      | exact .pure _
      | exact .throw_runtime_error _
      | exact .bind (.int _) fun _ _ => .pure _
      | exact .bind (.int _) fun _ _ => .bind (.int _) fun _ _ => .pure _

theorem prompt_splitReduceBBX (a b : BBX) : Prompt (splitReduceBBX a b) := by
  unfold splitReduceBBX
  split
  · simp
  · refine .bind (prompt_getOverlapBBX a b) fun r _ => ?_
    cases r with
    | none => simp
    | some overlap =>
      dsimp only
      split
      · exact .bind (prompt_splitBound _ _) fun _ _ =>
          .bind (prompt_splitBound _ _) fun _ _ => .pure _
      · exact .bind (prompt_splitBound _ _) fun _ _ =>
          .bind (prompt_splitBound _ _) fun _ _ =>
          .bind (prompt_splitBound _ _) fun _ _ => .pure _
      · exact .pure _

theorem prompt_responsible (q : BBX) (l : List (Σ _ : Int, BBX)) :
    Prompt (DHTManager.responsible q l) := by
  induction l with
  | nil => exact .pure _
  | cons it rest ih =>
    refine .bind (prompt_getOverlapBBX q it.2) fun r _ => ?_
    cases r with
    | none => exact ih
    | some overlapBBX => exact .bind ih fun _ _ => .pure _

theorem prompt_getMetaServerID (m : DHTManager) (q : BBX) : Prompt (m.getMetaServerID q) :=
  prompt_responsible q _

/-! ### The coverage test -/

namespace MetaDataManager

theorem prompt_cut (c b : BBX) : Prompt (BBX.cut c b) := by
  refine .bind (prompt_getOverlapBBX c b) fun r _ => ?_
  cases r with
  | none => exact .pure _
  | some overlap =>
    dsimp only
    split
    · exact .pure _
    · exact .bind (prompt_splitReduceBBX c overlap) fun _ _ => .pure _

theorem prompt_layer (b : BBX) (cs : List BBX) : Prompt (Peel.layer BBX.cut b cs) := by
  induction cs with
  | nil => exact .ok _
  | cons c cs ih => exact .bind (prompt_cut c b) fun _ _ => .bind ih fun _ _ => .pure _

/-- A pass has enough fuel for the boxes of its layer. -/
theorem prompt_coverQueue (list : List BlockDescriptor) {k : Int} {queue : List BBX}
    (hq : ∀ c ∈ queue, c.m_status = k) : Prompt (coverQueue list k queue) := by
  induction list generalizing k queue with
  | nil => exact .ok _
  | cons bd list ih =>
    refine .bind (prompt_ofIndex _ _ _) fun b _ => ?_
    have pass : coverLayer b k (queue.length + 1) queue = Peel.layer BBX.cut b queue := by
      have := coverLayer_eq b k queue [] (queue.length + 1) (by omega) hq (by simp)
      rw [List.append_nil] at this
      rw [this]
      cases Peel.layer BBX.cut b queue <;> rfl
    rw [pass]
    exact .bind (prompt_layer b queue) fun us hus => ih (layer_status hus hq)

theorem prompt_ifCovered (list : List BlockDescriptor) {q : BBX} (hq : q.m_status = 0) :
    Prompt (ifCovered list q) :=
  .bind (prompt_coverQueue list (by simpa using hq)) fun _ _ => .pure _

theorem prompt_overlapEndpoints (q : BBX) (dataType : String) (entries : List BlockDescriptor) :
    Prompt (overlapEndpoints q dataType entries) := by
  induction entries with
  | nil => exact .ok _
  | cons bd rest ih =>
    refine .bind (prompt_ofIndex _ _ _) fun bbx _ => .bind (prompt_getOverlapBBX _ _) fun r _ => ?_
    cases r with
    | none => exact ih
    | some overlapbbx => exact .bind ih fun _ _ => .pure _

theorem prompt_rawEndpoints (m : MetaDataManager) (step : Nat) (varName dataType : String) :
    Prompt (m.rawEndpoints step varName dataType) := by
  unfold rawEndpoints
  split
  · simp
  · split <;> simp

end MetaDataManager

theorem prompt_answerOf (s : UniServer) (step : Nat) (varName : String) (q own : BBX) :
    Prompt (answerOf s step varName q own) := by
  refine .bind (MetaDataManager.prompt_rawEndpoints _ _ _ _) fun rdeplist _ =>
    .bind (MetaDataManager.prompt_ifCovered rdeplist rfl) fun ifcover _ => ?_
  cases ifcover with
  | false => exact .pure _
  | true => exact MetaDataManager.prompt_overlapEndpoints _ _ _

/-! ### The read of a sub-region -/

theorem prompt_arrayOf (bs : BlockSummary) (what missing name : String) :
    Prompt (bs.arrayOf what missing name) := by
  unfold BlockSummary.arrayOf
  split
  · simp
  · split <;> simp

theorem prompt_getSubMatrix (elemSize : UInt64) (subLb subUb gloablUb : Array3 UInt64)
    (globalMatrix : Buffer) :
    Prompt (MATRIXTOOL.getSubMatrix elemSize subLb subUb gloablUb globalMatrix) := by
  have loops : ∀ subLen globalLen subMrx, Prompt
      ((MATRIXTOOL.inRange gloablUb.z subLb.z subUb.z).foldlM (fun m z =>
        (MATRIXTOOL.inRange gloablUb.y subLb.y subUb.y).foldlM (fun m y =>
          (MATRIXTOOL.inRange gloablUb.x subLb.x subUb.x).foldlM (fun m x =>
            MATRIXTOOL.copyElement elemSize subLb subLen globalLen globalMatrix m z y x) m) m)
        subMrx) := fun _ _ _ =>
    .foldlM _ fun _ _ _ => .foldlM _ fun _ _ _ => .foldlM _ fun _ _ _ => .memcpy _ _ _ _ _
  unfold MATRIXTOOL.getSubMatrix
  dsimp only
  split
  · exact .bind (.throw_runtime_error _) fun _ h => by cases h
  · split
    · exact .bind (.throw_runtime_error _) fun _ h => by cases h
    · split
      · exact .bind (.memcpy _ _ _ _ _) fun _ _ => loops _ _ _
      · exact .bind (.pure _) fun _ _ => loops _ _ _

theorem prompt_nonoffset (a offset : Array3 Int) : Prompt (DataBlock.nonoffset a offset) :=
  .bind (.int _) fun _ _ => .bind (.int _) fun _ _ => .bind (.int _) fun _ _ => .pure _

theorem prompt_subregionOf (bs : BlockSummary) (lb ub : Array3 Int) (data : Buffer) :
    Prompt (DataBlock.subregionOf bs lb ub data) := by
  unfold DataBlock.subregionOf
  refine .bind (.bind (prompt_arrayOf _ _ _ _) fun _ _ => .pure _) fun elemSize _ =>
    .bind (prompt_nonoffset _ _) fun _ _ => .bind (prompt_nonoffset _ _) fun _ _ =>
    .bind (prompt_nonoffset _ _) fun globalUbNonoffset _ =>
    .bind (.bind (prompt_arrayOf _ _ _ _) fun _ _ => .pure _) fun elemNum _ => ?_
  split
  · exact .bind (.throw_runtime_error _) fun _ h => by cases h
  · exact .bind (prompt_getSubMatrix _ _ _ _ _) fun _ _ => .pure _

theorem prompt_getDataSubregion (files : Files) (b : DataBlock) (dims : Nat) (lb ub : Array3 Int) :
    Prompt (b.getDataSubregion files dims lb ub) := by
  unfold DataBlock.getDataSubregion
  split
  · split
    · simp
    · split
      · simp
      · split
        · simp
        · exact .bind (prompt_subregionOf _ _ _ _) fun _ _ => .pure _
  · split
    · simp
    · split
      · simp
      · split
        · simp
        · split
          · simp
          · refine .bind (.bind (prompt_arrayOf _ _ _ _) fun _ _ => .pure _) fun memSpace _ => ?_
            split
            · exact .pure _
            · exact .bind (prompt_subregionOf _ _ _ _) fun _ _ => .pure _
  · simp
  · simp

theorem prompt_getBlockSubregion (blockID : String) (backend : Int) (dims : Nat)
    (lb ub : Array3 Int) (m : BlockManager) :
    Avoids Waits (BlockManager.getBlockSubregion blockID backend dims lb ub) m := by
  intro e m' he
  unfold BlockManager.getBlockSubregion at he
  cases hh : m.getBlockHandle blockID backend with
  | error e' =>
    simp only [hh] at he
    cases he
    unfold BlockManager.getBlockHandle at hh
    split at hh
    · cases hh
      exact id
    · split at hh
      · cases hh
      · split at hh
        · rename_i hnew
          cases hh
          unfold BlockManager.newHandle at hnew
          split at hnew
          · cases hnew
            exact id
          · split at hnew
            · cases hnew
              exact id
            · cases hnew
        · cases hh
  | ok r =>
    obtain ⟨handle, m₁⟩ := r
    simp only [hh] at he
    have hp := prompt_getDataSubregion m₁.files handle dims lb ub
    cases hd : handle.getDataSubregion m₁.files dims lb ub with
    | error e' =>
      rw [hd] at he hp
      cases he
      exact hp e rfl
    | ok r' =>
      rw [hd] at he
      cases he

theorem Avoids.zoomed {σ τ α : Type} {part : τ → σ} {put : σ → τ → τ} {x : EStateM Stop σ α} {t : τ}
    (h : Avoids Waits x (part t)) : Avoids Waits (zoom part put x) t := by
  intro e t' he
  cases hx : x (part t) with
  | ok a s =>
    rw [zoom_ok hx] at he
    cases he
  | error e' s =>
    rw [zoom_error hx] at he
    cases he
    exact h e s hx

/-- A part of a block is copied out and sent. -/
theorem sendSubregion_prompt (out : Outside) (blockID : String) (dims : Nat) (lb ub : Array3 Int)
    (elemSize : UInt64) (t : UniServer) : Avoids Waits (do
      let bbx ← BBX.ofIndex dims lb ub
      let allocSize := elemSize * (← bbx.getElemNum)
      match ← UniServer.onBlockManager
        (BlockManager.getBlockSubregion blockID BACKEND.MEM dims lb ub) with
      | (_, none) => throw (.undefined "transfer from a null pointer")
      | (_, some dataContainer) =>
        if dataContainer.length < allocSize.toNat then
          throw (.undefined "transfer past the end of a buffer")
        raise (out.sendTo [dataContainer.take allocSize.toNat])) t := by
  refine .bind (Prompt.lift (prompt_ofIndex _ _ _) t) fun bbx t _ =>
    .bind (Prompt.lift (prompt_elemNumOf _ _) t) fun elemNum t _ =>
    .bind (Avoids.zoomed (prompt_getBlockSubregion blockID BACKEND.MEM dims lb ub _))
      fun r t _ => ?_
  obtain ⟨bs, data⟩ := r
  cases data with
  | none => exact Prompt.lift (.throw_undefined _) t
  | some dataContainer =>
    dsimp only
    split
    · exact .bind (Prompt.lift (.throw_undefined _) t) fun _ _ h => by cases h
    · exact Prompt.lift (.raise _) t

theorem readSubregion_prompt (out : Outside) (blockID : String) (dims : Nat) (lb ub : Array3 Int)
    (s : UniServer) : Avoids Waits (UniServer.readSubregion out blockID dims lb ub) s := by
  unfold UniServer.readSubregion
  have reads : ∀ {α : Type} {f : UniServer → EStateM Stop UniServer α} (t : UniServer),
      Avoids Waits (f t) t → Avoids Waits (get >>= f) t := fun t h =>
    .bind (Returns.avoids ⟨t, t, rfl⟩) fun _ _ hget => by
      cases hget
      exact h
  have elements : ∀ bs : BlockSummary, Prompt (bs.getArrayElemSize bs.m_blockid) := fun bs =>
    .bind (prompt_arrayOf _ _ _ _) fun _ _ => .pure _
  have existence : Prompt (s.m_blockManager.checkDataExistance blockID BACKEND.MEM) := .ok _
  refine reads s (.bind (Prompt.lift existence s) fun known t _ => ?_)
  split
  · exact reads t (.bind (Prompt.lift (.throw_runtime_error _) t) fun _ _ h => by cases h)
  · exact .bind (Prompt.lift (elements _) t) fun elemSize t _ =>
      sendSubregion_prompt out blockID dims lb ub elemSize t

end Gorilla
