import Ambient.Proofs.Script.Onward
import Ambient.Script.Grammar.Expression

/-!
# Expressions are read onward

The grammar of expressions takes a reader of the goals as an argument. If that reader ends behind
the start of each goal, then no reader of the grammar goes back, and those that read a goal end
behind its start as well. Nothing else about the goals is needed.

* `Advances`: a reader ends behind the start of each goal;
* `items_onward`, `block_onward`, `functionTail_onward`: lists, blocks and functions;
* `members_onward`, `classTail_onward`: the members of objects and classes;
* `primary_past`, `suffixes_onward`: operands and what is appended to them;
* **`constructed_past`**, **`unary_past`**, **`assignment_past`**: the goals.
-/

namespace Ambient.Script

/-- A reader of the goals ends behind the start of each of them. -/
def Advances (nested : Nested) : Prop := ∀ goal c, Past c (nested goal c)

variable {nested : Nested} {c d : Cursor}

theorem Advances.onward (hn : Advances nested) (goal : Goal) (h : c ≤ d) :
    Onward c (nested goal d) := (hn goal d).mono fun _ hx => h.trans hx.le

/-! ## Readers without goals -/

theorem afterArrow?_onward (h : c ≤ d) : Gives (afterArrow? d) (c ≤ ·) := by
  refine (peek?_onward false h).bind fun p hp => ?_
  split
  · exact .some hp.after
  · exact .none

theorem optionalName_onward (h : c ≤ d) : c ≤ optionalName d := by
  unfold optionalName
  split
  · rename_i hname
    split
    · exact h
    · exact anyWord_onward h _ hname
  · exact h

theorem modifiers_onward (fuel : ℕ) (h : c ≤ d) : Gives (modifiers fuel d) (c ≤ ·) := by
  induction fuel generalizing d with
  | zero => exact .some h
  | succ fuel ih =>
    rw [modifiers]
    refine (peek?_onward true h).bind fun p hp => ?_
    split
    · split
      · refine (peek?_onward false hp.after).bind fun q hq => ?_
        split
        · exact ih hp.after
        · exact .some hp.start
      · exact .some hp.start
    · exact .some hp.after
    · exact .some hp.start

theorem afterImport_onward (h : c ≤ d) : Onward c (afterImport d) := by
  unfold afterImport
  split
  · rename_i after hafter
    exact (anyWord_onward (afterMark?_onward "." h _ hafter)).bind fun _ h => .some h
  · exact .some h

theorem property_onward (object : Expression) (h : c ≤ d) : Onward c (property object d) := by
  refine (peek?_onward false h).bind fun p hp => ?_
  split
  · exact .some hp.after
  · exact .some hp.after
  · exact .none

section

variable (hn : Advances nested)

include hn

/-! ## Lists and blocks -/

theorem items_onward (close : String) (fuel : ℕ) (h : c ≤ d) :
    Onward c (items nested close fuel d) := by
  induction fuel generalizing d with
  | zero => exact .none
  | succ fuel ih =>
    rw [items]
    refine (peek?_onward true h).bind fun p hp => ?_
    split
    · exact .some hp.after
    split
    · exact (ih hp.after).bind fun _ he => .some he
    -- What follows an item is the same whether it is spread or not.
    extract_lets behind
    have hbehind : ∀ x : Piece × Cursor, c ≤ x.2 → Onward c (behind x) := by
      intro x hx
      refine (peek?_onward false hx).bind fun q hq => ?_
      split
      · exact .some hq.after
      split
      · exact (ih hq.after).bind fun _ he => .some he
      · exact .none
    split
    · refine Gives.bind ?_ hbehind
      exact (hn.onward _ hp.after).map fun _ hx => hx
    · refine Gives.bind ?_ hbehind
      exact (hn.onward _ h).map fun _ hx => hx

theorem itemsUntil_onward (close : String) (h : c ≤ d) : Onward c (itemsUntil nested close d) :=
  items_onward hn close _ h

theorem sequenceFrom_onward (allowIn : Bool) (fuel : ℕ) (o : Operand) (h : c ≤ d) :
    Onward c (sequenceFrom nested allowIn fuel o d) := by
  induction fuel generalizing o d with
  | zero => exact .some h
  | succ fuel ih =>
    rw [sequenceFrom]
    split
    · rename_i after hafter
      exact (hn.onward _ (afterMark?_onward "," h _ hafter)).bind fun _ he => ih _ he
    · exact .some h

theorem sequence_onward (allowIn : Bool) (h : c ≤ d) : Onward c (sequence nested allowIn d) :=
  (hn.onward _ h).bind fun _ he => sequenceFrom_onward hn allowIn _ _ he

theorem condition_onward (h : c ≤ d) : Onward c (condition nested d) := by
  refine (expectMark_onward "(" h).bind fun _ h => ?_
  refine (sequence_onward hn true h).bind fun _ h => ?_
  exact expectMark_onward ")" h

theorem statementsUntil_onward (fuel : ℕ) (h : c ≤ d) :
    Onward c (statementsUntil nested fuel d) := by
  induction fuel generalizing d with
  | zero => exact .none
  | succ fuel ih =>
    rw [statementsUntil]
    refine (peek?_onward true h).bind fun p hp => ?_
    split
    · exact .some hp.after
    · exact (hn.onward _ hp.start).bind fun _ he => ih he

theorem block_onward (h : c ≤ d) : Onward c (block nested d) :=
  (expectMark_onward _ h).bind fun _ he => statementsUntil_onward hn _ he

theorem functionTail_onward (h : c ≤ d) : Onward c (functionTail nested d) := by
  refine (expectMark_onward "(" h).bind fun _ h => ?_
  refine (itemsUntil_onward hn ")" h).bind fun _ h => ?_
  exact (block_onward hn h).bind fun _ h => .some h

theorem arrowBody_onward (h : c ≤ d) : Onward c (arrowBody nested d) := by
  refine (peek?_onward true h).bind fun p hp => ?_
  split
  · exact statementsUntil_onward hn _ hp.after
  · exact (hn.onward _ h).map fun _ hx => hx

/-! ## Members -/

theorem key_onward (h : c ≤ d) : Onward c (key nested d) := by
  refine (peek?_onward true h).bind fun p hp => ?_
  split
  iterate 4 exact .some hp.after
  · refine (sequence_onward hn true hp.after).bind fun _ h => ?_
    exact (expectMark_onward "]" h).bind fun _ h => .some h
  · exact .none

theorem method_onward (h : c ≤ d) : Onward c (method nested d) := by
  refine (key_onward hn h).bind fun _ h => ?_
  exact (functionTail_onward hn h).bind fun _ h => .some h

theorem member_plain_onward (h : c ≤ d) : Onward c (member.plain nested d) := by
  refine (key_onward hn h).bind fun _ h => ?_
  refine (peek?_onward false h).bind fun p hp => ?_
  split
  · exact (hn.onward _ hp.after).bind fun _ h => .some h
  · exact (functionTail_onward hn h).bind fun _ h => .some h

theorem member_onward (h : c ≤ d) : Onward c (member nested d) := by
  refine (peek?_onward true h).bind fun p hp => ?_
  split
  · exact (hn.onward _ hp.after).bind fun _ h => .some h
  · exact method_onward hn hp.after
  · refine (peek?_onward false hp.after).bind fun q hq => ?_
    split
    · split
      · exact method_onward hn (getD_afterMark?_onward "*" hp.after)
      split
      · exact member_plain_onward hn hp.start
      split
      · exact (hn.onward _ hq.after).bind fun _ h => .some h
      · exact .some hp.after
    · exact member_plain_onward hn hp.start

theorem members_onward (fuel : ℕ) (h : c ≤ d) : Onward c (members nested fuel d) := by
  induction fuel generalizing d with
  | zero => exact .none
  | succ fuel ih =>
    rw [members]
    refine (peek?_onward true h).bind fun p hp => ?_
    split
    · exact .some hp.after
    split
    · exact ih hp.after
    refine (member_onward hn hp.start).bind fun _ h => ?_
    refine (peek?_onward false h).bind fun q hq => ?_
    split
    · exact .some hq.after
    split
    · exact (ih hq.after).bind fun _ h => .some h
    · exact .none

theorem classMember_onward (h : c ≤ d) : Onward c (classMember nested d) := by
  refine (modifiers_onward 4 h).bind fun _ h => ?_
  refine (peek?_onward true h).bind fun p hp => ?_
  split
  · exact statementsUntil_onward hn _ hp.after
  refine (key_onward hn h).bind fun _ h => ?_
  refine (peek?_onward false h).bind fun q hq => ?_
  split
  · exact (functionTail_onward hn h).bind fun _ h => .some h
  split
  · exact (hn.onward _ hq.after).bind fun _ h => endStatement_onward h
  · exact endStatement_onward h

theorem classMembers_onward (fuel : ℕ) (h : c ≤ d) : Onward c (classMembers nested fuel d) := by
  induction fuel generalizing d with
  | zero => exact .none
  | succ fuel ih =>
    rw [classMembers]
    refine (peek?_onward true h).bind fun p hp => ?_
    split
    · exact .some hp.after
    split
    · exact ih hp.after
    · exact (classMember_onward hn hp.start).bind fun _ h => ih h

theorem classTail_onward (h : c ≤ d) : Onward c (classTail nested d) := by
  unfold classTail
  extract_lets body
  have hbody : ∀ e, c ≤ e → Onward c (body e) := fun _ he =>
    (expectMark_onward _ he).bind fun _ h => classMembers_onward hn _ h
  split
  · rename_i after hafter
    have h := afterWord?_onward "extends" h _ hafter
    exact ((hn.onward .unary h).map fun _ hx => hx).bind hbody
  · exact hbody d h

/-! ## Operands -/

theorem templateTail_onward (fuel : ℕ) (h : c ≤ d) : Onward c (templateTail nested fuel d) := by
  induction fuel generalizing d with
  | zero => exact .none
  | succ fuel ih =>
    rw [templateTail]
    refine (Gives.any _).bind fun ⟨n, final⟩ _ => ?_
    have h : c ≤ d.drop n := h.trans (d.le_drop n)
    dsimp only
    split
    · exact .some h
    refine (sequence_onward hn true h).bind fun _ h => ?_
    exact (expectMark_onward _ h).bind fun _ h => ih h

theorem parenthesized_onward (h : c ≤ d) : Onward c (parenthesized nested d) := by
  refine (peek?_onward true h).bind fun p hp => ?_
  refine (itemsUntil_onward hn ")" h).bind fun ⟨pieces, e⟩ h => ?_
  dsimp only
  split
  · rename_i after hafter
    exact (arrowBody_onward hn (afterArrow?_onward h _ hafter)).bind fun _ h => .some h
  · split
    · exact .none
    · exact .some h
    · exact .some h

theorem nameOrArrow_onward (text : String) (h : c ≤ d) :
    Onward c (nameOrArrow nested text d) := by
  unfold nameOrArrow
  split
  · rename_i after hafter
    exact (arrowBody_onward hn (afterArrow?_onward h _ hafter)).bind fun _ h => .some h
  · exact .some h

theorem functionOperand_onward (h : c ≤ d) : Onward c (functionOperand nested d) := by
  have h := getD_afterMark?_onward "*" h
  exact (functionTail_onward hn (optionalName_onward h)).bind fun _ h => .some h

theorem afterAsync_onward (h : c ≤ d) : Onward c (afterAsync nested d) := by
  have hname := nameOrArrow_onward hn "async" h
  refine (peek?_onward false h).bind fun p hp => ?_
  dsimp only
  split
  · exact hname
  split
  · exact functionOperand_onward hn hp.after
  · split
    · rename_i after hafter
      exact (arrowBody_onward hn (afterArrow?_onward hp.after _ hafter)).bind fun _ h => .some h
    · exact hname
  · split
    · rename_i pieces later hitems
      have h := itemsUntil_onward hn ")" hp.after _ hitems
      split
      · rename_i after hafter
        exact (arrowBody_onward hn (afterArrow?_onward h _ hafter)).bind fun _ h => .some h
      · exact hname
    · exact hname
  · exact hname

theorem afterNew_onward (h : c ≤ d) : Onward c (afterNew nested d) := by
  unfold afterNew
  split
  · rename_i after hafter
    have h := afterMark?_onward "." h _ hafter
    exact (expectWord_onward "target" h).bind fun _ h => .some h
  · refine (hn.onward .constructed h).bind fun ⟨_, e⟩ h => ?_
    dsimp only
    split
    · rename_i after hafter
      have h := afterMark?_onward "(" h _ hafter
      exact (itemsUntil_onward hn ")" h).bind fun _ h => .some h
    · exact .some h

theorem primary_past (c : Cursor) : Past c (primary nested c) := by
  refine (peek?_onward true le_rfl).bind fun p hp => ?_
  -- The ending has no length, but no operand starts with it.
  by_cases hend : p.token = .ending
  · rw [hend]
    exact .none
  have hlt : c < p.after := hp.lt_after hend
  have hself : p.after ≤ p.after := le_rfl
  split
  · exact .some hlt
  · exact .some hlt
  · exact (Gives.any _).map fun _ _ => hlt
  · exact past_of_lt hlt ((templateTail_onward hn _ hself).bind fun _ h => .some h)
  · exact past_of_lt hlt (parenthesized_onward hn hself)
  · exact past_of_lt hlt ((itemsUntil_onward hn "]" hself).bind fun _ h => .some h)
  · exact past_of_lt hlt ((members_onward hn _ hself).bind fun _ h => .some h)
  iterate 2
    refine (Gives.any _).bind fun n _ => .some ?_
    exact hp.start.trans_lt (Cursor.lt_drop n.succ_pos _)
  iterate 5 exact .some hlt
  · exact past_of_lt hlt (functionOperand_onward hn hself)
  · exact past_of_lt hlt ((classTail_onward hn (optionalName_onward hself)).bind fun _ h => .some h)
  · exact past_of_lt hlt (afterAsync_onward hn hself)
  · exact past_of_lt hlt (afterNew_onward hn hself)
  · exact past_of_lt hlt (afterImport_onward hself)
  · split
    · exact .none
    · exact past_of_lt hlt (nameOrArrow_onward hn _ hself)
  · exact .none

theorem subscript_onward (object : Expression) (h : c ≤ d) :
    Onward c (subscript nested object d) := by
  refine (sequence_onward hn true h).bind fun _ h => ?_
  exact (expectMark_onward "]" h).bind fun _ h => .some h

theorem callTail_onward (callee : Expression) (h : c ≤ d) :
    Onward c (callTail nested callee d) :=
  (itemsUntil_onward hn ")" h).bind fun _ h => .some h

theorem suffixes_onward (calls : Bool) (fuel : ℕ) (o : Operand) (h : c ≤ d) :
    Onward c (suffixes nested calls fuel o d) := by
  induction fuel generalizing o d with
  | zero => exact .some h
  | succ fuel ih =>
    rw [suffixes]
    refine (peek?_onward false h).bind fun p hp => ?_
    -- Every suffix goes on in the same way, and the operand ends where there is none.
    extract_lets behind
    have hbehind : ∀ next?, Onward c next? → Onward c (behind next?) := by
      rintro (_ | ⟨o, e⟩) hnext
      · exact .some h
      · exact ih o (hnext _ rfl)
    have hnone : Onward c (some none >>= behind) := hbehind none .none
    have hsome : ∀ {r}, Onward c r → Onward c (r.map some >>= behind) := fun hr =>
      Gives.bind (hr.map fun _ hx => .some hx) hbehind
    have htemplate : ∀ {e}, c ≤ e → Onward c ((templateTail nested (e.left + 1) e).map
        (fun r => some (⟨.call o.value [], .other⟩, r.2)) >>= behind) := fun he =>
      Gives.bind ((templateTail_onward hn _ he).map fun _ hx => .some hx) hbehind
    split
    · exact hsome (property_onward _ hp.after)
    · exact hsome (subscript_onward hn _ hp.after)
    · split
      · exact hsome (callTail_onward hn _ hp.after)
      · exact hnone
    · exact htemplate hp.after
    · refine (peek?_onward false hp.after).bind fun q hq => ?_
      split
      · exact hsome (callTail_onward hn _ hq.after)
      · exact hsome (subscript_onward hn _ hq.after)
      · exact htemplate hq.after
      · exact hsome (property_onward _ hp.after)
    · exact hnone

theorem constructed_past (c : Cursor) : Past c (constructed nested c) :=
  (primary_past hn c).bind fun _ h => past_of_lt h (suffixes_onward hn false _ _ le_rfl)

theorem unary_past (c : Cursor) : Past c (unary nested c) := by
  refine (peek?_onward true le_rfl).bind fun p hp => ?_
  dsimp only
  split
  · rename_i kind hkind
    have hend : p.token ≠ .ending := by
      intro hend
      rw [hend] at hkind
      cases hkind
    exact (past_of_lt (hp.lt_after hend) (hn.onward .unary le_rfl)).map fun _ hx => hx
  · refine (primary_past hn c).bind fun ⟨_, d⟩ hd => past_of_lt hd ?_
    refine (suffixes_onward hn true _ _ le_rfl).bind fun _ h => ?_
    refine (peek?_onward false h).bind fun q hq => ?_
    dsimp only
    split
    · exact .some hq.after
    · exact .some h

theorem chain_onward (allowIn : Bool) (fuel : ℕ) (o : Operand) (h : c ≤ d) :
    Onward c (chain nested allowIn fuel o d) := by
  induction fuel generalizing o d with
  | zero => exact .some h
  | succ fuel ih =>
    rw [chain]
    refine (peek?_onward false h).bind fun p hp => ?_
    split
    · exact (unary_past hn p.after).bind fun _ hlt => ih _ (hp.after.trans hlt.le)
    · exact .some h

theorem afterYield_onward (allowIn : Bool) (h : c ≤ d) :
    Onward c (afterYield nested allowIn d) := by
  refine (peek?_onward false h).bind fun p hp => ?_
  split
  · exact .some h
  · exact (hn.onward _ (getD_afterMark?_onward "*" h)).bind fun _ h => .some h

/-- **An expression ends behind its start.** -/
theorem assignment_past (allowIn : Bool) (c : Cursor) : Past c (assignment nested allowIn c) := by
  refine (peek?_onward true le_rfl).bind fun p hp => ?_
  split
  · rename_i hyield
    have hend : p.token ≠ .ending := by
      rw [hyield]
      nofun
    exact past_of_lt (hp.lt_after hend) (afterYield_onward hn allowIn le_rfl)
  · refine (unary_past hn c).bind fun ⟨_, d⟩ hd => past_of_lt hd ?_
    refine (chain_onward hn allowIn _ _ le_rfl).bind fun _ h => ?_
    refine (peek?_onward false h).bind fun q hq => ?_
    dsimp only
    split
    · split
      · exact (hn.onward _ hq.after).bind fun _ h => .some h
      · exact .none
    · refine (hn.onward _ hq.after).bind fun _ h => ?_
      refine (expectMark_onward ":" h).bind fun _ h => ?_
      exact (hn.onward _ h).bind fun _ h => .some h
    · split
      · exact (hn.onward _ hq.after).bind fun _ h => .some h
      · exact .some h
    · exact .some h

end

end Ambient.Script
