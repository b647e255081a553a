import Ambient.Proofs.Script.Expression
import Ambient.Script.Grammar.Statement

/-!
# Statements are read onward

The readers of statements go on in the same manner as those of expressions. A statement starts with
a token that has a length, so it ends behind its start. That holds of one level of the grammar for
any goals below it, and therefore of all levels.

* `declarators_onward`, `forLoop_onward`, `tryStatement_onward`, `exportStatement_onward`: the forms
  of a statement;
* `keywordStatement?_onward`: the statement that a word opens;
* `statement_past`: a statement ends behind its start;
* **`advances_ruleOf`**: one level of the grammar;
* **`advances_readGoal`**: the whole grammar.
-/

namespace Ambient.Script

variable {c d : Cursor}

/-! ## Readers without goals -/

theorem afterOver?_onward (h : c ≤ d) : Gives (afterOver? d) (c ≤ ·) := by
  unfold afterOver?
  split
  · rename_i after hafter
    exact .some (afterWord?_onward "of" h _ hafter)
  · exact afterWord?_onward "in" h

theorem names_onward (fuel : ℕ) (h : c ≤ d) : Onward c (names fuel d) := by
  induction fuel generalizing d with
  | zero => exact .none
  | succ fuel ih =>
    rw [names]
    refine (peek?_onward false h).bind fun p hp => ?_
    split
    · exact .some hp.after
    iterate 3 exact ih hp.after
    · exact .none

theorem withLabel_onward (kind : String) (h : c ≤ d) : Onward c (withLabel kind d) := by
  refine (peek?_onward false h).bind fun p hp => ?_
  extract_lets place
  have hplace : c ≤ place := by
    unfold place
    split
    · split
      · exact h
      · exact hp.after
    · exact h
  exact (endStatement_onward hplace).bind fun _ h => .some h

section

variable {nested : Nested} (hn : Advances nested)

include hn

/-! ## Declarations -/

theorem target_onward (h : c ≤ d) : Onward c (target nested d) := by
  refine (peek?_onward true h).bind fun p hp => ?_
  split
  · split
    · exact .none
    · exact .some hp.after
  · exact (itemsUntil_onward hn "]" hp.after).bind fun _ h => .some h
  · exact (members_onward hn _ hp.after).bind fun _ h => .some h
  · exact .none

theorem initializer_onward (allowIn : Bool) (h : c ≤ d) :
    Gives (initializer nested allowIn d) (c ≤ ·) := by
  unfold initializer
  split
  · rename_i after hafter
    exact (hn.onward _ (afterMark?_onward "=" h _ hafter)).map fun _ hx => hx
  · exact .some h

theorem declarators_onward (allowIn : Bool) (fuel : ℕ) (h : c ≤ d) :
    Onward c (declarators nested allowIn fuel d) := by
  induction fuel generalizing d with
  | zero => exact .none
  | succ fuel ih =>
    rw [declarators]
    refine (target_onward hn h).bind fun _ h => ?_
    refine (initializer_onward hn allowIn h).bind fun _ h => ?_
    split
    · rename_i after hafter
      exact (ih (afterMark?_onward "," h _ hafter)).bind fun _ h => .some h
    · exact .some h

theorem variableNames_onward (h : c ≤ d) : Onward c (variableNames nested d) := by
  refine (declarators_onward hn true _ h).bind fun _ h => ?_
  exact (endStatement_onward h).bind fun _ h => .some h

theorem functionDeclaration_onward (h : c ≤ d) : Onward c (functionDeclaration nested d) := by
  refine (anyWord_onward (getD_afterMark?_onward "*" h)).bind fun _ h => ?_
  exact (functionTail_onward hn h).bind fun _ h => .some h

theorem classDeclaration_onward (h : c ≤ d) : Onward c (classDeclaration nested d) := by
  refine (anyWord_onward h).bind fun ⟨name, e⟩ h => ?_
  dsimp only
  split
  · exact .none
  · exact (classTail_onward hn h).bind fun _ h => .some h

theorem expressionStatement_past (c : Cursor) : Past c (expressionStatement nested c) := by
  have hsequence : Past c (sequence nested true c) :=
    (hn _ c).bind fun _ h => past_of_lt h (sequenceFrom_onward hn true _ _ le_rfl)
  refine hsequence.bind fun _ hlt => past_of_lt hlt ?_
  exact (endStatement_onward le_rfl).bind fun _ h => .some h

/-! ## Conditions and loops -/

theorem alternative_onward (h : c ≤ d) : Gives (alternative nested d) (c ≤ ·) := by
  unfold alternative
  split
  · rename_i after hafter
    exact (hn.onward .statement (afterWord?_onward "else" h _ hafter)).map fun _ hx => hx
  · exact .some h

theorem guardedStatement_onward (kind : String) (h : c ≤ d) :
    Onward c (guardedStatement nested kind d) := by
  refine (condition_onward hn h).bind fun _ h => ?_
  exact (hn.onward .statement h).bind fun _ h => .some h

theorem optionalSequence_onward (close : String) (h : c ≤ d) :
    Gives (optionalSequence nested close d) (c ≤ ·) := by
  unfold optionalSequence
  split
  · exact .some h
  · exact (sequence_onward hn true h).map fun _ hx => hx

theorem loopOver_onward (h : c ≤ d) : Onward c (loopOver nested d) := by
  refine (sequence_onward hn true h).bind fun _ h => ?_
  refine (expectMark_onward ")" h).bind fun _ h => ?_
  exact (hn.onward .statement h).bind fun _ h => .some h

theorem loopWhile_onward (h : c ≤ d) : Onward c (loopWhile nested d) := by
  refine (expectMark_onward ";" h).bind fun _ h => ?_
  refine (optionalSequence_onward hn ";" h).bind fun _ h => ?_
  refine (expectMark_onward ";" h).bind fun _ h => ?_
  refine (optionalSequence_onward hn ")" h).bind fun _ h => ?_
  refine (expectMark_onward ")" h).bind fun _ h => ?_
  exact (hn.onward .statement h).bind fun _ h => .some h

theorem forLoop_onward (h : c ≤ d) : Onward c (forLoop nested d) := by
  have h : c ≤ (afterWord? "await" d).getD d := (afterWord?_onward "await" h).getD h
  refine (expectMark_onward "(" h).bind fun ⟨_, e⟩ h => ?_
  refine (peek?_onward true h).bind fun p hp => ?_
  split
  · exact loopWhile_onward hn h
  refine (peek?_onward false hp.after).bind fun q hq => ?_
  extract_lets declaration
  split
  · refine (target_onward hn hp.after).bind fun ⟨_, f⟩ hf => ?_
    dsimp only
    split
    · rename_i after hafter
      exact loopOver_onward hn (afterOver?_onward hf _ hafter)
    · exact (declarators_onward hn false _ hp.after).bind fun _ h => loopWhile_onward hn h
  · refine (sequence_onward hn false h).bind fun ⟨_, f⟩ hf => ?_
    dsimp only
    split
    · rename_i after hafter
      exact loopOver_onward hn (afterOver?_onward hf _ hafter)
    · exact loopWhile_onward hn hf

theorem doLoop_onward (h : c ≤ d) : Onward c (doLoop nested d) := by
  refine (hn.onward .statement h).bind fun _ h => ?_
  refine (expectWord_onward "while" h).bind fun _ h => ?_
  exact (condition_onward hn h).bind fun _ h => .some (optionalSemicolon_onward h)

/-! ## Choices and guarded blocks -/

theorem cases_onward (fuel : ℕ) (labelled : Bool) (h : c ≤ d) :
    Onward c (cases nested fuel labelled d) := by
  induction fuel generalizing labelled d with
  | zero => exact .none
  | succ fuel ih =>
    rw [cases]
    refine (peek?_onward true h).bind fun p hp => ?_
    split
    · exact .some hp.after
    · refine (sequence_onward hn true hp.after).bind fun _ h => ?_
      exact (expectMark_onward ":" h).bind fun _ h => ih true h
    · exact (expectMark_onward ":" hp.after).bind fun _ h => ih true h
    · split
      · exact (hn.onward .statement hp.start).bind fun _ h => ih true h
      · exact .none

theorem switchStatement_onward (h : c ≤ d) : Onward c (switchStatement nested d) := by
  refine (condition_onward hn h).bind fun _ h => ?_
  refine (expectMark_onward _ h).bind fun _ h => ?_
  exact (cases_onward hn _ false h).bind fun _ h => .some h

theorem handlerBinding_onward (h : c ≤ d) : Gives (handlerBinding nested d) (c ≤ ·) := by
  unfold handlerBinding
  split
  · rename_i after hafter
    refine (target_onward hn (afterMark?_onward "(" h _ hafter)).bind fun _ h => ?_
    exact (expectMark_onward ")" h).bind fun _ h => .some h
  · exact .some h

theorem tryStatement_onward (h : c ≤ d) : Onward c (tryStatement nested d) := by
  refine (block_onward hn h).bind fun ⟨_, e⟩ h => ?_
  dsimp -zeta only
  -- What may follow the first block is one function of the place behind its handler, if it has one.
  extract_lets behind
  have hbehind : ∀ handled?, Gives handled? (c ≤ ·) → Onward c (behind handled?) := by
    intro handled? hhandled
    have hplace : c ≤ handled?.getD e := hhandled.getD h
    unfold behind
    split
    · rename_i after hafter
      exact (block_onward hn (afterWord?_onward "finally" hplace _ hafter)).bind fun _ h => .some h
    · exact hhandled.map fun _ hx => hx
  split
  · rename_i after hafter
    refine (handlerBinding_onward hn (afterWord?_onward "catch" h _ hafter)).bind fun _ h => ?_
    exact (block_onward hn h).bind fun _ h => hbehind _ (.some h)
  · exact hbehind none .none

/-! ## Jumps -/

theorem withOperand_onward (kind : String) (h : c ≤ d) :
    Onward c (withOperand nested kind d) := by
  refine (peek?_onward false h).bind fun p hp => ?_
  split
  · exact (endStatement_onward h).bind fun _ h => .some h
  · refine (sequence_onward hn true h).bind fun _ h => ?_
    exact (endStatement_onward h).bind fun _ h => .some h

/-! ## Modules -/

theorem moduleName_onward (h : c ≤ d) : Onward c (moduleName nested d) := by
  refine (peek?_onward false h).bind fun p hp => ?_
  split
  · dsimp only
    split
    · rename_i after hafter
      have h : c ≤ after :=
        Gives.or (afterWord?_onward "with" hp.after) (afterWord?_onward "assert" hp.after) _ hafter
      refine (expectMark_onward _ h).bind fun _ h => ?_
      exact (members_onward hn _ h).bind fun _ h => .some h
    · exact .some hp.after
  · exact .none

theorem fromModule_onward (h : c ≤ d) : Onward c (fromModule nested d) :=
  (expectWord_onward "from" h).bind fun _ h => moduleName_onward hn h

theorem importNames_onward (fuel : ℕ) (h : c ≤ d) : Onward c (importNames nested fuel d) := by
  induction fuel generalizing d with
  | zero => exact .none
  | succ fuel ih =>
    rw [importNames]
    refine (peek?_onward false h).bind fun p hp => ?_
    split
    · refine (peek?_onward false hp.after).bind fun q hq => ?_
      split
      · exact moduleName_onward hn hp.after
      · exact ih hp.after
    iterate 3 exact ih hp.after
    · exact (names_onward _ hp.after).bind fun _ h => ih h
    · exact .none

theorem importStatement_onward (h : c ≤ d) : Onward c (importStatement nested d) := by
  refine (peek?_onward false h).bind fun p hp => ?_
  refine (peek?_onward false hp.after).bind fun q hq => ?_
  extract_lets behind
  have hbehind : ∀ x, c ≤ x.2 → Onward c (behind x) := fun _ hx =>
    (endStatement_onward hx).bind fun _ h => .some h
  split
  · exact (moduleName_onward hn h).bind hbehind
  · exact Gives.none
  · exact (importNames_onward hn _ h).bind hbehind

theorem exportedValue_expression_onward (h : c ≤ d) :
    Onward c (exportedValue.expression nested d) :=
  (hn.onward _ h).bind fun _ h => endStatement_onward h

theorem exportedValue_onward (h : c ≤ d) : Onward c (exportedValue nested d) := by
  refine (peek?_onward true h).bind fun p hp => ?_
  refine (peek?_onward false hp.after).bind fun q hq => ?_
  extract_lets declared body
  have hdeclared : ∀ {after tail}, c ≤ after → (∀ e, c ≤ e → Onward c (tail e)) →
      Onward c (declared after tail) := by
    intro after tail hafter htail
    refine (htail _ (optionalName_onward hafter)).bind fun _ h => .some ?_
    dsimp only
    split
    · exact h
    · exact optionalSemicolon_onward h
  have hbody : ∀ e, c ≤ e → Onward c (body e) := fun _ he =>
    (functionTail_onward hn he).map fun _ hx => hx
  have hvalue := exportedValue_expression_onward hn hp.start
  split
  · exact hdeclared hp.after fun _ he => classTail_onward hn he
  · exact hdeclared (getD_afterMark?_onward "*" hp.after) hbody
  · split
    · exact hdeclared (getD_afterMark?_onward "*" hq.after) hbody
    · exact hvalue
  · exact hvalue

theorem exportStatement_onward (h : c ≤ d) : Onward c (exportStatement nested d) := by
  refine (peek?_onward true h).bind fun p hp => ?_
  extract_lets behind place
  have hbehind : ∀ {r : Option Cursor}, Gives r (c ≤ ·) → Onward c (r >>= behind) := fun hr =>
    hr.bind fun _ h => .some h
  split
  · have hplace : c ≤ place := by
      unfold place
      split
      · rename_i after hafter
        have h := afterWord?_onward "as" hp.after _ hafter
        exact Gives.getD ((peek?_onward false h).map fun _ hq => hq.after) h
      · exact hp.after
    refine (fromModule_onward hn hplace).bind fun _ h => ?_
    exact hbehind ((endStatement_onward h).map fun _ hx => hx)
  · refine (names_onward _ hp.after).bind fun ⟨_, e⟩ h => ?_
    have hplace : c ≤ ((fromModule nested e).map (·.2)).getD e :=
      Gives.getD ((fromModule_onward hn h).map fun _ hx => hx) h
    exact hbehind ((endStatement_onward hplace).map fun _ hx => hx)
  · exact hbehind ((exportedValue_onward hn hp.after).map fun _ hx => hx)
  · exact hbehind ((hn.onward .statement hp.start).map fun _ hx => hx)

/-! ## All forms -/

theorem keywordStatement?_onward (text : String) (h : c ≤ d) :
    Gives (keywordStatement? nested text) fun rule => Onward c (rule d) := by
  unfold keywordStatement?
  split
  · refine .some ?_
    refine (condition_onward hn h).bind fun _ h => ?_
    refine (hn.onward .statement h).bind fun _ h => ?_
    exact (alternative_onward hn h).bind fun _ h => .some h
  · exact .some (tryStatement_onward hn h)
  · exact .some (forLoop_onward hn h)
  · exact .some (guardedStatement_onward hn _ h)
  · exact .some (guardedStatement_onward hn _ h)
  · exact .some (doLoop_onward hn h)
  · exact .some (switchStatement_onward hn h)
  · exact .some (withOperand_onward hn _ h)
  · refine .some ?_
    refine (sequence_onward hn true h).bind fun _ h => ?_
    exact (endStatement_onward h).bind fun _ h => .some h
  · exact .some (withLabel_onward _ h)
  · exact .some (withLabel_onward _ h)
  · refine .some ?_
    exact (endStatement_onward h).bind fun _ h => .some h
  · exact .some (functionDeclaration_onward hn h)
  · exact .some (classDeclaration_onward hn h)
  · exact .some (exportStatement_onward hn h)
  · exact .none

/-- A word may belong to an expression, which is then read from the word on and not behind it. -/
theorem wordStatement_past (text : String) {p : Peek} (hstart : c ≤ p.start) (hlt : c < p.after) :
    Past c (wordStatement nested text p) := by
  have hexpression : Past c (expressionStatement nested p.start) :=
    (expressionStatement_past hn p.start).mono fun _ hx => hstart.trans_lt hx
  refine (peek?_onward false le_rfl).bind fun q hq => ?_
  split
  · exact past_of_lt hlt (variableNames_onward hn le_rfl)
  split
  · exact past_of_lt hlt (functionDeclaration_onward hn hq.after)
  split
  · exact past_of_lt hlt (importStatement_onward hn le_rfl)
  split
  · rename_i rule hrule
    exact past_of_lt hlt (keywordStatement?_onward hn text le_rfl rule hrule)
  · split
    · exact past_of_lt hlt ((hn.onward .statement hq.after).bind fun _ h => .some h)
    · exact hexpression

theorem statement_past (c : Cursor) : Past c (statement nested c) := by
  refine (peek?_onward true le_rfl).bind fun p hp => ?_
  have hlt : ∀ {t}, p.token = t → t ≠ .ending → c < p.after := fun ht hne => hp.lt_after (ht ▸ hne)
  split
  · rename_i htoken
    exact .some (hlt htoken nofun)
  · rename_i htoken
    refine past_of_lt (hlt htoken nofun) ?_
    exact (statementsUntil_onward hn _ le_rfl).bind fun _ h => .some h
  · rename_i text htoken
    exact wordStatement_past hn text hp.start (hlt htoken nofun)
  · exact (expressionStatement_past hn p.start).mono fun _ hx => hp.start.trans_lt hx

/-- **One level of the grammar is read onward** if the level below it is. -/
theorem advances_ruleOf : Advances (ruleOf nested) := by
  rintro (allowIn | _ | _ | _) c
  · exact assignment_past hn allowIn c
  · exact unary_past hn c
  · exact constructed_past hn c
  · exact statement_past hn c

end

/-- **A goal is read onward**, however deep its parts nest. -/
theorem advances_readGoal (depth : ℕ) : Advances (readGoal depth) := by
  -- At depth zero nothing is read at all.
  induction depth with
  | zero => exact fun _ _ => .none
  | succ depth ih => exact advances_ruleOf ih

end Ambient.Script
