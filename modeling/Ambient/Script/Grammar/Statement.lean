import Ambient.Script.Grammar.Expression

/-!
# Statements

The rules of statements. Every form is read to its end; a form that declares nothing keeps its kind
alone. A statement without a semicolon ends with its last token.

* `statement`: the rule of all forms;
* `readGoal`: the reader of a goal nested at most so deep.
-/

namespace Ambient.Script

section

variable (nested : Nested)

/-- What is declared or bound: a name, or a pattern in brackets as it is written. -/
def target : Reader String := fun c => do
  let p ← c.peek? true
  match p.token with
  | .word text => if reservedWords.contains text then none else some (text, p.after)
  | .mark "[" =>
    let (_, c) ← itemsUntil nested "]" p.after
    some (p.start.upTo c, c)
  | .mark "\x7b" =>
    let (_, c) ← members nested (p.after.left + 1) p.after
    some (p.start.upTo c, c)
  | _ => none

/-- The value after a declared name, if there is one. -/
def initializer (allowIn : Bool) (c : Cursor) : Option Cursor :=
  match afterMark? "=" c with
  | some after => (nested (.assignment allowIn) after).map (·.2)
  | none => some c

/-- Declared names separated by commas. The fuel bounds their number. -/
def declarators (allowIn : Bool) : Nat → Reader (List String)
  | 0, _ => none
  | fuel + 1, c => do
    let (name, c) ← target nested c
    let c ← initializer nested allowIn c
    match afterMark? "," c with
    | some after =>
      let (names, c) ← declarators allowIn fuel after
      some (name :: names, c)
    | none => some ([name], c)

/-- A declaration of variables after its first word. -/
def variableNames : Reader Form := fun c => do
  let (names, c) ← declarators nested true (c.left + 1) c
  let (_, c) ← endStatement c
  some (.vars names, c)

/-- A declaration of a function after its first word. -/
def functionDeclaration : Reader Form := fun c => do
  let c := (afterMark? "*" c).getD c
  let (name, c) ← anyWord c
  let (_, c) ← functionTail nested c
  some (.function name, c)

/-- A declaration of a class after its first word. -/
def classDeclaration : Reader Form := fun c => do
  let (name, c) ← anyWord c
  if name == "extends" then none
  else
    let (_, c) ← classTail nested c
    some (.unsupported "class_declaration", c)

/-- An expression as a statement. -/
def expressionStatement : Reader Form := fun c => do
  let (o, c) ← sequence nested true c
  let (_, c) ← endStatement c
  some (.expression o.value, c)

/-- A branch after the word `else`, if there is one. -/
def alternative (c : Cursor) : Option Cursor :=
  match afterWord? "else" c with
  | some after => (nested .statement after).map (·.2)
  | none => some c

/-- A form that is a condition and a statement. -/
def guardedStatement (kind : String) : Reader Form := fun c => do
  let (_, c) ← condition nested c
  let (_, c) ← nested .statement c
  some (.unsupported kind, c)

/-- An expression, if the next token is not the given mark. -/
def optionalSequence (close : String) (c : Cursor) : Option Cursor :=
  match afterMark? close c with
  | some _ => some c
  | none => (sequence nested true c).map (·.2)

/-- The rest of a loop over values, after the word `in` or `of`. -/
def loopOver : Reader Form := fun c => do
  let (_, c) ← sequence nested true c
  let (_, c) ← expectMark ")" c
  let (_, c) ← nested .statement c
  some (.unsupported "for_in_statement", c)

/-- The rest of a loop with a condition and a step, after its first part. -/
def loopWhile : Reader Form := fun c => do
  let (_, c) ← expectMark ";" c
  let c ← optionalSequence nested ";" c
  let (_, c) ← expectMark ";" c
  let c ← optionalSequence nested ")" c
  let (_, c) ← expectMark ")" c
  let (_, c) ← nested .statement c
  some (.unsupported "for_statement", c)

/-- The place after the word `in` or `of`. -/
def afterOver? (c : Cursor) : Option Cursor :=
  match afterWord? "of" c with
  | some after => some after
  | none => afterWord? "in" c

/-- Whether a declaration starts with a word, and what follows it. -/
def declares (text : String) (next : Peek) : Bool :=
  text == "var" || text == "const" ||
    (text == "let" && match next.token with
      | .word w => w != "in" && w != "instanceof" && w != "of"
      | .mark m => m == "[" || m == "\x7b"
      | _ => false)

/-- A loop after the word `for`. -/
def forLoop : Reader Form := fun c => do
  let (_, c) ← expectMark "(" ((afterWord? "await" c).getD c)
  let p ← c.peek? true
  if p.token = .mark ";" then loopWhile nested c
  else
    let q ← p.after.peek? false
    let declaration := match p.token with
      | .word text => declares text q
      | _ => false
    if declaration then
      let (_, after) ← target nested p.after
      match afterOver? after with
      | some after => loopOver nested after
      | none =>
        let (_, c) ← declarators nested false (p.after.left + 1) p.after
        loopWhile nested c
    else
      let (_, c) ← sequence nested false c
      match afterOver? c with
      | some after => loopOver nested after
      | none => loopWhile nested c

/-- A loop after the word `do`. -/
def doLoop : Reader Form := fun c => do
  let (_, c) ← nested .statement c
  let (_, c) ← expectWord "while" c
  let (_, c) ← condition nested c
  some (.unsupported "do_statement", optionalSemicolon c)

/-- The cases of a choice up to the closing brace; a statement stands after a label only. The fuel
bounds the number of labels and statements. -/
def cases : Nat → Bool → Reader Unit
  | 0, _ => fun _ => none
  | fuel + 1, labelled => fun c => do
    let p ← c.peek? true
    match p.token with
    | .mark "\x7d" => some ((), p.after)
    | .word "case" =>
      let (_, c) ← sequence nested true p.after
      let (_, c) ← expectMark ":" c
      cases fuel true c
    | .word "default" =>
      let (_, c) ← expectMark ":" p.after
      cases fuel true c
    | _ =>
      if labelled then
        let (_, c) ← nested .statement p.start
        cases fuel true c
      else none

/-- A choice after the word `switch`. -/
def switchStatement : Reader Form := fun c => do
  let (_, c) ← condition nested c
  let (_, c) ← expectMark "\x7b" c
  let (_, c) ← cases nested (c.left + 1) false c
  some (.unsupported "switch_statement", c)

/-- What a handler binds, in parentheses, if it binds anything. -/
def handlerBinding (c : Cursor) : Option Cursor :=
  match afterMark? "(" c with
  | some after => do
    let (_, c) ← target nested after
    let (_, c) ← expectMark ")" c
    some c
  | none => some c

/-- A guarded block after the word `try`. -/
def tryStatement : Reader Form := fun c => do
  let (_, c) ← block nested c
  let handled? ← match afterWord? "catch" c with
    | some after => do
      let c ← handlerBinding nested after
      let (_, c) ← block nested c
      some (some c)
    | none => some none
  match afterWord? "finally" (handled?.getD c) with
  | some after =>
    let (_, c) ← block nested after
    some (.guarded, c)
  | none => handled?.map fun c => (.guarded, c)

/-- A form that may have an operand on the same line. -/
def withOperand (kind : String) : Reader Form := fun c => do
  let p ← c.peek? false
  if p.newline || p.token = .mark ";" || p.token = .mark "\x7d" || p.token = .ending then
    let (_, c) ← endStatement c
    some (.unsupported kind, c)
  else
    let (_, c) ← sequence nested true c
    let (_, c) ← endStatement c
    some (.unsupported kind, c)

/-- A form that may have a label on the same line. -/
def withLabel (kind : String) : Reader Form := fun c => do
  let p ← c.peek? false
  let c := match p.token with
    | .word _ => if p.newline then c else p.after
    | _ => c
  let (_, c) ← endStatement c
  some (.unsupported kind, c)

/-- The tokens between braces, after the opening one. The fuel bounds their number. -/
def names : Nat → Reader Unit
  | 0, _ => none
  | fuel + 1, c => do
    let p ← c.peek? false
    match p.token with
    | .mark "\x7d" => some ((), p.after)
    | .word _ | .quoted _ | .mark "," => names fuel p.after
    | _ => none

/-- The name of a module, with its attributes. -/
def moduleName : Reader Unit := fun c => do
  let p ← c.peek? false
  match p.token with
  | .quoted _ =>
    let attributes? := (afterWord? "with" p.after).or (afterWord? "assert" p.after)
    match attributes? with
    | some after =>
      let (_, c) ← expectMark "\x7b" after
      let (_, c) ← members nested (c.left + 1) c
      some ((), c)
    | none => some ((), p.after)
  | _ => none

/-- The module something is taken from. -/
def fromModule : Reader Unit := fun c => do
  let (_, c) ← expectWord "from" c
  moduleName nested c

/-- What an import names before its module. The fuel bounds the number of tokens. -/
def importNames : Nat → Reader Unit
  | 0, _ => none
  | fuel + 1, c => do
    let p ← c.peek? false
    match p.token with
    | .word "from" =>
      let q ← p.after.peek? false
      match q.token with
      | .quoted _ => moduleName nested p.after
      | _ => importNames fuel p.after
    | .word _ | .mark "*" | .mark "," => importNames fuel p.after
    | .mark "\x7b" =>
      let (_, c) ← names (p.after.left + 1) p.after
      importNames fuel c
    | _ => none

/-- An import after its first word. -/
def importStatement : Reader Form := fun c => do
  let p ← c.peek? false
  let q ← p.after.peek? false
  let (_, c) ← match p.token, q.token with
    | .quoted _, _ => moduleName nested c
    | .word "from", .quoted _ => none
    | _, _ => importNames nested (c.left + 1) c
  let (_, c) ← endStatement c
  some (.unsupported "import_statement", c)

/-- A function or a class that is exported as such: one without a name may end in a semicolon. -/
def exportedValue : Reader Unit := fun c => do
  let p ← c.peek? true
  let q ← p.after.peek? false
  let declared (after : Cursor) (tail : Reader Unit) : Option (Unit × Cursor) := do
    let (_, c) ← tail (optionalName after)
    let named := (optionalName after).offset != after.offset
    some ((), if named then c else optionalSemicolon c)
  let body : Reader Unit := fun c => (functionTail nested c).map fun r => ((), r.2)
  match p.token with
  | .word "class" => declared p.after (classTail nested)
  | .word "function" => declared ((afterMark? "*" p.after).getD p.after) body
  | .word "async" =>
    if q.token = .word "function" && !q.newline then
      declared ((afterMark? "*" q.after).getD q.after) body
    else expression p.start
  | _ => expression p.start
where
  /-- An exported expression. -/
  expression : Reader Unit := fun c => do
    let (_, c) ← nested (.assignment true) c
    endStatement c

/-- An export after its first word. -/
def exportStatement : Reader Form := fun c => do
  let p ← c.peek? true
  let c ← match p.token with
    | .mark "*" => do
      let c := match afterWord? "as" p.after with
        | some after => ((after.peek? false).map (·.after)).getD after
        | none => p.after
      let (_, c) ← fromModule nested c
      (endStatement c).map (·.2)
    | .mark "\x7b" => do
      let (_, c) ← names (p.after.left + 1) p.after
      let c := ((fromModule nested c).map (·.2)).getD c
      (endStatement c).map (·.2)
    | .word "default" => (exportedValue nested p.after).map (·.2)
    | _ => (nested .statement p.start).map (·.2)
  some (.unsupported "export_statement", c)

/-- The rule of a form that starts with a word of the language; nothing for other words. -/
def keywordStatement? (text : String) : Option (Reader Form) :=
  match text with
  | "if" => some fun c => do
    let (_, c) ← condition nested c
    let (_, c) ← nested .statement c
    let c ← alternative nested c
    some (.conditional, c)
  | "try" => some (tryStatement nested)
  | "for" => some (forLoop nested)
  | "while" => some (guardedStatement nested "while_statement")
  | "with" => some (guardedStatement nested "with_statement")
  | "do" => some (doLoop nested)
  | "switch" => some (switchStatement nested)
  | "return" => some (withOperand nested "return_statement")
  | "throw" => some fun c => do
    let (_, c) ← sequence nested true c
    let (_, c) ← endStatement c
    some (.unsupported "throw_statement", c)
  | "break" => some (withLabel "break_statement")
  | "continue" => some (withLabel "continue_statement")
  | "debugger" => some fun c => do
    let (_, c) ← endStatement c
    some (.unsupported "debugger_statement", c)
  | "function" => some (functionDeclaration nested)
  | "class" => some (classDeclaration nested)
  | "export" => some (exportStatement nested)
  | _ => none

/-- A form that starts with a word. -/
def wordStatement (text : String) (p : Peek) : Option (Form × Cursor) := do
  let q ← p.after.peek? false
  if declares text q then variableNames nested p.after
  else if text == "async" && q.token = .word "function" && !q.newline then
    functionDeclaration nested q.after
  else if text == "import" && q.token ≠ .mark "(" && q.token ≠ .mark "." then
    importStatement nested p.after
  else match keywordStatement? nested text with
    | some rule => rule p.after
    | none =>
      if q.token = .mark ":" && !reservedWords.contains text then
        let (_, c) ← nested .statement q.after
        some (.unsupported "labeled_statement", c)
      else expressionStatement nested p.start

/-- A statement. -/
def statement : Reader Form := fun c => do
  let p ← c.peek? true
  match p.token with
  | .mark ";" => some (.unsupported "empty_statement", p.after)
  | .mark "\x7b" =>
    let (_, c) ← statementsUntil nested (p.after.left + 1) p.after
    some (.unsupported "statement_block", c)
  | .word text => wordStatement nested text p
  | _ => expressionStatement nested p.start

/-- The rule of a goal. -/
def ruleOf : Nested
  | .assignment allowIn => assignment nested allowIn
  | .unary => unary nested
  | .constructed => constructed nested
  | .statement => statement nested

end

/-- The reader of a goal nested at most `depth` deep. -/
def readGoal : Nat → Nested
  | 0, _ => fun _ => none
  | depth + 1, goal => ruleOf (readGoal depth) goal

end Ambient.Script
