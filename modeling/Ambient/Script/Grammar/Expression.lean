import Ambient.Script.Grammar.Goal

/-!
# Expressions

The rules of expressions. Operators of every rank give the same kind, so they are read as a chain
without ranks. What stands in parentheses is read once, whether it turns out to be the parameters
of an arrow function or an operand, and an object or a list is read once, whether it turns out to
be a value or the pattern of an assignment.

* `items`: what stands between commas in brackets;
* `primary`, `suffixes`, `unary`, `chain`, `assignment`, `sequence`.
-/

namespace Ambient.Script

/-- What stands between two commas. -/
inductive Piece
  | operand (o : Operand)
  | spread
  | hole

/-- The value of an argument. -/
def Piece.argument : Piece → Expression
  | .operand o => o.value
  | .spread | .hole => .unsupported "spread_element"

/-- The name of a parameter that is a plain name. -/
def Piece.parameter? : Piece → Option String
  | .operand ⟨_, .name text⟩ => if text = "undefined" then none else some text
  | _ => none

/-- Operators between two operands. -/
def binaryMarks : List String :=
  ["+", "-", "*", "/", "%", "**", "<<", ">>", ">>>", "&", "|", "^", "&&", "||", "??", "==", "!=",
    "===", "!==", "<", ">", "<=", ">="]

/-- Operators that combine an assignment with another operator. -/
def augmentedMarks : List String :=
  ["+=", "-=", "*=", "/=", "%=", "**=", "<<=", ">>=", ">>>=", "&=", "|=", "^=", "&&=", "||=",
    "??="]

/-- Whether a token is an operator between two operands. -/
def isBinary (allowIn : Bool) : Token → Bool
  | .mark m => binaryMarks.contains m
  | .word w => w == "instanceof" || (allowIn && w == "in")
  | _ => false

/-- Whether a token can start the key of a member. -/
def startsKey : Token → Bool
  | .word _ | .privateName _ | .number _ | .quoted _ => true
  | .mark m => m == "["
  | _ => false

section

variable (nested : Nested)

/-- What stands between commas up to a closing bracket. The fuel bounds the number of pieces. -/
def items (close : String) : Nat → Reader (List Piece)
  | 0, _ => none
  | fuel + 1, c => do
    let p ← c.peek? true
    if p.token = .mark close then some ([], p.after)
    else if p.token = .mark "," then
      let (rest, c) ← items close fuel p.after
      some (.hole :: rest, c)
    else
      let (piece, c) ←
        if p.token = .mark "..." then
          (nested (.assignment true) p.after).map fun r => (Piece.spread, r.2)
        else (nested (.assignment true) c).map fun r => (Piece.operand r.1, r.2)
      let q ← c.peek? false
      if q.token = .mark close then some ([piece], q.after)
      else if q.token = .mark "," then
        let (rest, c) ← items close fuel q.after
        some (piece :: rest, c)
      else none

/-- What stands between commas after an opening bracket. -/
def itemsUntil (close : String) : Reader (List Piece) := fun c => items nested close (c.left + 1) c

/-- Operands separated by commas. The fuel bounds their number. -/
def sequenceFrom (allowIn : Bool) : Nat → Operand → Reader Operand
  | 0, o, c => some (o, c)
  | fuel + 1, o, c =>
    match afterMark? "," c with
    | some after => do
      let (_, c) ← nested (.assignment allowIn) after
      sequenceFrom allowIn fuel (.ofKind "sequence_expression") c
    | none => some (o, c)

/-- An expression, in which commas may separate operands. -/
def sequence (allowIn : Bool) : Reader Operand := fun c => do
  let (o, c) ← nested (.assignment allowIn) c
  sequenceFrom nested allowIn c.left o c

/-- An expression in parentheses. -/
def condition : Reader Unit := fun c => do
  let (_, c) ← expectMark "(" c
  let (_, c) ← sequence nested true c
  expectMark ")" c

/-- Statements up to a closing brace. The fuel bounds their number. -/
def statementsUntil : Nat → Reader Unit
  | 0, _ => none
  | fuel + 1, c => do
    let p ← c.peek? true
    if p.token = .mark "\x7d" then some ((), p.after)
    else
      let (_, c) ← nested .statement p.start
      statementsUntil fuel c

/-- A block of statements. -/
def block : Reader Unit := fun c => do
  let (_, c) ← expectMark "\x7b" c
  statementsUntil nested (c.left + 1) c

/-- Parameters and body of a function: its parameters that are plain names. -/
def functionTail : Reader (List String) := fun c => do
  let (_, c) ← expectMark "(" c
  let (params, c) ← itemsUntil nested ")" c
  let (_, c) ← block nested c
  some (params.filterMap Piece.parameter?, c)

/-- The body of an arrow function. -/
def arrowBody : Reader Unit := fun c => do
  let p ← c.peek? true
  if p.token = .mark "\x7b" then statementsUntil nested (p.after.left + 1) p.after
  else (nested (.assignment true) c).map fun r => ((), r.2)

/-- The place after an arrow that follows on the same line. -/
def afterArrow? (c : Cursor) : Option Cursor := do
  let p ← c.peek? false
  if p.token = .mark "=>" && !p.newline then some p.after else none

/-- The key of a member. -/
def key : Reader Expression := fun c => do
  let p ← c.peek? true
  match p.token with
  | .word text | .privateName text => some (.identifier text, p.after)
  | .number raw => some (numberLiteral raw, p.after)
  | .quoted raw => some (quotedLiteral raw, p.after)
  | .mark "[" =>
    let (_, c) ← sequence nested true p.after
    let (_, c) ← expectMark "]" c
    some (.unsupported "computed_property_name", c)
  | _ => none

/-- A method after the words before its key. -/
def method : Reader (Expression × Option Expression) := fun c => do
  let (k, c) ← key nested c
  let (_, c) ← functionTail nested c
  some ((k, some (.function [])), c)

/-- Whether a word before a key belongs to a method and is not the key itself. -/
def isMethodWord (text : String) (next : Peek) : Bool :=
  ((text == "get" || text == "set") && startsKey next.token) ||
    (text == "async" && !next.newline && (startsKey next.token || next.token = .mark "*"))

/-- A member of an object. -/
def member : Reader (Expression × Option Expression) := fun c => do
  let p ← c.peek? true
  match p.token with
  | .mark "..." =>
    let (_, c) ← nested (.assignment true) p.after
    some ((.unsupported "spread_element", none), c)
  | .mark "*" => method nested p.after
  | token =>
    let q ← p.after.peek? false
    match token with
    | .word text =>
      if isMethodWord text q then method nested ((afterMark? "*" p.after).getD p.after)
      else if q.token = .mark ":" || q.token = .mark "(" then plain p.start
      else if q.token = .mark "=" then
        let (_, c) ← nested (.assignment true) q.after
        some ((.identifier text, some (.identifier text)), c)
      else some ((.identifier text, some (.identifier text)), p.after)
    | _ => plain p.start
where
  /-- A key with its value, or a method without words before its key. -/
  plain : Reader (Expression × Option Expression) := fun c => do
    let (k, after) ← key nested c
    let p ← after.peek? false
    if p.token = .mark ":" then
      let (o, c) ← nested (.assignment true) p.after
      some ((k, some o.value), c)
    else
      let (_, c) ← functionTail nested after
      some ((k, some (.function [])), c)

/-- The members of an object up to its closing brace. The fuel bounds their number. -/
def members : Nat → Reader (List (Expression × Option Expression))
  | 0, _ => none
  | fuel + 1, c => do
    let p ← c.peek? true
    if p.token = .mark "\x7d" then some ([], p.after)
    else if p.token = .mark "," then members fuel p.after
    else
      let (m, c) ← member nested p.start
      let q ← c.peek? false
      if q.token = .mark "\x7d" then some ([m], q.after)
      else if q.token = .mark "," then
        let (rest, c) ← members fuel q.after
        some (m :: rest, c)
      else none

/-- The words before the key of a class member. The fuel bounds their number. -/
def modifiers : Nat → Cursor → Option Cursor
  | 0, c => some c
  | fuel + 1, c => do
    let p ← c.peek? true
    match p.token with
    | .word text =>
      if ["static", "async", "get", "set"].contains text then
        let q ← p.after.peek? false
        if startsKey q.token || q.token = .mark "*" ||
            (text == "static" && q.token = .mark "\x7b") then modifiers fuel p.after
        else some p.start
      else some p.start
    | .mark "*" => some p.after
    | _ => some p.start

/-- A member of a class. -/
def classMember : Reader Unit := fun c => do
  let c ← modifiers 4 c
  let p ← c.peek? true
  if p.token = .mark "\x7b" then statementsUntil nested (p.after.left + 1) p.after
  else
    let (_, c) ← key nested c
    let q ← c.peek? false
    if q.token = .mark "(" then
      let (_, c) ← functionTail nested c
      some ((), c)
    else if q.token = .mark "=" then
      let (_, c) ← nested (.assignment true) q.after
      endStatement c
    else endStatement c

/-- The members of a class up to its closing brace. The fuel bounds their number. -/
def classMembers : Nat → Reader Unit
  | 0, _ => none
  | fuel + 1, c => do
    let p ← c.peek? true
    if p.token = .mark "\x7d" then some ((), p.after)
    else if p.token = .mark ";" then classMembers fuel p.after
    else
      let (_, c) ← classMember nested p.start
      classMembers fuel c

/-- A class after its name: what it extends and its members. -/
def classTail : Reader Unit := fun c => do
  let c ← match afterWord? "extends" c with
    | some after => (nested .unary after).map (·.2)
    | none => some c
  let (_, c) ← expectMark "\x7b" c
  classMembers nested (c.left + 1) c

/-- The name of a class or a function, if it has one. -/
def optionalName (c : Cursor) : Cursor :=
  match anyWord c with
  | some (text, after) => if reservedWords.contains text then c else after
  | none => c

/-- The pieces of a template up to its end. The fuel bounds their number. -/
def templateTail : Nat → Reader Unit
  | 0, _ => none
  | fuel + 1, c => do
    let (n, final) ← templateChunk? c.rest
    if final then some ((), c.drop n)
    else
      let (_, c) ← sequence nested true (c.drop n)
      let (_, c) ← expectMark "\x7d" c
      templateTail fuel c

/-- What starts with a parenthesis: an arrow function, or an operand. A comment right after the
parenthesis stands for the operand. -/
def parenthesized : Reader Operand := fun c => do
  let p ← c.peek? true
  let (pieces, c) ← itemsUntil nested ")" c
  match afterArrow? c with
  | some after =>
    let (_, c) ← arrowBody nested after
    some (⟨.function (pieces.filterMap Piece.parameter?), .other⟩, c)
  | none =>
    match pieces with
    | [] => none
    | [.operand o] =>
      some (⟨if p.comment then .unsupported "comment" else o.value, .group⟩, c)
    | _ =>
      let kind := if p.comment then "comment" else "sequence_expression"
      some (⟨.unsupported kind, .group⟩, c)

/-- A name, or an arrow function with one parameter. -/
def nameOrArrow (text : String) : Reader Operand := fun c => do
  match afterArrow? c with
  | some after =>
    let (_, c) ← arrowBody nested after
    some (⟨.function [text], .other⟩, c)
  | none => some (⟨.identifier text, .name text⟩, c)

/-- A function after its first word. -/
def functionOperand : Reader Operand := fun c => do
  let c := (afterMark? "*" c).getD c
  let (params, c) ← functionTail nested (optionalName c)
  some (⟨.function params, .other⟩, c)

/-- What starts with the word `async`: a function, an arrow function, or the word as a name. -/
def afterAsync : Reader Operand := fun c => do
  let p ← c.peek? false
  let asName := nameOrArrow nested "async" c
  if p.newline then asName
  else match p.token with
    | .word "function" => functionOperand nested p.after
    | .word text =>
      match afterArrow? p.after with
      | some after =>
        let (_, c) ← arrowBody nested after
        some (⟨.function [text], .other⟩, c)
      | none => asName
    | .mark "(" =>
      match itemsUntil nested ")" p.after with
      | some (pieces, later) =>
        match afterArrow? later with
        | some after =>
          let (_, c) ← arrowBody nested after
          some (⟨.function (pieces.filterMap Piece.parameter?), .other⟩, c)
        | none => asName
      | none => asName
    | _ => asName

/-- What starts with the word `new`. -/
def afterNew : Reader Operand := fun c => do
  match afterMark? "." c with
  | some after =>
    let (_, c) ← expectWord "target" after
    some (.ofKind "meta_property", c)
  | none =>
    let (_, c) ← nested .constructed c
    match afterMark? "(" c with
    | some after =>
      let (_, c) ← itemsUntil nested ")" after
      some (.ofKind "new_expression", c)
    | none => some (.ofKind "new_expression", c)

/-- What starts with the word `import`. -/
def afterImport : Reader Operand := fun c =>
  match afterMark? "." c with
  | some after => do
    let (_, c) ← anyWord after
    some (.ofKind "meta_property", c)
  | none => some (.ofKind "import", c)

/-- An operand without operators and suffixes. -/
def primary : Reader Operand := fun c => do
  let p ← c.peek? true
  match p.token with
  | .number raw => some (⟨numberLiteral raw, .other⟩, p.after)
  | .quoted raw => some (⟨quotedLiteral raw, .other⟩, p.after)
  | .privateName text => (afterWord? "in" p.after).map fun _ =>
    (⟨.identifier text, .other⟩, p.after)
  | .template =>
    let (_, c) ← templateTail nested (p.after.left + 1) p.after
    some (.ofKind "template_string", c)
  | .mark "(" => parenthesized nested p.after
  | .mark "[" =>
    let (_, c) ← itemsUntil nested "]" p.after
    some (⟨.unsupported "array", .array⟩, c)
  | .mark "\x7b" =>
    let (ms, c) ← members nested (p.after.left + 1) p.after
    some (⟨.object ms, .object⟩, c)
  | .mark "/" | .mark "/=" =>
    let n ← regexLength? (p.start.rest.drop 1)
    let raw := String.ofList (p.start.rest.take (n + 1))
    some (⟨.literal (.text raw) raw, .other⟩, p.start.drop (n + 1))
  | .word "this" => some (⟨.this, .other⟩, p.after)
  | .word "null" => some (⟨.literal .null "null", .other⟩, p.after)
  | .word "true" => some (⟨.literal (.boolean true) "true", .other⟩, p.after)
  | .word "false" => some (⟨.literal (.boolean false) "false", .other⟩, p.after)
  | .word "super" => some (.ofKind "super", p.after)
  | .word "function" => functionOperand nested p.after
  | .word "class" =>
    let (_, c) ← classTail nested (optionalName p.after)
    some (.ofKind "class", c)
  | .word "async" => afterAsync nested p.after
  | .word "new" => afterNew nested p.after
  | .word "import" => afterImport p.after
  | .word text => if reservedWords.contains text then none else nameOrArrow nested text p.after
  | _ => none

/-- The property after a point. -/
def property (object : Expression) : Reader Operand := fun c => do
  let p ← c.peek? false
  match p.token with
  | .word text | .privateName text =>
    some (⟨.member object (.identifier text) false, .other⟩, p.after)
  | _ => none

/-- The property between brackets, after the opening one. -/
def subscript (object : Expression) : Reader Operand := fun c => do
  let (o, c) ← sequence nested true c
  let (_, c) ← expectMark "]" c
  some (⟨.member object o.value true, .other⟩, c)

/-- The arguments of a call, after the opening parenthesis. -/
def callTail (callee : Expression) : Reader Operand := fun c => do
  let (pieces, c) ← itemsUntil nested ")" c
  some (⟨.call callee (pieces.map Piece.argument), .other⟩, c)

/-- The properties, calls and templates after an operand; calls only if they are allowed. The fuel
bounds their number. -/
def suffixes (calls : Bool) : Nat → Operand → Reader Operand
  | 0, o, c => some (o, c)
  | fuel + 1, o, c => do
    let p ← c.peek? false
    let next? ← match p.token with
      | .mark "." => (property o.value p.after).map some
      | .mark "[" => (subscript nested o.value p.after).map some
      | .mark "(" => if calls then (callTail nested o.value p.after).map some else some none
      | .template =>
        (templateTail nested (p.after.left + 1) p.after).map fun r =>
          some (⟨.call o.value [], .other⟩, r.2)
      | .mark "?." =>
        let q ← p.after.peek? false
        match q.token with
        | .mark "(" => (callTail nested o.value q.after).map some
        | .mark "[" => (subscript nested o.value q.after).map some
        | .template =>
          (templateTail nested (q.after.left + 1) q.after).map fun r =>
            some (⟨.call o.value [], .other⟩, r.2)
        | _ => (property o.value p.after).map some
      | _ => some none
    match next? with
    | some (o, c) => suffixes calls fuel o c
    | none => some (o, c)

/-- What is constructed after `new`: an operand with its properties. -/
def constructed : Reader Operand := fun c => do
  let (o, c) ← primary nested c
  suffixes nested false c.left o c

/-- The kind of an operand with a word before it. -/
def wordOperator? (text : String) : Option String :=
  if text = "typeof" ∨ text = "void" ∨ text = "delete" then some "unary_expression"
  else if text = "await" then some "await_expression"
  else none

/-- The kind of an operand with a mark before it. -/
def markOperator? (text : String) : Option String :=
  if text = "!" ∨ text = "~" ∨ text = "+" ∨ text = "-" then some "unary_expression"
  else if text = "++" ∨ text = "--" then some "update_expression"
  else none

/-- An operand with the operators on both sides of it. -/
def unary : Reader Operand := fun c => do
  let p ← c.peek? true
  let operator := match p.token with
    | .word text => wordOperator? text
    | .mark text => markOperator? text
    | _ => none
  match operator with
  | some kind => (nested .unary p.after).map fun r => (.ofKind kind, r.2)
  | none =>
    let (o, c) ← primary nested c
    let (o, c) ← suffixes nested true c.left o c
    let q ← c.peek? false
    if (q.token = .mark "++" || q.token = .mark "--") && !q.newline then
      some (.ofKind "update_expression", q.after)
    else some (o, c)

/-- Operands with operators between them. The fuel bounds their number. -/
def chain (allowIn : Bool) : Nat → Operand → Reader Operand
  | 0, o, c => some (o, c)
  | fuel + 1, o, c => do
    let p ← c.peek? false
    if isBinary allowIn p.token then
      let (_, c) ← unary nested p.after
      chain allowIn fuel (.ofKind "binary_expression") c
    else some (o, c)

/-- The target of an assignment: an object or a list there is a pattern. -/
def Operand.target (o : Operand) : Expression :=
  match o.shape with
  | .object => .unsupported "object_pattern"
  | .array => .unsupported "array_pattern"
  | _ => o.value

/-- Whether a value can be assigned to an expression: to a name, a property, a pattern, or what
stands in parentheses. -/
def Operand.isTarget (o : Operand) : Bool :=
  match o.shape, o.value with
  | .other, .member _ _ _ => true
  | .other, _ => false
  | _, _ => true

/-- Whether the word `yield` stands without an operand before a token. -/
def endsYield (p : Peek) : Bool :=
  p.newline || p.token = .ending || p.token = .word "in" || p.token = .word "of" ||
    [")", "]", "\x7d", ",", ";", ":"].any fun m => p.token = .mark m

/-- What starts with the word `yield`. -/
def afterYield (allowIn : Bool) : Reader Operand := fun c => do
  let p ← c.peek? false
  if endsYield p then some (.ofKind "yield_expression", c)
  else
    let c := (afterMark? "*" c).getD c
    let (_, c) ← nested (.assignment allowIn) c
    some (.ofKind "yield_expression", c)

/-- An expression without commas. -/
def assignment (allowIn : Bool) : Reader Operand := fun c => do
  let p ← c.peek? true
  if p.token = .word "yield" then afterYield nested allowIn p.after
  else
    let (o, c) ← unary nested c
    let (o, c) ← chain nested allowIn c.left o c
    let q ← c.peek? false
    match q.token with
    | .mark "=" =>
      if o.isTarget then
        let (right, c) ← nested (.assignment allowIn) q.after
        some (⟨.assignment o.target right.value, .other⟩, c)
      else none
    | .mark "?" =>
      let (_, c) ← nested (.assignment true) q.after
      let (_, c) ← expectMark ":" c
      let (_, c) ← nested (.assignment allowIn) c
      some (.ofKind "ternary_expression", c)
    | .mark m =>
      if augmentedMarks.contains m then
        let (_, c) ← nested (.assignment allowIn) q.after
        some (.ofKind "augmented_assignment_expression", c)
      else some (o, c)
    | _ => some (o, c)

end

end Ambient.Script
