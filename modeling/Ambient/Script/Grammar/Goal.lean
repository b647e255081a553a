import Ambient.Script.Basic
import Ambient.Script.Token

/-!
# Goals of the script grammar

The grammar is a set of rules over a reader of the goals nested in them, so that each rule is a
plain function. A goal nested in another one comes after a token of it, which bounds how deep the
goals of a text can nest.

* `Goal`, `Operand`, `Reader`, `Nested`;
* the readers of single tokens.
-/

namespace Ambient.Script

/-- What an expression looks like, as far as the rules around it depend on it. -/
inductive Shape
  /-- A name by itself. -/
  | name (text : String)
  | object
  | array
  /-- What stands in parentheses. -/
  | group
  | other
  deriving DecidableEq, Repr

/-- An expression and its shape. -/
structure Operand where
  value : Expression
  shape : Shape

/-- An expression that is known by its kind alone. -/
def Operand.ofKind (kind : String) : Operand := ⟨.unsupported kind, .other⟩

/-- What a rule may ask to be read inside it. -/
inductive Goal
  /-- An expression without commas; the word `in` may be kept from being an operator. -/
  | assignment (allowIn : Bool)
  /-- An operand with the operators before it. -/
  | unary
  /-- What is constructed after `new`. -/
  | constructed
  | statement

/-- What a goal gives. -/
abbrev Goal.Result : Goal → Type
  | .assignment _ | .unary | .constructed => Operand
  | .statement => Form

/-- Reads a part from a place on, and tells the place after its last token. -/
abbrev Reader (α : Type) := Cursor → Option (α × Cursor)

/-- A reader of every goal. -/
abbrev Nested := (goal : Goal) → Reader goal.Result

/-- Words that cannot be names. -/
def reservedWords : List String :=
  ["break", "case", "catch", "class", "const", "continue", "debugger", "default", "delete", "do",
    "else", "export", "extends", "finally", "for", "function", "if", "import", "in", "instanceof",
    "new", "return", "super", "switch", "this", "throw", "try", "typeof", "var", "void", "while",
    "with", "null", "true", "false"]

/-- Reads a given mark. -/
def expectMark (text : String) : Reader Unit := fun c => do
  let p ← c.peek? false
  if p.token = .mark text then some ((), p.after) else none

/-- Reads a given word. -/
def expectWord (text : String) : Reader Unit := fun c => do
  let p ← c.peek? false
  if p.token = .word text then some ((), p.after) else none

/-- Reads any word. -/
def anyWord : Reader String := fun c => do
  let p ← c.peek? false
  match p.token with
  | .word text => some (text, p.after)
  | _ => none

/-- The place after a mark, if it is the next token. -/
def afterMark? (text : String) (c : Cursor) : Option Cursor := (expectMark text c).map (·.2)

/-- The place after a word, if it is the next token. -/
def afterWord? (text : String) (c : Cursor) : Option Cursor := (expectWord text c).map (·.2)

/-- The end of a statement: a semicolon, or nothing where a line ends, a block closes or the text
stops. -/
def endStatement : Reader Unit := fun c => do
  let p ← c.peek? false
  if p.token = .mark ";" then some ((), p.after)
  else if p.newline || p.token = .mark "\x7d" || p.token = .ending then some ((), c)
  else none

/-- A semicolon, if there is one. -/
def optionalSemicolon (c : Cursor) : Cursor := (afterMark? ";" c).getD c

/-- The literal of a number. -/
def numberLiteral (raw : String) : Expression :=
  match Decimal.Numeral.read raw.toList with
  | .whole n => .literal (.whole n) raw
  | .fraction x => .literal (.real x) raw
  | .other => .literal (.text raw) raw

/-- The literal of a quoted text; its value is what stands between the quotes. -/
def quotedLiteral (raw : String) : Expression :=
  .literal (.text (String.ofList ((raw.toList.drop 1).take (raw.length - 2)))) raw

end Ambient.Script
