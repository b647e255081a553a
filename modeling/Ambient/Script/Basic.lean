import Ambient.Decimal.Numeral
import Ambient.Doc.Block

/-!
# Scripts

The statements of a script, as far as declarations depend on them. What declares nothing is kept by
the name of its kind.

* `Expression`, `Literal`;
* `Statement`: its form, its source text, the line it starts on and the comments before it;
* `Statement.assigned?`, `Statement.headline`.
-/

namespace Ambient.Script

open Ambient.Decimal (Binary64)
open Ambient.Doc (Comment)

/-- The value of a literal. -/
inductive Literal
  | text (s : String)
  | whole (n : Int)
  | real (x : Binary64)
  | boolean (b : Bool)
  | null
  deriving DecidableEq, Repr

/-- The text a literal stands for when a name is wanted. -/
def Literal.spelling : Literal → String
  | .text s => s
  | .whole n => toString n
  | .real x => x.text
  | .boolean b => if b then "True" else "False"
  | .null => "None"

/-- An expression. -/
inductive Expression
  | identifier (name : String)
  | this
  | literal (value : Literal) (raw : String)
  /-- `object.property`, or `object[property]` if computed. -/
  | member (object property : Expression) (computed : Bool)
  | assignment (left right : Expression)
  | call (callee : Expression) (arguments : List Expression)
  /-- A function of any form, with its parameters that are plain names. -/
  | function (params : List String)
  /-- An object, with the keys of its members and their values. -/
  | object (members : List (Expression × Option Expression))
  | unsupported (kind : String)
  deriving Inhabited

/-- The name of the kind of an expression. -/
def Expression.kind : Expression → String
  | .identifier _ => "Identifier"
  | .this => "ThisExpression"
  | .literal _ _ => "Literal"
  | .member _ _ _ => "MemberExpression"
  | .assignment _ _ => "AssignmentExpression"
  | .call _ _ => "CallExpression"
  | .function _ => "FunctionExpression"
  | .object _ => "ObjectExpression"
  | .unsupported _ => "UnsupportedExpression"

/-- The form of a statement. -/
inductive Form
  | expression (e : Expression)
  | function (name : String)
  | vars (names : List String)
  | conditional
  | guarded
  | unsupported (kind : String)
  deriving Inhabited

/-- The name of the kind of a statement. -/
def Form.kind : Form → String
  | .expression _ => "ExpressionStatement"
  | .function _ => "FunctionDeclaration"
  | .vars _ => "VariableDeclaration"
  | .conditional => "IfStatement"
  | .guarded => "TryStatement"
  | .unsupported _ => "UnsupportedStatement"

/-- A statement of a script. -/
structure Statement where
  form : Form
  line : Nat
  text : String
  comments : List Comment
  deriving Inhabited

namespace Statement

/-- The value of a statement `target = value`. -/
def assigned? (s : Statement) : Option Expression :=
  match s.form with
  | .expression (.assignment _ right) => some right
  | _ => none

/-- Whether a statement is of the form `target = value`. -/
def isAssignment (s : Statement) : Bool := s.assigned?.isSome

/-- How much of a line that exceeds the limit stays in front of an ellipsis; a limit without room
for one counts from the end of the line. -/
def room (limit length : Nat) : Nat := if 3 ≤ limit then limit - 3 else length + limit - 3

/-- The first line of a statement, cut off at a length; the kind of one without text. -/
def headline (s : Statement) (limit : Nat) : String :=
  let line := ((Text.linesOf (Text.strip s.text)).head?).getD ""
  let cut :=
    if limit < line.length then
      String.ofList (line.toList.take (room limit line.length)) ++ "..."
    else line
  if cut.isEmpty then s.form.kind else cut

/-- How long a headline in a message may be. -/
def headlineLimit : Nat := 120

/-- The last documentation block before a statement. -/
def documentation? (s : Statement) : Option Comment := (s.comments.filter (·.isDoc)).getLast?

end Statement

end Ambient.Script
