import Ambient.Text.Blank
import Ambient.Text.Quoted
import Ambient.TypeExpr.Basic
import Ambient.TypeExpr.Phrase

/-!
# Reading type expressions

A text is scanned, read as a phrase of the grammar, and the phrase is given its meaning. Two rules
are no part of the grammar and are checked when all of the text has been read: a parameter label is
`this` or `new`, and a record key that is a name has no point.

* `TypeExpr.SyntaxError` and its `message`;
* `Phrase.meaning`;
* `TypeExpr.parse`.
-/

namespace Ambient.TypeExpr

/-- What is wrong with the text of a type expression. -/
inductive SyntaxError.Cause
  | empty
  | character (c : Char)
  | token (token : Token)
  | endOfInput
  | label (word : String)
  | key (word : String)
  deriving DecidableEq, Repr

/-- A text that is no type expression: the text, the position of the offence and what it is. -/
structure SyntaxError where
  cause : SyntaxError.Cause
  text : String
  position : Nat
  deriving DecidableEq, Repr

/-- The wording of a cause. -/
def SyntaxError.Cause.wording : SyntaxError.Cause → String
  | .empty => "Empty type expression"
  | .character c => "Unexpected character " ++ Text.quoted c.toString
  | .token t => "Unexpected token " ++ Text.quoted t.text
  | .endOfInput => "Unexpected end of input"
  | .label word => "Unexpected parameter label " ++ Text.quoted word
  | .key word => "Unsupported record key " ++ Text.quoted word

/-- The message of a syntax error. -/
def SyntaxError.message (e : SyntaxError) : String :=
  e.cause.wording ++ " at position " ++ toString e.position ++ " in " ++ Text.quoted e.text

/-- A rule broken outside the grammar, and where. -/
abbrev Fault := SyntaxError.Cause × Nat

/-- What a parameter list has given so far: the plain parameters, and the labelled types, the last
one of each label. -/
structure Params where
  plain : List TypeExpr
  thisType : TypeExpr
  newType : TypeExpr

/-- The type a bare name stands for. -/
def ofName (text : String) : TypeExpr :=
  if text = "null" then .null
  else if text = "undefined" then .undefined
  else if text = "void" then .void
  else .name text

/-- The key a token stands for. -/
def keyOf (l : Located) : Except Fault String :=
  match l.token with
  | .quoted _ body => .ok body
  | .name text => if text.contains '.' then .error (.key text, l.position) else .ok text
  | token => .ok token.text

namespace Phrase

mutual

/-- The type a phrase stands for. -/
def meaning : Phrase → Except Fault TypeExpr
  | .name text => .ok (ofName text)
  | .all => .ok .all
  | .unknown => .ok .unknown
  | .group members => do .ok (.union (← meanings members))
  | .tuple items => do .ok (.tuple (← meanings items))
  | .record fields => do .ok (.record (← meanings fields))
  | .application base _ arguments => do .ok (.application (.name base) (← meanings arguments))
  | .function params => do
    let ps ← paramsOf params
    .ok (.function ps.plain .absent ps.thisType ps.newType)
  | .functionTo params result => do
    let ps ← paramsOf params
    let result ← meaning result
    .ok (.function ps.plain result ps.thisType ps.newType)
  | .lead .question inner => do .ok (.nullable .before (← meaning inner))
  | .lead .bang inner => do .ok (.nonNullable .before (← meaning inner))
  | .trail inner .question => do .ok (.nullable .after (← meaning inner))
  | .trail inner .bang => do .ok (.nonNullable .after (← meaning inner))
  | .trail inner .brackets => do .ok (.application (.name "Array") [← meaning inner])
  | .union members => do .ok (.union (← meanings members))
  | .optional inner => do .ok (.optional (← meaning inner))
  | .bareEllipsis => .ok (.variadic .absent)
  | .variadic inner => do .ok (.variadic (← meaning inner))
  | .labelled _ _ inner => meaning inner
  | .key l => do .ok (.field (← keyOf l) .absent)
  | .field l value => do
    let key ← keyOf l
    .ok (.field key (← meaning value))

/-- The types a list of phrases stands for. -/
def meanings : List Phrase → Except Fault (List TypeExpr)
  | [] => .ok []
  | p :: ps => do
    let t ← meaning p
    .ok (t :: (← meanings ps))

/-- The parameters of a function type, the labelled ones apart. -/
def paramsOf : List Phrase → Except Fault Params
  | [] => .ok ⟨[], .absent, .absent⟩
  | .labelled label position inner :: ps => do
    let t ← meaning inner
    if label ≠ "this" ∧ label ≠ "new" then .error (.label label, position)
    else
      let later ← paramsOf ps
      if label = "this" then
        .ok { later with thisType := if later.thisType matches .absent then t else later.thisType }
      else
        .ok { later with newType := if later.newType matches .absent then t else later.newType }
  | p :: ps => do
    let t ← meaning p
    let later ← paramsOf ps
    .ok { later with plain := t :: later.plain }

end

end Phrase

/-- The error of a reading that stopped before the given tokens. -/
def SyntaxError.at (text : String) (ending : Ending) : List Located → SyntaxError
  | l :: _ => ⟨.token l.token, text, l.position⟩
  | [] =>
    match ending with
    | .illegal c position => ⟨.character c, text, position⟩
    | .endOfText => ⟨.endOfInput, text, text.length⟩

/-- The phrase that is all of a text. -/
def readPhrase (text : String) : Except SyntaxError Phrase :=
  let scan := Scan.ofText text.toList
  match Phrase.root scan.tokens, scan.ending with
  | .ok (phrase, []), .endOfText => .ok phrase
  | .ok (_, rest), ending => .error (.at text ending rest)
  | .error rest, ending => .error (.at text ending rest)

/-- The type a text stands for, blanks around it aside. -/
def parse (text : String) : Except SyntaxError TypeExpr :=
  let stripped := Text.strip text
  if stripped.isEmpty then .error ⟨.empty, text, 0⟩
  else do
    let phrase ← readPhrase stripped
    match phrase.meaning with
    | .ok t => .ok t
    | .error (cause, position) => .error ⟨cause, stripped, position⟩

end Ambient.TypeExpr
