import Ambient.TypeExpr.Token

/-!
# Phrases of the type grammar

The grammar of type expressions, read with one token of lookahead:

    root    ::= ... [union] | union [=]
    union   ::= type (| type)*
    type    ::= ? [type] | ! type | postfixed
    postfixed ::= basic (? | ! | [ ])*
    basic   ::= * | ( type (| type)* ) | [ [items] ] | { [fields] }
              | function ( [params] ) [: type] | name [.< [items] > | < [items] >]
    items   ::= union (, union)*
    param   ::= ... [type] | name : type | union [=]
    field   ::= key [: union [=]]

Where a `?` could stand alone or wrap what follows it, it wraps; a mark after a type belongs to the
nearest operand. A `Phrase` keeps the way each part was written, so its tokens can be listed again.

* `Phrase`;
* `Phrase.Reader`: readers that say where they could not go on;
* `Phrase.root`, the reader of a whole expression.
-/

namespace Ambient.TypeExpr

/-- A mark before a type. -/
inductive Lead
  | question
  | bang
  deriving DecidableEq, Repr

/-- A mark after a type. -/
inductive Trail
  | question
  | bang
  | brackets
  deriving DecidableEq, Repr

/-- A part of a type expression as it was written. -/
inductive Phrase
  | name (text : String)
  | all
  | unknown
  | group (members : List Phrase)
  | tuple (items : List Phrase)
  | record (fields : List Phrase)
  | application (base : String) (dotted : Bool) (arguments : List Phrase)
  /-- A function type without a result. -/
  | function (params : List Phrase)
  /-- A function type with a result. -/
  | functionTo (params : List Phrase) (result : Phrase)
  | lead (mark : Lead) (inner : Phrase)
  | trail (inner : Phrase) (mark : Trail)
  /-- Two or more types joined by bars. -/
  | union (members : List Phrase)
  | optional (inner : Phrase)
  | bareEllipsis
  | variadic (inner : Phrase)
  /-- A labelled parameter, with the position of its label. -/
  | labelled (label : String) (position : Nat) (inner : Phrase)
  /-- A record key without a value. -/
  | key (key : Located)
  /-- A record key with its value. -/
  | field (key : Located) (value : Phrase)
  deriving Inhabited

namespace Phrase

/-- Reads a part from the front of the tokens; an error tells the tokens from the first one that
does not fit. -/
abbrev Reader (α : Type) := List Located → Except (List Located) (α × List Located)

/-- Reads one given token. -/
def expect (token : Token) : Reader Unit
  | l :: rest => if l.token = token then .ok ((), rest) else .error (l :: rest)
  | [] => .error []

/-- One or more parts with a separator between each two; the fuel is the number of separators that
can follow. -/
def separated {α : Type} (sep : Token) (part : Reader α) : Nat → Reader (List α)
  | 0, tokens => do
    let (x, rest) ← part tokens
    .ok ([x], rest)
  | fuel + 1, tokens => do
    let (x, rest) ← part tokens
    match rest with
    | [] => .ok ([x], [])
    | l :: after =>
      if l.token = sep then
        let (xs, rest) ← separated sep part fuel after
        .ok (x :: xs, rest)
      else .ok ([x], l :: after)

/-- Parts separated by commas up to a closing token, possibly none. -/
def listed {α : Type} (close : Token) (part : Reader α) : Reader (List α)
  | [] => .error []
  | l :: rest =>
    if l.token = close then .ok ([], rest)
    else do
      let (xs, rest) ← separated .comma part rest.length (l :: rest)
      let (_, rest) ← expect close rest
      .ok (xs, rest)

/-- Whether a type can start here. -/
def starts : List Located → Bool
  | l :: _ => l.token.startsType
  | [] => false

/-- The marks after a type. -/
def trails (inner : Phrase) : Reader Phrase
  | ⟨.question, _⟩ :: rest => trails (.trail inner .question) rest
  | ⟨.bang, _⟩ :: rest => trails (.trail inner .bang) rest
  | ⟨.openBracket, _⟩ :: ⟨.closeBracket, _⟩ :: rest => trails (.trail inner .brackets) rest
  | ⟨.openBracket, _⟩ :: rest => .error rest
  | tokens => .ok (inner, tokens)

section

/-! ## The rules, over a reader of the types inside -/

variable (inside : Reader Phrase)

/-- One type, or several joined by bars. -/
def unionOf : Reader Phrase := fun tokens => do
  let (members, rest) ← separated .bar inside tokens.length tokens
  match members with
  | [one] => .ok (one, rest)
  | _ => .ok (.union members, rest)

/-- A union that may be marked optional. -/
def optionalUnion : Reader Phrase := fun tokens => do
  let (inner, rest) ← unionOf inside tokens
  match rest with
  | ⟨.equals, _⟩ :: after => .ok (.optional inner, after)
  | _ => .ok (inner, rest)

/-- A parameter of a function type. -/
def param : Reader Phrase
  | ⟨.ellipsis, _⟩ :: rest =>
    if starts rest then do
      let (inner, rest) ← inside rest
      .ok (.variadic inner, rest)
    else .ok (.bareEllipsis, rest)
  | ⟨.name label, position⟩ :: ⟨.colon, _⟩ :: rest => do
    let (inner, rest) ← inside rest
    .ok (.labelled label position inner, rest)
  | tokens => optionalUnion inside tokens

/-- A key of a record, with its value if it has one. -/
def fieldOf : Reader Phrase
  | [] => .error []
  | l :: rest =>
    match l.token with
    | .name _ | .quoted _ _ | .number _ =>
      match rest with
      | ⟨.colon, _⟩ :: after => do
        let (value, rest) ← optionalUnion inside after
        .ok (.field l value, rest)
      | _ => .ok (.key l, rest)
    | _ => .error (l :: rest)

/-- A function type after its first word. -/
def functionTail : Reader Phrase := fun tokens => do
  let (_, rest) ← expect .openParen tokens
  let (params, rest) ← listed .closeParen (param inside) rest
  match rest with
  | ⟨.colon, _⟩ :: after =>
    let (result, rest) ← inside after
    .ok (.functionTo params result, rest)
  | _ => .ok (.function params, rest)

/-- A name, with its type arguments if it has any. -/
def named (base : String) : Reader Phrase
  | ⟨.dotLess, _⟩ :: rest => do
    let (arguments, rest) ← listed .greater (unionOf inside) rest
    .ok (.application base true arguments, rest)
  | ⟨.less, _⟩ :: rest => do
    let (arguments, rest) ← listed .greater (unionOf inside) rest
    .ok (.application base false arguments, rest)
  | tokens => .ok (.name base, tokens)

/-- A type without marks. -/
def basic : Reader Phrase
  | [] => .error []
  | l :: rest =>
    match l.token with
    | .star => .ok (.all, rest)
    | .openParen => do
      let (members, rest) ← separated .bar inside rest.length rest
      let (_, rest) ← expect .closeParen rest
      .ok (.group members, rest)
    | .openBracket => do
      let (items, rest) ← listed .closeBracket (unionOf inside) rest
      .ok (.tuple items, rest)
    | .openBrace => do
      let (fields, rest) ← listed .closeBrace (fieldOf inside) rest
      .ok (.record fields, rest)
    | .function => functionTail inside rest
    | .name base => named inside base rest
    | _ => .error (l :: rest)

/-- A type with its marks. -/
def typeOf : Reader Phrase
  | ⟨.question, _⟩ :: rest =>
    if starts rest then do
      let (inner, rest) ← inside rest
      .ok (.lead .question inner, rest)
    else .ok (.unknown, rest)
  | ⟨.bang, _⟩ :: rest => do
    let (inner, rest) ← inside rest
    .ok (.lead .bang inner, rest)
  | tokens => do
    let (inner, rest) ← basic inside tokens
    trails inner rest

end

/-- The reader of types nested at most `depth` deep. -/
def typeWithin : Nat → Reader Phrase
  | 0 => fun tokens => .error tokens
  | depth + 1 => typeOf (typeWithin depth)

/-- A whole expression: a variadic type, or a union that may be marked optional. Every type inside
another one follows a token, so no text nests deeper than it is long. -/
def root : Reader Phrase := fun tokens =>
  let inside := typeWithin (tokens.length + 1)
  match tokens with
  | ⟨.ellipsis, _⟩ :: rest =>
    if starts rest then do
      let (inner, rest) ← unionOf inside rest
      .ok (.variadic inner, rest)
    else .ok (.bareEllipsis, rest)
  | _ => optionalUnion inside tokens

end Phrase

end Ambient.TypeExpr
