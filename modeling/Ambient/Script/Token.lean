import Ambient.Decimal.Numeral
import Ambient.Script.Cursor

/-!
# Tokens of scripts

A slash is read as an operator here; where an operand is expected, the reader of the grammar asks
for a regular expression instead. A template is read piece by piece around the expressions in it.

* `Token`, `Token.read?`;
* `regexLength?`, `templateChunk?`;
* `Peek`: the next token of a text and what stands before it.
-/

namespace Ambient.Script

/-- A token of a script. -/
inductive Token
  /-- A name or a word of the language, escapes kept as they are written. -/
  | word (text : String)
  /-- A name after `#`, which is part of the text. -/
  | privateName (text : String)
  | number (raw : String)
  | quoted (raw : String)
  | mark (text : String)
  /-- The start of a template. -/
  | template
  | ending
  deriving DecidableEq, Repr

/-- The characters that no name holds, blanks aside. -/
def nameBreakers : List Char :=
  [':', ';', '\x60', '\x22', '\x27', '@', '#', '.', ',', '|', '^', '&', '<', '=', '>', '+', '-',
    '*', '/', '\\', '%', '?', '!', '~', '(', ')', '[', ']', '\x7b', '\x7d']

/-- A character of a name after the first. -/
def isNameChar (c : Char) : Bool := 0x20 ≤ c.toNat && !isSpace c && !nameBreakers.contains c

/-- The length of an escaped character in a name, after its backslash. -/
def escapeLength? : List Char → Option Nat
  | 'u' :: '\x7b' :: rest =>
    let digits := rest.takeWhile fun c => (Decimal.digitValue? 16 c).isSome
    match rest.drop digits.length with
    | '\x7d' :: _ => if digits.isEmpty then none else some (digits.length + 3)
    | _ => none
  | 'u' :: a :: b :: c :: d :: _ =>
    if [a, b, c, d].all fun x => (Decimal.digitValue? 16 x).isSome then some 5 else none
  | _ => none

/-- The length of a name, its first character included; a digit may not come first. The fuel is the
number of characters left. -/
def nameLength : Nat → Bool → List Char → Nat
  | 0, _, _ => 0
  | _, _, [] => 0
  | fuel + 1, first, c :: rest =>
    if c = '\\' then
      match escapeLength? rest with
      | some n => n + 1 + nameLength (fuel - n) false (rest.drop n)
      | none => 0
    else if isNameChar c && !(first && c.isDigit) then 1 + nameLength fuel false rest
    else 0

/-- The length of a quoted text after its opening quote, the closing one included. -/
def quotedLength? (mark : Char) : List Char → Option Nat
  | [] => none
  | '\\' :: '\r' :: '\n' :: rest => (quotedLength? mark rest).map (· + 3)
  | '\\' :: _ :: rest => (quotedLength? mark rest).map (· + 2)
  | c :: rest =>
    if c = mark then some 1
    else if c = '\n' || c = '\r' then none
    else (quotedLength? mark rest).map (· + 1)

/-- Digits and the underscores between them. -/
def isNumberChar (c : Char) : Bool := c.isDigit || c == '_'

/-- The length of an exponent. -/
def exponentLength : List Char → Nat
  | e :: rest =>
    if e = 'e' ∨ e = 'E' then
      let (sign, digits) := match rest with
        | '+' :: more | '-' :: more => (1, more)
        | more => (0, more)
      if digits.head?.any Char.isDigit then 1 + sign + (digits.takeWhile isNumberChar).length else 0
    else 0
  | [] => 0

/-- The length of a number, which starts with a digit or with a point and a digit. -/
def numberLength (s : List Char) : Nat :=
  match s with
  | '0' :: b :: rest =>
    if ['x', 'X', 'o', 'O', 'b', 'B'].contains b then
      2 + (rest.takeWhile fun c => c.isAlphanum || c == '_').length
    else decimal s
  | _ => decimal s
where
  /-- The length of a number in base ten. -/
  decimal (s : List Char) : Nat :=
    let whole := (s.takeWhile isNumberChar).length
    match s.drop whole with
    | '.' :: rest =>
      let fraction := (rest.takeWhile isNumberChar).length
      whole + 1 + fraction + exponentLength (rest.drop fraction)
    | 'n' :: _ => whole + 1
    | rest => whole + exponentLength rest

/-- The operators and brackets, the longest first. -/
def marks : List String :=
  [">>>=", "...", "===", "!==", "**=", "<<=", ">>=", ">>>", "&&=", "||=", "??=", "=>", "==", "!=",
    "<=", ">=", "&&", "||", "??", "?.", "++", "--", "+=", "-=", "*=", "/=", "%=", "&=", "|=", "^=",
    "<<", ">>", "**", "\x7b", "\x7d", "(", ")", "[", "]", ";", ",", "<", ">", "+", "-", "*", "/",
    "%", "&", "|", "^", "!", "~", "?", ":", "=", ".", "@"]

/-- Whether a text starts with another one. -/
def beginsWith : List Char → List Char → Bool
  | [], _ => true
  | c :: cs, d :: s => c = d && beginsWith cs s
  | _ :: _, [] => false

/-- The operator or bracket a text starts with; a `?.` before a digit is none. -/
def mark? (s : List Char) : Option String :=
  marks.find? fun m =>
    beginsWith m.toList s && !(m == "?." && (s.drop 2).head?.any Char.isDigit)

/-- The token a text starts with, and its length. -/
def Token.read? : List Char → Option (Token × Nat)
  | [] => some (.ending, 0)
  | c :: rest =>
    if c = '\x22' ∨ c = '\x27' then
      (quotedLength? c rest).map fun n =>
        (.quoted (String.ofList (c :: rest.take n)), n + 1)
    else if c.isDigit || (c == '.' && rest.head?.any Char.isDigit) then
      let n := numberLength (c :: rest)
      some (.number (String.ofList ((c :: rest).take n)), n)
    else if c = '\x60' then some (.template, 1)
    else if c = '#' then
      let n := nameLength rest.length true rest
      if n = 0 then none else some (.privateName (String.ofList (c :: rest.take n)), n + 1)
    else
      match mark? (c :: rest) with
      | some m => some (.mark m, m.length)
      | none =>
        let n := nameLength (rest.length + 1) true (c :: rest)
        if n = 0 then none else some (.word (String.ofList ((c :: rest).take n)), n)

/-- The length of the body of a regular expression and its closing slash; inside a class a slash is
plain. -/
def regexBody? : Bool → List Char → Option Nat
  | _, [] => none
  | inClass, '\\' :: c :: rest =>
    if isLineEnd c then none else (regexBody? inClass rest).map (· + 2)
  | inClass, c :: rest =>
    if isLineEnd c then none
    else if c = '/' && !inClass then some 1
    else (regexBody? (if c = '[' then true else if c = ']' then false else inClass) rest).map
      (· + 1)

/-- The length of a regular expression with its flags, after its opening slash. -/
def regexLength? (s : List Char) : Option Nat :=
  (regexBody? false s).map fun n =>
    n + ((s.drop n).takeWhile fun c => 'a' ≤ c && c ≤ 'z').length

/-- The length of a piece of a template up to its end or to an expression in it, the mark there
included, and whether it is the end. -/
def templateChunk? : List Char → Option (Nat × Bool)
  | [] => none
  | '\\' :: _ :: rest => (templateChunk? rest).map fun r => (r.1 + 2, r.2)
  | '$' :: '\x7b' :: _ => some (2, false)
  | c :: rest =>
    if c = '\x60' then some (1, true) else (templateChunk? rest).map fun r => (r.1 + 1, r.2)

/-- The next token of a text. -/
structure Peek where
  token : Token
  /-- The place of the token. -/
  start : Cursor
  /-- The place after the token. -/
  after : Cursor
  /-- Whether a line ended before the token. -/
  newline : Bool
  /-- Whether a comment stood before the token. -/
  comment : Bool

/-- The next token from a place on. -/
def Cursor.peek? (c : Cursor) (markup : Bool) : Option Peek := do
  let gap ← c.gap? markup
  let start := c.drop gap.length
  let (token, n) ← Token.read? start.rest
  some ⟨token, start, start.drop n, gap.newline, gap.comment⟩

end Ambient.Script
