import Ambient.Text.Word

/-!
# Tokens of type expressions

Blanks separate tokens and mean nothing. A name is a chain of words joined by single points; the
word `function` is a token of its own. A character that starts no token ends the scan, and is held
against the text only if a reader of the tokens gets that far.

* `Token`, `Located`, `Scan`;
* `Token.read?`: the token a text starts with, and what follows it;
* `Scan.ofText`.
-/

namespace Ambient.TypeExpr

/-- A token of a type expression. -/
inductive Token
  | ellipsis
  | dotLess
  | less
  | greater
  | bar
  | equals
  | question
  | bang
  | star
  | comma
  | colon
  | openParen
  | closeParen
  | openBracket
  | closeBracket
  | openBrace
  | closeBrace
  | function
  /-- A dotted name. -/
  | name (text : String)
  /-- A key in quotes, of either kind. -/
  | quoted (mark : Char) (body : String)
  | number (text : String)
  deriving DecidableEq, Repr

namespace Token

/-- A token as it is written. -/
def text : Token → String
  | .ellipsis => "..."
  | .dotLess => ".<"
  | .less => "<"
  | .greater => ">"
  | .bar => "|"
  | .equals => "="
  | .question => "?"
  | .bang => "!"
  | .star => "*"
  | .comma => ","
  | .colon => ":"
  | .openParen => "("
  | .closeParen => ")"
  | .openBracket => "["
  | .closeBracket => "]"
  | .openBrace => "\x7b"
  | .closeBrace => "\x7d"
  | .function => "function"
  | .name t => t
  | .quoted mark body => mark.toString ++ body ++ mark.toString
  | .number t => t

/-- The tokens of one character. -/
def ofChar? : Char → Option Token
  | '<' => some .less
  | '>' => some .greater
  | '|' => some .bar
  | '=' => some .equals
  | '?' => some .question
  | '!' => some .bang
  | '*' => some .star
  | ',' => some .comma
  | ':' => some .colon
  | '(' => some .openParen
  | ')' => some .closeParen
  | '[' => some .openBracket
  | ']' => some .closeBracket
  | '\x7b' => some .openBrace
  | '\x7d' => some .closeBrace
  | _ => none

/-- The characters between tokens. -/
def isSpace (c : Char) : Bool :=
  c == ' ' || c == '\t' || c == '\n' || c == '\r' || c == '\x0c'

/-- The characters a name, and each word of it, can start with. -/
def isNameStart (c : Char) : Bool := c.isAlpha || c == '_' || c == '$'

/-- The characters of a word after the first. -/
def isNamePart (c : Char) : Bool := Text.isWord c || c == '$'

/-- The rest of a name whose first character has been read, and what follows it. A point belongs to
the name if another word starts right after it. -/
def nameTail : List Char → List Char × List Char
  | [] => ([], [])
  | c :: rest =>
    if isNamePart c || (c == '.' && rest.head?.any isNameStart) then
      let (tail, after) := nameTail rest
      (c :: tail, after)
    else ([], c :: rest)

/-- The digits of a number without its sign, with a point between two digits, and what follows. -/
def numberTail (s : List Char) : List Char × List Char :=
  let whole := s.takeWhile Text.isDigit
  match s.dropWhile Text.isDigit with
  | '.' :: after =>
    if after.head?.any Text.isDigit then
      (whole ++ '.' :: after.takeWhile Text.isDigit, after.dropWhile Text.isDigit)
    else (whole, '.' :: after)
  | after => (whole, after)

/-- The token of a name: `function` is none. -/
def ofName (text : String) : Token := if text = "function" then .function else .name text

/-- The token a text starts with, and the text after it. -/
def read? : List Char → Option (Token × List Char)
  | '.' :: '.' :: '.' :: rest => some (.ellipsis, rest)
  | '.' :: '<' :: rest => some (.dotLess, rest)
  | [] => none
  | c :: rest =>
    match ofChar? c with
    | some token => some (token, rest)
    | none =>
      if isNameStart c then
        let (tail, after) := nameTail rest
        some (ofName (String.ofList (c :: tail)), after)
      else if c == '\x27' || c == '\x22' then
        match rest.dropWhile (· ≠ c) with
        | _ :: after => some (.quoted c (String.ofList (rest.takeWhile (· ≠ c))), after)
        | [] => none
      else if Text.isDigit c then
        let (digits, after) := numberTail (c :: rest)
        some (.number (String.ofList digits), after)
      else if c == '-' && rest.head?.any Text.isDigit then
        let (digits, after) := numberTail rest
        some (.number (String.ofList ('-' :: digits)), after)
      else none

/-- A token some type can start with. -/
def startsType : Token → Bool
  | .question | .bang | .star | .openParen | .openBracket | .openBrace | .function | .name _ => true
  | _ => false

end Token

/-- A token and the position of its first character. -/
structure Located where
  token : Token
  position : Nat
  deriving DecidableEq, Repr

/-- Why a scan stopped. -/
inductive Ending
  | endOfText
  | illegal (character : Char) (position : Nat)
  deriving DecidableEq, Repr

/-- The tokens of a text up to its end or to a character that starts none. -/
structure Scan where
  tokens : List Located
  ending : Ending
  deriving DecidableEq, Repr

/-- The tokens from a position on, with one unit of fuel for each character left. -/
def Scan.from : Nat → Nat → List Char → Scan
  | _, _, [] => ⟨[], .endOfText⟩
  | 0, position, c :: _ => ⟨[], .illegal c position⟩
  | fuel + 1, position, c :: rest =>
    if Token.isSpace c then Scan.from fuel (position + 1) rest
    else match Token.read? (c :: rest) with
      | none => ⟨[], .illegal c position⟩
      | some (token, after) =>
        let scan := Scan.from fuel (position + token.text.length) after
        ⟨⟨token, position⟩ :: scan.tokens, scan.ending⟩

/-- The tokens of a text. -/
def Scan.ofText (s : List Char) : Scan := Scan.from s.length 0 s

end Ambient.TypeExpr
