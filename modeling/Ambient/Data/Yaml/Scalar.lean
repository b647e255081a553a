import Ambient.Data.Yaml.Spot
import Ambient.Decimal.Numeral

/-!
# Scalars

A scalar stands in quotes or plain. Both may go on over several lines, where a line end means a
blank and every further one itself.

* `plainScalar`: it ends before a comment, before a colon with a blank after it, where its lines
  are not indented far enough, and, inside brackets, before what structures them;
* `quotedScalar?`: in single quotes, which are doubled inside, or in double quotes, with escapes.
-/

namespace Ambient.Data.Yaml

open Ambient.Decimal

/-! ## Plain scalars -/

/-- The characters that structure lists and tables in brackets. -/
def isBracket (c : Char) : Bool := c = ',' || c = '[' || c = ']' || c = '\x7b' || c = '\x7d'

/-- The characters that start something else than a plain scalar. -/
def isIndicator (c : Char) : Bool :=
  isBracket c || ['#', '&', '*', '!', '|', '>', '\x27', '\x22', '%', '@', '\x60'].contains c

/-- Whether a plain scalar starts here; the flag tells whether this is inside brackets. -/
def startsPlain (inside : Bool) : List Char → Bool
  | [] => false
  | c :: rest =>
    if isGap (c :: rest) || isIndicator c then false
    else if c = '-' then !isGap rest
    else if c = '?' || c = ':' then !inside && !isGap rest
    else true

/-- Whether a colon ends a scalar when this follows it. -/
def endsKey (inside : Bool) (rest : List Char) : Bool :=
  isGap rest || (inside && rest.head?.any isBracket)

/-- The characters up to the next blank or the end of the scalar. -/
def word (inside : Bool) : List Char → List Char
  | [] => []
  | c :: rest =>
    if isGap (c :: rest) || (c = ':' && endsKey inside rest) ||
        (inside && (c = '?' || isBracket c)) then []
    else c :: word inside rest

/-- The blanks and line ends here: what they mean inside a scalar, and the place after them. A
single line end means a blank, and each further one means itself. -/
def fold (s : Spot) : List Char × Spot :=
  let blanks := s.rest.takeWhile (· = ' ')
  match s.rest.dropWhile (· = ' ') with
  | '\n' :: rest =>
    let more := rest.takeWhile fun c => c = ' ' || c = '\n'
    let feeds := more.count '\n'
    (if feeds = 0 then [' '] else List.replicate feeds '\n',
      s.advance (blanks.length + 1 + more.length))
  | _ => (blanks, s.advance blanks.length)

/-- The text of a plain scalar from a place on, after the text before it. Outside brackets its
lines have to stand at the given column or further right. The fuel is the number of its words. -/
def plainFrom (inside : Bool) (floor : Nat) : Nat → List Char → Spot → List Char × Spot
  | 0, text, s => (text, s)
  | fuel + 1, text, s =>
    let w := word inside s.rest
    let after := s.advance w.length
    let (gap, next) := fold after
    if gap.isEmpty || next.isOver || next.rest.head? = some '#' ||
        (!inside && next.column < floor) || (word inside next.rest).isEmpty then (text ++ w, after)
    else plainFrom inside floor fuel (text ++ w ++ gap) next

/-- The text of the plain scalar here, and the place after it. -/
def plainScalar (inside : Bool) (floor : Nat) (s : Spot) : List Char × Spot :=
  plainFrom inside floor (s.rest.length + 1) [] s

/-! ## Quoted scalars -/

/-- A piece of a quoted scalar: a character, one that was escaped, or an escaped line end. -/
inductive Piece
  | char (c : Char)
  | escaped (c : Char)
  | joint

/-- What stands between two characters of a quoted scalar that are not blank: blanks, or a number
of line ends after the first one, which may have been escaped. -/
inductive Gap
  | blanks (s : List Char)
  | feeds (count : Nat)
  | joined (count : Nat)

/-- What a gap means. -/
def Gap.text : Gap → List Char
  | .blanks s => s
  | .feeds 0 => [' ']
  | .feeds n => List.replicate n '\n'
  | .joined n => List.replicate n '\n'

/-- A gap with one more blank or line end. -/
def Gap.add (g : Gap) (c : Char) : Gap :=
  match g with
  | .blanks s => if c = '\n' then .feeds 0 else .blanks (s ++ [c])
  | .feeds n => if c = '\n' then .feeds (n + 1) else g
  | .joined n => if c = '\n' then .joined (n + 1) else g

/-- The text of the pieces of a scalar after a gap. -/
def pieceText (gap : Gap) : List Piece → List Char
  | [] => gap.text
  | .char c :: rest =>
    if c = ' ' || c = '\t' || c = '\n' then pieceText (gap.add c) rest
    else gap.text ++ c :: pieceText (.blanks []) rest
  | .escaped c :: rest => gap.text ++ c :: pieceText (.blanks []) rest
  | .joint :: rest => gap.text ++ pieceText (.joined 0) rest

/-- The pieces up to a single quote, and what follows it; a quote is escaped by a second one. -/
def singlePieces? : List Char → Option (List Piece × List Char)
  | [] => none
  | '\x27' :: '\x27' :: rest => (singlePieces? rest).map fun r => (.escaped '\x27' :: r.1, r.2)
  | c :: rest =>
    if c = '\x27' then some ([], rest)
    else (singlePieces? rest).map fun r => (.char c :: r.1, r.2)

/-- The characters that a letter after a backslash stands for. -/
def escapes : List (Char × Char) :=
  [('0', '\x00'), ('a', '\x07'), ('b', '\x08'), ('t', '\t'), ('\t', '\t'), ('n', '\n'),
    ('v', '\x0b'), ('f', '\x0c'), ('r', '\r'), ('e', '\x1b'), (' ', ' '), ('\x22', '\x22'),
    ('\\', '\\'), ('/', '/'), ('N', '\x85'), ('_', '\xa0'), ('L', '\u2028'), ('P', '\u2029')]

/-- The number of digits of base sixteen that follow a letter after a backslash. -/
def codeLengths : List (Char × Nat) := [('x', 2), ('u', 4), ('U', 8)]

/-- The character with a code. -/
def charOfCode (n : Nat) : Char := if n.isValidChar then Char.ofNat n else Char.ofNat 0xFFFD

/-- The pieces up to a double quote, and what follows it. The fuel is the number of characters. -/
def doublePieces? : Nat → List Char → Option (List Piece × List Char)
  | 0, _ => none
  | _, [] => none
  | fuel + 1, c :: rest =>
    let more (p : Piece) (after : List Char) : Option (List Piece × List Char) :=
      (doublePieces? fuel after).map fun r => (p :: r.1, r.2)
    if c = '\x22' then some ([], rest)
    else if c = '\\' then
      match rest with
      | [] => none
      | '\n' :: after => more .joint after
      | e :: after =>
        match escapes.lookup e, codeLengths.lookup e with
        | some d, _ => more (.escaped d) after
        | none, some n =>
          match (after.take n).mapM (digitValue? 16) with
          | some digits =>
            if digits.length = n then
              more (.escaped (charOfCode (ofDigits 16 digits))) (after.drop n)
            else none
          | none => none
        | none, none => none
    else more (.char c) rest

/-- The text of the quoted scalar here, and the place after it. -/
def quotedScalar? (s : Spot) : Option (List Char × Spot) :=
  let pieces := match s.rest with
    | '\x27' :: rest => singlePieces? rest
    | '\x22' :: rest => doublePieces? (rest.length + 1) rest
    | _ => none
  pieces.map fun r => (pieceText (.blanks []) r.1, s.upTo r.2)

end Ambient.Data.Yaml
