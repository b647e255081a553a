/-!
# Places in a text of lines

Where something stands on its line decides what it belongs to, so the reader knows line and column
of every place.

* `Spot`, `Spot.advance`, `Spot.skip`: over blanks, comments and line ends;
* `Spot.isOver`: whether a document ends here; `Spot.isClosed`: whether the line does.
-/

namespace Ambient.Data.Yaml

/-- A place in a text: what follows it, and where it stands. -/
structure Spot where
  line : Nat
  column : Nat
  rest : List Char

/-- Blanks and line ends, or the end of the text. -/
def isGap : List Char → Bool
  | [] => true
  | c :: _ => c = ' ' || c = '\t' || c = '\n'

namespace Spot

/-- The first place of a text. -/
def first (s : List Char) : Spot := ⟨0, 0, s⟩

/-- The place after a number of characters. -/
def advance : Nat → Spot → Spot
  | 0, s => s
  | n + 1, s =>
    match s.rest with
    | [] => s
    | c :: rest => advance n (if c = '\n' then ⟨s.line + 1, 0, rest⟩ else ⟨s.line, s.column + 1, rest⟩)

/-- The place that a shorter rest of the same text stands at. -/
def upTo (s : Spot) (rest : List Char) : Spot := s.advance (s.rest.length - rest.length)

/-- The first place that is neither blank nor inside a comment. -/
def skipFrom (inComment : Bool) (line column : Nat) : List Char → Spot
  | [] => ⟨line, column, []⟩
  | c :: rest =>
    if c = '\n' then skipFrom false (line + 1) 0 rest
    else if inComment || c = ' ' then skipFrom inComment line (column + 1) rest
    else if c = '#' then skipFrom true line (column + 1) rest
    else ⟨line, column, c :: rest⟩

/-- The next place that is neither blank nor inside a comment. -/
def skip (s : Spot) : Spot := skipFrom false s.line s.column s.rest

/-- The next place on the same line that is not blank. -/
def skipBlanks (s : Spot) : Spot := s.upTo (s.rest.dropWhile (· = ' '))

/-- The mark that a document starts or ends with, if one stands here. -/
def mark? (s : Spot) : Option Char :=
  match s.column, s.rest with
  | 0, '-' :: '-' :: '-' :: rest => if isGap rest then some '-' else none
  | 0, '.' :: '.' :: '.' :: rest => if isGap rest then some '.' else none
  | _, _ => none

/-- Whether a document ends here. -/
def isOver (s : Spot) : Bool := s.rest.isEmpty || s.mark?.isSome

/-- Whether an entry of a list starts here. -/
def isEntry (s : Spot) : Bool :=
  match s.rest with
  | '-' :: rest => isGap rest
  | _ => false

/-- Whether nothing follows on this line but a comment. -/
def isClosed (s : Spot) : Bool := s.skip.isOver || s.skip.line != s.line

end Spot

end Ambient.Data.Yaml
