import Ambient.Text.Lines

/-!
# Shell patterns

A pattern matches a whole text: `*` any run of characters (separators of directories and line
feeds included), `?` any character, `[…]` one character of a set. A set that starts with `!` is a
complement; a bracket that is never closed stands for itself. Inside a set `x-y` is a range unless
the hyphen is the first or last character; a range whose ends are reversed is empty, and what
stands around it closes up.

* `Item`, `Pattern.read`, `Pattern.accepts`; `globMatch` on strings.
-/

namespace Ambient.Text

/-- A member of a set in brackets. -/
inductive Range
  | single (c : Char)
  | span (low high : Char)

/-- Whether a character is one of those a range stands for. -/
def Range.holds (r : Range) (c : Char) : Bool :=
  match r with
  | .single d => c == d
  | .span low high => low.toNat ≤ c.toNat && c.toNat ≤ high.toNat

/-- A piece of a pattern. -/
inductive Item
  | run
  | one
  | literal (c : Char)
  | set (complement : Bool) (members : List Range)

/-- Whether a character matches a piece that stands for one character. -/
def Item.holds (item : Item) (c : Char) : Bool :=
  match item with
  | .run | .one => true
  | .literal d => c == d
  | .set complement members => complement != members.any (·.holds c)

/-- The inside of a bracket cut at the hyphens that make ranges; `next` tells how many characters
must pass before a hyphen may. -/
def rangeEnds : Nat → List Char → List (List Char)
  | _, [] => [[]]
  | 0, '-' :: rest => [] :: rangeEnds 2 rest
  | n, c :: rest =>
    match rangeEnds (n - 1) rest with
    | [] => [[c]]
    | piece :: pieces => (c :: piece) :: pieces

/-- A hyphen at the end of a bracket makes no range. -/
def closeLast : List (List Char) → List (List Char)
  | [] => []
  | [piece, []] => [piece ++ ['-']]
  | piece :: pieces => piece :: closeLast pieces

/-- Drops the ranges whose ends are reversed, from the last to the first. -/
def dropReversed : List (List Char) → List (List Char)
  | [] => []
  | piece :: pieces =>
    match dropReversed pieces with
    | next :: others =>
      match piece.getLast?, next with
      | some low, high :: after =>
        if high.toNat < low.toNat then (piece.dropLast ++ after) :: others
        else piece :: next :: others
      | _, _ => piece :: next :: others
    | [] => [piece]

/-- The members of a set: the last character of a piece and the first of the next one are the ends
of a range; where a piece has nothing left, the hyphen stands for itself. -/
def members : List (List Char) → List Range
  | [] => []
  | [piece] => piece.map .single
  | piece :: next :: others =>
    match piece.getLast?, next with
    | some low, high :: after =>
      piece.dropLast.map .single ++ .span low high :: members (after :: others)
    | _, _ => piece.map .single ++ .single '-' :: members (next :: others)
termination_by pieces => pieces.length

/-- The set written between two brackets. -/
def Item.ofBracket (inside : List Char) : Item :=
  let pieces :=
    if inside.contains '-' then
      dropReversed (closeLast (rangeEnds (if inside.head? = some '!' then 2 else 1) inside))
    else [inside]
  match pieces with
  | ('!' :: piece) :: others => .set true (members (piece :: others))
  | _ => .set false (members pieces)

/-- The inside of a bracket and what follows it; a bracket right after the opening one, or after
its `!`, belongs to the inside. -/
def bracket? (s : List Char) : Option (List Char × List Char) :=
  let lead := match s with
    | '!' :: ']' :: _ => 2
    | '!' :: _ => 1
    | ']' :: _ => 1
    | _ => 0
  let body := (s.drop lead).takeWhile (· ≠ ']')
  match (s.drop lead).dropWhile (· ≠ ']') with
  | ']' :: rest => some (s.take lead ++ body, rest)
  | _ => none

/-- The pieces of a pattern, read with one unit of fuel for each of its characters. -/
def readPattern : Nat → List Char → List Item
  | 0, _ => []
  | _, [] => []
  | fuel + 1, c :: rest =>
    if c = '*' then .run :: readPattern fuel rest
    else if c = '?' then .one :: readPattern fuel rest
    else if c = '[' then
      match bracket? rest with
      | some (inside, after) => .ofBracket inside :: readPattern fuel after
      | none => .literal '[' :: readPattern fuel rest
    else .literal c :: readPattern fuel rest

/-- Some end of the text, the text itself included, satisfies a test. -/
def anyTail (test : List Char → Bool) : List Char → Bool
  | [] => test []
  | c :: rest => test (c :: rest) || anyTail test rest

/-- Whether the pieces match the whole text. -/
def accepts : List Item → List Char → Bool
  | [], s => s.isEmpty
  | .run :: items, s => anyTail (accepts items) s
  | item :: items, s =>
    match s with
    | [] => false
    | c :: rest => item.holds c && accepts items rest

/-- Whether a shell pattern matches a whole text. -/
def globMatch (pattern text : String) : Bool :=
  accepts (readPattern pattern.length pattern.toList) text.toList

end Ambient.Text
