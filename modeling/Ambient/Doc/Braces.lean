import Ambient.Text.Blank

/-!
# Braces

The part in braces that a text may start with, blanks aside: the shortest beginning that closes as
many braces as it opens. If no beginning does, all of the text after the first brace is taken.

* `Braced`, `readBraced`.
-/

namespace Ambient.Doc

/-- What a text starts with. -/
inductive Braced
  /-- No brace. -/
  | absent
  /-- A part in braces, and what follows it. -/
  | balanced (inner rest : List Char)
  /-- A brace that is never closed, and all that follows it. -/
  | unbalanced (inner : List Char)
  deriving DecidableEq, Repr

/-- The text up to the brace that closes `depth` braces opened in it and one opened before it, and
the text after that brace. -/
def untilClosed : Nat → List Char → Option (List Char × List Char)
  | _, [] => none
  | depth, c :: rest =>
    if c = '\x7b' then (untilClosed (depth + 1) rest).map fun r => (c :: r.1, r.2)
    else if c = '\x7d' then
      match depth with
      | 0 => some ([], rest)
      | depth + 1 => (untilClosed depth rest).map fun r => (c :: r.1, r.2)
    else (untilClosed depth rest).map fun r => (c :: r.1, r.2)

/-- The part in braces at the front of a text. -/
def readBraced (text : List Char) : Braced :=
  match Text.trimLeft text with
  | '\x7b' :: rest =>
    match untilClosed 0 rest with
    | some (inner, after) => .balanced inner after
    | none => .unbalanced rest
  | _ => .absent

end Ambient.Doc
