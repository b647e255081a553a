/-!
# Places in a source text

* `Cursor`: what is left of a text, and how much has been read;
* `Cursor.upTo`: the text between two places;
* `Cursor.gap?`: the blanks and comments before the next token, and whether a line ended or a
  comment stood among them.
-/

namespace Ambient.Script

/-- A place in a text. -/
structure Cursor where
  rest : List Char
  offset : Nat
  /-- The number of characters left. -/
  left : Nat

namespace Cursor

/-- The start of a text. -/
def ofText (s : List Char) : Cursor := ⟨s, 0, s.length⟩

/-- The place `n` characters further on. -/
def drop (c : Cursor) (n : Nat) : Cursor := ⟨c.rest.drop n, c.offset + n, c.left - n⟩

/-- The characters from one place up to a later one. -/
def charsUpTo (c later : Cursor) : List Char := c.rest.take (later.offset - c.offset)

/-- The text from one place up to a later one. -/
def upTo (c later : Cursor) : String := String.ofList (c.charsUpTo later)

end Cursor

/-- A character that ends a line of a script. -/
def isLineEnd (c : Char) : Bool :=
  c == '\n' || c == '\r' || c.toNat == 0x2028 || c.toNat == 0x2029

/-- A blank between tokens: white space, the spaces of Unicode, and the marks of no width. -/
def isSpace (c : Char) : Bool :=
  let n := c.toNat
  (9 ≤ n && n ≤ 13) || n == 0x20 || n == 0x85 || n == 0xA0 || n == 0x1680 ||
    (0x2000 ≤ n && n ≤ 0x200B) || n == 0x2028 || n == 0x2029 || n == 0x202F || n == 0x205F ||
    n == 0x2060 || n == 0x3000 || n == 0xFEFF

/-- What a gap is made of at some place. -/
inductive GapPart
  | blank
  | lineComment
  | blockComment
  | markupComment

/-- What has been seen of a gap: its length, and whether a line ended or a comment stood in it. -/
structure Gap where
  length : Nat
  newline : Bool
  comment : Bool

namespace Gap

/-- One more character. -/
def step (g : Gap) (c : Char) : Gap := ⟨g.length + 1, g.newline || isLineEnd c, g.comment⟩

/-- The opening of a comment. -/
def openComment (g : Gap) (n : Nat) : Gap := ⟨g.length + n, g.newline, true⟩

/-- The gap in front of a text; nothing if a block comment is never closed. A comment in the manner
of markup counts where an operand or a statement is expected. -/
def scan (markup : Bool) : GapPart → Gap → List Char → Option Gap
  | .blockComment, _, [] => none
  | _, g, [] => some g
  | .blank, g, '/' :: '/' :: rest => scan markup .lineComment (g.openComment 2) rest
  | .blank, g, '/' :: '*' :: rest => scan markup .blockComment (g.openComment 2) rest
  | .blank, g, '<' :: '!' :: '-' :: '-' :: rest =>
    if markup then scan markup .markupComment (g.openComment 4) rest else some g
  | .blank, g, '-' :: '-' :: '>' :: rest =>
    if markup then scan markup .markupComment (g.openComment 3) rest else some g
  | .blank, g, c :: rest => if isSpace c then scan markup .blank (g.step c) rest else some g
  | .lineComment, g, c :: rest =>
    if isLineEnd c then scan markup .blank (g.step c) rest
    else scan markup .lineComment (g.step c) rest
  | .markupComment, g, c :: rest =>
    if isLineEnd c && c != '\r' then scan markup .blank (g.step c) rest
    else scan markup .markupComment (g.step c) rest
  | .blockComment, g, '*' :: '/' :: rest =>
    scan markup .blank ⟨g.length + 2, g.newline, g.comment⟩ rest
  | .blockComment, g, c :: rest => scan markup .blockComment (g.step c) rest

end Gap

/-- The gap at a place. -/
def Cursor.gap? (c : Cursor) (markup : Bool) : Option Gap :=
  Gap.scan markup .blank ⟨0, false, false⟩ c.rest

end Ambient.Script
