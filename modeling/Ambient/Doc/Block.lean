import Ambient.Text.Blank
import Ambient.Text.Lines

/-!
# Documentation blocks

A comment documents what follows it if it is a block that opens with a second star. Every line of
such a block may be decorated with a star between blanks, which is no part of its text.

* `Comment`, `Comment.isDoc`;
* `unwrap`: the text of a block without its decoration.
-/

namespace Ambient.Doc

/-- The two forms of a comment. -/
inductive CommentKind
  | block
  | line
  deriving DecidableEq, Repr

/-- A comment without its delimiters. -/
structure Comment where
  kind : CommentKind
  value : String
  deriving DecidableEq, Repr

/-- Whether a comment is a documentation block. -/
def Comment.isDoc (c : Comment) : Bool := c.kind = .block && c.value.toList.head? = some '*'

/-- Space or tab. -/
def isIndent (c : Char) : Bool := c == ' ' || c == '\t'

/-- A line without its decoration: blanks, one star, one blank. -/
def undecorate (line : List Char) : List Char :=
  match line.dropWhile isIndent with
  | '*' :: c :: rest => if isIndent c then rest else c :: rest
  | '*' :: [] => []
  | rest => rest

/-- The text of a block: its lines without decoration, trimmed as a whole. -/
def unwrapChars (value : List Char) : List Char :=
  Text.trim (Text.glue '\n' ((Text.cut '\n' value).map undecorate))

/-- The text of a block. -/
def unwrap (value : String) : String := String.ofList (unwrapChars value.toList)

end Ambient.Doc
