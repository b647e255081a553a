import Ambient.Script.Grammar.Statement
import Ambient.Text.Utf8

/-!
# Programs

The top level of a script: its comments and statements in source order, after a first line that
names an interpreter. Comments belong to the first statement after them.

* `Element`, `elements?`: the top level of a text, nothing if it is no script;
* `attach`: the statements with their comments;
* `Program.ofBytes`.
-/

namespace Ambient.Script

open Ambient.Doc (Comment)

/-- What stands at the top level of a script. -/
inductive Element
  | comment (c : Comment)
  /-- The line that names an interpreter. -/
  | interpreter
  /-- A statement, which has no comments yet. -/
  | statement (s : Statement)

/-- The length of a line, its end not included. -/
def lineLength (s : List Char) : Nat := (s.takeWhile fun c => !isLineEnd c).length

/-- The length of a comment in the manner of markup. -/
def markupLength (s : List Char) : Nat :=
  (s.takeWhile fun c => !isLineEnd c || c == '\r').length

/-- The length of a block comment after its opening, the closing mark included. -/
def blockLength? : List Char → Option Nat
  | [] => none
  | '*' :: '/' :: _ => some 2
  | _ :: rest => (blockLength? rest).map (· + 1)

/-- The statement between two places. -/
def Statement.between (form : Form) (line : Nat) (c later : Cursor) : Statement :=
  ⟨form, line, c.upTo later, []⟩

/-- The element at a place that is not blank, and the place after it. -/
def element? (depth line : Nat) (c : Cursor) : Option (Element × Cursor) :=
  match c.rest with
  | '/' :: '/' :: rest =>
    let n := lineLength rest
    some (.comment ⟨.line, String.ofList (rest.take n)⟩, c.drop (n + 2))
  | '/' :: '*' :: rest =>
    (blockLength? rest).map fun n =>
      (.comment ⟨.block, String.ofList (rest.take (n - 2))⟩, c.drop (n + 2))
  | '<' :: '!' :: '-' :: '-' :: _ | '-' :: '-' :: '>' :: _ =>
    let later := c.drop (markupLength c.rest)
    some (.statement (.between (.unsupported "html_comment") line c later), later)
  | _ =>
    (readGoal depth .statement c).map fun (form, later) =>
      (.statement (.between form line c later), later)

/-- The number of line feeds in a text. -/
def feeds (s : List Char) : Nat := s.count '\n'

/-- The elements from a place on, which stands on the given line. The fuel bounds their number. -/
def elementsFrom? (depth : Nat) : Nat → Nat → Cursor → Option (List Element)
  | 0, _, _ => none
  | fuel + 1, line, c =>
    let blanks := c.rest.takeWhile isSpace
    let line := line + feeds blanks
    let c := c.drop blanks.length
    if c.rest.isEmpty then some []
    else do
      let (e, later) ← element? depth line c
      let others ← elementsFrom? depth fuel (line + feeds (c.charsUpTo later)) later
      some (e :: others)

/-- The top level of a text. -/
def elements? (s : List Char) : Option (List Element) :=
  let c := Cursor.ofText s
  let start := c.drop (c.rest.takeWhile isSpace).length
  match start.rest with
  | '#' :: '!' :: _ =>
    let later := start.drop (lineLength start.rest)
    (elementsFrom? (s.length + 1) (s.length + 1) (1 + feeds (c.charsUpTo later)) later).map
      (.interpreter :: ·)
  | _ => elementsFrom? (s.length + 1) (s.length + 1) 1 c

/-- The statements of a top level, each with the comments between the statement before it and
itself, after those that are pending. -/
def attachFrom (pending : List Comment) : List Element → List Statement
  | [] => []
  | .comment c :: rest => attachFrom (pending ++ [c]) rest
  | .interpreter :: rest => attachFrom pending rest
  | .statement s :: rest => { s with comments := pending } :: attachFrom [] rest

/-- The statements of a top level with their comments. -/
def attach (elements : List Element) : List Statement := attachFrom [] elements

/-- A script that has been read: its statements, and how many errors it has. -/
structure Program where
  statements : List Statement
  errors : Nat

/-- The program of a text; one that is no script has no statements and one error. -/
def Program.ofText (s : List Char) : Program :=
  match elements? s with
  | some elements => ⟨attach elements, 0⟩
  | none => ⟨[], 1⟩

/-- The program of a source file. -/
def Program.ofBytes (bytes : List UInt8) : Program := .ofText (Text.Utf8.decodeLossy bytes)

end Ambient.Script
