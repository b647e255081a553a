import Ambient.Batch.Work
import Ambient.Text.Order

/-!
# Combining declarations

Several files become one: in the order of their paths, each under a line that names it.

* `chunk`, `combine`.
-/

namespace Ambient.Batch

open Ambient.Files

/-- A text without the line feeds at its end. -/
def dropFeeds (text : List Char) : List Char := (text.reverse.dropWhile (· = '\n')).reverse

/-- The part of a file in the combined text. -/
def chunk (name : String) (text : List Char) : String :=
  "// " ++ name ++ "\n" ++ String.ofList (dropFeeds text) ++ "\n"

/-- The name of a file in the combined text: its path, seen from a root if there is one. -/
def banner (path : String) (root : Option String) : Work String := do
  match root.filter fun r => !r.isEmpty with
  | none => pure path
  | some r =>
    if path.isEmpty then throw .emptyPath
    else Work.look fun d => Path.relative d.currentPath path r

/-- The parts of a list of files. -/
def chunks (root : Option String) : List String → Work (List String)
  | [] => pure []
  | path :: rest => do
    let name ← banner path root
    let text ← Work.ask (·.readText path)
    pure (chunk name text :: (← chunks root rest))

/-- Writes several files into one. -/
def combine (paths : List String) (output : String) (root : Option String) : Work Unit := do
  let parts ← chunks root (Text.sorted paths)
  let folder ← Work.look fun d => Path.folder (d.absolute output)
  Work.writeUnder folder output (String.intercalate "\n" parts)

end Ambient.Batch
