import Ambient.Declaration.Module
import Ambient.Files.Disk

/-!
# Work on files

Work changes the files of a disk. What has been written stays written when the work fails.

* `Failure`: why work fails, with its name in reports and its wording;
* `Work`, with the operations on files as work.
-/

namespace Ambient.Batch

open Ambient.Files (Disk Fault)
open Ambient.Declaration (ModuleError)

/-- The extensions of the files that are read. -/
def sourceExtension : String := ".js"

/-- Why work fails. -/
inductive Failure
  | noFile (path : String)
  | noFolder (path : String)
  | noSource (path : String)
  /-- A file of another kind than those that are read. -/
  | notSource (path : String)
  | emptyPath
  /-- A check without a command. -/
  | noCommand
  | module (e : ModuleError)
  | fault (f : Fault)
  deriving DecidableEq, Repr

namespace Failure

/-- The name of a failure in reports. -/
def label : Failure → String
  | .noFile _ | .noFolder _ | .noSource _ => "FileNotFoundError"
  | .notSource _ | .emptyPath => "ValueError"
  | .noCommand => "IndexError"
  | .module _ => "ModuleTranslationError"
  | .fault f => f.label

/-- The wording of a failure. -/
def message : Failure → String
  | .noFile path => "File not found: " ++ path
  | .noFolder path => "Directory not found: " ++ path
  | .noSource path => "Source not found: " ++ path
  | .notSource path =>
    "File " ++ path ++ " is not a JavaScript source file. Expected one of: \x7b'" ++
      sourceExtension ++ "'\x7d"
  | .emptyPath => "no path specified"
  | .noCommand => "list index out of range"
  | .module e => e.message
  | .fault f => f.message

end Failure

/-- Work on the files of a disk. -/
abbrev Work := ExceptT Failure (StateM Disk)

namespace Work

/-- The outcome of work, and the disk after it. -/
def run {α : Type} (work : Work α) (d : Disk) : Except Failure α × Disk :=
  StateT.run (ExceptT.run work) d

/-- Looks at the disk. -/
def look {α : Type} (f : Disk → α) : Work α := do pure (f (← get))

/-- A result that files may refuse. -/
def ask {α : Type} (f : Disk → Except Fault α) : Work α := do
  match f (← get) with
  | .ok a => pure a
  | .error e => throw (.fault e)

/-- A change that files may refuse. -/
def change (f : Disk → Except Fault Disk) : Work Unit := do set (← ask f)

/-- Writes a text to a file after making the folders of another path. -/
def writeUnder (folder path text : String) : Work Unit := do
  change (·.makeFolders folder)
  change (·.write path (Text.Utf8.encode text))

end Work

end Ambient.Batch
