import Ambient.Batch.Work
import Ambient.Text.Glob
import Ambient.Text.Order

/-!
# Discovery

Which files of a folder are read: scripts at any depth, in the order of their absolute paths. What
stands below a hidden folder, or below one that holds no sources of its own, is passed over, and so
is every file whose absolute path matches a pattern.

* `isExcluded`, `isSkippedFolder`, `isSource`;
* `discover`.
-/

namespace Ambient.Batch

open Ambient.Files (Disk)

/-- Whether a path matches one of some shell patterns. -/
def isExcluded (patterns : List String) (path : String) : Bool :=
  patterns.any fun p => Text.globMatch p path

/-- The folders that hold what is built or installed. -/
def builtFolders : List String := ["node_modules", "__pycache__", "dist", "out"]

/-- Whether a folder is passed over. -/
def isSkippedFolder (name : String) : Bool :=
  name.toList.head? = some '.' || builtFolders.contains name

/-- Whether a file is a script, by its name. -/
def isSource (path : String) : Bool := Files.Path.extension path = sourceExtension

/-- Whether the names that lead to a file pass over no folder and end in a script. -/
def isFound (names : List String) : Bool :=
  !names.dropLast.any isSkippedFolder && names.getLast?.any isSource

/-- The names that lead from a folder to the scripts below it. -/
def sourcesBelow (d : Disk) (folder : String) : List (List String) :=
  (d.filesBelow ((Files.Path.names folder).filter fun n => !n.isEmpty)).filter isFound

/-- The absolute paths of the scripts to read below a folder. -/
def discover (d : Disk) (patterns : List String) (folder : String) : List String :=
  let top := d.absolute folder
  let paths := (sourcesBelow d top).map fun names =>
    Files.Path.join top (Files.Path.ofNames names)
  Text.sorted (paths.filter fun path => !isExcluded patterns path)

end Ambient.Batch
