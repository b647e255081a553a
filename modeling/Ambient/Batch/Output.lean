import Ambient.Batch.Work

/-!
# Where declarations go

* `declarationPath`: the declarations of a file stand where the file stands below its root;
* `label`: the file itself, seen from its root;
* `rootOf`: the root of a file, its own folder unless another one is given.
-/

namespace Ambient.Batch

open Ambient.Files

/-- The end of the name of a file of declarations. -/
def declarationExtension : String := ".d.ts"

/-- The path of the declarations of a file below an output folder. -/
def declarationPath (current path root output : String) : String :=
  let inside := Path.relative current (Path.absolute current path) (Path.absolute current root)
  Path.join output (Path.withoutExtension inside ++ declarationExtension)

/-- The absolute path of the root of a file. -/
def rootOf (current path : String) (root : Option String) : String :=
  match root.filter fun r => !r.isEmpty with
  | some r => Path.absolute current r
  | none => Path.folder (Path.absolute current path)

/-- The path of a file seen from its root. -/
def label (current path : String) (root : Option String) : String :=
  Path.relative current (Path.absolute current path) (rootOf current path root)

end Ambient.Batch
