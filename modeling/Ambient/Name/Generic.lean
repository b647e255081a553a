import Ambient.Name.Reserved

/-!
# Names of types

* `arity`: how many type parameters a known container has;
* `renameType`: the name a type is declared under;
* `isUnparameterized`: types written without their arguments.
-/

namespace Ambient.Name

/-- The known containers with their numbers of type parameters. -/
def containers : List (String × Nat) :=
  [("Array", 1), ("Map", 2), ("NodeListOf", 1), ("Set", 1), ("WeakMap", 2), ("Thenable", 1),
    ("goog.Promise", 2), ("goog.Thenable", 1), ("goog.async.Deferred", 1),
    ("goog.events.EventHandler", 1), ("goog.events.EventId", 1), ("goog.iter.Iterator", 1),
    ("goog.structs.Heap", 2), ("goog.structs.Map", 2), ("goog.structs.Pool", 1),
    ("goog.structs.PriorityPool", 1), ("goog.structs.Set", 1), ("goog.structs.TreeNode", 2)]

/-- The number of type parameters of a container; other names have none. -/
def arity (name : String) : Nat := (containers.lookup name).getD 0

/-- Types whose name means something else in the declaration language. -/
def legacyRenames : List (String × String) := [("EventTarget", "goog.globalEventTarget")]

/-- The name a type is referred to by. -/
def renameType (name : String) : String :=
  let renamed := renameReserved name
  (legacyRenames.lookup renamed).getD renamed

/-- The type whose arguments become an index signature. -/
def objectType : String := "Object"

/-- Types that lose their arguments. -/
def isUnparameterized (name : String) : Bool :=
  name == "goog.iter.Iterable" || name == "goog.array.ArrayLike"

/-- The types an index may have. -/
def isIndexType (name : String) : Bool := name == "string" || name == "number"

end Ambient.Name
