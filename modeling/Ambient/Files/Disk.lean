import Ambient.Files.Path
import Ambient.Text.Utf8

/-!
# Files and folders

A disk is a list of places with what stands there, and the folder that relative paths start from.
The top itself is always a folder.

* `Fault`: why an operation is refused;
* `Disk.node?`, `Disk.walk`, `Disk.locate?`: from paths to places. A step up undoes the step before
  it, so every folder on the way has to be there;
* `Disk.read`, `Disk.readText`, `Disk.write`, `Disk.makeFolders`;
* `Disk.files`, `Disk.below`.
-/

namespace Ambient.Files

/-- Why an operation on files is refused. -/
inductive Fault
  | missing
  | occupied
  | notFolder
  | isFolder
  /-- The bytes are not UTF-8. -/
  | notText (offence : Text.Utf8.Offence)
  deriving DecidableEq, Repr

/-- The name of a fault in reports. -/
def Fault.label : Fault → String
  | .missing => "FileNotFoundError"
  | .occupied => "FileExistsError"
  | .notFolder => "NotADirectoryError"
  | .isFolder => "IsADirectoryError"
  | .notText _ => "UnicodeDecodeError"

/-- The wording of a fault. -/
def Fault.message : Fault → String
  | .missing => "[Errno 2]"
  | .occupied => "[Errno 17]"
  | .notFolder => "[Errno 20]"
  | .isFolder => "[Errno 21]"
  | .notText offence => offence.message

/-- The names that lead from the top to a file or folder. -/
abbrev Location := List String

/-- What stands at a place. -/
inductive Node
  | folder
  | file (bytes : List UInt8)
  deriving DecidableEq

/-- Files and folders, with the folder that relative paths start from. -/
structure Disk where
  nodes : List (Location × Node)
  current : Location

namespace Disk

/-- What stands at a place. -/
def node? (d : Disk) (place : Location) : Option Node :=
  if place.isEmpty then some .folder else d.nodes.lookup place

/-- The path of the current folder. -/
def currentPath (d : Disk) : String := "/" ++ Path.ofNames d.current

/-- The tidy absolute path of a path. -/
def absolute (d : Disk) (path : String) : String := Path.absolute d.currentPath path

/-- The place a path starts from. -/
def start (d : Disk) (path : String) : Location := if Path.isAbsolute path then [] else d.current

/-- The place that a list of names leads to from a place. -/
def walk (d : Disk) (here : Location) : List String → Except Fault Location
  | [] => .ok here
  | name :: rest =>
    match d.node? here with
    | none => .error .missing
    | some (.file _) => .error .notFolder
    | some .folder =>
      if Path.isIdle name then d.walk here rest
      else if name = ".." then d.walk here.dropLast rest
      else if (d.node? (here ++ [name])).isNone then .error .missing
      else d.walk (here ++ [name]) rest

/-- The place that a path leads to. -/
def locate? (d : Disk) (path : String) : Except Fault Location :=
  if path.isEmpty then .error .missing else d.walk (d.start path) (Path.names path)

/-- What a path leads to. -/
def at? (d : Disk) (path : String) : Option Node :=
  match d.locate? path with
  | .ok place => d.node? place
  | .error _ => none

/-- Whether a path leads to a file. -/
def isFile (d : Disk) (path : String) : Bool :=
  match d.at? path with
  | some (.file _) => true
  | _ => false

/-- Whether a path leads to a folder. -/
def isFolder (d : Disk) (path : String) : Bool := d.at? path = some .folder

/-! ## Reading and writing -/

/-- The bytes of a file. -/
def read (d : Disk) (path : String) : Except Fault (List UInt8) := do
  let place ← d.locate? path
  match d.node? place with
  | some (.file bytes) => .ok bytes
  | some .folder => .error .isFolder
  | none => .error .missing

/-- The text of a file as it stands. -/
def readExact (d : Disk) (path : String) : Except Fault (List Char) := do
  (Text.Utf8.decode? (← d.read path)).mapError .notText

/-- The text of a file, its lines ended by line feeds. -/
def readText (d : Disk) (path : String) : Except Fault (List Char) :=
  (d.readExact path).map Text.unifyBreaks

/-- A list of places with a node put at one of them. -/
def putIn (place : Location) (node : Node) : List (Location × Node) → List (Location × Node)
  | [] => [(place, node)]
  | (p, n) :: rest => if p = place then (p, node) :: rest else (p, n) :: putIn place node rest

/-- Puts a node at a place, instead of what stood there. -/
def put (d : Disk) (place : Location) (node : Node) : Disk :=
  { d with nodes := putIn place node d.nodes }

/-- Writes a file in a folder that is there. -/
def write (d : Disk) (path : String) (bytes : List UInt8) : Except Fault Disk := do
  let reversed := (Path.names path).reverse
  match reversed.dropWhile (·.isEmpty) with
  | [] => .error (if path.isEmpty then .missing else .isFolder)
  | name :: above =>
    let place ← d.walk (d.start path) above.reverse
    match d.node? place with
    | none => .error .missing
    | some (.file _) => .error .notFolder
    | some .folder =>
      if reversed.head? = some "" ∨ name = "." ∨ name = ".." then .error .isFolder
      else if d.node? (place ++ [name]) = some .folder then .error .isFolder
      else .ok (d.put (place ++ [name]) (.file bytes))

/-- Makes the folders on a way from a place that are not there. -/
def makeFrom (d : Disk) (here : Location) : List String → Except Fault Disk
  | [] => .ok d
  | name :: rest =>
    if Path.isIdle name then d.makeFrom here rest
    else if name = ".." then d.makeFrom here.dropLast rest
    else match d.node? (here ++ [name]) with
      | some .folder => d.makeFrom (here ++ [name]) rest
      | some (.file _) => .error (if rest.all (·.isEmpty) then .occupied else .notFolder)
      | none => (d.put (here ++ [name]) .folder).makeFrom (here ++ [name]) rest

/-- Makes the folders of a path that are not there. -/
def makeFolders (d : Disk) (path : String) : Except Fault Disk :=
  if path.isEmpty then .error .missing else d.makeFrom (d.start path) (Path.names path)

/-! ## Listing -/

/-- What remains of a place below another one. -/
def belowLocation? : Location → Location → Option (List String)
  | [], [] => none
  | [], names => some names
  | _ :: _, [] => none
  | a :: as, b :: bs => if a = b then belowLocation? as bs else none

/-- What stands below a place, each with the names that lead there from it. -/
def below (d : Disk) (place : Location) : List (List String × Node) :=
  d.nodes.filterMap fun n => (belowLocation? place n.1).map fun names => (names, n.2)

/-- The names that lead from a place to the files below it. -/
def filesBelow (d : Disk) (place : Location) : List (List String) :=
  (d.below place).filterMap fun n =>
    match n.2 with
    | .file _ => some n.1
    | .folder => none

end Disk

end Ambient.Files
