import Ambient.Text.Lines

/-!
# Paths

A path is a text of names between slashes. These are the operations that look at the text alone.

* `tidy`: a path without empty names, `.` and needless `..`; `compact`: without the first two;
* `join`, `absolute`, `relative`;
* `folder`, `fileName`, `extension`, `suffix`, `withoutExtension`.

A dot at the start of a file name starts no extension.
-/

namespace Ambient.Files.Path

/-- The names of a path, empty ones included. -/
def names (path : String) : List String := Text.cutString '/' path

/-- The path with the given names. -/
def ofNames (names : List String) : String := String.intercalate "/" names

/-- Whether a path starts at the top. -/
def isAbsolute (path : String) : Bool := path.toList.head? = some '/'

/-- The slashes an absolute path keeps in front: two if there are exactly two, else one. -/
def lead (path : String) : String :=
  match path.toList with
  | '/' :: '/' :: '/' :: _ => "/"
  | '/' :: '/' :: _ => "//"
  | '/' :: _ => "/"
  | _ => ""

/-- A name that stays where it is. -/
def isIdle (name : String) : Bool := name = "" || name = "."

/-- One more name on a path whose names are given in reverse. A step up takes back the name before
it; it is dropped at the top, and kept at the start of a path that is not absolute. -/
def step (atTop : Bool) (seen : List String) (name : String) : List String :=
  if isIdle name then seen
  else if name = ".." then
    match seen with
    | [] => if atTop then [] else [".."]
    | last :: above => if last = ".." then ".." :: last :: above else above
  else name :: seen

/-- A path that is never empty. -/
def orHere (path : String) : String := if path.isEmpty then "." else path

/-- A path without empty names and without steps that can be spared. -/
def tidy (path : String) : String :=
  orHere (lead path ++
    ofNames ((names path).foldl (step (isAbsolute path)) []).reverse)

/-- A path without empty names and names that stay where they are. -/
def compact (path : String) : String :=
  orHere (lead path ++ ofNames ((names path).filter fun n => !isIdle n))

/-- A path seen from another one. -/
def join (base path : String) : String :=
  if isAbsolute path then path
  else if base.isEmpty || base.toList.getLast? = some '/' then base ++ path
  else base ++ "/" ++ path

/-- The tidy absolute path of a path seen from a folder. -/
def absolute (current path : String) : String :=
  tidy (if isAbsolute path then path else join current path)

/-- Two lists without the items both start with. -/
def dropShared : List String → List String → List String × List String
  | a :: as, b :: bs => if a = b then dropShared as bs else (a :: as, b :: bs)
  | as, bs => (as, bs)

/-- The way from a folder to a path, both seen from the current folder: up as far as needed, then
down. -/
def relative (current path start : String) : String :=
  let parts (p : String) : List String :=
    (names (absolute current p)).filter fun n => !n.isEmpty
  let (down, up) := dropShared (parts path) (parts start)
  orHere (ofNames (up.map (fun _ => "..") ++ down))

/-! ## The last name -/

/-- The text before the last occurrence of a character, and the text after it. -/
def lastCut? (sep : Char) : List Char → Option (List Char × List Char)
  | [] => none
  | c :: rest =>
    match lastCut? sep rest with
    | some (before, after) => some (c :: before, after)
    | none => if c = sep then some ([], rest) else none

/-- The last name of a path. -/
def fileName (path : String) : String :=
  match lastCut? '/' path.toList with
  | some (_, after) => String.ofList after
  | none => path

/-- The path without its last name. -/
def folder (path : String) : String :=
  match lastCut? '/' path.toList with
  | some (before, _) =>
    let kept := (before.reverse.dropWhile (· = '/')).reverse
    String.ofList (if kept.isEmpty then before ++ ['/'] else kept)
  | none => ""

/-- The extension of a path with its dot: what stands from the last dot of its last name on, dots
at the start of the name aside. -/
def extension (path : String) : String :=
  match lastCut? '.' ((fileName path).toList.dropWhile (· = '.')) with
  | some (_, after) => String.ofList ('.' :: after)
  | none => ""

/-- The extension of a path with its dot, where only one dot at the start of the last name starts
none, and a dot at its end does not either. -/
def suffix (path : String) : String :=
  match lastCut? '.' (fileName (compact path)).toList with
  | some (before, after) =>
    if before.isEmpty || after.isEmpty then "" else String.ofList ('.' :: after)
  | none => ""

/-- The path in front of its extension. -/
def withoutExtension (path : String) : String :=
  String.ofList (path.toList.take (path.length - (extension path).length))

end Ambient.Files.Path
