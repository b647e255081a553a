import Ambient.Declaration.Model
import Ambient.Doc.Block
import Ambient.Name.Reserved

/-!
# The text of declarations

One block for each namespace that declares something, in order, and one for each provided name.
Inside a namespace stand the variables, type aliases, enumerations, functions and classes, and
inside a class its constructor, properties and methods, each after its comment.

* `commentLines`: a comment printed again;
* `Namespace.lines`, `Namespace.render`;
* `provideLines`, `renderProvide`;
* `Model.blocks`, `joinBlocks`, `Model.render`.
-/

namespace Ambient.Declaration

/-- The blanks in front of a line at a depth. -/
def indent (depth : Nat) : String := String.ofList (List.replicate (4 * depth) ' ')

/-- A line at a depth. -/
def lineAt (depth : Nat) (text : String) : String := indent depth ++ text

/-- The lines of a comment without its decoration; a comment of nothing but decoration has one
empty line. -/
def commentBody (comment : String) : List String :=
  match Text.linesOf (Doc.unwrap comment) with
  | [] => [""]
  | lines => lines

/-- The lines of a comment behind a margin; an empty comment has none. -/
def commentLines (margin : String) : Option String → List String
  | none => []
  | some comment =>
    if comment.isEmpty then []
    else
      (margin ++ "/**") ::
        (commentBody comment).map (fun l => Text.stripRight (margin ++ " * " ++ l)) ++
        [margin ++ " */"]

/-- The comment at a depth, if comments are wanted, and the lines it stands over. -/
def commented (emit : Bool) (depth : Nat) (comment : Option String) (lines : List String) :
    List String :=
  (if emit then commentLines (indent depth) comment else []) ++ lines

/-- Template names in angle brackets. -/
def templateText (names : List String) : String :=
  if names.isEmpty then "" else "<" ++ String.intercalate ", " names ++ ">"

/-- The lines of a variable of a namespace. -/
def Variable.lines (emit : Bool) (v : Variable) : List String :=
  commented emit 1 v.comment [lineAt 1 ("var " ++ v.name ++ ": " ++ v.type ++ ";")]

/-- The lines of a type alias. -/
def TypeAlias.lines (emit : Bool) (a : TypeAlias) : List String :=
  commented emit 1 a.comment [lineAt 1 ("type " ++ a.name ++ " = " ++ a.type ++ ";")]

/-- The text of an enumeration: another one's name if it has no members of its own. -/
def Enumeration.text (e : Enumeration) : String :=
  let members := "enum " ++ e.name ++ " \x7b " ++ String.intercalate ", " e.keys ++ " \x7d"
  match e.aliasOf with
  | some other =>
    if !other.isEmpty && e.keys.isEmpty then
      "import " ++ e.name ++ " = " ++ Name.renameReserved other ++ ";"
    else members
  | none => members

/-- The lines of an enumeration. -/
def Enumeration.lines (emit : Bool) (e : Enumeration) : List String :=
  commented emit 1 e.comment [lineAt 1 e.text]

/-- The lines of a function of a namespace. -/
def Function.lines (emit : Bool) (f : Function) : List String :=
  commented emit 1 f.comment
    [lineAt 1 ("function " ++ f.name ++ templateText f.templates ++ f.signature ++ ";")]

/-- The word in front of a static member. -/
def staticWord (isStatic : Bool) : String := if isStatic then "static " else ""

/-- The lines of a property of a class. -/
def Variable.memberLines (emit : Bool) (v : Variable) : List String :=
  commented emit 2 v.comment
    [lineAt 2 (staticWord v.isStatic ++ v.name ++ ": " ++ v.type ++ ";")]

/-- The lines of a method of a class. -/
def Function.memberLines (emit : Bool) (f : Function) : List String :=
  commented emit 2 f.comment
    [lineAt 2 (staticWord f.isStatic ++ f.name ++ templateText f.templates ++ f.signature ++ ";")]

/-- What a class entry extends: a class has one parent, an interface any number. -/
def ClassEntry.extended (c : ClassEntry) : List String :=
  match c.kind with
  | .constructible => c.parents.take 1
  | .interface => c.parents

/-- The first line of a class. -/
def ClassEntry.header (c : ClassEntry) : String :=
  c.kind.word ++ " " ++ c.name ++ templateText c.templates ++
    (if c.parents.isEmpty then "" else " extends " ++ String.intercalate ", " c.extended) ++ " \x7b"

/-- The line of a constructor. -/
def ClassEntry.constructorLines (c : ClassEntry) : List String :=
  match c.signature with
  | some signature => [lineAt 2 ("constructor" ++ signature ++ ";")]
  | none => []

/-- The lines of a class. -/
def ClassEntry.lines (emit : Bool) (c : ClassEntry) : List String :=
  commented emit 1 c.comment
    (lineAt 1 c.header :: c.constructorLines ++
      c.properties.flatMap (Variable.memberLines emit) ++
      c.methods.flatMap (Function.memberLines emit) ++ [lineAt 1 "\x7d"])

/-- The lines of the block of a namespace. -/
def Namespace.lines (emit : Bool) (path : String) (ns : Namespace) : List String :=
  ("declare module " ++ Name.renameReserved path ++ " \x7b") ::
    ns.vars.flatMap (Variable.lines emit) ++
    ns.typeAliases.flatMap (TypeAlias.lines emit) ++
    ns.enums.flatMap (Enumeration.lines emit) ++
    ns.functions.flatMap (Function.lines emit) ++
    ns.classes.flatMap (ClassEntry.lines emit) ++ ["\x7d"]

/-- Lines joined to a text. -/
def joinLines (lines : List String) : String := String.intercalate "\n" lines

/-- The block of a namespace. -/
def Namespace.render (emit : Bool) (path : String) (ns : Namespace) : String :=
  joinLines (ns.lines emit path)

/-- The lines of the block that gives a namespace its name as a module. -/
def provideLines (name : String) : List String :=
  let short := Name.sanitize (((Name.segments name).getLast?).getD "")
  ["declare module 'goog:" ++ name ++ "' \x7b",
    lineAt 1 ("import " ++ short ++ " = " ++ Name.renameReserved name ++ ";"),
    lineAt 1 ("export = " ++ short ++ ";"), "\x7d"]

/-- The block of a provided name. -/
def renderProvide (name : String) : String := joinLines (provideLines name)

/-- Whether a namespace is printed: it has a path and declares something. -/
def isPrinted (entry : String × Namespace) : Bool := !entry.1.isEmpty && !entry.2.isEmpty

/-- The blocks of a model and of the names it provides. -/
def Model.blocks (emit : Bool) (m : Model) (provides : List String) : List String :=
  (m.namespaces.filter isPrinted).map (fun entry => entry.2.render emit entry.1) ++
    provides.map renderProvide

/-- Blocks joined to a text, an empty line between them; no blocks make no text. -/
def joinBlocks (blocks : List String) : String :=
  if blocks.isEmpty then "" else String.intercalate "\n\n" blocks ++ "\n"

/-- The text of a model and of the names it provides; nothing if it declares and provides
nothing. -/
def Model.render (emit : Bool) (m : Model) (provides : List String) : String :=
  joinBlocks (m.blocks emit provides)

end Ambient.Declaration
