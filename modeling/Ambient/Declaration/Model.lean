import Ambient.Text.Lines

/-!
# Declarations

What a module declares: namespaces in the order they are first seen, each with its variables, type
aliases, functions, enumerations and classes, each list in the order of declaration.

Beside its list of classes a namespace keeps a register, which says for a name where in the list the
class stands that members of that name go to. A class may be registered again under its name; its
members then go to the entry registered last.

* `Variable`, `TypeAlias`, `Function`, `Enumeration`, `ClassEntry`, `Namespace`, `Model`;
* `Namespace.addClass`, `Namespace.findClass?`, `Namespace.updateClass`;
* `Model.get?`, `Model.update`, `Model.isStaticMember`, `Model.count`.
-/

namespace Ambient.Declaration

/-- A variable of a namespace or a property of a class. -/
structure Variable where
  name : String
  type : String
  isStatic : Bool
  comment : Option String
  deriving DecidableEq, Repr

/-- A name for a type. -/
structure TypeAlias where
  name : String
  type : String
  comment : Option String
  deriving DecidableEq, Repr

/-- A function of a namespace or a method of a class. -/
structure Function where
  name : String
  /-- The parameters and the result. -/
  signature : String
  templates : List String
  isStatic : Bool
  comment : Option String
  deriving DecidableEq, Repr

/-- An enumeration, by its members or as another name of an enumeration. -/
structure Enumeration where
  name : String
  type : String
  keys : List String
  aliasOf : Option String
  comment : Option String
  deriving DecidableEq, Repr

/-- What a class entry is: something that can be constructed, or an interface. -/
inductive ClassKind
  | constructible
  | interface
  deriving DecidableEq, Repr

/-- The word a kind is declared with. -/
def ClassKind.word : ClassKind → String
  | .constructible => "class"
  | .interface => "interface"

/-- A class or an interface. -/
structure ClassEntry where
  name : String
  kind : ClassKind
  /-- The parameters of the constructor. -/
  signature : Option String
  parents : List String
  templates : List String
  methods : List Function
  properties : List Variable
  comment : Option String
  deriving DecidableEq, Repr

/-- All of some numbers together. -/
def total : List Nat → Nat
  | [] => 0
  | n :: rest => n + total rest

/-- The declarations of one namespace. -/
structure Namespace where
  vars : List Variable
  typeAliases : List TypeAlias
  functions : List Function
  enums : List Enumeration
  classes : List ClassEntry
  /-- The positions in `classes` that names are registered with, the last registration first. -/
  register : List (String × Nat)
  deriving DecidableEq, Repr

namespace Namespace

/-- A namespace that declares nothing. -/
def empty : Namespace := ⟨[], [], [], [], [], []⟩

/-- Lists a class and registers its name with it. -/
def addClass (ns : Namespace) (c : ClassEntry) : Namespace :=
  { ns with
    classes := ns.classes ++ [c]
    register := (c.name, ns.classes.length) :: ns.register }

/-- The class a name is registered with. -/
def findClass? (ns : Namespace) (name : String) : Option ClassEntry :=
  (ns.register.lookup name).bind fun i => ns.classes[i]?

/-- Changes the class a name is registered with. -/
def updateClass (ns : Namespace) (name : String) (f : ClassEntry → ClassEntry) : Namespace :=
  match ns.register.lookup name with
  | some i => { ns with classes := ns.classes.modify i f }
  | none => ns

/-- Whether a namespace declares nothing. -/
def isEmpty (ns : Namespace) : Bool :=
  ns.vars.isEmpty && ns.typeAliases.isEmpty && ns.functions.isEmpty && ns.enums.isEmpty &&
    ns.classes.isEmpty

/-- The number of declarations, members of classes included. -/
def count (ns : Namespace) : Nat :=
  ns.vars.length + ns.typeAliases.length + ns.functions.length + ns.enums.length +
    ns.classes.length + total (ns.classes.map fun c => c.methods.length + c.properties.length)

end Namespace

/-- The namespaces of a module in the order they were first seen. -/
structure Model where
  namespaces : List (String × Namespace)
  deriving DecidableEq, Repr

namespace Model

/-- A model without namespaces. -/
def empty : Model := ⟨[]⟩

/-- The namespace at a path. -/
def get? (m : Model) (path : String) : Option Namespace := m.namespaces.lookup path

/-- A list of namespaces with the one at a path changed; a missing one is put at the end first. -/
def updateIn (path : String) (f : Namespace → Namespace) :
    List (String × Namespace) → List (String × Namespace)
  | [] => [(path, f .empty)]
  | (p, ns) :: rest => if p == path then (p, f ns) :: rest else (p, ns) :: updateIn path f rest

/-- Changes the namespace at a path, which is put at the end if it is missing. -/
def update (m : Model) (path : String) (f : Namespace → Namespace) : Model :=
  ⟨updateIn path f m.namespaces⟩

/-- The model with a namespace at a path. -/
def withNamespace (m : Model) (path : String) : Model := m.update path id

/-- The class a name is registered with in the namespace at a path. -/
def findClass? (m : Model) (path name : String) : Option ClassEntry :=
  (m.get? path).bind (·.findClass? name)

/-- Whether a path leads to a class that can be constructed, so that what is declared below it is
a static member. Interfaces have none. -/
def isStaticMember (m : Model) (path : List String) : Bool :=
  match path.getLast? with
  | none => false
  | some name =>
    match m.findClass? (Text.dotted path.dropLast) name with
    | some c => c.kind = .constructible
    | none => false

/-- The number of declarations. -/
def count (m : Model) : Nat := total (m.namespaces.map fun ns => ns.2.count)

end Model

end Ambient.Declaration
