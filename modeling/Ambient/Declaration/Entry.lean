import Ambient.Declaration.Model
import Ambient.Doc.Signature
import Ambient.Script.Naming

/-!
# What a documented statement declares

The tags of a documentation block, the form of the statement and the value it assigns decide what
is declared: a class or an interface, a function, an enumeration, a type alias or a variable.

* `Role`: the role the tags give a statement, a private class counting as an interface;
* `isFunction`, `enumKeys`, `enumAlias?`, `variableType`, `isEmptyOverride`;
* `Entry`, `entryOf`.
-/

namespace Ambient.Declaration

open Ambient.Doc (DocComment)
open Ambient.Script (Statement Expression)

/-- The tags that are looked at. -/
def recognizedTitles : List String :=
  ["param", "enum", "return", "private", "type", "template", "typedef", "constructor", "interface",
    "extends", "override", "const", "define", "dict", "implements", "struct", "this"]

/-- The tags of which one is enough to make a statement no function. -/
def nonFunctionTitles : List String :=
  ["const", "constructor", "define", "dict", "enum", "extends", "implements", "interface",
    "struct", "type", "typedef"]

/-- The tags that give a declaration a signature or a type of its own. -/
def signatureTitles : List String := ["param", "return", "this", "type", "template"]

/-- Values that stand for a function without a body. -/
def placeholderFunctions : List String :=
  ["goog.abstractMethod", "goog.nullFunction", "goog.functions.TRUE", "goog.functions.FALSE",
    "goog.functions.NULL"]

/-- Whether a block only says that something is overridden. -/
def isEmptyOverride (doc : DocComment) : Bool :=
  doc.has ["override"] && !doc.has signatureTitles && doc.description.isEmpty &&
    !doc.tags.any fun tag => tag.description.any fun d => d ≠ "*"

/-- Whether a value is a function, or stands for one. -/
def isFunctionValue (value : Expression) : Bool :=
  match value with
  | .function _ => true
  | .member _ _ _ => value.segments?.any fun path => placeholderFunctions.contains (Text.dotted path)
  | _ => false

/-- Whether a statement declares a function: its parameters or result are documented, or it assigns
a function, or it assigns nothing and no tag speaks against it. -/
def isFunction (s : Statement) (doc : DocComment) : Bool :=
  if doc.has ["param", "return"] then true
  else match s.assigned? with
    | some value => isFunctionValue value
    | none => !doc.has nonFunctionTitles

/-- The key of a member of an enumeration. -/
def enumKey (key : Expression) : Except Refusal String :=
  match key with
  | .identifier name => .ok name
  | .literal _ raw => .ok raw
  | key => .error (.unsupportedKey key.kind)

/-- The keys of an enumeration, in the order of its members. -/
def enumKeys (s : Statement) : Except Refusal (List String) :=
  match s.assigned? with
  | some (.object members) => members.mapM fun m => enumKey m.1
  | _ => .ok []

/-- The enumeration that is given another name. -/
def enumAlias? (s : Statement) : Option String :=
  match s.assigned? with
  | some value =>
    match value.segments? with
    | some (first :: others) => some (Text.dotted (first :: others))
    | _ => none
  | none => none

/-- The documented type of a variable; one that is only assigned to is of any type. -/
def variableType (s : Statement) (doc : DocComment) : Except Refusal String :=
  match doc.find? "type" with
  | some tag => tag.type.declared
  | none =>
    if s.isAssignment then .ok "any" else .error (.missingType (doc.tags.map (·.title)))

/-! ## Roles and entries -/

/-- The role the tags of a block give a statement. -/
inductive Role
  | type (kind : ClassKind)
  /-- Not a class; a function, an enumeration, a type alias or a variable. -/
  | value
  /-- Private, and nothing that others may refer to. -/
  | hidden
  deriving DecidableEq, Repr

/-- Whether a block declares an enumeration or a type alias. -/
def namesType (doc : DocComment) : Bool := doc.has ["typedef", "enum"]

/-- The role of a statement: a private class keeps its shape as an interface, and what else is
private is hidden unless it names a type. -/
def Role.of (doc : DocComment) : Role :=
  if doc.has ["private"] then
    if doc.has ["constructor"] then .type .interface
    else if !namesType doc then .hidden
    else if doc.has ["interface"] then .type .interface
    else .value
  else if doc.has ["constructor"] then .type .constructible
  else if doc.has ["interface"] then .type .interface
  else .value

/-- A declaration before it is recorded. -/
inductive Entry
  | class (c : ClassEntry)
  | function (f : Function)
  | enumeration (e : Enumeration)
  | typeAlias (a : TypeAlias)
  | variable (v : Variable)

/-- The parameters of a constructor; an interface has none. -/
def classSignature (kind : ClassKind) (doc : DocComment) : Except Refusal (Option String) :=
  match kind with
  | .constructible => (Doc.constructorSignature doc.tags).map some
  | .interface => .ok none

/-- The declaration of a class. -/
def classEntry (kind : ClassKind) (name : String) (doc : DocComment) (comment : String) :
    Except Refusal ClassEntry := do
  let signature ← classSignature kind doc
  let parents ← Doc.parentTypes doc.tags
  .ok ⟨name, kind, signature, parents, Doc.templateNames doc.tags, [], [], some comment⟩

/-- The declaration of a function. -/
def functionEntry (name : String) (isStatic : Bool) (doc : DocComment) (comment : String) :
    Except Refusal Function := do
  let signature ← Doc.functionSignature doc.tags
  .ok ⟨name, signature, Doc.templateNames doc.tags, isStatic, some comment⟩

/-- The declaration of an enumeration with members of the given type. -/
def enumEntry (name : String) (type : TypeExpr) (s : Statement) (comment : String) :
    Except Refusal Enumeration := do
  let type ← type.declared
  let keys ← enumKeys s
  .ok ⟨name, type, keys, enumAlias? s, some comment⟩

/-- What a statement declares under a name, in the role its tags give it. -/
def entryOf (role : Role) (name : String) (isStatic : Bool) (s : Statement) (doc : DocComment)
    (comment : String) : Except Refusal Entry := do
  match role with
  | .type kind => .ok (.class (← classEntry kind name doc comment))
  | _ =>
    if isFunction s doc then .ok (.function (← functionEntry name isStatic doc comment))
    else match doc.find? "enum" with
      | some tag => .ok (.enumeration (← enumEntry name tag.type s comment))
      | none =>
        match doc.find? "typedef" with
        | some tag => .ok (.typeAlias ⟨name, ← tag.type.declared, some comment⟩)
        | none => .ok (.variable ⟨name, ← variableType s doc, isStatic, some comment⟩)

end Ambient.Declaration
