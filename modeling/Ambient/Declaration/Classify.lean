import Ambient.Declaration.Entry
import Ambient.Name.Filter

/-!
# Classification

One statement at a time, a module's declarations are recorded. A statement is first screened (does
it declare something at all, under a name that is declared?), then placed (in a namespace, or as a
member of a class registered before it), and then its declaration is built and recorded.

* `SkipReason`, `Outcome`;
* `subject`, `placement`: the two steps that need no new declaration;
* `Model.record`; `classify`.
-/

namespace Ambient.Declaration

open Ambient.Doc (DocComment)
open Ambient.Script (Statement)

/-- Why a statement declares nothing. -/
inductive SkipReason
  | guarded
  | provide
  | undocumented
  | hidden
  | unnamed
  | foreignRoot (name : String)
  | ignored (name : String)
  | emptyOverride (name : String)
  | globalObject (name : String)
  | unregistered (name className : String)
  deriving DecidableEq, Repr

/-- The wording of a reason. -/
def SkipReason.message : SkipReason → String
  | .guarded => "conditional or exception-handling statement"
  | .provide => "provide directive"
  | .undocumented => "no documentation comment"
  | .hidden => "private declaration"
  | .unnamed => "no statically known name"
  | .foreignRoot name => "root namespace of " ++ name ++ " is not translated"
  | .ignored name => name ++ " is on the ignore list"
  | .emptyOverride name => "empty override " ++ name
  | .globalObject name => name ++ " is declared on the global object"
  | .unregistered name className =>
    name ++ " belongs to unregistered class " ++ className

/-- What one statement contributes. -/
inductive Outcome
  /-- A declaration was recorded under a dotted name. -/
  | declared (name : String)
  | skipped (reason : SkipReason)
  /-- The declaration cannot be written. -/
  | fatal (refusal : Refusal)
  deriving DecidableEq, Repr

namespace Outcome

/-- Whether an outcome is fatal. -/
def isFatal : Outcome → Bool
  | .fatal _ => true
  | _ => false

/-- Whether an outcome is a declaration. -/
def isDeclared : Outcome → Bool
  | .declared _ => true
  | _ => false

/-- Whether an outcome is a skipped statement. -/
def isSkipped : Outcome → Bool
  | .skipped _ => true
  | _ => false

end Outcome

/-- A documented statement with a name that is declared. -/
structure Subject where
  statement : Statement
  comment : String
  doc : DocComment
  role : Role
  /-- The segments of the name but the last. -/
  path : List String
  /-- The last segment of the name. -/
  name : String

/-- The dotted name of a subject. -/
def Subject.fullName (s : Subject) : String := Text.dotted (s.path ++ [s.name])

/-- What a statement's documentation says. -/
def documentation (comment : String) : DocComment :=
  (DocComment.parse recognizedTitles.contains comment).1

/-- Screens a statement: its documentation, its role and its name; or the outcome if there is
nothing to declare. -/
def subject (filter : Name.Filter) (s : Statement) : Except Outcome Subject := do
  match s.form with
  | .conditional | .guarded => .error (.skipped .guarded)
  | _ =>
  if s.isProvide then .error (.skipped .provide) else
  match s.documentation? with
  | none => .error (.skipped .undocumented)
  | some comment =>
  let doc := documentation comment.value
  let role := Role.of doc
  if role = .hidden then .error (.skipped .hidden) else
  match s.path? with
  | .error refusal => .error (.fatal refusal)
  | .ok none => .error (.skipped .unnamed)
  | .ok (some segments) =>
  if !filter.allows segments then
    .error (.skipped (.foreignRoot (Text.dotted segments)))
  else if filter.ignores segments then .error (.skipped (.ignored (Text.dotted segments)))
  else .ok ⟨s, comment.value, doc, role, segments.dropLast, (segments.getLast?).getD ""⟩

/-- Where a declaration goes. -/
structure Placement where
  /-- The path of the namespace. -/
  path : String
  /-- The class it is a member of. -/
  owner : Option String
  isStatic : Bool
  deriving DecidableEq, Repr

/-- The segment that marks the members of instances. -/
def prototypeSegment : String := "prototype"

/-- The namespace of the global object, which is never declared. -/
def globalPath : String := "goog.global"

/-- Whether a subject declares a type, which never is a member of a class. -/
def Subject.declaresType (s : Subject) : Bool :=
  (match s.role with
    | .type _ => true
    | _ => false) || namesType s.doc

/-- The class that a path names last, if that segment is there and not empty. -/
def ownerOf (path : List String) : Option String := path.getLast?.filter fun n => !n.isEmpty

/-- A placement in the namespace with the given segments: not on the global object, and a member
only of a class that is registered. -/
def placeIn (m : Model) (s : Subject) (segments : List String) (owner : Option String)
    (isStatic : Bool) : Except SkipReason Placement :=
  let path := Text.dotted segments
  if path = globalPath then .error (.globalObject s.fullName)
  else match owner with
    | none => .ok ⟨path, none, isStatic⟩
    | some className =>
      if (m.findClass? path className).isSome then .ok ⟨path, some className, isStatic⟩
      else .error (.unregistered s.fullName className)

/-- Places a subject: below the prototype of a class it is a member of its instances, below a class
itself a static member, elsewhere it stands in its namespace. -/
def placement (m : Model) (s : Subject) : Except SkipReason Placement :=
  if s.path.getLast? = some prototypeSegment then
    if isEmptyOverride s.doc then .error (.emptyOverride s.fullName)
    else
      let above := s.path.dropLast
      placeIn m s above.dropLast (ownerOf above) false
  else if m.isStaticMember s.path && !s.declaresType then
    placeIn m s s.path.dropLast (ownerOf s.path) true
  else placeIn m s s.path none false

/-- Records a variable or a function with a class if it has an owner, else with the namespace; what
names a type always goes to the namespace. -/
def Namespace.record (ns : Namespace) (owner : Option String) (entry : Entry) : Namespace :=
  match entry, owner with
  | .class c, _ => ns.addClass c
  | .enumeration e, _ => { ns with enums := ns.enums ++ [e] }
  | .typeAlias a, _ => { ns with typeAliases := ns.typeAliases ++ [a] }
  | .function f, none => { ns with functions := ns.functions ++ [f] }
  | .function f, some className =>
    ns.updateClass className fun c => { c with methods := c.methods ++ [f] }
  | .variable v, none => { ns with vars := ns.vars ++ [v] }
  | .variable v, some className =>
    ns.updateClass className fun c => { c with properties := c.properties ++ [v] }

/-- Records a declaration at its place. -/
def Model.record (m : Model) (place : Placement) (entry : Entry) : Model :=
  m.update place.path (·.record place.owner entry)

/-- Classifies one statement: its outcome, and the model after it. A declaration that cannot be
written leaves its namespace behind. -/
def classify (filter : Name.Filter) (m : Model) (s : Statement) : Outcome × Model :=
  match subject filter s with
  | .error outcome => (outcome, m)
  | .ok sub =>
    match placement m sub with
    | .error reason => (.skipped reason, m)
    | .ok place =>
      match entryOf sub.role sub.name place.isStatic s sub.doc sub.comment with
      | .error refusal => (.fatal refusal, m.withNamespace place.path)
      | .ok entry => (.declared sub.fullName, m.record place entry)

end Ambient.Declaration
