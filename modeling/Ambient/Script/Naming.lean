import Ambient.Refusal
import Ambient.Script.Basic

/-!
# The name a statement declares

* `Expression.segments?`: a chain of member accesses as the segments of a dotted name; `this` adds
  none;
* `Statement.path?`: the segments of the name a statement declares;
* `Statement.provided?`: the namespace a statement provides.
-/

namespace Ambient.Script

/-- The segments of a chain of member accesses, nothing if some part of it is not a plain name. -/
def Expression.segments? : Expression → Option (List String)
  | .identifier name => some [name]
  | .this => some []
  | .member target (.identifier name) false => (segments? target).map (· ++ [name])
  | _ => none

namespace Statement

/-- The expression that names what an expression statement declares; a call names nothing. -/
def namedBy (e : Expression) : Except Refusal (Option Expression) :=
  match e with
  | .assignment left _ => .ok (some left)
  | .member _ _ _ => .ok (some e)
  | .call _ _ => .ok none
  | _ => .error (.unsupportedExpression e.kind)

/-- The segments of the name a statement declares, nothing if it has no fixed name. Functions and
variables are local to their module and declare nothing. -/
def path? (s : Statement) : Except Refusal (Option (List String)) :=
  match s.form with
  | .expression e => do
    let named ← namedBy e
    .ok ((named.bind Expression.segments?).filter fun segments => !segments.isEmpty)
  | .function _ | .vars _ => .ok none
  | .unsupported kind => .error (.unsupportedStatement kind)
  | form => .error (.unsupportedStatement form.kind)

/-- The namespace a statement provides: the literal that `goog.provide` is called with. -/
def provided? (s : Statement) : Option String :=
  match s.form with
  | .expression (.call called [.literal value _]) =>
    if called.segments? = some ["goog", "provide"] then some value.spelling else none
  | _ => none

/-- Whether a statement provides a namespace. -/
def isProvide (s : Statement) : Bool := s.provided?.isSome

end Statement

/-- The namespaces a list of statements provides, in order and with repetitions. -/
def providedNames (statements : List Statement) : List String :=
  statements.filterMap Statement.provided?

theorem providedNames_cons (s : Statement) (rest : List Statement) :
    providedNames (s :: rest) = s.provided?.toList ++ providedNames rest := by
  rw [providedNames, List.filterMap_cons]
  cases s.provided? <;> rfl

end Ambient.Script
