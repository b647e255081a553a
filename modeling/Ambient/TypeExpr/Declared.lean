import Ambient.Name.Generic
import Ambient.Refusal
import Ambient.TypeExpr.Basic

/-!
# Types as they are declared

The text of a type in the declaration language. Every type there admits null, so marks of
nullability leave no trace; an optional type shows in the name of its parameter and not in its own
text. A known container written without arguments gets `any` for each of them, and `Object` with
arguments becomes an index signature.

* `Place`: where a type stands;
* `TypeExpr.declaredAt`, and `TypeExpr.declared` for a type that stands by itself;
* `parameterName`, `parameterList`, `functionType`, `indexSignature`.
-/

namespace Ambient

/-- Where a type stands, as far as its text depends on it. -/
structure Place where
  /-- A member of a union: a function type is put in parentheses. -/
  inUnion : Bool
  /-- The element of a variadic type: a union is put in parentheses. -/
  inVariadic : Bool
  /-- The base of an application: a container is not given arguments. -/
  asBase : Bool
  deriving DecidableEq, Repr

namespace Place

/-- A type by itself. -/
def alone : Place := ⟨false, false, false⟩

/-- A member of a union. -/
def unionMember : Place := ⟨true, false, false⟩

/-- The element of a variadic type. -/
def element : Place := ⟨false, true, false⟩

/-- The base of an application. -/
def base : Place := ⟨false, false, true⟩

end Place

/-- The text in parentheses, if they are asked for. -/
def parenthesize (wanted : Bool) (text : String) : String :=
  if wanted then "(" ++ text ++ ")" else text

/-- The name of a parameter: marked if it may be left out or repeated. -/
def parameterName (name : String) (type : TypeExpr) : String :=
  let name := Name.sanitize name
  if type.isOptional then name ++ "?"
  else if type.isVariadic then "..." ++ name
  else name

/-- Named and typed parameters in parentheses. -/
def parameterList (params : List (String × String)) : String :=
  "(" ++ String.intercalate ", " (params.map fun p => p.1 ++ ": " ++ p.2) ++ ")"

/-- The text of a result; nothing stands for `void`. -/
def resultText (result : String) : String := if result.isEmpty then "void" else result

/-- A function type. -/
def functionType (inUnion : Bool) (params : List (String × String)) (result : String) : String :=
  parenthesize inUnion (parameterList params ++ " => " ++ resultText result)

/-- A name with its type arguments. -/
def withArguments (base : String) (arguments : List String) : String :=
  base ++ "<" ++ String.intercalate ", " arguments ++ ">"

/-- An index signature; an index that is neither text nor number is taken for text. -/
def indexText (index value : String) : String :=
  "\x7b[index: " ++ (if Name.isIndexType index then index else "string") ++ "]: " ++ value ++ "\x7d"

/-- The index signature from the texts of the arguments of `Object`. -/
def indexSignatureText : List String → Except Refusal String
  | [value] => .ok (indexText "string" value)
  | [index, value] => .ok (indexText index value)
  | arguments => .error (.objectArguments arguments.length)

/-- The text of a name: a container that stands by itself is given its arguments. -/
def nameText (asBase : Bool) (name : String) : String :=
  let count := Name.arity name
  if count ≠ 0 ∧ !asBase then withArguments (Name.renameType name) (List.replicate count "any")
  else Name.renameType name

namespace TypeExpr

mutual

/-- The text of a type at a place. -/
def declaredAt (place : Place) : TypeExpr → Except Refusal String
  | .absent | .all | .unknown => .ok "any"
  | .void | .null | .undefined => .ok "void"
  | .name n => .ok (nameText place.asBase n)
  | .optional inner | .nullable _ inner | .nonNullable _ inner =>
    declaredAt { place with asBase := false } inner
  | .union members => do
    let texts ← eachAt .unionMember members
    .ok (parenthesize place.inVariadic (String.intercalate "|" texts))
  | .variadic (.tuple [item]) => do .ok ((← declaredAt .element item) ++ "[]")
  | .variadic inner => do .ok ((← declaredAt .element inner) ++ "[]")
  | .tuple _ => .error (.unsupportedType "ArrayType")
  | .application base arguments => do
    let base ← declaredAt .base base
    if base = Name.objectType then
      if arguments.length = 1 ∨ arguments.length = 2 then
        indexSignatureText (← eachAt .alone arguments)
      else .error (.objectArguments arguments.length)
    else if Name.isUnparameterized base then .ok base
    else
      let texts ← eachAt .alone arguments
      .ok (withArguments base (texts ++ List.replicate (Name.arity base - texts.length) "any"))
  | .function params result _ _ => do
    let params ← paramsFrom 0 params
    let result ← match result with
      | .absent => .ok ""
      | result => declaredAt .alone result
    .ok (functionType place.inUnion params result)
  | .field _ _ => .error (.unsupportedType "FieldType")
  | .record fields => do
    .ok ("\x7b" ++ String.intercalate "; " (← fieldTexts fields) ++ "\x7d")

/-- The texts of several types at one place. -/
def eachAt (place : Place) : List TypeExpr → Except Refusal (List String)
  | [] => .ok []
  | t :: ts => do
    let text ← declaredAt place t
    .ok (text :: (← eachAt place ts))

/-- The parameters of a function type, named by their positions. -/
def paramsFrom (index : Nat) : List TypeExpr → Except Refusal (List (String × String))
  | [] => .ok []
  | t :: ts => do
    let text ← declaredAt .alone t
    .ok ((parameterName ("arg" ++ toString index) t, text) :: (← paramsFrom (index + 1) ts))

/-- The members of a record. -/
def fieldTexts : List TypeExpr → Except Refusal (List String)
  | [] => .ok []
  | .field key value :: ts => do
    let text ← declaredAt .alone value
    .ok ((key ++ ": " ++ text) :: (← fieldTexts ts))
  | _ :: _ => .error .strayMember

end

/-- The text of a type that stands by itself. -/
def declared (t : TypeExpr) : Except Refusal String := t.declaredAt .alone

/-- The index signature that `Object` with these arguments stands for. -/
def indexSignature (arguments : List TypeExpr) : Except Refusal String :=
  if arguments.length = 1 ∨ arguments.length = 2 then do
    indexSignatureText (← eachAt .alone arguments)
  else .error (.objectArguments arguments.length)

end TypeExpr

end Ambient
