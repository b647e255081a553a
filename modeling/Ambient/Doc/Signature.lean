import Ambient.Doc.Tag
import Ambient.TypeExpr.Declared

/-!
# Signatures

The call signature that the tags of a block describe.

* `functionSignature`, `constructorSignature`;
* `templateNames`, `parentTypes`.
-/

namespace Ambient.Doc

/-- The parameters of a list of tags from a position on; one without a name is named by its
position. -/
def paramsFrom : Nat → List Tag → Except Refusal (List (String × String))
  | _, [] => .ok []
  | index, tag :: rest =>
    if tag.title = "param" then do
      let given := tag.name.getD ""
      let name := if given.isEmpty then "arg" ++ toString index else given
      let text ← tag.type.declared
      .ok ((parameterName name tag.type, text) :: (← paramsFrom (index + 1) rest))
    else paramsFrom index rest

/-- The declared type of the last tag that gives a result, empty if none does. -/
def resultFrom (soFar : String) : List Tag → Except Refusal String
  | [] => .ok soFar
  | tag :: rest =>
    if tag.title = "return" then do resultFrom (← tag.type.declared) rest
    else resultFrom soFar rest

/-- Parameters and result. -/
def functionSignature (tags : List Tag) : Except Refusal String := do
  let params ← paramsFrom 0 tags
  let result ← resultFrom "" tags
  .ok (parameterList params ++ ": " ++ resultText result)

/-- Parameters alone. -/
def constructorSignature (tags : List Tag) : Except Refusal String := do
  .ok (parameterList (← paramsFrom 0 tags))

/-- The names on the first line of the first template tag. -/
def templateNames (tags : List Tag) : List String :=
  match tags.find? fun tag => tag.title == "template" with
  | none => []
  | some tag =>
    let line := ((Text.linesOf (tag.description.getD "")).head?).getD ""
    ((Text.cutString ',' line).map Text.strip).filter fun n => !n.isEmpty

/-- The declared types of the tags that name a parent. -/
def parentTypes : List Tag → Except Refusal (List String)
  | [] => .ok []
  | tag :: rest =>
    if tag.title = "extends" then do
      let text ← tag.type.declared
      .ok (text :: (← parentTypes rest))
    else parentTypes rest

end Ambient.Doc
