import Ambient.Doc.Block
import Ambient.Doc.Braces
import Ambient.TypeExpr.Reading

/-!
# Tags

The text of a documentation block is a description and the tags after it. A tag starts on a line
whose first character after blanks is `@` with a letter after it, and reaches to the next such
line. Some tags take a type in braces; two of them take a bare name instead; a parameter has a name,
and one in brackets is optional.

* `Tag`, `DocComment`, `DocComment.find?`, `DocComment.has`;
* `segments`: the text cut into description and tags;
* `DocComment.parse`, with the warnings of its types in order.
-/

namespace Ambient.Doc

open TypeExpr (SyntaxError)

/-- A tag of a documentation block. -/
structure Tag where
  title : String
  /-- The type the tag gives, absent if it gives none that can be read. -/
  type : TypeExpr
  /-- The name of a parameter. -/
  name : Option String
  description : Option String
  deriving Inhabited

/-- What a documentation block says. -/
structure DocComment where
  description : String
  tags : List Tag
  deriving Inhabited

/-- The first tag with a title. -/
def DocComment.find? (doc : DocComment) (title : String) : Option Tag :=
  doc.tags.find? fun tag => tag.title == title

/-- Whether some tag has one of the titles. -/
def DocComment.has (doc : DocComment) (titles : List String) : Bool :=
  doc.tags.any fun tag => titles.contains tag.title

theorem DocComment.has_cons (doc : DocComment) (title : String) (titles : List String) :
    doc.has (title :: titles) = (doc.has [title] || doc.has titles) := by
  simp only [has, List.contains_cons, List.contains_nil, Bool.or_false]
  induction doc.tags with
  | nil => rfl
  | cons tag rest ih =>
    rw [List.any_cons, List.any_cons, List.any_cons, ih]
    ac_rfl

/-- What may be wrong inside a tag that is kept all the same. -/
inductive Warning
  | unbalanced (body : String)
  | unreadable (title typeText : String) (error : SyntaxError)
  deriving DecidableEq, Repr

/-- The wording of a warning. -/
def Warning.message : Warning → String
  | .unbalanced body => "Unbalanced braces in tag body: " ++ Text.quoted body
  | .unreadable title typeText error =>
    "Cannot parse type of @" ++ title ++ " \x7b" ++ typeText ++ "\x7d: " ++ error.message

/-- Tags that may give a type in braces. -/
def typedTitles : List String :=
  ["param", "return", "type", "enum", "typedef", "extends", "implements", "const", "define",
    "private", "protected", "this", "throws"]

/-- Tags that may give a type as a bare name. -/
def bareTitles : List String := ["extends", "implements"]

/-- The title a tag is known by. -/
def canonicalTitle (title : String) : String :=
  if title = "returns" then "return" else if title = "augments" then "extends" else title

/-! ## Cutting a text into tags -/

/-- The title of the tag a line starts, and the rest of the line. -/
def tagStart? (line : List Char) : Option (List Char × List Char) :=
  match line.dropWhile isIndent with
  | '@' :: rest =>
    if rest.head?.any Char.isAlpha then
      some (rest.takeWhile Char.isAlpha, rest.dropWhile Char.isAlpha)
    else none
  | _ => none

/-- The text before the first tag, and the tags with their bodies, each up to the next tag. -/
def segmentLines : List (List Char) → List Char × List (List Char × List Char)
  | [] => ([], [])
  | line :: others =>
    let (head, tags) := segmentLines others
    let below := if others.isEmpty then [] else '\n' :: head
    match tagStart? line with
    | some (title, rest) => ([], (title, rest ++ below) :: tags)
    | none => (line ++ below, tags)

/-- The description and the tags of a text. -/
def segments (text : List Char) : List Char × List (List Char × List Char) :=
  segmentLines (Text.cut '\n' text)

/-! ## The body of a tag -/

/-- A bare type name at the front of a body, blanks aside, and what follows it. -/
def bareName? (body : List Char) : Option (List Char × List Char) :=
  match Text.trimLeft body with
  | c :: rest =>
    if TypeExpr.Token.isNameStart c then
      let more (d : Char) : Bool := TypeExpr.Token.isNamePart d || d == '.'
      some (c :: rest.takeWhile more, rest.dropWhile more)
    else none
  | [] => none

/-- The type of a tag from its text, with a warning if it cannot be read. -/
def readType (title : String) (typeText : List Char) : TypeExpr × List Warning :=
  let text := String.ofList typeText
  match TypeExpr.parse text with
  | .ok t => (t, [])
  | .error e => (.absent, [.unreadable title text e])

/-- The type a tag gives, what is left of its body, and the warnings. -/
def tagType (title : String) (body : List Char) : TypeExpr × List Char × List Warning :=
  if typedTitles.contains title then
    match readBraced body with
    | .balanced inner rest =>
      let (t, warnings) := readType title inner
      (t, rest, warnings)
    | .unbalanced inner =>
      let (t, warnings) := readType title inner
      (t, [], .unbalanced (String.ofList body) :: warnings)
    | .absent =>
      if bareTitles.contains title then
        match bareName? body with
        | some (n, rest) => (.name (String.ofList n), rest, [])
        | none => (.absent, body, [])
      else if title = "enum" then (.name "number", body, [])
      else (.absent, body, [])
  else (.absent, body, [])

/-- The name of a parameter, whether it is in brackets, and what follows it. A default value in
brackets is dropped. -/
def paramName? (body : List Char) : Option (String × Bool × List Char) :=
  match Text.trimLeft body with
  | [] => none
  | c :: rest =>
    let bracket := rest.dropWhile (· ≠ ']')
    if c = '[' ∧ !bracket.isEmpty then
      let inside := rest.takeWhile (· ≠ ']')
      let n := Text.trim (inside.takeWhile (· ≠ '='))
      some (String.ofList n, true, bracket.drop 1)
    else
      let word (d : Char) : Bool := !Text.isBlank d
      some (String.ofList (c :: rest.takeWhile word), false, rest.dropWhile word)

/-- A text that is not blank, trimmed. -/
def description? (text : List Char) : Option String :=
  let cleaned := Text.trim text
  if cleaned.isEmpty then none else some (String.ofList cleaned)

/-- The type of a parameter that is written in brackets: optional, if it has one. -/
def bracketedType : TypeExpr → TypeExpr
  | .absent => .absent
  | t => t.toOptional

/-- The tag with a title and a body. -/
def Tag.read (title : String) (body : List Char) : Tag × List Warning :=
  let (type, rest, warnings) := tagType title body
  if title = "param" then
    match paramName? rest with
    | some (n, bracketed, after) =>
      (⟨title, if bracketed then bracketedType type else type, some n, description? after⟩,
        warnings)
    | none => (⟨title, type, none, description? rest⟩, warnings)
  else (⟨title, type, none, description? rest⟩, warnings)

/-! ## A whole comment -/

/-- The tags with wanted titles, and their warnings. -/
def readTags (wanted : String → Bool) :
    List (List Char × List Char) → List Tag × List Warning
  | [] => ([], [])
  | (title, body) :: rest =>
    let (tags, warnings) := readTags wanted rest
    let title := canonicalTitle (String.ofList title)
    if wanted title then
      let (tag, own) := Tag.read title body
      (tag :: tags, own ++ warnings)
    else (tags, warnings)

/-- What an undecorated text says; only tags with wanted titles are kept. -/
def DocComment.ofText (wanted : String → Bool) (text : List Char) : DocComment × List Warning :=
  let (head, found) := segments text
  let (tags, warnings) := readTags wanted found
  (⟨String.ofList (Text.trim head), tags⟩, warnings)

/-- What a documentation block says; only tags with wanted titles are kept. -/
def DocComment.parse (wanted : String → Bool) (value : String) : DocComment × List Warning :=
  DocComment.ofText wanted (unwrapChars value.toList)

/-- What a text without decoration says. -/
def DocComment.parsePlain (wanted : String → Bool) (value : String) :
    DocComment × List Warning :=
  DocComment.ofText wanted (Text.trim value.toList)

end Ambient.Doc
