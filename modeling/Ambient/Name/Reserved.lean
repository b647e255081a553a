import Ambient.Text.Lines

/-!
# Reserved words

A word that the declaration language keeps for itself gets an underscore after it wherever it would
stand as a name: alone, or as a segment of a dotted name.

* `reservedWords`, `sanitize`, `renameReserved`.
-/

namespace Ambient.Name

/-- The words no name may be. -/
def reservedWords : List String :=
  ["break", "case", "catch", "class", "const", "continue", "debugger", "default", "delete", "do",
    "else", "enum", "export", "extends", "false", "finally", "for", "function", "if", "import",
    "in", "instanceof", "new", "null", "return", "super", "switch", "this", "throw", "true", "try",
    "typeof", "var", "void", "while", "with"]

/-- A name that is no reserved word: a reserved one is marked by an underscore. -/
def sanitize (word : String) : String := if reservedWords.contains word then word ++ "_" else word

/-- The segments of a dotted name. -/
def segments (name : String) : List String := Text.cutString '.' name

/-- A dotted name without reserved segments. -/
def renameReserved (name : String) : String := Text.dotted ((segments name).map sanitize)

end Ambient.Name
