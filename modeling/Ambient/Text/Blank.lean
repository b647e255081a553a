/-!
# Blank space

White space as comments and settings see it: the ASCII blanks, the four separators `U+001C` to
`U+001F`, and the spaces and line breaks of Unicode. The byte order mark and the zero-width space
are not blank.

* `isBlank`;
* `trimLeft`, `trimRight`, `trim` on lists of characters, `strip` and `stripRight` on strings.
-/

namespace Ambient.Text

/-- White space, line breaks included. -/
def isBlank (c : Char) : Bool :=
  let n := c.toNat
  (9 ≤ n && n ≤ 13) || (0x1C ≤ n && n ≤ 0x20) || n == 0x85 || n == 0xA0 || n == 0x1680 ||
    (0x2000 ≤ n && n ≤ 0x200A) || n == 0x2028 || n == 0x2029 || n == 0x202F || n == 0x205F ||
    n == 0x3000

/-- The text from its first character that is not blank. -/
def trimLeft (s : List Char) : List Char := s.dropWhile isBlank

/-- The text up to its last character that is not blank. -/
def trimRight (s : List Char) : List Char := (s.reverse.dropWhile isBlank).reverse

/-- The text between its outermost characters that are not blank. -/
def trim (s : List Char) : List Char := trimRight (trimLeft s)

/-- A string without the blanks at its ends. -/
def strip (s : String) : String := String.ofList (trim s.toList)

/-- A string without the blanks at its end. -/
def stripRight (s : String) : String := String.ofList (trimRight s.toList)

@[simp] theorem trim_nil : trim [] = [] := rfl

theorem trimLeft_of_not_blank {c : Char} {s : List Char} (h : isBlank c = false) :
    trimLeft (c :: s) = c :: s := by
  simp [trimLeft, List.dropWhile, h]

end Ambient.Text
