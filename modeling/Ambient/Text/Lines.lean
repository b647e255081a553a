/-!
# Lines

Two ways to see a text as lines. A *line feed* separates the lines that comment decoration and
tags are recognised on; *any break* of Unicode ends a line when a comment is printed again.

* `cut sep`: the pieces between the separators, always at least one; `glue sep` undoes it;
* `lines`: the lines ended by any break, where a last break starts no further line;
* `unifyBreaks`: the text of a file with a line feed at the end of every line.
-/

namespace Ambient.Text

/-- The pieces of a text between the occurrences of a separator. -/
def cut (sep : Char) : List Char → List (List Char)
  | [] => [[]]
  | c :: rest =>
    if c = sep then [] :: cut sep rest
    else match cut sep rest with
      | [] => [[c]]
      | piece :: pieces => (c :: piece) :: pieces

/-- Pieces joined by a separator. -/
def glue (sep : Char) : List (List Char) → List Char
  | [] => []
  | [piece] => piece
  | piece :: next :: pieces => piece ++ sep :: glue sep (next :: pieces)

theorem cut_ne_nil (sep : Char) : ∀ s, cut sep s ≠ []
  | [] => by simp [cut]
  | c :: rest => by
    by_cases h : c = sep
    · simp [cut, h]
    · cases hr : cut sep rest <;> simp [cut, h, hr]

theorem glue_cut (sep : Char) : ∀ s, glue sep (cut sep s) = s
  | [] => rfl
  | c :: rest => by
    have ih := glue_cut sep rest
    have hne := cut_ne_nil sep rest
    by_cases h : c = sep
    · cases hr : cut sep rest with
      | nil => exact absurd hr hne
      | cons piece pieces => rw [hr] at ih; simp [cut, h, hr, glue, ih]
    · cases hr : cut sep rest with
      | nil => exact absurd hr hne
      | cons piece pieces =>
        rw [hr] at ih
        cases pieces <;> simp_all [cut, glue]

/-- A character that ends a line: feeds, returns and the separators of Unicode. -/
def isBreak (c : Char) : Bool :=
  let n := c.toNat
  (10 ≤ n && n ≤ 13) || (0x1C ≤ n && n ≤ 0x1E) || n == 0x85 || n == 0x2028 || n == 0x2029

/-- The lines of a text, each ended by a break or by the end of the text; a return and the feed
after it are one break. -/
def lines : List Char → List (List Char)
  | [] => []
  | '\r' :: '\n' :: rest => [] :: lines rest
  | c :: rest =>
    if isBreak c then [] :: lines rest
    else match lines rest with
      | [] => [[c]]
      | line :: others => (c :: line) :: others

/-- A text whose returns, with or without a feed after them, have become line feeds. -/
def unifyBreaks : List Char → List Char
  | [] => []
  | '\r' :: '\n' :: rest => '\n' :: unifyBreaks rest
  | c :: rest => (if c = '\r' then '\n' else c) :: unifyBreaks rest

/-- The pieces of a string between the occurrences of a separator. -/
def cutString (sep : Char) (s : String) : List String := (cut sep s.toList).map String.ofList

/-- The lines of a string. -/
def linesOf (s : String) : List String := (lines s.toList).map String.ofList

/-- A dotted name from its segments. -/
def dotted (segments : List String) : String := String.intercalate "." segments

end Ambient.Text
