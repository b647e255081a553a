import Ambient.Data.Value
import Ambient.Decimal.Numeral

/-!
# JSON

* `Json.parse`: all of a text as one value; numbers with a point or an exponent are real, `NaN` and
  the infinities may be written as words, and of two equal keys the later one counts;
* `Json.line`: a value on one line; `Json.page`: a value indented by two blanks, with the keys of
  every table in order. Both write ASCII alone.
-/

namespace Ambient.Data.Json

open Ambient.Decimal

/-- Reads a part from the front of a text. -/
abbrev Reader (α : Type) := List Char → Option (α × List Char)

/-- The text after the blanks in front of it. -/
def skip (s : List Char) : List Char :=
  s.dropWhile fun c => c == ' ' || c == '\t' || c == '\n' || c == '\r'

/-- The text after a given beginning. -/
def after? : List Char → List Char → Option (List Char)
  | [], s => some s
  | c :: cs, d :: s => if c = d then after? cs s else none
  | _ :: _, [] => none

/-- The value of four digits in base sixteen. -/
def hex4 : Reader Nat
  | a :: b :: c :: d :: rest => do
    let digits ← [a, b, c, d].mapM (digitValue? 16)
    some (ofDigits 16 digits, rest)
  | _ => none

/-- A code unit after `\u`, joined with a second one if both are halves of one character. -/
def unicode : Reader Char := fun s => do
  let (n, rest) ← hex4 s
  if 0xD800 ≤ n ∧ n ≤ 0xDBFF then
    match rest with
    | '\\' :: 'u' :: more =>
      match hex4 more with
      | some (m, rest') =>
        if 0xDC00 ≤ m ∧ m ≤ 0xDFFF then
          some (Char.ofNat (0x10000 + (n - 0xD800) * 0x400 + (m - 0xDC00)), rest')
        else some (Char.ofNat 0xFFFD, rest)
      | none => some (Char.ofNat 0xFFFD, rest)
    | _ => some (Char.ofNat 0xFFFD, rest)
  else if 0xDC00 ≤ n ∧ n ≤ 0xDFFF then some (Char.ofNat 0xFFFD, rest)
  else some (Char.ofNat n, rest)

/-- The rest of a string after its opening quote, with one unit of fuel for each character; what
has been read so far is given in reverse. -/
def stringTail : Nat → List Char → Reader String
  | 0, _, _ => none
  | _, _, [] => none
  | fuel + 1, seen, c :: rest =>
    if c = '\x22' then some (String.ofList seen.reverse, rest)
    else if c.toNat < 0x20 then none
    else if c = '\\' then
      match rest with
      | '\x22' :: more => stringTail fuel ('\x22' :: seen) more
      | '\\' :: more => stringTail fuel ('\\' :: seen) more
      | '/' :: more => stringTail fuel ('/' :: seen) more
      | 'b' :: more => stringTail fuel ('\x08' :: seen) more
      | 'f' :: more => stringTail fuel ('\x0c' :: seen) more
      | 'n' :: more => stringTail fuel ('\n' :: seen) more
      | 'r' :: more => stringTail fuel ('\r' :: seen) more
      | 't' :: more => stringTail fuel ('\t' :: seen) more
      | 'u' :: more =>
        match unicode more with
        | some (d, more) => stringTail fuel (d :: seen) more
        | none => none
      | _ => none
    else stringTail fuel (c :: seen) rest

/-- A string. -/
def string : Reader String
  | '\x22' :: rest => stringTail (rest.length + 1) [] rest
  | _ => none

/-- Digits at the front of a text. -/
def digits (s : List Char) : List Char × List Char :=
  (s.takeWhile Char.isDigit, s.dropWhile Char.isDigit)

/-- A number without its sign. -/
def unsigned (negative : Bool) (s : List Char) : Option (Value × List Char) :=
  let (whole, rest) := match s with
    | '0' :: rest => (['0'], rest)
    | s => digits s
  let (fraction, rest) := match rest with
    | '.' :: more => if (digits more).1.isEmpty then ([], rest) else digits more
    | rest => ([], rest)
  let (power, rest) := match rest with
    | e :: more =>
      if e = 'e' ∨ e = 'E' then
        let (sign, ds) := match more with
          | '-' :: ds => (['-'], ds)
          | '+' :: ds => ([], ds)
          | ds => ([], ds)
        if (digits ds).1.isEmpty then ([], rest) else (sign ++ (digits ds).1, (digits ds).2)
      else ([], rest)
    | [] => ([], [])
  let value (ds : List Char) : Nat := ofDigits 10 (ds.map fun c => c.toNat - 48)
  if whole.isEmpty then none
  else if fraction.isEmpty ∧ power.isEmpty then
    some (.integer (if negative then -(value whole : Int) else value whole), rest)
  else
    let e : Int := match power with
      | '-' :: ds => -(value ds : Int)
      | ds => value ds
    some (.real (.ofDecimal negative (value (whole ++ fraction)) (e - fraction.length)), rest)

/-- A value that is one word or number. -/
def scalar : Reader Value
  | 'n' :: rest => (after? ['u', 'l', 'l'] rest).map fun r => (.null, r)
  | 't' :: rest => (after? ['r', 'u', 'e'] rest).map fun r => (.boolean true, r)
  | 'f' :: rest => (after? ['a', 'l', 's', 'e'] rest).map fun r => (.boolean false, r)
  | 'N' :: rest => (after? ['a', 'N'] rest).map fun r => (.real .notANumber, r)
  | 'I' :: rest => (after? "nfinity".toList rest).map fun r => (.real (.infinity false), r)
  | '-' :: 'I' :: rest => (after? "nfinity".toList rest).map fun r => (.real (.infinity true), r)
  | '-' :: rest => unsigned true rest
  | s => unsigned false s

/-- Parts separated by commas up to a closing bracket; the fuel is the number of parts there can
be. -/
def parts {α : Type} (close : Char) (part : Reader α) : Nat → Reader (List α)
  | 0, _ => none
  | fuel + 1, s => do
    let (x, rest) ← part s
    match skip rest with
    | ',' :: more =>
      let (xs, rest) ← parts close part fuel more
      some (x :: xs, rest)
    | c :: more => if c = close then some ([x], more) else none
    | [] => none

/-- Parts in brackets, possibly none, after the opening one. -/
def bracketed {α : Type} (close : Char) (part : Reader α) : Reader (List α) := fun s =>
  match skip s with
  | c :: rest => if c = close then some ([], rest) else parts close part s.length s
  | [] => none

/-- A key with its value. -/
def entry (value : Reader Value) : Reader (Value × Value) := fun s => do
  let (key, rest) ← string (skip s)
  match skip rest with
  | ':' :: more =>
    let (v, rest) ← value more
    some ((.text key, v), rest)
  | _ => none

/-- A value nested at most `depth` deep, after blanks. -/
def value : Nat → Reader Value
  | 0, _ => none
  | depth + 1, s =>
    match skip s with
    | [] => none
    | '\x22' :: rest => (string ('\x22' :: rest)).map fun (t, r) => (.text t, r)
    | '[' :: rest => (bracketed ']' (value depth) rest).map fun (items, r) => (.list items, r)
    | '\x7b' :: rest =>
      (bracketed '\x7d' (entry (value depth)) rest).map fun (pairs, r) => (.ofPairs pairs, r)
    | s => scalar s

/-- The value a text stands for. -/
def parse (s : String) : Option Value := do
  let chars := s.toList
  let (v, rest) ← value (chars.length + 1) chars
  if (skip rest).isEmpty then some v else none

/-- An escaped code unit. -/
def escapeUnit (n : Nat) : String := "\\u" ++ String.ofList (Text.hex 4 n)

/-- One character of a string. -/
def escape (c : Char) : String :=
  let n := c.toNat
  if c = '\x22' then "\\\"" else if c = '\\' then "\\\\" else if c = '\n' then "\\n"
  else if c = '\r' then "\\r" else if c = '\t' then "\\t" else if n = 8 then "\\b"
  else if n = 12 then "\\f" else if 0x20 ≤ n ∧ n < 0x7F then c.toString
  else if n < 0x10000 then escapeUnit n
  else escapeUnit (0xD800 + (n - 0x10000) / 0x400) ++ escapeUnit (0xDC00 + (n - 0x10000) % 0x400)

/-- A string in quotes. -/
def quoteText (s : String) : String := "\"" ++ String.join (s.toList.map escape) ++ "\""

/-- A real number; what has no digits is written as a word. -/
def realText : Binary64 → String
  | .infinity negative => if negative then "-Infinity" else "Infinity"
  | .notANumber => "NaN"
  | x => x.text

/-- A key of a table. -/
def keyText : Value → String
  | .text s => s
  | .null => "null"
  | .boolean b => if b then "true" else "false"
  | .real x => realText x
  | v => v.spelling

mutual

/-- A value on one line. -/
def line : Value → String
  | .null => "null"
  | .boolean b => if b then "true" else "false"
  | .integer n => toString n
  | .real x => realText x
  | .text s => quoteText s
  | .list items => "[" ++ String.intercalate "," (lines items) ++ "]"
  | .table entries => "\x7b" ++ String.intercalate "," (entryLines entries) ++ "\x7d"

/-- The items of a list, each on one line. -/
def lines : List Value → List String
  | [] => []
  | v :: vs => line v :: lines vs

/-- The entries of a table, each on one line. -/
def entryLines : List (Value × Value) → List String
  | [] => []
  | (k, v) :: rest => (quoteText (keyText k) ++ ":" ++ line v) :: entryLines rest

end

/-- Blocks on lines of their own between two brackets, at a depth. -/
def block (openMark closeMark : String) (depth : Nat) (blocks : List String) : String :=
  if blocks.isEmpty then openMark ++ closeMark
  else
    let indent := "\n" ++ String.ofList (List.replicate (2 * depth) ' ')
    openMark ++ indent ++ "  " ++ String.intercalate ("," ++ indent ++ "  ") blocks ++ indent ++
      closeMark

mutual

/-- A value at a depth of indentation, the entries of tables in the order of their keys. -/
def pageAt (depth : Nat) : Value → String
  | .list items => block "[" "]" depth (pagesAt (depth + 1) items)
  | .table entries =>
    let sorted := (entryPagesAt (depth + 1) entries).mergeSort fun a b => !(b.1 < a.1)
    block "\x7b" "\x7d" depth (sorted.map fun e => quoteText e.1 ++ ": " ++ e.2)
  | v => line v

/-- The items of a list. -/
def pagesAt (depth : Nat) : List Value → List String
  | [] => []
  | v :: vs => pageAt depth v :: pagesAt depth vs

/-- The keys and values of a table. -/
def entryPagesAt (depth : Nat) : List (Value × Value) → List (String × String)
  | [] => []
  | (k, v) :: rest => (keyText k, pageAt depth v) :: entryPagesAt depth rest

end

/-- A value as an indented page. -/
def page (v : Value) : String := pageAt 0 v

end Ambient.Data.Json
