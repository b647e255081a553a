import Ambient.Data.Value
import Ambient.Decimal.Numeral
import Ambient.Text.Lines

/-!
# Plain scalars

What a scalar without quotes stands for: nothing, a truth value, a number, or the text itself.

* whole numbers are decimal, binary after `0b`, octal after `0`, hexadecimal after `0x`, or groups
  of base sixty between colons; real numbers have a point, and a sign in their exponent;
* underscores between the digits count for nothing;
* `valueOf?`: the value of a plain scalar. Two marks are kept for other uses and have none.
-/

namespace Ambient.Data.Yaml

open Ambient.Decimal

/-- The spellings of nothing. -/
def nulls : List String := ["", "~", "null", "Null", "NULL"]

/-- The spellings of the truth values. -/
def truths : List (String × Bool) :=
  [("yes", true), ("Yes", true), ("YES", true), ("true", true), ("True", true), ("TRUE", true),
    ("on", true), ("On", true), ("ON", true), ("no", false), ("No", false), ("NO", false),
    ("false", false), ("False", false), ("FALSE", false), ("off", false), ("Off", false),
    ("OFF", false)]

/-- The marks that stand for no value of their own. -/
def marks : List String := ["=", "<<"]

/-- A sign in front of a number, and the rest. -/
def signed : List Char → Bool × List Char
  | '-' :: rest => (true, rest)
  | '+' :: rest => (false, rest)
  | rest => (false, rest)

/-- Whether a text is made of digits of a base and underscores, at least one of them. -/
def isRun (base : Nat) (s : List Char) : Bool :=
  !s.isEmpty && s.all fun c => c = '_' || (digitValue? base c).isSome

/-- The number that the digits of a run stand for. -/
def runValue (base : Nat) (s : List Char) : Nat := ofDigits base (s.filterMap (digitValue? base))

/-- Whether a text is a run of decimal digits that starts with a digit. -/
def isCount (s : List Char) : Bool := s.head?.any Char.isDigit && isRun 10 s

/-- A digit of base sixty: one decimal digit, or two of which the first is at most five. -/
def sixtieth? : List Char → Option Nat
  | [a] => if a.isDigit then some (a.toNat - 48) else none
  | [a, b] => if a.isDigit && a ≤ '5' && b.isDigit then some (runValue 10 [a, b]) else none
  | _ => none

/-- A count and at least one digit of base sixty after it, between colons. -/
def sexagesimal? (s : List Char) : Option Nat :=
  match Text.cut ':' s with
  | first :: next :: others =>
    if isCount first then
      ((next :: others).mapM sixtieth?).map fun ds =>
        ds.foldl (fun n d => n * 60 + d) (runValue 10 first)
    else none
  | _ => none

/-- A whole number without its sign. -/
def whole? (s : List Char) : Option Nat :=
  match s with
  | ['0'] => some 0
  | '0' :: 'b' :: rest => if isRun 2 rest then some (runValue 2 rest) else none
  | '0' :: 'x' :: rest => if isRun 16 rest then some (runValue 16 rest) else none
  | '0' :: rest => if isRun 8 rest then some (runValue 8 rest) else none
  | s => if isCount s then some (runValue 10 s) else sexagesimal? s

/-- The exponent of a real number: a letter, a sign and digits, or nothing at all. -/
def power? : List Char → Option Int
  | [] => some 0
  | e :: sign :: digits =>
    if (e = 'e' || e = 'E') && (sign = '-' || sign = '+') && !digits.isEmpty &&
        digits.all Char.isDigit then
      let n : Int := runValue 10 digits
      some (if sign = '-' then -n else n)
    else none
  | _ => none

/-- Digits or underscores in front of a text, and the rest. -/
def leadingRun (s : List Char) : List Char × List Char :=
  let more (c : Char) : Bool := c.isDigit || c = '_'
  (s.takeWhile more, s.dropWhile more)

/-- The real number with a whole part, the digits of a fraction, and an exponent. -/
def realOf (negative : Bool) (whole : Nat) (fraction : List Char) (power : Int) : Binary64 :=
  let digits := fraction.filter Char.isDigit
  .ofDecimal negative (whole * Nat.pow 10 digits.length + runValue 10 digits)
    (power - digits.length)

/-- A real number: an infinity, no number, or a text with a point. -/
def real? (s : List Char) : Option Binary64 :=
  let (negative, body) := signed s
  if [".inf", ".Inf", ".INF"].contains (String.ofList body) then some (.infinity negative)
  else if [".nan", ".NaN", ".NAN"].contains (String.ofList s) then some .notANumber
  else
    let front := body.takeWhile (· ≠ '.')
    match body.dropWhile (· ≠ '.') with
    | '.' :: after =>
      let (fraction, rest) := leadingRun after
      if front.isEmpty then
        if body = s && fraction.head?.any Char.isDigit then
          (power? rest).map (realOf negative 0 fraction)
        else none
      else if isCount front then
        (power? rest).map (realOf negative (runValue 10 front) fraction)
      else
        match sexagesimal? front, rest with
        | some n, [] => some (realOf negative n fraction 0)
        | _, _ => none
    | _ => none

/-- A whole number. -/
def integer? (s : List Char) : Option Int :=
  let (negative, body) := signed s
  (whole? body).map fun n => if negative then -(n : Int) else n

/-- The value of a plain scalar. -/
def valueOf? (s : List Char) : Option Value :=
  let text := String.ofList s
  if nulls.contains text then some .null
  else if marks.contains text then none
  else match truths.lookup text with
    | some b => some (.boolean b)
    | none =>
      match real? s, integer? s with
      | some x, _ => some (.real x)
      | none, some n => some (.integer n)
      | none, none => some (.text text)

end Ambient.Data.Yaml
