import Ambient.Decimal.Binary64

/-!
# Numerals

How the number literals of a script are read. Digits may be grouped by single underscores, each
between two digits.

* `wholeNumber?`: decimal digits without a leading zero unless all are zero, or digits after `0x`,
  `0o` or `0b`;
* `decimalFraction?`: digits with a point or an exponent, or with leading zeros;
* `Numeral.read`: the first of the two that applies.
-/

namespace Ambient.Decimal

/-- The value of a digit in base sixteen or less. -/
def digitValue? (base : Nat) (c : Char) : Option Nat :=
  let n := c.toNat
  let value :=
    if '0' ≤ c ∧ c ≤ '9' then some (n - 48)
    else if 'a' ≤ c ∧ c ≤ 'f' then some (n - 87)
    else if 'A' ≤ c ∧ c ≤ 'F' then some (n - 55)
    else none
  value.filter (· < base)

/-- The digits of a group in front of the text, where an underscore stands between two digits; the
flag tells whether the last character was a digit. -/
def digitGroup (base : Nat) : Bool → List Char → List Nat × List Char
  | _, [] => ([], [])
  | afterDigit, c :: rest =>
    match digitValue? base c with
    | some d =>
      let (ds, after) := digitGroup base true rest
      (d :: ds, after)
    | none =>
      match afterDigit && c = '_', rest with
      | true, next :: _ =>
        if (digitValue? base next).isSome then digitGroup base false rest else ([], c :: rest)
      | _, _ => ([], c :: rest)

/-- The number a list of digits stands for. -/
def ofDigits (base : Nat) (digits : List Nat) : Nat := digits.foldl (fun n d => n * base + d) 0

/-- All of a text as digits of a base; an underscore may come first. -/
def prefixed? (base : Nat) (s : List Char) : Option Nat :=
  match digitGroup base true s with
  | (d :: ds, []) => some (ofDigits base (d :: ds))
  | _ => none

/-- A whole number without sign. -/
def wholeNumber? : List Char → Option Nat
  | '0' :: 'x' :: rest | '0' :: 'X' :: rest => prefixed? 16 rest
  | '0' :: 'o' :: rest | '0' :: 'O' :: rest => prefixed? 8 rest
  | '0' :: 'b' :: rest | '0' :: 'B' :: rest => prefixed? 2 rest
  | s =>
    match digitGroup 10 false s with
    | (d :: ds, []) => if d = 0 ∧ ds.any (· ≠ 0) then none else some (ofDigits 10 (d :: ds))
    | _ => none

/-- The exponent part of a numeral; none at all stands for zero. -/
def exponent? : List Char → Option Int
  | [] => some 0
  | e :: rest =>
    if e = 'e' ∨ e = 'E' then
      let (negative, digits) := match rest with
        | '-' :: ds => (true, ds)
        | '+' :: ds => (false, ds)
        | ds => (false, ds)
      match digitGroup 10 false digits with
      | (d :: ds, []) =>
        let n : Int := ofDigits 10 (d :: ds)
        some (if negative then -n else n)
      | _ => none
    else none

/-- A decimal without sign, with a point, an exponent or neither. -/
def decimalFraction? (s : List Char) : Option Binary64 :=
  let (whole, rest) := digitGroup 10 false s
  let (fraction, rest) := match rest with
    | '.' :: after => digitGroup 10 false after
    | _ => ([], rest)
  if whole.isEmpty && fraction.isEmpty then none
  else (exponent? rest).map fun e =>
    .ofDecimal false (ofDigits 10 (whole ++ fraction)) (e - fraction.length)

/-- What a number literal stands for. -/
inductive Numeral
  | whole (n : Nat)
  | fraction (x : Binary64)
  | other

/-- The value of a number literal. -/
def Numeral.read (s : List Char) : Numeral :=
  match wholeNumber? s with
  | some n => .whole n
  | none =>
    match decimalFraction? s with
    | some x => .fraction x
    | none => .other

end Ambient.Decimal
