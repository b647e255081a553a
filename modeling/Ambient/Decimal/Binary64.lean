/-!
# Binary floating-point numbers

Numbers of 53 bits and their decimal texts, in exact arithmetic on natural numbers.

* `Binary64`: a sign, and a mantissa times a power of two; infinities and no number;
* `Binary64.ofDecimal`: the number nearest to a decimal, of two equally near ones the even one;
* `Binary64.digits`: the fewest decimal digits that read back, of those the nearest;
* `Binary64.text`: these digits written out, positionally from `1e-4` up to `1e16`.
-/

namespace Ambient.Decimal

/-- A floating-point number: `mantissa * 2 ^ exponent`, an infinity, or no number. -/
inductive Binary64
  | finite (negative : Bool) (mantissa : Nat) (exponent : Int)
  | infinity (negative : Bool)
  | notANumber
  deriving DecidableEq, Repr

namespace Binary64

/-- The least exponent of a mantissa. -/
def leastExponent : Int := -1074

/-- The greatest exponent of a mantissa. -/
def greatestExponent : Int := 971

/-- The least mantissa of a number whose exponent is not the least one. -/
def leastMantissa : Nat := Nat.pow 2 52

/-- A quotient rounded to the nearest whole number, a half to the even neighbour. -/
def roundDiv (num den : Nat) : Nat :=
  let q := num / den
  let r := num % den
  if 2 * r < den then q
  else if den < 2 * r then q + 1
  else if q % 2 = 0 then q else q + 1

/-- A quotient as a fraction over a power of a base: multiplied by the power, or divided by it. -/
def scale (base : Nat) (power : Int) (num den : Nat) : Nat × Nat :=
  if 0 ≤ power then (num * Nat.pow base power.toNat, den)
  else (num, den * Nat.pow base (-power).toNat)

/-- The number nearest to the positive quotient `num / den`. -/
def ofQuotient (negative : Bool) (num den : Nat) : Binary64 :=
  let guess : Int := (num.log2 : Int) - den.log2 - 52
  let (n, d) := scale 2 (-guess) num den
  let fit := if n < d * leastMantissa then guess - 1 else guess
  let exponent := max fit leastExponent
  let (n, d) := scale 2 (-exponent) num den
  let mantissa := roundDiv n d
  let (mantissa, exponent) :=
    if mantissa = 2 * leastMantissa then (leastMantissa, exponent + 1) else (mantissa, exponent)
  if greatestExponent < exponent then .infinity negative else .finite negative mantissa exponent

/-- How many decimal digits a number has. -/
def digitCount (n : Nat) : Nat := (Nat.toDigits 10 n).length

/-- The number nearest to `significand * 10 ^ power`. Powers beyond every number of this format are
settled by the count of digits alone. -/
def ofDecimal (negative : Bool) (significand : Nat) (power : Int) : Binary64 :=
  let size : Int := (digitCount significand : Int) + power
  if significand = 0 then .finite negative 0 leastExponent
  else if 400 < size then .infinity negative
  else if size < -400 then .finite negative 0 leastExponent
  else
    let (n, d) := scale 10 power significand 1
    ofQuotient negative n d

/-- The greatest power of ten that is at most the positive quotient `num / den`. -/
def decimalMagnitude (num den : Nat) : Int :=
  if den ≤ num then (digitCount (num / den) : Int) - 1
  else
    let k := digitCount (den / num)
    if den ≤ num * Nat.pow 10 (k - 1) then -((k - 1 : Nat) : Int) else -(k : Int)

/-- Whether the quotient `num / den` lies between `low / unit` and `high / unit`, the ends included
if `closed`. -/
def between (closed : Bool) (low high unit num den : Nat) : Bool :=
  let a := low * den
  let b := num * unit
  let c := high * den
  if closed then a ≤ b && b ≤ c else a < b && b < c

/-- The fewest digits, and the power of ten of the first one, tried on grids of `count` digits and
more. -/
def digitsFrom (mantissa : Nat) (exponent magnitude : Int) : Nat → Nat → Nat × Int
  | 0, _ => (mantissa, 0)
  | fuel + 1, count =>
    let quarter := scale 2 (exponent - 2) 1 1
    let unit := quarter.2
    let value := 4 * mantissa * quarter.1
    let low := (if mantissa = leastMantissa ∧ leastExponent < exponent then 4 * mantissa - 1
      else 4 * mantissa - 2) * quarter.1
    let high := (4 * mantissa + 2) * quarter.1
    let closed := mantissa % 2 = 0
    let power := magnitude - ((count : Int) - 1)
    let (n, d) := scale 10 (-power) value unit
    let below := n / d
    let reads (candidate : Nat) : Bool :=
      let (cn, cd) := scale 10 power candidate 1
      0 < candidate && between closed low high unit cn cd
    let gapBelow := n - below * d
    let gapAbove := (below + 1) * d - n
    if reads below && (!reads (below + 1) || gapBelow < gapAbove ||
        (gapBelow == gapAbove && below % 2 == 0)) then (below, power)
    else if reads (below + 1) then (below + 1, power)
    else digitsFrom mantissa exponent magnitude fuel (count + 1)

/-- The fewest decimal digits that read back as `mantissa * 2 ^ exponent`, as a whole number and
the power of ten it is multiplied by. -/
def digits (mantissa : Nat) (exponent : Int) : Nat × Int :=
  let (n, d) := scale 2 exponent mantissa 1
  digitsFrom mantissa exponent (decimalMagnitude n d) 17 1

/-- Digits written out: positionally if the first one stands for a power of ten from `-4` to `15`,
with a fraction always, else with an exponent of two digits or more. -/
def layout (significand : Nat) (power : Int) : String :=
  let all := Nat.toDigits 10 significand
  let shown := (all.reverse.dropWhile (· = '0')).reverse
  let magnitude : Int := (all.length : Int) - 1 + power
  if -4 ≤ magnitude ∧ magnitude < 16 then
    if magnitude < 0 then
      "0." ++ String.ofList (List.replicate (-magnitude - 1).toNat '0' ++ shown)
    else
      let whole := magnitude.toNat + 1
      let padded := shown ++ List.replicate (whole - shown.length) '0'
      let fraction := padded.drop whole
      String.ofList (padded.take whole) ++ "." ++
        (if fraction.isEmpty then "0" else String.ofList fraction)
  else
    let lead := String.ofList (shown.take 1)
    let tail := if shown.length ≤ 1 then "" else "." ++ String.ofList (shown.drop 1)
    let size := toString magnitude.natAbs
    lead ++ tail ++ "e" ++ (if magnitude < 0 then "-" else "+") ++
      (if size.length < 2 then "0" ++ size else size)

/-- The decimal text of a number. -/
def text : Binary64 → String
  | .finite negative mantissa exponent =>
    (if negative then "-" else "") ++
      (if mantissa = 0 then "0.0"
      else
        let (significand, power) := digits mantissa exponent
        layout significand power)
  | .infinity negative => if negative then "-inf" else "inf"
  | .notANumber => "nan"

/-- Neither kind of zero; what is no number is not zero. -/
def isNonzero : Binary64 → Bool
  | .finite _ mantissa _ => mantissa ≠ 0
  | _ => true

end Binary64

end Ambient.Decimal
