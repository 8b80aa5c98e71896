/-!
# Shortest decimals

The shortest decimal of a floating-point number: among the decimals that lie nearer to the number
than to any other floating-point number, one with the fewest digits, and of those the nearest, where
a tie goes to the even one.
-/

namespace SequenceChart

structure Decimal where
  digits : Nat
  exponent : Int
  deriving DecidableEq, Repr

namespace Decimal

/-- The power of two that stands for the sign among the bits of a floating-point number. -/
def signBit : Nat := Nat.pow 2 63

/-- The power of two above the bits that hold the fraction. -/
def fractionLimit : Nat := Nat.pow 2 52

/-- A positive binary number `significand * 2 ^ exponent` together with the ends of the interval of
numbers that round to it. The ends are counted in quarters of the last binary place. -/
structure Target where
  significand : Nat
  exponent : Int
  below : Nat
  above : Nat
  closed : Bool

def Target.ofFields (exponentField fraction : Nat) : Target :=
  let significand := if exponentField = 0 then fraction else fraction + fractionLimit
  { significand
    exponent := (max exponentField 1 : Int) - 1075
    below := if fraction = 0 ∧ 1 < exponentField then 4 * significand - 1 else 4 * significand - 2
    above := 4 * significand + 2
    closed := significand % 2 == 0 }

def Target.quarters (target : Target) (count : Nat) : Nat × Nat :=
  (count * Nat.pow 2 (target.exponent - 2).toNat, Nat.pow 2 (2 - target.exponent).toNat)

def fraction (digits : Nat) (exponent : Int) : Nat × Nat :=
  (digits * Nat.pow 10 exponent.toNat, Nat.pow 10 (-exponent).toNat)

def fractionLt (left right : Nat × Nat) : Bool :=
  left.1 * right.2 < right.1 * left.2

def fractionLe (left right : Nat × Nat) : Bool :=
  left.1 * right.2 ≤ right.1 * left.2

def Target.accepts (target : Target) (digits : Nat) (exponent : Int) : Bool :=
  let candidate := fraction digits exponent
  let precedes := if target.closed then fractionLe else fractionLt
  precedes (target.quarters target.below) candidate &&
    precedes candidate (target.quarters target.above)

def countDigits (number : Nat) : Nat :=
  (Nat.toDigits 10 number).length

/-- The power of ten of the leading digit of a positive fraction. -/
def magnitude (value : Nat × Nat) : Int :=
  if value.2 ≤ value.1 then (countDigits (value.1 / value.2) : Int) - 1
  else -(countDigits ((value.2 - 1) / value.1) : Int)

/-- The nearest accepted decimal on the grid of multiples of `10 ^ exponent`, if there is one. Of
two equally near ones it is the even one. -/
def Target.onGrid? (target : Target) (exponent : Int) : Option Nat :=
  let value := target.quarters (4 * target.significand)
  let unit := fraction 1 exponent
  let scaled := value.1 * unit.2
  let step := value.2 * unit.1
  let lower := scaled / step
  let twice := 2 * (scaled % step)
  let nearerUpper := step < twice || (step == twice && lower % 2 == 1)
  match target.accepts lower exponent, target.accepts (lower + 1) exponent with
  | false, false => none
  | true, false => some lower
  | false, true => some (lower + 1)
  | true, true => some (if nearerUpper then lower + 1 else lower)

def dropTrailingZero (decimal : Decimal) : Decimal :=
  if decimal.digits % 10 = 0 then
    { digits := decimal.digits / 10, exponent := decimal.exponent + 1 }
  else decimal

/-- Tries ever finer grids, from `count` remaining ones. -/
def Target.search (target : Target) : Nat → Int → Decimal
  | 0, exponent => { digits := (target.onGrid? exponent).getD 0, exponent }
  | count + 1, exponent =>
      match target.onGrid? exponent with
      | some digits => dropTrailingZero { digits, exponent }
      | none => target.search count (exponent - 1)

/-- The shortest decimal of a finite number, without its sign. -/
def shortest (value : Float) : Decimal :=
  let bits := value.toBits.toNat % signBit
  if bits = 0 then { digits := 0, exponent := 0 }
  else
    let target := Target.ofFields (bits / fractionLimit) (bits % fractionLimit)
    target.search 17 (magnitude (target.quarters (4 * target.significand)))

def zeros (count : Nat) : String :=
  String.ofList (List.replicate count '0')

/-- The most digits that stand before the point without an exponent. -/
def longestWhole : Int := 16

/-- The most zeros that stand between the point and the first digit without an exponent. -/
def longestGap : Int := 4

/-- The exponent of a decimal whose first digit stands alone in front of the point. A plus sign is
written, too. -/
def renderExponent (exponent : Int) : String :=
  (if 0 ≤ exponent then "e+" else "e") ++ toString exponent

/-- Always with a point or an exponent, so that the text is read back as a real number. -/
def render (decimal : Decimal) : String :=
  let digits := Nat.toDigits 10 decimal.digits
  let point := (digits.length : Int) + decimal.exponent
  if decimal.digits = 0 then "0.0"
  else if 0 ≤ decimal.exponent ∧ point ≤ longestWhole then
    String.ofList digits ++ zeros decimal.exponent.toNat ++ ".0"
  else if 0 < point ∧ point ≤ longestWhole then
    String.ofList (digits.take point.toNat) ++ "." ++ String.ofList (digits.drop point.toNat)
  else if -longestGap ≤ point ∧ point ≤ 0 then
    "0." ++ zeros (-point).toNat ++ String.ofList digits
  else
    let tail := if digits.length = 1 then "" else "." ++ String.ofList (digits.drop 1)
    String.ofList (digits.take 1) ++ tail ++ renderExponent (point - 1)

end Decimal

def isNegative (value : Float) : Bool :=
  Decimal.signBit ≤ value.toBits.toNat

def renderFloat (value : Float) : String :=
  (if isNegative value then "-" else "") ++ (Decimal.shortest value).render

end SequenceChart
