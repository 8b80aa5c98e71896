import SequenceChart.Decimal.Shortest

/-!
# Reading decimals

Decimals in the forms in which people write them, and the floating-point number nearest to a
decimal.
-/

namespace SequenceChart

namespace Decimal

/-- The range of magnitudes outside of which a decimal is infinite or zero as a number. -/
def widestPoint : Int := 400

/-- The nearest floating-point number, which is infinite for large decimals. -/
def toFloat (decimal : Decimal) : Float :=
  let point := (countDigits decimal.digits : Int) + decimal.exponent
  if decimal.digits = 0 ∨ point < -widestPoint then 0.0
  else if widestPoint < point then 1.0 / 0.0
  else Float.ofScientific decimal.digits (decimal.exponent < 0) decimal.exponent.natAbs

def readExponent? (text : List Char) : Option Int :=
  let (negative, digits) :=
    match text with
    | '-' :: rest => (true, rest)
    | '+' :: rest => (false, rest)
    | _ => (false, text)
  if digits.isEmpty || !digits.all Char.isDigit then none
  else
    let value : Int := Nat.ofDigitChars 10 digits 0
    some (if negative then -value else value)

/-- Reads digits with a point before, between or behind them, and an exponent after them. -/
def read? (text : List Char) : Option Decimal := do
  let whole := text.takeWhile Char.isDigit
  let (fraction, rest) :=
    match text.dropWhile Char.isDigit with
    | '.' :: rest => (rest.takeWhile Char.isDigit, rest.dropWhile Char.isDigit)
    | rest => ([], rest)
  let exponent ←
    match rest with
    | [] => some 0
    | 'e' :: rest | 'E' :: rest => readExponent? rest
    | _ => none
  let digits := whole ++ fraction
  guard !digits.isEmpty
  return { digits := Nat.ofDigitChars 10 digits 0, exponent := exponent - fraction.length }

end Decimal

end SequenceChart
