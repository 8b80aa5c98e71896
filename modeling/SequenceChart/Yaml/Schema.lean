import SequenceChart.Decimal.Reading
import SequenceChart.Json.Reader
import SequenceChart.Yaml.Token

/-!
# Core schema

The values of scalars. A plain scalar without a tag is null, a truth value or a number if it is
written like one, and a string otherwise. A tag can ask for one of these types.
-/

namespace SequenceChart.Yaml

def isNull (text : String) : Bool :=
  ["null", "Null", "NULL", "~"].contains text

def bool? (text : String) : Option Bool :=
  if ["true", "True", "TRUE"].contains text then some true
  else if ["false", "False", "FALSE"].contains text then some false
  else none

def digit? (radix : Nat) (char : Char) : Option Nat :=
  (Json.hexValue? char).filter (· < radix)

/-- The value of at least one digit in a radix of at most 16. -/
def natural? (radix : Nat) (digits : List Char) : Option Nat :=
  if digits.isEmpty then none
  else digits.foldlM (fun value char => (radix * value + ·) <$> digit? radix char) 0

/-- Decimal digits that start with a zero for which there is no need are no number. -/
def isZeroPadded (text : List Char) : Bool :=
  text.head? == some '0' && 1 < text.length && text.all Char.isDigit

def unsigned? (text : List Char) : Option Nat :=
  match text with
  | '0' :: 'x' :: digits => natural? 16 digits
  | '0' :: 'o' :: digits => natural? 8 digits
  | '0' :: 'b' :: digits => natural? 2 digits
  | _ => if isZeroPadded text then none else natural? 10 text

def whole? : List Char → Option Int
  | '-' :: rest => (unsigned? rest).map fun value => -(value : Int)
  | '+' :: rest => (unsigned? rest).map fun value => (value : Int)
  | text => (unsigned? text).map fun value => (value : Int)

/-- Whether a number fits in so many bits, with a sign or without one. -/
def fits (bits : Nat) (value : Int) : Bool :=
  -(Nat.pow 2 (bits - 1) : Int) ≤ value && value < Nat.pow 2 bits

/-- How a text reads as a whole number: one of 64 bits, one that is refused because it needs up to
twice as many, or none. -/
inductive WholeReading
  | value (value : Int)
  | refused
  | none
  deriving DecidableEq, Repr

def WholeReading.ofText (text : List Char) : WholeReading :=
  match whole? text with
  | some whole => if fits 64 whole then value whole else if fits 128 whole then refused else none
  | Option.none => none

def dropSign (text : List Char) : List Char :=
  match text with
  | '-' :: rest | '+' :: rest => rest
  | _ => text

def isInfinity (text : List Char) : Bool :=
  [".inf", ".Inf", ".INF"].contains (String.ofList text)

def isNotANumber (text : List Char) : Bool :=
  [".nan", ".NaN", ".NAN"].contains (String.ofList text)

/-- A number with a fraction. One that is infinite has to be written as a word. -/
def real? (text : List Char) : Option Float :=
  if isNotANumber text then some (0.0 / 0.0)
  else if isInfinity (dropSign text) then
    some (if text.head? = some '-' then -1.0 / 0.0 else 1.0 / 0.0)
  else
    let magnitude := (Decimal.read? (dropSign text)).map Decimal.toFloat
    (magnitude.filter Float.isFinite).map fun value =>
      if text.head? = some '-' then -value else value

/-- The value of a plain scalar without a tag. -/
def plainValue? (text : String) : Option Json :=
  let chars := text.toList
  if text.isEmpty || isNull text then some .null
  else
    match bool? text with
    | some value => some (.bool value)
    | none =>
        match WholeReading.ofText chars with
        | .value value => some (.number (.whole value))
        | .refused => none
        | .none =>
            if isZeroPadded (dropSign chars) then some (.string text)
            else some (((real? chars).map Json.ofFloat).getD (.string text))

inductive CoreType
  | null
  | bool
  | whole
  | real
  deriving DecidableEq, Repr

def CoreType.ofTag? (tag : TagText) : Option CoreType :=
  [(.ofString "tag:yaml.org,2002:null", null), (.ofString "tag:yaml.org,2002:bool", bool),
    (.ofString "tag:yaml.org,2002:int", whole),
    (.ofString "tag:yaml.org,2002:float", real)].lookup tag

def CoreType.value? (text : String) : CoreType → Option Json
  | null => if isNull text then some .null else none
  | bool => (bool? text).map Json.bool
  | whole =>
      match WholeReading.ofText text.toList with
      | .value value => some (.number (.whole value))
      | _ => none
  | real => (real? text.toList).map Json.ofFloat

/-- Whether a tag belongs to the document itself. -/
def isLocalTag (tag : TagText) : Bool :=
  tag.head? == some (some '!')

/-- The value of a scalar, apart from what a local tag adds to it. -/
def scalarValue? (tag : Option TagText) (text : String) (plain : Bool) : Option Json :=
  match tag.filter (!isLocalTag ·) with
  | some tag =>
      match CoreType.ofTag? tag with
      | some type => type.value? text
      | none => some (.string text)
  | none => if plain then plainValue? text else some (.string text)

end SequenceChart.Yaml
