/-!
# Numbers

Numbers as JSON texts write them. A number without fraction and exponent stays whole when it fits
in 64 bits. Any other number is read from the leading digits that fit in 64 bits, scaled by a power
of ten; a number that is too large for this is refused.
-/

namespace SequenceChart

inductive Number
  | whole (value : Int)
  | real (value : Float)
  deriving Repr

def Number.toFloat : Number → Float
  | whole value => Float.ofInt value
  | real value => value

/-- The written form of a number, taken apart. -/
structure Numeral where
  negative : Bool
  whole : List Char
  fraction : Option (List Char)
  exponent : Option (Bool × List Char)

def digitValue (char : Char) : Nat :=
  char.toNat - '0'.toNat

def naturalOfDigits (digits : List Char) : Nat :=
  digits.foldl (fun value digit => 10 * value + digitValue digit) 0

/-- The first number that does not fit in 64 bits. -/
def wordLimit : Nat := UInt64.size

/-- Appends digits to `significand` as long as it fits in 64 bits, and returns the digits left. -/
def appendDigits (significand : Nat) : List Char → Nat × List Char
  | [] => (significand, [])
  | digit :: rest =>
      let longer := 10 * significand + digitValue digit
      if longer < wordLimit then appendDigits longer rest else (significand, digit :: rest)

def powerOfTen (exponent : Nat) : Float :=
  Float.ofScientific 1 false exponent

/-- The largest power of ten among the floating-point numbers. -/
def largestPower : Nat := 308

def scaleDown (value : Float) (exponent : Nat) : Float :=
  if exponent ≤ largestPower then value / powerOfTen exponent
  else if value == 0.0 then value
  else scaleDown (value / powerOfTen largestPower) (exponent - largestPower)
termination_by exponent
decreasing_by simp only [largestPower] at *; omega

def scaleUp? (value : Float) (exponent : Nat) : Option Float :=
  if exponent ≤ largestPower then
    let scaled := value * powerOfTen exponent
    if scaled.isInf then none else some scaled
  else if value == 0.0 then some value
  else none

def scale? (significand : Nat) (exponent : Int) : Option Float :=
  let value := Float.ofNat significand
  if 0 ≤ exponent then scaleUp? value exponent.toNat
  else some (scaleDown value (-exponent).toNat)

namespace Numeral

def isWhole (numeral : Numeral) : Bool :=
  numeral.fraction.isNone && numeral.exponent.isNone

def exponentValue (numeral : Numeral) : Int :=
  match numeral.exponent with
  | none => 0
  | some (negative, digits) =>
      if negative then -(naturalOfDigits digits : Int) else naturalOfDigits digits

def toFloat? (numeral : Numeral) : Option Float := do
  let (leading, omitted) := appendDigits 0 numeral.whole
  let fraction := numeral.fraction.getD []
  let (significand, ignored) := appendDigits leading fraction
  let used := fraction.length - ignored.length
  let magnitude ← scale? significand (omitted.length - used + numeral.exponentValue)
  return if numeral.negative then -magnitude else magnitude

def toNumber? (numeral : Numeral) : Option Number :=
  let value := naturalOfDigits numeral.whole
  if numeral.isWhole && !numeral.negative && value < wordLimit then
    some (.whole value)
  else if numeral.isWhole && numeral.negative && 0 < value && value ≤ wordLimit / 2 then
    some (.whole (-value))
  else numeral.toFloat?.map .real

end Numeral

/-- Splits off a run of decimal digits, which must not be empty. -/
def readDigits? (text : List Char) : Option (List Char × List Char) :=
  match text.takeWhile Char.isDigit with
  | [] => none
  | digits => some (digits, text.dropWhile Char.isDigit)

def readSign (text : List Char) : Bool × List Char :=
  match text with
  | '-' :: rest => (true, rest)
  | '+' :: rest => (false, rest)
  | _ => (false, text)

def readMinus (text : List Char) : Bool × List Char :=
  match text with
  | '-' :: rest => (true, rest)
  | _ => (false, text)

def readFraction? (text : List Char) : Option (Option (List Char) × List Char) :=
  match text with
  | '.' :: rest => (readDigits? rest).map fun (digits, rest) => (some digits, rest)
  | _ => some (none, text)

def readExponent? (text : List Char) : Option (Option (Bool × List Char) × List Char) :=
  match text with
  | 'e' :: rest | 'E' :: rest =>
      let (negative, rest) := readSign rest
      (readDigits? rest).map fun (digits, rest) => (some (negative, digits), rest)
  | _ => some (none, text)

/-- A whole part of several digits does not start with a zero. -/
def isPadded (digits : List Char) : Bool :=
  digits.head? == some '0' && 1 < digits.length

/-- Reads a number at the start of a text. -/
def Numeral.read? (text : List Char) : Option (Numeral × List Char) :=
  let (negative, text) := readMinus text
  (readDigits? text).bind fun (whole, text) =>
    if isPadded whole then none
    else
      (readFraction? text).bind fun (fraction, text) =>
        (readExponent? text).map fun (exponent, text) =>
          ({ negative, whole, fraction, exponent }, text)

theorem readDigits?_length_lt {text digits rest : List Char}
    (hread : readDigits? text = some (digits, rest)) : rest.length < text.length := by
  unfold readDigits? at hread
  split at hread
  · simp at hread
  · rename_i hnonempty
    simp only [Option.some.injEq, Prod.mk.injEq] at hread
    have hlength := congrArg List.length
      (List.takeWhile_append_dropWhile (p := Char.isDigit) (l := text))
    rw [List.length_append, hread.2] at hlength
    have := List.length_pos_iff.mpr hnonempty
    omega

theorem readMinus_length_le (text : List Char) : (readMinus text).2.length ≤ text.length := by
  unfold readMinus
  split <;> simp

theorem readSign_length_le (text : List Char) : (readSign text).2.length ≤ text.length := by
  unfold readSign
  split <;> simp

theorem readFraction?_length_le {text rest : List Char} {fraction : Option (List Char)}
    (hread : readFraction? text = some (fraction, rest)) : rest.length ≤ text.length := by
  unfold readFraction? at hread
  split at hread
  · rename_i tail
    obtain ⟨⟨digits, left⟩, hdigits, heq⟩ := Option.map_eq_some_iff.mp hread
    simp only [Prod.mk.injEq] at heq
    have := readDigits?_length_lt hdigits
    rw [← heq.2, List.length_cons]
    omega
  · simp only [Option.some.injEq, Prod.mk.injEq] at hread
    exact hread.2 ▸ Nat.le_refl _

theorem readExponent?_length_le {text rest : List Char} {exponent : Option (Bool × List Char)}
    (hread : readExponent? text = some (exponent, rest)) : rest.length ≤ text.length := by
  have tail_case (tail : List Char)
      (h : (readDigits? (readSign tail).2).map
        (fun (digits, rest) => (some ((readSign tail).1, digits), rest)) = some (exponent, rest)) :
      rest.length ≤ tail.length := by
    obtain ⟨⟨digits, left⟩, hdigits, heq⟩ := Option.map_eq_some_iff.mp h
    simp only [Prod.mk.injEq] at heq
    have hlt := readDigits?_length_lt hdigits
    have hle := readSign_length_le tail
    rw [← heq.2]
    omega
  unfold readExponent? at hread
  split at hread
  · rw [List.length_cons]
    exact Nat.le_succ_of_le (tail_case _ hread)
  · rw [List.length_cons]
    exact Nat.le_succ_of_le (tail_case _ hread)
  · simp only [Option.some.injEq, Prod.mk.injEq] at hread
    exact hread.2 ▸ Nat.le_refl _

theorem Numeral.read?_length_lt {text rest : List Char} {numeral : Numeral}
    (hread : Numeral.read? text = some (numeral, rest)) : rest.length < text.length := by
  unfold Numeral.read? at hread
  obtain ⟨⟨whole, afterWhole⟩, hwhole, hread⟩ := Option.bind_eq_some_iff.mp hread
  simp only at hread
  split at hread
  · simp at hread
  · obtain ⟨⟨fraction, afterFraction⟩, hfraction, hread⟩ := Option.bind_eq_some_iff.mp hread
    obtain ⟨⟨exponent, afterExponent⟩, hexponent, heq⟩ := Option.map_eq_some_iff.mp hread
    simp only [Prod.mk.injEq] at heq
    have hminus := readMinus_length_le text
    have hlt := readDigits?_length_lt hwhole
    have hfractionLe := readFraction?_length_le hfraction
    have hexponentLe := readExponent?_length_le hexponent
    calc
      rest.length = afterExponent.length := by rw [heq.2]
      _ ≤ afterFraction.length := hexponentLe
      _ ≤ afterWhole.length := hfractionLe
      _ < (readMinus text).2.length := hlt
      _ ≤ text.length := hminus

end SequenceChart
