import SequenceChart.Json.Reader
import SequenceChart.Yaml.Place

/-!
# Quoted scalars

Scalars between apostrophes or quotation marks, read from behind the opening mark. Between
apostrophes a doubled one stands for one; between quotation marks a backslash starts an escape.
-/

namespace SequenceChart.Yaml

/-- What comes next in a quoted scalar. A part takes one character and `more` further ones. -/
inductive QuotedPart
  | close
  | part (text : List Char) (more : Nat)

namespace QuotedPart

/-- A part that stands for itself: one character, or a run of gaps. -/
def ordinary (char : Char) (rest : List Char) : QuotedPart :=
  if isGap char then
    let gap := rest.takeWhile isGap
    part (foldGap (char :: gap)) gap.length
  else part [char] 0

def single (char : Char) (rest : List Char) : QuotedPart :=
  if char = '\x27' then
    if rest.head? = some '\x27' then part [char] 1 else close
  else ordinary char rest

def named? : Char → Option Char
  | '0' => some '\x00'
  | 'a' => some '\x07'
  | 'b' => some '\x08'
  | 't' | '\t' => some '\t'
  | 'n' => some '\n'
  | 'v' => some '\x0b'
  | 'f' => some '\x0c'
  | 'r' => some '\r'
  | 'e' => some '\x1b'
  | ' ' => some ' '
  | '"' => some '"'
  | '/' => some '/'
  | '\\' => some '\\'
  | 'N' => some '\x85'
  | '_' => some '\xa0'
  | 'L' => some '\u2028'
  | 'P' => some '\u2029'
  | _ => none

/-- How many hexadecimal digits follow the letter of an escape. -/
def hexLength? : Char → Option Nat
  | 'x' => some 2
  | 'u' => some 4
  | 'U' => some 8
  | _ => none

def charOfHex? (digits : List Char) : Option Char := do
  let code ← Json.hexNumber? digits
  if code.isValidChar then some (Char.ofNat code) else none

/-- The part that starts with a backslash, given the text behind the backslash. An escaped line
break joins two lines, of which only the empty ones between them are kept. -/
def escape? : List Char → Option QuotedPart
  | [] => none
  | char :: rest =>
      if isBreak char then
        let gap := rest.takeWhile isGap
        some (part (gap.filter isBreak) (1 + gap.length))
      else
        match hexLength? char with
        | some count =>
            let digits := rest.take count
            if digits.length = count then
              (charOfHex? digits).map fun value => part [value] (1 + count)
            else none
        | none => (named? char).map fun value => part [value] 1

def double? (char : Char) (rest : List Char) : Option QuotedPart :=
  if char = '"' then some close
  else if char = '\\' then escape? rest
  else some (ordinary char rest)

end QuotedPart

/-- The text of a quoted scalar, into which no mark between documents may come, and the place
behind it. -/
def quoted? (next? : Char → List Char → Option QuotedPart) (place : Place) :
    Option (List Char × Place) :=
  if place.isMark then none
  else
    match _hrest : place.rest with
    | [] => none
    | char :: rest =>
        match next? char rest with
        | none => none
        | some .close => some ([], place.step)
        | some (.part text more) =>
            (quoted? next? (place.skip (more + 1))).map fun (later, last) => (text ++ later, last)
termination_by place.rest.length
decreasing_by
  rw [Place.length_skip, _hrest, List.length_cons]
  omega

def singleQuoted? (place : Place) : Option (List Char × Place) :=
  quoted? (fun char rest => some (QuotedPart.single char rest)) place

def doubleQuoted? (place : Place) : Option (List Char × Place) :=
  quoted? QuotedPart.double? place

end SequenceChart.Yaml
