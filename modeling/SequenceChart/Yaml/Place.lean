/-!
# Places

Places in a YAML text: the text that is left, and where it starts. Indices, lines and columns are
counted from zero, columns in characters and indices in octets of UTF-8. Carriage returns and
next-line characters have become line feeds before a text is taken apart. Gaps are what stands
between words: spaces and line breaks.
-/

namespace SequenceChart.Yaml

/-- Beside the line feed, the line separator and the paragraph separator end a line. -/
def isBreak (char : Char) : Bool :=
  char == '\n' || char == '\u2028' || char == '\u2029'

def isSpace (char : Char) : Bool :=
  char == ' ' || char == '\t'

def isGap (char : Char) : Bool :=
  isSpace char || isBreak char

/-- What a run of gaps stands for inside a scalar. Spaces within a line are kept. A lone line feed
stands for one space, and of several the first is dropped; the other line breaks stand for
themselves. Spaces around line breaks are dropped. -/
def foldGap (gap : List Char) : List Char :=
  match gap.filter isBreak with
  | [] => gap
  | ['\n'] => [' ']
  | '\n' :: later => later
  | breaks => breaks

/-- A word goes on to the next gap or to the end of the text. -/
def endsWord : List Char → Bool
  | [] => true
  | char :: _ => isGap char

def endsLine : List Char → Bool
  | [] => true
  | char :: _ => isBreak char

structure Place where
  rest : List Char
  index : Nat
  line : Nat
  column : Nat

namespace Place

def ofText (text : List Char) : Place :=
  { rest := text, index := 0, line := 0, column := 0 }

def step (place : Place) : Place :=
  match place.rest with
  | [] => place
  | char :: rest =>
      let index := place.index + char.utf8Size
      if isBreak char then { rest, index, line := place.line + 1, column := 0 }
      else { place with rest, index, column := place.column + 1 }

def skip (place : Place) : Nat → Place
  | 0 => place
  | count + 1 => place.step.skip count

def skipWhile (holds : Char → Bool) (place : Place) : Place :=
  place.skip (place.rest.takeWhile holds).length

/-- Three hyphens or three dots in front of a line stand between two documents. -/
def isMark (place : Place) : Bool :=
  place.column == 0 &&
    match place.rest with
    | '-' :: '-' :: '-' :: rest | '.' :: '.' :: '.' :: rest => endsWord rest
    | _ => false

@[simp]
theorem rest_step (place : Place) : place.step.rest = place.rest.tail := by
  unfold step
  split
  · simp [*]
  · split <;> simp [*]

@[simp]
theorem rest_skip (place : Place) (count : Nat) :
    (place.skip count).rest = place.rest.drop count := by
  induction count generalizing place with
  | zero => rfl
  | succ count ih => simp [skip, ih]

theorem length_skip (place : Place) (count : Nat) :
    (place.skip count).rest.length = place.rest.length - count := by
  simp

theorem length_skipWhile_le (holds : Char → Bool) (place : Place) :
    (place.skipWhile holds).rest.length ≤ place.rest.length := by
  simp [skipWhile]

end Place

/-- A scan reads one part of a text, moves behind it, or fails. -/
abbrev Scan := StateT Place Option

namespace Scan

def takeWhile (holds : Char → Bool) : Scan (List Char) :=
  modifyGet fun place => (place.rest.takeWhile holds, place.skipWhile holds)

def skipWhile (holds : Char → Bool) : Scan Unit :=
  modify (·.skipWhile holds)

def skip (count : Nat) : Scan Unit :=
  modify (·.skip count)

/-- Fails unless `holds` of the text that comes next. -/
def expect (holds : List Char → Bool) : Scan Unit := do
  guard (holds (← get).rest)

def starts (char : Char) : Scan Bool :=
  return (← get).rest.head? == some char

/-- Steps over a character that comes next, and tells whether it did. -/
def eat (char : Char) : Scan Bool := do
  if ← starts char then
    skip 1
    return true
  else return false

def skipComment : Scan Unit := do
  skipWhile isSpace
  if ← starts '#' then skipWhile (!isBreak ·)

end Scan

end SequenceChart.Yaml
