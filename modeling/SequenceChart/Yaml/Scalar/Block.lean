import SequenceChart.Json.Number
import SequenceChart.Yaml.Place

/-!
# Block scalars

Scalars whose text is a block of indented lines below a header. The header tells whether lines are
folded, what becomes of the line breaks at the end, and how far the lines are indented; the indent
of the first line that is not empty counts when the header does not tell.
-/

namespace SequenceChart.Yaml

/-- What is kept of the line breaks at the end: none, the first one or all. -/
inductive Chomping
  | strip
  | clip
  | keep
  deriving DecidableEq, Repr

structure BlockHeader where
  chomping : Chomping
  indent : Option Nat

namespace BlockHeader

def chomping? : Scan (Option Chomping) := do
  if ← Scan.eat '-' then return some .strip
  else if ← Scan.eat '+' then return some .keep
  else return none

def indent? : Scan (Option Nat) := do
  match (← get).rest with
  | char :: _ =>
      if char.isDigit then
        guard (char != '0')
        Scan.skip 1
        return some (digitValue char)
      else return none
  | [] => return none

/-- Reads a header behind the mark for folding. Its two parts may stand in either order. -/
def scan : Scan BlockHeader := do
  let early ← chomping?
  let indent ← indent?
  let chomping ← if early.isSome then pure early else chomping?
  Scan.skipComment
  Scan.expect endsLine
  Scan.skip 1
  return { chomping := chomping.getD .clip, indent }

end BlockHeader

/-- Empty lines, and the place of the first line that is not empty behind its indent. -/
structure EmptyLines where
  breaks : List Char
  /-- The largest column that any indent among the lines leads to. -/
  deepest : Nat
  place : Place

/-- How many of `spaces` in front of a line belong to an indent up to column `indent`. -/
def indentLength (indent : Option Nat) (column spaces : Nat) : Nat :=
  match indent with
  | none => spaces
  | some indent => min spaces (indent - column)

/-- Reads empty lines. Where an indent may go on, there must not be a tab. -/
def emptyLines? (indent : Option Nat) (place : Place) : Option EmptyLines :=
  let spaces := (place.rest.takeWhile (· == ' ')).length
  let next := place.skip (indentLength indent place.column spaces)
  match _hrest : next.rest with
  | [] => some { breaks := [], deepest := next.column, place := next }
  | char :: _ =>
      if char == '\t' && indent.all (next.column < ·) then none
      else if isBreak char then
        (emptyLines? indent next.step).map fun lines =>
          { lines with breaks := char :: lines.breaks, deepest := max next.column lines.deepest }
      else some { breaks := [], deepest := next.column, place := next }
termination_by place.rest.length
decreasing_by
  have hlength := congrArg List.length _hrest
  simp only [next, Place.rest_skip, List.length_drop, List.length_cons] at hlength
  simp only [Place.rest_step, Place.rest_skip, List.length_tail, List.length_drop]
  omega

theorem length_emptyLines?_le {indent : Option Nat} {place : Place} {lines : EmptyLines}
    (hlines : emptyLines? indent place = some lines) :
    lines.place.rest.length ≤ place.rest.length := by
  fun_induction emptyLines? indent place generalizing lines with
  | case1 place spaces next =>
      rw [← Option.some.inj hlines]
      simp [next]
  | case2 => simp at hlines
  | case3 place spaces next =>
      rename_i ih
      obtain ⟨later, hlater, heq⟩ := Option.map_eq_some_iff.mp hlines
      have hle := ih hlater
      simp only [next, Place.rest_step, Place.rest_skip, List.length_tail, List.length_drop] at hle
      rw [← heq]
      simp only
      omega
  | case4 place spaces next char tail =>
      rw [← Option.some.inj hlines]
      simp [next]

/-- What stands between two lines. Folding takes away the line feed between two lines of which
neither starts with a space, and puts a space for it unless there are empty lines between. -/
def joinLines (folded : Bool) (indented : Bool) (lastBreak emptyLines : List Char) : List Char :=
  if folded && !indented && lastBreak == ['\n'] then
    if emptyLines.isEmpty then [' '] else emptyLines
  else lastBreak ++ emptyLines

/-- The end of a line: its break, the empty lines below it, and the place behind them. -/
structure LineEnd where
  lastBreak : List Char
  emptyLines : List Char
  indented : Bool
  place : Place

/-- Reads the lines that start at column `indent`, below a line that ends in `before`. Returns also
the end of the last line. -/
def blockLines? (folded : Bool) (indent : Nat) (before : LineEnd) :
    Option (List Char × LineEnd) :=
  let place := before.place
  match _hrest : place.rest with
  | [] => some ([], before)
  | char :: rest =>
      if place.column ≠ indent then some ([], before)
      else
        let line := (char :: rest).takeWhile (!isBreak ·)
        let afterLine := place.skip line.length
        match _hempty : emptyLines? (some indent) afterLine.step with
        | none => none
        | some empty =>
            let indented := isSpace char
            let joint := joinLines folded (before.indented || indented) before.lastBreak
              before.emptyLines
            let after :=
              { lastBreak := afterLine.rest.take 1
                emptyLines := empty.breaks
                indented
                place := empty.place }
            (blockLines? folded indent after).map fun (later, last) =>
              (joint ++ line ++ later, last)
termination_by before.place.rest.length
decreasing_by
  have hle := length_emptyLines?_le _hempty
  have hlength := congrArg List.length _hrest
  simp only [afterLine, place, Place.rest_step, Place.rest_skip, List.length_tail,
    List.length_drop, List.length_cons] at hle hlength
  omega

def Chomping.kept (last : LineEnd) : Chomping → List Char
  | strip => []
  | clip => last.lastBreak
  | keep => last.lastBreak ++ last.emptyLines

/-- Reads a block scalar from behind the mark for folding. Inside the block around it, lines start
at column `least` or to the right of it. -/
def blockScalar (folded : Bool) (least : Nat) : Scan (List Char) := do
  let header ← BlockHeader.scan
  let told := header.indent.map (least - 1 + ·)
  let empty ← (emptyLines? told (← get) : Option EmptyLines)
  let indent := told.getD (max 1 (max least empty.deepest))
  let start :=
    { lastBreak := [], emptyLines := empty.breaks, indented := false, place := empty.place }
  let (text, last) ← (blockLines? folded indent start : Option (List Char × LineEnd))
  set last.place
  return text ++ header.chomping.kept last

end SequenceChart.Yaml
