import SequenceChart.Yaml.Place

/-!
# Plain scalars

Scalars without marks around them. They end before a comment, before a colon that ends a word, and
in a block before a line that is not indented far enough.
-/

namespace SequenceChart.Yaml

def isFlowMark (char : Char) : Bool :=
  ",[]\x7b\x7d".toList.contains char

/-- Whether a plain scalar ends before `char` inside a word. -/
def endsPlain (inFlow : Bool) (char : Char) (rest : List Char) : Bool :=
  (char == ':' && endsWord rest) || (inFlow && isFlowMark char)

/-- Inside a flow collection a colon must not stand before a mark of the collection. -/
def isStrayColon (inFlow : Bool) (char : Char) (rest : List Char) : Bool :=
  inFlow && char == ':' && rest.head?.any fun next => next == '?' || isFlowMark next

/-- The characters of a plain scalar up to the next gap. -/
def plainWord? (inFlow : Bool) : List Char → Option (List Char)
  | [] => some []
  | char :: rest =>
      if isGap char then some []
      else if isStrayColon inFlow char rest then none
      else if endsPlain inFlow char rest then some []
      else (plainWord? inFlow rest).map (char :: ·)

/-- Whether a later line of the gap has a tab left of column `least`. -/
def hasTabIndent (least : Nat) : (column : Option Nat) → List Char → Bool
  | _, [] => false
  | column, char :: rest =>
      if isBreak char then hasTabIndent least (some 0) rest
      else
        (char == '\t' && column.any (· < least)) || hasTabIndent least (column.map (· + 1)) rest

structure PlainScalar where
  text : List Char
  leftLine : Bool
  place : Place

/-- Reads a plain scalar whose later lines reach at least to column `least`. -/
def plain? (inFlow : Bool) (least : Nat) (place : Place) : Option PlainScalar :=
  if place.isMark || place.rest.head? == some '#' then some { text := [], leftLine := false, place }
  else
    match plainWord? inFlow place.rest with
    | none => none
    | some word =>
        let afterWord := place.skip word.length
        match _hgap : afterWord.rest.takeWhile isGap with
        | [] => some { text := word, leftLine := false, place := afterWord }
        | space :: spaces =>
            let gap := space :: spaces
            let leftLine := gap.any isBreak
            let next := afterWord.skip gap.length
            if hasTabIndent least none gap then none
            else if !inFlow && next.column < least then
              some { text := word, leftLine, place := next }
            else
              match plain? inFlow least next with
              | none => none
              | some later =>
                  if later.text.isEmpty then
                    some { text := word, leftLine, place := later.place }
                  else some { later with text := word ++ foldGap gap ++ later.text }
termination_by place.rest.length
decreasing_by
  have hle := (List.takeWhile_sublist isGap (l := afterWord.rest)).length_le
  rw [_hgap] at hle
  simp only [next, afterWord, gap, Place.length_skip, List.length_cons] at *
  omega

end SequenceChart.Yaml
