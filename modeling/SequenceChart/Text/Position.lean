/-!
# Positions

Places in a text. A place is counted in UTF-8 bytes; for a reader it is told as a line and a
column, where a column counts characters.
-/

namespace SequenceChart

def byteLength : List Char → Nat
  | [] => 0
  | char :: rest => char.utf8Size + byteLength rest

/-- The characters that end at or before byte `offset`. -/
def textBefore : Nat → List Char → List Char
  | _, [] => []
  | offset, char :: rest =>
      if offset < char.utf8Size then []
      else char :: textBefore (offset - char.utf8Size) rest

structure Position where
  line : Nat
  column : Nat
  deriving DecidableEq, Repr

/-- The start of a text. -/
def Position.start : Position :=
  { line := 1, column := 1 }

def Position.advance (position : Position) (char : Char) : Position :=
  if char = '\n' then { line := position.line + 1, column := 1 }
  else { position with column := position.column + 1 }

/-- The position that a text leads to when it is read from the start. -/
def Position.after (text : List Char) : Position :=
  text.foldl Position.advance Position.start

def Position.ofOffset (text : List Char) (offset : Nat) : Position :=
  Position.after (textBefore offset text)

@[simp]
theorem byteLength_append (left right : List Char) :
    byteLength (left ++ right) = byteLength left + byteLength right := by
  induction left with
  | nil => simp [byteLength]
  | cons char rest ih => simp [byteLength, ih, Nat.add_assoc]

/-- A place that lies between two parts of a text is told from the first part alone. -/
theorem textBefore_byteLength_append (left right : List Char) :
    textBefore (byteLength left) (left ++ right) = left := by
  induction left with
  | nil =>
      cases right with
      | nil => rfl
      | cons char rest => simp [textBefore, byteLength, Char.utf8Size_pos]
  | cons char rest ih => simp [textBefore, byteLength, ih]

end SequenceChart
