import SequenceChart.Text.Position
import SequenceChart.Text.Search

/-!
# Segments

A source text is plain text with directives between `%%{` and `}%%`. The code of the source
keeps the plain text and, of each directive, only the line breaks, so that all that is kept stays on
its line.
-/

namespace SequenceChart

inductive Segment
  | plain (text : List Char)
  | directive (content : List Char)
  /-- A directive whose end is missing. -/
  | unclosed (content : List Char)
  deriving DecidableEq, Repr

def directiveStart : List Char := ['%', '%', '\x7b']

def directiveEnd : List Char := ['\x7d', '%', '%']

def lineBreaks (text : List Char) : List Char :=
  List.replicate (text.count '\n') '\n'

namespace Segment

/-- The segments of a text, in order. -/
def split (text : List Char) : List Segment :=
  match _hstart : cutAt? directiveStart text with
  | none => [plain text]
  | some (before, inside) =>
      match _hend : cutAt? directiveEnd inside with
      | none => [plain before, unclosed inside]
      | some (content, rest) => plain before :: directive content :: split rest
termination_by text.length
decreasing_by
  rw [eq_of_cutAt?_eq_some _hstart, eq_of_cutAt?_eq_some _hend]
  simp only [List.length_append, directiveStart, List.length_cons]
  omega

/-- What stays of the segment in the code. -/
def residue : Segment → List Char
  | plain text => text
  | directive content => lineBreaks content
  | unclosed _ => []

end Segment

def codeOf (segments : List Segment) : List Char :=
  segments.flatMap Segment.residue

end SequenceChart
