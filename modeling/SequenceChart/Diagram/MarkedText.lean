import SequenceChart.Text.Blank
import SequenceChart.Text.Search

/-!
# Marked texts

A message, a note or an alias may start with a marker that asks for wrapped lines or forbids them.
The marker is not part of the text.
-/

namespace SequenceChart

structure MarkedText where
  text : String
  /-- What the marker says, if there is one. -/
  wrap : Option Bool
  deriving DecidableEq, Repr

namespace MarkedText

def markers : List (String × Bool) :=
  [(":wrap:", true), ("wrap:", true), (":nowrap:", false), ("nowrap:", false)]

/-- The first marker that the text starts with, and the text after it. -/
def dropMarker? (text : List Char) : Option (Bool × List Char) :=
  markers.findSome? fun (marker, wrap) =>
    (dropWord? marker.toList text).map fun rest => (wrap, rest)

def read (raw : String) : MarkedText :=
  let text := trim raw.toList
  match dropMarker? text with
  | some (wrap, rest) => { text := trimmed rest, wrap := some wrap }
  | none => { text := String.ofList text, wrap := none }

end MarkedText

end SequenceChart
