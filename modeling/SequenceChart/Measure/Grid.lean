import SequenceChart.Measure.Basic
import SequenceChart.Text.Columns

/-!
# Measuring on a grid

Every column of a text is taken to be equally wide, and every line equally high, in proportion to
the size of the font.
-/

namespace SequenceChart

structure Grid (α : Type) where
  /-- The width of a column, as a factor; zero asks for the usual one. -/
  charWidth : α
  /-- The height of a line, as a factor; zero asks for the usual one. -/
  lineHeight : α

namespace Grid

variable {α : Type} [Scale α]

def standard : Grid α :=
  { charWidth := 0.0, lineHeight := 0.0 }

def factor (chosen usual : α) : α :=
  if Scale.equal chosen 0.0 then usual else chosen

def measure (grid : Grid α) (text : String) (style : TextStyle α) : TextMetrics α :=
  let lines := textLines text.toList
  let fontSize := Scale.larger style.fontSize 1.0
  let widest := (lines.map columns).foldl max 0
  { width := Scale.natural widest * fontSize * factor grid.charWidth 0.6
    height := Scale.natural lines.length * fontSize * factor grid.lineHeight 1.2
    lineCount := lines.length }

def measurer (grid : Grid α) : Measurer α :=
  .greedy grid.measure

end Grid

end SequenceChart
