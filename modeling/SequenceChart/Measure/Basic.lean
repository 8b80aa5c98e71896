import SequenceChart.Geometry.Scale
import SequenceChart.Text.Blank
import SequenceChart.Text.Break

/-!
# Measuring texts

A measurer tells how large a text is in a style, on lines as they are or wrapped to a width. Lines
are filled greedily: a word is put on the current line if the line still fits then, or else begins
the next one. A single word stands on a line of its own, however wide it is.
-/

namespace SequenceChart

structure TextStyle (α : Type) where
  fontFamily : Option String
  fontSize : α
  fontWeight : Option String

structure TextMetrics (α : Type) where
  width : α
  height : α
  lineCount : Nat

structure Measurer (α : Type) where
  measure : String → TextStyle α → TextMetrics α
  measureWrapped : String → TextStyle α → α → TextMetrics α

/-- Fills lines with words, from a line that holds some already. -/
def fillLines (fits : List Char → Bool) (current : List Char) :
    List (List Char) → List (List Char)
  | [] => [current]
  | word :: rest =>
      let longer := current ++ ' ' :: word
      if fits longer then fillLines fits longer rest else current :: fillLines fits word rest

/-- The lines of a part without breaks; a part without words is one empty line. -/
def wrapPart (fits : List Char → Bool) (part : List Char) : List (List Char) :=
  match words part with
  | [] => [[]]
  | word :: rest => fillLines fits word rest

variable {α : Type} [Scale α]

def fitsWidth (measure : String → TextStyle α → TextMetrics α) (style : TextStyle α)
    (maxWidth : α) (line : List Char) : Bool :=
  Scale.atMost (measure (String.ofList line) style).width maxWidth

def wrapLines (measure : String → TextStyle α → TextMetrics α) (text : String)
    (style : TextStyle α) (maxWidth : α) : List String :=
  ((splitBreaks text.toList).flatMap (wrapPart (fitsWidth measure style maxWidth))).map
    String.ofList

/-- The metrics of lines that are stacked. -/
def stackLines (measure : String → TextStyle α → TextMetrics α) (style : TextStyle α)
    (lines : List String) : TextMetrics α :=
  let metrics := lines.map fun line => measure line style
  { width := metrics.foldl (fun width line => Scale.larger width line.width) 0.0
    height := metrics.foldl (fun height line => height + line.height) 0.0
    lineCount := lines.length }

/-- The measurer that wraps texts greedily. -/
def Measurer.greedy (measure : String → TextStyle α → TextMetrics α) : Measurer α :=
  { measure
    measureWrapped := fun text style maxWidth =>
      stackLines measure style (wrapLines measure text style maxWidth) }

end SequenceChart
