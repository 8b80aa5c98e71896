import SequenceChart.Geometry.Scale

/-!
# Boxes

A box is given by its four edges. The empty box has its edges the wrong way round and is neutral
when boxes are joined.
-/

namespace SequenceChart

structure Box (ε : Type) where
  startX : ε
  startY : ε
  stopX : ε
  stopY : ε
  deriving DecidableEq, Repr

namespace Box

variable {α ε : Type} [Edge ε]

def empty : Box ε :=
  { startX := Edge.last, startY := Edge.last, stopX := Edge.first, stopY := Edge.first }

/-- The box between two opposite corners, which may be given in any order. -/
def ofCorners (x1 y1 x2 y2 : ε) : Box ε :=
  { startX := Edge.smaller x1 x2
    startY := Edge.smaller y1 y2
    stopX := Edge.larger x1 x2
    stopY := Edge.larger y1 y2 }

def isEmpty (box : Box ε) : Bool :=
  Edge.less box.stopX box.startX || Edge.less box.stopY box.startY

def join (box other : Box ε) : Box ε :=
  { startX := Edge.smaller box.startX other.startX
    startY := Edge.smaller box.startY other.startY
    stopX := Edge.larger box.stopX other.stopX
    stopY := Edge.larger box.stopY other.stopY }

variable [Scale α] [Placing α ε]

def expand (box : Box ε) (margin : α) : Box ε :=
  { startX := Placing.before box.startX margin
    startY := Placing.before box.startY margin
    stopX := Placing.after box.stopX margin
    stopY := Placing.after box.stopY margin }

def width (box : Box ε) : α :=
  if box.isEmpty then 0.0 else Placing.distance box.startX box.stopX

def height (box : Box ε) : α :=
  if box.isEmpty then 0.0 else Placing.distance box.startY box.stopY

end Box

end SequenceChart
