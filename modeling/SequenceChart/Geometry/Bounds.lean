import SequenceChart.Geometry.Box

/-!
# Bounds

Boxes are collected in nested scopes, from a cursor that moves downwards. A box that is inserted
belongs to every open scope and to the whole. A scope that is closed is widened by the margin, and
its box becomes a part of the scope around it.
-/

namespace SequenceChart

structure Scope (α ε : Type) where
  extent : Box ε
  openedAt : α
  /-- Where the cursor stood at the dividers of the scope. -/
  sections : List α

def Scope.include {α ε : Type} [Edge ε] (scope : Scope α ε) (box : Box ε) : Scope α ε :=
  { scope with extent := scope.extent.join box }

structure Bounds (α ε : Type) where
  margin : α
  cursor : α
  whole : Box ε
  /-- The open scopes, the innermost first. -/
  scopes : List (Scope α ε)

namespace Bounds

variable {α ε : Type} [Scale α] [Edge ε] [Placing α ε]

def start (margin : α) : Bounds α ε :=
  { margin, cursor := 0.0, whole := .empty, scopes := [] }

def restart (bounds : Bounds α ε) : Bounds α ε :=
  start bounds.margin

def depth (bounds : Bounds α ε) : Nat :=
  bounds.scopes.length

def insert (bounds : Bounds α ε) (box : Box ε) : Bounds α ε :=
  { bounds with
    whole := bounds.whole.join box
    scopes := bounds.scopes.map (·.include box) }

def moveTo (bounds : Bounds α ε) (position : α) : Bounds α ε :=
  { bounds with cursor := position }

/-- Moves the cursor downwards, and the lower edge of the whole with it. -/
def advance (bounds : Bounds α ε) (distance : α) : Bounds α ε :=
  let cursor := bounds.cursor + distance
  { bounds with
    cursor
    whole := { bounds.whole with stopY := Edge.larger bounds.whole.stopY (place cursor) } }

/-- Opens a scope at the cursor. From left to right it stays empty until a box is inserted. -/
def openScope (bounds : Bounds α ε) : Bounds α ε :=
  let edge := place bounds.cursor
  let scope : Scope α ε :=
    { extent := { Box.empty with startY := edge, stopY := edge }
      openedAt := bounds.cursor
      sections := [] }
  { bounds with scopes := scope :: bounds.scopes }

/-- Includes a box in the innermost scope, or in the whole if no scope is open. -/
def includeInner (bounds : Bounds α ε) (box : Box ε) : Bounds α ε :=
  match bounds.scopes with
  | [] => { bounds with whole := bounds.whole.join box }
  | inner :: outer => { bounds with scopes := inner.include box :: outer }

def closeScope? (bounds : Bounds α ε) : Option (Scope α ε × Bounds α ε) :=
  match bounds.scopes with
  | [] => none
  | inner :: outer =>
      let closed := { inner with extent := inner.extent.expand bounds.margin }
      some (closed, { bounds with scopes := outer }.includeInner closed.extent)

def addSection? (bounds : Bounds α ε) : Option (Bounds α ε) :=
  match bounds.scopes with
  | [] => none
  | inner :: outer =>
      some { bounds with
        scopes := { inner with sections := inner.sections ++ [bounds.cursor] } :: outer }

end Bounds

end SequenceChart
