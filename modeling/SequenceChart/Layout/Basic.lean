import SequenceChart.Diagram.Basic
import SequenceChart.Geometry.Box

/-!
# Layouts

Where the parts of a diagram are placed. A position is given from the left and from the top.
-/

namespace SequenceChart

structure PlacedActor (α : Type) where
  name : String
  description : String
  role : ActorRole
  x : α
  y : α
  width : α
  height : α

/-- The position of an actor's line. -/
def PlacedActor.center {α : Type} [Scale α] (actor : PlacedActor α) : α :=
  actor.x + actor.width / 2.0

structure PlacedMessage (α : Type) where
  kind : MessageKind
  source : String
  target : String
  text : String
  startX : α
  stopX : α
  /-- Where the arrow is drawn. -/
  y : α
  toSelf : Bool
  textWidth : α
  textHeight : α
  sequenceNumber : Option UInt32

structure PlacedNote (α : Type) where
  placement : NotePlacement
  first : String
  second : String
  text : String
  x : α
  y : α
  width : α
  height : α

structure PlacedActivation (α : Type) where
  actor : String
  startX : α
  startY : α
  stopX : α
  stopY : α
  /-- The number of the actor's activations around this one. -/
  depth : Nat

structure PlacedSection (α : Type) where
  y : α
  label : String

structure PlacedBlock (α ε : Type) where
  kind : BlockKind
  label : String
  sections : List (PlacedSection α)
  bounds : Box ε

structure Layout (α ε : Type) where
  actors : List (PlacedActor α)
  /-- The actors once more, below the diagram, if that is asked for. -/
  mirroredActors : List (PlacedActor α)
  messages : List (PlacedMessage α)
  notes : List (PlacedNote α)
  activations : List (PlacedActivation α)
  /-- In the order of their closing markers, so that inner blocks come first. -/
  blocks : List (PlacedBlock α ε)
  title : Option String
  bounds : Box ε
  width : α
  height : α

inductive LayoutError
  | unsupportedType (diagramType : String)
  | unknownActor (name : String)
  | dividerOutsideBlock (divider : SectionKind)
  | nothingToClose (kind : BlockKind)
  | otherBlockOpen (kind openKind : BlockKind)
  | unclosedBlock (kind : BlockKind)
  deriving DecidableEq, Repr

def BlockMarker.title (marker : BlockMarker) : String :=
  marker.name.capitalize

def BlockKind.title (kind : BlockKind) : String :=
  kind.name.capitalize

/-- The classes of errors: a diagram that cannot be laid out at all, events that contradict each
other, and blocks that do not nest. -/
inductive LayoutErrorClass
  | unsupportedDiagram
  | invalidModel
  | unbalancedScope
  deriving DecidableEq, Repr

def LayoutErrorClass.heading : LayoutErrorClass → String
  | unsupportedDiagram => "unsupported diagram type for layout"
  | invalidModel => "invalid semantic model"
  | unbalancedScope => "unbalanced block scope"

namespace LayoutError

def errorClass : LayoutError → LayoutErrorClass
  | unsupportedType _ => .unsupportedDiagram
  | unknownActor _ | otherBlockOpen _ _ => .invalidModel
  | dividerOutsideBlock _ | nothingToClose _ | unclosedBlock _ => .unbalancedScope

def detail : LayoutError → String
  | unsupportedType diagramType => diagramType
  | unknownActor name => "event references unknown actor `" ++ name ++ "`"
  | dividerOutsideBlock divider =>
      (BlockMarker.divider divider).title ++ " outside of a matching block"
  | nothingToClose kind => (BlockMarker.closing kind).title ++ " without an open block"
  | otherBlockOpen kind openKind =>
      (BlockMarker.closing kind).title ++ " closes a " ++ openKind.title ++ " block"
  | unclosedBlock kind => kind.title ++ " block is never closed"

def message (error : LayoutError) : String :=
  error.errorClass.heading ++ ": " ++ error.detail

end LayoutError

end SequenceChart
