import SequenceChart.Diagram.Kind

/-!
# Events

What happens in a diagram, in order: messages, notes, starts and ends of activations, and the
markers of blocks.
-/

namespace SequenceChart

structure Actor where
  name : String
  description : String
  role : ActorRole
  wrap : Bool
  activationDepth : UInt32
  deriving DecidableEq, Repr

structure Message where
  kind : MessageKind
  source : String
  target : String
  text : String
  wrap : Bool
  sequenceNumber : Option UInt32
  deriving DecidableEq, Repr

/-- A note at one actor, or over two of them. -/
structure Note where
  placement : NotePlacement
  first : String
  second : String
  text : String
  wrap : Bool
  deriving DecidableEq, Repr

inductive Event
  | message (message : Message)
  | note (note : Note)
  | activation (edge : ActivationEdge) (actor : String)
  | block (marker : BlockMarker) (label : Option String)
  deriving DecidableEq, Repr

namespace Event

def lineType : Event → LineType
  | message sent => .message sent.kind
  | note _ => .note
  | activation edge _ => .activation edge
  | block marker _ => .block marker

def source? : Event → Option String
  | message sent => some sent.source
  | note placed => some placed.first
  | activation _ actor => some actor
  | block _ _ => none

def target? : Event → Option String
  | message sent => some sent.target
  | note placed => some placed.second
  | activation _ actor => some actor
  | block _ _ => none

/-- The text of a message or a note, or the label of a block. -/
def text? : Event → Option String
  | message sent => some sent.text
  | note placed => some placed.text
  | activation _ _ => none
  | block _ label => label

def activationActor? : Event → Option String
  | activation _ actor => some actor
  | _ => none

def message? : Event → Option Message
  | message sent => some sent
  | _ => none

end Event

end SequenceChart
