/-!
# Kinds

The small vocabularies of a sequence diagram: roles of actors, kinds of messages with their arrows,
placements of notes, kinds of blocks and the markers that open, divide and close them. Each word
has a name, by which data formats refer to it.
-/

namespace SequenceChart

inductive ActorRole
  | participant
  | actor
  deriving DecidableEq, Repr

def ActorRole.all : List ActorRole :=
  [participant, actor]

def ActorRole.name : ActorRole → String
  | participant => "participant"
  | actor => "actor"

def ActorRole.ofName? (name : String) : Option ActorRole :=
  all.find? (·.name = name)

inductive MessageKind
  | solid
  | dotted
  | solidOpen
  | dottedOpen
  | solidCross
  | dottedCross
  deriving DecidableEq, Repr

namespace MessageKind

/-- Longer arrows stand first, so that the first arrow a text starts with is the longest one. -/
def all : List MessageKind :=
  [dottedOpen, solidOpen, dotted, dottedCross, solid, solidCross]

def name : MessageKind → String
  | solid => "solid"
  | dotted => "dotted"
  | solidOpen => "solidOpen"
  | dottedOpen => "dottedOpen"
  | solidCross => "solidCross"
  | dottedCross => "dottedCross"

def ofName? (name : String) : Option MessageKind :=
  all.find? (·.name = name)

def arrow : MessageKind → String
  | solid => "->"
  | dotted => "-->"
  | solidOpen => "->>"
  | dottedOpen => "-->>"
  | solidCross => "-x"
  | dottedCross => "--x"

def ofArrow? (arrow : String) : Option MessageKind :=
  all.find? (·.arrow = arrow)

def isDotted : MessageKind → Bool
  | dotted | dottedOpen | dottedCross => true
  | solid | solidOpen | solidCross => false

end MessageKind

inductive NotePlacement
  | leftOf
  | rightOf
  | across
  deriving DecidableEq, Repr

def NotePlacement.all : List NotePlacement :=
  [leftOf, rightOf, across]

def NotePlacement.name : NotePlacement → String
  | leftOf => "leftOf"
  | rightOf => "rightOf"
  | across => "over"

def NotePlacement.ofName? (name : String) : Option NotePlacement :=
  all.find? (·.name = name)

inductive ActivationEdge
  | start
  | stop
  deriving DecidableEq, Repr

def ActivationEdge.all : List ActivationEdge :=
  [start, stop]

def ActivationEdge.name : ActivationEdge → String
  | start => "start"
  | stop => "end"

def ActivationEdge.ofName? (name : String) : Option ActivationEdge :=
  all.find? (·.name = name)

inductive BlockKind
  | loop
  | opt
  | alt
  | par
  | rect
  deriving DecidableEq, Repr

def BlockKind.all : List BlockKind :=
  [loop, opt, alt, par, rect]

def BlockKind.name : BlockKind → String
  | loop => "loop"
  | opt => "opt"
  | alt => "alt"
  | par => "par"
  | rect => "rect"

def BlockKind.ofName? (name : String) : Option BlockKind :=
  all.find? (·.name = name)

/-- The ways in which a block is divided into sections. -/
inductive SectionKind
  | altElse
  | parAnd
  deriving DecidableEq, Repr

def SectionKind.all : List SectionKind :=
  [altElse, parAnd]

def SectionKind.name : SectionKind → String
  | altElse => "altElse"
  | parAnd => "parAnd"

def SectionKind.block : SectionKind → BlockKind
  | altElse => .alt
  | parAnd => .par

inductive BlockMarker
  | opening (kind : BlockKind)
  | divider (kind : SectionKind)
  | closing (kind : BlockKind)
  deriving DecidableEq, Repr

namespace BlockMarker

def all : List BlockMarker :=
  BlockKind.all.map opening ++ SectionKind.all.map divider ++ BlockKind.all.map closing

def name : BlockMarker → String
  | opening kind => kind.name ++ "Start"
  | divider kind => kind.name
  | closing kind => kind.name ++ "End"

def ofName? (name : String) : Option BlockMarker :=
  all.find? (·.name = name)

def kind : BlockMarker → BlockKind
  | opening kind => kind
  | divider kind => kind.block
  | closing kind => kind

def isOpening : BlockMarker → Bool
  | opening _ => true
  | _ => false

def isDivider : BlockMarker → Bool
  | divider _ => true
  | _ => false

def isClosing : BlockMarker → Bool
  | closing _ => true
  | _ => false

end BlockMarker

/-- What an event is, in one word. -/
inductive LineType
  | message (kind : MessageKind)
  | activation (edge : ActivationEdge)
  | note
  | block (marker : BlockMarker)
  deriving DecidableEq, Repr

namespace LineType

def all : List LineType :=
  MessageKind.all.map message ++ ActivationEdge.all.map activation ++ [note] ++
    BlockMarker.all.map block

def name : LineType → String
  | message kind => kind.name
  | activation .start => "activeStart"
  | activation .stop => "activeEnd"
  | note => "note"
  | block marker => marker.name

def ofName? (name : String) : Option LineType :=
  all.find? (·.name = name)

end LineType

@[simp]
theorem ActorRole.ofName?_name (role : ActorRole) : ofName? role.name = some role := by
  cases role <;> rfl

@[simp]
theorem MessageKind.ofName?_name (kind : MessageKind) : ofName? kind.name = some kind := by
  cases kind <;> rfl

@[simp]
theorem MessageKind.ofArrow?_arrow (kind : MessageKind) : ofArrow? kind.arrow = some kind := by
  cases kind <;> rfl

@[simp]
theorem NotePlacement.ofName?_name (placement : NotePlacement) :
    ofName? placement.name = some placement := by
  cases placement <;> rfl

@[simp]
theorem ActivationEdge.ofName?_name (edge : ActivationEdge) : ofName? edge.name = some edge := by
  cases edge <;> rfl

@[simp]
theorem BlockKind.ofName?_name (kind : BlockKind) : ofName? kind.name = some kind := by
  cases kind <;> rfl

@[simp]
theorem BlockMarker.ofName?_name (marker : BlockMarker) : ofName? marker.name = some marker := by
  rcases marker with kind | kind | kind <;> cases kind <;> rfl

end SequenceChart
