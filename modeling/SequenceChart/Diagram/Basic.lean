import SequenceChart.Diagram.Event
import SequenceChart.Diagram.MarkedText

/-!
# Diagrams

A diagram registers each actor once, in the order of first mention, and lists its events. Every
operation that mentions an actor registers it. Where a text carries no marker of its own, the
argument `wrap` says whether its lines are wrapped.
-/

namespace SequenceChart

structure Diagram where
  actors : List Actor
  events : List Event
  title : Option String
  accTitle : Option String
  accDescription : Option String
  autonumber : Bool
  messageCount : UInt32
  deriving DecidableEq, Repr

namespace Diagram

def empty : Diagram :=
  { actors := [], events := [], title := none, accTitle := none, accDescription := none,
    autonumber := false, messageCount := 0 }

def actor? (diagram : Diagram) (id : String) : Option Actor :=
  diagram.actors.find? (·.name = id)

def messages (diagram : Diagram) : List Message :=
  diagram.events.filterMap Event.message?

/-- Zero for an actor that is not registered. -/
def activationDepth (diagram : Diagram) (id : String) : UInt32 :=
  ((diagram.actor? id).map Actor.activationDepth).getD 0

def addEvent (diagram : Diagram) (event : Event) : Diagram :=
  { diagram with events := diagram.events ++ [event] }

def changeActor (diagram : Diagram) (id : String) (change : Actor → Actor) : Diagram :=
  { diagram with
    actors := diagram.actors.map fun actor => if actor.name = id then change actor else actor }

/-- A new actor that is described by its alias, or by its name if it has none. -/
def newActor (wrap : Bool) (id : String) (label : Option MarkedText) (role : Option ActorRole) :
    Actor :=
  { name := id
    description := (label.map MarkedText.text).getD id
    role := role.getD .participant
    wrap := (label.bind MarkedText.wrap).getD wrap
    activationDepth := 0 }

/-- What a later alias or declaration changes in a registered actor. -/
def refreshActor (wrap : Bool) (label : Option MarkedText) (role : Option ActorRole)
    (actor : Actor) : Actor :=
  { actor with
    description := (label.map MarkedText.text).getD actor.description
    wrap := (label.map fun marked => marked.wrap.getD wrap).getD actor.wrap
    role := role.getD actor.role }

def register (diagram : Diagram) (wrap : Bool) (id : String) (label : Option String)
    (role : Option ActorRole) : Diagram :=
  let marked := label.map MarkedText.read
  match diagram.actor? id with
  | some _ => diagram.changeActor id (refreshActor wrap marked role)
  | none => { diagram with actors := diagram.actors ++ [newActor wrap id marked role] }

/-- Registers the actor; an alias replaces its description. -/
def addActor (diagram : Diagram) (wrap : Bool) (id : String) (label : Option String) : Diagram :=
  diagram.register wrap id label none

/-- Registers the actor and fixes its role, also if it is registered already. -/
def declareActor (diagram : Diagram) (wrap : Bool) (id : String) (label : Option String)
    (role : ActorRole) : Diagram :=
  diagram.register wrap id label (some role)

def mention (diagram : Diagram) (wrap : Bool) (id : String) : Diagram :=
  diagram.addActor wrap id none

def addMessage (diagram : Diagram) (wrap : Bool) (source target : String) (kind : MessageKind)
    (text : String) : Diagram :=
  let diagram := (diagram.mention wrap source).mention wrap target
  let marked := MarkedText.read text
  let count := diagram.messageCount + 1
  { diagram with messageCount := count }.addEvent <| .message
    { kind, source, target
      text := marked.text
      wrap := marked.wrap.getD wrap
      sequenceNumber := if diagram.autonumber then some count else none }

def activate (diagram : Diagram) (wrap : Bool) (id : String) : Diagram :=
  ((diagram.mention wrap id).changeActor id fun actor =>
    { actor with activationDepth := actor.activationDepth + 1 }).addEvent (.activation .start id)

/-- Ends an activation; there is none to end if the actor is inactive or not registered. -/
def deactivate? (diagram : Diagram) (id : String) : Option Diagram :=
  if diagram.activationDepth id = 0 then none
  else
    some <| (diagram.changeActor id fun actor =>
      { actor with activationDepth := actor.activationDepth - 1 }).addEvent (.activation .stop id)

/-- A note over two actors keeps them in the order given. -/
def addNote (diagram : Diagram) (wrap : Bool) (placement : NotePlacement) (first : String)
    (second : Option String) (text : String) : Diagram :=
  let second := second.getD first
  let diagram := (diagram.mention wrap first).mention wrap second
  let marked := MarkedText.read text
  diagram.addEvent <| .note
    { placement, first, second
      text := marked.text
      wrap := marked.wrap.getD wrap }

/-- A closing marker has no label; any other marker has one, which may be empty. -/
def addBlockMarker (diagram : Diagram) (marker : BlockMarker) (label : Option String) : Diagram :=
  diagram.addEvent <| .block marker <|
    if marker.isClosing then none else some (trimmed (label.getD "").toList)

def setTitle (diagram : Diagram) (title : String) : Diagram :=
  { diagram with title := some title }

def setAccTitle (diagram : Diagram) (title : String) : Diagram :=
  { diagram with accTitle := some title }

def setAccDescription (diagram : Diagram) (description : String) : Diagram :=
  { diagram with accDescription := some description }

/-- Numbers the messages in order, after `count` earlier ones. -/
def numberMessages (count : UInt32) : List Event → List Event
  | [] => []
  | .message message :: rest =>
      .message { message with sequenceNumber := some (count + 1) } ::
        numberMessages (count + 1) rest
  | event :: rest => event :: numberMessages count rest

/-- From now on messages are numbered, those that are there already included. -/
def enableAutonumber (diagram : Diagram) : Diagram :=
  if diagram.autonumber then diagram
  else { diagram with autonumber := true, events := numberMessages 0 diagram.events }

end Diagram

end SequenceChart
