import SequenceChart.Diagram.Event
import SequenceChart.Json.Reader

/-!
# Events and actors as JSON

An event is an object whose `type` says which kind of event it is. Fields may stand in any order and
unknown ones are ignored, but none may be given twice. An array with the type and one value per
field, in order, is read as well. Of the unknown fields of an actor even the values do not matter.
-/

namespace SequenceChart

namespace Json

/-- The value of a field, or none if it is missing; a field given twice is refused. -/
def field? (entries : Entries) (name : String) : Option (Option Json) :=
  match entries.filter fun entry => entry.1 = name with
  | [] => some none
  | [(_, value)] => some (some value)
  | _ => none

def fields? (names : List String) : Json → Option (List (Option Json))
  | object entries => names.mapM (field? entries)
  | array elements =>
      if elements.length = names.length then some (elements.map some) else none
  | _ => none

/-- A name inside a record: a string, or an object with that name as its only key and nothing in
it. -/
def innerName? : Json → Option String
  | object [(key, object [])] => some key
  | value => value.name?

def optional? {β : Type} (read? : Json → Option β) : Option Json → Option (Option β)
  | none | some null => some none
  | some value => (read? value).map some

def uint32? (value : Json) : Option UInt32 :=
  (value.natural? UInt32.size).map UInt32.ofNat

end Json

namespace Message

def fieldNames : List String :=
  ["kind", "from", "to", "text", "wrap", "sequenceNumber"]

def toEntries (message : Message) : Entries :=
  [("kind", .string message.kind.name), ("from", .string message.source),
    ("to", .string message.target), ("text", .string message.text), ("wrap", .bool message.wrap)] ++
    (message.sequenceNumber.map fun number => ("sequenceNumber", .ofNat number.toNat)).toList

def ofFields? : List (Option Json) → Option Message
  | [some kind, some source, some target, some text, some wrap, number] => do
      return { kind := ← kind.innerName?.bind MessageKind.ofName?
               source := ← source.string?
               target := ← target.string?
               text := ← text.string?
               wrap := ← wrap.bool?
               sequenceNumber := ← Json.optional? Json.uint32? number }
  | _ => none

end Message

namespace Note

def fieldNames : List String :=
  ["placement", "from", "to", "text", "wrap"]

def toEntries (note : Note) : Entries :=
  [("placement", .string note.placement.name), ("from", .string note.first),
    ("to", .string note.second), ("text", .string note.text), ("wrap", .bool note.wrap)]

def ofFields? : List (Option Json) → Option Note
  | [some placement, some first, some second, some text, some wrap] => do
      return { placement := ← placement.innerName?.bind NotePlacement.ofName?
               first := ← first.string?
               second := ← second.string?
               text := ← text.string?
               wrap := ← wrap.bool? }
  | _ => none

end Note

/-- The kinds of events, by which an event says how its other fields are read. -/
inductive EventKind
  | message
  | note
  | activation
  | block
  deriving DecidableEq, Repr

namespace EventKind

def all : List EventKind :=
  [message, note, activation, block]

def name : EventKind → String
  | message => "message"
  | note => "note"
  | activation => "activation"
  | block => "block"

def ofName? (name : String) : Option EventKind :=
  all.find? (·.name = name)

def fieldNames : EventKind → List String
  | message => Message.fieldNames
  | note => Note.fieldNames
  | activation => ["edge", "actor"]
  | block => ["marker", "label"]

@[simp]
theorem ofName?_name (kind : EventKind) : ofName? kind.name = some kind := by
  cases kind <;> rfl

end EventKind

namespace Event

def kindField : String := "type"

def kind : Event → EventKind
  | message _ => .message
  | note _ => .note
  | activation _ _ => .activation
  | block _ _ => .block

def toEntries : Event → Entries
  | message sent => sent.toEntries
  | note placed => placed.toEntries
  | activation edge actor => [("edge", .string edge.name), ("actor", .string actor)]
  | block marker label =>
      ("marker", .string marker.name) :: (label.map fun label => ("label", .string label)).toList

def toJson (event : Event) : Json :=
  .object ((kindField, .string event.kind.name) :: event.toEntries)

def activationOfFields? : List (Option Json) → Option Event
  | [some edge, some actor] => do
      return activation (← edge.innerName?.bind ActivationEdge.ofName?) (← actor.string?)
  | _ => none

def blockOfFields? : List (Option Json) → Option Event
  | [some marker, label] => do
      return block (← marker.innerName?.bind BlockMarker.ofName?)
        (← Json.optional? Json.string? label)
  | _ => none

def ofFields? (kind : EventKind) (fields : List (Option Json)) : Option Event :=
  match kind with
  | .message => (Message.ofFields? fields).map message
  | .note => (Note.ofFields? fields).map note
  | .activation => activationOfFields? fields
  | .block => blockOfFields? fields

/-- Splits the kind of an event off its other fields. -/
def splitKind? : Json → Option (Json × Json)
  | .object entries => do
      let kind ← (← Json.field? entries kindField)
      return (kind, .object (entries.filter fun entry => entry.1 ≠ kindField))
  | .array (kind :: rest) => some (kind, .array rest)
  | _ => none

def ofJson? (value : Json) : Option Event := do
  let (tag, rest) ← splitKind? value
  let kind ← tag.string?.bind EventKind.ofName?
  ofFields? kind (← Json.fields? kind.fieldNames rest)

def parse? (text : String) : Option Event :=
  (Json.parse? text.toList).bind ofJson?

end Event

namespace Actor

def fieldNames : List String :=
  ["name", "description", "actorType", "wrap", "activationDepth"]

def toJson (actor : Actor) : Json :=
  .object
    [("name", .string actor.name), ("description", .string actor.description),
      ("actorType", .string actor.role.name), ("wrap", .bool actor.wrap),
      ("activationDepth", .ofNat actor.activationDepth.toNat)]

def ofFields? : List (Option Json) → Option Actor
  | [some name, some description, some role, some wrap, some depth] => do
      return { name := ← name.string?
               description := ← description.string?
               role := ← role.name?.bind ActorRole.ofName?
               wrap := ← wrap.bool?
               activationDepth := ← depth.uint32? }
  | _ => none

def ofJson? (value : Json) : Option Actor := do
  ofFields? (← Json.fields? fieldNames value)

def parse? (text : String) : Option Actor :=
  (Json.read? .loose text.toList).bind ofJson?

end Actor

namespace LineType

def ofJson? (value : Json) : Option LineType :=
  value.name?.bind ofName?

def parse? (text : String) : Option LineType :=
  (Json.parse? text.toList).bind ofJson?

end LineType

end SequenceChart
