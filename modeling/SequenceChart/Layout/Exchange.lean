import SequenceChart.Json.Basic
import SequenceChart.Layout.Basic

/-!
# Layouts as JSON

Positions that are not finite are written as null.
-/

namespace SequenceChart

def Box.toJson (box : Box Float) : Json :=
  .object
    [("startX", .ofFloat box.startX), ("startY", .ofFloat box.startY),
      ("stopX", .ofFloat box.stopX), ("stopY", .ofFloat box.stopY)]

def PlacedActor.toJson (actor : PlacedActor Float) : Json :=
  .object
    [("name", .string actor.name), ("description", .string actor.description),
      ("actorType", .string actor.role.name), ("x", .ofFloat actor.x), ("y", .ofFloat actor.y),
      ("width", .ofFloat actor.width), ("height", .ofFloat actor.height)]

def PlacedMessage.toJson (message : PlacedMessage Float) : Json :=
  .object <|
    [("kind", .string message.kind.name), ("from", .string message.source),
      ("to", .string message.target), ("text", .string message.text),
      ("startX", .ofFloat message.startX), ("stopX", .ofFloat message.stopX),
      ("y", .ofFloat message.y), ("selfMessage", .bool message.toSelf),
      ("textWidth", .ofFloat message.textWidth), ("textHeight", .ofFloat message.textHeight)] ++
    (message.sequenceNumber.map fun number => ("sequenceNumber", .ofNat number.toNat)).toList

def PlacedNote.toJson (note : PlacedNote Float) : Json :=
  .object
    [("placement", .string note.placement.name), ("from", .string note.first),
      ("to", .string note.second), ("text", .string note.text), ("x", .ofFloat note.x),
      ("y", .ofFloat note.y), ("width", .ofFloat note.width), ("height", .ofFloat note.height)]

def PlacedActivation.toJson (activation : PlacedActivation Float) : Json :=
  .object
    [("actor", .string activation.actor), ("startX", .ofFloat activation.startX),
      ("startY", .ofFloat activation.startY), ("stopX", .ofFloat activation.stopX),
      ("stopY", .ofFloat activation.stopY), ("depth", .ofNat activation.depth)]

def PlacedSection.toJson (placed : PlacedSection Float) : Json :=
  .object [("y", .ofFloat placed.y), ("label", .string placed.label)]

def PlacedBlock.toJson (block : PlacedBlock Float Float) : Json :=
  .object
    [("kind", .string block.kind.name), ("label", .string block.label),
      ("sections", .array (block.sections.map PlacedSection.toJson)),
      ("bounds", block.bounds.toJson)]

def Layout.toJson (layout : Layout Float Float) : Json :=
  .object
    [("actors", .array (layout.actors.map PlacedActor.toJson)),
      ("mirroredActors", .array (layout.mirroredActors.map PlacedActor.toJson)),
      ("messages", .array (layout.messages.map PlacedMessage.toJson)),
      ("notes", .array (layout.notes.map PlacedNote.toJson)),
      ("activations", .array (layout.activations.map PlacedActivation.toJson)),
      ("blocks", .array (layout.blocks.map PlacedBlock.toJson)),
      ("title", .ofString? layout.title), ("bounds", layout.bounds.toJson),
      ("width", .ofFloat layout.width), ("height", .ofFloat layout.height)]

end SequenceChart
