import SequenceChart.Json.Reader
import SequenceChart.Settings.Layer

/-!
# Settings as JSON

The object that holds a whole set of settings, and reading one back. A text that gives a known key
twice is refused; keys without a setting are kept, the last value at the first position.
-/

namespace SequenceChart

def LogLevel.toJson : LogLevel → Json
  | number value => .ofNat value.toNat
  | name value => .string value

def FontWeight.toJson : FontWeight → Json
  | number value => .ofNat value.toNat
  | name value => .string value

def SequenceSettings.toJson (settings : SequenceSettings Float) : Json :=
  .object <|
    [("diagramMarginX", .ofFloat settings.diagramMarginX),
      ("diagramMarginY", .ofFloat settings.diagramMarginY),
      ("actorMargin", .ofFloat settings.actorMargin),
      ("width", .ofFloat settings.width),
      ("height", .ofFloat settings.height),
      ("boxMargin", .ofFloat settings.boxMargin),
      ("boxTextMargin", .ofFloat settings.boxTextMargin),
      ("noteMargin", .ofFloat settings.noteMargin),
      ("messageMargin", .ofFloat settings.messageMargin),
      ("mirrorActors", .bool settings.mirrorActors),
      ("bottomMarginAdj", .ofFloat settings.bottomMarginAdj),
      ("activationWidth", .ofFloat settings.activationWidth),
      ("wrapPadding", .ofFloat settings.wrapPadding),
      ("wrap", .bool settings.wrap),
      ("messageFontSize", .ofFloat settings.messageFontSize),
      ("noteFontSize", .ofFloat settings.noteFontSize),
      ("actorFontSize", .ofFloat settings.actorFontSize),
      ("textPlacement", .string settings.textPlacement.name)] ++
    settings.extra

/-- The entry of a setting that is left out when it is absent. -/
def optionalEntry {β : Type} (key : String) (toJson : β → Json) (value : Option β) : Entries :=
  (value.map fun value => (key, toJson value)).toList

namespace Settings

def toJson (settings : Settings Float) : Json :=
  .object <|
    optionalEntry "theme" Json.string settings.theme ++
    optionalEntry "logLevel" LogLevel.toJson settings.logLevel ++
    optionalEntry "fontFamily" Json.string settings.fontFamily ++
    optionalEntry "fontSize" Json.ofFloat settings.fontSize ++
    optionalEntry "fontWeight" FontWeight.toJson settings.fontWeight ++
    [("wrap", .bool settings.wrap), (sequencePart, settings.sequence.toJson)] ++
    settings.extra

/-- Reads one entry of a whole set of settings. Sequence settings are known in their part only. -/
def readEntry? (settings : Settings Float) (entry : String × Json) : Option (Settings Float) :=
  if entry.1 = sequencePart then
    (SequenceSettings.ofJson? entry.2).map fun sequence => { settings with sequence }
  else
    match GeneralKey.ofName? entry.1 with
    | some known => settings.set? known entry.2
    | none => some { settings with extra := settings.extra.insert entry.1 entry.2 }

/-- Settings that the object does not mention are standard. -/
def ofJson? : Json → Option (Settings Float)
  | .object entries => entries.foldlM readEntry? standard
  | _ => none

end Settings

/-- Some key that `known` holds of is given more than once. -/
def repeats (known : String → Bool) (entries : Entries) : Bool :=
  let keys := entries.keys.filter known
  keys.eraseDups.length < keys.length

def isSettingsKey (key : String) : Bool :=
  key = sequencePart || (GeneralKey.ofName? key).isSome

/-- Where an object names the text placement, it has no other key. -/
def placesTextOnce (part : Entries) : Bool :=
  match part.find? SequenceKey.textPlacement.name with
  | some (.object entries) => entries.length ≤ 1
  | _ => true

/-- The value gives no known key twice, neither in the whole nor in the `sequence` part, and one
text placement at most. -/
def givesKeysOnce : Json → Bool
  | .object entries =>
      !repeats isSettingsKey entries &&
        match Entries.find? entries sequencePart with
        | some (.object part) => !repeats isSequenceKey part && placesTextOnce part
        | _ => true
  | _ => true

def Settings.parse? (text : String) : Option (Settings Float) := do
  let value ← Json.parse? text.toList
  guard (givesKeysOnce value)
  Settings.ofJson? value.unify

end SequenceChart
