import SequenceChart.Settings.Key
import SequenceChart.Stepwise

/-!
# Layers

A fragment of settings is laid over the settings that are there, key by key in its order. An `init`
fragment replaces the `sequence` part as a whole; a `config` fragment merges its keys into it. When
a value is refused, the keys before it stay applied.
-/

namespace SequenceChart

inductive SettingError
  | invalidValue (key : String)
  | sequenceNotObject
  deriving DecidableEq, Repr

/-- Reads the value of a field, which is `standard` if the field is not there. -/
def Entries.field? {β : Type} (entries : Entries) (name : String) (read? : Json → Option β)
    (standard : β) : Option β :=
  match entries.find? name with
  | some value => read? value
  | none => some standard

namespace SequenceSettings

/-- Gives the named setting the value that is written; there may be no setting of that name. -/
def assign? (settings : SequenceSettings Float) (key : String) (value : Json) :
    Except SettingError (Option (SequenceSettings Float)) :=
  match SequenceKey.ofName? key with
  | none => .ok none
  | some known =>
      match settings.set? known value with
      | some changed => .ok (some changed)
      | none => .error (.invalidValue key)

/-- Lays one entry over the settings; an entry without a setting is kept with the others of its
kind. -/
def layEntry (settings : SequenceSettings Float) (entry : String × Json) :
    SequenceSettings Float × Option SettingError :=
  match settings.assign? entry.1 entry.2 with
  | .ok (some changed) => (changed, none)
  | .ok none => ({ settings with extra := settings.extra.insert entry.1 entry.2 }, none)
  | .error fault => (settings, some fault)

def layEntries (settings : SequenceSettings Float) (entries : Entries) :
    SequenceSettings Float × Option SettingError :=
  runSteps layEntry settings entries

/-- Reads a whole `sequence` part, field by field; fields that it does not mention are standard. No
field may be given twice. What is no field is kept. -/
def ofEntries? (entries : Entries) : Option (SequenceSettings Float) := do
  guard (entries.keys.filter isSequenceKey).Nodup
  some
    { diagramMarginX := ← entries.field? "diagramMarginX" Json.float? standard.diagramMarginX
      diagramMarginY := ← entries.field? "diagramMarginY" Json.float? standard.diagramMarginY
      actorMargin := ← entries.field? "actorMargin" Json.float? standard.actorMargin
      width := ← entries.field? "width" Json.float? standard.width
      height := ← entries.field? "height" Json.float? standard.height
      boxMargin := ← entries.field? "boxMargin" Json.float? standard.boxMargin
      boxTextMargin := ← entries.field? "boxTextMargin" Json.float? standard.boxTextMargin
      noteMargin := ← entries.field? "noteMargin" Json.float? standard.noteMargin
      messageMargin := ← entries.field? "messageMargin" Json.float? standard.messageMargin
      mirrorActors := ← entries.field? "mirrorActors" Json.bool? standard.mirrorActors
      bottomMarginAdj := ← entries.field? "bottomMarginAdj" Json.float? standard.bottomMarginAdj
      activationWidth := ← entries.field? "activationWidth" Json.float? standard.activationWidth
      wrapPadding := ← entries.field? "wrapPadding" Json.float? standard.wrapPadding
      wrap := ← entries.field? "wrap" Json.bool? standard.wrap
      messageFontSize := ← entries.field? "messageFontSize" Json.float? standard.messageFontSize
      noteFontSize := ← entries.field? "noteFontSize" Json.float? standard.noteFontSize
      actorFontSize := ← entries.field? "actorFontSize" Json.float? standard.actorFontSize
      textPlacement := ←
        entries.field? "textPlacement" TextPlacement.ofJson? standard.textPlacement
      extra := .ofDuplicates (entries.filter fun entry => !isSequenceKey entry.1) }

def ofJson? : Json → Option (SequenceSettings Float)
  | .object entries => ofEntries? entries
  | _ => none

end SequenceSettings

namespace Settings

/-- Lays an entry outside the `sequence` part. A sequence setting may be given here as well. -/
def layGeneralEntry (settings : Settings Float) (key : String) (value : Json) :
    Settings Float × Option SettingError :=
  match GeneralKey.ofName? key with
  | some known =>
      match settings.set? known value with
      | some changed => (changed, none)
      | none => (settings, some (.invalidValue key))
  | none =>
      match settings.sequence.assign? key value with
      | .ok (some sequence) => ({ settings with sequence }, none)
      | .ok none => ({ settings with extra := settings.extra.insert key value }, none)
      | .error fault => (settings, some fault)

def layInitEntry (settings : Settings Float) (entry : String × Json) :
    Settings Float × Option SettingError :=
  if entry.1 = sequencePart then
    match SequenceSettings.ofJson? entry.2 with
    | some sequence => ({ settings with sequence }, none)
    | none => (settings, some (.invalidValue entry.1))
  else settings.layGeneralEntry entry.1 entry.2

def layConfigEntry (settings : Settings Float) (entry : String × Json) :
    Settings Float × Option SettingError :=
  if entry.1 = sequencePart then
    match entry.2 with
    | .object entries =>
        let (sequence, fault) := settings.sequence.layEntries entries
        ({ settings with sequence }, fault)
    | _ => (settings, some .sequenceNotObject)
  else settings.layGeneralEntry entry.1 entry.2

def applyInit (settings : Settings Float) (fragment : Entries) :
    Settings Float × Option SettingError :=
  runSteps layInitEntry settings fragment

def applyConfig (settings : Settings Float) (fragment : Entries) :
    Settings Float × Option SettingError :=
  runSteps layConfigEntry settings fragment

end Settings

end SequenceChart
