import SequenceChart.Settings.Basic

/-!
# Keys

The names of the settings, and the settings that they name. A value is read as a setting only if
it has the setting's type; a top-level setting that may be absent is cleared by null.
-/

namespace SequenceChart

inductive LengthKey
  | diagramMarginX
  | diagramMarginY
  | actorMargin
  | width
  | height
  | boxMargin
  | boxTextMargin
  | noteMargin
  | messageMargin
  | bottomMarginAdj
  | activationWidth
  | wrapPadding
  | messageFontSize
  | noteFontSize
  | actorFontSize
  deriving DecidableEq, Repr

namespace LengthKey

def all : List LengthKey :=
  [diagramMarginX, diagramMarginY, actorMargin, width, height, boxMargin, boxTextMargin,
    noteMargin, messageMargin, bottomMarginAdj, activationWidth, wrapPadding, messageFontSize,
    noteFontSize, actorFontSize]

def name : LengthKey → String
  | diagramMarginX => "diagramMarginX"
  | diagramMarginY => "diagramMarginY"
  | actorMargin => "actorMargin"
  | width => "width"
  | height => "height"
  | boxMargin => "boxMargin"
  | boxTextMargin => "boxTextMargin"
  | noteMargin => "noteMargin"
  | messageMargin => "messageMargin"
  | bottomMarginAdj => "bottomMarginAdj"
  | activationWidth => "activationWidth"
  | wrapPadding => "wrapPadding"
  | messageFontSize => "messageFontSize"
  | noteFontSize => "noteFontSize"
  | actorFontSize => "actorFontSize"

end LengthKey

namespace SequenceSettings

variable {α : Type}

def length (settings : SequenceSettings α) : LengthKey → α
  | .diagramMarginX => settings.diagramMarginX
  | .diagramMarginY => settings.diagramMarginY
  | .actorMargin => settings.actorMargin
  | .width => settings.width
  | .height => settings.height
  | .boxMargin => settings.boxMargin
  | .boxTextMargin => settings.boxTextMargin
  | .noteMargin => settings.noteMargin
  | .messageMargin => settings.messageMargin
  | .bottomMarginAdj => settings.bottomMarginAdj
  | .activationWidth => settings.activationWidth
  | .wrapPadding => settings.wrapPadding
  | .messageFontSize => settings.messageFontSize
  | .noteFontSize => settings.noteFontSize
  | .actorFontSize => settings.actorFontSize

def setLength (settings : SequenceSettings α) (key : LengthKey) (value : α) :
    SequenceSettings α :=
  match key with
  | .diagramMarginX => { settings with diagramMarginX := value }
  | .diagramMarginY => { settings with diagramMarginY := value }
  | .actorMargin => { settings with actorMargin := value }
  | .width => { settings with width := value }
  | .height => { settings with height := value }
  | .boxMargin => { settings with boxMargin := value }
  | .boxTextMargin => { settings with boxTextMargin := value }
  | .noteMargin => { settings with noteMargin := value }
  | .messageMargin => { settings with messageMargin := value }
  | .bottomMarginAdj => { settings with bottomMarginAdj := value }
  | .activationWidth => { settings with activationWidth := value }
  | .wrapPadding => { settings with wrapPadding := value }
  | .messageFontSize => { settings with messageFontSize := value }
  | .noteFontSize => { settings with noteFontSize := value }
  | .actorFontSize => { settings with actorFontSize := value }

theorem length_setLength (settings : SequenceSettings α) (key other : LengthKey) (value : α) :
    (settings.setLength key value).length other =
      if other = key then value else settings.length other := by
  cases key <;> cases other <;> rfl

end SequenceSettings

/-- A setting of the `sequence` part. -/
inductive SequenceKey
  | length (key : LengthKey)
  | mirrorActors
  | wrap
  | textPlacement
  deriving DecidableEq, Repr

namespace SequenceKey

def all : List SequenceKey :=
  LengthKey.all.map length ++ [mirrorActors, wrap, textPlacement]

def name : SequenceKey → String
  | length key => key.name
  | mirrorActors => "mirrorActors"
  | wrap => "wrap"
  | textPlacement => "textPlacement"

def ofName? (name : String) : Option SequenceKey :=
  all.find? (·.name = name)

@[simp]
theorem ofName?_name (key : SequenceKey) : ofName? key.name = some key := by
  rcases key with key | _ | _ | _
  · cases key <;> rfl
  all_goals rfl

end SequenceKey

def isSequenceKey (key : String) : Bool :=
  (SequenceKey.ofName? key).isSome

/-- A setting outside the `sequence` part. -/
inductive GeneralKey
  | theme
  | logLevel
  | fontFamily
  | fontSize
  | fontWeight
  | wrap
  deriving DecidableEq, Repr

namespace GeneralKey

def all : List GeneralKey :=
  [theme, logLevel, fontFamily, fontSize, fontWeight, wrap]

def name : GeneralKey → String
  | theme => "theme"
  | logLevel => "logLevel"
  | fontFamily => "fontFamily"
  | fontSize => "fontSize"
  | fontWeight => "fontWeight"
  | wrap => "wrap"

def ofName? (name : String) : Option GeneralKey :=
  all.find? (·.name = name)

@[simp]
theorem ofName?_name (key : GeneralKey) : ofName? key.name = some key := by
  cases key <;> rfl

end GeneralKey

/-- The key of the part that holds the sequence settings. -/
def sequencePart : String := "sequence"

/-- Reads a value that may be absent: null stands for none. -/
def readOptional? {β : Type} (read? : Json → Option β) (value : Json) : Option (Option β) :=
  match value with
  | .null => some none
  | value => (read? value).map some

def LogLevel.ofJson? (value : Json) : Option LogLevel :=
  match value.natural? UInt8.size with
  | some level => some (.number (UInt8.ofNat level))
  | none => value.string?.map .name

def FontWeight.ofJson? (value : Json) : Option FontWeight :=
  match value.natural? UInt32.size with
  | some weight => some (.number (UInt32.ofNat weight))
  | none => value.string?.map .name

def TextPlacement.ofJson? (value : Json) : Option TextPlacement :=
  value.name?.bind ofName?

/-- Gives one setting the value that is written, if it has the right type. -/
def SequenceSettings.set? (settings : SequenceSettings Float) (key : SequenceKey) (value : Json) :
    Option (SequenceSettings Float) :=
  match key with
  | .length key => value.float?.map (settings.setLength key)
  | .mirrorActors => value.bool?.map fun mirrorActors => { settings with mirrorActors }
  | .wrap => value.bool?.map fun wrap => { settings with wrap }
  | .textPlacement =>
      (TextPlacement.ofJson? value).map fun textPlacement => { settings with textPlacement }

/-- Gives one setting the value that is written, if it has the right type. -/
def Settings.set? (settings : Settings Float) (key : GeneralKey) (value : Json) :
    Option (Settings Float) :=
  match key with
  | .theme => (readOptional? Json.string? value).map fun theme => { settings with theme }
  | .logLevel =>
      (readOptional? LogLevel.ofJson? value).map fun logLevel => { settings with logLevel }
  | .fontFamily =>
      (readOptional? Json.string? value).map fun fontFamily => { settings with fontFamily }
  | .fontSize => (readOptional? Json.float? value).map fun fontSize => { settings with fontSize }
  | .fontWeight =>
      (readOptional? FontWeight.ofJson? value).map fun fontWeight => { settings with fontWeight }
  | .wrap => value.bool?.map fun wrap => { settings with wrap }

end SequenceChart
