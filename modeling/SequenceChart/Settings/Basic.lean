import SequenceChart.Json.Basic

/-!
# Settings

The settings that a diagram is laid out with. Lengths are numbers of a type `α`. Entries that no
setting is named after are kept as they are, in order.
-/

namespace SequenceChart

inductive TextPlacement
  | tspan
  | fo
  | old
  deriving DecidableEq, Repr

def TextPlacement.all : List TextPlacement :=
  [tspan, fo, old]

def TextPlacement.name : TextPlacement → String
  | tspan => "tspan"
  | fo => "fo"
  | old => "old"

def TextPlacement.ofName? (name : String) : Option TextPlacement :=
  all.find? (·.name = name)

inductive FontWeight
  | number (value : UInt32)
  | name (value : String)
  deriving DecidableEq, Repr

def FontWeight.text : FontWeight → String
  | number value => toString value.toNat
  | name value => value

inductive LogLevel
  | number (value : UInt8)
  | name (value : String)
  deriving DecidableEq, Repr

structure SequenceSettings (α : Type) where
  diagramMarginX : α
  diagramMarginY : α
  actorMargin : α
  width : α
  height : α
  boxMargin : α
  boxTextMargin : α
  noteMargin : α
  messageMargin : α
  mirrorActors : Bool
  bottomMarginAdj : α
  activationWidth : α
  wrapPadding : α
  wrap : Bool
  messageFontSize : α
  noteFontSize : α
  actorFontSize : α
  textPlacement : TextPlacement
  extra : Entries

def SequenceSettings.standard : SequenceSettings Float :=
  { diagramMarginX := 50.0
    diagramMarginY := 10.0
    actorMargin := 50.0
    width := 150.0
    height := 65.0
    boxMargin := 10.0
    boxTextMargin := 5.0
    noteMargin := 10.0
    messageMargin := 35.0
    mirrorActors := true
    bottomMarginAdj := 1.0
    activationWidth := 10.0
    wrapPadding := 10.0
    wrap := false
    messageFontSize := 16.0
    noteFontSize := 16.0
    actorFontSize := 14.0
    textPlacement := .tspan
    extra := [] }

structure Settings (α : Type) where
  theme : Option String
  logLevel : Option LogLevel
  fontFamily : Option String
  fontSize : Option α
  fontWeight : Option FontWeight
  wrap : Bool
  sequence : SequenceSettings α
  extra : Entries

namespace Settings

def standard : Settings Float :=
  { theme := none, logLevel := none, fontFamily := none, fontSize := none, fontWeight := none,
    wrap := false, sequence := .standard, extra := [] }

variable {α : Type}

def wrapEnabled (settings : Settings α) : Bool :=
  settings.wrap || settings.sequence.wrap

/-- Turns wrapping on or off in both places where it can be asked for. -/
def setWrap (settings : Settings α) (wrap : Bool) : Settings α :=
  { settings with wrap, sequence := { settings.sequence with wrap } }

@[simp]
theorem wrapEnabled_setWrap (settings : Settings α) (wrap : Bool) :
    (settings.setWrap wrap).wrapEnabled = wrap := by
  simp [wrapEnabled, setWrap]

end Settings

end SequenceChart
