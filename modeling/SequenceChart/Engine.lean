import SequenceChart.Grammar.Session

/-!
# Reading sources

A source is read on top of base settings: front matter and directives are layered over them in the
order of the source, then the code is read into a fresh chart. Faults of the settings come before
any statement is read, and leave an empty chart.
-/

namespace SequenceChart

inductive Error
  | source (error : SourceError)
  | setting (error : SettingError)
  | reading (error : ReadingError)

def SourceError.message : SourceError → String
  | frontMatterNotYaml => "invalid YAML front-matter"
  | frontMatterConfigNotObject => "front-matter `config` must be an object"
  | unterminatedDirective => "unterminated directive; missing `\x7d%%`"
  | namelessDirective content => "directive has no name: `" ++ content ++ "`"
  | payloadNotJson name => "directive `" ++ name ++ "` payload is not valid JSON"
  | payloadNotObject name => "directive `" ++ name ++ "` expects an object payload"
  | textAfterDirective name text =>
      "unexpected text after directive `" ++ name ++ "`: `" ++ text ++ "`"

def SettingError.message : SettingError → String
  | invalidValue key => "invalid value for `" ++ key ++ "`"
  | sequenceNotObject => "`sequence` must be an object"

/-- Faults of the settings are told alike, wherever the settings come from. -/
def configMessage (detail : String) : String :=
  "Invalid directive config: " ++ detail

def Error.message : Error → String
  | source error => configMessage error.message
  | setting error => configMessage error.message
  | reading error => error.message

/-- What is known of a diagram besides its chart. -/
structure Metadata where
  diagramType : String
  settings : Settings Float
  title : Option String

structure ParsedDiagram where
  metadata : Metadata
  chart : Chart

def sequenceType : String := "sequence"

structure Engine where
  base : Settings Float

namespace Engine

def standard : Engine :=
  { base := .standard }

def settingsFor (engine : Engine) (source : Source) : Except Error (Settings Float) :=
  match engine.base.applyFragments source.fragments with
  | (settings, none) => .ok settings
  | (_, some fault) => .error (.setting fault)

/-- A title of the source that is not empty becomes the title of the diagram. -/
def startChart (settings : Settings Float) (title : Option String) : Chart :=
  let chart := Chart.withSettings settings
  match title.filter (· ≠ "") with
  | some title => chart.setTitle title
  | none => chart

def metadataOf (chart : Chart) : Metadata :=
  { diagramType := sequenceType, settings := chart.settings, title := chart.diagram.title }

/-- Forgets what was in the chart and reads a source into it. -/
def parseInto (engine : Engine) (chart : Chart) (text : String) :
    Chart × Except Error Metadata :=
  let cleared := chart.clear
  match Source.read text with
  | .error error => (cleared, .error (.source error))
  | .ok source =>
      match engine.settingsFor source with
      | .error error => (cleared, .error error)
      | .ok settings =>
          match (startChart settings source.title).readCode source.code source.switches with
          | (chart, none) => (chart, .ok (metadataOf chart))
          | (chart, some error) => (chart, .error (.reading error))

def parse (engine : Engine) (text : String) : Except Error ParsedDiagram :=
  match engine.parseInto .empty text with
  | (chart, .ok metadata) => .ok { metadata, chart }
  | (_, .error error) => .error error

end Engine

end SequenceChart
