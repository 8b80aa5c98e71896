import SequenceChart.Source.Directive
import SequenceChart.Source.Segment
import SequenceChart.Yaml.Json

/-!
# Front matter

A source may begin with a YAML document between two lines of three hyphens. It can give a title and
settings. In its place the text keeps as many line breaks as it had.
-/

namespace SequenceChart

structure FrontMatter where
  title : Option String
  config : Option Entries

namespace FrontMatter

def isIndent (char : Char) : Bool :=
  char == ' ' || char == '\t'

/-- The text after an opening line, before which blanks may stand. -/
def afterOpening? (text : List Char) : Option (List Char) :=
  match dropBlanks text with
  | '-' :: '-' :: '-' :: rest =>
      match rest.dropWhile isIndent with
      | '\n' :: body => some body
      | _ => none
  | _ => none

/-- The text after a closing line, at whose line break the text begins. -/
def afterClosing? (text : List Char) : Option (List Char) :=
  match text with
  | '\n' :: '-' :: '-' :: '-' :: rest =>
      match rest.dropWhile isIndent with
      | [] => some []
      | '\n' :: after => some after
      | _ => none
  | _ => none

/-- The document before the first closing line, and the text after that line. -/
def cutClosing? : List Char → Option (List Char × List Char)
  | [] => none
  | char :: rest =>
      match afterClosing? (char :: rest) with
      | some after => some ([], after)
      | none => (cutClosing? rest).map fun (document, after) => (char :: document, after)

def cut? (text : List Char) : Option (List Char × List Char) :=
  (afterOpening? text).bind cutClosing?

def readConfig (entries : Entries) : Except SourceError (Option Entries) :=
  match entries.find? "config" with
  | none | some .null => .ok none
  | some (.object config) => .ok (some (Entries.sanitize config))
  | some _ => .error .frontMatterConfigNotObject

def ofJson : Json → Except SourceError FrontMatter
  | .object entries => do
      let title := (Entries.find? entries "title").bind Json.string?
      let config ← readConfig entries
      return { title := title.map fun title => trimmed title.toList, config }
  | _ => .ok { title := none, config := none }

def read (document : List Char) : Except SourceError FrontMatter :=
  match Yaml.toJson? document with
  | some value => ofJson value
  | none => .error .frontMatterNotYaml

/-- Splits front matter off a text. -/
def split (text : List Char) : Except SourceError (FrontMatter × List Char) :=
  match cut? text with
  | none => .ok ({ title := none, config := none }, text)
  | some (document, rest) => do
      let removed := text.take (text.length - rest.length)
      return (← read document, lineBreaks removed ++ rest)

end FrontMatter

end SequenceChart
