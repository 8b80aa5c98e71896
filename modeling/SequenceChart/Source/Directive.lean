import SequenceChart.Json.Reader
import SequenceChart.Source.Fragment
import SequenceChart.Text.Blank

/-!
# Directives

A directive has a name and maybe a payload after a colon: a JSON value, in which single quotes may
stand for double ones, or any other text. Directives carry settings or switch the wrapping of lines;
others are ignored.
-/

namespace SequenceChart

inductive SourceError
  | frontMatterNotYaml
  | frontMatterConfigNotObject
  | unterminatedDirective
  | namelessDirective (content : String)
  | payloadNotJson (name : String)
  | payloadNotObject (name : String)
  | textAfterDirective (name text : String)
  deriving DecidableEq, Repr

structure Directive where
  name : String
  payload : Option Json

/-- What a directive does. -/
inductive Directive.Effect
  | fragment (fragment : Fragment)
  | wrap (enabled : Bool)

def isNameChar (char : Char) : Bool :=
  char.isAlphanum || char == '_'

namespace Directive

def readJson? (text : List Char) : Option Json :=
  (Json.parse? (text.map fun char => if char = '\'' then '"' else char)).map Json.unify

def readPayload (name : String) (text : List Char) : Except SourceError (Option Json) :=
  match text with
  | [] => .ok none
  | '\x7b' :: _ | '[' :: _ =>
      match readJson? text with
      | some value => .ok (some value)
      | none => .error (.payloadNotJson name)
  | _ => .ok (some (.string (String.ofList text)))

/-- Reads the content of a directive; an empty one is none. -/
def read (content : List Char) : Except SourceError (Option Directive) := do
  let text := trim content
  if text.isEmpty then return none
  let name := String.ofList (text.takeWhile isNameChar)
  if name.isEmpty then throw (.namelessDirective (String.ofList text))
  match dropBlanks (text.dropWhile isNameChar) with
  | [] => return some { name, payload := none }
  | ':' :: rest => return some { name, payload := ← readPayload name (trim rest) }
  | rest => throw (.textAfterDirective name (trimmed rest))

def readEntries (name : String) : Option Json → Except SourceError Entries
  | none => .ok []
  | some (.object entries) => .ok (Entries.sanitize entries)
  | some _ => .error (.payloadNotObject name)

def effect? (directive : Directive) : Except SourceError (Option Effect) :=
  match directive.name, directive.payload with
  | "init", payload | "initialize", payload => do
      return some (.fragment { kind := .init, entries := ← readEntries directive.name payload })
  | "config", payload => do
      return some (.fragment { kind := .config, entries := ← readEntries directive.name payload })
  | "wrap", none => .ok (some (.wrap true))
  | "nowrap", none => .ok (some (.wrap false))
  | _, _ => .ok none

end Directive

end SequenceChart
