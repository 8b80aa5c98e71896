import SequenceChart.Source.FrontMatter
import SequenceChart.Text.Break

/-!
# Sources

A source text is made ready for reading: line breaks become uniform, front matter and directives are
taken out, and what they say is kept beside the code. A wrapping switch is kept with the place in
the code, counted in bytes, at which it stood.
-/

namespace SequenceChart

structure WrapSwitch where
  offset : Nat
  enabled : Bool
  deriving DecidableEq, Repr

structure Source where
  code : String
  title : Option String
  fragments : List Fragment
  switches : List WrapSwitch

namespace Source

/-- The directives among the segments with their places in the code, which starts at `offset`. -/
def readDirectives (offset : Nat) :
    List Segment → Except SourceError (List (Nat × Directive))
  | [] => .ok []
  | .plain text :: rest => readDirectives (offset + byteLength text) rest
  | .unclosed _ :: _ => .error .unterminatedDirective
  | .directive content :: rest => do
      let directive ← Directive.read content
      let later ← readDirectives (offset + byteLength (lineBreaks content)) rest
      return (directive.map fun directive => (offset, directive)).toList ++ later

def effects (directives : List (Nat × Directive)) :
    Except SourceError (List (Nat × Directive.Effect)) := do
  let found ← directives.mapM fun (offset, directive) => do
    return (← directive.effect?).map fun effect => (offset, effect)
  return found.filterMap id

def fragmentOf : Nat × Directive.Effect → Option Fragment
  | (_, .fragment fragment) => some fragment
  | (_, .wrap _) => none

def switchOf : Nat × Directive.Effect → Option WrapSwitch
  | (_, .fragment _) => none
  | (offset, .wrap enabled) => some { offset, enabled }

def read (text : String) : Except SourceError Source := do
  let (frontMatter, body) ← FrontMatter.split (unifyLineBreaks text.toList)
  let segments := Segment.split body
  let effects ← effects (← readDirectives 0 segments)
  let config := frontMatter.config.map fun entries => { kind := .init, entries }
  return { code := String.ofList (codeOf segments)
           title := frontMatter.title
           fragments := config.toList ++ effects.filterMap fragmentOf
           switches := effects.filterMap switchOf }

end Source

end SequenceChart
