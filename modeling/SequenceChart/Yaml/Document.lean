import SequenceChart.Text.Break
import SequenceChart.Yaml.Node
import SequenceChart.Yaml.Token.Lexer

/-!
# Documents

A text that holds one document. In front of it there may be directives, and then it starts with a
mark. A text without a document stands for one with nothing in it.
-/

namespace SequenceChart.Yaml

/-- The handles that need no directive. -/
def Handles.standard : Handles :=
  [("!", .ofString "!"), ("!!", .ofString "tag:yaml.org,2002:")]

/-- The handles that directives give and the tokens behind the directives. A version is given once,
and so is each handle. -/
def readDirectives? (versioned : Bool) (handles : Handles) :
    List Token → Option (Handles × List Token)
  | .version major minor :: rest =>
      if versioned || major ≠ 1 || (minor ≠ 1 && minor ≠ 2) then none
      else readDirectives? true handles rest
  | .handle name stem :: rest =>
      if handles.any (·.1 == name) then none
      else readDirectives? versioned ((name, stem) :: handles) rest
  | rest => some (handles, rest)

def startsExplicitly : List Token → Bool
  | .version _ _ :: _ | .handle _ _ :: _ | .documentStart :: _ => true
  | _ => false

/-- The root of the first document and the tokens behind it. -/
def firstDocument? (tokens : List Token) : Option (Node String × List Token) := do
  if startsExplicitly tokens then
    match ← readDirectives? false [] tokens with
    | (handles, .documentStart :: rest) =>
        let (node, rest) ← Node.readOptional? (handles ++ Handles.standard) .block Node.deepest rest
        return (node, rest.val)
    | _ => none
  else
    let (node, rest) ← Node.read? Handles.standard .block Node.deepest tokens
    return (node, rest.val)

/-- The root of the only document. -/
def documentOfTokens? (tokens : List Token) : Option (Node String) :=
  if tokens.isEmpty then some .absent
  else
    (firstDocument? tokens).bind fun (node, rest) =>
      if rest.all (· == .documentEnd) then some node else none

/-- The characters that may occur in a text. -/
def isPrintable (char : Char) : Bool :=
  let code := char.toNat
  code == 0x09 || code == 0x0A || code == 0x0D || (0x20 ≤ code && code ≤ 0x7E) || code == 0x85 ||
    (0xA0 ≤ code && code ≤ 0xFFFD) || 0x10000 ≤ code

/-- A text in which every line break that is not a separator is a line feed. -/
def prepare (text : List Char) : List Char :=
  (unifyLineBreaks text).map fun char => if char = '\x85' then '\n' else char

def document? (text : List Char) : Option (Node String) :=
  if text.all isPrintable then
    (Lexer.ofText (prepare text)).tokens?.bind documentOfTokens?
  else none

end SequenceChart.Yaml
