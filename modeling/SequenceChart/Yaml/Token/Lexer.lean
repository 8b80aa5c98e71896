import SequenceChart.Yaml.Scalar.Block
import SequenceChart.Yaml.Scalar.Plain
import SequenceChart.Yaml.Scalar.Quoted
import SequenceChart.Yaml.Token

/-!
# Taking tokens off a text

A lexer goes through a text and collects its tokens. It knows the columns of the block collections
that are open. Whether something is a key is known only at the colon behind it; until then the lexer
remembers where the key may have started, and puts the tokens that start it there in the end.
-/

namespace SequenceChart.Yaml

/-- The start of what may turn out to be a key. -/
structure KeyStart where
  place : Place
  count : Nat
  /-- A key that stands where the next key of a block must stand has to turn out to be one. -/
  required : Bool

namespace KeyStart

/-- The most octets of a key that is written without a question mark. -/
def longest : Nat := 1024

/-- A key has its colon on its own line and not too far away. -/
def reaches (start : KeyStart) (place : Place) : Bool :=
  start.place.line == place.line && place.index ≤ start.place.index + longest

/-- Forgets a start that is too far away, which must not be a required one. -/
def expire? (place : Place) : Option KeyStart → Option (Option KeyStart)
  | none => some none
  | some start =>
      if start.reaches place then some (some start)
      else if start.required then none
      else some none

end KeyStart

structure Lexer where
  place : Place
  /-- The columns of the open block collections, the innermost first. -/
  columns : List Nat
  /-- The start of a key within the innermost flow collection. -/
  key : Option KeyStart
  /-- The starts of keys around each of the open flow collections, the innermost first. -/
  outerKeys : List (Option KeyStart)
  keyAllowed : Bool
  /-- The tokens so far, the last first. -/
  found : List Token

namespace Lexer

def ofText (text : List Char) : Lexer :=
  { place := .ofText text, columns := [], key := none, outerKeys := [], keyAllowed := true
    found := [] }

def inFlow (lexer : Lexer) : Bool :=
  !lexer.outerKeys.isEmpty

/-- The first column to the right of the innermost block collection. -/
def leastColumn (lexer : Lexer) : Nat :=
  match lexer.columns with
  | [] => 0
  | column :: _ => column + 1

def push (lexer : Lexer) (token : Token) : Lexer :=
  { lexer with found := token :: lexer.found }

def insert (lexer : Lexer) (count : Nat) (token : Token) : Lexer :=
  let later := lexer.found.length - count
  { lexer with found := lexer.found.take later ++ token :: lexer.found.drop later }

def allowKey (lexer : Lexer) (keyAllowed : Bool) : Lexer :=
  { lexer with keyAllowed }

/-- Ends the innermost block collections as long as `ends` holds of their columns. -/
def closeBlocks (lexer : Lexer) (ends : Nat → Bool) : Lexer :=
  if lexer.inFlow then lexer
  else
    let closed := lexer.columns.takeWhile ends
    { lexer with
      columns := lexer.columns.dropWhile ends
      found := closed.map (fun _ => .blockEnd) ++ lexer.found }

def closeAllBlocks (lexer : Lexer) : Lexer :=
  lexer.closeBlocks fun _ => true

/-- Starts a block collection behind the first `count` tokens, unless the innermost one already
stands at the column or to the right of it. -/
def openBlock (lexer : Lexer) (column count : Nat) (token : Token) : Lexer :=
  if lexer.inFlow || column < lexer.leastColumn then lexer
  else { lexer.insert count token with columns := column :: lexer.columns }

/-- Starts a block collection where the lexer is, if there may be one. -/
def openBlockHere? (lexer : Lexer) (token : Token) : Option Lexer :=
  if lexer.inFlow then some lexer
  else if lexer.keyAllowed then
    some (lexer.openBlock lexer.place.column lexer.found.length token)
  else none

/-- Gives up the start of a key, which must not be a required one. -/
def dropKey? (lexer : Lexer) : Option Lexer :=
  if lexer.key.any (·.required) then none else some { lexer with key := none }

/-- Remembers that a key may start here. -/
def saveKey? (lexer : Lexer) : Option Lexer :=
  if lexer.keyAllowed then
    let required := !lexer.inFlow && lexer.columns.head? == some lexer.place.column
    lexer.dropKey?.map fun lexer =>
      { lexer with key := some { place := lexer.place, count := lexer.found.length, required } }
  else some lexer

/-- Forgets the starts of keys that are too far away. -/
def expireKeys? (lexer : Lexer) : Option Lexer := do
  let key ← KeyStart.expire? lexer.place lexer.key
  let outerKeys ← lexer.outerKeys.mapM (KeyStart.expire? lexer.place)
  return { lexer with key, outerKeys }

/-- Steps over a byte order mark in front of a line. -/
def skipOrderMark (place : Place) : Place :=
  if place.column == 0 && place.rest.head? == some '\ufeff' then place.step else place

def skipComment (place : Place) : Place :=
  if place.rest.head? == some '#' then place.skipWhile (!isBreak ·) else place

/-- Steps over the rest of a line up to the next token. -/
def skipWithinLine (tabs : Bool) (place : Place) : Place :=
  skipComment ((skipOrderMark place).skipWhile fun char => char == ' ' || (tabs && char == '\t'))

theorem length_skipWithinLine_le (tabs : Bool) (place : Place) :
    (skipWithinLine tabs place).rest.length ≤ place.rest.length := by
  have hmark : (skipOrderMark place).rest.length ≤ place.rest.length := by
    unfold skipOrderMark
    split <;> simp
  have hcomment : ∀ inner : Place, (skipComment inner).rest.length ≤ inner.rest.length := by
    intro inner
    unfold skipComment
    split
    · exact Place.length_skipWhile_le _ _
    · exact Nat.le_refl _
  exact Nat.le_trans (hcomment _) (Nat.le_trans (Place.length_skipWhile_le _ _) hmark)

/-- The place of the next token, and whether a key may start there. In a block every new line
allows a key; a tab may stand only where none is allowed. -/
def nextToken (inFlow keyAllowed : Bool) (place : Place) : Bool × Place :=
  let next := skipWithinLine (inFlow || !keyAllowed) place
  match _hrest : next.rest with
  | [] => (keyAllowed, next)
  | char :: _ =>
      if isBreak char then nextToken inFlow (keyAllowed || !inFlow) next.step
      else (keyAllowed, next)
termination_by place.rest.length
decreasing_by
  have hle := length_skipWithinLine_le (inFlow || !keyAllowed) place
  have hlength := congrArg List.length _hrest
  simp only [next, Place.rest_step, List.length_tail, List.length_cons] at *
  omega

/-- Goes on to the next token and ends the block collections to the right of it. -/
def advance? (lexer : Lexer) : Option Lexer :=
  let (keyAllowed, place) := nextToken lexer.inFlow lexer.keyAllowed lexer.place
  (expireKeys? { lexer with keyAllowed, place }).map fun ready =>
    ready.closeBlocks (place.column < ·)

def take (lexer : Lexer) (count : Nat) (token : Token) : Lexer :=
  { lexer with place := lexer.place.skip count }.push token

/-- Takes a token from behind its first `count` characters. -/
def scan? (lexer : Lexer) (count : Nat) (scan : Scan Token) : Option Lexer := do
  let (token, place) ← scan.run (lexer.place.skip count)
  return { lexer with place }.push token

/-- Directives and the marks between documents end all block collections. -/
def leaveDocument? (lexer : Lexer) : Option Lexer :=
  lexer.closeAllBlocks.dropKey?.map (·.allowKey false)

def documentMark (char : Char) : Token :=
  if char = '-' then .documentStart else .documentEnd

def openFlow? (lexer : Lexer) (token : Token) : Option Lexer := do
  let lexer ← lexer.saveKey?
  return { lexer with key := none, outerKeys := lexer.key :: lexer.outerKeys }.allowKey true
    |>.take 1 token

def leaveFlow (lexer : Lexer) : Lexer :=
  match lexer.outerKeys with
  | [] => lexer
  | key :: outerKeys => { lexer with key, outerKeys }

def closeFlow? (lexer : Lexer) (token : Token) : Option Lexer := do
  let lexer ← lexer.dropKey?
  return lexer.leaveFlow.allowKey false |>.take 1 token

def comma? (lexer : Lexer) : Option Lexer := do
  let lexer ← lexer.dropKey?
  return lexer.allowKey true |>.take 1 .comma

def item? (lexer : Lexer) : Option Lexer := do
  let lexer ← (← lexer.openBlockHere? .blockSequence).dropKey?
  return lexer.allowKey true |>.take 1 .item

def key? (lexer : Lexer) : Option Lexer := do
  let lexer ← (← lexer.openBlockHere? .blockMapping).dropKey?
  return lexer.allowKey (!lexer.inFlow) |>.take 1 .key

def value? (lexer : Lexer) : Option Lexer :=
  match lexer.key with
  | some start =>
      let lexer := (lexer.insert start.count .key).openBlock start.place.column start.count
        .blockMapping
      some ({ lexer with key := none }.allowKey false |>.take 1 .value)
  | none => do
      let lexer ← lexer.openBlockHere? .blockMapping
      return lexer.allowKey (!lexer.inFlow) |>.take 1 .value

def scanKey? (lexer : Lexer) (count : Nat) (scan : Scan Token) : Option Lexer := do
  (← lexer.saveKey?).allowKey false |>.scan? count scan

def blockScalar? (lexer : Lexer) (folded : Bool) : Option Lexer := do
  let lexer ← lexer.dropKey?
  lexer.allowKey true |>.scan? 1 do
    return .scalar (String.ofList (← blockScalar folded lexer.leastColumn)) false

def quoted (read? : Place → Option (List Char × Place)) : Scan Token := do
  let (text, place) ← (read? (← get) : Option (List Char × Place))
  set place
  return .scalar (String.ofList text) false

/-- A plain scalar that is left at a line break allows a key behind it. -/
def plain? (lexer : Lexer) : Option Lexer := do
  let lexer ← lexer.saveKey?
  let scalar ← Yaml.plain? lexer.inFlow lexer.leastColumn lexer.place
  return { lexer with place := scalar.place, keyAllowed := scalar.leftLine }.push
    (.scalar (String.ofList scalar.text) true)

/-- The characters that a plain scalar starts with only under conditions, or not at all. -/
def isIndicator (char : Char) : Bool :=
  "-?:,[]\x7b\x7d#&*!|>\x27\"%@`".toList.contains char

def startsPlain (inFlow : Bool) (char : Char) (rest : List Char) : Bool :=
  !(isGap char || isIndicator char) || (char == '-' && !endsWord rest) ||
    (!inFlow && (char == '?' || char == ':') && !endsWord rest)

def token? (lexer : Lexer) (char : Char) (rest : List Char) : Option Lexer := do
  if lexer.place.column == 0 && char == '%' then
    (← lexer.leaveDocument?).scan? 1 Token.scanDirective
  else if lexer.place.isMark then
    return (← lexer.leaveDocument?).take 3 (documentMark char)
  else
    let indicates := lexer.inFlow || endsWord rest
    match char with
    | '[' => lexer.openFlow? .flowSequence
    | '\x7b' => lexer.openFlow? .flowMapping
    | ']' => lexer.closeFlow? .flowSequenceEnd
    | '\x7d' => lexer.closeFlow? .flowMappingEnd
    | ',' => lexer.comma?
    | '*' => lexer.scanKey? 1 (Token.reference <$> Token.name)
    | '&' => lexer.scanKey? 1 (Token.anchor <$> Token.name)
    | '!' => lexer.scanKey? 0 (Token.scanTag lexer.inFlow)
    | '\x27' => lexer.scanKey? 1 (quoted singleQuoted?)
    | '"' => lexer.scanKey? 1 (quoted doubleQuoted?)
    | _ =>
        if char == '-' && endsWord rest then lexer.item?
        else if char == '?' && indicates then lexer.key?
        else if char == ':' && indicates then lexer.value?
        else if char == '|' && !lexer.inFlow then lexer.blockScalar? false
        else if char == '>' && !lexer.inFlow then lexer.blockScalar? true
        else if startsPlain lexer.inFlow char rest then lexer.plain?
        else none

/-- The tokens of the text before the lexer and behind it. Each token takes up some text. -/
def tokens? (lexer : Lexer) : Option (List Token) :=
  match lexer.advance? with
  | none => none
  | some ready =>
      match ready.place.rest with
      | [] => ready.closeAllBlocks.dropKey?.map (·.found.reverse)
      | char :: rest =>
          match ready.token? char rest with
          | none => none
          | some next =>
              if _hshorter : next.place.rest.length < lexer.place.rest.length then next.tokens?
              else none
termination_by lexer.place.rest.length

end Lexer

end SequenceChart.Yaml
