import SequenceChart.Grammar.Cursor
import SequenceChart.Grammar.Statement

/-!
# Reading statements

Each reading reads one part of a statement and moves the cursor behind it, or complains. It looks at
the text only, never at the diagram.
-/

namespace SequenceChart

abbrev Reading := StateT Cursor (Except Complaint)

namespace Reading

def skipIndent : Reading Unit :=
  modify Cursor.skipIndent

def textUntil (stops : List Char → Bool) : Reading (List Char) :=
  modifyGet fun cursor =>
    let text := takeUntil stops cursor.rest
    (text, cursor.skip text.length)

def textToEnd : Reading (List Char) :=
  textUntil endsStatement

/-- Takes a step if it is possible, and tells whether it was. -/
def attempt (step? : Cursor → Option Cursor) : Reading Bool :=
  modifyGet fun cursor =>
    match step? cursor with
    | some later => (true, later)
    | none => (false, cursor)

def eat (char : Char) : Reading Bool :=
  attempt fun cursor => if cursor.rest.head? = some char then some (cursor.skip 1) else none

/-- What comes after a word inside a statement. -/
def followsWord : List Char → Bool
  | [] => true
  | char :: _ => !(char.isAlphanum || char == '_')

def eatWord (word : String) : Reading Bool :=
  attempt (·.skipWord? followsWord word)

/-- Steps over a side and the word `of` after it, or over nothing. -/
def eatSide (side : String) : Reading Bool :=
  attempt fun cursor =>
    (cursor.skipWord? followsWord side).bind fun later =>
      later.skipIndent.skipWord? followsWord "of"

/-- What comes after the keyword at the start of a statement. -/
def followsKeyword : List Char → Bool
  | [] => true
  | char :: _ => isIndent char || char == '\n' || char == ';' || char == ':' || char == '\x7b'

/-- The keyword that comes next. At most one can, since none goes on like another. -/
def keyword? : Reading (Option Keyword) :=
  modifyGet fun cursor =>
    let found := Keyword.all.findSome? fun keyword =>
      (cursor.skipWord? followsKeyword keyword.word).map fun later => (keyword, later)
    match found with
    | some (keyword, later) => (some keyword, later)
    | none => (none, cursor)

def startsArrow : List Char → Bool
  | '-' :: '-' :: _ | '-' :: '>' :: _ | '-' :: 'x' :: _ => true
  | _ => false

def endsActor (text : List Char) : Bool :=
  match text with
  | ',' :: _ | ':' :: _ | '+' :: _ | '>' :: _ => true
  | _ => endsStatement text || startsArrow text

/-- The name of an actor, which may hold blanks and single hyphens. -/
def actor (missing : Complaint) : Reading String := do
  let name ← textUntil endsActor
  if (trim name).isEmpty then throw missing else return trimmed name

def arrow? : Reading (Option MessageKind) :=
  modifyGet fun cursor =>
    match MessageKind.all.find? fun kind => kind.arrow.toList.isPrefixOf cursor.rest with
    | some kind => (some kind, cursor.skip kind.arrow.length)
    | none => (none, cursor)

def placement : Reading NotePlacement := do
  if ← eatSide "left" then
    return .leftOf
  if ← eatSide "right" then
    return .rightOf
  if ← eatWord "over" then
    return .across
  throw .missingPlacement

/-- The text after `as`, if blanks, that word and more blanks come next. -/
def aliasAfter? (text : List Char) : Option (List Char) :=
  match text.head?.map isBlank, dropBlanks text with
  | some true, first :: second :: third :: rest =>
      if first.toLower = 'a' ∧ (second.toLower = 's' ∨ second = 'ſ') ∧ isBlank third then
        some (dropBlanks rest)
      else none
  | _, _ => none

/-- Splits a declaration at the first place after its first character where an alias follows. -/
def splitAlias : List Char → List Char × Option (List Char)
  | [] => ([], none)
  | char :: rest =>
      match aliasAfter? rest with
      | some label => ([char], some label)
      | none =>
          let (id, label) := splitAlias rest
          (char :: id, label)

def declaration (role : ActorRole) : Reading Statement := do
  skipIndent
  let (id, label) := splitAlias (trim (← textToEnd))
  if id.isEmpty then
    throw .missingParticipant
  else
    return .declare role (String.ofList id) (label.map trimmed)

def title : Reading Statement := do
  skipIndent
  let _ ← eat ':'
  return .title (trimmed (← textToEnd))

def accTitle : Reading Statement := do
  skipIndent
  if ← eat ':' then
    return .accTitle (trimmed (← textToEnd))
  throw .missingAccTitleColon

def bracedText? : Reading (Option (List Char)) :=
  modifyGet fun cursor =>
    match cutAt? ['\x7d'] cursor.rest with
    | some (text, _) => (some text, cursor.skip (text.length + 1))
    | none => (none, cursor)

/-- Joins lines without their indentation; empty lines vanish. -/
def dropIndentation : List Char → List Char
  | [] => []
  | char :: rest =>
      if char = '\n' then '\n' :: dropIndentation (dropBlanks rest)
      else char :: dropIndentation rest
termination_by text => text.length
decreasing_by
  · have := (List.dropWhile_sublist isBlank (l := rest)).length_le
    simp only [dropBlanks, List.length_cons]
    omega
  · simp

def accDescription : Reading Statement := do
  skipIndent
  if ← eat ':' then
    return .accDescription (trimmed (← textToEnd))
  if ← eat '\x7b' then
    match ← bracedText? with
    | some text => return .accDescription (String.ofList (dropIndentation (trim text)))
    | none => throw .unterminatedAccDescription
  throw .missingAccDescription

def actorToEnd : Reading String := do
  skipIndent
  let name ← textToEnd
  if (trim name).isEmpty then throw .missingActor else return trimmed name

def label : Reading String := do
  return String.ofList (← textToEnd)

def noteText (placement : NotePlacement) (first : String) (second : Option String) :
    Reading Statement := do
  if ← eat ':' then
    return .note placement first second (← label)
  throw .missingNoteColon

def note : Reading Statement := do
  skipIndent
  let placement ← placement
  skipIndent
  let first ← actor .missingNoteActor
  skipIndent
  if ← eat ',' then
    skipIndent
    let second ← actor .missingSecondNoteActor
    skipIndent
    noteText placement first (some second)
  else
    noteText placement first none

def operands : Keyword → Reading Statement
  | .declare role => declaration role
  | .autonumber => return .autonumber
  | .title => title
  | .accTitle => accTitle
  | .accDescription => accDescription
  | .activate => return .activate (← actorToEnd)
  | .deactivate => return .deactivate (← actorToEnd)
  | .note => note
  | .opening kind => return .opening kind (← label)
  | .divider kind => return .divider kind (← label)
  | .closing => return .closing

/-- The sign after an arrow that starts or ends an activation. -/
def edge? : Reading (Option ActivationEdge) := do
  if ← eat '+' then
    return some .start
  if ← eat '-' then
    return some .stop
  return none

def messageText : Reading String := do
  if ← eat ':' then
    label
  else
    return ""

/-- The part of a message after its source. -/
def messageFrom (source : String) (unrecognized : Complaint) : Reading Statement := do
  skipIndent
  match ← arrow? with
  | none => throw unrecognized
  | some kind =>
      skipIndent
      let edge ← edge?
      skipIndent
      let target ← actor .missingTarget
      skipIndent
      return .message source target kind edge (← messageText)

def message : Reading Statement := do
  let start ← get
  let source ← actor (.unrecognized start.excerpt)
  messageFrom source (.unrecognized start.excerpt)

def statement : Reading Statement := do
  match ← keyword? with
  | some keyword => operands keyword
  | none => message

end Reading

end SequenceChart
