import SequenceChart.Json.Reader
import SequenceChart.Yaml.Place

/-!
# Tokens

The tokens of YAML. Those that start and end block collections and those that start keys are not
written in the text; they follow from indents and colons. This module reads the tokens that name
something: directives, anchors, aliases and tags.
-/

namespace SequenceChart.Yaml

/-- The text of a tag. It can be given by octets, and those that form no character are none here. -/
abbrev TagText := List (Option Char)

def TagText.ofString (text : String) : TagText :=
  text.toList.map some

/-- A tag ends before a null character. -/
def TagText.beforeNull (text : TagText) : TagText :=
  text.takeWhile (· != some '\x00')

inductive Token
  | version (major minor : Nat)
  /-- Tags that start with `name` are short for tags that start with `stem`. -/
  | handle (name : String) (stem : TagText)
  | documentStart
  | documentEnd
  | blockSequence
  | blockMapping
  | blockEnd
  | flowSequence
  | flowSequenceEnd
  | flowMapping
  | flowMappingEnd
  /-- The hyphen in front of an item of a block sequence. -/
  | item
  | comma
  | key
  | value
  /-- An alias, which stands for the node that has the name as its anchor. -/
  | reference (name : String)
  | anchor (name : String)
  | tag (handle : String) (suffix : TagText)
  | scalar (text : String) (plain : Bool)
  deriving DecidableEq, Repr

namespace Token

def isNameChar (char : Char) : Bool :=
  char.isAlphanum || char == '_' || char == '-'

def endsName : List Char → Bool
  | [] => true
  | char :: _ => isGap char || "?:,]\x7d%@`".toList.contains char

def name : Scan String := do
  let name ← Scan.takeWhile isNameChar
  guard !name.isEmpty
  Scan.expect endsName
  return String.ofList name

def isUriChar (char : Char) : Bool :=
  isNameChar char || ";/?:@&=+$.!~*\x27()".toList.contains char

/-- Where a tag has an end of its own, these characters may stand in it, too. -/
def isFullUriChar (char : Char) : Bool :=
  isUriChar char || ",[]".toList.contains char

/-- How many octets follow the first octet of a character in UTF-8, and what the first one adds. -/
def leadingOctet? (octet : Nat) : Option (Nat × Nat) :=
  if octet < 0x80 then some (0, octet)
  else if octet < 0xC0 then none
  else if octet < 0xE0 then some (1, octet - 0xC0)
  else if octet < 0xF0 then some (2, octet - 0xE0)
  else if octet < 0xF8 then some (3, octet - 0xF0)
  else none

def octet : Scan Nat := do
  guard (← Scan.eat '%')
  let digits := (← get).rest.take 2
  guard (digits.length == 2)
  Scan.skip 2
  (Json.hexNumber? digits : Option Nat)

def laterOctets (code : Nat) : Nat → Scan Nat
  | 0 => return code
  | count + 1 => do
      let octet ← octet
      guard (0x80 ≤ octet && octet < 0xC0)
      laterOctets (0x40 * code + (octet - 0x80)) count

/-- The character with a code that was given by `count` octets behind the first one. There is none
if fewer octets would do. -/
def charOfOctets? (count code : Nat) : Option Char :=
  if code.isValidChar && (Char.ofNat code).utf8Size == count + 1 then some (Char.ofNat code)
  else none

def octets : Scan (Option Char) := do
  let (count, start) ← (leadingOctet? (← octet) : Option (Nat × Nat))
  return charOfOctets? count (← laterOctets start count)

/-- A part of a tag, in at most `length` steps. -/
def uri (isPlain : Char → Bool) : (length : Nat) → Scan TagText
  | 0 => return []
  | length + 1 => do
      let chars ← Scan.takeWhile isPlain
      if ← Scan.starts '%' then
        let char ← octets
        return chars.map some ++ char :: (← uri isPlain length)
      else return chars.map some

def uriText (isPlain : Char → Bool) : Scan TagText := do
  uri isPlain (← get).rest.length

def nonemptyUri (isPlain : Char → Bool) : Scan TagText := do
  let text ← uriText isPlain
  guard !text.isEmpty
  return text.beforeNull

/-- An exclamation mark with a name behind it, and whether another one ends it. -/
def handleText : Scan (List Char × Bool) := do
  guard (← Scan.eat '!')
  let name ← Scan.takeWhile isNameChar
  let closed ← Scan.eat '!'
  return (name, closed)

def shorthand : Scan Token := do
  let (name, closed) ← handleText
  if closed then
    return tag (String.ofList ('!' :: name ++ ['!'])) (← nonemptyUri isUriChar)
  else
    let suffix := TagText.beforeNull (name.map some ++ (← uriText isUriChar))
    if suffix.isEmpty then return tag "" (.ofString "!") else return tag "!" suffix

def endsTag (inFlow : Bool) (rest : List Char) : Bool :=
  endsWord rest || (inFlow && rest.head? == some ',')

/-- Reads a tag, which is written in full between angle brackets or else with a handle. -/
def scanTag (inFlow : Bool) : Scan Token := do
  let token ←
    if "!<".toList.isPrefixOf (← get).rest then
      Scan.skip 2
      let suffix ← nonemptyUri isFullUriChar
      guard (← Scan.eat '>')
      pure (tag "" suffix)
    else shorthand
  Scan.expect (endsTag inFlow)
  return token

/-- The most digits that a part of a version has. -/
def longestVersion : Nat := 9

def versionPart : Scan Nat := do
  let digits ← Scan.takeWhile Char.isDigit
  guard (0 < digits.length && digits.length ≤ longestVersion)
  return naturalOfDigits digits

def versionDirective : Scan Token := do
  Scan.skipWhile isSpace
  let major ← versionPart
  guard (← Scan.eat '.')
  return version major (← versionPart)

def startsSpace (rest : List Char) : Bool :=
  rest.head?.any isSpace

def handleDirective : Scan Token := do
  Scan.skipWhile isSpace
  let (name, closed) ← handleText
  guard (closed || name.isEmpty)
  Scan.expect startsSpace
  Scan.skipWhile isSpace
  let stem ← nonemptyUri isFullUriChar
  Scan.expect endsWord
  return handle (String.ofList ('!' :: name ++ if closed then ['!'] else [])) stem

/-- Reads a directive from behind its percent sign to the end of its line. -/
def scanDirective : Scan Token := do
  let name ← Scan.takeWhile isNameChar
  Scan.expect endsWord
  let token ←
    match String.ofList name with
    | "YAML" => versionDirective
    | "TAG" => handleDirective
    | _ => failure
  Scan.skipComment
  Scan.expect endsLine
  Scan.skip 1
  return token

end Token

end SequenceChart.Yaml
