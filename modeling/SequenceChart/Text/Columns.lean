import SequenceChart.Text.Columns.Table

/-!
# Columns

The number of columns that a text takes in a fixed grid. What a character adds depends on what
follows it: emoji that are joined, styled or coloured take two columns together, flag letters one
each, the ligatures of some scripts as many as one letter, and a quotation mark takes two columns
where its wide form is asked for. The text is therefore read from its end.
-/

namespace SequenceChart

namespace Columns

/-- What stands to the right of a place, as far as it matters to the character before it. -/
inductive Following
  | ordinary
  | lineFeed
  | skinTone
  | flagLetter
  | flagLetters
  | emoji
  /-- A joiner with an emoji after it. -/
  | joinedEmoji
  | joinedKeycap
  | joinedFlagLetter
  | joinedFlag
  | joinedFlagAndLetter
  | joinedTagEnd
  | joinedTagDigits (count : Nat)
  | joinedTagLetters (count : Nat)
  | kiratVowelE
  | kiratVowelAi
  | alef
  | lamed (joined : Bool)
  | ya (joined : Bool)
  | vowelAndYa
  | tifinagh (joined : Bool)
  | tifinaghJoiner
  | toneLetter
  | orkhonI (joined : Bool)
  | khmerLetter
  deriving DecidableEq, Repr

/-- The style that is asked for to the right of a place. -/
inductive Style
  | unset
  | emoji
  | text
  /-- The form of a quotation mark that fills two columns. -/
  | wide
  deriving DecidableEq, Repr

structure Context where
  following : Following
  style : Style
  deriving DecidableEq, Repr

def Context.ordinary : Context :=
  { following := .ordinary, style := .unset }

def Context.after (following : Following) : Context :=
  { following, style := .unset }

/-- The start of a ligature, which some marks may interrupt. -/
def Following.isLigature : Following → Bool
  | lamed _ | ya _ | vowelAndYa | tifinagh _ | tifinaghJoiner | toneLetter | orkhonI _ |
    khmerLetter => true
  | _ => false

/-- A following text that a style does not replace. -/
def Following.keepsStyle : Following → Bool
  | alef => true
  | following => following.isLigature

def Following.isJoined : Following → Bool
  | joinedEmoji | joinedKeycap => true
  | _ => false

def Following.join : Following → Following
  | lamed _ => lamed true
  | ya _ => ya true
  | tifinagh _ => tifinagh true
  | orkhonI _ => orkhonI true
  | following => following

def Context.askEmoji (context : Context) : Context :=
  if context.following.keepsStyle ||
      (context.following.isJoined && context.style != .emoji) then
    { context with style := .emoji }
  else { following := .ordinary, style := .emoji }

def Context.askText (context : Context) : Context :=
  if context.following.keepsStyle then { context with style := .text }
  else { following := .ordinary, style := .text }

def Context.askWide (context : Context) : Context :=
  if context.following.keepsStyle then { context with style := .wide }
  else { following := .ordinary, style := .wide }

def Context.dropStyle (context : Context) : Context :=
  if context.following.keepsStyle then { context with style := .unset } else .ordinary

def inRange (low high : Nat) (char : Char) : Bool :=
  low ≤ char.toNat && char.toNat ≤ high

def isFlagLetter : Char → Bool := inRange 0x1F1E6 0x1F1FF

def isSkinTone : Char → Bool := inRange 0x1F3FB 0x1F3FF

def isTagDigit : Char → Bool := inRange 0xE0030 0xE0039

def isTagLetter : Char → Bool := inRange 0xE0061 0xE007A

def isAlef (char : Char) : Bool :=
  inRanges [(0x622, 0x623), (0x625, 0x625), (0x627, 0x627), (0x671, 0x673), (0x675, 0x675),
    (0x773, 0x774), (0x870, 0x882)] char

def isLam (char : Char) : Bool :=
  inRanges [(0x644, 0x644), (0x6B5, 0x6B8), (0x76A, 0x76A), (0x8A6, 0x8A6), (0x8C7, 0x8C7)] char

/-- Letters that can follow a Khmer coeng sign. -/
def isKhmerLetter (char : Char) : Bool :=
  inRanges [(0x1780, 0x1782), (0x1784, 0x1787), (0x1789, 0x178C), (0x178E, 0x1793),
    (0x1795, 0x1798), (0x179B, 0x179D), (0x17A0, 0x17A0), (0x17A2, 0x17A2), (0x17A7, 0x17A7),
    (0x17AB, 0x17AC), (0x17AF, 0x17AF)] char

def isTifinagh (char : Char) : Bool :=
  inRange 0x2D31 0x2D65 char || char.toNat == 0x2D6F

/-- Quotation marks that have a form of two columns. -/
def isQuotationMark : Char → Bool
  | '\u2018' | '\u2019' | '\u201C' | '\u201D' => true
  | _ => false

def isTransparent (char : Char) : Bool :=
  inRanges zeroColumns char && !inRanges joiningStops char

/-- The columns of a character alone. -/
def ofChar (char : Char) : Nat :=
  if char.toNat ≤ 0xA0 then 1
  else if char.toNat == 0x17D8 then 3
  else if char.toNat == 0x115F || char.toNat == 0x17A4 then 2
  else if inRanges zeroColumns char then 0
  else if inRanges twoColumns char then 2
  else 1

/-- What a character means to the one before it. -/
def contextOf (char : Char) : Context :=
  if char = '\n' then .after .lineFeed
  else if char.toNat ≤ 0xA0 then .ordinary
  else if char.toNat == 0xFE0E then { following := .ordinary, style := .text }
  else if char.toNat == 0xFE0F then { following := .ordinary, style := .emoji }
  else if char.toNat == 0xFE01 then { following := .ordinary, style := .wide }
  else if isFlagLetter char then .after .flagLetter
  else if isSkinTone char then .after .skinTone
  else if inRanges emojiByDefault char then .after .emoji
  else if isAlef char then .after .alef
  else if char.toNat == 0x5DC then .after (.lamed false)
  else if char.toNat == 0x1A10 then .after (.ya false)
  else if isTifinagh char then .after (.tifinagh false)
  else if inRange 0xA4FC 0xA4FD char then .after .toneLetter
  else if char.toNat == 0x10C03 then .after (.orkhonI false)
  else if isKhmerLetter char then .after .khmerLetter
  else if char.toNat == 0x16D67 then .after .kiratVowelE
  else if char.toNat == 0x16D68 then .after .kiratVowelAi
  else .ordinary

/-- What a character adds where it forms a unit with the text that follows it. -/
def unit? (char : Char) : Following → Option (Int × Following)
  | .alef =>
      if isLam char then some (0, .ordinary)
      else if isTransparent char then some (0, .alef)
      else none
  | .lamed true => if char.toNat == 0x5D0 then some (0, .ordinary) else none
  | .khmerLetter => if char.toNat == 0x17D2 then some (-1, .ordinary) else none
  | .ya true => if char.toNat == 0x1A17 then some (0, .vowelAndYa) else none
  | .vowelAndYa => if char.toNat == 0x1A15 then some (0, .ordinary) else none
  | .tifinagh joined =>
      if char.toNat == 0x2D7F then some (1, .tifinaghJoiner)
      else if joined && isTifinagh char then some (0, .ordinary)
      else none
  | .tifinaghJoiner => if isTifinagh char then some (-1, .ordinary) else none
  | .toneLetter => if inRange 0xA4F8 0xA4FB char then some (0, .ordinary) else none
  | .orkhonI true => if char.toNat == 0x10C32 then some (0, .ordinary) else none
  | .skinTone =>
      if inRanges skinToneBases char then some (0, .emoji)
      else if char.toNat == 0x200D then some (0, .joinedEmoji)
      else none
  | .flagLetter => if isFlagLetter char then some (1, .flagLetters) else none
  | .flagLetters =>
      if isFlagLetter char then some (1, .flagLetters)
      else if char.toNat == 0x200D then some (0, .joinedEmoji)
      else none
  | .emoji => if char.toNat == 0x200D then some (0, .joinedEmoji) else none
  | .joinedEmoji =>
      if char.toNat == 0x20E3 then some (0, .joinedKeycap)
      else if isFlagLetter char then some (1, .joinedFlagLetter)
      else if isSkinTone char then some (0, .skinTone)
      else if char.toNat == 0xE007F then some (0, .joinedTagEnd)
      else if inRanges emojiByDefault char then some (0, .emoji)
      else none
  | .joinedFlagLetter => if isFlagLetter char then some (-1, .joinedFlag) else none
  | .joinedFlag =>
      if isFlagLetter char then some (3, .joinedFlagAndLetter)
      else if char.toNat == 0x200D then some (0, .joinedEmoji)
      else none
  | .joinedFlagAndLetter =>
      if isFlagLetter char then some (-1, .joinedFlag)
      else if char.toNat == 0x200D then some (0, .joinedEmoji)
      else none
  | .joinedTagEnd =>
      if isTagLetter char then some (0, .joinedTagLetters 1)
      else if isTagDigit char then some (0, .joinedTagDigits 1)
      else none
  | .joinedTagLetters count =>
      if isTagLetter char && count < 6 then some (0, .joinedTagLetters (count + 1))
      else if isTagDigit char && count < 5 then some (0, .joinedTagDigits 1)
      else if char.toNat == 0x1F3F4 && 3 ≤ count then some (0, .emoji)
      else none
  | .joinedTagDigits count =>
      if isTagDigit char && count < 3 then some (0, .joinedTagDigits (count + 1))
      else if char.toNat == 0x1F3F4 && count == 3 then some (0, .emoji)
      else none
  | .kiratVowelE =>
      if char.toNat == 0x16D63 || char.toNat == 0x16D69 then some (0, .ordinary)
      else if char.toNat == 0x16D67 then some (0, .kiratVowelAi)
      else if char.toNat == 0x16D68 then some (1, .kiratVowelE)
      else none
  | .kiratVowelAi => if char.toNat == 0x16D63 then some (0, .ordinary) else none
  | _ => none

/-- What a character beyond the Latin-1 controls adds before a context without a style. -/
def addUnstyled (char : Char) (context : Context) : Int × Context :=
  if context.following.isLigature && char.toNat == 0x200D then
    (0, .after context.following.join)
  else if context.following.isLigature && inRanges ligatureTransparent char then (0, context)
  else
    match unit? char context.following with
    | some (columns, following) => (columns, .after following)
    | none => (ofChar char, contextOf char)

/-- What a character adds before a context in which no emoji style is asked for. -/
def addWithoutEmoji (char : Char) (context : Context) : Int × Context :=
  if char = '\r' && context = .after .lineFeed then (0, .ordinary)
  else if char.toNat ≤ 0xA0 then (1, contextOf char)
  else if char.toNat == 0xFE0F then (0, context.askEmoji)
  else if char.toNat == 0xFE0E then (0, context.askText)
  else if char.toNat == 0xFE01 then (0, context.askWide)
  else if context.style = .text && inRanges textStyled char then (1, .ordinary)
  else if context.style = .wide && isQuotationMark char then (2, .ordinary)
  else addUnstyled char { context with style := .unset }

/-- The columns that a character adds before a context, and the context it makes. -/
def add (char : Char) (context : Context) : Int × Context :=
  if context.style = .emoji then
    if inRanges emojiStyled char then
      (if context.following.isJoined then 0 else 2, .after .emoji)
    else addWithoutEmoji char context.dropStyle
  else addWithoutEmoji char context

end Columns

/-- The columns that a text takes. -/
def columns (text : List Char) : Nat :=
  let (total, _) := text.foldr
    (fun char (total, context) =>
      let (added, context) := Columns.add char context
      (total + added, context))
    ((0 : Int), Columns.Context.ordinary)
  total.toNat

end SequenceChart
