import SequenceChart.Json.Basic

/-!
# Reading JSON

Reading JSON texts. A text is cut into tokens, and the tokens drive a machine whose stack holds
the arrays and objects that are still open. At most `Json.deepest` of them are open at a time, and
each number and string has a value. A loose reading, for values of which only parts are looked at,
does without these conditions.
-/

namespace SequenceChart

namespace Json

inductive Token
  | openArray
  | closeArray
  | openObject
  | closeObject
  | comma
  | colon
  | null
  | bool (value : Bool)
  /-- A number, which has no value if it is too large. -/
  | number (value : Option Number)
  /-- A string, which has no value if it holds one half of a surrogate pair. -/
  | string (value : Option String)

def hexValue? (char : Char) : Option Nat :=
  if '0' ≤ char ∧ char ≤ '9' then some (char.toNat - '0'.toNat)
  else if 'a' ≤ char ∧ char ≤ 'f' then some (char.toNat - 'a'.toNat + 10)
  else if 'A' ≤ char ∧ char ≤ 'F' then some (char.toNat - 'A'.toNat + 10)
  else none

def hexNumber? (digits : List Char) : Option Nat :=
  digits.foldlM (fun value digit => (16 * value + ·) <$> hexValue? digit) 0

def escapedChar? : Char → Option Char
  | '"' => some '"'
  | '\\' => some '\\'
  | '/' => some '/'
  | 'b' => some '\x08'
  | 'f' => some '\x0c'
  | 'n' => some '\n'
  | 'r' => some '\r'
  | 't' => some '\t'
  | _ => none

/-- A part of a string: a character, or a UTF-16 unit given by its number. -/
inductive StringPart
  | char (value : Char)
  | unit (value : Nat)

/-- Puts `part`, if it could be read, in front of the parts that follow it. -/
def consPart (part : Option StringPart) (parts : Option (List StringPart × List Char)) :
    Option (List StringPart × List Char) :=
  match part, parts with
  | some part, some (parts, rest) => some (part :: parts, rest)
  | _, _ => none

def plainChar? (char : Char) : Option Char :=
  if char.toNat < 0x20 ∨ char = '\\' then none else some char

/-- The parts of a string after its opening quote, and the text after its closing one. -/
def readString? : List Char → Option (List StringPart × List Char)
  | [] => none
  | '"' :: rest => some ([], rest)
  | '\\' :: 'u' :: a :: b :: c :: d :: rest =>
      consPart ((hexNumber? [a, b, c, d]).map .unit) (readString? rest)
  | '\\' :: char :: rest => consPart ((escapedChar? char).map .char) (readString? rest)
  | char :: rest => consPart ((plainChar? char).map .char) (readString? rest)

theorem consPart_eq_some {part : Option StringPart} {parts : Option (List StringPart × List Char)}
    {all : List StringPart} {rest : List Char} (hcons : consPart part parts = some (all, rest)) :
    ∃ later, parts = some (later, rest) := by
  unfold consPart at hcons
  split at hcons
  · simp only [Option.some.injEq, Prod.mk.injEq] at hcons
    exact ⟨_, by rw [← hcons.2]⟩
  · simp at hcons

theorem readString?_length_lt {text rest : List Char} {parts : List StringPart}
    (hread : readString? text = some (parts, rest)) : rest.length < text.length := by
  fun_induction readString? text generalizing parts rest with
  | case1 => simp at hread
  | case2 => simp_all
  | case3 a b c d tail ih =>
      obtain ⟨_, htail⟩ := consPart_eq_some hread
      have := ih htail
      simp only [List.length_cons]
      omega
  | case4 char tail _ ih =>
      obtain ⟨_, htail⟩ := consPart_eq_some hread
      have := ih htail
      simp only [List.length_cons]
      omega
  | case5 char tail _ _ _ ih =>
      obtain ⟨_, htail⟩ := consPart_eq_some hread
      have := ih htail
      simp only [List.length_cons]
      omega

def isHighSurrogate (unit : Nat) : Bool :=
  0xD800 ≤ unit && unit < 0xDC00

def isLowSurrogate (unit : Nat) : Bool :=
  0xDC00 ≤ unit && unit < 0xE000

/-- The characters of a string. A surrogate unit must be one half of a pair. -/
def joinParts? : List StringPart → Option (List Char)
  | [] => some []
  | .char char :: rest => (joinParts? rest).map (char :: ·)
  | .unit high :: .unit low :: rest =>
      if isHighSurrogate high && isLowSurrogate low then
        (joinParts? rest).map
          (Char.ofNat (0x10000 + 0x400 * (high - 0xD800) + (low - 0xDC00)) :: ·)
      else if isHighSurrogate high || isLowSurrogate high then none
      else (joinParts? (.unit low :: rest)).map (Char.ofNat high :: ·)
  | .unit unit :: rest =>
      if isHighSurrogate unit || isLowSurrogate unit then none
      else (joinParts? rest).map (Char.ofNat unit :: ·)

def Token.readString? (text : List Char) : Option (Token × List Char) :=
  (Json.readString? text).map fun (parts, rest) =>
    (string ((joinParts? parts).map String.ofList), rest)

def Token.readNumber? (text : List Char) : Option (Token × List Char) :=
  (Numeral.read? text).map fun (numeral, rest) => (number numeral.toNumber?, rest)

/-- Reads one token at the start of a text that does not start with a space. -/
def Token.read? (text : List Char) : Option (Token × List Char) :=
  match text with
  | '[' :: rest => some (openArray, rest)
  | ']' :: rest => some (closeArray, rest)
  | '\x7b' :: rest => some (openObject, rest)
  | '\x7d' :: rest => some (closeObject, rest)
  | ',' :: rest => some (comma, rest)
  | ':' :: rest => some (colon, rest)
  | 'n' :: 'u' :: 'l' :: 'l' :: rest => some (null, rest)
  | 't' :: 'r' :: 'u' :: 'e' :: rest => some (bool true, rest)
  | 'f' :: 'a' :: 'l' :: 's' :: 'e' :: rest => some (bool false, rest)
  | '"' :: rest => readString? rest
  | _ => readNumber? text

theorem Token.read?_length_lt {text rest : List Char} {token : Token}
    (hread : Token.read? text = some (token, rest)) : rest.length < text.length := by
  unfold Token.read? at hread
  split at hread
  case h_10 tail =>
    obtain ⟨⟨parts, left⟩, hparts, heq⟩ := Option.map_eq_some_iff.mp hread
    simp only [Prod.mk.injEq] at heq
    have := readString?_length_lt hparts
    rw [← heq.2, List.length_cons]
    omega
  case h_11 =>
    obtain ⟨⟨numeral, left⟩, hnumeral, heq⟩ := Option.map_eq_some_iff.mp hread
    simp only [Prod.mk.injEq] at heq
    rw [← heq.2]
    exact Numeral.read?_length_lt hnumeral
  all_goals
    simp only [Option.some.injEq, Prod.mk.injEq] at hread
    simp only [← hread.2, List.length_cons]
    omega

def isSpace (char : Char) : Bool :=
  char == ' ' || char == '\n' || char == '\t' || char == '\r'

/-- The tokens of a text, in order. -/
def tokens? (text : List Char) : Option (List Token) :=
  match _htext : text.dropWhile isSpace with
  | [] => some []
  | char :: tail =>
      match _hread : Token.read? (char :: tail) with
      | none => none
      | some (token, rest) => (tokens? rest).map (token :: ·)
termination_by text.length
decreasing_by
  have hlt := Token.read?_length_lt _hread
  have hle := (List.dropWhile_sublist isSpace (l := text)).length_le
  rw [_htext] at hle
  omega

/-- A container that is still open, with its finished parts, the last one first. -/
inductive Frame
  | array (done : List Json)
  | object (done : List (String × Json)) (key : String)

/-- What may come next. -/
inductive Expected
  | value
  | firstElement
  | firstKey (done : List (String × Json))
  | key (done : List (String × Json))
  | colon (done : List (String × Json)) (key : String)
  | separator (finished : Json)

structure Machine where
  frames : List Frame
  expected : Expected

/-- The most containers that may be open at a time. -/
def deepest : Nat := 127

/-- How strictly a text is read. -/
inductive Rigor
  | strict
  | loose
  deriving DecidableEq, Repr

namespace Machine

def finish (frames : List Frame) (value : Json) : Option Machine :=
  some { frames, expected := .separator value }

/-- Finishes a number or a string. A loose reading puts null for one that has no value. -/
def finishScalar (rigor : Rigor) (frames : List Frame) (value : Option Json) : Option Machine :=
  match rigor, value with
  | _, some value => finish frames value
  | .strict, none => none
  | .loose, none => finish frames .null

def openFrame (rigor : Rigor) (frames : List Frame) (expected : Expected) : Option Machine :=
  if rigor = .loose ∨ frames.length < deepest then some { frames, expected } else none

def startValue (rigor : Rigor) (frames : List Frame) : Token → Option Machine
  | .null => finish frames .null
  | .bool value => finish frames (.bool value)
  | .number value => finishScalar rigor frames (value.map .number)
  | .string value => finishScalar rigor frames (value.map .string)
  | .openArray => openFrame rigor frames .firstElement
  | .openObject => openFrame rigor frames (.firstKey [])
  | _ => none

/-- Goes on behind a key. In a loose reading the keys of inner objects need no value. -/
def readKey (rigor : Rigor) (frames : List Frame) (done : List (String × Json))
    (key : Option String) : Option Machine :=
  match key with
  | some key => some { frames, expected := .colon done key }
  | none =>
      if rigor = .loose ∧ !frames.isEmpty then some { frames, expected := .colon done "" } else none

/-- Reads one token. While a first element, a key or a colon is expected, the container it belongs
to is not on the stack yet. -/
def step (rigor : Rigor) (machine : Machine) (token : Token) : Option Machine :=
  match machine.expected, token, machine.frames with
  | .firstElement, .closeArray, frames => finish frames (.array [])
  | .firstElement, token, frames => startValue rigor (.array [] :: frames) token
  | .value, token, frames => startValue rigor frames token
  | .firstKey _, .closeObject, frames => finish frames (.object [])
  | .firstKey done, .string key, frames => readKey rigor frames done key
  | .key done, .string key, frames => readKey rigor frames done key
  | .colon done key, .colon, frames =>
      some { frames := .object done key :: frames, expected := .value }
  | .separator value, .comma, .array done :: frames =>
      some { frames := .array (value :: done) :: frames, expected := .value }
  | .separator value, .comma, .object done key :: frames =>
      some { frames, expected := .key ((key, value) :: done) }
  | .separator value, .closeArray, .array done :: frames =>
      finish frames (.array (value :: done).reverse)
  | .separator value, .closeObject, .object done key :: frames =>
      finish frames (.object ((key, value) :: done).reverse)
  | _, _, _ => none

end Machine

/-- Reads a whole text as one value. Keys that are given several times stay in the value. -/
def read? (rigor : Rigor) (text : List Char) : Option Json := do
  let tokens ← tokens? text
  let machine ← tokens.foldlM (Machine.step rigor) { frames := [], expected := .value }
  match machine.frames, machine.expected with
  | [], .separator value => some value
  | _, _ => none

def parse? (text : List Char) : Option Json :=
  read? .strict text

end Json

end SequenceChart
