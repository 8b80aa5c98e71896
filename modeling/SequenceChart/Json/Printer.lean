import SequenceChart.Decimal.Shortest
import SequenceChart.Json.Basic

/-!
# Writing JSON

Writing JSON texts. Real numbers are written with the shortest decimal that reads back.
-/

namespace SequenceChart

namespace Json

def hexDigits (count number : Nat) : List Char :=
  let digits := Nat.toDigits 16 number
  List.replicate (count - digits.length) '0' ++ digits

def renderChar (char : Char) : List Char :=
  if char = '"' then ['\\', '"']
  else if char = '\\' then ['\\', '\\']
  else if char.toNat < 0x20 then '\\' :: 'u' :: hexDigits 4 char.toNat
  else [char]

def renderString (value : String) : String :=
  "\"" ++ String.ofList (value.toList.flatMap renderChar) ++ "\""

def renderNumber : Number → String
  | .whole value => toString value
  | .real value => renderFloat value

mutual

def render : Json → String
  | null => "null"
  | bool true => "true"
  | bool false => "false"
  | number value => renderNumber value
  | string value => renderString value
  | array elements => "[" ++ ",".intercalate (renderElements elements) ++ "]"
  | object entries => "\x7b" ++ ",".intercalate (renderEntries entries) ++ "\x7d"

def renderElements : List Json → List String
  | [] => []
  | element :: rest => element.render :: renderElements rest

def renderEntries : List (String × Json) → List String
  | [] => []
  | (key, value) :: rest => (renderString key ++ ":" ++ value.render) :: renderEntries rest

end

end Json

end SequenceChart
