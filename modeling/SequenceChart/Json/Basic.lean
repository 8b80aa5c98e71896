import SequenceChart.Json.Number

/-!
# JSON values

JSON values. An object keeps its entries in order; a text may give one key several times, and
`Json.unify` then keeps the first position and the last value, at every depth.
-/

namespace SequenceChart

inductive Json
  | null
  | bool (value : Bool)
  | number (value : Number)
  | string (value : String)
  | array (elements : List Json)
  | object (entries : List (String × Json))
  deriving Inhabited

abbrev Entries := List (String × Json)

namespace Entries

def find? (entries : Entries) (key : String) : Option Json :=
  entries.lookup key

/-- Replaces the value of `key` where it stands, or adds an entry at the end. -/
def insert : Entries → String → Json → Entries
  | [], key, value => [(key, value)]
  | (other, old) :: rest, key, value =>
      if other = key then (key, value) :: rest else (other, old) :: insert rest key value

/-- Removes the entry of `key`; the last entry takes its place. -/
def swapRemove : Entries → String → Entries
  | [], _ => []
  | (other, value) :: rest, key =>
      if other = key then
        match rest.getLast? with
        | none => []
        | some last => last :: rest.dropLast
      else (other, value) :: swapRemove rest key

def ofDuplicates (entries : Entries) : Entries :=
  entries.foldl (fun unique (key, value) => unique.insert key value) []

def keys (entries : Entries) : List String :=
  entries.map Prod.fst

end Entries

namespace Json

mutual

/-- The value with every key of every object given once. -/
def unify : Json → Json
  | array elements => array (unifyElements elements)
  | object entries => object (Entries.ofDuplicates (unifyEntries entries))
  | null => null
  | bool value => bool value
  | number value => number value
  | string value => string value

def unifyElements : List Json → List Json
  | [] => []
  | element :: rest => element.unify :: unifyElements rest

def unifyEntries : List (String × Json) → List (String × Json)
  | [] => []
  | (key, value) :: rest => (key, value.unify) :: unifyEntries rest

end

def bool? : Json → Option Bool
  | bool value => some value
  | _ => none

def string? : Json → Option String
  | string value => some value
  | _ => none

def float? : Json → Option Float
  | number value => some value.toFloat
  | _ => none

/-- A whole number below `limit`, written without fraction and exponent. -/
def natural? (limit : Nat) : Json → Option Nat
  | number (.whole value) => if 0 ≤ value ∧ value.toNat < limit then some value.toNat else none
  | _ => none

/-- A name that stands for itself: a string, or an object with that name as its only key and a
null value. -/
def name? : Json → Option String
  | string value => some value
  | object [(key, null)] => some key
  | _ => none

def ofNat (value : Nat) : Json :=
  number (.whole value)

/-- Numbers that are not finite have no JSON form and become null. -/
def ofFloat (value : Float) : Json :=
  if value.isFinite then number (.real value) else null

def ofOption (value : Option Json) : Json :=
  value.getD null

def ofString? (value : Option String) : Json :=
  ofOption (value.map string)

end Json

end SequenceChart
