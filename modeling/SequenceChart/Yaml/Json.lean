import SequenceChart.Yaml.Anchor
import SequenceChart.Yaml.Document
import SequenceChart.Yaml.Schema

/-!
# Documents as JSON

The JSON value of a YAML document. Aliases become copies of what they stand for. A node with a local
tag becomes an object whose only key is the tag.
-/

namespace SequenceChart.Yaml

/-- A local tag has one exclamation mark in front of its name, which may be another one. -/
def tagKey : List Char → List Char
  | ['!'] => ['!', '!']
  | '!' :: '!' :: char :: name => '!' :: char :: name
  | tag => tag

/-- The key that stands for a tag: none if the tag is not local or has no name in characters. -/
def localKey? (tag : TagText) : Option String :=
  if isLocalTag tag then (tag.mapM id).map fun chars => String.ofList (tagKey chars) else none

def addTag (tag : Option TagText) (value : Json) : Json :=
  match tag.bind localKey? with
  | some key => .object [(key, value)]
  | none => value

/-- The values that can be keys. -/
inductive Key
  | bool (value : Bool)
  | whole (value : Int)
  | real (value : Float)
  | string (value : String)
  deriving BEq

namespace Key

def ofJson? : Json → Option Key
  | .bool value => some (bool value)
  | .number (.whole value) => some (whole value)
  | .number (.real value) => some (real value)
  | .string value => some (string value)
  | _ => none

def text : Key → String
  | bool value => if value then "true" else "false"
  | whole value => toString value
  | real value => renderFloat value
  | string value => value

end Key

def hasRepeats : List Key → Bool
  | [] => false
  | key :: rest => rest.contains key || hasRepeats rest

/-- An object from keys and values. No key may be given twice. Where different keys have one text,
the last value counts. -/
def objectOf? (entries : List (Json × Json)) : Option Json := do
  let keys ← entries.mapM fun (key, _) => Key.ofJson? key
  guard !hasRepeats keys
  return .object (Entries.ofDuplicates ((keys.map Key.text).zip (entries.map Prod.snd)))

/-- A computation that may follow a limited number of aliases. -/
abbrev Expansion := StateT Nat Option

/-- The node that a node stands for. -/
def follow (root : Node Nat) : Node Nat → Expansion (Node Nat)
  | .reference number => do
      let left ← get
      guard (0 < left)
      set (left - 1)
      (root.target? number : Option (Node Nat))
  | node => return node

/-- The value of a scalar. -/
def scalarOf : Node Nat → Expansion Json
  | .scalar properties text plain => do
      let value ← (scalarValue? properties.tag text plain : Option Json)
      return addTag properties.tag value
  | _ => failure

/-- The value of a node, made of the values of the nodes inside it. -/
def valueOf (inner : Node Nat → Expansion Json) : Node Nat → Expansion Json
  | .sequence properties elements => do
      let elements ← elements.mapM inner
      return addTag properties.tag (.array elements)
  | .mapping properties entries => do
      let entries ← entries.mapM fun (key, value) => do
        return (← inner key, ← inner value)
      let value ← (objectOf? entries : Option Json)
      return addTag properties.tag value
  | node => scalarOf node

/-- The value of a node within `root` in which at most so many collections stand in each other. -/
def expand (root : Node Nat) : Nat → Node Nat → Expansion Json
  | 0, node => follow root node >>= scalarOf
  | depth + 1, node => follow root node >>= valueOf (expand root depth)

/-- How many aliases are followed, for each unit of the size of a document. -/
def aliasLimit : Nat := 100

/-- The value of the only document in a text. -/
def toJson? (text : List Char) : Option Json := do
  let root ← (← document? text).numbered?
  let (value, _) ← (expand root Node.deepest root).run (aliasLimit * root.size)
  return value

end SequenceChart.Yaml
