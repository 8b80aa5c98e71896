import SequenceChart.Yaml.Node

/-!
# Anchors

Names of anchors become numbers. An anchor has as its number how many names were known before it, so
that a name that is used again takes a new number. Where two anchors have one number, it stands for
the later one.
-/

namespace SequenceChart.Yaml

/-- The known names with the numbers of their last anchors. -/
abbrev AnchorNames := List (String × Nat)

/-- Gives a number to an anchor. -/
def AnchorNames.add (name : String) : StateT AnchorNames Option Nat :=
  modifyGet fun names => (names.length, (name, names.length) :: names.filter (·.1 ≠ name))

def AnchorNames.number (name : String) : StateT AnchorNames Option Nat := do
  (List.lookup name (← get) : Option Nat)

def Properties.number (properties : Properties String) :
    StateT AnchorNames Option (Properties Nat) := do
  return { properties with anchor := ← properties.anchor.mapM AnchorNames.add }

namespace Node

mutual

/-- The node with numbers for the names of its anchors, each known before an alias of it. -/
def number : Node String → StateT AnchorNames Option (Node Nat)
  | reference name => return reference (← AnchorNames.number name)
  | scalar properties text plain => return scalar (← properties.number) text plain
  | sequence properties elements => do
      let properties ← properties.number
      return sequence properties (← numberElements elements)
  | mapping properties entries => do
      let properties ← properties.number
      return mapping properties (← numberEntries entries)

def numberElements : List (Node String) → StateT AnchorNames Option (List (Node Nat))
  | [] => return []
  | element :: rest => do
      let element ← element.number
      return element :: (← numberElements rest)

def numberEntries :
    List (Node String × Node String) → StateT AnchorNames Option (List (Node Nat × Node Nat))
  | [] => return []
  | (key, value) :: rest => do
      let key ← key.number
      let value ← value.number
      return (key, value) :: (← numberEntries rest)

end

def numbered? (node : Node String) : Option (Node Nat) :=
  (node.number.run []).map Prod.fst

/-- The node itself, if it has an anchor. -/
def marked (properties : Properties Nat) (node : Node Nat) : List (Nat × Node Nat) :=
  (properties.anchor.map fun number => (number, node)).toList

mutual

/-- The nodes within a node that have anchors, in the order in which they start. -/
def anchored : Node Nat → List (Nat × Node Nat)
  | reference _ => []
  | scalar properties text plain => marked properties (scalar properties text plain)
  | sequence properties elements =>
      marked properties (sequence properties elements) ++ anchoredElements elements
  | mapping properties entries =>
      marked properties (mapping properties entries) ++ anchoredEntries entries

def anchoredElements : List (Node Nat) → List (Nat × Node Nat)
  | [] => []
  | element :: rest => element.anchored ++ anchoredElements rest

def anchoredEntries : List (Node Nat × Node Nat) → List (Nat × Node Nat)
  | [] => []
  | (key, value) :: rest => key.anchored ++ (value.anchored ++ anchoredEntries rest)

end

/-- What each number stands for within a node. -/
def target? (root : Node Nat) (number : Nat) : Option (Node Nat) :=
  root.anchored.reverse.lookup number

mutual

/-- How large a node is. The start and the end of a collection count separately. -/
def size : Node Nat → Nat
  | reference _ => 1
  | scalar _ _ _ => 1
  | sequence _ elements => 2 + elementsSize elements
  | mapping _ entries => 2 + entriesSize entries

def elementsSize : List (Node Nat) → Nat
  | [] => 0
  | element :: rest => element.size + elementsSize rest

def entriesSize : List (Node Nat × Node Nat) → Nat
  | [] => 0
  | (key, value) :: rest => key.size + value.size + entriesSize rest

end

end Node

end SequenceChart.Yaml
