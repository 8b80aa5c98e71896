import SequenceChart.Yaml.Token

/-!
# Nodes

The nodes of a YAML document, and how tokens make them up. Each function reads some tokens and
returns those behind them together with a bound on their number, by which the recursion ends.
-/

namespace SequenceChart.Yaml

/-- What may stand in front of a node. -/
structure Properties (Anchor : Type) where
  anchor : Option Anchor
  tag : Option TagText

/-- A node, whose anchors and aliases are given by values of type `Anchor`. -/
inductive Node (Anchor : Type)
  /-- An alias, which stands for the node with the anchor. -/
  | reference (anchor : Anchor)
  | scalar (properties : Properties Anchor) (text : String) (plain : Bool)
  | sequence (properties : Properties Anchor) (elements : List (Node Anchor))
  | mapping (properties : Properties Anchor) (entries : List (Node Anchor × Node Anchor))

def Properties.none {Anchor : Type} : Properties Anchor :=
  { anchor := Option.none, tag := Option.none }

/-- A node that is left out. -/
def Node.absent {Anchor : Type} : Node Anchor :=
  scalar .none "" true

/-- What the handles of tags stand for. -/
abbrev Handles := List (String × TagText)

/-- A tag in full. -/
def fullTag? (handles : Handles) (handle : String) (suffix : TagText) : Option TagText :=
  if handle.isEmpty then some suffix else (handles.lookup handle).map (· ++ suffix)

/-- Where a node stands: in a flow collection, in a block, or in a block as a key or a value, where
a sequence may go without a further indent. -/
inductive Site
  | flow
  | block
  | entry
  deriving DecidableEq, Repr

/-- Whether a node that has no properties starts here. -/
def startsContent (site : Site) : List Token → Bool
  | .scalar _ _ :: _ | .flowSequence :: _ | .flowMapping :: _ => true
  | .blockSequence :: _ | .blockMapping :: _ => site ≠ .flow
  | .item :: _ => site = .entry
  | _ => false

def startsNode (site : Site) (tokens : List Token) : Bool :=
  match tokens with
  | .reference _ :: _ | .anchor _ :: _ | .tag _ _ :: _ => true
  | _ => startsContent site tokens

/-- Fewer tokens than `tokens`. -/
abbrev Fewer (tokens : List Token) := { rest : List Token // rest.length < tokens.length }

/-- Not more tokens than `tokens`. -/
abbrev NotMore (tokens : List Token) := { rest : List Token // rest.length ≤ tokens.length }

namespace Node

/-- The most collections that may stand in each other. -/
def deepest : Nat := 128

mutual

/-- A node of which at most `depth` collections stand in each other. -/
def read? (handles : Handles) (site : Site) (depth : Nat) (tokens : List Token) :
    Option (Node String × Fewer tokens) :=
  match tokens with
  | .reference name :: rest => some (.reference name, ⟨rest, by simp⟩)
  | .anchor name :: .tag handle suffix :: rest
  | .tag handle suffix :: .anchor name :: rest => do
      let tag ← fullTag? handles handle suffix
      let (node, ⟨rest, _⟩) ← readMarked? handles site depth { anchor := name, tag } rest
      return (node, ⟨rest, by simp only [List.length_cons]; omega⟩)
  | .anchor name :: rest => do
      let (node, ⟨rest, _⟩) ← readMarked? handles site depth { anchor := name, tag := none } rest
      return (node, ⟨rest, by simp only [List.length_cons]; omega⟩)
  | .tag handle suffix :: rest => do
      let tag ← fullTag? handles handle suffix
      let (node, ⟨rest, _⟩) ← readMarked? handles site depth { anchor := none, tag } rest
      return (node, ⟨rest, by simp only [List.length_cons]; omega⟩)
  | tokens => readContent? handles site depth .none tokens
termination_by (tokens.length, 2)

/-- What follows properties, which may be nothing. -/
def readMarked? (handles : Handles) (site : Site) (depth : Nat) (properties : Properties String)
    (tokens : List Token) : Option (Node String × NotMore tokens) := do
  if startsContent site tokens then
    let (node, ⟨rest, _⟩) ← readContent? handles site depth properties tokens
    return (node, ⟨rest, by omega⟩)
  else return (.scalar properties "" true, ⟨tokens, Nat.le_refl _⟩)
termination_by (tokens.length, 2)

/-- A node behind its properties. -/
def readContent? (handles : Handles) (site : Site) (depth : Nat) (properties : Properties String)
    (tokens : List Token) : Option (Node String × Fewer tokens) :=
  match startsContent site tokens, depth, tokens with
  | true, _, .scalar text plain :: rest =>
      some (.scalar properties text plain, ⟨rest, by simp⟩)
  | true, depth + 1, .flowSequence :: rest => do
      let (elements, ⟨rest, _⟩) ← flowElements? handles depth rest
      return (.sequence properties elements, ⟨rest, by simp only [List.length_cons]; omega⟩)
  | true, depth + 1, .flowMapping :: rest => do
      let (entries, ⟨rest, _⟩) ← flowEntries? handles depth rest
      return (.mapping properties entries, ⟨rest, by simp only [List.length_cons]; omega⟩)
  | true, depth + 1, .item :: rest => do
      let (elements, ⟨rest, _⟩) ← items? handles depth rest
      return (.sequence properties elements, ⟨rest, by simp only [List.length_cons]; omega⟩)
  | true, depth + 1, .blockSequence :: .item :: rest => do
      let (elements, ⟨rest, hrest⟩) ← items? handles depth rest
      match rest, hrest with
      | .blockEnd :: rest, _ =>
          return (.sequence properties elements,
            ⟨rest, by simp only [List.length_cons] at *; omega⟩)
      | _, _ => none
  | true, depth + 1, .blockMapping :: .key :: rest => do
      let (entries, ⟨rest, hrest⟩) ← blockEntries? handles depth rest
      match rest, hrest with
      | .blockEnd :: rest, _ =>
          return (.mapping properties entries,
            ⟨rest, by simp only [List.length_cons] at *; omega⟩)
      | _, _ => none
  | _, _, _ => none
termination_by (tokens.length, 1)

def readOptional? (handles : Handles) (site : Site) (depth : Nat) (tokens : List Token) :
    Option (Node String × NotMore tokens) := do
  if startsNode site tokens then
    let (node, ⟨rest, _⟩) ← read? handles site depth tokens
    return (node, ⟨rest, by omega⟩)
  else return (.absent, ⟨tokens, Nat.le_refl _⟩)
termination_by (tokens.length, 3)

def items? (handles : Handles) (depth : Nat) (tokens : List Token) :
    Option (List (Node String) × NotMore tokens) := do
  let (element, ⟨rest, hrest⟩) ← readOptional? handles .block depth tokens
  match rest, hrest with
  | .item :: rest, hrest => do
      have hshorter : rest.length < tokens.length := hrest
      let (elements, ⟨rest, _⟩) ← items? handles depth rest
      return (element :: elements, ⟨rest, by omega⟩)
  | rest, hrest => return ([element], ⟨rest, hrest⟩)
termination_by (tokens.length, 4)

def pair? (handles : Handles) (site : Site) (depth : Nat) (tokens : List Token) :
    Option ((Node String × Node String) × NotMore tokens) := do
  let (key, ⟨rest, hrest⟩) ← readOptional? handles site depth tokens
  match rest, hrest with
  | .value :: rest, hrest => do
      have hshorter : rest.length < tokens.length := hrest
      let (value, ⟨rest, _⟩) ← readOptional? handles site depth rest
      return ((key, value), ⟨rest, by omega⟩)
  | rest, hrest => return ((key, .absent), ⟨rest, hrest⟩)
termination_by (tokens.length, 4)

/-- The entries of a mapping in a block from behind the mark of the first key. -/
def blockEntries? (handles : Handles) (depth : Nat) (tokens : List Token) :
    Option (List (Node String × Node String) × NotMore tokens) := do
  let (entry, ⟨rest, hrest⟩) ← pair? handles .entry depth tokens
  match rest, hrest with
  | .key :: rest, hrest => do
      have hshorter : rest.length < tokens.length := hrest
      let (entries, ⟨rest, _⟩) ← blockEntries? handles depth rest
      return (entry :: entries, ⟨rest, by omega⟩)
  | rest, hrest => return ([entry], ⟨rest, hrest⟩)
termination_by (tokens.length, 5)

/-- An element of a flow sequence. A pair stands for a mapping with one entry. -/
def flowElement? (handles : Handles) (depth : Nat) (tokens : List Token) :
    Option (Node String × Fewer tokens) :=
  match depth, tokens with
  | 0, .key :: _ => none
  | depth + 1, .key :: rest => do
      let (entry, ⟨rest, _⟩) ← pair? handles .flow depth rest
      return (.mapping .none [entry], ⟨rest, by simp only [List.length_cons]; omega⟩)
  | depth, tokens => read? handles .flow depth tokens
termination_by (tokens.length, 3)

def flowElements? (handles : Handles) (depth : Nat) (tokens : List Token) :
    Option (List (Node String) × Fewer tokens) :=
  match tokens with
  | .flowSequenceEnd :: rest => some ([], ⟨rest, by simp⟩)
  | tokens => do
      let (element, ⟨rest, hrest⟩) ← flowElement? handles depth tokens
      match rest, hrest with
      | .comma :: rest, hrest => do
          have hshorter : rest.length + 1 < tokens.length := hrest
          let (elements, ⟨rest, _⟩) ← flowElements? handles depth rest
          return (element :: elements, ⟨rest, by omega⟩)
      | .flowSequenceEnd :: rest, hrest => return ([element], ⟨rest, Nat.lt_of_succ_lt hrest⟩)
      | _, _ => none
termination_by (tokens.length, 4)

/-- An entry of a flow mapping. A node stands for a key without a value. -/
def flowEntry? (handles : Handles) (depth : Nat) (tokens : List Token) :
    Option ((Node String × Node String) × Fewer tokens) :=
  match tokens with
  | .key :: rest => do
      let (entry, ⟨rest, _⟩) ← pair? handles .flow depth rest
      return (entry, ⟨rest, by simp only [List.length_cons]; omega⟩)
  | tokens => do
      let (key, rest) ← read? handles .flow depth tokens
      return ((key, .absent), rest)
termination_by (tokens.length, 3)

def flowEntries? (handles : Handles) (depth : Nat) (tokens : List Token) :
    Option (List (Node String × Node String) × Fewer tokens) :=
  match tokens with
  | .flowMappingEnd :: rest => some ([], ⟨rest, by simp⟩)
  | tokens => do
      let (entry, ⟨rest, hrest⟩) ← flowEntry? handles depth tokens
      match rest, hrest with
      | .comma :: rest, hrest => do
          have hshorter : rest.length + 1 < tokens.length := hrest
          let (entries, ⟨rest, _⟩) ← flowEntries? handles depth rest
          return (entry :: entries, ⟨rest, by omega⟩)
      | .flowMappingEnd :: rest, hrest => return ([entry], ⟨rest, Nat.lt_of_succ_lt hrest⟩)
      | _, _ => none
termination_by (tokens.length, 4)

end

end Node

end SequenceChart.Yaml
