import IngestPipeline.Yaml.Layout
import IngestPipeline.Yaml.Node
import IngestPipeline.Yaml.Scalar

/-! # Loading documents

A node becomes a value by giving scalars their meaning, following references and refusing mappings
with equal keys. Collections may be nested 128 deep, which also ends references that contain
themselves, and the number of references followed is limited in proportion to the document.

* **`Node.value?`**: the value of a node.
* **`load?`**: the value of a text. -/

namespace IngestPipeline.Yaml

/-- The value of a scalar that its tag does not change. -/
def untaggedScalar? (text : String) (plain : Bool) : Option Value :=
  if plain then readPlain text.toList else some (.string text)

/-- The value of a scalar whose tag demands a kind: the text must denote a value of that kind. Tags
for other kinds make a string of it. -/
def demandedScalar? (tag : Tag) (text : String) : Option Value :=
  let s := text.toList
  if tag = .core "bool" then (parseBool? s).map .bool
  else if tag = .core "int" then
    match parseInt s with
    | .value n => some (.int n)
    | _ => none
  else if tag = .core "float" then (parseFloat? s).map .float
  else if tag = .core "null" then (parseNull? s).map fun _ => .null
  else some (.string text)

/-- The value of a scalar. An application tag without a name says nothing about it. -/
def scalarValue? (tag : Option Tag) (text : String) (plain : Bool) : Option Value :=
  match tag with
  | none => untaggedScalar? text plain
  | some tag =>
      match tag.applicationName? with
      | some name => (untaggedScalar? text plain).map (.tagged name)
      | none => if tag.isApplication then untaggedScalar? text plain else demandedScalar? tag text

/-- A collection with its tag, as far as that is an application tag. -/
def collectionValue (tag : Option Tag) (v : Value) : Value :=
  match tag.bind Tag.applicationName? with
  | some name => .tagged name v
  | none => v

/-- What is known while a document is loaded. -/
structure Loading where
  /-- The slots of the document, in the order of the text. -/
  slots : List (Nat × Node)
  /-- How many references may be followed. -/
  jumps : Nat

/-- The node that a node stands for. Following a reference is counted. -/
def Loading.follow? (l : Loading) (n : Node) : StateT Nat Option Node := fun followed =>
  match n with
  | .alias slot =>
      if l.jumps ≤ followed then none
      else (l.slots.reverse.lookup slot).map fun target => (target, followed + 1)
  | n => some (n, followed)

/-- Add an entry to a mapping, unless its key is there already. -/
def appendNew? (entries : List (Value × Value)) (k v : Value) : Option (List (Value × Value)) :=
  if Assoc.hasKey k entries then none else some (entries ++ [(k, v)])

/-- The value of a node. Collections may be nested `depth` deep. -/
def Node.value? (l : Loading) : Nat → Node → StateT Nat Option Value
  | 0, n => do
      match ← l.follow? n with
      | .scalar p text plain => (scalarValue? p.tag text plain : Option Value)
      | _ => none
  | depth + 1, n => do
      match ← l.follow? n with
      | .scalar p text plain => (scalarValue? p.tag text plain : Option Value)
      | .seq p items => return collectionValue p.tag (.seq (← items.mapM (Node.value? l depth)))
      | .map p entries =>
          -- the key is loaded before the value, and both before the next entry
          let entries ← entries.foldlM
            (fun done e => do
              let k ← Node.value? l depth e.1
              let v ← Node.value? l depth e.2
              (appendNew? done k v : Option (List (Value × Value))))
            []
          return collectionValue p.tag (.map entries)
      | .alias _ => none

/-- How deep collections may be nested. -/
def maxDepth : Nat := 128

/-- The tree of a text: `none` if it is no single document, and no tree if it is empty. -/
def parse? (text : String) : Option (Option Node) := do
  Node.ofTokens? (← tokenize? text.toList)

/-- The value of a text. An empty one is null. -/
def load? (text : String) : Option Value := do
  match ← parse? text with
  | none => return .null
  | some n =>
      let loading : Loading := ⟨n.slots, 100 * n.events⟩
      return (← (n.value? loading maxDepth).run 0).1

end IngestPipeline.Yaml
