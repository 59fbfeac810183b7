import IngestPipeline.Yaml.Print

/-! # Values that cannot be written

A value is written as a run of **marks**: scalars, and the starts and ends of collections. The start
of a mapping of one entry is held back until its key begins. A key that is itself a mapping of one
entry takes the place of the start that is held back, so one start is lost and one end is left over.
The surplus end is met either where a node is expected or behind the end of the document, and the
value cannot be written.

* **`marks`**: the run of marks of a value.
* **`fault?`**: the first mark of a run that stands where it cannot.
* **`printChecked`**: the text of a value, or why there is none. -/

namespace IngestPipeline.Yaml

/-- A mark in the run that a value is written as. -/
inductive Mark where
  | scalar
  | seqStart
  | seqEnd
  | mapStart
  | mapEnd
  deriving DecidableEq, Repr

/-- Why a value cannot be written. -/
inductive PrintError where
  /-- An end stands where a node is expected. -/
  | nodeExpected
  /-- An end stands behind the document. -/
  | documentEnded
  deriving DecidableEq, Repr

/-- The wording of a print error. -/
def PrintError.message : PrintError → String
  | .nodeExpected => "expected SCALAR, SEQUENCE-START, MAPPING-START, or ALIAS"
  | .documentEnded => "expected DOCUMENT-START or STREAM-END"

/-- Whether a value is a mapping of one entry. -/
def isSingleton : Value → Bool
  | .map [_] => true
  | _ => false

/-- Whether the start of a mapping is lost: it has one entry, and so has the mapping that is its
key. -/
def losesStart : List (Value × Value) → Bool
  | [(k, _)] => isSingleton k
  | _ => false

mutual

/-- The run of marks of a value. -/
def marks : Value → List Mark
  | .seq items => .seqStart :: marksOfItems items ++ [.seqEnd]
  | .map entries =>
      (if losesStart entries then [] else [.mapStart]) ++ marksOfEntries entries ++ [.mapEnd]
  | .tagged _ v => marks v
  | _ => [.scalar]

/-- The runs of marks of the items of a sequence. -/
def marksOfItems : List Value → List Mark
  | [] => []
  | x :: xs => marks x ++ marksOfItems xs

/-- The runs of marks of the entries of a mapping. -/
def marksOfEntries : List (Value × Value) → List Mark
  | [] => []
  | (k, v) :: es => marks k ++ marks v ++ marksOfEntries es

end

/-- An open collection, and what it expects next. -/
inductive Open where
  /-- A sequence: an item or its end. -/
  | item
  /-- A mapping: a key or its end. -/
  | key
  /-- A mapping: a value. -/
  | value
  deriving DecidableEq, Repr

/-- What the innermost open collection expects after a node. -/
def afterNode : List Open → List Open
  | .key :: outer => .value :: outer
  | .value :: outer => .key :: outer
  | stack => stack

/-- The first mark that stands where it cannot, given the open collections. -/
def fault? : List Open → List Mark → Option PrintError
  | _, [] => none
  | stack, .scalar :: ms => fault? (afterNode stack) ms
  | stack, .seqStart :: ms => fault? (.item :: afterNode stack) ms
  | stack, .mapStart :: ms => fault? (.key :: afterNode stack) ms
  | .item :: outer, .seqEnd :: ms => fault? outer ms
  | .key :: outer, .mapEnd :: ms => fault? outer ms
  | [], _ => some .documentEnded
  | _ :: _, _ => some .nodeExpected

/-- The text of a value as a document, or why it cannot be written. -/
def printChecked (v : Value) : Except PrintError String :=
  match fault? [] (marks v) with
  | none => .ok (print v)
  | some e => .error e

end IngestPipeline.Yaml
