import IngestPipeline.Operation

/-! # Faults of a processor

Why a processor cannot be carried over into a decoder document, as causes; **`message`** gives each
its wording. -/

namespace IngestPipeline

/-- Why a value is not a processor at all. -/
inductive Malformed where
  /-- The value is no mapping. -/
  | notMapping
  /-- The mapping has not exactly one key. -/
  | keyCount (found : Nat)
  /-- The key is no string. -/
  | keyNotString
  /-- The options are neither absent nor a mapping. -/
  | optionsNotMapping (operation : String)
  /-- The name of an option has no text. -/
  | optionNameNotString
  deriving DecidableEq, Repr

/-- The wording of a malformed processor. -/
def Malformed.message : Malformed → String
  | .notMapping => "expected a mapping with a single operation key"
  | .keyCount found => "expected exactly one operation key, found " ++ toString found
  | .keyNotString => "operation key must be a string"
  | .optionsNotMapping operation => "options of '" ++ operation ++ "' must be a mapping"
  | .optionNameNotString => "option names must be strings"

/-- What the value of an option has to be. -/
inductive Expected where
  /-- A scalar. -/
  | string
  /-- A sequence of scalars. -/
  | stringList
  /-- A scalar or a sequence of scalars. -/
  | stringOrList
  /-- A mapping. -/
  | mapping
  /-- A mapping from scalars to scalars. -/
  | patternMapping
  /-- A value with a JSON form. -/
  | literal
  deriving DecidableEq, Repr

/-- The wording of an expectation. -/
def Expected.message : Expected → String
  | .string => "a string"
  | .stringList => "a list of strings"
  | .stringOrList => "a string or a list of strings"
  | .mapping => "a mapping"
  | .patternMapping => "a mapping of names to patterns"
  | .literal => "a scalar, list or string-keyed mapping"

/-- Why a processor cannot be carried over. -/
inductive ProcessorError where
  /-- There is no operation of this name. -/
  | unsupportedOperation (name : String)
  /-- The value is not shaped like a processor. -/
  | malformed (reason : Malformed)
  /-- A required option is absent. -/
  | missingOption (operation : Operation) (option : String)
  /-- An option has a value of the wrong kind. -/
  | invalidOption (operation : Operation) (option : String) (expected : Expected)
  deriving DecidableEq, Repr

/-- The wording of a fault. -/
def ProcessorError.message : ProcessorError → String
  | .unsupportedOperation name => "Unknown processor type: " ++ name
  | .malformed reason => "Malformed processor: " ++ reason.message
  | .missingOption operation option =>
      "Processor '" ++ operation.name ++ "' is missing required option '" ++ option ++ "'"
  | .invalidOption operation option expected =>
      "Option '" ++ option ++ "' of processor '" ++ operation.name ++ "' must be " ++
        expected.message

end IngestPipeline
