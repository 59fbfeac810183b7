import IngestPipeline.Json

/-! # Decoder documents

What a pipeline becomes: a list of **blocks** under the key `normalize`, each with an optional
check and either map entries or one parse directive.

* **`Decoder.toJson`**: the document as a tree. The field of a parse directive is either a key
  inside the `parse` mapping (**nested**) or part of the key itself (**piped**). -/

namespace IngestPipeline

/-- One entry of a map body. -/
inductive Entry where
  /-- Assign an expression to a field. -/
  | statement (field expression : String)
  /-- Call another pipeline by name. -/
  | pipeline (name : String)
  deriving DecidableEq, Repr

/-- Extraction patterns to try on a field, in order. -/
structure Directive where
  /-- The field whose text is parsed. -/
  field : String
  /-- The patterns, first match first. -/
  patterns : List String
  deriving DecidableEq, Repr

/-- What a block does. -/
inductive Body where
  /-- Evaluate map entries in order. -/
  | map (entries : List Entry)
  /-- Extract fields by patterns. -/
  | parse (directive : Directive)
  deriving DecidableEq, Repr

/-- A body that runs when its check holds, or always if it has none. -/
structure Block where
  /-- The condition of a guarded block. -/
  check : Option String
  /-- What the block does. -/
  body : Body
  deriving DecidableEq, Repr

/-- How the field of a parse directive is written. -/
inductive ParseStyle where
  /-- As a key inside the value of `parse`. -/
  | nested
  /-- Behind a bar in the key itself. -/
  | piped
  deriving DecidableEq, Repr

/-- The name of a parse style in a configuration. -/
def ParseStyle.name : ParseStyle → String
  | .nested => "nested"
  | .piped => "piped"

/-- The parse style of the given name. -/
def ParseStyle.ofName? (name : String) : Option ParseStyle :=
  [ParseStyle.nested, .piped].find? fun style => style.name == name

/-- A whole decoder document. -/
structure Decoder where
  /-- The blocks under `normalize`. -/
  blocks : List Block
  /-- How parse directives are written. -/
  parseStyle : ParseStyle
  deriving DecidableEq, Repr

/-- A statement is a mapping of one field, a pipeline call a bare name. -/
def Entry.toJson : Entry → Json
  | .statement field expression => .object [(field, .string expression)]
  | .pipeline name => .string name

/-- The member that holds a body. -/
def Body.member (style : ParseStyle) : Body → String × Json
  | .map entries => ("map", .array (entries.map Entry.toJson))
  | .parse directive =>
      let patterns := Json.array (directive.patterns.map .string)
      match style with
      | .nested => ("parse", .object [(directive.field, patterns)])
      | .piped => ("parse|" ++ directive.field, patterns)

/-- A block is a mapping of its check, if it has one, and its body. -/
def Block.toJson (style : ParseStyle) (block : Block) : Json :=
  .object ((block.check.toList.map fun check => ("check", .string check)) ++
    [block.body.member style])

/-- The document as a tree. -/
def Decoder.toJson (d : Decoder) : Json :=
  .object [("normalize", .array (d.blocks.map (Block.toJson d.parseStyle)))]

end IngestPipeline
