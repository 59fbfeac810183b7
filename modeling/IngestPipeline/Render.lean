import IngestPipeline.Decoder
import IngestPipeline.Yaml.Print

/-! # Rendering decoder documents

* **`OutputFormat`**: the formats a decoder document can be written in.
* **`Decoder.render`**: the text of the document in a format. -/

namespace IngestPipeline

/-- The formats of a decoder document. -/
inductive OutputFormat where
  /-- Block-style YAML. -/
  | yaml
  /-- Indented JSON. -/
  | json
  deriving DecidableEq, Repr

/-- The name of a format. -/
def OutputFormat.name : OutputFormat → String
  | .yaml => "yaml"
  | .json => "json"

/-- The format of a given name, letter case aside; `yml` is another name of YAML. Only ASCII
letters have lower-case forms that occur in these names. -/
def OutputFormat.ofName? (name : String) : Option OutputFormat :=
  let lower := String.ofList (name.toList.map Char.toLower)
  if lower = "yaml" ∨ lower = "yml" then some .yaml
  else if lower = "json" then some .json
  else none

/-- What is said about a name that is no format. -/
def OutputFormat.unknownMessage (name : String) : String := "Unknown output format: " ++ name

/-- The text of a decoder document. It ends with a line break. -/
def Decoder.render (format : OutputFormat) (d : Decoder) : String :=
  match format with
  | .yaml => Yaml.print (Yaml.ofJson d.toJson)
  | .json => d.toJson.pretty ++ "\n"

end IngestPipeline
