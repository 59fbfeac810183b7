import IngestPipeline.Condition
import IngestPipeline.DateFormat.Lint
import IngestPipeline.Delimiters
import IngestPipeline.Processor
import IngestPipeline.Processor.Template
import IngestPipeline.Settings

/-! # What a processor becomes

A processor contributes map entries, a check and a parse directive to the decoder document.

* **`entries`**: the map entries, by one rule per operation. A `foreach` contributes what the
  processor inside it does.
* **`check`**: the condition of the block.
* **`directive`**: the patterns of a `grok` or `dissect` processor.
* **`warnings`**: what is worth reporting about the date formats that were read. -/

namespace IngestPipeline.Processor

/-- The processor with the timestamp marker in its option `field`, perhaps behind tags, exchanged
for the field that holds the time of the event. -/
def resolveTimestamp (s : Settings) (p : Processor) : Processor :=
  match (p.options.lookup "field").map Value.untag with
  | some (.string field) =>
      if field = s.timestampMarker then p.withOption "field" (.string s.eventTimeField) else p
  | _ => p

/-! ### Map entries -/

/-- One statement. -/
def one (field expression : String) : List Entry := [.statement field expression]

/-- The field that receives a result: `target_field`, unless it is absent or empty. -/
def targetOrField (p : Processor) : Except ProcessorError String := do
  match ← p.text? "target_field" with
  | some target => if target.isEmpty then p.requireText "field" else return target
  | none => p.requireText "field"

/-- A helper applied to a field, with further arguments behind it, assigned to the same field. -/
def inPlace (p : Processor) (helper extra : String) : Except ProcessorError (List Entry) := do
  let field ← p.requireText "field"
  return one field (helper ++ "($" ++ field ++ extra ++ ")")

/-- The argument that a value to append becomes: the field a template refers to, or the value
itself. -/
def appendArgument (value : String) : String :=
  match templateName? value.toList with
  | some name => "$" ++ String.ofList name
  | none => value

/-- One statement for each value to append. -/
def appendEntries (p : Processor) : Except ProcessorError (List Entry) := do
  let field ← p.requireText "field"
  let values ← p.requireTexts "value"
  return values.map fun value => .statement field ("array_append(" ++ appendArgument value ++ ")")

/-- A conversion to the given type. -/
def convertEntries (p : Processor) : Except ProcessorError (List Entry) := do
  let field ← p.requireText "field"
  let kind ← p.requireText "type"
  let target ← p.targetOrField
  return one target ("parse_" ++ kind ++ "($" ++ field ++ ")")

/-- The columns of a line. -/
def csvEntries (p : Processor) : Except ProcessorError (List Entry) := do
  let field ← p.requireText "field"
  let targets ← p.texts "target_fields"
  return one field ("parse_csv($" ++ field ++ ", " ++ ",".intercalate targets ++ ")")

/-- One attempt for each date format, or one with the standard format if none is given. -/
def dateEntries (s : Settings) (p : Processor) : Except ProcessorError (List Entry) := do
  let field ← p.requireText "field"
  let target ← p.targetOrField
  let formats ← p.texts "formats"
  if formats.isEmpty then
    return one target ("parse_date($" ++ field ++ ",ISO8601," ++ s.locale ++ ")")
  else
    return formats.map fun source =>
      .statement target
        ("parse_date($" ++ field ++ ", " ++ (DateFormat.ofSource source).strftime ++ "," ++
          s.locale ++ ")")

/-- A digest of one field, or of several fields by way of a temporary one. -/
def fingerprintEntries (s : Settings) (p : Processor) : Except ProcessorError (List Entry) := do
  let target ← p.requireText "target_field"
  let fields ← p.texts "fields"
  match fields with
  | [] => .error (p.missing "fields")
  | [field] => return one target (s.hashHelper ++ "($" ++ field ++ ")")
  | many =>
      -- join the fields, take the digest, and drop the joined text again
      return [.statement s.hashTempField
          ("concat_any(" ++ ",".intercalate (many.map fun field => "$" ++ field) ++ ")"),
        .statement target (s.hashHelper ++ "($" ++ s.hashTempField ++ ")"),
        .statement s.hashTempField "delete()"]

/-- A look-up of an address: its place if the target is a place, and otherwise its network. -/
def geoipEntries (p : Processor) : Except ProcessorError (List Entry) := do
  let field ← p.requireText "field"
  let target ← p.requireText "target_field"
  let helper := if Text.endsWith "geo".toList target.toList then "geoip" else "as"
  return one target (helper ++ "($" ++ field ++ ")")

/-- A replacement by a regular expression. -/
def gsubEntries (p : Processor) : Except ProcessorError (List Entry) := do
  let field ← p.requireText "field"
  let pattern ← p.requireText "pattern"
  let replacement ← p.requireText "replacement"
  return one field ("replace(\"" ++ pattern ++ "\",\"" ++ replacement ++ "\")")

/-- A helper applied to a field and assigned to the target field. -/
def toTarget (p : Processor) (helper : String) : Except ProcessorError (List Entry) := do
  let field ← p.requireText "field"
  let target ← p.requireText "target_field"
  return one target (helper ++ "($" ++ field ++ ")")

/-- The key–value pairs of a text. -/
def kvEntries (p : Processor) : Except ProcessorError (List Entry) := do
  let field ← p.requireText "field"
  let target ← p.requireText "target_field"
  let valueSplit ← p.requireText "value_split"
  let fieldSplit ← p.requireText "field_split"
  return one target
    ("parse_key_value($" ++ field ++ ", '" ++ valueSplit ++ "', '" ++ fieldSplit ++
      "', '\"', '\\\\')")

/-- A call of another pipeline. -/
def pipelineEntries (p : Processor) : Except ProcessorError (List Entry) := do
  return [.pipeline (← p.requireText "name")]

/-- One deletion for each field. -/
def removeEntries (p : Processor) : Except ProcessorError (List Entry) := do
  let fields ← p.requireTexts "field"
  return fields.map fun field => .statement field "delete()"

/-- The source of a script on one line. -/
def flattened (source : String) : String :=
  Text.onString (fun s => Text.replace ['\n'] [' '] (Text.replace ['\r'] [] s)) source

/-- A script has no counterpart: a marker with its source is left for review. -/
def scriptEntries (p : Processor) : Except ProcessorError (List Entry) := do
  let source ← p.requireText "source"
  return one "THIS_IS_A_SCRIPT" ("LOOK AT THE PIPELINE(" ++ flattened source ++ ")")

/-- A value as a literal: a scalar as its text, a collection as JSON on one line. -/
def literal (p : Processor) (value : Value) : Except ProcessorError String :=
  match value.text? with
  | some text => .ok text
  | none =>
      match value.toJson? with
      | some json => .ok json.toText
      | none => .error (p.invalid "value" .literal)

/-- An assignment of another field or of a literal; of neither, nothing. -/
def setEntries (p : Processor) : Except ProcessorError (List Entry) := do
  let field ← p.requireText "field"
  -- a field to copy takes precedence over a value
  match ← p.text? "copy_from" with
  | some source => return one field ("$" ++ source)
  | none =>
      match p.get? "value" with
      | some value => return one field (← p.literal value)
      | none => return []

/-- A separator is exchanged for the delimiter, and the text split there. -/
def splitEntries (s : Settings) (p : Processor) : Except ProcessorError (List Entry) := do
  let field ← p.requireText "field"
  let separator ← p.requireText "separator"
  return [.statement field ("replace('" ++ separator ++ "', '" ++ s.splitDelimiter ++ "')"),
    .statement field ("split($" ++ field ++ ",'" ++ s.splitDelimiter ++ "')")]

/-- The map entries of a processor that wraps no other. Pattern extraction has none. -/
def ownEntries (s : Settings) (p : Processor) : Except ProcessorError (List Entry) :=
  match p.operation with
  | .dissect | .grok | .foreach => .ok []
  | .append => p.appendEntries
  | .convert => p.convertEntries
  | .csv => p.csvEntries
  | .date => p.dateEntries s
  | .fingerprint => p.fingerprintEntries s
  | .geoip => p.geoipEntries
  | .gsub => p.gsubEntries
  | .json => p.toTarget "parse_json"
  | .kv => p.kvEntries
  | .lowercase => p.inPlace "downcase" ""
  | .uppercase => p.inPlace "upcase" ""
  | .trim => p.inPlace "trim" ", 'both', ' '"
  | .urldecode | .uriParts => p.inPlace "parse_uri" ""
  | .userAgent => p.inPlace "parse_useragent" ""
  | .pipeline => p.pipelineEntries
  | .remove => p.removeEntries
  | .rename => p.toTarget "rename"
  | .script => p.scriptEntries
  | .set => p.setEntries
  | .split => p.splitEntries s

/-- The map entries of a processor: those of its innermost processor. -/
def entries (s : Settings) (p : Processor) : Except ProcessorError (List Entry) := do
  (← p.innermost).ownEntries s

/-! ### Check and directive -/

/-- The check of a processor. Patterns are only tried on a field that exists; any other processor
is guarded by its option `if`. -/
def check (p : Processor) : Except ProcessorError (Option String) := do
  if p.operation.extractsPatterns then
    let field ← p.requireText "field"
    return some ("exists($" ++ field ++ ")")
  else
    return (← p.text? "if").map Condition.check

/-- The texts of pattern definitions, or `none` if some name or definition is no scalar. -/
def definitionTexts? : List (Value × Value) → Option (List (String × String))
  | [] => some []
  | (name, definition) :: es =>
      match name.text?, definition.text?, definitionTexts? es with
      | some name, some definition, some rest => some ((name, definition) :: rest)
      | _, _, _ => none

/-- A pattern with every occurrence of a defined name exchanged for its definition, one name after
the other. -/
def define (definitions : List (String × String)) (pattern : String) : String :=
  definitions.foldl
    (fun pattern d =>
      Text.onString (Text.replace d.1.toList (Delimiters.angled d.2.toList)) pattern)
    pattern

/-- The patterns of a `grok` processor. -/
def grokPatterns (p : Processor) : Except ProcessorError (List String) := do
  let patterns ← p.texts "patterns"
  let definitions ← p.mapping? "pattern_definitions"
  -- definitions are read even if there is no pattern to apply them to
  match definitionTexts? (definitions.getD []) with
  | some definitions =>
      return patterns.map fun pattern => define definitions (Delimiters.inText pattern)
  | none => .error (p.invalid "pattern_definitions" .patternMapping)

/-- The pattern of a `dissect` processor, unless it is absent or empty. -/
def dissectPatterns (p : Processor) : Except ProcessorError (List String) := do
  match ← p.text? "pattern" with
  | some pattern => return if pattern.isEmpty then [] else [Delimiters.inText pattern]
  | none => return []

/-- The extraction patterns of a processor; only `grok` and `dissect` have any. -/
def patterns (p : Processor) : Except ProcessorError (List String) :=
  match p.operation with
  | .grok => p.grokPatterns
  | .dissect => p.dissectPatterns
  | _ => .ok []

/-- The parse directive of a processor that has extraction patterns. -/
def directive (p : Processor) : Except ProcessorError (Option Directive) := do
  let patterns ← p.patterns
  if patterns.isEmpty then return none
  else return some ⟨← p.requireText "field", patterns⟩

/-! ### Contributions -/

/-- What a processor contributes to the decoder document. -/
structure Contribution where
  /-- The condition of the contribution. -/
  check : Option String
  /-- The extraction patterns. -/
  directive : Option Directive
  /-- The map entries. -/
  entries : List Entry
  deriving DecidableEq, Repr

/-- What a processor contributes. -/
def contribution (s : Settings) (p : Processor) : Except ProcessorError Contribution := do
  let entries ← p.entries s
  let check ← p.check
  let directive ← p.directive
  return ⟨check, directive, entries⟩

/-- The processor that a value denotes, its timestamp marker resolved. -/
def resolved (s : Settings) (v : Value) : Except ProcessorError Processor :=
  (ofValue v).map (resolveTimestamp s)

/-- A finding about a date format: the finding, the field it is parsed from and its source. -/
structure Warning where
  /-- What was found. -/
  finding : String
  /-- The field that holds the date. -/
  field : String
  /-- The date format as it is in the document. -/
  format : String
  deriving DecidableEq, Repr

/-- The findings about the date formats of a processor, if it is one that reads dates. -/
def ownWarnings (p : Processor) : List Warning :=
  if p.operation = .date then
    match p.requireText "field", p.texts "formats" with
    | .ok field, .ok formats =>
        formats.flatMap fun source =>
          (DateFormat.ofSource source).findings.map fun finding => ⟨finding, field, source⟩
    | _, _ => []
  else []

/-- The findings about the date formats of the innermost processor, if its entries can be made. -/
def warnings (s : Settings) (p : Processor) : List Warning :=
  match p.innermost with
  | .error _ => []
  | .ok q =>
      match q.ownEntries s with
      | .error _ => []
      | .ok _ => q.ownWarnings

end IngestPipeline.Processor
