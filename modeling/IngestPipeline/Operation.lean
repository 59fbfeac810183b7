/-! # Operations

The kinds of processors that a pipeline may use, each with the name it has in a document. -/

namespace IngestPipeline

/-- A kind of processor. -/
inductive Operation where
  | append
  | convert
  | csv
  | date
  | dissect
  | fingerprint
  | foreach
  | geoip
  | grok
  | gsub
  | json
  | kv
  | lowercase
  | pipeline
  | remove
  | rename
  | script
  | set
  | split
  | trim
  | uppercase
  | urldecode
  | uriParts
  | userAgent
  deriving DecidableEq, Repr

namespace Operation

/-- All operations. -/
def all : List Operation :=
  [append, convert, csv, date, dissect, fingerprint, foreach, geoip, grok, gsub, json, kv,
    lowercase, pipeline, remove, rename, script, set, split, trim, uppercase, urldecode, uriParts,
    userAgent]

/-- The name of the operation in a document. -/
def name : Operation → String
  | append => "append"
  | convert => "convert"
  | csv => "csv"
  | date => "date"
  | dissect => "dissect"
  | fingerprint => "fingerprint"
  | foreach => "foreach"
  | geoip => "geoip"
  | grok => "grok"
  | gsub => "gsub"
  | json => "json"
  | kv => "kv"
  | lowercase => "lowercase"
  | pipeline => "pipeline"
  | remove => "remove"
  | rename => "rename"
  | script => "script"
  | set => "set"
  | split => "split"
  | trim => "trim"
  | uppercase => "uppercase"
  | urldecode => "urldecode"
  | uriParts => "uri_parts"
  | userAgent => "user_agent"

/-- The operation of the given name. -/
def ofName? (name : String) : Option Operation := all.find? fun op => op.name == name

/-- Reading the name of an operation gives the operation back. -/
@[simp] theorem ofName?_name (op : Operation) : ofName? op.name = some op := by
  cases op <;> decide

/-- Whether the operation extracts fields by patterns, and so becomes a parse directive instead of
map entries. -/
def extractsPatterns : Operation → Bool
  | grok => true
  | dissect => true
  | _ => false

end Operation

end IngestPipeline
