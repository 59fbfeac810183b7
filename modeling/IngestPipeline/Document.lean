import IngestPipeline.File
import IngestPipeline.Pipeline
import IngestPipeline.Settings.Read
import IngestPipeline.Yaml.Load

/-! # Documents

Pipeline documents and configurations, as texts and as files.

* **`Document.load`**: the value of a pipeline document, without its tags.
* **`Document.ofRead`**, **`Document.read`**: the value of a pipeline document in a file.
* **`Settings.ofRead`**, **`Settings.ofFile`**: the settings of a configuration in a file. -/

namespace IngestPipeline

/-- Why a pipeline document cannot be read. -/
inductive DocumentError where
  /-- There is no such file. -/
  | notFound (path : String)
  /-- The file cannot be read. -/
  | unreadable (path : String) (cause : FileError)
  /-- The text is not one YAML document. -/
  | notYaml
  deriving DecidableEq, Repr

/-- The wording of a document error. What is wrong with a text that is no YAML document is left
out. -/
def DocumentError.message : DocumentError → String
  | .notFound path => "File '" ++ path ++ "' not found"
  | .unreadable path cause => "Failed to read '" ++ path ++ "': " ++ cause.message
  | .notYaml => "Error parsing YAML: <detail>"

namespace Document

/-- The value of a pipeline document, without its tags. -/
def load (text : String) : Except DocumentError Value :=
  match Yaml.load? text with
  | some v => .ok v.stripTags
  | none => .error .notYaml

/-- The value of the pipeline document at a path, given what was read there. -/
def ofRead (path : String) (bytes : Except FileError ByteArray) : Except DocumentError Value :=
  match textOf bytes with
  | .error .notFound => .error (.notFound path)
  | .error cause => .error (.unreadable path cause)
  | .ok text => load text

/-- The value of the pipeline document in a file. -/
def read [Monad m] (files : FileAccess m) (path : String) : m (Except DocumentError Value) := do
  return ofRead path (← files.read path)

end Document

/-- Why a configuration cannot be read. -/
inductive SettingsError where
  /-- The file cannot be read. -/
  | unreadable (path : String) (cause : FileError)
  /-- The text is no configuration. -/
  | invalid (path : String)
  deriving DecidableEq, Repr

/-- The wording of a settings error. What is wrong with a text that is no configuration is left
out. -/
def SettingsError.message : SettingsError → String
  | .unreadable path cause => "Failed to read config '" ++ path ++ "': " ++ cause.message
  | .invalid path => "Invalid configuration in '" ++ path ++ "': <detail>"

namespace Settings

/-- The settings of the configuration at a path, given what was read there. -/
def ofRead (path : String) (bytes : Except FileError ByteArray) : Except SettingsError Settings :=
  match textOf bytes with
  | .error cause => .error (.unreadable path cause)
  | .ok text =>
      match Settings.ofText? text with
      | some s => .ok s
      | none => .error (.invalid path)

/-- The settings of the configuration in a file. -/
def ofFile [Monad m] (files : FileAccess m) (path : String) :
    m (Except SettingsError Settings) := do
  return ofRead path (← files.read path)

end Settings

end IngestPipeline
