import IngestPipeline.CommandLine.Arguments
import IngestPipeline.CommandLine.Log
import IngestPipeline.Document

/-! # The command line

A run reads a configuration and a pipeline document, and writes the decoder document to a file or
to the standard output. Nothing is written unless everything before it succeeded.

* **`prepare`**: everything up to writing, as the events and the text to write or the report of a
  failure.
* **`run`**: a whole run, given access to files and a reader of log requests. -/

namespace IngestPipeline.CommandLine

/-- The name and version of the program. -/
def versionText : String := "ingest-decoder 0.1.0\n"

/-- How the program is called. -/
def usageText : String := "Usage: ingest-decoder [OPTIONS] <INPUT>\n"

/-- What the program does and how it is called. -/
def helpText : String :=
  "Translate an ingest pipeline into a normalization decoder\n\n" ++ usageText ++ "\n" ++
    "Arguments:\n" ++
    "  <INPUT>  Pipeline definition (YAML or JSON)\n\n" ++
    "Options:\n" ++
    "  -o, --output <OUTPUT_FILE>  Output file (default: stdout)\n" ++
    "  -F, --format <FORMAT>       Output format [default: yaml] [possible values: yaml, json]\n" ++
    "  -c, --config <CONFIG>       YAML file overriding translation settings\n" ++
    "      --debug                 Debug mode - log translation details to stderr\n" ++
    "  -h, --help                  Print help (see more with '--help')\n" ++
    "  -V, --version               Print version\n"

/-- A failure of a run. -/
inductive Failure where
  /-- The configuration cannot be read. -/
  | settings (error : SettingsError)
  /-- The pipeline document cannot be read. -/
  | document (error : DocumentError)
  /-- The document is no pipeline, or a processor cannot be carried over. -/
  | pipeline (error : PipelineError)
  /-- The output cannot be written. -/
  | output (path : String) (cause : FileError)

/-- A message of one line, and the cause behind it. -/
def errorLine (message : String) (cause : String) : String :=
  "Error: " ++ message ++ cause ++ "\n"

/-- The text of a cause, its lines indented by four spaces. -/
def indented (text : String) : String :=
  "    " ++ Text.onString (Text.replace ['\n'] "\n    ".toList) text

/-- What is reported about a processor that cannot be carried over. -/
def processorReport (f : ProcessorFailure) : String :=
  f.message ++ "\n\nCaused by:\n" ++ indented f.cause.message ++ "\n" ++
    "Exception processing operation: " ++ f.operation ++ "\n" ++ f.dump ++ "\n"

/-- What is reported about a failure. An error of the file system is named once in the message and
once more as its cause. -/
def Failure.report : Failure → String
  | .settings e@(.unreadable _ cause) => errorLine e.message (": " ++ cause.message)
  | .settings e@(.invalid _) => errorLine e.message ""
  | .document e@(.unreadable _ cause) => errorLine e.message (": " ++ cause.message)
  | .document e => errorLine e.message ""
  | .pipeline (.processor f) => processorReport f
  | .pipeline e => errorLine e.message ""
  | .output path cause =>
      errorLine ("Failed to write output file '" ++ path ++ "'") (": " ++ cause.message)

variable {m : Type → Type} [Monad m]

/-- The settings that a request asks for. -/
def settings (files : FileAccess m) (request : Request) : m (Except Failure Settings) :=
  match request.config with
  | none => return .ok {}
  | some path => return (← Settings.ofFile files path).mapError .settings

/-- The pipeline document that a request names, as a decoder document under the given settings: the
events on the way, and its text. -/
def translate (s : Settings) (request : Request) (document : Except DocumentError Value) :
    List Event × Except Failure String :=
  match document with
  | .error e => ([], .error (.document e))
  | .ok document =>
      match Pipeline.decode s document with
      | (events, .error e) => (events, .error (.pipeline e))
      | (events, .ok decoder) => (events, .ok (decoder.render request.format))

/-- Everything up to writing: the events, and the text to write. -/
def prepare (files : FileAccess m) (request : Request) :
    m (List Event × Except Failure String) := do
  match ← settings files request with
  -- the configuration comes first: if it cannot be read, nothing is reported about the input
  | .error f => return ([], .error f)
  | .ok s =>
      let (events, prepared) := translate s request (← Document.read files request.input)
      return (.reading request.input :: events, prepared)

/-- What a run ends with. -/
structure Outcome where
  /-- The exit code: zero for success, one for a failure, two for arguments that cannot be
  understood, and another one for a run that is aborted. -/
  code : Nat
  /-- What is printed. -/
  stdout : String
  /-- What is logged and reported. -/
  stderr : String

/-- The exit code of a run that is aborted. -/
def abortedCode : Nat := 101

/-- Put a text where a request asks for it, or report why there is none. -/
def deliver (files : FileAccess m) (request : Request) (log : String) :
    Except Failure String → m Outcome
  | .error f => return ⟨1, "", log ++ f.report⟩
  | .ok text =>
      match request.output with
      | none => return ⟨0, text, log⟩
      | some path => do
          match ← files.write path text.toUTF8 with
          | .ok () => return ⟨0, "", log⟩
          | .error cause => return ⟨1, "", log ++ (Failure.output path cause).report⟩

/-- Carry out a request. Nothing is written before all of it is prepared. -/
def execute (files : FileAccess m) (shown : Event → Bool) (request : Request) : m Outcome := do
  let (events, prepared) ← prepare files request
  deliver files request (logText shown events) prepared

/-- A whole run. The log request is read once the arguments are understood, and before anything is
done; what is reported of a run that is aborted is left out. -/
def run (files : FileAccess m) (logs : LogReader) (arguments : List String)
    (logRequest : Option String) : m Outcome :=
  match Arguments.parse arguments with
  | none => return ⟨2, "", usageText⟩
  | some .help => return ⟨0, helpText, ""⟩
  | some .version => return ⟨0, versionText, ""⟩
  | some (.run request) =>
      match logs.shown? logRequest request.debug with
      | none => return ⟨abortedCode, "", ""⟩
      | some shown => execute files shown request

end IngestPipeline.CommandLine
