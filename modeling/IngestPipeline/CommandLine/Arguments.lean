import IngestPipeline.Render

/-! # Arguments

The arguments of the command line: an input, and options before or after it, each at most once.
The value of an option follows it, or is attached to it with or without an equals sign.

* **`Arguments.parse`**: what the arguments ask for, or `none` if they cannot be understood. -/

namespace IngestPipeline.CommandLine

/-- What a run is asked to do. -/
structure Request where
  /-- The pipeline document. -/
  input : String
  /-- The file that receives the decoder document, instead of the standard output. -/
  output : Option String
  /-- The format of the decoder document. -/
  format : OutputFormat
  /-- The configuration. -/
  config : Option String
  /-- Whether everything is to be logged. -/
  debug : Bool
  deriving DecidableEq, Repr

/-- What the arguments ask for. -/
inductive Command where
  /-- Print how the program is used. -/
  | help
  /-- Print the version. -/
  | version
  /-- Carry a pipeline over into a decoder document. -/
  | run (request : Request)
  deriving DecidableEq, Repr

/-- The arguments that were understood so far. -/
structure Arguments where
  /-- The input. -/
  input : Option String := none
  /-- The option `output`. -/
  output : Option String := none
  /-- The option `format`. -/
  format : Option OutputFormat := none
  /-- The option `config`. -/
  config : Option String := none
  /-- The flag `debug`. -/
  debug : Bool := false

/-- An option with a value. -/
inductive ValueOption where
  | output
  | format
  | config
  deriving DecidableEq, Repr

/-- The long name of an option. -/
def ValueOption.long : ValueOption → String
  | .output => "output"
  | .format => "format"
  | .config => "config"

/-- The letter of an option. -/
def ValueOption.short : ValueOption → Char
  | .output => 'o'
  | .format => 'F'
  | .config => 'c'

/-- All options with a value. -/
def ValueOption.all : List ValueOption := [.output, .format, .config]

/-- The format of exactly this name. -/
def exactFormat? (name : String) : Option OutputFormat :=
  [OutputFormat.yaml, .json].find? fun format => format.name == name

namespace Arguments

/-- Set an option that was not set before. A path is never empty, and a format has a fixed name. -/
def set? (a : Arguments) (option : ValueOption) (value : String) : Option Arguments :=
  if value.isEmpty then none
  else match option with
    | .output => if a.output.isSome then none else some { a with output := value }
    | .config => if a.config.isSome then none else some { a with config := value }
    | .format =>
        if a.format.isSome then none
        else (exactFormat? value).map fun format => { a with format := format }

/-- Set the input, which must be the only one. -/
def setInput? (a : Arguments) (value : String) : Option Arguments :=
  if value.isEmpty || a.input.isSome then none else some { a with input := value }

/-- The request of arguments that are complete. -/
def request? (a : Arguments) : Option Request :=
  a.input.map fun input => ⟨input, a.output, a.format.getD .yaml, a.config, a.debug⟩

/-- What one argument is, by its shape. -/
inductive Shape where
  /-- The end of the options. -/
  | terminator
  /-- The flag `debug`. -/
  | debug
  /-- The flag `help`. -/
  | help
  /-- The flag `version`. -/
  | version
  /-- An option with its value attached. -/
  | attached (option : ValueOption) (value : String)
  /-- An option whose value follows. -/
  | detached (option : ValueOption)
  /-- An input. -/
  | input
  /-- None of these. -/
  | unknown

/-- The shape of a long option: its name, and its value behind an equals sign. -/
def longShape (s : List Char) : Shape :=
  let name := String.ofList (s.takeWhile (· != '='))
  let value := s.dropWhile (· != '=')
  match ValueOption.all.find? fun option => option.long == name, value with
  | some option, [] => .detached option
  | some option, _ :: value => .attached option (String.ofList value)
  | none, [] =>
      if name = "debug" then .debug
      else if name = "help" then .help
      else if name = "version" then .version
      else .unknown
  | none, _ => .unknown

/-- The shape of a short option: its letter, and its value directly behind it or behind an equals
sign. -/
def shortShape (letter : Char) (value : List Char) : Shape :=
  if letter = 'h' then .help
  else if letter = 'V' then .version
  else match ValueOption.all.find? fun option => option.short == letter, value with
    | some option, [] => .detached option
    | some option, '=' :: value => .attached option (String.ofList value)
    | some option, value => .attached option (String.ofList value)
    | none, _ => .unknown

/-- The shape of an argument. A dash alone is an input. -/
def shape (argument : String) : Shape :=
  match argument.toList with
  | ['-', '-'] => .terminator
  | '-' :: '-' :: s => longShape s
  | '-' :: letter :: value => shortShape letter value
  | _ => .input

/-- Whether an argument can be the value of the option before it. -/
def isValue (argument : String) : Bool :=
  match argument.toList with
  | '-' :: _ :: _ => false
  | _ => true

/-- Take arguments from left to right. The first that cannot be understood decides, and so does a
request for help or for the version. -/
def parseFrom (a : Arguments) : List String → Option Command
  | [] => a.request?.map .run
  | argument :: rest =>
      match shape argument with
      -- behind the terminator everything is an input, and there is room for one
      | .terminator => do
          let a ← rest.foldlM setInput? a
          a.request?.map .run
      | .help => some .help
      | .version => some .version
      | .debug => if a.debug then none else parseFrom { a with debug := true } rest
      | .attached option value => do parseFrom (← a.set? option value) rest
      | .detached option =>
          match rest with
          | value :: rest =>
              if isValue value then do parseFrom (← a.set? option value) rest else none
          | [] => none
      | .input => do parseFrom (← a.setInput? argument) rest
      | .unknown => none

/-- What the arguments ask for, or `none` if they cannot be understood. -/
def parse (arguments : List String) : Option Command := parseFrom {} arguments

end Arguments

end IngestPipeline.CommandLine
