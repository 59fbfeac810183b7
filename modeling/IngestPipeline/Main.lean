import IngestPipeline.CommandLine

/-! # The program

The command line over the files of the operating system. -/

namespace IngestPipeline.CommandLine

/-- The environment variable that chooses which events are shown. -/
def logVariable : String := "RUST_LOG"

/-- A refusal of the operating system. -/
def fileErrorOf (e : IO.Error) : FileError :=
  match e with
  | .noFileOrDirectory .. => .notFound
  | .noSuchThing .. => .notFound
  | .inappropriateType _ code _ => if code = 20 then .notDirectory else .isDirectory
  | .invalidArgument _ 36 _ => .nameTooLong
  | e => .other (toString e)

/-- What an action gives, or the refusal of the operating system. -/
def attempt (action : IO α) : IO (Except FileError α) := do
  try
    return .ok (← action)
  catch e =>
    return .error (fileErrorOf e)

/-- Access to the files of the operating system. -/
def systemFiles : FileAccess IO where
  read path := attempt (IO.FS.readBinFile path)
  write path bytes := attempt (IO.FS.writeBinFile path bytes)

end IngestPipeline.CommandLine

open IngestPipeline.CommandLine in
/-- The entry point. -/
def main (arguments : List String) : IO UInt32 := do
  let outcome ← run systemFiles LogFilter.reader arguments (← IO.getEnv logVariable)
  IO.print outcome.stdout
  IO.eprint outcome.stderr
  return outcome.code.toUInt32
