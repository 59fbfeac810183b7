import IngestPipeline.Pipeline.Assembly
import IngestPipeline.Render
import IngestPipeline.Yaml.Mark

/-! # Pipelines

A pipeline is a list of processors. They are taken in order, and the first that cannot be carried
over ends the run with a **failure**.

* **`Pipeline.run`**: the blocks of a pipeline or its failure, and the events on the way.
* **`Pipeline.decode`**: the decoder document of a pipeline document. -/

namespace IngestPipeline

/-- A fault of a processor, together with the processor. -/
structure ProcessorFailure where
  /-- The position of the processor in the pipeline. -/
  index : Nat
  /-- The name of its operation, as far as it has one. -/
  operation : String
  /-- The processor as it is in the document. -/
  processor : Value
  /-- The fault. -/
  cause : ProcessorError
  deriving Repr

namespace ProcessorFailure

/-- The wording of a failure. -/
def message (f : ProcessorFailure) : String :=
  "Failed to translate processor #" ++ toString f.index ++ " ('" ++ f.operation ++ "'): " ++
    f.cause.message

/-- The processor as indented JSON, or as YAML if it has no JSON form. -/
def dump (f : ProcessorFailure) : String :=
  match f.processor.toJson? with
  | some json => json.pretty
  | none =>
      match Yaml.printChecked f.processor with
      | .ok text => text
      | .error e => "<unprintable processor: " ++ e.message ++ ">"

end ProcessorFailure

/-- Why a document has no pipeline. -/
inductive PipelineError where
  /-- There is no list of processors. -/
  | missingProcessors
  /-- What should be the list of processors is something else. -/
  | processorsNotSequence
  /-- A processor cannot be carried over. -/
  | processor (failure : ProcessorFailure)
  deriving Repr

/-- The wording of a pipeline error. -/
def PipelineError.message : PipelineError → String
  | .missingProcessors => "Document has no 'processors' key"
  | .processorsNotSequence => "'processors' must be a sequence"
  | .processor failure => failure.message

namespace Pipeline

/-- The name that a processor is reported by: its first key, if that is a string. -/
def reportedOperation (v : Value) : String :=
  match v.untag with
  | .map ((key, _) :: _) =>
      match key.untag with
      | .string name => name
      | _ => "<unknown>"
  | _ => "<unknown>"

/-- What one processor reports before its contribution is added. -/
def processorEvents (s : Settings) (v : Value) : List Event :=
  match Processor.resolved s v with
  | .error _ => []
  | .ok p => .processor p.operation :: (p.warnings s).map .warning

/-- What one processor contributes. -/
def contribution (s : Settings) (v : Value) : Except ProcessorError Processor.Contribution := do
  (← Processor.resolved s v).contribution s

/-- Add the processors from position `index` on to an assembly. -/
def runFrom (s : Settings) (index : Nat) (a : Assembly) :
    List Value → List Event × Except ProcessorFailure (List Block)
  | [] => (a.closeEvents, .ok a.blocks)
  | v :: vs =>
      match contribution s v with
      -- what was reported before the fault stays reported
      | .error cause => (processorEvents s v, .error ⟨index, reportedOperation v, v, cause⟩)
      | .ok c =>
          let rest := runFrom s (index + 1) (a.push c) vs
          (processorEvents s v ++ a.pushEvents c ++ rest.1, rest.2)

/-- The events of a list of processors, and its blocks or its failure. -/
def run (s : Settings) (processors : List Value) :
    List Event × Except ProcessorFailure (List Block) :=
  runFrom s 0 {} processors

/-- The blocks of a list of processors. -/
def blocks (s : Settings) (processors : List Value) : Except ProcessorFailure (List Block) :=
  (run s processors).2

/-- The list of processors in a document. -/
def processors (document : Value) : Except PipelineError (List Value) :=
  match document.untag with
  | .map es =>
      match (es.lookup (.string "processors")).map Value.untag with
      | none => .error .missingProcessors
      | some (.seq items) => .ok items
      | some _ => .error .processorsNotSequence
  | _ => .error .missingProcessors

/-- The decoder document of a pipeline document, and the events on the way. -/
def decode (s : Settings) (document : Value) : List Event × Except PipelineError Decoder :=
  match processors document with
  | .error e => ([], .error e)
  | .ok items =>
      match run s items with
      | (events, .error failure) => (events, .error (.processor failure))
      | (events, .ok blocks) =>
          (events ++ [.finished items.length blocks.length], .ok ⟨blocks, s.parseStyle⟩)

end Pipeline

end IngestPipeline
