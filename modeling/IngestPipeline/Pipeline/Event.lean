import IngestPipeline.Processor.Entries

/-! # Events

What a run reports while it works. Every event has a **level**, a **topic**, a **message** and named
**fields**. -/

namespace IngestPipeline

/-- How much an event matters. -/
inductive Level where
  | warn
  | info
  | debug
  deriving DecidableEq, Repr

/-- The name of a level. -/
def Level.name : Level → String
  | .warn => "WARN"
  | .info => "INFO"
  | .debug => "DEBUG"

/-- Something a run reports. -/
inductive Event where
  /-- A pipeline is about to be read. -/
  | reading (path : String)
  /-- A processor was decoded and its rule is about to be applied. -/
  | processor (operation : Operation)
  /-- A date format was found wanting. -/
  | warning (warning : Processor.Warning)
  /-- An unguarded block begins; `index` blocks are complete. -/
  | opened (index : Nat)
  /-- The unguarded block ends, with this many entries. -/
  | closed (entries : Nat)
  /-- A guarded block is added. -/
  | guarded (check : String)
  /-- All processors are done. -/
  | finished (processors blocks : Nat)
  deriving DecidableEq, Repr

namespace Event

/-- The level of an event. -/
def level : Event → Level
  | .warning _ => .warn
  | .finished .. => .info
  | _ => .debug

/-- The topic of an event, by which a log filter tells it from others. -/
def topic : Event → String
  | .reading _ => "ingest_decoder"
  | .processor _ => "ingest_decoder::translate"
  | .warning _ => "ingest_decoder::translate::dispatch"
  | .opened _ => "ingest_decoder::translate::builder"
  | .closed _ => "ingest_decoder::translate::builder"
  | .guarded _ => "ingest_decoder::translate::builder"
  | .finished .. => "ingest_decoder::translate"

/-- The message of an event. -/
def message : Event → String
  | .reading _ => "reading pipeline"
  | .processor _ => "translating processor"
  | .warning w => w.finding
  | .opened _ => "opening map block"
  | .closed _ => "closing map block"
  | .guarded _ => "emitting guarded block"
  | .finished .. => "pipeline translated"

/-- The fields of an event, in order. -/
def fields : Event → List (String × String)
  | .reading path => [("input", path)]
  | .processor operation => [("operation", operation.name)]
  | .warning w => [("field", w.field), ("format", w.format)]
  | .opened index => [("block", toString index)]
  | .closed entries => [("entries", toString entries)]
  | .guarded check => [("check", check)]
  | .finished processors blocks =>
      [("processors", toString processors), ("blocks", toString blocks)]

end Event

end IngestPipeline
