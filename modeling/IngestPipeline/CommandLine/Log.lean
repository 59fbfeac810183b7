import IngestPipeline.CommandLine.LogFilter

/-! # The log of a run

Which events are shown is asked for by a **request** outside the arguments, and otherwise chosen by
whether everything is to be logged.

* **`LogReader`**: how the text of a request is read; **`LogFilter.reader`** reads it as rules.
* **`LogReader.shown?`**: the events that a run shows.
* **`eventLine`**: an event as a line of the log.
* **`logText`**: the log of a run. -/

namespace IngestPipeline.CommandLine

/-! ### Requests -/

/-- How the text of a log request is read. Reading belongs to no run in particular: it knows the
text alone. -/
structure LogReader where
  /-- The events that a request asks for, or why it cannot be followed. -/
  read : String → Except LogError (Event → Bool)

/-- A request is read as the rules of a filter. -/
def LogFilter.reader : LogReader where
  read text := (LogFilter.ofText text).map LogFilter.shows

/-- The events that a run shows: those that are requested if the request can be understood, and
otherwise everything that helps to debug, or warnings only. There is no answer if reading the
request ends the program. -/
def LogReader.shown? (logs : LogReader) (request : Option String) (debug : Bool) :
    Option (Event → Bool) :=
  match request.map logs.read with
  | some (.ok shown) => some shown
  | some (.error .aborted) => none
  | _ => some (LogFilter.overall (if debug then ⟨4⟩ else ⟨2⟩)).shows

/-! ### Lines -/

/-- A character of a message. Control characters that a terminal would act on are spelled out. -/
def shownChar (c : Char) : List Char :=
  if c = '\x1b' then "\\x1b".toList
  else if c = '\x07' then "\\x07".toList
  else if c = '\x08' then "\\x08".toList
  else if c = '\x0c' then "\\x0c".toList
  else if c = '\x7f' then "\\x7f".toList
  else if 0x80 ≤ c.toNat ∧ c.toNat ≤ 0x9F then
    "\\u\x7b".toList ++ Nat.toDigits 16 c.toNat ++ ['\x7d']
  else [c]

/-- An event as a line: the level, right-aligned to five columns, the message and the fields. -/
def eventLine (e : Event) : String :=
  let level := e.level.name
  let pad := String.ofList (List.replicate (5 - level.length) ' ')
  let fields := e.fields.map fun f => " " ++ f.1 ++ "=" ++ f.2
  pad ++ level ++ " " ++ String.ofList (e.message.toList.flatMap shownChar) ++ String.join fields ++
    "\n"

/-- The lines of the events that are shown. -/
def logText (shown : Event → Bool) (events : List Event) : String :=
  String.join ((events.filter shown).map eventLine)

end IngestPipeline.CommandLine
