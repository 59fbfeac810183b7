import IngestPipeline.Decoder

/-! # Settings

The choices that a configuration can make, with their defaults. -/

namespace IngestPipeline

/-- The choices of a configuration. -/
structure Settings where
  /-- The value of an option `field` that stands for the time of the event. -/
  timestampMarker : String := "@timestamp"
  /-- The field that the marker is exchanged for. -/
  eventTimeField : String := "event.start"
  /-- The locale that dates are parsed in. -/
  locale : String := "en_US.UTF-8"
  /-- The helper that computes a digest. -/
  hashHelper : String := "sha1"
  /-- The field that holds several texts while their digest is computed. -/
  hashTempField : String := "_to_hash"
  /-- The delimiter that a separator is exchanged for before a text is split. -/
  splitDelimiter : String := "|"
  /-- How parse directives are written. -/
  parseStyle : ParseStyle := .nested
  deriving DecidableEq, Repr, Inhabited

namespace Settings

/-- The names of the settings that are texts, with their values. -/
def texts (s : Settings) : List (String × String) :=
  [("timestamp_marker", s.timestampMarker), ("event_time_field", s.eventTimeField),
    ("locale", s.locale), ("hash_helper", s.hashHelper), ("hash_temp_field", s.hashTempField),
    ("split_delimiter", s.splitDelimiter)]

/-- The name of the setting for the parse style. -/
def parseStyleName : String := "parse_style"

/-- Set the text setting of the given name, if there is one. -/
def setText? (s : Settings) (name value : String) : Option Settings :=
  match name with
  | "timestamp_marker" => some { s with timestampMarker := value }
  | "event_time_field" => some { s with eventTimeField := value }
  | "locale" => some { s with locale := value }
  | "hash_helper" => some { s with hashHelper := value }
  | "hash_temp_field" => some { s with hashTempField := value }
  | "split_delimiter" => some { s with splitDelimiter := value }
  | _ => none

end Settings

end IngestPipeline
