import IngestPipeline.Yaml.Tag

/-! # Tokens

The pieces that a document's text is cut into. Indentation is made explicit: a block collection is
enclosed by a start and an end, and a key that is recognised by the colon behind it is announced
by a `key` token of its own. -/

namespace IngestPipeline.Yaml

/-- A piece of a document. -/
inductive Token where
  /-- A directive that states the version. -/
  | version (major minor : Nat)
  /-- A directive that gives a tag handle its meaning. -/
  | handle (name : String) (meaning : Tag)
  /-- Three dashes. -/
  | documentStart
  /-- Three dots. -/
  | documentEnd
  /-- The start of a block sequence. -/
  | blockSequenceStart
  /-- The start of a block mapping. -/
  | blockMappingStart
  /-- The end of a block collection. -/
  | blockEnd
  /-- An opening bracket. -/
  | flowSequenceStart
  /-- A closing bracket. -/
  | flowSequenceEnd
  /-- An opening brace. -/
  | flowMappingStart
  /-- A closing brace. -/
  | flowMappingEnd
  /-- A dash. -/
  | blockEntry
  /-- A comma. -/
  | flowEntry
  /-- A question mark, or the announcement of a key. -/
  | key
  /-- A colon. -/
  | value
  /-- A reference to an anchor. -/
  | alias (name : String)
  /-- A name for the node that follows. -/
  | anchor (name : String)
  /-- A tag: its handle, which is empty if the tag is complete, and the rest of it. -/
  | tag (handle : String) (rest : Tag)
  /-- A scalar, and whether it stands without quotes. -/
  | scalar (text : String) (plain : Bool)
  deriving DecidableEq, Repr

end IngestPipeline.Yaml
