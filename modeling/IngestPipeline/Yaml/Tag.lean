/-! # Tags

A tag is a string of **octets**: its escapes name octets one by one, and these need not encode a
text. A zero octet ends whatever part of a tag it stands in.

* **`Tag.ended`**: the part of a tag before its first zero octet.
* **`Tag.core`**: the tags of the format itself.
* **`Tag.applicationName?`**: the name of a tag that an application gives. -/

namespace IngestPipeline.Yaml

/-- A tag, or a part of one. -/
structure Tag where
  /-- The octets of the tag. -/
  octets : List UInt8
  deriving DecidableEq, Repr

namespace Tag

/-- The tag that a text spells. -/
def ofText (s : String) : Tag := ⟨s.toUTF8.toList⟩

/-- One part of a tag behind another. -/
def append (t u : Tag) : Tag := ⟨t.octets ++ u.octets⟩

instance : Append Tag := ⟨append⟩

/-- The part before the first zero octet. -/
def ended (t : Tag) : Tag := ⟨t.octets.takeWhile (· != 0)⟩

/-- The octet of the exclamation mark. -/
def markOctet : UInt8 := 0x21

/-- The exclamation mark alone. -/
def mark : Tag := ⟨[markOctet]⟩

/-- What the short form `!!` of the tags of the format stands for. -/
def corePart : Tag := ofText "tag:yaml.org,2002:"

/-- The tag of the format itself with the given name. -/
def core (name : String) : Tag := corePart ++ ofText name

/-- Whether a tag is given by an application: it begins with an exclamation mark. -/
def isApplication (t : Tag) : Bool := t.octets.head? == some markOctet

/-- The name of a tag that an application gives: what follows its exclamation mark, or the mark
itself if nothing follows. Octets that encode no text give no name. -/
def applicationName? (t : Tag) : Option String :=
  if t.isApplication then
    let name := if t.octets.tail.isEmpty then t.octets else t.octets.tail
    String.fromUTF8? ⟨name.toArray⟩
  else none

end Tag

end IngestPipeline.Yaml
