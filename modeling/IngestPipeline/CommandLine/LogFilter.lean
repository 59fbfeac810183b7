import IngestPipeline.CommandLine.ValuePattern
import IngestPipeline.Pipeline.Event
import IngestPipeline.Text.Octet
import IngestPipeline.Text.Replace

/-! # Log filters

A log filter is a list of **rules**. A rule says up to which level events are shown, and it concerns
all events, or those whose topic begins with a given text, or those that have a given field. Of the
rules that concern an event the most specific one decides, and the last of several alike.

* **`Verbosity.ofText?`**: a level by its name or number.
* **`LogRule.ofText`**: a rule by its spelling: `level`, `topic`, `topic=level`, and with a part in
  brackets between topic and level.
* **`LogFilter.ofText`**: a whole filter.
* **`LogFilter.shows`**: whether an event is shown. -/

namespace IngestPipeline.CommandLine

/-! ### Levels -/

/-- How many events are shown: those of a rank up to the given one. -/
structure Verbosity where
  /-- Zero shows nothing; the ranks of the levels are one to five, errors first. -/
  rank : Nat
  deriving DecidableEq, Repr

namespace Verbosity

/-- Everything is shown. -/
def everything : Verbosity := ⟨5⟩

/-- The verbosities by name. -/
def names : List (String × Nat) :=
  [("off", 0), ("error", 1), ("warn", 2), ("info", 3), ("debug", 4), ("trace", 5)]

/-- The number that decimal digits denote, perhaps behind a plus sign. -/
def number? : List Char → Option Nat
  | '+' :: digits => Text.natural? 10 digits
  | digits => Text.natural? 10 digits

/-- A verbosity by its number, or by its name, letter case aside. -/
def ofText? (s : List Char) : Option Verbosity :=
  match number? s with
  | some n => if n ≤ 5 then some ⟨n⟩ else none
  | none => (names.lookup (String.ofList (s.map Char.toLower))).map Verbosity.mk

/-- A verbosity behind an equals sign. Nothing stands for everything. -/
def assigned? (s : List Char) : Option Verbosity :=
  if s.isEmpty then some everything else ofText? s

end Verbosity

/-- The rank of a level. -/
def levelRank : Level → Nat
  | .warn => 2
  | .info => 3
  | .debug => 4

/-! ### Rules -/

/-- Why a text is no filter. -/
inductive LogError where
  /-- The text cannot be understood. -/
  | refused
  /-- A part of the text would begin or end inside a character. This is no refusal: it ends the
  program. -/
  | aborted
  deriving DecidableEq, Repr

/-- The content of an option, or an error if there is none. -/
def LogError.ifNone (e : LogError) : Option α → Except LogError α
  | some a => .ok a
  | none => .error e

/-- Up to which level events are shown. -/
structure LogRule where
  /-- What the topic begins with, if the rule is about a topic. -/
  topic : Option String
  /-- The fields that an event must have. -/
  fields : List String
  /-- What is shown. -/
  verbosity : Verbosity
  deriving DecidableEq, Repr

namespace LogRule

/-- A rule about all events. -/
def overall (v : Verbosity) : LogRule := ⟨none, [], v⟩

/-- Whether a rule may begin with a character, other than a bracket. -/
def startsTopic (c : Char) : Bool := c = '-' || c = ':' || c = '_' || Text.isAlphanumeric c

/-- Whether a text is a number behind a plus sign. -/
def isPlusNumber : List Char → Bool
  | '+' :: s =>
      (Text.unsignedDecimal? s).isSome ||
        ["inf", "infinity", "nan"].contains (String.ofList (s.map Char.toLower))
  | _ => false

/-- Whether a text may be the value of a field: a number or a pattern. A number is a pattern as well
unless it begins with a plus sign, and so is a truth value. -/
def isValue (s : List Char) : Bool := isPlusNumber s || ValuePattern.isWellFormed s

/-- Read a field, which may have a value: its name if it has none. The outer answer is whether the
spelling is right. -/
def field? (s : List Char) : Option (Option String) :=
  if s.isEmpty then none
  else
    match Text.parts '=' s with
    | _ :: value :: _ => if isValue value then some none else none
    | _ => some (some (String.ofList s))

/-- The part of a rule behind a position. -/
def partBehind (s : List Char) (n : Nat) : Except LogError (List Char) :=
  LogError.aborted.ifNone (Text.behind? n s)

/-- The part of a rule between two positions. -/
def partBetween (s : List Char) (m n : Nat) : Except LogError (List Char) :=
  LogError.aborted.ifNone (Text.between? m n s)

/-- The topic of a rule in brackets, which stands before the position of the opening one. -/
def topicBefore (s : List Char) (n : Nat) : Except LogError (Option String) :=
  if n = 0 then .ok none else (partBetween s 0 n).map fun topic => some (String.ofList topic)

/-- The level behind the position of an equals sign. -/
def verbosityAt (s : List Char) (n : Nat) : Except LogError Verbosity := do
  LogError.refused.ifNone (Verbosity.assigned? (← partBehind s (n + 1)))

/-- The level of a rule in brackets, `rest` being what follows the brackets at the position `n`. -/
def verbosityBehind (s rest : List Char) (n : Nat) : Except LogError Verbosity :=
  match rest with
  | [] => .ok .everything
  | '=' :: _ => verbosityAt s n
  | _ => .error .refused

/-- A field in braces, `braced` being what follows the opening brace at the position `m`, and the
level behind the closing brace and bracket. -/
def bracedField (s braced : List Char) (m : Nat) :
    Except LogError (Option String × Verbosity) := do
  let content := braced.takeWhile (· != '\x7d')
  let width := Text.octets content
  match braced.drop content.length with
  | '\x7d' :: rest =>
      -- the field is judged before what follows the brace
      let field ← LogError.refused.ifNone (field? (← partBetween s (m + 1) (m + 1 + width)))
      match rest with
      | ']' :: rest => return (field, ← verbosityBehind s rest (m + width + 3))
      | _ => .error .refused
  | _ => .error .refused

/-- A rule `s` with a part in brackets: without the blanks around it, `topic` stands before the
opening bracket and `inside` behind it. The part is the name of a scope, or a field in braces, or
both, and a level may stand behind the closing bracket. The result is the rule as far as it is about
events: there are no scopes, and a field with a value belongs to one. -/
def bracketed (s topic inside : List Char) : Except LogError (Option LogRule) := do
  let n := Text.octets topic
  let topic ← topicBefore s n
  let scope := inside.takeWhile fun c => c != ']' && c != '\x7b'
  let m := n + 1 + Text.octets scope
  match inside.drop scope.length with
  | ']' :: rest =>
      let _ ← partBetween s (n + 1) m
      let _ ← verbosityBehind s rest (m + 1)
      return none
  | '\x7b' :: braced =>
      let _ ← partBetween s (n + 1) m
      let (field, v) ← bracedField s braced m
      return if scope.isEmpty then field.map fun name => ⟨topic, [name], v⟩ else none
  | _ => .error .refused

/-- A rule by its spelling, as far as it is about events. A word alone is a level if it can be, and
otherwise a topic of which everything is shown.

The signs that divide a rule are looked for in the text without the blanks around it, and the parts
are cut out of the text with them, at the same positions, counted in octets. So blanks in front
shift every part, perhaps to a position inside a character, and blanks at the end belong to the last
one. -/
def ofText (s : List Char) : Except LogError (Option LogRule) :=
  let word := Text.trim s
  if !word.head?.any fun c => c = '[' || startsTopic c then .error .refused
  else
    let topic := word.takeWhile fun c => c != '=' && c != '['
    let n := Text.octets topic
    match word.drop topic.length with
    | [] =>
        match Verbosity.ofText? s with
        | some v => .ok (some (overall v))
        | none => .ok (some ⟨some (String.ofList s), [], .everything⟩)
    | '=' :: _ => do
        let topic ← partBetween s 0 n
        let v ← verbosityAt s n
        return some ⟨some (String.ofList topic), [], v⟩
    | _ :: inside => bracketed s topic inside

/-- Whether a rule is about an event. The message of an event counts as a field. -/
def concerns (r : LogRule) (e : Event) : Bool :=
  (r.topic.all fun topic => topic.toList.isPrefixOf e.topic.toList) &&
    r.fields.all fun field => field == "message" || (e.fields.lookup field).isSome

/-- How specific the topic of a rule is. -/
def topicWeight (r : LogRule) : Nat :=
  match r.topic with
  | none => 0
  | some topic => topic.utf8ByteSize + 1

/-- Whether a rule is more specific than another one: its topic is longer, or as long and it asks
for more fields, or for as many that come later in the alphabet. -/
def outranks (r s : LogRule) : Bool :=
  s.topicWeight < r.topicWeight ||
    (s.topicWeight == r.topicWeight &&
      (s.fields.length < r.fields.length ||
        (s.fields.length == r.fields.length && decide (s.fields < r.fields))))

end LogRule

/-! ### Filters -/

/-- Which events are shown. -/
structure LogFilter where
  /-- The rules, in the order of the text. -/
  rules : List LogRule
  deriving DecidableEq, Repr

namespace LogFilter

/-- A filter by its spelling: rules between commas, empty ones being passed over. The first rule
that cannot be read decides. -/
def ofText (s : String) : Except LogError LogFilter := do
  let rules ← ((Text.parts ',' s.toList).filter fun part => !part.isEmpty).mapM LogRule.ofText
  return ⟨rules.filterMap id⟩

/-- The filter with one rule about all events. -/
def overall (v : Verbosity) : LogFilter := ⟨[.overall v]⟩

/-- The rule that decides about an event: the most specific one, and the last of several alike. -/
def decisive? (f : LogFilter) (e : Event) : Option LogRule :=
  (f.rules.filter fun r => r.concerns e).foldl
    (fun best r =>
      match best with
      | some b => if b.outranks r then some b else some r
      | none => some r)
    none

/-- Whether an event is shown. -/
def shows (f : LogFilter) (e : Event) : Bool :=
  (f.decisive? e).any fun r => levelRank e.level ≤ r.verbosity.rank

end LogFilter

end IngestPipeline.CommandLine
