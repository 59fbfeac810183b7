import IngestPipeline.CommandLine.ValuePattern.Class
import IngestPipeline.Text.Letter

/-! # Value patterns

A value pattern is a regular expression for the value of a field. Events are never compared with
one; what counts is whether it is **well formed**.

* **`OpenGroup`**: a group of which the end has not been reached.
* **`step?`**: one item, operator or parenthesis.
* **`isWellFormed`**: whether a text is a pattern. -/

namespace IngestPipeline.CommandLine.ValuePattern

/-! ### Groups -/

/-- A group that is being read. The pattern as a whole is one, too. -/
structure OpenGroup where
  /-- The options in force. -/
  options : Options
  /-- The alternatives before the last bar. -/
  branches : Row
  /-- The items behind it. -/
  items : Row
  /-- How deep the last item is nested, if it can be repeated. -/
  last : Option Nat
  deriving DecidableEq, Repr

namespace OpenGroup

/-- A group of which nothing has been read. -/
def start (o : Options) : OpenGroup := ⟨o, .empty, .empty, none⟩

/-- One more item, nested to the given depth. -/
def push (g : OpenGroup) (depth : Nat) : OpenGroup :=
  { g with items := g.items.push depth, last := some depth }

/-- A change of options is an item that cannot be repeated. It lasts to the end of the group. -/
def change (g : OpenGroup) (o : Options) : OpenGroup :=
  { g with options := o, items := g.items.push 0, last := none }

/-- A bar: what follows is another alternative. -/
def branch (g : OpenGroup) : OpenGroup :=
  { g with branches := g.branches.push g.items.height, items := .empty, last := none }

/-- The last item is repeated, which nests it one level deeper. -/
def repeatLast? (g : OpenGroup) : Option OpenGroup :=
  g.last.map fun depth =>
    { g with items := ⟨g.items.count, max g.items.depth (depth + 1)⟩, last := some (depth + 1) }

/-- How deep the content of the group is nested. -/
def height (g : OpenGroup) : Nat := (g.branches.push g.items.height).height

end OpenGroup

/-! ### Opening a group -/

/-- What an opening parenthesis begins. -/
inductive Opening where
  /-- A change of options, which is complete. -/
  | change (o : Options)
  /-- A group, with its name if it has one. -/
  | group (name : Option (List Char)) (o : Options)
  deriving DecidableEq, Repr

/-- Whether a character may follow the first one of a name. -/
def isNameChar (c : Char) : Bool :=
  c = '_' || c = '.' || c = '[' || c = ']' || Text.isAlphanumeric c

/-- Read the name of a group and the angle bracket behind it. -/
def groupName? (s : List Char) : Option (List Char × List Char) :=
  match s.takeWhile (· != '>'), s.dropWhile (· != '>') with
  | first :: more, _ :: rest =>
      if (first = '_' || Text.isLetter first) && more.all isNameChar then
        some (first :: more, rest)
      else none
  | _, _ => none

/-- Read the letters of options, of which none may come twice, and what ends them: a colon or a
parenthesis. One hyphen may stand before a letter. -/
def flags? (s : List Char) : Option (List Char × Char × List Char) :=
  let flags := s.takeWhile fun c => c != ':' && c != ')'
  match s.drop flags.length with
  | stop :: rest =>
      if flags.all ('-' :: Options.letters).contains && decide flags.Nodup &&
          flags.getLast? != some '-' then
        some (flags, stop, rest)
      else none
  | [] => none

/-- Read what an opening parenthesis begins. Looking ahead and behind is not provided for. -/
def opening? (o : Options) (s : List Char) : Option (Opening × List Char) :=
  match o.skip s with
  | '?' :: 'P' :: '<' :: rest => (groupName? rest).map fun (name, rest) => (.group name o, rest)
  | '?' :: '<' :: rest => (groupName? rest).map fun (name, rest) => (.group name o, rest)
  | '?' :: rest => do
      let (flags, stop, rest) ← flags? rest
      if stop = ':' then some (.group none (o.set flags), rest)
      else if flags.isEmpty then none
      else some (.change (o.set flags), rest)
  | rest => some (.group none o, rest)

/-! ### Whole patterns -/

/-- How far a pattern has been read. -/
structure Reading where
  /-- The innermost group. -/
  group : OpenGroup
  /-- The groups around it, from the innermost on. -/
  outer : List OpenGroup
  /-- The names of the groups so far. -/
  names : List (List Char)
  deriving DecidableEq, Repr

namespace Reading

/-- Nothing has been read. -/
def start : Reading := ⟨.start .initial, [], []⟩

/-- One more item of the innermost group, nested to the given depth. -/
def push (r : Reading) (depth : Nat) : Reading := { r with group := r.group.push depth }

/-- A group begins. Its name must be new. -/
def enter? (r : Reading) (name : Option (List Char)) (o : Options) : Option Reading :=
  if name.any r.names.contains then none
  else some ⟨.start o, r.group :: r.outer, name.toList ++ r.names⟩

/-- The innermost group ends. -/
def leave? (r : Reading) : Option Reading :=
  match r.outer with
  | [] => none
  | parent :: outer => some { r with group := parent.push (r.group.height + 1), outer }

/-- Whether the pattern may end here: all groups are closed, and it is not nested too deep. -/
def isComplete (r : Reading) : Bool := r.outer.isEmpty && r.group.height ≤ depthLimit

end Reading

/-- One item, operator or parenthesis, and the rest. A question mark may follow the operator of a
repetition. How often to repeat cannot be said in numbers, since a value holds no closing brace. -/
def step? (r : Reading) : List Char → Option (Reading × List Char)
  | [] => none
  | c :: rest =>
      let o := r.group.options
      match c with
      | '(' => do
          match ← opening? o rest with
          | (.change o, rest) => return ({ r with group := r.group.change o }, rest)
          | (.group name o, rest) => return (← r.enter? name o, rest)
      | ')' => r.leave?.map (·, rest)
      | '|' => some ({ r with group := r.group.branch }, rest)
      | '[' => (class? o rest).map fun (depth, rest) => (r.push depth, rest)
      | '\x7b' => none
      | '\\' => (escape? o rest).map fun (_, rest) => (r.push 0, rest)
      | '.' => if o.unicode then some (r.push 0, rest) else none
      | _ =>
          if c = '?' || c = '*' || c = '+' then do
            let group ← r.group.repeatLast?
            let rest := if rest.head? == some '?' then rest.tail else rest
            return ({ r with group }, rest)
          else some (r.push 0, rest)

/-- Read all of a text. -/
def readAll? (r : Reading) (s : List Char) : Option Reading :=
  match r.group.options.skip s with
  | [] => some r
  | c :: rest =>
      match step? r (c :: rest) with
      | none => none
      | some (r, rest) =>
          if _h : rest.length < s.length then readAll? r rest
          else none   -- unreachable: a step takes something
termination_by s.length
decreasing_by assumption

/-- Whether a text is a pattern. -/
def isWellFormed (s : List Char) : Bool := (readAll? .start s).any Reading.isComplete

end IngestPipeline.CommandLine.ValuePattern
