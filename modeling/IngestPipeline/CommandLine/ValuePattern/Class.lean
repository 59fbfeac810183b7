import IngestPipeline.CommandLine.ValuePattern.Escape

/-! # Classes of value patterns

A class is a set of characters in brackets: characters, ranges, sets by name and further classes,
side by side or combined by operators.

* **`OpenClass`**: a class of which the end has not been reached.
* **`classStep?`**: one item, operator or bracket.
* **`closeClasses?`**: all to the bracket that closes the outermost class. -/

namespace IngestPipeline.CommandLine.ValuePattern

/-- A class that is being read. -/
structure OpenClass where
  /-- How deep everything before the last operator is nested, if there is an operator. -/
  left : Option Nat
  /-- The items behind it. -/
  items : Row
  deriving DecidableEq, Repr

namespace OpenClass

/-- One more item, nested to the given depth. -/
def push (k : OpenClass) (depth : Nat) : OpenClass := { k with items := k.items.push depth }

/-- How deep the content of the class is nested. An operator adds a level to both its sides. -/
def height (k : OpenClass) : Nat :=
  match k.left with
  | none => k.items.height
  | some left => max left k.items.height + 1

/-- An operator: what has been read is its left side. -/
def split (k : OpenClass) : OpenClass := ⟨some k.height, .empty⟩

end OpenClass

/-! ### The front of a class -/

/-- The hyphens at the front of a class stand for themselves. -/
def hyphens (o : Options) (items : Row) (s : List Char) : Row × List Char :=
  match s with
  | '-' :: rest => hyphens o (items.push 0) (o.skip rest)
  | s => (items, s)
termination_by s.length
decreasing_by exact Nat.lt_succ_of_le (o.length_skip_le rest)

/-- Read the front of a class behind its opening bracket. The complement of a class reaches beyond
ASCII. A bracket that would close the class at once stands for itself. -/
def openClass? (o : Options) (s : List Char) : Option (OpenClass × List Char) :=
  let (negated, s) :=
    match o.skip s with
    | '^' :: rest => (true, o.skip rest)
    | s => (false, s)
  if negated && !o.unicode then none
  else
    match hyphens o .empty s with
    | (items, ']' :: rest) =>
        if items.count = 0 then some (⟨none, items.push 0⟩, rest)
        else some (⟨none, items⟩, ']' :: rest)
    | (items, s) => some (⟨none, items⟩, s)

/-! ### Items -/

/-- The sets that have a name. -/
def classNames : List String :=
  ["alnum", "alpha", "ascii", "blank", "cntrl", "digit", "graph", "lower", "print", "punct",
    "space", "upper", "word", "xdigit"]

/-- Read a name between colons behind an opening bracket: whether it is negated, and the rest. -/
def namedClass? : List Char → Option (Bool × List Char)
  | ':' :: s =>
      let (negated, s) :=
        match s with
        | '^' :: rest => (true, rest)
        | s => (false, s)
      match s.dropWhile (· != ':') with
      | ':' :: ']' :: rest =>
          if classNames.contains (String.ofList (s.takeWhile (· != ':'))) then some (negated, rest)
          else none
      | _ => none
  | _ => none

/-- Read an escape, or a character that stands for itself. -/
def classSymbol? (o : Options) : List Char → Option (Symbol × List Char)
  | [] => none
  | '\\' :: rest => escape? o rest
  | c :: rest => some (.char c, rest)

/-- Whether a symbol can be in a class. -/
def Symbol.fitsClass (o : Options) : Symbol → Bool
  | .char c => o.unicode || c.toNat < 0x80
  | .set => true
  | .place => false

/-- The character behind a hyphen that decides whether the hyphen makes a range. What stands in a
comment counts as well. -/
def behindHyphen? (o : Options) (s : List Char) : Option Char :=
  if o.spaced then
    let found :=
      match s.dropWhile Text.isBlank with
      | '#' :: rest => (rest.dropWhile Text.isBlank).head?
      | rest => rest.head?
    found.or s.head?
  else s.head?

/-- Read a symbol, or two of them with a hyphen between: the range from the one to the other. -/
def classRange? (o : Options) (s : List Char) : Option (List Char) := do
  let (low, rest) ← classSymbol? o s
  let alone := low.fitsClass o
  match o.skip rest with
  | '-' :: rest =>
      let next := behindHyphen? o rest
      if next == some ']' || next == some '-' then
        if alone then some ('-' :: rest) else none
      else
        let (high, rest) ← classSymbol? o (o.skip rest)
        match low, high with
        | .char c, .char d => if alone && high.fitsClass o && c ≤ d then some rest else none
        | _, _ => none
  | rest => if alone then some rest else none

/-! ### Whole classes -/

/-- How far a step goes. -/
inductive ClassStep where
  /-- A class is open, inside of others, from the innermost on. -/
  | inside (k : OpenClass) (outer : List OpenClass) (rest : List Char)
  /-- All classes are closed; the outermost is nested to the given depth. -/
  | closed (depth : Nat) (rest : List Char)
  deriving DecidableEq, Repr

/-- One item, operator or bracket of a class that stands inside of others. -/
def classStep? (o : Options) (k : OpenClass) (outer : List OpenClass) :
    List Char → Option ClassStep
  | '[' :: rest =>
      match namedClass? rest with
      | some (negated, rest) =>
          if negated && !o.unicode then none else some (.inside (k.push 0) outer rest)
      | none => (openClass? o rest).map fun (inner, rest) => .inside inner (k :: outer) rest
  | ']' :: rest =>
      match outer with
      | [] => some (.closed (k.height + 1) rest)
      | parent :: outer => some (.inside (parent.push (k.height + 1)) outer rest)
  | '&' :: '&' :: rest => some (.inside k.split outer rest)
  | '-' :: '-' :: rest => some (.inside k.split outer rest)
  | '~' :: '~' :: rest => some (.inside k.split outer rest)
  | s => (classRange? o s).map fun rest => .inside (k.push 0) outer rest

/-- Read to the end of the outermost class: how deep it is nested, and the rest. -/
def closeClasses? (o : Options) (k : OpenClass) (outer : List OpenClass) (s : List Char) :
    Option (Nat × List Char) :=
  match classStep? o k outer (o.skip s) with
  | none => none
  | some (.closed depth rest) => some (depth, rest)
  | some (.inside k outer rest) =>
      if _h : rest.length < s.length then closeClasses? o k outer rest
      else none   -- unreachable: a step takes something
termination_by s.length
decreasing_by assumption

/-- Read a class behind its opening bracket: how deep it is nested, and the rest. -/
def class? (o : Options) (s : List Char) : Option (Nat × List Char) := do
  let (k, rest) ← openClass? o s
  closeClasses? o k [] rest

end IngestPipeline.CommandLine.ValuePattern
