import IngestPipeline.Yaml.Lexeme.Block
import IngestPipeline.Yaml.Lexeme.Properties

/-! # Cutting a document into tokens

Block collections are told by indentation, and a key by the colon that follows it on the same
line. Both need memory: the indentations of the open block collections, and for each open flow
collection the place where a **possible key** began, so that its announcement can be put in front
of it once the colon is seen.

* **`Layout`**: the place in the text, the tokens so far and that memory.
* **`Layout.step?`**: the next token.
* **`tokenize?`**: all tokens of a text, or `none` if it is no document. -/

namespace IngestPipeline.Yaml

/-- A place where a key may have begun. -/
structure PossibleKey where
  /-- The number of tokens before it. -/
  tokens : Nat
  /-- The number of octets before it. -/
  index : Nat
  /-- Its line. -/
  line : Nat
  /-- Its column. -/
  column : Nat
  /-- Whether nothing but a key can stand there. -/
  required : Bool

/-- A document that is cut into tokens up to some place. -/
structure Layout where
  /-- The place. -/
  cursor : Cursor
  /-- The tokens before it, the last one first. -/
  tokens : List Token := []
  /-- The number of tokens before it. -/
  count : Nat := 0
  /-- The column of the innermost open block collection. -/
  indent : Int := -1
  /-- The columns of the block collections around it. -/
  outer : List Int := []
  /-- Whether a key may begin here. -/
  keyAllowed : Bool := true
  /-- The possible key of the innermost open collection. -/
  key : Option PossibleKey := none
  /-- The possible keys around each open flow collection. -/
  outerKeys : List (Option PossibleKey) := []

namespace Layout

/-- Whether a flow collection is open. -/
def inFlow (l : Layout) : Bool := !l.outerKeys.isEmpty

/-- Add a token. -/
def emit (l : Layout) (t : Token) : Layout :=
  { l with tokens := t :: l.tokens, count := l.count + 1 }

/-- Put a token in front of all but the first `n` tokens. -/
def insertAt (l : Layout) (n : Nat) (t : Token) : Layout :=
  let later := l.count - n
  { l with tokens := l.tokens.take later ++ t :: l.tokens.drop later, count := l.count + 1 }

/-- Go to another place. -/
def goto (l : Layout) (c : Cursor) : Layout := { l with cursor := c }

/-- Add a token of `n` characters and pass it. -/
def take (l : Layout) (t : Token) (n : Nat) : Layout := (l.emit t).goto (l.cursor.skip n)

/-! ### Possible keys -/

/-- A possible key lies on the current line and at most 1024 octets back. -/
def isCurrent (l : Layout) (k : PossibleKey) : Bool :=
  l.cursor.line ≤ k.line && l.cursor.index ≤ k.index + 1024

/-- Give up a possible key that is no longer current; a required key cannot be given up. -/
def refresh? (l : Layout) (k : Option PossibleKey) : Option (Option PossibleKey) :=
  match k with
  | none => some none
  | some k => if l.isCurrent k then some (some k) else if k.required then none else some none

/-- Give up all possible keys that are no longer current. -/
def refreshKeys? (l : Layout) : Option Layout := do
  let key ← l.refresh? l.key
  let outerKeys ← l.outerKeys.mapM l.refresh?
  return { l with key, outerKeys }

/-- Give up the possible key of the innermost collection. -/
def forgetKey? (l : Layout) : Option Layout :=
  if l.key.any (·.required) then none else some { l with key := none }

/-- Note that a key may begin here, if it may. -/
def noteKey? (l : Layout) : Option Layout :=
  if l.keyAllowed then do
    let l ← l.forgetKey?
    let c := l.cursor
    return { l with
      key := some ⟨l.count, c.index, c.line, c.column, !l.inFlow && l.indent == c.column⟩ }
  else some l

/-- Say whether a key may begin at the next place. -/
def allowKey (l : Layout) (allowed : Bool) : Layout := { l with keyAllowed := allowed }

/-! ### Indentation -/

/-- Open a block collection at a column deeper than the innermost one, its start token standing
behind the first `position` tokens. -/
def openBlock (l : Layout) (column : Nat) (position : Nat) (t : Token) : Layout :=
  if !l.inFlow && l.indent < column then
    { l.insertAt position t with indent := column, outer := l.indent :: l.outer }
  else l

/-- Close the block collections that are deeper than a column, `outer` being the columns around the
innermost one. -/
def closeFrom (column : Int) (l : Layout) : List Int → Layout
  | [] => { l with outer := [] }
  | next :: outer =>
      if column < l.indent then closeFrom column { l.emit .blockEnd with indent := next } outer
      else { l with outer := next :: outer }

/-- Close the block collections that are deeper than a column. -/
def closeBlocks (l : Layout) (column : Int) : Layout :=
  if l.inFlow then l else closeFrom column l l.outer

/-! ### Steps -/

/-- Pass blanks, comments and line breaks. A line may begin with a byte order mark. Tabs are blanks
where no indentation is read; after a line break outside flow collections a key may begin. -/
def skipBlanks (flow allowed : Bool) (c : Cursor) : Cursor × Bool :=
  let c' := if c.column == 0 && c.sees '\uFEFF' then c.skip 1 else c
  let c' := c'.skipWhile fun ch => ch == ' ' || ((flow || !allowed) && ch == '\t')
  let c' := if c'.sees '#' then c'.skipWhile fun ch => !isBreak ch else c'
  if c'.at? isBreak then
    let next := c'.lineBreak.2
    if _h : next.left < c.left then skipBlanks flow (allowed || !flow) next
    else (c', allowed)   -- unreachable: a line break takes a character
  else (c', allowed)
termination_by c.left
decreasing_by assumption

/-- A document mark or directive ends everything that is open. -/
def endDocument? (l : Layout) : Option Layout := do
  let l ← (l.closeBlocks (-1)).forgetKey?
  return l.allowKey false

/-- An opening bracket or brace. -/
def openFlow? (l : Layout) (t : Token) : Option Layout := do
  let l ← l.noteKey?
  let l := { l with outerKeys := l.key :: l.outerKeys, key := none }
  return (l.allowKey true).take t 1

/-- A closing bracket or brace. -/
def closeFlow? (l : Layout) (t : Token) : Option Layout := do
  let l ← l.forgetKey?
  let l := match l.outerKeys with
    | [] => l
    | key :: outerKeys => { l with key, outerKeys }
  return (l.allowKey false).take t 1

/-- A comma. -/
def comma? (l : Layout) : Option Layout := do
  return ((← l.forgetKey?).allowKey true).take .flowEntry 1

/-- Open the block collection that an indicator at this place needs, which must be able to begin
here. -/
def indicate? (l : Layout) (t : Token) : Option Layout :=
  if l.inFlow then some l
  else if l.keyAllowed then some (l.openBlock l.cursor.column l.count t)
  else none

/-- A dash. -/
def dash? (l : Layout) : Option Layout := do
  let l ← (← l.indicate? .blockSequenceStart).forgetKey?
  return (l.allowKey true).take .blockEntry 1

/-- A question mark. -/
def question? (l : Layout) : Option Layout := do
  let l ← (← l.indicate? .blockMappingStart).forgetKey?
  return (l.allowKey !l.inFlow).take .key 1

/-- A colon. It makes the possible key before it a key, and otherwise follows an empty or an
explicit one. -/
def colon? (l : Layout) : Option Layout := do
  match ← l.refresh? l.key with
  | some key =>
      -- announce the key, and in front of it the mapping that it opens
      let l := l.insertAt key.tokens .key
      let l := l.openBlock key.column key.tokens .blockMappingStart
      return ({ l with key := none }.allowKey false).take .value 1
  | none =>
      let l ← { l with key := none }.indicate? .blockMappingStart
      return (l.allowKey !l.inFlow).take .value 1

/-- A token that may be a key or belong to one, and the place behind it. -/
def noted? (l : Layout) (read : Cursor → Option (Token × Cursor)) : Option Layout := do
  let l ← l.noteKey?
  let (t, next) ← read l.cursor
  return ((l.allowKey false).emit t).goto next

/-- A block scalar. -/
def blockScalar? (l : Layout) (folded : Bool) : Option Layout := do
  let l ← l.forgetKey?
  let (text, next) ← l.cursor.blockScalar? folded l.indent
  return ((l.allowKey true).emit (.scalar (String.ofList text) false)).goto next

/-- A plain scalar. A key may begin behind it if it ended with its line. -/
def plain? (l : Layout) : Option Layout := do
  let l ← l.noteKey?
  let scalar ← l.cursor.plain? l.inFlow (l.indent + 1).toNat
  return ((l.allowKey scalar.brokenAfter).emit
    (.scalar (String.ofList scalar.text) true)).goto scalar.next

/-- Whether a plain scalar may begin with `c`, before `rest`. -/
def startsPlain (flow : Bool) (c : Char) (rest : List Char) : Bool :=
  !(isSeparator c || oneOf "-?:,[]#&*!|>%@\x7b\x7d\x27\x22\x60" c) ||
    (c = '-' && !rest.head?.any isSpacing) ||
    (!flow && (c = '?' || c = ':') && !atSeparator rest)

/-- The token that begins with the character `c`, before `rest`. -/
def token? (l : Layout) (c : Char) (rest : List Char) : Option Layout :=
  let flow := l.inFlow
  -- directives and document marks only count at the start of a line
  if c = '%' && l.cursor.column == 0 then do
    let l ← l.endDocument?
    let (t, next) ← l.cursor.directive?
    return (l.emit t).goto next
  else if l.cursor.atDocumentMark then do
    return (← l.endDocument?).take (if c = '-' then .documentStart else .documentEnd) 3
  else if c = '[' then l.openFlow? .flowSequenceStart
  else if c = '\x7b' then l.openFlow? .flowMappingStart
  else if c = ']' then l.closeFlow? .flowSequenceEnd
  else if c = '\x7d' then l.closeFlow? .flowMappingEnd
  else if c = ',' then l.comma?
  else if c = '-' && atSeparator rest then l.dash?
  else if c = '?' && (flow || atSeparator rest) then l.question?
  else if c = ':' && (flow || atSeparator rest) then l.colon?
  else if c = '*' then
    l.noted? fun cursor => cursor.anchorName?.map fun r => (.alias r.1, r.2)
  else if c = '&' then
    l.noted? fun cursor => cursor.anchorName?.map fun r => (.anchor r.1, r.2)
  else if c = '!' then l.noted? (·.tag? flow)
  else if c = '|' && !flow then l.blockScalar? false
  else if c = '>' && !flow then l.blockScalar? true
  else if c = '\x27' then
    l.noted? fun cursor =>
      cursor.singleQuoted?.map fun r => (.scalar (String.ofList r.1) false, r.2)
  else if c = '\x22' then
    l.noted? fun cursor =>
      cursor.doubleQuoted?.map fun r => (.scalar (String.ofList r.1) false, r.2)
  else if startsPlain flow c rest then l.plain?
  else none

/-- Pass blanks and cut the next token, if there is one. At the end of the text the answer is the
list of all tokens. -/
def step? (l : Layout) : Option (Layout ⊕ List Token) := do
  let l ← l.refreshKeys?
  let (cursor, allowed) := skipBlanks l.inFlow l.keyAllowed l.cursor
  let l := (l.goto cursor).allowKey allowed
  -- a token left of an open block collection ends it
  let l := l.closeBlocks cursor.column
  match cursor.rest with
  | [] => return .inr (← l.endDocument?).tokens.reverse
  | c :: rest => return .inl (← l.token? c rest)

/-- All tokens from a place on. Every token takes at least one character. -/
def run? (l : Layout) : Option (List Token) := do
  match ← l.step? with
  | .inr tokens => return tokens
  | .inl next =>
      if _h : next.cursor.left < l.cursor.left then run? next
      else none   -- unreachable: a token takes a character
termination_by l.cursor.left
decreasing_by assumption

end Layout

/-- The tokens of a text, or `none` if it is no document. -/
def tokenize? (s : List Char) : Option (List Token) :=
  if s.all isAllowed then Layout.run? { cursor := .start s } else none

end IngestPipeline.Yaml
