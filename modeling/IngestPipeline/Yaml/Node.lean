import IngestPipeline.Yaml.Token

/-! # Nodes

The tree that the tokens of a document describe, before scalars get their meaning and references
are followed.

An anchor is given a **slot**: the number of distinct anchor names before it. A reference stands
for the node that was given its slot last, in the order of the text.

* **`Node`**: a node of the tree.
* **`Node.ofTokens?`**: the tree of a document. -/

namespace IngestPipeline.Yaml

/-- What may be written in front of a node. -/
structure Properties where
  /-- The slot of its anchor. -/
  slot : Option Nat := none
  /-- Its complete tag. -/
  tag : Option Tag := none
  deriving DecidableEq, Repr

/-- A node of a document. -/
inductive Node where
  /-- A reference to the node in a slot. -/
  | alias (slot : Nat)
  /-- A scalar, and whether it stands without quotes. -/
  | scalar (properties : Properties) (text : String) (plain : Bool)
  /-- A sequence. -/
  | seq (properties : Properties) (items : List Node)
  /-- A mapping. -/
  | map (properties : Properties) (entries : List (Node × Node))
  deriving Repr

namespace Node

/-- The node of a place where nothing is written. -/
def empty : Node := .scalar {} "" true

mutual

/-- The number of events that describe a node: one for a scalar or reference, and a start and an
end for a collection. -/
def events : Node → Nat
  | .alias _ => 1
  | .scalar .. => 1
  | .seq _ items => 2 + eventsOfItems items
  | .map _ entries => 2 + eventsOfEntries entries

/-- The number of events that describe the items of a sequence. -/
def eventsOfItems : List Node → Nat
  | [] => 0
  | n :: ns => n.events + eventsOfItems ns

/-- The number of events that describe the entries of a mapping. -/
def eventsOfEntries : List (Node × Node) → Nat
  | [] => 0
  | (k, v) :: es => k.events + v.events + eventsOfEntries es

end

/-- A slot that is given to a node. -/
def slotted (properties : Properties) (n : Node) : List (Nat × Node) :=
  properties.slot.toList.map fun slot => (slot, n)

mutual

/-- The slots that are given in a tree, in the order of the text. -/
def slots : Node → List (Nat × Node)
  | .alias _ => []
  | .scalar p text plain => slotted p (.scalar p text plain)
  | .seq p items => slotted p (.seq p items) ++ slotsOfItems items
  | .map p entries => slotted p (.map p entries) ++ slotsOfEntries entries

/-- The slots that are given in the items of a sequence. -/
def slotsOfItems : List Node → List (Nat × Node)
  | [] => []
  | n :: ns => n.slots ++ slotsOfItems ns

/-- The slots that are given in the entries of a mapping. -/
def slotsOfEntries : List (Node × Node) → List (Nat × Node)
  | [] => []
  | (k, v) :: es => k.slots ++ v.slots ++ slotsOfEntries es

end

end Node

/-! ### Reading nodes

One function per production. Each returns what is left behind the tokens it read. It calls another
when fewer tokens are left, or as many and the other is the more basic one: a node before the places
that may hold none, and these before the collections. -/

/-- The tokens that are left, and the slots of the anchor names so far. -/
structure Reading where
  /-- The tokens that are left. -/
  tokens : List Token
  /-- The number of tokens that are left. -/
  left : Nat
  /-- The anchor names, each with the slot it was given last. -/
  anchors : List (String × Nat)

namespace Reading

/-- The start of a list of tokens. -/
def start (tokens : List Token) : Reading := ⟨tokens, tokens.length, []⟩

/-- Pass the first token, `tokens` being the others. -/
def pass (r : Reading) (tokens : List Token) : Reading := { r with tokens, left := r.left - 1 }

/-- Whether the next token is one of the given ones. -/
def sees (r : Reading) (ts : List Token) : Bool := r.tokens.head?.any ts.contains

/-- Give an anchor name the next slot. -/
def anchor (r : Reading) (name : String) : Nat × Reading :=
  let slot := r.anchors.length
  let others := r.anchors.filter fun a => a.1 != name
  (slot, { r with anchors := (name, slot) :: others })

end Reading

/-- The tag handles that are always known. -/
def knownHandles : List (String × Tag) := [("!", .mark), ("!!", .corePart)]

/-- The complete tag of a handle and the rest, given the handles of the document. Both parts end at
a zero octet. -/
def completeTag? (handles : List (String × Tag)) (handle : String) (rest : Tag) : Option Tag :=
  if handle.isEmpty then some rest.ended
  else ((handles ++ knownHandles).lookup handle).map fun meaning => meaning.ended ++ rest.ended

/-- Read an anchor, if there is one. -/
def anchor? (r : Reading) : Option Nat × Reading :=
  match r.tokens with
  | .anchor name :: tokens =>
      let (slot, r) := (r.pass tokens).anchor name
      (some slot, r)
  | _ => (none, r)

/-- Read a tag, if there is one. -/
def tag? (handles : List (String × Tag)) (r : Reading) : Option (Option Tag × Reading) :=
  match r.tokens with
  | .tag handle rest :: tokens =>
      (completeTag? handles handle rest).map fun tag => (some tag, r.pass tokens)
  | _ => some (none, r)

/-- Read an anchor and a tag, each optional, in either order. -/
def properties? (handles : List (String × Tag)) (r : Reading) :
    Option (Properties × Reading) := do
  match anchor? r with
  | (some slot, r) =>
      let (tag, r) ← tag? handles r
      return (⟨slot, tag⟩, r)
  | (none, r) =>
      let (tag, r) ← tag? handles r
      let (slot, r) := if tag.isSome then anchor? r else (none, r)
      return (⟨slot, tag⟩, r)

/-- The node of properties with nothing behind them. There must be some. -/
def bareProperties? (p : Properties) (r : Reading) : Option (Node × Reading) :=
  if p == {} then none else some (.scalar p "" true, r)

/-- Where a node stands. -/
structure Context where
  /-- Whether block collections may begin here. -/
  block : Bool
  /-- Whether a block sequence may begin here without being indented. -/
  indentless : Bool

/-- A node in a block sequence. -/
def Context.inBlock : Context := ⟨true, false⟩

/-- A key or value in a block mapping. -/
def Context.inMapping : Context := ⟨true, true⟩

/-- A node in a flow collection. -/
def Context.inFlow : Context := ⟨false, false⟩

mutual

/-- Read a node. -/
def node? (handles : List (String × Tag)) (ctx : Context) (r : Reading) :
    Option (Node × Reading) :=
  match r.tokens with
  | .alias name :: tokens => (r.anchors.lookup name).map fun slot => (.alias slot, r.pass tokens)
  | _ => do
      let (p, r') ← properties? handles r
      match r'.tokens with
      | .scalar text plain :: tokens =>
          return (.scalar p text plain, r'.pass tokens)
      | .flowSequenceStart :: tokens =>
          if _h : (r'.pass tokens).left < r.left then
            let (items, last) ← flowItems? handles true (r'.pass tokens)
            return (.seq p items, last)
          else none
      | .flowMappingStart :: tokens =>
          if _h : (r'.pass tokens).left < r.left then
            let (entries, last) ← flowEntries? handles true (r'.pass tokens)
            return (.map p entries, last)
          else none
      | .blockEntry :: tokens =>
          if ctx.indentless then
            if _h : (r'.pass tokens).left < r.left then
              let (items, last) ← indentlessItems? handles (r'.pass tokens)
              return (.seq p items, last)
            else none
          else bareProperties? p r'
      | .blockSequenceStart :: tokens =>
          if ctx.block then
            if _h : (r'.pass tokens).left < r.left then
              let (items, last) ← blockItems? handles (r'.pass tokens)
              return (.seq p items, last)
            else none
          else bareProperties? p r'
      | .blockMappingStart :: tokens =>
          if ctx.block then
            if _h : (r'.pass tokens).left < r.left then
              let (entries, last) ← blockEntries? handles (r'.pass tokens)
              return (.map p entries, last)
            else none
          else bareProperties? p r'
      | _ => bareProperties? p r'
termination_by (r.left, 0)
decreasing_by all_goals exact Prod.Lex.left _ _ _h

/-- Read a node, or nothing before one of the given tokens. -/
def nodeUnless? (handles : List (String × Tag)) (ctx : Context) (stops : List Token)
    (r : Reading) : Option (Node × Reading) :=
  if r.sees stops then some (.empty, r) else node? handles ctx r
termination_by (r.left, 1)
decreasing_by exact Prod.Lex.right _ (by decide)

/-- Read the items of a block sequence, up to and including its end. -/
def blockItems? (handles : List (String × Tag)) (r : Reading) :
    Option (List Node × Reading) :=
  match r.tokens with
  | .blockEntry :: tokens =>
      if _h : (r.pass tokens).left < r.left then do
        let (item, next) ←
          nodeUnless? handles .inBlock [.blockEntry, .blockEnd] (r.pass tokens)
        if _h : next.left < r.left then
          let (items, last) ← blockItems? handles next
          return (item :: items, last)
        else none
      else none
  | .blockEnd :: tokens => some ([], r.pass tokens)
  | _ => none
termination_by (r.left, 2)
decreasing_by all_goals exact Prod.Lex.left _ _ _h

/-- Read the items of a block sequence that is not indented, behind its first dash. -/
def indentlessItems? (handles : List (String × Tag)) (r : Reading) :
    Option (List Node × Reading) := do
  let (item, next) ←
    nodeUnless? handles .inBlock [.blockEntry, .key, .value, .blockEnd] r
  match next.tokens with
  | .blockEntry :: tokens =>
      if _h : (next.pass tokens).left < r.left then
        let (items, last) ← indentlessItems? handles (next.pass tokens)
        return (item :: items, last)
      else none
  | _ => return ([item], next)
termination_by (r.left, 2)
decreasing_by
  · exact Prod.Lex.right _ (by decide)
  · exact Prod.Lex.left _ _ _h

/-- Read the value of an entry of a block mapping, if there is one. -/
def blockValue? (handles : List (String × Tag)) (r : Reading) : Option (Node × Reading) :=
  match r.tokens with
  | .value :: tokens =>
      if _h : (r.pass tokens).left < r.left then
        nodeUnless? handles .inMapping [.key, .value, .blockEnd] (r.pass tokens)
      else none
  | _ => some (.empty, r)
termination_by (r.left, 2)
decreasing_by exact Prod.Lex.left _ _ _h

/-- Read the entries of a block mapping, up to and including its end. -/
def blockEntries? (handles : List (String × Tag)) (r : Reading) :
    Option (List (Node × Node) × Reading) :=
  match r.tokens with
  | .key :: tokens =>
      if _h : (r.pass tokens).left < r.left then do
        let (key, behind) ←
          nodeUnless? handles .inMapping [.key, .value, .blockEnd] (r.pass tokens)
        if _h : behind.left < r.left then
          let (value, next) ← blockValue? handles behind
          if _h : next.left < r.left then
            let (entries, last) ← blockEntries? handles next
            return ((key, value) :: entries, last)
          else none
        else none
      else none
  | .blockEnd :: tokens => some ([], r.pass tokens)
  | _ => none
termination_by (r.left, 2)
decreasing_by all_goals exact Prod.Lex.left _ _ _h

/-- Read the value of an entry in a flow collection that ends with the given token, if there is
one. -/
def flowValue? (handles : List (String × Tag)) (ending : Token) (r : Reading) :
    Option (Node × Reading) :=
  match r.tokens with
  | .value :: tokens =>
      if _h : (r.pass tokens).left < r.left then
        nodeUnless? handles .inFlow [.flowEntry, ending] (r.pass tokens)
      else none
  | _ => some (.empty, r)
termination_by (r.left, 2)
decreasing_by exact Prod.Lex.left _ _ _h

/-- Read the key of a mapping of one entry in a flow sequence. Where the key is not written, the
token that shows it is passed. -/
def pairKey? (handles : List (String × Tag)) (r : Reading) : Option (Node × Reading) :=
  if r.sees [.value, .flowEntry, .flowSequenceEnd] then some (.empty, r.pass (r.tokens.drop 1))
  else node? handles .inFlow r
termination_by (r.left, 1)
decreasing_by exact Prod.Lex.right _ (by decide)

/-- Read the items of a flow sequence, up to and including its closing bracket. An item that begins
with a key is a mapping of one entry. `ready` says whether an item may begin without a comma. -/
def flowItems? (handles : List (String × Tag)) (ready : Bool) (r : Reading) :
    Option (List Node × Reading) :=
  match r.tokens with
  | .flowSequenceEnd :: tokens => some ([], r.pass tokens)
  | .flowEntry :: tokens =>
      if ready then none
      else if _h : (r.pass tokens).left < r.left then flowItems? handles true (r.pass tokens)
      else none
  | .key :: tokens =>
      if !ready then none
      else if _h : (r.pass tokens).left < r.left then do
        let (key, behind) ← pairKey? handles (r.pass tokens)
        if _h : behind.left < r.left then
          let (value, next) ← flowValue? handles .flowSequenceEnd behind
          if _h : next.left < r.left then
            let (items, last) ← flowItems? handles false next
            return (.map {} [(key, value)] :: items, last)
          else none
        else none
      else none
  | _ =>
      if !ready then none
      else do
        let (item, next) ← node? handles .inFlow r
        if _h : next.left < r.left then
          let (items, last) ← flowItems? handles false next
          return (item :: items, last)
        else none
termination_by (r.left, 2)
decreasing_by
  · exact Prod.Lex.left _ _ _h
  · exact Prod.Lex.left _ _ _h
  · exact Prod.Lex.left _ _ _h
  · exact Prod.Lex.left _ _ _h
  · exact Prod.Lex.right _ (by decide)
  · exact Prod.Lex.left _ _ _h

/-- Read the entries of a flow mapping, up to and including its closing brace. A node without a
value is a key. `ready` says whether an entry may begin without a comma. -/
def flowEntries? (handles : List (String × Tag)) (ready : Bool) (r : Reading) :
    Option (List (Node × Node) × Reading) :=
  match r.tokens with
  | .flowMappingEnd :: tokens => some ([], r.pass tokens)
  | .flowEntry :: tokens =>
      if ready then none
      else if _h : (r.pass tokens).left < r.left then flowEntries? handles true (r.pass tokens)
      else none
  | .key :: tokens =>
      if !ready then none
      else if _h : (r.pass tokens).left < r.left then do
        let (key, behind) ←
          nodeUnless? handles .inFlow [.value, .flowEntry, .flowMappingEnd] (r.pass tokens)
        if _h : behind.left < r.left then
          let (value, next) ← flowValue? handles .flowMappingEnd behind
          if _h : next.left < r.left then
            let (entries, last) ← flowEntries? handles false next
            return ((key, value) :: entries, last)
          else none
        else none
      else none
  | _ =>
      if !ready then none
      else do
        let (key, next) ← node? handles .inFlow r
        if _h : next.left < r.left then
          let (entries, last) ← flowEntries? handles false next
          return ((key, .empty) :: entries, last)
        else none
termination_by (r.left, 2)
decreasing_by
  · exact Prod.Lex.left _ _ _h
  · exact Prod.Lex.left _ _ _h
  · exact Prod.Lex.left _ _ _h
  · exact Prod.Lex.left _ _ _h
  · exact Prod.Lex.right _ (by decide)
  · exact Prod.Lex.left _ _ _h

end

/-! ### Documents -/

/-- The directives at the front: whether the version was stated, and the tag handles. Each may be
given once, and the version must be 1.1 or 1.2. -/
def directives? (version : Bool) (handles : List (String × Tag)) :
    List Token → Option (Bool × List (String × Tag) × List Token)
  | .version major minor :: tokens =>
      if version || major ≠ 1 || (minor ≠ 1 && minor ≠ 2) then none
      else directives? true handles tokens
  | .handle name meaning :: tokens =>
      if (handles.lookup name).isSome then none
      else directives? version ((name, meaning) :: handles) tokens
  | tokens => some (version, handles, tokens)

/-- Whether a token stands outside every document. -/
def isOutside : Token → Bool
  | .version .. => true
  | .handle .. => true
  | .documentStart => true
  | .documentEnd => true
  | _ => false

/-- Read the one document of a stream, if there is one. -/
def document? (tokens : List Token) : Option (Option Node × List Token) := do
  match tokens with
  | [] => return (none, [])
  | t :: _ =>
      let (version, handles, rest) ← directives? false [] tokens
      let explicit := version || !handles.isEmpty || t == .documentStart
      let body ←
        if explicit then
          match rest with
          | .documentStart :: body => some body
          | _ => none
        else some rest
      -- three dashes with nothing behind them are a document of their own
      let bare := explicit && (match body with
        | [] => true
        | t :: _ => isOutside t)
      if bare then return (some .empty, body)
      else
        let (node, last) ← node? handles .inBlock (.start body)
        return (some node, last.tokens)

/-- The tree of the tokens of a document, which must be the only one. An empty stream has none. -/
def Node.ofTokens? (tokens : List Token) : Option (Option Node) := do
  let (node, rest) ← document? tokens
  if (rest.dropWhile (· == .documentEnd)).isEmpty then return node else none

end IngestPipeline.Yaml
