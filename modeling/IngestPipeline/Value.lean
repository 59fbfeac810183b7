import IngestPipeline.Assoc
import IngestPipeline.Decimal.Text

/-! # Values of a document

A document is a tree of scalars, sequences and mappings. Mappings keep the order of their entries
and may have any value as a key; a node may carry an application **tag**.

* **`Value.same`**: equality of values, under which mapping keys must be distinct.
* **`Value.untag`**: the value behind the tags in front of it.
* **`Value.text?`**: the text of a string, number or truth value.
* **`Value.stripTags`**: the value with every tag removed. -/

namespace IngestPipeline

/-- A node of a loaded document. -/
inductive Value where
  /-- The absent value. -/
  | null
  /-- A truth value. -/
  | bool (value : Bool)
  /-- An integer. -/
  | int (value : Int)
  /-- A double. -/
  | float (value : Binary64)
  /-- A text. -/
  | string (value : String)
  /-- A sequence of values. -/
  | seq (items : List Value)
  /-- A mapping, as its entries in order. -/
  | map (entries : List (Value × Value))
  /-- A value marked with an application tag, written without its exclamation mark unless it is
  nothing else. -/
  | tagged (tag : String) (value : Value)
  deriving Repr, Inhabited

namespace Value

/-- The name of a tag, without an exclamation mark in front of it. -/
def tagName (tag : String) : String :=
  match tag.toList with
  | '!' :: c :: name => String.ofList (c :: name)
  | _ => tag

mutual

/-- Equality of values. Numbers are compared by kind and value, and mappings without regard to the
order of their entries. -/
def same : Value → Value → Bool
  | .null, .null => true
  | .bool a, .bool b => a == b
  | .int a, .int b => a == b
  | .float a, .float b => a.same b
  | .string a, .string b => a == b
  | .seq xs, .seq ys => sameItems xs ys
  | .map es, .map fs => es.length == fs.length && sameEntries es fs
  | .tagged s a, .tagged t b => tagName s == tagName t && a.same b
  | _, _ => false

/-- Two sequences are equal item by item. -/
def sameItems : List Value → List Value → Bool
  | [], [] => true
  | x :: xs, y :: ys => x.same y && sameItems xs ys
  | _, _ => false

/-- Every entry of the first mapping has an equal one in the second. -/
def sameEntries : List (Value × Value) → List (Value × Value) → Bool
  | [], _ => true
  | (k, v) :: es, fs => fs.any (fun e => k.same e.1 && v.same e.2) && sameEntries es fs

end

instance : BEq Value := ⟨same⟩

/-- The value behind the tags in front of it. What is inside the value keeps its tags. -/
def untag : Value → Value
  | .tagged _ v => v.untag
  | v => v

/-- A tag in front of a value is looked through. -/
@[simp] theorem untag_tagged (tag : String) (v : Value) : (tagged tag v).untag = v.untag := rfl

/-- A value without a tag in front of it is left as it is. -/
theorem untag_of_ne_tagged {v : Value} (h : ∀ tag content, v ≠ .tagged tag content) :
    v.untag = v := by
  cases v with
  | tagged tag content => exact absurd rfl (h tag content)
  | _ => rfl

/-- Whether the value is the null value, tags in front of it aside. -/
def isNull (v : Value) : Bool :=
  match v.untag with
  | .null => true
  | _ => false

/-- The text of a scalar: a string, number or truth value as a document would spell it. A value that
carries a tag has none. -/
def text? : Value → Option String
  | .string s => some s
  | .int n => some (toString n)
  | .float x => some (x.text .yaml)
  | .bool b => some (if b then "true" else "false")
  | _ => none

mutual

/-- The value without tags at any depth. Mapping keys that become equal share one entry, at the
position of the first and with the value of the last. -/
def stripTags : Value → Value
  | .seq xs => .seq (stripItems xs)
  | .map es => .map (Assoc.ofList (stripEntries es))
  | .tagged _ v => v.stripTags
  | v => v

/-- The items of a sequence, each without tags. -/
def stripItems : List Value → List Value
  | [] => []
  | x :: xs => x.stripTags :: stripItems xs

/-- The entries of a mapping, keys and values without tags. -/
def stripEntries : List (Value × Value) → List (Value × Value)
  | [] => []
  | (k, v) :: es => (k.stripTags, v.stripTags) :: stripEntries es

end

/-- Stripping the items of a sequence is stripping each of them. -/
@[simp] theorem stripItems_eq_map (xs : List Value) : stripItems xs = xs.map stripTags := by
  induction xs with
  | nil => rfl
  | cons x xs ih => simp [stripItems, ih]

/-- Stripping the entries of a mapping is stripping each key and each value. -/
@[simp] theorem stripEntries_eq_map (es : List (Value × Value)) :
    stripEntries es = es.map fun e => (e.1.stripTags, e.2.stripTags) := by
  induction es with
  | nil => rfl
  | cons e es ih => simp [stripEntries, ih]

mutual

/-- The number of nodes of a value. -/
def size : Value → Nat
  | .seq xs => 1 + sizeItems xs
  | .map es => 1 + sizeEntries es
  | .tagged _ v => 1 + v.size
  | _ => 1

/-- The number of nodes in the items of a sequence. -/
def sizeItems : List Value → Nat
  | [] => 0
  | x :: xs => x.size + sizeItems xs

/-- The number of nodes in the entries of a mapping. -/
def sizeEntries : List (Value × Value) → Nat
  | [] => 0
  | (k, v) :: es => k.size + v.size + sizeEntries es

end

/-- A value is no larger without the tags in front of it. -/
theorem size_untag_le : ∀ v : Value, v.untag.size ≤ v.size
  | .tagged _ v => by
      have := v.size_untag_le
      rw [untag_tagged, size]
      omega
  | .null | .bool _ | .int _ | .float _ | .string _ | .seq _ | .map _ => Nat.le_refl _

end Value

end IngestPipeline
