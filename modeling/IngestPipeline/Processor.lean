import IngestPipeline.Processor.Error
import IngestPipeline.Value

/-! # Processors

A processor is an **operation** with named **options**. In a document it is a mapping from the name
of the operation to the mapping of its options.

* **`Processor.ofValue`**: the processor that a value denotes.
* **`get?`**, **`text?`**, **`requireText`**, **`texts?`**, **`texts`**, **`mapping?`**: one option,
  in the kind that a rule needs. A null value counts as absent, and every scalar as its text.
* **`innermost`**: the processor that a nest of `foreach` processors wraps. -/

namespace IngestPipeline

/-- One step of a pipeline. -/
structure Processor where
  /-- What the step does. -/
  operation : Operation
  /-- The options by name, in order. -/
  options : List (String × Value)
  deriving Repr

namespace Processor

/-- A processor without options. -/
def new (operation : Operation) : Processor := ⟨operation, []⟩

/-- Set an option. An option that is there keeps its position. -/
def withOption (p : Processor) (name : String) (value : Value) : Processor :=
  { p with options := Assoc.insert name value p.options }

/-- The entries of a mapping under the texts of their keys. -/
def namedOptions : List (Value × Value) → Except ProcessorError (List (String × Value))
  | [] => .ok []
  | (k, v) :: es =>
      match k.text? with
      | none => .error (.malformed .optionNameNotString)
      | some name => (namedOptions es).map fun rest => (name, v) :: rest

/-- The options that the body of a processor denotes. Names that are equal as texts share one
option, at the position of the first and with the value of the last. -/
def optionsOf (operation : String) : Value → Except ProcessorError (List (String × Value))
  | .null => .ok []
  | .map es => (namedOptions es).map Assoc.ofList
  | _ => .error (.malformed (.optionsNotMapping operation))

/-- The processor that a value denotes: a mapping of one operation name to its options. Tags on the
mapping and on the name are looked through, and a tag on the options is not. -/
def ofValue (v : Value) : Except ProcessorError Processor :=
  match v.untag with
  | .map [(key, body)] =>
      match key.untag with
      | .string name =>
          match Operation.ofName? name with
          | none => .error (.unsupportedOperation name)
          | some operation => (optionsOf name body).map fun options => ⟨operation, options⟩
      | _ => .error (.malformed .keyNotString)
  | .map es => .error (.malformed (.keyCount es.length))
  | _ => .error (.malformed .notMapping)

/-! ### Options -/

/-- The value of an option. A null value counts as absent. -/
def get? (p : Processor) (option : String) : Option Value :=
  (p.options.lookup option).filter fun v => !v.isNull

/-- Whether an option is present. -/
def has (p : Processor) (option : String) : Bool := (p.get? option).isSome

/-- The fault of an absent option. -/
def missing (p : Processor) (option : String) : ProcessorError :=
  .missingOption p.operation option

/-- The fault of an option of the wrong kind. -/
def invalid (p : Processor) (option : String) (expected : Expected) : ProcessorError :=
  .invalidOption p.operation option expected

/-- The text of an optional scalar. -/
def text? (p : Processor) (option : String) : Except ProcessorError (Option String) :=
  match p.get? option with
  | none => .ok none
  | some v =>
      match v.text? with
      | some text => .ok (some text)
      | none => .error (p.invalid option .string)

/-- The text of a required scalar. -/
def requireText (p : Processor) (option : String) : Except ProcessorError String :=
  match p.text? option with
  | .error e => .error e
  | .ok none => .error (p.missing option)
  | .ok (some text) => .ok text

/-- The texts of a sequence of scalars, or `none` if some item is no scalar. -/
def itemTexts? : List Value → Option (List String)
  | [] => some []
  | v :: vs =>
      match v.text?, itemTexts? vs with
      | some text, some texts => some (text :: texts)
      | _, _ => none

/-- The texts of an optional list. A scalar counts as a list of one. -/
def texts? (p : Processor) (option : String) : Except ProcessorError (Option (List String)) :=
  match p.get? option with
  | none => .ok none
  | some (.seq items) =>
      match itemTexts? items with
      | some texts => .ok (some texts)
      | none => .error (p.invalid option .stringList)
  | some v =>
      match v.text? with
      | some text => .ok (some [text])
      | none => .error (p.invalid option .stringOrList)

/-- The texts of a list, an absent one being empty. -/
def texts (p : Processor) (option : String) : Except ProcessorError (List String) :=
  (p.texts? option).map fun texts => texts.getD []

/-- The texts of a list that has to be present. -/
def requireTexts (p : Processor) (option : String) : Except ProcessorError (List String) :=
  match p.texts? option with
  | .error e => .error e
  | .ok none => .error (p.missing option)
  | .ok (some texts) => .ok texts

/-- The entries of an optional mapping. -/
def mapping? (p : Processor) (option : String) :
    Except ProcessorError (Option (List (Value × Value))) :=
  match p.get? option with
  | none => .ok none
  | some (.map es) => .ok (some es)
  | some _ => .error (p.invalid option .mapping)

/-! ### Nested processors -/

/-- The number of nodes in the values of a list of options. -/
def optionsSize : List (String × Value) → Nat
  | [] => 0
  | (_, v) :: os => v.size + optionsSize os

/-- The number of nodes in the options of a processor. -/
def size (p : Processor) : Nat := optionsSize p.options

/-- An option is no larger than all options. -/
theorem size_le_of_get? {p : Processor} {option : String} {v : Value}
    (h : p.get? option = some v) : v.size ≤ p.size := by
  have hl : ∀ os : List (String × Value), os.lookup option = some v → v.size ≤ optionsSize os := by
    intro os
    induction os with
    | nil => simp
    | cons e os ih =>
        obtain ⟨k, w⟩ := e
        rw [List.lookup_cons]
        split
        · intro hw
          cases hw
          simp [optionsSize]
        · intro hw
          have := ih hw
          simp only [optionsSize]
          omega
  exact hl p.options (Option.filter_eq_some_iff.1 h).1

/-- Setting an option adds no more than its value. -/
theorem optionsSize_insert (name : String) (v : Value) (os : List (String × Value)) :
    optionsSize (Assoc.insert name v os) ≤ v.size + optionsSize os := by
  induction os with
  | nil => simp [optionsSize]
  | cons e os ih =>
      obtain ⟨k, w⟩ := e
      rw [Assoc.insert]
      split
      · simp only [optionsSize]
        omega
      · simp only [optionsSize]
        omega

/-- Setting options one after the other adds no more than their values. -/
theorem optionsSize_ofList (os : List (String × Value)) :
    optionsSize (Assoc.ofList os) ≤ optionsSize os := by
  have h : ∀ acc : List (String × Value),
      optionsSize (os.foldl (fun acc e => Assoc.insert e.1 e.2 acc) acc)
        ≤ optionsSize acc + optionsSize os := by
    induction os with
    | nil => simp [optionsSize]
    | cons e os ih =>
        intro acc
        obtain ⟨k, w⟩ := e
        have h1 := ih (Assoc.insert k w acc)
        have h2 := optionsSize_insert k w acc
        simp only [List.foldl_cons, optionsSize]
        omega
  simpa [optionsSize, Assoc.ofList] using h []

/-- Naming the options keeps their values. -/
theorem optionsSize_of_namedOptions {es : List (Value × Value)} {os : List (String × Value)}
    (h : namedOptions es = .ok os) : optionsSize os ≤ Value.sizeEntries es := by
  induction es generalizing os with
  | nil => cases h; simp [optionsSize]
  | cons e es ih =>
      obtain ⟨k, v⟩ := e
      rw [namedOptions] at h
      split at h
      · cases h
      · cases hn : namedOptions es with
        | error err => rw [hn] at h; cases h
        | ok rest =>
            rw [hn] at h
            cases h
            have := ih hn
            simp only [optionsSize, Value.sizeEntries]
            omega

/-- The options of a body are no larger than the body. -/
theorem optionsSize_of_optionsOf {name : String} {body : Value} {os : List (String × Value)}
    (h : optionsOf name body = .ok os) : optionsSize os ≤ body.size := by
  unfold optionsOf at h
  split at h
  · cases h; simp [optionsSize]
  · rename_i es
    cases hn : namedOptions es with
    | error err => rw [hn] at h; cases h
    | ok rest =>
        rw [hn] at h
        cases h
        have h1 := optionsSize_ofList rest
        have h2 := optionsSize_of_namedOptions hn
        simp only [Value.size]
        omega
  · cases h

/-- The options of a processor are smaller than the value that denotes it. -/
theorem size_lt_of_ofValue {v : Value} {p : Processor} (h : ofValue v = .ok p) :
    p.size < v.size := by
  refine Nat.lt_of_lt_of_le ?_ v.size_untag_le
  unfold ofValue at h
  split at h
  · rename_i key body hv
    split at h
    · rename_i name hkey
      split at h
      · cases h
      · cases ho : optionsOf name body with
        | error err => rw [ho] at h; cases h
        | ok os =>
            rw [ho] at h
            cases h
            have := optionsSize_of_optionsOf ho
            simp only [hv, size, Value.size, Value.sizeEntries]
            omega
    · cases h
  · cases h
  · cases h

/-- The processor that a nest of `foreach` processors wraps; any other processor is its own
innermost one. -/
def innermost (p : Processor) : Except ProcessorError Processor :=
  if p.operation = .foreach then
    match _hv : p.get? "processor" with
    | none => .error (p.missing "processor")
    | some v =>
        match _hq : ofValue v with
        | .error e => .error e
        | .ok q => q.innermost
  else .ok p
termination_by p.size
decreasing_by
  exact Nat.lt_of_lt_of_le (size_lt_of_ofValue _hq) (size_le_of_get? _hv)

/-- A processor that wraps no other is its own innermost processor. -/
@[simp] theorem innermost_of_ne {p : Processor} (h : p.operation ≠ .foreach) :
    p.innermost = .ok p := by
  rw [innermost, if_neg h]

end Processor

end IngestPipeline
