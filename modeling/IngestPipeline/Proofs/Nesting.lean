import IngestPipeline.Proofs.Reading

/-! # Nests of `foreach` processors

A `foreach` has the map entries of the value inside it, whatever other options it has. This file
follows a nest of them to the value in the middle.

* **`ProcessorError.Names`**, **`Processor.NamesOptions`**: faults that name an operation and an
  option that it reads. `namesOptions_ownEntries` says that the faults of all rules do.
* **`Wrapper`**, **`nest`**: the options around a value in a `foreach`, and a value inside several
  of them.
* **`Processor.Inside`**: the processor that is decoded from the option of another.
* **`entries_nest`**: a nest has the entries or the fault of the value in the middle. An absent
  value is the fault of the innermost `foreach`. -/

namespace IngestPipeline

/-! ### What faults name -/

/-- **A fault of an option**: it is absent, or of the wrong kind. -/
inductive ProcessorError.Names (op : Operation) (o : String) : ProcessorError → Prop
  | missing : Names op o (.missingOption op o)
  | invalid (expected : Expected) : Names op o (.invalidOption op o expected)

namespace Processor

/-- **All faults name an option** that the operation reads. -/
def NamesOptions {α : Type} (op : Operation) (m : Except ProcessorError α) : Prop :=
  ∀ e, m = .error e → ∃ o ∈ op.readOptions, e.Names op o

namespace NamesOptions

variable {α β : Type} {op : Operation}

/-- Without a fault there is nothing to name. -/
theorem ok (a : α) : NamesOptions op (.ok a) := by
  intro e he
  cases he

/-- A fault that names an option of the operation. -/
theorem error {o : String} {e : ProcessorError} (ho : o ∈ op.readOptions) (he : e.Names op o) :
    NamesOptions op (.error e : Except ProcessorError α) := by
  rintro e' ⟨⟩
  exact ⟨o, ho, he⟩

/-- One step after the other names what the steps name. -/
theorem bind {m : Except ProcessorError α} {k : α → Except ProcessorError β}
    (hm : NamesOptions op m) (hk : ∀ a, NamesOptions op (k a)) : NamesOptions op (m >>= k) := by
  cases m with
  | error e =>
      rintro e' ⟨⟩
      exact hm e rfl
  | ok a => exact hk a

end NamesOptions

section Readers

variable {p : Processor} {o : String} (ho : o ∈ p.operation.readOptions)
include ho

/-- A text that cannot be read is named. -/
theorem namesOptions_text? : NamesOptions p.operation (p.text? o) := by
  unfold text?
  split
  · exact .ok none
  · split
    · exact .ok _
    · exact .error ho (.invalid _)

/-- A text that is missing or cannot be read is named. -/
theorem namesOptions_requireText : NamesOptions p.operation (p.requireText o) := by
  unfold requireText
  split
  · rename_i e he
    rintro e' ⟨⟩
    exact namesOptions_text? ho e he
  · exact .error ho .missing
  · exact .ok _

/-- A list that cannot be read is named. -/
theorem namesOptions_texts? : NamesOptions p.operation (p.texts? o) := by
  unfold texts?
  split
  · exact .ok none
  · split
    · exact .ok _
    · exact .error ho (.invalid _)
  · split
    · exact .ok _
    · exact .error ho (.invalid _)

/-- So it is for a list that may be absent. -/
theorem namesOptions_texts : NamesOptions p.operation (p.texts o) := by
  have hmap : p.texts o = p.texts? o >>= fun texts => .ok (texts.getD []) := by
    rw [texts]
    cases p.texts? o <;> rfl
  rw [hmap]
  exact .bind (namesOptions_texts? ho) fun _ => .ok _

/-- A list that is missing or cannot be read is named. -/
theorem namesOptions_requireTexts : NamesOptions p.operation (p.requireTexts o) := by
  unfold requireTexts
  split
  · rename_i e he
    rintro e' ⟨⟩
    exact namesOptions_texts? ho e he
  · exact .error ho .missing
  · exact .ok _

end Readers

/-- A target is named by the option that it is taken from. -/
theorem namesOptions_targetOrField {p : Processor} (hfield : "field" ∈ p.operation.readOptions)
    (htarget : "target_field" ∈ p.operation.readOptions) :
    NamesOptions p.operation p.targetOrField := by
  refine .bind (namesOptions_text? htarget) fun target => ?_
  cases target with
  | none => exact namesOptions_requireText hfield
  | some target =>
      dsimp only
      split
      · exact namesOptions_requireText hfield
      · exact .ok _

/-- A value that cannot be written is named. -/
theorem namesOptions_literal {p : Processor} (h : "value" ∈ p.operation.readOptions) (v : Value) :
    NamesOptions p.operation (p.literal v) := by
  unfold literal
  split
  · exact .ok _
  · split
    · exact .ok _
    · exact .error h (.invalid _)

/-- **The faults of every rule** name its operation and an option that it reads. -/
theorem namesOptions_ownEntries (s : Settings) (p : Processor) :
    NamesOptions p.operation (p.ownEntries s) := by
  have htext := fun o => namesOptions_requireText (p := p) (o := o)
  have hoptional := fun o => namesOptions_text? (p := p) (o := o)
  have hlist := fun o => namesOptions_texts (p := p) (o := o)
  have hrequired := fun o => namesOptions_requireTexts (p := p) (o := o)
  have htarget := namesOptions_targetOrField (p := p)
  have hliteral := namesOptions_literal (p := p)
  have hmissing : ∀ o, (p.missing o).Names p.operation o := fun _ => .missing
  -- each rule is a chain of reads, and the first one that fails names its own option
  unfold ownEntries
  generalize p.operation = op at *
  cases op with
  | dissect | grok | foreach => exact .ok []
  | append =>
      exact .bind (htext _ (by decide)) fun _ => .bind (hrequired _ (by decide)) fun _ => .ok _
  | convert =>
      exact .bind (htext _ (by decide)) fun _ => .bind (htext _ (by decide)) fun _ =>
        .bind (htarget (by decide) (by decide)) fun _ => .ok _
  | csv =>
      exact .bind (htext _ (by decide)) fun _ => .bind (hlist _ (by decide)) fun _ => .ok _
  | date =>
      refine .bind (htext _ (by decide)) fun _ =>
        .bind (htarget (by decide) (by decide)) fun _ => .bind (hlist _ (by decide)) fun _ => ?_
      split <;> exact .ok _
  | fingerprint =>
      refine .bind (htext _ (by decide)) fun _ => .bind (hlist _ (by decide)) fun _ => ?_
      split
      · exact .error (by decide) (hmissing "fields")
      · exact .ok _
      · exact .ok _
  | geoip | json | rename =>
      exact .bind (htext _ (by decide)) fun _ => .bind (htext _ (by decide)) fun _ => .ok _
  | gsub =>
      exact .bind (htext _ (by decide)) fun _ => .bind (htext _ (by decide)) fun _ =>
        .bind (htext _ (by decide)) fun _ => .ok _
  | kv =>
      exact .bind (htext _ (by decide)) fun _ => .bind (htext _ (by decide)) fun _ =>
        .bind (htext _ (by decide)) fun _ => .bind (htext _ (by decide)) fun _ => .ok _
  | lowercase | uppercase | trim | urldecode | uriParts | userAgent | pipeline | script =>
      exact .bind (htext _ (by decide)) fun _ => .ok _
  | remove => exact .bind (hrequired _ (by decide)) fun _ => .ok _
  | set =>
      refine .bind (htext _ (by decide)) fun _ => .bind (hoptional _ (by decide)) fun source => ?_
      cases source with
      | some source => exact .ok _
      | none =>
          cases p.get? "value" with
          | some v => exact .bind (hliteral (by decide) v) fun _ => .ok _
          | none => exact .ok _
  | split =>
      exact .bind (htext _ (by decide)) fun _ => .bind (htext _ (by decide)) fun _ => .ok _

/-! ### One level -/

/-- **The processor inside another**: it is decoded from the option `processor` of a `foreach`. -/
def Inside (q p : Processor) : Prop :=
  p.operation = .foreach ∧ ∃ v, p.get? "processor" = some v ∧ ofValue v = .ok q

/-- **No processor has processors inside each other without end.** -/
theorem wellFounded_inside : WellFounded Inside := by
  refine Subrelation.wf (r := InvImage (· < ·) size) ?_ (InvImage.wf size Nat.lt_wfRel.wf)
  rintro q p ⟨-, v, hv, hq⟩
  exact Nat.lt_of_lt_of_le (size_lt_of_ofValue hq) (size_le_of_get? hv)

end Processor

/-- **The options of a `foreach` around the processor in it.** -/
structure Wrapper where
  /-- The options in front of the processor. -/
  before : List (Value × Value)
  /-- The options behind the processor. -/
  after : List (Value × Value)
  /-- All of them have a name, and none has the name of the processor. -/
  named : ∀ e ∈ before ++ after, e.1.isScalar = true ∧ e.1.text? ≠ some "processor"

/-- A `foreach` with a value in it. -/
def Wrapper.around (w : Wrapper) (v : Value) : Value :=
  .map [(.string Operation.foreach.name,
    .map (w.before ++ (.string "processor", v) :: w.after))]

/-- **A value inside several `foreach` processors**, the outermost first. -/
def nest (ws : List Wrapper) (v : Value) : Value := ws.foldr Wrapper.around v

namespace Processor

/-- A `foreach` is decoded, whatever value is in it. -/
theorem exists_ofValue_around (w : Wrapper) (v : Value) :
    ∃ p, ofValue (w.around v) = .ok p ∧ p.operation = .foreach ∧
      p.get? "processor" = (some v).filter fun v => !v.isNull := by
  have hbody : (Value.map (w.before ++ (.string "processor", v) :: w.after)).isBody = true := by
    rw [Value.isBody, List.all_eq_true]
    intro e he
    rw [List.mem_append, List.mem_cons, or_left_comm, ← List.mem_append] at he
    rcases he with rfl | he
    · rfl
    · exact (w.named e he).1
  have hdenotes : (w.around v).Denotes .foreach
      (.map (w.before ++ (.string "processor", v) :: w.after)) := Value.denotes_map .foreach _
  obtain ⟨p, hp⟩ := exists_ofValue_of_isBody hdenotes hbody
  refine ⟨p, hp, operation_of_ofValue hdenotes hp, ?_⟩
  rw [get?_of_ofValue hdenotes hp]
  exact Value.option?_append_cons rfl fun e he => (w.named e (List.mem_append_right _ he)).2

/-- **What a `foreach` makes of the value in it**: the entries of the processor that it denotes, or
the fault that it is absent. -/
def entriesInside (s : Settings) (v : Value) : Except ProcessorError (List Entry) :=
  if v.isNull then .error (.missingOption .foreach "processor") else ofValue v >>= entries s

/-- The entries of a `foreach` are those of the value inside it. -/
theorem entries_around (s : Settings) (w : Wrapper) (v : Value) :
    ofValue (w.around v) >>= entries s = entriesInside s v := by
  obtain ⟨p, hp, hop, hget⟩ := exists_ofValue_around w v
  rw [hp]
  show p.entries s = _
  rw [entries_of_foreach s hop, hget, Option.filter_some, entriesInside, missing, hop]
  cases v.isNull <;> rfl

/-- **A nest makes of a value what one `foreach` does.** -/
@[simp] theorem entriesInside_nest (s : Settings) (ws : List Wrapper) (v : Value) :
    entriesInside s (nest ws v) = entriesInside s v := by
  induction ws with
  | nil => rfl
  | cons w ws ih =>
      -- a `foreach` is not null, so it is decoded like any other value
      show ofValue (w.around (nest ws v)) >>= entries s = _
      rw [entries_around, ih]

/-- **A nest of `foreach` processors is transparent.** It has the map entries of the processor in
the middle, or the same fault, which names that processor's operation and an option that it reads. A
value in the middle that denotes no processor is refused as it is by itself, unless it is null: then
it counts as absent from the innermost `foreach`. There is always a middle. -/
theorem entries_nest (s : Settings) (w : Wrapper) (ws : List Wrapper) (v : Value) :
    (∃ outer, ofValue (nest (w :: ws) v) = .ok outer ∧
      (∀ p, ofValue v = .ok p → outer.entries s = p.entries s ∧
        (p.operation ≠ .foreach → ∀ e, outer.entries s = .error e →
          ∃ o ∈ p.operation.readOptions, e.Names p.operation o)) ∧
      ∀ e, ofValue v = .error e → outer.entries s =
        .error (if v.isNull then .missingOption .foreach "processor" else e)) ∧
    WellFounded Inside := by
  refine ⟨?_, wellFounded_inside⟩
  obtain ⟨outer, houter, -, -⟩ := exists_ofValue_around w (nest ws v)
  have hentries : outer.entries s = entriesInside s v := by
    rw [← entriesInside_nest s ws, ← entries_around s w, houter]
    rfl
  refine ⟨outer, houter, ?_, ?_⟩
  · intro p hp
    obtain ⟨body, hv, -⟩ := ofValue_eq_ok_iff.1 hp
    have hsame : outer.entries s = p.entries s := by
      rw [hentries, entriesInside, hp, hv.isNull_eq]
      rfl
    refine ⟨hsame, fun hop e he => ?_⟩
    rw [hsame, entries_of_ne s hop] at he
    exact namesOptions_ownEntries s p e he
  · intro e he
    rw [hentries, entriesInside, he]
    cases v.isNull <;> rfl

/-- A `foreach` with an option in front of the processor, and one with an option behind it. -/
def wrapperSample : List Wrapper :=
  [⟨[(.string "field", .string "items")], [], by simp [Value.isScalar, Value.text?]⟩,
    ⟨[], [(.string "if", .null)], by simp [Value.isScalar, Value.text?]⟩]

/-- A processor without the field that it needs. -/
def fieldlessSample : Value := .map [(.string "lowercase", .null)]

/-- The fault inside both is the fault of that processor, and names it and its field. -/
theorem entries_nest_fieldlessSample :
    ∃ outer, ofValue (nest wrapperSample fieldlessSample) = .ok outer ∧
      outer.entries {} = .error (.missingOption .lowercase "field") ∧
      ∃ o ∈ Operation.lowercase.readOptions,
        (ProcessorError.missingOption .lowercase "field").Names .lowercase o := by
  have hp : ofValue fieldlessSample = .ok ⟨.lowercase, []⟩ := rfl
  obtain ⟨⟨outer, houter, hdecoded, -⟩, -⟩ := entries_nest {} _ _ fieldlessSample
  obtain ⟨hentries, hnames⟩ := hdecoded _ hp
  have hfault : outer.entries {} = .error (.missingOption .lowercase "field") := by
    rw [hentries]
    cbv
  exact ⟨outer, houter, hfault, hnames (by decide) _ hfault⟩

/-- **A null value is not refused as such** inside a `foreach`. -/
theorem entries_nest_null :
    ofValue .null = .error (.malformed .notMapping) ∧
      ofValue (nest [⟨[], [], List.forall_mem_nil _⟩] .null) >>= entries {} =
        .error (.missingOption .foreach "processor") := by
  refine ⟨rfl, ?_⟩
  cbv

end Processor

end IngestPipeline
