import IngestPipeline.Proofs.Reading

/-! # Wrapping a processor in a `foreach`

A `foreach` has the map entries of the processor inside it. The check and the directive of that
processor are not looked at, and neither is the timestamp marker in it. This file says when that
makes a difference.

* **`Value.wrapped`**: a `foreach` around a value.
* **`Operation.readsField`**: the operations that read the option `field`.
* **`FieldUse`**: a rule as a function of the name of the field. `fieldUse_ownEntries` says that the
  entries of a rule either do not exist or determine the name.
* **`contribution_wrapped`**: a wrapped processor contributes map entries only, and the same as
  without the wrapping exactly if nothing else was to be contributed. -/

namespace IngestPipeline

open Processor (Contribution)

/-- A `foreach` over a field around a processor. -/
def Value.wrapped (field : String) (v : Value) : Value :=
  .map [(.string Operation.foreach.name,
    .map [(.string "field", .string field), (.string "processor", v)])]

/-- Whether the operation reads the option `field`, as one text or as a list. -/
def Operation.readsField (op : Operation) : Bool :=
  op.textOptions.contains "field" || op.listOption? == some "field"

namespace Processor

/-! ### A rule as a function of the field -/

/-- **What becomes of the name of a field**: whatever the name, a fault or nothing, or entries that
the name can be read off. -/
inductive FieldUse (r : String → Except ProcessorError (List Entry)) : Prop
  /-- There are no entries because of a fault elsewhere. -/
  | fault (e : ProcessorError) (h : ∀ x, r x = .error e)
  /-- There is nothing to name the field in. -/
  | nothing (h : ∀ x, r x = .ok [])
  /-- The entries name the field. -/
  | named (g : String → List Entry) (hg : Function.Injective g) (hne : ∀ x, g x ≠ [])
      (h : ∀ x, r x = .ok (g x))

namespace FieldUse

/-- A step that does not see the field can come first. -/
theorem bind {α : Type} {m : Except ProcessorError α}
    {k : String → α → Except ProcessorError (List Entry)} (h : ∀ a, FieldUse fun x => k x a) :
    FieldUse fun x => m >>= k x := by
  cases m with
  | error e => exact .fault e fun _ => rfl
  | ok a => exact h a

/-- Entries, one for each of some items, that name the field each. -/
theorem map {α : Type} {f : String → α → Entry} (hf : ∀ a, Function.Injective fun x => f x a)
    (as : List α) : FieldUse fun x => .ok (as.map (f x)) := by
  cases as with
  | nil => exact .nothing fun _ => rfl
  | cons a as =>
      refine .named _ ?_ (fun _ => List.cons_ne_nil _ _) fun _ => rfl
      intro x y h
      have hhead : f x a = f y a := (List.cons.inj h).1
      exact hf a hhead

/-- One entry that names the field. -/
theorem one {target expression : String → String}
    (h : Function.Injective fun x => Entry.statement (target x) (expression x)) :
    FieldUse fun x => .ok (Processor.one (target x) (expression x)) := by
  refine .named _ ?_ (fun _ => List.cons_ne_nil _ _) fun _ => rfl
  intro x y hxy
  have hhead := (List.cons.inj hxy).1
  exact h hhead

/-- **Two names**: entries under one name become those under another exactly if there are none or
the names are the same. -/
theorem eq_iff {r : String → Except ProcessorError (List Entry)} (h : FieldUse r) {x y : String}
    {es : List Entry} (hy : r y = .ok es) : r x = .ok es ↔ es = [] ∨ x = y := by
  constructor
  · intro hx
    cases h with
    | fault e h => cases (h y).symm.trans hy
    | nothing h => exact .inl (Except.ok.inj ((h y).symm.trans hy)).symm
    | named g hg _ h =>
        have hgx : g x = es := Except.ok.inj ((h x).symm.trans hx)
        have hgy : g y = es := Except.ok.inj ((h y).symm.trans hy)
        exact .inr (hg (hgx.trans hgy.symm))
  · rintro (rfl | rfl)
    · cases h with
      | fault e h => cases (h y).symm.trans hy
      | nothing h => exact h x
      | named g _ hne h => exact absurd (Except.ok.inj ((h y).symm.trans hy)) (hne y)
    · exact hy

end FieldUse

/-! ### The rules under another field -/

/-- The processor with another field. -/
def withField (p : Processor) (x : String) : Processor := p.withOption "field" (.string x)

section WithField

variable (p : Processor) (x : String)

/-- The operation stays. -/
@[simp] theorem operation_withField : (p.withField x).operation = p.operation := rfl

/-- The field is the new one. -/
@[simp] theorem get?_withField_self : (p.withField x).get? "field" = some (.string x) :=
  get?_withOption_self "field" rfl

/-- Other options stay. -/
@[simp] theorem get?_withField_of_ne {o : String} (h : o ≠ "field") :
    (p.withField x).get? o = p.get? o :=
  get?_withOption_of_ne h _

/-- The field is read as its name. -/
@[simp] theorem requireText_withField_self : (p.withField x).requireText "field" = .ok x := by
  rw [requireText_eq_ok_iff, get?_withField_self]
  rfl

/-- The field is read as a list of its name. -/
@[simp] theorem requireTexts_withField_self : (p.withField x).requireTexts "field" = .ok [x] := by
  rw [requireTexts_eq_ok_iff, get?_withField_self]
  rfl

/-- Other texts stay. -/
@[simp] theorem text?_withField {o : String} (h : o ≠ "field") :
    (p.withField x).text? o = p.text? o :=
  text?_congr rfl (p.get?_withField_of_ne x h)

/-- Other lists that may be absent stay. -/
@[simp] theorem texts?_withField {o : String} (h : o ≠ "field") :
    (p.withField x).texts? o = p.texts? o :=
  texts?_congr rfl (p.get?_withField_of_ne x h)

/-- Other required texts stay. -/
@[simp] theorem requireText_withField {o : String} (h : o ≠ "field") :
    (p.withField x).requireText o = p.requireText o := by
  rw [requireText, requireText, text?_withField p x h]
  rfl

/-- Other lists stay. -/
@[simp] theorem texts_withField {o : String} (h : o ≠ "field") :
    (p.withField x).texts o = p.texts o := by
  rw [texts, texts, texts?_withField p x h]

/-- Other required lists stay. -/
@[simp] theorem requireTexts_withField {o : String} (h : o ≠ "field") :
    (p.withField x).requireTexts o = p.requireTexts o := by
  rw [requireTexts, requireTexts, texts?_withField p x h]
  rfl

/-- The target is the field where the target is absent or empty. -/
@[simp] theorem targetOrField_withField :
    (p.withField x).targetOrField =
      p.text? "target_field" >>= fun o => .ok ((o.filter fun t => !t.isEmpty).getD x) := by
  rw [targetOrField, text?_withField p x (by decide), requireText_withField_self]
  cases p.text? "target_field" with
  | error e => rfl
  | ok o =>
      cases o with
      | none => rfl
      | some t =>
          show (if t.isEmpty then Except.ok x else Except.ok t) =
            Except.ok (((some t).filter fun t => !t.isEmpty).getD x)
          rw [Option.filter_some]
          cases t.isEmpty <;> rfl

end WithField

/-- A statement about the field determines its name. -/
theorem statement_field_injective (expression : String → String) :
    Function.Injective fun x => Entry.statement x (expression x) :=
  fun _ _ h => (Entry.statement.inj h).1

/-- An expression with the name of the field in it determines the name. -/
theorem statement_expression_injective (target : String → String) (front back : String) :
    Function.Injective fun x => Entry.statement (target x) (front ++ x ++ back) := by
  intro x y h
  have hexpression := (Entry.statement.inj h).2
  rwa [String.append_left_inj, String.append_right_inj] at hexpression

/-- **Every rule that reads a field names it**, in all entries that it makes. -/
theorem fieldUse_ownEntries (s : Settings) (p : Processor) (hreads : p.operation.readsField = true)
    (hextracts : p.operation.extractsPatterns = false) :
    FieldUse fun x => (p.withField x).ownEntries s := by
  -- each rule reads the field first; what it reads after that is fixed while the field varies
  unfold ownEntries
  simp only [operation_withField]
  generalize p.operation = op at *
  cases op with
  | append =>
      simp (disch := decide) only [appendEntries, requireText_withField_self,
        requireTexts_withField]
      exact .bind fun values => .map (fun _ => statement_field_injective _) values
  | convert =>
      simp (disch := decide) only [convertEntries, requireText_withField_self,
        requireText_withField, targetOrField_withField, bind_assoc]
      exact .bind fun kind => .bind fun target => .one (statement_expression_injective _ _ _)
  | csv =>
      simp (disch := decide) only [csvEntries, requireText_withField_self, texts_withField]
      exact .bind fun targets => .one (statement_field_injective _)
  | date =>
      simp (disch := decide) only [dateEntries, requireText_withField_self, texts_withField,
        targetOrField_withField, bind_assoc]
      refine .bind fun target => .bind fun formats => ?_
      cases formats with
      | nil =>
          refine .one ?_
          intro x y h
          simpa only [String.append_left_inj, String.append_right_inj] using
            (Entry.statement.inj h).2
      | cons format formats =>
          refine .map ?_ (format :: formats)
          intro source x y h
          simpa only [String.append_left_inj, String.append_right_inj] using
            (Entry.statement.inj h).2
  | geoip =>
      simp (disch := decide) only [geoipEntries, requireText_withField_self,
        requireText_withField]
      exact .bind fun target => .one (statement_expression_injective _ _ _)
  | gsub =>
      simp (disch := decide) only [gsubEntries, requireText_withField_self, requireText_withField]
      exact .bind fun pattern => .bind fun replacement => .one (statement_field_injective _)
  | json | rename =>
      simp (disch := decide) only [toTarget, requireText_withField_self, requireText_withField]
      exact .bind fun target => .one (statement_expression_injective _ _ _)
  | kv =>
      simp (disch := decide) only [kvEntries, requireText_withField_self, requireText_withField]
      refine .bind fun target => .bind fun valueSplit => .bind fun fieldSplit => .one ?_
      intro x y h
      simpa only [String.append_left_inj, String.append_right_inj] using
        (Entry.statement.inj h).2
  | lowercase | uppercase | trim | urldecode | uriParts | userAgent =>
      simp only [inPlace, requireText_withField_self]
      exact .one (statement_field_injective _)
  | remove =>
      simp only [removeEntries, requireTexts_withField_self]
      exact .one (statement_field_injective _)
  | set =>
      simp (disch := decide) only [setEntries, requireText_withField_self, text?_withField,
        get?_withField_of_ne, literal_congr (operation_withField p _)]
      refine .bind fun source => ?_
      cases source with
      | some source => exact .one (statement_field_injective _)
      | none =>
          cases p.get? "value" with
          | some v => exact .bind fun text => .one (statement_field_injective _)
          | none => exact .nothing fun _ => rfl
  | split =>
      simp (disch := decide) only [splitEntries, requireText_withField_self,
        requireText_withField]
      refine .bind fun separator => .named _ ?_ (fun _ => List.cons_ne_nil _ _) fun _ => rfl
      intro x y h
      have hhead := (List.cons.inj h).1
      exact (Entry.statement.inj hhead).1
  | fingerprint | pipeline | script | foreach => cases hreads
  | grok | dissect => cases hextracts

/-! ### The marker in map entries -/

/-- An operation that does not read the field reads nothing else under another field. -/
theorem sameReads_withField (p : Processor) (x : String) (h : p.operation.readsField = false) :
    SameReads (p.withField x) p := by
  simp only [Operation.readsField, Bool.or_eq_false_iff, List.contains_eq_mem,
    decide_eq_false_iff_not, beq_eq_false_iff_ne] at h
  obtain ⟨htext, hlist⟩ := h
  refine ⟨rfl, ?_, ?_, ?_, ?_⟩
  · intro o ho
    have hne : o ≠ "field" := fun heq => htext (heq ▸ ho)
    exact p.text?_withField x hne
  · intro o ho
    have hne : o ≠ "field" := fun heq => hlist (heq ▸ ho)
    exact p.texts?_withField x hne
  · intro _
    rw [p.get?_withField_of_ne x (by decide), literal_congr (p.operation_withField x)]
  · intro _
    exact mapping?_congr rfl (p.get?_withField_of_ne x (by decide))

/-- A processor is read like itself under the field it has. -/
theorem sameReads_withField_self {p : Processor} {x : String}
    (h : p.get? "field" = some (.string x)) : SameReads p (p.withField x) := by
  refine .of_get? rfl ?_
  funext o
  by_cases ho : o = "field"
  · rw [ho, h, get?_withField_self]
  · rw [p.get?_withField_of_ne x ho]

/-- Map entries do not see a field that is not read. -/
@[simp] theorem entries_withField (s : Settings) (p : Processor) (x : String)
    (h : p.operation.readsField = false) : (p.withField x).entries s = p.entries s := by
  by_cases hop : p.operation = .foreach
  · have hop' : (p.withField x).operation = .foreach := hop
    rw [entries_of_foreach s hop, entries_of_foreach s hop', p.get?_withField_of_ne x (by decide)]
    rfl
  · have hop' : (p.withField x).operation ≠ .foreach := hop
    rw [entries_of_ne s hop, entries_of_ne s hop', ownEntries_congr s (p.sameReads_withField x h)]

/-- **What the marker does to map entries**: they are the same without resolving it exactly if it is
not there or not read, stands for itself, or if there are no entries. -/
theorem entries_eq_ok_iff_of_resolved {s : Settings} {p : Processor} {es : List Entry}
    (hplain : p.IsMarked s → p.IsPlainlyMarked s)
    (h : (p.resolveTimestamp s).entries s = .ok es) :
    p.entries s = .ok es ↔ (p.operation.readsField = true → p.IsPlainlyMarked s →
      s.timestampMarker = s.eventTimeField ∨ es = []) := by
  by_cases hmarked : p.IsMarked s
  · have hresolved : p.resolveTimestamp s = p.withField s.eventTimeField :=
      resolveTimestamp_of_isMarked hmarked
    rw [hresolved] at h
    -- a marker that is not read makes no difference, and neither does one without entries;
    -- elsewhere the entries name the field, so they are the same only if the field is
    cases hreads : p.operation.readsField with
    | false =>
        rw [p.entries_withField s _ hreads] at h
        exact ⟨fun _ hfalse => Bool.noConfusion hfalse, fun _ => h⟩
    | true =>
        cases hextracts : p.operation.extractsPatterns with
        | true =>
            have hnone := entries_of_extractsPatterns s hextracts
            rw [entries_of_extractsPatterns s (p := p.withField s.eventTimeField) hextracts] at h
            obtain rfl := Except.ok.inj h
            exact ⟨fun _ _ _ => .inr rfl, fun _ => hnone⟩
        | false =>
            have hop : p.operation ≠ .foreach := by
              intro heq
              rw [heq] at hreads
              cases hreads
            have huse := p.fieldUse_ownEntries s hreads hextracts
            rw [entries_of_ne s (p := p.withField _) hop] at h
            rw [entries_of_ne s hop,
              ownEntries_congr s (sameReads_withField_self (hplain hmarked)), huse.eq_iff h,
              or_comm]
            exact ⟨fun heq _ _ => heq, fun himp => himp rfl (hplain hmarked)⟩
  · rw [resolveTimestamp_of_not_isMarked hmarked] at h
    exact ⟨fun _ _ hyes => absurd hyes.isMarked hmarked, fun _ => h⟩

/-! ### Checks -/

/-- A processor has no check if it extracts no patterns and has no condition. -/
@[simp] theorem check_eq_ok_none_iff {p : Processor} :
    p.check = .ok none ↔ p.operation.extractsPatterns = false ∧ p.get? "if" = none := by
  rw [check]
  cases p.operation.extractsPatterns with
  | true =>
      rw [if_pos rfl, Except.bind_eq_ok_iff]
      constructor
      · rintro ⟨field, -, h⟩
        cases h
      · rintro ⟨h, -⟩
        cases h
  | false =>
      have hif : p.get? "if" = none ↔ p.text? "if" = .ok none := by
        rw [text?_eq_ok_iff, Option.map_none, Option.map_eq_none_iff]
      rw [if_neg Bool.false_ne_true, Except.bind_eq_ok_iff, hif, eq_self, true_and]
      constructor
      · rintro ⟨o, ho, h⟩
        rwa [Option.map_eq_none_iff.1 (Except.ok.inj h)] at ho
      · intro h
        exact ⟨none, h, rfl⟩

/-- Without a check there is no directive. -/
theorem directive_eq_none_of_check {s : Settings} {p : Processor} {c : Contribution}
    (h : p.contribution s = .ok c) (hcheck : c.check = none) : c.directive = none := by
  cases hd : c.directive with
  | none => rfl
  | some d =>
      have hsome := (coherent_of_contribution h d hd).1
      rw [hcheck] at hsome
      cases hsome

end Processor

namespace Pipeline

/-- A wrapped processor is a `foreach` with that processor and no condition. -/
theorem exists_ofValue_wrapped (field : String) {v : Value} (hv : v.isNull = false) :
    ∃ q, Processor.ofValue (v.wrapped field) = .ok q ∧ q.operation = .foreach ∧
      q.get? "processor" = some v ∧ q.get? "if" = none := by
  have hbody : (Value.map [(.string "field", .string field), (.string "processor", v)]).isBody =
      true := rfl
  have hdenotes : (v.wrapped field).Denotes .foreach
      (.map [(.string "field", .string field), (.string "processor", v)]) :=
    Value.denotes_map .foreach _
  obtain ⟨q, hq⟩ := Processor.exists_ofValue_of_isBody hdenotes hbody
  refine ⟨q, hq, Processor.operation_of_ofValue hdenotes hq, ?_, ?_⟩
  · rw [Processor.get?_of_ofValue hdenotes hq]
    show (some v).filter (fun v => !v.isNull) = some v
    rw [Option.filter_some, hv]
    rfl
  · rw [Processor.get?_of_ofValue hdenotes hq]
    rfl

/-- **What a `foreach` contributes**: the map entries of the processor that it wraps, as they are
without resolving the marker in it, and nothing else. -/
theorem contribution_wrapped_eq {s : Settings} {v : Value} {p : Processor}
    (h : Processor.ofValue v = .ok p) (field : String) :
    contribution s (v.wrapped field) = (p.entries s).map fun es => ⟨none, none, es⟩ := by
  obtain ⟨body, hv, -⟩ := Processor.ofValue_eq_ok_iff.1 h
  obtain ⟨q, hq, hop, hprocessor, hif⟩ := exists_ofValue_wrapped field hv.isNull_eq
  have hop' := (q.operation_resolveTimestamp s).trans hop
  have hentries : (q.resolveTimestamp s).entries s = p.entries s := by
    rw [Processor.entries_of_foreach s hop', q.get?_resolveTimestamp_of_ne s (by decide),
      hprocessor]
    dsimp only
    rw [h]
    rfl
  have hcondition : (q.resolveTimestamp s).text? "if" = .ok none := by
    rw [Processor.text?_eq_ok_iff, q.get?_resolveTimestamp_of_ne s (by decide), hif]
    rfl
  rw [contribution, Processor.resolved, hq]
  show (q.resolveTimestamp s).contribution s = _
  rw [Processor.contribution_of_not_extractsPatterns s (by rw [hop']; rfl), hentries, hcondition]
  cases p.entries s <;> rfl

/-- **A processor that loses nothing in a `foreach`**: it contributes map entries `es` without a
check or a directive, and no marker in it is to be resolved. -/
structure Wrappable (s : Settings) (op : Operation) (body : Value) (es : List Entry) : Prop where
  /-- It extracts no patterns. -/
  extractsPatterns : op.extractsPatterns = false
  /-- It has no condition. -/
  unconditional : body.option? "if" = none
  /-- A marker in the field that it reads stands for itself, or there are no entries to name it. -/
  unmarked : op.readsField = true → body.option? "field" = some (.string s.timestampMarker) →
    s.timestampMarker = s.eventTimeField ∨ es = []

/-- **Wrapping a processor in a `foreach`.** What carries no tags and has a contribution has one
wrapped, but of map entries only, and it is the same contribution if and only if the processor is
wrappable. -/
theorem contribution_wrapped {s : Settings} {v : Value} {c : Contribution} (hfree : v.TagFree)
    (h : contribution s v = .ok c) (field : String) :
    ∃ op body d, v = .map [(.string op.name, body)] ∧
      contribution s (v.wrapped field) = .ok d ∧ d.check = none ∧ d.directive = none ∧
      (d = c ↔ Wrappable s op body c.entries) := by
  obtain ⟨q, hq, hcontribution⟩ := Except.bind_eq_ok_iff.1 h
  obtain ⟨p, hp, rfl⟩ := Except.map_eq_ok_iff.1 hq
  obtain ⟨body, hv, hbody⟩ := Processor.ofValue_eq_ok_iff.1 hp
  obtain ⟨hentries, hcheck, -⟩ := Processor.contribution_eq_ok_iff.1 hcontribution
  have hplain : p.IsMarked s → p.IsPlainlyMarked s := Processor.isPlainlyMarked_of_tagFree hfree hp
  -- wrapped, the marker is not resolved, but that is no reason to fail
  have hok : (p.entries s).isOk = true := by
    rw [← p.isOk_entries_resolveTimestamp s hplain, hentries]
    rfl
  obtain ⟨es, hes⟩ := Except.isOk_iff.1 hok
  refine ⟨p.operation, body, ⟨none, none, es⟩, hfree.denotes_iff.1 hv, ?_, rfl, rfl, ?_⟩
  · rw [contribution_wrapped_eq hp, hes]
    rfl
  have hoption : p.get? = body.option? := funext (Processor.get?_of_optionsOf hbody)
  -- of the three parts of a contribution, a directive comes with a check, so two remain to compare
  have hnone : c.check = none ↔
      p.operation.extractsPatterns = false ∧ body.option? "if" = none := by
    rw [← hoption, ← p.get?_resolveTimestamp_of_ne s (by decide),
      ← p.operation_resolveTimestamp s, ← Processor.check_eq_ok_none_iff, hcheck,
      Except.ok.injEq]
  have hsame : es = c.entries ↔ (p.operation.readsField = true →
      body.option? "field" = some (.string s.timestampMarker) →
        s.timestampMarker = s.eventTimeField ∨ c.entries = []) := by
    rw [← hoption]
    refine Iff.trans ?_ (Processor.entries_eq_ok_iff_of_resolved hplain hentries)
    rw [hes, Except.ok.injEq]
  constructor
  · rintro rfl
    obtain ⟨hextracts, hif⟩ := hnone.1 rfl
    exact ⟨hextracts, hif, hsame.1 rfl⟩
  · rintro ⟨hextracts, hif, hmarked⟩
    have hcheck' := hnone.2 ⟨hextracts, hif⟩
    have hdirective' := Processor.directive_eq_none_of_check hcontribution hcheck'
    rw [hsame.2 hmarked, ← hcheck', ← hdirective']

/-- A processor with a condition. -/
def conditionalSample : Value :=
  .map [(.string "lowercase",
    .map [(.string "field", .string "a"), (.string "if", .string "ctx.k == 'x'")])]

/-- A processor that extracts patterns. -/
def extractingSample : Value :=
  .map [(.string "grok",
    .map [(.string "field", .string "m"), (.string "patterns", .seq [.string "%\x7ba\x7d"])])]

/-- A processor with the timestamp marker. -/
def markedSample : Value :=
  .map [(.string "lowercase", .map [(.string "field", .string "@timestamp")])]

/-- A condition is lost. -/
theorem contribution_wrapped_conditionalSample :
    conditionalSample.TagFree ∧
      contribution {} conditionalSample =
        .ok ⟨some "$k == 'x'", none, [.statement "a" "downcase($a)"]⟩ ∧
      ∃ op body d, conditionalSample = .map [(.string op.name, body)] ∧
        contribution {} (conditionalSample.wrapped "items") = .ok d ∧
        d.check = none ∧ d.directive = none ∧
        (d = ⟨some "$k == 'x'", none, [.statement "a" "downcase($a)"]⟩ ↔
          Wrappable {} op body [.statement "a" "downcase($a)"]) := by
  have hfree : conditionalSample.TagFree := by simp [conditionalSample]
  have h : contribution {} conditionalSample =
      .ok ⟨some "$k == 'x'", none, [.statement "a" "downcase($a)"]⟩ := by cbv
  exact ⟨hfree, h, contribution_wrapped hfree h "items"⟩

/-- **What a `foreach` loses**: a condition, a directive with its check, and a marker. -/
theorem contribution_wrapped_ne :
    (contribution {} conditionalSample =
        .ok ⟨some "$k == 'x'", none, [.statement "a" "downcase($a)"]⟩ ∧
      contribution {} (conditionalSample.wrapped "items") =
        .ok ⟨none, none, [.statement "a" "downcase($a)"]⟩) ∧
    (contribution {} extractingSample = .ok ⟨some "exists($m)", some ⟨"m", ["<a>"]⟩, []⟩ ∧
      contribution {} (extractingSample.wrapped "items") = .ok ⟨none, none, []⟩) ∧
    (contribution {} markedSample =
        .ok ⟨none, none, [.statement "event.start" "downcase($event.start)"]⟩ ∧
      contribution {} (markedSample.wrapped "items") =
        .ok ⟨none, none, [.statement "@timestamp" "downcase($@timestamp)"]⟩) := by
  refine ⟨⟨?_, ?_⟩, ⟨?_, ?_⟩, ?_, ?_⟩ <;> cbv

end Pipeline

end IngestPipeline
