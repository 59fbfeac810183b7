import IngestPipeline.Proofs.Decoding
import IngestPipeline.Proofs.Run

/-! # Which pipelines are accepted

A pipeline has blocks if every processor in it is accepted. This file says which processors those
are, in a table of what each operation asks of its options, and shows that the table is exact.

* **`Operation.admits`**: what the rule for the map entries asks of the options.
* **`Operation.admitsFrame`**: what the check and the directive ask.
* **`Value.Translatable`**, **`Value.Accepted`**: the table applied to a value, through any nest of
  `foreach` processors.
* **`Processor.IsMarked`**: a processor with the timestamp marker for its field. Resolving the
  marker exchanges that option (`resolveTimestamp_of_isMarked`) and leaves all other processors
  alone.
* **`isOk_blocks_iff`**: a pipeline without tags has blocks if and only if all its values are
  accepted. -/

namespace IngestPipeline

namespace Value

/-- Whether the value is a scalar or a sequence of scalars. -/
def isList : Value → Bool
  | .seq xs => xs.all isScalar
  | v => v.isScalar

/-- Whether the value is a scalar or a sequence of scalars that is not empty. -/
def isNonEmptyList : Value → Bool
  | .seq [] => false
  | v => v.isList

/-- Whether the value is a mapping from scalars to scalars. -/
def isDefinitions : Value → Bool
  | .map es => es.all fun e => e.1.isScalar && e.2.isScalar
  | _ => false

/-- Whether the value can name a member of a JSON object: a string, a truth value, an integer or a
finite number. -/
def isMemberKey : Value → Bool
  | .string _ | .bool _ | .int _ => true
  | .float x => x.isFinite
  | _ => false

mutual

/-- Whether the value can be written as a literal: at any depth, mapping keys can name members. -/
def isLiteral : Value → Bool
  | .seq xs => areLiterals xs
  | .map es => areMembers es
  | .tagged _ v => v.isLiteral
  | _ => true

/-- Whether all items of a sequence can be written as literals. -/
def areLiterals : List Value → Bool
  | [] => true
  | x :: xs => x.isLiteral && areLiterals xs

/-- Whether all entries of a mapping can be written as members. -/
def areMembers : List (Value × Value) → Bool
  | [] => true
  | (k, v) :: es => k.isMemberKey && v.isLiteral && areMembers es

end

end Value

/-! ### The table -/

open Value in
/-- **What a rule asks of the options** `o` of a processor. An option that `any` is asked of has to
be present; one that `all` is asked of may be absent. -/
def Operation.admits (op : Operation) (o : String → Option Value) : Bool :=
  match op with
  | .append => (o "field").any isScalar && (o "value").any isList
  | .convert =>
      (o "field").any isScalar && (o "type").any isScalar && (o "target_field").all isScalar
  | .csv => (o "field").any isScalar && (o "target_fields").all isList
  | .date =>
      (o "field").any isScalar && (o "target_field").all isScalar && (o "formats").all isList
  | .fingerprint => (o "target_field").any isScalar && (o "fields").any isNonEmptyList
  | .geoip | .json | .rename => (o "field").any isScalar && (o "target_field").any isScalar
  | .gsub =>
      (o "field").any isScalar && (o "pattern").any isScalar && (o "replacement").any isScalar
  | .kv =>
      (o "field").any isScalar && (o "target_field").any isScalar &&
        (o "value_split").any isScalar && (o "field_split").any isScalar
  | .lowercase | .uppercase | .trim | .urldecode | .uriParts | .userAgent =>
      (o "field").any isScalar
  | .pipeline => (o "name").any isScalar
  | .remove => (o "field").any isList
  | .script => (o "source").any isScalar
  | .set =>
      -- a value is looked at only if there is no field to copy
      (o "field").any isScalar && (o "copy_from").all isScalar &&
        ((o "copy_from").isSome || (o "value").all isLiteral)
  | .split => (o "field").any isScalar && (o "separator").any isScalar
  | .dissect | .grok | .foreach => true

open Value in
/-- **What the check and the directive ask of the options** `o` of a processor. -/
def Operation.admitsFrame (op : Operation) (o : String → Option Value) : Bool :=
  match op with
  | .grok =>
      (o "field").any isScalar && (o "patterns").all isList &&
        (o "pattern_definitions").all isDefinitions
  | .dissect => (o "field").any isScalar && (o "pattern").all isScalar
  | _ => (o "if").all isScalar

/-- **A value that a rule has map entries for**: a known operation with a body of options that the
rule admits, or a `foreach` around such a value. What a `foreach` wraps is asked for no more. -/
inductive Value.Translatable : Value → Prop
  /-- A processor that wraps no other. -/
  | own {v body : Value} {op : Operation} (hv : v.Denotes op body) (hop : op ≠ .foreach)
      (hbody : body.isBody) (hadmits : op.admits body.option?) : Translatable v
  /-- A processor that wraps another. -/
  | foreach {v w body : Value} (hv : v.Denotes .foreach body) (hbody : body.isBody)
      (hw : body.option? "processor" = some w) (hwrapped : w.Translatable) : Translatable v

/-- **An accepted processor**: one entry, from the name of an operation to a body whose options the
operation admits. -/
def Value.Accepted (v : Value) : Prop :=
  v.Translatable ∧ ∃ op body, v.Denotes op body ∧ Operation.admitsFrame op body.option?

/-! ### Reading one option -/

namespace Value

/-- Items have texts if all are scalars. -/
@[simp] theorem isSome_itemTexts? (xs : List Value) :
    (Processor.itemTexts? xs).isSome = xs.all isScalar := by
  induction xs with
  | nil => rfl
  | cons x xs ih =>
      rw [Processor.itemTexts?, List.all_cons, ← ih, ← isSome_text?]
      cases x.text? with
      | none => rfl
      | some text => cases Processor.itemTexts? xs <;> rfl

/-- The lists are the values that have texts. -/
@[simp] theorem isSome_texts? (v : Value) : v.texts?.isSome = v.isList := by
  cases v with
  | seq xs => exact isSome_itemTexts? xs
  | _ => rfl

/-- A list with a text in it is one that is not empty. -/
theorem isNonEmptyList_iff {v : Value} :
    v.isNonEmptyList = true ↔ ∃ text texts, v.texts? = some (text :: texts) := by
  cases v with
  | seq xs =>
      cases xs with
      | nil => simp [isNonEmptyList, texts?, Processor.itemTexts?]
      | cons x xs =>
          show isList (.seq (x :: xs)) = true ↔ _
          rw [← isSome_texts?, Option.isSome_iff_exists]
          constructor
          · rintro ⟨ts, hts⟩
            cases ts with
            | nil =>
                -- a text for each item
                rw [texts?, Processor.itemTexts?] at hts
                split at hts <;> cases hts
            | cons text ts => exact ⟨text, ts, hts⟩
          · rintro ⟨text, ts, hts⟩
            exact ⟨_, hts⟩
  | _ => simp [isNonEmptyList, isList, isScalar, texts?, text?]

end Value

namespace Processor

variable (s : Settings) (p : Processor) (option : String)

/-- An optional text is refused only if it is there and no scalar. -/
@[simp] theorem isOk_text? : (p.text? option).isOk = (p.get? option).all Value.isScalar := by
  unfold text?
  cases p.get? option with
  | none => rfl
  | some v =>
      dsimp only
      rw [Option.all_some, ← Value.isSome_text?]
      cases v.text? <;> rfl

/-- A required text has to be there and to be a scalar. -/
@[simp] theorem isOk_requireText :
    (p.requireText option).isOk = (p.get? option).any Value.isScalar := by
  rw [Bool.eq_iff_iff, Except.isOk_iff]
  simp only [requireText_eq_ok_iff]
  cases p.get? option with
  | none => simp
  | some v =>
      rw [Option.any_some, ← Value.isSome_text?, Option.isSome_iff_exists]
      rfl

/-- A required list has to be there and to be a scalar or a sequence of scalars. -/
@[simp] theorem isOk_requireTexts :
    (p.requireTexts option).isOk = (p.get? option).any Value.isList := by
  rw [Bool.eq_iff_iff, Except.isOk_iff]
  simp only [requireTexts_eq_ok_iff]
  cases p.get? option with
  | none => simp
  | some v =>
      rw [Option.any_some, ← Value.isSome_texts?, Option.isSome_iff_exists]
      rfl

/-- A list is refused only if it is there and neither a scalar nor a sequence of scalars. -/
@[simp] theorem isOk_texts : (p.texts option).isOk = (p.get? option).all Value.isList := by
  rw [Bool.eq_iff_iff, Except.isOk_iff]
  simp only [texts_eq_ok_iff]
  cases p.get? option with
  | none => simp
  | some v =>
      rw [Option.all_some, ← Value.isSome_texts?, Option.isSome_iff_exists]
      simp

/-! ### The rules -/

/-- Where the field is there, a target is asked for no more than to be a scalar. -/
theorem isOk_targetOrField (h : (p.requireText "field").isOk = true) :
    p.targetOrField.isOk = (p.get? "target_field").all Value.isScalar := by
  rw [← isOk_text?, targetOrField]
  cases p.text? "target_field" with
  | error e => rfl
  | ok o =>
      cases o with
      | none => exact h
      | some target =>
          show Except.isOk (if target.isEmpty then p.requireText "field" else .ok target) = true
          split
          · exact h
          · rfl

/-- The rule of `convert` asks for what the table says. -/
@[simp] theorem isOk_convertEntries : p.convertEntries.isOk = Operation.convert.admits p.get? := by
  rw [Bool.eq_iff_iff]
  simp only [convertEntries, Except.isOk_bind_iff, Except.isOk_pure, and_true, exists_and_right,
    ← Except.isOk_iff, Operation.admits, Bool.and_eq_true, and_assoc]
  rw [isOk_requireText p "type", ← isOk_requireText p "field"]
  exact and_congr_right fun h => and_congr_right fun _ => by rw [p.isOk_targetOrField h]

/-- The rule of `date` asks for what the table says, whatever the formats. -/
@[simp] theorem isOk_dateEntries : (p.dateEntries s).isOk = Operation.date.admits p.get? := by
  rw [Bool.eq_iff_iff]
  have hformats : ∀ (formats : List String) (es es' : List Entry),
      Except.isOk (if formats.isEmpty then pure es else pure es' :
        Except ProcessorError (List Entry)) = true := by
    intro formats es es'
    split <;> rfl
  simp only [dateEntries, Except.isOk_bind_iff, hformats, and_true, exists_and_right,
    ← Except.isOk_iff, isOk_texts, Operation.admits, Bool.and_eq_true, and_assoc]
  rw [← isOk_requireText p "field"]
  exact and_congr_right fun h => by rw [p.isOk_targetOrField h]

/-- The rule of `fingerprint` asks for what the table says: a list of fields that is not empty. -/
@[simp] theorem isOk_fingerprintEntries :
    (p.fingerprintEntries s).isOk = Operation.fingerprint.admits p.get? := by
  rw [fingerprintEntries, Operation.admits, ← isOk_requireText]
  refine Except.isOk_bind fun target => ?_
  rw [Bool.eq_iff_iff, Except.isOk_bind_iff]
  -- only an empty list of fields is refused
  have hfields : (∃ fields, p.texts "fields" = .ok fields ∧ fields ≠ []) ↔
      (p.get? "fields").any Value.isNonEmptyList = true := by
    simp only [texts_eq_ok_iff]
    cases p.get? "fields" with
    | none => simp
    | some v =>
        rw [Option.any_some, Value.isNonEmptyList_iff]
        simp [List.ne_nil_iff_exists_cons]
  rw [← hfields]
  refine exists_congr fun fields => and_congr_right fun _ => ?_
  split
  · simp
  · simp
  · rename_i hnil _
    exact ⟨fun _ => hnil, fun _ => rfl⟩

end Processor

/-! ### Literals -/

namespace Value

/-- The values that can name a member are those with a name as a key. -/
@[simp] theorem isSome_memberName? (k : Value) : k.memberName?.isSome = k.isMemberKey := by
  cases k with
  | float x =>
      rw [memberName?, isMemberKey]
      cases x.isFinite <;> rfl
  | _ => rfl

mutual

/-- The values with a JSON form are those that can be written as literals. -/
@[simp] theorem isSome_toJson? : ∀ v : Value, v.toJson?.isSome = v.isLiteral
  | .null => rfl
  | .bool _ => rfl
  | .int _ => rfl
  | .float _ => rfl
  | .string _ => rfl
  | .seq xs => by rw [toJson?, Option.isSome_map, isLiteral, isSome_jsonItems? xs]
  | .map es => by rw [toJson?, Option.isSome_map, isLiteral, isSome_jsonMembers? es]
  | .tagged _ v => by rw [toJson?, Option.isSome_map, isLiteral, isSome_toJson? v]

/-- So it is for the items of a sequence. -/
@[simp] theorem isSome_jsonItems? : ∀ xs : List Value, (jsonItems? xs).isSome = areLiterals xs
  | [] => rfl
  | x :: xs => by
      rw [jsonItems?, areLiterals, ← isSome_toJson? x, ← isSome_jsonItems? xs]
      cases x.toJson? with
      | none => rfl
      | some j => cases jsonItems? xs <;> rfl

/-- So it is for the entries of a mapping, where keys have to name members. -/
@[simp] theorem isSome_jsonMembers? :
    ∀ es : List (Value × Value), (jsonMembers? es).isSome = areMembers es
  | [] => rfl
  | (k, v) :: es => by
      rw [jsonMembers?, areMembers, ← isSome_memberName?, ← isSome_toJson? v,
        ← isSome_jsonMembers? es]
      cases k.memberName? with
      | none => rfl
      | some name =>
          cases v.toJson? with
          | none => rfl
          | some j => cases jsonMembers? es <;> rfl

end

end Value

namespace Processor

variable (s : Settings) (p : Processor)

/-- A value can be written as a literal if it has a JSON form. A scalar has one too. -/
@[simp] theorem isOk_literal (v : Value) : (p.literal v).isOk = v.isLiteral := by
  rw [← Value.isSome_toJson?, literal]
  cases htext : v.text? with
  | none =>
      dsimp only
      cases v.toJson? <;> rfl
  | some text =>
      -- a scalar has a JSON form too
      cases v <;> first | rfl | cases htext

/-- The rule of `set` asks for what the table says: a value only if there is no field to copy. -/
@[simp] theorem isOk_setEntries : p.setEntries.isOk = Operation.set.admits p.get? := by
  rw [setEntries, Operation.admits, Bool.and_assoc, ← isOk_requireText]
  refine Except.isOk_bind fun field => ?_
  rw [Bool.eq_iff_iff, Except.isOk_bind_iff, Bool.and_eq_true, ← isOk_text?, Except.isOk_iff]
  rw [← exists_and_right]
  refine exists_congr fun source => and_congr_right fun hsource => ?_
  -- there is a text to copy if there is an option to read it from
  have hsome : (p.get? "copy_from").isSome = source.isSome := by
    rw [← Option.isSome_map, text?_eq_ok_iff.1 hsource, Option.isSome_map]
  rw [hsome]
  cases source with
  | some source => exact ⟨fun _ => rfl, fun _ => rfl⟩
  | none =>
      dsimp only
      rw [Option.isSome_none, Bool.false_or]
      cases p.get? "value" with
      | none => exact ⟨fun _ => rfl, fun _ => rfl⟩
      | some v =>
          dsimp only
          rw [Option.all_some, ← p.isOk_literal v, Except.isOk_bind fun _ => Except.isOk_pure _,
            Bool.and_true]

/-- **The table is exact for the rules**: a processor that wraps no other has map entries if its
operation admits its options. -/
@[simp] theorem isOk_ownEntries : (p.ownEntries s).isOk = p.operation.admits p.get? := by
  unfold ownEntries
  cases p.operation with
  | convert => exact p.isOk_convertEntries
  | date => exact p.isOk_dateEntries s
  | fingerprint => exact p.isOk_fingerprintEntries s
  | set => exact p.isOk_setEntries
  | dissect => rfl
  | grok => rfl
  | foreach => rfl
  | _ =>
      -- all other rules read their options one after the other
      rw [Bool.eq_iff_iff]
      simp only [appendEntries, csvEntries, geoipEntries, gsubEntries, toTarget, kvEntries, inPlace,
        pipelineEntries, removeEntries, scriptEntries, splitEntries, Except.isOk_bind_iff,
        Except.isOk_pure, and_true, exists_and_right, ← Except.isOk_iff, isOk_requireText,
        isOk_texts, isOk_requireTexts, Operation.admits, Bool.and_eq_true, and_assoc]

/-! ### Check and directive -/

/-- Where the field is there, a directive is asked for no more than its patterns. -/
theorem isOk_directive (h : (p.requireText "field").isOk = true) :
    p.directive.isOk = p.patterns.isOk := by
  rw [directive, ← Bool.and_true p.patterns.isOk]
  refine Except.isOk_bind fun patterns => ?_
  split
  · rfl
  · rw [Except.isOk_bind fun _ => Except.isOk_pure _, h]
    rfl

/-- Definitions have texts if all names and definitions are scalars. -/
@[simp] theorem isSome_definitionTexts? (es : List (Value × Value)) :
    (definitionTexts? es).isSome = es.all fun e => e.1.isScalar && e.2.isScalar := by
  induction es with
  | nil => rfl
  | cons e es ih =>
      obtain ⟨k, v⟩ := e
      rw [definitionTexts?, List.all_cons, ← ih, ← Value.isSome_text?, ← Value.isSome_text?]
      cases k.text? with
      | none => rfl
      | some name =>
          cases v.text? with
          | none => rfl
          | some definition => cases definitionTexts? es <;> rfl

/-- The patterns of `grok` ask for a list and for definitions under scalar names. -/
@[simp] theorem isOk_grokPatterns :
    p.grokPatterns.isOk =
      ((p.get? "patterns").all Value.isList &&
        (p.get? "pattern_definitions").all Value.isDefinitions) := by
  rw [grokPatterns, ← isOk_texts]
  refine Except.isOk_bind fun patterns => ?_
  rw [mapping?]
  cases p.get? "pattern_definitions" with
  | none => rfl
  | some v =>
      cases v with
      | map es =>
          rw [Option.all_some, Value.isDefinitions, ← isSome_definitionTexts?]
          dsimp only [bind, Except.bind, Option.getD_some]
          cases definitionTexts? es <;> rfl
      | _ => rfl

/-- The pattern of `dissect` is asked to be a scalar. -/
@[simp] theorem isOk_dissectPatterns :
    p.dissectPatterns.isOk = (p.get? "pattern").all Value.isScalar := by
  rw [dissectPatterns, ← isOk_text?]
  cases p.text? "pattern" with
  | error e => rfl
  | ok o => cases o <;> rfl

/-- **The table is exact for the frame**: a processor has a check or none and a directive or none if
its operation admits its options there. -/
theorem isOk_check_and_directive :
    (p.check.isOk && p.directive.isOk) = p.operation.admitsFrame p.get? := by
  have hextracts : p.operation.extractsPatterns = true →
      (p.check.isOk && p.directive.isOk) =
        ((p.get? "field").any Value.isScalar && p.patterns.isOk) := by
    intro h
    rw [check, if_pos h, Except.isOk_bind fun _ => Except.isOk_pure _, Bool.and_true,
      ← isOk_requireText]
    cases hfield : (p.requireText "field").isOk with
    | false => rfl
    | true => rw [p.isOk_directive hfield]
  have hother : p.operation.extractsPatterns = false → p.patterns = .ok [] →
      (p.check.isOk && p.directive.isOk) = (p.get? "if").all Value.isScalar := by
    intro h hpatterns
    rw [check, if_neg (by rw [h]; exact Bool.false_ne_true), directive, hpatterns, ← isOk_text?,
      Except.isOk_bind fun _ => Except.isOk_pure _, Bool.and_true]
    exact Bool.and_true _
  rw [patterns] at hextracts hother
  cases hop : p.operation with
  | grok =>
      rw [hop] at hextracts
      rw [hextracts rfl, isOk_grokPatterns, ← Bool.and_assoc]
      rfl
  | dissect =>
      rw [hop] at hextracts
      rw [hextracts rfl, isOk_dissectPatterns]
      rfl
  | _ =>
      rw [hop] at hother
      exact hother rfl rfl

/-! ### The timestamp marker -/

/-- Whether the option `field` is the timestamp marker, tags in front of it aside. -/
def IsMarked : Prop := (p.get? "field").map Value.untag = some (.string s.timestampMarker)

variable {s p}

/-- A string behind tags is not null, so that it does not count as absent. -/
theorem map_untag_get?_eq_some_string_iff {o text : String} :
    (p.get? o).map Value.untag = some (.string text) ↔
      (p.options.lookup o).map Value.untag = some (.string text) := by
  rw [get?]
  cases p.options.lookup o with
  | none => rfl
  | some v =>
      rw [Option.filter_some]
      cases hnull : v.isNull with
      | false => rfl
      | true =>
          have hne : v.untag ≠ .string text := by
            intro htext
            have hkept : v.untag ≠ .null := by simp [htext]
            rw [Value.isNull_eq_false hkept] at hnull
            cases hnull
          simp [hne]

/-- A marker is exchanged for the field that holds the time of the event. -/
theorem resolveTimestamp_of_isMarked (h : p.IsMarked s) :
    p.resolveTimestamp s = p.withOption "field" (.string s.eventTimeField) := by
  rw [resolveTimestamp, map_untag_get?_eq_some_string_iff.1 h]
  exact if_pos rfl

/-- Without a marker there is nothing to resolve. -/
@[simp] theorem resolveTimestamp_of_not_isMarked (h : ¬ p.IsMarked s) :
    p.resolveTimestamp s = p := by
  unfold resolveTimestamp
  split
  · rename_i field hfield
    split
    · rename_i hmarker
      rw [hmarker] at hfield
      exact absurd (map_untag_get?_eq_some_string_iff.2 hfield) h
    · rfl
  · rfl

/-- An option that was set is there. -/
@[simp] theorem get?_withOption_self (o : String) {v : Value} (hv : v.isNull = false) :
    (p.withOption o v).get? o = some v := by
  simp [get?, withOption, hv]

/-- Setting an option leaves the others alone. -/
@[simp] theorem get?_withOption_of_ne {o o' : String} (h : o' ≠ o) (v : Value) :
    (p.withOption o v).get? o' = p.get? o' := by
  simp [get?, withOption, h]

variable (s p)

/-- Resolving the marker keeps the operation. -/
@[simp] theorem operation_resolveTimestamp : (p.resolveTimestamp s).operation = p.operation := by
  by_cases h : p.IsMarked s
  · rw [resolveTimestamp_of_isMarked h]
    rfl
  · rw [resolveTimestamp_of_not_isMarked h]

/-- Options other than `field` do not see the marker. -/
@[simp] theorem get?_resolveTimestamp_of_ne {option : String} (h : option ≠ "field") :
    (p.resolveTimestamp s).get? option = p.get? option := by
  by_cases hmarked : p.IsMarked s
  · rw [resolveTimestamp_of_isMarked hmarked, get?_withOption_of_ne h]
  · rw [resolveTimestamp_of_not_isMarked hmarked]

/-- **The marker is a string by itself**, without tags in front of it. -/
def IsPlainlyMarked : Prop := p.get? "field" = some (.string s.timestampMarker)

variable {s p} in
/-- Such a marker is one. -/
theorem IsPlainlyMarked.isMarked (h : p.IsPlainlyMarked s) : p.IsMarked s := by
  rw [IsMarked, h]
  rfl

variable {s p} in
/-- In a processor that was decoded from a value without tags, every marker is such a one. -/
theorem isPlainlyMarked_of_tagFree {v : Value} (hfree : v.TagFree) (hv : ofValue v = .ok p)
    (h : p.IsMarked s) : p.IsPlainlyMarked s := by
  obtain ⟨body, hdenotes, hbody⟩ := ofValue_eq_ok_iff.1 hv
  rw [hfree.denotes_iff.1 hdenotes, Value.tagFree_map_iff, List.forall_mem_singleton] at hfree
  obtain ⟨field, hfield, huntag⟩ := Option.map_eq_some_iff.1 h
  have hfieldFree : field.TagFree := by
    rw [get?_of_optionsOf hbody] at hfield
    exact hfree.2.option? hfield
  rw [IsPlainlyMarked, hfield, ← huntag, hfieldFree.untag_eq]

variable {p} in
/-- A demand that all strings meet, or none, does not see the marker. -/
theorem any_field_resolveTimestamp (hplain : p.IsMarked s → p.IsPlainlyMarked s)
    {f : Value → Bool} (hf : ∀ a b, f (.string a) = f (.string b)) :
    ((p.resolveTimestamp s).get? "field").any f = (p.get? "field").any f := by
  by_cases hmarked : p.IsMarked s
  · rw [resolveTimestamp_of_isMarked hmarked, get?_withOption_self _ rfl, hplain hmarked,
      Option.any_some, Option.any_some, hf]
  · rw [resolveTimestamp_of_not_isMarked hmarked]

section Plain

variable {p} (hplain : p.IsMarked s → p.IsPlainlyMarked s)

include hplain

/-- No rule minds which string a field is. -/
theorem admits_resolveTimestamp (op : Operation) :
    op.admits (p.resolveTimestamp s).get? = op.admits p.get? := by
  have hscalar := any_field_resolveTimestamp s hplain (f := Value.isScalar) fun _ _ => rfl
  have hlist := any_field_resolveTimestamp s hplain (f := Value.isList) fun _ _ => rfl
  have hother := fun option => @get?_resolveTimestamp_of_ne s p option
  cases op <;> simp (disch := decide) only [Operation.admits, hscalar, hlist, hother]

/-- Neither do the check and the directive. -/
theorem admitsFrame_resolveTimestamp (op : Operation) :
    op.admitsFrame (p.resolveTimestamp s).get? = op.admitsFrame p.get? := by
  have hscalar := any_field_resolveTimestamp s hplain (f := Value.isScalar) fun _ _ => rfl
  have hother := fun option => @get?_resolveTimestamp_of_ne s p option
  cases op <;> simp (disch := decide) only [Operation.admitsFrame, hscalar, hother]

end Plain

/-! ### Nests of processors -/

/-- A `foreach` has the map entries of the processor it wraps. -/
theorem entries_of_foreach {p : Processor} (h : p.operation = .foreach) :
    p.entries s =
      match p.get? "processor" with
      | none => .error (p.missing "processor")
      | some v => ofValue v >>= entries s := by
  rw [entries, innermost, if_pos h]
  split
  · rename_i hget
    rw [hget]
    rfl
  · rename_i v hget
    rw [hget]
    split
    · rename_i e he
      show _ = ofValue v >>= entries s
      rw [he]
      rfl
    · rename_i q hq
      show _ = ofValue v >>= entries s
      rw [hq]
      rfl

/-- A processor that wraps no other has the map entries of its own rule. -/
theorem entries_of_ne {p : Processor} (h : p.operation ≠ .foreach) :
    p.entries s = p.ownEntries s := by
  rw [entries, innermost_of_ne h]
  rfl

/-- The marker decides about no entries: what a `foreach` wraps does not see it, and no rule minds
which string a field is. -/
theorem isOk_entries_resolveTimestamp (hplain : p.IsMarked s → p.IsPlainlyMarked s) :
    ((p.resolveTimestamp s).entries s).isOk = (p.entries s).isOk := by
  by_cases h : p.operation = .foreach
  · rw [entries_of_foreach s h, entries_of_foreach s ((p.operation_resolveTimestamp s).trans h),
      p.get?_resolveTimestamp_of_ne s (by decide), missing, operation_resolveTimestamp]
    rfl
  · have h' : (p.resolveTimestamp s).operation ≠ .foreach := by
      rw [operation_resolveTimestamp]
      exact h
    rw [entries_of_ne s h, entries_of_ne s h', isOk_ownEntries, isOk_ownEntries,
      operation_resolveTimestamp, admits_resolveTimestamp s hplain]

/-- A processor has a contribution if it has map entries and its frame is admitted. -/
@[simp] theorem isOk_contribution :
    (p.contribution s).isOk = ((p.entries s).isOk && p.operation.admitsFrame p.get?) := by
  rw [← p.isOk_check_and_directive, ← Bool.and_true p.directive.isOk]
  exact Except.isOk_bind fun _ => Except.isOk_bind fun _ => Except.isOk_bind fun _ => rfl

/-- The marker does not decide whether there is a contribution. -/
theorem isOk_contribution_resolveTimestamp (hplain : p.IsMarked s → p.IsPlainlyMarked s) :
    ((p.resolveTimestamp s).contribution s).isOk = (p.contribution s).isOk := by
  rw [isOk_contribution, isOk_contribution, p.isOk_entries_resolveTimestamp s hplain,
    operation_resolveTimestamp, admitsFrame_resolveTimestamp s hplain]

variable {s}

/-- A processor with map entries was decoded from a value that the table admits. -/
theorem translatable_of_isOk_entries {p : Processor} {v : Value} (hv : ofValue v = .ok p)
    (h : (p.entries s).isOk = true) : v.Translatable := by
  induction p using innermost.induct generalizing v with
  | case1 p hop hget =>
      rw [entries_of_foreach s hop, hget] at h
      cases h
  | case2 p hop w hget e he =>
      rw [entries_of_foreach s hop, hget] at h
      dsimp only at h
      rw [he] at h
      cases h
  | case3 p hop w hget q hq ih =>
      rw [entries_of_foreach s hop, hget] at h
      dsimp only at h
      rw [hq] at h
      obtain ⟨body, hdenotes, hbody⟩ := ofValue_eq_ok_iff.1 hv
      rw [hop] at hdenotes
      refine .foreach hdenotes ?_ ?_ (ih hq h)
      · rw [← isOk_optionsOf p.operation.name, hbody]
        rfl
      · rw [← get?_of_optionsOf hbody, hget]
  | case4 p hop =>
      rw [entries_of_ne s hop, isOk_ownEntries] at h
      obtain ⟨body, hdenotes, hbody⟩ := ofValue_eq_ok_iff.1 hv
      refine .own hdenotes hop ?_ ?_
      · rw [← isOk_optionsOf p.operation.name, hbody]
        rfl
      · rw [← funext (get?_of_optionsOf hbody)]
        exact h

/-- A value that the table admits is decoded to a processor with map entries. -/
theorem isOk_entries_of_translatable (s : Settings) {v : Value} (h : v.Translatable) :
    ∃ p, ofValue v = .ok p ∧ (p.entries s).isOk = true := by
  induction h with
  | own hv hop hbody hadmits =>
      obtain ⟨p, hp⟩ := exists_ofValue_of_isBody hv hbody
      have hpop := operation_of_ofValue hv hp
      refine ⟨p, hp, ?_⟩
      rw [entries_of_ne s (by rw [hpop]; exact hop), isOk_ownEntries, hpop, get?_of_ofValue hv hp]
      exact hadmits
  | foreach hv hbody hw _ ih =>
      obtain ⟨p, hp⟩ := exists_ofValue_of_isBody hv hbody
      obtain ⟨q, hq, hentries⟩ := ih
      refine ⟨p, hp, ?_⟩
      rw [entries_of_foreach s (operation_of_ofValue hv hp), get?_of_ofValue hv hp, hw]
      dsimp only
      rw [hq]
      exact hentries

end Processor

/-! ### All processors of a pipeline -/

namespace Pipeline

/-- A value that names an operation is reported by that name. -/
theorem reportedOperation_of_denotes {v body : Value} {op : Operation} (h : v.Denotes op body) :
    reportedOperation v = op.name := by
  obtain ⟨key, hv, hkey⟩ := h
  rw [reportedOperation, hv]
  dsimp only
  rw [hkey]

/-- A processor without tags has a contribution if it is accepted. -/
theorem isOk_contribution_iff {s : Settings} {v : Value} (hfree : v.TagFree) :
    (contribution s v).isOk = true ↔ v.Accepted := by
  have hresolved : ∀ p, Processor.ofValue v = .ok p →
      ((p.resolveTimestamp s).contribution s).isOk = (p.contribution s).isOk := fun p hp =>
    p.isOk_contribution_resolveTimestamp s (Processor.isPlainlyMarked_of_tagFree hfree hp)
  have hdecoded : (contribution s v).isOk = true ↔
      ∃ p, Processor.ofValue v = .ok p ∧ (p.contribution s).isOk = true := by
    rw [contribution, Processor.resolved, Except.isOk_bind_iff]
    simp only [Except.map_eq_ok_iff]
    constructor
    · rintro ⟨_, ⟨p, hp, rfl⟩, h⟩
      rw [hresolved p hp] at h
      exact ⟨p, hp, h⟩
    · rintro ⟨p, hp, h⟩
      rw [← hresolved p hp] at h
      exact ⟨_, ⟨p, hp, rfl⟩, h⟩
  rw [hdecoded]
  simp only [Processor.isOk_contribution, Bool.and_eq_true]
  constructor
  · rintro ⟨p, hp, hentries, hframe⟩
    refine ⟨Processor.translatable_of_isOk_entries hp hentries, ?_⟩
    obtain ⟨body, hv, hbody⟩ := Processor.ofValue_eq_ok_iff.1 hp
    refine ⟨p.operation, body, hv, ?_⟩
    rw [← funext (Processor.get?_of_optionsOf hbody)]
    exact hframe
  · rintro ⟨htranslatable, op, body, hv, hframe⟩
    obtain ⟨p, hp, hentries⟩ := Processor.isOk_entries_of_translatable s htranslatable
    refine ⟨p, hp, hentries, ?_⟩
    rw [Processor.operation_of_ofValue hv hp, Processor.get?_of_ofValue hv hp]
    exact hframe

/-- **Exactly the accepted pipelines have blocks**, whatever the settings, among those without
tags. -/
theorem isOk_blocks_iff (s : Settings) (vs : List Value) (hfree : ∀ v ∈ vs, v.TagFree) :
    (blocks s vs).isOk = true ↔ ∀ v ∈ vs, v.Accepted := by
  rw [blocks_eq_map_blocksOf, Except.isOk_map, Except.isOk_iff]
  simp only [contributionsFrom_eq_ok_iff]
  rw [← Except.isOk_iff, Except.isOk_mapM_iff]
  exact forall₂_congr fun v hv => isOk_contribution_iff (hfree v hv)

/-- A conversion inside a `foreach`, and a removal of nothing. -/
def acceptedSample : List Value :=
  [.map [(.string "foreach", .map [(.string "processor", .map [(.string "convert",
      .map [(.string "field", .string "a"), (.string "type", .string "long")])])])],
    .map [(.string "remove", .map [(.string "field", .seq [])])]]

/-- The table accepts these, so they have blocks. -/
theorem isOk_blocks_iff_acceptedSample :
    (∀ v ∈ acceptedSample, v.TagFree) ∧ (blocks {} acceptedSample).isOk = true ∧
      ∀ v ∈ acceptedSample, v.Accepted := by
  have hfree : ∀ v ∈ acceptedSample, v.TagFree := by simp [acceptedSample]
  have haccepted : ∀ v ∈ acceptedSample, v.Accepted := by
    simp only [acceptedSample, List.forall_mem_cons, List.not_mem_nil, false_imp_iff,
      implies_true, and_true]
    refine ⟨⟨.foreach ⟨_, rfl, rfl⟩ rfl rfl ?_, .foreach, _, ⟨_, rfl, rfl⟩, rfl⟩,
      ?_, .remove, _, ⟨_, rfl, rfl⟩, rfl⟩
    · exact .own (Value.denotes_map .convert _) (by decide) rfl rfl
    · exact .own (Value.denotes_map .remove _) (by decide) rfl rfl
  exact ⟨hfree, (isOk_blocks_iff {} acceptedSample hfree).2 haccepted, haccepted⟩

end Pipeline

end IngestPipeline
