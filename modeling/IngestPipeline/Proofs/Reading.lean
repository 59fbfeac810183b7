import IngestPipeline.Proofs.Acceptance
import IngestPipeline.Proofs.Conservation

/-! # What a processor reads

A rule looks at a few options of its processor, each in one way. This file lists them by operation
and shows that nothing else decides what a processor contributes.

* **`Operation.textOptions`**, **`Operation.listOption?`**: the options that are read as one text,
  and the one that is read as a list of texts. **`Operation.readOptions`** lists all options that an
  operation reads.
* **`Processor.SameReads`**: two processors of one operation that give the same answers where they
  are read.
* **`ownEntries_congr`**, **`check_congr`**, **`directive_congr`**: processors that are read alike
  become the same.
* **`get?_resolveTimestamp_congr`**: resolving the timestamp marker keeps what two processors have
  in common. -/

namespace IngestPipeline

namespace Operation

/-- The options that are read as one text, the condition of a processor among them. -/
def textOptions : Operation → List String
  | append | csv => ["if", "field"]
  | convert => ["if", "field", "type", "target_field"]
  | date | geoip | json | rename => ["if", "field", "target_field"]
  | dissect => ["field", "pattern"]
  | fingerprint => ["if", "target_field"]
  | foreach | remove => ["if"]
  | grok => ["field"]
  | gsub => ["if", "field", "pattern", "replacement"]
  | kv => ["if", "field", "target_field", "value_split", "field_split"]
  | lowercase | uppercase | trim | urldecode | uriParts | userAgent => ["if", "field"]
  | pipeline => ["if", "name"]
  | script => ["if", "source"]
  | set => ["if", "field", "copy_from"]
  | split => ["if", "field", "separator"]

/-- The option that is read as a list of texts, for an operation that has one. -/
def listOption? : Operation → Option String
  | append => some "value"
  | csv => some "target_fields"
  | date => some "formats"
  | fingerprint => some "fields"
  | grok => some "patterns"
  | remove => some "field"
  | _ => none

/-- The options that a rule reads of its own processor, in whatever way. -/
def ownOptions (op : Operation) : List String :=
  op.textOptions ++ op.listOption?.toList ++
    match op with
    | set => ["value"]
    | grok => ["pattern_definitions"]
    | _ => []

/-- **The options that an operation reads**, that of the processor inside a `foreach` among them. -/
def readOptions (op : Operation) : List String :=
  op.ownOptions ++ if op = foreach then ["processor"] else []

/-- No operation reads an option both as one text and as a list. -/
theorem notMem_textOptions {op : Operation} {o : String} (h : op.listOption? = some o) :
    o ∉ op.textOptions := by
  cases op <;> cases h <;> decide

/-- Pattern extraction reads the field that it extracts from. -/
theorem field_mem_textOptions {op : Operation} (h : op.extractsPatterns = true) :
    "field" ∈ op.textOptions := by
  revert h
  cases op <;> decide

/-- All other operations read a condition. -/
theorem if_mem_textOptions {op : Operation} (h : op.extractsPatterns = false) :
    "if" ∈ op.textOptions := by
  revert h
  cases op <;> decide

end Operation

namespace Processor

/-- **Two processors that are read alike**: they have the same operation, and each option that it
reads gives the same answer in both. -/
structure SameReads (p q : Processor) : Prop where
  /-- They have the same operation. -/
  operation : p.operation = q.operation
  /-- The options that are read as a text have the same text. -/
  text : ∀ o ∈ p.operation.textOptions, p.text? o = q.text? o
  /-- The option that is read as a list has the same items. -/
  list : ∀ o, p.operation.listOption? = some o → p.texts? o = q.texts? o
  /-- A value to set is written as the same literal. -/
  literal : p.operation = .set → (p.get? "value").map p.literal = (q.get? "value").map q.literal
  /-- Patterns are read with the same definitions. -/
  definitions : p.operation = .grok →
    p.mapping? "pattern_definitions" = q.mapping? "pattern_definitions"

/-! ### Readers -/

section Readers

variable {p q : Processor} {o : String}

/-- The answers of all readers are decided by the operation, which faults name, and the value of
the option. -/
theorem text?_congr (hop : p.operation = q.operation) (h : p.get? o = q.get? o) :
    p.text? o = q.text? o := by
  rw [text?, text?, h, invalid, invalid, hop]

/-- So it is for a list. -/
theorem texts?_congr (hop : p.operation = q.operation) (h : p.get? o = q.get? o) :
    p.texts? o = q.texts? o := by
  rw [texts?, texts?, h, invalid, invalid, invalid, invalid, hop]

/-- So it is for a mapping. -/
theorem mapping?_congr (hop : p.operation = q.operation) (h : p.get? o = q.get? o) :
    p.mapping? o = q.mapping? o := by
  rw [mapping?, mapping?, h, invalid, invalid, hop]

/-- So it is for a literal, which depends on the operation alone. -/
theorem literal_congr (hop : p.operation = q.operation) : p.literal = q.literal := by
  funext v
  rw [literal, literal, invalid, invalid, hop]

/-- Processors with the same operation and the same value of each option that it reads are read
alike. -/
theorem SameReads.of_ownOptions (hop : p.operation = q.operation)
    (h : ∀ o ∈ p.operation.ownOptions, p.get? o = q.get? o) : SameReads p q where
  operation := hop
  text o ho := text?_congr hop (h o (by simp [Operation.ownOptions, ho]))
  list o ho := texts?_congr hop (h o (by simp [Operation.ownOptions, ho]))
  literal hset := by rw [h _ (by rw [hset]; decide), literal_congr hop]
  definitions hgrok := mapping?_congr hop (h _ (by rw [hgrok]; decide))

/-- Processors with the same options are read alike. -/
theorem SameReads.of_get? (hop : p.operation = q.operation) (h : p.get? = q.get?) :
    SameReads p q :=
  .of_ownOptions hop fun o _ => congrFun h o

namespace SameReads

/-- A required text is the same in both. -/
theorem requireText (h : SameReads p q) (o : String) (ho : o ∈ p.operation.textOptions) :
    p.requireText o = q.requireText o := by
  rw [Processor.requireText, Processor.requireText, h.text o ho, missing, missing, h.operation]

/-- A list is the same in both. -/
theorem texts (h : SameReads p q) (o : String) (ho : p.operation.listOption? = some o) :
    p.texts o = q.texts o := by
  rw [Processor.texts, Processor.texts, h.list o ho]

/-- A required list is the same in both. -/
theorem requireTexts (h : SameReads p q) (o : String) (ho : p.operation.listOption? = some o) :
    p.requireTexts o = q.requireTexts o := by
  rw [Processor.requireTexts, Processor.requireTexts, h.list o ho, missing, missing, h.operation]

/-- A target is the same in both. -/
theorem targetOrField (h : SameReads p q) (hfield : "field" ∈ p.operation.textOptions)
    (htarget : "target_field" ∈ p.operation.textOptions) : p.targetOrField = q.targetOrField := by
  rw [Processor.targetOrField, Processor.targetOrField, h.text _ htarget, h.requireText _ hfield]

end SameReads

end Readers

/-! ### Rules -/

variable {p q : Processor}

/-- The rule of `set` sees what is read only. -/
theorem setEntries_congr (hop : p.operation = .set) (h : SameReads p q) :
    p.setEntries = q.setEntries := by
  have hcopy : p.text? "copy_from" = q.text? "copy_from" :=
    h.text _ (by simp [hop, Operation.textOptions])
  have hfield : p.requireText "field" = q.requireText "field" :=
    h.requireText _ (by simp [hop, Operation.textOptions])
  have hvalue := h.literal hop
  rw [setEntries, setEntries, hcopy, hfield]
  cases hp : p.get? "value" with
  | none =>
      rw [hp, Option.map_none, eq_comm, Option.map_eq_none_iff] at hvalue
      rw [hvalue]
  | some v =>
      rw [hp, Option.map_some, eq_comm, Option.map_eq_some_iff] at hvalue
      obtain ⟨w, hw, hliteral⟩ := hvalue
      rw [hw]
      dsimp only
      rw [hliteral]

/-- **The rules see what is read only**: processors that are read alike have the same map
entries. -/
theorem ownEntries_congr (s : Settings) (h : SameReads p q) : p.ownEntries s = q.ownEntries s := by
  have htext := h.requireText
  have hlist := h.texts
  have hrequired := h.requireTexts
  have htarget := h.targetOrField
  have hmissing : p.missing = q.missing := by
    funext o
    rw [missing, missing, h.operation]
  have hset := fun hop => setEntries_congr hop h
  unfold ownEntries
  rw [← h.operation]
  generalize p.operation = op at *
  cases op with
  | set => exact hset rfl
  | _ =>
      simp (disch := decide) only [appendEntries, convertEntries, csvEntries, dateEntries,
        fingerprintEntries, geoipEntries, gsubEntries, toTarget, kvEntries, inPlace,
        pipelineEntries, removeEntries, scriptEntries, splitEntries, htext, hlist, hrequired,
        htarget, hmissing]

/-- The check sees what is read only. -/
theorem check_congr (h : SameReads p q) : p.check = q.check := by
  rw [check, check, ← h.operation]
  split
  · rename_i hop
    rw [h.requireText _ (Operation.field_mem_textOptions hop)]
  · rename_i hop
    rw [h.text _ (Operation.if_mem_textOptions (Bool.eq_false_iff.2 hop))]

/-- The patterns see what is read only. -/
theorem patterns_congr (h : SameReads p q) : p.patterns = q.patterns := by
  rw [patterns, patterns, ← h.operation]
  cases hop : p.operation with
  | grok =>
      have hpatterns : p.texts "patterns" = q.texts "patterns" := h.texts _ (by rw [hop]; rfl)
      dsimp only
      rw [grokPatterns, grokPatterns, hpatterns, h.definitions hop, invalid, invalid, h.operation]
  | dissect =>
      have hpattern : p.text? "pattern" = q.text? "pattern" := h.text _ (by rw [hop]; decide)
      dsimp only
      rw [dissectPatterns, dissectPatterns, hpattern]
  | _ => rfl

/-- The directive sees what is read only. -/
theorem directive_congr (h : SameReads p q) : p.directive = q.directive := by
  rw [directive, directive, ← patterns_congr h]
  cases hpatterns : p.patterns with
  | error e => rfl
  | ok ts =>
      cases ts with
      | nil => rfl
      | cons t ts =>
          have hop := extractsPatterns_of_patterns hpatterns (List.cons_ne_nil t ts)
          rw [h.requireText _ (Operation.field_mem_textOptions hop)]

/-- A processor that extracts no patterns contributes its map entries under its condition. -/
theorem contribution_of_not_extractsPatterns (s : Settings)
    (h : p.operation.extractsPatterns = false) :
    p.contribution s = do
      let entries ← p.entries s
      let condition ← p.text? "if"
      return ⟨condition.map Condition.check, none, entries⟩ := by
  have hcheck : p.check = do return (← p.text? "if").map Condition.check := by
    rw [check, h]
    rfl
  have hpatterns : p.patterns = .ok [] := by
    unfold patterns
    revert h
    cases p.operation <;> simp [Operation.extractsPatterns]
  have hdirective : p.directive = .ok none := by
    rw [directive, hpatterns]
    rfl
  rw [contribution, hcheck, hdirective]
  simp only [bind_assoc, pure_bind]
  rfl

/-- **Two processors that wrap alike**: the values inside them, if they wrap a processor, have the
same map entries. -/
def SameWrapped (s : Settings) (p q : Processor) : Prop :=
  p.operation = .foreach →
    (p.get? "processor").map (fun v => ofValue v >>= entries s) =
      (q.get? "processor").map fun v => ofValue v >>= entries s

/-- Processors that are read alike and wrap alike have the same map entries. -/
theorem entries_congr {s : Settings} (h : SameReads p q) (hwrapped : SameWrapped s p q) :
    p.entries s = q.entries s := by
  by_cases hop : p.operation = .foreach
  · have hop' : q.operation = .foreach := h.operation.symm.trans hop
    have hvalues := hwrapped hop
    rw [entries_of_foreach s hop, entries_of_foreach s hop', missing, missing, h.operation]
    cases hp : p.get? "processor" with
    | none =>
        rw [hp, Option.map_none, eq_comm, Option.map_eq_none_iff] at hvalues
        rw [hvalues]
    | some v =>
        rw [hp, Option.map_some, eq_comm, Option.map_eq_some_iff] at hvalues
        obtain ⟨w, hw, hentries⟩ := hvalues
        rw [hw]
        exact hentries.symm
  · have hop' : q.operation ≠ .foreach := h.operation ▸ hop
    rw [entries_of_ne s hop, entries_of_ne s hop', ownEntries_congr s h]

/-- **They contribute the same**, and fail for the same reason. -/
theorem contribution_congr_of_wrapped {s : Settings} (h : SameReads p q)
    (hwrapped : SameWrapped s p q) : p.contribution s = q.contribution s := by
  rw [contribution, contribution, entries_congr h hwrapped, check_congr h, directive_congr h]

/-- A processor that wraps no other contributes what is read of it. -/
theorem contribution_congr (s : Settings) (hop : p.operation ≠ .foreach) (h : SameReads p q) :
    p.contribution s = q.contribution s :=
  contribution_congr_of_wrapped h fun heq => absurd heq hop

/-! ### The timestamp marker -/

/-- **Where resolving is blind**: processors with the same `field` have the same options after
resolving where they had the same options before. -/
theorem get?_resolveTimestamp_congr {s : Settings} (hfield : p.get? "field" = q.get? "field")
    {o : String} (ho : p.get? o = q.get? o) :
    (p.resolveTimestamp s).get? o = (q.resolveTimestamp s).get? o := by
  have hmarked : p.IsMarked s ↔ q.IsMarked s := by rw [IsMarked, IsMarked, hfield]
  by_cases hp : p.IsMarked s
  · have hq := hmarked.1 hp
    rw [resolveTimestamp_of_isMarked hp, resolveTimestamp_of_isMarked hq]
    by_cases heq : o = "field"
    · rw [heq, get?_withOption_self _ rfl, get?_withOption_self _ rfl]
    · rw [get?_withOption_of_ne heq, get?_withOption_of_ne heq, ho]
  · have hq := hmarked.not.1 hp
    rw [resolveTimestamp_of_not_isMarked hp, resolveTimestamp_of_not_isMarked hq, ho]

/-- A text other than the field is read alike after resolving. -/
theorem text?_resolveTimestamp_congr (s : Settings) (hop : p.operation = q.operation) {o : String}
    (hne : o ≠ "field") (h : p.get? o = q.get? o) :
    (p.resolveTimestamp s).text? o = (q.resolveTimestamp s).text? o := by
  refine text?_congr ?_ ?_
  · rw [operation_resolveTimestamp, operation_resolveTimestamp, hop]
  · rw [get?_resolveTimestamp_of_ne s p hne, get?_resolveTimestamp_of_ne s q hne, h]

end Processor

end IngestPipeline
