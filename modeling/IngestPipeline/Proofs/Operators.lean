import IngestPipeline.Processor.Entries
import IngestPipeline.Proofs.Operands
import IngestPipeline.Proofs.Outcome

/-! # The operators of a condition

A condition may use the mark of safe navigation and two connectives. None of them is left in the
check that it becomes, whatever the condition looks like.

* **`OperatorFree`**: a text without the mark and without a connective. Parts of such a text are
  such texts, and so are two of them around a character that belongs to no operator
  (`OperatorFree.append_cons`).
* **`operatorFree_bare`**: the replacements leave no operator behind. Each connective is exchanged
  for a word of other characters, so that nothing can come together around it.
* **`operatorFree_ofBare`**: no operator arises where the parts of a condition are put together
  again.
* **`check_operatorFree`**: the checks of conditions and of processors have no operator. -/

namespace IngestPipeline

namespace Text

/-- Trimming leaves a part of the text. -/
theorem isInfix_trim (s : List Char) : trim s <:+: s := by
  have hleft : trimLeft s <:+ s := List.dropWhile_suffix isBlank
  have hright : trimRight (trimLeft s) <+: trimLeft s := by
    have hdrop := List.dropWhile_suffix (l := (trimLeft s).reverse) isBlank
    rw [← List.reverse_prefix, List.reverse_reverse] at hdrop
    exact hdrop
  exact hright.isInfix.trans hleft.isInfix

end Text

namespace Condition

/-- **A text without operators**: it has no mark of safe navigation and no connective. -/
structure OperatorFree (s : List Char) : Prop where
  /-- There is no mark. -/
  mark : '?' ∉ s
  /-- There is no conjunction. -/
  conjunction : ¬ ['&', '&'] <:+: s
  /-- There is no disjunction. -/
  disjunction : ¬ ['|', '|'] <:+: s

namespace OperatorFree

variable {s t : List Char}

/-- A part of the text has no operators either. -/
theorem of_isInfix (h : OperatorFree s) (ht : t <:+: s) : OperatorFree t where
  mark hmem := h.mark (ht.subset hmem)
  conjunction hin := h.conjunction (hin.trans ht)
  disjunction hin := h.disjunction (hin.trans ht)

/-- Trimming adds no operator. -/
theorem trim (h : OperatorFree s) : OperatorFree (Text.trim s) :=
  h.of_isInfix (Text.isInfix_trim s)

/-- What a text is split into has no operators. -/
theorem of_splitOnce (h : OperatorFree s) {sep a b : List Char}
    (hsplit : Text.splitOnce sep s = some (a, b)) : OperatorFree a ∧ OperatorFree b := by
  have hs := Text.eq_append_of_splitOnce hsplit
  refine ⟨h.of_isInfix ⟨[], sep ++ b, ?_⟩, h.of_isInfix ⟨a ++ sep, [], ?_⟩⟩ <;> simp [hs]

/-- A character that belongs to no operator keeps what stands around it apart. -/
theorem append_cons (hs : OperatorFree s) (ht : OperatorFree t) {c : Char}
    (hc : c ∉ "?&|".toList) : OperatorFree (s ++ c :: t) where
  mark := by
    have hne : '?' ≠ c := ne_of_mem_of_not_mem (by decide) hc
    simp [hs.mark, ht.mark, hne]
  conjunction := by
    have hsub : ['&', '&'] ⊆ "?&|".toList := by decide
    have hout : c ∉ ['&', '&'] := fun hmem => hc (hsub hmem)
    rw [Text.isInfix_append_cons_iff hout]
    exact not_or.2 ⟨hs.conjunction, ht.conjunction⟩
  disjunction := by
    have hsub : ['|', '|'] ⊆ "?&|".toList := by decide
    have hout : c ∉ ['|', '|'] := fun hmem => hc (hsub hmem)
    rw [Text.isInfix_append_cons_iff hout]
    exact not_or.2 ⟨hs.disjunction, ht.disjunction⟩

/-- The empty text contains no operator. -/
theorem nil : OperatorFree [] := ⟨by decide, by decide, by decide⟩

/-- A text of such characters may stand in front. -/
theorem append_left (ht : OperatorFree t) {front : List Char}
    (hfront : ∀ c ∈ front, c ∉ "?&|".toList) : OperatorFree (front ++ t) := by
  induction front with
  | nil => exact ht
  | cons c front ih =>
      have hrest := ih fun d hd => hfront d (List.mem_cons_of_mem c hd)
      exact nil.append_cons hrest (hfront c List.mem_cons_self)

/-- A text of such characters may stand in between. -/
theorem append_between (hs : OperatorFree s) (ht : OperatorFree t) {middle : List Char}
    (hne : middle ≠ []) (hmiddle : ∀ c ∈ middle, c ∉ "?&|".toList) :
    OperatorFree (s ++ middle ++ t) := by
  obtain ⟨c, middle, rfl⟩ := List.exists_cons_of_ne_nil hne
  have hrest := ht.append_left fun d hd => hmiddle d (List.mem_cons_of_mem c hd)
  rw [List.append_assoc, List.cons_append]
  exact hs.append_cons hrest (hmiddle c List.mem_cons_self)

end OperatorFree

/-- **The replacements leave no operator behind.** -/
theorem operatorFree_bare (s : List Char) : OperatorFree (bare s) where
  mark := mark_notMem_bare s
  conjunction := by
    -- the connectives are replaced one after the other, and the second word makes no new `&&`
    intro hin
    have hbefore := Text.isInfix_of_isInfix_replace "OR".toList (List.cons_ne_nil '|' ['|'])
      (by decide) (w := ['&', '&']) (by simp) hin
    exact Text.not_isInfix_replace _ (by decide) (by decide) (by simp) _ hbefore
  disjunction := Text.not_isInfix_replace _ (by decide) (by decide) (by simp) _

/-- What is left without the closing parenthesis is the front of the text. -/
theorem isPrefix_dropClosing (s : List Char) : dropClosing s <+: s := by
  unfold dropClosing
  split
  · rename_i rest hrest
    rw [← List.reverse_suffix, List.reverse_reverse, hrest]
    exact List.suffix_cons ')' rest
  · exact List.prefix_rfl

/-- **No operator arises where a check is put together.** -/
theorem operatorFree_ofBare {s : List Char} (h : OperatorFree s) : OperatorFree (ofBare s) := by
  unfold ofBare
  split
  · rename_i field value hsplit
    obtain ⟨hfield, hvalue⟩ := h.of_splitOnce hsplit
    have hargument := (hvalue.of_isInfix (isPrefix_dropClosing value).isInfix).trim
    have hclosed := hargument.append_cons .nil (c := ')') (by decide)
    rw [List.append_assoc _ _ [')']]
    exact (hfield.trim.append_left (by simp)).append_between hclosed (by decide) (by simp)
  · split
    · rename_i field value hsplit
      obtain ⟨hfield, hvalue⟩ := h.of_splitOnce hsplit
      have hfront : OperatorFree ('$' :: Text.trim field) :=
        OperatorFree.nil.append_cons hfield.trim (by decide)
      exact hfront.append_between hvalue.trim (by decide) (by simp)
    · exact h

/-- What the check of a processor comes from, if it extracts no patterns. -/
theorem check_of_not_extractsPatterns {p : Processor} (h : p.operation.extractsPatterns = false) :
    p.check = (p.text? "if").map fun condition => condition.map check := by
  rw [Processor.check, h]
  cases p.text? "if" <;> rfl

/-- **No operator survives in a check.** The check of a condition has no mark of safe navigation and
no connective, and neither has the check of a processor that is guarded by a condition. -/
theorem check_operatorFree :
    (∀ condition : String, OperatorFree (check condition).toList) ∧
      ∀ p : Processor, p.operation.extractsPatterns = false →
        (∀ text, p.check = .ok (some text) → OperatorFree text.toList) ∧
          ∀ condition, p.text? "if" = .ok (some condition) →
            p.check = .ok (some (check condition)) := by
  have hcheck : ∀ condition : String, OperatorFree (check condition).toList := by
    intro condition
    rw [check, Text.onString, String.toList_ofList]
    exact operatorFree_ofBare (operatorFree_bare _)
  refine ⟨hcheck, fun p hp => ⟨fun text htext => ?_, fun condition hcondition => ?_⟩⟩
  · rw [check_of_not_extractsPatterns hp] at htext
    obtain ⟨o, -, ho⟩ := Except.map_eq_ok_iff.1 htext
    obtain ⟨condition, -, rfl⟩ := Option.map_eq_some_iff.1 ho
    exact hcheck condition
  · rw [check_of_not_extractsPatterns hp, hcondition]
    rfl

/-- Operators that come together when a name or a mark between them is taken out, and runs of odd
length. -/
theorem check_operatorFree_tangled :
    (⟨.lowercase, [("if", .string "ctx.a &?ctx.& ctx?.b ||||| ctx.c.contains('&&&')")]⟩ :
        Processor).check = .ok (some "contains($a AND b OROR| c, 'AND&')") ∧
      OperatorFree "contains($a AND b OROR| c, 'AND&')".toList := by
  have hcheck := (check_operatorFree.2
    ⟨.lowercase, [("if", .string "ctx.a &?ctx.& ctx?.b ||||| ctx.c.contains('&&&')")]⟩ rfl)
  have htext : check "ctx.a &?ctx.& ctx?.b ||||| ctx.c.contains('&&&')" =
      "contains($a AND b OROR| c, 'AND&')" := by decide +kernel
  have hfound := hcheck.2 _ rfl
  rw [htext] at hfound
  exact ⟨hfound, hcheck.1 _ hfound⟩

end Condition

end IngestPipeline
