import IngestPipeline.Proofs.DateReading

/-! # Reading a date format back from its translation

A format with neither quotes nor percent signs can be recovered from its strftime text: every
directive in the text was put there for a letter group, and the table gives different directives to
different groups.

* **`groupOf`**: the letter group of a directive.
* **`restored`**: a strftime text with every directive exchanged for its letter group.
* **`Lexed.restored_flatMap_strftime`**: the translation of a plain text, token by token, is
  restored to the text.
* **`strftime_invertible_of_isPlain`**: restoring undoes the translation of every plain format, and
  so two plain formats are never translated to the same text. -/

namespace IngestPipeline.DateFormat

/-- **A plain format**: no part of it is quoted, and no directive is in it. -/
def IsPlain (source : String) : Prop := quote ∉ source.toList ∧ '%' ∉ source.toList

instance : DecidablePred IsPlain := fun source =>
  inferInstanceAs (Decidable (quote ∉ source.toList ∧ '%' ∉ source.toList))

/-- The letter group that the table exchanges for a directive; a directive that is not in the table
stays. -/
def groupOf (directive : List Char) : List Char :=
  ((directives.find? fun e => e.2.toList == directive).map fun e => e.1.toList).getD directive

/-- **A strftime text with letter groups in the place of directives**, read from left to right. All
other characters stay. -/
def restored : List Char → List Char
  | [] => []
  | '%' :: '-' :: c :: s =>
      if c.isAlpha || c = '%' then groupOf ['%', '-', c] ++ restored s
      else '%' :: restored ('-' :: c :: s)
  | '%' :: c :: s =>
      if c.isAlpha || c = '%' then groupOf ['%', c] ++ restored s
      else '%' :: restored (c :: s)
  | c :: s => c :: restored s

/-! ### One directive, one character -/

/-- A directive of the table stands for the group of its own entry. -/
@[simp] theorem groupOf_of_mem_directives {e : String × String} (he : e ∈ directives) :
    groupOf e.2.toList = e.1.toList := by
  have htable : ∀ e ∈ directives, groupOf e.2.toList = e.1.toList := by decide
  exact htable e he

/-- A character other than a percent sign is restored as it is. -/
@[simp] theorem restored_cons_of_ne {c : Char} (hc : c ≠ '%') (s : List Char) :
    restored (c :: s) = c :: restored s :=
  restored.eq_4 c s (fun _ _ h => absurd h hc) fun _ _ h => absurd h hc

/-- A directive is restored to its group, whatever follows it. -/
@[simp] theorem restored_directive_append {text : List Char} (h : IsDirective text)
    (s : List Char) : restored (text ++ s) = groupOf text ++ restored s := by
  cases h with
  | @padded c hc =>
      have hminus : c ≠ '-' := by
        rintro rfl
        revert hc
        decide
      show restored ('%' :: c :: s) = _
      rw [restored.eq_3 c s fun _ _ h => absurd h hminus, if_pos (by simpa using hc)]
  | @unpadded c hc =>
      show restored ('%' :: '-' :: c :: s) = _
      rw [restored.eq_2, if_pos (by simpa using hc)]

/-- Without a percent sign there is nothing to restore. -/
@[simp] theorem restored_of_notMem {s : List Char} (h : '%' ∉ s) : restored s = s := by
  induction s with
  | nil => rfl
  | cons c s ih =>
      rw [List.mem_cons, not_or] at h
      simp [Ne.symm h.1, ih h.2]

/-! ### Token by token -/

/-- **The translation of a plain text is restored** to the text. -/
theorem Lexed.restored_flatMap_strftime {ts : List Token} {s : List Char} (h : Lexed ts s)
    (hquote : quote ∉ s) (hpercent : '%' ∉ s) : restored (ts.flatMap Token.strftime) = s := by
  induction h with
  | nil => rfl
  | @cons t ts rest hfits _ ih =>
      rw [List.mem_append, not_or] at hquote hpercent
      rw [List.flatMap_cons]
      have hrest := ih hquote.2 hpercent.2
      cases hfits with
      | group he _ =>
          have hdirective := (isDirective_of_mem_directives he).1
          simp [Token.strftime, Token.source, hdirective, he, hrest]
      | directive hdirective =>
          obtain ⟨inner, rfl⟩ := hdirective.exists_eq_cons
          exact absurd List.mem_cons_self hpercent.1
      | literal _ => exact absurd List.mem_cons_self hquote.1
      | letter hc _ =>
          have hne := ne_of_isAlpha hc (d := '%') (by decide)
          simp [Token.strftime, Token.source, hne, hrest]
      | @other c _ _ _ _ =>
          have hne : c ≠ '%' := by
            rintro rfl
            exact hpercent.1 List.mem_cons_self
          simp [Token.strftime, Token.source, hne, hrest]

/-- The translation of a plain format is restored to the format, be it a name or not. -/
theorem restored_strftime_ofSource {source : String} (h : IsPlain source) :
    Text.onString restored (ofSource source).strftime = source := by
  rw [Text.onString, ← String.toList_inj, String.toList_ofList]
  cases hnamed : isNamed source with
  | true =>
      have hself : (ofSource source).strftime = source := by simp [ofSource, hnamed]
      rw [hself, restored_of_notMem h.2]
  | false =>
      rw [toList_strftime_ofSource hnamed]
      exact (lexed_tokens source.toList).restored_flatMap_strftime h.1 h.2

/-- **Translation is invertible on plain formats**: putting the letter groups of the table in the
place of the directives gives the format back, and so different plain formats have different
translations. -/
theorem strftime_invertible_of_isPlain {source : String} (h : IsPlain source) :
    Text.onString restored (ofSource source).strftime = source ∧
      ∀ other, IsPlain other → (ofSource other).strftime = (ofSource source).strftime →
        other = source := by
  refine ⟨restored_strftime_ofSource h, fun other hother heq => ?_⟩
  rw [← restored_strftime_ofSource h, ← restored_strftime_ofSource hother, heq]

/-- Groups and letters left over from a longer run are told apart, and another format has another
result. -/
theorem strftime_invertible_of_isPlain_leftovers :
    (ofSource "yyyMMMMMEEa").strftime = "%yy%B%-mEE%p" ∧
      Text.onString restored "%yy%B%-mEE%p" = "yyyMMMMMEEa" ∧
      IsPlain "yyMMMMMEEa" ∧ (ofSource "yyMMMMMEEa").strftime ≠ "%yy%B%-mEE%p" := by
  have hplain : IsPlain "yyyMMMMMEEa" := by decide
  have hother : IsPlain "yyMMMMMEEa" := by decide
  have honce : (ofSource "yyyMMMMMEEa").strftime = "%yy%B%-mEE%p" := by decide +kernel
  obtain ⟨hrestored, hinjective⟩ := strftime_invertible_of_isPlain hplain
  rw [honce] at hrestored hinjective
  refine ⟨honce, hrestored, hother, fun heq => ?_⟩
  exact absurd (hinjective _ hother heq) (by decide)

end IngestPipeline.DateFormat
