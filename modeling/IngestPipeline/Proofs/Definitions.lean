import IngestPipeline.Proofs.Acceptance
import IngestPipeline.Proofs.Extraction

/-! # Pattern definitions

The definitions of a processor are put into its patterns one after the other, so that a definition
also reaches what an earlier one has put in. No pattern has a part in what becomes of another.

* **`Text.CutAt`**: a text cut at the occurrences of a needle. Replacing the needle is joining the
  pieces by something else (`CutAt.replace_eq`).
* **`Substituted`**: what becomes of one text when each definition in turn is put in the place of
  its name. It is what `define` computes (`substituted_iff`).
* **`sweep`**: the other order of work. Each definition is put into all patterns before the next one
  is looked at, and the first that has no texts ends it. `sweep_eq` says that this comes to the
  same.
* **`directive_grok`**: the directive of a processor, pattern by pattern. -/

namespace IngestPipeline

/-! ### Cutting at the occurrences of a needle -/

namespace Text

/-- **A text cut at the occurrences of a needle**, from left to right and without overlaps. -/
inductive CutAt : List Char → List Char → List (List Char) → Prop
  /-- The empty needle occurs before every character and at the end. -/
  | everywhere (s : List Char) : CutAt [] s ([] :: (s.map fun c => [c]) ++ [[]])
  /-- A needle that does not occur cuts nothing. -/
  | last {needle s : List Char} (h : ¬ needle <:+: s) : CutAt needle s [s]
  /-- The text is cut at the first occurrence, and what is behind it in the same way. -/
  | next {needle a s : List Char} {pieces : List (List Char)} (hne : needle ≠ [])
      (h : NoStart needle a (needle ++ s)) (hs : CutAt needle s pieces) :
      CutAt needle (a ++ needle ++ s) (a :: pieces)

namespace CutAt

variable {needle s : List Char} {pieces : List (List Char)}

/-- A text that is cut has a piece. -/
theorem ne_nil (h : CutAt needle s pieces) : pieces ≠ [] := by
  cases h <;> simp

/-- Joining at the ends of every character. -/
theorem intercalate_everywhere (new front s : List Char) :
    new.intercalate (front :: (s.map fun c => [c]) ++ [[]]) =
      front ++ ((s.flatMap fun c => new ++ [c]) ++ new) := by
  induction s generalizing front with
  | nil => simp [List.intercalate_cons_cons]
  | cons c s ih =>
      have hrest := ih [c]
      rw [List.cons_append] at hrest
      simp only [List.map_cons, List.cons_append, List.intercalate_cons_cons, hrest,
        List.flatMap_cons, List.append_assoc]

/-- **To replace a needle** is to join the pieces by what is put in. -/
theorem replace_eq (h : CutAt needle s pieces) (new : List Char) :
    replace needle new s = new.intercalate pieces := by
  induction h with
  | everywhere s => rw [intercalate_everywhere, replace, List.nil_append]
  | last h => rw [replace_of_not_isInfix new h, List.intercalate_singleton]
  | @next needle a s pieces hne h hs ih =>
      obtain ⟨piece, more, rfl⟩ := List.exists_cons_of_ne_nil hs.ne_nil
      rw [List.append_assoc, replace_append_of_noStart new h, replace_needle_append new hne, ih,
        List.intercalate_cons_cons, List.append_assoc]

end CutAt

/-- Every text can be cut. -/
theorem exists_cutAt (needle s : List Char) : ∃ pieces, CutAt needle s pieces := by
  by_cases hne : needle = []
  · subst hne
    exact ⟨_, .everywhere s⟩
  -- on the length of the text, since the search goes on behind the occurrence
  induction hn : s.length using Nat.strong_induction_on generalizing s with
  | _ n ih =>
      cases hsplit : splitOnce needle s with
      | none => exact ⟨_, .last (splitOnce_eq_none_iff.1 hsplit)⟩
      | some parts =>
          obtain ⟨a, b⟩ := parts
          obtain ⟨rfl, hfirst⟩ := splitOnce_eq_some_iff.1 hsplit
          have hpos := List.length_pos_iff.2 hne
          rw [List.length_append, List.length_append] at hn
          obtain ⟨pieces, hpieces⟩ := ih b.length (by omega) b rfl
          exact ⟨_, .next hne hfirst hpieces⟩

end Text

namespace Processor

/-! ### One pattern -/

/-- **Definitions put in one after the other**: each name is exchanged, wherever it occurs in the
text so far, for its definition in angle brackets. -/
inductive Substituted : List (String × String) → List Char → List Char → Prop
  /-- No definition is left. -/
  | done (s : List Char) : Substituted [] s s
  /-- The first definition is put in, and then all others. -/
  | step {name definition : String} {definitions : List (String × String)} {s t : List Char}
      {pieces : List (List Char)} (hcut : Text.CutAt name.toList s pieces)
      (hrest : Substituted definitions
        ((Delimiters.angled definition.toList).intercalate pieces) t) :
      Substituted ((name, definition) :: definitions) s t

/-- **One pattern** has one result, which `define` computes. -/
theorem substituted_iff {definitions : List (String × String)} {pattern : String}
    {t : List Char} :
    Substituted definitions pattern.toList t ↔ t = (define definitions pattern).toList := by
  induction definitions generalizing pattern with
  | nil =>
      constructor
      · intro h
        cases h
        rfl
      · rintro rfl
        exact .done _
  | cons d definitions ih =>
      obtain ⟨name, definition⟩ := d
      have hround : define ((name, definition) :: definitions) pattern =
          define definitions (Text.onString
            (Text.replace name.toList (Delimiters.angled definition.toList)) pattern) := rfl
      rw [hround, ← ih, Text.onString, String.toList_ofList]
      constructor
      · intro h
        cases h with
        | step hcut hrest => rwa [hcut.replace_eq]
      · intro h
        obtain ⟨pieces, hcut⟩ := Text.exists_cutAt name.toList pattern.toList
        rw [hcut.replace_eq] at h
        exact .step hcut h

/-- The same for a pattern whose tokens get angle brackets first. -/
theorem substituted_angled_iff {definitions : List (String × String)} {pattern text : String} :
    Substituted definitions (Delimiters.angled pattern.toList) text.toList ↔
      define definitions (Delimiters.inText pattern) = text := by
  have hangled : Delimiters.angled pattern.toList = (Delimiters.inText pattern).toList := by
    rw [Delimiters.inText, Text.onString, String.toList_ofList]
  rw [hangled, substituted_iff, String.toList_inj, eq_comm]

/-- **The texts of definitions**, each name and each definition being a scalar. -/
def DefinitionTexts (es : List (Value × Value)) (definitions : List (String × String)) : Prop :=
  List.Forall₂ (fun e d => e.1.text? = some d.1 ∧ e.2.text? = some d.2) es definitions

/-- Definitions under scalar names are read as their texts. -/
theorem definitionTexts?_eq_some {es : List (Value × Value)}
    {definitions : List (String × String)} (h : DefinitionTexts es definitions) :
    definitionTexts? es = some definitions := by
  induction h with
  | nil => rfl
  | cons he _ ih => rw [definitionTexts?, he.1, he.2, ih]

/-! ### All patterns -/

/-- **Definition by definition**: each is put into all patterns, and the first that has no texts
ends the work. -/
def sweep : List (Value × Value) → List String → Option (List String)
  | [], patterns => some patterns
  | (name, definition) :: es, patterns =>
      match name.text?, definition.text? with
      | some name, some definition =>
          sweep es (patterns.map (Text.onString
            (Text.replace name.toList (Delimiters.angled definition.toList))))
      | _, _ => none

/-- **The order of work does not matter**: definition by definition or pattern by pattern, the
patterns come out the same. -/
theorem sweep_eq (es : List (Value × Value)) (patterns : List String) :
    sweep es patterns = (definitionTexts? es).map fun definitions =>
      patterns.map (define definitions) := by
  induction es generalizing patterns with
  | nil =>
      have hnone : define [] = id := rfl
      rw [sweep, definitionTexts?, Option.map_some, hnone, List.map_id]
  | cons e es ih =>
      obtain ⟨k, v⟩ := e
      rw [sweep, definitionTexts?]
      cases k.text? with
      | none => rfl
      | some name =>
          cases v.text? with
          | none => rfl
          | some definition =>
              dsimp only
              rw [ih]
              cases definitionTexts? es with
              | none => rfl
              | some definitions =>
                  rw [Option.map_some, Option.map_some, List.map_map]
                  rfl

section Grok

variable {p : Processor} {patterns : List String} {es : Option (List (Value × Value))}

/-- The patterns of a processor, definition by definition. -/
theorem patterns_eq_sweep (hgrok : p.operation = .grok)
    (hpatterns : p.texts "patterns" = .ok patterns)
    (hdefinitions : p.mapping? "pattern_definitions" = .ok es) :
    p.patterns = (sweep (es.getD []) (patterns.map Delimiters.inText)).elim
      (.error (p.invalid "pattern_definitions" .patternMapping)) .ok := by
  rw [Processor.patterns, hgrok]
  dsimp only
  rw [grokPatterns, hpatterns, hdefinitions, sweep_eq]
  dsimp only [bind, Except.bind]
  cases definitionTexts? (es.getD []) with
  | none => rfl
  | some definitions =>
      rw [Option.map_some, List.map_map]
      rfl

/-- **Each pattern on its own.** With scalars for its field, its patterns and its definitions, a
processor has no directive exactly if it has no patterns, and otherwise one for its field with as
many patterns, each of which comes from the pattern in its place alone: its tokens get angle
brackets, and then the definitions are put in one after the other. A name or definition that is no
scalar is a fault in any case. It comes to the same when each definition is put into all patterns at
once. -/
theorem directive_grok (hgrok : p.operation = .grok)
    (hpatterns : p.texts "patterns" = .ok patterns)
    (hdefinitions : p.mapping? "pattern_definitions" = .ok es) :
    (∀ field definitions, p.requireText "field" = .ok field →
      DefinitionTexts (es.getD []) definitions →
        ∃ results, p.directive = .ok (if patterns = [] then none else some ⟨field, results⟩) ∧
          ∀ texts, texts = results ↔ List.Forall₂ (fun pattern text =>
            Substituted definitions (Delimiters.angled pattern.toList) text.toList)
              patterns texts) ∧
      ((∃ e ∈ es.getD [], e.1.isScalar = false ∨ e.2.isScalar = false) →
        p.directive = .error (.invalidOption .grok "pattern_definitions" .patternMapping)) ∧
      p.patterns = (sweep (es.getD []) (patterns.map Delimiters.inText)).elim
        (.error (.invalidOption .grok "pattern_definitions" .patternMapping)) .ok := by
  have hsweep := patterns_eq_sweep hgrok hpatterns hdefinitions
  rw [invalid, hgrok] at hsweep
  refine ⟨fun field definitions hfield htexts => ?_, fun hbad => ?_, hsweep⟩
  · refine ⟨patterns.map fun pattern => define definitions (Delimiters.inText pattern), ?_, ?_⟩
    · rw [sweep_eq, definitionTexts?_eq_some htexts, Option.map_some, List.map_map] at hsweep
      rw [directive, hsweep, hfield]
      cases patterns <;> rfl
    · intro texts
      simp only [substituted_angled_iff]
      rw [← List.forall₂_map_left_iff (R := Eq), List.forall₂_eq_eq_eq, eq_comm]
  · have hnone : definitionTexts? (es.getD []) = none := by
      obtain ⟨e, he, hscalar⟩ := hbad
      rw [← Option.isNone_iff_eq_none, ← Option.not_isSome, isSome_definitionTexts?,
        Bool.not_eq_true', List.all_eq_false]
      refine ⟨e, he, ?_⟩
      rcases hscalar with hscalar | hscalar <;> simp [hscalar]
    rw [sweep_eq, hnone] at hsweep
    rw [directive, hsweep]
    rfl

end Grok

/-- A definition that reaches into what an earlier one has put in, and one under a number. -/
def chainedSample : Processor :=
  ⟨.grok, [("field", .string "m"),
    ("patterns", .seq [.string "%\x7bA:x\x7d", .string "B7", .int 7]),
    ("pattern_definitions",
      .map [(.string "A", .string "%\x7bB\x7d"), (.string "B", .bool true), (.int 7, .string "")])]⟩

/-- What a definition puts in, the definitions behind it are applied to. -/
theorem directive_grok_chainedSample :
    chainedSample.directive = .ok (some ⟨"m", ["<<true>:x>", "true", ""]⟩) := by
  have hpatterns : chainedSample.texts "patterns" = .ok ["%\x7bA:x\x7d", "B7", "7"] := rfl
  have hdefinitions : chainedSample.mapping? "pattern_definitions" =
      .ok (some [(.string "A", .string "%\x7bB\x7d"), (.string "B", .bool true),
        (.int 7, .string "")]) := rfl
  obtain ⟨results, hdirective, hresults⟩ := (directive_grok rfl hpatterns hdefinitions).1 "m"
    [("A", "%\x7bB\x7d"), ("B", "true"), ("7", "")] rfl
    (.cons ⟨rfl, rfl⟩ (.cons ⟨rfl, rfl⟩ (.cons ⟨rfl, rfl⟩ .nil)))
  rw [hdirective, ← (hresults ["<<true>:x>", "true", ""]).2]
  · rfl
  · simp only [substituted_angled_iff]
    exact .cons (by decide +kernel) (.cons (by decide +kernel) (.cons (by decide +kernel) .nil))

end Processor

end IngestPipeline
