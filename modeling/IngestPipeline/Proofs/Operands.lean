import IngestPipeline.Condition
import IngestPipeline.Proofs.Occurrence
import IngestPipeline.Text.Letter

/-! # The operands of a condition

A condition is rewritten by replacing texts in it, without regard to what they are part of. This
file says when a comparison of a field with a quoted literal, and a test whether a field contains
one, come out with the operands they had.

* **`Plain`**: the texts that the replacements leave alone (`bare_eq_self_iff`).
* **`Step`**, **`reference`**, **`path`**: a field reached from the context by names, as it is
  written in a condition and in a check.
* **`bare_reference_eq_iff`**: a reference becomes its path exactly if no name but the last ends
  with the name of the context.
* **`ofBare_comparison_iff`**, **`ofBare_membership_iff`**: what is read off a comparison and off a
  call.
* **`check_operands_iff`**: when both checks have their operands. -/

namespace IngestPipeline

/-! ### Trimming -/

namespace Text

/-- A text that does not begin with a blank is not trimmed on the left. -/
@[simp] theorem trimLeft_cons {c : Char} (hc : isBlank c = false) (s : List Char) :
    trimLeft (c :: s) = c :: s := by
  rw [trimLeft, List.dropWhile_cons, hc]
  rfl

/-- What stands in front of a character that is not blank is not trimmed on the right. -/
theorem trimRight_append_cons {c : Char} (hc : isBlank c = false) (a s : List Char) :
    trimRight (a ++ c :: s) = a ++ c :: trimRight s := by
  have hdrop : (s.reverse ++ c :: a.reverse).dropWhile isBlank =
      s.reverse.dropWhile isBlank ++ c :: a.reverse := by
    rw [List.dropWhile_append]
    split
    · rename_i hempty
      rw [List.dropWhile_cons, hc, List.isEmpty_iff.1 hempty]
      rfl
    · rfl
  have hrev : (a ++ c :: s).reverse = s.reverse ++ c :: a.reverse := by simp
  rw [trimRight, trimRight, hrev, hdrop]
  simp

/-- A blank at the end is trimmed. -/
theorem trim_concat_blank {c : Char} (hc : isBlank c = true) (s : List Char) :
    trim (s ++ [c]) = trim s := by
  have hright : ∀ t : List Char, trimRight (t ++ [c]) = trimRight t := by
    intro t
    rw [trimRight, trimRight, List.reverse_concat, List.dropWhile_cons, hc]
    rfl
  rw [trim, trim, trimLeft, trimLeft, List.dropWhile_append]
  split
  · rename_i hempty
    rw [List.isEmpty_iff.1 hempty, List.dropWhile_cons, hc]
    rfl
  · exact hright _

/-- A character that is not blank protects what is between it and the other end. -/
theorem trim_append_cons {a : List Char} {c : Char} (ha : ∀ x ∈ a, isBlank x = false)
    (hc : isBlank c = false) (s : List Char) : trim (a ++ c :: s) = a ++ c :: trimRight s := by
  have hleft : trimLeft (a ++ c :: s) = a ++ c :: s := by
    cases a with
    | nil => exact trimLeft_cons hc s
    | cons x a => exact trimLeft_cons (ha x List.mem_cons_self) _
  rw [trim, hleft, trimRight_append_cons hc]

/-- A text without blanks has nothing to trim. -/
theorem trim_of_forall {s : List Char} (h : ∀ c ∈ s, isBlank c = false) : trim s = s := by
  rcases s.eq_nil_or_concat with rfl | ⟨s, c, rfl⟩
  · rfl
  · rw [List.concat_eq_append] at h ⊢
    exact trim_append_cons (fun x hx => h x (List.mem_append_left _ hx)) (h c (by simp)) []

end Text

namespace Condition

/-! ### What the replacements leave alone -/

/-- The characters of the texts that are replaced. -/
def replaced : List Char := "ctx?.&|".toList

/-- The empty text is bare. -/
@[simp] theorem bare_nil : bare [] = [] := by
  simp [bare]

/-- **A character that is in none of the replaced texts** cuts a condition in two that are rewritten
apart. -/
theorem bare_append_cons {b : Char} (hb : b ∉ replaced) (a s : List Char) :
    bare (a ++ b :: s) = bare a ++ b :: bare s := by
  have hout : ∀ needle : List Char, needle ⊆ replaced → b ∉ needle :=
    fun needle hsub hmem => hb (hsub hmem)
  simp only [bare]
  rw [Text.replace_append_cons _ (by decide) (hout _ (by decide)),
    Text.replace_append_cons _ (by decide) (hout _ (by decide)),
    Text.replace_append_cons _ (by decide) (hout _ (by decide)),
    Text.replace_append_cons _ (by decide) (hout _ (by decide)),
    Text.replace_append_cons _ (by decide) (hout _ (by decide))]

/-- A character that begins no replacement is copied. -/
@[simp] theorem bare_cons {b : Char} (hb : b ∉ replaced) (s : List Char) :
    bare (b :: s) = b :: bare s := by
  have h := bare_append_cons hb [] s
  rwa [List.nil_append, bare_nil, List.nil_append] at h

/-- **A text with nothing to replace** in it. -/
structure Plain (s : List Char) : Prop where
  /-- It does not name the context before a dot. -/
  context : ¬ "ctx.".toList <:+: s
  /-- It has no mark of safe navigation. -/
  mark : '?' ∉ s
  /-- It has no conjunction. -/
  conjunction : ¬ ['&', '&'] <:+: s
  /-- It has no disjunction. -/
  disjunction : ¬ ['|', '|'] <:+: s

/-- The mark of safe navigation is dropped wherever it is. -/
theorem replace_mark (s : List Char) : Text.replace ['?'] [] s = s.filter fun c => c ≠ '?' := by
  rw [Text.replace_singleton]
  induction s with
  | nil => rfl
  | cons c s ih =>
      rw [List.flatMap_cons, ih, List.filter_cons]
      by_cases hc : c = '?' <;> simp [hc]

/-- No question mark is left in a bare text. -/
@[simp] theorem mark_notMem_bare (s : List Char) : '?' ∉ bare s := by
  intro hmem
  simp only [bare] at hmem
  have hd := (Text.mem_replace _ (by decide) hmem).resolve_right (by decide)
  have hc := (Text.mem_replace _ (by decide) hd).resolve_right (by decide)
  rw [replace_mark] at hc
  simp at hc

/-- Only the removal of context names takes dots away, and nothing brings them back. -/
theorem count_dot_bare_le (s : List Char) :
    (bare s).count '.' ≤
      (Text.replace "ctx?.".toList [] (Text.replace "ctx.".toList [] s)).count '.' := by
  simp only [bare]
  refine (Text.count_replace_le _ (by decide) (by decide) _).trans ?_
  refine (Text.count_replace_le _ (by decide) (by decide) _).trans ?_
  exact Text.count_replace_le _ (by decide) (by decide) _

/-- Without context names and marks there are only connectives to replace. -/
theorem bare_of_notMem {s : List Char} (hcontext : ¬ "ctx.".toList <:+: s) (hmark : '?' ∉ s) :
    bare s = Text.replace ['|', '|'] "OR".toList (Text.replace ['&', '&'] "AND".toList s) := by
  have hsafe : ¬ "ctx?.".toList <:+: s := fun h => hmark (h.subset (by decide))
  have hmark' : ¬ ['?'] <:+: s := fun h => hmark (h.subset List.mem_cons_self)
  simp only [bare]
  rw [Text.replace_of_not_isInfix _ hcontext, Text.replace_of_not_isInfix _ hsafe,
    Text.replace_of_not_isInfix _ hmark']

/-- **The replacements leave a text alone** exactly if there is nothing to replace in it. -/
theorem bare_eq_self_iff {s : List Char} : bare s = s ↔ Plain s := by
  constructor
  · intro h
    -- each replacement uses up characters that no later one brings back
    have hmark : '?' ∉ s := h ▸ mark_notMem_bare s
    have hcontext : ¬ "ctx.".toList <:+: s := by
      intro hin
      have h1 := Text.count_replace_lt (x := '.') [] (by decide) (by decide) hin
      have h2 : (Text.replace "ctx?.".toList [] (Text.replace "ctx.".toList [] s)).count '.' ≤
          (Text.replace "ctx.".toList [] s).count '.' :=
        Text.count_replace_le [] (by decide) (by decide) _
      have h3 := count_dot_bare_le s
      rw [h] at h3
      omega
    rw [bare_of_notMem hcontext hmark] at h
    have hconjunction : ¬ ['&', '&'] <:+: s := by
      intro hin
      have h1 := Text.count_replace_lt (x := '&') "AND".toList (by decide) (by decide) hin
      have h2 : (Text.replace ['|', '|'] "OR".toList
          (Text.replace ['&', '&'] "AND".toList s)).count '&' ≤
          (Text.replace ['&', '&'] "AND".toList s).count '&' :=
        Text.count_replace_le _ (by decide) (by decide) _
      rw [h] at h2
      omega
    rw [Text.replace_of_not_isInfix _ hconjunction, Text.replace_eq_self_iff _ (by decide)] at h
    exact ⟨hcontext, hmark, hconjunction, fun hin => absurd (h hin) (by decide)⟩
  · rintro ⟨hcontext, hmark, hconjunction, hdisjunction⟩
    rw [bare_of_notMem hcontext hmark, Text.replace_of_not_isInfix _ hconjunction,
      Text.replace_of_not_isInfix _ hdisjunction]

/-! ### References -/

/-- The characters of a name: letters, digits and the underscore. -/
def isNameChar (c : Char) : Bool := Text.isAlphanumeric c || c == '_'

/-- The characters of a path: those of names, and the dots between them. -/
def InPath (c : Char) : Prop := isNameChar c = true ∨ c = '.'

instance (c : Char) : Decidable (InPath c) :=
  inferInstanceAs (Decidable (isNameChar c = true ∨ c = '.'))

/-- No code point is both blank and of a name. -/
theorem isBlank_of_isNameChar {c : Char} (h : isNameChar c = true) : Text.isBlank c = false := by
  have htable : ∀ n ∈ Text.blankCodes, Text.inRanges Text.letterRanges n = false ∧
      Text.inRanges Text.numberRanges n = false ∧ n ≠ '_'.toNat := by decide +kernel
  rw [Bool.eq_false_iff]
  intro hblank
  obtain ⟨hletter, hnumber, hne⟩ := htable _ (List.contains_iff_mem.1 hblank)
  rw [isNameChar, Text.isAlphanumeric, Text.isLetter, Text.isNumber, hletter, hnumber] at h
  exact hne (congrArg Char.toNat (eq_of_beq h))

/-- The punctuation of conditions and checks, the dot apart. -/
def punctuation : List Char := "?&|()=, ".toList

/-- No punctuation is part of a path. -/
theorem not_inPath {c : Char} (h : c ∈ punctuation) : ¬ InPath c := by
  have htable : punctuation.all (fun c => !decide (InPath c)) = true := by decide +kernel
  simpa using List.all_eq_true.1 htable c h

/-- A character of a path is not blank. -/
theorem InPath.isBlank {c : Char} (h : InPath c) : Text.isBlank c = false := by
  rcases h with h | rfl
  · exact isBlank_of_isNameChar h
  · decide

/-- A name by which something is looked up, after the dot that attaches it. -/
structure Step where
  /-- Whether a mark of safe navigation stands before the dot. -/
  safe : Bool
  /-- The name. -/
  name : List Char
  /-- There is a name. -/
  name_ne_nil : name ≠ []
  /-- It is made of letters, digits and underscores; a digit may be the first. -/
  all_isNameChar : name.all isNameChar = true

namespace Step

/-- All characters of a name are those of names. -/
theorem isNameChar_of_mem (s : Step) : ∀ c ∈ s.name, isNameChar c = true :=
  List.all_eq_true.1 s.all_isNameChar

/-- The mark of safe navigation, if there is one. -/
def mark (s : Step) : List Char := if s.safe then ['?'] else []

/-- A step as it is written. -/
def text (s : Step) : List Char := s.mark ++ '.' :: s.name

/-- A name contains no question mark. -/
@[simp] theorem mark_notMem_name (s : Step) : '?' ∉ s.name := fun hmem =>
  not_inPath (c := '?') (by decide) (.inl (s.isNameChar_of_mem _ hmem))

/-- A name contains no dot. -/
@[simp] theorem dot_notMem_name (s : Step) : '.' ∉ s.name := fun hmem =>
  absurd (s.isNameChar_of_mem _ hmem) (by decide +kernel)

/-- A mark adds no dot. -/
theorem dot_notMem_append_mark {w : List Char} (hw : '.' ∉ w) (s : Step) : '.' ∉ w ++ s.mark := by
  rw [List.mem_append, not_or, mark]
  refine ⟨hw, ?_⟩
  split <;> decide

/-- A name has no question marks to be removed. -/
@[simp] theorem filter_name (s : Step) : s.name.filter (fun c => c ≠ '?') = s.name := by
  refine List.filter_eq_self.2 fun c hc => decide_eq_true ?_
  exact ne_of_mem_of_not_mem hc s.mark_notMem_name

/-- Without its mark, a step is the dot and the name. -/
theorem filter_text (s : Step) : s.text.filter (fun c => c ≠ '?') = '.' :: s.name := by
  have hmark : s.mark.filter (fun c => c ≠ '?') = [] := by
    rw [mark]
    split <;> rfl
  rw [text, List.filter_append, hmark, List.nil_append, List.filter_cons_of_pos (by decide),
    filter_name]

end Step

/-- The name of the context. -/
def context : List Char := "ctx".toList

/-- A field of the context as it is written in a condition. -/
def reference (steps : List Step) : List Char := context ++ steps.flatMap Step.text

/-- A field of the context as it is written in a check. -/
def path (steps : List Step) : List Char := List.intercalate ['.'] (steps.map Step.name)

/-- A path begins with the name of its first step. -/
theorem path_cons (s : Step) (steps : List Step) :
    path (s :: steps) = s.name ++ steps.flatMap fun t => '.' :: t.name := by
  induction steps generalizing s with
  | nil => simp [path]
  | cons t steps ih =>
      have hpath : path (s :: t :: steps) = s.name ++ '.' :: path (t :: steps) := by
        simp [path, List.intercalate]
      rw [hpath, ih, List.flatMap_cons, List.cons_append]

/-! ### Where the name of the context is found -/

/-- **A word before a dot** is taken for the context, with or without the mark, exactly if the word
ends with the name of the context. -/
theorem isSuffix_append_mark_iff {w : List Char} (hw : '?' ∉ w) (s : Step) :
    context <:+ w ++ s.mark ∨ context ++ ['?'] <:+ w ++ s.mark ↔ context <:+ w := by
  rw [Step.mark]
  split
  · have hlast : ¬ context <:+ w ++ ['?'] := by
      intro h
      obtain ⟨v, hv, -⟩ := (List.suffix_concat_iff.1 h).resolve_left (by decide)
      exact absurd (congrArg List.getLast? hv) (by simp [context])
    rw [or_iff_right hlast]
    constructor
    · rintro ⟨t, ht⟩
      rw [← List.append_assoc] at ht
      exact ⟨t, (List.append_inj' ht rfl).1⟩
    · rintro ⟨t, rfl⟩
      exact ⟨t, by simp⟩
  · have hmark : ¬ context ++ ['?'] <:+ w ++ [] := by
      rw [List.append_nil]
      exact fun h => hw (h.subset (by simp))
    rw [or_iff_left hmark, List.append_nil]

section Names

variable {w : List Char} {steps : List Step}

/-- A chain of names up to its first dot. -/
theorem chain_cons (w : List Char) (s : Step) (steps : List Step) :
    w ++ (s :: steps).flatMap Step.text =
      (w ++ s.mark) ++ '.' :: (s.name ++ steps.flatMap Step.text) := by
  simp [Step.text]

/-- The removals leave a chain of names alone in which no name before a dot ends with the name of
the context. -/
theorem replace_chain (word : List Char) (hword : '.' ∉ word)
    (hctx : ∀ (v : List Char) (s : Step), '?' ∉ v → word <:+ v ++ s.mark → context <:+ v)
    (hdot : '.' ∉ w) (hmark : '?' ∉ w)
    (h : ∀ n ∈ (w :: steps.map Step.name).dropLast, ¬ context <:+ n) :
    Text.replace (word ++ ['.']) [] (w ++ steps.flatMap Step.text) =
      w ++ steps.flatMap Step.text := by
  -- on the steps: what is before the first dot does not end the word that is looked for
  induction steps generalizing w with
  | nil =>
      refine Text.replace_of_not_isInfix [] fun hin => ?_
      rw [List.flatMap_nil, List.append_nil] at hin
      exact hdot (hin.subset (by simp))
  | cons s steps ih =>
      have hx : '.' ∉ w ++ s.mark := s.dot_notMem_append_mark hdot
      have hw : ¬ word <:+ w ++ s.mark := fun hin => h w (by simp) (hctx w s hmark hin)
      have hrest := ih s.dot_notMem_name s.mark_notMem_name
        fun n hn => h n (by simpa using .inr hn)
      rw [chain_cons, Text.replace_terminated_of_not_isSuffix [] hword hx hw, hrest]

/-- **The dots that are left** of a chain of names: at most one for each name that does not end with
the name of the context. The front `p` is what the first removal has put before the chain. -/
theorem count_dot_chain_le (p : List Char) (hp : '.' ∉ p) (hdot : '.' ∉ w) (hmark : '?' ∉ w) :
    (Text.replace (context ++ ['?'] ++ ['.']) []
      (p ++ Text.replace (context ++ ['.']) [] (w ++ steps.flatMap Step.text))).count '.' ≤
      (w :: steps.map Step.name).dropLast.countP fun n => ¬ context <:+ n := by
  induction steps generalizing p w with
  -- one name has no dot, and no removal adds one
  | nil =>
      refine (Text.count_replace_le [] (by decide) (by decide) _).trans ?_
      rw [List.count_append, List.count_eq_zero.2 hp, Nat.zero_add]
      refine (Text.count_replace_le [] (by decide) (by decide) _).trans ?_
      rw [List.flatMap_nil, List.append_nil, List.count_eq_zero.2 hdot]
      exact Nat.zero_le _
  | cons s steps ih =>
      have hx : '.' ∉ w ++ s.mark := s.dot_notMem_append_mark hdot
      have hpx : '.' ∉ p ++ (w ++ s.mark) := by
        rw [List.mem_append, not_or]
        exact ⟨hp, hx⟩
      have hrest := fun (p : List Char) hp => ih (w := s.name) p hp s.dot_notMem_name
        s.mark_notMem_name
      -- the first name is counted apart from the others
      have hcount : (w :: (s :: steps).map Step.name).dropLast.countP (fun n => ¬ context <:+ n) =
          (s.name :: steps.map Step.name).dropLast.countP (fun n => ¬ context <:+ n) +
            if context <:+ w then 0 else 1 := by
        rw [List.map_cons, List.dropLast_cons_of_ne_nil (List.cons_ne_nil _ _), List.countP_cons]
        by_cases hw : context <:+ w <;> simp [hw]
      rw [chain_cons, hcount]
      by_cases hplain : context <:+ w ++ s.mark
      · -- the first removal takes the dot
        obtain ⟨x, hx'⟩ := hplain
        rw [← hx'] at hx hpx ⊢
        rw [Text.replace_terminated [] (by decide) fun h => hx (List.mem_append_left _ h),
          List.nil_append, ← List.append_assoc]
        refine (hrest (p ++ x) fun h => hpx ?_).trans (Nat.le_add_right _ _)
        rw [← List.append_assoc]
        exact List.mem_append_left _ h
      · rw [Text.replace_terminated_of_not_isSuffix [] (by decide) hx hplain, ← List.append_assoc]
        by_cases hsafe : context ++ ['?'] <:+ p ++ (w ++ s.mark)
        · -- the second removal takes it
          obtain ⟨x, hx'⟩ := hsafe
          rw [← hx'] at hpx ⊢
          have hxdot : '.' ∉ x := fun h => hpx (List.mem_append_left _ h)
          rw [Text.replace_terminated [] (by decide) hxdot, List.count_append,
            List.count_eq_zero.2 hxdot, Nat.zero_add]
          exact (hrest [] List.not_mem_nil).trans (Nat.le_add_right _ _)
        · have hw : ¬ context <:+ w := by
            rw [← isSuffix_append_mark_iff hmark s, not_or]
            exact ⟨hplain, fun h => hsafe (h.trans (List.suffix_append _ _))⟩
          rw [Text.replace_terminated_of_not_isSuffix [] (by decide) hpx hsafe, List.count_append,
            List.count_eq_zero.2 hpx, List.count_cons_self, Nat.zero_add, if_neg hw]
          exact Nat.add_le_add_right (hrest [] List.not_mem_nil) 1

end Names

/-! ### What a reference becomes -/

/-- The name of the context could be part of a path. -/
theorem context_inPath {c : Char} (h : c ∈ context) : InPath c := by
  have hall : context.all isNameChar = true := by decide +kernel
  exact .inl (List.all_eq_true.1 hall c h)

/-- A reference is made of characters of paths and question marks. -/
theorem inPath_or_mark_of_mem_reference {steps : List Step} {c : Char} (h : c ∈ reference steps) :
    InPath c ∨ c = '?' := by
  rcases List.mem_append.1 h with h | h
  · exact .inl (context_inPath h)
  · obtain ⟨s, -, hs⟩ := List.mem_flatMap.1 h
    rw [Step.text, Step.mark, List.mem_append, List.mem_cons] at hs
    rcases hs with hs | rfl | hs
    · split at hs
      · exact .inr (List.mem_singleton.1 hs)
      · cases hs
    · exact .inl (.inr rfl)
    · exact .inl (.inl (s.isNameChar_of_mem c hs))

/-- A text without context names and marks, its connectives as they are. -/
def unmarked (s : List Char) : List Char :=
  (Text.replace (context ++ ['?'] ++ ['.']) []
    (Text.replace (context ++ ['.']) [] s)).filter fun c => c ≠ '?'

/-- Without question marks, a reference is made of characters of paths. -/
theorem inPath_of_mem_unmarked {steps : List Step} {c : Char}
    (h : c ∈ unmarked (reference steps)) : InPath c := by
  obtain ⟨hmem, hmark⟩ := List.mem_filter.1 h
  have h2 := (Text.mem_replace [] (by decide) hmem).resolve_right List.not_mem_nil
  have h1 := (Text.mem_replace [] (by decide) h2).resolve_right List.not_mem_nil
  exact (inPath_or_mark_of_mem_reference h1).resolve_right (of_decide_eq_true hmark)

/-- There are no connectives in a reference. -/
theorem bare_reference (steps : List Step) :
    bare (reference steps) = unmarked (reference steps) := by
  have hout : ∀ c : Char, ¬ InPath c → ¬ [c, c] <:+: unmarked (reference steps) :=
    fun c hc hin => hc (inPath_of_mem_unmarked (hin.subset List.mem_cons_self))
  have hunmarked : bare (reference steps) = Text.replace ['|', '|'] "OR".toList
      (Text.replace ['&', '&'] "AND".toList (unmarked (reference steps))) := by
    simp only [bare]
    rw [replace_mark]
    rfl
  rw [hunmarked, Text.replace_of_not_isInfix _ (hout '&' (not_inPath (by decide))),
    Text.replace_of_not_isInfix _ (hout '|' (not_inPath (by decide)))]

/-- Where no name before a dot ends with the name of the context, only the context itself is
removed. -/
theorem replace_reference {s : Step} {steps : List Step}
    (h : ∀ n ∈ (s.name :: steps.map Step.name).dropLast, ¬ context <:+ n) :
    Text.replace (context ++ ['?'] ++ ['.']) []
        (Text.replace (context ++ ['.']) [] (reference (s :: steps))) =
      s.name ++ steps.flatMap Step.text := by
  have hplain := replace_chain context (by decide)
    (fun v t hv hin => (isSuffix_append_mark_iff hv t).1 (.inl hin)) s.dot_notMem_name
    s.mark_notMem_name h
  have hsafe := replace_chain (context ++ ['?']) (by decide)
    (fun v t hv hin => (isSuffix_append_mark_iff hv t).1 (.inr hin)) s.dot_notMem_name
    s.mark_notMem_name h
  rw [reference, chain_cons, Step.mark]
  -- a context with a mark is passed over first and removed by the second removal
  split
  · rw [Text.replace_terminated_of_not_isSuffix [] (by decide) (by decide) (by decide), hplain]
    exact (Text.replace_terminated [] (by decide) List.not_mem_nil _).trans hsafe
  · rw [List.append_nil]
    refine Eq.trans (congrArg _ ?_) hsafe
    exact (Text.replace_terminated [] (by decide) List.not_mem_nil _).trans hplain

/-- Without question marks and the context, a reference is its path, unless a name in front of a dot
ends like the context. -/
theorem unmarked_reference {steps : List Step} (hne : steps ≠ [])
    (h : ∀ s ∈ steps.dropLast, ¬ context <:+ s.name) : unmarked (reference steps) = path steps := by
  obtain ⟨s, steps, rfl⟩ := List.exists_cons_of_ne_nil hne
  have hnames : ∀ n ∈ (s.name :: steps.map Step.name).dropLast, ¬ context <:+ n := by
    intro n hn
    rw [← List.map_cons, ← List.map_dropLast] at hn
    obtain ⟨t, ht, rfl⟩ := List.mem_map.1 hn
    exact h t ht
  rw [unmarked, replace_reference hnames, List.filter_append, s.filter_name, List.filter_flatMap,
    path_cons]
  simp only [Step.filter_text]

/-- A path has a dot between any two names. -/
theorem count_dot_path {steps : List Step} : (path steps).count '.' = steps.length - 1 := by
  cases steps with
  | nil => rfl
  | cons s steps =>
      have hname : ∀ t : Step, t.name.count '.' = 0 :=
        fun t => List.count_eq_zero.2 t.dot_notMem_name
      rw [path_cons, List.count_append, hname, List.count_flatMap]
      simp [Function.comp_def, hname]

/-- **A reference becomes its path** exactly if no name but the last ends with the name of the
context. -/
theorem bare_reference_eq_iff {steps : List Step} (hne : steps ≠ []) :
    bare (reference steps) = path steps ↔ ∀ s ∈ steps.dropLast, ¬ context <:+ s.name := by
  constructor
  · intro h
    -- each name that ends with the name of the context costs a dot
    have hle : steps.length - 1 ≤
        (context :: steps.map Step.name).dropLast.countP fun n => ¬ context <:+ n := by
      rw [← count_dot_path, ← h]
      exact (count_dot_bare_le _).trans
        (count_dot_chain_le [] List.not_mem_nil (by decide) (by decide))
    have hnames : (steps.map Step.name).dropLast.countP (fun n => ¬ context <:+ n) =
        (steps.map Step.name).dropLast.length := by
      refine Nat.le_antisymm List.countP_le_length ?_
      rw [List.dropLast_cons_of_ne_nil (by simpa using hne), List.countP_cons] at hle
      simpa using hle
    intro s hs
    have hall := List.countP_eq_length.1 hnames s.name
      (by rw [← List.map_dropLast]; exact List.mem_map_of_mem hs)
    exact of_decide_eq_true hall
  · intro h
    rw [bare_reference, unmarked_reference hne h]

/-! ### What is read off a bare condition -/

/-- A literal between quotes. -/
def quoted (body : List Char) : List Char := '\'' :: body ++ ['\'']

/-- A quoted text has no blanks around it. -/
@[simp] theorem trim_quoted (body : List Char) : Text.trim (quoted body) = quoted body := by
  rw [Text.trim, quoted, List.cons_append, Text.trimLeft_cons (by decide), ← List.cons_append]
  exact Text.trimRight_append_cons (by decide) ('\'' :: body) []

/-- A quoted text determines what is quoted. -/
@[simp] theorem quoted_inj {a b : List Char} : quoted a = quoted b ↔ a = b := by
  simp [quoted]

section Read

variable {r p : List Char} (hr : ∀ c ∈ r, InPath c) (hp : ∀ c ∈ p, InPath c)
include hr

/-- What is not part of a path is not in a text made of its characters. -/
theorem notMem_of_inPath {c : Char} (hc : ¬ InPath c) : c ∉ r := fun hmem => hc (hr c hmem)

/-- A call in a comparison with a literal is in the literal. -/
theorem isInfix_comparison_iff (a : List Char) :
    ".contains(".toList <:+: r ++ " == ".toList ++ quoted a ↔ ".contains(".toList <:+: a := by
  have htext : r ++ " == ".toList ++ quoted a =
      r ++ ' ' :: ("== ".toList ++ '\'' :: (a ++ '\'' :: [])) := by simp [quoted]
  have hleft : ¬ ".contains(".toList <:+: r :=
    fun h => notMem_of_inPath hr (c := '(') (not_inPath (by decide)) (h.subset (by decide))
  rw [htext, Text.isInfix_append_cons_iff (by decide), Text.isInfix_append_cons_iff (by decide),
    Text.isInfix_append_cons_iff (by decide), or_iff_right hleft, or_iff_right (by decide),
    or_iff_left (by decide)]

/-- A comparison without a call in its literal keeps its operands. -/
theorem ofBare_comparison {a : List Char} (ha : ¬ ".contains(".toList <:+: a) :
    ofBare (r ++ " == ".toList ++ quoted a) = '$' :: r ++ " == ".toList ++ quoted a := by
  have hnone : Text.splitOnce ".contains(".toList (r ++ " == ".toList ++ quoted a) = none :=
    Text.splitOnce_eq_none_iff.2 ((isInfix_comparison_iff hr a).not.2 ha)
  have hsplit : Text.splitOnce "==".toList (r ++ " == ".toList ++ quoted a) =
      some (r ++ [' '], ' ' :: quoted a) := by
    have htext : r ++ " == ".toList ++ quoted a =
        (r ++ [' ']) ++ ("==".toList ++ ' ' :: quoted a) := by simp
    have hequal : '=' ∉ r ++ [' '] := by
      rw [List.mem_append, not_or]
      exact ⟨notMem_of_inPath hr (not_inPath (by decide)), by decide⟩
    have hstart : Text.NoStart "==".toList (r ++ [' ']) ("==".toList ++ ' ' :: quoted a) :=
      Text.NoStart.of_notMem hequal
    rw [htext, Text.splitOnce_append_of_noStart hstart, Text.splitOnce_sep_append]
    simp
  have hfield : Text.trim (r ++ [' ']) = r := by
    rw [Text.trim_concat_blank (by decide), Text.trim_of_forall fun c hc => (hr c hc).isBlank]
  have hvalue : Text.trim (' ' :: quoted a) = quoted a := trim_quoted a
  rw [ofBare, hnone]
  dsimp only
  rw [hsplit]
  dsimp only
  rw [hfield, hvalue]

/-- A call with a literal keeps its operands. -/
theorem ofBare_membership (a : List Char) :
    ofBare (r ++ ".contains".toList ++ '(' :: (quoted a ++ [')'])) =
      "contains($".toList ++ r ++ ", ".toList ++ quoted a ++ [')'] := by
  -- the call of the condition is found before any call in the literal
  have hsplit := Text.splitOnce_terminated (w := ".contains".toList) (by decide)
    (notMem_of_inPath hr (c := '(') (not_inPath (by decide))) (quoted a ++ [')'])
  have hneedle : ".contains(".toList = ".contains".toList ++ ['('] := rfl
  have hclosing : dropClosing (quoted a ++ [')']) = quoted a := by simp [dropClosing]
  rw [ofBare, hneedle, hsplit]
  dsimp only
  rw [hclosing, trim_quoted, Text.trim_of_forall fun c hc => (hr c hc).isBlank]

include hp

/-- Punctuation ends a path. -/
theorem append_cons_inj_of_inPath {x y : Char} {s t : List Char} (hx : x ∈ punctuation)
    (hy : y ∈ punctuation) (h : r ++ x :: s = p ++ y :: t) : r = p ∧ x = y ∧ s = t :=
  Text.append_cons_inj hr hp (not_inPath hx) (not_inPath hy) h

/-- **A comparison with a literal** is read as such exactly if no call is found in the literal. -/
theorem ofBare_comparison_iff (a b : List Char) :
    ofBare (r ++ " == ".toList ++ quoted a) = '$' :: p ++ " == ".toList ++ quoted b ↔
      r = p ∧ a = b ∧ ¬ ".contains(".toList <:+: a := by
  by_cases hcall : ".contains(".toList <:+: a
  · refine iff_of_false (fun h => ?_) fun h => h.2.2 hcall
    rw [ofBare] at h
    split at h
    · exact absurd (congrArg List.head? h) (by simp)
    · rename_i hnone
      exact Text.splitOnce_eq_none_iff.1 hnone ((isInfix_comparison_iff hr a).2 hcall)
  · rw [ofBare_comparison hr hcall]
    constructor
    · intro h
      have hcut : r ++ ' ' :: ("== ".toList ++ quoted a) =
          p ++ ' ' :: ("== ".toList ++ quoted b) := by simpa using h
      obtain ⟨rfl, -, hrest⟩ := append_cons_inj_of_inPath hr hp (by decide) (by decide) hcut
      exact ⟨rfl, quoted_inj.1 (List.append_cancel_left hrest), hcall⟩
    · rintro ⟨rfl, rfl, -⟩
      rfl

/-- A call of anything else is not read as a membership test of a path. -/
theorem ofBare_call_ne (hcalled : ∀ f, r ≠ f ++ ".contains".toList) (a b : List Char) :
    ofBare (r ++ '(' :: (quoted a ++ [')'])) ≠
      "contains($".toList ++ p ++ ", ".toList ++ quoted b ++ [')'] := by
  intro h
  have hopen : '(' ∉ r := notMem_of_inPath hr (not_inPath (by decide))
  rw [ofBare] at h
  split at h
  · -- the first call of `contains` is in the literal, and the field reaches up to it
    rename_i field value hsplit
    have htext := Text.eq_append_of_splitOnce hsplit
    have hfield : '(' ∈ field := by
      by_contra hout
      have hcut : r ++ '(' :: (quoted a ++ [')']) =
          (field ++ ".contains".toList) ++ '(' :: value := by simpa using htext
      refine hcalled field (Text.append_cons_inj_of_notMem hopen ?_ hcut).1
      rw [List.mem_append, not_or]
      exact ⟨hout, by decide⟩
    obtain ⟨f, rest, rfl, hf⟩ := List.eq_append_cons_of_mem hfield
    have hcut : r ++ '(' :: (quoted a ++ [')']) =
        f ++ '(' :: (rest ++ ".contains(".toList ++ value) := by simpa using htext
    obtain ⟨rfl, -⟩ := Text.append_cons_inj_of_notMem hopen hf hcut
    rw [Text.trim_append_cons (fun c hc => (hr c hc).isBlank) (by decide)] at h
    have hends : r ++ '(' :: (Text.trimRight rest ++ ", ".toList ++
        Text.trim (dropClosing value) ++ [')']) = p ++ ',' :: (' ' :: quoted b ++ [')']) := by
      simpa using h
    exact absurd (append_cons_inj_of_inPath hr hp (by decide) (by decide) hends).2.1 (by decide)
  · -- no call of `contains` is found: the result is a comparison, or the text itself
    split at h
    · exact absurd (congrArg List.head? h) (by simp)
    · have hcut : r ++ '(' :: (quoted a ++ [')']) =
          "contains".toList ++ '(' :: ('$' :: p ++ ", ".toList ++ quoted b ++ [')']) := by
        simpa using h
      obtain ⟨-, hrest⟩ := Text.append_cons_inj_of_notMem hopen (by decide) hcut
      exact absurd (congrArg List.head? hrest) (by simp [quoted])

/-- **A call with a literal** is read as a membership test of a path exactly if the path is what is
called. -/
theorem ofBare_membership_iff (a b : List Char) :
    ofBare (r ++ '(' :: (quoted a ++ [')'])) =
        "contains($".toList ++ p ++ ", ".toList ++ quoted b ++ [')'] ↔
      r = p ++ ".contains".toList ∧ a = b := by
  by_cases hcalled : ∃ f, r = f ++ ".contains".toList
  · obtain ⟨f, rfl⟩ := hcalled
    have hf : ∀ c ∈ f, InPath c := fun c hc => hr c (List.mem_append_left _ hc)
    rw [ofBare_membership hf]
    constructor
    · intro h
      have hcut : f ++ ',' :: (' ' :: quoted a ++ [')']) =
          p ++ ',' :: (' ' :: quoted b ++ [')']) := by simpa using h
      obtain ⟨rfl, -, hrest⟩ := append_cons_inj_of_inPath hf hp (by decide) (by decide) hcut
      exact ⟨rfl, quoted_inj.1 (List.cons.inj (List.append_cancel_right hrest)).2⟩
    · rintro ⟨hfp, rfl⟩
      rw [List.append_cancel_right hfp]
  · refine iff_of_false (ofBare_call_ne hr hp (fun f hf => hcalled ⟨f, hf⟩) a b) fun h => ?_
    exact hcalled ⟨p, h.1⟩

end Read

/-! ### Both checks -/

/-- A path is made of characters of paths. -/
theorem inPath_of_mem_path {steps : List Step} {c : Char} (h : c ∈ path steps) : InPath c := by
  cases steps with
  | nil => cases h
  | cons s steps =>
      rw [path_cons, List.mem_append, List.mem_flatMap] at h
      rcases h with h | ⟨t, -, ht⟩
      · exact .inl (s.isNameChar_of_mem c h)
      · rcases List.mem_cons.1 ht with rfl | ht
        · exact .inr rfl
        · exact .inl (t.isNameChar_of_mem c ht)

/-- So is a bare reference. -/
theorem inPath_of_mem_bare_reference {steps : List Step} {c : Char}
    (h : c ∈ bare (reference steps)) : InPath c := by
  rw [bare_reference] at h
  exact inPath_of_mem_unmarked h

/-- The quotes stay where they are, and what is quoted becomes bare. -/
@[simp] theorem bare_quoted (body : List Char) : bare (quoted body) = quoted (bare body) := by
  rw [quoted, List.cons_append, bare_cons (by decide), bare_append_cons (by decide), bare_nil]
  rfl

/-- The call of `contains`, as one more step of the reference. -/
def Step.contains : Step :=
  ⟨false, "contains".toList, by decide, by decide +kernel⟩

/-- A call of a membership test is a reference with one more step. -/
theorem reference_concat_contains (steps : List Step) :
    reference (steps ++ [.contains]) = reference steps ++ ".contains".toList := by
  simp [reference, Step.text, Step.mark, Step.contains]

/-- So is its path. -/
theorem path_concat_contains {steps : List Step} (hne : steps ≠ []) :
    path (steps ++ [.contains]) = path steps ++ ".contains".toList := by
  obtain ⟨s, steps, rfl⟩ := List.exists_cons_of_ne_nil hne
  rw [List.cons_append, path_cons, path_cons]
  simp [Step.contains]

/-- A check is compared character by character. -/
theorem check_eq_ofList_iff {a b : List Char} :
    check (String.ofList a) = String.ofList b ↔ ofBare (bare a) = b := by
  rw [check, Text.onString, String.toList_ofList, String.ofList_inj]

/-- **A comparison** is carried over exactly if no name but the last ends like the context, the
operand is plain, and it does not look like a membership test. -/
theorem check_comparison_iff {steps : List Step} (hne : steps ≠ []) (body : List Char) :
    check (String.ofList (reference steps ++ " == ".toList ++ quoted body)) =
        String.ofList ('$' :: path steps ++ " == ".toList ++ quoted body) ↔
      (∀ s ∈ steps.dropLast, ¬ context <:+ s.name) ∧ Plain body ∧
        ¬ ".contains(".toList <:+: body := by
  have hbare : bare (reference steps ++ " == ".toList ++ quoted body) =
      bare (reference steps) ++ " == ".toList ++ quoted (bare body) := by
    have htext : reference steps ++ " == ".toList ++ quoted body =
        reference steps ++ ' ' :: '=' :: '=' :: ' ' :: quoted body := by simp
    rw [htext, bare_append_cons (by decide), bare_cons (by decide), bare_cons (by decide),
      bare_cons (by decide), bare_quoted]
    simp
  rw [check_eq_ofList_iff, hbare, ofBare_comparison_iff (fun _ => inPath_of_mem_bare_reference)
    (fun _ => inPath_of_mem_path), bare_reference_eq_iff hne, bare_eq_self_iff]
  -- a plain literal is the one in which the call is looked for
  refine and_congr_right fun _ => and_congr_right fun hplain => ?_
  rw [bare_eq_self_iff.2 hplain]

/-- **A membership test** is carried over exactly if no name ends like the context and the operand
is plain. -/
theorem check_membership_iff {steps : List Step} (hne : steps ≠ []) (body : List Char) :
    check (String.ofList (reference steps ++ ".contains(".toList ++ quoted body ++ [')'])) =
        String.ofList ("contains($".toList ++ path steps ++ ", ".toList ++ quoted body ++ [')']) ↔
      (∀ s ∈ steps, ¬ context <:+ s.name) ∧ Plain body := by
  have hbare : bare (reference steps ++ ".contains(".toList ++ quoted body ++ [')']) =
      bare (reference (steps ++ [.contains])) ++ '(' :: (quoted (bare body) ++ [')']) := by
    -- the call is one more step, so that every name of the field stands before a dot
    have htext : reference steps ++ ".contains(".toList ++ quoted body ++ [')'] =
        reference (steps ++ [.contains]) ++ '(' :: (quoted body ++ ')' :: []) := by
      rw [reference_concat_contains]
      simp
    rw [htext, bare_append_cons (by decide), bare_append_cons (by decide), bare_quoted, bare_nil]
  rw [check_eq_ofList_iff, hbare, ofBare_membership_iff (fun _ => inPath_of_mem_bare_reference)
    (fun _ => inPath_of_mem_path), ← path_concat_contains hne, bare_reference_eq_iff (by simp),
    bare_eq_self_iff, List.dropLast_concat]

/-- **When a check has the operands of its condition**: names, a comparison's last one apart, must
not end with the name of the context, and the literal must have nothing in it that is replaced, nor,
in a comparison, a call of `contains`. -/
theorem check_operands_iff {steps : List Step} (hne : steps ≠ []) (body : List Char) :
    (check (String.ofList (reference steps ++ " == ".toList ++ quoted body)) =
        String.ofList ('$' :: path steps ++ " == ".toList ++ quoted body) ↔
      (∀ s ∈ steps.dropLast, ¬ context <:+ s.name) ∧ Plain body ∧
        ¬ ".contains(".toList <:+: body) ∧
    (check (String.ofList (reference steps ++ ".contains(".toList ++ quoted body ++ [')'])) =
        String.ofList ("contains($".toList ++ path steps ++ ", ".toList ++ quoted body ++ [')']) ↔
      (∀ s ∈ steps, ¬ context <:+ s.name) ∧ Plain body) :=
  ⟨check_comparison_iff hne body, check_membership_iff hne body⟩

/-- A step with a question mark behind it, in both forms. -/
theorem check_operands_iff_kind :
    check "ctx?.event.kind == 'alert'" = "$event.kind == 'alert'" ∧
      check "ctx?.event.kind.contains('alert')" = "contains($event.kind, 'alert')" := by
  have hplain : Plain "alert".toList := ⟨by decide, by decide, by decide, by decide⟩
  have hne : [(⟨true, "event".toList, by decide, by decide +kernel⟩ : Step),
      ⟨false, "kind".toList, by decide, by decide +kernel⟩] ≠ [] := List.cons_ne_nil _ _
  have h := check_operands_iff hne "alert".toList
  exact ⟨h.1.2 ⟨by decide, hplain, by decide⟩, h.2.2 ⟨by decide, hplain⟩⟩

/-- A mark or a connective in a literal is replaced, and so is the end of a name that is spelled
like the context. -/
theorem check_operands_ne :
    check "ctx.a == 'x?'" ≠ "$a == 'x?'" ∧
      check "ctx.myctx.b == 'x'" ≠ "$myctx.b == 'x'" ∧
      check "ctx.a.contains('b && c')" ≠ "contains($a, 'b && c')" := by
  refine ⟨?_, ?_, ?_⟩ <;> decide +kernel

end Condition

end IngestPipeline
