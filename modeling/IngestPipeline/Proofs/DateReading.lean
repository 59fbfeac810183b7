import IngestPipeline.DateFormat.Lint
import IngestPipeline.Proofs.DateTokens

/-! # Reading a translated date format

A strftime text is itself read from left to right: a percent sign begins a directive or stands for
itself, and any other character stands for itself. This file reads the strftime text of a date
format and compares what is read with the tokens of the format.

* **`Strftime.read`**: the items of a strftime text.
* **`Token.items`**: the items that a token of a date format stands for.
* **`read_strftime_append`**: one token, followed by any text, is read as its items.
* **`read_strftime_ofSource`**: a format whose percent signs are all quoted is read token by token,
  and a consumer finds nothing but its unsupported letters. -/

namespace IngestPipeline

namespace Strftime

open DateFormat (IsDirective)

/-- **What a strftime text consists of.** -/
inductive Item where
  /-- A directive, with its percent sign. -/
  | directive (text : List Char)
  /-- A character that stands for itself. -/
  | char (c : Char)
  deriving DecidableEq, Repr

/-- **The items of a strftime text.** Two percent signs stand for one; a percent sign, perhaps a
minus sign and a letter are a directive. -/
def read : List Char → List Item
  | [] => []
  | '%' :: '%' :: s => .char '%' :: read s
  | '%' :: '-' :: c :: s =>
      if c.isAlpha || c = '%' then .directive ['%', '-', c] :: read s
      else .char '%' :: read ('-' :: c :: s)
  | '%' :: c :: s =>
      if c.isAlpha then .directive ['%', c] :: read s else .char '%' :: read (c :: s)
  | c :: s => .char c :: read s

/-- A character other than a percent sign is read as itself. -/
@[simp] theorem read_cons_of_ne {c : Char} (hc : c ≠ '%') (s : List Char) :
    read (c :: s) = .char c :: read s :=
  read.eq_5 c s (fun _ h => absurd h hc) (fun _ _ h => absurd h hc) fun _ _ h => absurd h hc

/-- Two percent signs are read as one. -/
@[simp] theorem read_percent_percent (s : List Char) :
    read ('%' :: '%' :: s) = .char '%' :: read s := rfl

/-- A directive is read as such, unless it is the one that stands for a percent sign. -/
@[simp] theorem read_directive_append {text : List Char} (h : IsDirective text)
    (hne : text ≠ ['%', '%']) (s : List Char) : read (text ++ s) = .directive text :: read s := by
  cases h with
  | @padded c hc =>
      have halpha : c.isAlpha = true := by
        refine hc.resolve_right ?_
        rintro rfl
        exact hne rfl
      have hpercent : c ≠ '%' := DateFormat.ne_of_isAlpha halpha (by decide)
      have hminus : c ≠ '-' := DateFormat.ne_of_isAlpha halpha (by decide)
      show read ('%' :: c :: s) = _
      rw [read.eq_4 c s hpercent fun _ _ h => absurd h hminus, if_pos halpha]
  | @unpadded c hc =>
      have hc' : (c.isAlpha || decide (c = '%')) = true := by simpa using hc
      show read ('%' :: '-' :: c :: s) = _
      rw [read.eq_3, if_pos hc']

/-! ### Valid texts -/

/-- A character other than a percent sign is always valid. -/
@[simp] theorem isValid_cons_of_ne {c : Char} (hc : c ≠ '%') (s : List Char) :
    isValid (c :: s) = isValid s := by
  rw [isValid, if_neg hc]

/-- A percent sign is valid in front of a specifier. -/
theorem isValid_percent_cons {s rest : List Char} (h : specifier? s = some rest) :
    isValid ('%' :: s) = isValid rest := by
  rw [isValid, if_pos rfl]
  split
  · rename_i rest' h'
    rw [h] at h'
    rw [Option.some.inj h']
  · rename_i h'
    rw [h] at h'
    cases h'

/-- Two percent signs are valid wherever they stand. -/
@[simp] theorem isValid_percent_percent (s : List Char) :
    isValid ('%' :: '%' :: s) = isValid s := isValid_percent_cons rfl

end Strftime

namespace DateFormat

/-- **The directives of the table** are letters that a consumer knows, without a padding or, for
numbers only, with one. -/
theorem directive_cases {e : String × String} (he : e ∈ directives) :
    ∃ c ∈ Strftime.plainSpecifiers, c.isAlpha = true ∧
      (e.2.toList = ['%', c] ∨
        c ∈ Strftime.numericSpecifiers ∧ e.2.toList = ['%', '-', c]) := by
  have htable : directives.all (fun e => Strftime.plainSpecifiers.any fun c =>
      c.isAlpha && (e.2.toList == ['%', c] ||
        Strftime.numericSpecifiers.contains c && e.2.toList == ['%', '-', c])) = true := by decide
  simpa using List.all_eq_true.1 htable e he

/-- What the table gives for a group is a directive, and not the percent sign. -/
theorem isDirective_of_mem_directives {e : String × String} (he : e ∈ directives) :
    IsDirective e.2.toList ∧ e.2.toList ≠ ['%', '%'] := by
  obtain ⟨c, -, hc, htext | ⟨-, htext⟩⟩ := directive_cases he
  · rw [htext]
    refine ⟨.padded (.inl hc), ?_⟩
    intro h
    exact ne_of_isAlpha hc (by decide) (List.cons.inj (List.cons.inj h).2).1
  · rw [htext]
    exact ⟨.unpadded (.inl hc), by simp⟩

/-- A directive of the table is valid. -/
@[simp] theorem isValid_directive_append {e : String × String} (he : e ∈ directives)
    (s : List Char) : Strftime.isValid (e.2.toList ++ s) = Strftime.isValid s := by
  obtain ⟨c, hplain, hc, htext | ⟨hnumeric, htext⟩⟩ := directive_cases he
  · have hpadding : c ∉ Strftime.paddings := by
      have hnot : Strftime.paddings.all (fun d => !d.isAlpha) = true := by decide
      intro hmem
      have hfalse := List.all_eq_true.1 hnot c hmem
      rw [hc] at hfalse
      cases hfalse
    have hfound : Strftime.specifier? (c :: s) = some s := by
      simp [Strftime.specifier?.eq_def, hpadding, hplain]
    rw [htext]
    exact Strftime.isValid_percent_cons hfound
  · have hfound : Strftime.specifier? ('-' :: c :: s) = some s := by
      simp [Strftime.specifier?, Strftime.paddings, hnumeric]
    rw [htext]
    exact Strftime.isValid_percent_cons hfound

/-! ### Literal text -/

/-- A text with its percent signs doubled. -/
def escaped (text : List Char) : List Char := Text.replace ['%'] ['%', '%'] text

/-- There is nothing to escape in the empty text. -/
@[simp] theorem escaped_nil : escaped [] = [] := Text.replace_empty_text '%' [] _

/-- Percent signs are doubled, one by one. -/
@[simp] theorem escaped_cons (c : Char) (text : List Char) :
    escaped (c :: text) = (if c = '%' then ['%', '%'] else [c]) ++ escaped text := by
  rw [escaped, escaped, Text.replace_singleton, Text.replace_singleton, List.flatMap_cons]

/-- **No literal text is read as a directive.** -/
@[simp] theorem read_escaped_append (text s : List Char) :
    Strftime.read (escaped text ++ s) = text.map .char ++ Strftime.read s := by
  induction text with
  | nil => simp
  | cons c text ih =>
      by_cases hc : c = '%'
      · subst hc
        simp [ih]
      · simp [hc, ih]

/-- An escaped text is valid. -/
@[simp] theorem isValid_escaped_append (text s : List Char) :
    Strftime.isValid (escaped text ++ s) = Strftime.isValid s := by
  induction text with
  | nil => simp
  | cons c text ih =>
      by_cases hc : c = '%'
      · subst hc
        simp [ih]
      · simp [hc, ih]

/-! ### Token by token -/

/-- **What a token stands for** in a strftime text: a letter group for its directive, literal text
for its characters, and an empty literal for a quote. -/
def Token.items : Token → List Strftime.Item
  | .group _ text => [.directive text]
  | .directive text => if text = ['%', '%'] then [.char '%'] else [.directive text]
  | .literal text => if text.isEmpty then [.char quote] else text.map .char
  | .letter c => [.char c]
  | .other c => [.char c]

/-- **A token is read as what it stands for**, whatever follows it, unless it is a percent sign that
begins no directive. -/
theorem Token.Fits.read_strftime_append {t : Token} {rest : List Char} (h : t.Fits rest)
    (hpercent : t ≠ .other '%') (s : List Char) :
    Strftime.read (t.strftime ++ s) = t.items ++ Strftime.read s := by
  cases h with
  | group he _ =>
      obtain ⟨hdirective, hne⟩ := isDirective_of_mem_directives he
      exact Strftime.read_directive_append hdirective hne s
  | @directive text _ hdirective =>
      rw [Token.strftime, Token.items]
      -- `%%` is a directive of the format, but stands for a character
      by_cases hne : text = ['%', '%']
      · rw [if_pos hne, hne]
        exact Strftime.read_percent_percent s
      · rw [if_neg hne]
        exact Strftime.read_directive_append hdirective hne s
  | @literal text _ _ =>
      rw [Token.strftime, Token.items]
      cases text with
      | nil => exact Strftime.read_cons_of_ne quote_ne_percent s
      | cons c text => exact read_escaped_append (c :: text) s
  | letter hc _ => exact Strftime.read_cons_of_ne (ne_of_isAlpha hc (by decide)) s
  | other _ _ _ =>
      refine Strftime.read_cons_of_ne ?_ s
      rintro rfl
      exact hpercent rfl

/-- **A format without such percent signs** is read token by token. -/
theorem Lexed.read_flatMap_strftime {ts : List Token} {s : List Char} (h : Lexed ts s)
    (hpercent : .other '%' ∉ ts) :
    Strftime.read (ts.flatMap Token.strftime) = ts.flatMap Token.items := by
  induction h with
  | nil => rfl
  | @cons t ts _ hfits _ ih =>
      rw [List.mem_cons, not_or] at hpercent
      rw [List.flatMap_cons, List.flatMap_cons,
        hfits.read_strftime_append (Ne.symm hpercent.1), ih hpercent.2]

/-- A token that brings no percent sign of its own keeps a text valid. -/
theorem Token.Fits.isValid_strftime_append {t : Token} {rest : List Char} (h : t.Fits rest)
    (hquoted : '%' ∈ t.source → ∃ text, t = .literal text) (s : List Char) :
    Strftime.isValid (t.strftime ++ s) = Strftime.isValid s := by
  cases h with
  | group he _ => exact isValid_directive_append he s
  | @directive text _ hdirective =>
      have hmem : '%' ∈ (Token.directive text).source := by
        cases hdirective <;> exact List.mem_cons_self
      obtain ⟨_, h⟩ := hquoted hmem
      cases h
  | @literal text _ _ =>
      rw [Token.strftime]
      cases text with
      | nil => exact Strftime.isValid_cons_of_ne quote_ne_percent s
      | cons c text => exact isValid_escaped_append (c :: text) s
  | letter hc _ => exact Strftime.isValid_cons_of_ne (ne_of_isAlpha hc (by decide)) s
  | other _ _ _ =>
      refine Strftime.isValid_cons_of_ne ?_ s
      rintro rfl
      obtain ⟨_, h⟩ := hquoted List.mem_cons_self
      cases h

/-- What tokens become is valid, if percent signs stand in quotes only. -/
theorem Lexed.isValid_flatMap_strftime {ts : List Token} {s : List Char} (h : Lexed ts s)
    (hquoted : ∀ t ∈ ts, '%' ∈ t.source → ∃ text, t = .literal text) :
    Strftime.isValid (ts.flatMap Token.strftime) = true := by
  induction h with
  | nil => rw [List.flatMap_nil, Strftime.isValid]
  | @cons t ts _ hfits _ ih =>
      rw [List.flatMap_cons, hfits.isValid_strftime_append (hquoted t List.mem_cons_self),
        ih fun t' ht' => hquoted t' (List.mem_cons_of_mem t ht')]

/-- The strftime text of a format that is no name. -/
@[simp] theorem toList_strftime_ofSource {source : String} (h : isNamed source = false) :
    (ofSource source).strftime.toList = (tokens source.toList).flatMap Token.strftime := by
  simp [ofSource, h]

/-- **Translating a date format keeps its meaning.** Where every percent sign is quoted, the
strftime text is read as the tokens of the format, one after the other, and the only findings about
it are its letters without a directive. -/
theorem read_strftime_ofSource (source : String) (hnamed : isNamed source = false)
    (hquoted : ∀ t ∈ tokens source.toList, '%' ∈ t.source → ∃ text, t = .literal text) :
    Lexed (tokens source.toList) source.toList ∧
      Strftime.read (ofSource source).strftime.toList =
        (tokens source.toList).flatMap Token.items ∧
      (ofSource source).findings = (ofSource source).unsupported.map unsupportedFinding := by
  have hlexed := lexed_tokens source.toList
  -- a percent sign that begins no directive would be a token without quotes
  have hpercent : .other '%' ∉ tokens source.toList := by
    intro hmem
    obtain ⟨_, h⟩ := hquoted _ hmem List.mem_cons_self
    cases h
  refine ⟨hlexed, ?_, ?_⟩
  · rw [toList_strftime_ofSource hnamed, hlexed.read_flatMap_strftime hpercent]
  · have hvalid : Strftime.isValid (ofSource source).strftime.toList = true := by
      rw [toList_strftime_ofSource hnamed, hlexed.isValid_flatMap_strftime hquoted]
    rw [findings, hvalid, Bool.or_true, if_pos rfl, List.append_nil]

/-- A format with an apostrophe and a percent sign in quotes, an empty literal and leftovers. -/
theorem read_strftime_ofSource_oclock :
    tokens "yyy'%d o''clock'MMM''S".toList =
        [.group "yy".toList "%y".toList, .letter 'y', .literal "%d o'clock".toList,
          .group "MMM".toList "%b".toList, .literal [], .letter 'S'] ∧
      Strftime.read (ofSource "yyy'%d o''clock'MMM''S").strftime.toList =
        .directive "%y".toList :: .char 'y' :: "%d o'clock".toList.map .char ++
          [.directive "%b".toList, .char quote, .char 'S'] ∧
      (ofSource "yyy'%d o''clock'MMM''S").findings =
        [unsupportedFinding "y", unsupportedFinding "S"] := by
  have htokens : tokens "yyy'%d o''clock'MMM''S".toList =
      [.group "yy".toList "%y".toList, .letter 'y', .literal "%d o'clock".toList,
        .group "MMM".toList "%b".toList, .literal [], .letter 'S'] := by decide +kernel
  have hquoted : ∀ t ∈ tokens "yyy'%d o''clock'MMM''S".toList,
      '%' ∈ t.source → ∃ text, t = .literal text := by
    rw [htokens]
    simp [Token.source, doubled]
  have hnamed : isNamed "yyy'%d o''clock'MMM''S" = false := by decide
  obtain ⟨-, hread, hfindings⟩ := read_strftime_ofSource _ hnamed hquoted
  rw [htokens] at hread
  have hunsupported : (ofSource "yyy'%d o''clock'MMM''S").unsupported = ["y", "S"] := by
    rw [ofSource, hnamed, if_neg Bool.false_ne_true, htokens]
    decide
  rw [hunsupported] at hfindings
  exact ⟨htokens, hread, hfindings⟩

end DateFormat

end IngestPipeline
