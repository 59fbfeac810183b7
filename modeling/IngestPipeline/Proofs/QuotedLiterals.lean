import IngestPipeline.Proofs.DateReading
import IngestPipeline.Proofs.LetterRuns

/-! # Quoted literals in a date format

A quoted literal stands between two texts of a date format. This file cuts a format at its literals:
each text is translated as if it were the whole format, and each literal is copied.

* **`interleaved front parts`**: a format of texts with quoted literals between them. It is
  **`Separated`** if every literal can be told from what stands around it.
* **`Token.Fits.append_quote`**: no token of a text without quotes reaches into a quote behind it.
* **`fits_literal`**: a literal ends at the first quote that is not one of a pair.
* **`lexed_interleaved`**: the tokens of a format are those of its texts and its literals, in order.
* **`ofSource_interleaved`**: so is its translation, and the letters without a directive are those
  of the texts, each once. -/

/-! ### First occurrences -/

namespace List

variable {α : Type u} [BEq α]

/-- **Induction along first occurrences**: the first element is removed from the whole rest. -/
theorem eraseDups_induction {motive : List α → Prop} (nil : motive [])
    (cons : ∀ a l, motive (l.filter fun b => !b == a) → motive (a :: l)) (l : List α) :
    motive l := by
  induction hn : l.length using Nat.strong_induction_on generalizing l with
  | _ n ih =>
      cases l with
      | nil => exact nil
      | cons a l =>
          have hlen : (l.filter fun b => !b == a).length < n := by
            rw [← hn, length_cons]
            exact Nat.lt_succ_of_le (length_filter_le _ _)
          exact cons a l (ih _ hlen _ rfl)

variable [LawfulBEq α]

/-- First occurrences can be kept before or after elements are left out. -/
theorem eraseDups_filter (p : α → Bool) (l : List α) :
    (l.filter p).eraseDups = l.eraseDups.filter p := by
  induction l using eraseDups_induction with
  | nil => rw [filter_nil, eraseDups_nil, filter_nil]
  | cons a l ih =>
      rw [filter_filter] at ih
      rw [eraseDups_cons]
      cases ha : p a with
      | true =>
          rw [filter_cons_of_pos ha, eraseDups_cons, filter_cons_of_pos ha, filter_filter, ← ih]
          simp only [Bool.and_comm]
      | false =>
          -- an element that is left out takes no other one with it
          have hp : ∀ b ∈ l, (p b && !b == a) = p b := by
            intro b _
            by_cases hb : b = a
            · rw [hb, ha, Bool.false_and]
            · simp [hb]
          rw [filter_cons_of_neg (by simp [ha]), filter_cons_of_neg (by simp [ha]), ← ih,
            filter_congr hp]

/-- Where there are no duplicates, none are removed. -/
@[simp] theorem eraseDups_eraseDups (l : List α) : l.eraseDups.eraseDups = l.eraseDups := by
  induction l using eraseDups_induction with
  | nil => rw [eraseDups_nil, eraseDups_nil]
  | cons a l ih =>
      rw [eraseDups_cons, eraseDups_cons, ← eraseDups_filter, filter_filter]
      simp only [Bool.and_self, ih]

/-- Elements with different images have no more duplicates than their images. -/
theorem eraseDups_map {β : Type v} [BEq β] [LawfulBEq β] {f : α → β} (hf : f.Injective)
    (l : List α) : (l.map f).eraseDups = l.eraseDups.map f := by
  induction l using eraseDups_induction with
  | nil => rw [map_nil, eraseDups_nil, eraseDups_nil, map_nil]
  | cons a l ih =>
      have hkept : ((fun b => !b == f a) ∘ f) = fun b => !b == a := by
        funext b
        simp [hf.eq_iff]
      rw [map_cons, eraseDups_cons, eraseDups_cons, map_cons, filter_map, hkept, ih]

/-- Duplicates within the parts of a list need not be kept. -/
theorem eraseDups_flatMap_eraseDups {ι : Type w} (f : ι → List α) (xs : List ι) :
    (xs.flatMap fun x => (f x).eraseDups).eraseDups = (xs.flatMap f).eraseDups := by
  induction xs with
  | nil => rfl
  | cons x xs ih =>
      have hsame : (fun b => !elem b (f x).eraseDups) = fun b => !elem b (f x) := by
        funext b
        simp [mem_eraseDups]
      rw [flatMap_cons, flatMap_cons, eraseDups_append, eraseDups_append, eraseDups_eraseDups,
        removeAll, removeAll, eraseDups_filter, eraseDups_filter, ih, hsame]

end List

namespace IngestPipeline.DateFormat

/-! ### Formats cut at their literals -/

/-- A literal between quotes, its own quotes doubled. -/
def quoted (literal : String) : String :=
  String.ofList (Token.literal literal.toList).source

/-- **A format of texts and literals**: the text `front`, and behind it literals, each with the text
that follows it. -/
def interleaved (front : String) (parts : List (String × String)) : String :=
  front ++ String.join (parts.map fun part => quoted part.1 ++ part.2)

/-- Without parts there is only the text in front. -/
@[simp] theorem toList_interleaved_nil (front : String) :
    (interleaved front []).toList = front.toList := by
  simp [interleaved]

/-- A part is a literal and the text behind it. -/
@[simp] theorem toList_interleaved_cons (front : String) (part : String × String)
    (parts : List (String × String)) :
    (interleaved front (part :: parts)).toList =
      front.toList ++
        ((Token.literal part.1.toList).source ++ (interleaved part.2 parts).toList) := by
  simp [interleaved, quoted]

/-- **Literals that can be told apart**: no literal is empty, no text has a quote or is a name, and
between two literals there is a text. -/
structure Separated (front : String) (parts : List (String × String)) : Prop where
  /-- A literal has a character. -/
  literal_ne : ∀ part ∈ parts, part.1 ≠ ""
  /-- A text has no quote. -/
  quote_notMem : ∀ text ∈ front :: parts.map Prod.snd, quote ∉ text.toList
  /-- A text is no name of a format. -/
  isNamed_eq : ∀ text ∈ front :: parts.map Prod.snd, isNamed text = false
  /-- A text between two literals has a character. -/
  between_ne : ∀ part ∈ parts.dropLast, part.2 ≠ ""

/-- What follows the first part is separated as well. -/
theorem Separated.tail {front : String} {part : String × String} {parts : List (String × String)}
    (h : Separated front (part :: parts)) : Separated part.2 parts where
  literal_ne p hp := h.literal_ne p (List.mem_cons_of_mem _ hp)
  quote_notMem text htext := h.quote_notMem text (List.mem_cons_of_mem _ htext)
  isNamed_eq text htext := h.isNamed_eq text (List.mem_cons_of_mem _ htext)
  between_ne p hp := by
    refine h.between_ne p ?_
    cases parts with
    | nil => cases hp
    | cons next parts => exact List.mem_cons_of_mem _ hp

/-- Behind a literal there is no quote. -/
theorem Separated.head?_ne {front : String} {part : String × String}
    {parts : List (String × String)} (h : Separated front (part :: parts)) :
    (interleaved part.2 parts).toList.head? ≠ some quote := by
  have hquote : quote ∉ part.2.toList :=
    h.quote_notMem part.2 (List.mem_cons_of_mem _ List.mem_cons_self)
  cases htext : part.2.toList with
  | cons c text =>
      rw [htext, List.mem_cons, not_or] at hquote
      have hhead : (interleaved part.2 parts).toList.head? = some c := by
        simp [interleaved, htext]
      rw [hhead]
      exact fun hc => hquote.1 (Option.some.inj hc).symm
  | nil =>
      -- only the text behind the last literal can be empty
      cases parts with
      | nil => simp [interleaved, htext]
      | cons next parts =>
          refine absurd ?_ (h.between_ne part List.mem_cons_self)
          rw [← String.toList_inj, htext]
          rfl

/-! ### Tokens on both sides of a quote -/

/-- No group of the table contains a quote. -/
theorem quote_notMem_of_mem_directives {e : String × String} (he : e ∈ directives) :
    quote ∉ e.1.toList := fun hmem =>
  ne_of_isAlpha ((isAlpha_of_mem_directives he).2 quote hmem) isAlpha_quote rfl

/-- No directive contains a quote. -/
theorem IsDirective.quote_notMem {text : List Char} (h : IsDirective text) : quote ∉ text := by
  have hne : ∀ c : Char, c.isAlpha = true ∨ c = '%' → quote ≠ c := by
    rintro c (hc | rfl)
    · exact (ne_of_isAlpha hc isAlpha_quote).symm
    · exact quote_ne_percent
  cases h with
  | padded hc => simpa [quote_ne_percent] using hne _ hc
  | unpadded hc =>
      have hminus : quote ≠ '-' := by decide
      simpa [quote_ne_percent, hminus] using hne _ hc

/-- **One token does not reach into a quote** behind the text it is in. -/
theorem Token.Fits.append_quote {t : Token} {rest : List Char} (h : t.Fits rest)
    (hquote : quote ∉ t.source) (s : List Char) : t.Fits (rest ++ quote :: s) := by
  cases h with
  | @group e _ he hlongest =>
      refine .group he fun e' he' hp => hlongest e' he' ?_
      rw [← List.append_assoc] at hp
      exact (Text.isPrefix_append_cons_iff (quote_notMem_of_mem_directives he')).1 hp
  | directive hdirective => exact .directive hdirective
  | literal _ => exact absurd List.mem_cons_self hquote
  | letter hc hnone =>
      refine .letter hc fun e he hp => hnone e he ?_
      rw [← List.cons_append] at hp
      exact (Text.isPrefix_append_cons_iff (quote_notMem_of_mem_directives he)).1 hp
  | other hc _ hpercent =>
      refine .other hc (fun heq => ?_) fun heq text hdirective hp => ?_
      · exact absurd (heq ▸ List.mem_cons_self) hquote
      · rw [← List.cons_append] at hp
        exact hpercent heq text hdirective
          ((Text.isPrefix_append_cons_iff hdirective.quote_notMem).1 hp)

/-- **A text in front of a quote** has the tokens that it has by itself. -/
theorem Lexed.append_quote {ts us : List Token} {text s : List Char} (h : Lexed ts text)
    (hquote : quote ∉ text) (hs : Lexed us (quote :: s)) :
    Lexed (ts ++ us) (text ++ quote :: s) := by
  induction h with
  | nil => exact hs
  | @cons t ts rest hfits _ ih =>
      rw [List.mem_append, not_or] at hquote
      rw [List.append_assoc]
      exact .cons (hfits.append_quote hquote.1 s) (ih hquote.2)

/-- **A literal ends** at a quote that no other quote follows. -/
theorem fits_literal (text : List Char) {rest : List Char} (hrest : rest.head? ≠ some quote) :
    (Token.literal text).Fits rest := by
  refine .literal fun text' rest' h => ?_
  by_contra hlonger
  -- a longer literal would go on with a pair of quotes
  obtain ⟨more, rfl⟩ := isPrefix_of_doubled_append (Nat.le_of_not_le hlonger) h
  rw [doubled_append, List.append_assoc, List.append_cancel_left_eq] at h
  obtain ⟨rfl, -, -⟩ | ⟨inner, -, -, hpair⟩ | ⟨_, -, hne, -⟩ := eq_doubled_append_cases h
  · simp at hlonger
  · rw [hpair] at hrest
    exact hrest rfl
  · exact hne rfl

/-- **The tokens of a format** are the tokens of its texts, with its literals between them. -/
theorem lexed_interleaved {front : String} {parts : List (String × String)}
    (h : Separated front parts) :
    Lexed (tokens front.toList ++
        parts.flatMap fun part => .literal part.1.toList :: tokens part.2.toList)
      (interleaved front parts).toList := by
  induction parts generalizing front with
  | nil =>
      rw [toList_interleaved_nil, List.flatMap_nil, List.append_nil]
      exact lexed_tokens front.toList
  | cons part parts ih =>
      have hfront := h.quote_notMem front List.mem_cons_self
      rw [toList_interleaved_cons, List.flatMap_cons]
      exact (lexed_tokens front.toList).append_quote hfront
        (.cons (fits_literal _ h.head?_ne) (ih h.tail))

/-! ### Translations -/

/-- A format with a literal is no name. -/
theorem Separated.isNamed_interleaved {front : String} {parts : List (String × String)}
    (h : Separated front parts) : isNamed (interleaved front parts) = false := by
  cases parts with
  | nil =>
      have hnil : interleaved front [] = front := by simp [interleaved]
      rw [hnil]
      exact h.isNamed_eq front List.mem_cons_self
  | cons part parts =>
      have hquote : quote ∈ (interleaved front (part :: parts)).toList := by
        simp [toList_interleaved_cons, Token.source]
      have hnames : ∀ name ∈ namedFormats, quote ∉ name.toList := by decide
      rw [isNamed, List.contains_eq_mem, decide_eq_false_iff_not]
      exact fun hmem => hnames _ hmem hquote

/-- The letters of a format that is no name. -/
theorem unsupported_ofSource {source : String} (h : isNamed source = false) :
    (ofSource source).unsupported =
      ((tokens source.toList).filterMap Token.unsupported?).eraseDups.map Char.toString := by
  simp [ofSource, h]

/-- A literal is written as its text, percent signs doubled. -/
theorem strftime_literal {literal : String} (h : literal ≠ "") :
    (Token.literal literal.toList).strftime = escaped literal.toList := by
  have hne : literal.toList ≠ [] := by simpa using h
  rw [Token.strftime, List.isEmpty_eq_false_iff.2 hne, if_neg Bool.false_ne_true, escaped]

/-- What is written for the whole is written part by part. -/
theorem Separated.strftime_interleaved {front : String} {parts : List (String × String)}
    (h : Separated front parts) :
    (ofSource (interleaved front parts)).strftime =
      (ofSource front).strftime ++ String.join (parts.map fun part =>
        Text.onString escaped part.1 ++ (ofSource part.2).strftime) := by
  have hpart : ∀ part ∈ parts,
      (Token.literal part.1.toList :: tokens part.2.toList).flatMap Token.strftime =
        (Text.onString escaped part.1 ++ (ofSource part.2).strftime).toList := by
    intro part hmem
    have hnamed := h.isNamed_eq part.2 (List.mem_cons_of_mem _ (List.mem_map_of_mem hmem))
    rw [List.flatMap_cons, strftime_literal (h.literal_ne part hmem), String.toList_append,
      toList_strftime_ofSource hnamed, Text.onString, String.toList_ofList]
  rw [← String.toList_inj, toList_strftime_ofSource h.isNamed_interleaved,
    lexed_iff.1 (lexed_interleaved h), String.toList_append,
    toList_strftime_ofSource (h.isNamed_eq front List.mem_cons_self), String.toList_join,
    List.flatMap_append, List.flatMap_assoc, List.flatMap_map]
  congr 1
  rw [List.flatMap_def, List.flatMap_def, List.map_congr_left hpart]

/-- The letters without a counterpart are those of the texts between the literals, each once. -/
theorem Separated.unsupported_interleaved {front : String} {parts : List (String × String)}
    (h : Separated front parts) :
    (ofSource (interleaved front parts)).unsupported =
      ((front :: parts.map Prod.snd).flatMap fun text =>
        (ofSource text).unsupported).eraseDups := by
  have hletters : (tokens (interleaved front parts).toList).filterMap Token.unsupported? =
      (front :: parts.map Prod.snd).flatMap fun text =>
        (tokens text.toList).filterMap Token.unsupported? := by
    rw [lexed_iff.1 (lexed_interleaved h), List.filterMap_append, List.filterMap_flatMap,
      List.flatMap_cons, List.flatMap_map]
    rfl
  have htext : ∀ text ∈ front :: parts.map Prod.snd, (ofSource text).unsupported =
      ((tokens text.toList).filterMap Token.unsupported?).eraseDups.map Char.toString :=
    fun text hmem => unsupported_ofSource (h.isNamed_eq text hmem)
  have hinjective : Function.Injective Char.toString := by
    intro c d hcd
    simpa using hcd
  rw [unsupported_ofSource h.isNamed_interleaved, hletters, ← List.eraseDups_flatMap_eraseDups,
    ← List.eraseDups_map hinjective, List.map_flatMap, List.flatMap_def, List.flatMap_def,
    List.map_congr_left htext]

/-- **Quoted literals are opaque.** A format that is cut at its literals is translated part by part:
each text as a format of its own, and each literal as its text with percent signs doubled. The
letters without a directive are those of the texts, each once, in the order in which they first
occur. -/
theorem ofSource_interleaved {front : String} {parts : List (String × String)}
    (h : Separated front parts) :
    ofSource (interleaved front parts) =
      { strftime := (ofSource front).strftime ++ String.join (parts.map fun part =>
          Text.onString escaped part.1 ++ (ofSource part.2).strftime)
        unsupported := ((front :: parts.map Prod.snd).flatMap fun text =>
          (ofSource text).unsupported).eraseDups } := by
  rw [← h.strftime_interleaved, ← h.unsupported_interleaved]

/-- Literals with quotes and percent signs in them, and a percent sign between two of them. -/
theorem ofSource_interleaved_pairs :
    interleaved "yyyy" [("'%d'", "SZS"), ("M", "%"), ("''", "")] =
        "yyyy'''%d'''SZS'M'%''''''" ∧
      ofSource "yyyy'''%d'''SZS'M'%''''''" = ⟨"%Y'%%d'SZSM%''", ["S", "Z"]⟩ := by
  have hformat : interleaved "yyyy" [("'%d'", "SZS"), ("M", "%"), ("''", "")] =
      "yyyy'''%d'''SZS'M'%''''''" := by decide
  have hseparated : Separated "yyyy" [("'%d'", "SZS"), ("M", "%"), ("''", "")] := by
    constructor <;> decide
  refine ⟨hformat, ?_⟩
  rw [← hformat, ofSource_interleaved hseparated]
  decide +kernel

end IngestPipeline.DateFormat
