import IngestPipeline.DateFormat
import IngestPipeline.Proofs.Occurrence

/-! # The tokens of a date format

The pass over a date format takes one token after the other. This file says which token belongs at
which place without following the pass, and shows that the pass finds these tokens and no others.

* **`Token.source`**: how a token is written in a date format. Between quotes, a quote is written
  twice (`doubled`).
* **`Token.Fits t rest`**: `t` is the token in front of the text `rest`. Letter groups and literals
  are as long as possible, and a character stands for itself only where nothing else begins.
* **`Lexed ts s`**: `ts` are the tokens of `s`, each of them fitting what follows.
* **`lexed_iff`**: every text has exactly one such list, the one that `tokens` gives. -/

namespace IngestPipeline.DateFormat

/-- A text as it is written between quotes. -/
def doubled (text : List Char) : List Char :=
  text.flatMap fun c => if c = quote then [quote, quote] else [c]

/-- How a token is written in a date format. -/
def Token.source : Token → List Char
  | .group source _ => source
  | .directive text => text
  | .literal text => quote :: doubled text ++ [quote]
  | .letter c => [c]
  | .other c => [c]

/-- **A strftime directive**: a percent sign, perhaps a minus sign, and a letter or percent sign. -/
inductive IsDirective : List Char → Prop
  | padded {c : Char} (hc : c.isAlpha = true ∨ c = '%') : IsDirective ['%', c]
  | unpadded {c : Char} (hc : c.isAlpha = true ∨ c = '%') : IsDirective ['%', '-', c]

/-- **The token in front of a text.** -/
inductive Token.Fits : Token → List Char → Prop
  /-- The longest letter group of the table that stands there. -/
  | group {e : String × String} {rest : List Char} (he : e ∈ directives)
      (hlongest : ∀ e' ∈ directives, e'.1.toList <+: e.1.toList ++ rest →
        e'.1.toList.length ≤ e.1.toList.length) :
      Fits (.group e.1.toList e.2.toList) rest
  /-- A directive that is already there. -/
  | directive {text rest : List Char} (h : IsDirective text) : Fits (.directive text) rest
  /-- The longest literal that a quote closes. -/
  | literal {text rest : List Char}
      (hlongest : ∀ text' rest', doubled text ++ quote :: rest = doubled text' ++ quote :: rest' →
        text'.length ≤ text.length) :
      Fits (.literal text) rest
  /-- A letter with which no letter group of the table begins. -/
  | letter {c : Char} {rest : List Char} (hc : c.isAlpha = true)
      (hnone : ∀ e ∈ directives, ¬ e.1.toList <+: c :: rest) : Fits (.letter c) rest
  /-- Any other character with which neither a literal nor a directive begins. -/
  | other {c : Char} {rest : List Char} (hc : c.isAlpha = false)
      (hquote : c = quote → ∀ text rest', rest ≠ doubled text ++ quote :: rest')
      (hpercent : c = '%' → ∀ text, IsDirective text → ¬ text <+: c :: rest) :
      Fits (.other c) rest

/-- **The tokens of a text**, each fitting the text behind it. -/
inductive Lexed : List Token → List Char → Prop
  | nil : Lexed [] []
  | cons {t : Token} {ts : List Token} {rest : List Char} (hfits : t.Fits rest)
      (h : Lexed ts rest) : Lexed (t :: ts) (t.source ++ rest)

/-! ### Literals -/

/-- Quotes are doubled, one by one. -/
theorem doubled_cons (c : Char) (text : List Char) :
    doubled (c :: text) = (if c = quote then [quote, quote] else [c]) ++ doubled text :=
  List.flatMap_cons

/-- A quote is doubled. -/
@[simp] theorem doubled_quote_cons (text : List Char) :
    doubled (quote :: text) = quote :: quote :: doubled text := by
  rw [doubled_cons, if_pos rfl]
  rfl

/-- Any other character stays as it is. -/
@[simp] theorem doubled_cons_of_ne {c : Char} (hc : c ≠ quote) (text : List Char) :
    doubled (c :: text) = c :: doubled text := by
  rw [doubled_cons, if_neg hc]
  rfl

/-- What a literal has behind its first character, by that character. -/
theorem eq_doubled_append_cases {c : Char} {s text rest : List Char}
    (h : c :: s = doubled text ++ quote :: rest) :
    (text = [] ∧ c = quote ∧ s = rest) ∨
    (∃ text', text = quote :: text' ∧ c = quote ∧ s = quote :: (doubled text' ++ quote :: rest)) ∨
    ∃ text', text = c :: text' ∧ c ≠ quote ∧ s = doubled text' ++ quote :: rest := by
  cases text with
  | nil =>
      obtain ⟨hc, hs⟩ := List.cons.inj h
      exact .inl ⟨rfl, hc, hs⟩
  | cons d text =>
      by_cases hd : d = quote
      · subst hd
        rw [doubled_quote_cons] at h
        obtain ⟨hc, hs⟩ := List.cons.inj h
        exact .inr (.inl ⟨text, rfl, hc, hs⟩)
      · rw [doubled_cons_of_ne hd] at h
        obtain ⟨rfl, hs⟩ := List.cons.inj h
        exact .inr (.inr ⟨text, rfl, hd, hs⟩)

/-- Of two literals that begin alike, the shorter is the beginning of the longer. -/
theorem isPrefix_of_doubled_append {text text' rest rest' : List Char}
    (hlen : text.length ≤ text'.length)
    (h : doubled text ++ quote :: rest = doubled text' ++ quote :: rest') : text <+: text' := by
  induction text generalizing text' with
  | nil => exact List.nil_prefix
  | cons c text ih =>
      obtain ⟨d, text', rfl⟩ := List.exists_cons_of_length_pos (Nat.lt_of_lt_of_le
        (Nat.succ_pos _) hlen)
      have hlen' : text.length ≤ text'.length := by simpa using hlen
      by_cases hc : c = quote <;> by_cases hd : d = quote
      · subst hc hd
        simp only [doubled_quote_cons, List.cons_append, List.cons.injEq, true_and] at h
        exact List.cons_prefix_cons.2 ⟨rfl, ih hlen' h⟩
      · rw [hc, doubled_quote_cons, doubled_cons_of_ne hd] at h
        exact absurd (List.cons.inj h).1.symm hd
      · rw [hd, doubled_quote_cons, doubled_cons_of_ne hc] at h
        exact absurd (List.cons.inj h).1 hc
      · rw [doubled_cons_of_ne hc, doubled_cons_of_ne hd] at h
        obtain ⟨rfl, htail⟩ := List.cons.inj h
        exact List.cons_prefix_cons.2 ⟨rfl, ih hlen' htail⟩

/-- Two readings of a literal of one length are the same. -/
theorem doubled_append_inj {text text' rest rest' : List Char}
    (hlen : text.length = text'.length)
    (h : doubled text ++ quote :: rest = doubled text' ++ quote :: rest') :
    text = text' ∧ rest = rest' := by
  obtain rfl := (isPrefix_of_doubled_append (Nat.le_of_eq hlen) h).eq_of_length hlen
  exact ⟨rfl, (List.cons.inj (List.append_cancel_left h)).2⟩

/-- A literal that is found is written in the text. -/
theorem eq_doubled_of_literal? {s text rest : List Char} (h : literal? s = some (text, rest)) :
    s = doubled text ++ quote :: rest := by
  fun_induction literal? s generalizing text rest with
  | case1 => cases h
  | case2 s' text' rest' hs ih =>
      cases h
      rw [doubled_quote_cons, ih hs]
      rfl
  | case3 => cases h; rfl
  | case4 => cases h; rfl
  | case5 => cases h; rfl
  | case6 c s hc ih =>
      obtain ⟨parts, hp, he⟩ := Option.map_eq_some_iff.1 h
      cases he
      rw [doubled_cons_of_ne hc, List.cons_append, ← ih hp]

/-- A quote that a later quote can close begins a literal. -/
theorem isSome_literal? {s : List Char} (h : quote ∈ s) : (literal? s).isSome = true := by
  fun_induction literal? s with
  | case1 => cases h
  | case2 => rfl
  | case3 => rfl
  | case4 => rfl
  | case5 => rfl
  | case6 c s hc ih =>
      rw [Option.isSome_map]
      exact ih ((List.mem_cons.1 h).resolve_left (Ne.symm hc))

/-- There is no literal where no quote ends a doubled text. -/
theorem literal?_eq_none_iff {s : List Char} :
    literal? s = none ↔ ∀ text rest, s ≠ doubled text ++ quote :: rest := by
  constructor
  · rintro h text rest rfl
    have hsome : (literal? (doubled text ++ quote :: rest)).isSome = true :=
      isSome_literal? (by simp)
    rw [h] at hsome
    cases hsome
  · intro h
    cases hs : literal? s with
    | none => rfl
    | some parts => exact absurd (eq_doubled_of_literal? hs) (h parts.1 parts.2)

/-- **The pass takes the longest literal.** -/
theorem length_le_of_literal? {s text rest text' rest' : List Char}
    (h : literal? s = some (text, rest)) (h' : s = doubled text' ++ quote :: rest') :
    text'.length ≤ text.length := by
  -- both literals begin alike, so at each character they go on or end together
  fun_induction literal? s generalizing text rest text' with
  | case1 => cases h
  | case2 s' found rest hs ih =>
      cases h
      obtain ⟨rfl, -, -⟩ | ⟨inner, rfl, -, hin⟩ | ⟨_, -, hc, -⟩ := eq_doubled_append_cases h'
      · exact Nat.zero_le _
      · exact Nat.succ_le_succ (ih hs (List.cons.inj hin).2)
      · exact absurd rfl hc
  | case3 s' hs ih =>
      cases h
      obtain ⟨rfl, -, -⟩ | ⟨inner, rfl, -, hin⟩ | ⟨_, -, hc, -⟩ := eq_doubled_append_cases h'
      · exact Nat.le_refl _
      · exact absurd (List.cons.inj hin).2 (literal?_eq_none_iff.1 hs inner rest')
      · exact absurd rfl hc
  | case4 d s' hd =>
      cases h
      obtain ⟨rfl, -, -⟩ | ⟨inner, rfl, -, hin⟩ | ⟨_, -, hc, -⟩ := eq_doubled_append_cases h'
      · exact Nat.le_refl _
      · exact absurd (List.cons.inj hin).1 hd
      · exact absurd rfl hc
  | case5 =>
      cases h
      obtain ⟨rfl, -, -⟩ | ⟨inner, rfl, -, hin⟩ | ⟨_, -, hc, -⟩ := eq_doubled_append_cases h'
      · exact Nat.le_refl _
      · cases hin
      · exact absurd rfl hc
  | case6 c s hc ih =>
      obtain ⟨parts, hp, he⟩ := Option.map_eq_some_iff.1 h
      cases he
      obtain ⟨-, hq, -⟩ | ⟨_, -, hq, -⟩ | ⟨inner, rfl, -, hin⟩ := eq_doubled_append_cases h'
      · exact absurd hq hc
      · exact absurd hq hc
      · exact Nat.succ_le_succ (ih hp hin)

/-- The literal that is read is the longest: up to the last quote that ends a doubled text. -/
theorem literal?_eq_some_iff {s text rest : List Char} :
    literal? s = some (text, rest) ↔ s = doubled text ++ quote :: rest ∧
      ∀ text' rest', s = doubled text' ++ quote :: rest' → text'.length ≤ text.length := by
  constructor
  · intro h
    exact ⟨eq_doubled_of_literal? h, fun text' rest' => length_le_of_literal? h⟩
  · rintro ⟨hs, hlongest⟩
    cases hfound : literal? s with
    | none => exact absurd hs (literal?_eq_none_iff.1 hfound text rest)
    | some parts =>
        have hparts := eq_doubled_of_literal? hfound
        have hlen : text.length = parts.1.length :=
          Nat.le_antisymm (length_le_of_literal? hfound hs) (hlongest _ _ hparts)
        obtain ⟨rfl, rfl⟩ := doubled_append_inj hlen (hs.symm.trans hparts)
        rfl

/-! ### Directives and letter groups -/

/-- A directive begins with a percent sign. -/
theorem IsDirective.exists_eq_cons {text : List Char} (h : IsDirective text) :
    ∃ inner, text = '%' :: inner := by
  cases h <;> exact ⟨_, rfl⟩

/-- Behind a percent sign, a directive is read as far as it goes. -/
theorem directive?_eq_some_iff {s text rest : List Char} :
    directive? s = some (text, rest) ↔ IsDirective ('%' :: text) ∧ s = text ++ rest := by
  constructor
  · intro h
    unfold directive? at h
    split at h
    · split at h
      · rename_i hc
        cases h
        exact ⟨.unpadded (by simpa using hc), rfl⟩
      · cases h
    · split at h
      · rename_i hc
        cases h
        exact ⟨.padded (by simpa using hc), rfl⟩
      · cases h
    · cases h
  · rintro ⟨hdirective, rfl⟩
    cases hdirective with
    | padded hc =>
        -- the reader tries the form with a minus sign first
        rename_i c
        have hminus : c ≠ '-' := by
          rintro rfl
          revert hc
          decide
        have hc' : (c.isAlpha || decide (c = '%')) = true := by simpa using hc
        unfold directive?
        split
        · rename_i heq
          exact absurd (List.cons.inj heq).1 hminus
        · rename_i heq
          obtain ⟨rfl, rfl⟩ := List.cons.inj heq
          rw [if_pos hc']
          rfl
        · rename_i heq
          cases heq
    | unpadded hc =>
        simp only [directive?, List.cons_append, List.nil_append]
        rw [if_pos (by simpa using hc)]

/-- Nothing is read where no directive begins. -/
theorem directive?_eq_none_iff {s : List Char} :
    directive? s = none ↔ ∀ text, IsDirective text → ¬ text <+: '%' :: s := by
  constructor
  · rintro h text hdirective ⟨rest, hrest⟩
    obtain ⟨inner, rfl⟩ := hdirective.exists_eq_cons
    have hfound := directive?_eq_some_iff.2 ⟨hdirective, (List.cons.inj hrest).2.symm⟩
    rw [h] at hfound
    cases hfound
  · intro h
    cases hs : directive? s with
    | none => rfl
    | some parts =>
        obtain ⟨hdirective, hs⟩ := directive?_eq_some_iff.1 hs
        exact absurd ⟨parts.2, by rw [hs]; rfl⟩ (h _ hdirective)

/-- A letter group of the table consists of letters, at least one. -/
theorem isAlpha_of_mem_directives {e : String × String} (he : e ∈ directives) :
    e.1.toList ≠ [] ∧ ∀ c ∈ e.1.toList, c.isAlpha = true := by
  have htable : directives.all (fun e => !e.1.toList.isEmpty && e.1.toList.all Char.isAlpha) =
      true := by decide
  simpa using List.all_eq_true.1 htable e he

/-- Two groups of the table at one place: the one that stands before the other in the table is at
least as long. -/
theorem pairwise_directives :
    directives.Pairwise fun e e' =>
      e.1.toList.head? = e'.1.toList.head? → e'.1.toList.length ≤ e.1.toList.length := by
  decide

/-- No two entries of the table have the same group. -/
theorem directives_fst_inj {e e' : String × String} (he : e ∈ directives) (he' : e' ∈ directives)
    (h : e.1.toList = e'.1.toList) : e = e' := by
  have hall : ∀ a ∈ directives, ∀ b ∈ directives, a.1.toList = b.1.toList → a = b := by decide
  exact hall e he e' he' h

/-- The groups that begin a text begin with the same letter. -/
theorem head?_eq_of_isPrefix {a b s : List Char} (ha : a ≠ []) (hb : b ≠ []) (has : a <+: s)
    (hbs : b <+: s) : a.head? = b.head? := by
  obtain ⟨c, a, rfl⟩ := List.exists_cons_of_ne_nil ha
  obtain ⟨d, b, rfl⟩ := List.exists_cons_of_ne_nil hb
  obtain ⟨u, rfl⟩ := has
  obtain ⟨rfl, -⟩ := List.cons_prefix_cons.1 hbs
  rfl

/-- No group is read where none of the table begins. -/
theorem group?_eq_none_iff {s : List Char} :
    group? s = none ↔ ∀ e ∈ directives, ¬ e.1.toList <+: s := by
  rw [group?, List.findSome?_eq_none_iff]
  simp only [Option.map_eq_none_iff, Text.after?_eq_none_iff]

/-- **The pass takes the longest letter group.** -/
theorem of_group?_eq_some {s rest : List Char} {t : Token} (h : group? s = some (t, rest)) :
    ∃ e ∈ directives, t = .group e.1.toList e.2.toList ∧ s = e.1.toList ++ rest ∧
      ∀ e' ∈ directives, e'.1.toList <+: s → e'.1.toList.length ≤ e.1.toList.length := by
  obtain ⟨before, e, after, htable, hfound, hbefore⟩ := List.findSome?_eq_some_iff.1 h
  obtain ⟨rest', hrest, heq⟩ := Option.map_eq_some_iff.1 hfound
  cases heq
  have he : e ∈ directives := by simp [htable]
  have hs := Text.after?_eq_some_iff.1 hrest
  refine ⟨e, he, rfl, hs, ?_⟩
  intro e' he' hp
  have hhead := head?_eq_of_isPrefix (isAlpha_of_mem_directives he).1
    (isAlpha_of_mem_directives he').1 ⟨rest, hs.symm⟩ hp
  -- an entry before this one does not begin the text, and one behind it is no longer
  rw [htable, List.mem_append, List.mem_cons] at he'
  rcases he' with hmem | rfl | hmem
  · have hnone := Option.map_eq_none_iff.1 (hbefore e' hmem)
    exact absurd hp (Text.after?_eq_none_iff.1 hnone)
  · exact Nat.le_refl _
  · have hpairs := pairwise_directives
    rw [htable, List.pairwise_append, List.pairwise_cons] at hpairs
    exact hpairs.2.1.1 e' hmem hhead

/-- A group is read where none that is longer begins. -/
theorem group?_eq_some {e : String × String} {rest : List Char} (he : e ∈ directives)
    (hlongest : ∀ e' ∈ directives, e'.1.toList <+: e.1.toList ++ rest →
      e'.1.toList.length ≤ e.1.toList.length) :
    group? (e.1.toList ++ rest) = some (.group e.1.toList e.2.toList, rest) := by
  have hprefix : e.1.toList <+: e.1.toList ++ rest := List.prefix_append _ _
  cases hfound : group? (e.1.toList ++ rest) with
  | none => exact absurd hprefix (group?_eq_none_iff.1 hfound e he)
  | some parts =>
      obtain ⟨t, rest'⟩ := parts
      obtain ⟨e', he', rfl, hs, hlongest'⟩ := of_group?_eq_some hfound
      have hprefix' : e'.1.toList <+: e.1.toList ++ rest := ⟨rest', hs.symm⟩
      have hlen := Nat.le_antisymm (hlongest' e he hprefix) (hlongest e' he' hprefix')
      obtain ⟨hsource, rfl⟩ := List.append_inj hs hlen
      obtain rfl := directives_fst_inj he he' hsource
      rfl

/-! ### The pass -/

/-- A token is written with at least one character. -/
theorem Token.Fits.source_ne_nil {t : Token} {rest : List Char} (h : t.Fits rest) :
    t.source ≠ [] := by
  cases h with
  | group he _ => exact (isAlpha_of_mem_directives he).1
  | directive h => cases h <;> exact List.cons_ne_nil _ _
  | literal _ => exact List.cons_ne_nil _ _
  | letter _ _ => exact List.cons_ne_nil _ _
  | other _ _ _ => exact List.cons_ne_nil _ _

/-- A quote is no letter. -/
@[simp] theorem isAlpha_quote : quote.isAlpha = false := by decide

/-- A quote is no percent sign. -/
@[simp] theorem quote_ne_percent : quote ≠ '%' := by decide

/-- **One step finds a token that fits.** -/
theorem fits_next (c : Char) (s : List Char) :
    c :: s = (Token.next c s).1.source ++ (Token.next c s).2 ∧
      (Token.next c s).1.Fits (Token.next c s).2 := by
  -- the tests of the step, in its order: quote, percent sign, letter
  unfold Token.next
  by_cases hq : c = quote
  · subst hq
    rw [if_pos rfl]
    cases hl : literal? s with
    | some parts =>
        obtain ⟨text, rest⟩ := parts
        obtain ⟨hs, hlongest⟩ := literal?_eq_some_iff.1 hl
        refine ⟨by simp [Token.source, hs], .literal fun text' rest' h => ?_⟩
        exact hlongest text' rest' (hs.trans h)
    | none =>
        refine ⟨rfl, .other isAlpha_quote (fun _ => literal?_eq_none_iff.1 hl) ?_⟩
        exact fun h => absurd h quote_ne_percent
  rw [if_neg hq]
  by_cases hp : c = '%'
  · subst hp
    rw [if_pos rfl]
    cases hd : directive? s with
    | some parts =>
        obtain ⟨hdirective, hs⟩ := directive?_eq_some_iff.1 hd
        exact ⟨by simp [Token.source, hs], .directive hdirective⟩
    | none =>
        refine ⟨rfl, .other (by decide) (fun h => absurd h hq) ?_⟩
        exact fun _ => directive?_eq_none_iff.1 hd
  rw [if_neg hp]
  cases halpha : c.isAlpha with
  | false => exact ⟨rfl, .other halpha (fun h => absurd h hq) fun h => absurd h hp⟩
  | true =>
      cases hg : group? (c :: s) with
      | none => exact ⟨rfl, .letter halpha (group?_eq_none_iff.1 hg)⟩
      | some parts =>
          obtain ⟨t, rest⟩ := parts
          obtain ⟨e, he, rfl, hs, hlongest⟩ := of_group?_eq_some hg
          refine ⟨hs, .group he fun e' he' hprefix => ?_⟩
          exact hlongest e' he' (hs ▸ hprefix)

/-- A letter differs from what is no letter. -/
theorem ne_of_isAlpha {c d : Char} (hc : c.isAlpha = true) (hd : d.isAlpha = false) : c ≠ d := by
  rintro rfl
  rw [hc] at hd
  cases hd

/-- At a letter, a group of the table is read, or else the letter alone. -/
theorem next_of_isAlpha {c : Char} (hc : c.isAlpha = true) (s : List Char) :
    Token.next c s = (group? (c :: s)).getD (.letter c, s) := by
  rw [Token.next, if_neg (ne_of_isAlpha hc isAlpha_quote), if_neg (ne_of_isAlpha hc (by decide)),
    if_pos hc]

/-- **A token that fits is found.** -/
theorem next_of_fits {c : Char} {s rest : List Char} {t : Token} (h : t.Fits rest)
    (hs : c :: s = t.source ++ rest) : Token.next c s = (t, rest) := by
  cases h with
  | @group e _ he hlongest =>
      -- a group begins with a letter, so none of the other tokens is tried
      have halpha : c.isAlpha = true := by
        obtain ⟨hne, hall⟩ := isAlpha_of_mem_directives he
        obtain ⟨d, source, hsource⟩ := List.exists_cons_of_ne_nil hne
        rw [Token.source, hsource] at hs
        obtain ⟨rfl, -⟩ := List.cons.inj hs
        exact hall c (by simp [hsource])
      rw [next_of_isAlpha halpha, hs, Token.source, group?_eq_some he hlongest]
      rfl
  | @directive text _ hdirective =>
      obtain ⟨inner, rfl⟩ := hdirective.exists_eq_cons
      obtain ⟨rfl, hrest⟩ := List.cons.inj hs
      have hfound := directive?_eq_some_iff.2 ⟨hdirective, hrest⟩
      rw [Token.next, if_neg quote_ne_percent.symm, if_pos rfl, hfound]
  | @literal text _ hlongest =>
      have hs' : c :: s = quote :: (doubled text ++ quote :: rest) := by
        simpa [Token.source] using hs
      obtain ⟨rfl, hrest⟩ := List.cons.inj hs'
      have hfound := literal?_eq_some_iff.2 ⟨hrest, fun text' rest' h =>
        hlongest text' rest' (hrest.symm.trans h)⟩
      rw [Token.next, if_pos rfl, hfound]
  | letter hc hnone =>
      obtain ⟨rfl, rfl⟩ := List.cons.inj hs
      rw [next_of_isAlpha hc, group?_eq_none_iff.2 hnone]
      rfl
  | other hc hquote hpercent =>
      obtain ⟨rfl, rfl⟩ := List.cons.inj hs
      rw [Token.next]
      by_cases hq : c = quote
      · rw [if_pos hq, literal?_eq_none_iff.2 (hquote hq)]
      rw [if_neg hq]
      by_cases hp : c = '%'
      · subst hp
        rw [if_pos rfl, directive?_eq_none_iff.2 (hpercent rfl)]
      · rw [if_neg hp, hc]
        rfl

/-- The pass cuts every text into tokens that fit. -/
theorem lexed_tokens (s : List Char) : Lexed (tokens s) s := by
  fun_induction tokens s with
  | case1 => exact .nil
  | case2 c s ih =>
      obtain ⟨hs, hfits⟩ := fits_next c s
      rw [hs]
      exact .cons hfits ih

/-- **The tokens of a text are determined**: they are the ones that the pass finds. -/
theorem lexed_iff {ts : List Token} {s : List Char} : Lexed ts s ↔ tokens s = ts := by
  constructor
  · intro h
    induction h with
    | nil => rw [tokens]
    | @cons t ts rest hfits _ ih =>
        -- a token is not empty, so the pass takes a step here, and the step finds this token
        obtain ⟨c, s, hs⟩ := List.exists_cons_of_ne_nil
          (List.append_ne_nil_of_left_ne_nil hfits.source_ne_nil rest)
        rw [hs, tokens, next_of_fits hfits hs.symm, ih]
  · rintro rfl
    exact lexed_tokens s

/-- Nothing of a text is lost in its tokens. -/
theorem Lexed.flatMap_source {ts : List Token} {s : List Char} (h : Lexed ts s) :
    ts.flatMap Token.source = s := by
  induction h with
  | nil => rfl
  | cons _ _ ih => rw [List.flatMap_cons, ih]

end IngestPipeline.DateFormat
