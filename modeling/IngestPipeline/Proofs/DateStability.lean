import IngestPipeline.Proofs.DateReading
import Mathlib.Algebra.Order.BigOperators.Group.List
import Mathlib.Algebra.Order.Group.Nat

/-! # Translating a date format twice

A strftime text can be taken for a date format again. This file says which texts stay as they are
when they are translated, and so when translating twice is translating once.

* **`Token.isCopied`**: the tokens that are copied. All others change the number of quotes or of
  percent signs, so that a text stays as it is only if all its tokens are copied.
* **`Settled`**: at most one quote, and no letter group of the table outside of directives.
* **`strftime_ofSource_eq_self_iff`**: the settled texts and the names are the ones that stay.
* **`Lexed.settle`**: without quotes, the translation of a format has the tokens of the format, with
  directives in the place of letter groups.
* **`strftime_idempotent_iff`**: translating twice is translating once exactly if the first
  translation is a name or settled, as it is for every format without quotes. -/

namespace IngestPipeline.DateFormat

/-! ### Tokens that are copied -/

/-- Whether a token is written in strftime notation as in a date format. -/
def Token.isCopied : Token → Bool
  | .group _ _ | .literal _ => false
  | _ => true

/-- A copied token becomes its own source. -/
@[simp] theorem Token.strftime_eq_source {t : Token} (h : t.isCopied = true) :
    t.strftime = t.source := by
  cases t with
  | group _ _ => cases h
  | literal _ => cases h
  | _ => rfl

/-- Each token of a text fits in front of what follows it. -/
theorem Lexed.exists_fits {ts : List Token} {s : List Char} (h : Lexed ts s) {t : Token}
    (ht : t ∈ ts) : ∃ rest, t.Fits rest := by
  induction h with
  | nil => cases ht
  | cons hfits _ ih =>
      rcases List.mem_cons.1 ht with rfl | ht
      · exact ⟨_, hfits⟩
      · exact ih ht

/-- Doubling the quotes doubles their number. -/
@[simp] theorem count_quote_doubled (text : List Char) :
    (doubled text).count quote = 2 * text.count quote := by
  induction text with
  | nil => rfl
  | cons c text ih =>
      by_cases hc : c = quote
      · simp only [hc, doubled_quote_cons, List.count_cons_self, ih]
        omega
      · simp [hc, ih]

/-- A literal loses quotes. -/
theorem count_quote_literal_lt (text : List Char) :
    (Token.literal text).strftime.count quote < (Token.literal text).source.count quote := by
  have hsource : (Token.literal text).source.count quote = 2 + 2 * text.count quote := by
    rw [Token.source, List.count_append, List.count_cons_self, count_quote_doubled]
    simp
    omega
  have hescaped : (escaped text).count quote ≤ text.count quote :=
    Text.count_replace_le _ (List.cons_ne_nil _ _) (by decide) text
  rw [hsource, Token.strftime]
  split
  · simp
    omega
  · exact Nat.lt_of_le_of_lt hescaped (by omega)

/-- No token gains quotes. -/
theorem Token.Fits.count_quote_le {t : Token} {rest : List Char} (h : t.Fits rest) :
    t.strftime.count quote ≤ t.source.count quote := by
  cases h with
  | group he _ =>
      have hnone : ∀ e ∈ directives, e.2.toList.count quote = 0 := by decide
      rw [Token.strftime, hnone _ he]
      exact Nat.zero_le _
  | literal _ => exact Nat.le_of_lt (count_quote_literal_lt _)
  | directive _ => exact Nat.le_refl _
  | letter _ _ => exact Nat.le_refl _
  | other _ _ _ => exact Nat.le_refl _

/-- A letter group gains a percent sign. -/
theorem count_percent_group_lt {e : String × String} (he : e ∈ directives) :
    (Token.group e.1.toList e.2.toList).source.count '%' <
      (Token.group e.1.toList e.2.toList).strftime.count '%' := by
  have hall : ∀ e ∈ directives, e.1.toList.count '%' < e.2.toList.count '%' := by decide
  exact hall e he

/-- Apart from literals, no token loses percent signs. -/
theorem Token.Fits.count_percent_le {t : Token} {rest : List Char} (h : t.Fits rest)
    (hliteral : ∀ text, t ≠ .literal text) : t.source.count '%' ≤ t.strftime.count '%' := by
  cases h with
  | group he _ => exact Nat.le_of_lt (count_percent_group_lt he)
  | literal _ => exact absurd rfl (hliteral _)
  | directive _ => exact Nat.le_refl _
  | letter _ _ => exact Nat.le_refl _
  | other _ _ _ => exact Nat.le_refl _

/-- **A text stays as it is** exactly if all its tokens are copied. -/
theorem Lexed.flatMap_strftime_eq_iff {ts : List Token} {s : List Char} (h : Lexed ts s) :
    ts.flatMap Token.strftime = s ↔ ∀ t ∈ ts, t.isCopied = true := by
  constructor
  · intro heq
    have hsame : ts.flatMap Token.strftime = ts.flatMap Token.source := by
      rw [heq, h.flatMap_source]
    -- no token gains quotes, so one that loses some cannot be made up for
    have hliteral : ∀ text, .literal text ∉ ts := by
      intro text hmem
      have hlt := List.sum_lt_sum (fun t : Token => t.strftime.count quote)
        (fun t => t.source.count quote)
        (fun t ht => (h.exists_fits ht).choose_spec.count_quote_le)
        ⟨_, hmem, count_quote_literal_lt text⟩
      have hcount := congrArg (List.count quote) hsame
      rw [List.count_flatMap, List.count_flatMap] at hcount
      exact absurd hcount (Nat.ne_of_lt hlt)
    -- without literals no token loses percent signs, so the same holds the other way round
    have hgroup : ∀ e ∈ directives, .group e.1.toList e.2.toList ∉ ts := by
      intro e he hmem
      have hlt := List.sum_lt_sum (fun t : Token => t.source.count '%')
        (fun t => t.strftime.count '%')
        (fun t ht => (h.exists_fits ht).choose_spec.count_percent_le
          fun text heq => hliteral text (heq ▸ ht))
        ⟨_, hmem, count_percent_group_lt he⟩
      have hcount := congrArg (List.count '%') hsame
      rw [List.count_flatMap, List.count_flatMap] at hcount
      exact absurd hcount.symm (Nat.ne_of_lt hlt)
    intro t ht
    obtain ⟨rest, hfits⟩ := h.exists_fits ht
    cases hfits with
    | group he _ => exact absurd ht (hgroup _ he)
    | literal _ => exact absurd ht (hliteral _)
    | directive _ => rfl
    | letter _ _ => rfl
    | other _ _ _ => rfl
  · intro hcopied
    rw [← h.flatMap_source]
    exact List.flatMap_congr fun t ht => Token.strftime_eq_source (hcopied t ht)

/-! ### Settled texts -/

/-- **A settled text**: it has at most one quote, so that no literal can be closed in it, and no
letter group of the table stands in it outside of directives. -/
def Settled (s : List Char) : Prop :=
  s.count quote ≤ 1 ∧ ∀ e ∈ directives, ¬ e.1.toList.map .char <:+: Strftime.read s

/-- A percent sign that begins no directive is read as itself. -/
theorem read_percent_cons {s : List Char} (h : ∀ text, IsDirective text → ¬ text <+: '%' :: s) :
    Strftime.read ('%' :: s) = .char '%' :: Strftime.read s := by
  cases s with
  | nil => rfl
  | cons c s =>
      have hpadded : ¬ (c.isAlpha = true ∨ c = '%') := fun hc => h _ (.padded hc) ⟨s, rfl⟩
      rw [not_or] at hpadded
      by_cases hminus : ∃ d s', c = '-' ∧ s = d :: s'
      · obtain ⟨d, s', rfl, rfl⟩ := hminus
        have hd : ¬ (d.isAlpha || decide (d = '%')) = true := by
          intro hd
          exact h _ (.unpadded (by simpa using hd)) ⟨s', rfl⟩
        rw [Strftime.read.eq_3, if_neg hd]
      · rw [Strftime.read.eq_4 c s hpadded.2 fun d s' hc hs => hminus ⟨d, s', hc, hs⟩,
          if_neg hpadded.1]

/-- The source of a token that is copied is read as what the token stands for. -/
theorem Token.Fits.read_source_append {t : Token} {rest : List Char} (h : t.Fits rest)
    (hcopied : t.isCopied = true) :
    Strftime.read (t.source ++ rest) = t.items ++ Strftime.read rest := by
  by_cases hpercent : t = .other '%'
  · subst hpercent
    cases h with
    | other _ _ hnone => exact read_percent_cons (hnone rfl)
  · rw [← Token.strftime_eq_source hcopied]
    exact h.read_strftime_append hpercent rest

/-- Letters are read as themselves. -/
@[simp] theorem read_letters_append {w : List Char} (hw : ∀ c ∈ w, c.isAlpha = true)
    (s : List Char) : Strftime.read (w ++ s) = w.map .char ++ Strftime.read s := by
  induction w with
  | nil => rfl
  | cons c w ih =>
      have hc : c ≠ '%' := ne_of_isAlpha (hw c List.mem_cons_self) (by decide)
      rw [List.cons_append, Strftime.read_cons_of_ne hc,
        ih fun d hd => hw d (List.mem_cons_of_mem c hd)]
      rfl

/-- A percent sign is read as itself or as a directive. -/
theorem head?_read_percent_cons (s : List Char) :
    (Strftime.read ('%' :: s)).head? = some (.char '%') ∨
      ∃ text, (Strftime.read ('%' :: s)).head? = some (.directive text) := by
  rw [Strftime.read.eq_def]
  split
  · rename_i heq
    cases heq
  · exact .inl rfl
  · split
    · exact .inr ⟨_, rfl⟩
    · exact .inl rfl
  · split
    · exact .inr ⟨_, rfl⟩
    · exact .inl rfl
  · rename_i heq
    obtain ⟨rfl, -⟩ := List.cons.inj heq
    exact .inl rfl

/-- **Letters that are read** stand in the text. -/
theorem isPrefix_of_read {w : List Char} (hw : ∀ c ∈ w, c.isAlpha = true) {s : List Char}
    (h : w.map .char <+: Strftime.read s) : w <+: s := by
  induction w generalizing s with
  | nil => exact List.nil_prefix
  | cons c w ih =>
      rw [List.map_cons] at h
      have hc := hw c List.mem_cons_self
      cases s with
      | nil => cases List.prefix_nil.1 h
      | cons d s =>
          by_cases hd : d = '%'
          · subst hd
            obtain ⟨is, his⟩ := h
            have hhead := head?_read_percent_cons s
            rw [← his] at hhead
            obtain heq | ⟨text, heq⟩ := hhead
            · cases heq
              exact absurd hc (by decide)
            · cases heq
          · rw [Strftime.read_cons_of_ne hd] at h
            obtain ⟨hcd, htail⟩ := List.cons_prefix_cons.1 h
            cases hcd
            exact List.cons_prefix_cons.2
              ⟨rfl, ih (fun e he => hw e (List.mem_cons_of_mem c he)) htail⟩

/-- A quote that stands alone is the last one. -/
theorem quote_notMem_of_fits {rest : List Char} (h : (Token.other quote).Fits rest) :
    quote ∉ rest := by
  cases h with
  | other _ hquote _ =>
      intro hmem
      have hsome := isSome_literal? hmem
      rw [literal?_eq_none_iff.2 (hquote rfl)] at hsome
      cases hsome

/-- The other tokens that are copied have no quote. -/
theorem Token.Fits.quote_notMem_source {t : Token} {rest : List Char} (h : t.Fits rest)
    (hcopied : t.isCopied = true) (hquote : t ≠ .other quote) : quote ∉ t.source := by
  cases h with
  | group _ _ => cases hcopied
  | literal _ => cases hcopied
  | directive hdirective =>
      rw [Token.source]
      rintro hmem
      cases hdirective with
      | padded hc =>
          have hlast := (List.mem_cons.1 hmem).resolve_left quote_ne_percent
          rw [← List.mem_singleton.1 hlast] at hc
          revert hc
          decide
      | unpadded hc =>
          have hrest := (List.mem_cons.1 hmem).resolve_left quote_ne_percent
          have hlast := (List.mem_cons.1 hrest).resolve_left (by decide)
          rw [← List.mem_singleton.1 hlast] at hc
          revert hc
          decide
  | letter hc _ =>
      intro hmem
      exact ne_of_isAlpha hc isAlpha_quote (List.mem_singleton.1 hmem).symm
  | other _ _ _ =>
      intro hmem
      rw [← List.mem_singleton.1 hmem] at hquote
      exact hquote rfl

/-- A text without literals has at most one quote. -/
theorem Lexed.count_quote_le_one {ts : List Token} {s : List Char} (h : Lexed ts s)
    (hcopied : ∀ t ∈ ts, t.isCopied = true) : s.count quote ≤ 1 := by
  induction h with
  | nil => exact Nat.zero_le _
  | @cons t ts rest hfits _ ih =>
      rw [List.forall_mem_cons] at hcopied
      rw [List.count_append]
      by_cases hquote : t = .other quote
      · subst hquote
        rw [List.count_eq_zero.2 (quote_notMem_of_fits hfits)]
        exact Nat.le_of_eq (List.count_singleton_self (a := quote))
      · rw [List.count_eq_zero.2 (hfits.quote_notMem_source hcopied.1 hquote), Nat.zero_add]
        exact ih hcopied.2

/-- A letter group that stands before a token that is copied does not begin with it. -/
theorem Token.Fits.not_isPrefix_source_append {t : Token} {rest : List Char} (h : t.Fits rest)
    (hcopied : t.isCopied = true) {e : String × String} (he : e ∈ directives) :
    ¬ e.1.toList <+: t.source ++ rest := by
  intro hp
  obtain ⟨hne, halpha⟩ := isAlpha_of_mem_directives he
  obtain ⟨c, w, hw⟩ := List.exists_cons_of_ne_nil hne
  have hc : c.isAlpha = true := halpha c (by simp [hw])
  cases h with
  | group _ _ => cases hcopied
  | literal _ => cases hcopied
  | directive hdirective =>
      rw [hw] at hp
      cases hdirective <;>
      · obtain ⟨rfl, -⟩ := List.cons_prefix_cons.1 hp
        exact absurd hc (by decide)
  | letter _ hnone => exact hnone e he hp
  | other hother _ _ =>
      rw [hw] at hp
      obtain ⟨rfl, -⟩ := List.cons_prefix_cons.1 hp
      exact ne_of_isAlpha hc hother rfl

/-- **A text is settled** exactly if all its tokens are copied. -/
theorem Lexed.settled_iff {ts : List Token} {s : List Char} (h : Lexed ts s) :
    Settled s ↔ ∀ t ∈ ts, t.isCopied = true := by
  constructor
  · rintro ⟨hcount, hnone⟩
    induction h with
    | nil => exact List.forall_mem_nil _
    | @cons t ts rest hfits hrest ih =>
        have hcopied : t.isCopied = true := by
          cases hfits with
          | @group e _ he _ =>
              -- the group is read letter by letter
              refine absurd ?_ (hnone e he)
              rw [Token.source, read_letters_append (isAlpha_of_mem_directives he).2]
              exact (List.prefix_append _ _).isInfix
          | literal _ =>
              rw [Token.source, List.cons_append, List.cons_append, List.count_cons_self,
                List.count_append, List.count_append] at hcount
              simp at hcount
          | directive _ => rfl
          | letter _ _ => rfl
          | other _ _ _ => rfl
        refine List.forall_mem_cons.2 ⟨hcopied, ih ?_ fun e he hin => hnone e he ?_⟩
        · rw [List.count_append] at hcount
          omega
        · rw [hfits.read_source_append hcopied]
          exact hin.trans (List.suffix_append _ _).isInfix
  · intro hcopied
    refine ⟨h.count_quote_le_one hcopied, ?_⟩
    intro e he
    induction h with
    | nil =>
        intro hin
        exact (isAlpha_of_mem_directives he).1 (List.map_eq_nil_iff.1 (List.infix_nil.1 hin))
    | @cons t ts rest hfits hrest ih =>
        rw [List.forall_mem_cons] at hcopied
        have hread := hfits.read_source_append hcopied.1
        have hitem : ∃ i, t.items = [i] := by
          cases t with
          | group _ _ => cases hcopied.1
          | literal _ => cases hcopied.1
          | directive text =>
              rw [Token.items]
              split <;> exact ⟨_, rfl⟩
          | letter _ => exact ⟨_, rfl⟩
          | other _ => exact ⟨_, rfl⟩
        obtain ⟨i, hi⟩ := hitem
        -- each token is one item, so letters that are read begin where a token does
        intro hin
        rw [hread, hi, List.singleton_append, List.infix_cons_iff] at hin
        rcases hin with hp | hin
        · rw [← List.singleton_append, ← hi, ← hread] at hp
          exact hfits.not_isPrefix_source_append hcopied.1 he
            (isPrefix_of_read (isAlpha_of_mem_directives he).2 hp)
        · exact ih hcopied.2 hin

/-- **The texts that stay as they are**: names, and settled texts. -/
@[simp] theorem strftime_ofSource_eq_self_iff (text : String) :
    (ofSource text).strftime = text ↔ isNamed text = true ∨ Settled text.toList := by
  cases hnamed : isNamed text with
  | true => simp [ofSource, hnamed]
  | false =>
      have hlexed := lexed_tokens text.toList
      rw [← String.toList_inj, toList_strftime_ofSource hnamed, hlexed.flatMap_strftime_eq_iff,
        hlexed.settled_iff]
      simp

/-! ### Formats without quotes -/

/-- A token after translation: a letter group has become a directive. -/
def Token.settled : Token → Token
  | .group _ text => .directive text
  | t => t

/-- **How a translation begins**, if there are no quotes: with a character of the format that is
copied, or with the percent sign of a directive where the format has a directive or a letter. -/
theorem Lexed.strftime_cases {ts : List Token} {s : List Char} (h : Lexed ts s)
    (hquote : quote ∉ s) {c : Char} {u : List Char} (hu : ts.flatMap Token.strftime = c :: u) :
    (∃ ts' s', s = c :: s' ∧ Lexed ts' s' ∧ ts'.flatMap Token.strftime = u) ∨
      c = '%' ∧ ∃ d s', s = d :: s' ∧ (d.isAlpha = true ∨ d = '%') := by
  cases h with
  | nil => cases hu
  | @cons t ts rest hfits h =>
      rw [List.flatMap_cons] at hu
      cases hfits with
      | group he _ =>
          obtain ⟨inner, htext⟩ := (isDirective_of_mem_directives he).1.exists_eq_cons
          obtain ⟨hne, halpha⟩ := isAlpha_of_mem_directives he
          obtain ⟨d, w, hw⟩ := List.exists_cons_of_ne_nil hne
          rw [Token.strftime, htext] at hu
          exact .inr ⟨(List.cons.inj hu).1.symm, d, w ++ rest, by rw [Token.source, hw]; rfl,
            .inl (halpha d (by simp [hw]))⟩
      | directive hdirective =>
          obtain ⟨inner, rfl⟩ := hdirective.exists_eq_cons
          exact .inr ⟨(List.cons.inj hu).1.symm, '%', inner ++ rest, rfl, .inr rfl⟩
      | literal _ => exact absurd List.mem_cons_self hquote
      | letter _ _ =>
          obtain ⟨rfl, htail⟩ := List.cons.inj hu
          exact .inl ⟨ts, rest, rfl, h, htail⟩
      | other _ _ _ =>
          obtain ⟨rfl, htail⟩ := List.cons.inj hu
          exact .inl ⟨ts, rest, rfl, h, htail⟩

/-- Letters at the front of a translation were there before. -/
theorem Lexed.isPrefix_of_strftime {ts : List Token} {s w : List Char} (h : Lexed ts s)
    (hquote : quote ∉ s) (hw : ∀ c ∈ w, c.isAlpha = true)
    (hp : w <+: ts.flatMap Token.strftime) : w <+: s := by
  induction w generalizing ts s with
  | nil => exact List.nil_prefix
  | cons c w ih =>
      obtain ⟨u, hu⟩ := hp
      rw [List.forall_mem_cons] at hw
      obtain ⟨ts', s', rfl, h', hrest⟩ | ⟨rfl, -⟩ := h.strftime_cases hquote hu.symm
      · rw [List.mem_cons, not_or] at hquote
        exact List.cons_prefix_cons.2 ⟨rfl, ih h' hquote.2 hw.2 ⟨u, hrest.symm⟩⟩
      · exact absurd hw.1 (by decide)

/-- A percent sign that began no directive begins none after the translation. -/
theorem Lexed.not_isPrefix_of_strftime {ts : List Token} {s : List Char} (h : Lexed ts s)
    (hquote : quote ∉ s) (hnone : ∀ text, IsDirective text → ¬ text <+: '%' :: s)
    {text : List Char} (hdirective : IsDirective text) :
    ¬ text <+: '%' :: ts.flatMap Token.strftime := by
  cases hdirective with
  | padded hc =>
      rintro ⟨u, hu⟩
      obtain ⟨ts', s', rfl, -, -⟩ | ⟨-, d, s', rfl, hd⟩ :=
        h.strftime_cases hquote (List.cons.inj hu).2.symm
      · exact hnone _ (.padded hc) ⟨s', rfl⟩
      · exact hnone _ (.padded hd) ⟨s', rfl⟩
  | unpadded hc =>
      rintro ⟨u, hu⟩
      obtain ⟨ts', s', rfl, h', hrest⟩ | ⟨hminus, -⟩ :=
        h.strftime_cases hquote (List.cons.inj hu).2.symm
      · rw [List.mem_cons, not_or] at hquote
        obtain ⟨ts'', s'', rfl, -, -⟩ | ⟨-, d, s'', rfl, hd⟩ :=
          h'.strftime_cases hquote.2 hrest
        · exact hnone _ (.unpadded hc) ⟨s'', rfl⟩
        · exact hnone _ (.unpadded hd) ⟨s'', rfl⟩
      · exact absurd hminus (by decide)

/-- **The tokens of a translation**, if there are no quotes: the tokens of the format, with
directives in the place of letter groups. -/
theorem Lexed.settle {ts : List Token} {s : List Char} (h : Lexed ts s) (hquote : quote ∉ s) :
    Lexed (ts.map Token.settled) (ts.flatMap Token.strftime) := by
  induction h with
  | nil => exact .nil
  | @cons t ts rest hfits h ih =>
      rw [List.mem_append, not_or] at hquote
      have hrest := ih hquote.2
      rw [List.map_cons, List.flatMap_cons]
      cases hfits with
      | group he _ => exact .cons (.directive (isDirective_of_mem_directives he).1) hrest
      | directive hdirective => exact .cons (.directive hdirective) hrest
      | literal _ => exact absurd List.mem_cons_self hquote.1
      | @letter c _ hc hnone =>
          -- a group that begins with this letter now would have been there before
          refine .cons (.letter hc fun e he hp => hnone e he ?_) hrest
          obtain ⟨hne, halpha⟩ := isAlpha_of_mem_directives he
          obtain ⟨d, w, hw⟩ := List.exists_cons_of_ne_nil hne
          rw [hw] at hp halpha ⊢
          obtain ⟨rfl, htail⟩ := List.cons_prefix_cons.1 hp
          rw [List.forall_mem_cons] at halpha
          exact List.cons_prefix_cons.2 ⟨rfl, h.isPrefix_of_strftime hquote.2 halpha.2 htail⟩
      | @other c _ hc _ hpercent =>
          refine .cons (.other hc (fun heq => ?_) fun heq text hdirective => ?_) hrest
          · exact absurd (heq ▸ List.mem_cons_self) hquote.1
          · subst heq
            exact h.not_isPrefix_of_strftime hquote.2 (hpercent rfl) hdirective

/-- The translation of a format without quotes is settled. -/
theorem settled_strftime_of_quote_notMem {source : String} (hnamed : isNamed source = false)
    (hquote : quote ∉ source.toList) : Settled (ofSource source).strftime.toList := by
  have hlexed := lexed_tokens source.toList
  rw [toList_strftime_ofSource hnamed, (hlexed.settle hquote).settled_iff]
  intro t' ht'
  obtain ⟨t, ht, rfl⟩ := List.mem_map.1 ht'
  cases t with
  | literal text =>
      refine absurd ?_ hquote
      rw [← hlexed.flatMap_source]
      exact List.mem_flatMap.2 ⟨_, ht, List.mem_cons_self⟩
  | _ => rfl

/-- **Translating twice is translating once** exactly if the first translation is a name or a
settled text. That is so for every format without quotes. -/
theorem strftime_idempotent_iff (source : String) :
    ((ofSource (ofSource source).strftime).strftime = (ofSource source).strftime ↔
      isNamed (ofSource source).strftime = true ∨ Settled (ofSource source).strftime.toList) ∧
    (quote ∉ source.toList →
      (ofSource (ofSource source).strftime).strftime = (ofSource source).strftime) := by
  refine ⟨strftime_ofSource_eq_self_iff _, fun hquote => ?_⟩
  rw [strftime_ofSource_eq_self_iff]
  cases hnamed : isNamed source with
  | true =>
      have hself : (ofSource source).strftime = source := by simp [ofSource, hnamed]
      rw [hself]
      exact .inl hnamed
  | false => exact .inr (settled_strftime_of_quote_notMem hnamed hquote)

/-- A format with a letter left over and a percent sign that begins no directive is settled after
one step. -/
theorem strftime_idempotent_iff_leftovers :
    quote ∉ "yyy%-E".toList ∧
      (ofSource "yyy%-E").strftime = "%yy%-E" ∧
      (ofSource "%yy%-E").strftime = "%yy%-E" := by
  have hquote : quote ∉ "yyy%-E".toList := by decide
  have honce : (ofSource "yyy%-E").strftime = "%yy%-E" := by decide +kernel
  have htwice := (strftime_idempotent_iff "yyy%-E").2 hquote
  rw [honce] at htwice
  exact ⟨hquote, honce, htwice⟩

/-- **Literal text does not stay literal**: the letter of a quoted literal is taken for a letter
group, and the quotes of two empty literals are taken for the quotes of one literal. -/
theorem strftime_twice_ne :
    ((ofSource "'d'").strftime = "d" ∧
      (ofSource (ofSource "'d'").strftime).strftime = "%-d") ∧
    ((ofSource "''a''").strftime = "'%p'" ∧
      (ofSource (ofSource "''a''").strftime).strftime = "%%p") := by
  refine ⟨⟨?_, ?_⟩, ?_, ?_⟩ <;> decide +kernel

end IngestPipeline.DateFormat
