import IngestPipeline.Proofs.Extraction

/-! # Every pattern is cut in one way

`Tokenized` is a pattern that is already cut at its closed tokens. This file shows that every text
is the source of exactly one of them, so that the exchange of the delimiters is described for every
text and not only for texts that were put together from tokens.

* **`exists_source_eq`**: every text can be cut. One search finds the first opener, a second one the
  brace that closes it, and the rest behind the brace is cut in the same way.
* **`source_injective`**: two cuts of one text agree token by token, since a token begins with the
  first opener that is left and ends with the first brace behind it.
* **`existsUnique_cut`**: the only cut of a pattern, and what the exchange makes of it. -/

namespace IngestPipeline.Delimiters

/-! ### The first opener and the brace behind it -/

/-- A text is split at the first opener. -/
theorem splitOnce_opener_eq_some_iff {s text rest : List Char} :
    Text.splitOnce opener s = some (text, rest) ↔
      s = text ++ opener ++ rest ∧ ¬ opener <:+: text := by
  rw [Text.splitOnce_eq_some_iff]
  refine and_congr_right fun _ => ⟨fun h => ?_, fun h => noStart_opener h rest⟩
  exact h.not_isInfix (List.cons_ne_nil _ _)

/-- A text is split at the first closer. -/
theorem splitOnce_closer_eq_some_iff {s body rest : List Char} :
    Text.splitOnce [closer] s = some (body, rest) ↔
      s = body ++ [closer] ++ rest ∧ closer ∉ body := by
  rw [Text.splitOnce_eq_some_iff]
  refine and_congr_right fun _ => ⟨fun h => ?_, fun h => .of_notMem h⟩
  exact mt (List.singleton_infix_iff closer body).2 (h.not_isInfix (List.cons_ne_nil _ _))

/-- If no brace closes the first opener, none closes a later one. -/
theorem closer_notMem_of_first_open {text rest v : List Char} (htext : ¬ opener <:+: text)
    (hrest : closer ∉ rest) (hv : opener ++ v <:+ text ++ opener ++ rest) : closer ∉ v := by
  rw [List.append_assoc] at hv
  have hbehind : opener ++ v <:+ opener ++ rest := (noStart_opener htext rest).isSuffix hv
  intro hmem
  have hclosed := hbehind.subset (List.mem_append_right opener hmem)
  rcases List.mem_append.1 hclosed with hopener | hrest'
  · exact absurd hopener (by decide)
  · exact hrest hrest'

namespace Tokenized

/-! ### Cutting -/

/-- A pattern with one more token in front. -/
def cons (t : Token) (p : Tokenized) : Tokenized := { p with tokens := t :: p.tokens }

/-- The source of a token in front of others. -/
@[simp] theorem source_cons (t : Token) (p : Tokenized) :
    (cons t p).source = t.text ++ opener ++ (t.body ++ [closer] ++ p.source) := by
  simp [cons, source]

/-- **Every text can be cut** at its closed tokens. -/
theorem exists_source_eq (s : List Char) : ∃ p : Tokenized, p.source = s := by
  -- on the length of the text, since the search goes on behind a whole token
  induction hn : s.length using Nat.strong_induction_on generalizing s with
  | _ n ih =>
      cases hopener : Text.splitOnce opener s with
      | none =>
          have hnone := Text.splitOnce_eq_none_iff.1 hopener
          refine ⟨⟨[], s, fun v hv => absurd ?_ hnone⟩, rfl⟩
          exact (List.prefix_append opener v).isInfix.trans hv.isInfix
      | some parts =>
          obtain ⟨text, behind⟩ := parts
          obtain ⟨hs, htext⟩ := splitOnce_opener_eq_some_iff.1 hopener
          cases hcloser : Text.splitOnce [closer] behind with
          | none =>
              have hopen : closer ∉ behind := by
                rw [← List.singleton_infix_iff]
                exact Text.splitOnce_eq_none_iff.1 hcloser
              exact ⟨⟨[], s, fun v hv => closer_notMem_of_first_open htext hopen (hs ▸ hv)⟩, rfl⟩
          | some parts =>
              obtain ⟨body, rest⟩ := parts
              obtain ⟨hbehind, hbody⟩ := splitOnce_closer_eq_some_iff.1 hcloser
              have hlt : rest.length < n := by
                rw [← hn, hs, hbehind]
                simp only [List.length_append, List.length_singleton]
                omega
              obtain ⟨p, hp⟩ := ih rest.length hlt rest rfl
              refine ⟨cons ⟨text, body, htext, hbody⟩ p, ?_⟩
              rw [source_cons, hp, hs, hbehind]

/-! ### One cut only -/

/-- Two tokens in front of one text are the same. -/
theorem eq_of_source_cons_eq (t t' : Token) (p p' : Tokenized)
    (h : (cons t p).source = (cons t' p').source) : t = t' ∧ p.source = p'.source := by
  rw [source_cons, source_cons] at h
  -- both texts end before the first opener, and both bodies before the first brace behind it
  obtain ⟨htext, hbehind⟩ := Text.append_sep_inj_of_noStart
    (noStart_opener t.not_isInfix_text _) (noStart_opener t'.not_isInfix_text _) h
  have hclosed : t.body ++ closer :: p.source = t'.body ++ closer :: p'.source := by
    simpa using hbehind
  obtain ⟨hbody, hrest⟩ := Text.append_cons_inj_of_notMem t.closer_notMem_body
    t'.closer_notMem_body hclosed
  refine ⟨?_, hrest⟩
  cases t
  cases t'
  cases htext
  cases hbody
  rfl

/-- A text in which every opener is left open has no closed token. -/
theorem source_cons_ne_tail (t : Token) (p q : Tokenized) : (cons t p).source ≠ q.tail := by
  intro h
  rw [source_cons, List.append_assoc] at h
  have hsuffix : opener ++ (t.body ++ [closer] ++ p.source) <:+ q.tail := ⟨t.text, h⟩
  exact q.closer_notMem_open _ hsuffix (by simp)

/-- **Two cuts of one text are the same.** -/
theorem source_injective : Function.Injective source := by
  rintro ⟨ts, tail, hopen⟩ q h
  induction ts generalizing q with
  | nil =>
      obtain ⟨ts', tail', hopen'⟩ := q
      cases ts' with
      | nil =>
          cases h
          rfl
      | cons t' ts' =>
          exact absurd h.symm (source_cons_ne_tail t' ⟨ts', tail', hopen'⟩ ⟨[], tail, hopen⟩)
  | cons t ts ih =>
      obtain ⟨ts', tail', hopen'⟩ := q
      cases ts' with
      | nil => exact absurd h (source_cons_ne_tail t ⟨ts, tail, hopen⟩ ⟨[], tail', hopen'⟩)
      | cons t' ts' =>
          obtain ⟨rfl, hrest⟩ :=
            eq_of_source_cons_eq t t' ⟨ts, tail, hopen⟩ ⟨ts', tail', hopen'⟩ h
          cases ih hrest
          rfl

end Tokenized

/-- **A pattern is cut at its closed tokens in exactly one way**, and the exchange of the delimiters
puts the bodies of these tokens in angle brackets and copies the text between and behind them. -/
theorem existsUnique_cut (pattern : String) :
    ∃ p : Tokenized, p.source = pattern.toList ∧
      (∀ q : Tokenized, q.source = pattern.toList → q = p) ∧
      inText pattern = String.ofList p.target := by
  obtain ⟨p, hp⟩ := Tokenized.exists_source_eq pattern.toList
  refine ⟨p, hp, fun q hq => Tokenized.source_injective (hq.trans hp.symm), ?_⟩
  rw [inText, Text.onString, ← hp, p.angled_source]

end IngestPipeline.Delimiters
