import IngestPipeline.Processor.Entries
import IngestPipeline.Proofs.Occurrence
import Mathlib.Data.List.Forall2

/-! # Extraction patterns and their definitions

An extraction pattern is text with closed tokens in it. A definition is put in the place of its name
wherever the name is spelled in the pattern, token or not.

* **`Tokenized`**: a pattern cut at its closed tokens, with its spelling before
  (`Tokenized.source`) and after (`Tokenized.target`) the exchange of the delimiters.
* **`angled_source`**: the exchange turns one into the other.
* **`isInfix_target_iff`**: a name without angle brackets is spelled in a pattern exactly if it is
  spelled in one of the pieces between the delimiters.
* **`define_singleton_eq_self_iff`**: one definition changes nothing exactly if its name is not
  spelled in the pattern or stands for itself.
* **`patterns_definition_iff`**: this for the patterns of a processor. -/

namespace IngestPipeline

namespace Delimiters

/-! ### The exchange of the delimiters -/

/-- What opens a token. -/
def opener : List Char := ['%', '\x7b']

/-- What closes a token. -/
def closer : Char := '\x7d'

/-- The empty text holds no reference. -/
@[simp] theorem angled_nil : angled [] = [] := by
  rw [angled]

/-- An opener and the closer that follows it become angle brackets. -/
theorem angled_opener_append (s : List Char) :
    angled (opener ++ s) =
      match Text.splitOnce [closer] s with
      | some parts => '<' :: parts.1 ++ '>' :: angled parts.2
      | none => opener ++ s := by
  rw [opener, List.cons_append, List.cons_append, List.nil_append, angled, if_pos rfl, if_pos rfl]
  split
  · rename_i parts h
    rw [closer, h]
  · rename_i h
    rw [closer, h]

/-- A character where no token opens stays. -/
theorem angled_cons_of_not_isPrefix {c : Char} {s : List Char} (h : ¬ opener <+: c :: s) :
    angled (c :: s) = c :: angled s := by
  rw [angled.eq_def]
  dsimp only
  split
  · rename_i hc
    cases s with
    | nil => rw [angled_nil]
    | cons d s =>
        have hd : d ≠ '\x7b' := by
          rintro rfl
          exact h ⟨s, by rw [hc]; rfl⟩
        dsimp only
        rw [if_neg hd]
  · rfl

/-- **A closed token** becomes its body between angle brackets. -/
theorem angled_closed {body : List Char} (h : closer ∉ body) (s : List Char) :
    angled (opener ++ body ++ closer :: s) = '<' :: body ++ '>' :: angled s := by
  have hsplit : Text.splitOnce [closer] (body ++ closer :: s) = some (body, s) := by
    have hend := Text.splitOnce_terminated (w := []) List.not_mem_nil h s
    rwa [List.append_nil] at hend
  rw [List.append_assoc, angled_opener_append, hsplit]

/-- A text in which no opener begins is left as it is. -/
theorem angled_append_of_noStart {a s : List Char} (h : Text.NoStart opener a s) :
    angled (a ++ s) = a ++ angled s := by
  induction a with
  | nil => rfl
  | cons c a ih =>
      rw [List.cons_append, angled_cons_of_not_isPrefix h.not_isPrefix, ih h.tail,
        List.cons_append]

/-- A text without an opener stays in front of an opener. -/
theorem noStart_opener {text : List Char} (h : ¬ opener <:+: text) (s : List Char) :
    Text.NoStart opener text (opener ++ s) := by
  intro u hu hne hp
  cases u with
  | nil => exact hne rfl
  | cons c u =>
      obtain ⟨rfl, htail⟩ := List.cons_prefix_cons.1 hp
      cases u with
      | nil =>
          -- the opener begins with another character than it ends with
          obtain ⟨heq, -⟩ := List.cons_prefix_cons.1 htail
          exact absurd heq (by decide)
      | cons d u =>
          obtain ⟨rfl, -⟩ := List.cons_prefix_cons.1 htail
          exact h (List.IsInfix.trans ⟨[], u, rfl⟩ hu.isInfix)

/-- Where every opener is left open, nothing is exchanged. -/
theorem angled_of_open {s : List Char} (h : ∀ v, opener ++ v <:+ s → closer ∉ v) :
    angled s = s := by
  induction s with
  | nil => exact angled_nil
  | cons c s ih =>
      by_cases hp : opener <+: c :: s
      · obtain ⟨v, hv⟩ := hp
        have hnone : Text.splitOnce [closer] v = none := by
          refine Text.splitOnce_eq_none_iff.2 fun hin => ?_
          exact h v (hv ▸ List.suffix_rfl) (hin.subset List.mem_cons_self)
        rw [← hv, angled_opener_append, hnone]
      · rw [angled_cons_of_not_isPrefix hp, ih fun v hv => h v (hv.trans (List.suffix_cons c s))]

/-! ### Patterns cut at their tokens -/

/-- A closed token, with the text in front of it. -/
structure Token where
  /-- The text in front of the token. -/
  text : List Char
  /-- The body of the token. -/
  body : List Char
  /-- No token opens in the text. -/
  not_isInfix_text : ¬ opener <:+: text
  /-- The token is closed behind its body. -/
  closer_notMem_body : closer ∉ body

/-- **A pattern cut at its closed tokens.** -/
structure Tokenized where
  /-- The closed tokens. -/
  tokens : List Token
  /-- The text behind the last of them. -/
  tail : List Char
  /-- A token that opens there is left open. -/
  closer_notMem_open : ∀ v, opener ++ v <:+ tail → closer ∉ v

namespace Tokenized

/-- The pattern. -/
def source (p : Tokenized) : List Char :=
  (p.tokens.flatMap fun t => t.text ++ opener ++ t.body ++ [closer]) ++ p.tail

/-- The pattern with its closed tokens in angle brackets. -/
def target (p : Tokenized) : List Char :=
  (p.tokens.flatMap fun t => t.text ++ ['<'] ++ t.body ++ ['>']) ++ p.tail

/-- What is between the delimiters: texts and bodies by turns. -/
def pieces (p : Tokenized) : List (List Char) :=
  (p.tokens.flatMap fun t => [t.text, t.body]) ++ [p.tail]

/-- **The delimiters of the closed tokens are exchanged**, and nothing else. -/
theorem angled_source (p : Tokenized) : angled p.source = p.target := by
  obtain ⟨tokens, tail, hopen⟩ := p
  rw [source, target]
  dsimp only
  induction tokens with
  | nil => exact angled_of_open hopen
  | cons t ts ih =>
      -- the text in front is copied up to the opener, and the search goes on behind the token
      simp only [List.flatMap_cons, List.append_assoc] at ih ⊢
      rw [angled_append_of_noStart (noStart_opener t.not_isInfix_text _), List.singleton_append,
        ← List.append_assoc, angled_closed t.closer_notMem_body, ih]
      rfl

/-- **A name without angle brackets** is spelled in a pattern exactly if it is spelled between two
delimiters. -/
theorem isInfix_target_iff (p : Tokenized) {name : List Char} (hopen : '<' ∉ name)
    (hclose : '>' ∉ name) : name <:+: p.target ↔ ∃ piece ∈ p.pieces, name <:+: piece := by
  obtain ⟨tokens, tail, -⟩ := p
  rw [target, pieces]
  dsimp only
  induction tokens with
  | nil => simp
  | cons t ts ih =>
      simp only [List.flatMap_cons, List.append_assoc, List.cons_append, List.nil_append] at ih ⊢
      rw [Text.isInfix_append_cons_iff hopen, Text.isInfix_append_cons_iff hclose, ih]
      simp

end Tokenized

end Delimiters

namespace Processor

/-! ### One definition -/

/-- **One definition changes nothing** in a pattern exactly if its name is not spelled there or
stands for itself. -/
theorem define_singleton_eq_self_iff {name : String} (hname : name ≠ "")
    (definition pattern : String) :
    define [(name, definition)] pattern = pattern ↔
      (name.toList <:+: pattern.toList → Delimiters.angled definition.toList = name.toList) := by
  have hne : name.toList ≠ [] := by simpa using hname
  rw [define, List.foldl_cons, List.foldl_nil, Text.onString, ← String.toList_inj,
    String.toList_ofList, Text.replace_eq_self_iff _ hne]

/-- The patterns of a processor with one definition. -/
theorem patterns_definition {p : Processor} {patterns : List String} {k v : Value}
    {name definition : String} (hgrok : p.operation = .grok)
    (hpatterns : p.texts "patterns" = .ok patterns)
    (hdefinitions : p.mapping? "pattern_definitions" = .ok (some [(k, v)]))
    (hname : k.text? = some name) (hdefinition : v.text? = some definition) :
    p.patterns = .ok (patterns.map fun pattern =>
      define [(name, definition)] (Delimiters.inText pattern)) := by
  have htexts : definitionTexts? [(k, v)] = some [(name, definition)] := by
    rw [definitionTexts?, definitionTexts?, hname, hdefinition]
  rw [Processor.patterns, hgrok]
  dsimp only
  rw [grokPatterns, hpatterns, hdefinitions]
  dsimp only [bind, Except.bind, Option.getD_some]
  rw [htexts]
  rfl

/-- **A definition is put in wherever its name is spelled**: with a single definition, nothing but
the delimiters of a pattern is exchanged exactly if the name is not spelled in the result or stands
for itself. A name without angle brackets is spelled there exactly if it is spelled in the body of a
token, whichever part of it, or in the text outside. -/
theorem patterns_definition_iff {p : Processor} {patterns : List String} {k v : Value}
    {name definition : String} (hgrok : p.operation = .grok)
    (hpatterns : p.texts "patterns" = .ok patterns)
    (hdefinitions : p.mapping? "pattern_definitions" = .ok (some [(k, v)]))
    (hname : k.text? = some name) (hdefinition : v.text? = some definition) (hne : name ≠ "") :
    ∃ results, p.patterns = .ok results ∧
      List.Forall₂ (fun pattern result =>
        (result = Delimiters.inText pattern ↔
          (name.toList <:+: Delimiters.angled pattern.toList →
            Delimiters.angled definition.toList = name.toList)) ∧
        ∀ cut : Delimiters.Tokenized, cut.source = pattern.toList → '<' ∉ name.toList →
          '>' ∉ name.toList → (name.toList <:+: Delimiters.angled pattern.toList ↔
            ∃ piece ∈ cut.pieces, name.toList <:+: piece)) patterns results := by
  refine ⟨_, patterns_definition hgrok hpatterns hdefinitions hname hdefinition, ?_⟩
  rw [List.forall₂_map_right_iff]
  refine List.forall₂_same.2 fun pattern _ => ⟨?_, fun cut hcut hopen hclose => ?_⟩
  · rw [define_singleton_eq_self_iff hne, Delimiters.inText, Text.onString, String.toList_ofList]
  · rw [← hcut, cut.angled_source, cut.isInfix_target_iff hopen hclose]

/-- A name that occurs nowhere is not replaced. -/
theorem patterns_definition_iff_unspelled :
    (⟨.grok, [("patterns", .string "%\x7bA:b\x7d"),
        ("pattern_definitions", .map [(.string "C", .string "x")])]⟩ : Processor).patterns =
      .ok ["<A:b>"] := by
  obtain ⟨results, hresults, hall⟩ := patterns_definition_iff
    (p := ⟨.grok, [("patterns", .string "%\x7bA:b\x7d"),
      ("pattern_definitions", .map [(.string "C", .string "x")])]⟩) rfl rfl rfl rfl rfl (by decide)
  cases hall with
  | cons hfirst hrest =>
      cases hrest
      have hspelled := (hfirst.2
        ⟨[⟨[], "A:b".toList, by decide, by decide⟩], [], by simp [Delimiters.opener]⟩
        rfl (by decide) (by decide)).not.2 (by decide)
      rw [hresults, hfirst.1.2 fun h => absurd h hspelled]
      exact congrArg (fun text => Except.ok [text]) (by decide +kernel)

/-- A definition reaches into a longer name, into the name of a capture and into the text outside,
though no token refers to it. -/
theorem patterns_definition_changes :
    (∀ body ∈ ["IPV4:a", "A:IP", "A:b"], body.toList.takeWhile (· ≠ ':') ≠ "IP".toList) ∧
      (⟨.grok, [("patterns", .seq [.string "%\x7bIPV4:a\x7d", .string "%\x7bA:IP\x7d",
          .string "IP %\x7bA:b\x7d"]),
        ("pattern_definitions", .map [(.string "IP", .string "x")])]⟩ : Processor).patterns =
        .ok ["<xV4:a>", "<A:x>", "x <A:b>"] ∧
      ["%\x7bIPV4:a\x7d", "%\x7bA:IP\x7d", "IP %\x7bA:b\x7d"].map Delimiters.inText =
        ["<IPV4:a>", "<A:IP>", "IP <A:b>"] := by
  refine ⟨by decide, ?_, by decide +kernel⟩
  refine (patterns_definition rfl rfl rfl rfl rfl).trans (congrArg Except.ok ?_)
  decide +kernel

end Processor

end IngestPipeline
