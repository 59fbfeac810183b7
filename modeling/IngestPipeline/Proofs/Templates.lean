import IngestPipeline.Proofs.Acceptance
import Mathlib.Data.List.TakeWhile

/-! # Templates

A template is recognised by dividing a text among the parts of a pattern, where one part after the
other takes as much or as little as it prefers and gives way if nothing can be made of the rest.
This file says what comes out, without a word about preferences.

* **`Part.Admits`**, **`Part.Prefers`**: the texts that a part may take, and the order in which it
  tries them.
* **`divide?_eq_none_iff`**, **`divide?_cons_of_preferred`**: a text that can be divided in any way
  is divided, and each part has the first text that leaves a rest for the others.
* **`IsTemplate`**: a text without braces between two or three braces on each side.
* **`exists_isTemplate`**, **`templateName?_of_isTemplate`**: a name is found in templates only, and
  it is the text between the braces, trimmed.
* **`entries_of_append`**: the entries of an `append` processor. -/

namespace IngestPipeline

/-! ### Dividing a text among parts -/

namespace Text

namespace Part

/-- **The texts that a part may take.** -/
structure Admits (part : Part) (text : List Char) : Prop where
  /-- All characters are of its kind. -/
  kind : ∀ c ∈ text, part.kind c = true
  /-- There are not too few of them. -/
  least : part.least ≤ text.length
  /-- There are not too many of them. -/
  most : ∀ m ∈ part.most, text.length ≤ m

/-- **The order in which a part tries texts**, by their lengths. -/
def Prefers (part : Part) (n m : Nat) : Prop := if part.greedy then m < n else n < m

variable {part : Part} {s : List Char}

/-- The characters taken while they meet a demand are at least `n` if the first `n` meet it. -/
theorem le_length_takeWhile_iff {p : Char → Bool} {n : Nat} :
    n ≤ (s.takeWhile p).length ↔ n ≤ s.length ∧ ∀ c ∈ s.take n, p c = true := by
  induction s generalizing n with
  | nil => simp
  | cons c s ih =>
      cases n with
      | zero => simp
      | succ n =>
          cases hc : p c with
          | true => simp [hc, ih]
          | false => simp [hc]

/-- What a part may take from the front of a text. -/
@[simp] theorem mem_counts_iff {n : Nat} :
    n ∈ part.counts s ↔ n ≤ s.length ∧ part.Admits (s.take n) := by
  have hreach : n ≤ part.reach s ↔
      n ≤ (s.takeWhile part.kind).length ∧ ∀ m ∈ part.most, n ≤ m := by
    unfold reach
    cases part.most with
    | none => simp
    | some m =>
        simp only [Option.elim_some, Nat.le_min, Option.mem_def, Option.some.injEq, forall_eq']
  have hmem : n ∈ part.counts s ↔ part.least ≤ n ∧ n ≤ part.reach s := by
    unfold counts
    cases part.greedy <;> simp [List.mem_range'_1] <;> omega
  rw [hmem, hreach, le_length_takeWhile_iff]
  constructor
  · rintro ⟨hleast, ⟨hlen, hkind⟩, hmost⟩
    have htake : (s.take n).length = n := List.length_take_of_le hlen
    exact ⟨hlen, hkind, by omega, fun m hm => by rw [htake]; exact hmost m hm⟩
  · rintro ⟨hlen, hkind, hleast, hmost⟩
    rw [List.length_take_of_le hlen] at hleast hmost
    exact ⟨hleast, ⟨hlen, hkind⟩, hmost⟩

/-- The preferred numbers come first. -/
theorem pairwise_counts : (part.counts s).Pairwise part.Prefers := by
  unfold counts Prefers
  cases part.greedy with
  | true => simpa [List.pairwise_reverse] using List.pairwise_lt_range'
  | false => simpa using List.pairwise_lt_range'

end Part

variable {part : Part} {parts : List Part} {s rest text : List Char} {texts : List (List Char)}

/-- **What is divided** is the texts of the parts, one after the other. -/
theorem of_divide?_eq_some (h : divide? parts s = some texts) :
    List.Forall₂ Part.Admits parts texts ∧ texts.flatten = s := by
  induction parts generalizing s texts with
  | nil =>
      rw [divide?] at h
      split at h
      · rename_i hs
        cases h
        exact ⟨.nil, (List.isEmpty_iff.1 hs).symm⟩
      · cases h
  | cons part parts ih =>
      obtain ⟨n, hn, hrest⟩ := List.exists_of_findSome?_eq_some h
      obtain ⟨more, hmore, rfl⟩ := Option.map_eq_some_iff.1 hrest
      obtain ⟨hadmits, hflatten⟩ := ih hmore
      refine ⟨.cons (Part.mem_counts_iff.1 hn).2 hadmits, ?_⟩
      rw [List.flatten_cons, hflatten, List.take_append_drop]

/-- **What can be divided is divided.** -/
theorem divide?_eq_none_iff :
    divide? parts s = none ↔
      ∀ texts, List.Forall₂ Part.Admits parts texts → texts.flatten ≠ s := by
  constructor
  · intro h texts hadmits
    induction hadmits generalizing s with
    | nil =>
        rintro rfl
        cases h
    | @cons part text parts texts htext _ ih =>
        rintro rfl
        rw [List.flatten_cons, divide?, List.findSome?_eq_none_iff] at h
        have hcount : text.length ∈ part.counts (text ++ texts.flatten) := by
          rw [Part.mem_counts_iff, List.take_left]
          exact ⟨by simp, htext⟩
        have hrest := h _ hcount
        rw [List.drop_left, Option.map_eq_none_iff] at hrest
        exact ih hrest rfl
  · intro h
    cases hs : divide? parts s with
    | none => rfl
    | some texts =>
        obtain ⟨hadmits, hflatten⟩ := of_divide?_eq_some hs
        exact absurd hflatten (h texts hadmits)

/-- **The first text that leaves a rest for the others** is what a part takes. -/
theorem divide?_cons_of_preferred (htext : part.Admits text)
    (hrest : divide? parts rest = some texts)
    (hfirst : ∀ text' rest', text ++ rest = text' ++ rest' → part.Admits text' →
      part.Prefers text'.length text.length → divide? parts rest' = none) :
    divide? (part :: parts) (text ++ rest) = some (text :: texts) := by
  have hcount : text.length ∈ part.counts (text ++ rest) := by
    rw [Part.mem_counts_iff, List.take_left]
    exact ⟨by simp, htext⟩
  obtain ⟨before, after, hcounts⟩ := List.append_of_mem hcount
  rw [divide?, List.findSome?_eq_some_iff]
  refine ⟨before, text.length, after, hcounts, ?_, fun n hn => ?_⟩
  · rw [List.take_left, List.drop_left, hrest, Option.map_some]
  · have hprefers : part.Prefers n text.length := by
      have hsorted := part.pairwise_counts (s := text ++ rest)
      rw [hcounts, List.pairwise_append] at hsorted
      exact hsorted.2.2 n hn _ List.mem_cons_self
    have hmem : n ∈ part.counts (text ++ rest) := by
      rw [hcounts]
      exact List.mem_append_left _ hn
    obtain ⟨hlen, hadmits⟩ := Part.mem_counts_iff.1 hmem
    rw [← List.length_take_of_le hlen] at hprefers
    rw [hfirst _ _ (List.take_append_drop n _).symm hadmits hprefers, Option.map_none]

/-- A greedy part takes a whole run of its kind if it may. -/
theorem divide?_cons_of_run (hgreedy : part.greedy = true) (htext : part.Admits text)
    (hstop : ∀ c ∈ rest.head?, part.kind c = false) (hrest : divide? parts rest = some texts) :
    divide? (part :: parts) (text ++ rest) = some (text :: texts) := by
  refine divide?_cons_of_preferred htext hrest fun text' rest' hs htext' hlonger => ?_
  rw [Part.Prefers, if_pos hgreedy] at hlonger
  -- a longer text has the first character of the rest
  rcases List.append_eq_append_iff.1 hs with ⟨more, rfl, rfl⟩ | ⟨less, rfl, -⟩
  · cases more with
    | nil => simp at hlonger
    | cons c more =>
        have hc := htext'.kind c (by simp)
        rw [hstop c (by simp)] at hc
        cases hc
  · rw [List.length_append] at hlonger
    omega

/-- **What is trimmed from a text** is blank, and nothing that is left at either end is. -/
theorem exists_eq_trim (s : List Char) :
    ∃ a b, s = a ++ trim s ++ b ∧ (∀ c ∈ a ++ b, isBlank c = true) ∧
      (∀ c ∈ (trim s).head?, isBlank c = false) ∧ ∀ c ∈ (trim s).getLast?, isBlank c = false := by
  have hleft : s.takeWhile isBlank ++ trimLeft s = s := List.takeWhile_append_dropWhile
  have hright : trim s ++ ((trimLeft s).reverse.takeWhile isBlank).reverse = trimLeft s := by
    rw [trim, trimRight, ← List.reverse_append, List.takeWhile_append_dropWhile,
      List.reverse_reverse]
  refine ⟨s.takeWhile isBlank, _, by rw [List.append_assoc, hright, hleft], ?_, ?_, ?_⟩
  · intro c hc
    rw [List.mem_append, List.mem_reverse] at hc
    exact hc.elim List.mem_takeWhile_imp List.mem_takeWhile_imp
  · intro c hc
    have hhead : (trimLeft s).head? = some c := by rw [← hright, List.head?_append, hc]; rfl
    have hnot := List.head?_dropWhile_not isBlank s
    rw [show s.dropWhile isBlank = trimLeft s from rfl, hhead] at hnot
    exact hnot
  · intro c hc
    have hnot := List.head?_dropWhile_not isBlank (trimLeft s).reverse
    rw [trim, trimRight, List.getLast?_reverse] at hc
    rw [hc] at hnot
    exact hnot

end Text

/-! ### Templates -/

/-- **A template**: a text without braces, between two or three braces on each side. -/
structure IsTemplate (s opening inner closing : List Char) : Prop where
  /-- The text is put together of three. -/
  eq_append : s = opening ++ inner ++ closing
  /-- The first is two or three opening braces. -/
  opening : opening ∈ [['\x7b', '\x7b'], ['\x7b', '\x7b', '\x7b']]
  /-- The last is two or three closing braces. -/
  closing : closing ∈ [['\x7d', '\x7d'], ['\x7d', '\x7d', '\x7d']]
  /-- There is something in between. -/
  inner_ne_nil : inner ≠ []
  /-- It has no braces. -/
  inner_braceFree : ∀ c ∈ inner, isBraceFree c = true

namespace Template

open Text (divide? isBlank trim)

/-- Two or three braces open or close a template. -/
@[simp] theorem admits_braces_iff {brace : Char} {text : List Char} :
    (braces brace).Admits text ↔ text ∈ [[brace, brace], [brace, brace, brace]] := by
  constructor
  · rintro ⟨hkind, hleast, hmost⟩
    have hrep : text = List.replicate text.length brace :=
      List.eq_replicate_of_mem fun c hc => eq_of_beq (hkind c hc)
    have hlen : text.length = 2 ∨ text.length = 3 := by
      have := hmost 3 rfl
      simp only [braces] at hleast
      omega
    rcases hlen with hlen | hlen <;> rw [hrep, hlen] <;> simp [List.replicate]
  · intro h
    simp only [List.mem_cons, List.not_mem_nil, or_false] at h
    rcases h with rfl | rfl <;> exact ⟨by simp [braces], by simp [braces], by simp [braces]⟩

/-- Blanks may be there in any number. -/
@[simp] theorem admits_blanks_iff {text : List Char} :
    blanks.Admits text ↔ ∀ c ∈ text, isBlank c = true :=
  ⟨fun h => h.kind, fun h => ⟨h, Nat.zero_le _, by simp [blanks]⟩⟩

/-- A name is not empty and contains no braces. -/
@[simp] theorem admits_name_iff {text : List Char} :
    name.Admits text ↔ text ≠ [] ∧ ∀ c ∈ text, isBraceFree c = true :=
  ⟨fun h => ⟨List.length_pos_iff.1 h.least, h.kind⟩,
    fun h => ⟨h.2, List.length_pos_iff.2 h.1, by simp [name]⟩⟩

/-- Braces begin with a brace. -/
theorem exists_cons_of_admits_braces {brace : Char} {text : List Char}
    (h : (braces brace).Admits text) : ∃ more, text = brace :: more := by
  have hmem := admits_braces_iff.1 h
  simp only [List.mem_cons, List.not_mem_nil, or_false] at hmem
  rcases hmem with rfl | rfl <;> exact ⟨_, rfl⟩

variable {opening inner closing s text : List Char}

/-- Braces are no blanks. -/
theorem isBraceFree_of_isBlank {c : Char} (h : isBlank c = true) : isBraceFree c = true := by
  by_contra hc
  simp only [isBraceFree, Bool.and_eq_true, bne_iff_ne, ne_eq, not_and_or, not_not] at hc
  rcases hc with rfl | rfl <;> exact absurd h (by decide)

/-- The blanks behind the name end where the braces begin. -/
theorem divide?_blanks {b : List Char} (hb : ∀ c ∈ b, isBlank c = true)
    (hclosing : (braces '\x7d').Admits closing) :
    divide? [blanks, braces '\x7d'] (b ++ closing) = some [b, closing] := by
  have hbraces : divide? [braces '\x7d'] (closing ++ []) = some [closing] :=
    Text.divide?_cons_of_run rfl hclosing (by simp) rfl
  rw [List.append_nil] at hbraces
  refine Text.divide?_cons_of_run rfl (admits_blanks_iff.2 hb) ?_ hbraces
  intro c hc
  obtain ⟨more, rfl⟩ := exists_cons_of_admits_braces hclosing
  cases hc
  rfl

/-- No other character may stand before the closing braces. -/
@[simp] theorem divide?_blanks_eq_none {c : Char} (hc : c ∈ s) (hblank : isBlank c = false)
    (hfree : isBraceFree c = true) : divide? [blanks, braces '\x7d'] s = none := by
  rw [Text.divide?_eq_none_iff]
  intro texts hadmits hflatten
  obtain _ | ⟨hb, _ | ⟨hclosing, ⟨⟩⟩⟩ := hadmits
  rw [← hflatten] at hc
  simp only [List.flatten_cons, List.flatten_nil, List.append_nil, List.mem_append] at hc
  rcases hc with hc | hc
  · rw [admits_blanks_iff.1 hb c hc] at hblank
    cases hblank
  · have hbrace := eq_of_beq (hclosing.kind c hc)
    rw [hbrace] at hfree
    cases hfree

/-- **The name ends with its last character that is not blank.** -/
theorem divide?_name {b : List Char} (hname : name.Admits text)
    (hlast : ∀ c ∈ text.getLast?, isBlank c = false) (hb : ∀ c ∈ b, isBlank c = true)
    (hclosing : (braces '\x7d').Admits closing) :
    divide? [name, blanks, braces '\x7d'] (text ++ (b ++ closing)) = some [text, b, closing] := by
  refine Text.divide?_cons_of_preferred hname (divide?_blanks hb hclosing) ?_
  intro text' rest' hs _ hshorter
  have hshorter : text'.length < text.length := hshorter
  -- a shorter name leaves the last character to the blanks
  rcases List.append_eq_append_iff.1 hs with ⟨more, rfl, -⟩ | ⟨left, rfl, rfl⟩
  · rw [List.length_append] at hshorter
    omega
  · have hleft : left ≠ [] := by
      rintro rfl
      simp at hshorter
    have hmem : left.getLast hleft ∈ left := List.getLast_mem hleft
    refine divide?_blanks_eq_none (c := left.getLast hleft) (by simp [hmem]) (hlast _ ?_) ?_
    · simp [List.getLast?_append, List.getLast?_eq_some_getLast hleft]
    · exact hname.kind _ (by simp [hmem])

/-- There is no name before a brace. -/
@[simp] theorem divide?_name_eq_none {brace : Char} (hbrace : isBraceFree brace = false)
    (parts : List Text.Part) : divide? (name :: parts) (brace :: s) = none := by
  rw [Text.divide?_eq_none_iff]
  intro texts hadmits hflatten
  obtain _ | ⟨htext, -⟩ := hadmits
  obtain ⟨hne, hfree⟩ := admits_name_iff.1 htext
  obtain ⟨c, text, rfl⟩ := List.exists_cons_of_ne_nil hne
  rw [List.flatten_cons, List.cons_append, List.cons.injEq] at hflatten
  rw [← hflatten.1, hfree c List.mem_cons_self] at hbrace
  cases hbrace

/-- **Blanks alone** leave the last of them to the name. -/
theorem divide?_blank {c : Char} (hinner : ∀ d ∈ inner ++ [c], isBlank d = true)
    (hclosing : (braces '\x7d').Admits closing) :
    divide? [blanks, name, blanks, braces '\x7d'] (inner ++ (c :: closing)) =
      some [inner, [c], [], closing] := by
  have hblank : isBlank c = true := hinner c (by simp)
  have hrest : divide? [name, blanks, braces '\x7d'] ([c] ++ closing) =
      some [[c], [], closing] := by
    refine Text.divide?_cons_of_preferred
      (admits_name_iff.2 ⟨List.cons_ne_nil c [], by simpa using isBraceFree_of_isBlank hblank⟩)
      (divide?_blanks (b := []) (by simp) hclosing) ?_
    intro text' rest' _ htext' hshorter
    have hleast : 1 ≤ text'.length := htext'.least
    have hshorter : text'.length < 1 := hshorter
    omega
  refine Text.divide?_cons_of_preferred
    (admits_blanks_iff.2 fun d hd => hinner d (List.mem_append_left _ hd)) hrest ?_
  intro text' rest' hs htext' hlonger
  have hlonger : inner.length < text'.length := hlonger
  obtain ⟨more, hmore⟩ := exists_cons_of_admits_braces hclosing
  -- more blanks are all of them, and then the name would begin with a brace
  rcases List.append_eq_append_iff.1 hs with ⟨u, rfl, hu⟩ | ⟨u, rfl, -⟩
  · rcases u with _ | ⟨d, _ | ⟨e, u⟩⟩
    · simp at hlonger
    · rw [List.cons_append, List.cons.injEq, List.nil_append, hmore] at hu
      rw [← hu.2]
      exact divide?_name_eq_none rfl _
    · rw [hmore] at hu
      simp only [List.cons_append, List.cons.injEq] at hu
      have hbrace := admits_blanks_iff.1 htext' e (by simp)
      rw [← hu.2.1] at hbrace
      cases hbrace
  · rw [List.length_append] at hlonger
    omega

/-- A name is found if the rest behind the opening braces can be divided. -/
theorem templateName?_of_divide? (h : IsTemplate s opening inner closing) {a name b : List Char}
    (hrest : divide? parts.tail (inner ++ closing) = some [a, name, b, closing]) :
    templateName? s = some name := by
  have hopening : divide? parts (opening ++ (inner ++ closing)) =
      some [opening, a, name, b, closing] := by
    refine Text.divide?_cons_of_run rfl (admits_braces_iff.2 h.opening) ?_ hrest
    intro c hc
    obtain ⟨d, inner, rfl⟩ := List.exists_cons_of_ne_nil h.inner_ne_nil
    cases hc
    have hfree := h.inner_braceFree c List.mem_cons_self
    simp only [isBraceFree, Bool.and_eq_true, bne_iff_ne, ne_eq] at hfree
    simpa [braces] using hfree.1
  rw [templateName?, h.eq_append, List.append_assoc, hopening]

/-- **The name in a template** is what is between the braces, trimmed. -/
theorem templateName?_of_isTemplate (h : IsTemplate s opening inner closing)
    (hinner : ∃ c ∈ inner, isBlank c = false) : templateName? s = some (trim inner) := by
  obtain ⟨a, b, heq, hblank, hhead, hlast⟩ := Text.exists_eq_trim inner
  have hmem : ∀ c ∈ trim inner, c ∈ inner := by
    intro c hc
    rw [heq]
    simp [hc]
  have hne : trim inner ≠ [] := by
    intro hnil
    obtain ⟨c, hc, hcb⟩ := hinner
    rw [heq, hnil, List.append_nil] at hc
    rw [hblank c hc] at hcb
    cases hcb
  have hname := divide?_name
    (admits_name_iff.2 ⟨hne, fun c hc => h.inner_braceFree c (hmem c hc)⟩) hlast
    (fun c hc => hblank c (List.mem_append_right a hc)) (admits_braces_iff.2 h.closing)
  refine templateName?_of_divide? h (a := a) (b := b) ?_
  conv_lhs => rw [heq, List.append_assoc, List.append_assoc]
  refine Text.divide?_cons_of_run rfl
    (admits_blanks_iff.2 fun c hc => hblank c (List.mem_append_left b hc)) ?_ hname
  -- the name begins where the blanks end
  intro c hc
  rw [List.head?_append_of_ne_nil _ hne] at hc
  exact hhead c hc

/-- **The name in a template of blanks** is the last of them. -/
theorem templateName?_of_isBlank (h : IsTemplate s opening inner closing)
    (hinner : ∀ c ∈ inner, isBlank c = true) : templateName? s = some inner.getLast?.toList := by
  have hlast := List.dropLast_append_getLast h.inner_ne_nil
  rw [← hlast] at hinner
  refine templateName?_of_divide? h (a := inner.dropLast) (b := []) ?_
  rw [List.getLast?_eq_some_getLast h.inner_ne_nil, Option.toList_some]
  conv_lhs => rw [← hlast, List.append_assoc]
  exact divide?_blank hinner (admits_braces_iff.2 h.closing)

/-- **Where a name is found** there is a template around it. -/
theorem exists_isTemplate {name : List Char} (h : templateName? s = some name) :
    ∃ opening a b closing, IsTemplate s opening (a ++ name ++ b) closing := by
  unfold templateName? at h
  split at h
  · rename_i opening a name b closing hdivide
    cases h
    obtain ⟨hadmits, hflatten⟩ := Text.of_divide?_eq_some hdivide
    obtain _ | ⟨hopening, _ | ⟨ha, _ | ⟨hname, _ | ⟨hb, _ | ⟨hclosing, -⟩⟩⟩⟩⟩ := hadmits
    obtain ⟨hne, hfree⟩ := admits_name_iff.1 hname
    refine ⟨opening, a, b, closing, ?_, admits_braces_iff.1 hopening, admits_braces_iff.1 hclosing,
      by simp [hne], fun c hc => ?_⟩
    · simp [← hflatten]
    · simp only [List.mem_append] at hc
      rcases hc with (hc | hc) | hc
      · exact isBraceFree_of_isBlank (admits_blanks_iff.1 ha c hc)
      · exact hfree c hc
      · exact isBraceFree_of_isBlank (admits_blanks_iff.1 hb c hc)
  · cases h

end Template

namespace Processor

/-- **Templates are recognised exactly.** An `append` processor with a scalar for its field and
scalars for its values has one statement for each value, in order. What is appended is the value
itself, unless it is a template. In that case it is a reference to a field, the name of which has no
braces: it is what is between the braces, trimmed, or one blank if there are only blanks. -/
theorem entries_of_append (s : Settings) {p : Processor} {field : String} {values : List String}
    (happend : p.operation = .append) (hfield : (p.get? "field").bind Value.text? = some field)
    (hvalues : (p.get? "value").bind Value.texts? = some values) :
    p.entries s = .ok (values.map fun value =>
        .statement field ("array_append(" ++ appendArgument value ++ ")")) ∧
      ∀ value : String,
        ((∀ opening inner closing, ¬ IsTemplate value.toList opening inner closing) →
          appendArgument value = value) ∧
        ∀ opening inner closing, IsTemplate value.toList opening inner closing →
          ∃ name : List Char, appendArgument value = "$" ++ String.ofList name ∧
            (∀ c ∈ name, isBraceFree c = true) ∧
            ((∃ c ∈ inner, Text.isBlank c = false) → name = Text.trim inner) ∧
            ((∀ c ∈ inner, Text.isBlank c = true) → name = inner.getLast?.toList) := by
  refine ⟨?_, fun value => ⟨fun hplain => ?_, fun opening inner closing htemplate => ?_⟩⟩
  · rw [entries_of_ne s (by rw [happend]; decide), ownEntries, happend]
    dsimp only
    rw [appendEntries, requireText_eq_ok_iff.2 hfield, requireTexts_eq_ok_iff.2 hvalues]
    rfl
  -- whatever has a name is a template
  · have hnone : templateName? value.toList = none := by
      rw [Option.eq_none_iff_forall_ne_some]
      intro name hname
      obtain ⟨opening, a, b, closing, htemplate⟩ := Template.exists_isTemplate hname
      exact hplain _ _ _ htemplate
    rw [appendArgument, hnone]
  -- a template has a name, be there something between its braces or only blanks
  · have hsome : ∃ name, templateName? value.toList = some name := by
      by_cases hinner : ∃ c ∈ inner, Text.isBlank c = false
      · exact ⟨_, Template.templateName?_of_isTemplate htemplate hinner⟩
      · simp only [not_exists, not_and, Bool.not_eq_false] at hinner
        exact ⟨_, Template.templateName?_of_isBlank htemplate hinner⟩
    obtain ⟨name, hname⟩ := hsome
    refine ⟨name, by rw [appendArgument, hname], fun c hc => ?_, fun hinner => ?_, fun hinner => ?_⟩
    · obtain ⟨_, a, b, _, hfound⟩ := Template.exists_isTemplate hname
      exact hfound.inner_braceFree c (by simp [hc])
    · rw [Template.templateName?_of_isTemplate htemplate hinner] at hname
      exact (Option.some.inj hname).symm
    · rw [Template.templateName?_of_isBlank htemplate hinner] at hname
      exact (Option.some.inj hname).symm

/-- A template with more braces on one side, and a number. -/
def referenceSample : Processor :=
  ⟨.append, [("field", .string "tags"),
    ("value", .seq [.string "\x7b\x7b\x7b\thost name \x7d\x7d", .int 5])]⟩

/-- The template is exchanged for the field it names, and the number is no template. -/
theorem entries_of_append_referenceSample :
    referenceSample.entries {} = .ok [.statement "tags" "array_append($host name)",
      .statement "tags" "array_append(5)"] := by
  have hvalues : (referenceSample.get? "value").bind Value.texts? =
      some ["\x7b\x7b\x7b\thost name \x7d\x7d", "5"] := rfl
  have hfield : (referenceSample.get? "field").bind Value.text? = some "tags" := rfl
  obtain ⟨hentries, hargument⟩ := entries_of_append {} rfl hfield hvalues
  have htemplate : IsTemplate "\x7b\x7b\x7b\thost name \x7d\x7d".toList
      "\x7b\x7b\x7b".toList "\thost name ".toList "\x7d\x7d".toList :=
    ⟨by decide, by decide, by decide, by decide, List.all_eq_true.1 (by decide)⟩
  have hreference : appendArgument "\x7b\x7b\x7b\thost name \x7d\x7d" = "$host name" := by
    obtain ⟨name, hname, -, htrim, -⟩ := (hargument _).2 _ _ _ htemplate
    rw [hname, htrim ⟨'h', by decide, by decide⟩]
    decide
  have hnumber : appendArgument "5" = "5" := by
    refine (hargument "5").1 ?_
    rintro _ _ _ ⟨heq, hopening, -⟩
    simp only [List.mem_cons, List.not_mem_nil, or_false] at hopening
    rcases hopening with rfl | rfl <;> cases heq
  rw [hentries, List.map_cons, List.map_cons, List.map_nil, hreference, hnumber]
  rfl

end Processor

end IngestPipeline
