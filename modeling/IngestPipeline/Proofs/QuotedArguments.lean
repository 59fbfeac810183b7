import IngestPipeline.Proofs.Acceptance
import IngestPipeline.Proofs.Occurrence

/-! # Texts spliced between quotes

The entries of a `gsub` and of a `kv` processor are a call with several free texts in it, each
between quotes. The texts are spliced in as they are, so that a text with quotes and commas in it
can be taken for two arguments. This file says when the texts can be read off the call.

* **`Text.CutsOnce sep a b`**: the text `a ++ sep ++ b` has no other cut at `sep`.
* **`Text.BeginsIn`**, **`Text.EndsIn`**: another occurrence of the separator begins in the text in
  front of it, or ends in the text behind it. `cutsOnce_iff` says that these are the two ways in
  which a cut can be ambiguous, and `cutsTwice_iff` that two cuts can be looked at one by one.
* **`Substitution`**, **`KeyValues`**: the texts of the two kinds of processors.
* **`entries_determine_texts`**: equal entries come from equal texts unless a separator occurs in
  them, and from a processor whose texts have no such occurrence the texts can be read off. -/

namespace IngestPipeline

namespace Text

/-! ### Other cuts -/

/-- Where `sep` follows `a`, another occurrence of it begins in `a`. -/
def BeginsIn (sep a : List Char) : Prop := sep <:+: a ++ sep.dropLast

/-- Where `sep` stands in front of `b`, another occurrence of it ends in `b`. -/
def EndsIn (sep b : List Char) : Prop := sep <:+: sep.tail ++ b

/-- **A text with one cut**: the separator does not divide it into other parts. -/
def CutsOnce (sep a b : List Char) : Prop :=
  ∀ a' b', a' ++ sep ++ b' = a ++ sep ++ b → a' = a ∧ b' = b

instance (sep a : List Char) : Decidable (BeginsIn sep a) :=
  inferInstanceAs (Decidable (sep <:+: a ++ sep.dropLast))

instance (sep b : List Char) : Decidable (EndsIn sep b) :=
  inferInstanceAs (Decidable (sep <:+: sep.tail ++ b))

section Separator

variable {sep a b a' b' : List Char}

/-- **An earlier and a later cut**: the separator of the earlier one begins in front of the later
one, and the separator of the later one ends behind the earlier one. -/
theorem beginsIn_and_endsIn_of_lt (hne : sep ≠ []) (h : a ++ sep ++ b = a' ++ sep ++ b')
    (hlt : a.length < a'.length) : BeginsIn sep a' ∧ EndsIn sep b := by
  rw [List.append_assoc, List.append_assoc] at h
  obtain ⟨w, rfl, hw⟩ : ∃ w, a' = a ++ w ∧ sep ++ b = w ++ (sep ++ b') := by
    rcases List.append_eq_append_iff.1 h with hcut | ⟨w, rfl, -⟩
    · exact hcut
    · rw [List.length_append] at hlt
      omega
  have hwne : w ≠ [] := by
    rintro rfl
    simp at hlt
  constructor
  · have hfront : sep <+: w ++ sep.dropLast := by
      have hlong : w ++ sep.dropLast <+: w ++ (sep ++ b') :=
        (List.prefix_append_right_inj w).2 ((List.dropLast_prefix sep).trans
          (List.prefix_append sep b'))
      refine List.prefix_of_prefix_length_le ⟨b, hw⟩ hlong ?_
      have hpos := List.length_pos_iff.2 hwne
      rw [List.length_append, List.length_dropLast]
      omega
    rw [BeginsIn, List.append_assoc]
    exact hfront.isInfix.trans (List.suffix_append a _).isInfix
  · obtain ⟨c, sep, rfl⟩ := List.exists_cons_of_ne_nil hne
    obtain ⟨d, w, rfl⟩ := List.exists_cons_of_ne_nil hwne
    have htail : sep ++ b = w ++ (c :: sep ++ b') := (List.cons.inj hw).2
    exact ⟨w, b', by rw [List.tail_cons, htail, List.append_assoc]⟩

/-- Two cuts of one text are the same, or a separator begins and ends in the texts of different
cuts. -/
theorem eq_or_of_append_sep_eq (hne : sep ≠ []) (h : a ++ sep ++ b = a' ++ sep ++ b') :
    (a = a' ∧ b = b') ∨ (BeginsIn sep a ∧ EndsIn sep b') ∨ (BeginsIn sep a' ∧ EndsIn sep b) := by
  rcases Nat.lt_trichotomy a.length a'.length with hlt | heq | hlt
  · exact .inr (.inr (beginsIn_and_endsIn_of_lt hne h hlt))
  · rw [List.append_assoc, List.append_assoc] at h
    obtain ⟨ha, hrest⟩ := List.append_inj h heq
    exact .inl ⟨ha, List.append_cancel_left hrest⟩
  · exact .inr (.inl (beginsIn_and_endsIn_of_lt hne h.symm hlt))

/-- A separator that begins in the text in front gives an earlier cut. -/
theorem not_cutsOnce_of_beginsIn (hne : sep ≠ []) (h : BeginsIn sep a) : ¬ CutsOnce sep a b := by
  intro hcuts
  obtain ⟨x, y, hxy⟩ := h
  have hlast : sep.dropLast ++ [sep.getLast hne] = sep := List.dropLast_append_getLast hne
  have htext : x ++ sep ++ (y ++ [sep.getLast hne] ++ b) = a ++ sep ++ b := by
    calc x ++ sep ++ (y ++ [sep.getLast hne] ++ b)
        = x ++ sep ++ y ++ [sep.getLast hne] ++ b := by simp only [List.append_assoc]
      _ = a ++ (sep.dropLast ++ [sep.getLast hne]) ++ b := by rw [hxy, List.append_assoc a]
      _ = a ++ sep ++ b := by rw [hlast]
  have hlen := congrArg List.length hxy
  have hpos := List.length_pos_iff.2 hne
  rw [(hcuts x _ htext).1, List.length_append, List.length_append, List.length_append,
    List.length_dropLast] at hlen
  omega

/-- A separator that ends in the text behind gives a later cut. -/
theorem not_cutsOnce_of_endsIn (hne : sep ≠ []) (h : EndsIn sep b) : ¬ CutsOnce sep a b := by
  intro hcuts
  obtain ⟨x, y, hxy⟩ := h
  have hhead : [sep.head hne] ++ sep.tail = sep := List.cons_head_tail hne
  have htext : (a ++ [sep.head hne] ++ x) ++ sep ++ y = a ++ sep ++ b := by
    calc (a ++ [sep.head hne] ++ x) ++ sep ++ y
        = a ++ [sep.head hne] ++ (x ++ sep ++ y) := by simp only [List.append_assoc]
      _ = a ++ ([sep.head hne] ++ sep.tail) ++ b := by rw [hxy]; simp only [List.append_assoc]
      _ = a ++ sep ++ b := by rw [hhead]
  have hlen := congrArg List.length (hcuts _ y htext).1
  simp only [List.length_append, List.length_singleton] at hlen
  omega

/-- **A text has one cut** exactly if no other separator begins in front or ends behind. -/
theorem cutsOnce_iff (hne : sep ≠ []) : CutsOnce sep a b ↔ ¬ BeginsIn sep a ∧ ¬ EndsIn sep b := by
  constructor
  · intro h
    exact ⟨fun hbegins => not_cutsOnce_of_beginsIn hne hbegins h,
      fun hends => not_cutsOnce_of_endsIn hne hends h⟩
  · rintro ⟨hbegins, hends⟩ a' b' heq
    rcases eq_or_of_append_sep_eq hne heq with h | ⟨-, h⟩ | ⟨h, -⟩
    · exact h
    · exact absurd h hends
    · exact absurd h hbegins

/-- **Two cuts of a text are the only ones** exactly if each of them is, in the texts next to it. -/
theorem cutsTwice_iff {sep' c : List Char} (hne : sep' ≠ []) :
    (∀ a' b' c', a' ++ sep ++ (b' ++ sep' ++ c') = a ++ sep ++ (b ++ sep' ++ c) →
        a' = a ∧ b' = b ∧ c' = c) ↔
      CutsOnce sep a b ∧ CutsOnce sep' b c := by
  constructor
  · intro h
    constructor
    · intro a' b' heq
      have htext : a' ++ sep ++ (b' ++ sep' ++ c) = a ++ sep ++ (b ++ sep' ++ c) := by
        rw [← List.append_assoc, ← List.append_assoc, heq]
        simp only [List.append_assoc]
      obtain ⟨ha, hb, -⟩ := h a' b' c htext
      exact ⟨ha, hb⟩
    · intro b' c' heq
      exact (h a b' c' (by rw [heq])).2
  · rintro ⟨hfirst, hsecond⟩ a' b' c' heq
    have hback : (a' ++ sep ++ b') ++ sep' ++ c' = (a ++ sep ++ b) ++ sep' ++ c := by
      simpa only [List.append_assoc] using heq
    -- either the second separator is not later than before, and the first one is in its old part
    by_cases hle : (a' ++ sep ++ b').length ≤ (a ++ sep ++ b).length
    · obtain ⟨x, hx⟩ : a' ++ sep ++ b' <+: a ++ sep ++ b :=
        List.prefix_of_prefix_length_le ⟨sep' ++ c', by rw [← List.append_assoc]⟩
          ⟨sep' ++ c, by rw [← List.append_assoc, hback]⟩ hle
      rw [List.append_assoc] at hx
      obtain ⟨rfl, -⟩ := hfirst a' (b' ++ x) hx
      have hrest := List.append_cancel_left heq
      obtain ⟨hb, hc⟩ := hsecond b' c' hrest
      exact ⟨rfl, hb, hc⟩
    · -- or it ends in what was behind it
      have hends := (beginsIn_and_endsIn_of_lt hne hback.symm (Nat.lt_of_not_le hle)).2
      exact absurd hends ((cutsOnce_iff hne).1 hsecond).2

end Separator

end Text

namespace Processor

/-! ### Entries as a function of texts -/

section Texts

variable {α : Type} {s : Settings} {op : Operation} {texts : Processor → Except ProcessorError α}
  {entriesOf : α → List Entry}

/-- Two processors with equal entries have texts with equal entries. -/
theorem exists_texts_of_entries_eq
    (hentries : ∀ p : Processor, p.operation = op → p.entries s = (texts p).map entriesOf)
    {p q : Processor} {es : List Entry} (hp : p.operation = op) (hq : q.operation = op)
    (hpes : p.entries s = .ok es) (hqes : q.entries s = .ok es) :
    ∃ x y, texts p = .ok x ∧ texts q = .ok y ∧ entriesOf x = entriesOf y := by
  rw [hentries p hp, Except.map_eq_ok_iff] at hpes
  rw [hentries q hq, Except.map_eq_ok_iff] at hqes
  obtain ⟨x, hx, hxes⟩ := hpes
  obtain ⟨y, hy, hyes⟩ := hqes
  exact ⟨x, y, hx, hy, hxes.trans hyes.symm⟩

/-- The texts of a processor can be read off its entries exactly if no other texts give the same
entries. -/
theorem texts_determined_iff (processor : α → Processor)
    (hentries : ∀ p : Processor, p.operation = op → p.entries s = (texts p).map entriesOf)
    (hop : ∀ x, (processor x).operation = op)
    (htexts : ∀ x, texts (processor x) = .ok x) {p : Processor} (hp : p.operation = op) {x : α}
    (hx : texts p = .ok x) :
    (∀ q : Processor, q.operation = op → q.entries s = p.entries s → texts q = .ok x) ↔
      ∀ y, entriesOf y = entriesOf x → y = x := by
  have hpes : p.entries s = .ok (entriesOf x) := by
    rw [hentries p hp, hx]
    rfl
  constructor
  · intro h y hy
    have hyes : (processor y).entries s = p.entries s := by
      rw [hentries _ (hop y), htexts y, hpes, ← hy]
      rfl
    have hsame := h _ (hop y) hyes
    rw [htexts y] at hsame
    exact Except.ok.inj hsame
  · intro h q hq hqes
    rw [hpes, hentries q hq, Except.map_eq_ok_iff] at hqes
    obtain ⟨y, hy, hyes⟩ := hqes
    rw [hy, h y hyes]

end Texts

/-- A statement determines its field and its expression. -/
@[simp] theorem one_eq_one_iff {f e f' e' : String} : one f e = one f' e' ↔ f = f' ∧ e = e' := by
  simp [one]

/-! ### Substitutions -/

/-- **The texts of a `gsub` processor.** -/
@[ext] structure Substitution where
  /-- The field that holds the text. -/
  field : String
  /-- The expression to be replaced. -/
  pattern : String
  /-- What it is replaced by. -/
  replacement : String
  deriving DecidableEq, Repr

namespace Substitution

/-- What stands between the pattern and the replacement in the call. -/
def separator : List Char := "\",\"".toList

/-- The call of a substitution. -/
def call (x : Substitution) : String :=
  "replace(\"" ++ x.pattern ++ "\",\"" ++ x.replacement ++ "\")"

/-- A processor with the given texts. -/
def processor (x : Substitution) : Processor :=
  ⟨.gsub, [("field", .string x.field), ("pattern", .string x.pattern),
    ("replacement", .string x.replacement)]⟩

/-- **Texts that can be read off the entries**: no other separator begins in the pattern or ends in
the replacement. -/
def IsReadable (x : Substitution) : Prop :=
  ¬ Text.BeginsIn separator x.pattern.toList ∧ ¬ Text.EndsIn separator x.replacement.toList

/-- Another separator begins in the pattern of `x` and ends in the replacement of `y`. -/
def Overlaps (x y : Substitution) : Prop :=
  Text.BeginsIn separator x.pattern.toList ∧ Text.EndsIn separator y.replacement.toList

/-- The characters of a call: both arguments in double quotes, with the separator between them. -/
theorem toList_call (x : Substitution) :
    x.call.toList = "replace(\"".toList ++
      (x.pattern.toList ++ separator ++ x.replacement.toList) ++ "\")".toList := by
  simp only [call, separator, String.toList_append, List.append_assoc]

/-- The entries show the field, and the other two texts with the separator between them. -/
theorem one_call_eq_iff {x y : Substitution} :
    one x.field x.call = one y.field y.call ↔ x.field = y.field ∧
      x.pattern.toList ++ separator ++ x.replacement.toList =
        y.pattern.toList ++ separator ++ y.replacement.toList := by
  rw [one_eq_one_iff]
  refine and_congr_right fun _ => ?_
  rw [← String.toList_inj, toList_call, toList_call, List.append_left_inj, List.append_right_inj]

/-- Equal entries come from equal texts, or from texts that overlap. -/
theorem eq_or_overlaps {x y : Substitution} (h : one x.field x.call = one y.field y.call) :
    x.field = y.field ∧ (x = y ∨ x.Overlaps y ∨ y.Overlaps x) := by
  obtain ⟨hfield, htext⟩ := one_call_eq_iff.1 h
  refine ⟨hfield, (Text.eq_or_of_append_sep_eq (by decide) htext).imp_left ?_⟩
  rintro ⟨hpattern, hreplacement⟩
  exact Substitution.ext hfield (String.toList_inj.1 hpattern) (String.toList_inj.1 hreplacement)

/-- No other texts have the entries of `x` exactly if `x` can be read off them. -/
theorem forall_one_call_eq_iff {x : Substitution} :
    (∀ y : Substitution, one y.field y.call = one x.field x.call → y = x) ↔ x.IsReadable := by
  rw [IsReadable, ← Text.cutsOnce_iff (by decide)]
  constructor
  · intro h a b hab
    have hsame := h ⟨x.field, String.ofList a, String.ofList b⟩
      (one_call_eq_iff.2 ⟨rfl, by simpa using hab⟩)
    rw [← hsame]
    simp
  · intro h y hy
    obtain ⟨hfield, htext⟩ := one_call_eq_iff.1 hy
    obtain ⟨hpattern, hreplacement⟩ := h _ _ htext
    exact Substitution.ext hfield (String.toList_inj.1 hpattern) (String.toList_inj.1 hreplacement)

end Substitution

/-- The texts of a `gsub` processor. -/
def substitution (p : Processor) : Except ProcessorError Substitution := do
  let field ← p.requireText "field"
  let pattern ← p.requireText "pattern"
  let replacement ← p.requireText "replacement"
  return ⟨field, pattern, replacement⟩

/-- The entries of `gsub` are the call that its options make. -/
theorem entries_of_gsub (s : Settings) (p : Processor) (h : p.operation = .gsub) :
    p.entries s = p.substitution.map fun x => one x.field x.call := by
  rw [entries_of_ne s (by rw [h]; decide), ownEntries, h, substitution]
  simp only [Except.map_bind]
  rfl

/-! ### Key–value pairs -/

/-- **The texts of a `kv` processor.** -/
@[ext] structure KeyValues where
  /-- The field that holds the text. -/
  field : String
  /-- The field that receives the pairs. -/
  target : String
  /-- What stands between a key and its value. -/
  valueSplit : String
  /-- What stands between two pairs. -/
  fieldSplit : String
  deriving DecidableEq, Repr

namespace KeyValues

/-- What stands between the field and the first quoted argument in the call. -/
def opening : List Char := ", '".toList

/-- What stands between the two quoted arguments in the call. -/
def separator : List Char := "', '".toList

/-- The call of a processor with the given texts. -/
def call (x : KeyValues) : String :=
  "parse_key_value($" ++ x.field ++ ", '" ++ x.valueSplit ++ "', '" ++ x.fieldSplit ++
    "', '\"', '\\\\')"

/-- A processor with the given texts. -/
def processor (x : KeyValues) : Processor :=
  ⟨.kv, [("field", .string x.field), ("target_field", .string x.target),
    ("value_split", .string x.valueSplit), ("field_split", .string x.fieldSplit)]⟩

/-- The part of the call that the texts make up. -/
def arguments (x : KeyValues) : List Char :=
  x.field.toList ++ opening ++ (x.valueSplit.toList ++ separator ++ x.fieldSplit.toList)

/-- **Texts that can be read off the entries**: no other opening begins in the field or ends in what
splits a value, and no other separator begins in what splits a value or ends in what splits two
pairs. -/
def IsReadable (x : KeyValues) : Prop :=
  (¬ Text.BeginsIn opening x.field.toList ∧ ¬ Text.EndsIn opening x.valueSplit.toList) ∧
    ¬ Text.BeginsIn separator x.valueSplit.toList ∧ ¬ Text.EndsIn separator x.fieldSplit.toList

/-- Another opening begins in the field of `x`; or the fields are the same, and another separator
begins in what splits a value in `x` and ends in what splits two pairs in `y`. -/
def Overlaps (x y : KeyValues) : Prop :=
  Text.BeginsIn opening x.field.toList ∨
    x.field = y.field ∧ Text.BeginsIn separator x.valueSplit.toList ∧
      Text.EndsIn separator y.fieldSplit.toList

/-- The characters of a call: all arguments, and two that are always the same. -/
theorem toList_call (x : KeyValues) :
    x.call.toList = "parse_key_value($".toList ++ x.arguments ++ "', '\"', '\\\\')".toList := by
  unfold call
  rw [String.toList_append, String.toList_append, String.toList_append, String.toList_append,
    String.toList_append, String.toList_append]
  simp only [arguments, opening, separator, List.append_assoc]

/-- The entries show the target, and the other three texts with what stands between them. -/
theorem one_call_eq_iff {x y : KeyValues} :
    one x.target x.call = one y.target y.call ↔
      x.target = y.target ∧ x.arguments = y.arguments := by
  rw [one_eq_one_iff]
  refine and_congr_right fun _ => ?_
  rw [← String.toList_inj, toList_call, toList_call, List.append_left_inj, List.append_right_inj]

/-- Equal entries come from equal texts, or from texts that overlap. -/
theorem eq_or_overlaps {x y : KeyValues} (h : one x.target x.call = one y.target y.call) :
    x.target = y.target ∧ (x = y ∨ x.Overlaps y ∨ y.Overlaps x) := by
  obtain ⟨htarget, htext⟩ := one_call_eq_iff.1 h
  refine ⟨htarget, ?_⟩
  rcases Text.eq_or_of_append_sep_eq (by decide) htext with
    ⟨hfield, hquoted⟩ | ⟨hbegins, -⟩ | ⟨hbegins, -⟩
  · -- the fields agree, so the two quoted texts are compared as in a substitution
    have hfield := String.toList_inj.1 hfield
    rcases Text.eq_or_of_append_sep_eq (by decide) hquoted with
      ⟨hvalue, hsplit⟩ | hoverlap | hoverlap
    · exact .inl (KeyValues.ext hfield htarget (String.toList_inj.1 hvalue)
        (String.toList_inj.1 hsplit))
    · exact .inr (.inl (.inr ⟨hfield, hoverlap⟩))
    · exact .inr (.inr (.inr ⟨hfield.symm, hoverlap⟩))
  · exact .inr (.inl (.inl hbegins))
  · exact .inr (.inr (.inl hbegins))

/-- No other texts have the entries of `x` exactly if `x` can be read off them. -/
theorem forall_one_call_eq_iff {x : KeyValues} :
    (∀ y : KeyValues, one y.target y.call = one x.target x.call → y = x) ↔ x.IsReadable := by
  rw [IsReadable, ← Text.cutsOnce_iff (by decide), ← Text.cutsOnce_iff (by decide),
    ← Text.cutsTwice_iff (by decide)]
  constructor
  · intro h a b c habc
    have hsame := h ⟨String.ofList a, x.target, String.ofList b, String.ofList c⟩
      (one_call_eq_iff.2 ⟨rfl, by simpa [arguments] using habc⟩)
    rw [← hsame]
    simp
  · intro h y hy
    obtain ⟨htarget, htext⟩ := one_call_eq_iff.1 hy
    obtain ⟨hfield, hvalue, hsplit⟩ := h _ _ _ htext
    exact KeyValues.ext (String.toList_inj.1 hfield) htarget (String.toList_inj.1 hvalue)
      (String.toList_inj.1 hsplit)

end KeyValues

/-- The texts of a `kv` processor. -/
def keyValues (p : Processor) : Except ProcessorError KeyValues := do
  let field ← p.requireText "field"
  let target ← p.requireText "target_field"
  let valueSplit ← p.requireText "value_split"
  let fieldSplit ← p.requireText "field_split"
  return ⟨field, target, valueSplit, fieldSplit⟩

/-- The entries of `kv` are the call that its options make. -/
theorem entries_of_kv (s : Settings) (p : Processor) (h : p.operation = .kv) :
    p.entries s = p.keyValues.map fun x => one x.target x.call := by
  rw [entries_of_ne s (by rw [h]; decide), ownEntries, h, keyValues]
  simp only [Except.map_bind]
  rfl

/-! ### Two processors -/

/-- **Equal entries come from equal texts unless separators occur in them.** Two `gsub` or two `kv`
processors with the same entries have the same texts, or their texts overlap; and exactly those
texts can be read off the entries in which no other separator begins or ends. -/
theorem entries_determine_texts (s : Settings) :
    (∀ {p q : Processor} {es : List Entry}, p.operation = .gsub → q.operation = .gsub →
      p.entries s = .ok es → q.entries s = .ok es →
      ∃ x y, p.substitution = .ok x ∧ q.substitution = .ok y ∧ x.field = y.field ∧
        (x = y ∨ x.Overlaps y ∨ y.Overlaps x)) ∧
    (∀ {p : Processor} {x : Substitution}, p.operation = .gsub → p.substitution = .ok x →
      ((∀ q : Processor, q.operation = .gsub → q.entries s = p.entries s →
        q.substitution = .ok x) ↔ x.IsReadable)) ∧
    (∀ {p q : Processor} {es : List Entry}, p.operation = .kv → q.operation = .kv →
      p.entries s = .ok es → q.entries s = .ok es →
      ∃ x y, p.keyValues = .ok x ∧ q.keyValues = .ok y ∧ x.target = y.target ∧
        (x = y ∨ x.Overlaps y ∨ y.Overlaps x)) ∧
    (∀ {p : Processor} {x : KeyValues}, p.operation = .kv → p.keyValues = .ok x →
      ((∀ q : Processor, q.operation = .kv → q.entries s = p.entries s →
        q.keyValues = .ok x) ↔ x.IsReadable)) := by
  refine ⟨?_, ?_, ?_, ?_⟩
  · intro p q es hp hq hpes hqes
    obtain ⟨x, y, hx, hy, hxy⟩ := exists_texts_of_entries_eq (entries_of_gsub s) hp hq hpes hqes
    exact ⟨x, y, hx, hy, Substitution.eq_or_overlaps hxy⟩
  · intro p x hp hx
    rw [texts_determined_iff Substitution.processor (entries_of_gsub s) (fun _ => rfl)
      (fun _ => rfl) hp hx, Substitution.forall_one_call_eq_iff]
  · intro p q es hp hq hpes hqes
    obtain ⟨x, y, hx, hy, hxy⟩ := exists_texts_of_entries_eq (entries_of_kv s) hp hq hpes hqes
    exact ⟨x, y, hx, hy, KeyValues.eq_or_overlaps hxy⟩
  · intro p x hp hx
    rw [texts_determined_iff KeyValues.processor (entries_of_kv s) (fun _ => rfl)
      (fun _ => rfl) hp hx, KeyValues.forall_one_call_eq_iff]

/-- Arguments with backslashes and quotes that can still be told apart. -/
theorem entries_determine_texts_backslash :
    ((Substitution.mk "f" "a\"" "\\b,\"").IsReadable ∧
      ∀ q : Processor, q.operation = .gsub →
        q.entries {} = (Substitution.mk "f" "a\"" "\\b,\"").processor.entries {} →
        q.substitution = .ok ⟨"f", "a\"", "\\b,\""⟩) ∧
    (KeyValues.mk "f" "t" "='" "\\,'").IsReadable ∧
      ∀ q : Processor, q.operation = .kv →
        q.entries {} = (KeyValues.mk "f" "t" "='" "\\,'").processor.entries {} →
        q.keyValues = .ok ⟨"f", "t", "='", "\\,'"⟩ := by
  have hgsub : (Substitution.mk "f" "a\"" "\\b,\"").IsReadable := by
    unfold Substitution.IsReadable
    decide
  have hkv : (KeyValues.mk "f" "t" "='" "\\,'").IsReadable := by
    unfold KeyValues.IsReadable
    decide
  exact ⟨⟨hgsub, ((entries_determine_texts {}).2.1 rfl rfl).2 hgsub⟩,
    hkv, ((entries_determine_texts {}).2.2.2 rfl rfl).2 hkv⟩

/-- **Quoted texts run into each other**: a separator in a text is not told from the one between two
arguments, so that processors with different texts have the same entries. -/
theorem entries_eq_of_other_texts :
    ((Substitution.mk "f" "a\",\"b" "c").processor.entries {} =
        .ok [.statement "f" "replace(\"a\",\"b\",\"c\")"] ∧
      (Substitution.mk "f" "a" "b\",\"c").processor.entries {} =
        .ok [.statement "f" "replace(\"a\",\"b\",\"c\")"] ∧
      (Substitution.mk "f" "a\",\"b" "c").processor.substitution ≠
        (Substitution.mk "f" "a" "b\",\"c").processor.substitution) ∧
    (KeyValues.mk "f" "t" "a', 'b" "c").processor.entries {} =
        .ok [.statement "t" "parse_key_value($f, 'a', 'b', 'c', '\"', '\\\\')"] ∧
      (KeyValues.mk "f" "t" "a" "b', 'c").processor.entries {} =
        .ok [.statement "t" "parse_key_value($f, 'a', 'b', 'c', '\"', '\\\\')"] ∧
      (KeyValues.mk "f" "t" "a', 'b" "c").processor.keyValues ≠
        (KeyValues.mk "f" "t" "a" "b', 'c").processor.keyValues := by
  refine ⟨⟨?_, ?_, fun h => ?_⟩, ?_, ?_, fun h => ?_⟩
  · exact (entries_of_gsub {} _ rfl).trans rfl
  · exact (entries_of_gsub {} _ rfl).trans rfl
  · exact absurd (Except.ok.inj h) (by decide)
  · exact (entries_of_kv {} _ rfl).trans rfl
  · exact (entries_of_kv {} _ rfl).trans rfl
  · exact absurd (Except.ok.inj h) (by decide)

end Processor

end IngestPipeline
