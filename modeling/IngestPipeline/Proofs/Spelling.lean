import IngestPipeline.Proofs.OptionOrder
import IngestPipeline.Yaml.Scalar

/-! # Numbers and truth values as texts

Where a processor reads a text, a number or a truth value counts as its text. This file writes such
values as strings, in the options of a processor and of those inside it, and shows that no
contribution sees it.

* **`Value.Numeral`**: a number or truth value that a scalar can denote.
* **`Value.Spelled`**: such a value, and the string of its text.
* **`Value.OptionPlace`**: a processor with a place for the value of one option.
* **`Value.Respelled`**: two processors, the second with one more value spelled out.
* **`Value.ReadAlike`**: two values that are read alike as the value of an option.
* **`Processor.Respelled`**: two processors that differ in such values only. They are read alike
  (`Respelled.sameReads`), and stay so when the timestamp marker is resolved, unless a number has
  the text of the marker (`Respelled.resolveTimestamp`).
* **`contribution_of_respellings`**: however many values are spelled out, the contribution is the
  same, and the fault too. -/

namespace IngestPipeline

/-! ### Spelling a value out -/

namespace Value

/-- Whether the value is a number or a truth value. -/
def isNumeral : Value → Bool
  | .int _ | .float _ | .bool _ => true
  | _ => false

/-- **A number or truth value that an unquoted scalar denotes.** -/
structure Numeral (x : Value) : Prop where
  isNumeral : x.isNumeral = true
  /-- Integers beyond 64 bits are denoted by none. -/
  denoted : ∃ scalar, Yaml.readPlain scalar = some x

/-- **A number or truth value and the string of its text.** -/
inductive Spelled : Value → Value → Prop
  /-- The text is the one that the value is read as. -/
  | intro {x : Value} {text : String} (hx : x.Numeral) (htext : x.text? = some text) :
      Spelled x (.string text)

/-- Both have the same text. -/
theorem Spelled.text?_eq {x y : Value} (h : Spelled x y) : x.text? = y.text? := by
  obtain ⟨-, htext⟩ := h
  exact htext

/-- Neither is null. -/
theorem Spelled.isNull_eq {x y : Value} (h : Spelled x y) :
    x.isNull = false ∧ y.isNull = false := by
  obtain ⟨-, htext⟩ := h
  refine ⟨isNull_of_isScalar ?_, rfl⟩
  rw [← isSome_text?, htext]
  rfl

/-- **A processor with a place for the value of one option.** Whatever stands around the place,
there may be more options of the same name and other entries beside the operation. -/
structure OptionPlace where
  /-- The key of the operation. -/
  key : Value
  /-- The key of the option. -/
  name : Value
  /-- The options in front of it. -/
  front : List (Value × Value)
  /-- The options behind it. -/
  rest : List (Value × Value)
  /-- The entries in front of the operation. -/
  above : List (Value × Value) := []
  /-- The entries behind the operation. -/
  below : List (Value × Value) := []

/-- The options with `x` in the place. -/
def OptionPlace.body (c : OptionPlace) (x : Value) : Value :=
  .map (c.front ++ (c.name, x) :: c.rest)

/-- The processor with `x` in the place. -/
def OptionPlace.fill (c : OptionPlace) (x : Value) : Value :=
  .map (c.above ++ (c.key, c.body x) :: c.below)

/-- **One more value spelled out** in a processor. -/
inductive Respelled : Value → Value → Prop
  /-- It is the value of an option. -/
  | option (c : OptionPlace) {x y : Value} (h : Spelled x y) : Respelled (c.fill x) (c.fill y)
  /-- It is an item of the option that the operation reads as a list. -/
  | item (c : OptionPlace) {op : Operation} {o : String} {x y : Value} (xs ys : List Value)
      (hkey : c.key.untag = .string op.name) (hlist : op.listOption? = some o)
      (hname : c.name.text? = some o) (h : Spelled x y) :
      Respelled (c.fill (.seq (xs ++ x :: ys))) (c.fill (.seq (xs ++ y :: ys)))
  /-- It is in the processor inside a `foreach`. -/
  | nested (c : OptionPlace) {v w : Value} (hkey : c.key.untag = .string Operation.foreach.name)
      (hname : c.name.text? = some "processor") (h : Respelled v w) :
      Respelled (c.fill v) (c.fill w)

/-- Neither of the processors is null. -/
theorem Respelled.isNull_eq {v w : Value} (h : Respelled v w) :
    v.isNull = false ∧ w.isNull = false := by
  cases h <;> exact ⟨rfl, rfl⟩

/-! ### Values that are read alike -/

/-- **Two values that an operation reads alike** under the name of an option. -/
inductive ReadAlike (op : Operation) (o : String) : Value → Value → Prop
  /-- One is the text of the other. -/
  | spelled {x y : Value} (h : Spelled x y) : ReadAlike op o x y
  /-- The option is read as a list, and an item of one is the text of that of the other. -/
  | item {x y : Value} (xs ys : List Value) (hlist : op.listOption? = some o) (h : Spelled x y) :
      ReadAlike op o (.seq (xs ++ x :: ys)) (.seq (xs ++ y :: ys))

namespace ReadAlike

variable {op : Operation} {o : String} {x y : Value}

/-- Values that are read alike have the same text, or none. -/
theorem text?_eq (h : ReadAlike op o x y) : x.text? = y.text? := by
  cases h with
  | spelled h => exact h.text?_eq
  | item => rfl

/-- Where no list is read, one is the text of the other. -/
theorem spelled_of_listOption?_ne (h : ReadAlike op o x y) (hlist : op.listOption? ≠ some o) :
    Spelled x y := by
  cases h with
  | spelled h => exact h
  | item _ _ hlist' => exact absurd hlist' hlist

end ReadAlike

/-! ### What is read in a place -/

/-- **An option is in the place or somewhere else**, and then what is in the place does not matter
to it. -/
theorem OptionPlace.option?_body_cases (c : OptionPlace) (o : String) :
    (∃ a, ∀ x, (c.body x).option? o = a) ∨
      c.name.text? = some o ∧ ∀ x, (c.body x).option? o = (some x).filter fun v => !v.isNull := by
  by_cases hname : c.name.text? = some o
  · by_cases hlast : ∀ e ∈ c.rest, e.1.text? ≠ some o
    · exact .inr ⟨hname, fun x => option?_append_cons hname hlast⟩
    · -- a later option has the same name
      obtain ⟨e, he, hhidden⟩ : ∃ e ∈ c.rest, e.1.text? = some o := by simpa using hlast
      have hfound : ((c.rest.reverse.map fun e => (e.1.text?, e.2)).lookup (some o)).isSome := by
        rw [List.lookup_isSome_iff]
        exact ⟨_, List.mem_map_of_mem (List.mem_reverse.2 he), by simp [hhidden]⟩
      refine .inl ⟨(c.body .null).option? o, fun x => ?_⟩
      simp only [body, option?, List.reverse_append, List.reverse_cons, List.append_assoc,
        List.map_append, List.lookup_append, Option.or_of_isSome hfound]
  · exact .inl ⟨_, fun x => option?_append_cons_of_ne hname⟩

end Value

namespace Processor

/-- A mapping with more entries than one, or with none, is refused for their number. -/
theorem ofValue_of_length_ne_one {es : List (Value × Value)} (h : es.length ≠ 1) :
    ofValue (.map es) = .error (.malformed (.keyCount es.length)) := by
  match es with
  | [] => rfl
  | [_] => exact absurd rfl h
  | _ :: _ :: _ => rfl

/-- **Decoding does not see what is in the place**: whatever it is, the processor is refused for the
same reason, or has the operation of its key and the options of its body. -/
theorem ofValue_fill_cases (c : Value.OptionPlace) (x y : Value) :
    (∃ e, ofValue (c.fill x) = .error e ∧ ofValue (c.fill y) = .error e) ∨
      ∃ p q, ofValue (c.fill x) = .ok p ∧ ofValue (c.fill y) = .ok q ∧
        p.operation = q.operation ∧ c.key.untag = .string p.operation.name ∧
        p.get? = (c.body x).option? ∧ q.get? = (c.body y).option? := by
  by_cases hbeside : c.above = [] ∧ c.below = []
  · have hfill : ∀ z, c.fill z = .map [(c.key, c.body z)] := by
      intro z
      rw [Value.OptionPlace.fill, hbeside.1, hbeside.2, List.nil_append]
    obtain ⟨op, hop⟩ | ⟨e, he⟩ := operation_or_error c.key
    · have hdenotes : ∀ z, (c.fill z).Denotes op (c.body z) := by
        intro z
        rw [hfill]
        exact ⟨c.key, rfl, hop⟩
      have hshape : (c.body x).isBody = (c.body y).isBody := by
        simp [Value.OptionPlace.body, Value.isBody]
      obtain herror | ⟨p, q, hp, hq⟩ := ofValue_map_cases (hdenotes x) (hdenotes y) hshape
      · exact .inl herror
      · have hpop := operation_of_ofValue (hdenotes x) hp
        have hqop := operation_of_ofValue (hdenotes y) hq
        exact .inr ⟨p, q, hp, hq, hpop.trans hqop.symm, by rw [hpop, hop],
          get?_of_ofValue (hdenotes x) hp, get?_of_ofValue (hdenotes y) hq⟩
    · rw [hfill, hfill]
      exact .inl ⟨e, he _, he _⟩
  · -- beside other entries the operation is not looked at
    have hlength : ∀ z, (c.above ++ (c.key, c.body z) :: c.below).length ≠ 1 := by
      intro z hone
      rw [List.length_append, List.length_cons] at hone
      exact hbeside ⟨List.length_eq_zero_iff.1 (by omega), List.length_eq_zero_iff.1 (by omega)⟩
    refine .inl ⟨_, ofValue_of_length_ne_one (hlength x), ?_⟩
    rw [Value.OptionPlace.fill, ofValue_of_length_ne_one (hlength y)]
    simp

/-- An option has the value in the place, or the same value in both. -/
theorem get?_fill_cases {c : Value.OptionPlace} {x y : Value} {p q : Processor}
    (hp : p.get? = (c.body x).option?) (hq : q.get? = (c.body y).option?)
    (hx : x.isNull = false) (hy : y.isNull = false) (o : String) :
    p.get? o = q.get? o ∨ c.name.text? = some o ∧ p.get? o = some x ∧ q.get? o = some y := by
  rw [hp, hq]
  obtain ⟨a, ha⟩ | ⟨hname, hplace⟩ := c.option?_body_cases o
  · exact .inl ((ha x).trans (ha y).symm)
  · refine .inr ⟨hname, ?_, ?_⟩
    · rw [hplace, Option.filter_some, hx]
      rfl
    · rw [hplace, Option.filter_some, hy]
      rfl

/-! ### Processors that are read alike -/

/-- **Two processors with values spelled out**: the options that are read have the same values, or
values that are read alike. -/
structure Respelled (s : Settings) (p q : Processor) : Prop where
  /-- They have the same operation. -/
  operation : p.operation = q.operation
  /-- The options that it reads are read alike. -/
  option : ∀ o ∈ p.operation.ownOptions, p.get? o = q.get? o ∨
    ∃ x y, p.get? o = some x ∧ q.get? o = some y ∧ x.ReadAlike p.operation o y
  /-- The processors inside them have the same map entries. -/
  wrapped : SameWrapped s p q

/-- Items are read by their texts. -/
theorem itemTexts?_append_cons {x y : Value} (h : x.text? = y.text?) (xs ys : List Value) :
    itemTexts? (xs ++ x :: ys) = itemTexts? (xs ++ y :: ys) := by
  induction xs with
  | nil => rw [List.nil_append, List.nil_append, itemTexts?, itemTexts?, h]
  | cons z xs ih => rw [List.cons_append, List.cons_append, itemTexts?, itemTexts?, ih]

namespace Respelled

variable {s : Settings} {p q : Processor} {o : String}

/-- An option has the same text in both, or the same fault. -/
theorem text?_eq (h : Respelled s p q) (ho : o ∈ p.operation.ownOptions) :
    p.text? o = q.text? o := by
  obtain heq | ⟨x, y, hx, hy, hread⟩ := h.option o ho
  · exact text?_congr h.operation heq
  · rw [text?, text?, hx, hy]
    dsimp only
    rw [hread.text?_eq, invalid, invalid, h.operation]

/-- An option has the same texts in both, or the same fault. -/
theorem texts?_eq (h : Respelled s p q) (ho : o ∈ p.operation.ownOptions) :
    p.texts? o = q.texts? o := by
  obtain heq | ⟨x, y, hx, hy, hread⟩ := h.option o ho
  · exact texts?_congr h.operation heq
  · cases hread with
    | spelled hspelled =>
        obtain @⟨text, -, htext⟩ := hspelled
        have hleft : p.texts? o = .ok (some [text]) := by
          rw [texts?_eq_ok_iff, hx, Option.map_some, Value.texts?_of_text? htext]
          rfl
        rw [hleft, eq_comm, texts?_eq_ok_iff, hy]
        rfl
    | item xs ys _ hspelled =>
        rw [texts?, texts?, hx, hy]
        dsimp only
        rw [itemTexts?_append_cons hspelled.text?_eq, invalid, invalid, h.operation]

/-- A value to set is written by its text. -/
theorem literal_eq (h : Respelled s p q) (hset : p.operation = .set) :
    (p.get? "value").map p.literal = (q.get? "value").map q.literal := by
  obtain heq | ⟨x, y, hx, hy, hread⟩ := h.option "value" (by rw [hset]; decide)
  · rw [heq, literal_congr h.operation]
  · obtain ⟨-, htext⟩ := hread.spelled_of_listOption?_ne (by rw [hset]; decide)
    rw [hx, hy, Option.map_some, Option.map_some, literal, literal, htext]
    rfl

/-- A number is no mapping, and neither is its text. -/
theorem definitions_eq (h : Respelled s p q) (hgrok : p.operation = .grok) :
    p.mapping? "pattern_definitions" = q.mapping? "pattern_definitions" := by
  obtain heq | ⟨x, y, hx, hy, hread⟩ := h.option "pattern_definitions" (by rw [hgrok]; decide)
  · exact mapping?_congr h.operation heq
  · obtain ⟨⟨hnumeral, -⟩, -⟩ := hread.spelled_of_listOption?_ne (by rw [hgrok]; decide)
    rw [mapping?, mapping?, hx, hy, invalid, invalid, h.operation]
    cases x with
    | int _ | float _ | bool _ => rfl
    | _ => cases hnumeral

/-- **They are read alike.** -/
theorem sameReads (h : Respelled s p q) : SameReads p q where
  operation := h.operation
  text o ho := h.text?_eq (by simp [Operation.ownOptions, ho])
  list o ho := h.texts?_eq (by simp [Operation.ownOptions, ho])
  literal := h.literal_eq
  definitions := h.definitions_eq

end Respelled

end Processor

/-- **A marker that is the text of no number or truth value.** -/
def Settings.MarkerIsNoNumeral (s : Settings) : Prop :=
  ∀ x : Value, x.Numeral → x.text? ≠ some s.timestampMarker

/-- The default marker is a word. -/
theorem Settings.markerIsNoNumeral_default : ({} : Settings).MarkerIsNoNumeral := by
  intro x hx htext
  have hstring := Value.eq_string_of_word (by simp) htext
  rw [hstring] at hx
  cases hx.isNumeral

namespace Processor

variable {s : Settings} {p q : Processor}

/-- What is read alike without being the same is no marker. -/
theorem not_isMarked_of_readAlike (hs : s.MarkerIsNoNumeral) {op : Operation} {x y : Value}
    (hp : p.get? "field" = some x) (hq : q.get? "field" = some y)
    (h : x.ReadAlike op "field" y) : ¬ p.IsMarked s ∧ ¬ q.IsMarked s := by
  rw [IsMarked, IsMarked, hp, hq, Option.map_some, Option.map_some, Option.some_inj,
    Option.some_inj]
  cases h with
  | spelled h =>
      obtain ⟨hx, htext⟩ := h
      refine ⟨?_, ?_⟩
      · have hscalar : x.isScalar = true := by
          rw [← Value.isSome_text?, htext]
          rfl
        rw [Value.untag_of_isScalar hscalar]
        rintro rfl
        cases hx.isNumeral
      · intro hmarker
        have hsame := Value.string.inj hmarker
        exact hs x hx (hsame ▸ htext)
  | item =>
      -- a list is no text
      constructor <;>
        intro hmarker <;>
        cases hmarker

/-- **Resolving keeps them alike**, where no number is taken for the marker. -/
theorem Respelled.resolveTimestamp (hs : s.MarkerIsNoNumeral) (h : Respelled s p q) :
    Respelled s (p.resolveTimestamp s) (q.resolveTimestamp s) where
  operation := by rw [operation_resolveTimestamp, operation_resolveTimestamp, h.operation]
  option o ho := by
    rw [operation_resolveTimestamp] at ho ⊢
    by_cases hfield : o = "field"
    · subst hfield
      obtain heq | ⟨x, y, hx, hy, hread⟩ := h.option "field" ho
      · exact .inl (get?_resolveTimestamp_congr heq heq)
      · obtain ⟨hp, hq⟩ := not_isMarked_of_readAlike hs hx hy hread
        rw [resolveTimestamp_of_not_isMarked hp, resolveTimestamp_of_not_isMarked hq]
        exact .inr ⟨x, y, hx, hy, hread⟩
    · rw [p.get?_resolveTimestamp_of_ne s hfield, q.get?_resolveTimestamp_of_ne s hfield]
      exact h.option o ho
  wrapped hop := by
    rw [operation_resolveTimestamp] at hop
    rw [p.get?_resolveTimestamp_of_ne s (by decide), q.get?_resolveTimestamp_of_ne s (by decide),
      h.wrapped hop]

/-! ### Decoding -/

/-- Two values that are both refused for one reason, or denote processors that are read alike. -/
def DecodedRespelled (s : Settings) (v w : Value) : Prop :=
  (∃ e, ofValue v = .error e ∧ ofValue w = .error e) ∨
    ∃ p q, ofValue v = .ok p ∧ ofValue w = .ok q ∧ Respelled s p q

/-- They have the same map entries. -/
theorem DecodedRespelled.entries_eq {v w : Value} (h : DecodedRespelled s v w) :
    ofValue v >>= entries s = ofValue w >>= entries s := by
  obtain ⟨e, hv, hw⟩ | ⟨p, q, hv, hw, hpq⟩ := h
  · rw [hv, hw]
  · rw [hv, hw]
    exact entries_congr hpq.sameReads hpq.wrapped

/-- A number is no processor, and neither is its text. -/
theorem ofValue_of_spelled {x y : Value} (h : x.Spelled y) : ofValue x = ofValue y := by
  obtain ⟨⟨hx, -⟩, -⟩ := h
  cases x with
  | int _ | float _ | bool _ => rfl
  | _ => cases hx

/-- Values that are read alike can be exchanged in their place. -/
theorem decodedRespelled_of_readAlike (s : Settings) (c : Value.OptionPlace) {x y : Value}
    (hx : x.isNull = false) (hy : y.isNull = false)
    (h : ∀ op o, c.key.untag = .string op.name → c.name.text? = some o → x.ReadAlike op o y) :
    DecodedRespelled s (c.fill x) (c.fill y) := by
  obtain herror | ⟨p, q, hp, hq, hop, hkey, hpget, hqget⟩ := ofValue_fill_cases c x y
  · exact .inl herror
  have hcases := get?_fill_cases hpget hqget hx hy
  refine .inr ⟨p, q, hp, hq, hop, fun o _ => ?_, fun hforeach => ?_⟩
  · obtain heq | ⟨hname, hpx, hqy⟩ := hcases o
    · exact .inl heq
    · exact .inr ⟨x, y, hpx, hqy, h _ o hkey hname⟩
  · obtain heq | ⟨hname, hpx, hqy⟩ := hcases "processor"
    · rw [heq]
    · have hread := h _ _ hkey hname
      rw [hforeach] at hread
      have hspelled := hread.spelled_of_listOption?_ne (by decide)
      rw [hpx, hqy, Option.map_some, Option.map_some, ofValue_of_spelled hspelled]

/-- **Spelling a value out is not seen in decoding.** -/
theorem decodedRespelled_of_respelled (s : Settings) {v w : Value} (h : v.Respelled w) :
    DecodedRespelled s v w := by
  induction h with
  | option c h =>
      exact decodedRespelled_of_readAlike s c h.isNull_eq.1 h.isNull_eq.2 fun _ _ _ _ => .spelled h
  | item c xs ys hkey hlist hname h =>
      refine decodedRespelled_of_readAlike s c rfl rfl fun op o hkey' hname' => ?_
      rw [hkey, Value.string.injEq] at hkey'
      rw [hname, Option.some_inj] at hname'
      rw [Operation.name_injective hkey', hname'] at hlist
      exact .item xs ys hlist h
  | @nested c v w hkey hname h ih =>
      obtain herror | ⟨p, q, hp, hq, hop, hkey', hpget, hqget⟩ := ofValue_fill_cases c v w
      · exact .inl herror
      have hcases := get?_fill_cases hpget hqget h.isNull_eq.1 h.isNull_eq.2
      have hforeach : p.operation = .foreach := by
        rw [hkey, Value.string.injEq] at hkey'
        exact (Operation.name_injective hkey').symm
      refine .inr ⟨p, q, hp, hq, hop, fun o ho => ?_, fun _ => ?_⟩
      · obtain heq | ⟨hplace, -, -⟩ := hcases o
        · exact .inl heq
        · -- the condition of a `foreach` is not the processor inside it
          rw [hname, Option.some_inj] at hplace
          rw [hforeach, ← hplace] at ho
          exact absurd ho (by decide)
      · obtain heq | ⟨-, hpv, hqw⟩ := hcases "processor"
        · rw [heq]
        · rw [hpv, hqw, Option.map_some, Option.map_some, ih.entries_eq]

end Processor

/-! ### Contributions -/

namespace Pipeline

/-- One value spelled out is not seen in a contribution. -/
theorem contribution_of_respelled {s : Settings} (hs : s.MarkerIsNoNumeral) {v w : Value}
    (h : v.Respelled w) : contribution s v = contribution s w := by
  obtain ⟨e, hv, hw⟩ | ⟨p, q, hv, hw, hpq⟩ := Processor.decodedRespelled_of_respelled s h
  · rw [contribution_of_ofValue_error hv, contribution_of_ofValue_error hw]
  · have hresolved := hpq.resolveTimestamp hs
    rw [contribution_of_ofValue hv, contribution_of_ofValue hw,
      Processor.contribution_congr_of_wrapped hresolved.sameReads hresolved.wrapped]

/-- **Numbers and truth values count as their texts.** Where the timestamp marker is the text of
none of them, however many of them are written as strings, be they values of options, items of an
option that is read as a list, or such values of a processor inside a `foreach`, the processor
contributes the same check, directive and entries, or fails for the same reason. -/
theorem contribution_of_respellings {s : Settings} (hs : s.MarkerIsNoNumeral) {v w : Value}
    (h : Relation.ReflTransGen Value.Respelled v w) : contribution s v = contribution s w := by
  induction h with
  | refl => rfl
  | tail _ hlast ih => rw [ih, contribution_of_respelled hs hlast]

/-- A removal of fields with the names of numbers, inside a `foreach` under a condition. -/
def removalSample (condition first second : Value) : Value :=
  .map [(.string "foreach", .map [(.string "if", condition),
    (.string "processor", .map [(.string "remove", .map [(.string "field",
      .seq [first, .string "a", second])])])])]

/-- Three values are spelled out, one after the other: a condition and two items of a list. -/
theorem contribution_of_respellings_removalSample :
    Relation.ReflTransGen Value.Respelled (removalSample (.bool true) (.int (-1)) (.bool false))
        (removalSample (.string "true") (.string "-1") (.string "false")) ∧
      contribution {} (removalSample (.string "true") (.string "-1") (.string "false")) =
        .ok ⟨some "true", none, [.statement "-1" "delete()", .statement "a" "delete()",
          .statement "false" "delete()"]⟩ := by
  let field : Value.OptionPlace := ⟨.string Operation.remove.name, .string "field", [], [], [], []⟩
  let inner (condition : Value) : Value.OptionPlace :=
    ⟨.string Operation.foreach.name, .string "processor", [(.string "if", condition)], [], [], []⟩
  have hcondition : Value.Respelled (removalSample (.bool true) (.int (-1)) (.bool false))
      (removalSample (.string "true") (.int (-1)) (.bool false)) :=
    .option ⟨.string "foreach", .string "if", [], _, [], []⟩
      (.intro ⟨rfl, ['t', 'r', 'u', 'e'], by cbv⟩ rfl)
  have hfirst : Value.Respelled (removalSample (.string "true") (.int (-1)) (.bool false))
      (removalSample (.string "true") (.string "-1") (.bool false)) :=
    .nested (inner (.string "true")) rfl rfl
      (.item field [] [.string "a", .bool false] rfl rfl rfl
        (.intro ⟨rfl, ['-', '1'], by cbv⟩ rfl))
  have hsecond : Value.Respelled (removalSample (.string "true") (.string "-1") (.bool false))
      (removalSample (.string "true") (.string "-1") (.string "false")) :=
    .nested (inner (.string "true")) rfl rfl
      (.item field [.string "-1", .string "a"] [] rfl rfl rfl
        (.intro ⟨rfl, ['f', 'a', 'l', 's', 'e'], by cbv⟩ rfl))
  have h := ((Relation.ReflTransGen.single hcondition).tail hfirst).tail hsecond
  refine ⟨h, ?_⟩
  rw [← contribution_of_respellings Settings.markerIsNoNumeral_default h]
  cbv

end Pipeline

end IngestPipeline
