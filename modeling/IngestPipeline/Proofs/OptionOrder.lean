import IngestPipeline.Proofs.ListOption
import Mathlib.Data.List.Perm.Basic
import Mathlib.Logic.Relation

/-! # The order of options

A processor reads its options by name. This file changes the order of the options, adds options that
nothing reads, does the same inside nested processors, and shows that no contribution sees it.

* **`Value.DistinctKeys`**: no two keys of a mapping are equal.
* **`Value.eq_string_of_text?`**: the name of an option that is read is the text of no number or
  truth value, so that only one key can have it.
* **`Value.IdleChange`**: one change that the operation of a processor does not see.
* **`Processor.Indistinct`**: two processors that agree where they are read. An idle change makes
  such processors (`decoded_of_idleChange`), and resolving the timestamp marker keeps them so.
* **`contribution_of_idleChanges`**: any number of idle changes leaves the contribution as it is,
  and the fault too. -/

/-! ### Lookups in another order -/

namespace List

variable {κ : Type u} {α : Type v} [BEq κ] [LawfulBEq κ]

/-- **The order of entries** does not matter to a key that occurs once at most. -/
theorem lookup_eq_of_perm {l l' : List (κ × α)} (h : l.Perm l') {k : κ}
    (hk : l.Pairwise fun e e' => ¬ (e.1 = k ∧ e'.1 = k)) : l.lookup k = l'.lookup k := by
  induction h with
  | nil => rfl
  | cons e _ ih =>
      rw [lookup_cons, lookup_cons, ih hk.of_cons]
  | swap e e' l =>
      have hne : ¬ (e'.1 = k ∧ e.1 = k) := (pairwise_cons.1 hk).1 e mem_cons_self
      rw [lookup_cons, lookup_cons, lookup_cons, lookup_cons]
      by_cases he : e.1 = k
      · have he' : (k == e'.1) = false := by
          rw [beq_eq_false_iff_ne]
          exact fun heq => hne ⟨heq.symm, he⟩
        rw [he']
      · have he' : (k == e.1) = false := by
          rw [beq_eq_false_iff_ne]
          exact fun heq => he heq.symm
        rw [he']
  | trans h₁ _ ih₁ ih₂ =>
      have hsymm : ∀ {e e' : κ × α}, ¬ (e.1 = k ∧ e'.1 = k) → ¬ (e'.1 = k ∧ e.1 = k) :=
        fun hne heq => hne heq.symm
      rw [ih₁ hk, ih₂ ((h₁.pairwise_iff hsymm).1 hk)]

end List

namespace IngestPipeline

/-! ### The texts of numbers -/

/-- The text of a natural number has a digit. -/
theorem exists_digit_of_nat (n : Nat) : ∃ c ∈ (toString n).toList, c.isDigit = true := by
  have htext : (toString n).toList = Nat.toDigits 10 n := String.toList_ofList
  obtain ⟨c, hc⟩ := List.exists_mem_of_ne_nil _ (Nat.toDigits_ne_nil (n := n) (b := 10))
  exact ⟨c, htext ▸ hc, Nat.isDigit_of_mem_toDigits (by decide) (by decide) hc⟩

/-- The text of an integer contains a digit. -/
theorem exists_digit_of_int (n : Int) : ∃ c ∈ (toString n).toList, c.isDigit = true := by
  cases n with
  | ofNat m => exact exists_digit_of_nat m
  | negSucc m =>
      have htext : (toString (Int.negSucc m)).toList = '-' :: (toString m.succ).toList :=
        String.toList_append
      obtain ⟨c, hc, hdigit⟩ := exists_digit_of_nat m.succ
      exact ⟨c, htext ▸ List.mem_cons_of_mem _ hc, hdigit⟩

/-- The text of a decimal number has a digit or a point: positional notation has a point, and the
other one ends with an exponent. -/
theorem exists_numeral_of_digits (style : FloatStyle) (d : Decimal.Digits) :
    ∃ c ∈ (d.text style).toList, c.isDigit = true ∨ c = '.' := by
  unfold Decimal.Digits.text
  dsimp only
  split
  · exact ⟨'.', by simp, .inr rfl⟩
  split
  · exact ⟨'.', by simp, .inr rfl⟩
  split
  · exact ⟨'.', by simp, .inr rfl⟩
  · rw [String.toList_append]
    obtain ⟨c, hc, hdigit⟩ := exists_digit_of_nat
      ((toString d.digits).toList.length - 1 + d.scale : Int).natAbs
    exact ⟨c, List.mem_append_right _ hc, .inl hdigit⟩

/-- The text of a double contains a digit or a dot. -/
theorem exists_numeral_of_float (x : Binary64) :
    ∃ c ∈ (x.text .yaml).toList, c.isDigit = true ∨ c = '.' := by
  cases x with
  | nan => exact ⟨'.', by decide, .inr rfl⟩
  | infinite negative => cases negative <;> exact ⟨'.', by decide, .inr rfl⟩
  | finite negative m q =>
      rw [Binary64.text, String.toList_append]
      by_cases hm : m = 0
      · rw [if_pos hm]
        exact ⟨'.', List.mem_append_right _ (by decide), .inr rfl⟩
      · rw [if_neg hm]
        obtain ⟨c, hc, hnumeral⟩ := exists_numeral_of_digits .yaml (Decimal.shortest m q)
        exact ⟨c, List.mem_append_right _ hc, hnumeral⟩

/-- The names of options are words. -/
theorem Operation.isWord_of_mem_readOptions {op : Operation} {name : String}
    (h : name ∈ op.readOptions) :
    (∀ c ∈ name.toList, c.isDigit = false ∧ c ≠ '.') ∧ name ≠ "true" ∧ name ≠ "false" := by
  have htable : op.readOptions.all (fun name =>
      name.toList.all (fun c => !c.isDigit && c != '.') && name != "true" && name != "false") =
        true := by
    cases op <;> decide
  simpa [and_assoc] using List.all_eq_true.1 htable name h

namespace Value

/-- **Only a string has a word for its text**: the texts of numbers have digits or a point. -/
theorem eq_string_of_word {name : String}
    (hword : (∀ c ∈ name.toList, c.isDigit = false ∧ c ≠ '.') ∧ name ≠ "true" ∧ name ≠ "false")
    {k : Value} (h : k.text? = some name) : k = .string name := by
  obtain ⟨hchars, htrue, hfalse⟩ := hword
  have hnumeral : ¬ ∃ c ∈ name.toList, c.isDigit = true ∨ c = '.' := by
    rintro ⟨c, hc, hdigit | hpoint⟩
    · rw [(hchars c hc).1] at hdigit
      cases hdigit
    · exact (hchars c hc).2 hpoint
  cases k with
  | string text => rw [Option.some.inj h]
  | int n =>
      obtain ⟨c, hc, hdigit⟩ := exists_digit_of_int n
      exact absurd ⟨c, Option.some.inj h ▸ hc, .inl hdigit⟩ hnumeral
  | float x => exact absurd (Option.some.inj h ▸ exists_numeral_of_float x) hnumeral
  | bool b =>
      cases b with
      | true => exact absurd (Option.some.inj h).symm htrue
      | false => exact absurd (Option.some.inj h).symm hfalse
  | _ => cases h

/-- **Only a string has the name of an option that is read.** -/
theorem eq_string_of_text? {op : Operation} {name : String} (hname : name ∈ op.readOptions)
    {k : Value} (h : k.text? = some name) : k = .string name :=
  eq_string_of_word (Operation.isWord_of_mem_readOptions hname) h

/-! ### Idle changes -/

/-- **No two keys are equal**, as in every mapping of a document. -/
def DistinctKeys (es : List (Value × Value)) : Prop :=
  es.Pairwise fun e e' => e.1.same e'.1 = false

/-- Whether a processor under this key does not read an option of this name. -/
def Ignores (k : Value) (name : String) : Prop :=
  ∀ op : Operation, k.untag = .string op.name → name ∉ op.readOptions

/-- A key that names an operation ignores the options that the operation does not read. -/
theorem ignores_of_notMem (op : Operation) {name : String} (h : name ∉ op.readOptions) :
    Ignores (.string op.name) name := by
  intro op' heq
  have hname : op.name = op'.name := string.inj heq
  exact Operation.name_injective hname ▸ h

/-- **A change that a processor does not see.** -/
inductive IdleChange : Value → Value → Prop
  /-- No options at all become an empty mapping. -/
  | absent (k : Value) : IdleChange (.map [(k, .null)]) (.map [(k, .map [])])
  /-- Options change their order, and others that are not read are added under string keys. -/
  | rearranged {k : Value} {es extra fs : List (Value × Value)} (hperm : (es ++ extra).Perm fs)
      (hdistinct : DistinctKeys fs)
      (hextra : ∀ e ∈ extra, ∃ name, e.1 = .string name ∧ Ignores k name) :
      IdleChange (.map [(k, .map es)]) (.map [(k, .map fs)])
  /-- The processor inside a `foreach` is changed in such a way. -/
  | nested {v w body body' : Value} (hv : IdleChange v w)
      (h : Exchanged "processor" v w body body') :
      IdleChange (.map [(.string Operation.foreach.name, body)])
        (.map [(.string Operation.foreach.name, body')])

section Rearranged

variable {k : Value} {es extra fs : List (Value × Value)}

/-- A mapping keeps its shape. -/
theorem isBody_rearranged (hperm : (es ++ extra).Perm fs)
    (hextra : ∀ e ∈ extra, ∃ name, e.1 = .string name ∧ Ignores k name) :
    (Value.map es).isBody = (Value.map fs).isBody := by
  have hscalar : (extra.all fun e => e.1.isScalar) = true := by
    rw [List.all_eq_true]
    intro e he
    obtain ⟨name, hname, -⟩ := hextra e he
    rw [hname]
    rfl
  rw [isBody, isBody, ← hperm.all_eq, List.all_append, hscalar, Bool.and_true]

/-- **An option that is read keeps its value.** -/
theorem option?_rearranged {op : Operation} (hk : k.untag = .string op.name)
    (hperm : (es ++ extra).Perm fs) (hdistinct : DistinctKeys fs)
    (hextra : ∀ e ∈ extra, ∃ name, e.1 = .string name ∧ Ignores k name)
    {name : String} (hname : name ∈ op.readOptions) :
    (Value.map es).option? name = (Value.map fs).option? name := by
  have hadded : (extra.reverse.map fun e => (e.1.text?, e.2)).lookup (some name) = none := by
    rw [List.lookup_eq_none_iff]
    intro e he
    obtain ⟨e', he', rfl⟩ := List.mem_map.1 he
    obtain ⟨other, hother, hignored⟩ := hextra e' (List.mem_reverse.1 he')
    have hne : name ≠ other := fun heq => hignored op hk (heq ▸ hname)
    simpa [hother, text?] using hne
  have hfront : ((es ++ extra).reverse.map fun e => (e.1.text?, e.2)).lookup (some name) =
      (es.reverse.map fun e => (e.1.text?, e.2)).lookup (some name) := by
    rw [List.reverse_append, List.map_append, List.lookup_append, hadded, Option.none_or]
  -- two keys with the name of the option would be the same string
  have honce : (fs.reverse.map fun e => (e.1.text?, e.2)).Pairwise fun e e' =>
      ¬ (e.1 = some name ∧ e'.1 = some name) := by
    rw [List.pairwise_map, List.pairwise_reverse]
    refine hdistinct.imp fun hne hnamed => ?_
    rw [eq_string_of_text? hname hnamed.1, eq_string_of_text? hname hnamed.2] at hne
    simp [same] at hne
  have hreversed : fs.reverse.Perm (es ++ extra).reverse :=
    (List.reverse_perm fs).trans (hperm.symm.trans (List.reverse_perm _).symm)
  rw [option?, option?, List.lookup_eq_of_perm (hreversed.map _) honce, hfront]

end Rearranged

/-- A changed processor is a mapping, before and after. -/
theorem IdleChange.isNull_eq {v w : Value} (h : IdleChange v w) :
    v.isNull = false ∧ w.isNull = false := by
  cases h <;> exact ⟨rfl, rfl⟩

end Value

/-! ### Processors that agree where they are read -/

namespace Processor

/-- **Two processors that cannot be told apart**: the options that are read have the same values in
both, up to what is inside the processor that they wrap. -/
structure Indistinct (s : Settings) (p q : Processor) : Prop where
  /-- They have the same operation. -/
  operation : p.operation = q.operation
  /-- The options that it reads have the same values. -/
  get?_eq : ∀ o ∈ p.operation.ownOptions, p.get? o = q.get? o
  /-- The processors inside them have the same map entries. -/
  wrapped : SameWrapped s p q

namespace Indistinct

variable {s : Settings} {p q : Processor}

/-- A processor cannot be told apart from itself. -/
theorem refl (s : Settings) (p : Processor) : Indistinct s p p :=
  ⟨rfl, fun _ _ => rfl, fun _ => rfl⟩

/-- Processors that cannot be told apart are read alike. -/
theorem sameReads (h : Indistinct s p q) : SameReads p q := .of_ownOptions h.operation h.get?_eq

/-- Resolving the timestamp marker cannot tell them apart either: the field is one of the options
that is read, or it does not matter. -/
theorem resolveTimestamp (h : Indistinct s p q) :
    Indistinct s (p.resolveTimestamp s) (q.resolveTimestamp s) where
  operation := by rw [operation_resolveTimestamp, operation_resolveTimestamp, h.operation]
  get?_eq o ho := by
    rw [operation_resolveTimestamp] at ho
    by_cases hfield : o = "field"
    · subst hfield
      exact get?_resolveTimestamp_congr (h.get?_eq _ ho) (h.get?_eq _ ho)
    · rw [p.get?_resolveTimestamp_of_ne s hfield, q.get?_resolveTimestamp_of_ne s hfield,
        h.get?_eq o ho]
  wrapped hop := by
    rw [operation_resolveTimestamp] at hop
    rw [p.get?_resolveTimestamp_of_ne s (by decide), q.get?_resolveTimestamp_of_ne s (by decide),
      h.wrapped hop]

end Indistinct

/-- A key names an operation, or no body under it makes a processor. -/
theorem operation_or_error (k : Value) :
    (∃ op : Operation, k.untag = .string op.name) ∨
      ∃ e, ∀ body, ofValue (.map [(k, body)]) = .error e := by
  have hmap : ∀ body, (Value.map [(k, body)]).untag = .map [(k, body)] := fun _ => rfl
  cases hk : k.untag with
  | string name =>
      cases hop : Operation.ofName? name with
      | none =>
          refine .inr ⟨.unsupportedOperation name, fun body => ?_⟩
          simp only [ofValue, hmap, hk, hop]
      | some op => exact .inl ⟨op, by rw [Operation.ofName?_eq_some_iff.1 hop]⟩
  | _ =>
      refine .inr ⟨.malformed .keyNotString, fun body => ?_⟩
      simp only [ofValue, hmap, hk]

/-- Two values that are both refused for one reason, or denote processors that cannot be told
apart. -/
def DecodedAlike (s : Settings) (v w : Value) : Prop :=
  (∃ e, ofValue v = .error e ∧ ofValue w = .error e) ∨
    ∃ p q, ofValue v = .ok p ∧ ofValue w = .ok q ∧ Indistinct s p q

/-- They have the same map entries. -/
theorem DecodedAlike.entries_eq {s : Settings} {v w : Value} (h : DecodedAlike s v w) :
    ofValue v >>= entries s = ofValue w >>= entries s := by
  obtain ⟨e, hv, hw⟩ | ⟨p, q, hv, hw, hpq⟩ := h
  · rw [hv, hw]
  · rw [hv, hw]
    exact entries_congr hpq.sameReads hpq.wrapped

/-- Options in another order, with others that are not read, are not seen in decoding. -/
theorem decodedAlike_rearranged (s : Settings) {k : Value} {es extra fs : List (Value × Value)}
    (hperm : (es ++ extra).Perm fs) (hdistinct : Value.DistinctKeys fs)
    (hextra : ∀ e ∈ extra, ∃ name, e.1 = .string name ∧ k.Ignores name) :
    DecodedAlike s (.map [(k, .map es)]) (.map [(k, .map fs)]) := by
  obtain ⟨op, hk⟩ | ⟨e, he⟩ := operation_or_error k
  · have hdenotes : ∀ body, (Value.map [(k, body)]).Denotes op body := fun _ => ⟨k, rfl, hk⟩
    obtain herror | ⟨p, q, hp, hq⟩ :=
      ofValue_map_cases (hdenotes _) (hdenotes _) (Value.isBody_rearranged hperm hextra)
    · exact .inl herror
    have hop := operation_of_ofValue (hdenotes _) hp
    have hget : ∀ o ∈ p.operation.readOptions, p.get? o = q.get? o := by
      intro o ho
      rw [hop] at ho
      rw [get?_of_ofValue (hdenotes _) hp, get?_of_ofValue (hdenotes _) hq,
        Value.option?_rearranged hk hperm hdistinct hextra ho]
    refine .inr ⟨p, q, hp, hq, hop.trans (operation_of_ofValue (hdenotes _) hq).symm,
      fun o ho => ?_, fun hforeach => ?_⟩
    · exact hget o (List.mem_append_left _ ho)
    · rw [hget "processor" (by rw [hforeach]; decide)]
  · exact .inl ⟨e, he _, he _⟩

/-- **An idle change is not seen in decoding.** -/
theorem decodedAlike_of_idleChange (s : Settings) {v w : Value} (h : v.IdleChange w) :
    DecodedAlike s v w := by
  induction h with
  | absent k =>
      have hsame : ofValue (.map [(k, .map [])]) = ofValue (.map [(k, .null)]) := rfl
      cases hnull : ofValue (.map [(k, .null)]) with
      | error e => exact .inl ⟨e, hnull, hsame.trans hnull⟩
      | ok p => exact .inr ⟨p, p, hnull, hsame.trans hnull, .refl s p⟩
  | rearranged hperm hdistinct hextra => exact decodedAlike_rearranged s hperm hdistinct hextra
  | @nested v w body body' hv h ih =>
      have hdenotes := Value.denotes_map .foreach
      obtain herror | ⟨p, q, hp, hq⟩ := ofValue_exchanged (hdenotes _) (hdenotes _) h
      · exact .inl herror
      have hop := operation_of_ofValue (hdenotes _) hp
      have hget := get?_of_ofValue (hdenotes _) hp
      have hget' := get?_of_ofValue (hdenotes _) hq
      refine .inr ⟨p, q, hp, hq, hop.trans (operation_of_ofValue (hdenotes _) hq).symm,
        fun o ho => ?_, fun _ => ?_⟩
      · have hne : o ≠ "processor" := by
          rintro rfl
          rw [hop] at ho
          revert ho
          decide
        rw [hget, hget', h.option?_of_ne hne]
      · rw [hget, hget', h.option?_self hv.isNull_eq.1, h.symm.option?_self hv.isNull_eq.2,
          Option.map_some, Option.map_some, ih.entries_eq]

end Processor

/-! ### Contributions -/

namespace Pipeline

/-- One idle change is not seen in a contribution. -/
theorem contribution_of_idleChange (s : Settings) {v w : Value} (h : v.IdleChange w) :
    contribution s v = contribution s w := by
  obtain ⟨e, hv, hw⟩ | ⟨p, q, hv, hw, hpq⟩ := Processor.decodedAlike_of_idleChange s h
  · rw [contribution_of_ofValue_error hv, contribution_of_ofValue_error hw]
  · have hresolved := hpq.resolveTimestamp
    rw [contribution_of_ofValue hv, contribution_of_ofValue hw,
      Processor.contribution_congr_of_wrapped hresolved.sameReads hresolved.wrapped]

/-- **The order of options does not matter, and neither do options that are not read.** However
often the options of a processor, and those of the processors inside it, are put in another order
and extended by options that are not read, the processor contributes the same check, directive and
entries, or fails for the same reason. -/
theorem contribution_of_idleChanges (s : Settings) {v w : Value}
    (h : Relation.ReflTransGen Value.IdleChange v w) : contribution s v = contribution s w := by
  induction h with
  | refl => rfl
  | tail _ hlast ih => rw [ih, contribution_of_idleChange s hlast]

/-- A replacement inside a `foreach`, with an option under a number. -/
def orderedSample : Value :=
  .map [(.string "foreach", .map [(.string "field", .string "items"),
    (.string "processor", .map [(.string "gsub", .map [(.string "field", .string "a"),
      (.string "pattern", .string "x"), (.string "replacement", .int 1),
      (.int 1, .string "number")])])])]

/-- The same replacement with its options in another order and with two more, one of them under the
text of the number. -/
def disorderedSample : Value :=
  .map [(.string "foreach", .map [(.string "tag", .null),
    (.string "processor", .map [(.string "gsub", .map [(.string "1", .string "text"),
      (.int 1, .string "number"), (.string "replacement", .int 1), (.string "pattern", .string "x"),
      (.string "field", .string "a")])]),
    (.string "field", .string "items")])]

/-- The options at both depths are put in another order, and one is added at each. -/
theorem contribution_of_idleChanges_disorderedSample :
    Relation.ReflTransGen Value.IdleChange orderedSample disorderedSample ∧
      contribution {} disorderedSample =
        .ok ⟨none, none, [.statement "a" "replace(\"x\",\"1\")"]⟩ := by
  let options : List (Value × Value) := [(.string "field", .string "a"),
    (.string "pattern", .string "x"), (.string "replacement", .int 1), (.int 1, .string "number")]
  let more : List (Value × Value) := [(.string "1", .string "text")]
  let inner : Value := .map [(.string Operation.gsub.name, .map options)]
  let inner' : Value := .map [(.string Operation.gsub.name, .map (options ++ more).reverse)]
  have hinner : Value.IdleChange inner inner' := by
    refine .rearranged (List.reverse_perm _).symm ?_ ?_
    · simp [options, more, Value.DistinctKeys, Value.same]
    · rw [List.forall_mem_singleton]
      exact ⟨"1", rfl, Value.ignores_of_notMem .gsub (by decide)⟩
  let outer : List (Value × Value) :=
    [(.string "field", .string "items")] ++ (.string "processor", inner') :: []
  let tag : List (Value × Value) := [(.string "tag", .null)]
  have hbody : Value.Exchanged "processor" inner inner'
      (.map ([(.string "field", .string "items")] ++ (.string "processor", inner) :: []))
      (.map outer) := .intro rfl (List.forall_mem_nil _)
  have houter : Value.IdleChange (.map [(.string Operation.foreach.name, .map outer)])
      (.map [(.string Operation.foreach.name, .map (outer ++ tag).reverse)]) := by
    refine .rearranged (List.reverse_perm _).symm ?_ ?_
    · simp [outer, tag, Value.DistinctKeys, Value.same]
    · rw [List.forall_mem_singleton]
      exact ⟨"tag", rfl, Value.ignores_of_notMem .foreach (by decide)⟩
  have hchanges : Relation.ReflTransGen Value.IdleChange orderedSample disorderedSample :=
    .tail (.single (.nested hinner hbody)) houter
  refine ⟨hchanges, ?_⟩
  rw [← contribution_of_idleChanges {} hchanges]
  cbv

end Pipeline

end IngestPipeline
