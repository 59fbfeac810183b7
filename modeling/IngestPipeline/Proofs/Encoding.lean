import IngestPipeline.Proofs.Decoding
import Mathlib.Data.List.Induction
import Mathlib.Data.List.Nodup

/-! # Encoding a processor

A processor is written as a mapping from the name of its operation to the mapping of its options.
Decoding undoes this, and accepts nothing that is shaped otherwise.

* **`Assoc.Merges`**: a list of pairs in which equal keys share one entry, at the position of the
  first and with the value of the last. It is what a list of insertions makes
  (`merges_iff_eq_ofList`).
* **`Processor.toValue`**: the value that a processor is written as.
* **`Value.NamedEntries`**: the entries of a body, under the texts of their keys.
* **`optionsOf_eq_ok_iff`**: the options of a body are its named entries, merged.
* **`ofValue_exact`**: a processor is read back exactly if its options have different names, and
  what can be read is a processor in this form, with the options of its body. -/

namespace IngestPipeline

/-! ### Equal keys merged -/

namespace Assoc

variable {κ : Type u} {α : Type v} [BEq κ]

/-- Insertions are made from the left, so the last pair is inserted last. -/
@[simp] theorem ofList_concat (es : List (κ × α)) (e : κ × α) :
    ofList (es ++ [e]) = insert e.1 e.2 (ofList es) := by
  rw [ofList, List.foldl_append]
  rfl

variable [LawfulBEq κ]

/-- A key is there if it is among the keys. -/
@[simp] theorem hasKey_iff {k : κ} {es : List (κ × α)} :
    hasKey k es = true ↔ k ∈ es.map Prod.fst := by
  rw [hasKey, List.any_eq_true, List.mem_map]
  simp only [beq_iff_eq]

/-- **Keys keep their first position.** -/
theorem map_fst_ofList (es : List (κ × α)) :
    (ofList es).map Prod.fst = (es.map Prod.fst).eraseDups := by
  induction es using List.reverseRecOn with
  | nil => rfl
  | append_singleton es e ih =>
      have hkey : hasKey e.1 (ofList es) = (es.map Prod.fst).elem e.1 := by
        rw [Bool.eq_iff_iff, hasKey_iff, ih, List.mem_eraseDups, List.elem_iff]
      rw [ofList_concat, map_fst_insert, ih, hkey, List.map_append, List.eraseDups_append,
        List.map_singleton, List.removeAll, List.filter_singleton]
      cases (es.map Prod.fst).elem e.1 <;> rfl

/-- No key is there twice. -/
theorem nodup_map_fst_ofList (es : List (κ × α)) : ((ofList es).map Prod.fst).Nodup := by
  induction es using List.reverseRecOn with
  | nil => exact List.nodup_nil
  | append_singleton es e ih =>
      rw [ofList_concat, map_fst_insert]
      cases hkey : hasKey e.1 (ofList es) with
      | true => simpa using ih
      | false =>
          have hnew : e.1 ∉ (ofList es).map Prod.fst := by
            rw [← hasKey_iff, hkey]
            exact Bool.false_ne_true
          rw [if_neg Bool.false_ne_true, ← List.concat_eq_append]
          exact ih.concat hnew

/-- **Nothing is merged** exactly if all keys are different. -/
theorem ofList_eq_self_iff {es : List (κ × α)} : ofList es = es ↔ (es.map Prod.fst).Nodup := by
  constructor
  · intro h
    have hnodup := nodup_map_fst_ofList es
    rwa [h] at hnodup
  · intro h
    induction es using List.reverseRecOn with
    | nil => rfl
    | append_singleton es e ih =>
        rw [List.map_append, List.map_singleton, ← List.concat_eq_append, List.nodup_concat] at h
        have hkey : hasKey e.1 es = false := by
          rw [Bool.eq_false_iff]
          exact fun hkey => h.1 (hasKey_iff.1 hkey)
        rw [ofList_concat, ih h.2, insert_of_hasKey_eq_false hkey]

/-- The last value of a key is the first from the end. -/
theorem lookup_reverse_eq_some_iff {es : List (κ × α)} {k : κ} {a : α} :
    es.reverse.lookup k = some a ↔
      ∃ front rest, es = front ++ (k, a) :: rest ∧ k ∉ rest.map Prod.fst := by
  rw [List.lookup_eq_some_iff]
  constructor
  · rintro ⟨rest, front, hes, hrest⟩
    refine ⟨front.reverse, rest.reverse, ?_, ?_⟩
    · rw [← List.reverse_reverse es, hes]
      simp
    · intro hmem
      obtain ⟨e, he, rfl⟩ := List.mem_map.1 hmem
      simpa using hrest e (List.mem_reverse.1 he)
  · rintro ⟨front, rest, rfl, hrest⟩
    refine ⟨rest.reverse, front.reverse, by simp, fun e he => ?_⟩
    rw [bne_iff_ne]
    rintro rfl
    exact hrest (List.mem_map_of_mem (List.mem_reverse.1 he))

/-- **Equal keys share one entry**: the keys of `es`, each once and in order of first occurrence,
with the value that it has last. -/
structure Merges (es os : List (κ × α)) : Prop where
  /-- The keys are those of `es`, the first of each. -/
  keys : os.map Prod.fst = (es.map Prod.fst).eraseDups
  /-- Each entry is the last under its key. -/
  entries : ∀ o ∈ os, ∃ front rest, es = front ++ o :: rest ∧ o.1 ∉ rest.map Prod.fst

/-- The value of an entry is the last one under its key. -/
theorem Merges.lookup_eq {es os : List (κ × α)} (h : Merges es os) {o : κ × α} (ho : o ∈ os) :
    es.reverse.lookup o.1 = some o.2 :=
  lookup_reverse_eq_some_iff.2 (h.entries o ho)

/-- Equal keys can be merged in one way only. -/
theorem Merges.unique {es os os' : List (κ × α)} (h : Merges es os) (h' : Merges es os') :
    os = os' := by
  -- keys and values can both be read off `es`
  have hread : ∀ us : List (κ × α), Merges es us → (us.map fun o => (o.1, some o.2)) =
      (es.map Prod.fst).eraseDups.map fun k => (k, es.reverse.lookup k) := by
    intro us hus
    rw [← hus.keys, List.map_map]
    exact List.map_congr_left fun o ho => by simp [hus.lookup_eq ho]
  have hinj : Function.Injective fun o : κ × α => (o.1, some o.2) := by
    rintro ⟨k, a⟩ ⟨k', a'⟩ heq
    simpa using heq
  exact List.map_injective_iff.2 hinj ((hread os h).trans (hread os' h').symm)

/-- **A list of insertions** merges equal keys. -/
theorem merges_ofList (es : List (κ × α)) : Merges es (ofList es) where
  keys := map_fst_ofList es
  entries o ho := by
    rw [← lookup_reverse_eq_some_iff, ← lookup_ofList, List.lookup_eq_some_iff]
    -- no other entry has the key of this one
    obtain ⟨front, rest, hes⟩ := List.append_of_mem ho
    refine ⟨front, rest, hes, fun e he => ?_⟩
    have hnodup := nodup_map_fst_ofList es
    rw [hes, List.map_append, List.map_cons, List.nodup_middle, List.nodup_cons] at hnodup
    rw [bne_iff_ne]
    intro heq
    exact hnodup.1 (List.mem_append_left _ (heq ▸ List.mem_map_of_mem he))

/-- Equal keys are merged by a list of insertions, and in no other way. -/
theorem merges_iff_eq_ofList {es os : List (κ × α)} : Merges es os ↔ os = ofList es := by
  constructor
  · exact fun h => h.unique (merges_ofList es)
  · rintro rfl
    exact merges_ofList es

end Assoc

/-! ### Named entries -/

/-- **The entries of a body**, under the texts of their keys. -/
inductive Value.NamedEntries : Value → List (String × Value) → Prop
  /-- Without a body there are none. -/
  | absent : NamedEntries .null []
  /-- Each key of a mapping has a text. -/
  | mapping {es : List (Value × Value)} {named : List (String × Value)}
      (h : List.Forall₂ (fun e o => e.1.text? = some o.1 ∧ e.2 = o.2) es named) :
      NamedEntries (.map es) named

namespace Processor

/-- Options are named one by one: each key has its text, and each value stays. -/
theorem namedOptions_eq_ok_iff {es : List (Value × Value)} {named : List (String × Value)} :
    namedOptions es = .ok named ↔
      List.Forall₂ (fun e o => e.1.text? = some o.1 ∧ e.2 = o.2) es named := by
  induction es generalizing named with
  | nil =>
      rw [List.forall₂_nil_left_iff, namedOptions, Except.ok.injEq]
      exact eq_comm
  | cons e es ih =>
      obtain ⟨k, v⟩ := e
      rw [List.forall₂_cons_left_iff, namedOptions]
      cases hk : k.text? with
      | none =>
          constructor
          · intro h
            cases h
          · rintro ⟨o, rest, ⟨ho, -⟩, -, -⟩
            cases ho
      | some name =>
          dsimp only
          rw [Except.map_eq_ok_iff]
          constructor
          · rintro ⟨rest, hrest, rfl⟩
            exact ⟨(name, v), rest, ⟨rfl, rfl⟩, ih.1 hrest, rfl⟩
          · rintro ⟨o, rest, ⟨ho, hv⟩, hrest, rfl⟩
            refine ⟨rest, ih.2 hrest, ?_⟩
            rw [Option.some.inj ho, show v = o.2 from hv]

/-- **The options of a body** are its named entries, those of one name merged. -/
theorem optionsOf_eq_ok_iff {operation : String} {body : Value} {os : List (String × Value)} :
    optionsOf operation body = .ok os ↔
      ∃ named, body.NamedEntries named ∧ Assoc.Merges named os := by
  constructor
  · intro h
    unfold optionsOf at h
    split at h
    · cases h
      exact ⟨[], .absent, Assoc.merges_ofList []⟩
    · obtain ⟨named, hnamed, rfl⟩ := Except.map_eq_ok_iff.1 h
      exact ⟨named, .mapping (namedOptions_eq_ok_iff.1 hnamed), Assoc.merges_ofList named⟩
    · cases h
  · rintro ⟨named, hnamed, hmerges⟩
    rw [Assoc.merges_iff_eq_ofList.1 hmerges]
    cases hnamed with
    | absent => rfl
    | mapping h =>
        rw [optionsOf, namedOptions_eq_ok_iff.2 h]
        rfl

/-! ### Writing and reading -/

/-- **The value that a processor is written as**: the name of its operation, with its options in
order. -/
def toValue (p : Processor) : Value :=
  .map [(.string p.operation.name, .map (p.options.map fun o => (.string o.1, o.2)))]

/-- Reading what was written merges options of one name. -/
theorem ofValue_toValue (p : Processor) :
    ofValue p.toValue = .ok { p with options := Assoc.ofList p.options } := by
  have hnamed : namedOptions (p.options.map fun o => (.string o.1, o.2)) = .ok p.options := by
    rw [namedOptions_eq_ok_iff, List.forall₂_map_left_iff, List.forall₂_same]
    exact fun o _ => ⟨rfl, rfl⟩
  refine ofValue_eq_ok_iff.2 ⟨_, Value.denotes_map _ _, ?_⟩
  rw [optionsOf, hnamed]
  rfl

/-- **Decoding undoes encoding and accepts nothing else.** A processor is read back from the value
that it is written as exactly if its options have different names. A value can be read exactly if it
names an operation and has a body of nothing or of a mapping under scalar keys; what is read has
that operation and the entries of that mapping as options, under the texts of their keys, where keys
of one text share the position of the first and the value of the last. A value without tags names an
operation only as a mapping with one entry, under the name of the operation. -/
theorem ofValue_exact :
    (∀ p : Processor, ofValue p.toValue = .ok p ↔ (p.options.map Prod.fst).Nodup) ∧
      ∀ v : Value,
        ((ofValue v).isOk = true ↔
          ∃ (op : Operation) (body : Value), v.Denotes op body ∧ body.isBody = true) ∧
        (∀ p : Processor, ofValue v = .ok p ↔
          ∃ body named, v.Denotes p.operation body ∧ body.NamedEntries named ∧
            Assoc.Merges named p.options) ∧
        (v.TagFree → ∀ op body, v.Denotes op body ↔ v = .map [(.string op.name, body)]) := by
  refine ⟨fun p => ?_, fun v => ⟨?_, fun p => ?_, fun hfree op body => hfree.denotes_iff⟩⟩
  · rw [ofValue_toValue, ← Assoc.ofList_eq_self_iff, Except.ok.injEq]
    obtain ⟨operation, options⟩ := p
    simp
  · rw [Except.isOk_iff]
    constructor
    · rintro ⟨p, hp⟩
      obtain ⟨body, hv, hbody⟩ := ofValue_eq_ok_iff.1 hp
      refine ⟨p.operation, body, hv, ?_⟩
      rw [← isOk_optionsOf p.operation.name, hbody]
      rfl
    · rintro ⟨op, body, hv, hbody⟩
      exact exists_ofValue_of_isBody hv hbody
  · rw [ofValue_eq_ok_iff]
    simp only [optionsOf_eq_ok_iff]
    constructor
    · rintro ⟨body, hv, named, hnamed, hmerges⟩
      exact ⟨body, named, hv, hnamed, hmerges⟩
    · rintro ⟨body, named, hv, hnamed, hmerges⟩
      exact ⟨body, hv, named, hnamed, hmerges⟩

/-- A value with a number and a string of one text as keys. -/
def sharedNameSample : Value :=
  .map [(.string "set", .map [(.int 1, .string "a"), (.string "field", .string "b"),
    (.string "1", .string "c")])]

/-- What is read from it has one option of that text, and is read back once it is written. -/
theorem ofValue_exact_sharedNameSample :
    ofValue sharedNameSample = .ok ⟨.set, [("1", .string "c"), ("field", .string "b")]⟩ ∧
      (∃ body named, sharedNameSample = .map [(.string Operation.set.name, body)] ∧
        body.NamedEntries named ∧
        Assoc.Merges named [("1", .string "c"), ("field", .string "b")]) ∧
      ofValue (toValue ⟨.set, [("1", .string "c"), ("field", .string "b")]⟩) =
        .ok ⟨.set, [("1", .string "c"), ("field", .string "b")]⟩ := by
  obtain ⟨hroundTrip, hexact⟩ := ofValue_exact
  obtain ⟨-, hread, htagFree⟩ := hexact sharedNameSample
  have hfree : sharedNameSample.TagFree := by
    simp [sharedNameSample, Value.tagFree_of_isLeaf (v := .int 1) rfl]
  have h : ofValue sharedNameSample =
      .ok ⟨.set, [("1", .string "c"), ("field", .string "b")]⟩ := by rfl
  obtain ⟨body, named, hdenotes, hnamed, hmerges⟩ := (hread _).1 h
  exact ⟨h, ⟨body, named, (htagFree hfree _ _).1 hdenotes, hnamed, hmerges⟩,
    (hroundTrip _).2 (by simp)⟩

end Processor

end IngestPipeline
