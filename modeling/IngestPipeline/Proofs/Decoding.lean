import IngestPipeline.Processor
import IngestPipeline.Proofs.Outcome
import IngestPipeline.Proofs.ValueEquality

/-! # Decoding a processor

What a decoded processor has to do with the value it was decoded from.

* **`Value.isScalar`**, **`Value.isBody`**: the shapes that decoding asks for, read off the
  constructors.
* **`Value.Denotes`**: a value names an operation and has a body.
* **`ofValue_eq_ok_iff`**: the values that denote a given processor.
* **`Value.option?`**: an option looked up in the value itself. `get?_of_ofValue` says that the
  decoded processor has the same options.
* **`text?_eq_ok_iff`**, **`texts?_eq_ok_iff`** and what follows from them: what the readers of an
  option give, in terms of the value of the option. -/

namespace IngestPipeline

/-! ### The shape of a processor -/

namespace Value

/-- Whether the value is a string, a number or a truth value. -/
def isScalar : Value → Bool
  | .string _ | .int _ | .float _ | .bool _ => true
  | _ => false

/-- The scalars are the values that have a text. -/
@[simp] theorem isSome_text? (v : Value) : v.text?.isSome = v.isScalar := by
  cases v <;> rfl

/-- A scalar carries no tag. -/
@[simp] theorem untag_of_isScalar {v : Value} (h : v.isScalar = true) : v.untag = v := by
  cases v with
  | tagged tag content => cases h
  | _ => rfl

/-- What is something else than null behind its tags is not null. -/
theorem isNull_eq_false {v : Value} (h : v.untag ≠ .null) : v.isNull = false := by
  unfold isNull
  split
  · rename_i hnull
    exact absurd hnull h
  · rfl

/-- A scalar is not null. -/
@[simp] theorem isNull_of_isScalar {x : Value} (h : x.isScalar = true) : x.isNull = false := by
  refine isNull_eq_false ?_
  rw [untag_of_isScalar h]
  rintro rfl
  cases h

/-- Whether the value can be the body of a processor: nothing, or a mapping under scalar keys. -/
def isBody : Value → Bool
  | .null => true
  | .map es => es.all fun e => e.1.isScalar
  | _ => false

/-- **An option in the body of a processor**: the last value under a key of that text, unless it is
null. -/
def option? (body : Value) (name : String) : Option Value :=
  match body with
  | .map es =>
      ((es.reverse.map fun e => (e.1.text?, e.2)).lookup (some name)).filter fun v => !v.isNull
  | _ => none

/-- The options of a body without tags have none. -/
theorem TagFree.option? {body v : Value} {name : String} (h : body.TagFree)
    (hv : body.option? name = some v) : v.TagFree := by
  cases body with
  | map es =>
      have hlookup := (Option.filter_eq_some_iff.1 hv).1
      obtain ⟨front, rest, hes, -⟩ := List.lookup_eq_some_iff.1 hlookup
      have hmem : (some name, v) ∈ es.reverse.map fun e => (e.1.text?, e.2) := by
        rw [hes]
        exact List.mem_append_right _ List.mem_cons_self
      obtain ⟨e, he, heq⟩ := List.mem_map.1 hmem
      rw [← (Prod.mk.inj heq).2]
      exact (tagFree_map_iff.1 h e (List.mem_reverse.1 he)).2
  | _ => cases hv

/-- The value under the last key of a name is the option of that name. -/
theorem option?_append_cons {name : String} {k v : Value} {es fs : List (Value × Value)}
    (hk : k.text? = some name) (hlast : ∀ e ∈ fs, e.1.text? ≠ some name) :
    (Value.map (es ++ (k, v) :: fs)).option? name = (some v).filter fun v => !v.isNull := by
  have hfs : (fs.reverse.map fun e => (e.1.text?, e.2)).lookup (some name) = none := by
    rw [List.lookup_eq_none_iff]
    intro e he
    obtain ⟨e', he', rfl⟩ := List.mem_map.1 he
    have hne := hlast e' (List.mem_reverse.1 he')
    simpa using hne.symm
  simp only [option?, List.reverse_append, List.reverse_cons, List.append_assoc, List.map_append,
    List.lookup_append, hfs]
  simp [hk]

/-- A key of another name does not matter to an option. -/
theorem option?_append_cons_of_ne {name : String} {k v : Value} {es fs : List (Value × Value)}
    (hk : k.text? ≠ some name) :
    (Value.map (es ++ (k, v) :: fs)).option? name = (Value.map (es ++ fs)).option? name := by
  have hkey : (some name == k.text?) = false := by simpa using hk.symm
  simp [option?, List.lookup_append, List.lookup_cons, hkey]

end Value

namespace Processor

/-- Naming options keeps keys, by their texts, and values. -/
theorem map_of_namedOptions {es : List (Value × Value)} {os : List (String × Value)}
    (h : namedOptions es = .ok os) :
    (es.map fun e => (e.1.text?, e.2)) = os.map fun o => (some o.1, o.2) := by
  induction es generalizing os with
  | nil => cases h; rfl
  | cons e es ih =>
      obtain ⟨k, v⟩ := e
      rw [namedOptions] at h
      split at h
      · cases h
      · rename_i name hname
        obtain ⟨rest, hrest, rfl⟩ := Except.map_eq_ok_iff.1 h
        rw [List.map_cons, List.map_cons, ih hrest, hname]

/-- Options can be named if all their keys are scalars. -/
@[simp] theorem isOk_namedOptions (es : List (Value × Value)) :
    (namedOptions es).isOk = es.all fun e => e.1.isScalar := by
  induction es with
  | nil => rfl
  | cons e es ih =>
      obtain ⟨k, v⟩ := e
      rw [namedOptions, List.all_cons, ← Value.isSome_text?]
      cases k.text? with
      | none => rfl
      | some name =>
          show ((namedOptions es).map _).isOk = _
          rw [Except.isOk_map, ih]
          rfl

/-- A body has options if it has the shape of a body. -/
@[simp] theorem isOk_optionsOf (name : String) (body : Value) :
    (optionsOf name body).isOk = body.isBody := by
  cases body with
  | map es => rw [optionsOf, Except.isOk_map, isOk_namedOptions, Value.isBody]
  | _ => rfl

/-- The options of a body are found in the body. -/
theorem get?_of_optionsOf {p : Processor} {name : String} {body : Value}
    (h : optionsOf name body = .ok p.options) (option : String) :
    p.get? option = body.option? option := by
  have hlookup : ∀ os : List (String × Value),
      (os.map fun o => (some o.1, o.2)).lookup (some option) = os.lookup option := by
    intro os
    induction os with
    | nil => rfl
    | cons o os ih =>
        rw [List.map_cons, List.lookup_cons, List.lookup_cons, ih]
        rfl
  unfold optionsOf at h
  split at h
  · rw [get?, ← Except.ok.inj h]
    rfl
  · rename_i es
    obtain ⟨os, hos, hp⟩ := Except.map_eq_ok_iff.1 h
    rw [get?, ← hp, Assoc.lookup_ofList, Value.option?, List.map_reverse, map_of_namedOptions hos,
      ← List.map_reverse, hlookup]
  · cases h

end Processor

/-- An operation is found under its name and under no other. -/
@[simp] theorem Operation.ofName?_eq_some_iff {name : String} {op : Operation} :
    Operation.ofName? name = some op ↔ name = op.name := by
  constructor
  · intro h
    have hname := List.find?_some h
    exact (eq_of_beq hname).symm
  · rintro rfl
    exact Operation.ofName?_name op

/-- Operations have different names. -/
theorem Operation.name_injective : Function.Injective Operation.name := by
  intro op op' h
  rw [← Option.some_inj, ← Operation.ofName?_name op, h, Operation.ofName?_name]

/-- **A value that names an operation and has a body**: a mapping with one entry, under the name of
the operation. Tags on the mapping and on the name do not matter. -/
def Value.Denotes (v : Value) (op : Operation) (body : Value) : Prop :=
  ∃ key, v.untag = .map [(key, body)] ∧ key.untag = .string op.name

namespace Value

/-- A mapping from the name of an operation to a body. -/
@[simp] theorem denotes_map (op : Operation) (body : Value) :
    (Value.map [(.string op.name, body)]).Denotes op body := ⟨_, rfl, rfl⟩

/-- Without tags there is one way to write it. -/
theorem TagFree.denotes_iff {v : Value} (h : v.TagFree) {op : Operation} {body : Value} :
    v.Denotes op body ↔ v = .map [(.string op.name, body)] := by
  constructor
  · rintro ⟨key, hv, hkey⟩
    rw [h.untag_eq] at hv
    rw [hv, tagFree_map_iff, List.forall_mem_singleton] at h
    rw [hv, ← hkey, h.1.untag_eq]
  · rintro rfl
    exact denotes_map op body

namespace Denotes

variable {v body body' : Value} {op op' : Operation}

/-- A value names one operation and has one body. -/
theorem unique (h : v.Denotes op body) (h' : v.Denotes op' body') : op = op' ∧ body = body' := by
  obtain ⟨key, hv, hkey⟩ := h
  obtain ⟨key', hv', hkey'⟩ := h'
  rw [hv] at hv'
  cases hv'
  rw [hkey] at hkey'
  exact ⟨Operation.name_injective (Value.string.inj hkey'), rfl⟩

/-- Such a value is not null. -/
theorem isNull_eq (h : v.Denotes op body) : v.isNull = false := by
  obtain ⟨key, hv, -⟩ := h
  refine isNull_eq_false ?_
  rw [hv]
  exact nofun

end Denotes

end Value

namespace Processor

/-- **Decoding a value that names an operation** is reading the options of its body. -/
theorem ofValue_of_denotes {v body : Value} {op : Operation} (h : v.Denotes op body) :
    ofValue v = (optionsOf op.name body).map fun options => ⟨op, options⟩ := by
  obtain ⟨key, hv, hkey⟩ := h
  rw [ofValue, hv]
  dsimp only
  rw [hkey]
  dsimp only
  rw [Operation.ofName?_name]

/-- **The values that denote a processor** name its operation, and their body has its options. -/
theorem ofValue_eq_ok_iff {v : Value} {p : Processor} :
    ofValue v = .ok p ↔
      ∃ body, v.Denotes p.operation body ∧ optionsOf p.operation.name body = .ok p.options := by
  constructor
  · intro h
    unfold ofValue at h
    split at h
    · rename_i key body hv
      split at h
      · rename_i name hkey
        split at h
        · cases h
        · rename_i operation hop
          obtain ⟨os, hos, rfl⟩ := Except.map_eq_ok_iff.1 h
          rw [Operation.ofName?_eq_some_iff] at hop
          subst hop
          exact ⟨body, ⟨key, hv, hkey⟩, hos⟩
      · cases h
    · cases h
    · cases h
  · rintro ⟨body, hv, hbody⟩
    rw [ofValue_of_denotes hv, hbody]
    rfl

section Denotes

variable {v body : Value} {op : Operation} {p : Processor}

/-- A decoded processor has the operation that the value names, and the options of the body. -/
theorem of_ofValue (hv : v.Denotes op body) (h : ofValue v = .ok p) :
    p.operation = op ∧ optionsOf p.operation.name body = .ok p.options := by
  obtain ⟨body', hv', hbody⟩ := ofValue_eq_ok_iff.1 h
  obtain ⟨rfl, rfl⟩ := hv.unique hv'
  exact ⟨rfl, hbody⟩

/-- A decoded processor has the operation that the value names. -/
theorem operation_of_ofValue (hv : v.Denotes op body) (h : ofValue v = .ok p) :
    p.operation = op :=
  (of_ofValue hv h).1

/-- Options are looked up in the value that the processor was decoded from. -/
theorem get?_of_ofValue (hv : v.Denotes op body) (h : ofValue v = .ok p) :
    p.get? = body.option? :=
  funext (get?_of_optionsOf (of_ofValue hv h).2)

/-- A body makes a processor of every operation. -/
theorem exists_ofValue_of_isBody (hv : v.Denotes op body) (h : body.isBody = true) :
    ∃ p, ofValue v = .ok p := by
  rw [← isOk_optionsOf op.name, Except.isOk_iff] at h
  obtain ⟨os, hos⟩ := h
  exact ⟨⟨op, os⟩, ofValue_eq_ok_iff.2 ⟨body, hv, hos⟩⟩

end Denotes

end Processor

/-! ### Reading options -/

/-- The texts of a value that is read as a list. A scalar is a list of one. -/
def Value.texts? : Value → Option (List String)
  | .seq items => Processor.itemTexts? items
  | v => v.text?.map fun text => [text]

/-- A scalar is a list of its text. -/
theorem Value.texts?_of_text? {x : Value} {text : String} (h : x.text? = some text) :
    x.texts? = some [text] := by
  rw [← Option.map_some (f := fun text => [text]), ← h]
  cases x with
  | seq items => cases h
  | _ => rfl

namespace Processor

variable {p : Processor} {option : String}

/-- An optional scalar is absent or has a text. -/
theorem text?_eq_ok_iff {t : Option String} :
    p.text? option = .ok t ↔ (p.get? option).map Value.text? = t.map some := by
  unfold text?
  cases p.get? option with
  | none => cases t <;> simp
  | some v =>
      dsimp only [Option.map_some]
      cases v.text? <;> cases t <;> simp

/-- A required scalar is there and has a text. -/
@[simp] theorem requireText_eq_ok_iff {text : String} :
    p.requireText option = .ok text ↔ (p.get? option).bind Value.text? = some text := by
  unfold requireText text?
  cases p.get? option with
  | none => simp
  | some v =>
      dsimp only [Option.bind_some]
      cases v.text? <;> simp

/-- An optional list is absent or has texts. -/
theorem texts?_eq_ok_iff {ts : Option (List String)} :
    p.texts? option = .ok ts ↔ (p.get? option).map Value.texts? = ts.map some := by
  unfold texts?
  split
  · rename_i h
    rw [h]
    cases ts <;> simp
  · rename_i items h
    rw [h, Option.map_some, Value.texts?]
    cases itemTexts? items <;> cases ts <;> simp
  · rename_i v hseq h
    have htexts : v.texts? = v.text?.map fun text => [text] := by
      cases v with
      | seq items => exact absurd rfl (hseq items)
      | _ => rfl
    rw [h, Option.map_some, htexts]
    cases v.text? <;> cases ts <;> simp

/-- A required list is there and has texts. -/
@[simp] theorem requireTexts_eq_ok_iff {ts : List String} :
    p.requireTexts option = .ok ts ↔ (p.get? option).bind Value.texts? = some ts := by
  have h : p.requireTexts option = .ok ts ↔ p.texts? option = .ok (some ts) := by
    unfold requireTexts
    cases p.texts? option with
    | error e => simp
    | ok o => cases o <;> simp
  rw [h, texts?_eq_ok_iff]
  cases p.get? option <;> simp

/-- A list that may be absent is empty if it is. -/
theorem texts_eq_ok_iff {ts : List String} :
    p.texts option = .ok ts ↔
      p.get? option = none ∧ ts = [] ∨ (p.get? option).bind Value.texts? = some ts := by
  rw [texts, Except.map_eq_ok_iff]
  simp only [texts?_eq_ok_iff]
  cases p.get? option with
  | none =>
      constructor
      · rintro ⟨o, ho, rfl⟩
        cases o with
        | none => exact .inl ⟨rfl, rfl⟩
        | some us => cases ho
      · rintro (⟨-, rfl⟩ | h)
        · exact ⟨none, rfl, rfl⟩
        · cases h
  | some v =>
      constructor
      · rintro ⟨o, ho, rfl⟩
        cases o with
        | none => cases ho
        | some us => exact .inr (Option.some_inj.1 ho)
      · rintro (⟨h, -⟩ | h)
        · cases h
        · exact ⟨some ts, congrArg some h, rfl⟩

end Processor

end IngestPipeline
