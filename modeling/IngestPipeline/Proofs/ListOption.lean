import IngestPipeline.Proofs.Reading

/-! # A scalar for a list of one

Where a processor reads a list, a scalar counts as a list of one. This file exchanges the one for
the other in a processor, at any depth of a nest of `foreach` processors, and follows the exchange
through the run of a pipeline.

* **`Value.Exchanged`**: two bodies that differ in the value of one option.
* **`Value.Relisted`**: two processors, the second with `[x]` in the place of a scalar `x` that is
  read as a list.
* **`Pipeline.outcome`**: the blocks of a pipeline, or where and why it fails.
* **`outcome_relisted_iff`**: the outcome is the same, unless the scalar is a timestamp marker that
  is to be removed, and that pipeline has blocks. -/

namespace IngestPipeline

open Processor (Contribution)

/-! ### Exchanging an option -/

namespace Value

/-- **Two bodies that differ in one option**: `x` stands in the first where `y` stands in the
second, under the last key that has the text of the option. -/
inductive Exchanged (o : String) (x y : Value) : Value → Value → Prop
  /-- Nothing but the value changes, and no later entry hides it. -/
  | intro {k : Value} {es fs : List (Value × Value)} (hk : k.text? = some o)
      (hlast : ∀ e ∈ fs, e.1.text? ≠ some o) :
      Exchanged o x y (.map (es ++ (k, x) :: fs)) (.map (es ++ (k, y) :: fs))

namespace Exchanged

variable {o : String} {x y body body' : Value}

/-- The exchange can be made in the other direction. -/
theorem symm (h : Exchanged o x y body body') : Exchanged o y x body' body := by
  obtain ⟨hk, hlast⟩ := h
  exact ⟨hk, hlast⟩

/-- What shape a body has does not depend on the values in it. -/
theorem isBody_eq (h : Exchanged o x y body body') : body.isBody = body'.isBody := by
  obtain ⟨hk, hlast⟩ := h
  simp [isBody]

/-- The option has the exchanged value. -/
theorem option?_self (h : Exchanged o x y body body') (hx : x.isNull = false) :
    body.option? o = some x := by
  obtain ⟨hk, hlast⟩ := h
  rw [option?_append_cons hk hlast, Option.filter_some, hx]
  rfl

/-- All other options are the same. -/
theorem option?_of_ne (h : Exchanged o x y body body') {o' : String} (ho : o' ≠ o) :
    body.option? o' = body'.option? o' := by
  obtain @⟨k, es, fs, hk, hlast⟩ := h
  have hkey : k.text? ≠ some o' := by
    rw [hk]
    exact fun heq => ho (Option.some.inj heq).symm
  rw [option?_append_cons_of_ne hkey, option?_append_cons_of_ne hkey]

end Exchanged

end Value

namespace Processor

/-- Options that cannot be named have a key without a text. -/
theorem namedOptions_eq_error {es : List (Value × Value)} (h : (namedOptions es).isOk = false) :
    namedOptions es = .error (.malformed .optionNameNotString) := by
  induction es with
  | nil => cases h
  | cons e es ih =>
      obtain ⟨k, v⟩ := e
      rw [namedOptions] at h ⊢
      split
      · rfl
      · rename_i name hname
        rw [hname] at h
        have hrest := ih ((Except.isOk_map _ _).symm.trans h)
        rw [hrest]
        rfl

/-- A mapping that is no body is refused for a key in it. -/
theorem ofValue_eq_error {v : Value} {op : Operation} {es : List (Value × Value)}
    (hv : v.Denotes op (.map es)) (h : (Value.map es).isBody = false) :
    ofValue v = .error (.malformed .optionNameNotString) := by
  rw [← isOk_optionsOf op.name, optionsOf, Except.isOk_map] at h
  rw [ofValue_of_denotes hv, optionsOf, namedOptions_eq_error h]
  rfl

/-- **Decoding sees the shape of a body only**: of two mappings of one shape, both are refused for
the same reason, or both denote a processor. -/
theorem ofValue_map_cases {v w : Value} {op op' : Operation} {es fs : List (Value × Value)}
    (hv : v.Denotes op (.map es)) (hw : w.Denotes op' (.map fs))
    (h : (Value.map es).isBody = (Value.map fs).isBody) :
    (∃ e, ofValue v = .error e ∧ ofValue w = .error e) ∨
      ∃ p q, ofValue v = .ok p ∧ ofValue w = .ok q := by
  cases hbody : (Value.map es).isBody with
  | true =>
      obtain ⟨p, hp⟩ := exists_ofValue_of_isBody hv hbody
      obtain ⟨q, hq⟩ := exists_ofValue_of_isBody hw (h.symm.trans hbody)
      exact .inr ⟨p, q, hp, hq⟩
  | false =>
      exact .inl ⟨_, ofValue_eq_error hv hbody, ofValue_eq_error hw (h.symm.trans hbody)⟩

/-- Decoding does not see an exchange. -/
theorem ofValue_exchanged {v w : Value} {op : Operation} {o : String} {x y body body' : Value}
    (hv : v.Denotes op body) (hw : w.Denotes op body') (h : Value.Exchanged o x y body body') :
    (∃ e, ofValue v = .error e ∧ ofValue w = .error e) ∨
      ∃ p q, ofValue v = .ok p ∧ ofValue w = .ok q := by
  have hshape := h.isBody_eq
  obtain ⟨hk, hlast⟩ := h
  exact ofValue_map_cases hv hw hshape

/-! ### A scalar that is read as a list -/

/-- **Two processors that differ in a list of one**: the option that is read as a list is the scalar
`x` in the first and `[x]` in the second. -/
structure RelistedAt (o : String) (x : Value) (p q : Processor) : Prop where
  /-- They have the same operation. -/
  operation : p.operation = q.operation
  /-- The option is read as a list. -/
  listOption : p.operation.listOption? = some o
  /-- The first has a scalar. -/
  scalar : x.isScalar = true
  /-- The value of the option in the first. -/
  get?_left : p.get? o = some x
  /-- The value of the option in the second. -/
  get?_right : q.get? o = some (.seq [x])
  /-- The other options are the same. -/
  get?_of_ne : ∀ o' ≠ o, p.get? o' = q.get? o'

namespace RelistedAt

variable {o : String} {x : Value} {p q : Processor}

/-- A scalar and a list of one have the same texts. -/
theorem texts?_eq (h : RelistedAt o x p q) : p.texts? o = q.texts? o := by
  have hsome := h.scalar
  rw [← Value.isSome_text?, Option.isSome_iff_exists] at hsome
  obtain ⟨text, htext⟩ := hsome
  have hleft : p.texts? o = .ok (some [text]) := by
    rw [texts?_eq_ok_iff, h.get?_left, Option.map_some, Value.texts?_of_text? htext]
    rfl
  have hright : q.texts? o = .ok (some [text]) := by
    rw [texts?_eq_ok_iff, h.get?_right, Option.map_some, Value.texts?, itemTexts?, htext]
    rfl
  rw [hleft, hright]

/-- **Both are read alike.** -/
theorem sameReads (h : RelistedAt o x p q) : SameReads p q where
  operation := h.operation
  text o' ho' := by
    have hne : o' ≠ o := fun heq => Operation.notMem_textOptions h.listOption (heq ▸ ho')
    exact text?_congr h.operation (h.get?_of_ne o' hne)
  list o' ho' := by
    obtain rfl : o = o' := Option.some.inj (h.listOption.symm.trans ho')
    exact h.texts?_eq
  literal hop := by
    have hlist := h.listOption
    rw [hop] at hlist
    cases hlist
  definitions hop := by
    have hlist := h.listOption
    rw [hop] at hlist
    obtain rfl : "patterns" = o := Option.some.inj hlist
    exact mapping?_congr h.operation (h.get?_of_ne _ (by decide))

/-- Only a removal reads `field` as a list. -/
theorem operation_eq_remove (h : RelistedAt "field" x p q) : p.operation = .remove := by
  have hlist := h.listOption
  revert hlist
  generalize p.operation = op
  cases op <;> decide

/-- A list is not a marker. -/
theorem not_isMarked (h : RelistedAt "field" x p q) {s : Settings} : ¬ q.IsMarked s := by
  intro hq
  rw [IsMarked, h.get?_right] at hq
  cases hq

/-- **Resolving keeps the difference**, unless the scalar is a marker to be resolved. -/
theorem resolveTimestamp (h : RelistedAt o x p q) {s : Settings}
    (hx : o = "field" → x = .string s.timestampMarker → s.timestampMarker = s.eventTimeField) :
    RelistedAt o x (p.resolveTimestamp s) (q.resolveTimestamp s) := by
  by_cases ho : o = "field"
  · subst ho
    have hq : ¬ q.IsMarked s := h.not_isMarked
    rw [resolveTimestamp_of_not_isMarked hq]
    by_cases hp : p.IsMarked s
    · -- the marker stands for itself
      have hself : x = .string s.timestampMarker := by
        rw [IsMarked, h.get?_left, Option.map_some, Value.untag_of_isScalar h.scalar] at hp
        exact Option.some.inj hp
      have heq := hx rfl hself
      rw [resolveTimestamp_of_isMarked hp, ← heq, ← hself]
      refine ⟨h.operation, h.listOption, h.scalar, ?_, h.get?_right, ?_⟩
      · exact get?_withOption_self _ (by rw [hself]; rfl)
      · intro o' ho'
        rw [get?_withOption_of_ne ho']
        exact h.get?_of_ne o' ho'
    · rw [resolveTimestamp_of_not_isMarked hp]
      exact h
  · have hfield : p.get? "field" = q.get? "field" := h.get?_of_ne _ (Ne.symm ho)
    refine ⟨?_, ?_, h.scalar, ?_, ?_, ?_⟩
    · rw [operation_resolveTimestamp, operation_resolveTimestamp, h.operation]
    · rw [operation_resolveTimestamp, h.listOption]
    · rw [p.get?_resolveTimestamp_of_ne s ho, h.get?_left]
    · rw [q.get?_resolveTimestamp_of_ne s ho, h.get?_right]
    · intro o' ho'
      exact get?_resolveTimestamp_congr hfield (h.get?_of_ne o' ho')

end RelistedAt

end Processor

/-! ### Processors in a document -/

/-- **A processor with a list of one for a scalar**: in an option that its operation reads as a
list, or so in the processor that it wraps. -/
inductive Value.Relisted : Value → Value → Prop
  /-- The option is the processor's own. -/
  | own {v w body body' x : Value} {op : Operation} {o : String} (hv : v.Denotes op body)
      (hw : w.Denotes op body') (ho : op.listOption? = some o) (hx : x.isScalar = true)
      (h : Exchanged o x (.seq [x]) body body') : Relisted v w
  /-- The option is one of a wrapped processor. -/
  | nested {v w body body' x y : Value} (hv : v.Denotes .foreach body)
      (hw : w.Denotes .foreach body') (hwrapped : Relisted x y)
      (h : Exchanged "processor" x y body body') : Relisted v w

namespace Value.Relisted

variable {v w : Value}

/-- Both name one operation. -/
theorem exists_denotes (h : v.Relisted w) :
    ∃ op body body', v.Denotes op body ∧ w.Denotes op body' := by
  cases h with
  | own hv hw => exact ⟨_, _, _, hv, hw⟩
  | nested hv hw => exact ⟨_, _, _, hv, hw⟩

/-- The first is not null. -/
theorem isNull_left (h : v.Relisted w) : v.isNull = false := by
  obtain ⟨_, _, _, hv, -⟩ := h.exists_denotes
  exact hv.isNull_eq

/-- The second is not null. -/
theorem isNull_right (h : v.Relisted w) : w.isNull = false := by
  obtain ⟨_, _, _, -, hw⟩ := h.exists_denotes
  exact hw.isNull_eq

/-- Both are reported under the same name. -/
theorem reportedOperation (h : v.Relisted w) :
    Pipeline.reportedOperation v = Pipeline.reportedOperation w := by
  obtain ⟨_, _, _, hv, hw⟩ := h.exists_denotes
  rw [Pipeline.reportedOperation_of_denotes hv, Pipeline.reportedOperation_of_denotes hw]

end Value.Relisted

namespace Processor

/-- An exchange in a value is an exchange in the processor that it denotes. -/
theorem relistedAt_of_exchanged {v w body body' x : Value} {op : Operation} {o : String}
    {p q : Processor} (hv : v.Denotes op body) (hw : w.Denotes op body')
    (ho : op.listOption? = some o) (hx : x.isScalar = true)
    (h : Value.Exchanged o x (.seq [x]) body body') (hp : ofValue v = .ok p)
    (hq : ofValue w = .ok q) : RelistedAt o x p q where
  operation := (operation_of_ofValue hv hp).trans (operation_of_ofValue hw hq).symm
  listOption := by rw [operation_of_ofValue hv hp, ho]
  scalar := hx
  get?_left := by rw [get?_of_ofValue hv hp, h.option?_self (Value.isNull_of_isScalar hx)]
  get?_right := by rw [get?_of_ofValue hw hq, h.symm.option?_self rfl]
  get?_of_ne o' ho' := by rw [get?_of_ofValue hv hp, get?_of_ofValue hw hq, h.option?_of_ne ho']

/-- A processor with an option that is read as a list wraps no other. -/
theorem RelistedAt.operation_ne_foreach {o : String} {x : Value} {p q : Processor}
    (h : RelistedAt o x p q) : p.operation ≠ .foreach := by
  intro hop
  have hlist := h.listOption
  rw [hop] at hlist
  cases hlist

/-- **The map entries do not see a list of one**, at any depth. -/
theorem entries_relisted (s : Settings) {v w : Value} (h : v.Relisted w) :
    ofValue v >>= entries s = ofValue w >>= entries s := by
  induction h with
  | own hv hw ho hx h =>
      obtain ⟨e, hp, hq⟩ | ⟨p, q, hp, hq⟩ := ofValue_exchanged hv hw h
      · rw [hp, hq]
      · have hpq := relistedAt_of_exchanged hv hw ho hx h hp hq
        have hop := hpq.operation_ne_foreach
        have hop' : q.operation ≠ .foreach := hpq.operation ▸ hop
        rw [hp, hq]
        show p.entries s = q.entries s
        rw [entries_of_ne s hop, entries_of_ne s hop', ownEntries_congr s hpq.sameReads]
  | @nested v w body body' x y hv hw hwrapped h ih =>
      obtain ⟨e, hp, hq⟩ | ⟨p, q, hp, hq⟩ := ofValue_exchanged hv hw h
      · rw [hp, hq]
      · have hleft : p.get? "processor" = some x := by
          rw [get?_of_ofValue hv hp, h.option?_self hwrapped.isNull_left]
        have hright : q.get? "processor" = some y := by
          rw [get?_of_ofValue hw hq, h.symm.option?_self hwrapped.isNull_right]
        rw [hp, hq]
        show p.entries s = q.entries s
        rw [entries_of_foreach s (operation_of_ofValue hv hp),
          entries_of_foreach s (operation_of_ofValue hw hq), hleft, hright]
        exact ih

/-- What a removal contributes: one deletion for each field, under its condition. -/
theorem contribution_of_remove (s : Settings) {p : Processor} {fields : List String}
    (hop : p.operation = .remove) (hfields : p.requireTexts "field" = .ok fields) :
    p.contribution s = (p.text? "if").map fun condition =>
      ⟨condition.map Condition.check, none,
        fields.map fun field => .statement field "delete()"⟩ := by
  have hentries : p.entries s = .ok (fields.map fun field => .statement field "delete()") := by
    rw [entries_of_ne s (by rw [hop]; decide), ownEntries, hop]
    dsimp only
    rw [removeEntries, hfields]
    rfl
  rw [contribution_of_not_extractsPatterns s (by rw [hop]; rfl), hentries]
  cases p.text? "if" <;> rfl

end Processor

namespace Pipeline

/-- **A marker that is to be removed**: a removal of the timestamp marker, which stands for another
field. -/
def RemovesMarker (s : Settings) (v : Value) : Prop :=
  s.timestampMarker ≠ s.eventTimeField ∧
    ∃ body, v.Denotes .remove body ∧ body.option? "field" = some (.string s.timestampMarker)

/-- A contribution by way of the decoded processor. -/
theorem contribution_of_ofValue {s : Settings} {v : Value} {p : Processor}
    (h : Processor.ofValue v = .ok p) :
    contribution s v = (p.resolveTimestamp s).contribution s := by
  rw [contribution, Processor.resolved, h]
  rfl

/-- A value that denotes no processor fails for that reason. -/
theorem contribution_of_ofValue_error {s : Settings} {v : Value} {e : ProcessorError}
    (h : Processor.ofValue v = .error e) : contribution s v = .error e := by
  rw [contribution, Processor.resolved, h]
  rfl

/-- **A list of one contributes what the scalar does**, unless a marker is removed. -/
theorem contribution_relisted {s : Settings} {v w : Value} (h : v.Relisted w)
    (hmarker : ¬ RemovesMarker s v) : contribution s v = contribution s w := by
  cases h with
  | @own _ _ body body' x op o hv hw ho hx h =>
      obtain ⟨e, hp, hq⟩ | ⟨p, q, hp, hq⟩ := Processor.ofValue_exchanged hv hw h
      · rw [contribution_of_ofValue_error hp, contribution_of_ofValue_error hq]
      · have hpq := Processor.relistedAt_of_exchanged hv hw ho hx h hp hq
        -- unless a marker is removed, resolving it leaves the one option in its two spellings
        have hresolved :
            Processor.RelistedAt o x (p.resolveTimestamp s) (q.resolveTimestamp s) := by
          refine hpq.resolveTimestamp ?_
          rintro rfl rfl
          by_contra hne
          have hop := (Processor.operation_of_ofValue hv hp).symm.trans hpq.operation_eq_remove
          rw [hop] at hv
          exact hmarker ⟨hne, body, hv, h.option?_self rfl⟩
        rw [contribution_of_ofValue hp, contribution_of_ofValue hq]
        exact Processor.contribution_congr s hresolved.operation_ne_foreach hresolved.sameReads
  | @nested _ _ body body' x y hv hw hwrapped h =>
      obtain ⟨e, hp, hq⟩ | ⟨p, q, hp, hq⟩ := Processor.ofValue_exchanged hv hw h
      · rw [contribution_of_ofValue_error hp, contribution_of_ofValue_error hq]
      · have hpop := Processor.operation_of_ofValue hv hp
        have hqop := Processor.operation_of_ofValue hw hq
        have hpop' := (p.operation_resolveTimestamp s).trans hpop
        have hqop' := (q.operation_resolveTimestamp s).trans hqop
        have hleft : (p.resolveTimestamp s).get? "processor" = some x := by
          rw [p.get?_resolveTimestamp_of_ne s (by decide), Processor.get?_of_ofValue hv hp,
            h.option?_self hwrapped.isNull_left]
        have hright : (q.resolveTimestamp s).get? "processor" = some y := by
          rw [q.get?_resolveTimestamp_of_ne s (by decide), Processor.get?_of_ofValue hw hq,
            h.symm.option?_self hwrapped.isNull_right]
        -- a `foreach` contributes its condition and what it wraps, and reads nothing else
        have hif : (p.resolveTimestamp s).text? "if" = (q.resolveTimestamp s).text? "if" := by
          refine Processor.text?_resolveTimestamp_congr s (hpop.trans hqop.symm) (by decide) ?_
          rw [Processor.get?_of_ofValue hv hp, Processor.get?_of_ofValue hw hq,
            h.option?_of_ne (by decide)]
        have hentries : (p.resolveTimestamp s).entries s = (q.resolveTimestamp s).entries s := by
          rw [Processor.entries_of_foreach s hpop', Processor.entries_of_foreach s hqop', hleft,
            hright]
          exact Processor.entries_relisted s hwrapped
        rw [contribution_of_ofValue hp, contribution_of_ofValue hq,
          Processor.contribution_of_not_extractsPatterns s (by rw [hpop']; rfl),
          Processor.contribution_of_not_extractsPatterns s (by rw [hqop']; rfl), hif, hentries]

/-- **A marker in a list is not resolved**: a removal of the marker and one of a list of it fail
alike, or delete different fields. -/
theorem contribution_relisted_of_removesMarker {s : Settings} {v w : Value} (h : v.Relisted w)
    (hmarker : RemovesMarker s v) :
    (∃ e, contribution s v = .error e ∧ contribution s w = .error e) ∨
    ∃ c d, contribution s v = .ok c ∧ contribution s w = .ok d ∧ c.entries ≠ d.entries := by
  obtain ⟨hne, body₀, hremove, hfield⟩ := hmarker
  cases h with
  | @own _ _ body body' x op o hv hw ho hx h =>
      obtain ⟨rfl, rfl⟩ := hv.unique hremove
      obtain rfl : "field" = o := Option.some.inj ho
      obtain rfl : x = .string s.timestampMarker :=
        Option.some.inj ((h.option?_self (Value.isNull_of_isScalar hx)).symm.trans hfield)
      obtain ⟨e, hp, hq⟩ | ⟨p, q, hp, hq⟩ := Processor.ofValue_exchanged hv hw h
      · exact .inl ⟨e, contribution_of_ofValue_error hp, contribution_of_ofValue_error hq⟩
      · have hpq := Processor.relistedAt_of_exchanged hv hw ho hx h hp hq
        have hpop := (p.operation_resolveTimestamp s).trans (Processor.operation_of_ofValue hv hp)
        have hqop := (q.operation_resolveTimestamp s).trans (Processor.operation_of_ofValue hw hq)
        have hmarked : p.IsMarked s := by
          rw [Processor.IsMarked, hpq.get?_left]
          rfl
        -- only the scalar is resolved, so the two delete different fields
        have hleft : (p.resolveTimestamp s).requireTexts "field" = .ok [s.eventTimeField] := by
          rw [Processor.resolveTimestamp_of_isMarked hmarked, Processor.requireTexts_eq_ok_iff,
            Processor.get?_withOption_self _ rfl]
          rfl
        have hright : (q.resolveTimestamp s).requireTexts "field" = .ok [s.timestampMarker] := by
          rw [Processor.resolveTimestamp_of_not_isMarked hpq.not_isMarked,
            Processor.requireTexts_eq_ok_iff, hpq.get?_right]
          rfl
        have hif := Processor.text?_resolveTimestamp_congr s hpq.operation
          (by decide : "if" ≠ "field") (hpq.get?_of_ne _ (by decide))
        rw [contribution_of_ofValue hp, contribution_of_ofValue hq,
          Processor.contribution_of_remove s hpop hleft,
          Processor.contribution_of_remove s hqop hright, hif]
        cases (q.resolveTimestamp s).text? "if" with
        | error e => exact .inl ⟨e, rfl, rfl⟩
        | ok condition =>
            refine .inr ⟨_, _, rfl, rfl, ?_⟩
            simpa using Ne.symm hne
  | nested hv =>
      obtain ⟨hop, -⟩ := hv.unique hremove
      cases hop

/-! ### Runs -/

/-- The blocks of a pipeline, or the position, the operation and the cause of its failure. -/
def outcome (s : Settings) (vs : List Value) :
    Except (Nat × String × ProcessorError) (List Block) :=
  (blocks s vs).mapError fun f => (f.index, f.operation, f.cause)

/-- The blocks of a pipeline have the entries of the contributions they are assembled from. -/
theorem flatMap_entries_blocksOf {s : Settings} {index : Nat} {vs : List Value}
    {cs : List Contribution} (h : contributionsFrom s index vs = .ok cs) :
    (Assembly.blocksOf cs).flatMap Block.entries = cs.flatMap Contribution.entries := by
  rw [Assembly.blocksOf_eq_grouped]
  refine flatMap_entries_grouped ?_
  intro c hc
  obtain ⟨v, -, hv⟩ := Except.exists_of_mem_mapM (contributionsFrom_eq_ok_iff.1 h) hc
  obtain ⟨p, -, hp⟩ := Except.bind_eq_ok_iff.1 hv
  exact Processor.coherent_of_contribution hp

variable {s : Settings} {v w : Value}

/-- The contributions around a processor that has one itself. -/
theorem contributionsFrom_append_cons {c : Contribution} (h : contribution s v = .ok c)
    (index : Nat) (vs ws : List Value) :
    contributionsFrom s index (vs ++ v :: ws) = do
      let cs ← contributionsFrom s index vs
      let ds ← contributionsFrom s (index + vs.length + 1) ws
      return cs ++ c :: ds := by
  rw [contributionsFrom_append, contributionsFrom_cons_ok h]
  cases contributionsFrom s index vs with
  | error f => rfl
  | ok cs => cases contributionsFrom s (index + vs.length + 1) ws <;> rfl

/-- In a pipeline that has blocks, each processor has a contribution. -/
theorem isOk_contribution_of_mem {vs : List Value} (h : (blocks s vs).isOk = true) (hv : v ∈ vs) :
    (contribution s v).isOk = true := by
  rw [blocks_eq_map_blocksOf, Except.isOk_map, Except.isOk_iff] at h
  obtain ⟨cs, hcs⟩ := h
  rw [contributionsFrom_eq_ok_iff] at hcs
  exact Except.isOk_mapM_iff.1 (Except.isOk_iff.2 ⟨cs, hcs⟩) v hv

/-- **Exchanging one processor of a run**: what contributes the same, under the same name, has the
same outcome. -/
theorem outcome_congr (h : contribution s v = contribution s w)
    (hname : reportedOperation v = reportedOperation w) (vs ws : List Value) :
    outcome s (vs ++ v :: ws) = outcome s (vs ++ w :: ws) := by
  rw [outcome, outcome, blocks_eq_map_blocksOf, blocks_eq_map_blocksOf, contributionsFrom_append,
    contributionsFrom_append]
  cases contributionsFrom s 0 vs with
  | error f => rfl
  | ok cs =>
      dsimp only
      cases hv : contribution s v with
      | error e =>
          rw [contributionsFrom_cons_error hv, contributionsFrom_cons_error (h.symm.trans hv)]
          show Except.error _ = Except.error _
          rw [hname]
      | ok c => rw [contributionsFrom_cons_ok hv, contributionsFrom_cons_ok (h.symm.trans hv)]

/-- **Exchanging a processor for one with other entries** leaves the outcome as it is only if the
run fails. -/
theorem outcome_eq_iff_of_entries_ne {c d : Contribution} (hv : contribution s v = .ok c)
    (hw : contribution s w = .ok d) (hne : c.entries ≠ d.entries) (vs ws : List Value) :
    outcome s (vs ++ v :: ws) = outcome s (vs ++ w :: ws) ↔
      (blocks s (vs ++ v :: ws)).isOk = false := by
  rw [outcome, outcome, blocks_eq_map_blocksOf, blocks_eq_map_blocksOf]
  have hleft := contributionsFrom_append_cons hv 0 vs ws
  have hright := contributionsFrom_append_cons hw 0 vs ws
  cases hvs : contributionsFrom s 0 vs with
  | error f =>
      rw [hleft, hright, hvs]
      exact ⟨fun _ => rfl, fun _ => rfl⟩
  | ok cs =>
      cases hws : contributionsFrom s (0 + vs.length + 1) ws with
      | error f =>
          rw [hleft, hright, hvs, hws]
          exact ⟨fun _ => rfl, fun _ => rfl⟩
      | ok ds =>
          rw [hvs, hws] at hleft hright
          rw [hleft, hright]
          refine ⟨fun h => absurd ?_ hne, fun h => by cases h⟩
          -- the entries of all other contributions stand on both sides
          have hblocks : Assembly.blocksOf (cs ++ c :: ds) = Assembly.blocksOf (cs ++ d :: ds) :=
            Except.ok.inj h
          have hentries := congrArg (List.flatMap Block.entries) hblocks
          rw [flatMap_entries_blocksOf hleft, flatMap_entries_blocksOf hright] at hentries
          simpa using hentries

/-- **A list of one for a scalar.** Whatever stands around the processor, the outcome of the
pipeline is the same exactly if the scalar is not a marker that is removed, or the pipeline fails
anyway. -/
theorem outcome_relisted_iff (s : Settings) {v w : Value} (h : v.Relisted w) (vs ws : List Value) :
    outcome s (vs ++ v :: ws) = outcome s (vs ++ w :: ws) ↔
      ¬ (RemovesMarker s v ∧ (blocks s (vs ++ v :: ws)).isOk = true) := by
  by_cases hmarker : RemovesMarker s v
  · obtain ⟨e, hv, hw⟩ | ⟨c, d, hv, hw, hne⟩ := contribution_relisted_of_removesMarker h hmarker
    · have hsame := outcome_congr (hv.trans hw.symm) h.reportedOperation vs ws
      have hfails : (blocks s (vs ++ v :: ws)).isOk ≠ true := by
        intro hok
        have hv' := isOk_contribution_of_mem hok (v := v) (by simp)
        rw [hv] at hv'
        cases hv'
      exact ⟨fun _ hand => hfails hand.2, fun _ => hsame⟩
    · rw [outcome_eq_iff_of_entries_ne hv hw hne, ← Bool.not_eq_true]
      exact ⟨fun hfails hand => hfails hand.2, fun hnot hok => hnot ⟨hmarker, hok⟩⟩
  · have hsame := outcome_congr (contribution_relisted h hmarker) h.reportedOperation vs ws
    exact ⟨fun _ hand => hmarker hand.1, fun _ => hsame⟩

/-- A removal of the timestamp marker. -/
def markerRemoval : Value :=
  .map [(.string "remove", .map [(.string "field", .string "@timestamp")])]

/-- A removal of a list of the timestamp marker. -/
def markerListRemoval : Value :=
  .map [(.string "remove", .map [(.string "field", .seq [.string "@timestamp"])])]

/-- The two removals differ in a list of one. -/
theorem relisted_markerRemoval : markerRemoval.Relisted markerListRemoval := by
  have h : Value.Exchanged "field" (.string "@timestamp") (.seq [.string "@timestamp"])
      (.map ([] ++ (.string "field", .string "@timestamp") :: []))
      (.map ([] ++ (.string "field", .seq [.string "@timestamp"]) :: [])) :=
    .intro rfl (List.forall_mem_nil _)
  have hremove : Operation.remove.listOption? = some "field" := rfl
  exact .own (Value.denotes_map .remove _) (Value.denotes_map .remove _) hremove rfl h

/-- A `foreach` around a processor. -/
def nestedSample (v : Value) : Value :=
  .map [(.string "foreach", .map [(.string "field", .string "items"), (.string "processor", v)])]

/-- Inside a `foreach` the list of one makes no difference, whatever stands around it. -/
theorem outcome_relisted_iff_nestedSample :
    (nestedSample markerRemoval).Relisted (nestedSample markerListRemoval) ∧
      outcome {} ([markerRemoval] ++ nestedSample markerRemoval :: [markerListRemoval]) =
        outcome {} ([markerRemoval] ++ nestedSample markerListRemoval :: [markerListRemoval]) := by
  have hbody : Value.Exchanged "processor" markerRemoval markerListRemoval
      (.map ([(.string "field", .string "items")] ++ (.string "processor", markerRemoval) :: []))
      (.map ([(.string "field", .string "items")] ++
        (.string "processor", markerListRemoval) :: [])) :=
    .intro rfl (List.forall_mem_nil _)
  have hdenotes : ∀ v, (nestedSample v).Denotes .foreach
      (.map [(.string "field", .string "items"), (.string "processor", v)]) := fun v =>
    Value.denotes_map .foreach _
  have h : (nestedSample markerRemoval).Relisted (nestedSample markerListRemoval) :=
    .nested (hdenotes _) (hdenotes _) relisted_markerRemoval hbody
  refine ⟨h, (outcome_relisted_iff {} h [markerRemoval] [markerListRemoval]).2 ?_⟩
  -- the marker inside a `foreach` is not resolved in either form
  rintro ⟨⟨-, body, hremove, -⟩, -⟩
  cases (hremove.unique (hdenotes _)).1

/-- **The marker in a list stays as it is**, and the marker on its own does not. -/
theorem outcome_markerRemoval_ne :
    markerRemoval.Relisted markerListRemoval ∧
      outcome {} [markerRemoval] =
        .ok [⟨none, .map [.statement "event.start" "delete()"]⟩] ∧
      outcome {} [markerListRemoval] =
        .ok [⟨none, .map [.statement "@timestamp" "delete()"]⟩] := by
  refine ⟨relisted_markerRemoval, ?_, ?_⟩ <;> cbv

end Pipeline

end IngestPipeline
