import IngestPipeline.Render
import IngestPipeline.Proofs.Grouping
import IngestPipeline.Proofs.JsonText
import Mathlib.Data.List.Basic

/-! # The JSON text of a decoder document determines the document

Two documents have the same JSON text only if they have the same blocks, whatever the names, checks
and patterns in them are. The parse style shows in the text exactly if there is a parse block.

* **`Body.member_eq_iff`**: the key of a body tells the kind of the body and, of a parse body, the
  style: a piped key has a bar behind `parse`, whichever field comes after it.
* **`Block.toJson_eq_iff`**, **`map_toJson_eq_iff`**: from bodies to blocks and lists of blocks.
* **`Decoder.render_json_eq_iff`**: from trees to texts, as document trees are textual. -/

namespace IngestPipeline

/-! ### Trees of entries, bodies and blocks -/

/-- A statement is an object and a pipeline call a string, so no two entries look alike. -/
theorem Entry.toJson_injective : Function.Injective Entry.toJson := by
  intro e f h
  cases e with
  | statement field expression =>
      cases f with
      | statement field' expression' =>
          simp only [Entry.toJson, Json.object.injEq, List.cons.injEq, Prod.mk.injEq,
            Json.string.injEq, and_true] at h
          rw [h.1, h.2]
      | pipeline name => cases h
  | pipeline name =>
      cases f with
      | statement field expression => cases h
      | pipeline name' => rw [Json.string.inj h]

namespace Body

/-- A key that goes another way than `parse|` is no piped key, whatever the field. -/
theorem ne_piped {key : String} (hkey : ¬ "parse|".toList <+: key.toList) (field : String) :
    key ≠ "parse|" ++ field := by
  rintro rfl
  exact hkey ⟨field.toList, String.toList_append.symm⟩

/-- Parse bodies in the same style have the same member only if they are the same. -/
theorem directive_eq_of_member_eq {style : ParseStyle} {d d' : Directive}
    (h : (parse d).member style = (parse d').member style) : d = d' := by
  obtain ⟨field, patterns⟩ := d
  obtain ⟨field', patterns'⟩ := d'
  have hstring : Function.Injective Json.string := fun _ _ => Json.string.inj
  cases style with
  | nested =>
      simp only [member, Prod.mk.injEq, true_and, Json.object.injEq, List.cons.injEq,
        Json.array.injEq, and_true, List.map_inj_right hstring] at h
      rw [h.1, h.2]
  | piped =>
      simp only [member, Prod.mk.injEq, Json.array.injEq, String.append_right_inj,
        List.map_inj_right hstring] at h
      rw [h.1, h.2]

/-- A parse body shows its style. -/
theorem style_eq_of_member_eq {style style' : ParseStyle} {d d' : Directive}
    (h : (parse d).member style = (parse d').member style') : style = style' := by
  cases style with
  | nested =>
      cases style' with
      | nested => rfl
      | piped => exact absurd (Prod.mk.inj h).1 (ne_piped (by decide) d'.field)
  | piped =>
      cases style' with
      | nested => exact absurd (Prod.mk.inj h).1.symm (ne_piped (by decide) d.field)
      | piped => rfl

/-- A map body and a parse body have different keys, in both styles. -/
theorem member_map_ne_member_parse (style style' : ParseStyle) (es : List Entry) (d : Directive) :
    (map es).member style ≠ (parse d).member style' := by
  intro h
  cases style' with
  | nested => exact absurd (Prod.mk.inj h).1 (by decide)
  | piped => exact absurd (Prod.mk.inj h).1 (ne_piped (by decide) d.field)

/-- **The member of a body determines the body**, and the style of a parse body. -/
theorem member_eq_iff (style style' : ParseStyle) (b c : Body) :
    b.member style = c.member style' ↔ b = c ∧ (style = style' ∨ ∃ es, b = map es) := by
  constructor
  · intro h
    cases b with
    | map es =>
        cases c with
        | map es' =>
            have htrees := Json.array.inj (Prod.mk.inj h).2
            rw [Entry.toJson_injective.list_map htrees]
            exact ⟨rfl, .inr ⟨es', rfl⟩⟩
        | parse d => exact absurd h (member_map_ne_member_parse style style' es d)
    | parse d =>
        cases c with
        | map es => exact absurd h.symm (member_map_ne_member_parse style' style es d)
        | parse d' =>
            obtain rfl := style_eq_of_member_eq h
            rw [directive_eq_of_member_eq h]
            exact ⟨rfl, .inl rfl⟩
  · rintro ⟨rfl, rfl | ⟨es, rfl⟩⟩
    · rfl
    · rfl

end Body

/-- The body of a block without a directive is a map. -/
theorem Block.directive?_eq_none_iff (b : Block) :
    b.directive? = none ↔ ∃ es, b.body = .map es := by
  obtain ⟨check, body⟩ := b
  cases body with
  | map es => exact iff_of_true rfl ⟨es, rfl⟩
  | parse d => exact iff_of_false nofun nofun

/-- **The tree of a block determines the block**, and the style if it is a parse block. A check is
told from a body by the number of members, so that no key of a body has to differ from `check`. -/
theorem Block.toJson_eq_iff (style style' : ParseStyle) (b c : Block) :
    b.toJson style = c.toJson style' ↔ b = c ∧ (style = style' ∨ b.directive? = none) := by
  rw [directive?_eq_none_iff]
  obtain ⟨check, body⟩ := b
  obtain ⟨check', body'⟩ := c
  cases check with
  | none =>
      cases check' with
      | none => simp [toJson, Body.member_eq_iff]
      | some check' => simp [toJson]
  | some check =>
      cases check' with
      | none => simp [toJson]
      | some check' => simp [toJson, Body.member_eq_iff, and_assoc]

/-- The trees of a list of blocks determine the blocks, and the style if one is a parse block. -/
theorem map_toJson_eq_iff (style style' : ParseStyle) (bs cs : List Block) :
    bs.map (Block.toJson style) = cs.map (Block.toJson style') ↔
      bs = cs ∧ (style = style' ∨ ∀ b ∈ bs, b.directive? = none) := by
  induction bs generalizing cs with
  | nil =>
      cases cs with
      | nil => simp
      | cons c cs => simp
  | cons b bs ih =>
      cases cs with
      | nil => simp
      | cons c cs =>
          rw [List.map_cons, List.map_cons, List.cons.injEq, Block.toJson_eq_iff, ih,
            List.cons.injEq, List.forall_mem_cons]
          tauto

/-! ### Texts of documents -/

/-- An entry is a tree of texts. -/
@[simp] theorem Entry.isTextual_toJson (e : Entry) : e.toJson.isTextual = true := by
  cases e with
  | statement field expression => rfl
  | pipeline name => rfl

/-- The member for a body is a tree of texts, in either style. -/
@[simp] theorem Body.isTextual_member (style : ParseStyle) (b : Body) :
    (b.member style).2.isTextual = true := by
  cases b with
  | map es => exact Json.areTextual_map fun e _ => e.isTextual_toJson
  | parse d =>
      have hpatterns : Json.areTextual (d.patterns.map .string) = true :=
        Json.areTextual_map fun _ _ => rfl
      cases style with
      | nested => exact Bool.and_eq_true_iff.2 ⟨hpatterns, rfl⟩
      | piped => exact hpatterns

/-- A block is a tree of texts. -/
@[simp] theorem Block.isTextual_toJson (style : ParseStyle) (b : Block) :
    (b.toJson style).isTextual = true := by
  obtain ⟨check, body⟩ := b
  have hbody : Json.areTextualMembers [body.member style] = true :=
    Bool.and_eq_true_iff.2 ⟨body.isTextual_member style, rfl⟩
  cases check with
  | none => exact hbody
  | some check =>
      show Json.areTextualMembers [("check", .string check), body.member style] = true
      rw [Json.areTextualMembers, hbody]
      rfl

namespace Decoder

/-- The tree of a document has neither numbers nor truth values nor null in it. -/
@[simp] theorem isTextual_toJson (d : Decoder) : d.toJson.isTextual = true := by
  have hblocks : Json.areTextual (d.blocks.map (Block.toJson d.parseStyle)) = true :=
    Json.areTextual_map fun b _ => b.isTextual_toJson d.parseStyle
  exact Bool.and_eq_true_iff.2 ⟨hblocks, rfl⟩

/-- **The JSON text of a document determines its blocks**, and the parse style if one of them is a
parse block. -/
theorem render_json_eq_iff (d₁ d₂ : Decoder) :
    d₁.render .json = d₂.render .json ↔
      d₁.blocks = d₂.blocks ∧
        (d₁.parseStyle = d₂.parseStyle ∨ ∀ b ∈ d₁.blocks, b.directive? = none) := by
  have htrees : d₁.render .json = d₂.render .json ↔ d₁.toJson = d₂.toJson := by
    show d₁.toJson.pretty ++ "\n" = d₂.toJson.pretty ++ "\n" ↔ _
    rw [String.append_left_inj]
    exact ⟨Json.pretty_inj d₁.isTextual_toJson d₂.isTextual_toJson, congrArg Json.pretty⟩
  rw [htrees, ← map_toJson_eq_iff]
  simp [toJson]

end Decoder

end IngestPipeline
