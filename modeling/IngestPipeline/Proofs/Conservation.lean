import IngestPipeline.Proofs.Outcome
import IngestPipeline.Proofs.Run
import Mathlib

/-! # Nothing is lost between processors and blocks

A guarded contribution with a directive becomes a block without its entries, and an unguarded one a
block without its directive. This file shows that no processor contributes what would be dropped,
and follows entries, directives and checks through the grouping into blocks.

* **`Contribution.Coherent`**: a contribution with a directive is guarded by the existence of the
  field of the directive and has no entries. Every processor's contribution is coherent.
* **`flatMap_entries_grouped`**, **`filterMap_directive?_grouped`**, **`filterMap_check_grouped`**:
  grouping keeps entries, directives and checks, in order.
* **`blocks_conserve`**: the same for all blocks of a pipeline. -/

namespace IngestPipeline

open Processor (Contribution)

/-! ### The contribution of one processor -/

namespace Processor

/-- A contribution is made of what the three rules give. -/
theorem contribution_eq_ok_iff {s : Settings} {p : Processor} {c : Contribution} :
    p.contribution s = .ok c ↔
      p.entries s = .ok c.entries ∧ p.check = .ok c.check ∧ p.directive = .ok c.directive := by
  rw [contribution, Except.bind_eq_ok_iff]
  constructor
  · rintro ⟨entries, he, h⟩
    obtain ⟨check, hc, h⟩ := Except.bind_eq_ok_iff.1 h
    obtain ⟨directive, hd, h⟩ := Except.bind_eq_ok_iff.1 h
    cases h
    exact ⟨he, hc, hd⟩
  · rintro ⟨he, hc, hd⟩
    exact ⟨_, he, Except.bind_eq_ok_iff.2 ⟨_, hc, Except.bind_eq_ok_iff.2 ⟨_, hd, rfl⟩⟩⟩

/-- **A contribution that no grouping drops anything of.** -/
def Contribution.Coherent (c : Contribution) : Prop :=
  ∀ d, c.directive = some d →
    c.check = some ("exists($" ++ d.field ++ ")") ∧ d.patterns ≠ [] ∧ c.entries = []

/-- A directive has patterns, and its field is the option of that name. -/
theorem of_directive_eq_some {p : Processor} {d : Directive} (h : p.directive = .ok (some d)) :
    p.patterns = .ok d.patterns ∧ d.patterns ≠ [] ∧ p.requireText "field" = .ok d.field := by
  obtain ⟨patterns, hp, h⟩ := Except.bind_eq_ok_iff.1 h
  cases patterns with
  | nil => cases h
  | cons pattern patterns =>
      obtain ⟨field, hf, h⟩ := Except.bind_eq_ok_iff.1 h
      cases h
      exact ⟨hp, List.cons_ne_nil _ _, hf⟩

/-- Only pattern extraction has patterns. -/
theorem extractsPatterns_of_patterns {p : Processor} {ts : List String}
    (h : p.patterns = .ok ts) (hts : ts ≠ []) : p.operation.extractsPatterns = true := by
  unfold patterns at h
  split at h
  · rename_i hop
    rw [hop]
    rfl
  · rename_i hop
    rw [hop]
    rfl
  · cases h
    exact absurd rfl hts

/-- Pattern extraction has no map entries. -/
theorem entries_of_extractsPatterns (s : Settings) {p : Processor}
    (h : p.operation.extractsPatterns = true) : p.entries s = .ok [] := by
  have hop : p.operation = .grok ∨ p.operation = .dissect := by
    revert h
    cases p.operation <;> simp [Operation.extractsPatterns]
  have hne : p.operation ≠ .foreach := by rcases hop with hop | hop <;> rw [hop] <;> decide
  rw [entries, innermost_of_ne hne]
  show p.ownEntries s = _
  unfold ownEntries
  rcases hop with hop | hop <;> rw [hop]

/-- Pattern extraction is guarded by the existence of its field. -/
theorem check_of_extractsPatterns {p : Processor} {field : String}
    (h : p.operation.extractsPatterns = true) (hf : p.requireText "field" = .ok field) :
    p.check = .ok (some ("exists($" ++ field ++ ")")) := by
  rw [check, if_pos h, hf]
  rfl

/-- **The three rules agree**: what a processor contributes is coherent. -/
theorem coherent_of_contribution {s : Settings} {p : Processor} {c : Contribution}
    (h : p.contribution s = .ok c) : c.Coherent := by
  intro d hd
  obtain ⟨hentries, hcheck, hdirective⟩ := contribution_eq_ok_iff.1 h
  rw [hd] at hdirective
  obtain ⟨hpatterns, hne, hfield⟩ := of_directive_eq_some hdirective
  have hop := extractsPatterns_of_patterns hpatterns hne
  rw [check_of_extractsPatterns hop hfield] at hcheck
  rw [entries_of_extractsPatterns s hop] at hentries
  exact ⟨(Except.ok.inj hcheck).symm, hne, (Except.ok.inj hentries).symm⟩

end Processor

/-! ### The block of one contribution -/

/-- The block of a coherent contribution has its entries. -/
@[simp] theorem entries_blockOf {c : Contribution} (hc : c.Coherent) :
    (blockOf c).entries = c.entries := by
  unfold blockOf
  split
  · unfold Assembly.guardedBody
    split
    · rename_i d hd
      rw [(hc d hd).2.2]
      rfl
    · rfl
  · rfl

/-- The block of a coherent contribution has its directive. -/
@[simp] theorem directive?_blockOf {c : Contribution} (hc : c.Coherent) :
    (blockOf c).directive? = c.directive := by
  cases hd : c.directive with
  | none =>
      unfold blockOf
      split
      · rw [Assembly.guardedBody, hd]
        rfl
      · rfl
  | some d =>
      rw [blockOf, (hc d hd).1]
      rw [Assembly.guardedBody, hd]
      rfl

/-! ### Following a grouping

Each statement is proved for one block joined to the blocks behind it (`joined_singleton_cases`) and
then for all contributions by induction. -/

/-- A block of a grouping is the block of one contribution, or an unguarded map block. -/
theorem of_mem_grouped {cs : List Contribution} {b : Block} (hb : b ∈ grouped cs) :
    (∃ c ∈ cs, b = blockOf c) ∨ b.check = none ∧ b.directive? = none := by
  induction cs with
  | nil => cases hb
  | cons c cs ih =>
      have htail : b ∈ grouped cs →
          (∃ c' ∈ c :: cs, b = blockOf c') ∨ b.check = none ∧ b.directive? = none := by
        intro hmem
        refine (ih hmem).imp_left ?_
        rintro ⟨c', hc', rfl⟩
        exact ⟨c', List.mem_cons_of_mem _ hc', rfl⟩
      rw [grouped] at hb
      obtain ⟨hj, -⟩ | ⟨c', rest, hbs, -, -, hj⟩ := joined_singleton_cases (blockOf c) (grouped cs)
      · rw [hj] at hb
        rcases List.mem_cons.1 hb with rfl | hb
        · exact .inl ⟨c, List.mem_cons_self, rfl⟩
        · exact htail hb
      · rw [hj] at hb
        rcases List.mem_cons.1 hb with rfl | hb
        · exact .inr ⟨rfl, rfl⟩
        · exact htail (by rw [hbs]; exact List.mem_cons_of_mem _ hb)

/-- The block of an unguarded contribution is a map block. -/
theorem directive?_blockOf_of_unguarded {c : Contribution} (hc : (blockOf c).check = none) :
    (blockOf c).directive? = none := by
  rw [check_blockOf] at hc
  rw [blockOf, hc]
  rfl

/-- An unguarded block of a grouping is a map block. -/
theorem directive?_of_mem_grouped {cs : List Contribution} {b : Block} (hb : b ∈ grouped cs)
    (hcheck : b.check = none) : b.directive? = none := by
  rcases of_mem_grouped hb with ⟨c, -, rfl⟩ | ⟨-, hnone⟩
  · exact directive?_blockOf_of_unguarded hcheck
  · exact hnone

/-- **Grouping keeps the entries**, in order. -/
@[simp] theorem flatMap_entries_grouped {cs : List Contribution} (h : ∀ c ∈ cs, c.Coherent) :
    (grouped cs).flatMap Block.entries = cs.flatMap Contribution.entries := by
  induction cs with
  | nil => rfl
  | cons c cs ih =>
      have ih := ih fun c' hc' => h c' (List.mem_cons_of_mem _ hc')
      rw [grouped, List.flatMap_cons, ← ih, ← entries_blockOf (h c List.mem_cons_self)]
      obtain ⟨hj, -⟩ | ⟨c', rest, hbs, -, -, hj⟩ := joined_singleton_cases (blockOf c) (grouped cs)
      · rw [hj, List.flatMap_cons]
      · rw [hj, hbs, List.flatMap_cons, List.flatMap_cons, Block.entries_map, List.append_assoc]

/-- **Grouping keeps the directives**, in order. -/
@[simp] theorem filterMap_directive?_grouped {cs : List Contribution} (h : ∀ c ∈ cs, c.Coherent) :
    (grouped cs).filterMap Block.directive? = cs.filterMap Contribution.directive := by
  induction cs with
  | nil => rfl
  | cons c cs ih =>
      have ih := ih fun c' hc' => h c' (List.mem_cons_of_mem _ hc')
      have hdir := directive?_blockOf (h c List.mem_cons_self)
      rw [grouped, List.filterMap_cons, ← ih, ← hdir]
      obtain ⟨hj, -⟩ | ⟨c', rest, hbs, hb, hc', hj⟩ :=
        joined_singleton_cases (blockOf c) (grouped cs)
      · rw [hj, List.filterMap_cons]
      · -- neither of the two blocks that become one has a directive
        have hnone : (blockOf c).directive? = none := directive?_blockOf_of_unguarded hb
        have hnone' : c'.directive? = none :=
          directive?_of_mem_grouped (by rw [hbs]; exact List.mem_cons_self) hc'
        rw [hj, hbs, List.filterMap_cons_none rfl, List.filterMap_cons_none hnone', hnone]

/-- **Grouping keeps the checks**, in order. -/
@[simp] theorem filterMap_check_grouped (cs : List Contribution) :
    (grouped cs).filterMap Block.check = cs.filterMap Contribution.check := by
  induction cs with
  | nil => rfl
  | cons c cs ih =>
      rw [grouped, List.filterMap_cons, ← ih, ← check_blockOf]
      obtain ⟨hj, -⟩ | ⟨c', rest, hbs, hb, hc', hj⟩ :=
        joined_singleton_cases (blockOf c) (grouped cs)
      · rw [hj, List.filterMap_cons]
      · rw [hj, hbs, List.filterMap_cons_none rfl, List.filterMap_cons_none hc', hb]

/-- A parse block of a grouping is guarded by the existence of its field and has patterns. -/
theorem check_of_mem_grouped {cs : List Contribution} (h : ∀ c ∈ cs, c.Coherent) {b : Block}
    (hb : b ∈ grouped cs) {d : Directive} (hd : b.directive? = some d) :
    b.check = some ("exists($" ++ d.field ++ ")") ∧ d.patterns ≠ [] := by
  rcases of_mem_grouped hb with ⟨c, hc, rfl⟩ | ⟨-, hnone⟩
  · rw [directive?_blockOf (h c hc)] at hd
    obtain ⟨hcheck, hne, -⟩ := h c hc d hd
    exact ⟨by rw [check_blockOf, hcheck], hne⟩
  · rw [hnone] at hd
    cases hd

/-- **No two unguarded blocks stand side by side** in a grouping. -/
theorem isChain_grouped (cs : List Contribution) :
    (grouped cs).IsChain fun b c => b.check ≠ none ∨ c.check ≠ none := by
  induction cs with
  | nil => exact List.IsChain.nil
  | cons c cs ih =>
      rw [grouped]
      obtain ⟨hj, hseam⟩ | ⟨c', rest, hbs, -, hc', hj⟩ :=
        joined_singleton_cases (blockOf c) (grouped cs)
      · rw [hj]
        exact List.isChain_cons.2 ⟨hseam, ih⟩
      · rw [hbs, List.isChain_cons] at ih
        rw [hj, List.isChain_cons]
        -- the fused block is unguarded, as the block it takes the place of
        refine ⟨fun b hb => ?_, ih.2⟩
        exact .inr ((ih.1 b hb).resolve_left fun hne => hne hc')

/-- A grouping has no more blocks than contributions. -/
theorem length_grouped_le (cs : List Contribution) : (grouped cs).length ≤ cs.length := by
  induction cs with
  | nil => exact Nat.le_refl 0
  | cons c cs ih =>
      rw [grouped]
      obtain ⟨hj, -⟩ | ⟨c', rest, hbs, -, -, hj⟩ := joined_singleton_cases (blockOf c) (grouped cs)
      · rw [hj, List.length_cons, List.length_cons]
        omega
      · rw [hbs, List.length_cons] at ih
        rw [hj, List.length_cons, List.length_cons]
        omega

/-- Only no contributions have no blocks. -/
@[simp] theorem grouped_eq_nil_iff {cs : List Contribution} : grouped cs = [] ↔ cs = [] := by
  cases cs with
  | nil => exact ⟨fun _ => rfl, fun _ => rfl⟩
  | cons c cs =>
      refine ⟨fun h => ?_, fun h => by cases h⟩
      rw [grouped] at h
      obtain ⟨hj, -⟩ | ⟨c', rest, -, -, -, hj⟩ := joined_singleton_cases (blockOf c) (grouped cs)
      · rw [hj] at h
        cases h
      · rw [hj] at h
        cases h

/-! ### All blocks of a pipeline -/

namespace Pipeline

/-- **What the blocks `bs` keep of the processors `ps`** that the values `vs` of a pipeline
denote. -/
structure Conserved (s : Settings) (vs : List Value) (ps : List Processor) (bs : List Block) :
    Prop where
  /-- Each value is a processor, its marker resolved. -/
  processors : vs.mapM (Processor.resolved s) = .ok ps
  /-- The map blocks hold the entries of all processors. -/
  entries : ∃ es, ps.mapM (Processor.entries s) = .ok es ∧ bs.flatMap Block.entries = es.flatten
  /-- The parse blocks hold the directives of all processors that have one. -/
  directives : ∃ ds, ps.mapM Processor.directive = .ok ds ∧
    bs.filterMap Block.directive? = ds.filterMap id
  /-- The guarded blocks have the checks of all processors that have one. -/
  checks : ∃ gs, ps.mapM Processor.check = .ok gs ∧ bs.filterMap Block.check = gs.filterMap id
  /-- A parse block is guarded by the existence of its own field, and has a pattern. -/
  parse : ∀ b ∈ bs, ∀ d, b.body = .parse d →
    b.check = some ("exists($" ++ d.field ++ ")") ∧ d.patterns ≠ []
  /-- No two unguarded blocks stand side by side. -/
  chain : bs.IsChain fun b c => b.check ≠ none ∨ c.check ≠ none
  /-- There are no more blocks than processors. -/
  length_le : bs.length ≤ vs.length
  /-- Only no processors have no blocks. -/
  eq_nil_iff : bs = [] ↔ vs = []

/-- **Nothing is lost, duplicated or reordered** on the way from the processors of a pipeline to its
blocks. -/
theorem blocks_conserve {s : Settings} {vs : List Value} {bs : List Block}
    (h : blocks s vs = .ok bs) : ∃ ps, Conserved s vs ps bs := by
  rw [blocks_eq_map_blocksOf] at h
  obtain ⟨cs, hcs, rfl⟩ := Except.map_eq_ok_iff.1 h
  rw [contributionsFrom_eq_ok_iff] at hcs
  have hlength : vs.length = cs.length := (Except.mapM_eq_ok_iff.1 hcs).length_eq
  obtain ⟨ps, hps, hcs⟩ := Except.mapM_bind_eq_ok hcs
  have hcoherent : ∀ c ∈ cs, c.Coherent := by
    intro c hc
    obtain ⟨p, -, hp⟩ := Except.exists_of_mem_mapM hcs hc
    exact Processor.coherent_of_contribution hp
  have hparts := (Except.mapM_eq_ok_iff.1 hcs).imp fun p c => Processor.contribution_eq_ok_iff.1
  rw [Assembly.blocksOf_eq_grouped]
  refine ⟨ps, hps, ⟨cs.map Contribution.entries, ?_, ?_⟩, ⟨cs.map Contribution.directive, ?_, ?_⟩,
    ⟨cs.map Contribution.check, ?_, ?_⟩, ?_, isChain_grouped cs, ?_, ?_⟩
  · rw [Except.mapM_eq_ok_iff, List.forall₂_map_right_iff]
    exact hparts.imp fun p c hpc => hpc.1
  · rw [flatMap_entries_grouped hcoherent, List.flatMap_def]
  · rw [Except.mapM_eq_ok_iff, List.forall₂_map_right_iff]
    exact hparts.imp fun p c hpc => hpc.2.2
  · rw [filterMap_directive?_grouped hcoherent, List.filterMap_map]
    rfl
  · rw [Except.mapM_eq_ok_iff, List.forall₂_map_right_iff]
    exact hparts.imp fun p c hpc => hpc.2.1
  · rw [filterMap_check_grouped, List.filterMap_map]
    rfl
  · intro b hb d hd
    exact check_of_mem_grouped hcoherent hb (by rw [Block.directive?, hd])
  · rw [hlength]
    exact length_grouped_le cs
  · rw [grouped_eq_nil_iff, ← List.length_eq_zero_iff, ← List.length_eq_zero_iff, hlength]

/-- An unguarded, a guarded, a parsing and two more unguarded processors, the last with the
timestamp marker. -/
def mixedPipeline : List Value :=
  [.map [(.string "remove", .map [(.string "field", .seq [.string "a", .string "b"])])],
    .map [(.string "lowercase",
      .map [(.string "field", .string "c"), (.string "if", .string "ctx.c == 'X'")])],
    .map [(.string "dissect",
      .map [(.string "field", .string "m"), (.string "pattern", .string "%\x7bk\x7d")])],
    .map [(.string "pipeline", .map [(.string "name", .string "sub")])],
    .map [(.string "uppercase", .map [(.string "field", .string "@timestamp")])]]

/-- The blocks of that pipeline. -/
def mixedBlocks : List Block :=
  [⟨none, .map [.statement "a" "delete()", .statement "b" "delete()"]⟩,
    ⟨some "$c == 'X'", .map [.statement "c" "downcase($c)"]⟩,
    ⟨some "exists($m)", .parse ⟨"m", ["<k>"]⟩⟩,
    ⟨none, .map [.pipeline "sub", .statement "event.start" "upcase($event.start)"]⟩]

/-- The blocks of the sample conserve what its processors contribute. -/
theorem blocks_conserve_mixedPipeline :
    blocks {} mixedPipeline = .ok mixedBlocks ∧
      ∃ ps, Conserved {} mixedPipeline ps mixedBlocks := by
  have h : blocks {} mixedPipeline = .ok mixedBlocks := by cbv
  exact ⟨h, blocks_conserve h⟩

end Pipeline

end IngestPipeline
