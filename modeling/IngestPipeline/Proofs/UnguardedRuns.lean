import IngestPipeline.Proofs.Grouping
import Mathlib.Data.List.SplitBy

/-! # Runs of unguarded contributions

The blocks of an assembly can be told from its contributions without following it. The list of
contributions is cut into **runs**, unguarded contributions in a row and guarded ones by themselves,
and each run becomes a block.

* **`IsCut rs cs`**: `rs` are the runs of `cs`. They are determined, and `runs` computes them
  (`isCut_iff`).
* **`runBlock`**: the block of a run.
* **`blocksOf_of_isCut`**: the blocks of a list are the blocks of its runs.
* **`blocksOf_concat_cases`**: one more contribution adds a block or extends the last one.
* **`blocksOf_eq_map_runBlock`**: all of this in one statement. -/

namespace IngestPipeline

open Processor (Contribution)

/-- **What shares a block**: unguarded contributions, at least one, or one guarded contribution. -/
def IsRun (run : List Contribution) : Prop :=
  (run ≠ [] ∧ ∀ c ∈ run, c.check = none) ∨ ∃ c, run = [c] ∧ c.check ≠ none

/-- **A list cut into its runs.** -/
structure IsCut (rs : List (List Contribution)) (cs : List Contribution) : Prop where
  /-- Nothing is lost, added or moved. -/
  flatten_eq : rs.flatten = cs
  /-- Every part is a run. -/
  isRun : ∀ run ∈ rs, IsRun run
  /-- Runs are as long as possible: of two in a row, one is guarded. -/
  maximal : rs.IsChain fun run next => ∃ c ∈ run ++ next, c.check ≠ none

/-- **The runs of a list of contributions.** Neighbours are in one run if neither is guarded. -/
def runs (cs : List Contribution) : List (List Contribution) :=
  cs.splitBy fun c d => c.check.isNone && d.check.isNone

/-- **The block of a run.** A guarded contribution has its directive, or else its entries, under its
check; unguarded ones have the entries of all of them. -/
def runBlock : List Contribution → Block
  | [⟨some check, some directive, _⟩] => ⟨some check, .parse directive⟩
  | [⟨some check, none, entries⟩] => ⟨some check, .map entries⟩
  | run => ⟨none, .map (run.flatMap Contribution.entries)⟩

/-! ### The cut is determined -/

/-- A run of more than one is a run of unguarded contributions. -/
theorem isChain_unguarded_iff (c d : Contribution) (cs : List Contribution) :
    ((c :: d :: cs).IsChain fun c d => (c.check.isNone && d.check.isNone) = true) ↔
      ∀ e ∈ c :: d :: cs, e.check = none := by
  induction cs generalizing c d with
  | nil => simp
  | cons e cs ih =>
      rw [List.isChain_cons_cons, ih, List.forall_mem_cons (a := c), Bool.and_eq_true,
        Option.isNone_iff_eq_none, Option.isNone_iff_eq_none]
      constructor
      · rintro ⟨⟨hc, -⟩, hrest⟩
        exact ⟨hc, hrest⟩
      · rintro ⟨hc, hrest⟩
        exact ⟨⟨hc, hrest d List.mem_cons_self⟩, hrest⟩

/-- A run is a list in which neighbours are unguarded. -/
theorem isRun_iff {run : List Contribution} :
    IsRun run ↔
      run ≠ [] ∧ run.IsChain fun c d => (c.check.isNone && d.check.isNone) = true := by
  match run with
  | [] => simp [IsRun]
  | [c] =>
      by_cases hc : c.check = none
      · simp [IsRun, hc]
      · simp [IsRun, hc]
  | c :: d :: cs =>
      rw [isChain_unguarded_iff]
      constructor
      · rintro (hrun | ⟨_, heq, -⟩)
        · exact hrun
        · cases heq
      · exact .inl

/-- The contributions of a run are all guarded or all unguarded. -/
theorem IsRun.check_eq_none_iff {run : List Contribution} (h : IsRun run) {c d : Contribution}
    (hc : c ∈ run) (hd : d ∈ run) : c.check = none ↔ d.check = none := by
  obtain ⟨-, hall⟩ | ⟨e, rfl, -⟩ := h
  · rw [hall c hc, hall d hd]
  · rw [List.mem_singleton.1 hc, List.mem_singleton.1 hd]

/-- Two runs in a row are apart where they meet exactly if they are apart. -/
theorem IsRun.exists_guarded_iff {run next : List Contribution} (h : IsRun run)
    (h' : IsRun next) :
    (∃ c ∈ run ++ next, c.check ≠ none) ↔
      ∃ hrun hnext, ((run.getLast hrun).check.isNone && (next.head hnext).check.isNone) =
        false := by
  have hrun := (isRun_iff.1 h).1
  have hnext := (isRun_iff.1 h').1
  rw [exists_prop_of_true hrun, exists_prop_of_true hnext, Bool.and_eq_false_iff,
    Option.isNone_eq_false_iff, Option.isNone_eq_false_iff, ← Option.ne_none_iff_isSome,
    ← Option.ne_none_iff_isSome]
  constructor
  · rintro ⟨c, hc, hguarded⟩
    rcases List.mem_append.1 hc with hc | hc
    · exact .inl fun hlast => hguarded ((h.check_eq_none_iff (List.getLast_mem hrun) hc).1 hlast)
    · exact .inr fun hhead => hguarded ((h'.check_eq_none_iff (List.head_mem hnext) hc).1 hhead)
  · rintro (hlast | hhead)
    · exact ⟨_, List.mem_append_left _ (List.getLast_mem hrun), hlast⟩
    · exact ⟨_, List.mem_append_right _ (List.head_mem hnext), hhead⟩

/-- **A list has one cut into runs**, the one that is computed. -/
theorem isCut_iff {rs : List (List Contribution)} {cs : List Contribution} :
    IsCut rs cs ↔ rs = runs cs := by
  rw [eq_comm, runs, List.splitBy_eq_iff]
  constructor
  · rintro ⟨hflatten, hrun, hmaximal⟩
    refine ⟨hflatten.symm, fun hnil => (isRun_iff.1 (hrun [] hnil)).1 rfl,
      fun run hmem => (isRun_iff.1 (hrun run hmem)).2, ?_⟩
    refine hmaximal.imp_of_mem_imp fun run next hmem hmem' => ?_
    exact ((hrun run hmem).exists_guarded_iff (hrun next hmem')).1
  · rintro ⟨hflatten, hnil, hchain, hmaximal⟩
    have hrun : ∀ run ∈ rs, IsRun run := fun run hmem =>
      isRun_iff.2 ⟨fun heq => hnil (heq ▸ hmem), hchain run hmem⟩
    refine ⟨hflatten.symm, hrun, hmaximal.imp_of_mem_imp fun run next hmem hmem' => ?_⟩
    exact ((hrun run hmem).exists_guarded_iff (hrun next hmem')).2

/-! ### The blocks of runs -/

/-- Unguarded contributions become one block with the entries of all. -/
theorem runBlock_of_unguarded {run : List Contribution} (h : ∀ c ∈ run, c.check = none) :
    runBlock run = ⟨none, .map (run.flatMap Contribution.entries)⟩ := by
  unfold runBlock
  split
  · exact absurd (h _ List.mem_cons_self) (Option.some_ne_none _)
  · exact absurd (h _ List.mem_cons_self) (Option.some_ne_none _)
  · rfl

/-- A contribution alone becomes its own block. -/
@[simp] theorem runBlock_singleton (c : Contribution) : runBlock [c] = blockOf c := by
  obtain ⟨check, directive, entries⟩ := c
  cases check with
  | none => simp [runBlock, blockOf]
  | some check => cases directive <;> rfl

/-- The block of a run is unguarded if the run is. -/
theorem IsRun.check_runBlock_eq_none_iff {run : List Contribution} (h : IsRun run) :
    (runBlock run).check = none ↔ ∀ c ∈ run, c.check = none := by
  obtain ⟨-, hall⟩ | ⟨c, rfl, -⟩ := h
  · rw [runBlock_of_unguarded hall]
    exact ⟨fun _ => hall, fun _ => rfl⟩
  · rw [runBlock_singleton, check_blockOf]
    simp

namespace Assembly

/-- So it is in the assembly. -/
@[simp] theorem blocksOf_singleton (c : Contribution) : blocksOf [c] = [blockOf c] := by
  rw [blocksOf_eq_grouped, grouped, grouped, joined_nil_right]

/-- **A run makes one block.** -/
theorem blocksOf_run {run : List Contribution} (h : IsRun run) :
    blocksOf run = [runBlock run] := by
  obtain ⟨hne, hall⟩ | ⟨c, rfl, -⟩ := h
  · rw [runBlock_of_unguarded hall]
    -- each contribution extends the block of those behind it
    induction run with
    | nil => exact absurd rfl hne
    | cons c cs ih =>
        have hc : blockOf c = ⟨none, .map c.entries⟩ := by
          rw [blockOf, hall c List.mem_cons_self]
        cases cs with
        | nil => rw [blocksOf_singleton, hc, List.flatMap_singleton]
        | cons d cs =>
            have hrest := ih (List.cons_ne_nil d cs) fun e he =>
              hall e (List.mem_cons_of_mem _ he)
            rw [← List.singleton_append, blocksOf_append, blocksOf_singleton, hrest, hc,
              joined_singleton_cons, Block.fuse_of_unguarded rfl rfl]
            rfl
  · rw [blocksOf_singleton, runBlock_singleton]

/-- **The blocks of a list are the blocks of its runs.** -/
theorem blocksOf_of_isCut {rs : List (List Contribution)} {cs : List Contribution}
    (h : IsCut rs cs) : blocksOf cs = rs.map runBlock := by
  induction rs generalizing cs with
  | nil =>
      rw [← h.flatten_eq]
      rfl
  | cons run rs ih =>
      have hrun := h.isRun run List.mem_cons_self
      have hrest := fun next hnext => h.isRun next (List.mem_cons_of_mem _ hnext)
      rw [← h.flatten_eq, List.flatten_cons, blocksOf_append, blocksOf_run hrun,
        ih ⟨rfl, hrest, h.maximal.tail⟩, List.map_cons]
      obtain ⟨hjoin, -⟩ | ⟨b, bs, hbs, hcheck, hb, -⟩ :=
        joined_singleton_cases (runBlock run) (rs.map runBlock)
      · exact hjoin
      · -- two unguarded runs in a row would have been one
        obtain ⟨next, rs, rfl, rfl, -⟩ := List.map_eq_cons_iff.1 hbs
        obtain ⟨c, hc, hguarded⟩ := (List.isChain_cons_cons.1 h.maximal).1
        rw [hrun.check_runBlock_eq_none_iff] at hcheck
        rw [(hrest next List.mem_cons_self).check_runBlock_eq_none_iff] at hb
        exact absurd ((List.mem_append.1 hc).elim (hcheck c) (hb c)) hguarded

/-- An unguarded block has map entries. -/
theorem eq_map_of_mem_blocksOf {cs : List Contribution} {b : Block} (hb : b ∈ blocksOf cs)
    (hcheck : b.check = none) : b = ⟨none, .map b.entries⟩ := by
  have hcut : IsCut (runs cs) cs := isCut_iff.2 rfl
  rw [blocksOf_of_isCut hcut] at hb
  obtain ⟨run, hmem, rfl⟩ := List.mem_map.1 hb
  rw [(hcut.isRun run hmem).check_runBlock_eq_none_iff] at hcheck
  rw [runBlock_of_unguarded hcheck, Block.entries_map]

/-- **One more contribution**: if it and the last block are unguarded, it extends the entries of
that block, and otherwise it adds a block. -/
theorem blocksOf_concat_cases (cs : List Contribution) (c : Contribution) :
    (c.check = none ∧ ∃ bs es, blocksOf cs = bs ++ [⟨none, .map es⟩] ∧
      blocksOf (cs ++ [c]) = bs ++ [⟨none, .map (es ++ c.entries)⟩]) ∨
    ((c.check ≠ none ∨ ∀ b ∈ (blocksOf cs).getLast?, b.check ≠ none) ∧
      blocksOf (cs ++ [c]) = blocksOf cs ++ [runBlock [c]]) := by
  rw [blocksOf_append, blocksOf_singleton, runBlock_singleton]
  by_cases hc : c.check = none
  · rcases List.eq_nil_or_concat (blocksOf cs) with hnil | ⟨bs, b, hbs⟩
    · rw [hnil, joined_nil_left]
      exact .inr ⟨.inr (fun b hb => by cases hb), rfl⟩
    · rw [List.concat_eq_append] at hbs
      rw [hbs, joined_concat_cons]
      by_cases hb : b.check = none
      · have hmap := eq_map_of_mem_blocksOf (b := b) (by rw [hbs]; simp) hb
        refine .inl ⟨hc, bs, b.entries, by rw [← hmap], ?_⟩
        rw [Block.fuse_of_unguarded hb (by rw [check_blockOf, hc]), blockOf, hc,
          Block.entries_map, List.append_nil]
      · refine .inr ⟨.inr ?_, ?_⟩
        · rw [List.getLast?_concat]
          rintro b' ⟨⟩
          exact hb
        · rw [Block.fuse_of_guarded_left hb]
          simp
  · refine .inr ⟨.inl hc, joined_of_guarded_head ?_ _ _⟩
    rw [check_blockOf]
    exact hc

/-- **Assembling is cutting into runs.** The contributions have exactly one cut into runs, and each
run becomes one block. One more contribution therefore adds a block, unless it and the last block
are unguarded: then it extends the entries of that block and changes nothing else. -/
theorem blocksOf_eq_map_runBlock (cs : List Contribution) :
    (∀ rs, IsCut rs cs ↔ rs = runs cs) ∧
      blocksOf cs = (runs cs).map runBlock ∧
      ∀ c, (c.check = none ∧ ∃ bs es, blocksOf cs = bs ++ [⟨none, .map es⟩] ∧
          blocksOf (cs ++ [c]) = bs ++ [⟨none, .map (es ++ c.entries)⟩]) ∨
        ((c.check ≠ none ∨ ∀ b ∈ (blocksOf cs).getLast?, b.check ≠ none) ∧
          blocksOf (cs ++ [c]) = blocksOf cs ++ [runBlock [c]]) :=
  ⟨fun _ => isCut_iff, blocksOf_of_isCut (isCut_iff.2 rfl), blocksOf_concat_cases cs⟩

end Assembly

end IngestPipeline
