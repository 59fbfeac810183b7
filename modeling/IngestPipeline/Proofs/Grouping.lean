import IngestPipeline.Pipeline.Assembly
import Mathlib.Data.List.Basic

/-! # Grouping without a state

An assembly carries the entries of an open block from one contribution to the next. This file gives
the blocks of a list of contributions by a recursion that carries nothing, and shows that both
agree.

* **`joined bs cs`**: two lists of blocks put together. The blocks at the seam become one if both
  are unguarded (`Block.fuse`).
* **`grouped cs`**: the blocks of a list of contributions, each contribution being a block of its
  own that is joined to the blocks behind it.
* **`blocksOf_eq_grouped`**: assembling is grouping. It rests on `Assembly.blocks_push`, which says
  what one contribution does to the blocks of an assembly, and on the invariant `Settled`. -/

namespace IngestPipeline

open Processor (Contribution)

namespace Block

/-- The map entries of a block; a parse block has none. -/
def entries (b : Block) : List Entry :=
  match b.body with
  | .map entries => entries
  | .parse _ => []

/-- The directive of a parse block. -/
def directive? (b : Block) : Option Directive :=
  match b.body with
  | .map _ => none
  | .parse directive => some directive

/-- A block of map entries has these entries. -/
@[simp] theorem entries_map (check : Option String) (es : List Entry) :
    entries ⟨check, .map es⟩ = es := rfl

/-- **Two blocks in a row.** If both are unguarded they are one block with the entries of both. -/
def fuse (b c : Block) : List Block :=
  if b.check = none ∧ c.check = none then [⟨none, .map (b.entries ++ c.entries)⟩] else [b, c]

/-- Two unguarded blocks become one, with the entries of both. -/
@[simp] theorem fuse_of_unguarded {b c : Block} (hb : b.check = none) (hc : c.check = none) :
    b.fuse c = [⟨none, .map (b.entries ++ c.entries)⟩] := if_pos ⟨hb, hc⟩

/-- Behind a guarded block another one begins. -/
@[simp] theorem fuse_of_guarded_left {b c : Block} (hb : b.check ≠ none) : b.fuse c = [b, c] :=
  if_neg fun h => hb h.1

/-- In front of a guarded block the one before ends. -/
@[simp] theorem fuse_of_guarded_right {b c : Block} (hc : c.check ≠ none) : b.fuse c = [b, c] :=
  if_neg fun h => hc h.2

end Block

/-! ### Joining lists of blocks -/

/-- **Two lists of blocks put together.** The last block of the first list and the first block of
the second are fused if both exist and are unguarded. -/
def joined (bs cs : List Block) : List Block :=
  match bs.getLast?, cs with
  | some b, c :: rest => bs.dropLast ++ b.fuse c ++ rest
  | _, _ => bs ++ cs

/-- No blocks in front of others add nothing. -/
@[simp] theorem joined_nil_left (cs : List Block) : joined [] cs = cs := rfl

/-- No blocks behind others add nothing. -/
@[simp] theorem joined_nil_right (bs : List Block) : joined bs [] = bs := by
  cases h : bs.getLast? <;> simp [joined, h]

/-- Joining at a seam between two blocks. -/
theorem joined_concat_cons (bs : List Block) (b c : Block) (cs : List Block) :
    joined (bs ++ [b]) (c :: cs) = bs ++ b.fuse c ++ cs := by
  simp [joined]

/-- One block meets the first of the blocks behind it. -/
@[simp] theorem joined_singleton_cons (b c : Block) (cs : List Block) :
    joined [b] (c :: cs) = b.fuse c ++ cs := joined_concat_cons [] b c cs

/-- **What joining one block does**: it stays in front as it is, or it is fused with the block it
meets. -/
theorem joined_singleton_cases (b : Block) (bs : List Block) :
    (joined [b] bs = b :: bs ∧ ∀ c ∈ bs.head?, b.check ≠ none ∨ c.check ≠ none) ∨
      ∃ c rest, bs = c :: rest ∧ b.check = none ∧ c.check = none ∧
        joined [b] bs = ⟨none, .map (b.entries ++ c.entries)⟩ :: rest := by
  cases bs with
  | nil => exact .inl ⟨joined_nil_right [b], fun c hc => by cases hc⟩
  | cons c rest =>
      rw [joined_singleton_cons]
      by_cases hb : b.check = none
      · by_cases hc : c.check = none
        · exact .inr ⟨c, rest, rfl, hb, hc, by rw [Block.fuse_of_unguarded hb hc]; rfl⟩
        · refine .inl ⟨by rw [Block.fuse_of_guarded_right hc]; rfl, ?_⟩
          rintro c' ⟨⟩
          exact .inr hc
      · exact .inl ⟨by rw [Block.fuse_of_guarded_left hb]; rfl, fun _ _ => .inl hb⟩

/-- A guarded block stands for itself behind any blocks. -/
theorem joined_of_guarded_head {c : Block} (hc : c.check ≠ none) (bs cs : List Block) :
    joined bs (c :: cs) = bs ++ c :: cs := by
  rcases List.eq_nil_or_concat bs with rfl | ⟨bs, b, rfl⟩
  · rfl
  · rw [List.concat_eq_append, joined_concat_cons, Block.fuse_of_guarded_right hc]
    simp

/-- Blocks in front of others do not take part in joining. -/
theorem joined_append {bs : List Block} (hbs : bs ≠ []) (as cs : List Block) :
    joined (as ++ bs) cs = as ++ joined bs cs := by
  rcases List.eq_nil_or_concat bs with rfl | ⟨bs, b, rfl⟩
  · exact absurd rfl hbs
  cases cs with
  | nil => rw [joined_nil_right, joined_nil_right]
  | cons c cs =>
      rw [List.concat_eq_append, ← List.append_assoc, joined_concat_cons, joined_concat_cons]
      simp only [List.append_assoc]

/-- **Joining is associative** around a single block in the middle. -/
theorem joined_assoc (bs : List Block) (m : Block) (cs : List Block) :
    joined (joined bs [m]) cs = joined bs (joined [m] cs) := by
  rcases List.eq_nil_or_concat bs with rfl | ⟨as, b, rfl⟩
  · rfl
  -- only the last block of the first list matters
  have hfuse : b.fuse m ≠ [] := by
    unfold Block.fuse
    split <;> exact List.cons_ne_nil _ _
  rw [List.concat_eq_append, joined_concat_cons, List.append_nil, joined_append hfuse,
    joined_append (List.cons_ne_nil b [])]
  congr 1
  by_cases hm : m.check = none
  · cases cs with
    | nil => rw [joined_nil_right, joined_nil_right, joined_singleton_cons, List.append_nil]
    | cons c cs =>
        by_cases hc : c.check = none
        · rw [joined_singleton_cons m, Block.fuse_of_unguarded hm hc, List.singleton_append,
            joined_singleton_cons b]
          by_cases hb : b.check = none
          · -- all three blocks become one
            rw [Block.fuse_of_unguarded hb hm, joined_singleton_cons,
              Block.fuse_of_unguarded rfl hc, Block.fuse_of_unguarded hb rfl, Block.entries_map,
              Block.entries_map, List.append_assoc]
          · rw [Block.fuse_of_guarded_left hb, Block.fuse_of_guarded_left hb]
            show joined ([b] ++ [m]) (c :: cs) = _
            rw [joined_append (List.cons_ne_nil m []), joined_singleton_cons,
              Block.fuse_of_unguarded hm hc]
            rfl
        · rw [joined_of_guarded_head hc, joined_of_guarded_head hc, List.singleton_append,
            joined_singleton_cons]
  · rw [Block.fuse_of_guarded_right hm]
    show joined ([b] ++ [m]) cs = _
    rw [joined_append (List.cons_ne_nil m [])]
    rcases joined_singleton_cases m cs with ⟨hjoin, -⟩ | ⟨c, rest, -, hm', -⟩
    · rw [hjoin, joined_of_guarded_head hm]
    · exact absurd hm' hm

/-! ### Grouping -/

/-- The block of one contribution by itself. -/
def blockOf (c : Contribution) : Block :=
  match c.check with
  | some check => ⟨some check, Assembly.guardedBody c⟩
  | none => ⟨none, .map c.entries⟩

/-- The block of a contribution has its check. -/
@[simp] theorem check_blockOf (c : Contribution) : (blockOf c).check = c.check := by
  unfold blockOf
  split <;> simp_all

/-- **The blocks of a list of contributions**, built from the last contribution to the first. -/
def grouped : List Contribution → List Block
  | [] => []
  | c :: cs => joined [blockOf c] (grouped cs)

namespace Assembly

/-- **The invariant of an assembly**: if no block is open, the last complete block is guarded. -/
def Settled (a : Assembly) : Prop := a.pending = none → ∀ b ∈ a.done.getLast?, b.check ≠ none

/-- At the start there is no complete block. -/
@[simp] theorem settled_empty : Settled {} := by
  intro _ b hb
  cases hb

/-- Adding a contribution keeps the invariant, whatever the assembly was before. -/
theorem settled_push (a : Assembly) (c : Contribution) : (a.push c).Settled := by
  intro hp b hb
  cases hc : c.check with
  | none => simp [push, hc] at hp
  | some check =>
      simp only [push, hc, List.getLast?_concat, Option.mem_some_iff] at hb
      rw [← hb]
      exact Option.some_ne_none check

/-- A run of any length ends in a settled assembly. -/
theorem settled_foldl_push {a : Assembly} (ha : a.Settled) (cs : List Contribution) :
    (cs.foldl push a).Settled := by
  induction cs generalizing a with
  | nil => exact ha
  | cons c cs ih => exact ih (settled_push a c)

/-- Without an open block, the blocks are those that are done. -/
@[simp] theorem blocks_of_pending_none {a : Assembly} (h : a.pending = none) :
    a.blocks = a.done := by
  simp [blocks, close, h]

/-- An open block is the last one, and has no check. -/
@[simp] theorem blocks_of_pending_some {a : Assembly} {es : List Entry} (h : a.pending = some es) :
    a.blocks = a.done ++ [⟨none, .map es⟩] := by
  simp [blocks, close, h]

/-- **One step**: a contribution to a settled assembly joins its block to the blocks so far. -/
theorem blocks_push {a : Assembly} (ha : a.Settled) (c : Contribution) :
    (a.push c).blocks = joined a.blocks [blockOf c] := by
  cases hc : c.check with
  | some check =>
      have hb : (blockOf c).check ≠ none := by rw [check_blockOf, hc]; exact Option.some_ne_none _
      rw [joined_of_guarded_head hb, blockOf, hc, blocks_of_pending_none (by rw [push, hc])]
      rw [push, hc]
      rfl
  | none =>
      have hp : (a.push c).pending = some (a.pending.getD [] ++ c.entries) := by rw [push, hc]
      have hd : (a.push c).done = a.done := by rw [push, hc]
      rw [blocks_of_pending_some hp, hd, blockOf, hc]
      cases hpend : a.pending with
      | some es =>
          rw [blocks_of_pending_some hpend, joined_concat_cons, Block.fuse_of_unguarded rfl rfl]
          simp
      | none =>
          rw [blocks_of_pending_none hpend]
          rcases List.eq_nil_or_concat a.done with hnil | ⟨bs, b, hbs⟩
          · rw [hnil]
            rfl
          · -- the invariant keeps the new block from being fused with the last complete one
            have hb : b.check ≠ none := ha hpend b (by rw [hbs]; simp)
            rw [hbs, List.concat_eq_append, joined_concat_cons, Block.fuse_of_guarded_left hb]
            simp

/-- **A run**: the blocks after a list of contributions are the blocks before it, joined with the
groups of the list. -/
theorem blocks_foldl_push {a : Assembly} (ha : a.Settled) (cs : List Contribution) :
    (cs.foldl push a).blocks = joined a.blocks (grouped cs) := by
  induction cs generalizing a with
  | nil => rw [List.foldl_nil, grouped, joined_nil_right]
  | cons c cs ih =>
      rw [List.foldl_cons, ih (settled_push a c), blocks_push ha, joined_assoc, grouped]

/-- Assembling from nothing is grouping. -/
theorem blocksOf_eq_grouped (cs : List Contribution) : blocksOf cs = grouped cs :=
  blocks_foldl_push settled_empty cs

/-- The blocks of two lists in a row are the blocks of each, joined. -/
theorem blocksOf_append (cs ds : List Contribution) :
    blocksOf (cs ++ ds) = joined (blocksOf cs) (blocksOf ds) := by
  rw [blocksOf_eq_grouped ds, blocksOf, List.foldl_append,
    blocks_foldl_push (settled_foldl_push settled_empty cs), blocksOf]

end Assembly

end IngestPipeline
