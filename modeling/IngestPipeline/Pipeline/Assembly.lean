import IngestPipeline.Pipeline.Event

/-! # Assembling blocks

Contributions are assembled into blocks from left to right. A guarded contribution makes a block
of its own; unguarded ones in a row share one block.

* **`Assembly`**: the blocks that are complete and the entries of the block that is open.
* **`push`**: one more contribution.
* **`close`**, **`blocks`**: the end of the open block, and the blocks of a finished assembly. -/

namespace IngestPipeline

open Processor (Contribution)

/-- Blocks under construction. -/
structure Assembly where
  /-- The complete blocks. -/
  done : List Block := []
  /-- The entries of the open unguarded block. -/
  pending : Option (List Entry) := none
  deriving DecidableEq, Repr

namespace Assembly

/-- Complete the open block, if there is one. -/
def close (a : Assembly) : Assembly :=
  match a.pending with
  | none => a
  | some entries => { done := a.done ++ [⟨none, .map entries⟩] }

/-- What completing the open block reports. -/
def closeEvents (a : Assembly) : List Event :=
  match a.pending with
  | none => []
  | some entries => [.closed entries.length]

/-- The body of a guarded contribution: its directive if it has one, and otherwise its entries. -/
def guardedBody (c : Contribution) : Body :=
  match c.directive with
  | some directive => .parse directive
  | none => .map c.entries

/-- Add a contribution. -/
def push (a : Assembly) (c : Contribution) : Assembly :=
  match c.check with
  | some check => { done := a.close.done ++ [⟨some check, guardedBody c⟩] }
  -- entries that are empty still open a block
  | none => { a with pending := some (a.pending.getD [] ++ c.entries) }

/-- What adding a contribution reports. -/
def pushEvents (a : Assembly) (c : Contribution) : List Event :=
  match c.check with
  | some check => a.closeEvents ++ [.guarded check]
  | none =>
      match a.pending with
      | some _ => []
      | none => [.opened a.done.length]

/-- All blocks, the open one being completed. -/
def blocks (a : Assembly) : List Block := a.close.done

/-- The blocks of a list of contributions. -/
def blocksOf (cs : List Contribution) : List Block := (cs.foldl push {}).blocks

end Assembly

end IngestPipeline
