import IngestPipeline.Pipeline
import IngestPipeline.Proofs.Grouping
import IngestPipeline.Proofs.Outcome

/-! # Runs of a pipeline

A run takes the processors one by one and stops at the first failure. This file separates what a run
collects from how it is assembled, and cuts a run in two.

* **`contributionsFrom s index vs`**: the contributions of the processors `vs`, which stand from
  position `index` on, or the failure of the first processor that has none.
* **`blocks_eq_map_blocksOf`**: the blocks of a pipeline are assembled from its contributions.
* **`blocks_append`**: the blocks, or the failure, of two pipelines in a row. -/

namespace IngestPipeline

open Processor (Contribution)

/-- The same failure in a pipeline with `n` more processors in front. -/
def ProcessorFailure.shift (n : Nat) (f : ProcessorFailure) : ProcessorFailure :=
  { f with index := n + f.index }

namespace Pipeline

/-- The contributions of the processors from position `index` on, or the first failure. -/
def contributionsFrom (s : Settings) (index : Nat) :
    List Value → Except ProcessorFailure (List Contribution)
  | [] => .ok []
  | v :: vs =>
      match contribution s v with
      | .error cause => .error ⟨index, reportedOperation v, v, cause⟩
      | .ok c => (contributionsFrom s (index + 1) vs).map fun cs => c :: cs

/-- A processor that fails ends the run, whatever is behind it. -/
theorem contributionsFrom_cons_error {s : Settings} {v : Value} {cause : ProcessorError}
    (h : contribution s v = .error cause) (index : Nat) (vs : List Value) :
    contributionsFrom s index (v :: vs) = .error ⟨index, reportedOperation v, v, cause⟩ := by
  rw [contributionsFrom, h]

/-- A processor that has a contribution puts it in front of those behind it. -/
theorem contributionsFrom_cons_ok {s : Settings} {v : Value} {c : Contribution}
    (h : contribution s v = .ok c) (index : Nat) (vs : List Value) :
    contributionsFrom s index (v :: vs) =
      (contributionsFrom s (index + 1) vs).map fun cs => c :: cs := by
  rw [contributionsFrom, h]

/-- **What a run returns** is what its contributions add to the assembly it started from. -/
theorem runFrom_snd (s : Settings) (index : Nat) (a : Assembly) (vs : List Value) :
    (runFrom s index a vs).2 =
      (contributionsFrom s index vs).map fun cs => (cs.foldl Assembly.push a).blocks := by
  induction vs generalizing index a with
  | nil => rfl
  | cons v vs ih =>
      cases hv : contribution s v with
      | error cause =>
          rw [runFrom, hv, contributionsFrom_cons_error hv]
          rfl
      | ok c =>
          rw [runFrom, hv, contributionsFrom_cons_ok hv]
          show (runFrom s (index + 1) (a.push c) vs).2 = _
          rw [ih]
          cases contributionsFrom s (index + 1) vs <;> rfl

/-- The blocks of a pipeline are assembled from its contributions. -/
theorem blocks_eq_map_blocksOf (s : Settings) (vs : List Value) :
    blocks s vs = (contributionsFrom s 0 vs).map Assembly.blocksOf :=
  runFrom_snd s 0 {} vs

/-- A run without a failure has collected the contribution of each processor. -/
@[simp] theorem contributionsFrom_eq_ok_iff {s : Settings} {index : Nat} {vs : List Value}
    {cs : List Contribution} :
    contributionsFrom s index vs = .ok cs ↔ vs.mapM (contribution s) = .ok cs := by
  rw [Except.mapM_eq_ok_iff]
  induction vs generalizing index cs with
  | nil =>
      rw [List.forall₂_nil_left_iff]
      exact ⟨fun h => (Except.ok.inj h).symm, fun h => by rw [h]; rfl⟩
  | cons v vs ih =>
      rw [List.forall₂_cons_left_iff]
      cases hv : contribution s v with
      | error cause =>
          rw [contributionsFrom_cons_error hv]
          constructor
          · intro h
            cases h
          · rintro ⟨c, ds, hc, -⟩
            cases hc
      | ok c =>
          rw [contributionsFrom_cons_ok hv, Except.map_eq_ok_iff]
          constructor
          · rintro ⟨ds, hds, rfl⟩
            exact ⟨c, ds, rfl, ih.1 hds, rfl⟩
          · rintro ⟨c', ds, hc, hds, rfl⟩
            cases hc
            exact ⟨ds, ih.2 hds, rfl⟩

/-- Positions matter to the failure only. -/
theorem contributionsFrom_add (s : Settings) (n index : Nat) (vs : List Value) :
    contributionsFrom s (n + index) vs =
      (contributionsFrom s index vs).mapError (ProcessorFailure.shift n) := by
  induction vs generalizing index with
  | nil => rfl
  | cons v vs ih =>
      cases hv : contribution s v with
      | error cause =>
          rw [contributionsFrom_cons_error hv, contributionsFrom_cons_error hv]
          rfl
      | ok c =>
          rw [contributionsFrom_cons_ok hv, contributionsFrom_cons_ok hv, Nat.add_assoc, ih]
          cases contributionsFrom s (index + 1) vs <;> rfl

/-- **Cutting a run in two**: the second part is reached only if the first has no failure. -/
theorem contributionsFrom_append (s : Settings) (index : Nat) (vs ws : List Value) :
    contributionsFrom s index (vs ++ ws) =
      match contributionsFrom s index vs with
      | .error f => .error f
      | .ok cs => (contributionsFrom s (index + vs.length) ws).map fun ds => cs ++ ds := by
  induction vs generalizing index with
  | nil =>
      show contributionsFrom s index ws = (contributionsFrom s index ws).map id
      rw [Except.map_id]
      rfl
  | cons v vs ih =>
      rw [List.cons_append]
      cases hv : contribution s v with
      | error cause => rw [contributionsFrom_cons_error hv, contributionsFrom_cons_error hv]
      | ok c =>
          rw [contributionsFrom_cons_ok hv, contributionsFrom_cons_ok hv, ih, List.length_cons,
            Nat.add_comm vs.length 1, ← Nat.add_assoc]
          cases contributionsFrom s (index + 1) vs with
          | error f => rfl
          | ok cs => cases contributionsFrom s (index + 1 + vs.length) ws <;> rfl

/-- **The blocks of two pipelines in a row.** A failure of the first pipeline is the failure of both
together, and one of the second keeps everything but its position. If neither fails, their blocks
are joined. -/
theorem blocks_append (s : Settings) (ps qs : List Value) :
    blocks s (ps ++ qs) =
      match blocks s ps, blocks s qs with
      | .error f, _ => .error f
      | .ok _, .error f => .error { f with index := ps.length + f.index }
      | .ok bs, .ok cs => .ok (joined bs cs) := by
  have hcut := contributionsFrom_append s 0 ps qs
  have hshift := contributionsFrom_add s ps.length 0 qs
  rw [Nat.add_comm 0 ps.length, hshift] at hcut
  rw [blocks_eq_map_blocksOf, blocks_eq_map_blocksOf, blocks_eq_map_blocksOf, hcut]
  cases contributionsFrom s 0 ps with
  | error f => rfl
  | ok cs =>
      cases contributionsFrom s 0 qs with
      | error f => rfl
      | ok ds =>
          show Except.ok (Assembly.blocksOf (cs ++ ds)) = _
          rw [Assembly.blocksOf_append]
          rfl

end Pipeline

end IngestPipeline
