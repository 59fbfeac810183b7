import IngestPipeline.Proofs.Acceptance
import Mathlib

/-! # What the events of a run say

A run reports when an unguarded block begins and ends, when a guarded block is added, which
processor is taken up and what is found about its date formats. This file shows that these events
describe the blocks that the run returns.

* **`Reports a b events new`**: on the way from the assembly `a` to the assembly `b`, the events
  announce exactly the blocks `new` that were completed, and no block is opened inside another.
  One step (`reports_push`, `reports_close`) and two steps in a row (`Reports.trans`) give a whole
  run, with or without a failure (`runFrom_reports`).
* **`IsStretch s v events`**: the events of one processor, from the one that names its operation to
  the last before the next processor. A run without a failure is a stretch for each processor
  (`runFrom_stretches`).
* **`run_mirrors`**: both together, for the events of a pipeline and of a pipeline document. -/

namespace IngestPipeline

open Processor (Contribution)

/-! ### Views of an event -/

namespace Event

/-- The operation of the processor that is taken up. -/
def operation? : Event → Option Operation
  | .processor operation => some operation
  | _ => none

/-- The finding about a date format. -/
def warning? : Event → Option Processor.Warning
  | .warning w => some w
  | _ => none

/-- The position of the unguarded block that begins. -/
def opened? : Event → Option Nat
  | .opened index => some index
  | _ => none

/-- The number of entries of the unguarded block that ends. -/
def closed? : Event → Option Nat
  | .closed entries => some entries
  | _ => none

/-- The check of the guarded block that is added. -/
def check? : Event → Option String
  | .guarded check => some check
  | _ => none

/-- The number of blocks that begin in a trace, less the number of those that end. -/
def openBlocks (events : List Event) : Int :=
  (events.filterMap opened?).length - (events.filterMap closed?).length

/-- Before any event no block is open. -/
@[simp] theorem openBlocks_nil : openBlocks [] = 0 := rfl

/-- A block is opened. -/
@[simp] theorem openBlocks_opened (index : Nat) : openBlocks [.opened index] = 1 := rfl

/-- A block is closed. -/
@[simp] theorem openBlocks_closed (entries : Nat) : openBlocks [.closed entries] = -1 := rfl

/-- A guarded block is open at no time. -/
@[simp] theorem openBlocks_guarded (check : String) : openBlocks [.guarded check] = 0 := rfl

/-- Open blocks are counted event by event. -/
@[simp] theorem openBlocks_append (es fs : List Event) :
    openBlocks (es ++ fs) = openBlocks es + openBlocks fs := by
  simp only [openBlocks, List.filterMap_append, List.length_append]
  omega

/-- An event about a processor, and not about a block. -/
def IsQuiet (e : Event) : Prop := e.opened? = none ∧ e.closed? = none ∧ e.check? = none

/-- An event about a block, and not about a processor. -/
def IsInner (e : Event) : Prop := e.operation? = none ∧ e.warning? = none

end Event

/-! ### From one assembly to the next -/

namespace Assembly

/-- The position of the open block, if there is one. -/
def openPosition (a : Assembly) : List Nat :=
  match a.pending with
  | none => []
  | some _ => [a.done.length]

/-- The number of open blocks: none or one. -/
def depth (a : Assembly) : Int := a.openPosition.length

/-- At most one block is open. -/
theorem depth_cases (a : Assembly) : a.depth = 0 ∨ a.depth = 1 := by
  unfold depth openPosition
  cases a.pending with
  | none => exact .inl rfl
  | some es => exact .inr rfl

end Assembly

/-- Whether a block is unguarded. -/
def Block.isUnguarded (b : Block) : Bool := b.check.isNone

open Event in
/-- **The events between two assemblies** `a` and `b` announce the blocks `new` that were completed
in between. The block that is open in `a` has been announced before, and the block that is open in
`b` is still to be completed. -/
structure Reports (a b : Assembly) (events : List Event) (new : List Block) : Prop where
  /-- No complete block changes. -/
  done : b.done = a.done ++ new
  /-- Unguarded blocks are opened under their own position. -/
  opened : a.openPosition ++ events.filterMap opened? =
    new.findIdxs Block.isUnguarded a.done.length ++ b.openPosition
  /-- Unguarded blocks are closed with the number of their entries. -/
  closed : events.filterMap closed? =
    (new.filter Block.isUnguarded).map fun block => block.entries.length
  /-- Guarded blocks are added under their own check. -/
  guarded : events.filterMap check? = new.filterMap Block.check
  /-- At every point, at most one block is open. -/
  within : ∀ t, t <+: events → a.depth + openBlocks t = 0 ∨ a.depth + openBlocks t = 1

namespace Reports

variable {a b c : Assembly} {es fs : List Event} {new more : List Block}

/-- The events change the number of open blocks from that of the first assembly to that of the
second. -/
theorem depth_eq (h : Reports a b es new) : a.depth + Event.openBlocks es = b.depth := by
  have hopened := congrArg List.length h.opened
  have hclosed := congrArg List.length h.closed
  have hcount : (new.findIdxs Block.isUnguarded a.done.length).length =
      (new.filter Block.isUnguarded).length := by
    rw [List.length_findIdxs, List.countP_eq_length_filter]
  simp only [List.length_append, List.length_map] at hopened hclosed
  unfold Assembly.depth Event.openBlocks
  omega

/-- **Two ways in a row.** -/
theorem trans (h : Reports a b es new) (h' : Reports b c fs more) :
    Reports a c (es ++ fs) (new ++ more) where
  done := by rw [h'.done, h.done, List.append_assoc]
  opened := by
    rw [List.filterMap_append, ← List.append_assoc, h.opened, List.append_assoc, h'.opened,
      List.findIdxs_append, h.done, List.length_append, List.append_assoc]
  closed := by
    rw [List.filterMap_append, h.closed, h'.closed, List.filter_append, List.map_append]
  guarded := by rw [List.filterMap_append, h.guarded, h'.guarded, List.filterMap_append]
  within := by
    intro t ht
    -- a prefix ends in the first part, or takes all of it and ends in the second
    rcases List.prefix_or_prefix_of_prefix ht (List.prefix_append es fs) with hle | ⟨u, rfl⟩
    · exact h.within t hle
    · have hu : u <+: fs := (List.prefix_append_right_inj es).1 ht
      have hdepth := h.depth_eq
      have hwithin := h'.within u hu
      rw [Event.openBlocks_append]
      omega

/-- Events about processors do not touch the assembly. -/
theorem of_quiet (a : Assembly) (h : ∀ e ∈ es, e.IsQuiet) : Reports a a es [] where
  done := (List.append_nil _).symm
  opened := by
    rw [List.filterMap_eq_nil_iff.2 fun e he => (h e he).1, List.append_nil]
    rfl
  closed := List.filterMap_eq_nil_iff.2 fun e he => (h e he).2.1
  guarded := List.filterMap_eq_nil_iff.2 fun e he => (h e he).2.2
  within := by
    intro t ht
    have ho : t.filterMap Event.opened? = [] :=
      List.filterMap_eq_nil_iff.2 fun e he => (h e (ht.subset he)).1
    have hc : t.filterMap Event.closed? = [] :=
      List.filterMap_eq_nil_iff.2 fun e he => (h e (ht.subset he)).2.1
    rw [Event.openBlocks, ho, hc]
    simpa using a.depth_cases

end Reports

namespace Assembly

/-- Two points of a trace of one event. -/
theorem within_singleton {a : Assembly} {e : Event}
    (h : a.depth + Event.openBlocks [e] = 0 ∨ a.depth + Event.openBlocks [e] = 1) (t : List Event)
    (ht : t <+: [e]) : a.depth + Event.openBlocks t = 0 ∨ a.depth + Event.openBlocks t = 1 := by
  rcases List.prefix_cons_iff.1 ht with rfl | ⟨u, rfl, hu⟩
  · simpa using a.depth_cases
  · rw [List.prefix_nil.1 hu]
    exact h

/-- **The end of the open block** completes it. -/
theorem reports_close (a : Assembly) : ∃ new, Reports a a.close a.closeEvents new := by
  cases hp : a.pending with
  | none =>
      refine ⟨[], ?_⟩
      rw [close, closeEvents, hp]
      exact Reports.of_quiet a fun e he => by cases he
  | some es =>
      refine ⟨[⟨none, .map es⟩], ?_, ?_, ?_, ?_, ?_⟩
      · rw [close, hp]
      · simp [close, closeEvents, openPosition, hp, Event.opened?, Block.isUnguarded]
      · rw [closeEvents, hp]
        rfl
      · rw [closeEvents, hp]
        rfl
      · rw [closeEvents, hp]
        refine within_singleton ?_
        left
        simp [depth, openPosition, hp]

/-- After closing no block is open. -/
@[simp] theorem pending_close (a : Assembly) : a.close.pending = none := by
  cases hp : a.pending <;> simp [close, hp]

/-- **One contribution** completes a guarded block, or opens an unguarded one unless one is open. -/
theorem reports_push (a : Assembly) (c : Contribution) :
    ∃ new, Reports a (a.push c) (a.pushEvents c) new := by
  cases hc : c.check with
  | some check =>
      obtain ⟨new, hclose⟩ := a.reports_close
      -- with no block open, the guarded block is added behind the complete ones
      have hadd : Reports a.close (a.push c) [.guarded check] [⟨some check, guardedBody c⟩] := by
        refine ⟨?_, ?_, ?_, ?_, ?_⟩
        · rw [push, hc]
        · simp [push, hc, openPosition, Event.opened?, Block.isUnguarded]
        · simp [Event.closed?, Block.isUnguarded]
        · simp [Event.check?]
        · refine within_singleton ?_
          left
          simp [depth, openPosition]
      refine ⟨new ++ [⟨some check, guardedBody c⟩], ?_⟩
      rw [pushEvents, hc]
      exact hclose.trans hadd
  | none =>
      refine ⟨[], ?_, ?_, ?_, ?_, ?_⟩
      · simp [push, hc]
      · cases hp : a.pending <;> simp [push, pushEvents, openPosition, hc, hp, Event.opened?]
      · cases hp : a.pending <;> simp [pushEvents, hc, hp, Event.closed?]
      · cases hp : a.pending <;> simp [pushEvents, hc, hp, Event.check?]
      · intro t ht
        cases hp : a.pending with
        | some es =>
            simp only [pushEvents, hc, hp, List.prefix_nil] at ht
            rw [ht]
            simpa using a.depth_cases
        | none =>
            simp only [pushEvents, hc, hp] at ht
            refine within_singleton ?_ t ht
            right
            simp [depth, openPosition, hp]

/-- An assembly reports nothing about processors. -/
theorem isInner_of_mem_closeEvents {a : Assembly} {e : Event} (h : e ∈ a.closeEvents) :
    e.IsInner := by
  unfold closeEvents at h
  split at h
  · cases h
  · rw [List.mem_singleton] at h
    rw [h]
    exact ⟨rfl, rfl⟩

/-- What an addition reports lies within the stretch of its processor. -/
theorem isInner_of_mem_pushEvents {a : Assembly} {c : Contribution} {e : Event}
    (h : e ∈ a.pushEvents c) : e.IsInner := by
  unfold pushEvents at h
  split at h
  · rcases List.mem_append.1 h with h | h
    · exact isInner_of_mem_closeEvents h
    · rw [List.mem_singleton] at h
      rw [h]
      exact ⟨rfl, rfl⟩
  · split at h
    · cases h
    · rw [List.mem_singleton] at h
      rw [h]
      exact ⟨rfl, rfl⟩

end Assembly

/-! ### Runs -/

namespace Pipeline

/-- What a processor reports by itself is no block. -/
theorem isQuiet_of_mem_processorEvents {s : Settings} {v : Value} {e : Event}
    (h : e ∈ processorEvents s v) : e.IsQuiet := by
  unfold processorEvents at h
  split at h
  · cases h
  · rcases List.mem_cons.1 h with rfl | h
    · exact ⟨rfl, rfl, rfl⟩
    · obtain ⟨w, -, rfl⟩ := List.mem_map.1 h
      exact ⟨rfl, rfl, rfl⟩

/-- **A whole run reports the blocks it completes**, also if it ends in a failure. If it does not,
these are the blocks it returns. -/
theorem runFrom_reports (s : Settings) (index : Nat) (a : Assembly) (vs : List Value) :
    ∃ b new, Reports a b (runFrom s index a vs).1 new ∧
      ∀ bs, (runFrom s index a vs).2 = .ok bs → b.pending = none ∧ b.done = bs := by
  induction vs generalizing index a with
  | nil =>
      obtain ⟨new, hclose⟩ := a.reports_close
      refine ⟨a.close, new, hclose, ?_⟩
      intro bs hbs
      exact ⟨a.pending_close, Except.ok.inj hbs⟩
  | cons v vs ih =>
      have hown := Reports.of_quiet a fun e => isQuiet_of_mem_processorEvents (s := s) (v := v)
      cases hv : contribution s v with
      | error cause =>
          refine ⟨a, [], ?_, ?_⟩
          · rw [runFrom, hv]
            exact hown
          · intro bs hbs
            rw [runFrom, hv] at hbs
            cases hbs
      | ok c =>
          obtain ⟨new, hpush⟩ := a.reports_push c
          obtain ⟨b, more, hrest, hresult⟩ := ih (index + 1) (a.push c)
          refine ⟨b, [] ++ new ++ more, ?_, ?_⟩
          · rw [runFrom, hv]
            exact (hown.trans hpush).trans hrest
          · intro bs hbs
            rw [runFrom, hv] at hbs
            exact hresult bs hbs

/-- **The stretch of a processor** in a trace: the event that names its operation, and behind it
events among which are its own warnings and no other processor. -/
def IsStretch (s : Settings) (v : Value) (events : List Event) : Prop :=
  ∃ p rest, Processor.resolved s v = .ok p ∧ events = .processor p.operation :: rest ∧
    rest.filterMap Event.operation? = [] ∧ rest.filterMap Event.warning? = p.warnings s

/-- The own events of a processor and events about blocks are a stretch. -/
theorem isStretch_append {s : Settings} {v : Value} {c : Contribution} {es : List Event}
    (hv : contribution s v = .ok c) (hes : ∀ e ∈ es, e.IsInner) :
    IsStretch s v (processorEvents s v ++ es) := by
  obtain ⟨p, hp, -⟩ := Except.bind_eq_ok_iff.1 hv
  refine ⟨p, (p.warnings s).map .warning ++ es, hp, ?_, ?_, ?_⟩
  · rw [processorEvents, hp]
    rfl
  · rw [List.filterMap_append, List.filterMap_map]
    rw [List.filterMap_eq_nil_iff.2 fun e he => (hes e he).1, List.append_nil]
    exact List.filterMap_eq_nil_iff.2 fun w _ => rfl
  · rw [List.filterMap_append, List.filterMap_map]
    rw [List.filterMap_eq_nil_iff.2 fun e he => (hes e he).2, List.append_nil]
    exact List.filterMap_some (l := p.warnings s)

/-- **A run without a failure has a stretch for each processor.** In front of them stands at most
the end of a block that was open, and only if there is no processor. -/
theorem runFrom_stretches {s : Settings} {index : Nat} {a : Assembly} {vs : List Value}
    {bs : List Block} (h : (runFrom s index a vs).2 = .ok bs) :
    ∃ front stretches, (runFrom s index a vs).1 = front ++ stretches.flatten ∧
      (∀ e ∈ front, e.IsInner) ∧ (vs ≠ [] ∨ a.pending = none → front = []) ∧
      List.Forall₂ (IsStretch s) vs stretches := by
  induction vs generalizing index a with
  | nil =>
      refine ⟨a.closeEvents, [], ?_, ?_, ?_, .nil⟩
      · rw [List.flatten_nil, List.append_nil, runFrom]
      · exact fun e => Assembly.isInner_of_mem_closeEvents
      · rintro (hne | hp)
        · exact absurd rfl hne
        · rw [Assembly.closeEvents, hp]
  | cons v vs ih =>
      cases hv : contribution s v with
      | error cause =>
          rw [runFrom, hv] at h
          cases h
      | ok c =>
          rw [runFrom, hv] at h
          obtain ⟨front, stretches, hevents, hfront, -, hstretches⟩ := ih h
          refine ⟨[], (processorEvents s v ++ (a.pushEvents c ++ front)) :: stretches, ?_, ?_, ?_,
            .cons (isStretch_append hv ?_) hstretches⟩
          · rw [runFrom, hv]
            simp only [hevents, List.flatten_cons, List.append_assoc, List.nil_append]
          · exact fun e he => by cases he
          · exact fun _ => rfl
          · intro e he
            rcases List.mem_append.1 he with he | he
            · exact Assembly.isInner_of_mem_pushEvents he
            · exact hfront e he

/-- A processor is reported by the name of its operation. -/
theorem reportedOperation_of_resolved {s : Settings} {v : Value} {p : Processor}
    (h : Processor.resolved s v = .ok p) : reportedOperation v = p.operation.name := by
  obtain ⟨q, hq, rfl⟩ := Except.map_eq_ok_iff.1 h
  obtain ⟨body, hv, -⟩ := Processor.ofValue_eq_ok_iff.1 hq
  rw [q.operation_resolveTimestamp, reportedOperation_of_denotes hv]

/-- The stretches of a trace name the operations of the processors, in order. -/
theorem names_of_stretches {s : Settings} {vs : List Value} {stretches : List (List Event)}
    (h : List.Forall₂ (IsStretch s) vs stretches) :
    (stretches.flatten.filterMap Event.operation?).map Operation.name =
      vs.map reportedOperation := by
  induction h with
  | nil => rfl
  | @cons v es vs stretches hes _ ih =>
      obtain ⟨p, rest, hp, rfl, hrest, -⟩ := hes
      have hfirst : (Event.processor p.operation :: rest).filterMap Event.operation? =
          [p.operation] := by
        simp [hrest, Event.operation?]
      rw [List.flatten_cons, List.filterMap_append, hfirst, List.map_append, ih,
        List.map_cons (a := v), reportedOperation_of_resolved hp]
      rfl

/-- **A document that has a decoder** is a pipeline that has blocks. Its events are those of the
pipeline and one more, which counts the processors and the blocks. -/
theorem decode_eq_ok {s : Settings} {document : Value} {decoder : Decoder}
    (h : (decode s document).2 = .ok decoder) :
    ∃ items, processors document = .ok items ∧ (run s items).2 = .ok decoder.blocks ∧
      (decode s document).1 =
        (run s items).1 ++ [.finished items.length decoder.blocks.length] := by
  unfold decode at h ⊢
  cases hitems : processors document with
  | error e =>
      rw [hitems] at h
      cases h
  | ok items =>
      rw [hitems] at h
      refine ⟨items, rfl, ?_⟩
      dsimp only at h ⊢
      split at h
      · cases h
      · rename_i events bs hrun
        cases h
        rw [hrun]
        exact ⟨rfl, rfl⟩

open Event in
/-- **What the events of a run say about its processors and its blocks.** -/
structure Mirrors (s : Settings) (vs : List Value) (events : List Event) (bs : List Block) :
    Prop where
  /-- One event for each processor names its operation. -/
  operations : (events.filterMap operation?).map Operation.name = vs.map reportedOperation
  /-- The warnings of a processor lie between its own such event and the next. -/
  stretches : ∃ stretches, events = stretches.flatten ∧
    List.Forall₂ (IsStretch s) vs stretches
  /-- Unguarded blocks are opened under their positions. -/
  opened : events.filterMap opened? = bs.findIdxs Block.isUnguarded
  /-- Unguarded blocks are closed with the numbers of their entries. -/
  closed : events.filterMap closed? =
    (bs.filter Block.isUnguarded).map fun block => block.entries.length
  /-- Guarded blocks are added under their checks. -/
  guarded : events.filterMap check? = bs.filterMap Block.check

/-- **The events of a run mirror its blocks.** At every point of a run, failing or not, at most one
block is open. If the run returns blocks, its events name the processors and announce these blocks;
and if a document has a decoder, its last event counts the processors and the blocks. -/
theorem run_mirrors (s : Settings) (vs : List Value) :
    (∀ t, t <+: (run s vs).1 → Event.openBlocks t = 0 ∨ Event.openBlocks t = 1) ∧
    (∀ bs, (run s vs).2 = .ok bs → Mirrors s vs (run s vs).1 bs) ∧
    (∀ document decoder, (decode s document).2 = .ok decoder →
      ∃ items, processors document = .ok items ∧ (run s items).2 = .ok decoder.blocks ∧
        (decode s document).1 =
          (run s items).1 ++ [.finished items.length decoder.blocks.length]) := by
  obtain ⟨b, new, hreports, hresult⟩ := runFrom_reports s 0 {} vs
  refine ⟨?_, ?_, ?_⟩
  · intro t ht
    have h := hreports.within t ht
    have hdepth : ({} : Assembly).depth = 0 := rfl
    rwa [hdepth, Int.zero_add] at h
  · intro bs hbs
    obtain ⟨hpending, rfl⟩ := hresult bs hbs
    obtain ⟨front, stretches, hevents, -, hfront, hstretches⟩ := runFrom_stretches hbs
    have hsplit : (run s vs).1 = stretches.flatten := by
      rw [run, hevents, hfront (.inr rfl), List.nil_append]
    have hdone : b.done = new := hreports.done
    have hopened := hreports.opened
    rw [hdone]
    refine ⟨?_, ⟨stretches, hsplit, hstretches⟩, ?_, hreports.closed, hreports.guarded⟩
    · rw [hsplit]
      exact names_of_stretches hstretches
    · rw [show b.openPosition = [] by rw [Assembly.openPosition, hpending], List.append_nil]
        at hopened
      exact hopened
  · exact fun document decoder => decode_eq_ok

/-- A date behind a `foreach`, with a letter in its format that has no counterpart, and an
unguarded, a guarded and another unguarded processor. -/
def tracedPipeline : List Value :=
  [.map [(.string "foreach", .map [(.string "processor",
      .map [(.string "date", .map [(.string "field", .string "t"),
        (.string "formats", .seq [.string "Q"])])])])],
    .map [(.string "trim", .map [(.string "field", .string "a")])],
    .map [(.string "lowercase",
      .map [(.string "field", .string "b"), (.string "if", .string "ctx.b == 'X'")])],
    .map [(.string "pipeline", .map [(.string "name", .string "sub")])]]

/-- The events of that pipeline. -/
def tracedEvents : List Event :=
  [.processor .foreach,
    .warning ⟨"date token 'Q' has no strftime equivalent", "t", "Q"⟩, .opened 0,
    .processor .trim,
    .processor .lowercase, .closed 2, .guarded "$b == 'X'",
    .processor .pipeline, .opened 2, .closed 1]

/-- The blocks of that pipeline. -/
def tracedBlocks : List Block :=
  [⟨none, .map [.statement "t" "parse_date($t, Q,en_US.UTF-8)",
      .statement "a" "trim($a, 'both', ' ')"]⟩,
    ⟨some "$b == 'X'", .map [.statement "b" "downcase($b)"]⟩,
    ⟨none, .map [.pipeline "sub"]⟩]

/-- The trace of the sample, and that it mirrors the blocks. -/
theorem run_mirrors_tracedPipeline :
    run {} tracedPipeline = (tracedEvents, .ok tracedBlocks) ∧
      Mirrors {} tracedPipeline tracedEvents tracedBlocks := by
  have h : run {} tracedPipeline = (tracedEvents, .ok tracedBlocks) := by cbv
  have hmirrors := (run_mirrors {} tracedPipeline).2.1 tracedBlocks (by rw [h])
  rw [h] at hmirrors
  exact ⟨h, hmirrors⟩

end Pipeline

end IngestPipeline
