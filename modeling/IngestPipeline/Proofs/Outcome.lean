import Mathlib.Data.List.Forall2

/-! # Outcomes

A computation that may fail is a value of `Except`. These are the inversions by which proofs take
such a computation apart.

* **`bind_eq_ok_iff`**, **`map_eq_ok_iff`**: a computation that succeeds succeeds in each step.
* **`isOk_bind_iff`**, **`isOk_map`**: the same for success alone.
* **`mapM_eq_ok_iff`**: a traversal succeeds with the results of its items, one for each.
* **`mapM_bind_eq_ok`**: a traversal of two steps is two traversals. -/

namespace Except

variable {ε : Type u} {α β : Type v}

/-- A sequence of two steps succeeds if the second succeeds on the result of the first. -/
theorem bind_eq_ok_iff {x : Except ε α} {f : α → Except ε β} {b : β} :
    x >>= f = .ok b ↔ ∃ a, x = .ok a ∧ f a = .ok b := by
  cases x with
  | error e =>
      constructor
      · intro h
        cases h
      · rintro ⟨a, ha, -⟩
        cases ha
  | ok a =>
      constructor
      · intro h
        exact ⟨a, rfl, h⟩
      · rintro ⟨a', ha, h⟩
        cases ha
        exact h

/-- A function of a result succeeds if there is a result. -/
theorem map_eq_ok_iff {x : Except ε α} {f : α → β} {b : β} :
    x.map f = .ok b ↔ ∃ a, x = .ok a ∧ f a = b := by
  have hbind : x.map f = x >>= fun a => .ok (f a) := by cases x <;> rfl
  rw [hbind, bind_eq_ok_iff]
  simp only [Except.ok.injEq]

/-- A function of the result of two steps is a function of the second one's. -/
theorem map_bind {γ : Type v} (x : Except ε α) (f : α → Except ε β) (g : β → γ) :
    (x >>= f).map g = x >>= fun a => (f a).map g := by
  cases x <;> rfl

/-- To succeed is to have a result. -/
theorem isOk_iff {x : Except ε α} : x.isOk = true ↔ ∃ a, x = .ok a := by
  cases x with
  | error e => simp [Except.isOk, Except.toBool]
  | ok a => simp [Except.isOk, Except.toBool]

/-- A result is one. -/
@[simp] theorem isOk_ok (a : α) : (Except.ok a : Except ε α).isOk = true := rfl

/-- A failure is no result. -/
@[simp] theorem isOk_error (e : ε) : (Except.error e : Except ε α).isOk = false := rfl

/-- What is returned is a result. -/
@[simp] theorem isOk_pure (a : α) : (pure a : Except ε α).isOk = true := rfl

/-- A function of a result is there if the result is. -/
@[simp] theorem isOk_map (x : Except ε α) (f : α → β) : (x.map f).isOk = x.isOk := by
  cases x <;> rfl

/-- A sequence of two steps succeeds if both do. -/
theorem isOk_bind_iff {x : Except ε α} {f : α → Except ε β} :
    (x >>= f).isOk = true ↔ ∃ a, x = .ok a ∧ (f a).isOk = true := by
  rw [isOk_iff]
  simp only [bind_eq_ok_iff, isOk_iff]
  constructor
  · rintro ⟨b, a, ha, hb⟩
    exact ⟨a, ha, b, hb⟩
  · rintro ⟨a, ha, b, hb⟩
    exact ⟨b, a, ha, hb⟩

/-- Where the success of the second step does not depend on the result of the first, a sequence of
both succeeds if each does. -/
theorem isOk_bind {x : Except ε α} {f : α → Except ε β} {ok : Bool} (h : ∀ a, (f a).isOk = ok) :
    (x >>= f).isOk = (x.isOk && ok) := by
  cases x with
  | error e => rfl
  | ok a => exact h a

/-- **A traversal succeeds** with exactly the results of its items. -/
theorem mapM_eq_ok_iff {ι : Type w} {f : ι → Except ε α} {xs : List ι} {ys : List α} :
    xs.mapM f = .ok ys ↔ List.Forall₂ (fun x y => f x = .ok y) xs ys := by
  induction xs generalizing ys with
  | nil =>
      rw [List.mapM_nil, List.forall₂_nil_left_iff]
      exact ⟨fun h => (Except.ok.inj h).symm, fun h => by rw [h]; rfl⟩
  | cons x xs ih =>
      rw [List.mapM_cons, List.forall₂_cons_left_iff, bind_eq_ok_iff]
      constructor
      · rintro ⟨y, hy, h⟩
        obtain ⟨zs, hzs, h⟩ := bind_eq_ok_iff.1 h
        exact ⟨y, zs, hy, ih.1 hzs, (Except.ok.inj h).symm⟩
      · rintro ⟨y, zs, hy, hzs, rfl⟩
        exact ⟨y, hy, bind_eq_ok_iff.2 ⟨zs, ih.2 hzs, rfl⟩⟩

/-- Each result of a traversal is the result of an item. -/
theorem exists_of_mem_mapM {ι : Type w} {f : ι → Except ε α} {xs : List ι} {ys : List α}
    (h : xs.mapM f = .ok ys) {y : α} (hy : y ∈ ys) : ∃ x ∈ xs, f x = .ok y := by
  rw [mapM_eq_ok_iff] at h
  induction h with
  | nil => cases hy
  | @cons x y' xs ys hx _ ih =>
      rcases List.mem_cons.1 hy with rfl | hy
      · exact ⟨x, List.mem_cons_self, hx⟩
      · obtain ⟨x', hx', hf⟩ := ih hy
        exact ⟨x', List.mem_cons_of_mem _ hx', hf⟩

/-- A traversal succeeds if it succeeds on every item. -/
theorem isOk_mapM_iff {ι : Type w} {f : ι → Except ε α} {xs : List ι} :
    (xs.mapM f).isOk = true ↔ ∀ x ∈ xs, (f x).isOk = true := by
  induction xs with
  | nil => simp [List.mapM_nil]
  | cons x xs ih =>
      rw [List.mapM_cons, List.forall_mem_cons, ← ih]
      rw [isOk_bind fun _ => isOk_bind fun _ => isOk_pure _]
      simp

/-- **Two traversals in one**: a traversal whose items take two steps is a traversal of the first
step followed by one of the second. -/
theorem mapM_bind_eq_ok {ι : Type w} {γ : Type v} {f : ι → Except ε γ} {g : γ → Except ε α}
    {xs : List ι} {ys : List α} (h : xs.mapM (fun x => f x >>= g) = .ok ys) :
    ∃ zs, xs.mapM f = .ok zs ∧ zs.mapM g = .ok ys := by
  simp only [mapM_eq_ok_iff] at h ⊢
  induction h with
  | nil => exact ⟨[], .nil, .nil⟩
  | cons hx _ ih =>
      obtain ⟨z, hz, hg⟩ := bind_eq_ok_iff.1 hx
      obtain ⟨zs, hzs, hgs⟩ := ih
      exact ⟨z :: zs, .cons hz hzs, .cons hg hgs⟩

end Except
