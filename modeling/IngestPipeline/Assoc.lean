/-! # Ordered associations

A list of key–value pairs read as a finite map that remembers the order of insertion. Inserting
under a key that is present keeps that key and its position and changes the value only.

* **`insert k v es`**: one insertion. By `lookup_insert` it changes what is found under `k` only.
* **`ofList es`**: the insertions of `es`, one after the other. By `lookup_ofList` the last value of
  a key is found. -/

namespace IngestPipeline.Assoc

variable {κ : Type u} {α : Type v} [BEq κ]

/-- Bind `k` to `v`: the value of an equal key is exchanged in place, a new key goes to the end. -/
def insert (k : κ) (v : α) : List (κ × α) → List (κ × α)
  | [] => [(k, v)]
  | e :: es => if e.1 == k then (e.1, v) :: es else e :: insert k v es

/-- Insert all pairs in order: keys keep their first position and take their last value. -/
def ofList (es : List (κ × α)) : List (κ × α) :=
  es.foldl (fun acc e => insert e.1 e.2 acc) []

/-- Whether some key of `es` equals `k`. -/
def hasKey (k : κ) (es : List (κ × α)) : Bool := es.any fun e => e.1 == k

/-- Into nothing, an insertion is the pair alone. -/
@[simp] theorem insert_nil (k : κ) (v : α) : insert k v [] = [(k, v)] := rfl

/-- A key that is absent goes to the end. -/
@[simp] theorem insert_of_hasKey_eq_false {k : κ} {v : α} {es : List (κ × α)}
    (h : hasKey k es = false) : insert k v es = es ++ [(k, v)] := by
  induction es with
  | nil => rfl
  | cons e es ih =>
      simp only [hasKey, List.any_cons, Bool.or_eq_false_iff] at h
      simp [insert, h.1, ih h.2]

/-- The keys after an insertion are the old ones, followed by the new one if it was absent. -/
@[simp] theorem map_fst_insert (k : κ) (v : α) (es : List (κ × α)) :
    (insert k v es).map Prod.fst = es.map Prod.fst ++ if hasKey k es then [] else [k] := by
  induction es with
  | nil => rfl
  | cons e es ih =>
      cases h : e.1 == k
      · have hk : hasKey k (e :: es) = hasKey k es := by rw [hasKey, List.any_cons, h]; rfl
        rw [insert, h, hk]
        simpa using ih
      · have hk : hasKey k (e :: es) = true := by rw [hasKey, List.any_cons, h]; rfl
        rw [insert, h, hk]
        simp

/-! ### Lookups -/

variable [LawfulBEq κ]

/-- An insertion changes the value under its own key only. -/
@[simp] theorem lookup_insert (k k' : κ) (v : α) (es : List (κ × α)) :
    (insert k v es).lookup k' = if k' == k then some v else es.lookup k' := by
  induction es with
  | nil =>
      rw [insert_nil, List.lookup_cons]
      cases k' == k <;> rfl
  | cons e es ih =>
      obtain ⟨k₀, w⟩ := e
      rw [insert, List.lookup_cons]
      cases hk : k₀ == k with
      | true =>
          -- the key that is there is the inserted one
          rw [if_pos rfl, List.lookup_cons, eq_of_beq hk]
          cases k' == k <;> rfl
      | false =>
          rw [if_neg Bool.false_ne_true, List.lookup_cons, ih]
          cases hk' : k' == k with
          | true =>
              have hne : (k' == k₀) = false := by
                rw [eq_of_beq hk', BEq.comm]
                exact hk
              rw [hne]
          | false => rfl

/-- **The last value wins**: after a list of insertions, a key has the value it was last given. -/
@[simp] theorem lookup_ofList (k : κ) (es : List (κ × α)) :
    (ofList es).lookup k = es.reverse.lookup k := by
  have h : ∀ acc : List (κ × α),
      (es.foldl (fun acc e => insert e.1 e.2 acc) acc).lookup k =
        (es.reverse.lookup k).or (acc.lookup k) := by
    induction es with
    | nil => intro acc; rfl
    | cons e es ih =>
        intro acc
        rw [List.foldl_cons, ih, lookup_insert, List.reverse_cons, List.lookup_append]
        cases es.reverse.lookup k with
        | some v => rfl
        | none =>
            rw [List.lookup_cons]
            cases k == e.1 <;> rfl
  rw [ofList, h]
  cases es.reverse.lookup k <;> rfl

end IngestPipeline.Assoc
