/-! # Finding and replacing in texts

Searching a text for a fixed **needle**, always left to right and without overlaps.

* **`after? needle s`**: what follows `needle` when `s` starts with it.
* **`splitOnce sep s`**: the parts of `s` around the first occurrence of `sep`.
* **`parts sep s`**: the parts of `s` between all occurrences of a character.
* **`replace needle new s`**: `s` with every occurrence of `needle` exchanged for `new`. -/

namespace IngestPipeline.Text

/-- The rest of `s` after a leading `needle`, or `none` if `s` does not start with it. -/
def after? : List Char → List Char → Option (List Char)
  | [], s => some s
  | _ :: _, [] => none
  | n :: needle, c :: s => if n = c then after? needle s else none

/-- A needle stands at the front of `s` exactly when `s` is the needle followed by the rest. -/
@[simp] theorem after?_eq_some_iff {needle s rest : List Char} :
    after? needle s = some rest ↔ s = needle ++ rest := by
  induction needle generalizing s with
  | nil => simp [after?]
  | cons n needle ih =>
      cases s with
      | nil => simp [after?]
      | cons c s =>
          by_cases h : n = c
          · simp [after?, h, ih]
          · simp [after?, h, Ne.symm h]

/-- What follows a needle at the front is shorter by the needle's length. -/
theorem length_of_after? {needle s rest : List Char} (h : after? needle s = some rest) :
    s.length = needle.length + rest.length := by
  rw [after?_eq_some_iff.1 h, List.length_append]

/-- The texts before and after the first occurrence of `sep`, or `none` if there is none. -/
def splitOnce (sep : List Char) : List Char → Option (List Char × List Char)
  | [] => (after? sep []).map fun rest => ([], rest)
  | c :: s =>
      match after? sep (c :: s) with
      | some rest => some ([], rest)
      | none => (splitOnce sep s).map fun parts => (c :: parts.1, parts.2)

/-- The two parts around a separator, put together again, are the text. -/
theorem eq_append_of_splitOnce {sep s a b : List Char} (h : splitOnce sep s = some (a, b)) :
    s = a ++ sep ++ b := by
  induction s generalizing a with
  | nil =>
      obtain ⟨rest, hr, he⟩ := Option.map_eq_some_iff.1 h
      cases he
      simpa using after?_eq_some_iff.1 hr
  | cons c s ih =>
      rw [splitOnce] at h
      split at h
      · rename_i rest hr
        cases h
        simpa using after?_eq_some_iff.1 hr
      · obtain ⟨parts, hp, he⟩ := Option.map_eq_some_iff.1 h
        cases he
        simpa using ih hp

/-- The parts of a text between the occurrences of a character. There is one more of them than there
are occurrences. -/
def parts (sep : Char) : List Char → List (List Char)
  | [] => [[]]
  | c :: s =>
      if c = sep then [] :: parts sep s
      else match parts sep s with
        | part :: more => (c :: part) :: more
        | [] => [[c]]   -- unreachable: there is always a part

/-- There is always a part. -/
theorem parts_ne_nil (sep : Char) (s : List Char) : parts sep s ≠ [] := by
  cases s with
  | nil => simp [parts]
  | cons c s =>
      rw [parts]
      split
      · simp
      · split <;> simp

/-- Exchange every occurrence of the needle `n :: needle`, scanning from the left and going on
behind each occurrence found. -/
def replaceCons (n : Char) (needle new : List Char) (s : List Char) : List Char :=
  match s with
  | [] => []
  | c :: s =>
      match _h : after? (n :: needle) (c :: s) with
      | some rest => new ++ replaceCons n needle new rest
      | none => c :: replaceCons n needle new s
termination_by s.length
decreasing_by
  · have := length_of_after? _h
    simp only [List.length_cons] at this ⊢
    omega
  · simp

/-- `s` with every occurrence of `needle` exchanged for `new`. The empty needle occurs before
every character and at the end. -/
def replace (needle new s : List Char) : List Char :=
  match needle with
  | [] => s.flatMap (fun c => new ++ [c]) ++ new
  | n :: needle => replaceCons n needle new s

/-- There is nothing to replace in the empty text. -/
@[simp] theorem replace_empty_text (n : Char) (needle new : List Char) :
    replace (n :: needle) new [] = [] := by
  simp [replace, replaceCons]

/-- Apply a text function to a string. -/
def onString (f : List Char → List Char) (s : String) : String := String.ofList (f s.toList)

/-- Whether `s` ends with the text `tail`. -/
def endsWith (tail s : List Char) : Bool := (after? tail.reverse s.reverse).isSome

end IngestPipeline.Text
