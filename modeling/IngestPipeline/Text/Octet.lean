/-! # Lengths and cuts in octets

Texts are encoded in one to four **octets** for every character. Some lengths and positions are
counted in octets.

* **`octets s`**: the length of a text.
* **`cut? n s`**: the two parts of a text at a position. A position inside a character, or behind
  the end, divides nothing.
* **`behind? n s`**, **`between? m n s`**: the part of a text behind a position, and between two. -/

namespace IngestPipeline.Text

/-- The number of octets that encode a text. -/
def octets (s : List Char) : Nat := s.foldl (fun n c => n + c.utf8Size) 0

/-- The octets of a text are those of its first character and of the rest. -/
@[simp] theorem octets_cons (c : Char) (s : List Char) :
    octets (c :: s) = c.utf8Size + octets s := by
  have shift (s : List Char) (n : Nat) : s.foldl (fun n c => n + c.utf8Size) n =
      n + s.foldl (fun n c => n + c.utf8Size) 0 := by
    induction s generalizing n with
    | nil => simp
    | cons c s ih => rw [List.foldl_cons, ih, List.foldl_cons, ih (0 + _)]; omega
  rw [octets, List.foldl_cons, shift, Nat.zero_add, octets]

/-- The two parts of a text at the position behind its first `n` octets. -/
def cut? (n : Nat) : List Char → Option (List Char × List Char)
  | [] => if n = 0 then some ([], []) else none
  | c :: s =>
      if n = 0 then some ([], c :: s)
      else if n < c.utf8Size then none
      else (cut? (n - c.utf8Size) s).map fun parts => (c :: parts.1, parts.2)

/-- Behind as many octets as a text has, the rest begins. -/
@[simp] theorem cut?_append (a b : List Char) : cut? (octets a) (a ++ b) = some (a, b) := by
  induction a with
  | nil => cases b <;> rfl
  | cons c a ih =>
      have hpos := c.utf8Size_pos
      rw [List.cons_append, octets_cons, cut?, if_neg (by omega), if_neg (by omega),
        Nat.add_sub_cancel_left, ih]
      rfl

/-- The part of a text behind its first `n` octets. -/
def behind? (n : Nat) (s : List Char) : Option (List Char) := (cut? n s).map Prod.snd

/-- The part of a text behind its first `m` and within its first `n` octets. -/
def between? (m n : Nat) (s : List Char) : Option (List Char) := do
  let rest ← behind? m s
  let (part, _) ← cut? (n - m) rest
  return part

end IngestPipeline.Text
