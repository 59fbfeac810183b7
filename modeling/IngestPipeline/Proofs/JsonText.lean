import IngestPipeline.Json
import Mathlib.Tactic.SplitIfs

/-! # The text of a JSON tree determines the tree

The indented text of a tree carries its own end: whatever stands behind it, a reader that goes from
left to right knows where the tree ends and which tree it was. This holds for trees of strings,
arrays and objects. (A number is kept as any text, so that a number and `null` may look the same.)

* **`unescape`**: the character at the front of an escaped text.
* **`quoted_append_inj`**: a string literal can be told from what is behind it.
* **`prettyAt_append_inj`**: so can a textual tree, by induction on the tree, its items and its
  members. -/

namespace IngestPipeline.Json

/-! ### Characters and strings -/

/-- The number that a lower-case hexadecimal digit stands for. -/
def hexValue (c : Char) : Nat := if c.toNat < 0x57 then c.toNat - 0x30 else c.toNat - 0x57

/-- The character that the text behind a backslash stands for, and the text behind that. -/
def unescapeLetter : List Char → Option (Char × List Char)
  | 'b' :: rest => some ('\x08', rest)
  | 'f' :: rest => some ('\x0c', rest)
  | 'n' :: rest => some ('\n', rest)
  | 'r' :: rest => some ('\r', rest)
  | 't' :: rest => some ('\t', rest)
  | 'u' :: _ :: _ :: high :: low :: rest =>
      some (Char.ofNat (16 * hexValue high + hexValue low), rest)
  -- a quote or a backslash
  | c :: rest => some (c, rest)
  | [] => none

/-- **The character at the front** of an escaped text, and the text behind it. A quote ends the
text. -/
def unescape : List Char → Option (Char × List Char)
  | [] => none
  | c :: rest =>
      if c = '\x22' then none
      else if c = '\\' then unescapeLetter rest
      else some (c, rest)

/-- A hexadecimal digit has the value that it was written for. -/
theorem hexValue_hexDigit : ∀ n < 16, hexValue (hexDigit n) = n := by decide

/-- **Unescaping undoes escaping**, whatever is behind the character. -/
theorem unescape_escape (c : Char) (rest : List Char) :
    unescape (escape c ++ rest) = some (c, rest) := by
  unfold escape
  split_ifs with hquote hbackslash hb hf hn hr ht hcontrol
  · rw [hquote]; rfl
  · rw [hbackslash]; rfl
  · rw [hb]; rfl
  · rw [hf]; rfl
  · rw [hn]; rfl
  · rw [hr]; rfl
  · rw [ht]; rfl
  · show some (Char.ofNat (16 * hexValue (hexDigit (c.toNat / 16)) +
      hexValue (hexDigit (c.toNat % 16))), rest) = _
    rw [hexValue_hexDigit _ (by omega), hexValue_hexDigit _ (by omega), Nat.div_add_mod,
      Char.ofNat_toNat]
  · rw [List.singleton_append, unescape, if_neg hquote, if_neg hbackslash]

/-- The text of a string up to its closing quote can be told from what is behind it. -/
theorem flatMap_escape_append_inj {cs ds xs ys : List Char}
    (h : cs.flatMap escape ++ '\x22' :: xs = ds.flatMap escape ++ '\x22' :: ys) :
    cs = ds ∧ xs = ys := by
  induction cs generalizing ds with
  | nil =>
      cases ds with
      | nil => exact ⟨rfl, (List.cons.inj h).2⟩
      | cons d ds =>
          -- no escaped character begins with a quote
          have hread := congrArg unescape h
          rw [List.flatMap_cons, List.append_assoc, unescape_escape] at hread
          cases hread
  | cons c cs ih =>
      have hread := congrArg unescape h
      rw [List.flatMap_cons, List.append_assoc, unescape_escape] at hread
      cases ds with
      | nil => cases hread
      | cons d ds =>
          rw [List.flatMap_cons, List.append_assoc, unescape_escape, Option.some_inj,
            Prod.mk.injEq] at hread
          obtain ⟨rfl, hrest⟩ := hread
          obtain ⟨rfl, rfl⟩ := ih hrest
          exact ⟨rfl, rfl⟩

/-- **A string literal can be told from what is behind it.** -/
theorem quoted_append_inj {s t : String} {xs ys : List Char}
    (h : quoted s ++ xs = quoted t ++ ys) : s = t ∧ xs = ys := by
  simp only [quoted, List.cons_append, List.append_assoc, List.nil_append, List.cons.injEq,
    true_and] at h
  obtain ⟨hst, rfl⟩ := flatMap_escape_append_inj h
  exact ⟨String.toList_inj.1 hst, rfl⟩

/-! ### Trees -/

mutual

/-- Whether the tree is made of strings, arrays and objects only. -/
def isTextual : Json → Bool
  | .string _ => true
  | .array xs => areTextual xs
  | .object ms => areTextualMembers ms
  | _ => false

/-- Whether all items of an array are textual. -/
def areTextual : List Json → Bool
  | [] => true
  | x :: xs => x.isTextual && areTextual xs

/-- Whether the values of all members of an object are textual. -/
def areTextualMembers : List (String × Json) → Bool
  | [] => true
  | m :: ms => m.2.isTextual && areTextualMembers ms

end

/-- A list of textual trees is textual. -/
theorem areTextual_map {α : Type} {tree : α → Json} {xs : List α}
    (h : ∀ x ∈ xs, (tree x).isTextual = true) : areTextual (xs.map tree) = true := by
  induction xs with
  | nil => rfl
  | cons x xs ih =>
      rw [List.forall_mem_cons] at h
      rw [List.map_cons, areTextual, h.1, ih h.2, Bool.and_true]

/-- The first character of the text of a textual tree. -/
def opener : Json → Char
  | .array _ => '['
  | .object _ => '\x7b'
  | _ => '\x22'

/-- A textual tree begins with its opener. -/
theorem prettyAt_eq_cons (level : Nat) {j : Json} (h : j.isTextual = true) :
    ∃ rest, j.prettyAt level = j.opener :: rest := by
  cases j with
  | string s => exact ⟨_, rfl⟩
  | array xs => cases xs <;> exact ⟨_, rfl⟩
  | object ms => cases ms <;> exact ⟨_, rfl⟩
  | _ => cases h

/-- Trees whose texts begin alike have the same opener. -/
theorem opener_eq_of_append_eq {level : Nat} {j k : Json} {xs ys : List Char}
    (hj : j.isTextual = true) (hk : k.isTextual = true)
    (h : j.prettyAt level ++ xs = k.prettyAt level ++ ys) : j.opener = k.opener := by
  obtain ⟨rest, hrest⟩ := prettyAt_eq_cons level hj
  obtain ⟨rest', hrest'⟩ := prettyAt_eq_cons level hk
  rw [hrest, hrest'] at h
  exact (List.cons.inj h).1

/-- An array that is not empty: its items, a line break and its bracket. -/
theorem prettyAt_array_append (level : Nat) (x : Json) (xs : List Json) (rest : List Char) :
    prettyAt level (.array (x :: xs)) ++ rest =
      '[' :: (prettyItems (level + 1) (x :: xs) ++
        '\n' :: (List.replicate (2 * level) ' ' ++ ']' :: rest)) := by
  rw [prettyAt, newLine]
  simp only [List.append_assoc, List.cons_append, List.nil_append]

/-- An object that is not empty: its members, a line break and its brace. -/
theorem prettyAt_object_append (level : Nat) (m : String × Json) (ms : List (String × Json))
    (rest : List Char) :
    prettyAt level (.object (m :: ms)) ++ rest =
      '\x7b' :: (prettyMembers (level + 1) (m :: ms) ++
        '\n' :: (List.replicate (2 * level) ' ' ++ '\x7d' :: rest)) := by
  rw [prettyAt, newLine]
  simp only [List.append_assoc, List.cons_append, List.nil_append]

/-- Items begin with a line break, the first item and what is behind it. -/
theorem prettyItems_cons_append (level : Nat) (x : Json) (xs : List Json) (rest : List Char) :
    prettyItems level (x :: xs) ++ rest =
      '\n' :: (List.replicate (2 * level) ' ' ++ (x.prettyAt level ++
        ((if xs.isEmpty then [] else [',']) ++ (prettyItems level xs ++ rest)))) := by
  rw [prettyItems, newLine]
  simp only [List.append_assoc, List.cons_append]

/-- Members begin with a line break, the first member and what is behind it. -/
theorem prettyMembers_cons_append (level : Nat) (m : String × Json) (ms : List (String × Json))
    (rest : List Char) :
    prettyMembers level (m :: ms) ++ rest =
      '\n' :: (List.replicate (2 * level) ' ' ++ (quoted m.1 ++ ':' :: ' ' :: (m.2.prettyAt level ++
        ((if ms.isEmpty then [] else [',']) ++ (prettyMembers level ms ++ rest))))) := by
  rw [prettyMembers, newLine]
  simp only [List.append_assoc, List.cons_append]

/-- Behind an item or a member stands a comma, or the line break that ends the list. So the two
lists end together. `text` writes the tail of the list. -/
theorem separator_append_inj {α : Type} {text : List α → List Char} (htext : text [] = [])
    {xs ys : List α} {r r' : List Char}
    (h : (if xs.isEmpty then [] else [',']) ++ (text xs ++ '\n' :: r) =
      (if ys.isEmpty then [] else [',']) ++ (text ys ++ '\n' :: r')) :
    xs.isEmpty = ys.isEmpty ∧ text xs ++ '\n' :: r = text ys ++ '\n' :: r' := by
  cases xs with
  | nil =>
      cases ys with
      | nil => exact ⟨rfl, h⟩
      | cons y ys =>
          rw [htext] at h
          exact absurd (List.cons.inj h).1 (by decide)
  | cons x xs =>
      cases ys with
      | nil =>
          rw [htext] at h
          exact absurd (List.cons.inj h).1 (by decide)
      | cons y ys => exact ⟨rfl, (List.cons.inj h).2⟩

mutual

/-- **A textual tree can be told from what is behind it.** -/
theorem prettyAt_append_inj : ∀ {j k : Json} {level : Nat} {xs ys : List Char},
    j.isTextual = true → k.isTextual = true →
      j.prettyAt level ++ xs = k.prettyAt level ++ ys → j = k ∧ xs = ys
  | .string s, .string t, _, _, _, _, _, h => by
      obtain ⟨rfl, rfl⟩ := quoted_append_inj h
      exact ⟨rfl, rfl⟩
  | .array [], .array [], _, _, _, _, _, h => ⟨rfl, (List.cons.inj (List.cons.inj h).2).2⟩
  | .array [], .array (w :: ws), level, xs, ys, _, _, h => by
      -- a bracket against a line break
      rw [prettyAt_array_append, prettyItems_cons_append] at h
      exact absurd (List.cons.inj (List.cons.inj h).2).1 (by decide)
  | .array (z :: zs), .array [], level, xs, ys, _, _, h => by
      rw [prettyAt_array_append, prettyItems_cons_append] at h
      exact absurd (List.cons.inj (List.cons.inj h).2).1 (by decide)
  | .array (z :: zs), .array (w :: ws), level, xs, ys, hj, hk, h => by
      rw [prettyAt_array_append, prettyAt_array_append] at h
      obtain ⟨heq, hrest⟩ := prettyItems_append_inj hj hk rfl (List.cons.inj h).2
      exact ⟨by rw [heq], (List.cons.inj (List.append_cancel_left hrest)).2⟩
  | .object [], .object [], _, _, _, _, _, h => ⟨rfl, (List.cons.inj (List.cons.inj h).2).2⟩
  | .object [], .object (n :: ns), level, xs, ys, _, _, h => by
      rw [prettyAt_object_append, prettyMembers_cons_append] at h
      exact absurd (List.cons.inj (List.cons.inj h).2).1 (by decide)
  | .object (m :: ms), .object [], level, xs, ys, _, _, h => by
      rw [prettyAt_object_append, prettyMembers_cons_append] at h
      exact absurd (List.cons.inj (List.cons.inj h).2).1 (by decide)
  | .object (m :: ms), .object (n :: ns), level, xs, ys, hj, hk, h => by
      rw [prettyAt_object_append, prettyAt_object_append] at h
      obtain ⟨heq, hrest⟩ := prettyMembers_append_inj hj hk rfl (List.cons.inj h).2
      exact ⟨by rw [heq], (List.cons.inj (List.append_cancel_left hrest)).2⟩
  | .string _, .array _, _, _, _, hj, hk, h => by cases opener_eq_of_append_eq hj hk h
  | .string _, .object _, _, _, _, hj, hk, h => by cases opener_eq_of_append_eq hj hk h
  | .array _, .string _, _, _, _, hj, hk, h => by cases opener_eq_of_append_eq hj hk h
  | .array _, .object _, _, _, _, hj, hk, h => by cases opener_eq_of_append_eq hj hk h
  | .object _, .string _, _, _, _, hj, hk, h => by cases opener_eq_of_append_eq hj hk h
  | .object _, .array _, _, _, _, hj, hk, h => by cases opener_eq_of_append_eq hj hk h
termination_by j => sizeOf j

/-- Items can be told from a line break behind them. -/
theorem prettyItems_append_inj : ∀ {xs ys : List Json} {level : Nat} {r r' : List Char},
    areTextual xs = true → areTextual ys = true → xs.isEmpty = ys.isEmpty →
      prettyItems level xs ++ '\n' :: r = prettyItems level ys ++ '\n' :: r' → xs = ys ∧ r = r'
  | [], [], _, _, _, _, _, _, h => ⟨rfl, (List.cons.inj h).2⟩
  | x :: xs, y :: ys, level, r, r', hxs, hys, _, h => by
      rw [areTextual, Bool.and_eq_true] at hxs hys
      rw [prettyItems_cons_append, prettyItems_cons_append] at h
      obtain ⟨rfl, hrest⟩ :=
        prettyAt_append_inj hxs.1 hys.1 (List.append_cancel_left (List.cons.inj h).2)
      obtain ⟨hempty, htail⟩ := separator_append_inj rfl hrest
      obtain ⟨rfl, rfl⟩ := prettyItems_append_inj hxs.2 hys.2 hempty htail
      exact ⟨rfl, rfl⟩
termination_by xs => sizeOf xs

/-- Members can be told from a line break behind them. -/
theorem prettyMembers_append_inj : ∀ {ms ns : List (String × Json)} {level : Nat}
    {r r' : List Char},
    areTextualMembers ms = true → areTextualMembers ns = true → ms.isEmpty = ns.isEmpty →
      prettyMembers level ms ++ '\n' :: r = prettyMembers level ns ++ '\n' :: r' → ms = ns ∧ r = r'
  | [], [], _, _, _, _, _, _, h => ⟨rfl, (List.cons.inj h).2⟩
  | (name, v) :: ms, (name', v') :: ns, level, r, r', hms, hns, _, h => by
      rw [areTextualMembers, Bool.and_eq_true] at hms hns
      rw [prettyMembers_cons_append, prettyMembers_cons_append] at h
      obtain ⟨rfl, hvalue⟩ := quoted_append_inj (List.append_cancel_left (List.cons.inj h).2)
      obtain ⟨rfl, hrest⟩ :=
        prettyAt_append_inj hms.1 hns.1 (List.cons.inj (List.cons.inj hvalue).2).2
      obtain ⟨hempty, htail⟩ := separator_append_inj rfl hrest
      obtain ⟨rfl, rfl⟩ := prettyMembers_append_inj hms.2 hns.2 hempty htail
      exact ⟨rfl, rfl⟩
termination_by ms => sizeOf ms

end

/-- **The indented text of a textual tree determines the tree.** -/
theorem pretty_inj {j k : Json} (hj : j.isTextual = true) (hk : k.isTextual = true)
    (h : j.pretty = k.pretty) : j = k := by
  have htexts : j.prettyAt 0 ++ [] = k.prettyAt 0 ++ [] := by
    rw [String.ofList_inj.1 h]
  exact (prettyAt_append_inj hj hk htexts).1

end IngestPipeline.Json
