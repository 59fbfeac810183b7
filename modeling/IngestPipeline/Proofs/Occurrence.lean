import IngestPipeline.Text.Replace
import Mathlib.Data.List.Infix

/-! # Occurrences of a needle

A needle **occurs** in a text when it is an infix of it. This file says what replacing and splitting
do in terms of occurrences, so that proofs about texts need not follow the scan.

* **`scan_induction`**: a text is empty, or begins with the needle, or with a character at which the
  needle does not begin.
* **`replace_append_cons`**, **`isInfix_append_cons_iff`**: a character outside of the needle cuts
  the text in two that are searched apart.
* **`replace_append_of_noStart`**, **`splitOnce_append_of_noStart`**: a front in which no occurrence
  begins is passed over.
* **`splitOnce_eq_some_iff`**: a text is split at the first occurrence of the separator.
* **`replace_eq_self_iff`**: replacing changes nothing exactly if the needle does not occur or is
  replaced by itself.
* **`count_replace_lt`**: replacing an occurrence uses up the characters of the needle.
* **`not_isInfix_replace`**: the needle does not occur in the result, if it has no character of what
  is put in; nor does anything else that did not occur before (`isInfix_of_isInfix_replace`). -/

namespace IngestPipeline.Text

/-! ### Prefixes and infixes around a character -/

/-- **The first character outside of a class** cuts a text in one way only. -/
theorem append_cons_inj {q : Char → Prop} {a b s t : List Char} {x y : Char}
    (ha : ∀ c ∈ a, q c) (hb : ∀ c ∈ b, q c) (hx : ¬ q x) (hy : ¬ q y)
    (h : a ++ x :: s = b ++ y :: t) : a = b ∧ x = y ∧ s = t := by
  induction a generalizing b with
  | nil =>
      cases b with
      | nil => simpa using h
      | cons d b =>
          obtain ⟨rfl, -⟩ := List.cons.inj h
          exact absurd (hb x List.mem_cons_self) hx
  | cons c a ih =>
      cases b with
      | nil =>
          obtain ⟨rfl, -⟩ := List.cons.inj h
          exact absurd (ha c List.mem_cons_self) hy
      | cons d b =>
          obtain ⟨rfl, htail⟩ := List.cons.inj h
          obtain ⟨rfl, hrest⟩ := ih (fun e he => ha e (List.mem_cons_of_mem _ he))
            (fun e he => hb e (List.mem_cons_of_mem _ he)) htail
          exact ⟨rfl, hrest⟩

/-- The first occurrence of a character cuts a text in one way only. -/
theorem append_cons_inj_of_notMem {a b s t : List Char} {d : Char} (ha : d ∉ a) (hb : d ∉ b)
    (h : a ++ d :: s = b ++ d :: t) : a = b ∧ s = t := by
  obtain ⟨hab, -, hst⟩ := append_cons_inj (fun c hc => ne_of_mem_of_not_mem hc ha)
    (fun c hc => ne_of_mem_of_not_mem hc hb) (fun hd => hd rfl) (fun hd => hd rfl) h
  exact ⟨hab, hst⟩

/-- A prefix without a certain character ends before the first of them. -/
theorem isPrefix_append_cons_iff {w a s : List Char} {b : Char} (hb : b ∉ w) :
    w <+: a ++ b :: s ↔ w <+: a := by
  constructor
  · rintro ⟨t, ht⟩
    obtain ⟨u, rfl, -⟩ | ⟨u, rfl, hu⟩ := List.append_eq_append_iff.1 ht
    · exact List.prefix_append w u
    · -- the needle would reach beyond the character
      cases u with
      | nil => simp
      | cons c u =>
          obtain ⟨rfl, -⟩ := List.cons.inj hu
          simp at hb
  · exact fun h => h.trans (List.prefix_append a _)

/-- **A character outside of the needle** lies in no occurrence of it. -/
theorem isInfix_append_cons_iff {w a s : List Char} {b : Char} (hb : b ∉ w) :
    w <:+: a ++ b :: s ↔ w <:+: a ∨ w <:+: s := by
  induction a with
  | nil =>
      have hstart : w <+: b :: s ↔ w <+: [] := isPrefix_append_cons_iff (a := []) hb
      rw [List.nil_append, List.infix_cons_iff, hstart, List.prefix_nil, List.infix_nil]
  | cons c a ih =>
      have hstart : w <+: c :: (a ++ b :: s) ↔ w <+: c :: a :=
        isPrefix_append_cons_iff (a := c :: a) hb
      rw [List.cons_append, List.infix_cons_iff, hstart, ih, List.infix_cons_iff, or_assoc]

/-- **A front that has no character of the needle** lies in no occurrence of it. -/
theorem isInfix_of_isInfix_append {w a s : List Char} (ha : ∀ c ∈ a, c ∉ w) (h : w <:+: a ++ s) :
    w <:+: s := by
  induction a with
  | nil => exact h
  | cons c a ih =>
      have hrest : ∀ d ∈ a, d ∉ w := fun d hd => ha d (List.mem_cons_of_mem c hd)
      have hc : c ∉ w := ha c List.mem_cons_self
      rw [List.cons_append, ← List.nil_append (c :: (a ++ s)), isInfix_append_cons_iff hc] at h
      rcases h with h | h
      · rw [List.infix_nil.1 h]
        exact List.nil_infix
      · exact ih hrest h

/-! ### The scan -/

/-- There is nothing behind a text that does not come first. -/
theorem after?_eq_none_iff {needle s : List Char} : after? needle s = none ↔ ¬ needle <+: s := by
  rw [Option.eq_none_iff_forall_ne_some]
  constructor
  · rintro h ⟨rest, hrest⟩
    exact h rest (after?_eq_some_iff.2 hrest.symm)
  · intro h rest hrest
    exact h ⟨rest, (after?_eq_some_iff.1 hrest).symm⟩

/-- **Induction along a scan**: the text is at its end, or at an occurrence of the needle, or at a
character where no occurrence begins. -/
theorem scan_induction {needle : List Char} (hne : needle ≠ []) {motive : List Char → Prop}
    (nil : motive []) (here : ∀ s, motive s → motive (needle ++ s))
    (later : ∀ c s, ¬ needle <+: c :: s → motive s → motive (c :: s)) (s : List Char) :
    motive s := by
  -- on the length of the text, since an occurrence is passed over as a whole
  induction hn : s.length using Nat.strong_induction_on generalizing s with
  | _ n ih =>
      by_cases hp : needle <+: s
      · obtain ⟨rest, rfl⟩ := hp
        have hpos := List.length_pos_iff.2 hne
        rw [List.length_append] at hn
        exact here rest (ih rest.length (by omega) rest rfl)
      · cases s with
        | nil => exact nil
        | cons c s =>
            rw [List.length_cons] at hn
            exact later c s hp (ih s.length (by omega) s rfl)

section Replace

variable {needle : List Char} (new : List Char)

/-- There is nothing to replace in the empty text. -/
@[simp] theorem replace_nil (hne : needle ≠ []) : replace needle new [] = [] := by
  obtain ⟨n, needle, rfl⟩ := List.exists_cons_of_ne_nil hne
  exact replace_empty_text n needle new

/-- An occurrence at the front is replaced. -/
@[simp] theorem replace_needle_append (hne : needle ≠ []) (s : List Char) :
    replace needle new (needle ++ s) = new ++ replace needle new s := by
  obtain ⟨n, needle, rfl⟩ := List.exists_cons_of_ne_nil hne
  have hfound : after? (n :: needle) (n :: (needle ++ s)) = some s := after?_eq_some_iff.2 rfl
  rw [replace, List.cons_append, replaceCons]
  split
  · rename_i rest hrest
    rw [hfound] at hrest
    rw [Option.some.inj hrest, replace]
  · rename_i hnone
    rw [hfound] at hnone
    cases hnone

/-- A character where no occurrence begins stays. -/
@[simp] theorem replace_cons_of_not_isPrefix {c : Char} {s : List Char} (h : ¬ needle <+: c :: s) :
    replace needle new (c :: s) = c :: replace needle new s := by
  have hne : needle ≠ [] := by
    rintro rfl
    exact h List.nil_prefix
  obtain ⟨n, needle, rfl⟩ := List.exists_cons_of_ne_nil hne
  have hnone := after?_eq_none_iff.2 h
  rw [replace, replaceCons]
  split
  · rename_i rest hrest
    rw [hnone] at hrest
    cases hrest
  · rw [replace]

/-- A needle of one character is exchanged character by character. -/
theorem replace_singleton (n : Char) (s : List Char) :
    replace [n] new s = s.flatMap fun c => if c = n then new else [c] := by
  induction s with
  | nil => simp
  | cons c s ih =>
      rw [List.flatMap_cons, ← ih]
      by_cases hc : c = n
      · rw [hc, if_pos rfl]
        exact replace_needle_append new (List.cons_ne_nil n []) s
      · have hstart : ¬ [n] <+: c :: s := by
          rw [List.cons_prefix_cons]
          exact fun h => hc h.1.symm
        rw [if_neg hc, replace_cons_of_not_isPrefix new hstart, List.singleton_append]

/-- A text without the needle stays as it is. -/
theorem replace_of_not_isInfix {s : List Char} (h : ¬ needle <:+: s) :
    replace needle new s = s := by
  induction s with
  | nil =>
      refine replace_nil new ?_
      rintro rfl
      exact h List.nil_infix
  | cons c s ih =>
      rw [List.infix_cons_iff, not_or] at h
      rw [replace_cons_of_not_isPrefix new h.1, ih h.2]

/-- **The first occurrence** is replaced, and the search goes on behind it. -/
theorem exists_replace_of_isInfix (hne : needle ≠ []) {s : List Char} (h : needle <:+: s) :
    ∃ u v, s = u ++ needle ++ v ∧
      replace needle new s = u ++ new ++ replace needle new v := by
  induction s with
  | nil => exact absurd (List.infix_nil.1 h) hne
  | cons c s ih =>
      by_cases hp : needle <+: c :: s
      · obtain ⟨v, hv⟩ := hp
        refine ⟨[], v, by simp [hv], ?_⟩
        rw [← hv, replace_needle_append new hne]
        rfl
      · obtain ⟨u, v, hs, hr⟩ := ih ((List.infix_cons_iff.1 h).resolve_left hp)
        refine ⟨c :: u, v, by simp [hs], ?_⟩
        rw [replace_cons_of_not_isPrefix new hp, hr]
        rfl

/-- Each replacement changes the length by the same amount. -/
theorem length_replace (hne : needle ≠ []) (s : List Char) :
    ∃ k, (needle <:+: s → 0 < k) ∧
      (replace needle new s).length + k * needle.length = s.length + k * new.length := by
  induction s using scan_induction hne with
  | nil => exact ⟨0, fun h => absurd (List.infix_nil.1 h) hne, by simp [hne]⟩
  | here s ih =>
      obtain ⟨k, -, hk⟩ := ih
      refine ⟨k + 1, fun _ => Nat.succ_pos k, ?_⟩
      rw [replace_needle_append new hne, List.length_append, List.length_append, Nat.succ_mul,
        Nat.succ_mul]
      omega
  | later c s hp ih =>
      obtain ⟨k, hpos, hk⟩ := ih
      refine ⟨k, fun h => hpos ((List.infix_cons_iff.1 h).resolve_left hp), ?_⟩
      rw [replace_cons_of_not_isPrefix new hp, List.length_cons, List.length_cons]
      omega

/-- A text that is replaced by itself stays. -/
@[simp] theorem replace_self (hne : needle ≠ []) (s : List Char) : replace needle needle s = s := by
  induction s using scan_induction hne with
  | nil => simp [hne]
  | here s ih => simp [hne, ih]
  | later c s hp ih => simp [hp, ih]

/-- **Replacing changes nothing** exactly if there is nothing to replace or the needle is put in its
own place. -/
theorem replace_eq_self_iff (hne : needle ≠ []) {s : List Char} :
    replace needle new s = s ↔ (needle <:+: s → new = needle) := by
  constructor
  · intro heq hin
    -- the lengths agree, so at the first occurrence the two texts can be compared
    obtain ⟨k, hpos, hlen⟩ := length_replace new hne s
    have hsame : new.length = needle.length := by
      rw [heq] at hlen
      exact (Nat.eq_of_mul_eq_mul_left (hpos hin) (Nat.add_left_cancel hlen)).symm
    obtain ⟨u, v, hs, hr⟩ := exists_replace_of_isInfix new hne hin
    rw [hr] at heq
    have hfront := heq.trans hs
    rw [List.append_assoc, List.append_assoc, List.append_cancel_left_eq] at hfront
    exact (List.append_inj hfront hsame).1
  · intro h
    by_cases hin : needle <:+: s
    · rw [h hin, replace_self hne]
    · exact replace_of_not_isInfix new hin

/-! ### What is in the result -/

/-- A character of the result comes from the text or from what is put in. -/
theorem mem_replace (hne : needle ≠ []) {s : List Char} {x : Char}
    (h : x ∈ replace needle new s) : x ∈ s ∨ x ∈ new := by
  induction s using scan_induction hne with
  | nil => simp [hne] at h
  | here s ih =>
      rw [replace_needle_append new hne, List.mem_append] at h
      rcases h with h | h
      · exact .inr h
      · exact (ih h).imp_left (List.mem_append_right needle)
  | later c s hp ih =>
      rw [replace_cons_of_not_isPrefix new hp, List.mem_cons] at h
      rcases h with rfl | h
      · exact .inl List.mem_cons_self
      · exact (ih h).imp_left (List.mem_cons_of_mem c)

/-- A character that is not put in does not become more frequent. -/
theorem count_replace_le (hne : needle ≠ []) {x : Char} (hx : x ∉ new) (s : List Char) :
    (replace needle new s).count x ≤ s.count x := by
  induction s using scan_induction hne with
  | nil => simp [hne]
  | here s ih =>
      rw [replace_needle_append new hne, List.count_append, List.count_append,
        List.count_eq_zero.2 hx]
      omega
  | later c s hp ih =>
      rw [replace_cons_of_not_isPrefix new hp, List.count_cons, List.count_cons]
      omega

/-- **A character of the needle** becomes less frequent where the needle occurs. -/
theorem count_replace_lt {x : Char} (hx : x ∉ new) (hneedle : x ∈ needle) {s : List Char}
    (h : needle <:+: s) : (replace needle new s).count x < s.count x := by
  have hne := List.ne_nil_of_mem hneedle
  obtain ⟨u, v, rfl, hr⟩ := exists_replace_of_isInfix new hne h
  have hv := count_replace_le new hne hx v
  have hpos := List.count_pos_iff.2 hneedle
  rw [hr, List.count_append, List.count_append, List.count_append, List.count_append,
    List.count_eq_zero.2 hx]
  omega

/-- A prefix that has no character of what is put in was a prefix before. -/
theorem isPrefix_of_isPrefix_replace (hne : needle ≠ []) (hnew : new ≠ []) {w s : List Char}
    (hw : ∀ c ∈ new, c ∉ w) (h : w <+: replace needle new s) : w <+: s := by
  induction s using scan_induction hne generalizing w with
  | nil => simpa [hne] using h
  | here s ih =>
      obtain ⟨n, new, rfl⟩ := List.exists_cons_of_ne_nil hnew
      rw [replace_needle_append _ hne, List.cons_append] at h
      rcases List.prefix_cons_iff.1 h with rfl | ⟨w, rfl, -⟩
      · exact List.nil_prefix
      · exact absurd List.mem_cons_self (hw n List.mem_cons_self)
  | later c s hp ih =>
      rw [replace_cons_of_not_isPrefix new hp] at h
      rcases List.prefix_cons_iff.1 h with rfl | ⟨w, rfl, hrest⟩
      · exact List.nil_prefix
      · have hw' : ∀ d ∈ new, d ∉ w := fun d hd hmem => hw d hd (List.mem_cons_of_mem c hmem)
        exact List.cons_prefix_cons.2 ⟨rfl, ih hw' hrest⟩

/-- **No occurrence arises around what is put in**: one that has no character of it was there
before. -/
theorem isInfix_of_isInfix_replace (hne : needle ≠ []) (hnew : new ≠ []) {w s : List Char}
    (hw : ∀ c ∈ new, c ∉ w) (h : w <:+: replace needle new s) : w <:+: s := by
  induction s using scan_induction hne with
  | nil => simpa [hne] using h
  | here s ih =>
      rw [replace_needle_append new hne] at h
      exact (ih (isInfix_of_isInfix_append hw h)).trans (List.suffix_append needle s).isInfix
  | later c s hp ih =>
      have hresult := replace_cons_of_not_isPrefix new hp
      rw [hresult] at h
      rcases List.infix_cons_iff.1 h with hstart | hlater
      · rw [← hresult] at hstart
        exact (isPrefix_of_isPrefix_replace new hne hnew hw hstart).isInfix
      · exact (ih hlater).trans (List.suffix_cons c s).isInfix

/-- **The needle is gone** from the result, if it has no character of what is put in. -/
theorem not_isInfix_replace (hne : needle ≠ []) (hnew : new ≠ []) (h : ∀ c ∈ new, c ∉ needle)
    (s : List Char) : ¬ needle <:+: replace needle new s := by
  induction s using scan_induction hne with
  | nil => simp [hne]
  | here s ih =>
      rw [replace_needle_append new hne]
      exact fun hin => ih (isInfix_of_isInfix_append h hin)
  | later c s hp ih =>
      have hresult := replace_cons_of_not_isPrefix new hp
      intro hin
      rw [hresult] at hin
      rcases List.infix_cons_iff.1 hin with hstart | hlater
      · rw [← hresult] at hstart
        exact hp (isPrefix_of_isPrefix_replace new hne hnew h hstart)
      · exact ih hlater

/-! ### Fronts that are passed over -/

/-- **A character outside of the needle** cuts the text in two parts that are searched apart. -/
theorem replace_append_cons {b : Char} (hne : needle ≠ []) (hb : b ∉ needle) (a s : List Char) :
    replace needle new (a ++ b :: s) = replace needle new a ++ b :: replace needle new s := by
  induction a using scan_induction hne with
  | nil =>
      have hstart : ¬ needle <+: b :: s := by
        rw [← List.nil_append (b :: s), isPrefix_append_cons_iff hb, List.prefix_nil]
        exact hne
      rw [List.nil_append, replace_cons_of_not_isPrefix new hstart, replace_nil new hne,
        List.nil_append]
  | here a ih =>
      rw [List.append_assoc, replace_needle_append new hne, replace_needle_append new hne, ih,
        List.append_assoc]
  | later c a hp ih =>
      have hstart : ¬ needle <+: c :: (a ++ b :: s) := by
        rwa [← List.cons_append, isPrefix_append_cons_iff hb]
      rw [List.cons_append, replace_cons_of_not_isPrefix new hstart,
        replace_cons_of_not_isPrefix new hp, ih, List.cons_append]

end Replace

/-- No occurrence of the needle in `a ++ s` begins in `a`. -/
def NoStart (needle a s : List Char) : Prop := ∀ u, u <:+ a → u ≠ [] → ¬ needle <+: u ++ s

namespace NoStart

variable {needle a s : List Char} {c : Char}

/-- The text does not begin at the front. -/
theorem not_isPrefix (h : NoStart needle (c :: a) s) : ¬ needle <+: c :: (a ++ s) :=
  h (c :: a) List.suffix_rfl (List.cons_ne_nil c a)

/-- It does not begin further on either. -/
theorem tail (h : NoStart needle (c :: a) s) : NoStart needle a s :=
  fun u hu => h u (hu.trans (List.suffix_cons c a))

/-- In the empty text nothing begins. -/
theorem nil : NoStart needle [] s := by
  intro u hu hne
  exact absurd (List.suffix_nil.1 hu) hne

/-- One more character, at which the text does not begin, can be put in front. -/
theorem cons (hc : ¬ needle <+: c :: (a ++ s)) (h : NoStart needle a s) :
    NoStart needle (c :: a) s := by
  intro u hu hne
  rcases List.suffix_cons_iff.1 hu with rfl | hu
  · exact hc
  · exact h u hu hne

/-- No occurrence lies within such a front. -/
theorem not_isInfix (hne : needle ≠ []) (h : NoStart needle a s) : ¬ needle <:+: a := by
  rintro ⟨x, y, rfl⟩
  refine h (needle ++ y) ⟨x, by simp⟩ ?_ ⟨y ++ s, by simp⟩
  exact List.append_ne_nil_of_left_ne_nil hne y

/-- An occurrence lies behind such a front. -/
theorem isSuffix {v : List Char} (h : NoStart needle a s) (hv : needle ++ v <:+ a ++ s) :
    needle ++ v <:+ s := by
  rcases List.suffix_or_suffix_of_suffix hv (List.suffix_append a s) with hs | ⟨w, hw⟩
  · exact hs
  · rw [← hw, List.suffix_append_self_iff] at hv
    by_cases hne : w = []
    · rw [← hw, hne]
      exact List.suffix_rfl
    · exact absurd (hw ▸ List.prefix_append needle v) (h w hv hne)

/-- An occurrence begins with the first character of the needle. -/
theorem of_notMem {n : Char} (h : n ∉ a) : NoStart (n :: needle) a s := by
  intro u hu hne hp
  obtain ⟨d, u, rfl⟩ := List.exists_cons_of_ne_nil hne
  obtain ⟨rfl, -⟩ := List.cons_prefix_cons.1 hp
  exact h (hu.subset List.mem_cons_self)

/-- A needle that ends with its only `d` does not begin in front of itself unless there is a `d`. -/
theorem of_terminated {w x : List Char} {d : Char} (hw : d ∉ w) (hx : d ∉ x) (y : List Char) :
    NoStart (w ++ [d]) x ((w ++ [d]) ++ y) := by
  rintro u hu hne ⟨t, ht⟩
  -- both the occurrence and the needle behind it end with the first `d`
  have hcut : w ++ d :: t = (u ++ w) ++ d :: y := by simpa using ht
  have hfront : d ∉ u ++ w := by
    rw [List.mem_append, not_or]
    exact ⟨fun hd => hx (hu.subset hd), hw⟩
  exact hne (List.self_eq_append_left.1 (append_cons_inj_of_notMem hw hfront hcut).1)

end NoStart

/-- Nothing is replaced in a part where the text does not begin. -/
theorem replace_append_of_noStart {needle a s : List Char} (new : List Char)
    (h : NoStart needle a s) : replace needle new (a ++ s) = a ++ replace needle new s := by
  induction a with
  | nil => rfl
  | cons c a ih =>
      rw [List.cons_append, replace_cons_of_not_isPrefix new h.not_isPrefix, ih h.tail,
        List.cons_append]

section Terminated

variable {w x : List Char} {d : Char} (new : List Char)

/-- A needle that ends with its only `d` occurs where the first `d` of a text ends a word with the
rest of the needle. -/
theorem replace_terminated (hw : d ∉ w) (hx : d ∉ x) (y : List Char) :
    replace (w ++ [d]) new (x ++ w ++ d :: y) = x ++ (new ++ replace (w ++ [d]) new y) := by
  have htext : x ++ w ++ d :: y = x ++ ((w ++ [d]) ++ y) := by simp
  rw [htext, replace_append_of_noStart new (NoStart.of_terminated hw hx y),
    replace_needle_append new (by simp)]

/-- Where the first `d` of a text does not end such a word, it is passed over. -/
theorem replace_terminated_of_not_isSuffix (hw : d ∉ w) (hx : d ∉ x) (h : ¬ w <:+ x)
    (y : List Char) :
    replace (w ++ [d]) new (x ++ d :: y) = x ++ d :: replace (w ++ [d]) new y := by
  have hstart : NoStart (w ++ [d]) (x ++ [d]) y := by
    rintro u hu hne ⟨t, ht⟩
    -- an occurrence that begins here ends with the first `d`
    obtain ⟨v, rfl, hv⟩ := (List.suffix_concat_iff.1 hu).resolve_left hne
    have hcut : w ++ d :: t = v ++ d :: y := by simpa using ht
    have hsame := (append_cons_inj_of_notMem hw (fun hd => hx (hv.subset hd)) hcut).1
    exact h (hsame ▸ hv)
  have htext : x ++ d :: y = (x ++ [d]) ++ y := by simp
  rw [htext, replace_append_of_noStart new hstart]
  simp

end Terminated

/-! ### Splitting -/

/-- A text in front is split off at once. -/
@[simp] theorem splitOnce_sep_append (sep s : List Char) :
    splitOnce sep (sep ++ s) = some ([], s) := by
  cases hs : sep ++ s with
  | nil =>
      obtain ⟨rfl, rfl⟩ := List.append_eq_nil_iff.1 hs
      rfl
  | cons c rest =>
      rw [splitOnce, after?_eq_some_iff.2 hs.symm]

/-- A part where the separator does not begin belongs to what is split off. -/
theorem splitOnce_append_of_noStart {sep a s : List Char} (h : NoStart sep a s) :
    splitOnce sep (a ++ s) = (splitOnce sep s).map fun parts => (a ++ parts.1, parts.2) := by
  induction a with
  | nil => simp
  | cons c a ih =>
      rw [List.cons_append, splitOnce, after?_eq_none_iff.2 h.not_isPrefix, ih h.tail]
      simp [Function.comp_def]

/-- **A text is split at the first occurrence** of the separator. -/
theorem splitOnce_eq_some_iff {sep s a b : List Char} :
    splitOnce sep s = some (a, b) ↔ s = a ++ sep ++ b ∧ NoStart sep a (sep ++ b) := by
  constructor
  · intro h
    refine ⟨eq_append_of_splitOnce h, ?_⟩
    induction s generalizing a with
    | nil =>
        obtain ⟨rest, -, he⟩ := Option.map_eq_some_iff.1 h
        cases he
        exact .nil
    | cons c s ih =>
        have hs := eq_append_of_splitOnce h
        rw [splitOnce] at h
        split at h
        · cases h
          exact .nil
        · rename_i hnone
          obtain ⟨parts, hp, he⟩ := Option.map_eq_some_iff.1 h
          cases he
          rw [after?_eq_none_iff, hs] at hnone
          exact .cons (by simpa using hnone) (ih hp)
  · rintro ⟨rfl, h⟩
    rw [List.append_assoc, splitOnce_append_of_noStart h, splitOnce_sep_append]
    simp

/-- The first occurrence of a separator cuts a text in one way only. -/
theorem append_sep_inj_of_noStart {sep a b a' b' : List Char} (h : NoStart sep a (sep ++ b))
    (h' : NoStart sep a' (sep ++ b')) (heq : a ++ sep ++ b = a' ++ sep ++ b') :
    a = a' ∧ b = b' := by
  have hcut : splitOnce sep (a ++ sep ++ b) = some (a, b) := splitOnce_eq_some_iff.2 ⟨rfl, h⟩
  rw [heq, splitOnce_eq_some_iff.2 ⟨rfl, h'⟩] at hcut
  cases hcut
  exact ⟨rfl, rfl⟩

/-- A separator that ends with its only `d` splits a text before the first `d` that ends it. -/
theorem splitOnce_terminated {w x : List Char} {d : Char} (hw : d ∉ w) (hx : d ∉ x)
    (y : List Char) : splitOnce (w ++ [d]) (x ++ w ++ d :: y) = some (x, y) := by
  have htext : x ++ w ++ d :: y = x ++ ((w ++ [d]) ++ y) := by simp
  rw [htext, splitOnce_append_of_noStart (NoStart.of_terminated hw hx y), splitOnce_sep_append]
  simp

/-- There is nothing to split at exactly if the separator does not occur. -/
theorem splitOnce_eq_none_iff {sep s : List Char} :
    splitOnce sep s = none ↔ ¬ sep <:+: s := by
  induction s with
  | nil =>
      rw [splitOnce, Option.map_eq_none_iff, after?_eq_none_iff, List.prefix_nil, List.infix_nil]
  | cons c s ih =>
      rw [splitOnce, List.infix_cons_iff, not_or, ← ih, ← after?_eq_none_iff]
      cases after? sep (c :: s) with
      | none => simp
      | some rest => simp

end IngestPipeline.Text
