import IngestPipeline.Proofs.DateTokens

/-! # Date formats as runs of letters

The pass over a date format looks up one letter group after the other in a table. The same
translation can be had without a table of groups: a run of one letter is **divided** among the
directives of the letter, the largest first, and what cannot be divided stays.

* **`directivesOf`**: the directives of a letter, each with the number of letters it takes.
* **`walk`**: a text cut into runs, literals, and characters and directives that are copied.
* **`lexed_divided`**: a run that ends is divided into the tokens that the pass finds in it.
* **`exists_lexed_walk`**: the tokens of a text and its pieces are written alike and leave the same
  letters over.
* **`ofSource_eq_ofRuns`**: both translations agree on every format that is no name. -/

namespace IngestPipeline.DateFormat

/-! ### The translation by runs -/

/-- The directives of a letter, each with the number of letters it takes, the largest first. -/
def directivesOf (c : Char) : List (Nat × String) :=
  match c with
  | 'y' => [(4, "%Y"), (2, "%y")]
  | 'M' => [(4, "%B"), (3, "%b"), (2, "%m"), (1, "%-m")]
  | 'E' => [(4, "%A"), (3, "%a")]
  | 'd' => [(2, "%d"), (1, "%-d")]
  | 'H' => [(2, "%H"), (1, "%-H")]
  | 'h' => [(2, "%I"), (1, "%-I")]
  | 'm' => [(2, "%M"), (1, "%-M")]
  | 's' => [(2, "%S"), (1, "%-S")]
  | 'a' => [(1, "%p")]
  | _ => []

/-- The directives that `n` letters are divided among. -/
def quotients : List (Nat × String) → Nat → List Char
  | [], _ => []
  | (size, directive) :: smaller, n =>
      (List.replicate (n / size) directive.toList).flatten ++ quotients smaller (n % size)

/-- The number of letters that are left over. -/
def leftover : List (Nat × String) → Nat → Nat
  | [], n => n
  | (size, _) :: smaller, n => leftover smaller (n % size)

/-- **A piece of a date format.** -/
inductive Piece where
  /-- All of `n` equal letters in a row. -/
  | run (c : Char) (n : Nat)
  /-- A quoted literal, as it is written between its quotes. -/
  | literal (body : List Char)
  /-- A directive, or a single character that is no letter. -/
  | copied (text : List Char)
  deriving DecidableEq, Repr

/-- The letters of a piece that are left over. -/
def Piece.bare : Piece → List Char
  | .run c n => List.replicate (leftover (directivesOf c) n) c
  | _ => []

/-- What a piece becomes in strftime notation. -/
def Piece.strftime : Piece → List Char
  | .run c n => quotients (directivesOf c) n ++ List.replicate (leftover (directivesOf c) n) c
  | .literal body =>
      if body.isEmpty then [quote]
      else Text.replace ['%'] ['%', '%'] (Text.replace [quote, quote] [quote] body)
  | .copied text => text

/-- Whether a text can stand between quotes: every quote in it is doubled. -/
def isBody : List Char → Bool
  | [] => true
  | c :: s =>
      if c = quote then
        match s with
        | d :: s' => d = quote && isBody s'
        | [] => false
      else isBody s

/-- The lengths of the bodies of all literals that an opening quote in front of `s` begins. -/
def closings (s : List Char) : List Nat :=
  (List.range s.length).filter fun n => isBody (s.take n) && s[n]? == some quote

/-- How much of `s` belongs to a directive that a percent sign in front of `s` begins. -/
def directiveLength : List Char → Nat
  | '-' :: c :: _ => if c.isAlpha || c = '%' then 2 else 0
  | c :: _ => if c.isAlpha || c = '%' then 1 else 0
  | [] => 0

/-- **The pieces of a text**, from left to right. Runs and literals are as long as possible. -/
def walk (s : List Char) : List Piece :=
  match s with
  | [] => []
  | c :: s =>
      if c.isAlpha then
        .run c ((s.takeWhile (· == c)).length + 1) :: walk (s.dropWhile (· == c))
      else if c = quote then
        match (closings s).max? with
        | some n => .literal (s.take n) :: walk (s.drop (n + 1))
        | none => .copied [c] :: walk s
      else if c = '%' then
        .copied (c :: s.take (directiveLength s)) :: walk (s.drop (directiveLength s))
      else .copied [c] :: walk s
termination_by s.length
decreasing_by
  · exact Nat.lt_succ_of_le (List.dropWhile_suffix _).length_le
  all_goals
    simp only [List.length_drop, List.length_cons]
    omega

/-- **The date format in strftime notation**, run by run. A letter that is left over is listed
once, where it occurs first. -/
def ofRuns (source : String) : DateFormat :=
  let pieces := walk source.toList
  { strftime := String.ofList (pieces.flatMap Piece.strftime)
    unsupported := (pieces.flatMap Piece.bare).eraseDups.map Char.toString }

/-! ### The two tables -/

/-- Every letter group of the table is a run that a directive of its letter takes. -/
theorem exists_directivesOf {e : String × String} (he : e ∈ directives) :
    ∃ c size, (size, e.2) ∈ directivesOf c ∧ e.1.toList = List.replicate size c := by
  have htable : ∀ e ∈ directives,
      (e.1.toList.length, e.2) ∈ directivesOf (e.1.toList.headD quote) ∧
        e.1.toList = List.replicate e.1.toList.length (e.1.toList.headD quote) := by decide
  exact ⟨_, _, htable e he⟩

/-- Every directive of a letter takes a letter group of the table. -/
theorem exists_mem_directives {c : Char} {size : Nat} {directive : String}
    (h : (size, directive) ∈ directivesOf c) :
    ∃ e ∈ directives, e.1.toList = List.replicate size c ∧ e.2 = directive := by
  have hall : ∀ u ∈ directivesOf c, ∃ e ∈ directives,
      e.1.toList = List.replicate u.1 c ∧ e.2 = u.2 := by
    unfold directivesOf
    split
    case h_10 => exact List.forall_mem_nil _
    all_goals decide
  exact hall _ h

/-- A directive stands for at least one letter. -/
theorem pos_of_mem_directivesOf {c : Char} {size : Nat} {directive : String}
    (h : (size, directive) ∈ directivesOf c) : 0 < size := by
  obtain ⟨e, he, hrun, -⟩ := exists_mem_directives h
  refine Nat.pos_of_ne_zero fun hzero => (isAlpha_of_mem_directives he).1 ?_
  rw [hrun, hzero]
  rfl

/-- The directives of a letter are ordered by size. -/
theorem pairwise_directivesOf (c : Char) :
    (directivesOf c).Pairwise fun u v => v.1 ≤ u.1 := by
  unfold directivesOf
  split <;> decide

/-! ### Runs -/

/-- A run at the front has no more letters than there are. -/
theorem le_of_replicate_isPrefix {c : Char} {k n : Nat} {rest : List Char}
    (hrest : rest.head? ≠ some c) (h : List.replicate k c <+: List.replicate n c ++ rest) :
    k ≤ n := by
  induction n generalizing k with
  | zero =>
      cases k with
      | zero => exact Nat.le_refl _
      | succ k =>
          obtain ⟨t, ht⟩ := h
          rw [List.replicate_zero, List.nil_append] at ht
          exact absurd (by rw [← ht]; rfl) hrest
  | succ n ih =>
      cases k with
      | zero => exact Nat.zero_le _
      | succ k =>
          rw [List.replicate_succ, List.replicate_succ, List.cons_append] at h
          exact Nat.succ_le_succ (ih (List.cons_prefix_cons.1 h).2)

/-- **A letter group in front of a run** is a part of the run that a directive takes. -/
theorem of_isPrefix_run {c : Char} {n : Nat} {rest : List Char} {e : String × String}
    (he : e ∈ directives) (hn : 0 < n) (hrest : rest.head? ≠ some c)
    (h : e.1.toList <+: List.replicate n c ++ rest) :
    ∃ size, (size, e.2) ∈ directivesOf c ∧ e.1.toList = List.replicate size c ∧ size ≤ n := by
  obtain ⟨d, size, hmem, hrun⟩ := exists_directivesOf he
  have hne := (isAlpha_of_mem_directives he).1
  have hd : d = c := by
    obtain ⟨n, rfl⟩ := Nat.exists_eq_add_one.2 hn
    cases size with
    | zero => exact absurd hrun hne
    | succ size =>
        rw [hrun, List.replicate_succ, List.replicate_succ, List.cons_append] at h
        exact (List.cons_prefix_cons.1 h).1
  subst hd
  exact ⟨size, hmem, hrun, le_of_replicate_isPrefix hrest (hrun ▸ h)⟩

/-- The tokens that `n` letters are divided into. -/
def divided (c : Char) : List (Nat × String) → Nat → List Token
  | [], n => List.replicate n (.letter c)
  | (size, directive) :: smaller, n =>
      List.replicate (n / size) (.group (List.replicate size c) directive.toList) ++
        divided c smaller (n % size)

/-- What the pieces of a run become: a directive for each quotient, and the letters left over. -/
@[simp] theorem flatMap_strftime_divided (c : Char) (us : List (Nat × String)) (n : Nat) :
    (divided c us n).flatMap Token.strftime =
      quotients us n ++ List.replicate (leftover us n) c := by
  induction us generalizing n with
  | nil => simp [divided, quotients, leftover, List.flatMap_replicate, Token.strftime]
  | cons u us ih =>
      rw [divided, List.flatMap_append, ih, quotients, leftover, List.append_assoc,
        List.flatMap_replicate]
      rfl

/-- The letters left over are those without a counterpart. -/
@[simp] theorem filterMap_unsupported?_divided (c : Char) (us : List (Nat × String)) (n : Nat) :
    (divided c us n).filterMap Token.unsupported? = List.replicate (leftover us n) c := by
  induction us generalizing n with
  | nil => exact List.filterMap_replicate_of_some rfl
  | cons u us ih =>
      rw [divided, List.filterMap_append, ih, leftover, List.filterMap_replicate_of_none rfl]
      rfl

section Divide

variable {c : Char} {rest : List Char} {larger : List (Nat × String)}

/-- Letters that no directive takes are left over. -/
theorem lexed_letters {ts : List Token} (hc : c.isAlpha = true) (hrest : rest.head? ≠ some c)
    (h : Lexed ts rest) {n : Nat} (hlarge : ∀ u ∈ directivesOf c, n < u.1) :
    Lexed (List.replicate n (.letter c) ++ ts) (List.replicate n c ++ rest) := by
  induction n with
  | zero => exact h
  | succ n ih =>
      rw [List.replicate_succ, List.replicate_succ]
      refine .cons (.letter hc fun e he hp => ?_) (ih fun u hu => Nat.lt_of_succ_lt (hlarge u hu))
      obtain ⟨size, hmem, -, hle⟩ := of_isPrefix_run he (Nat.succ_pos n) hrest hp
      exact absurd (hlarge _ hmem) (Nat.not_lt.2 hle)

/-- **The largest directive that the letters suffice for** is taken as often as they do. -/
theorem lexed_groups {ts : List Token} {smaller : List (Nat × String)} {size : Nat}
    {directive : String} (hrest : rest.head? ≠ some c)
    (hsplit : directivesOf c = larger ++ (size, directive) :: smaller) {q r : Nat}
    (hlarge : ∀ u ∈ larger, size * q + r < u.1) (h : Lexed ts (List.replicate r c ++ rest)) :
    Lexed (List.replicate q (.group (List.replicate size c) directive.toList) ++ ts)
      (List.replicate (size * q + r) c ++ rest) := by
  have hmem : (size, directive) ∈ directivesOf c := by simp [hsplit]
  obtain ⟨e, he, hrun, rfl⟩ := exists_mem_directives hmem
  rw [← hrun]
  induction q with
  | zero => simpa using h
  | succ q ih =>
      have hcount : size * (q + 1) + r = size + (size * q + r) := by
        rw [Nat.mul_succ]
        omega
      rw [hcount] at hlarge ⊢
      rw [List.replicate_succ, List.cons_append, List.replicate_add, ← hrun, List.append_assoc]
      refine .cons (.group he fun e' he' hp => ?_) (ih fun u hu => ?_)
      · -- a longer group would be one that the letters do not suffice for
        rw [hrun, ← List.append_assoc, ← List.replicate_add] at hp
        have hpos := pos_of_mem_directivesOf hmem
        obtain ⟨size', hmem', hrun', hle⟩ := of_isPrefix_run he' (by omega) hrest hp
        rw [hrun, hrun', List.length_replicate, List.length_replicate]
        have hsorted := pairwise_directivesOf c
        rw [hsplit, List.mem_append] at hmem'
        rw [hsplit, List.pairwise_append] at hsorted
        rcases hmem' with hmem' | hmem'
        · exact absurd (hlarge _ hmem') (Nat.not_lt.2 hle)
        · rcases List.mem_cons.1 hmem' with heq | hmem'
          · exact Nat.le_of_eq (Prod.mk.inj heq).1
          · exact (List.pairwise_cons.1 hsorted.2.1).1 _ hmem'
      · have := hlarge u hu
        omega

/-- **A run is divided into the tokens that the pass finds in it.** -/
theorem lexed_divided {ts : List Token} {smaller : List (Nat × String)} (hc : c.isAlpha = true)
    (hrest : rest.head? ≠ some c) (h : Lexed ts rest)
    (hsplit : directivesOf c = larger ++ smaller) {n : Nat} (hlarge : ∀ u ∈ larger, n < u.1) :
    Lexed (divided c smaller n ++ ts) (List.replicate n c ++ rest) := by
  -- on the directives that are left to be tried; the letters do not suffice for the others
  induction smaller generalizing larger n with
  | nil =>
      rw [List.append_nil] at hsplit
      exact lexed_letters hc hrest h (hsplit ▸ hlarge)
  | cons u smaller ih =>
      obtain ⟨size, directive⟩ := u
      have hmem : (size, directive) ∈ directivesOf c := by simp [hsplit]
      have hremainder : Lexed (divided c smaller (n % size) ++ ts)
          (List.replicate (n % size) c ++ rest) := by
        refine ih (hsplit.trans (List.append_cons larger _ smaller)) fun u hu => ?_
        rcases List.mem_append.1 hu with hu | hu
        · exact Nat.lt_of_le_of_lt (Nat.mod_le n size) (hlarge u hu)
        · rw [List.mem_singleton.1 hu]
          exact Nat.mod_lt n (pos_of_mem_directivesOf hmem)
      have hn : size * (n / size) + n % size = n := Nat.div_add_mod n size
      have hgroups := lexed_groups hrest hsplit (hn.symm ▸ hlarge) hremainder
      rw [hn] at hgroups
      rwa [divided, List.append_assoc]

end Divide

/-! ### Literals -/

/-- Texts are doubled part by part. -/
@[simp] theorem doubled_append (text text' : List Char) :
    doubled (text ++ text') = doubled text ++ doubled text' :=
  List.flatMap_append

/-- A text does not shrink when its quotes are doubled. -/
theorem length_le_length_doubled (text : List Char) : text.length ≤ (doubled text).length := by
  induction text with
  | nil => exact Nat.le_refl _
  | cons c text ih =>
      by_cases hc : c = quote
      · simp only [hc, doubled_quote_cons, List.length_cons]
        omega
      · simpa [hc] using ih

/-- Joining the doubled quotes gives the text back. -/
@[simp] theorem replace_doubled (text : List Char) :
    Text.replace [quote, quote] [quote] (doubled text) = text := by
  induction text with
  | nil => exact Text.replace_empty_text _ _ _
  | cons c text ih =>
      by_cases hc : c = quote
      · rw [hc, doubled_quote_cons]
        have hfront := Text.replace_needle_append [quote] (List.cons_ne_nil quote [quote])
          (doubled text)
        rw [ih] at hfront
        exact hfront
      · rw [doubled_cons_of_ne hc, Text.replace_cons_of_not_isPrefix, ih]
        intro hp
        exact hc (List.cons_prefix_cons.1 hp).1.symm

/-- A literal is written alike, be it read from its body or from its text. -/
theorem strftime_literal_doubled (text : List Char) :
    (Token.literal text).strftime = (Piece.literal (doubled text)).strftime := by
  rw [Token.strftime, Piece.strftime, replace_doubled]
  cases text with
  | nil => rfl
  | cons c text =>
      have hlen := length_le_length_doubled (c :: text)
      have hne : doubled (c :: text) ≠ [] := by
        intro hnil
        rw [hnil] at hlen
        exact absurd hlen (Nat.not_succ_le_zero _)
      simp [hne]

/-- The body of a literal is a doubled text. -/
theorem isBody_iff {s : List Char} : isBody s = true ↔ ∃ text, s = doubled text := by
  constructor
  · intro h
    fun_induction isBody s with
    | case1 => exact ⟨[], rfl⟩
    | case2 d s ih =>
        rw [Bool.and_eq_true, decide_eq_true_iff] at h
        obtain ⟨text, rfl⟩ := ih h.2
        exact ⟨quote :: text, by rw [doubled_quote_cons, h.1]⟩
    | case3 => cases h
    | case4 c s hc ih =>
        obtain ⟨text, rfl⟩ := ih h
        exact ⟨c :: text, (doubled_cons_of_ne hc text).symm⟩
  · rintro ⟨text, rfl⟩
    induction text with
    | nil => rfl
    | cons c text ih =>
        by_cases hc : c = quote
        · rw [hc, doubled_quote_cons, isBody, if_pos rfl]
          simpa using ih
        · rw [doubled_cons_of_ne hc, isBody.eq_def]
          simpa [hc] using ih

/-- **Where a literal can close**: behind every text that the quotes can enclose. -/
theorem mem_closings_iff {s : List Char} {n : Nat} :
    n ∈ closings s ↔ ∃ text rest, s = doubled text ++ quote :: rest ∧
      n = (doubled text).length := by
  rw [closings, List.mem_filter, List.mem_range, Bool.and_eq_true, isBody_iff, beq_iff_eq]
  constructor
  · rintro ⟨hn, ⟨text, htext⟩, hquote⟩
    have hdrop : s.drop n = quote :: s.drop (n + 1) := by
      rw [List.getElem?_eq_getElem hn] at hquote
      rw [List.drop_eq_getElem_cons hn, Option.some.inj hquote]
    refine ⟨text, s.drop (n + 1), ?_, ?_⟩
    · rw [← htext, ← hdrop, List.take_append_drop]
    · rw [← htext, List.length_take_of_le (Nat.le_of_lt hn)]
  · rintro ⟨text, rest, rfl, rfl⟩
    exact ⟨by simp, ⟨text, List.take_left⟩, by simp⟩

/-- **The last closing quote ends the longest literal.** -/
theorem fits_literal_of_max? {s : List Char} {n : Nat} (h : (closings s).max? = some n) :
    ∃ text, s.take n = doubled text ∧ s = doubled text ++ quote :: s.drop (n + 1) ∧
      (Token.literal text).Fits (s.drop (n + 1)) := by
  obtain ⟨hmem, hmax⟩ := List.max?_eq_some_iff.1 h
  obtain ⟨text, rest, rfl, rfl⟩ := mem_closings_iff.1 hmem
  have hdrop : (doubled text ++ quote :: rest).drop ((doubled text).length + 1) = rest := by simp
  rw [hdrop]
  refine ⟨text, List.take_left, rfl, .literal fun text' rest' heq => ?_⟩
  have hle := hmax _ (mem_closings_iff.2 ⟨text', rest', heq, rfl⟩)
  refine Nat.le_of_not_lt fun hlt => ?_
  -- a longer text between the quotes would be a longer body
  obtain ⟨more, rfl⟩ := isPrefix_of_doubled_append (Nat.le_of_lt hlt) heq
  have hmore := length_le_length_doubled more
  rw [doubled_append, List.length_append] at hle
  rw [List.length_append] at hlt
  omega

/-- Where no quote closes a literal, the quote stands for itself. -/
theorem fits_other_of_max? {s : List Char} (h : (closings s).max? = none) :
    (Token.other quote).Fits s := by
  have hnone : closings s = [] := List.max?_eq_none_iff.1 h
  refine .other isAlpha_quote (fun _ text rest heq => ?_) fun hpercent => ?_
  · have hmem := mem_closings_iff.2 ⟨text, rest, heq, rfl⟩
    rw [hnone] at hmem
    cases hmem
  · exact absurd hpercent quote_ne_percent

/-! ### Directives -/

/-- A directive is read by its length. -/
theorem directive?_eq_directiveLength (s : List Char) :
    directive? s = if directiveLength s = 0 then none
      else some (s.take (directiveLength s), s.drop (directiveLength s)) := by
  unfold directive? directiveLength
  split
  · rename_i c s
    by_cases hc : (c.isAlpha || decide (c = '%')) = true
    · simp only [if_pos hc]
      rfl
    · simp only [if_neg hc]
      rfl
  · rename_i c s _
    by_cases hc : (c.isAlpha || decide (c = '%')) = true
    · simp only [if_pos hc]
      rfl
    · simp only [if_neg hc]
      rfl
  · rfl

/-- A percent sign is copied together with the rest of the directive that it begins, if any. -/
theorem exists_fits_percent (s : List Char) :
    ∃ t : Token, t.Fits (s.drop (directiveLength s)) ∧
      t.source = '%' :: s.take (directiveLength s) ∧ t.strftime = t.source ∧
      t.unsupported? = none := by
  have hreader := directive?_eq_directiveLength s
  by_cases hzero : directiveLength s = 0
  · rw [if_pos hzero] at hreader
    rw [hzero]
    refine ⟨.other '%', .other (by decide) (fun h => ?_) fun _ => ?_, rfl, rfl, rfl⟩
    · exact absurd h.symm quote_ne_percent
    · exact directive?_eq_none_iff.1 hreader
  · rw [if_neg hzero] at hreader
    obtain ⟨hdirective, -⟩ := directive?_eq_some_iff.1 hreader
    exact ⟨.directive _, .directive hdirective, rfl, rfl, rfl⟩

/-! ### The walk -/

/-- **Tokens and pieces agree** if they are written alike and leave the same letters over. -/
structure Agree (ts : List Token) (ps : List Piece) : Prop where
  strftime : ts.flatMap Token.strftime = ps.flatMap Piece.strftime
  bare : ts.filterMap Token.unsupported? = ps.flatMap Piece.bare

/-- Tokens that agree with a piece can be put in front of tokens that agree with the others. -/
theorem Agree.append {ts ts' : List Token} {p : Piece} {ps : List Piece}
    (hstrftime : ts.flatMap Token.strftime = p.strftime)
    (hbare : ts.filterMap Token.unsupported? = p.bare) (h : Agree ts' ps) :
    Agree (ts ++ ts') (p :: ps) := by
  constructor
  · rw [List.flatMap_append, hstrftime, h.strftime, List.flatMap_cons]
  · rw [List.filterMap_append, hbare, h.bare, List.flatMap_cons]

/-- A letter and the letters like it behind it are a run that ends. -/
theorem cons_eq_run_append (c : Char) (s : List Char) :
    c :: s = List.replicate ((s.takeWhile (· == c)).length + 1) c ++ s.dropWhile (· == c) ∧
      (s.dropWhile (· == c)).head? ≠ some c := by
  constructor
  · have hrun : s.takeWhile (· == c) = List.replicate (s.takeWhile (· == c)).length c := by
      refine List.eq_replicate_iff.2 ⟨rfl, fun d hd => ?_⟩
      exact beq_iff_eq.1 (List.all_eq_true.1 List.all_takeWhile d hd)
    rw [List.replicate_succ, List.cons_append, ← hrun, List.takeWhile_append_dropWhile]
  · intro hhead
    have hnot := List.head?_dropWhile_not (· == c) s
    rw [hhead] at hnot
    simp at hnot

/-- **The tokens of a text agree with its pieces.** -/
theorem exists_lexed_walk (s : List Char) : ∃ ts, Lexed ts s ∧ Agree ts (walk s) := by
  fun_induction walk s with
  | case1 => exact ⟨[], .nil, rfl, rfl⟩
  | case2 c s hc ih =>
      obtain ⟨ts, hlexed, hagree⟩ := ih
      -- a whole run of one letter is divided at once
      obtain ⟨hs, hend⟩ := cons_eq_run_append c s
      rw [hs]
      have hall : directivesOf c = [] ++ directivesOf c := rfl
      refine ⟨_, lexed_divided hc hend hlexed hall (List.forall_mem_nil _), .append ?_ ?_ hagree⟩
      · exact flatMap_strftime_divided c _ _
      · exact filterMap_unsupported?_divided c _ _
  | case3 s n hmax _ ih =>
      obtain ⟨ts, hlexed, hagree⟩ := ih
      -- the last quote that can close this one ends the literal
      obtain ⟨text, hbody, hs, hfits⟩ := fits_literal_of_max? hmax
      refine ⟨[.literal text] ++ ts, ?_, .append ?_ rfl hagree⟩
      · have hsource : quote :: s = (Token.literal text).source ++ s.drop (n + 1) := by
          rw [Token.source, List.append_assoc, List.singleton_append, List.cons_append, ← hs]
        rw [hsource]
        exact .cons hfits hlexed
      · rw [List.flatMap_singleton, hbody, strftime_literal_doubled]
  -- no quote can close this one, so it stands alone
  | case4 s hmax _ ih =>
      obtain ⟨ts, hlexed, hagree⟩ := ih
      exact ⟨[.other quote] ++ ts, .cons (fits_other_of_max? hmax) hlexed, .append rfl rfl hagree⟩
  | case5 s _ _ ih =>
      obtain ⟨ts, hlexed, hagree⟩ := ih
      obtain ⟨t, hfits, hsource, hstrftime, hbare⟩ := exists_fits_percent s
      refine ⟨[t] ++ ts, ?_, .append ?_ ?_ hagree⟩
      · have hs : '%' :: s = t.source ++ s.drop (directiveLength s) := by
          rw [hsource, List.cons_append, List.take_append_drop]
        rw [hs]
        exact .cons hfits hlexed
      · rw [List.flatMap_singleton, hstrftime, hsource, Piece.strftime]
      · rw [List.filterMap_cons, hbare]
        rfl
  | case6 c s hc hquote hpercent ih =>
      obtain ⟨ts, hlexed, hagree⟩ := ih
      have hfits : (Token.other c).Fits s := .other (Bool.not_eq_true _ ▸ hc)
        (fun h => absurd h hquote) fun h => absurd h hpercent
      exact ⟨[.other c] ++ ts, .cons hfits hlexed, .append rfl rfl hagree⟩

/-- **The pass is a division of runs**: for every format that is no name, looking up one letter
group after the other and dividing whole runs of letters give the same strftime text and the same
list of letters without a directive. -/
theorem ofSource_eq_ofRuns {source : String} (h : isNamed source = false) :
    ofSource source = ofRuns source := by
  obtain ⟨ts, hlexed, hagree⟩ := exists_lexed_walk source.toList
  rw [ofSource, h, if_neg Bool.false_ne_true, lexed_iff.1 hlexed, ofRuns]
  dsimp only
  rw [hagree.strftime, hagree.bare]

/-- Runs of several letters, a directive in the source, and quotes within quotes. -/
theorem ofSource_eq_ofRuns_mixedRuns :
    isNamed "MMMMMMMEEEEE%yyyy'o''M'' SSa'" = false ∧
      ofRuns "MMMMMMMEEEEE%yyyy'o''M'' SSa'" =
        ⟨"%B%b%AE%y%yyo'M' SSa", ["E", "y"]⟩ := by
  have hnamed : isNamed "MMMMMMMEEEEE%yyyy'o''M'' SSa'" = false := by decide
  refine ⟨hnamed, ?_⟩
  rw [← ofSource_eq_ofRuns hnamed]
  decide +kernel

end IngestPipeline.DateFormat
