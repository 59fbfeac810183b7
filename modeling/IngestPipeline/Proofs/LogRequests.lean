import IngestPipeline.CommandLine.Log
import Mathlib.Data.List.Basic

/-! # Requests that are answered

A log request is followed or refused, and then the run goes on. Only a request that cannot be read
to its end stops the run before it begins.

* **`LogReader.Answers`**: a reader follows a request or refuses it.
* **`LogReader.shown?_eq_none_iff`**: a run has events to show exactly if its request is answered.
* **`LogFilter.reader_answers`**: a request with one octet a character is answered, since every
  position in it lies between two characters. -/

namespace IngestPipeline

/-! ### Texts with one octet a character -/

namespace Text

/-- Every character of the text is encoded in one octet. -/
def SingleOctets (s : List Char) : Prop := ∀ c ∈ s, c.utf8Size = 1

namespace SingleOctets

variable {s t : List Char}

/-- So it is for every part of the text. -/
theorem of_subset (h : SingleOctets s) (hts : t ⊆ s) : SingleOctets t := fun c hc => h c (hts hc)

/-- There are as many octets as characters. -/
theorem octets_eq (h : SingleOctets s) : octets s = s.length := by
  induction s with
  | nil => rfl
  | cons c s ih =>
      rw [octets_cons, h c List.mem_cons_self, ih (h.of_subset (List.subset_cons_self c s)),
        List.length_cons, Nat.add_comm]

/-- **The text can be cut at every position.** -/
theorem cut?_eq (h : SingleOctets s) {n : Nat} (hn : n ≤ s.length) :
    cut? n s = some (s.take n, s.drop n) := by
  have hoctets : octets (s.take n) = n := by
    rw [(h.of_subset (List.take_subset n s)).octets_eq, List.length_take_of_le hn]
  calc
    cut? n s = cut? (octets (s.take n)) (s.take n ++ s.drop n) := by
      rw [hoctets, List.take_append_drop]
    _ = some (s.take n, s.drop n) := cut?_append _ _

/-- There is a part behind every position. -/
theorem behind?_eq (h : SingleOctets s) {n : Nat} (hn : n ≤ s.length) :
    behind? n s = some (s.drop n) := by
  rw [behind?, h.cut?_eq hn]
  rfl

/-- There is a part between any two positions. -/
theorem between?_eq (h : SingleOctets s) {m n : Nat} (hm : m ≤ s.length) (hn : n ≤ s.length) :
    between? m n s = some ((s.drop m).take (n - m)) := by
  have hrest : n - m ≤ (s.drop m).length := by
    rw [List.length_drop]
    omega
  rw [between?, h.behind?_eq hm, Option.bind_eq_bind, Option.bind_some,
    (h.of_subset (List.drop_subset m s)).cut?_eq hrest]
  rfl

end SingleOctets

/-- What is left of a text when it is trimmed was in it before. -/
theorem trim_subset (s : List Char) : trim s ⊆ s := by
  intro c hc
  rw [trim, trimRight, List.mem_reverse] at hc
  have hleft : c ∈ trimLeft s := List.mem_reverse.1 ((List.dropWhile_sublist _).subset hc)
  exact (List.dropWhile_sublist _).subset hleft

/-- A text does not grow when it is trimmed. -/
theorem length_trim_le (s : List Char) : (trim s).length ≤ s.length := by
  have hright : (trim s).length ≤ (trimLeft s).length := by
    rw [trim, trimRight, List.length_reverse]
    calc
      _ ≤ (trimLeft s).reverse.length := (List.dropWhile_sublist _).length_le
      _ = (trimLeft s).length := List.length_reverse
  exact Nat.le_trans hright (List.dropWhile_sublist _).length_le

/-- The parts of a text between separators were in it before. -/
theorem subset_of_mem_parts {sep : Char} {s part : List Char} (h : part ∈ parts sep s) :
    part ⊆ s := by
  induction s generalizing part with
  | nil =>
      obtain rfl : part = [] := List.mem_singleton.1 h
      exact List.nil_subset _
  | cons c s ih =>
      rw [parts] at h
      split at h
      · rcases List.mem_cons.1 h with rfl | h
        · exact List.nil_subset _
        · exact List.subset_cons_of_subset c (ih h)
      · split at h
        · rename_i first more hparts
          have hfirst : first ⊆ s := ih (by rw [hparts]; exact List.mem_cons_self)
          rcases List.mem_cons.1 h with rfl | h
          · exact List.cons_subset_cons c hfirst
          · have hmore : part ⊆ s := ih (by rw [hparts]; exact List.mem_cons_of_mem first h)
            exact List.subset_cons_of_subset c hmore
        · rename_i hparts
          exact absurd hparts (parts_ne_nil sep s)

end Text

namespace CommandLine

open Text (SingleOctets)

/-! ### Reading that returns -/

/-- A reading that is not aborted: it gives something, or is refused. -/
def Returns (x : Except LogError α) : Prop := x ≠ .error .aborted

namespace Returns

/-- A result was returned. -/
theorem ok (a : α) : Returns (.ok a) := (nomatch ·)

/-- A refusal was returned. -/
theorem refused : Returns (.error .refused : Except LogError α) := (nomatch ·)

/-- Two steps return if each does. -/
theorem bind {x : Except LogError α} {f : α → Except LogError β} (hx : Returns x)
    (hf : ∀ a, Returns (f a)) : Returns (x >>= f) := by
  cases x with
  | error e => exact fun h => hx (congrArg Except.error (Except.error.inj h))
  | ok a => exact hf a

/-- A function of what is returned is returned. -/
theorem map {x : Except LogError α} (hx : Returns x) (f : α → β) : Returns (x.map f) := by
  cases x with
  | error e => exact fun h => hx (congrArg Except.error (Except.error.inj h))
  | ok a => exact ok _

/-- What may be refused returns. -/
theorem ifNone_refused (o : Option α) : Returns (LogError.refused.ifNone o) := by
  cases o with
  | none => exact refused
  | some a => exact ok a

/-- What is there is no reason to abort. -/
theorem ifNone_some (e : LogError) (a : α) : Returns (e.ifNone (some a)) := ok a

/-- A traversal returns if it does so on every item. -/
theorem mapM {f : ι → Except LogError α} {xs : List ι} (h : ∀ x ∈ xs, Returns (f x)) :
    Returns (xs.mapM f) := by
  induction xs with
  | nil => exact ok []
  | cons x xs ih =>
      rw [List.mapM_cons]
      have hrest := ih fun y hy => h y (List.mem_cons_of_mem x hy)
      exact (h x List.mem_cons_self).bind fun _ => hrest.bind fun _ => ok _

end Returns

/-! ### Rules -/

namespace LogRule

variable {s : List Char} (h : SingleOctets s)
include h

/-- A part between two positions can be cut out. -/
theorem returns_partBetween {m n : Nat} (hm : m ≤ s.length) (hn : n ≤ s.length) :
    Returns (partBetween s m n) := by
  rw [partBetween, h.between?_eq hm hn]
  exact .ifNone_some _ _

/-- A topic can be cut out. -/
theorem returns_topicBefore {n : Nat} (hn : n ≤ s.length) : Returns (topicBefore s n) := by
  unfold topicBefore
  split
  · exact .ok none
  · exact (returns_partBetween h (Nat.zero_le _) hn).map _

/-- A level behind an equals sign can be cut out. -/
theorem returns_verbosityAt {n : Nat} (hn : n < s.length) : Returns (verbosityAt s n) := by
  rw [verbosityAt, partBehind, h.behind?_eq hn]
  exact (Returns.ifNone_some _ _).bind fun _ => .ifNone_refused _

/-- What follows the brackets is a level that can be cut out, or refused. -/
theorem returns_verbosityBehind {rest : List Char} {n : Nat} (hn : n + rest.length ≤ s.length) :
    Returns (verbosityBehind s rest n) := by
  unfold verbosityBehind
  split
  · exact .ok _
  · rw [List.length_cons] at hn
    exact returns_verbosityAt h (by omega)
  · exact .refused

/-- A field in braces can be cut out, and the level behind it. -/
theorem returns_bracedField {braced : List Char} {m : Nat} (hbraced : SingleOctets braced)
    (hm : m + 1 + braced.length ≤ s.length) : Returns (bracedField s braced m) := by
  unfold bracedField
  dsimp only
  generalize hcontent : braced.takeWhile (· != '\x7d') = content
  have hprefix : content <+: braced := hcontent ▸ List.takeWhile_prefix _
  obtain ⟨tail, rfl⟩ := hprefix
  rw [List.drop_left, (hbraced.of_subset (List.subset_append_left content tail)).octets_eq]
  rw [List.length_append] at hm
  split
  · rw [List.length_cons] at hm
    refine (returns_partBetween h (by omega) (by omega)).bind fun part => ?_
    refine (Returns.ifNone_refused _).bind fun field => ?_
    split
    · rw [List.length_cons] at hm
      refine (returns_verbosityBehind h (by omega)).bind fun v => .ok _
    · exact .refused
  · exact .refused

/-- A rule with a part in brackets returns. -/
theorem returns_bracketed {topic inside : List Char} {bracket : Char}
    (hword : SingleOctets (topic ++ bracket :: inside))
    (hlength : (topic ++ bracket :: inside).length ≤ s.length) :
    Returns (bracketed s topic inside) := by
  have htopic := (hword.of_subset (List.subset_append_left topic (bracket :: inside))).octets_eq
  have hinside : SingleOctets inside := by
    refine hword.of_subset ?_
    exact List.Subset.trans (List.subset_cons_self bracket inside)
      (List.subset_append_right topic _)
  rw [List.length_append, List.length_cons] at hlength
  unfold bracketed
  dsimp only
  -- every position in the rule is the length of a front of it
  generalize hscope : inside.takeWhile (fun c => c != ']' && c != '\x7b') = scope
  have hprefix : scope <+: inside := hscope ▸ List.takeWhile_prefix _
  obtain ⟨tail, rfl⟩ := hprefix
  rw [List.drop_left, htopic,
    (hinside.of_subset (List.subset_append_left scope tail)).octets_eq]
  rw [List.length_append] at hlength
  refine (returns_topicBefore h (by omega)).bind fun name => ?_
  split
  · rw [List.length_cons] at hlength
    refine (returns_partBetween h (by omega) (by omega)).bind fun _ => ?_
    exact (returns_verbosityBehind h (by omega)).bind fun _ => .ok _
  · rename_i braced
    rw [List.length_cons] at hlength
    have hbraced : SingleOctets braced := by
      refine hinside.of_subset ?_
      exact List.Subset.trans (List.subset_cons_self _ braced) (List.subset_append_right scope _)
    refine (returns_partBetween h (by omega) (by omega)).bind fun _ => ?_
    exact (returns_bracedField h hbraced (by omega)).bind fun _ => .ok _
  · exact .refused

/-- **A rule with one octet a character returns.** -/
theorem returns_ofText : Returns (ofText s) := by
  have hword : SingleOctets (Text.trim s) := h.of_subset (Text.trim_subset s)
  have hlength := Text.length_trim_le s
  unfold ofText
  dsimp only
  -- of the trimmed text only its length counts: it bounds every position in the other one
  generalize Text.trim s = word at hword hlength
  split
  · exact .refused
  generalize htopic : word.takeWhile (fun c => c != '=' && c != '[') = topic
  have hprefix : topic <+: word := htopic ▸ List.takeWhile_prefix _
  obtain ⟨tail, rfl⟩ := hprefix
  rw [List.drop_left, (hword.of_subset (List.subset_append_left topic tail)).octets_eq]
  have hlength' := hlength
  rw [List.length_append] at hlength'
  split
  · split
    · exact .ok _
    · exact .ok _
  · rw [List.length_cons] at hlength'
    refine (returns_partBetween h (by omega) (by omega)).bind fun _ => ?_
    exact (returns_verbosityAt h (by omega)).bind fun _ => .ok _
  · exact returns_bracketed h hword hlength

end LogRule

/-! ### Requests -/

/-- **A reader answers a request**: it follows the request or refuses it. A reader is meant to do
one of the two, whatever the request is. -/
def LogReader.Answers (logs : LogReader) (request : Option String) : Prop :=
  ∀ text, request = some text → Returns (logs.read text)

/-- Where nothing is requested, there is nothing to answer. -/
@[simp] theorem LogReader.answers_none (logs : LogReader) :
    logs.Answers none :=
  fun _ h => nomatch h

/-- **A run has events to show** exactly if its request is answered. -/
theorem LogReader.shown?_eq_none_iff {logs : LogReader} {request : Option String} {debug : Bool} :
    logs.shown? request debug = none ↔ ¬ logs.Answers request := by
  unfold shown? Answers
  cases request with
  | none => simp
  | some text =>
      cases hread : logs.read text with
      | ok shown => simp [hread, Returns]
      | error e => cases e <;> simp [hread, Returns]

/-- **A request with one octet a character is answered.** -/
theorem LogFilter.reader_answers {text : String} (h : SingleOctets text.toList) :
    LogFilter.reader.Answers (some text) := by
  rintro _ ⟨⟩
  refine Returns.map ?_ _
  refine Returns.bind (Returns.mapM fun part hpart => ?_) fun rules => .ok _
  have hparts := (List.mem_filter.1 hpart).1
  exact LogRule.returns_ofText (h.of_subset (Text.subset_of_mem_parts hparts))

/-- Other requests need not be: the blank in front of this one shifts a cut into a character. -/
example : LogFilter.ofText " é=debug" = .error .aborted := rfl

end CommandLine

end IngestPipeline
