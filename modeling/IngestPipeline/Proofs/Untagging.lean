import IngestPipeline.Proofs.Encoding
import IngestPipeline.Proofs.ValueEquality

/-! # Values without tags

Removing the tags of a value may make keys of a mapping equal that were distinct before, at any
depth and in keys within keys. The mapping is built anew, and this file says what it becomes.

* **`Assoc.Coalesces`**: a list of pairs in which keys that compare as equal share one entry. It is
  what a list of insertions makes if the comparison is an equivalence among the keys
  (`coalesces_iff_eq_ofList`).
* **`Value.Untagged`**: what a value is without its tags, node by node.
* **`everywhere_stripTags`**: the nodes of a value without tags are leaves, sequences, and mappings
  made by insertions.
* **`stripTags_exact`**: tags are removed, and nothing else is changed. -/

namespace IngestPipeline

/-! ### Keys that compare as equal -/

namespace Assoc

variable {κ : Type u} {α : Type v} [BEq κ]

/-- **The comparison is an equivalence** among the given keys. -/
structure EquivOn (ks : List κ) : Prop where
  /-- A key is equal to itself. -/
  refl : ∀ a ∈ ks, (a == a) = true
  /-- Equality does not depend on the order of comparison. -/
  symm : ∀ a ∈ ks, ∀ b ∈ ks, (a == b) = true → (b == a) = true
  /-- Keys that are equal to one key are equal. -/
  trans : ∀ a ∈ ks, ∀ b ∈ ks, ∀ c ∈ ks, (a == b) = true → (b == c) = true → (a == c) = true

/-- It is one among fewer keys. -/
theorem EquivOn.filter {e : κ × α} {es : List (κ × α)} (h : EquivOn ((e :: es).map Prod.fst))
    (p : κ × α → Bool) : EquivOn ((es.filter p).map Prod.fst) := by
  have hsub : (es.filter p).map Prod.fst ⊆ (e :: es).map Prod.fst :=
    List.map_subset _ fun f hf => List.mem_cons_of_mem e (List.mem_of_mem_filter hf)
  exact ⟨fun a ha => h.refl a (hsub ha), fun a ha b hb => h.symm a (hsub ha) b (hsub hb),
    fun a ha b hb c hc => h.trans a (hsub ha) b (hsub hb) c (hsub hc)⟩

/-- **Keys that compare as equal share one entry**: the keys of `es`, each in the form and in the
place of its first occurrence, with the value of its last. -/
structure Coalesces (es fs : List (κ × α)) : Prop where
  /-- The keys are those of `es`, the first of each. -/
  keys : fs.map Prod.fst = (es.map Prod.fst).eraseDups
  /-- Each value is the last under a key equal to its own. -/
  last : ∀ f ∈ fs, ∃ front k rest, es = front ++ (k, f.2) :: rest ∧ (f.1 == k) = true ∧
    ∀ e ∈ rest, (f.1 == e.1) = false

/-- Keys can be brought together in one way only. -/
theorem Coalesces.unique {es fs fs' : List (κ × α)} (h : Coalesces es fs)
    (h' : Coalesces es fs') : fs = fs' := by
  -- keys and values can both be read off `es`
  have hread : ∀ us : List (κ × α), Coalesces es us → (us.map fun f => (f.1, some f.2)) =
      (es.map Prod.fst).eraseDups.map fun k =>
        (k, (es.reverse.find? fun e => k == e.1).map Prod.snd) := by
    intro us hus
    rw [← hus.keys, List.map_map]
    refine List.map_congr_left fun f hf => ?_
    obtain ⟨front, k, rest, hes, hk, hrest⟩ := hus.last f hf
    have hfind : es.reverse.find? (fun e => f.1 == e.1) = some (k, f.2) := by
      rw [List.find?_eq_some_iff_append]
      refine ⟨hk, rest.reverse, front.reverse, by simp [hes], fun e he => ?_⟩
      rw [hrest e (List.mem_reverse.1 he)]
      rfl
    simp [hfind]
  have hinj : Function.Injective fun f : κ × α => (f.1, some f.2) := by
    rintro ⟨k, a⟩ ⟨k', a'⟩ heq
    simpa using heq
  exact List.map_injective_iff.2 hinj ((hread fs h).trans (hread fs' h').symm)

/-- What an insertion leaves is the old keys and values and the new ones. -/
theorem forall_mem_insert {P : κ → Prop} {Q : α → Prop} {k : κ} {a : α} {es : List (κ × α)}
    (hk : P k) (ha : Q a) (h : ∀ e ∈ es, P e.1 ∧ Q e.2) : ∀ e ∈ insert k a es, P e.1 ∧ Q e.2 := by
  induction es with
  | nil => exact List.forall_mem_singleton.2 ⟨hk, ha⟩
  | cons e es ih =>
      obtain ⟨he, hothers⟩ := List.forall_mem_cons.1 h
      rw [insert]
      split
      · exact List.forall_mem_cons.2 ⟨⟨he.1, ha⟩, hothers⟩
      · exact List.forall_mem_cons.2 ⟨he, ih hothers⟩

/-- What a list of insertions holds comes from the list. -/
theorem forall_mem_ofList {P : κ → Prop} {Q : α → Prop} {es : List (κ × α)}
    (h : ∀ e ∈ es, P e.1 ∧ Q e.2) : ∀ e ∈ ofList es, P e.1 ∧ Q e.2 := by
  induction es using List.reverseRecOn with
  | nil => exact List.forall_mem_nil _
  | append_singleton es e ih =>
      rw [List.forall_mem_append, List.forall_mem_singleton] at h
      rw [ofList_concat]
      exact forall_mem_insert h.2.1 h.2.2 (ih h.1)

/-- Insertions add no key of their own. -/
theorem fst_mem_of_mem_ofList {es : List (κ × α)} {f : κ × α} (hf : f ∈ ofList es) :
    f.1 ∈ es.map Prod.fst :=
  (forall_mem_ofList (Q := fun _ => True) (fun _ he => ⟨List.mem_map_of_mem he, trivial⟩) f hf).1

/-- **No two keys are equal** after a list of insertions. -/
theorem pairwise_ofList (es : List (κ × α)) :
    (ofList es).Pairwise fun e f => (e.1 == f.1) = false := by
  rw [← List.pairwise_map (f := Prod.fst) (R := fun a b : κ => (a == b) = false)]
  induction es using List.reverseRecOn with
  | nil => exact List.Pairwise.nil
  | append_singleton es e ih =>
      rw [ofList_concat, map_fst_insert]
      cases hkey : hasKey e.1 (ofList es) with
      | true => simpa using ih
      | false =>
          rw [hasKey, List.any_eq_false] at hkey
          rw [if_neg Bool.false_ne_true, List.pairwise_append]
          refine ⟨ih, List.pairwise_singleton _ _, fun a ha b hb => ?_⟩
          obtain ⟨f, hf, rfl⟩ := List.mem_map.1 ha
          rw [List.mem_singleton.1 hb]
          simpa using hkey f hf

/-- Distinct keys are left as they are. -/
@[simp] theorem ofList_of_pairwise {es : List (κ × α)}
    (h : es.Pairwise fun e f => (e.1 == f.1) = false) : ofList es = es := by
  induction es using List.reverseRecOn with
  | nil => rfl
  | append_singleton es e ih =>
      obtain ⟨hes, -, hnew⟩ := List.pairwise_append.1 h
      have hkey : hasKey e.1 es = false := by
        rw [hasKey, List.any_eq_false]
        intro f hf
        rw [hnew f hf e (List.mem_singleton_self e)]
        exact Bool.false_ne_true
      rw [ofList_concat, ih hes, insert_of_hasKey_eq_false hkey]

/-! ### Insertions, key by key -/

/-- **Induction along the keys**: the first is removed from all of the rest. -/
theorem firstKey_induction {motive : List (κ × α) → Prop} (nil : motive [])
    (cons : ∀ e es, motive (es.filter fun f => !e.1 == f.1) → motive (e :: es))
    (es : List (κ × α)) : motive es := by
  induction hn : es.length using Nat.strongRecOn generalizing es with
  | _ n ih =>
      cases es with
      | nil => exact nil
      | cons e es =>
          have hlen : (es.filter fun f => !e.1 == f.1).length < n := by
            rw [← hn, List.length_cons]
            exact Nat.lt_succ_of_le (List.length_filter_le _ _)
          exact cons e es (ih _ hlen _ rfl)

/-- **The first key** stays in front and takes the last value given to a key that is equal to it;
the other keys are inserted without regard to it. -/
theorem ofList_cons (e : κ × α) (es : List (κ × α)) :
    ofList (e :: es) = (e.1, es.foldl (fun a f => if e.1 == f.1 then f.2 else a) e.2) ::
      ofList (es.filter fun f => !e.1 == f.1) := by
  have h : ∀ (a : α) (acc : List (κ × α)),
      es.foldl (fun acc f => insert f.1 f.2 acc) ((e.1, a) :: acc) =
        (e.1, es.foldl (fun a f => if e.1 == f.1 then f.2 else a) a) ::
          (es.filter fun f => !e.1 == f.1).foldl (fun acc f => insert f.1 f.2 acc) acc := by
    induction es with
    | nil => exact fun a acc => rfl
    | cons f es ih =>
        intro a acc
        rw [List.foldl_cons, List.foldl_cons, insert]
        cases hf : e.1 == f.1 with
        | true => simp [hf, ih]
        | false => simp [hf, ih]
  exact h e.2 []

/-- **Keys keep their first form and position.** -/
theorem map_fst_ofList_of_equivOn {es : List (κ × α)} (h : EquivOn (es.map Prod.fst)) :
    (ofList es).map Prod.fst = (es.map Prod.fst).eraseDups := by
  induction es using firstKey_induction with
  | nil => rfl
  | cons e es ih =>
      have hcomm : ∀ f ∈ es, (!e.1 == f.1) = !f.1 == e.1 := by
        intro f hf
        have he : e.1 ∈ (e :: es).map Prod.fst := List.mem_map_of_mem List.mem_cons_self
        have hf : f.1 ∈ (e :: es).map Prod.fst := List.mem_map_of_mem (List.mem_cons_of_mem e hf)
        rw [Bool.eq_iff_iff.2 ⟨h.symm _ he _ hf, h.symm _ hf _ he⟩]
      rw [ofList_cons, List.map_cons, List.map_cons, List.eraseDups_cons, ih (h.filter _),
        List.filter_map, List.filter_congr hcomm]
      rfl

/-- The last value given to a key that is equal to the first. -/
theorem exists_last {k : κ} (hk : (k == k) = true) (a : α) (es : List (κ × α)) :
    ∃ front k' rest, (k, a) :: es =
        front ++ (k', es.foldl (fun a f => if k == f.1 then f.2 else a) a) :: rest ∧
      (k == k') = true ∧ ∀ f ∈ rest, (k == f.1) = false := by
  induction es using List.reverseRecOn with
  | nil => exact ⟨[], k, [], rfl, hk, List.forall_mem_nil _⟩
  | append_singleton es e ih =>
      rw [List.foldl_append, List.foldl_cons, List.foldl_nil]
      cases he : k == e.1 with
      | true => exact ⟨(k, a) :: es, e.1, [], rfl, he, List.forall_mem_nil _⟩
      | false =>
          obtain ⟨front, k', rest, heq, hk', hrest⟩ := ih
          refine ⟨front, k', rest ++ [e], ?_, hk', ?_⟩
          · rw [if_neg Bool.false_ne_true, ← List.cons_append, heq]
            simp
          · rw [List.forall_mem_append, List.forall_mem_singleton]
            exact ⟨hrest, he⟩

/-- An entry that is the last for a key among those unlike another key is the last among all. -/
theorem exists_last_of_filter {a b k : κ} {v : α} {es front rest : List (κ × α)}
    (hes : es.filter (fun f => !a == f.1) = front ++ (k, v) :: rest)
    (hrest : ∀ f ∈ rest, (b == f.1) = false)
    (hother : ∀ f ∈ es, (a == f.1) = true → (b == f.1) = false) :
    ∃ front' rest', es = front' ++ (k, v) :: rest' ∧ ∀ f ∈ rest', (b == f.1) = false := by
  obtain ⟨front', tail, rfl, -, htail⟩ := List.filter_eq_append_iff.1 hes
  obtain ⟨skipped, rest', rfl, -, -, rfl⟩ := List.filter_eq_cons_iff.1 htail
  refine ⟨front' ++ skipped, rest', by simp, fun f hf => ?_⟩
  cases hf' : a == f.1 with
  | true => exact hother f (by simp [hf]) hf'
  | false => exact hrest f (List.mem_filter.2 ⟨hf, by simp [hf']⟩)

/-- **Keys take their last value.** -/
theorem last_of_mem_ofList {es : List (κ × α)} (h : EquivOn (es.map Prod.fst)) :
    ∀ f ∈ ofList es, ∃ front k rest, es = front ++ (k, f.2) :: rest ∧ (f.1 == k) = true ∧
      ∀ e ∈ rest, (f.1 == e.1) = false := by
  induction es using firstKey_induction with
  | nil => exact List.forall_mem_nil _
  | cons e es ih =>
      have he : e.1 ∈ (e :: es).map Prod.fst := List.mem_map_of_mem List.mem_cons_self
      have hmem : ∀ f ∈ es, f.1 ∈ (e :: es).map Prod.fst :=
        fun f hf => List.mem_map_of_mem (List.mem_cons_of_mem e hf)
      rw [ofList_cons]
      refine List.forall_mem_cons.2 ⟨exists_last (h.refl e.1 he) e.2 es, fun f hf => ?_⟩
      obtain ⟨front, k, rest, hes, hk, hrest⟩ := ih (h.filter _) f hf
      -- the key is that of an entry unlike the first, and so is every key equal to it
      obtain ⟨f', hf', hkey⟩ := List.mem_map.1 (fst_mem_of_mem_ofList hf)
      obtain ⟨hf', hne⟩ := List.mem_filter.1 hf'
      have hother : ∀ g ∈ es, (e.1 == g.1) = true → (f.1 == g.1) = false := by
        intro g hg heg
        rw [← hkey]
        by_contra hfg
        rw [Bool.not_eq_false] at hfg
        have hgf := h.symm _ (hmem f' hf') _ (hmem g hg) hfg
        rw [h.trans _ he _ (hmem g hg) _ (hmem f' hf') heg hgf] at hne
        cases hne
      obtain ⟨front', rest', heq, hrest'⟩ := exists_last_of_filter hes hrest hother
      exact ⟨e :: front', k, rest', by rw [heq]; rfl, hk, hrest'⟩

/-- **A list of insertions** brings equal keys together, and nothing else does. -/
theorem coalesces_iff_eq_ofList {es fs : List (κ × α)} (h : EquivOn (es.map Prod.fst)) :
    Coalesces es fs ↔ fs = ofList es := by
  have hofList : Coalesces es (ofList es) := ⟨map_fst_ofList_of_equivOn h, last_of_mem_ofList h⟩
  constructor
  · exact fun hfs => hfs.unique hofList
  · rintro rfl
    exact hofList

end Assoc

/-! ### Removing tags -/

namespace Value

/-- **A value without its tags**, node by node. -/
inductive Untagged : Value → Value → Prop
  /-- A leaf stays as it is. -/
  | leaf {v : Value} (h : v.isLeaf = true) : Untagged v v
  /-- A tag is left out. -/
  | tagged {tag : String} {v w : Value} (h : Untagged v w) : Untagged (.tagged tag v) w
  /-- The items of a sequence keep their number and order. -/
  | seq {xs ys : List Value} (h : List.Forall₂ Untagged xs ys) : Untagged (.seq xs) (.seq ys)
  /-- So do the entries of a mapping, before keys that have become equal share one entry. -/
  | map {es us fs : List (Value × Value)}
      (hkeys : List.Forall₂ Untagged (es.map Prod.fst) (us.map Prod.fst))
      (hvalues : List.Forall₂ Untagged (es.map Prod.snd) (us.map Prod.snd))
      (hshared : Assoc.Coalesces us fs) : Untagged (.map es) (.map fs)

/-- **The nodes of a value without tags**: leaves, sequences, and mappings made by insertions. -/
theorem everywhere_stripTags {p : Value → Prop} (hleaf : ∀ v, v.isLeaf = true → p v)
    (hseq : ∀ xs, p (.seq xs)) (hmap : ∀ es, p (.map (Assoc.ofList es))) (v : Value) :
    v.stripTags.Everywhere p := by
  induction v using nodeInduction with
  | seq xs ih =>
      rw [stripTags, stripItems_eq_map, everywhere_seq_iff]
      exact ⟨hseq _, List.forall_mem_map.2 ih⟩
  | map es ih =>
      rw [stripTags, stripEntries_eq_map, everywhere_map_iff]
      exact ⟨hmap _, Assoc.forall_mem_ofList (List.forall_mem_map.2 ih)⟩
  | tagged tag v ih => rwa [stripTags]
  | _ => exact (everywhere_iff_of_isLeaf rfl).2 (hleaf _ rfl)

/-- Nothing keeps its tag. -/
@[simp] theorem tagFree_stripTags (v : Value) : v.stripTags.TagFree := by
  refine everywhere_stripTags ?_ ?_ ?_ v
  · rintro v hv tag content rfl
    cases hv
  · rintro xs tag content ⟨⟩
  · rintro es tag content ⟨⟩

/-- Distinctness is not kept but made anew. -/
@[simp] theorem wellKeyed_stripTags (v : Value) : v.stripTags.WellKeyed := by
  refine everywhere_stripTags ?_ ?_ ?_ v
  · rintro v hv es rfl
    cases hv
  · rintro xs es ⟨⟩
  · rintro es _ ⟨⟩
    exact Assoc.pairwise_ofList es

/-- **What has no tags and distinct keys** stays as it is. -/
@[simp] theorem stripTags_of_tagFree {v : Value} (htags : v.TagFree) (hkeys : v.WellKeyed) :
    v.stripTags = v := by
  induction v using nodeInduction with
  | seq xs ih =>
      have htags := (everywhere_seq_iff.1 htags).2
      have hkeys := (everywhere_seq_iff.1 hkeys).2
      have hitems : ∀ x ∈ xs, x.stripTags = id x := fun x hx => ih x hx (htags x hx) (hkeys x hx)
      rw [stripTags, stripItems_eq_map, List.map_congr_left hitems, List.map_id]
  | map es ih =>
      have htags := (everywhere_map_iff.1 htags).2
      obtain ⟨hdistinct, hkeys⟩ := everywhere_map_iff.1 hkeys
      have hentries : ∀ e ∈ es, (e.1.stripTags, e.2.stripTags) = id e := by
        intro e he
        rw [(ih e he).1 (htags e he).1 (hkeys e he).1, (ih e he).2 (htags e he).2 (hkeys e he).2]
        rfl
      rw [stripTags, stripEntries_eq_map, List.map_congr_left hentries, List.map_id,
        Assoc.ofList_of_pairwise (hdistinct es rfl)]
  | tagged tag v ih => exact absurd rfl ((everywhere_tagged_iff.1 htags).1 tag v)
  | _ => rfl

/-- Values with distinct keys can be compared as keys. -/
theorem equivOn_of_wellKeyed {ks : List Value} (h : ∀ k ∈ ks, k.WellKeyed) :
    Assoc.EquivOn ks where
  refl a _ := same_refl a
  symm a ha _ _ := same_symm (h a ha)
  trans _ _ _ _ _ _ := same_trans

/-- The entries of a mapping without tags can be brought together in one way. -/
@[simp] theorem coalesces_stripEntries_iff {es fs : List (Value × Value)} :
    Assoc.Coalesces (stripEntries es) fs ↔ fs = Assoc.ofList (stripEntries es) := by
  refine Assoc.coalesces_iff_eq_ofList (equivOn_of_wellKeyed fun k hk => ?_)
  rw [stripEntries_eq_map, List.map_map] at hk
  obtain ⟨e, -, rfl⟩ := List.mem_map.1 hk
  exact wellKeyed_stripTags e.1

/-- Entries without tags are told by their keys and their values. -/
theorem eq_stripEntries_iff {es us : List (Value × Value)} :
    us = stripEntries es ↔ us.map Prod.fst = (es.map Prod.fst).map stripTags ∧
      us.map Prod.snd = (es.map Prod.snd).map stripTags := by
  rw [stripEntries_eq_map, List.map_map, List.map_map]
  constructor
  · rintro rfl
    rw [List.map_map, List.map_map]
    exact ⟨rfl, rfl⟩
  · rintro ⟨hkeys, hvalues⟩
    rw [List.zip_of_prod hkeys hvalues, List.zip_map']
    rfl

/-- Items that are taken without tags one by one are a sequence without tags. -/
theorem forall₂_untagged_iff {xs ys : List Value}
    (h : ∀ x ∈ xs, ∀ y, Untagged x y ↔ y = x.stripTags) :
    List.Forall₂ Untagged xs ys ↔ ys = xs.map stripTags := by
  induction xs generalizing ys with
  | nil => rw [List.forall₂_nil_left_iff, List.map_nil]
  | cons x xs ih =>
      obtain ⟨hx, hxs⟩ := List.forall_mem_cons.1 h
      rw [List.forall₂_cons_left_iff, List.map_cons]
      simp only [hx, ih hxs]
      constructor
      · rintro ⟨y, ys, rfl, rfl, rfl⟩
        rfl
      · rintro rfl
        exact ⟨_, _, rfl, rfl, rfl⟩

/-- **Tags are removed node by node.** -/
theorem untagged_iff {v w : Value} : Untagged v w ↔ w = v.stripTags := by
  induction v using nodeInduction generalizing w with
  | seq xs ih =>
      have hitems : ∀ ys, List.Forall₂ Untagged xs ys ↔ ys = xs.map stripTags :=
        fun ys => forall₂_untagged_iff fun x hx y => ih x hx
      rw [stripTags, stripItems_eq_map]
      constructor
      · intro h
        cases h with
        | leaf h => cases h
        | seq h => rw [(hitems _).1 h]
      · rintro rfl
        exact .seq ((hitems _).2 rfl)
  | map es ih =>
      -- keys and values are untagged by the hypothesis; keys that are equal then share an entry
      have hkeys : ∀ ks, List.Forall₂ Untagged (es.map Prod.fst) ks ↔
          ks = (es.map Prod.fst).map stripTags :=
        fun ks => forall₂_untagged_iff (List.forall_mem_map.2 fun e he _ => (ih e he).1)
      have hvalues : ∀ vs, List.Forall₂ Untagged (es.map Prod.snd) vs ↔
          vs = (es.map Prod.snd).map stripTags :=
        fun vs => forall₂_untagged_iff (List.forall_mem_map.2 fun e he _ => (ih e he).2)
      rw [stripTags]
      constructor
      · intro h
        cases h with
        | leaf h => cases h
        | @map _ us fs hks hvs hshared =>
            have hus := eq_stripEntries_iff.2 ⟨(hkeys _).1 hks, (hvalues _).1 hvs⟩
            rw [hus] at hshared
            rw [coalesces_stripEntries_iff.1 hshared]
      · rintro rfl
        obtain ⟨hks, hvs⟩ := eq_stripEntries_iff.1 (Eq.refl (stripEntries es))
        exact .map ((hkeys _).2 hks) ((hvalues _).2 hvs) (coalesces_stripEntries_iff.2 rfl)
  | tagged tag v ih =>
      rw [stripTags, ← ih]
      constructor
      · intro h
        cases h with
        | leaf h => cases h
        | tagged h => exact h
      · exact .tagged
  | _ =>
      constructor
      · intro h
        cases h
        rfl
      · rintro rfl
        exact .leaf rfl

/-- **Tags are removed, and nothing else is changed.** A value without its tags has no tag at any
depth and distinct keys in every mapping. It is the value itself exactly if that has no tags and
distinct keys, so that removing tags twice is removing them once. It is what the value is without
tags, node by node: sequences keep their items in order, and mappings have the keys without tags in
order of first occurrence, each with the value of the last. -/
theorem stripTags_exact (v : Value) :
    v.stripTags.TagFree ∧ v.stripTags.WellKeyed ∧
      (v.stripTags = v ↔ v.TagFree ∧ v.WellKeyed) ∧
      v.stripTags.stripTags = v.stripTags ∧
      ∀ w, Untagged v w ↔ w = v.stripTags := by
  refine ⟨tagFree_stripTags v, wellKeyed_stripTags v, ⟨fun h => ?_, fun h => ?_⟩, ?_,
    fun w => untagged_iff⟩
  · rw [← h]
    exact ⟨tagFree_stripTags v, wellKeyed_stripTags v⟩
  · exact stripTags_of_tagFree h.1 h.2
  · exact stripTags_of_tagFree (tagFree_stripTags v) (wellKeyed_stripTags v)

/-- A mapping with tags in two keys, which are equal without them. -/
def taggedSample : Value :=
  .map [(.seq [.tagged "a" (.int 1)], .string "x"), (.null, .string "y"),
    (.seq [.tagged "b" (.int 1)], .tagged "c" (.string "z"))]

/-- That mapping without its tags. -/
def untaggedSample : Value := .map [(.seq [.int 1], .string "z"), (.null, .string "y")]

/-- Both keys share one entry, and then nothing is left to remove. -/
theorem stripTags_exact_taggedSample :
    taggedSample.stripTags = untaggedSample ∧ ¬ (taggedSample.TagFree ∧ taggedSample.WellKeyed) ∧
      untaggedSample.TagFree ∧ untaggedSample.WellKeyed ∧
      untaggedSample.stripTags = untaggedSample ∧ Untagged taggedSample untaggedSample := by
  have hstrip : taggedSample.stripTags = untaggedSample := rfl
  obtain ⟨hfree, hkeyed, hiff, htwice, hnodes⟩ := stripTags_exact taggedSample
  rw [hstrip] at hfree hkeyed hiff htwice hnodes
  refine ⟨hstrip, fun h => ?_, hfree, hkeyed, htwice, (hnodes untaggedSample).2 rfl⟩
  have hsame : untaggedSample = taggedSample := hiff.2 h
  simp [untaggedSample, taggedSample] at hsame

end Value

end IngestPipeline
