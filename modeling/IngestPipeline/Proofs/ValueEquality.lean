import IngestPipeline.Value
import Mathlib.Data.List.Forall2

/-! # Equality of values

Values are compared as keys of mappings. Numbers may be equal without being the same, and so may
mappings with their entries in another order. This file shows that the comparison is an equivalence
among values whose mappings have no two equal keys.

* **`nodeInduction`**: induction over the nodes of a value, with the hypothesis for every item,
  every key and every value.
* **`Within`**, **`Everywhere`**: the nodes of a value, and what holds of all of them.
* **`TagFree`**: there is no tag in a value, at any depth.
* **`WellKeyed`**: no mapping in a value, at any depth, has two equal keys.
* **`same_refl`**, **`same_trans`**, **`same_symm`**: the laws of an equivalence. Only symmetry
  needs distinct keys: where a key occurs twice, all entries of a mapping may be found in another of
  the same size and not the other way round. -/

/-! ### Partners -/

namespace List

/-- **Where each of at least as many has a partner of its own**, none is left without one. -/
theorem exists_partner {α : Type u} {β : Type v} {R : α → β → Prop} {xs : List α} {ys : List β}
    (hlen : ys.length ≤ xs.length) (hpartner : ∀ x ∈ xs, ∃ y ∈ ys, R x y)
    (hown : xs.Pairwise fun x x' => ∀ y, R x y → ¬ R x' y) : ∀ y ∈ ys, ∃ x ∈ xs, R x y := by
  induction xs generalizing ys with
  | nil =>
      rw [length_nil, Nat.le_zero, length_eq_zero_iff] at hlen
      simp [hlen]
  | cons x xs ih =>
      obtain ⟨hx, hxs⟩ := pairwise_cons.1 hown
      obtain ⟨y₀, hy₀, hxy₀⟩ := hpartner x mem_cons_self
      obtain ⟨front, rest, rfl⟩ := append_of_mem hy₀
      -- the partner of the first is no partner of the others
      have hothers : ∀ x' ∈ xs, ∃ y ∈ front ++ rest, R x' y := by
        intro x' hx'
        obtain ⟨y, hy, hxy⟩ := hpartner x' (mem_cons_of_mem x hx')
        have hne : y ≠ y₀ := by
          rintro rfl
          exact hx x' hx' y hxy₀ hxy
        refine ⟨y, ?_, hxy⟩
        simpa [hne] using hy
      have hlen' : (front ++ rest).length ≤ xs.length := by
        simp only [length_append, length_cons] at hlen ⊢
        omega
      intro y hy
      by_cases hyy₀ : y = y₀
      · exact ⟨x, mem_cons_self, hyy₀ ▸ hxy₀⟩
      · obtain ⟨x', hx', hxy⟩ := ih hlen' hothers hxs y (by simpa [hyy₀] using hy)
        exact ⟨x', mem_cons_of_mem x hx', hxy⟩

end List

namespace IngestPipeline

namespace Value

/-! ### The nodes of a value -/

/-- **Induction over the nodes of a value.** -/
@[elab_as_elim]
theorem nodeInduction {motive : Value → Prop} (null : motive .null)
    (bool : ∀ b, motive (.bool b)) (int : ∀ n, motive (.int n)) (float : ∀ x, motive (.float x))
    (string : ∀ s, motive (.string s)) (seq : ∀ xs, (∀ x ∈ xs, motive x) → motive (.seq xs))
    (map : ∀ es, (∀ e ∈ es, motive e.1 ∧ motive e.2) → motive (.map es))
    (tagged : ∀ tag v, motive v → motive (.tagged tag v)) (v : Value) : motive v :=
  @Value.rec motive (fun xs => ∀ x ∈ xs, motive x) (fun es => ∀ e ∈ es, motive e.1 ∧ motive e.2)
    (fun e => motive e.1 ∧ motive e.2)
    null bool int float string seq map tagged
    (List.forall_mem_nil _) (fun _ _ hx hxs => List.forall_mem_cons.2 ⟨hx, hxs⟩)
    (List.forall_mem_nil _) (fun _ _ he hes => List.forall_mem_cons.2 ⟨he, hes⟩)
    (fun _ _ hk hv => ⟨hk, hv⟩) v

/-- **The nodes of a value**: the value itself, and the nodes of what it is made of. -/
inductive Within (n : Value) : Value → Prop
  /-- Every value is one of its nodes. -/
  | self : Within n n
  /-- A node of an item of a sequence. -/
  | item {x : Value} {xs : List Value} (hx : x ∈ xs) (h : Within n x) : Within n (.seq xs)
  /-- A node of a key of a mapping. -/
  | key {e : Value × Value} {es : List (Value × Value)} (he : e ∈ es) (h : Within n e.1) :
      Within n (.map es)
  /-- A node of a value of a mapping. -/
  | value {e : Value × Value} {es : List (Value × Value)} (he : e ∈ es) (h : Within n e.2) :
      Within n (.map es)
  /-- A node of what carries a tag. -/
  | content {tag : String} {v : Value} (h : Within n v) : Within n (.tagged tag v)

/-- **All nodes** have a property. -/
def Everywhere (p : Value → Prop) (v : Value) : Prop := ∀ n, Within n v → p n

/-- Whether a value is its only node. -/
def isLeaf : Value → Bool
  | .seq _ | .map _ | .tagged _ _ => false
  | _ => true

section Everywhere

variable {p : Value → Prop}

/-- A leaf has no other nodes. -/
theorem everywhere_iff_of_isLeaf {v : Value} (h : v.isLeaf = true) : v.Everywhere p ↔ p v := by
  constructor
  · exact fun hv => hv v .self
  · intro hv n hn
    cases hn with
    | self => exact hv
    | _ => cases h

/-- The nodes of a sequence are those of its items, and the sequence. -/
@[simp] theorem everywhere_seq_iff {xs : List Value} :
    (Value.seq xs).Everywhere p ↔ p (.seq xs) ∧ ∀ x ∈ xs, x.Everywhere p := by
  constructor
  · exact fun h => ⟨h _ .self, fun x hx n hn => h n (.item hx hn)⟩
  · rintro ⟨hself, hitems⟩ n hn
    cases hn with
    | self => exact hself
    | item hx hn => exact hitems _ hx n hn

/-- The nodes of a mapping are those of its keys and values, and the mapping. -/
@[simp] theorem everywhere_map_iff {es : List (Value × Value)} :
    (Value.map es).Everywhere p ↔
      p (.map es) ∧ ∀ e ∈ es, e.1.Everywhere p ∧ e.2.Everywhere p := by
  constructor
  · exact fun h => ⟨h _ .self, fun e he =>
      ⟨fun n hn => h n (.key he hn), fun n hn => h n (.value he hn)⟩⟩
  · rintro ⟨hself, hentries⟩ n hn
    cases hn with
    | self => exact hself
    | key he hn => exact (hentries _ he).1 n hn
    | value he hn => exact (hentries _ he).2 n hn

/-- The nodes of a tagged value are those of its content, and the tagged value. -/
@[simp] theorem everywhere_tagged_iff {tag : String} {v : Value} :
    (Value.tagged tag v).Everywhere p ↔ p (.tagged tag v) ∧ v.Everywhere p := by
  constructor
  · exact fun h => ⟨h _ .self, fun n hn => h n (.content hn)⟩
  · rintro ⟨hself, hcontent⟩ n hn
    cases hn with
    | self => exact hself
    | content hn => exact hcontent n hn

end Everywhere

/-! ### Tags -/

/-- **There is no tag**, at any depth, in keys or elsewhere. -/
def TagFree (v : Value) : Prop := v.Everywhere fun n => ∀ tag content, n ≠ .tagged tag content

/-- There is no tag to look through. -/
@[simp] theorem TagFree.untag_eq {v : Value} (h : v.TagFree) : v.untag = v :=
  untag_of_ne_tagged (h v .self)

/-- A leaf carries no tag. -/
theorem tagFree_of_isLeaf {v : Value} (h : v.isLeaf = true) : v.TagFree := by
  refine (everywhere_iff_of_isLeaf h).2 ?_
  rintro tag content rfl
  cases h

/-- A string carries no tag. -/
@[simp] theorem tagFree_string (text : String) : (Value.string text).TagFree :=
  tagFree_of_isLeaf rfl

/-- A sequence is free of tags if its items are. -/
@[simp] theorem tagFree_seq_iff {xs : List Value} :
    (Value.seq xs).TagFree ↔ ∀ x ∈ xs, x.TagFree := by
  rw [TagFree, everywhere_seq_iff]
  exact and_iff_right (nofun)

/-- A mapping is free of tags if its keys and values are. -/
@[simp] theorem tagFree_map_iff {es : List (Value × Value)} :
    (Value.map es).TagFree ↔ ∀ e ∈ es, e.1.TagFree ∧ e.2.TagFree := by
  rw [TagFree, everywhere_map_iff]
  exact and_iff_right (nofun)

/-! ### Distinct keys -/

/-- **No two keys of a mapping are equal**, at any depth. -/
def WellKeyed (v : Value) : Prop :=
  v.Everywhere fun n => ∀ es, n = .map es → es.Pairwise fun e f => (e.1 == f.1) = false

/-! ### The comparison of values -/

end Value

/-- Numbers are equal if they are the same or both zero. -/
theorem Binary64.same_iff {x y : Binary64} :
    x.same y = true ↔ x = y ∨ ∃ s q t r, x = .finite s 0 q ∧ y = .finite t 0 r := by
  cases x <;> cases y <;> simp [same, and_assoc, or_comm]

/-- Doubles are compared without regard to the order. -/
theorem Binary64.same_symm {x y : Binary64} (h : x.same y = true) : y.same x = true := by
  rw [same_iff] at h ⊢
  rcases h with rfl | ⟨s, q, t, r, rfl, rfl⟩
  · exact .inl rfl
  · exact .inr ⟨t, r, s, q, rfl, rfl⟩

/-- Doubles that are equal to one double are equal. -/
theorem Binary64.same_trans {x y z : Binary64} (hxy : x.same y = true) (hyz : y.same z = true) :
    x.same z = true := by
  rw [same_iff] at hxy
  rcases hxy with rfl | ⟨s, q, t, r, rfl, rfl⟩
  · exact hyz
  · rw [same_iff] at hyz ⊢
    rcases hyz with rfl | ⟨_, _, t', r', -, rfl⟩
    · exact .inr ⟨s, q, t, r, rfl, rfl⟩
    · exact .inr ⟨s, q, t', r', rfl, rfl⟩

namespace Value

variable {v w : Value}

/-- Items are compared one by one. -/
@[simp] theorem sameItems_iff {xs ys : List Value} :
    sameItems xs ys = true ↔ List.Forall₂ (fun x y => x.same y = true) xs ys := by
  induction xs generalizing ys with
  | nil => cases ys <;> simp [sameItems]
  | cons x xs ih => cases ys <;> simp [sameItems, ih]

/-- Each entry of one mapping is looked for in the other. -/
@[simp] theorem sameEntries_iff {es fs : List (Value × Value)} :
    sameEntries es fs = true ↔ ∀ e ∈ es, ∃ f ∈ fs, e.1.same f.1 = true ∧ e.2.same f.2 = true := by
  induction es with
  | nil => simp [sameEntries]
  | cons e es ih => simp [sameEntries, ih]

/-- A sequence is equal to sequences only, item by item. -/
theorem same_seq_iff {xs : List Value} :
    (Value.seq xs).same w = true ↔
      ∃ ys, w = .seq ys ∧ List.Forall₂ (fun x y => x.same y = true) xs ys := by
  cases w <;> simp [same, sameItems_iff]

/-- A mapping is equal to mappings of the same size only, in which its entries are found. -/
theorem same_map_iff {es : List (Value × Value)} :
    (Value.map es).same w = true ↔
      ∃ fs, w = .map fs ∧ es.length = fs.length ∧
        ∀ e ∈ es, ∃ f ∈ fs, e.1.same f.1 = true ∧ e.2.same f.2 = true := by
  cases w <;> simp [same, sameEntries_iff]

/-- A tagged value is equal to values with the same tag only. -/
theorem same_tagged_iff {tag : String} :
    (Value.tagged tag v).same w = true ↔
      ∃ tag' v', w = .tagged tag' v' ∧ tagName tag = tagName tag' ∧ v.same v' = true := by
  cases w <;> simp [same]

/-- Every value is equal to itself. -/
@[simp] theorem same_refl (v : Value) : v.same v = true := by
  induction v using nodeInduction with
  | float x => exact Binary64.same_iff.2 (.inl rfl)
  | seq xs ih => exact same_seq_iff.2 ⟨xs, rfl, List.forall₂_same.2 ih⟩
  | map es ih => exact same_map_iff.2 ⟨es, rfl, rfl, fun e he => ⟨e, he, ih e he⟩⟩
  | tagged tag v ih => exact same_tagged_iff.2 ⟨tag, v, rfl, rfl, ih⟩
  | _ => simp [same]

/-- Values that are equal to the same value are equal. -/
theorem same_trans {u v w : Value} (huv : u.same v = true) (hvw : v.same w = true) :
    u.same w = true := by
  induction u using nodeInduction generalizing v w with
  | float x =>
      cases v with
      | float y =>
          cases w with
          | float z => exact Binary64.same_trans huv hvw
          | _ => cases hvw
      | _ => cases huv
  | seq xs ih =>
      obtain ⟨ys, rfl, hxy⟩ := same_seq_iff.1 huv
      obtain ⟨zs, rfl, hyz⟩ := same_seq_iff.1 hvw
      refine same_seq_iff.2 ⟨zs, rfl, ?_⟩
      -- the items are compared one by one, each against the one in between
      clear huv hvw
      induction hxy generalizing zs with
      | nil => exact hyz
      | cons hx _ hxs =>
          obtain ⟨z, zs, hz, hzs, rfl⟩ := List.forall₂_cons_left_iff.1 hyz
          obtain ⟨hfirst, hothers⟩ := List.forall_mem_cons.1 ih
          exact .cons (hfirst hx hz) (hxs hothers zs hzs)
  | map es ih =>
      obtain ⟨fs, rfl, hlen, hef⟩ := same_map_iff.1 huv
      obtain ⟨gs, rfl, hlen', hfg⟩ := same_map_iff.1 hvw
      refine same_map_iff.2 ⟨gs, rfl, hlen.trans hlen', fun e he => ?_⟩
      obtain ⟨f, hf, hkey, hvalue⟩ := hef e he
      obtain ⟨g, hg, hkey', hvalue'⟩ := hfg f hf
      exact ⟨g, hg, (ih e he).1 hkey hkey', (ih e he).2 hvalue hvalue'⟩
  | tagged tag v ih =>
      obtain ⟨tag', v', rfl, htag, hv⟩ := same_tagged_iff.1 huv
      obtain ⟨tag'', v'', rfl, htag', hv'⟩ := same_tagged_iff.1 hvw
      exact same_tagged_iff.2 ⟨tag'', v'', rfl, htag.trans htag', ih hv hv'⟩
  | _ =>
      cases v <;> simp_all [same]

/-- **Equality is symmetric** where keys are distinct. -/
theorem same_symm {v w : Value} (hv : v.WellKeyed) (h : v.same w = true) : w.same v = true := by
  induction v using nodeInduction generalizing w with
  | float x =>
      cases w with
      | float y => exact Binary64.same_symm h
      | _ => cases h
  | seq xs ih =>
      obtain ⟨ys, rfl, hxy⟩ := same_seq_iff.1 h
      have hitems := (everywhere_seq_iff.1 hv).2
      refine same_seq_iff.2 ⟨xs, rfl, ?_⟩
      have hsymm : ∀ x ∈ xs, ∀ y, x.same y = true → y.same x = true :=
        fun x hx y hxy => ih x hx (hitems x hx) hxy
      have hboth := (List.forall₂_and_left xs ys).2 ⟨hsymm, hxy⟩
      exact (hboth.imp fun x y hxy => hxy.1 y hxy.2).flip
  | map es ih =>
      obtain ⟨fs, rfl, hlen, hef⟩ := same_map_iff.1 h
      obtain ⟨hself, hentries⟩ := everywhere_map_iff.1 hv
      refine same_map_iff.2 ⟨es, rfl, hlen.symm, fun f hf => ?_⟩
      -- two entries with one partner would have equal keys, so every entry has one of its own
      have hown : es.Pairwise fun e e' => ∀ f : Value × Value,
          (e.1.same f.1 = true ∧ e.2.same f.2 = true) →
            ¬ (e'.1.same f.1 = true ∧ e'.2.same f.2 = true) := by
        refine (hself es rfl).imp_of_mem fun {e e'} _ he' hne f hf hf' => ?_
        have hback := (ih e' he').1 (hentries e' he').1 hf'.1
        exact Bool.false_ne_true (hne.symm.trans (same_trans hf.1 hback))
      obtain ⟨e, he, hkey, hvalue⟩ := List.exists_partner (Nat.le_of_eq hlen.symm) hef hown f hf
      exact ⟨e, he, (ih e he).1 (hentries e he).1 hkey, (ih e he).2 (hentries e he).2 hvalue⟩
  | tagged tag v ih =>
      obtain ⟨tag', v', rfl, htag, hsame⟩ := same_tagged_iff.1 h
      exact same_tagged_iff.2 ⟨tag, v, rfl, htag.symm, ih (everywhere_tagged_iff.1 hv).2 hsame⟩
  | _ => cases w <;> simp_all [same]

/-- A key that occurs twice hides an entry that has no equal. -/
example :
    (Value.map [(.null, .null), (.null, .null)]).same
        (.map [(.null, .null), (.bool true, .null)]) = true ∧
      (Value.map [(.null, .null), (.bool true, .null)]).same
        (.map [(.null, .null), (.null, .null)]) = false := by
  decide

end Value

end IngestPipeline
