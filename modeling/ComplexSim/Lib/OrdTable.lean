import Mathlib.Data.List.Forall2
import Mathlib.Data.List.Pairwise
import Mathlib.Data.List.Perm.Basic
import Mathlib.Order.Lattice

/-!
# Ordered tables

A table holds items in the strict order of their keys, so that no two items share
one. The items carry their keys themselves, as the nodes of a search tree compared
by a function on the items do. `sorted` is part of the type: every operation below
gives a table again.

What a table holds is compared up to the order: each operation has one lemma that
says which items come and go, as a permutation of lists.
-/

universe u v

/-- Items in the strict order of their keys. -/
structure OrdTable {α : Type u} {κ : Type v} [LinearOrder κ] (key : α → κ) where
  items : List α
  sorted : items.Pairwise fun x y => key x < key y

namespace OrdTable

variable {α : Type u} {κ : Type v} [LinearOrder κ] {key : α → κ}

def empty : OrdTable key := ⟨[], .nil⟩

/-- The item with key `k`. -/
def find? (t : OrdTable key) (k : κ) : Option α := t.items.find? fun x => key x = k

def first? (t : OrdTable key) : Option α := t.items.head?

def last? (t : OrdTable key) : Option α := t.items.getLast?

def count (t : OrdTable key) : Nat := t.items.length

/-- Insertion into an ordered list; an item that is there with the same key stays. -/
def insertList (key : α → κ) (x : α) : List α → List α
  | [] => [x]
  | y :: l =>
      if key x < key y then x :: y :: l
      else if key x = key y then y :: l
      else y :: insertList key x l

theorem mem_insertList {x z : α} {l : List α} (h : z ∈ insertList key x l) : z = x ∨ z ∈ l := by
  induction l with
  | nil => simpa [insertList] using h
  | cons y l ih =>
      unfold insertList at h
      split at h
      · simpa using h
      · split at h
        · exact Or.inr h
        · rcases List.mem_cons.1 h with rfl | h
          · exact Or.inr (by simp)
          · exact (ih h).imp_right (List.mem_cons_of_mem y)

theorem sorted_insertList {x : α} {l : List α} (h : l.Pairwise fun x y => key x < key y) :
    (insertList key x l).Pairwise fun x y => key x < key y := by
  induction l with
  | nil => simp [insertList]
  | cons y l ih =>
      obtain ⟨hy, hl⟩ := List.pairwise_cons.1 h
      unfold insertList
      split
      · rename_i hlt
        refine List.pairwise_cons.2 ⟨fun z hz => ?_, h⟩
        rcases List.mem_cons.1 hz with rfl | hz
        · exact hlt
        · exact lt_trans hlt (hy z hz)
      · rename_i hle
        split
        · exact h
        · rename_i hne
          refine List.pairwise_cons.2 ⟨fun z hz => ?_, ih hl⟩
          rcases mem_insertList hz with rfl | hz
          · exact lt_of_le_of_ne (not_lt.1 hle) (Ne.symm hne)
          · exact hy z hz

/-- Insert `x`, unless its key is taken. -/
def insert (t : OrdTable key) (x : α) : OrdTable key :=
  ⟨insertList key x t.items, sorted_insertList t.sorted⟩

/-- Remove the item with key `k`. -/
def delete (t : OrdTable key) (k : κ) : OrdTable key :=
  ⟨t.items.filter fun x => key x ≠ k, t.sorted.filter _⟩

/-- Put `x` in the place of the item with its key, or in a new one. -/
def replace (t : OrdTable key) (x : α) : OrdTable key := (t.delete (key x)).insert x

/-- Change the item with key `k` by a function that keeps the keys. -/
def modify (t : OrdTable key) (k : κ) (f : α → α) (hf : ∀ x, key (f x) = key x) : OrdTable key :=
  ⟨t.items.map fun x => if key x = k then f x else x, by
    refine List.pairwise_map.2 (t.sorted.imp fun {x y} h => ?_)
    have hkey : ∀ z, key (if key z = k then f z else z) = key z := fun z => by
      split
      · exact hf z
      · rfl
    rw [hkey, hkey]
    exact h⟩

section Lookup

variable {t : OrdTable key} {k : κ} {x y : α}

@[simp] theorem empty_items : (empty : OrdTable key).items = [] := rfl

@[simp] theorem mem_delete : x ∈ (t.delete k).items ↔ x ∈ t.items ∧ key x ≠ k := by
  simp [delete]

theorem eq_of_key (hx : x ∈ t.items) (hy : y ∈ t.items) (h : key x = key y) : x = y := by
  have hsymm : Std.Symm fun a b : α => key a = key b → a = b := ⟨fun _ _ hab he => (hab he.symm).symm⟩
  refine List.Pairwise.forall_of_forall (R := fun a b => key a = key b → a = b)
    (fun _ _ _ => rfl) (t.sorted.imp fun {a b} hab he => ?_) hx hy h
  exact absurd he (ne_of_lt hab)

theorem find?_eq_some : t.find? k = some x ↔ x ∈ t.items ∧ key x = k := by
  constructor
  · intro h
    exact ⟨List.mem_of_find?_eq_some h, by simpa using List.find?_some h⟩
  · rintro ⟨hx, hk⟩
    cases hf : t.find? k with
    | none => exact absurd hk (by simpa using List.find?_eq_none.1 hf x hx)
    | some y =>
        have hy : y ∈ t.items ∧ key y = k :=
          ⟨List.mem_of_find?_eq_some hf, by simpa using List.find?_some hf⟩
        rw [t.eq_of_key hy.1 hx (hy.2.trans hk.symm)]

theorem find?_eq_none : t.find? k = none ↔ ∀ x ∈ t.items, key x ≠ k := by
  simp [find?, List.find?_eq_none]

theorem mem_insertList_of_mem {l : List α} (h : y ∈ l) : y ∈ insertList key x l := by
  induction l with
  | nil => simp at h
  | cons z l ih =>
      unfold insertList
      split
      · exact List.mem_cons_of_mem x h
      · split
        · exact h
        · rcases List.mem_cons.1 h with rfl | h
          · exact List.mem_cons_self
          · exact List.mem_cons_of_mem z (ih h)

/-- An insertion changes the lookup of no other key. -/
theorem find?_insert_of_ne (h : k ≠ key x) : (t.insert x).find? k = t.find? k := by
  apply Option.ext
  intro y
  rw [find?_eq_some, find?_eq_some]
  constructor
  · rintro ⟨hy, hk⟩
    refine ⟨(mem_insertList hy).resolve_left ?_, hk⟩
    rintro rfl
    exact h hk.symm
  · exact fun ⟨hy, hk⟩ => ⟨mem_insertList_of_mem hy, hk⟩

theorem find?_delete_self : (t.delete k).find? k = none :=
  find?_eq_none.2 fun _ hx => (mem_delete.1 hx).2

/-- A deletion changes the lookup of no other key. -/
theorem find?_delete_of_ne {j : κ} (h : k ≠ j) : (t.delete j).find? k = t.find? k := by
  apply Option.ext
  intro y
  rw [find?_eq_some, find?_eq_some, mem_delete]
  constructor
  · exact fun ⟨⟨hy, _⟩, hk⟩ => ⟨hy, hk⟩
  · exact fun ⟨hy, hk⟩ => ⟨⟨hy, hk ▸ h⟩, hk⟩

/-- A modification changes the item it is for, and the lookup of no other key. -/
theorem find?_modify {f : α → α} (hf : ∀ x, key (f x) = key x) {j : κ} :
    (t.modify k f hf).find? j = if j = k then (t.find? j).map f else t.find? j := by
  have hkey : ∀ x, key (if key x = k then f x else x) = key x := by
    intro x
    split
    · exact hf x
    · rfl
  have hpred : ((fun x => decide (key x = j)) ∘ fun x => if key x = k then f x else x) =
      fun x => decide (key x = j) := funext fun x => by simp [hkey]
  unfold find? modify
  rw [List.find?_map, hpred]
  cases hfind : t.items.find? fun x => decide (key x = j) with
  | none => simp
  | some x =>
      have hx : key x = j := by simpa using List.find?_some hfind
      simp only [Option.map_some, hx]
      split <;> rfl

theorem first?_eq_none : t.first? = none ↔ t.items = [] := List.head?_eq_none_iff

theorem last?_eq_none : t.last? = none ↔ t.items = [] := List.getLast?_eq_none_iff

/-- The first item has the least key. -/
theorem first?_le (h : t.first? = some x) : x ∈ t.items ∧ ∀ y ∈ t.items, key x ≤ key y := by
  obtain ⟨rest, hitems⟩ := List.head?_eq_some_iff.1 h
  have hsorted := t.sorted
  rw [hitems] at hsorted ⊢
  refine ⟨List.mem_cons_self, fun y hy => ?_⟩
  rcases List.mem_cons.1 hy with rfl | hy
  · exact le_rfl
  · exact le_of_lt ((List.pairwise_cons.1 hsorted).1 y hy)

/-- The last item has the greatest key. -/
theorem le_last? (h : t.last? = some x) : x ∈ t.items ∧ ∀ y ∈ t.items, key y ≤ key x := by
  obtain ⟨rest, hitems⟩ := List.getLast?_eq_some_iff.1 h
  have hsorted := t.sorted
  rw [hitems] at hsorted ⊢
  refine ⟨by simp, fun y hy => ?_⟩
  rcases List.mem_append.1 hy with hy | hy
  · exact le_of_lt ((List.pairwise_append.1 hsorted).2.2 y hy x List.mem_cons_self)
  · rw [List.mem_singleton.1 hy]

end Lookup

section Content

variable {t : OrdTable key} {k : κ} {x : α}

theorem insertList_perm {l : List α} (h : ∀ y ∈ l, key y ≠ key x) :
    (insertList key x l).Perm (x :: l) := by
  induction l with
  | nil => exact .refl _
  | cons y l ih =>
      unfold insertList
      split
      · exact .refl _
      · rw [if_neg fun heq => h y (by simp) heq.symm]
        exact ((ih fun z hz => h z (by simp [hz])).cons y).trans (.swap x y l)

/-- A table holds the item it is given, if the key is free. -/
theorem insert_perm (h : t.find? (key x) = none) : (t.insert x).items.Perm (x :: t.items) :=
  insertList_perm (find?_eq_none.1 h)

theorem mem_insert (h : t.find? (key x) = none) {y : α} :
    y ∈ (t.insert x).items ↔ y = x ∨ y ∈ t.items := by
  rw [(insert_perm h).mem_iff, List.mem_cons]

/-- An item inserted is found. -/
theorem find?_insert_self (h : t.find? (key x) = none) : (t.insert x).find? (key x) = some x :=
  find?_eq_some.2 ⟨(mem_insert h).2 (Or.inl rfl), rfl⟩

theorem count_insert (h : t.find? (key x) = none) : (t.insert x).count = t.count + 1 :=
  (insert_perm h).length_eq

theorem mem_replace {y : α} : y ∈ (t.replace x).items ↔ y = x ∨ y ∈ t.items ∧ key y ≠ key x := by
  rw [replace, mem_insert find?_delete_self, mem_delete]

/-- A table holds the item it finds, and what is left without it. -/
theorem delete_perm (h : t.find? k = some x) : t.items.Perm (x :: (t.delete k).items) := by
  obtain ⟨hx, hk⟩ := find?_eq_some.1 h
  obtain ⟨as, bs, heq⟩ := List.append_of_mem hx
  have hothers : ∀ z ∈ as ++ bs, key z ≠ k := fun z hz hz' => by
    have hsorted := t.sorted
    rw [heq] at hsorted
    have hd := (List.perm_middle.pairwise_iff fun {a b} (hab : key a ≠ key b) => hab.symm).1
      (hsorted.imp fun {a b} (hab : key a < key b) => ne_of_lt hab)
    exact (List.pairwise_cons.1 hd).1 z hz (hk.trans hz'.symm)
  have hrest : (t.delete k).items = as ++ bs := by
    unfold delete
    simp only [heq, List.filter_append, List.filter_cons, hk, ne_eq, not_true_eq_false,
      decide_false, Bool.false_eq_true, if_false]
    rw [List.filter_eq_self.2 fun z hz => ?_, List.filter_eq_self.2 fun z hz => ?_]
    · simpa using hothers z (by simp [hz])
    · simpa using hothers z (by simp [hz])
  rw [hrest, heq]
  exact List.perm_middle

/-- Modifying an item puts the new one in the place of the old one. -/
theorem modify_perm {f : α → α} (hf : ∀ x, key (f x) = key x) (h : t.find? k = some x) :
    (t.modify k f hf).items.Perm (f x :: (t.delete k).items) := by
  refine ((delete_perm h).map _).trans ?_
  rw [List.map_cons, if_pos (find?_eq_some.1 h).2]
  have hsame : ((t.delete k).items.map fun x => if key x = k then f x else x) =
      (t.delete k).items.map id :=
    List.map_congr_left fun z hz => if_neg (mem_delete.1 hz).2
  rw [hsame, List.map_id]

theorem delete_of_find?_eq_none (h : t.find? k = none) : (t.delete k).items = t.items :=
  List.filter_eq_self.2 fun z hz => by simpa using find?_eq_none.1 h z hz

end Content

section Walks

variable {t : OrdTable key} {d : Bool} {x : α} {past rest : List α}

/-- The items as a walk meets them: upwards, or else downwards. -/
def inOrder (d : Bool) (t : OrdTable key) : List α := if d then t.items else t.items.reverse

/-- The item that a walk comes to after `x`; it begins where there is none. -/
def next (d : Bool) (t : OrdTable key) : Option α → Option α
  | none => (t.inOrder d).head?
  | some x => (t.inOrder d).find? fun y => if d then key x < key y else key y < key x

theorem length_inOrder : (t.inOrder d).length = t.count := by
  cases d
  · exact List.length_reverse
  · rfl

/-- What stands behind an item comes after it. -/
theorem next_eq_head? (h : t.inOrder d = past ++ x :: rest) : t.next d (some x) = rest.head? := by
  have hsorted : (t.inOrder d).Pairwise fun x y => if d then key x < key y else key y < key x := by
    cases d
    · exact List.pairwise_reverse.2 t.sorted
    · exact t.sorted
  rw [h, List.pairwise_append] at hsorted
  obtain ⟨-, hrest, hpast⟩ := hsorted
  have hbefore : ∀ y ∈ past ++ [x], ¬ if d then key x < key y else key y < key x := by
    intro y hy
    rcases List.mem_append.1 hy with hy | hy
    · have hyx := hpast y hy x List.mem_cons_self
      cases d
      · exact lt_asymm hyx
      · exact lt_asymm hyx
    · rw [List.mem_singleton.1 hy]
      cases d <;> exact lt_irrefl _
  have hsplit : past ++ x :: rest = (past ++ [x]) ++ rest := by simp
  rw [next, h, hsplit, List.find?_append, List.find?_eq_none.2 (by simpa using hbefore), Option.none_or]
  cases rest with
  | nil => rfl
  | cons y rest =>
      have hy := (List.pairwise_cons.1 hrest).1 y List.mem_cons_self
      rw [List.find?_cons_of_pos (by simpa using hy)]
      rfl

/-- A walk goes round: from the last item it comes to none, and from there to the first one again. -/
theorem next_getElem? (n : Nat) :
    t.next d (t.inOrder d)[n % (t.count + 1)]? = (t.inOrder d)[(n + 1) % (t.count + 1)]? := by
  have hlen := length_inOrder (t := t) (d := d)
  have hlt := Nat.mod_lt n (Nat.succ_pos t.count)
  rw [← Nat.mod_add_mod]
  generalize n % (t.count + 1) = k at *
  by_cases hk : k < t.count
  · have hk' : k < (t.inOrder d).length := by omega
    have hsplit : t.inOrder d = (t.inOrder d).take k ++ (t.inOrder d)[k] :: (t.inOrder d).drop (k + 1) := by
      rw [← List.drop_eq_getElem_cons hk', List.take_append_drop]
    rw [Nat.mod_eq_of_lt (by omega), List.getElem?_eq_getElem hk', next_eq_head? hsplit, List.head?_drop]
  · obtain rfl : k = t.count := by omega
    rw [Nat.mod_self, List.getElem?_eq_none (by omega), ← List.head?_eq_getElem?]
    rfl

end Walks

section Alike

universe w

theorem ext {t u : OrdTable key} (h : t.items = u.items) : t = u := by
  cases t
  cases h
  rfl

variable {β : Type w} {key' : β → κ} {R R' : α → β → Prop} {t : OrdTable key} {u : OrdTable key'} {x : α} {y : β}

/-- Two tables hold related items, one for one. -/
def Alike (R : α → β → Prop) (t : OrdTable key) (u : OrdTable key') : Prop := List.Forall₂ R t.items u.items

theorem Alike.imp (h : Alike R t u) (himp : ∀ x ∈ t.items, ∀ y, R x y → R' x y) : Alike R' t u := by
  have hboth : List.Forall₂ (fun x y => x ∈ t.items ∧ R x y) t.items u.items :=
    (List.forall₂_and_left _ _).2 ⟨fun _ hx => hx, h⟩
  exact hboth.imp fun x y hxy => himp x hxy.1 y hxy.2

theorem Alike.count (h : Alike R t u) : t.count = u.count := h.length_eq

theorem forall₂_exists {l : List α} {m : List β} (h : List.Forall₂ R l m) (hx : x ∈ l) : ∃ y ∈ m, R x y := by
  induction h with
  | nil => simp at hx
  | @cons z y l m hzy _ ih =>
      rcases List.mem_cons.1 hx with rfl | hx
      · exact ⟨y, List.mem_cons_self, hzy⟩
      · obtain ⟨w, hw, hxw⟩ := ih hx
        exact ⟨w, List.mem_cons_of_mem y hw, hxw⟩

theorem Alike.mem_left (h : Alike R t u) (hx : x ∈ t.items) : ∃ y ∈ u.items, R x y := forall₂_exists h hx

theorem Alike.mem_right (h : Alike R t u) (hy : y ∈ u.items) : ∃ x ∈ t.items, R x y := forall₂_exists h.flip hy

theorem forall₂_head? {l : List α} {m : List β} (h : List.Forall₂ R l m) : Option.Rel R l.head? m.head? := by
  cases h with
  | nil => exact .none
  | cons hxy _ => exact .some hxy

theorem Alike.first? (h : Alike R t u) : Option.Rel R t.first? u.first? := forall₂_head? h

theorem Alike.last? (h : Alike R t u) : Option.Rel R t.last? u.last? := by
  rw [OrdTable.last?, OrdTable.last?, ← List.head?_reverse, ← List.head?_reverse]
  exact forall₂_head? (List.forall₂_reverse_iff.2 h)

section Keys

variable (hkey : ∀ x y, R x y → key x = key' y)
include hkey

theorem forall₂_find? {l : List α} {m : List β} (h : List.Forall₂ R l m) (k : κ) :
    Option.Rel R (l.find? fun x => key x = k) (m.find? fun y => key' y = k) := by
  induction h with
  | nil => exact .none
  | @cons x y l m hxy _ ih =>
      rw [List.find?_cons, List.find?_cons, hkey x y hxy]
      by_cases hk : key' y = k
      · simpa [hk] using Option.Rel.some hxy
      · simpa [hk] using ih

theorem Alike.find? (h : Alike R t u) (k : κ) : Option.Rel R (t.find? k) (u.find? k) := forall₂_find? hkey h k

theorem forall₂_insertList {l : List α} {m : List β} (h : List.Forall₂ R l m) (hxy : R x y) :
    List.Forall₂ R (insertList key x l) (insertList key' y m) := by
  induction h with
  | nil => exact .cons hxy .nil
  | @cons z w l m hzw hlm ih =>
      rw [insertList, insertList, hkey x y hxy, hkey z w hzw]
      split
      · exact .cons hxy (.cons hzw hlm)
      · split
        · exact .cons hzw hlm
        · exact .cons hzw ih

theorem Alike.insert (h : Alike R t u) (hxy : R x y) : Alike R (t.insert x) (u.insert y) :=
  forall₂_insertList hkey h hxy

theorem forall₂_filter_ne {l : List α} {m : List β} (h : List.Forall₂ R l m) (k : κ) :
    List.Forall₂ R (l.filter fun x => key x ≠ k) (m.filter fun y => key' y ≠ k) := by
  induction h with
  | nil => exact .nil
  | @cons x y l m hxy _ ih =>
      rw [List.filter_cons, List.filter_cons, hkey x y hxy]
      by_cases hk : key' y = k
      · simpa [hk] using ih
      · simpa [hk] using List.Forall₂.cons hxy ih

theorem Alike.delete (h : Alike R t u) (k : κ) : Alike R (t.delete k) (u.delete k) := forall₂_filter_ne hkey h k

end Keys

/-- An item of one table is changed where it stands. -/
theorem Alike.modify (h : Alike R t u) {k : κ} {f : β → β} (hf : ∀ y, key' (f y) = key' y)
    (hstep : ∀ x ∈ t.items, ∀ y, R x y → R' x (if key' y = k then f y else y)) : Alike R' t (u.modify k f hf) :=
  List.forall₂_map_right_iff.2 (h.imp hstep)

end Alike

end OrdTable
