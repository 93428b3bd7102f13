import ComplexSim.Lib.RedBlackSearch
import ComplexSim.Rb.Shape

/-!
# Tables and lookups (`rb_create`, `rb_find` in `avl-2.0/src/rb.c`)

`IsTable` is the invariant of a table: its memory holds a red-black search tree with a black
root, and no node beside it. `Models` forgets the tree: the table holds the items of an ordered
table. The comparison function of a table goes by a key of the items (`CompareBy`).
-/

namespace ComplexSim.Rb

open RedBlack RbTree RbTable

variable {α κ : Type} [LinearOrder κ]

/-- The comparison function tells the order of the keys. -/
structure CompareBy (cmp : RbCompare α) (key : α → κ) : Prop where
  neg : ∀ x y, cmp x y < 0 ↔ key x < key y
  pos : ∀ x y, 0 < cmp x y ↔ key y < key x

def labelKey (key : α → κ) (x : RbLabel α) : κ := key x.2

/-- The table `s` is the tree `t` in memory. -/
structure IsTable (key : α → κ) (s : RbTable α) (t : RbTree (RbLabel α)) : Prop where
  shows : Shows s t []
  count : s.rbCount = t.size % 2 ^ 64
  balanced : ∃ n, BlackHeight n t
  black : t.color = .black
  sorted : Sorted (labelKey key) t.toList
  /-- there is no other node -/
  owns : ∀ a, (s.nodes.cells a).isSome = true → a ∈ addrs t
  sound : s.nodes.Sound
  /-- a node that has been given is in the tree, or freed -/
  accounted : s.nodes.brk = s.nodes.freed.length + t.size

/-- The table `s` holds the items of `o`. -/
def Models (key : α → κ) (s : RbTable α) (o : OrdTable key) : Prop :=
  ∃ t, IsTable key s t ∧ o.items = items t

/-- `rb_create`; `ok` tells whether the allocation succeeds. -/
def rbCreate (α : Type) (ok : Bool) : Option (RbTable α) :=
  if ok then some { rbRoot := .null, rbCount := 0, rbGeneration := 0, nodes := .empty _ } else none

/-- The loop of `rb_find`, at most `fuel` turns. -/
def rbFindLoop (cmp : RbCompare α) (s : RbTable α) (item : α) : Nat → RbPtr → Option (Option α)
  | _, .null => some none
  | 0, _ => none
  | fuel + 1, p => do
      let x ← s.data p
      if cmp item x < 0 then rbFindLoop cmp s item fuel (← s.link p false)
      else if cmp item x > 0 then rbFindLoop cmp s item fuel (← s.link p true)
      else some (some x)

/-- `rb_find`; a walk down meets at most the nodes there have ever been. -/
def rbFind (cmp : RbCompare α) (s : RbTable α) (item : α) : Option (Option α) :=
  rbFindLoop cmp s item s.nodes.brk s.rbRoot

section Lookups

variable {key : α → κ} {cmp : RbCompare α} {s : RbTable α} {t : RbTree (RbLabel α)} {o : OrdTable key}

theorem sorted_items : Sorted (labelKey key) t.toList ↔ (items t).Pairwise fun x y => key x < key y := by
  rw [items, List.pairwise_map]
  rfl

/-- The items of a table are an ordered table. -/
def IsTable.ord (h : IsTable key s t) : OrdTable key := ⟨items t, sorted_items.1 h.sorted⟩

theorem IsTable.models (h : IsTable key s t) : Models key s h.ord := ⟨t, h, rfl⟩

theorem Models.exists_tree (h : Models key s o) : ∃ t, ∃ ht : IsTable key s t, o = ht.ord := by
  obtain ⟨t, ht, ho⟩ := h
  refine ⟨t, ht, ?_⟩
  cases o
  cases ho
  rfl

theorem length_items (t : RbTree (RbLabel α)) : (items t).length = t.size := by
  rw [items, List.length_map, length_toList]

theorem rbCreate_models {s : RbTable α} (h : rbCreate α true = some s) : Models key s .empty := by
  cases h
  refine ⟨.nil, ⟨⟨trivial, ⟨trivial, rfl⟩, List.nodup_nil⟩, rfl, ⟨0, rfl⟩, rfl, .nil, ?_, Heap.empty_sound, rfl⟩, rfl⟩
  intro a ha
  simp [Heap.empty] at ha

theorem Reps.isSome (h : Reps s.nodes.cells t) {a : Nat} (ha : a ∈ addrs t) : (s.nodes.cells a).isSome = true := by
  induction t with
  | nil => simp at ha
  | node c l x r ihl ihr =>
      obtain ⟨hx, hl, hr⟩ := h
      rcases (mem_addrs_branch (d := false)).1 ha with rfl | ha | ha
      · rw [hx]
        rfl
      · exact ihl hl ha
      · exact ihr hr ha

theorem height_le_size (t : RbTree (RbLabel α)) : t.height ≤ t.size := by
  induction t with
  | nil => exact Nat.le_refl 0
  | node c l x r ihl ihr =>
      simp only [height, size]
      omega

/-- A walk down a table meets no more nodes than there have been. -/
theorem IsTable.height_le_brk (h : IsTable key s t) : t.height ≤ s.nodes.brk := by
  have hlen := h.sound.length_le (l := addrs t) h.shows.nodup fun a ha => h.shows.tree.isSome ha
  rw [length_addrs] at hlen
  exact (height_le_size t).trans hlen

/-- A table that fits the arrays of the walks: `RB_MAX_HEIGHT` nodes above each other take as many items. -/
theorem IsTable.height_lt (h : IsTable key s t) (hsize : t.size < 2 ^ 25 - 2) : t.height < rbMaxHeight := by
  obtain ⟨n, hn⟩ := h.balanced
  have hle := hn.minSize_le h.black
  by_contra hge
  have hmono := minSize_mono (Nat.le_of_not_lt hge)
  have hmin : minSize rbMaxHeight = 2 ^ 25 - 2 := by decide
  omega

/-- What a walk for a key has found. -/
def found (t : RbTree (RbLabel α)) : Option α :=
  match t with
  | .nil => none
  | .node _ _ x _ => some x.2

theorem rbFindLoop_eq (hcmp : CompareBy cmp key) (item : α) (fuel : Nat) (p : Path (RbLabel α))
    (ht : Reps s.nodes.cells t) (hfuel : t.height ≤ fuel) :
    rbFindLoop cmp s item fuel (ptr t) = some (found (locate (labelKey key) (key item) t p).1) := by
  induction t generalizing fuel p with
  | nil => cases fuel <;> rfl
  | node c l x r ihl ihr =>
      obtain ⟨hx, hl, hr⟩ := ht
      simp only [height] at hfuel
      obtain ⟨fuel, rfl⟩ : ∃ k, fuel = k + 1 := ⟨fuel - 1, by omega⟩
      have hneg : cmp item x.2 < 0 ↔ key item < labelKey key x := hcmp.neg item x.2
      have hpos : 0 < cmp item x.2 ↔ labelKey key x < key item := hcmp.pos item x.2
      simp only [rbFindLoop, ptr_node, data_node, link_node, hx, Option.map_some, Option.bind_eq_bind, Option.bind_some,
        locate]
      by_cases hlt : key item < labelKey key x
      · rw [if_pos (hneg.2 hlt), if_pos hlt]
        exact ihl fuel _ hl (by omega)
      · rw [if_neg (mt hneg.1 hlt), if_neg hlt]
        by_cases hgt : labelKey key x < key item
        · rw [if_pos (hpos.2 hgt), if_pos hgt]
          exact ihr fuel _ hr (by omega)
        · rw [if_neg (mt hpos.1 hgt), if_neg hgt]
          rfl

/-- Where the walk for `k` ends in the tree of a table. -/
structure Ends (key : α → κ) (k : κ) (t u : RbTree (RbLabel α)) (q : Path (RbLabel α)) : Prop where
  plug : plug u q = t
  apart : q.Apart (labelKey key) k
  at_key : u = .nil ∨ ∃ c l x r, u = .node c l x r ∧ key x.2 = k
  length : q.length + u.height ≤ t.height

theorem IsTable.ends (h : IsTable key s t) (k : κ) :
    Ends key k t (locate (labelKey key) k t []).1 (locate (labelKey key) k t []).2 where
  plug := plug_locate _ k t []
  apart := locate_apart h.sorted ⟨by simp [Path.before], by simp [Path.after]⟩
  at_key := locate_end _ k t []
  length := (locate_length _ k t []).trans (by simp)

theorem Ends.before_lt {k : κ} {u : RbTree (RbLabel α)} {q : Path (RbLabel α)} (he : Ends key k t u q) :
    ∀ y ∈ (Path.before q).map Prod.snd, key y < k := by
  intro y hy
  obtain ⟨x, hx, rfl⟩ := List.mem_map.1 hy
  exact he.apart.1 x hx

theorem Ends.lt_after {k : κ} {u : RbTree (RbLabel α)} {q : Path (RbLabel α)} (he : Ends key k t u q) :
    ∀ y ∈ (Path.after q).map Prod.snd, k < key y := by
  intro y hy
  obtain ⟨x, hx, rfl⟩ := List.mem_map.1 hy
  exact he.apart.2 x hx

/-- The items of the table around the end of the walk. -/
theorem Ends.items_eq {k : κ} {u : RbTree (RbLabel α)} {q : Path (RbLabel α)} (he : Ends key k t u q) :
    items t = (Path.before q).map Prod.snd ++ items u ++ (Path.after q).map Prod.snd := by
  unfold items
  rw [← he.plug, toList_plug, List.map_append, List.map_append]

theorem Ends.find? {k : κ} {u : RbTree (RbLabel α)} {q : Path (RbLabel α)} (h : IsTable key s t)
    (he : Ends key k t u q) : h.ord.find? k = found u := by
  have hitems : ∀ y ∈ items t, ∃ x, x ∈ Path.before q ++ u.toList ++ Path.after q ∧ x.2 = y := by
    intro y hy
    obtain ⟨x, hx, rfl⟩ := List.mem_map.1 hy
    rw [← he.plug, toList_plug] at hx
    exact ⟨x, hx, rfl⟩
  rcases he.at_key with rfl | ⟨c, l, x, r, rfl, hx⟩
  · refine OrdTable.find?_eq_none.2 fun y hy hk => ?_
    obtain ⟨x, hx, rfl⟩ := hitems y hy
    simp only [toList, List.append_nil, List.mem_append] at hx
    rcases hx with hx | hx
    · exact ne_of_lt (he.apart.1 x hx) hk
    · exact ne_of_gt (he.apart.2 x hx) hk
  · refine OrdTable.find?_eq_some.2 ⟨List.mem_map.2 ⟨x, ?_, rfl⟩, hx⟩
    rw [← he.plug, toList_plug]
    simp [toList]

/-- `rb_find` finds what the ordered table does. -/
theorem rbFind_eq (hcmp : CompareBy cmp key) (item : α) (h : Models key s o) :
    rbFind cmp s item = some (o.find? (key item)) := by
  obtain ⟨t, ht, rfl⟩ := h.exists_tree
  rw [(ht.ends (key item)).find? ht, rbFind, ht.shows.holds.root]
  exact rbFindLoop_eq hcmp item _ [] ht.shows.tree ht.height_le_brk

/-- Where the walk ends at an item, the keys in front are smaller and the keys behind are greater. -/
theorem Ends.items_node {k : κ} {c : Color} {l r : RbTree (RbLabel α)} {x : RbLabel α} {q : Path (RbLabel α)}
    (h : IsTable key s t) (he : Ends key k t (.node c l x r) q) :
    items t = ((Path.before q).map Prod.snd ++ items l) ++ x.2 :: (items r ++ (Path.after q).map Prod.snd) ∧
      (∀ y ∈ (Path.before q).map Prod.snd ++ items l, key y < key x.2) ∧
      ∀ y ∈ items r ++ (Path.after q).map Prod.snd, key x.2 < key y := by
  have heq : items t =
      ((Path.before q).map Prod.snd ++ items l) ++ x.2 :: (items r ++ (Path.after q).map Prod.snd) := by
    rw [he.items_eq]
    simp [items, toList]
  have hsort := sorted_items.1 h.sorted
  rw [heq] at hsort
  obtain ⟨-, -, hb, ha, -⟩ := sorted_between.1 hsort
  exact ⟨heq, hb, ha⟩

end Lookups

end ComplexSim.Rb
