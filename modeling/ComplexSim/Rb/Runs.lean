import ComplexSim.Lib.Mealy
import ComplexSim.Rb.Traverse

/-!
# What a table is for

Whatever is done to a table through the functions of its interface, its answers are those of an
ordered table, and its memory holds a red-black tree of the items after each call. The arrays of
`RB_MAX_HEIGHT` entries are long enough as long as there are fewer than `2 ^ 25 - 2` items: a tree
that is as high as the arrays are long has at least so many.
-/

namespace ComplexSim.Rb

open RedBlack RbTree RbTable

variable {α κ : Type} [LinearOrder κ]

/-- A call of a table's interface; `ok` tells whether the allocation of a node succeeds. -/
inductive RbOp (α : Type) where
  | find (item : α)
  | insert (ok : Bool) (item : α)
  | replace (ok : Bool) (item : α)
  | delete (item : α)
  | first
  | last
  | count

inductive RbAnswer (α : Type) where
  | item (x : Option α)
  | count (n : Nat)
  deriving DecidableEq, Repr

/-- One call on the table in memory. -/
def call [DecidableEq α] (cmp : RbCompare α) (s : RbTable α) : RbOp α → Option (RbTable α × RbAnswer α)
  | .find item => (rbFind cmp s item).map fun x => (s, .item x)
  | .insert ok item => (rbInsert cmp ok s item).map fun r => (r.1, .item r.2)
  | .replace ok item => (rbReplace cmp ok s item).map fun r => (r.1, .item r.2)
  | .delete item => (rbDelete cmp s item).map fun r => (r.1, .item r.2)
  | .first => (rbTFirst s).map fun r => (s, .item r.2)
  | .last => (rbTLast s).map fun r => (s, .item r.2)
  | .count => some (s, .count s.rbCount)

/-- The same call on an ordered table. -/
def ordCall [DecidableEq α] {key : α → κ} (o : OrdTable key) : RbOp α → Option (OrdTable key × RbAnswer α)
  | .find item => some (o, .item (o.find? (key item)))
  | .insert ok item =>
      some (if ok then o.insert item else o, .item ((o.find? (key item)).filter fun x => x ≠ item))
  | .replace ok item =>
      some (if ok ∨ (o.find? (key item)).isSome then o.replace item else o,
        .item ((o.find? (key item)).filter fun x => x ≠ item))
  | .delete item => some (o.delete (key item), .item (o.find? (key item)))
  | .first => some (o, .item o.first?)
  | .last => some (o, .item o.last?)
  | .count => some (o, .count o.count)

/-- The tree of the table stays lower than the arrays are long. -/
def Fits {key : α → κ} (o : OrdTable key) (_ : RbOp α) : Prop := o.count < 2 ^ 25 - 2

instance {key : α → κ} (o : OrdTable key) (op : RbOp α) : Decidable (Fits o op) := Nat.decLt _ _

section Tables

variable {key : α → κ} {cmp : RbCompare α} {s : RbTable α} {o : OrdTable key}

theorem Models.rbCount_eq (h : Models key s o) (hsize : o.count < 2 ^ 64) : s.rbCount = o.count := by
  obtain ⟨t, ht, ho⟩ := h
  have hlen : o.count = t.size := by rw [OrdTable.count, ho, length_items]
  rw [ht.count, ← hlen]
  exact Nat.mod_eq_of_lt hsize

/-- A lookup visits at most `2 * log2 (n + 1)` nodes of `n`. -/
theorem rbFind_short (hcmp : CompareBy cmp key) (h : Models key s o) (item : α) :
    rbFindLoop cmp s item (2 * Nat.log2 (o.count + 1)) s.rbRoot = some (o.find? (key item)) := by
  obtain ⟨t, ht, rfl⟩ := h.exists_tree
  have hroot : s.rbRoot = ptr t := ht.shows.holds.root
  have hcount : ht.ord.count = t.size := by rw [OrdTable.count, IsTable.ord, length_items]
  obtain ⟨n, hn⟩ := ht.balanced
  have hheight := hn.height_le.2 ht.black
  have hlog : n ≤ Nat.log2 (t.size + 1) := (Nat.le_log2 (Nat.succ_ne_zero _)).2 hn.le_size
  rw [(ht.ends (key item)).find? ht, hroot, hcount]
  apply rbFindLoop_eq hcmp item _ [] ht.shows.tree
  omega

theorem call_agree [DecidableEq α] (hcmp : CompareBy cmp key) (h : Models key s o) (op : RbOp α)
    (hsize : o.count < 2 ^ 25 - 2) : Mealy.Agree (Models key) Eq (call cmp s op) (ordCall o op) := by
  cases op with
  | find item =>
      rw [call, rbFind_eq hcmp item h]
      exact .some rfl h
  | insert ok item =>
      obtain ⟨s', hrun, h'⟩ := rbInsert_eq hcmp h hsize ok item
      rw [call, hrun]
      exact .some rfl h'
  | replace ok item =>
      obtain ⟨s', hrun, h'⟩ := rbReplace_eq hcmp h hsize ok item
      rw [call, hrun]
      exact .some rfl h'
  | delete item =>
      obtain ⟨s', hrun, h'⟩ := rbDelete_eq hcmp h hsize item
      rw [call, hrun]
      exact .some rfl h'
  | first =>
      obtain ⟨tr, hrun⟩ := rbTFirst_eq h hsize
      rw [call, hrun]
      exact .some rfl h
  | last =>
      obtain ⟨tr, hrun⟩ := rbTLast_eq h hsize
      rw [call, hrun]
      exact .some rfl h
  | count => exact .some (congrArg RbAnswer.count (h.rbCount_eq (by omega))) h

theorem ordCall_isSome [DecidableEq α] (o : OrdTable key) (op : RbOp α) : (ordCall o op).isSome = true := by
  cases op <;> rfl

/-- The runs of a table and of an ordered table, from `rb_create` on. -/
theorem run_models [DecidableEq α] (hcmp : CompareBy cmp key) (hnew : rbCreate α true = some s) {ops : List (RbOp α)}
    (hfits : Mealy.Along Fits ordCall (.empty : OrdTable key) ops) :
    List.Forall₂ Eq (Mealy.run (call cmp) s ops).1 (Mealy.run ordCall (.empty : OrdTable key) ops).1 ∧
      Models key (Mealy.run (call cmp) s ops).2 (Mealy.run ordCall .empty ops).2 :=
  Mealy.run_agree (fun _ _ op h hsize => call_agree hcmp h op hsize) (rbCreate_models hnew) hfits

end Tables

section Runs

variable [DecidableEq α] {key : α → κ} {cmp : RbCompare α} {s : RbTable α}

/-- **A table is an ordered table**: in every run of calls every call returns, with the answer of an ordered table,
and the memory holds its items, in a red-black tree. -/
theorem table_as_ordered_table (hcmp : CompareBy cmp key) (hnew : rbCreate α true = some s) (ops : List (RbOp α))
    (hfits : Mealy.Along Fits ordCall (.empty : OrdTable key) ops) :
    (Mealy.run (call cmp) s ops).1.length = ops.length ∧
      (Mealy.run (call cmp) s ops).1 = (Mealy.run ordCall (.empty : OrdTable key) ops).1 ∧
      Models key (Mealy.run (call cmp) s ops).2 (Mealy.run ordCall .empty ops).2 := by
  obtain ⟨hanswers, hmodels⟩ := run_models hcmp hnew hfits
  have hsame := List.forall₂_eq_eq_eq ▸ hanswers
  refine ⟨?_, hsame, hmodels⟩
  rw [hsame]
  exact Mealy.run_length ordCall_isSome _ _

theorem compareBy_sub : CompareBy (fun x y : Int => x - y) id := by
  constructor
  · intro x y
    simp only [id]
    omega
  · intro x y
    simp only [id]
    omega

/-- Three items, one of which goes. -/
def threeItems : List (RbOp Int) := [.insert true 3, .insert true 1, .insert true 2, .delete 3, .first]

theorem threeItems_fit : Mealy.Along Fits ordCall (.empty : OrdTable (id : Int → Int)) threeItems := by decide

theorem table_as_ordered_table_three : ∃ s, rbCreate Int true = some s ∧
    (Mealy.run (call fun x y => x - y) s threeItems).1 =
      [.item none, .item none, .item none, .item (some 3), .item (some 1)] := by
  refine ⟨_, rfl, ?_⟩
  obtain ⟨-, hanswers, -⟩ := table_as_ordered_table compareBy_sub rfl threeItems threeItems_fit
  exact hanswers.trans (by decide)

/-- **Lookups are short**: after every run a lookup among `n` items visits at most `2 * log2 (n + 1)` nodes. -/
theorem lookups_are_short (hcmp : CompareBy cmp key) (hnew : rbCreate α true = some s) (ops : List (RbOp α))
    (hfits : Mealy.Along Fits ordCall (.empty : OrdTable key) ops) (item : α) :
    let o : OrdTable key := (Mealy.run ordCall .empty ops).2
    let s' := (Mealy.run (call cmp) s ops).2
    rbFindLoop cmp s' item (2 * Nat.log2 (o.count + 1)) s'.rbRoot = some (o.find? (key item)) :=
  rbFind_short hcmp (run_models hcmp hnew hfits).2 item

theorem lookups_are_short_three : ∃ s, rbCreate Int true = some s ∧
    let s' := (Mealy.run (call fun x y => x - y) s threeItems).2
    rbFindLoop (fun x y => x - y) s' 2 2 s'.rbRoot = some (some 2) :=
  ⟨_, rfl, lookups_are_short compareBy_sub rfl threeItems threeItems_fit 2⟩

/-- **Walks go round**: after every run the steps of a walk, upwards or downwards, come to the items in their order,
each once, then to none, and from there to the first one again. -/
theorem walks_go_round (hcmp : CompareBy cmp key) (hnew : rbCreate α true = some s) (ops : List (RbOp α))
    (hfits : Mealy.Along Fits ordCall (.empty : OrdTable key) ops)
    (hsize : (Mealy.run ordCall (.empty : OrdTable key) ops).2.count < 2 ^ 25 - 2) (d : Bool) (n : Nat) :
    let o : OrdTable key := (Mealy.run ordCall .empty ops).2
    ∃ tr, walk cmp d (Mealy.run (call cmp) s ops).2 n = some (tr, (o.inOrder d)[n % (o.count + 1)]?) := by
  obtain ⟨tr, hrun, -⟩ := walk_eq hcmp (run_models hcmp hnew hfits).2 hsize (d := d) n
  exact ⟨tr, hrun⟩

/-- The third step of a walk over two items comes to none, the fourth to the first one. -/
theorem walks_go_round_three : ∃ s tr tr', rbCreate Int true = some s ∧
    walk (fun x y => x - y) true (Mealy.run (call fun x y => x - y) s threeItems).2 2 = some (tr, none) ∧
    walk (fun x y => x - y) true (Mealy.run (call fun x y => x - y) s threeItems).2 3 = some (tr', some 1) := by
  obtain ⟨tr, hthird⟩ := walks_go_round compareBy_sub rfl threeItems threeItems_fit (by decide) true 2
  obtain ⟨tr', hfourth⟩ := walks_go_round compareBy_sub rfl threeItems threeItems_fit (by decide) true 3
  exact ⟨_, tr, tr', rfl, hthird, hfourth⟩

/-- **A table is destroyed once**: after every run `rb_destroy` passes the items to the caller in their order, and
each node that the run has allocated is freed then, and has been freed once. -/
theorem table_destroyed_once (hcmp : CompareBy cmp key) (hnew : rbCreate α true = some s) (ops : List (RbOp α))
    (hfits : Mealy.Along Fits ordCall (.empty : OrdTable key) ops) :
    ∃ s', rbDestroy (Mealy.run (call cmp) s ops).2 = some (s', (Mealy.run ordCall (.empty : OrdTable key) ops).2.items) ∧
      s'.nodes.freed.Perm (List.range s'.nodes.brk) ∧ ∀ a, s'.nodes.cells a = none :=
  rbDestroy_eq (run_models hcmp hnew hfits).2

theorem table_destroyed_once_three : ∃ s s', rbCreate Int true = some s ∧
    rbDestroy (Mealy.run (call fun x y => x - y) s threeItems).2 = some (s', [1, 2]) := by
  obtain ⟨s', hrun, -⟩ := table_destroyed_once compareBy_sub rfl threeItems threeItems_fit
  exact ⟨_, s', rfl, hrun⟩

end Runs

end ComplexSim.Rb
