import ComplexSim.Lib.Heap
import ComplexSim.Lib.RedBlack

/-!
# Nodes and tables in memory (`avl-2.0/src/rb.c`)

A table owns the memory of its nodes. What reads or writes through a pointer that is null or
freed has no result, and neither has a step past the end of one of the arrays of
`RB_MAX_HEIGHT` entries, or an assertion that fails. The memory of the items is the caller's:
an item is whatever the comparison function makes of a `void *`.

The two links of a node are read and written by their index, so that what the source says twice,
once for each side, is said once.
-/

namespace ComplexSim.Rb

open RedBlack (Color)

/-- `RB_MAX_HEIGHT`. -/
def rbMaxHeight : Nat := 48

/-- `struct rb_node *`; `table` is the address of `rb_root`, taken for the address of a node. -/
inductive RbPtr where
  | null
  | table
  | node (a : Nat)
  deriving DecidableEq, Repr

/-- `struct rb_node`. -/
structure RbNode (α : Type) where
  rbLink0 : RbPtr
  rbLink1 : RbPtr
  rbData : α
  rbColor : Color
  deriving DecidableEq, Repr

/-- `struct rb_table`, with the memory of its nodes. -/
structure RbTable (α : Type) where
  rbRoot : RbPtr
  /-- a `size_t` -/
  rbCount : Nat
  /-- an `unsigned long` -/
  rbGeneration : Nat
  nodes : Heap (RbNode α)

/-- `rb_comparison_func`, its extra argument left out. -/
abbrev RbCompare (α : Type) := α → α → Int

/-- The arrays `pa` and `da`, the entry `k - 1` first. -/
abbrev RbStack := List (RbPtr × Bool)

variable {α : Type}

namespace RbNode

/-- `rb_link[d]`. -/
def link (n : RbNode α) (d : Bool) : RbPtr := if d then n.rbLink1 else n.rbLink0

def setLink (n : RbNode α) (d : Bool) (q : RbPtr) : RbNode α :=
  if d then { n with rbLink1 := q } else { n with rbLink0 := q }

def setColor (n : RbNode α) (c : Color) : RbNode α := { n with rbColor := c }

def setData (n : RbNode α) (x : α) : RbNode α := { n with rbData := x }

/-- The node with the link `q` on side `d`. -/
def of (d : Bool) (c : Color) (q : RbPtr) (x : α) (q' : RbPtr) : RbNode α :=
  if d then ⟨q', q, x, c⟩ else ⟨q, q', x, c⟩

section Links

variable {d : Bool} {c c' : Color} {q q' r : RbPtr} {x y : α}

@[simp] theorem link_of : (of d c q x q').link d = q := by cases d <;> rfl

@[simp] theorem link_of_not : (of d c q x q').link (!d) = q' := by cases d <;> rfl

@[simp] theorem setLink_of : (of d c q x q').setLink d r = of d c r x q' := by cases d <;> rfl

@[simp] theorem setLink_of_not : (of d c q x q').setLink (!d) r = of d c q x r := by cases d <;> rfl

@[simp] theorem link_of_true : (of true c q x q').link false = q' := rfl

@[simp] theorem link_of_false : (of false c q x q').link true = q' := rfl

@[simp] theorem setLink_of_true : (of true c q x q').setLink false r = of true c q x r := rfl

@[simp] theorem setLink_of_false : (of false c q x q').setLink true r = of false c q x r := rfl

@[simp] theorem of_not : (of (!d) c q x q') = of d c q' x q := by cases d <;> rfl

@[simp] theorem rbColor_of : (of d c q x q').rbColor = c := by cases d <;> rfl

@[simp] theorem rbData_of : (of d c q x q').rbData = x := by cases d <;> rfl

@[simp] theorem setColor_of : (of d c q x q').setColor c' = of d c' q x q' := by cases d <;> rfl

@[simp] theorem setData_of : (of d c q x q').setData y = of d c q y q' := by cases d <;> rfl

end Links

end RbNode

namespace RbTable

/-- The node at a pointer. -/
def deref (s : RbTable α) : RbPtr → Option (RbNode α)
  | .node a => s.nodes.cells a
  | _ => none

/-- Write a node that is there. -/
def put (s : RbTable α) (a : Nat) (n : RbNode α) : RbTable α :=
  { s with nodes := { s.nodes with cells := Function.update s.nodes.cells a (some n) } }

/-- `p->rb_link[d]`. -/
def link (s : RbTable α) : RbPtr → Bool → Option RbPtr
  | .table, false => some s.rbRoot
  | p, d => (s.deref p).map (·.link d)

/-- `p->rb_data`. -/
def data (s : RbTable α) (p : RbPtr) : Option α := (s.deref p).map RbNode.rbData

/-- `p->rb_color`. -/
def color (s : RbTable α) (p : RbPtr) : Option Color := (s.deref p).map RbNode.rbColor

/-- `p->rb_link[d] = q`. -/
def setLink (s : RbTable α) : RbPtr → Bool → RbPtr → Option (RbTable α)
  | .table, false, q => some { s with rbRoot := q }
  | .node a, d, q => (s.nodes.cells a).map fun n => s.put a (n.setLink d q)
  | _, _, _ => none

/-- `p->rb_color = c`. -/
def setColor (s : RbTable α) : RbPtr → Color → Option (RbTable α)
  | .node a, c => (s.nodes.cells a).map fun n => s.put a (n.setColor c)
  | _, _ => none

/-- `p->rb_data = x`. -/
def setData (s : RbTable α) : RbPtr → α → Option (RbTable α)
  | .node a, x => (s.nodes.cells a).map fun n => s.put a (n.setData x)
  | _, _ => none

/-- `p != NULL && p->rb_color == RB_RED`. -/
def isRed (s : RbTable α) : RbPtr → Option Bool
  | .null => some false
  | p => (s.color p).map fun c => c = .red

section Access

variable {s : RbTable α} {a b : Nat} {d : Bool} {n : RbNode α} {q : RbPtr} {c : Color} {x : α}

@[simp] theorem deref_node : s.deref (.node a) = s.nodes.cells a := rfl

@[simp] theorem put_rbRoot : (s.put a n).rbRoot = s.rbRoot := rfl

theorem put_cells : (s.put a n).nodes.cells b = if b = a then some n else s.nodes.cells b := by
  simp [put, Function.update_apply]

@[simp] theorem put_cells_self : (s.put a n).nodes.cells a = some n := by simp [put_cells]

theorem put_cells_of_ne (h : b ≠ a) : (s.put a n).nodes.cells b = s.nodes.cells b := by simp [put_cells, h]

section Overwrite

variable {a b c : Nat} {n m k l : RbNode α}

/-- Of several writes to a node the last one counts. -/
@[simp] theorem put_put : (s.put a n).put a m = s.put a m := by simp [put]

@[simp] theorem put_put_one (hb : b ≠ a) : ((s.put a n).put b m).put a k = (s.put b m).put a k := by
  simp only [put, Function.update_comm hb, Function.update_idem]

@[simp] theorem put_put_two (hb : b ≠ a) (hc : c ≠ a) :
    (((s.put a n).put b m).put c l).put a k = ((s.put b m).put c l).put a k := by
  simp only [put, Function.update_comm hb, Function.update_comm hc, Function.update_idem]

end Overwrite

@[simp] theorem link_table : s.link .table false = some s.rbRoot := rfl

@[simp] theorem link_node : s.link (.node a) d = (s.nodes.cells a).map (·.link d) := by cases d <;> rfl

@[simp] theorem data_node : s.data (.node a) = (s.nodes.cells a).map RbNode.rbData := rfl

@[simp] theorem color_node : s.color (.node a) = (s.nodes.cells a).map RbNode.rbColor := rfl

@[simp] theorem setLink_node :
    s.setLink (.node a) d q = (s.nodes.cells a).map fun n => s.put a (n.setLink d q) := by cases d <;> rfl

@[simp] theorem setColor_node :
    s.setColor (.node a) c = (s.nodes.cells a).map fun n => s.put a (n.setColor c) := rfl

@[simp] theorem setData_node :
    s.setData (.node a) x = (s.nodes.cells a).map fun n => s.put a (n.setData x) := rfl

@[simp] theorem isRed_null : s.isRed .null = some false := rfl

@[simp] theorem isRed_node : s.isRed (.node a) = (s.nodes.cells a).map fun n => decide (n.rbColor = .red) := by
  simp [isRed, Function.comp_def]

end Access

/-- What a change of links, colours and items leaves alone. -/
structure Same (s s' : RbTable α) : Prop where
  count : s'.rbCount = s.rbCount
  generation : s'.rbGeneration = s.rbGeneration
  brk : s'.nodes.brk = s.nodes.brk
  freed : s'.nodes.freed = s.nodes.freed
  allocated : ∀ a, (s'.nodes.cells a).isSome = (s.nodes.cells a).isSome

section Same

variable {s s' s'' : RbTable α} {a : Nat} {n : RbNode α}

theorem Same.rfl : Same s s := ⟨.refl _, .refl _, .refl _, .refl _, fun _ => .refl _⟩

theorem Same.trans (h : Same s s') (h' : Same s' s'') : Same s s'' where
  count := h'.count.trans h.count
  generation := h'.generation.trans h.generation
  brk := h'.brk.trans h.brk
  freed := h'.freed.trans h.freed
  allocated := fun a => (h'.allocated a).trans (h.allocated a)

theorem same_put (h : s.nodes.cells a ≠ none) : Same s (s.put a n) := by
  refine ⟨.refl _, .refl _, .refl _, .refl _, fun b => ?_⟩
  rw [put_cells]
  split
  · rename_i hb
    rw [hb]
    exact (Option.isSome_iff_ne_none.2 h).symm
  · exact .refl _

theorem Same.sound (h : Same s s') (hs : s.nodes.Sound) : s'.nodes.Sound := by
  have hnone : ∀ a, s'.nodes.cells a = none ↔ s.nodes.cells a = none := by
    intro a
    rw [← Option.isNone_iff_eq_none, ← Option.isNone_iff_eq_none, ← Option.not_isSome, ← Option.not_isSome,
      h.allocated a]
  refine ⟨fun a ha => ?_, fun a ha => ?_, ?_⟩
  · rw [h.brk] at ha
    exact (hnone a).2 (hs.fresh a ha)
  · rw [h.freed] at ha
    obtain ⟨hlt, hfree⟩ := hs.freed a ha
    exact ⟨by rwa [h.brk], (hnone a).2 hfree⟩
  · rw [h.freed]
    exact hs.nodup

end Same

end RbTable

end ComplexSim.Rb
