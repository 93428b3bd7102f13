import Mathlib.Algebra.Order.Ring.Nat
import Mathlib.Data.List.Nodup

/-!
# Red-black trees and the paths into them

A tree carries a colour and a label at each node. `BlackHeight n t` says that every way down `t`
meets `n` black nodes and that no red node has a red child. A path is what stands above a
subtree, the nearest node first: each frame says on which side the subtree hangs, and carries
the node and its other child. `plug` puts a subtree under a path.

The two sides are one: `branch d` is a node whose subtree on side `d` is named first, where
`false` is the left. The lemmas about balance do not mention the side.
-/

universe u

namespace RedBlack

inductive Color where
  | black
  | red
  deriving DecidableEq, Repr

inductive RbTree (α : Type u) where
  | nil
  | node (c : Color) (l : RbTree α) (x : α) (r : RbTree α)
  deriving DecidableEq, Repr

theorem Color.not_red {c : Color} : ¬ c = .red ↔ c = .black := by cases c <;> simp

variable {α : Type u}

namespace RbTree

/-- The empty tree is black. -/
def color : RbTree α → Color
  | nil => .black
  | node c _ _ _ => c

/-- The tree with the colour `c` at its root. -/
def paint (c : Color) : RbTree α → RbTree α
  | nil => nil
  | node _ l x r => node c l x r

/-- The labels from left to right. -/
def toList : RbTree α → List α
  | nil => []
  | node _ l x r => l.toList ++ x :: r.toList

def size : RbTree α → Nat
  | nil => 0
  | node _ l _ r => l.size + r.size + 1

def height : RbTree α → Nat
  | nil => 0
  | node _ l _ r => max l.height r.height + 1

/-- The node with `t` on side `d` and `s` on the other. -/
def branch (d : Bool) (c : Color) (t : RbTree α) (x : α) (s : RbTree α) : RbTree α :=
  if d then node c s x t else node c t x s

/-- The subtree on side `d`. -/
def child (d : Bool) : RbTree α → RbTree α
  | nil => nil
  | node _ l _ r => if d then r else l

/-- No red node next below the root. -/
def BlackChildren (t : RbTree α) : Prop := (t.child false).color = .black ∧ (t.child true).color = .black

instance (t : RbTree α) : Decidable t.BlackChildren := by
  unfold BlackChildren
  infer_instance

/-- Every way down meets `n` black nodes, and no red node has a red child. -/
def BlackHeight : Nat → RbTree α → Prop
  | n, nil => n = 0
  | n, node .red l _ r => l.color = .black ∧ r.color = .black ∧ BlackHeight n l ∧ BlackHeight n r
  | 0, node .black _ _ _ => False
  | n + 1, node .black l _ r => BlackHeight n l ∧ BlackHeight n r

section Basic

variable {d : Bool} {c : Color} {n : Nat} {x : α} {l r s t : RbTree α}

@[simp] theorem color_nil : (nil : RbTree α).color = .black := rfl

@[simp] theorem color_node : (node c l x r).color = c := rfl

@[simp] theorem color_branch : (branch d c t x s).color = c := by cases d <;> rfl

theorem branch_not : branch (!d) c t x s = branch d c s x t := by cases d <;> rfl

@[simp] theorem branch_ne_nil : branch d c t x s ≠ nil := by cases d <;> simp [branch]

@[simp] theorem child_branch : (branch d c t x s).child d = t := by cases d <;> rfl

@[simp] theorem child_branch_not : (branch d c t x s).child (!d) = s := by cases d <;> rfl

@[simp] theorem paint_branch {c' : Color} : (branch d c t x s).paint c' = branch d c' t x s := by cases d <;> rfl

theorem blackChildren_branch : (branch d c t x s).BlackChildren ↔ t.color = .black ∧ s.color = .black := by
  cases d <;> simp [BlackChildren, branch, child, and_comm]

@[simp] theorem size_nil : (nil : RbTree α).size = 0 := rfl

@[simp] theorem size_branch : (branch d c t x s).size = t.size + s.size + 1 := by
  cases d <;> simp [branch, size]
  omega

@[simp] theorem toList_paint : (t.paint c).toList = t.toList := by cases t <;> rfl

theorem paint_of_color (h : t.color = c) : t.paint c = t := by
  cases t with
  | nil => rfl
  | node c' l x r =>
      obtain rfl : c' = c := h
      rfl

@[simp] theorem paint_black_color : (t.paint .black).color = .black := by cases t <;> rfl

theorem length_toList (t : RbTree α) : t.toList.length = t.size := by
  induction t with
  | nil => rfl
  | node c l x r ihl ihr =>
      simp only [toList, size, List.length_append, List.length_cons, ihl, ihr]
      omega

/-- A red tree is a node on either side. -/
theorem exists_branch (d : Bool) (h : t ≠ nil) : ∃ c s x s', t = branch d c s x s' := by
  cases t with
  | nil => exact absurd rfl h
  | node c l x r =>
      cases d with
      | false => exact ⟨c, l, x, r, rfl⟩
      | true => exact ⟨c, r, x, l, rfl⟩

theorem ne_nil_of_red (h : t.color = .red) : t ≠ nil := by
  rintro rfl
  cases h

@[simp] theorem balanced_nil : BlackHeight n (nil : RbTree α) ↔ n = 0 := by cases n <;> simp [BlackHeight]

@[simp] theorem balanced_red :
    BlackHeight n (branch d .red t x s) ↔ t.color = .black ∧ s.color = .black ∧ BlackHeight n t ∧ BlackHeight n s := by
  cases d <;> cases n <;> simp only [branch, BlackHeight, if_true, Bool.false_eq_true, if_false]
  all_goals constructor <;> (rintro ⟨h₁, h₂, h₃, h₄⟩; exact ⟨h₂, h₁, h₄, h₃⟩)

theorem balanced_black :
    BlackHeight n (branch d .black t x s) ↔ ∃ m, n = m + 1 ∧ BlackHeight m t ∧ BlackHeight m s := by
  cases d <;> cases n <;> simp [branch, BlackHeight, and_comm]

@[simp] theorem balanced_black_succ :
    BlackHeight (n + 1) (branch d .black t x s) ↔ BlackHeight n t ∧ BlackHeight n s := by
  rw [balanced_black]
  constructor
  · rintro ⟨m, hm, ht, hs⟩
    obtain rfl : n = m := by omega
    exact ⟨ht, hs⟩
  · rintro ⟨ht, hs⟩
    exact ⟨n, rfl, ht, hs⟩

/-- A tree with a black node on each way down is not empty. -/
theorem BlackHeight.ne_nil (h : BlackHeight (n + 1) t) : t ≠ nil := by
  rintro rfl
  simp at h

/-- To blacken a red root adds one to the black height. -/
theorem BlackHeight.paint_black (h : BlackHeight n t) (hc : t.color = .red) : BlackHeight (n + 1) (t.paint .black) := by
  obtain ⟨c, s, x, s', rfl⟩ := exists_branch false (ne_nil_of_red hc)
  rw [color_branch] at hc
  subst hc
  obtain ⟨-, -, hs, hs'⟩ := balanced_red.1 h
  exact ⟨hs, hs'⟩

/-- To redden a black root with black children takes one from it. -/
theorem BlackHeight.paint_red (h : BlackHeight (n + 1) t) (hc : t.color = .black) (hb : t.BlackChildren) :
    BlackHeight n (t.paint .red) := by
  obtain ⟨c, s, x, s', rfl⟩ := exists_branch false h.ne_nil
  rw [color_branch] at hc
  subst hc
  rw [blackChildren_branch] at hb
  rw [paint_branch, balanced_red]
  exact ⟨hb.1, hb.2, balanced_black_succ.1 h⟩

/-- A balanced tree has at least the nodes of the full tree of its black height. -/
theorem BlackHeight.le_size (h : BlackHeight n t) : 2 ^ n ≤ t.size + 1 := by
  induction t generalizing n with
  | nil =>
      rw [balanced_nil.1 h, Nat.pow_zero]
      omega
  | node c l x r ihl ihr =>
      cases c with
      | red =>
          obtain ⟨-, -, hl, hr⟩ : l.color = .black ∧ r.color = .black ∧ BlackHeight n l ∧ BlackHeight n r := by
            cases n <;> exact h
          have hl := ihl hl
          have hr := ihr hr
          simp only [size]
          omega
      | black =>
          cases n with
          | zero => exact absurd h not_false
          | succ n =>
              have hl := ihl h.1
              have hr := ihr h.2
              simp only [size]
              rw [Nat.pow_succ]
              omega

/-- No way down has more red nodes than black ones, but for a red root. -/
theorem BlackHeight.height_le (h : BlackHeight n t) :
    t.height ≤ 2 * n + 1 ∧ (t.color = .black → t.height ≤ 2 * n) := by
  induction t generalizing n with
  | nil =>
      simp only [height]
      omega
  | node c l x r ihl ihr =>
      cases c with
      | red =>
          obtain ⟨hlc, hrc, hl, hr⟩ : l.color = .black ∧ r.color = .black ∧ BlackHeight n l ∧ BlackHeight n r := by
            cases n <;> exact h
          have hl := (ihl hl).2 hlc
          have hr := (ihr hr).2 hrc
          refine ⟨?_, fun hc => absurd hc (by simp)⟩
          simp only [height]
          omega
      | black =>
          cases n with
          | zero => exact absurd h not_false
          | succ n =>
              have hl := (ihl h.1).1
              have hr := (ihr h.2).1
              simp only [height]
              omega

end Basic

section Height

/-- The fewest nodes of a balanced tree of height `h` with a black root. -/
def minSize : Nat → Nat
  | 0 => 0
  | 1 => 1
  | h + 2 => 2 * minSize h + 2

/-- Full levels beside a way down of `h` nodes, every second one red. -/
theorem minSize_le_pow (h n : Nat) (hn : h ≤ 2 * n) : minSize h + 2 ≤ 2 * 2 ^ n := by
  induction h using minSize.induct generalizing n with
  | case1 =>
      have := Nat.one_le_two_pow (n := n)
      simp only [minSize]
      omega
  | case2 =>
      cases n with
      | zero => omega
      | succ n =>
          have := Nat.one_le_two_pow (n := n)
          simp only [minSize, Nat.pow_succ]
          omega
  | case3 h ih =>
      cases n with
      | zero => omega
      | succ n =>
          have := ih n (by omega)
          simp only [minSize, Nat.pow_succ]
          omega

theorem minSize_succ_le (h n : Nat) (hn : h ≤ 2 * n) : minSize (h + 1) ≤ minSize h + 2 ^ n := by
  induction h using minSize.induct generalizing n with
  | case1 =>
      have := Nat.one_le_two_pow (n := n)
      simp only [minSize]
      omega
  | case2 =>
      cases n with
      | zero => omega
      | succ n =>
          have := Nat.one_le_two_pow (n := n)
          simp only [minSize, Nat.pow_succ]
          omega
  | case3 h ih =>
      cases n with
      | zero => omega
      | succ n =>
          have := ih n (by omega)
          simp only [minSize, Nat.pow_succ]
          omega

variable {n : Nat} {c : Color} {x : α} {l r t : RbTree α}

/-- The two sizes that a balanced tree is compared with, by the colour of its root. -/
def Wide (n : Nat) (t : RbTree α) : Prop :=
  match t.color with
  | .black => minSize t.height ≤ t.size
  | .red => ∀ h, t.height = h + 1 → minSize h + 2 ^ n ≤ t.size

/-- A node is wide, if its higher child is. -/
theorem wide_node {k : Nat} {s : RbTree α} (hs : Wide k s) (hbal : BlackHeight k s)
    (hk : n = if c = .black then k + 1 else k) (hsc : c = .red → s.color = .black)
    (hheight : (node c l x r).height = s.height + 1) (hsize : s.size + 2 ^ k ≤ (node c l x r).size) :
    Wide n (node c l x r) := by
  have hle := hbal.height_le
  cases c with
  | red =>
      have hblack := hsc rfl
      intro h hh
      rw [Wide, hblack] at hs
      obtain rfl : h = s.height := by omega
      simp only [reduceCtorEq, if_false] at hk
      subst hk
      omega
  | black =>
      show minSize _ ≤ _
      rw [hheight]
      cases hsc' : s.color with
      | black =>
          rw [Wide, hsc'] at hs
          have := minSize_succ_le s.height k (hle.2 hsc')
          omega
      | red =>
          rw [Wide, hsc'] at hs
          obtain ⟨h, hh⟩ : ∃ h, s.height = h + 1 := by
            cases s with
            | nil => cases hsc'
            | node c l x r => exact ⟨_, rfl⟩
          have := minSize_le_pow h k (by omega)
          have := hs h hh
          rw [hh, minSize]
          omega

theorem BlackHeight.wide (h : BlackHeight n t) : Wide n t := by
  induction t generalizing n with
  | nil => exact Nat.le_refl 0
  | node c l x r ihl ihr =>
      obtain ⟨k, hk, hl, hr, hlc, hrc⟩ : ∃ k, n = (if c = .black then k + 1 else k) ∧ BlackHeight k l ∧ BlackHeight k r ∧
          (c = .red → l.color = .black) ∧ (c = .red → r.color = .black) := by
        cases c with
        | red =>
            obtain ⟨hlc, hrc, hl, hr⟩ := balanced_red (d := false).1 h
            exact ⟨n, by simp, hl, hr, fun _ => hlc, fun _ => hrc⟩
        | black =>
            obtain ⟨k, hk, hl, hr⟩ := balanced_black (d := false).1 h
            exact ⟨k, by simpa using hk, hl, hr, by simp, by simp⟩
      have hls := hl.le_size
      have hrs := hr.le_size
      rcases Nat.le_total r.height l.height with hle | hle
      · apply wide_node (ihl hl) hl hk hlc
        · simp only [height]
          omega
        · simp only [size]
          omega
      · apply wide_node (ihr hr) hr hk hrc
        · simp only [height]
          omega
        · simp only [size]
          omega

/-- The height of a red-black tree, from its size. -/
theorem BlackHeight.minSize_le (h : BlackHeight n t) (hc : t.color = .black) : minSize t.height ≤ t.size := by
  have hw := h.wide
  rwa [Wide, hc] at hw

theorem minSize_mono : Monotone minSize := by
  apply monotone_nat_of_le_succ
  intro h
  induction h using minSize.induct with
  | case1 => decide
  | case2 => decide
  | case3 h ih =>
      simp only [minSize]
      omega

end Height

end RbTree

end RedBlack
