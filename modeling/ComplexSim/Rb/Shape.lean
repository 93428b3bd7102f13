import ComplexSim.Lib.RedBlackPath
import ComplexSim.Rb.Node

/-!
# The tree that a table holds in memory

The shape of a table is a red-black tree whose labels are addresses with their items. `Shows`
says that the memory holds the tree `t` at the end of the path `p`, from `rb_root` on and at
addresses that are all different; the stack of a walk along `p` is `stack p`. What the code
writes next to the end of the path does not touch the rest (`Reps.congr`, `Holds.congr`), and
what it writes into the last link of the path is what hangs there then (`Holds.setLink`).
-/

namespace ComplexSim.Rb

open RedBlack RbTree RbTable

/-- An address with its item. -/
abbrev RbLabel (α : Type) := Nat × α

variable {α : Type}

def ptr : RbTree (RbLabel α) → RbPtr
  | .nil => .null
  | .node _ _ x _ => .node x.1

/-- Each node of the tree is in memory, with its links. -/
def Reps (cells : Nat → Option (RbNode α)) : RbTree (RbLabel α) → Prop
  | .nil => True
  | .node c l x r => cells x.1 = some ⟨ptr l, ptr r, x.2, c⟩ ∧ Reps cells l ∧ Reps cells r

/-- Each node of the path is in memory, and `q` is the last link. -/
def RepsPath (cells : Nat → Option (RbNode α)) : RbPtr → Path (RbLabel α) → Prop
  | _, [] => True
  | q, f :: p => cells f.label.1 = some (.of f.dir f.color q f.label.2 (ptr f.sib)) ∧ Reps cells f.sib ∧
      RepsPath cells (.node f.label.1) p

/-- The root above the link `q` at the end of a path. -/
def rootPtr : RbPtr → Path (RbLabel α) → RbPtr
  | q, [] => q
  | _, f :: p => rootPtr (.node f.label.1) p

/-- The stack at the end of a path. -/
def stack : Path (RbLabel α) → RbStack
  | [] => [(.table, false)]
  | f :: p => (.node f.label.1, f.dir) :: stack p

def addrs (t : RbTree (RbLabel α)) : List Nat := t.toList.map Prod.fst

def pathAddrs (p : Path (RbLabel α)) : List Nat := (Path.before p ++ Path.after p).map Prod.fst

/-- The address is of no node of the tree. -/
def Fresh (a : Nat) (t : RbTree (RbLabel α)) : Prop := a ∉ addrs t

def FreshPath (a : Nat) (p : Path (RbLabel α)) : Prop := a ∉ pathAddrs p

/-- The trees share no node. -/
def Far (t s : RbTree (RbLabel α)) : Prop := (addrs t).Disjoint (addrs s)

def FarPath (t : RbTree (RbLabel α)) (p : Path (RbLabel α)) : Prop := (addrs t).Disjoint (pathAddrs p)

def FarPaths (p q : Path (RbLabel α)) : Prop := (pathAddrs p).Disjoint (pathAddrs q)

/-- The items from left to right. -/
def items (t : RbTree (RbLabel α)) : List α := t.toList.map Prod.snd

/-- The memory holds the path `p` with `q` as its last link. -/
structure Holds (s : RbTable α) (q : RbPtr) (p : Path (RbLabel α)) : Prop where
  path : RepsPath s.nodes.cells q p
  root : s.rbRoot = rootPtr q p

/-- The memory holds the tree `t` at the end of the path `p`. -/
structure Shows (s : RbTable α) (t : RbTree (RbLabel α)) (p : Path (RbLabel α)) : Prop where
  tree : Reps s.nodes.cells t
  holds : Holds s (ptr t) p
  nodup : (addrs (plug t p)).Nodup

section Addresses

variable {d : Bool} {c : Color} {x : RbLabel α} {t s u : RbTree (RbLabel α)} {f : Frame (RbLabel α)}
  {p q : Path (RbLabel α)} {a : Nat}

@[simp] theorem ptr_nil : ptr (.nil : RbTree (RbLabel α)) = .null := rfl

@[simp] theorem ptr_node {l r : RbTree (RbLabel α)} : ptr (.node c l x r) = .node x.1 := rfl

@[simp] theorem ptr_branch : ptr (branch d c t x s) = .node x.1 := by cases d <;> rfl

@[simp] theorem ptr_paint : ptr (t.paint c) = ptr t := by cases t <;> rfl

@[simp] theorem ptr_eq_null : ptr t = .null ↔ t = .nil := by cases t <;> simp [ptr]

@[simp] theorem addrs_nil : addrs (.nil : RbTree (RbLabel α)) = [] := rfl

@[simp] theorem mem_addrs_branch : a ∈ addrs (branch d c t x s) ↔ a = x.1 ∨ a ∈ addrs t ∨ a ∈ addrs s := by
  unfold addrs
  cases d <;> simp only [toList_branch, if_true, if_false, Bool.false_eq_true, List.map_append, List.map_cons,
    List.mem_append, List.mem_cons] <;> tauto

theorem fresh_nil : Fresh a (.nil : RbTree (RbLabel α)) := by simp [Fresh]

theorem fresh_branch : Fresh a (branch d c t x s) ↔ a ≠ x.1 ∧ x.1 ≠ a ∧ Fresh a t ∧ Fresh a s := by
  unfold Fresh
  rw [mem_addrs_branch]
  constructor
  · intro h
    exact ⟨fun ha => h (Or.inl ha), fun ha => h (Or.inl ha.symm), fun ha => h (Or.inr (Or.inl ha)),
      fun ha => h (Or.inr (Or.inr ha))⟩
  · rintro ⟨hne, -, ht, hs⟩ (ha | ha | ha)
    · exact hne ha
    · exact ht ha
    · exact hs ha

theorem far_branch : Far (branch d c t x s) u ↔ Fresh x.1 u ∧ Far t u ∧ Far s u := by
  unfold Far Fresh
  simp only [List.disjoint_left, mem_addrs_branch]
  constructor
  · exact fun h => ⟨h (Or.inl rfl), fun b hb => h (Or.inr (Or.inl hb)), fun b hb => h (Or.inr (Or.inr hb))⟩
  · rintro ⟨hx, ht, hs⟩ b (rfl | hb | hb)
    · exact hx
    · exact ht hb
    · exact hs hb

theorem far_comm : Far t s ↔ Far s t := List.disjoint_comm

theorem far_branch_right : Far u (branch d c t x s) ↔ Fresh x.1 u ∧ Far u t ∧ Far u s := by
  rw [far_comm, far_branch, far_comm, far_comm (t := s)]

theorem farPath_branch : FarPath (branch d c t x s) p ↔ FreshPath x.1 p ∧ FarPath t p ∧ FarPath s p := by
  unfold FarPath FreshPath
  simp only [List.disjoint_left, mem_addrs_branch]
  constructor
  · exact fun h => ⟨h (Or.inl rfl), fun b hb => h (Or.inr (Or.inl hb)), fun b hb => h (Or.inr (Or.inr hb))⟩
  · rintro ⟨hx, ht, hs⟩ b (rfl | hb | hb)
    · exact hx
    · exact ht hb
    · exact hs hb

theorem nodup_addrs_branch : (addrs (branch d c t x s)).Nodup ↔
    Fresh x.1 t ∧ Fresh x.1 s ∧ (addrs t).Nodup ∧ (addrs s).Nodup ∧ Far t s := by
  unfold addrs Far Fresh
  cases d <;> simp only [toList_branch, if_true, if_false, Bool.false_eq_true, List.map_append, List.map_cons,
    List.nodup_append', List.nodup_cons, List.disjoint_cons_right, addrs]
  · tauto
  · constructor
    · rintro ⟨h₁, ⟨h₂, h₃⟩, h₄, h₅⟩
      exact ⟨h₂, h₄, h₃, h₁, h₅.symm⟩
    · rintro ⟨h₁, h₂, h₃, h₄, h₅⟩
      exact ⟨h₄, ⟨h₁, h₃⟩, h₂, h₅.symm⟩

/-- The addresses of a tree and of the path it hangs from are different. -/
theorem nodup_addrs_plug : (addrs (plug t p)).Nodup ↔
    (addrs t).Nodup ∧ (pathAddrs p).Nodup ∧ FarPath t p := by
  have hperm : (addrs (plug t p)).Perm (addrs t ++ pathAddrs p) := by
    unfold addrs pathAddrs
    rw [toList_plug, ← List.map_append]
    apply List.Perm.map
    rw [List.append_assoc, ← List.append_assoc t.toList]
    exact (List.perm_append_comm_assoc _ _ _).trans (by rw [List.append_assoc])
  rw [hperm.nodup_iff, List.nodup_append', FarPath]

theorem mem_addrs_plug : a ∈ addrs (plug t p) ↔ a ∈ addrs t ∨ a ∈ pathAddrs p := by
  unfold addrs pathAddrs
  simp only [toList_plug, List.map_append, List.mem_append]
  tauto

theorem fresh_plug : Fresh a (plug t p) ↔ Fresh a t ∧ FreshPath a p := by
  unfold Fresh FreshPath
  rw [mem_addrs_plug, not_or]

theorem far_plug : Far (plug t p) s ↔ Far t s ∧ FarPath s p := by
  unfold Far FarPath
  simp only [List.disjoint_left, mem_addrs_plug]
  exact ⟨fun h => ⟨fun b hb => h (Or.inl hb), fun b hs hb => h (Or.inr hb) hs⟩,
    fun ⟨ht, hp⟩ b hb => hb.elim (fun hb => ht hb) fun hb hs => hp hs hb⟩

theorem farPath_plug : FarPath (plug t p) q ↔ FarPath t q ∧ FarPaths p q := by
  unfold FarPath FarPaths
  simp only [List.disjoint_left, mem_addrs_plug]
  exact ⟨fun h => ⟨fun b hb => h (Or.inl hb), fun b hb => h (Or.inr hb)⟩,
    fun ⟨ht, hp⟩ b hb => hb.elim (fun hb => ht hb) fun hb => hp hb⟩

@[simp] theorem mem_pathAddrs_nil : ¬ a ∈ pathAddrs ([] : Path (RbLabel α)) := by
  simp [pathAddrs, Path.before, Path.after]

@[simp] theorem mem_pathAddrs_cons :
    a ∈ pathAddrs (f :: p) ↔ a = f.label.1 ∨ a ∈ addrs f.sib ∨ a ∈ pathAddrs p := by
  obtain ⟨d, c, x, s⟩ := f
  unfold pathAddrs addrs
  cases d <;> simp only [Path.before, Path.after, if_true, if_false, Bool.false_eq_true, List.map_append, List.map_cons,
    List.mem_append, List.mem_cons, List.append_nil, List.nil_append, List.map_nil, List.not_mem_nil, or_false] <;>
    tauto

theorem length_addrs (t : RbTree (RbLabel α)) : (addrs t).length = t.size := by
  rw [addrs, List.length_map, length_toList]

end Addresses

section Represent

variable {cells cells' : Nat → Option (RbNode α)} {d : Bool} {c : Color} {x : RbLabel α} {q : RbPtr}
  {t t' : RbTree (RbLabel α)} {f : Frame (RbLabel α)} {p : Path (RbLabel α)} {s s' : RbTable α}

@[simp] theorem reps_nil : Reps cells .nil := trivial

@[simp] theorem reps_branch : Reps cells (branch d c t x t') ↔
    cells x.1 = some (.of d c (ptr t) x.2 (ptr t')) ∧ Reps cells t ∧ Reps cells t' := by
  cases d with
  | false => exact Iff.rfl
  | true => exact and_congr_right fun _ => and_comm

/-- A tree is there as long as its nodes do not change. -/
theorem Reps.congr (h : Reps cells t) (hsame : ∀ a ∈ addrs t, cells' a = cells a) : Reps cells' t := by
  induction t with
  | nil => trivial
  | node c l x r ihl ihr =>
      obtain ⟨hx, hl, hr⟩ := h
      have hmem : ∀ a, a ∈ addrs (.node c l x r) ↔ a = x.1 ∨ a ∈ addrs l ∨ a ∈ addrs r :=
        fun a => mem_addrs_branch (d := false)
      refine ⟨?_, ihl hl fun a ha => ?_, ihr hr fun a ha => ?_⟩
      · rw [hsame x.1 ((hmem _).2 (Or.inl rfl)), hx]
      · exact hsame a ((hmem a).2 (Or.inr (Or.inl ha)))
      · exact hsame a ((hmem a).2 (Or.inr (Or.inr ha)))

theorem RepsPath.congr (h : RepsPath cells q p) (hsame : ∀ a ∈ pathAddrs p, cells' a = cells a) :
    RepsPath cells' q p := by
  induction p generalizing q with
  | nil => trivial
  | cons f p ih =>
      obtain ⟨hf, hsib, hp⟩ := h
      refine ⟨?_, hsib.congr fun a ha => ?_, ih hp fun a ha => ?_⟩
      · rw [hsame _ (mem_pathAddrs_cons.2 (Or.inl rfl)), hf]
      · exact hsame a (mem_pathAddrs_cons.2 (Or.inr (Or.inl ha)))
      · exact hsame a (mem_pathAddrs_cons.2 (Or.inr (Or.inr ha)))

theorem Holds.congr (h : Holds s q p) (hsame : ∀ a ∈ pathAddrs p, s'.nodes.cells a = s.nodes.cells a)
    (hroot : s'.rbRoot = s.rbRoot) : Holds s' q p :=
  ⟨h.path.congr hsame, hroot.trans h.root⟩

@[simp] theorem reps_put {a : Nat} {n : RbNode α} (h : Fresh a t) :
    Reps (s.put a n).nodes.cells t ↔ Reps s.nodes.cells t := by
  have hsame : ∀ b ∈ addrs t, (s.put a n).nodes.cells b = s.nodes.cells b :=
    fun b hb => put_cells_of_ne (by rintro rfl; exact h hb)
  exact ⟨fun ht => ht.congr fun b hb => (hsame b hb).symm, fun ht => ht.congr hsame⟩

@[simp] theorem repsPath_put {a : Nat} {n : RbNode α} (h : FreshPath a p) :
    RepsPath (s.put a n).nodes.cells q p ↔ RepsPath s.nodes.cells q p := by
  have hsame : ∀ b ∈ pathAddrs p, (s.put a n).nodes.cells b = s.nodes.cells b :=
    fun b hb => put_cells_of_ne (by rintro rfl; exact h hb)
  exact ⟨fun hp => hp.congr fun b hb => (hsame b hb).symm, fun hp => hp.congr hsame⟩

theorem ptr_plug : ptr (plug t p) = rootPtr (ptr t) p := by
  induction p generalizing t with
  | nil => rfl
  | cons f p ih => rw [plug_cons, ih, Frame.fill, ptr_branch, rootPtr]

/-- A tree is in memory as the path into it and the subtree at its end. -/
theorem reps_plug : Reps cells (plug t p) ↔ Reps cells t ∧ RepsPath cells (ptr t) p := by
  induction p generalizing t with
  | nil => simp [RepsPath]
  | cons f p ih =>
      rw [plug_cons, ih, Frame.fill, reps_branch, ptr_branch, RepsPath]
      tauto

@[simp] theorem length_stack (p : Path (RbLabel α)) : (stack p).length = p.length + 1 := by
  induction p with
  | nil => rfl
  | cons f p ih => rw [stack, List.length_cons, ih, List.length_cons]

theorem stack_append (q : Path (RbLabel α)) :
    stack (q ++ p) = q.map (fun f => (.node f.label.1, f.dir)) ++ stack p := by
  induction q with
  | nil => rfl
  | cons f q ih => rw [List.cons_append, stack, ih, List.map_cons, List.cons_append]

@[simp] theorem holds_put {a : Nat} {n : RbNode α} (h : FreshPath a p) : Holds (s.put a n) q p ↔ Holds s q p := by
  have hsame : ∀ b ∈ pathAddrs p, (s.put a n).nodes.cells b = s.nodes.cells b :=
    fun b hb => put_cells_of_ne (by rintro rfl; exact h hb)
  exact ⟨fun hp => hp.congr (fun b hb => (hsame b hb).symm) rfl, fun hp => hp.congr hsame rfl⟩

/-- To go down one node is to look at the same memory. -/
theorem shows_cons : Shows s t (f :: p) ↔ Shows s (f.fill t) p := by
  constructor
  · rintro ⟨ht, ⟨⟨hf, hsib, hp⟩, hroot⟩, hnd⟩
    refine ⟨reps_branch.2 ⟨hf, ht, hsib⟩, ⟨?_, ?_⟩, hnd⟩
    · rwa [Frame.fill, ptr_branch]
    · rwa [Frame.fill, ptr_branch]
  · rintro ⟨ht, ⟨hp, hroot⟩, hnd⟩
    obtain ⟨hf, ht, hsib⟩ := reps_branch.1 ht
    rw [Frame.fill, ptr_branch] at hp hroot
    exact ⟨ht, ⟨⟨hf, hsib, hp⟩, hroot⟩, hnd⟩

theorem shows_plug : Shows s (plug t p) [] ↔ Shows s t p := by
  induction p generalizing t with
  | nil => rfl
  | cons f p ih => rw [plug_cons, ih, shows_cons]

/-- The last link of a path can be read. -/
theorem Holds.link (h : Holds s q p) : ∃ e rest, stack p = e :: rest ∧ s.link e.1 e.2 = some q := by
  cases p with
  | nil => exact ⟨_, _, rfl, by rw [link_table, h.root, rootPtr]⟩
  | cons f p =>
      refine ⟨_, _, rfl, ?_⟩
      rw [link_node, h.path.1]
      simp

/-- To write what the last link is changes nothing. -/
theorem Holds.setLink_self (h : Holds s q p) : ∃ e rest, stack p = e :: rest ∧ s.setLink e.1 e.2 q = some s := by
  cases p with
  | nil =>
      refine ⟨_, _, rfl, ?_⟩
      have hroot : s.rbRoot = q := h.root
      rw [← hroot]
      rfl
  | cons f p =>
      refine ⟨_, _, rfl, ?_⟩
      have hf := h.path.1
      rw [setLink_node, hf, Option.map_some, RbNode.setLink_of, put, ← hf, Function.update_eq_self]

/-- The last link of a path can be written, and nothing else changes. -/
theorem Holds.setLink (h : Holds s q p) (hnd : (pathAddrs p).Nodup) (q' : RbPtr) :
    ∃ e rest s', stack p = e :: rest ∧ s.setLink e.1 e.2 q' = some s' ∧ Holds s' q' p ∧ Same s s' ∧
      ∀ a, a ∉ pathAddrs p → s'.nodes.cells a = s.nodes.cells a := by
  cases p with
  | nil => exact ⟨_, _, { s with rbRoot := q' }, rfl, rfl, ⟨trivial, rfl⟩, ⟨rfl, rfl, rfl, rfl, fun _ => rfl⟩, fun _ _ => rfl⟩
  | cons f p =>
      obtain ⟨⟨hf, hsib, hp⟩, hroot⟩ := h
      have hplug : (addrs (plug (.nil : RbTree (RbLabel α)) (f :: p))).Nodup :=
        nodup_addrs_plug.2 ⟨by simp, hnd, by simp [FarPath]⟩
      rw [plug_cons, nodup_addrs_plug, Frame.fill, nodup_addrs_branch] at hplug
      obtain ⟨⟨-, hfsib, -⟩, -, hdisj⟩ := hplug
      have hfp : f.label.1 ∉ pathAddrs p := fun ha => hdisj (mem_addrs_branch.2 (Or.inl rfl)) ha
      refine ⟨_, _, s.put f.label.1 (.of f.dir f.color q' f.label.2 (ptr f.sib)), rfl, ?_, ⟨⟨?_, ?_, ?_⟩, hroot⟩, ?_, ?_⟩
      · rw [setLink_node, hf]
        simp
      · exact put_cells_self
      · exact hsib.congr fun a ha => put_cells_of_ne (by rintro rfl; exact hfsib ha)
      · exact hp.congr fun a ha => put_cells_of_ne (by rintro rfl; exact hfp ha)
      · exact same_put (by simp [hf])
      · exact fun a ha => put_cells_of_ne (by rintro rfl; exact ha (mem_pathAddrs_cons.2 (Or.inl rfl)))

/-- A tree that is in memory next to a path is hung from the path by one write. -/
theorem Holds.hang (h : Holds s q p) (ht : Reps s.nodes.cells t) (hnd : (addrs (plug t p)).Nodup) :
    ∃ e rest s', stack p = e :: rest ∧ s.setLink e.1 e.2 (ptr t) = some s' ∧ Shows s' t p ∧ Same s s' ∧
      ∀ a, FreshPath a p → s'.nodes.cells a = s.nodes.cells a := by
  obtain ⟨-, hp, hfar⟩ := nodup_addrs_plug.1 hnd
  obtain ⟨e, rest, s', hstack, hset, hholds, hsame, hother⟩ := h.setLink hp (ptr t)
  exact ⟨e, rest, s', hstack, hset, ⟨ht.congr fun a ha => hother a (hfar ha), hholds, hnd⟩, hsame, hother⟩

/-- The last link of the path is written, and the tree that hung there is still in memory. -/
theorem Shows.unhang (h : Shows s t p) (q : RbPtr) :
    ∃ e rest s', stack p = e :: rest ∧ s.setLink e.1 e.2 q = some s' ∧ Reps s'.nodes.cells t ∧ Holds s' q p ∧
      Same s s' := by
  obtain ⟨-, hp, hfar⟩ := nodup_addrs_plug.1 h.nodup
  obtain ⟨e, rest, s', hstack, hset, hholds, hsame, hother⟩ := h.holds.setLink hp q
  exact ⟨e, rest, s', hstack, hset, h.tree.congr fun a ha => hother a (hfar ha), hholds, hsame⟩

/-- A subtree changes its colour at the root. -/
theorem Shows.paint (h : Shows s t p) (ht : t ≠ .nil) (c : Color) :
    ∃ s', s.setColor (ptr t) c = some s' ∧ Shows s' (t.paint c) p ∧ Same s s' := by
  obtain ⟨c', l, x, r, rfl⟩ := exists_branch false ht
  obtain ⟨htree, hholds, hnodup⟩ := h
  have hdist := nodup_addrs_plug.1 hnodup
  simp only [nodup_addrs_branch, farPath_branch] at hdist
  obtain ⟨hx, hl, hr⟩ := reps_branch.1 htree
  have haddrs : addrs (plug (branch false c l x r) p) = addrs (plug (branch false c' l x r) p) := by
    simp [addrs, toList_plug, toList_branch]
  refine ⟨s.put x.1 (.of false c (ptr l) x.2 (ptr r)), ?_, ⟨?_, ?_, ?_⟩, same_put (by simp [hx])⟩
  · simp [hx]
  · simp [hdist, hl, hr]
  · simpa [hdist] using hholds
  · rwa [paint_branch, haddrs]

/-- The other child of the node above changes its colour. -/
theorem Shows.paint_sib (h : Shows s (branch d c t x t') p) (ht : t' ≠ .nil) (c' : Color) :
    ∃ s', s.setColor (ptr t') c' = some s' ∧ Shows s' (branch d c t x (t'.paint c')) p ∧ Same s s' := by
  have hother : Shows s t' (⟨!d, c, x, t⟩ :: p) := by
    rw [shows_cons, Frame.fill, branch_not]
    exact h
  obtain ⟨s', hpaint, hshows, hsame⟩ := hother.paint ht c'
  rw [shows_cons, Frame.fill, branch_not] at hshows
  exact ⟨s', hpaint, hshows, hsame⟩

end Represent

end ComplexSim.Rb
