import ComplexSim.Rb.Delete

/-!
# The end of a table (`rb_destroy` in `avl-2.0/src/rb.c`)

The loop needs no stack: it turns the tree to the right until the root has no left child, frees the
root and goes on with its right child. The items are destroyed in their order, and each node is
freed once.
-/

namespace ComplexSim.Rb

open RedBlack RbTree RbTable

variable {α κ : Type} [LinearOrder κ]

/-- `libavl_free` of a node. -/
def RbTable.free (s : RbTable α) : RbPtr → Option (RbTable α)
  | .node a => (s.nodes.free a).map fun nodes => { s with nodes := nodes }
  | _ => none

/-- The loop of `rb_destroy`, at most `fuel` turns: the memory after it, and the items in the order in which
they have been passed to `destroy`. -/
def destroyLoop : Nat → RbTable α → RbPtr → Option (RbTable α × List α)
  | _, s, .null => some (s, [])
  | 0, _, _ => none
  | fuel + 1, s, p => do
      let q ← s.link p false
      if q = .null then
        let q ← s.link p true
        let x ← s.data p
        let s ← s.free p
        let (s, xs) ← destroyLoop fuel s q
        some (s, x :: xs)
      else
        let s ← s.setLink p false (← s.link q true)
        let s ← s.setLink q true p
        destroyLoop fuel s q

/-- `rb_destroy`; a node is met twice at most. -/
def rbDestroy (s : RbTable α) : Option (RbTable α × List α) := destroyLoop (2 * s.nodes.brk) s s.rbRoot

/-- The nodes on the way down to the right. -/
def rightSpine : RbTree α → Nat
  | .nil => 0
  | .node _ _ _ r => rightSpine r + 1

section Loop

variable {key : α → κ} {s : RbTable α} {t : RbTree (RbLabel α)} {o : OrdTable key}

theorem rightSpine_le_size (t : RbTree α) : rightSpine t ≤ t.size := by
  induction t with
  | nil => exact Nat.le_refl 0
  | node c l x r _ ihr =>
      simp only [rightSpine, size]
      omega

/-- Each turn frees a node or makes the way to the right longer. -/
theorem destroyLoop_eq (fuel : Nat) (h : Reps s.nodes.cells t) (hnd : (addrs t).Nodup)
    (hfuel : 2 * t.size ≤ fuel + rightSpine t) :
    ∃ s', destroyLoop fuel s (ptr t) = some (s', items t) ∧ s'.nodes = s.nodes.without (addrs t) := by
  induction fuel generalizing s t with
  | zero =>
      have := rightSpine_le_size t
      cases t with
      | nil => exact ⟨s, rfl, Heap.without_nil.symm⟩
      | node c l x r =>
          simp only [size] at hfuel this
          omega
  | succ fuel ih =>
      cases t with
      | nil => exact ⟨s, rfl, Heap.without_nil.symm⟩
      | node c l x r =>
          cases l with
          | nil =>
              obtain ⟨hx, -, hr⟩ := h
              have hlist : addrs (.node c .nil x r) = x.1 :: addrs r := rfl
              rw [hlist, List.nodup_cons] at hnd
              have hfree : s.nodes.free x.1 = some (s.nodes.without [x.1]) := Heap.free_eq (by rw [hx]; rfl)
              have hr' : Reps (s.nodes.without [x.1]).cells r := by
                apply hr.congr
                intro a ha
                apply Heap.without_cells_of_notMem
                rw [List.mem_singleton]
                rintro rfl
                exact hnd.1 ha
              simp only [size, rightSpine] at hfuel
              obtain ⟨s', hrun, hnodes⟩ := ih (s := { s with nodes := s.nodes.without [x.1] }) hr' hnd.2 (by omega)
              refine ⟨s', ?_, ?_⟩
              · have hlink : s.link (.node x.1) true = some (ptr r) := by
                  rw [link_node, hx]
                  rfl
                rw [ptr_node, destroyLoop]
                · simp [hlink, RbTable.free, hx, hfree, hrun, RbNode.link, items, toList]
                · exact fun h => RbPtr.noConfusion h
              · rw [hnodes, hlist, Heap.without_append]
                rfl
          | node c' a y b =>
              have hold : RbTree.node c (.node c' a y b) x r = branch false c (branch false c' a y b) x r := rfl
              have hnew : RbTree.node c' a y (.node c b x r) = branch false c' a y (branch false c b x r) := rfl
              have hlist : addrs (.node c' a y (.node c b x r)) = addrs (.node c (.node c' a y b) x r) := by
                simp [addrs, toList]
              have hitems : items (.node c' a y (.node c b x r)) = items (.node c (.node c' a y b) x r) := by
                simp [items, toList]
              have hdist := hnd
              rw [hold, nodup_addrs_branch] at hdist
              simp only [nodup_addrs_branch, fresh_branch, far_branch] at hdist
              rw [hold, reps_branch, reps_branch] at h
              obtain ⟨hx, ⟨hy, ha, hb⟩, hr⟩ := h
              let s₁ := (s.put x.1 (.of false c (ptr b) x.2 (ptr r))).put y.1 (.of false c' (ptr a) y.2 (.node x.1))
              obtain ⟨s', hrun, hnodes⟩ := ih (s := s₁) (t := .node c' a y (.node c b x r))
                (by rw [hnew, reps_branch, reps_branch]; simp [s₁, put_cells, hdist, ha, hb, hr])
                (by rwa [hlist]) (by simp only [size, rightSpine] at hfuel ⊢; omega)
              rw [hitems] at hrun
              refine ⟨s', ?_, ?_⟩
              · rw [ptr_node] at hrun
                rw [ptr_node, destroyLoop]
                · simp [hx, hy, put_cells, hdist, s₁] at hrun ⊢
                  exact hrun
                · exact fun h => RbPtr.noConfusion h
              · rw [hnodes, hlist]
                have hmem : x.1 ∈ addrs (.node c (.node c' a y b) x r) ∧ y.1 ∈ addrs (.node c (.node c' a y b) x r) := by
                  rw [hold]
                  simp
                unfold Heap.without
                congr 1
                funext i
                split
                · rfl
                · rename_i hi
                  have hix : i ≠ x.1 := by rintro rfl; exact hi hmem.1
                  have hiy : i ≠ y.1 := by rintro rfl; exact hi hmem.2
                  simp [s₁, put_cells, hix, hiy]

/-- `rb_destroy` passes the items to the caller in their order, frees each node once and leaves none. -/
theorem rbDestroy_eq (h : Models key s o) :
    ∃ s', rbDestroy s = some (s', o.items) ∧ s'.nodes.freed.Perm (List.range s'.nodes.brk) ∧
      ∀ a, s'.nodes.cells a = none := by
  obtain ⟨t, ht, ho⟩ := h
  have hallocated : ∀ a ∈ addrs t, (s.nodes.cells a).isSome = true := fun a ha => ht.shows.tree.isSome ha
  have hlen := ht.sound.length_le (l := addrs t) ht.shows.nodup hallocated
  rw [length_addrs] at hlen
  obtain ⟨s', hrun, hnodes⟩ := destroyLoop_eq (2 * s.nodes.brk) ht.shows.tree ht.shows.nodup (by omega)
  have hroot : s.rbRoot = ptr t := ht.shows.holds.root
  refine ⟨s', ?_, ?_, ?_⟩
  · rw [rbDestroy, hroot, hrun, ho]
  · have hsound : s'.nodes.Sound := by
      rw [hnodes]
      exact ht.sound.without ht.shows.nodup hallocated
    apply hsound.freed_perm
    rw [hnodes, Heap.without_brk, Heap.without_freed, List.length_append, length_addrs, ht.accounted]
  · intro a
    rw [hnodes]
    by_cases ha : a ∈ addrs t
    · exact Heap.without_cells_of_mem ha
    · rw [Heap.without_cells_of_notMem ha, ← Option.not_isSome_iff_eq_none]
      exact fun hsome => ha (ht.owns a hsome)

end Loop

end ComplexSim.Rb
