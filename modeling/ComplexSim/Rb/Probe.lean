import ComplexSim.Rb.Find

/-!
# Insertion (`rb_probe`, `rb_insert`, `rb_replace` in `avl-2.0/src/rb.c`)

The walk of `rb_probe` leaves its way on a stack, and the loop that follows an insertion mends
the tree from the stack's top down: it does to the memory what `insertUp` does to the tree.
The two halves of its body are mirror images; `d₂` is the side that tells them apart.
-/

namespace ComplexSim.Rb

open RedBlack RbTree RbTable

variable {α κ : Type} [LinearOrder κ]

/-- The walk of `rb_probe`, with `room` entries left in its arrays: the node with an equal item, or
the stack at the place for a new one. -/
def probeDown (cmp : RbCompare α) (s : RbTable α) (item : α) : Nat → RbPtr → RbStack → Option (RbPtr ⊕ RbStack)
  | _, .null, st => some (.inr st)
  | room, p, st => do
      let c := cmp item (← s.data p)
      if c = 0 then some (.inl p)
      else match room with
        | 0 => none
        | room + 1 => probeDown cmp s item room (← s.link p (decide (0 < c))) ((p, decide (0 < c)) :: st)

/-- The end of the loop of `rb_probe`: the sibling of `pa[k - 1]` is black. The entries are `k - 1`,
`k - 2` and `k - 3`. -/
def probeTurn (s : RbTable α) (p₁ : RbPtr) (d₁ : Bool) (p₂ : RbPtr) (d₂ : Bool) (p₃ : RbPtr) (d₃ : Bool) :
    Option (RbTable α) := do
  let (s, y) ← if d₁ = d₂ then some (s, p₁) else do
    let x := p₁
    let y ← s.link x !d₂
    let s ← s.setLink x (!d₂) (← s.link y d₂)
    let s ← s.setLink y d₂ x
    let s ← s.setLink p₂ d₂ y
    some (s, y)
  let x := p₂
  let s ← s.setColor x .red
  let s ← s.setColor y .black
  let s ← s.setLink x d₂ (← s.link y !d₂)
  let s ← s.setLink y (!d₂) x
  s.setLink p₃ d₃ y

/-- The loop of `rb_probe` that mends the tree; the first three entries are `k - 1`, `k - 2`, `k - 3`. -/
def probeLoop (s : RbTable α) : RbStack → Option (RbTable α)
  | (p₁, d₁) :: (p₂, d₂) :: (p₃, d₃) :: st => do
      if (← s.color p₁) = .red then
        let y ← s.link p₂ !d₂
        if ← s.isRed y then
          let s ← s.setColor y .black
          let s ← s.setColor p₁ .black
          let s ← s.setColor p₂ .red
          probeLoop s ((p₃, d₃) :: st)
        else probeTurn s p₁ d₁ p₂ d₂ p₃ d₃
      else some s
  | _ => some s

/-- `rb_probe`: the node whose item is the given one or an equal one, or null where `ok` says that
the allocation fails. -/
def rbProbe (cmp : RbCompare α) (ok : Bool) (s : RbTable α) (item : α) : Option (RbTable α × RbPtr) := do
  match ← probeDown cmp s item (rbMaxHeight - 1) s.rbRoot [(.table, false)] with
  | .inl p => some (s, p)
  | .inr st =>
      let (p, d) ← st.head?
      if ok then
        let n := s.nodes.alloc ⟨.null, .null, item, .red⟩
        let s : RbTable α := { s with nodes := n.1 }
        let s ← s.setLink p d (.node n.2)
        let s := { s with rbCount := (s.rbCount + 1) % 2 ^ 64, rbGeneration := (s.rbGeneration + 1) % 2 ^ 64 }
        let s ← probeLoop s st
        let s ← s.setColor s.rbRoot .black
        some (s, .node n.2)
      else
        let s ← s.setLink p d .null
        some (s, .null)

/-- `rb_insert`. -/
def rbInsert [DecidableEq α] (cmp : RbCompare α) (ok : Bool) (s : RbTable α) (item : α) :
    Option (RbTable α × Option α) := do
  let (s, p) ← rbProbe cmp ok s item
  if p = .null then some (s, none)
  else
    let x ← s.data p
    some (s, if x = item then none else some x)

/-- `rb_replace`. -/
def rbReplace [DecidableEq α] (cmp : RbCompare α) (ok : Bool) (s : RbTable α) (item : α) :
    Option (RbTable α × Option α) := do
  let (s, p) ← rbProbe cmp ok s item
  if p = .null then some (s, none)
  else
    let r ← s.data p
    if r = item then some (s, none)
    else
      let s ← s.setData p item
      some (s, some r)

section Mend

variable {s : RbTable α} {t u a b : RbTree (RbLabel α)} {p : Path (RbLabel α)} {x y z : RbLabel α} {c c' : Color}
  {d₁ d₂ : Bool}

/-- The turn of the loop that recolours: the red node is two levels higher then. -/
theorem probeLoop_recolor (h : Shows s (branch d₂ c (branch d₁ .red t x u) z (branch false .red a y b)) p) :
    ∃ s', probeLoop s ((.node x.1, d₁) :: (.node z.1, d₂) :: stack p) = probeLoop s' (stack p) ∧
      Shows s' (branch d₂ .red (branch d₁ .black t x u) z (branch false .black a y b)) p ∧ Same s s' := by
  obtain ⟨⟨p₃, d₃⟩, rest, hst, -⟩ := h.holds.link
  obtain ⟨htree, hholds, hnodup⟩ := h
  have hdist := nodup_addrs_plug.1 hnodup
  simp only [nodup_addrs_branch, fresh_branch, far_branch, far_branch_right, farPath_branch] at hdist
  simp only [reps_branch, ptr_branch] at htree hholds
  obtain ⟨hz, ⟨hx, ht, hu⟩, hy, ha, hb⟩ := htree
  refine ⟨((s.put y.1 (.of false .black (ptr a) y.2 (ptr b))).put x.1 (.of d₁ .black (ptr t) x.2 (ptr u))).put z.1
      (.of d₂ .red (.node x.1) z.2 (.node y.1)), ?_, ⟨?_, ?_, ?_⟩, ?_⟩
  · simp [hst, probeLoop, hx, hy, hz, put_cells, hdist]
  · simp [put_cells, hdist, ht, hu, ha, hb]
  · simp [hdist, hholds]
  · rwa [show addrs (plug (branch d₂ .red (branch d₁ .black t x u) z (branch false .black a y b)) p) =
      addrs (plug (branch d₂ c (branch d₁ .red t x u) z (branch false .red a y b)) p) by
        simp only [addrs, toList_plug, toList_branch]]
  · refine ((same_put ?_).trans (same_put ?_)).trans (same_put ?_) <;> simp [put_cells, hdist, hx, hy, hz]

/-- One rotation, where the two red nodes are on one side. -/
theorem probeTurn_same (h : Shows s (branch d₂ c (branch d₂ .red t x u) z b) p) :
    ∃ e rest s', stack p = e :: rest ∧ probeTurn s (.node x.1) d₂ (.node z.1) d₂ e.1 e.2 = some s' ∧
      Shows s' (branch d₂ .black t x (branch d₂ .red u z b)) p ∧ Same s s' := by
  obtain ⟨htree, hholds, hnodup⟩ := h
  have hdist := nodup_addrs_plug.1 hnodup
  simp only [nodup_addrs_branch, fresh_branch, far_branch, farPath_branch] at hdist
  simp only [reps_branch, ptr_branch] at htree hholds
  obtain ⟨hz, ⟨hx, ht, hu⟩, hb⟩ := htree
  have hlist : addrs (plug (branch d₂ .black t x (branch d₂ .red u z b)) p) =
      addrs (plug (branch d₂ c (branch d₂ .red t x u) z b) p) := by
    cases d₂ <;> simp [addrs, toList_plug, toList_branch]
  rw [← hlist] at hnodup
  let s₁ := (s.put z.1 (.of d₂ .red (ptr u) z.2 (ptr b))).put x.1 (.of d₂ .black (ptr t) x.2 (.node z.1))
  have hholds₁ : Holds s₁ (.node z.1) p := by simp [s₁, hdist, hholds]
  obtain ⟨e, rest, s', hst, hset, hshows, hsame, -⟩ := hholds₁.hang (t := branch d₂ .black t x (branch d₂ .red u z b))
    (by simp [s₁, put_cells, hdist, ht, hu, hb]) hnodup
  refine ⟨e, rest, s', hst, ?_, hshows, (((same_put ?_).trans (same_put ?_))).trans hsame⟩
  · simpa [probeTurn, hx, hz, put_cells, hdist] using hset
  all_goals simp [put_cells, hdist, hx, hz]


/-- Two rotations, where they are not. -/
theorem probeTurn_other (h : Shows s (branch d₂ c (branch d₂ .red u x (branch d₂ c' a y b)) z t) p) :
    ∃ e rest s', stack p = e :: rest ∧ probeTurn s (.node x.1) (!d₂) (.node z.1) d₂ e.1 e.2 = some s' ∧
      Shows s' (branch d₂ .black (branch d₂ .red u x a) y (branch d₂ .red b z t)) p ∧ Same s s' := by
  obtain ⟨htree, hholds, hnodup⟩ := h
  have hdist := nodup_addrs_plug.1 hnodup
  simp only [nodup_addrs_branch, fresh_branch, far_branch, far_branch_right, farPath_branch] at hdist
  simp only [reps_branch, ptr_branch] at htree hholds
  obtain ⟨hz, ⟨hx, hu, hy, ha, hb⟩, ht⟩ := htree
  have hlist : addrs (plug (branch d₂ .black (branch d₂ .red u x a) y (branch d₂ .red b z t)) p) =
      addrs (plug (branch d₂ c (branch d₂ .red u x (branch d₂ c' a y b)) z t) p) := by
    cases d₂ <;> simp [addrs, toList_plug, toList_branch]
  rw [← hlist] at hnodup
  let s₁ := ((s.put x.1 (.of d₂ .red (ptr u) x.2 (ptr a))).put z.1 (.of d₂ .red (ptr b) z.2 (ptr t))).put y.1
    (.of d₂ .black (.node x.1) y.2 (.node z.1))
  have hholds₁ : Holds s₁ (.node z.1) p := by simp [s₁, hdist, hholds]
  obtain ⟨e, rest, s', hst, hset, hshows, hsame, -⟩ := hholds₁.hang
    (t := branch d₂ .black (branch d₂ .red u x a) y (branch d₂ .red b z t))
    (by simp [s₁, put_cells, hdist, ht, hu, ha, hb]) hnodup
  refine ⟨e, rest, s', hst, ?_, hshows, ((same_put ?_).trans ((same_put ?_).trans (same_put ?_))).trans hsame⟩
  · simpa [probeTurn, hx, hy, hz, put_cells, hdist] using hset
  all_goals simp [put_cells, hdist, hx, hy, hz]

theorem Reps.isRed (h : Reps s.nodes.cells t) : s.isRed (ptr t) = some (decide (t.color = .red)) := by
  cases t with
  | nil => rfl
  | node c l x r =>
      obtain ⟨hx, -, -⟩ := h
      rw [ptr_node, isRed_node, hx]
      rfl

/-- The loop of `rb_probe` mends the tree in memory as `insertUp` does. -/
theorem probeLoop_eq (h : Shows s t p) (ht : t ≠ .nil) :
    ∃ s', probeLoop s (stack p) = some s' ∧ Shows s' (insertUp t p) [] ∧ Same s s' := by
  induction t, p using insertUp.induct generalizing s with
  | case1 t f g p hf hg ih =>
      obtain ⟨d₁, c₁, x, u⟩ := f
      obtain ⟨d₂, c₂, z, v⟩ := g
      obtain rfl : c₁ = .red := hf
      obtain ⟨c, a, y, b, rfl⟩ := exists_branch false (ne_nil_of_red hg)
      obtain rfl : c = .red := by simpa using hg
      obtain ⟨s₁, heq, hshows, hsame⟩ := probeLoop_recolor (shows_cons.1 (shows_cons.1 h))
      obtain ⟨s', hrun, hshows', hsame'⟩ := ih hshows branch_ne_nil
      refine ⟨s', ?_, ?_, hsame.trans hsame'⟩
      · rw [stack, stack, heq, hrun]
      · rwa [insertUp, if_pos rfl, if_pos hg]
  | case2 t f g p hf hg =>
      obtain ⟨d₁, c₁, x, u⟩ := f
      obtain ⟨d₂, c₂, z, v⟩ := g
      obtain rfl : c₁ = .red := hf
      have hshows := shows_cons.1 (shows_cons.1 h)
      have htree := hshows.tree
      simp only [Frame.fill, reps_branch, ptr_branch] at htree
      obtain ⟨hz, ⟨hx, -, -⟩, hv⟩ := htree
      have hturn : ∀ e rest, stack p = e :: rest → probeLoop s (stack (⟨d₁, .red, x, u⟩ :: ⟨d₂, c₂, z, v⟩ :: p)) =
          probeTurn s (.node x.1) d₁ (.node z.1) d₂ e.1 e.2 := by
        intro e rest hst
        have hv := hv.isRed
        simp [stack, hst, probeLoop, hx, hz, hv, Color.not_red.1 hg]
      by_cases hd : d₁ = d₂
      · subst hd
        obtain ⟨e, rest, s', hst, hrun, hshows', hsame⟩ := probeTurn_same hshows
        refine ⟨s', (hturn e rest hst).trans hrun, ?_, hsame⟩
        rw [insertUp, if_pos rfl, if_neg hg, shows_plug, insertTurn_same]
        exact hshows'
      · obtain ⟨c', a, y, b, rfl⟩ := exists_branch d₂ ht
        obtain rfl : d₁ = !d₂ := by revert hd; cases d₁ <;> cases d₂ <;> simp
        simp only [Frame.fill, branch_not] at hshows
        obtain ⟨e, rest, s', hst, hrun, hshows', hsame⟩ := probeTurn_other hshows
        refine ⟨s', (hturn e rest hst).trans hrun, ?_, hsame⟩
        rw [insertUp, if_pos rfl, if_neg hg, shows_plug, insertTurn_of_ne hd]
        exact hshows'
  | case3 t f g p hf =>
      obtain ⟨hx, -, -⟩ := h.holds.path
      obtain ⟨e, rest, hst, -⟩ := (shows_cons.1 (shows_cons.1 h)).holds.link
      refine ⟨s, ?_, ?_, .rfl⟩
      · simp [stack, hst, probeLoop, hx, Color.not_red.1 hf]
      · rw [insertUp, if_neg hf]
        exact shows_plug.2 h
  | case4 t p hshort =>
      refine ⟨s, ?_, ?_, .rfl⟩
      · rcases p with - | ⟨f, - | ⟨g, p⟩⟩
        · rfl
        · rfl
        · exact absurd rfl (hshort f g p)
      · rw [insertUp]
        · exact shows_plug.2 h
        · exact hshort

end Mend

section Walk

variable {key : α → κ} {cmp : RbCompare α} {s : RbTable α} {t : RbTree (RbLabel α)} {p : Path (RbLabel α)} {item : α}

/-- Where a walk leaves `rb_probe`. -/
def walkEnd (e : RbTree (RbLabel α) × Path (RbLabel α)) : RbPtr ⊕ RbStack :=
  match e.1 with
  | .nil => .inr (stack e.2)
  | .node _ _ x _ => .inl (.node x.1)

/-- The walk of `rb_probe`, as long as its arrays have room. -/
theorem probeDown_eq (hcmp : CompareBy cmp key) (room : Nat) (ht : Reps s.nodes.cells t) :
    probeDown cmp s item room (ptr t) (stack p) =
      if (locate (labelKey key) (key item) t p).2.length ≤ p.length + room then
        some (walkEnd (locate (labelKey key) (key item) t p))
      else none := by
  induction t generalizing room p with
  | nil =>
      rw [if_pos (by simp [locate])]
      cases room <;> rfl
  | node c l x r ihl ihr =>
      obtain ⟨hx, hl, hr⟩ := ht
      have hneg : cmp item x.2 < 0 ↔ key item < labelKey key x := hcmp.neg item x.2
      have hpos : 0 < cmp item x.2 ↔ labelKey key x < key item := hcmp.pos item x.2
      rw [probeDown.eq_def]
      simp only [ptr_node, data_node, link_node, hx, Option.map_some, Option.bind_eq_bind, Option.bind_some]
      by_cases hlt : key item < labelKey key x
      · have hgt : ¬ 0 < cmp item x.2 := fun h => lt_asymm hlt (hpos.1 h)
        rw [if_neg (ne_of_lt (hneg.2 hlt)), locate_of_lt hlt]
        have hlen := length_le_locate (labelKey key) (key item) l (⟨false, c, x, r⟩ :: p)
        cases room with
        | zero => exact (if_neg (Nat.not_le_of_lt hlen)).symm
        | succ room =>
            simp only [hgt, decide_false]
            refine (ihl (p := ⟨false, c, x, r⟩ :: p) room hl).trans ?_
            simp only [List.length_cons, Nat.add_assoc, Nat.add_comm 1]
      · by_cases hgt : labelKey key x < key item
        · rw [if_neg (ne_of_gt (hpos.2 hgt)), locate_of_gt hgt]
          have hlen := length_le_locate (labelKey key) (key item) r (⟨true, c, x, l⟩ :: p)
          cases room with
          | zero => exact (if_neg (Nat.not_le_of_lt hlen)).symm
          | succ room =>
              simp only [hpos.2 hgt, decide_true]
              refine (ihr (p := ⟨true, c, x, l⟩ :: p) room hr).trans ?_
              simp only [List.length_cons, Nat.add_assoc, Nat.add_comm 1]
        · have heq : cmp item x.2 = 0 := by
            have := mt hneg.1 hlt
            have := mt hpos.1 hgt
            omega
          rw [if_pos heq, locate_of_eq (le_antisymm (not_lt.1 hlt) (not_lt.1 hgt)), if_pos (Nat.le_add_right ..)]
          rfl

end Walk

section Insertion

variable {key : α → κ} {cmp : RbCompare α} {s s' : RbTable α} {t : RbTree (RbLabel α)} {q : Path (RbLabel α)}
  {item : α} {o : OrdTable key}

/-- A new node in memory is no node of the table. -/
theorem IsTable.alloc (h : IsTable key s t) (n : RbNode α) :
    Shows { s with nodes := (s.nodes.alloc n).1 } t [] ∧ s.nodes.brk ∉ addrs t := by
  have hfresh : s.nodes.brk ∉ addrs t := by
    intro ha
    have hsome := h.shows.tree.isSome ha
    rw [h.sound.fresh _ (Nat.le_refl _)] at hsome
    cases hsome
  have hsame : ∀ a ∈ addrs t, (s.nodes.alloc n).1.cells a = s.nodes.cells a := by
    intro a ha
    apply Heap.alloc_cells_of_ne
    rintro rfl
    exact hfresh ha
  exact ⟨⟨h.shows.tree.congr hsame, ⟨trivial, h.shows.holds.root⟩, h.shows.nodup⟩, hfresh⟩

theorem Reps.data (h : Reps s.nodes.cells t) {x : RbLabel α} (hx : x ∈ t.toList) :
    s.data (.node x.1) = some x.2 := by
  induction t with
  | nil => simp [toList] at hx
  | node c l y r ihl ihr =>
      obtain ⟨hy, hl, hr⟩ := h
      simp only [toList, List.mem_append, List.mem_cons] at hx
      rcases hx with hx | rfl | hx
      · exact ihl hl hx
      · rw [data_node, hy]
        rfl
      · exact ihr hr hx

/-- `rb_probe` where no item is equal: the new table. -/
theorem rbProbe_new (hcmp : CompareBy cmp key) (h : IsTable key s t)
    (hq : locate (labelKey key) (key item) t [] = (.nil, q)) (hroom : q.length ≤ rbMaxHeight - 1) :
    ∃ s' t', rbProbe cmp true s item = some (s', .node s.nodes.brk) ∧ IsTable key s' t' ∧
      t'.toList = Path.before q ++ (s.nodes.brk, item) :: Path.after q ∧
      s'.rbGeneration = (s.rbGeneration + 1) % 2 ^ 64 := by
  have he := h.ends (key item)
  rw [hq] at he
  have hplug : plug .nil q = t := he.plug
  let n : RbNode α := ⟨.null, .null, item, .red⟩
  obtain ⟨hshows, hfresh⟩ := h.alloc n
  -- the place for the node in the tree, and the node beside the tree
  rw [← hplug] at hshows hfresh
  have hnil := shows_plug.1 hshows
  let leaf : RbTree (RbLabel α) := branch false .red .nil (s.nodes.brk, item) .nil
  have hnodup : (addrs (plug leaf q)).Nodup := by
    obtain ⟨-, hpath, -⟩ := nodup_addrs_plug.1 hnil.nodup
    refine nodup_addrs_plug.2 ⟨?_, hpath, ?_⟩
    · simp [leaf, nodup_addrs_branch, fresh_nil, Far]
    · refine farPath_branch.2 ⟨?_, by simp [FarPath], by simp [FarPath]⟩
      intro ha
      apply hfresh
      simp only [addrs, toList_plug, toList, List.append_nil]
      exact ha
  have hleaf : Reps (s.nodes.alloc n).1.cells leaf := by
    refine reps_branch.2 ⟨?_, trivial, trivial⟩
    exact Heap.alloc_cells_self
  obtain ⟨⟨e, d⟩, rest, s₁, hst, hset, hshows₁, hsame₁, -⟩ := hnil.holds.hang hleaf hnodup
  let s₂ : RbTable α :=
    { s₁ with rbCount := (s₁.rbCount + 1) % 2 ^ 64, rbGeneration := (s₁.rbGeneration + 1) % 2 ^ 64 }
  have hshows₂ : Shows s₂ leaf q := ⟨hshows₁.tree, ⟨hshows₁.holds.path, hshows₁.holds.root⟩, hshows₁.nodup⟩
  obtain ⟨s₃, hloop, hshows₃, hsame₃⟩ := probeLoop_eq hshows₂ branch_ne_nil
  have hlist : (insertUp leaf q).toList = Path.before q ++ (s.nodes.brk, item) :: Path.after q := by
    rw [toList_insertUp, toList_plug]
    simp [leaf, toList_branch, toList]
  have hnenil : insertUp leaf q ≠ .nil := by
    intro hnil
    rw [hnil] at hlist
    simp [toList] at hlist
  obtain ⟨s', hpaint, hshows', hsame'⟩ := hshows₃.paint hnenil .black
  have hsame := hsame₃.trans hsame'
  have hroot₃ : s₃.rbRoot = ptr (insertUp leaf q) := hshows₃.holds.root
  have hbal : ∃ m, BlackHeight m ((insertUp leaf q).paint .black) := by
    obtain ⟨m, hm⟩ := h.balanced
    have hblack := h.black
    rw [← hplug] at hm hblack
    obtain ⟨n, hn, hfits, -⟩ := fits_of_plug hm hblack
    rw [balanced_nil] at hn
    subst hn
    exact balanced_insertUp (by simp [leaf]) (by simp [leaf]) hfits
  have hsize : ((insertUp leaf q).paint .black).size = t.size + 1 := by
    rw [← length_toList, toList_paint, hlist, ← length_toList t, ← hplug, toList_plug]
    simp [toList]
    omega
  refine ⟨s', (insertUp leaf q).paint .black, ?_, ⟨hshows', ?_, hbal, by simp, ?_, ?_, ?_, ?_⟩, ?_, ?_⟩
  · have hdown : probeDown cmp s item _ (ptr t) (stack []) = _ := probeDown_eq hcmp (rbMaxHeight - 1) h.shows.tree
    rw [hq, if_pos (by simpa using hroom)] at hdown
    have hroot : s.rbRoot = ptr t := h.shows.holds.root
    rw [← hroot] at hdown
    simp only [stack, walkEnd] at hdown
    rw [rbProbe, hdown]
    simp only [Option.bind_eq_bind, Option.bind_some, hst, List.head?_cons, if_true, Heap.alloc_snd]
    rw [show s.nodes.alloc ⟨.null, .null, item, .red⟩ = s.nodes.alloc n from rfl]
    simp only [leaf, ptr_branch] at hset
    rw [hset, Option.bind_some, ← hst, hloop, Option.bind_some, hroot₃, hpaint]
    rfl
  · rw [hsame.count, hsize]
    show (s₁.rbCount + 1) % 2 ^ 64 = _
    rw [hsame₁.count]
    show (s.rbCount + 1) % 2 ^ 64 = _
    rw [h.count]
    omega
  · have hsort := h.sorted
    rw [← hplug, toList_plug, toList, List.append_nil] at hsort
    rw [toList_paint, hlist]
    obtain ⟨hb, ha, hba⟩ := List.pairwise_append.1 hsort
    exact sorted_between.2 ⟨hb, ha, he.apart.1, he.apart.2, hba⟩
  · intro a ha
    rw [hsame.allocated a] at ha
    have ha : ((s.nodes.alloc n).1.cells a).isSome = true := (hsame₁.allocated a).symm.trans ha
    rw [addrs, toList_paint, hlist]
    by_cases hbrk : a = s.nodes.brk
    · simp [hbrk]
    · rw [Heap.alloc_cells_of_ne hbrk] at ha
      have hmem := h.owns a ha
      rw [addrs, ← hplug, toList_plug, toList, List.append_nil] at hmem
      simp only [List.map_append, List.map_cons, List.mem_append, List.mem_cons] at hmem ⊢
      tauto
  · apply hsame.sound
    have hsound : s₁.nodes.Sound := hsame₁.sound (Heap.Sound.alloc h.sound)
    exact hsound
  · have hbrk : s'.nodes.brk = s.nodes.brk + 1 := hsame.brk.trans hsame₁.brk
    have hfreed : s'.nodes.freed = s.nodes.freed := hsame.freed.trans hsame₁.freed
    rw [hbrk, hfreed, hsize, h.accounted]
    omega
  · rw [toList_paint, hlist]
  · rw [hsame.generation]
    show (s₁.rbGeneration + 1) % 2 ^ 64 = _
    rw [hsame₁.generation]

/-- What `rb_probe` makes of the table `s` with the tree `t`. -/
inductive Probed (key : α → κ) (ok : Bool) (s : RbTable α) (t : RbTree (RbLabel α)) (item : α) : RbTable α × RbPtr → Prop
  | found (c : Color) (l : RbTree (RbLabel α)) (x : RbLabel α) (r : RbTree (RbLabel α)) (q : Path (RbLabel α))
      (ends : Ends key (key item) t (.node c l x r) q) (at_key : key x.2 = key item) : Probed key ok s t item (s, .node x.1)
  | failed (none_equal : ∀ y ∈ items t, key y ≠ key item) (hok : ok = false) : Probed key ok s t item (s, .null)
  | new (s' : RbTable α) (t' : RbTree (RbLabel α)) (none_equal : ∀ y ∈ items t, key y ≠ key item) (hok : ok = true)
      (table : IsTable key s' t') (content : items t' = OrdTable.insertList key item (items t))
      (data : s'.data (.node s.nodes.brk) = some item) (generation : s'.rbGeneration = (s.rbGeneration + 1) % 2 ^ 64) :
      Probed key ok s t item (s', .node s.nodes.brk)

/-- `rb_probe` on a table that fits its arrays. -/
theorem rbProbe_spec (hcmp : CompareBy cmp key) (h : IsTable key s t) (hsize : t.size < 2 ^ 25 - 2) (ok : Bool)
    (item : α) : ∃ r, rbProbe cmp ok s item = some r ∧ Probed key ok s t item r := by
  have he := h.ends (key item)
  have hlen := he.length
  have hheight := h.height_lt hsize
  have hdown : probeDown cmp s item _ (ptr t) (stack []) = _ := probeDown_eq hcmp (rbMaxHeight - 1) h.shows.tree
  have hroot : s.rbRoot = ptr t := h.shows.holds.root
  rw [if_pos (by simp only [List.length_nil]; omega), ← hroot] at hdown
  rcases hq : locate (labelKey key) (key item) t [] with ⟨u, q⟩
  rw [hq] at he hlen hdown
  have hitems := he.items_eq
  rcases he.at_key with rfl | ⟨c, l, x, r, rfl, hx⟩
  · have hnone : ∀ y ∈ items t, key y ≠ key item := OrdTable.find?_eq_none.1 (he.find? h)
    cases ok with
    | false =>
        have hshows := h.shows
        rw [← he.plug] at hshows
        obtain ⟨e, rest, hst, hset⟩ := (shows_plug.1 hshows).holds.setLink_self
        refine ⟨_, ?_, .failed hnone rfl⟩
        simp only [stack, walkEnd] at hdown
        rw [rbProbe, hdown]
        simp only [Option.bind_eq_bind, Option.bind_some, hst, List.head?_cons, Bool.false_eq_true, if_false]
        rw [← ptr_nil, hset]
        rfl
    | true =>
        obtain ⟨s', t', hrun, htable, hlist, hgen⟩ := rbProbe_new hcmp h hq (by simp only at hlen; omega)
        refine ⟨_, hrun, .new s' t' hnone rfl htable ?_ (htable.shows.tree.data (x := (s.nodes.brk, item)) ?_) hgen⟩
        · rw [hitems, items, hlist]
          simp only [items, toList, List.map_nil, List.append_nil, List.map_append, List.map_cons]
          rw [insertList_between he.before_lt he.lt_after]
        · simp [hlist]
  · refine ⟨_, ?_, .found c l x r q he hx⟩
    rw [rbProbe]
    simp only [stack] at hdown
    rw [hdown]
    rfl

/-- To change an item in place, its key the same. -/
theorem IsTable.setData {c : Color} {l r : RbTree (RbLabel α)} {x : RbLabel α} (h : IsTable key s t)
    (hplug : plug (.node c l x r) q = t) (hkey : key item = key x.2) :
    ∃ s', s.setData (.node x.1) item = some s' ∧ IsTable key s' (plug (.node c l (x.1, item) r) q) ∧ Same s s' := by
  have hshows := h.shows
  rw [← hplug] at hshows
  obtain ⟨htree, hholds, hnodup⟩ := shows_plug.1 hshows
  have hdist := nodup_addrs_plug.1 hnodup
  have hnode : ∀ y : RbLabel α, RbTree.node c l y r = branch false c l y r := fun _ => rfl
  simp only [hnode, nodup_addrs_branch, farPath_branch] at hdist
  obtain ⟨hx, hl, hr⟩ := htree
  have haddrs : addrs (plug (.node c l (x.1, item) r) q) = addrs (plug (.node c l x r) q) := by
    simp [addrs, toList_plug, toList]
  have hkeys : (plug (.node c l (x.1, item) r) q).toList.map (labelKey key) = t.toList.map (labelKey key) := by
    rw [← hplug]
    simp [toList_plug, toList, labelKey, hkey]
  obtain ⟨m, hm⟩ := h.balanced
  have hblack := h.black
  rw [← hplug] at hm hblack
  obtain ⟨n, hn, hfits, hc⟩ := fits_of_plug hm hblack
  have hn' : BlackHeight n (.node c l (x.1, item) r) := by cases c <;> cases n <;> exact hn
  obtain ⟨hbal, hroot⟩ := hfits.plug hn' hc
  have hsame : Same s (s.put x.1 (.of false c (ptr l) item (ptr r))) := same_put (by simp [hx])
  refine ⟨s.put x.1 (.of false c (ptr l) item (ptr r)), ?_, ⟨?_, ?_, ⟨m, hbal⟩, hroot, ?_, ?_, ?_, ?_⟩, hsame⟩
  · rw [setData_node, hx]
    rfl
  · refine shows_plug.2 ⟨?_, ?_, haddrs.symm ▸ hnodup⟩
    · rw [hnode, reps_branch]
      simp [hdist, hl, hr]
    · simpa [hdist] using hholds
  · rw [hsame.count, h.count, ← hplug, ← length_addrs, ← length_addrs, haddrs]
  · have hsort := h.sorted
    rw [Sorted, ← List.pairwise_map (f := labelKey key) (R := (· < ·))] at hsort ⊢
    rwa [hkeys]
  · intro a ha
    rw [hsame.allocated] at ha
    rw [haddrs, hplug]
    exact h.owns a ha
  · exact hsame.sound h.sound
  · rw [hsame.brk, hsame.freed, h.accounted, ← hplug, ← length_addrs, ← length_addrs, haddrs]

/-- `rb_insert` does what an ordered table does. -/
theorem rbInsert_eq [DecidableEq α] (hcmp : CompareBy cmp key) (h : Models key s o) (hsize : o.count < 2 ^ 25 - 2)
    (ok : Bool) (item : α) :
    ∃ s', rbInsert cmp ok s item = some (s', (o.find? (key item)).filter fun x => x ≠ item) ∧
      Models key s' (if ok then o.insert item else o) := by
  obtain ⟨t, ht, rfl⟩ := h.exists_tree
  rw [OrdTable.count, IsTable.ord, length_items] at hsize
  obtain ⟨r, hrun, hprobed⟩ := rbProbe_spec hcmp ht hsize ok item
  cases hprobed with
  | found c l x r q he hx =>
      refine ⟨s, ?_, ?_⟩
      · have hmem : x ∈ t.toList := by
          rw [← he.plug, toList_plug]
          simp [toList]
        rw [he.find? ht, rbInsert, hrun]
        simp [found, ht.shows.tree.data hmem, Option.filter]
      · obtain ⟨hitems, hb, -⟩ := he.items_node ht
        split
        · refine ⟨t, ht, ?_⟩
          rw [OrdTable.insert, IsTable.ord]
          dsimp only
          rw [hitems, insertList_taken hx fun y hy => hx ▸ hb y hy]
        · exact ht.models
  | failed hnone hok =>
      have hfind : ht.ord.find? (key item) = none := OrdTable.find?_eq_none.2 hnone
      refine ⟨s, ?_, ?_⟩
      · rw [hfind, rbInsert, hrun]
        rfl
      · rw [if_neg (by simp [hok])]
        exact ht.models
  | new s' t' hnone hok htable hcontent hdata hgen =>
      have hfind : ht.ord.find? (key item) = none := OrdTable.find?_eq_none.2 hnone
      refine ⟨s', ?_, ?_⟩
      · rw [hfind, rbInsert, hrun]
        simp [hdata]
      · rw [if_pos hok]
        exact ⟨t', htable, hcontent.symm⟩

/-- `rb_replace` does what an ordered table does; an item that is there is replaced without an allocation. -/
theorem rbReplace_eq [DecidableEq α] (hcmp : CompareBy cmp key) (h : Models key s o) (hsize : o.count < 2 ^ 25 - 2)
    (ok : Bool) (item : α) :
    ∃ s', rbReplace cmp ok s item = some (s', (o.find? (key item)).filter fun x => x ≠ item) ∧
      Models key s' (if ok ∨ (o.find? (key item)).isSome then o.replace item else o) := by
  obtain ⟨t, ht, rfl⟩ := h.exists_tree
  rw [OrdTable.count, IsTable.ord, length_items] at hsize
  obtain ⟨r, hrun, hprobed⟩ := rbProbe_spec hcmp ht hsize ok item
  cases hprobed with
  | found c l x r q he hx =>
      have hmem : x ∈ t.toList := by
        rw [← he.plug, toList_plug]
        simp [toList]
      have hfind : ht.ord.find? (key item) = some x.2 := he.find? ht
      obtain ⟨hitems, hb, ha⟩ := he.items_node ht
      rw [hx] at hb ha
      have hreplace : (ht.ord.replace item).items =
          ((Path.before q).map Prod.snd ++ items l) ++ item :: (items r ++ (Path.after q).map Prod.snd) := by
        rw [OrdTable.replace, OrdTable.insert, OrdTable.delete, IsTable.ord]
        dsimp only
        rw [hitems, filter_between hx hb ha, insertList_between hb ha]
      obtain ⟨s', hset, htable, -⟩ := ht.setData he.plug hx.symm
      rw [hfind, rbReplace, hrun]
      by_cases heq : x.2 = item
      · refine ⟨s, ?_, ?_⟩
        · simp [ht.shows.tree.data hmem, heq, Option.filter]
        · rw [if_pos (by simp)]
          refine ⟨t, ht, ?_⟩
          rw [hreplace, hitems, heq]
      · refine ⟨s', ?_, ?_⟩
        · simp only [Option.bind_eq_bind, Option.bind_some, reduceCtorEq, if_false, ht.shows.tree.data hmem, heq, hset]
          simp [Option.filter, heq]
        · rw [if_pos (by simp)]
          refine ⟨_, htable, ?_⟩
          rw [hreplace]
          simp [items, toList_plug, toList]
  | failed hnone hok =>
      have hfind : ht.ord.find? (key item) = none := OrdTable.find?_eq_none.2 hnone
      refine ⟨s, ?_, ?_⟩
      · rw [hfind, rbReplace, hrun]
        rfl
      · rw [if_neg (by simp [hok, hfind])]
        exact ht.models
  | new s' t' hnone hok htable hcontent hdata hgen =>
      have hfind : ht.ord.find? (key item) = none := OrdTable.find?_eq_none.2 hnone
      refine ⟨s', ?_, ?_⟩
      · rw [hfind, rbReplace, hrun]
        simp [hdata]
      · rw [if_pos (Or.inl hok)]
        refine ⟨t', htable, ?_⟩
        rw [hcontent, OrdTable.replace, OrdTable.insert]
        exact congrArg (OrdTable.insertList key item) (OrdTable.delete_of_find?_eq_none hfind)

end Insertion

end ComplexSim.Rb
