import ComplexSim.Rb.Probe

/-!
# Deletion (`rb_delete` in `avl-2.0/src/rb.c`)

The node goes in one of three ways (`deleteUnlink`), by the children it has, and what goes with it
is a colour: its own, or that of the node that takes its place and with it its colour. Where a
black node is missing then, the loop mends the tree from the stack's top down as `deleteUp` does.
-/

namespace ComplexSim.Rb

open RedBlack RbTree RbTable

variable {α κ : Type} [LinearOrder κ]

/-- The walk of `rb_delete` below `p` on side `dir`: the node with an equal item, and the stack above it. -/
def deleteDown (cmp : RbCompare α) (s : RbTable α) (item : α) :
    Nat → RbPtr → Bool → RbStack → Option (Option (RbPtr × RbStack))
  | 0, _, _, _ => none
  | room + 1, p, dir, st => do
      let q ← s.link p dir
      if q = .null then some none
      else
        let c := cmp item (← s.data q)
        if c = 0 then some (some (q, (p, dir) :: st))
        else deleteDown cmp s item room q (decide (0 < c)) ((p, dir) :: st)

/-- The walk to the next node: the last `r` and `s` of the source, and the entries for the nodes passed. -/
def nextDown (t : RbTable α) : Nat → RbPtr → RbStack → Option (RbPtr × RbPtr × RbStack)
  | 0, _, _ => none
  | room + 1, r, st => do
      let s ← t.link r false
      if (← t.link s false) = .null then some (r, s, (r, false) :: st)
      else nextDown t room s ((r, false) :: st)

/-- `rb_delete` takes the node `p` out; the stack is the one for the place where its colour is missing. -/
def deleteUnlink (m : RbTable α) (p : RbPtr) (st : RbStack) : Option (RbTable α × RbStack) := do
  let (q, d) ← st.head?
  let r ← m.link p true
  if r = .null then
    let m ← m.setLink q d (← m.link p false)
    some (m, st)
  else if (← m.link r false) = .null then
    let m ← m.setLink r false (← m.link p false)
    let t ← m.color r
    let m ← m.setColor r (← m.color p)
    let m ← m.setColor p t
    let m ← m.setLink q d r
    if st.length < rbMaxHeight then some (m, (r, true) :: st) else none
  else
    -- the entry for `s` comes below those of the nodes on the way to it
    let (r, s, top) ← nextDown m (rbMaxHeight - (st.length + 1)) r []
    let m ← m.setLink q d s
    let m ← m.setLink s false (← m.link p false)
    let m ← m.setLink r false (← m.link s true)
    let m ← m.setLink s true (← m.link p true)
    let t ← m.color s
    let m ← m.setColor s (← m.color p)
    let m ← m.setColor p t
    some (m, top ++ (s, true) :: st)

/-- A red sibling `w` of the place below `q` on side `d` goes up; `g` is the node above `q`. -/
def deleteRedSibling (s : RbTable α) (q : RbPtr) (d : Bool) (g : RbPtr) (dg : Bool) (w : RbPtr) :
    Option (RbTable α) := do
  let s ← s.setColor w .black
  let s ← s.setColor q .red
  let s ← s.setLink q (!d) (← s.link w d)
  let s ← s.setLink w d q
  s.setLink g dg w

/-- Neither child of `w` is red. -/
def bothBlack (s : RbTable α) (w : RbPtr) : Option Bool := do
  if ← s.isRed (← s.link w false) then some false
  else if ← s.isRed (← s.link w true) then some false
  else some true

/-- The end of the loop: the black sibling `w` has a red child. -/
def deleteLast (s : RbTable α) (q : RbPtr) (d : Bool) (g : RbPtr) (dg : Bool) (w : RbPtr) : Option (RbTable α) := do
  let (s, w) ← if ← s.isRed (← s.link w !d) then some (s, w) else do
    let y ← s.link w d
    let s ← s.setColor y .black
    let s ← s.setColor w .red
    let s ← s.setLink w d (← s.link y !d)
    let s ← s.setLink y (!d) w
    let s ← s.setLink q (!d) y
    some (s, y)
  let s ← s.setColor w (← s.color q)
  let s ← s.setColor q .black
  let s ← s.setColor (← s.link w !d) .black
  let s ← s.setLink q (!d) (← s.link w d)
  let s ← s.setLink w d q
  s.setLink g dg w

/-- The loop of `rb_delete` that mends the tree, at most `fuel` turns. -/
def deleteLoop : Nat → RbTable α → RbStack → Option (RbTable α)
  | fuel + 1, s, (q, d) :: st => do
      let x ← s.link q d
      if ← s.isRed x then s.setColor x .black
      else match st with
        | [] => some s
        | (g, dg) :: rest => do
            let w ← s.link q !d
            if (← s.color w) = .red then
              let s ← deleteRedSibling s q d g dg w
              if rest.length + 2 < rbMaxHeight then
                -- the stack is `q`, `w`, `g` and the rest now
                let v ← s.link q !d
                if ← bothBlack s v then
                  let s ← s.setColor v .red
                  deleteLoop fuel s ((w, d) :: (g, dg) :: rest)
                else deleteLast s q d w d v
              else none
            else if ← bothBlack s w then
              let s ← s.setColor w .red
              deleteLoop fuel s ((g, dg) :: rest)
            else deleteLast s q d g dg w
  | _, _, _ => none

/-- The tree is mended where a black node has gone. The loop takes one entry off the stack at each turn but one. -/
def deleteMend (s : RbTable α) (p : RbPtr) (st : RbStack) : Option (RbTable α) := do
  if (← s.color p) = .black then deleteLoop (st.length + 1) s st else some s

/-- `rb_delete`. -/
def rbDelete (cmp : RbCompare α) (s : RbTable α) (item : α) : Option (RbTable α × Option α) := do
  match ← deleteDown cmp s item rbMaxHeight .table false [] with
  | none => some (s, none)
  | some (p, st) =>
      let item ← s.data p
      let (s, st) ← deleteUnlink s p st
      let s ← deleteMend s p st
      match p with
      | .node a =>
          let nodes ← s.nodes.free a
          some ({ s with
            rbCount := (s.rbCount + (2 ^ 64 - 1)) % 2 ^ 64
            rbGeneration := (s.rbGeneration + 1) % 2 ^ 64
            nodes := nodes }, some item)
      | _ => none

section Turns

variable {s : RbTable α} {t a b near far l : RbTree (RbLabel α)} {p : Path (RbLabel α)} {x y z w : RbLabel α}
  {c c' c'' : Color} {d : Bool}

/-- A red sibling goes up, and its nearer child is the new sibling. -/
theorem deleteRedSibling_eq (h : Shows s (branch d c t x (branch d c' near w far)) p) :
    ∃ e rest s', stack p = e :: rest ∧ deleteRedSibling s (.node x.1) d e.1 e.2 (.node w.1) = some s' ∧
      Shows s' (branch d .black (branch d .red t x near) w far) p ∧ Same s s' := by
  obtain ⟨htree, hholds, hnodup⟩ := h
  have hdist := nodup_addrs_plug.1 hnodup
  simp only [nodup_addrs_branch, fresh_branch, far_branch_right, farPath_branch] at hdist
  simp only [reps_branch, ptr_branch] at htree hholds
  obtain ⟨hx, ht, hw, hnear, hfar⟩ := htree
  have hlist : addrs (plug (branch d .black (branch d .red t x near) w far) p) =
      addrs (plug (branch d c t x (branch d c' near w far)) p) := by
    cases d <;> simp [addrs, toList_plug, toList_branch]
  rw [← hlist] at hnodup
  let s₁ := (s.put x.1 (.of d .red (ptr t) x.2 (ptr near))).put w.1 (.of d .black (.node x.1) w.2 (ptr far))
  have hholds₁ : Holds s₁ (.node x.1) p := by simp [s₁, hdist, hholds]
  obtain ⟨e, rest, s', hst, hset, hshows, hsame, -⟩ := hholds₁.hang
    (t := branch d .black (branch d .red t x near) w far)
    (by simp [s₁, put_cells, hdist, ht, hnear, hfar]) hnodup
  refine ⟨e, rest, s', hst, ?_, hshows, ((same_put ?_).trans (same_put ?_)).trans hsame⟩
  · simpa [deleteRedSibling, hx, hw, put_cells, hdist] using hset
  all_goals simp [put_cells, hdist, hx, hw]

theorem bothBlack_eq (h : Reps s.nodes.cells l) (hl : l ≠ .nil) :
    bothBlack s (ptr l) = some (decide l.BlackChildren) := by
  obtain ⟨c, a, x, b, rfl⟩ := exists_branch false hl
  obtain ⟨hx, ha, hb⟩ := reps_branch.1 h
  have ha := ha.isRed
  have hb := hb.isRed
  have hiff := blackChildren_branch (d := false) (c := c) (x := x) (t := a) (s := b)
  have hx₀ : s.link (.node x.1) false = some (ptr a) := by
    rw [link_node, hx]
    rfl
  have hx₁ : s.link (.node x.1) true = some (ptr b) := by
    rw [link_node, hx]
    rfl
  simp only [bothBlack, ptr_branch, hx₀, hx₁, ha, hb, Option.bind_eq_bind, Option.bind_some]
  cases hac : a.color <;> cases hbc : b.color <;> simp [hiff, hac, hbc]

/-- One rotation, where the farther child of the sibling is red. -/
theorem deleteLast_far (h : Shows s (branch d c t x (branch d c' near w (branch false .red a z b))) p) :
    ∃ e rest s', stack p = e :: rest ∧ deleteLast s (.node x.1) d e.1 e.2 (.node w.1) = some s' ∧
      Shows s' (branch d c (branch d .black t x near) w (branch false .black a z b)) p ∧ Same s s' := by
  obtain ⟨htree, hholds, hnodup⟩ := h
  have hdist := nodup_addrs_plug.1 hnodup
  simp only [nodup_addrs_branch, fresh_branch, far_branch_right, farPath_branch] at hdist
  simp only [reps_branch, ptr_branch] at htree hholds
  obtain ⟨hx, ht, hw, hnear, hz, ha, hb⟩ := htree
  have hlist : addrs (plug (branch d c (branch d .black t x near) w (branch false .black a z b)) p) =
      addrs (plug (branch d c t x (branch d c' near w (branch false .red a z b))) p) := by
    cases d <;> simp [addrs, toList_plug, toList_branch]
  rw [← hlist] at hnodup
  let s₁ := ((s.put z.1 (.of false .black (ptr a) z.2 (ptr b))).put x.1 (.of d .black (ptr t) x.2 (ptr near))).put w.1
    (.of d c (.node x.1) w.2 (.node z.1))
  have hholds₁ : Holds s₁ (.node x.1) p := by simp [s₁, hdist, hholds]
  obtain ⟨e, rest, s', hst, hset, hshows, hsame, -⟩ := hholds₁.hang
    (t := branch d c (branch d .black t x near) w (branch false .black a z b))
    (by simp [s₁, put_cells, hdist, ht, hnear, ha, hb]) hnodup
  refine ⟨e, rest, s', hst, ?_, hshows, ((same_put ?_).trans ((same_put ?_).trans (same_put ?_))).trans hsame⟩
  · simpa [deleteLast, hx, hw, hz, put_cells, hdist] using hset
  all_goals simp [put_cells, hdist, hx, hw, hz]

/-- Two rotations, where only the nearer one is. -/
theorem deleteLast_near (h : Shows s (branch d c t x (branch d c' (branch d c'' a y b) w far)) p)
    (hfar : far.color = .black) :
    ∃ e rest s', stack p = e :: rest ∧ deleteLast s (.node x.1) d e.1 e.2 (.node w.1) = some s' ∧
      Shows s' (branch d c (branch d .black t x a) y (branch d .black b w far)) p ∧ Same s s' := by
  obtain ⟨htree, hholds, hnodup⟩ := h
  have hdist := nodup_addrs_plug.1 hnodup
  simp only [nodup_addrs_branch, fresh_branch, far_branch, far_branch_right, farPath_branch] at hdist
  simp only [reps_branch, ptr_branch] at htree hholds
  obtain ⟨hx, ht, hw, ⟨hy, ha, hb⟩, hf⟩ := htree
  have hred := hf.isRed
  have hlist : addrs (plug (branch d c (branch d .black t x a) y (branch d .black b w far)) p) =
      addrs (plug (branch d c t x (branch d c' (branch d c'' a y b) w far)) p) := by
    cases d <;> simp [addrs, toList_plug, toList_branch]
  rw [← hlist] at hnodup
  let s₁ := ((s.put w.1 (.of d .black (ptr b) w.2 (ptr far))).put x.1 (.of d .black (ptr t) x.2 (ptr a))).put y.1
    (.of d c (.node x.1) y.2 (.node w.1))
  have hholds₁ : Holds s₁ (.node x.1) p := by simp [s₁, hdist, hholds]
  obtain ⟨e, rest, s', hst, hset, hshows, hsame, -⟩ := hholds₁.hang
    (t := branch d c (branch d .black t x a) y (branch d .black b w far))
    (by simp [s₁, put_cells, hdist, ht, hf, ha, hb]) hnodup
  refine ⟨e, rest, s', hst, ?_, hshows, ((same_put ?_).trans ((same_put ?_).trans (same_put ?_))).trans hsame⟩
  · simpa [deleteLast, hx, hw, hy, hred, hfar, put_cells, hdist] using hset
  all_goals simp [put_cells, hdist, hx, hw, hy]

/-- The end of the loop does to the memory what `deleteTurn` does to the tree. -/
theorem deleteLast_eq (h : Shows s (branch d c t x (branch d c' near w far)) p)
    (hred : ¬ (branch d c' near w far).BlackChildren) :
    ∃ e rest s', stack p = e :: rest ∧ deleteLast s (.node x.1) d e.1 e.2 (.node w.1) = some s' ∧
      Shows s' (deleteTurn t ⟨d, c, x, branch d c' near w far⟩) p ∧ Same s s' := by
  rw [blackChildren_branch, not_and] at hred
  by_cases hfar : far.color = .black
  · have hnear : near.color = .red := by
      cases hnc : near.color with
      | red => rfl
      | black => exact absurd hfar (hred hnc)
    obtain ⟨c'', a, y, b, rfl⟩ := exists_branch d (ne_nil_of_red hnear)
    rw [deleteTurn_near hfar]
    exact deleteLast_near h hfar
  · have hfr : far.color = .red := by
      cases hfc : far.color with
      | red => rfl
      | black => exact absurd hfc hfar
    obtain ⟨c'', a, z, b, rfl⟩ := exists_branch false (ne_nil_of_red hfr)
    obtain rfl : c'' = .red := by simpa using hfr
    rw [deleteTurn_far hfar, paint_branch]
    exact deleteLast_far h

end Turns

section Loop

variable {s : RbTable α} {t : RbTree (RbLabel α)} {p : Path (RbLabel α)} {n m : Nat}

/-- Where the tree that lacks a black node is red, the loop ends. -/
theorem deleteLoop_red (h : Shows s t p) (hred : t.color = .red) (fuel : Nat) :
    ∃ s', deleteLoop (fuel + 1) s (stack p) = some s' ∧ Shows s' (t.paint .black) p ∧ Same s s' := by
  obtain ⟨s', hpaint, hshows, hsame⟩ := h.paint (ne_nil_of_red hred) .black
  obtain ⟨⟨q, d⟩, rest, hst, hlink⟩ := h.holds.link
  have hisRed := h.tree.isRed
  refine ⟨s', ?_, hshows, hsame⟩
  dsimp only at hlink
  simp [deleteLoop, hst, hlink, hisRed, hred, hpaint]

/-- The loop of `rb_delete` mends the tree in memory as `deleteUp` does. -/
theorem deleteLoop_eq (h : Shows s t p) (ht : Lacks n t) (hp : Path.Fits (n + 1) p m) (hlen : p.length + 1 < rbMaxHeight)
    (fuel : Nat) (hfuel : p.length + 1 ≤ fuel) :
    ∃ s', deleteLoop fuel s (stack p) = some s' ∧ Shows s' (deleteUp t p) [] ∧ Same s s' := by
  induction p generalizing s t n fuel with
  | nil =>
      obtain ⟨fuel, rfl⟩ : ∃ k, fuel = k + 1 := ⟨fuel - 1, by omega⟩
      have hroot : s.rbRoot = ptr t := h.holds.root
      have hisRed := h.tree.isRed
      by_cases hred : t.color = .red
      · exact deleteLoop_red h hred fuel
      · refine ⟨s, ?_, ?_, .rfl⟩
        · simp [deleteLoop, stack, hroot, hisRed, hred]
        · rwa [deleteUp, paint_of_color (Color.not_red.1 hred)]
  | cons f p ih =>
      obtain ⟨fuel, rfl⟩ : ∃ k, fuel = k + 1 := ⟨fuel - 1, by omega⟩
      obtain ⟨d, c, x, sib⟩ := f
      have hisRed := h.tree.isRed
      obtain ⟨hx, -, -⟩ := h.holds.path
      by_cases hred : t.color = .red
      · obtain ⟨s', hrun, hshows, hsame⟩ := deleteLoop_red h hred fuel
        refine ⟨s', hrun, ?_, hsame⟩
        rw [deleteUp_of_red hred]
        exact shows_plug.2 hshows
      · have hblack := Color.not_red.1 hred
        rw [Lacks, hblack] at ht
        obtain ⟨cs, near, w, far, rfl⟩ := exists_branch d hp.1.ne_nil
        have hfocus := shows_cons.1 h
        obtain ⟨-, -, hsib⟩ := reps_branch.1 hfocus.tree
        obtain ⟨hw, -, -⟩ := reps_branch.1 hsib
        have hboth := bothBlack_eq hsib branch_ne_nil
        rw [ptr_branch] at hboth
        obtain ⟨⟨g, dg⟩, rest, hst, -⟩ := hfocus.holds.link
        have hrest : rest.length = p.length := by
          have := length_stack p
          rw [hst, List.length_cons] at this
          omega
        rw [List.length_cons] at hlen hfuel
        cases cs with
        | black =>
            by_cases hb : (branch d .black near w far).BlackChildren
            · obtain ⟨s₁, hpaint, hshows₁, hsame₁⟩ := hfocus.paint_sib branch_ne_nil .red
              rw [ptr_branch] at hpaint
              rw [paint_branch] at hshows₁
              obtain ⟨k, hlacks, hfits⟩ := hp.recolor ht hb
              obtain ⟨s', hrun, hshows', hsame'⟩ := ih hshows₁ hlacks hfits (by omega) fuel (by omega)
              refine ⟨s', ?_, ?_, hsame₁.trans hsame'⟩
              · rw [hst] at hrun
                simp [deleteLoop, stack, hst, hx, hw, hisRed, hblack, hboth, hb, hpaint, hrun]
              · rwa [deleteUp_black_recolor hblack hb]
            · obtain ⟨e, rest', s', hst', hlast, hshows', hsame'⟩ := deleteLast_eq hfocus hb
              obtain ⟨rfl, rfl⟩ := List.cons_eq_cons.1 (hst.symm.trans hst')
              refine ⟨s', ?_, ?_, hsame'⟩
              · simp [deleteLoop, stack, hst, hx, hw, hisRed, hblack, hboth, hb, hlast]
              · rw [deleteUp_black_turn hblack hb]
                exact shows_plug.2 hshows'
        | red =>
            obtain ⟨hfits, hnc, hnear⟩ := hp.red_sibling
            obtain ⟨e, rest', s₁, hst', hturn, hshows₁, hsame₁⟩ := deleteRedSibling_eq hfocus
            obtain ⟨rfl, rfl⟩ := List.cons_eq_cons.1 (hst.symm.trans hst')
            have hup : Shows s₁ (branch d .red t x near) (⟨d, .black, w, far⟩ :: p) := shows_cons.2 hshows₁
            obtain ⟨hx₁, -, hnear₁⟩ := reps_branch.1 hup.tree
            have hboth₁ := bothBlack_eq hnear₁ hnear
            have hroom : rest.length + 2 < rbMaxHeight := by omega
            by_cases hb : near.BlackChildren
            · obtain ⟨s₂, hpaint, hshows₂, hsame₂⟩ := hup.paint_sib hnear .red
              obtain ⟨fuel, rfl⟩ : ∃ k, fuel = k + 1 := ⟨fuel - 1, by omega⟩
              obtain ⟨s', hrun, hshows', hsame'⟩ := deleteLoop_red hshows₂ (by simp) fuel
              refine ⟨s', ?_, ?_, (hsame₁.trans hsame₂).trans hsame'⟩
              · rw [stack, hst] at hrun
                rw [deleteLoop.eq_def]
                simp [stack, hst, hx, hw, hisRed, hblack, hturn, hroom, hx₁, hboth₁, hb, hpaint, hrun]
              · rw [deleteUp_red_recolor hblack hb]
                rw [paint_branch] at hshows'
                exact shows_plug.2 hshows'
            · obtain ⟨cn, a, v, b, rfl⟩ := exists_branch d hnear
              obtain ⟨e', rest', s', hst₁, hlast, hshows', hsame'⟩ := deleteLast_eq hup hb
              rw [stack] at hst₁
              obtain ⟨rfl, -⟩ := List.cons_eq_cons.1 hst₁
              refine ⟨s', ?_, ?_, hsame₁.trans hsame'⟩
              · rw [ptr_branch] at hboth₁
                rw [deleteLoop.eq_def]
                simp [stack, hst, hx, hw, hisRed, hblack, hturn, hroom, hx₁, hboth₁, hb, hlast]
              · rw [deleteUp_red_turn hblack hb]
                exact shows_plug.2 hshows'

end Loop

section Unlink

variable {s : RbTable α} {t u v l r : RbTree (RbLabel α)} {p q : Path (RbLabel α)} {f : Frame (RbLabel α)} {x y : RbLabel α}
  {c c' : Color}

def entries (p : Path (RbLabel α)) : RbStack := p.map fun f => (.node f.label.1, f.dir)

theorem nextDown_eq (h : Reps s.nodes.cells t) (hl : t.child false ≠ .nil) (room : Nat)
    (hend : leftmost t p = (.node c .nil y u, f :: q)) (hroom : q.length + 1 ≤ p.length + room) :
    nextDown s room (ptr t) (entries p) = some (.node f.label.1, .node y.1, entries (f :: q)) := by
  induction t generalizing p room with
  | nil => exact absurd rfl hl
  | node c₁ l x v ihl ihr =>
      cases l with
      | nil => exact absurd rfl hl
      | node c₂ l' x' r' =>
          rw [leftmost_of_node] at hend
          obtain ⟨hx, hl₁, -⟩ := h
          have hx' := hl₁.1
          have hlen := length_le_leftmost (.node c₂ l' x' r') (⟨false, c₁, x, v⟩ :: p)
          rw [hend, List.length_cons, List.length_cons] at hlen
          obtain ⟨room, rfl⟩ : ∃ k, room = k + 1 := ⟨room - 1, by omega⟩
          rw [nextDown, ptr_node]
          have hlink : s.link (.node x.1) false = some (.node x'.1) := by
            rw [link_node, hx]
            rfl
          have hlink' : s.link (.node x'.1) false = some (ptr l') := by
            rw [link_node, hx']
            rfl
          simp only [hlink, hlink', Option.bind_eq_bind, Option.bind_some]
          by_cases hl' : l' = .nil
          · subst hl'
            obtain ⟨hnode, hpath⟩ := Prod.mk.inj hend
            obtain ⟨rfl, -, rfl, rfl⟩ := RbTree.node.inj hnode
            obtain ⟨rfl, rfl⟩ := List.cons_eq_cons.1 hpath
            rw [ptr_nil, if_pos rfl]
            rfl
          · rw [if_neg (mt ptr_eq_null.1 hl')]
            apply ihl hl₁ _ room hend
            · rw [List.length_cons]
              omega
            · exact hl'

/-- A node without a right child: its left child takes its place. -/
theorem deleteUnlink_left (h : Shows s (branch true c .nil x l) q) :
    ∃ s' n, deleteUnlink s (.node x.1) (stack q) = some (s', stack q) ∧ Shows s' l q ∧ Same s s' ∧
      s'.nodes.cells x.1 = some n ∧ n.rbColor = c := by
  obtain ⟨htree, hholds, hnodup⟩ := h
  have hdist := nodup_addrs_plug.1 hnodup
  simp only [nodup_addrs_branch, farPath_branch] at hdist
  simp only [reps_branch, ptr_branch] at htree hholds
  obtain ⟨hx, -, hl⟩ := htree
  have hnd : (addrs (plug l q)).Nodup := nodup_addrs_plug.2 ⟨hdist.1.2.2.2.1, hdist.2.1, hdist.2.2.2.2⟩
  obtain ⟨e, rest, s', hst, hset, hshows, hsame, hother⟩ := hholds.hang hl hnd
  refine ⟨s', .of true c .null x.2 (ptr l), ?_, hshows, hsame, ?_, by simp⟩
  · have hx₀ : s.link (.node x.1) false = some (ptr l) := by
      rw [link_node, hx]
      rfl
    have hx₁ : s.link (.node x.1) true = some .null := by
      rw [link_node, hx]
      rfl
    simp [deleteUnlink, hst, hx₀, hx₁, hset]
  · rw [hother x.1 hdist.2.2.1, hx]
    rfl

/-- A right child without a left child takes the place of the node. -/
theorem deleteUnlink_child (h : Shows s (branch true c (branch true c' u y .nil) x l) q)
    (hlen : q.length + 1 < rbMaxHeight) :
    ∃ s' n, deleteUnlink s (.node x.1) (stack q) = some (s', stack (⟨true, c, y, l⟩ :: q)) ∧
      Shows s' u (⟨true, c, y, l⟩ :: q) ∧ Same s s' ∧ s'.nodes.cells x.1 = some n ∧ n.rbColor = c' := by
  obtain ⟨htree, hholds, hnodup⟩ := h
  have hdist := nodup_addrs_plug.1 hnodup
  simp only [nodup_addrs_branch, fresh_branch, far_branch, farPath_branch] at hdist
  simp only [reps_branch, ptr_branch] at htree hholds
  obtain ⟨hx, ⟨hy, hu, -⟩, hl⟩ := htree
  have hnd : (addrs (plug (branch true c u y l) q)).Nodup := by
    refine nodup_addrs_plug.2 ⟨?_, hdist.2.1, ?_⟩
    · exact nodup_addrs_branch.2 (by simp [hdist])
    · exact farPath_branch.2 (by simp [hdist])
  let s₁ := (s.put y.1 (.of true c (ptr u) y.2 (ptr l))).put x.1 (.of true c' (.node y.1) x.2 (ptr l))
  have hholds₁ : Holds s₁ (.node x.1) q := by simp [s₁, hdist, hholds]
  obtain ⟨e, rest, s', hst, hset, hshows, hsame, hother⟩ := hholds₁.hang (t := branch true c u y l)
    (by simp [s₁, put_cells, hdist, hu, hl]) hnd
  refine ⟨s', .of true c' (.node y.1) x.2 (ptr l), ?_, ?_, ((same_put ?_).trans (same_put ?_)).trans hsame, ?_, ?_⟩
  · have hroom : (stack q).length < rbMaxHeight := by rwa [length_stack]
    rw [hst, List.length_cons] at hroom
    rw [ptr_branch] at hset
    simp only [s₁] at hset
    simp [deleteUnlink, stack, hst, hx, hy, put_cells, hdist, hroom, hset]
  · exact shows_cons.2 hshows
  · simp [hy]
  · simp [put_cells, hdist, hx]
  · rw [hother x.1 (by simp [hdist])]
    simp [s₁]
  · simp

/-- The next node takes the place of the node, and its right child takes its own. -/
theorem deleteUnlink_next {c₂ : Color} {z : RbLabel α}
    (h : Shows s (branch true c (plug (branch false c₂ (branch false c' .nil y u) z v) p) x l) q)
    (hend : leftmost (plug (branch false c₂ (branch false c' .nil y u) z v) p) [] =
      (branch false c' .nil y u, ⟨false, c₂, z, v⟩ :: p)) (hlen : p.length + 1 + q.length + 2 ≤ rbMaxHeight) :
    ∃ s' n, deleteUnlink s (.node x.1) (stack q) = some (s', stack (⟨false, c₂, z, v⟩ :: p ++ ⟨true, c, y, l⟩ :: q)) ∧
      Shows s' u (⟨false, c₂, z, v⟩ :: p ++ ⟨true, c, y, l⟩ :: q) ∧ Same s s' ∧ s'.nodes.cells x.1 = some n ∧
      n.rbColor = c' := by
  obtain ⟨hx, hr, -⟩ := reps_branch.1 h.tree
  have hdist := nodup_addrs_plug.1 h.nodup
  simp only [nodup_addrs_branch, nodup_addrs_plug, fresh_branch, fresh_plug, far_branch, far_plug, farPath_branch,
    farPath_plug] at hdist
  have hptr : ptr (plug (branch false c₂ (branch false c' .nil y u) z v) p) = ptr (plug (branch false c₂ u z v) p) := by
    rw [ptr_plug, ptr_plug, ptr_branch, ptr_branch]
  -- the walk to the next node
  obtain ⟨cr, rl, xr, rr, hnode⟩ := exists_branch false (t := plug (branch false c₂ (branch false c' .nil y u) z v) p)
    (by intro hnil; rw [hnil] at hend; cases hend)
  have hchild : rl ≠ .nil := by
    rintro rfl
    rw [hnode] at hend
    cases hend
  have hnext := nextDown_eq (p := []) hr (by rw [hnode, child_branch]; exact hchild)
    (rbMaxHeight - ((stack q).length + 1)) hend (by rw [length_stack, List.length_nil]; omega)
  have hptr_r : ptr (plug (branch false c₂ (branch false c' .nil y u) z v) p) = .node xr.1 := by rw [hnode, ptr_branch]
  have hlink_r : s.link (.node xr.1) false = some (ptr rl) := by
    rw [hnode] at hr
    rw [link_node, (reps_branch.1 hr).1]
    simp
  -- the writes
  obtain ⟨e, rest, s₁, hst, hset, htree₁, hholds₁, hsame₁⟩ := h.unhang (.node y.1)
  simp only [reps_branch, reps_plug, ptr_branch, hptr] at htree₁
  obtain ⟨hx₁, ⟨⟨hz₁, ⟨hy₁, -, hu₁⟩, hv₁⟩, hp₁⟩, hl₁⟩ := htree₁
  let s₂ := ((s₁.put z.1 (.of false c₂ (ptr u) z.2 (ptr v))).put y.1
    (.of false c (ptr l) y.2 (ptr (plug (branch false c₂ u z v) p)))).put x.1
    (.of true c' (ptr (plug (branch false c₂ u z v) p)) x.2 (ptr l))
  refine ⟨s₂, .of true c' (ptr (plug (branch false c₂ u z v) p)) x.2 (ptr l), ?_, ?_, ?_, by simp [s₂], by simp⟩
  · have hx₀ : s.link (.node x.1) true = some (.node xr.1) := by
      rw [link_node, hx, hptr_r]
      rfl
    rw [hptr_r, hst] at hnext
    have hstack : stack (⟨false, c₂, z, v⟩ :: p ++ ⟨true, c, y, l⟩ :: q) =
        entries (⟨false, c₂, z, v⟩ :: p) ++ (.node y.1, true) :: e :: rest := by
      rw [stack_append, stack, hst]
      rfl
    have hentries : entries ([] : Path (RbLabel α)) = [] := rfl
    rw [hentries, List.length_cons] at hnext
    dsimp only at hnext
    rw [hstack]
    simp [deleteUnlink, hst, hx₀, hlink_r, hchild, hnext, hset, hx₁, hy₁, hz₁, put_cells, hdist, s₂]
  · have hplug : plug u (⟨false, c₂, z, v⟩ :: p ++ ⟨true, c, y, l⟩ :: q) =
        plug (branch true c (plug (branch false c₂ u z v) p) y l) q := by
      rw [plug_append]
      rfl
    rw [← shows_plug, hplug, shows_plug]
    refine ⟨?_, ?_, ?_⟩
    · refine reps_branch.2 ⟨?_, ?_, ?_⟩
      · simp [s₂, put_cells, hdist]
        rfl
      · refine reps_plug.2 ⟨reps_branch.2 ⟨?_, ?_, ?_⟩, ?_⟩ <;> simp [s₂, put_cells, hdist, hu₁, hv₁, hp₁]
      · simp [s₂, hdist, hl₁]
    · simp [s₂, hdist, hholds₁]
    · simp only [nodup_addrs_branch, nodup_addrs_plug, fresh_branch, fresh_plug, far_branch, far_plug, farPath_branch,
        farPath_plug]
      simp [hdist]
  · refine hsame₁.trans ((same_put ?_).trans ((same_put ?_).trans (same_put ?_))) <;> simp [put_cells, hdist, hx₁, hy₁, hz₁]

/-- `rb_delete` takes a node out of the memory as `unlink` takes it out of the tree. -/
theorem deleteUnlink_eq (h : Shows s (.node c l x r) q) (hlen : (unlink c l r q).2.2.length + 1 ≤ rbMaxHeight) :
    ∃ s' n, deleteUnlink s (.node x.1) (stack q) = some (s', stack (unlink c l r q).2.2) ∧
      Shows s' (unlink c l r q).2.1 (unlink c l r q).2.2 ∧ Same s s' ∧ s'.nodes.cells x.1 = some n ∧
      n.rbColor = (unlink c l r q).1 := by
  rcases unlink_cases c l r q with ⟨rfl, heq⟩ | ⟨c', y, u, p, hplug, hbefore, hend, heq⟩
  · rw [heq]
    exact deleteUnlink_left h
  · rw [heq] at hlen ⊢
    simp only [List.length_append, List.length_cons] at hlen
    cases p with
    | nil =>
        subst hplug
        exact deleteUnlink_child h (Nat.lt_of_succ_le (by simpa using hlen))
    | cons f p =>
        obtain ⟨d, c₂, z, v⟩ := f
        obtain rfl : d = false := by
          cases d with
          | false => rfl
          | true => simp [Path.before] at hbefore
        subst hplug
        exact deleteUnlink_next h hend (by simp only [List.length_cons] at hlen; omega)

end Unlink

section Deletion

variable {key : α → κ} {cmp : RbCompare α} {s s' : RbTable α} {t : RbTree (RbLabel α)} {p : Path (RbLabel α)} {item : α}
  {o : OrdTable key}

/-- Where a walk leaves `rb_delete`. -/
def deleteEnd (e : RbTree (RbLabel α) × Path (RbLabel α)) : Option (RbPtr × RbStack) :=
  match e.1 with
  | .nil => none
  | .node _ _ x _ => some (.node x.1, stack e.2)

theorem deleteDown_eq (hcmp : CompareBy cmp key) (h : Shows s t p) (room : Nat) {g : RbPtr} {d : Bool} {rest : RbStack}
    (hst : stack p = (g, d) :: rest)
    (hroom : (locate (labelKey key) (key item) t p).2.length + 1 ≤ p.length + room) :
    deleteDown cmp s item room g d rest = some (deleteEnd (locate (labelKey key) (key item) t p)) := by
  induction t generalizing p room g d rest with
  | nil =>
      obtain ⟨room, rfl⟩ : ∃ k, room = k + 1 := ⟨room - 1, by simp only [locate] at hroom; omega⟩
      obtain ⟨e, rest', hst', hlink⟩ := h.holds.link
      obtain ⟨rfl, rfl⟩ := List.cons_eq_cons.1 (hst.symm.trans hst')
      dsimp only at hlink
      rw [deleteDown, hlink]
      rfl
  | node c l x r ihl ihr =>
      have hlen := length_le_locate (labelKey key) (key item) (.node c l x r) p
      obtain ⟨room, rfl⟩ : ∃ k, room = k + 1 := ⟨room - 1, by omega⟩
      obtain ⟨e, rest', hst', hlink⟩ := h.holds.link
      obtain ⟨rfl, rfl⟩ := List.cons_eq_cons.1 (hst.symm.trans hst')
      obtain ⟨hx, -, -⟩ := h.tree
      have hneg : cmp item x.2 < 0 ↔ key item < labelKey key x := hcmp.neg item x.2
      have hpos : 0 < cmp item x.2 ↔ labelKey key x < key item := hcmp.pos item x.2
      dsimp only at hlink
      rw [deleteDown, hlink]
      simp only [ptr_node, data_node, hx, Option.map_some, Option.bind_eq_bind, Option.bind_some, reduceCtorEq, if_false]
      by_cases hlt : key item < labelKey key x
      · rw [if_neg (ne_of_lt (hneg.2 hlt)), decide_eq_false fun hgt => lt_asymm hlt (hpos.1 hgt)]
        rw [locate_of_lt hlt] at hroom ⊢
        apply ihl (p := ⟨false, c, x, r⟩ :: p) (shows_cons.2 h)
        · rw [stack, hst]
        · rw [List.length_cons]
          omega
      · by_cases hgt : labelKey key x < key item
        · rw [if_neg (ne_of_gt (hpos.2 hgt)), decide_eq_true (hpos.2 hgt)]
          rw [locate_of_gt hgt] at hroom ⊢
          apply ihr (p := ⟨true, c, x, l⟩ :: p) (shows_cons.2 h)
          · rw [stack, hst]
          · rw [List.length_cons]
            omega
        · have heq : cmp item x.2 = 0 := by
            have := mt hneg.1 hlt
            have := mt hpos.1 hgt
            omega
          rw [if_pos heq, locate_of_eq (le_antisymm (not_lt.1 hlt) (not_lt.1 hgt)), deleteEnd, hst]

/-- The memory after the node `x` is freed: the rest of the tree is a table again. -/
theorem IsTable.freed {x : RbLabel α} {b a : List (RbLabel α)} {n : RbNode α} (h : IsTable key s t)
    (ht : t.toList = b ++ x :: a) {u : RbTree (RbLabel α)} (hu : Shows s' u []) (hlist : u.toList = b ++ a)
    (hbal : ∃ m, BlackHeight m u) (hblack : u.color = .black) (hsame : Same s s') (hx : s'.nodes.cells x.1 = some n) :
    s'.nodes.free x.1 = some (s'.nodes.without [x.1]) ∧
      IsTable key { s' with
        rbCount := (s'.rbCount + (2 ^ 64 - 1)) % 2 ^ 64
        rbGeneration := (s'.rbGeneration + 1) % 2 ^ 64
        nodes := s'.nodes.without [x.1] } u := by
  have hnd := h.shows.nodup
  rw [plug_nil, addrs, ht, List.map_append, List.map_cons] at hnd
  have hxu : x.1 ∉ addrs u := by
    rw [addrs, hlist, List.map_append]
    exact (List.nodup_middle.1 hnd).notMem
  have hsome : (s'.nodes.cells x.1).isSome = true := by rw [hx]; rfl
  have hsize : t.size = u.size + 1 := by
    rw [← length_toList, ← length_toList, ht, hlist]
    simp
    omega
  refine ⟨Heap.free_eq hsome, ⟨⟨?_, ⟨trivial, hu.holds.root⟩, hu.nodup⟩, ?_, hbal, hblack, ?_, ?_, ?_, ?_⟩⟩
  · apply hu.tree.congr
    intro i hi
    apply Heap.without_cells_of_notMem
    rw [List.mem_singleton]
    rintro rfl
    exact hxu hi
  · show (s'.rbCount + (2 ^ 64 - 1)) % 2 ^ 64 = _
    rw [hsame.count, h.count, hsize]
    omega
  · have hsort := h.sorted
    rw [ht] at hsort
    rw [hlist]
    obtain ⟨hb, ha, -, -, hba⟩ := sorted_between.1 hsort
    exact List.pairwise_append.2 ⟨hb, ha, hba⟩
  · intro i hi
    have hix : i ≠ x.1 := by
      rintro rfl
      rw [Heap.without_cells_of_mem (List.mem_singleton.2 rfl)] at hi
      cases hi
    rw [Heap.without_cells_of_notMem (by simpa using hix), hsame.allocated] at hi
    have hmem := h.owns i hi
    rw [addrs, ht, List.map_append, List.map_cons] at hmem
    rw [addrs, hlist, List.map_append]
    simp only [List.mem_append, List.mem_cons] at hmem ⊢
    tauto
  · exact Heap.Sound.without (hsame.sound h.sound) (List.nodup_singleton _) (by simpa using hsome)
  · show s'.nodes.brk = (s'.nodes.freed ++ [x.1]).length + u.size
    rw [hsame.brk, hsame.freed, h.accounted, hsize, List.length_append, List.length_singleton]
    omega

/-- After a node is taken out the tree is mended, if a black one is missing. -/
theorem IsTable.mended {c : Color} {l r : RbTree (RbLabel α)} {x : RbLabel α} {q : Path (RbLabel α)} {n : RbNode α}
    (h : IsTable key s t) (hplug : plug (.node c l x r) q = t) (hlen : (unlink c l r q).2.2.length + 1 < rbMaxHeight)
    (hshows : Shows s' (unlink c l r q).2.1 (unlink c l r q).2.2) (hsame : Same s s')
    (hx : s'.nodes.cells x.1 = some n) (hn : n.rbColor = (unlink c l r q).1) :
    ∃ s₂ u, deleteMend s' (.node x.1) (stack (unlink c l r q).2.2) = some s₂ ∧
      Shows s₂ u [] ∧ Same s s₂ ∧ (∃ m, BlackHeight m u) ∧ u.color = .black ∧
      u.toList = (Path.before q ++ l.toList) ++ (r.toList ++ Path.after q) := by
  obtain ⟨m, hm⟩ := h.balanced
  have hblack := h.black
  rw [← hplug] at hm hblack
  obtain ⟨k, hbal, hfits⟩ := balanced_unlink hm hblack
  have hlist := toList_unlink c l r q
  simp only [deleteMend, RbTable.color_node, hx, Option.map_some, Option.bind_eq_bind, Option.bind_some, hn]
  cases hc : (unlink c l r q).1 with
  | black =>
      rw [hc] at hfits
      obtain ⟨s₂, hrun, hshows₂, hsame₂⟩ := deleteLoop_eq hshows hbal.lacks hfits hlen
        ((stack (unlink c l r q).2.2).length + 1) (by rw [length_stack]; exact Nat.le_succ _)
      obtain ⟨m', hm', hroot⟩ := balanced_deleteUp hbal.lacks hfits
      refine ⟨s₂, _, ?_, hshows₂, hsame.trans hsame₂, ⟨m', hm'⟩, hroot, ?_⟩
      · rw [if_pos rfl, hrun]
      · rw [toList_deleteUp, hlist]
        simp
  | red =>
      rw [hc] at hfits
      obtain ⟨hbal', hroot⟩ := hfits.1.plug hbal (by rw [hfits.2]; simp)
      refine ⟨s', _, ?_, shows_plug.2 hshows, hsame, ⟨m, hbal'⟩, hroot, ?_⟩
      · rw [if_neg (by simp)]
      · rw [hlist]
        simp

/-- `rb_delete` does what an ordered table does. -/
theorem rbDelete_eq (hcmp : CompareBy cmp key) (h : Models key s o) (hsize : o.count < 2 ^ 25 - 2) (item : α) :
    ∃ s', rbDelete cmp s item = some (s', o.find? (key item)) ∧ Models key s' (o.delete (key item)) := by
  obtain ⟨t, ht, rfl⟩ := h.exists_tree
  rw [OrdTable.count, IsTable.ord, length_items] at hsize
  have he := ht.ends (key item)
  have hheight := ht.height_lt hsize
  have hlen := he.length
  have hdown : deleteDown cmp s item rbMaxHeight _ _ _ = _ := deleteDown_eq hcmp ht.shows rbMaxHeight rfl
    (by rw [List.length_nil]; omega)
  rcases hq : locate (labelKey key) (key item) t [] with ⟨u, q⟩
  rw [hq] at he hlen hdown
  rcases he.at_key with rfl | ⟨c, l, x, r, rfl, hx⟩
  · refine ⟨s, ?_, t, ht, ?_⟩
    · rw [rbDelete, hdown, he.find? ht]
      rfl
    · exact OrdTable.delete_of_find?_eq_none (he.find? ht)
  · have hshows := ht.shows
    rw [← he.plug] at hshows
    have hunlink := length_unlink c l x r q
    rw [he.plug] at hunlink
    have hroom : (unlink c l r q).2.2.length + 1 < rbMaxHeight := by omega
    obtain ⟨s₁, n, hrun₁, hshows₁, hsame₁, hcell, hcolor⟩ := deleteUnlink_eq (shows_plug.1 hshows) (Nat.le_of_lt hroom)
    obtain ⟨s₂, v, hrun₂, hshows₂, hsame₂, hbal, hblack, hlist⟩ :=
      ht.mended he.plug hroom hshows₁ hsame₁ hcell hcolor
    have hx₂ : (s₂.nodes.cells x.1).isSome = true := by
      rw [hsame₂.allocated]
      apply ht.shows.tree.isSome
      rw [addrs, ← he.plug, toList_plug]
      simp [toList]
    obtain ⟨n₂, hn₂⟩ := Option.isSome_iff_exists.1 hx₂
    have htlist : t.toList = (Path.before q ++ l.toList) ++ x :: (r.toList ++ Path.after q) := by
      rw [← he.plug, toList_plug]
      simp [toList]
    obtain ⟨hfree, htable⟩ := ht.freed htlist hshows₂ hlist hbal hblack hsame₂ hn₂
    have hdata : s.data (.node x.1) = some x.2 := by
      apply ht.shows.tree.data
      rw [htlist]
      simp
    refine ⟨_, ?_, v, htable, ?_⟩
    · rw [rbDelete, hdown, he.find? ht]
      simp [deleteEnd, hdata, hrun₁, hrun₂, hfree, found]
    · obtain ⟨hitems, hb, ha⟩ := he.items_node ht
      rw [hx] at hb ha
      rw [OrdTable.delete, IsTable.ord]
      dsimp only
      rw [hitems, filter_between hx hb ha]
      simp [items, hlist]

end Deletion

end ComplexSim.Rb
