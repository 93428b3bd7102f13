import ComplexSim.Lib.RedBlack

/-!
# Repairs on the way up

An insertion leaves a red node where a red parent may stand above it, a deletion a subtree that
lacks one black node. Both are repaired from the place of the change upwards: `insertUp` and
`deleteUp` walk the path, recolour, and end with a rotation or at the root. Whatever tree they
are given, the labels stay in their order; on a balanced tree with one such defect the result
is balanced.
-/

universe u

namespace RedBlack

variable {α : Type u}

/-- A node above a hole: the side of the hole, the colour and label, and the other child. -/
structure Frame (α : Type u) where
  dir : Bool
  color : Color
  label : α
  sib : RbTree α

abbrev Path (α : Type u) := List (Frame α)

open RbTree

def Frame.fill (f : Frame α) (t : RbTree α) : RbTree α := branch f.dir f.color t f.label f.sib

/-- The tree with `t` at the end of a path. -/
def plug : RbTree α → Path α → RbTree α
  | t, [] => t
  | t, f :: p => plug (f.fill t) p

/-- The colour above the hole; above the root it counts as red. -/
def Path.color : Path α → Color
  | [] => .red
  | f :: _ => f.color

/-- The labels to the left of the hole. -/
def Path.before : Path α → List α
  | [] => []
  | f :: p => before p ++ if f.dir then f.sib.toList ++ [f.label] else []

/-- The labels to the right of the hole. -/
def Path.after : Path α → List α
  | [] => []
  | f :: p => (if f.dir then [] else f.label :: f.sib.toList) ++ after p

/-- A tree of black height `n` at the end of the path makes one of black height `m`. -/
def Path.Fits : Nat → Path α → Nat → Prop
  | n, [], m => n = m
  | n, f :: p, m =>
      BlackHeight n f.sib ∧
      match f.color with
      | .red => f.sib.color = .black ∧ Path.color p = .black ∧ Path.Fits n p m
      | .black => Path.Fits (n + 1) p m

section Plug

variable {f : Frame α} {p q : Path α} {t s : RbTree α} {n m : Nat} {x : α}

@[simp] theorem plug_nil : plug t [] = t := rfl

@[simp] theorem plug_cons : plug t (f :: p) = plug (f.fill t) p := rfl

theorem plug_append : plug t (q ++ p) = plug (plug t q) p := by
  induction q generalizing t with
  | nil => rfl
  | cons f q ih => exact ih

theorem before_append : Path.before (q ++ p) = Path.before p ++ Path.before q := by
  induction q with
  | nil => simp [Path.before]
  | cons f q ih => simp [Path.before, ih]

theorem toList_branch (d : Bool) (c : Color) (t s : RbTree α) (x : α) :
    (branch d c t x s).toList = if d then s.toList ++ x :: t.toList else t.toList ++ x :: s.toList := by
  cases d <;> rfl

theorem toList_plug (t : RbTree α) (p : Path α) :
    (plug t p).toList = Path.before p ++ t.toList ++ Path.after p := by
  induction p generalizing t with
  | nil => simp [Path.before, Path.after]
  | cons f p ih =>
      obtain ⟨d, c, x, s⟩ := f
      cases d <;> simp [ih, Frame.fill, toList_branch, Path.before, Path.after]

theorem height_plug (t : RbTree α) (p : Path α) : p.length + t.height ≤ (plug t p).height := by
  induction p generalizing t with
  | nil => simp
  | cons f p ih =>
      have := ih (f.fill t)
      have hf : t.height + 1 ≤ (f.fill t).height := by
        obtain ⟨d, c, x, s⟩ := f
        cases d <;> simp only [Frame.fill, branch, height, if_true, Bool.false_eq_true, if_false] <;> omega
      simp only [List.length_cons, plug_cons]
      omega

/-- A tree in its place is balanced, if both are and no red root hangs under a red node. -/
theorem Path.Fits.plug (hp : Path.Fits n p m) (ht : BlackHeight n t) (hc : t.color = .red → Path.color p = .black) :
    BlackHeight m (plug t p) ∧ (plug t p).color = .black := by
  induction p generalizing t n with
  | nil =>
      obtain rfl : n = m := hp
      refine ⟨ht, ?_⟩
      cases hct : t.color with
      | black => exact hct
      | red => exact nomatch hc hct
  | cons f p ih =>
      obtain ⟨d, c, x, s⟩ := f
      obtain ⟨hs, hf⟩ := hp
      cases c with
      | red =>
          obtain ⟨hsc, hpc, hfits⟩ := hf
          have htc : t.color = .black := by
            cases hct : t.color with
            | black => rfl
            | red => exact nomatch hc hct
          apply ih hfits
          · exact balanced_red.2 ⟨htc, hsc, ht, hs⟩
          · exact fun _ => hpc
      | black =>
          apply ih hf
          · exact balanced_black_succ.2 ⟨ht, hs⟩
          · intro h
            simp [Frame.fill] at h

/-- What stands at the end of a path in a red-black tree. -/
theorem fits_of_plug (h : BlackHeight m (plug t p)) (hc : (plug t p).color = .black) :
    ∃ n, BlackHeight n t ∧ Path.Fits n p m ∧ (t.color = .red → Path.color p = .black) := by
  induction p generalizing t with
  | nil => exact ⟨m, h, rfl, fun hr => by rw [plug_nil, hr] at hc; cases hc⟩
  | cons f p ih =>
      obtain ⟨n, hbal, hfits, hcol⟩ := ih h hc
      obtain ⟨d, c, x, s⟩ := f
      cases c with
      | red =>
          obtain ⟨htc, hsc, ht, hs⟩ := balanced_red.1 hbal
          refine ⟨n, ht, ⟨hs, hsc, hcol (by simp [Frame.fill]), hfits⟩, ?_⟩
          rw [htc]
          simp
      | black =>
          obtain ⟨k, rfl, ht, hs⟩ := balanced_black.1 hbal
          exact ⟨k, ht, ⟨hs, hfits⟩, fun _ => rfl⟩

end Plug

/-- A red node under the red frame `f`, whose other child is black: one rotation at `g`, or two. -/
def insertTurn (t : RbTree α) (f g : Frame α) : RbTree α :=
  if f.dir = g.dir then
    branch g.dir .black t f.label (branch g.dir .red f.sib g.label g.sib)
  else match t with
    | .nil => g.fill (f.fill t)
    | .node _ l y r =>
        let t := RbTree.node .red l y r
        branch g.dir .black (branch g.dir .red f.sib f.label (t.child g.dir)) y
          (branch g.dir .red (t.child !g.dir) g.label g.sib)

/-- Mend a red node at the end of a path. -/
def insertUp : RbTree α → Path α → RbTree α
  | t, f :: g :: p =>
      if f.color = .red then
        if g.sib.color = .red then
          insertUp (branch g.dir .red (branch f.dir .black t f.label f.sib) g.label (g.sib.paint .black)) p
        else plug (insertTurn t f g) p
      else plug t (f :: g :: p)
  | t, p => plug t p

section Insert

variable {f g : Frame α} {p : Path α} {t : RbTree α} {n m : Nat}

theorem insertTurn_of_ne {c c' : Color} {d e : Bool} {a b u v : RbTree α} {x y z : α} (h : ¬ d = e) :
    insertTurn (branch e c' a y b) ⟨d, .red, x, u⟩ ⟨e, c, z, v⟩ =
      branch e .black (branch e .red u x a) y (branch e .red b z v) := by
  cases e <;> simp [insertTurn, branch, child, h]

theorem insertTurn_same {d : Bool} {c : Color} {t u v : RbTree α} {x z : α} :
    insertTurn t ⟨d, .red, x, u⟩ ⟨d, c, z, v⟩ = branch d .black t x (branch d .red u z v) := by
  simp [insertTurn]

theorem toList_insertTurn (t : RbTree α) (f g : Frame α) :
    (insertTurn t f g).toList = (g.fill (f.fill t)).toList := by
  obtain ⟨d, c, x, s⟩ := f
  obtain ⟨e, b, y, u⟩ := g
  unfold insertTurn
  cases d <;> cases e <;> cases t <;> simp [Frame.fill, branch, toList, child]

theorem toList_insertUp (t : RbTree α) (p : Path α) : (insertUp t p).toList = (plug t p).toList := by
  induction t, p using insertUp.induct with
  | case1 t f g p hf hg ih =>
      rw [insertUp, if_pos hf, if_pos hg, ih]
      simp only [plug_cons, toList_plug, Frame.fill, toList_branch, toList_paint]
  | case2 t f g p hf hg =>
      rw [insertUp, if_pos hf, if_neg hg]
      simp only [plug_cons, toList_plug, toList_insertTurn]
  | case3 t f g p hf =>
      rw [insertUp, if_neg hf]
  | case4 t p hp =>
      rw [insertUp]
      exact hp

/-- The rotation leaves a black root with two red children, where no red child is red. -/
theorem balanced_insertTurn (ht : BlackHeight n t) (hc : t.color = .red) (hf : BlackHeight n f.sib)
    (hfc : f.sib.color = .black) (hg : BlackHeight n g.sib) (hgc : g.sib.color = .black) :
    BlackHeight (n + 1) (insertTurn t f g) ∧ (insertTurn t f g).color = .black := by
  unfold insertTurn
  split
  · exact ⟨by simp [ht, hf, hfc, hg, hgc], by simp⟩
  · obtain ⟨c, a, y, b, rfl⟩ := exists_branch g.dir (ne_nil_of_red hc)
    rw [color_branch] at hc
    subst hc
    obtain ⟨hac, hbc, ha, hb⟩ := balanced_red.1 ht
    cases hd : g.dir <;> simp_all [branch, child, BlackHeight]

/-- A red node at the end of a path into a red-black tree: the mended tree, with a black root. -/
theorem balanced_insertUp (ht : BlackHeight n t) (hc : t.color = .red) (hp : Path.Fits n p m) :
    ∃ m', BlackHeight m' ((insertUp t p).paint .black) := by
  induction t, p using insertUp.induct generalizing n with
  | case1 t f g p hf hg ih =>
      rw [insertUp, if_pos hf, if_pos hg]
      obtain ⟨hfs, hrest⟩ := hp
      rw [hf] at hrest
      obtain ⟨hfc, hgc, hgs, hrest⟩ := hrest
      have hgc : g.color = .black := hgc
      rw [hgc] at hrest
      apply ih _ (by simp) hrest
      exact balanced_red.2 ⟨by simp, by simp, balanced_black_succ.2 ⟨ht, hfs⟩, hgs.paint_black hg⟩
  | case2 t f g p hf hg =>
      rw [insertUp, if_pos hf, if_neg hg]
      obtain ⟨hfs, hrest⟩ := hp
      rw [hf] at hrest
      obtain ⟨hfc, hgc, hgs, hrest⟩ := hrest
      have hgc : g.color = .black := hgc
      rw [hgc] at hrest
      obtain ⟨hbal, hblack⟩ := balanced_insertTurn (f := f) (g := g) ht hc hfs hfc hgs (Color.not_red.1 hg)
      obtain ⟨hbal, hblack⟩ := Path.Fits.plug hrest hbal (by simp [hblack])
      exact ⟨m, by rwa [paint_of_color hblack]⟩
  | case3 t f g p hf =>
      rw [insertUp, if_neg hf]
      obtain ⟨hbal, hblack⟩ := Path.Fits.plug hp ht (fun _ => Color.not_red.1 hf)
      exact ⟨m, by rwa [paint_of_color hblack]⟩
  | case4 t p hshort =>
      rw [insertUp]
      · rcases p with - | ⟨f, - | ⟨g, p⟩⟩
        · exact ⟨n + 1, ht.paint_black hc⟩
        · have hf : f.color = .black := by
            cases hfc : f.color with
            | black => rfl
            | red =>
                obtain ⟨-, hrest⟩ := hp
                rw [hfc] at hrest
                exact nomatch hrest.2.1
          obtain ⟨hbal, hblack⟩ := Path.Fits.plug hp ht (fun _ => hf)
          exact ⟨m, by rwa [paint_of_color hblack]⟩
        · exact absurd rfl (hshort f g p)
      · exact hshort

end Insert

/-- The rotation that gives a black node to `t`, from a black sibling with a red child; or the two
rotations, where only the nearer child of the sibling is red. -/
def deleteTurn (t : RbTree α) (f : Frame α) : RbTree α :=
  match f.sib with
  | .nil => f.fill t
  | .node _ l w r =>
      let near := (RbTree.node .black l w r).child f.dir
      let far := (RbTree.node .black l w r).child !f.dir
      if far.color = .black then
        match near with
        | .nil => f.fill t
        | .node _ l' y r' =>
            let near := RbTree.node .black l' y r'
            branch f.dir f.color (branch f.dir .black t f.label (near.child f.dir)) y
              (branch f.dir .black (near.child !f.dir) w far)
      else branch f.dir f.color (branch f.dir .black t f.label near) w (far.paint .black)

/-- Mend a tree at the end of a path that lacks one black node. -/
def deleteUp : RbTree α → Path α → RbTree α
  | t, [] => t.paint .black
  | t, f :: p =>
      if t.color = .red then plug (t.paint .black) (f :: p)
      else match f.sib with
        | .nil => plug t (f :: p)
        | .node .red l w r =>
            -- the red sibling goes up, and its nearer child is the new sibling, a black one
            let near := (RbTree.node .red l w r).child f.dir
            let far := (RbTree.node .red l w r).child !f.dir
            let top : Frame α := ⟨f.dir, .black, w, far⟩
            if near.BlackChildren then plug (branch f.dir .black t f.label (near.paint .red)) (top :: p)
            else plug (deleteTurn t ⟨f.dir, .red, f.label, near⟩) (top :: p)
        | .node .black l w r =>
            if (RbTree.node .black l w r).BlackChildren then
              deleteUp (branch f.dir f.color t f.label (.node .red l w r)) p
            else plug (deleteTurn t f) p

section Delete

variable {f : Frame α} {p : Path α} {t : RbTree α} {n m : Nat}

theorem toList_deleteTurn (t : RbTree α) (f : Frame α) : (deleteTurn t f).toList = (f.fill t).toList := by
  obtain ⟨d, c, x, s⟩ := f
  unfold deleteTurn
  cases s with
  | nil => rfl
  | node c' l w r =>
      cases d <;> simp only [child, Frame.fill, if_true, if_false, Bool.false_eq_true, Bool.not_true, Bool.not_false] <;>
        split
      · cases l <;> simp [branch, toList]
      · simp [branch, toList]
      · cases r <;> simp [branch, toList]
      · simp [branch, toList]

theorem toList_deleteUp (t : RbTree α) (p : Path α) : (deleteUp t p).toList = (plug t p).toList := by
  induction p generalizing t with
  | nil => simp [deleteUp]
  | cons f p ih =>
      obtain ⟨d, c, x, s⟩ := f
      unfold deleteUp
      split
      · simp only [toList_plug, toList_paint]
      · split
        · rfl
        · rename_i l w r hs
          obtain rfl : s = .node .red l w r := hs
          dsimp only
          split
          · cases d <;> simp [toList_plug, Frame.fill, branch, child, toList]
          · rw [toList_plug, toList_deleteTurn]
            cases d <;> simp [toList_plug, Frame.fill, branch, child, toList, Path.before, Path.after]
        · rename_i l w r hs
          obtain rfl : s = .node .black l w r := hs
          split
          · rw [ih]
            cases d <;> simp [toList_plug, Frame.fill, branch, toList]
          · simp only [plug_cons, toList_plug, toList_deleteTurn]

/-- The tree lacks a black node on each way down, unless its root turns black. -/
def Lacks (n : Nat) (t : RbTree α) : Prop :=
  match t.color with
  | .black => BlackHeight n t
  | .red => BlackHeight (n + 1) (t.paint .black)

theorem RbTree.BlackHeight.lacks (h : BlackHeight n t) : Lacks n t := by
  unfold Lacks
  split
  · exact h
  · exact h.paint_black ‹_›

section Turns

variable {d : Bool} {c c' c'' : Color} {x y w : α} {a b near far : RbTree α}

theorem deleteTurn_far (hfar : ¬ far.color = .black) :
    deleteTurn t ⟨d, c, x, branch d c' near w far⟩ =
      branch d c (branch d .black t x near) w (far.paint .black) := by
  cases d <;> simp [deleteTurn, branch, child, hfar]

theorem deleteTurn_near (hfar : far.color = .black) :
    deleteTurn t ⟨d, c, x, branch d c' (branch d c'' a y b) w far⟩ =
      branch d c (branch d .black t x a) y (branch d .black b w far) := by
  cases d <;> simp [deleteTurn, branch, child, hfar]

theorem deleteUp_of_red (ht : t.color = .red) : deleteUp t p = plug (t.paint .black) p := by
  cases p with
  | nil => rfl
  | cons f p => rw [deleteUp, if_pos ht]

/-- A red sibling whose nearer child has black children. -/
theorem deleteUp_red_recolor (ht : t.color = .black) (hb : near.BlackChildren) :
    deleteUp t (⟨d, c, x, branch d .red near w far⟩ :: p) =
      plug (branch d .black t x (near.paint .red)) (⟨d, .black, w, far⟩ :: p) := by
  cases d <;> simp [deleteUp, branch, child, ht, hb]

/-- A red sibling whose nearer child has a red child. -/
theorem deleteUp_red_turn (ht : t.color = .black) (hb : ¬ near.BlackChildren) :
    deleteUp t (⟨d, c, x, branch d .red near w far⟩ :: p) =
      plug (deleteTurn t ⟨d, .red, x, near⟩) (⟨d, .black, w, far⟩ :: p) := by
  cases d <;> simp [deleteUp, branch, child, ht, hb]

/-- A black sibling with black children. -/
theorem deleteUp_black_recolor (ht : t.color = .black) (hb : (branch d .black near w far).BlackChildren) :
    deleteUp t (⟨d, c, x, branch d .black near w far⟩ :: p) =
      deleteUp (branch d c t x (branch d .red near w far)) p := by
  cases d <;> simp_all [deleteUp, branch]

/-- A black sibling with a red child. -/
theorem deleteUp_black_turn (ht : t.color = .black) (hb : ¬ (branch d .black near w far).BlackChildren) :
    deleteUp t (⟨d, c, x, branch d .black near w far⟩ :: p) =
      plug (deleteTurn t ⟨d, c, x, branch d .black near w far⟩) p := by
  cases d <;> simp_all [deleteUp, branch]

end Turns

/-- After the rotation the node on top has the colour and the black height that were there before. -/
theorem balanced_deleteTurn (ht : BlackHeight n t) (hs : BlackHeight (n + 1) f.sib) (hsc : f.sib.color = .black)
    (hred : ¬ f.sib.BlackChildren) :
    ∃ a y b, deleteTurn t f = branch f.dir f.color a y b ∧ a.color = .black ∧ b.color = .black ∧
      BlackHeight (n + 1) a ∧ BlackHeight (n + 1) b := by
  obtain ⟨d, c, x, s⟩ := f
  obtain ⟨c', near, w, far, rfl⟩ := exists_branch d hs.ne_nil
  obtain rfl : c' = .black := by simpa using hsc
  obtain ⟨hnear, hfar⟩ := balanced_black_succ.1 hs
  by_cases hfc : far.color = .black
  · have hnc : near.color = .red := by
      cases hnc : near.color with
      | red => rfl
      | black => exact absurd (blackChildren_branch.2 ⟨hnc, hfc⟩) hred
    obtain ⟨c'', a, y, b, rfl⟩ := exists_branch d (ne_nil_of_red hnc)
    obtain rfl : c'' = .red := by simpa using hnc
    obtain ⟨hac, hbc, ha, hb⟩ := balanced_red.1 hnear
    refine ⟨_, _, _, deleteTurn_near hfc, by simp, by simp, ?_, ?_⟩
    · exact balanced_black_succ.2 ⟨ht, ha⟩
    · exact balanced_black_succ.2 ⟨hb, hfar⟩
  · refine ⟨_, _, _, deleteTurn_far hfc, by simp, by simp, ?_, ?_⟩
    · exact balanced_black_succ.2 ⟨ht, hnear⟩
    · apply hfar.paint_black
      cases hfr : far.color with
      | red => rfl
      | black => exact absurd hfr hfc

/-- The rotation mends a path into a red-black tree. -/
theorem Path.Fits.deleteTurn (hp : Path.Fits (n + 1) (f :: p) m) (ht : BlackHeight n t) (hsc : f.sib.color = .black)
    (hred : ¬ f.sib.BlackChildren) :
    BlackHeight m (RedBlack.plug (RedBlack.deleteTurn t f) p) ∧
      (RedBlack.plug (RedBlack.deleteTurn t f) p).color = .black := by
  obtain ⟨a, y, b, hturn, hac, hbc, ha, hb⟩ := balanced_deleteTurn ht hp.1 hsc hred
  obtain ⟨d, c, x, s⟩ := f
  have hfits : Path.Fits (n + 1) (⟨d, c, y, b⟩ :: p) m := by
    obtain ⟨hs, hrest⟩ := hp
    refine ⟨hb, ?_⟩
    cases c with
    | red => exact ⟨hbc, hrest.2⟩
    | black => exact hrest
  rw [hturn]
  exact hfits.plug ha (fun h => by rw [hac] at h; cases h)

/-- A black sibling with black children turns red, and the tree with it lacks the black node. -/
theorem Path.Fits.recolor {d : Bool} {c : Color} {x w : α} {near far : RbTree α}
    (hp : Path.Fits (n + 1) (⟨d, c, x, branch d .black near w far⟩ :: p) m) (ht : BlackHeight n t)
    (hb : (branch d .black near w far).BlackChildren) :
    ∃ k, Lacks k (branch d c t x (branch d .red near w far)) ∧ Path.Fits (k + 1) p m := by
  obtain ⟨hs, hrest⟩ := hp
  have hsib : BlackHeight n (branch d .red near w far) := by
    have hpaint := hs.paint_red (by simp) hb
    rwa [paint_branch] at hpaint
  cases c with
  | red =>
      refine ⟨n, ?_, hrest.2.2⟩
      rw [Lacks, color_branch]
      rw [paint_branch]
      exact balanced_black_succ.2 ⟨ht, hsib⟩
  | black =>
      refine ⟨n + 1, ?_, hrest⟩
      apply BlackHeight.lacks
      exact balanced_black_succ.2 ⟨ht, hsib⟩

/-- A red sibling goes up; the place for the black node is under a red node then. -/
theorem Path.Fits.red_sibling {d : Bool} {c : Color} {x w : α} {near far : RbTree α}
    (hp : Path.Fits (n + 1) (⟨d, c, x, branch d .red near w far⟩ :: p) m) :
    Path.Fits (n + 1) (⟨d, .red, x, near⟩ :: ⟨d, .black, w, far⟩ :: p) m ∧ near.color = .black ∧ near ≠ .nil := by
  obtain ⟨hs, hrest⟩ := hp
  obtain ⟨hnc, -, hn, hf⟩ := balanced_red.1 hs
  cases c with
  | red => exact absurd hrest.1 (by simp)
  | black => exact ⟨⟨hn, hnc, rfl, hf, hrest⟩, hnc, hn.ne_nil⟩

/-- A tree that lacks one black node at the end of a path into a red-black tree: the mended tree. -/
theorem balanced_deleteUp (ht : Lacks n t) (hp : Path.Fits (n + 1) p m) :
    ∃ m', BlackHeight m' (deleteUp t p) ∧ (deleteUp t p).color = .black := by
  induction p generalizing t n with
  | nil =>
      unfold deleteUp
      unfold Lacks at ht
      split at ht
      · exact ⟨n, by rwa [paint_of_color ‹_›], by simp⟩
      · exact ⟨n + 1, ht, by simp⟩
  | cons f p ih =>
      obtain ⟨d, c, x, s⟩ := f
      cases hc : t.color with
      | red =>
          rw [deleteUp_of_red hc]
          rw [Lacks, hc] at ht
          exact ⟨m, hp.plug ht (by simp)⟩
      | black =>
          rw [Lacks, hc] at ht
          obtain ⟨cs, near, w, far, rfl⟩ := exists_branch d hp.1.ne_nil
          cases cs with
          | red =>
              obtain ⟨hfits, hnc, -⟩ := hp.red_sibling
              by_cases hb : near.BlackChildren
              · rw [deleteUp_red_recolor hc hb]
                obtain ⟨hn, -, -, htop⟩ := hfits
                refine ⟨m, Path.Fits.plug htop (n := n + 1) ?_ (by simp)⟩
                exact balanced_black_succ.2 ⟨ht, hn.paint_red hnc hb⟩
              · rw [deleteUp_red_turn hc hb]
                exact ⟨m, hfits.deleteTurn ht hnc hb⟩
          | black =>
              by_cases hb : (branch d .black near w far).BlackChildren
              · rw [deleteUp_black_recolor hc hb]
                obtain ⟨k, hlacks, hfits⟩ := hp.recolor ht hb
                exact ih hlacks hfits
              · rw [deleteUp_black_turn hc hb]
                exact ⟨m, hp.deleteTurn ht (by simp) hb⟩

end Delete

/-- The walk down to the leftmost node. -/
def leftmost : RbTree α → Path α → RbTree α × Path α
  | .nil, p => (.nil, p)
  | .node c .nil x r, p => (.node c .nil x r, p)
  | .node c (.node c' l' x' r') x r, p => leftmost (.node c' l' x' r') (⟨false, c, x, r⟩ :: p)

/-- A node with the children `l` and `r` at the end of `q` goes: the colour that is missing then, and the
subtree under which it is missing. The next node from the right takes the place of one that has a right child. -/
def unlink (c : Color) (l r : RbTree α) (q : Path α) : Color × RbTree α × Path α :=
  match leftmost r [] with
  | (.nil, _) => (c, l, q)
  | (.node c' _ y t, p) => (c', t, p ++ ⟨true, c, y, l⟩ :: q)

section Unlink

variable {c : Color} {x : α} {l r t : RbTree α} {p q : Path α} {n m : Nat}

theorem leftmost_of_node {c' : Color} {l' r' : RbTree α} {x' : α} :
    leftmost (.node c (.node c' l' x' r') x r) p = leftmost (.node c' l' x' r') (⟨false, c, x, r⟩ :: p) := rfl

/-- The walk ends at a node without a left child. -/
theorem leftmost_spec (ht : t ≠ .nil) (p : Path α) :
    ∃ c x r q, leftmost t p = (.node c .nil x r, q ++ p) ∧ plug (.node c .nil x r) q = t ∧ Path.before q = [] := by
  induction t generalizing p with
  | nil => exact absurd rfl ht
  | node c l x r ihl ihr =>
      cases l with
      | nil => exact ⟨c, x, r, [], rfl, rfl, rfl⟩
      | node c' l' x' r' =>
          obtain ⟨c₁, y, u, q, heq, hplug, hbefore⟩ := ihl (by simp) (⟨false, c, x, r⟩ :: p)
          refine ⟨c₁, y, u, q ++ [⟨false, c, x, r⟩], ?_, ?_, ?_⟩
          · rw [leftmost_of_node, heq, List.append_assoc]
            rfl
          · rw [plug_append, hplug]
            rfl
          · rw [before_append, hbefore]
            rfl

theorem length_le_leftmost (t : RbTree α) (p : Path α) : p.length ≤ (leftmost t p).2.length := by
  induction t generalizing p with
  | nil => exact Nat.le_refl _
  | node c l x r ihl ihr =>
      cases l with
      | nil => exact Nat.le_refl _
      | node c' l' x' r' => exact (Nat.le_succ _).trans (ihl (⟨false, c, x, r⟩ :: p))

/-- The two ways to take a node out. -/
theorem unlink_cases (c : Color) (l r : RbTree α) (q : Path α) :
    (r = .nil ∧ unlink c l r q = (c, l, q)) ∨
      ∃ c' y t p, plug (.node c' .nil y t) p = r ∧ Path.before p = [] ∧ leftmost r [] = (.node c' .nil y t, p) ∧
        unlink c l r q = (c', t, p ++ ⟨true, c, y, l⟩ :: q) := by
  by_cases hr : r = .nil
  · subst hr
    exact Or.inl ⟨rfl, rfl⟩
  · obtain ⟨c', y, t, p, heq, hplug, hbefore⟩ := leftmost_spec hr []
    rw [List.append_nil] at heq
    refine Or.inr ⟨c', y, t, p, hplug, hbefore, heq, ?_⟩
    rw [unlink, heq]

theorem toList_unlink (c : Color) (l r : RbTree α) (q : Path α) :
    (plug (unlink c l r q).2.1 (unlink c l r q).2.2).toList =
      Path.before q ++ (l.toList ++ r.toList) ++ Path.after q := by
  rcases unlink_cases c l r q with ⟨rfl, heq⟩ | ⟨c', y, t, p, hplug, hbefore, -, heq⟩
  · simp [heq, toList_plug, toList]
  · rw [heq, plug_append, plug_cons, toList_plug, Frame.fill, toList_branch, ← hplug, toList_plug, toList_plug, hbefore]
    simp [toList]

/-- The path stays within the height of the tree. -/
theorem length_unlink (c : Color) (l : RbTree α) (x : α) (r : RbTree α) (q : Path α) :
    (unlink c l r q).2.2.length + 1 ≤ (plug (.node c l x r) q).height := by
  rcases unlink_cases c l r q with ⟨rfl, heq⟩ | ⟨c', y, t, p, hplug, -, -, heq⟩
  · have := height_plug (.node c l x .nil) q
    simp only [heq, height] at this ⊢
    omega
  · have hinner := height_plug (.node c' .nil y t) p
    have houter := height_plug (.node c l x r) q
    rw [hplug] at hinner
    simp only [heq, height, List.length_append, List.length_cons] at hinner houter ⊢
    omega

theorem color_relabel {d : Bool} {c : Color} {s : RbTree α} (x y : α) :
    Path.color (p ++ ⟨d, c, x, s⟩ :: q) = Path.color (p ++ ⟨d, c, y, s⟩ :: q) := by cases p <;> rfl

/-- The label of a frame is no matter of balance. -/
theorem fits_relabel {d : Bool} {c : Color} {s : RbTree α} (x y : α) :
    Path.Fits n (p ++ ⟨d, c, x, s⟩ :: q) m ↔ Path.Fits n (p ++ ⟨d, c, y, s⟩ :: q) m := by
  induction p generalizing n with
  | nil => exact Iff.rfl
  | cons f p ih =>
      obtain ⟨e, b, z, u⟩ := f
      refine and_congr_right fun _ => ?_
      cases b with
      | red => exact and_congr_right fun _ => and_congr (iff_of_eq (congrArg (· = _) (color_relabel x y))) ih
      | black => exact ih

/-- A node that is taken out leaves a tree that lacks its colour. -/
theorem balanced_unlink (h : BlackHeight m (plug (.node c l x r) q)) (hc : (plug (.node c l x r) q).color = .black) :
    ∃ n, BlackHeight n (unlink c l r q).2.1 ∧
      match (unlink c l r q).1 with
      | .black => Path.Fits (n + 1) (unlink c l r q).2.2 m
      | .red => Path.Fits n (unlink c l r q).2.2 m ∧ (unlink c l r q).2.1.color = .black := by
  rcases unlink_cases c l r q with ⟨rfl, heq⟩ | ⟨c', y, t, p, hplug, -, -, heq⟩
  · obtain ⟨n, hbal, hfits, -⟩ := fits_of_plug h hc
    rw [heq]
    cases c with
    | red =>
        obtain ⟨hlc, -, hl, -⟩ := balanced_red (d := false).1 hbal
        exact ⟨n, hl, hfits, hlc⟩
    | black =>
        obtain ⟨k, rfl, hl, -⟩ := balanced_black (d := false).1 hbal
        exact ⟨k, hl, hfits⟩
  · have hpath : plug (.node c l x r) q = plug (.node c' .nil y t) (p ++ ⟨true, c, x, l⟩ :: q) := by
      rw [plug_append, hplug]
      rfl
    rw [hpath] at h hc
    obtain ⟨n, hbal, hfits, -⟩ := fits_of_plug h hc
    rw [fits_relabel x y] at hfits
    rw [heq]
    cases c' with
    | red =>
        obtain ⟨-, htc, -, ht⟩ := balanced_red (d := false).1 hbal
        exact ⟨n, ht, hfits, htc⟩
    | black =>
        obtain ⟨k, rfl, -, ht⟩ := balanced_black (d := false).1 hbal
        exact ⟨k, ht, hfits⟩

end Unlink

/-- The labels of a tree towards side `d`. -/
def RbTree.inOrder (d : Bool) (t : RbTree α) : List α := if d then t.toList else t.toList.reverse

/-- The labels that come after the hole of a path, towards side `d`. -/
def Path.rest (d : Bool) : Path α → List α
  | [] => []
  | f :: p => if f.dir = d then rest d p else f.label :: (f.sib.inOrder d ++ rest d p)

section Order

variable {d : Bool} {c : Color} {x : α} {a b t : RbTree α} {p : Path α}

@[simp] theorem inOrder_nil : (.nil : RbTree α).inOrder d = [] := by cases d <;> rfl

theorem inOrder_branch : (branch d c a x b).inOrder d = b.inOrder d ++ x :: a.inOrder d := by
  cases d <;> simp [inOrder, branch, toList]

theorem inOrder_branch_not : (branch (!d) c a x b).inOrder d = a.inOrder d ++ x :: b.inOrder d := by
  cases d <;> simp [inOrder, branch, toList]

theorem inOrder_branch_start : (branch d c a x b).inOrder (!d) = a.inOrder (!d) ++ x :: b.inOrder (!d) := by
  cases d <;> simp [inOrder, branch, toList]

/-- A path splits the labels of a tree: what comes before the hole is told by the path alone. -/
theorem inOrder_plug (d : Bool) (p : Path α) :
    ∃ past, ∀ t : RbTree α, (plug t p).inOrder d = past ++ t.inOrder d ++ Path.rest d p := by
  induction p with
  | nil => exact ⟨[], fun t => by simp [Path.rest]⟩
  | cons f p ih =>
      obtain ⟨past, hpast⟩ := ih
      obtain ⟨e, c, x, s⟩ := f
      by_cases he : e = d
      · subst he
        refine ⟨past ++ s.inOrder e ++ [x], fun t => ?_⟩
        rw [plug_cons, hpast, Frame.fill, inOrder_branch, Path.rest, if_pos rfl]
        simp
      · obtain rfl : e = !d := by revert he; cases e <;> cases d <;> simp
        refine ⟨past, fun t => ?_⟩
        rw [plug_cons, hpast, Frame.fill, inOrder_branch_not, Path.rest, if_neg he]
        simp

theorem mem_inOrder : x ∈ t.inOrder d ↔ x ∈ t.toList := by cases d <;> simp [inOrder]

end Order

end RedBlack
