import ComplexSim.Rb.Destroy

/-!
# Walks in order (`rb_t_first`, `rb_t_last`, `rb_t_next`, `rb_t_prev` in `avl-2.0/src/rb.c`)

A traverser is a node of the tree and the nodes above it. It keeps the generation of the table for
which its stack is good; after a change of the table it finds its way anew by the order of the items.
The two directions are mirror images: `d` is the side of the greater items for `rb_t_next`, and of
the smaller ones for `rb_t_prev`.
-/

namespace ComplexSim.Rb

open RedBlack RbTree RbTable

variable {α κ : Type} [LinearOrder κ]

/-- `struct rb_traverser`; the table that it is for is passed beside it. -/
structure RbTraverser where
  rbNode : RbPtr
  /-- the nodes above `rb_node`, the last one first -/
  rbStack : List RbPtr
  rbGeneration : Nat
  deriving DecidableEq, Repr

/-- `rb_t_init`. -/
def rbTInit (s : RbTable α) : RbTraverser := ⟨.null, [], s.rbGeneration⟩

/-- The loops that go down on side `d` as far as there are nodes, with `room` entries left on the stack. -/
def endDown (s : RbTable α) (d : Bool) : Nat → RbPtr → List RbPtr → Option (RbPtr × List RbPtr)
  | room, x, st => do
      let y ← s.link x d
      if y = .null then some (x, st)
      else match room with
        | 0 => none
        | room + 1 => endDown s d room y (x :: st)

/-- `rb_t_first` and `rb_t_last`. -/
def rbTEnd (d : Bool) (s : RbTable α) : Option (RbTraverser × Option α) :=
  if s.rbRoot = .null then some (⟨.null, [], s.rbGeneration⟩, none)
  else do
    let (x, st) ← endDown s d rbMaxHeight s.rbRoot []
    some (⟨x, st, s.rbGeneration⟩, some (← s.data x))

def rbTFirst (s : RbTable α) : Option (RbTraverser × Option α) := rbTEnd false s

def rbTLast (s : RbTable α) : Option (RbTraverser × Option α) := rbTEnd true s

/-- The loop of `trav_refresh`, on the way from `i` to the node `p`. -/
def refreshDown (cmp : RbCompare α) (s : RbTable α) (p : RbPtr) : Nat → RbPtr → List RbPtr → Option (List RbPtr)
  | room, i, st =>
      if i = p then some st
      else match room with
        | 0 => none
        | room + 1 => do
            let x ← s.data p
            let y ← s.data i
            refreshDown cmp s p room (← s.link i (decide (0 < cmp x y))) (i :: st)

/-- `trav_refresh`. -/
def travRefresh (cmp : RbCompare α) (s : RbTable α) (tr : RbTraverser) : Option RbTraverser :=
  if tr.rbNode = .null then some { tr with rbGeneration := s.rbGeneration }
  else do
    let st ← refreshDown cmp s tr.rbNode rbMaxHeight s.rbRoot []
    some { tr with rbGeneration := s.rbGeneration, rbStack := st }

/-- The loop that goes up from `y` as long as it comes from side `d`. -/
def climb (s : RbTable α) (d : Bool) : RbPtr → List RbPtr → Option (Option (RbPtr × List RbPtr))
  | _, [] => some none
  | y, x :: st => do
      if y = (← s.link x d) then climb s d x st else some (some (x, st))

/-- `rb_t_next` and `rb_t_prev` at a node, with a good stack. -/
def stepFrom (d : Bool) (s : RbTable α) (tr : RbTraverser) : Option (RbTraverser × Option α) := do
  let y ← s.link tr.rbNode d
  if y = .null then
    match ← climb s d tr.rbNode tr.rbStack with
    | none => some ({ tr with rbNode := .null, rbStack := [] }, none)
    | some (x, st) => some ({ tr with rbNode := x, rbStack := st }, some (← s.data x))
  else if tr.rbStack.length < rbMaxHeight then
    let (x, st) ← endDown s (!d) (rbMaxHeight - (tr.rbStack.length + 1)) y (tr.rbNode :: tr.rbStack)
    some ({ tr with rbNode := x, rbStack := st }, some (← s.data x))
  else none

/-- `rb_t_next` and `rb_t_prev`. -/
def rbTStep (cmp : RbCompare α) (d : Bool) (s : RbTable α) (tr : RbTraverser) : Option (RbTraverser × Option α) := do
  let tr ← (if tr.rbGeneration = s.rbGeneration then some tr else travRefresh cmp s tr : Option RbTraverser)
  if tr.rbNode = .null then rbTEnd (!d) s else stepFrom d s tr

def rbTNext (cmp : RbCompare α) (s : RbTable α) (tr : RbTraverser) : Option (RbTraverser × Option α) :=
  rbTStep cmp true s tr

def rbTPrev (cmp : RbCompare α) (s : RbTable α) (tr : RbTraverser) : Option (RbTraverser × Option α) :=
  rbTStep cmp false s tr

/-- The walk over a table: from the first item on, `n` steps. -/
def walk (cmp : RbCompare α) (d : Bool) (s : RbTable α) : Nat → Option (RbTraverser × Option α)
  | 0 => rbTEnd (!d) s
  | n + 1 => do
      let (tr, _) ← walk cmp d s n
      rbTStep cmp d s tr

/-- The nodes of a path, as a traverser has them on its stack. -/
def above (p : Path (RbLabel α)) : List RbPtr := p.map fun f => .node f.label.1

/-- The traverser is at a node of the tree `t`, or at none; its stack is good where its generation is the
table's. -/
inductive TravAt (s : RbTable α) (t : RbTree (RbLabel α)) (tr : RbTraverser) : Option (RbLabel α) → Prop
  | off (node : tr.rbNode = .null) : TravAt s t tr none
  | on {x : RbLabel α} (mem : x ∈ t.toList) (node : tr.rbNode = .node x.1)
      (good : tr.rbGeneration = s.rbGeneration → ∃ c l r q, plug (.node c l x r) q = t ∧ tr.rbStack = above q) :
      TravAt s t tr (some x)

/-- The traverser is at the item `y` of the table. -/
def Stands (key : α → κ) (s : RbTable α) (o : OrdTable key) (tr : RbTraverser) (y : Option α) : Prop :=
  ∃ t x, IsTable key s t ∧ o.items = items t ∧ TravAt s t tr x ∧ x.map Prod.snd = y

section Loops

variable {key : α → κ} {cmp : RbCompare α} {s : RbTable α} {t u : RbTree (RbLabel α)} {p q : Path (RbLabel α)}
  {x : RbLabel α} {d : Bool}

theorem height_branch {c : Color} {a b : RbTree (RbLabel α)} :
    (branch d c a x b).height = max a.height b.height + 1 := by
  cases d
  · rfl
  · exact congrArg (· + 1) (Nat.max_comm b.height a.height)

theorem endDown_stop {room : Nat} {a : RbPtr} {st : List RbPtr} (h : s.link a d = some .null) :
    endDown s d room a st = some (a, st) := by
  rw [endDown, h]
  rfl

theorem endDown_down {room : Nat} {a b : RbPtr} {st : List RbPtr} (h : s.link a d = some b) (hb : b ≠ .null) :
    endDown s d (room + 1) a st = endDown s d room b (a :: st) := by
  rw [endDown, h]
  exact if_neg hb

/-- The way down to the last node on side `d`. -/
theorem endDown_eq (h : Reps s.nodes.cells t) (ht : t ≠ .nil) (room : Nat) (hroom : t.height ≤ room + 1) :
    ∃ c x b p, plug (branch d c .nil x b) p = t ∧ (t.inOrder (!d)).head? = some x ∧
      endDown s d room (ptr t) (above q) = some (.node x.1, above (p ++ q)) ∧ s.data (.node x.1) = some x.2 := by
  induction room generalizing t q with
  | zero =>
      obtain ⟨c, a, x, b, rfl⟩ := exists_branch d ht
      obtain ⟨hx, -, -⟩ := reps_branch.1 h
      have ha : a = .nil := by
        cases a with
        | nil => rfl
        | node c' l y r =>
            simp only [height_branch, height] at hroom
            omega
      subst ha
      refine ⟨c, x, b, [], rfl, ?_, ?_, ?_⟩
      · rw [inOrder_branch_start, inOrder_nil]
        rfl
      · rw [ptr_branch]
        apply endDown_stop
        simp [hx]
      · simp [hx]
  | succ room ih =>
      obtain ⟨c, a, x, b, rfl⟩ := exists_branch d ht
      obtain ⟨hx, ha, -⟩ := reps_branch.1 h
      by_cases hnil : a = .nil
      · subst hnil
        refine ⟨c, x, b, [], rfl, ?_, ?_, ?_⟩
        · rw [inOrder_branch_start, inOrder_nil]
          rfl
        · rw [ptr_branch]
          apply endDown_stop
          simp [hx]
        · simp [hx]
      · rw [height_branch] at hroom
        obtain ⟨c', y, b', p, hplug, hhead, hrun, hdata⟩ := ih (q := ⟨d, c, x, b⟩ :: q) ha hnil (by omega)
        refine ⟨c', y, b', p ++ [⟨d, c, x, b⟩], ?_, ?_, ?_, hdata⟩
        · rw [plug_append, hplug]
          rfl
        · rw [inOrder_branch_start, List.head?_append, hhead]
          rfl
        · rw [List.append_assoc, ptr_branch, endDown_down (b := ptr a) (by simp [hx]) (mt ptr_eq_null.1 hnil)]
          exact hrun

/-- The way up to the first node that is left on the other side. -/
theorem climb_eq (h : Shows s u p) (hu : u ≠ .nil) :
    (Path.rest d p = [] ∧ climb s d (ptr u) (above p) = some none) ∨
      ∃ c a y b q, plug (branch (!d) c a y b) q = plug u p ∧ Path.rest d p = y :: (b.inOrder d ++ Path.rest d q) ∧
        climb s d (ptr u) (above p) = some (some (.node y.1, above q)) ∧ s.data (.node y.1) = some y.2 := by
  induction p generalizing u with
  | nil => exact Or.inl ⟨rfl, rfl⟩
  | cons f p ih =>
      obtain ⟨e, c, y, b⟩ := f
      have hup := shows_cons.1 h
      obtain ⟨hy, -, -⟩ := reps_branch.1 hup.tree
      by_cases he : e = d
      · subst he
        have hclimb : climb s e (ptr u) (above (⟨e, c, y, b⟩ :: p)) =
            climb s e (ptr (branch e c u y b)) (above p) := by
          simp [above, climb, hy]
        rw [hclimb, Path.rest, if_pos rfl, plug_cons]
        exact ih hup branch_ne_nil
      · obtain rfl : e = !d := by
          cases e <;> cases d <;> simp_all
        refine Or.inr ⟨c, u, y, b, p, rfl, by rw [Path.rest, if_neg he], ?_, by simp [hy]⟩
        have hne : ptr u ≠ ptr b := by
          -- the two children of a node are different nodes
          obtain ⟨hnd, -, -⟩ := nodup_addrs_plug.1 hup.nodup
          obtain ⟨-, -, -, -, hfar⟩ := nodup_addrs_branch.1 hnd
          obtain ⟨c', l, z, r, rfl⟩ := exists_branch false hu
          cases b with
          | nil => simp
          | node c'' l' z' r' =>
              intro heq
              simp only [ptr_branch, ptr_node, RbPtr.node.injEq] at heq
              refine hfar (mem_addrs_branch.2 (Or.inl rfl)) ?_
              rw [heq]
              exact (mem_addrs_branch (d := false)).2 (Or.inl rfl)
        have hlink : s.link (.node y.1) d = some (ptr b) := by
          rw [link_node, hy]
          cases d <;> rfl
        have hstep : climb s d (ptr u) (.node y.1 :: above p) =
            (s.link (.node y.1) d).bind fun z =>
              if ptr u = z then climb s d (.node y.1) (above p) else some (some (.node y.1, above p)) := rfl
        show climb s d (ptr u) (.node y.1 :: above p) = _
        rw [hstep, hlink, Option.bind_some, if_neg hne]

/-- The way down to a node by the order of the items. -/
theorem refreshDown_eq (hcmp : CompareBy cmp key) (h : Reps s.nodes.cells t) (hnd : (addrs t).Nodup)
    (hs : Sorted (labelKey key) t.toList) (hx : x ∈ t.toList) (hdata : s.data (.node x.1) = some x.2) (room : Nat)
    (hroom : t.height ≤ room + 1) :
    ∃ c l r q, plug (.node c l x r) q = t ∧
      refreshDown cmp s (.node x.1) room (ptr t) (above p) = some (above (q ++ p)) := by
  induction t generalizing room p with
  | nil => cases hx
  | node c l y r ihl ihr =>
      obtain ⟨hy, hl, hr⟩ := h
      obtain ⟨hyl, hyr, hndl, hndr, -⟩ := nodup_addrs_branch (d := false).1 hnd
      obtain ⟨hsl, hsr, hly, hyr', -⟩ := sorted_between.1 hs
      have hstep : ∀ (e : Bool) (m : Nat) (u : RbTree (RbLabel α)), decide (0 < cmp x.2 y.2) = e →
          s.link (.node y.1) e = some (ptr u) → x.1 ≠ y.1 → refreshDown cmp s (.node x.1) (m + 1)
            (.node y.1) (above p) = refreshDown cmp s (.node x.1) m (ptr u) (.node y.1 :: above p) := by
        intro e m u he hlink hne
        have hdy : s.data (.node y.1) = some y.2 := by simp [hy]
        rw [refreshDown, if_neg (by simpa using fun h => hne h.symm), hdata, hdy]
        simp only [Option.bind_eq_bind, Option.bind_some, he, hlink]
      have hmem : ∀ v : RbTree (RbLabel α), x ∈ v.toList → 1 ≤ v.height ∧ x.1 ∈ addrs v := by
        intro v hv
        refine ⟨?_, List.mem_map_of_mem hv⟩
        cases v with
        | nil => cases hv
        | node _ _ _ _ => exact Nat.le_add_left 1 _
      simp only [height] at hroom
      rcases List.mem_append.1 hx with hxl | hxr
      · obtain ⟨hpos, haddr⟩ := hmem l hxl
        obtain ⟨room, rfl⟩ : ∃ m, room = m + 1 := ⟨room - 1, by omega⟩
        obtain ⟨c', a, b, q, hplug, hrun⟩ := ihl (p := ⟨false, c, y, r⟩ :: p) hl hndl hsl hxl room (by omega)
        refine ⟨c', a, b, q ++ [⟨false, c, y, r⟩], by rw [plug_append, hplug]; rfl, ?_⟩
        rw [ptr_node, hstep false room l, List.append_assoc]
        · exact hrun
        · exact decide_eq_false fun hlt => lt_asymm (hly x hxl) ((hcmp.pos _ _).1 hlt)
        · simp [hy, RbNode.link]
        · rintro heq
          exact hyl (heq ▸ haddr)
      · rcases List.mem_cons.1 hxr with rfl | hxr
        · refine ⟨c, l, r, [], rfl, ?_⟩
          cases room <;> simp [refreshDown]
        · obtain ⟨hpos, haddr⟩ := hmem r hxr
          obtain ⟨room, rfl⟩ : ∃ m, room = m + 1 := ⟨room - 1, by omega⟩
          obtain ⟨c', a, b, q, hplug, hrun⟩ := ihr (p := ⟨true, c, y, l⟩ :: p) hr hndr hsr hxr room (by omega)
          refine ⟨c', a, b, q ++ [⟨true, c, y, l⟩], by rw [plug_append, hplug]; rfl, ?_⟩
          rw [ptr_node, hstep true room r, List.append_assoc]
          · exact hrun
          · exact decide_eq_true ((hcmp.pos _ _).2 (hyr' x hxr))
          · simp [hy, RbNode.link]
          · rintro heq
            exact hyr (heq ▸ haddr)

end Loops

section Walks

variable {key : α → κ} {cmp : RbCompare α} {s : RbTable α} {t : RbTree (RbLabel α)} {tr : RbTraverser}
  {x : RbLabel α} {d : Bool} {o : OrdTable key}

/-- A walk begins at the end of the tree. -/
theorem rbTEnd_at (h : IsTable key s t) (hheight : t.height ≤ rbMaxHeight + 1) :
    ∃ tr, rbTEnd d s = some (tr, (t.inOrder (!d)).head?.map Prod.snd) ∧ tr.rbGeneration = s.rbGeneration ∧
      TravAt s t tr (t.inOrder (!d)).head? := by
  have hroot : s.rbRoot = ptr t := h.shows.holds.root
  unfold rbTEnd
  rw [hroot]
  by_cases ht : t = .nil
  · subst ht
    rw [ptr_nil, if_pos rfl, inOrder_nil]
    exact ⟨_, rfl, rfl, .off rfl⟩
  · obtain ⟨c, x, b, p, hplug, hhead, hrun, hdata⟩ :=
      endDown_eq (d := d) (q := []) h.shows.tree ht rbMaxHeight hheight
    rw [if_neg (mt ptr_eq_null.1 ht), hhead]
    rw [List.append_nil] at hrun
    have hmem : x ∈ t.toList := mem_inOrder.1 (List.mem_of_mem_head? hhead)
    refine ⟨⟨.node x.1, above p, s.rbGeneration⟩, ?_, rfl, .on hmem rfl fun _ => ?_⟩
    · have hdown : endDown s d rbMaxHeight (ptr t) [] = some (.node x.1, above p) := hrun
      rw [hdown]
      simp [hdata]
    · cases d with
      | false => exact ⟨c, .nil, b, p, hplug, rfl⟩
      | true => exact ⟨c, b, .nil, p, hplug, rfl⟩

/-- The stack is good after `trav_refresh`. -/
theorem refresh_at (hcmp : CompareBy cmp key) (h : IsTable key s t) (hheight : t.height ≤ rbMaxHeight + 1)
    (hat : TravAt s t tr (some x)) :
    ∃ tr' c l r q, (if tr.rbGeneration = s.rbGeneration then some tr else travRefresh cmp s tr) = some tr' ∧
      tr'.rbNode = .node x.1 ∧ tr'.rbGeneration = s.rbGeneration ∧ plug (.node c l x r) q = t ∧ tr'.rbStack = above q := by
  cases hat with | on hmem hnode hgood
  by_cases hgen : tr.rbGeneration = s.rbGeneration
  · obtain ⟨c, l, r, q, hplug, hstack⟩ := hgood hgen
    exact ⟨tr, c, l, r, q, if_pos hgen, hnode, hgen, hplug, hstack⟩
  · obtain ⟨c, l, r, q, hplug, hrun⟩ := refreshDown_eq (p := []) hcmp h.shows.tree h.shows.nodup h.sorted hmem
      (h.shows.tree.data hmem) rbMaxHeight hheight
    have hroot : s.rbRoot = ptr t := h.shows.holds.root
    rw [List.append_nil] at hrun
    refine ⟨{ tr with rbGeneration := s.rbGeneration, rbStack := above q }, c, l, r, q, ?_, hnode, rfl, hplug, rfl⟩
    have hdown : refreshDown cmp s (.node x.1) rbMaxHeight (ptr t) [] = some (above q) := hrun
    rw [if_neg hgen, travRefresh, hnode, if_neg (by simp), hroot, hdown]
    rfl

/-- A step goes to the node that comes next in the order of the direction. -/
theorem rbTStep_at (hcmp : CompareBy cmp key) (h : IsTable key s t) (hheight : t.height < rbMaxHeight)
    (hat : TravAt s t tr (some x)) :
    ∃ tr' past rest, t.inOrder d = past ++ x :: rest ∧ rbTStep cmp d s tr = some (tr', rest.head?.map Prod.snd) ∧
      TravAt s t tr' rest.head? := by
  obtain ⟨tr', c, l, r, q, hrefresh, hnode, hgen, hplug, hstack⟩ := refresh_at hcmp h (by omega) hat
  obtain ⟨a, b, hside⟩ : ∃ a b, .node c l x r = branch d c a x b := by
    cases d with
    | false => exact ⟨l, r, rfl⟩
    | true => exact ⟨r, l, rfl⟩
  rw [hside] at hplug
  obtain ⟨past, hpast⟩ := inOrder_plug d q
  have horder : t.inOrder d = (past ++ b.inOrder d) ++ x :: (a.inOrder d ++ Path.rest d q) := by
    rw [← hplug, hpast, inOrder_branch]
    simp
  have hshows : Shows s (branch d c a x b) q := shows_plug.1 (by rw [hplug]; exact h.shows)
  obtain ⟨hx, ha, -⟩ := reps_branch.1 hshows.tree
  have hlink : s.link (.node x.1) d = some (ptr a) := by simp [hx]
  have hmem : ∀ y rest, a.inOrder d ++ Path.rest d q = y :: rest → y ∈ t.toList := by
    intro y rest heq
    rw [← mem_inOrder (d := d), horder, heq]
    simp
  have hheights := height_plug (branch d c a x b) q
  rw [hplug, height_branch] at hheights
  have hstep : rbTStep cmp d s tr = stepFrom d s tr' := by
    rw [rbTStep, hrefresh]
    simp [hnode]
  rw [hstep]
  by_cases hnil : a = .nil
  · subst hnil
    rw [ptr_nil] at hlink
    rw [inOrder_nil, List.nil_append] at horder hmem
    rcases climb_eq (d := d) hshows branch_ne_nil with ⟨hrest, hclimb⟩ | ⟨c', a', y, b', q', hq', hrest, hclimb, hdata⟩
    · refine ⟨{ tr' with rbNode := .null, rbStack := [] }, _, _, horder, ?_, ?_⟩
      · rw [ptr_branch] at hclimb
        simp [stepFrom, hnode, hlink, hstack, hclimb, hrest]
      · rw [hrest]
        exact .off rfl
    · refine ⟨{ tr' with rbNode := .node y.1, rbStack := above q' }, _, _, horder, ?_, ?_⟩
      · rw [ptr_branch] at hclimb
        rw [hrest, stepFrom, hnode, hlink, hstack]
        simp [hclimb, hdata]
      · rw [hrest]
        refine .on (hmem y _ hrest) rfl fun _ => ?_
        rw [hplug] at hq'
        cases d with
        | false => exact ⟨c', b', a', q', hq', rfl⟩
        | true => exact ⟨c', a', b', q', hq', rfl⟩
  · obtain ⟨c', y, b', p, hp, hhead, hrun, hdata⟩ := endDown_eq (d := !d) (q := ⟨d, c, x, b⟩ :: q) ha hnil
      (rbMaxHeight - (q.length + 1)) (by omega)
    rw [Bool.not_not] at hhead
    have hrest : (a.inOrder d ++ Path.rest d q).head? = some y := by
      rw [List.head?_append, hhead]
      rfl
    have hlen : (above q).length = q.length := by simp [above]
    refine ⟨{ tr' with rbNode := .node y.1, rbStack := above (p ++ ⟨d, c, x, b⟩ :: q) }, _, _, horder, ?_, ?_⟩
    · have hdown : endDown s (!d) (rbMaxHeight - (q.length + 1)) (ptr a) (.node x.1 :: above q) =
        some (.node y.1, above (p ++ ⟨d, c, x, b⟩ :: q)) := hrun
      rw [hrest, stepFrom, hnode, hlink, hstack]
      simp [hnil, hlen, hdown, hdata, show q.length < rbMaxHeight by omega]
    · obtain ⟨rest, hy⟩ := List.head?_eq_some_iff.1 hrest
      rw [hrest]
      refine .on (hmem y rest hy) rfl fun _ => ?_
      have hwhole : plug (branch (!d) c' .nil y b') (p ++ ⟨d, c, x, b⟩ :: q) = t := by
        rw [plug_append, hp]
        exact hplug
      cases d with
      | false => exact ⟨c', b', .nil, _, hwhole, rfl⟩
      | true => exact ⟨c', .nil, b', _, hwhole, rfl⟩

theorem inOrder_items (h : o.items = items t) : o.inOrder d = (t.inOrder d).map Prod.snd := by
  cases d with
  | false => exact (congrArg List.reverse h).trans List.map_reverse.symm
  | true => exact h

/-- `rb_t_first` and `rb_t_last`. -/
theorem rbTEnd_eq (h : Models key s o) (hsize : o.count < 2 ^ 25 - 2) :
    ∃ tr, rbTEnd (!d) s = some (tr, o.next d none) ∧ Stands key s o tr (o.next d none) := by
  obtain ⟨t, ht, ho⟩ := h
  have hlen : t.size < 2 ^ 25 - 2 := by rwa [← length_items, ← ho]
  obtain ⟨tr, hrun, -, hat⟩ := rbTEnd_at (d := !d) ht (by have := ht.height_lt hlen; omega)
  rw [Bool.not_not] at hrun hat
  have hnext : o.next d none = (t.inOrder d).head?.map Prod.snd := by
    rw [OrdTable.next, inOrder_items ho, List.head?_map]
  rw [hnext]
  exact ⟨tr, hrun, t, _, ht, ho, hat, rfl⟩

/-- `rb_t_next` and `rb_t_prev`. -/
theorem rbTStep_eq (hcmp : CompareBy cmp key) {y : Option α} (h : Stands key s o tr y)
    (hsize : o.count < 2 ^ 25 - 2) :
    ∃ tr', rbTStep cmp d s tr = some (tr', o.next d y) ∧ Stands key s o tr' (o.next d y) := by
  obtain ⟨t, x, ht, ho, hat, rfl⟩ := h
  cases x with
  | none =>
      have hstep : rbTStep cmp d s tr = rbTEnd (!d) s := by
        cases hat with | off hnode
        unfold rbTStep travRefresh
        by_cases hgen : tr.rbGeneration = s.rbGeneration <;> simp [hgen, hnode]
      rw [hstep]
      exact rbTEnd_eq ⟨t, ht, ho⟩ hsize
  | some x =>
      have hlen : t.size < 2 ^ 25 - 2 := by rwa [← length_items, ← ho]
      obtain ⟨tr', past, rest, horder, hrun, hat⟩ := rbTStep_at (d := d) hcmp ht (ht.height_lt hlen) hat
      have hnext : o.next d (some x.2) = rest.head?.map Prod.snd := by
        have hsplit : o.inOrder d = past.map Prod.snd ++ x.2 :: rest.map Prod.snd := by
          rw [inOrder_items ho, horder, List.map_append, List.map_cons]
        rw [OrdTable.next_eq_head? hsplit, List.head?_map]
      rw [Option.map_some, hnext]
      exact ⟨tr', hrun, t, _, ht, ho, hat, rfl⟩

/-- A walk meets the items of the table in their order, each once in a round. -/
theorem walk_eq (hcmp : CompareBy cmp key) (h : Models key s o) (hsize : o.count < 2 ^ 25 - 2) (n : Nat) :
    ∃ tr, walk cmp d s n = some (tr, (o.inOrder d)[n % (o.count + 1)]?) ∧
      Stands key s o tr (o.inOrder d)[n % (o.count + 1)]? := by
  induction n with
  | zero =>
      rw [Nat.zero_mod, ← List.head?_eq_getElem?]
      exact rbTEnd_eq h hsize
  | succ n ih =>
      obtain ⟨tr, hrun, hat⟩ := ih
      rw [← OrdTable.next_getElem?, walk, hrun]
      exact rbTStep_eq hcmp hat hsize

/-- `rb_t_first` finds the least item. -/
theorem rbTFirst_eq (h : Models key s o) (hsize : o.count < 2 ^ 25 - 2) :
    ∃ tr, rbTFirst s = some (tr, o.first?) := by
  obtain ⟨tr, hrun, -⟩ := rbTEnd_eq (d := true) h hsize
  exact ⟨tr, hrun⟩

/-- `rb_t_last` finds the greatest item. -/
theorem rbTLast_eq (h : Models key s o) (hsize : o.count < 2 ^ 25 - 2) :
    ∃ tr, rbTLast s = some (tr, o.last?) := by
  obtain ⟨tr, hrun, -⟩ := rbTEnd_eq (d := false) h hsize
  refine ⟨tr, hrun.trans ?_⟩
  rw [OrdTable.next, OrdTable.inOrder, OrdTable.last?, if_neg Bool.false_ne_true, List.head?_reverse]

end Walks

end ComplexSim.Rb
