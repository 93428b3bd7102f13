import ComplexSim.Engine.Basic
import ComplexSim.Lib.Linked
import Mathlib.Data.List.Induction

/-!
# The activities of an engine (`_cs_bind_sim_activity`, `_loop_activity`)

The activity list as the code links it, with its counters, and `_loop_activity` with the array
of task ids that it fills. A null pointer, a division by zero and a write outside of the array
make the call fail; so does a walk that is longer than its fuel. What the pool answers to an
enqueue is any number. `malloc` and `calloc` succeed, and give the addresses 0, 1, 2, ... in turn.
-/

namespace ComplexSim.Activities

open Engine

/-- The address of an activity; `none` is NULL. -/
abbrev Addr := Nat

/-- `cs_user_activity_t` with its link. -/
structure ActivityNode where
  act : CsUserActivity
  next : Option Addr
  deriving DecidableEq, Repr

/-- The activities that memory has. -/
abbrev Nodes := Addr → Option ActivityNode

/-- `cs_user_activity_list_t`. -/
structure CsUserActivityList where
  nodes : Nodes
  /-- the next address that `malloc` gives -/
  brk : Addr
  activities : Option Addr
  lastAct : Option Addr
  nact : Int
  totalTasks : Int

/-- What a program gives to `cs_bind_sim_activity`, as far as the schedule is concerned. -/
structure Bind where
  dataNItems : Nat
  nsteps : Int
  type : ActivityType

/-- `n_tasks`. -/
def Bind.nTasks (nthreads : Nat) (b : Bind) : Nat := if b.dataNItems > nthreads then nthreads else b.dataNItems

/-- An empty list. -/
def emptyList : CsUserActivityList where
  nodes := fun _ => none
  brk := 0
  activities := none
  lastAct := none
  nact := 0
  totalTasks := 0

/-- `p->next = a`. -/
def Nodes.setNext (nodes : Nodes) (p a : Addr) : Nodes :=
  Function.update nodes p ((nodes p).map fun node => { node with next := some a })

/-- `insert_into_activity_list`, for the activity `act` at the address `a`. -/
def insertIntoActivityList (a : Addr) (act : CsUserActivity) (alist : CsUserActivityList) :
    CsUserActivityList :=
  match alist.lastAct with
  | some last =>
      { alist with nodes := alist.nodes.setNext last a, lastAct := some a
                   nact := alist.nact + 1, totalTasks := alist.totalTasks + act.nTasks }
  | none =>
      { alist with activities := some a, lastAct := some a
                   nact := alist.nact + 1, totalTasks := alist.totalTasks + act.nTasks }

/-- `_cs_bind_sim_activity`. -/
def csBindSimActivity (nthreads : Nat) (alist : CsUserActivityList) (b : Bind) : CsUserActivityList :=
  let act : CsUserActivity :=
    { nsteps := b.nsteps, nTasks := b.nTasks nthreads, lastExecutionTime := -1, type := b.type }
  insertIntoActivityList alist.brk act
    { alist with nodes := Function.update alist.nodes alist.brk (some ⟨act, none⟩), brk := alist.brk + 1 }

/-- The state of `_loop_activity`; `enqueued` are the tasks passed to `cs_wp_tsk_enqueue`, each as
an activity and the index of its block. -/
structure Loop where
  nodes : Nodes
  ids : List Int
  ischeduled : Nat
  enqueued : List (Addr × Nat)

/-- `ids[i+ischeduled] = cs_wp_tsk_enqueue(..)`; `enq k` is what enqueue number `k` of the call
returns. -/
def enqueueTask (enq : Nat → Int) (a : Addr) (s : Loop) (i : Nat) : Option Loop :=
  if i + s.ischeduled < s.ids.length then
    some { s with ids := s.ids.set (i + s.ischeduled) (enq s.enqueued.length)
                  enqueued := s.enqueued ++ [(a, i)] }
  else none

/-- The tasks of an activity that is due. -/
def enqueueTasks (enq : Nat → Int) (a : Addr) (s : Loop) (nTasks : Nat) : Option Loop :=
  ((List.range nTasks).foldlM (enqueueTask enq a) s).map fun s =>
    { s with ischeduled := s.ischeduled + nTasks }

/-- The node with another `last_execution_time`. -/
def ActivityNode.executedAt (curTime : Int) (node : ActivityNode) : ActivityNode :=
  { node with act := { node.act with lastExecutionTime := curTime } }

/-- The `do` loop of `_loop_activity`, from the activity at `a` on. -/
def walk (enq : Nat → Int) (curTime : Int) (atype : ActivityType) : Nat → Addr → Loop → Option Loop
  | 0, _, _ => none
  | fuel + 1, a, s =>
      match s.nodes a with
      | none => none
      | some node =>
          match node.act.due curTime atype with
          | none => none
          | some due =>
              match (if due then
                enqueueTasks enq a
                  { s with nodes := Function.update s.nodes a (some (node.executedAt curTime)) } node.act.nTasks
                else some s) with
              | none => none
              | some s => match node.next with
                  | none => some s
                  | some next => walk enq curTime atype fuel next s

/-- One call of `_loop_activity`: at which time, for which type, and what its enqueues return. -/
structure Call where
  clock : Int
  type : ActivityType
  enq : Nat → Int

/-- What a call has done: the tasks it enqueued and the ids it waited on. -/
structure Done where
  enqueued : List (Addr × Nat)
  waited : List Int
  deriving DecidableEq, Repr

/-- `_loop_activity`. -/
def loopActivity (fuel : Nat) (alist : CsUserActivityList) (c : Call) : Option (CsUserActivityList × Done) :=
  if c.clock ≤ 0 then some (alist, ⟨[], []⟩)
  else if 0 < alist.totalTasks then
    match alist.activities with
    | none => none
    | some act =>
        let ids := List.replicate alist.totalTasks.toNat (-1)
        (walk c.enq c.clock c.type fuel act ⟨alist.nodes, ids, 0, []⟩).map fun s =>
          ({ alist with nodes := s.nodes }, ⟨s.enqueued, s.ids.take s.ischeduled⟩)
  else some (alist, ⟨[], []⟩)

/-- Calls of `_loop_activity`, one after the other. -/
def runLoop (fuel : Nat) (alist : CsUserActivityList) : List Call → Option (CsUserActivityList × List Done)
  | [] => some (alist, [])
  | c :: cs =>
      match loopActivity fuel alist c with
      | none => none
      | some (alist, d) => (runLoop fuel alist cs).map fun (alist, ds) => (alist, d :: ds)

/-- Each type is called at 1, 2, 3, ... in order: `ticks` says how often it has been. Calls before
the first tick may come at any time. -/
def InOrder (ticks : ActivityType → Nat) : List Call → Prop
  | [] => True
  | c :: cs =>
      (c.clock ≤ 0 ∧ InOrder ticks cs) ∨
      (c.clock = ticks c.type + 1 ∧ InOrder (Function.update ticks c.type (ticks c.type + 1)) cs)

/-- The blocks that are due at a call: those of the activities of its type whose `nsteps` divides
the time since the first tick, in the order of the list. -/
def dueBlocks (nthreads : Nat) (c : Call) : Addr → List Bind → List (Addr × Nat)
  | _, [] => []
  | a, b :: rest =>
      (if b.type = c.type ∧ 0 < c.clock ∧ (c.clock - 1) % b.nsteps = 0 then
        (List.range (b.nTasks nthreads)).map (a, ·) else []) ++ dueBlocks nthreads c (a + 1) rest

/-- A call enqueues the blocks that are due, and waits on what the enqueues returned. -/
def Performs (nthreads : Nat) (binds : List Bind) (c : Call) (d : Done) : Prop :=
  d.enqueued = dueBlocks nthreads c 0 binds ∧ d.waited = (List.range d.enqueued.length).map c.enq

/-- The link of an activity. -/
def Nodes.next (nodes : Nodes) (a : Addr) : Option Addr := (nodes a).bind (·.next)

/-- A list holds the activities `l`, at the addresses from 0 on, and its counters are right. -/
structure Layout (alist : CsUserActivityList) (l : List CsUserActivity) : Prop where
  linked : Linked alist.nodes.next alist.activities (List.range l.length)
  lastAct : alist.lastAct = (List.range l.length).getLast?
  content : ∀ a, (alist.nodes a).map (·.act) = l[a]?
  brk : alist.brk = l.length
  nact : alist.nact = l.length
  totalTasks : alist.totalTasks = Engine.totalTasks l

section Binding

theorem emptyList_layout : Layout emptyList [] where
  linked := rfl
  lastAct := rfl
  content := fun _ => rfl
  brk := rfl
  nact := rfl
  totalTasks := rfl

/-- The activity that a binding makes, before it is executed. -/
def Bind.act (nthreads : Nat) (b : Bind) : CsUserActivity :=
  { nsteps := b.nsteps, nTasks := b.nTasks nthreads, lastExecutionTime := -1, type := b.type }

theorem setNext_act (nodes : Nodes) (p a c : Addr) :
    ((nodes.setNext p a) c).map (·.act) = (nodes c).map (·.act) := by
  unfold Nodes.setNext
  by_cases hc : c = p
  · subst hc
    rw [Function.update_self]
    cases nodes c <;> rfl
  · rw [Function.update_of_ne hc]

variable {alist : CsUserActivityList} {l : List CsUserActivity}

/-- The address that `malloc` gives next has no activity. -/
theorem Layout.fresh (h : Layout alist l) : alist.nodes alist.brk = none := by
  have hcontent := h.content alist.brk
  rw [h.brk, List.getElem?_eq_none (Nat.le_refl _)] at hcontent
  rw [h.brk]
  exact Option.map_eq_none_iff.1 hcontent

theorem totalTasks_append (l : List CsUserActivity) (act : CsUserActivity) :
    Engine.totalTasks (l ++ [act]) = Engine.totalTasks l + act.nTasks := by
  simp [Engine.totalTasks]

/-- One more activity at the end of the list. -/
theorem Layout.bind (h : Layout alist l) (nthreads : Nat) (b : Bind) :
    Layout (csBindSimActivity nthreads alist b) (l ++ [b.act nthreads]) := by
  have hnew : ∀ a, (Function.update alist.nodes alist.brk (some ⟨b.act nthreads, none⟩) a).map (·.act) =
      (l ++ [b.act nthreads])[a]? := by
    intro a
    by_cases ha : a = alist.brk
    · subst ha
      rw [Function.update_self, h.brk]
      simp
    · rw [Function.update_of_ne ha, h.content a]
      rw [h.brk] at ha
      rcases Nat.lt_or_ge a l.length with hlt | hge
      · rw [List.getElem?_append_left hlt]
      · rw [List.getElem?_eq_none hge, List.getElem?_eq_none]
        rw [List.length_append, List.length_singleton]
        exact Nat.lt_of_le_of_ne hge (Ne.symm ha)
  have hkeep : ∀ a ∈ List.range l.length, a ≠ alist.brk := by
    intro a ha
    rw [h.brk]
    exact Nat.ne_of_lt (List.mem_range.1 ha)
  have hlast := h.lastAct
  have htotal := h.totalTasks
  have hnact := h.nact
  show Layout (insertIntoActivityList alist.brk (b.act nthreads) _) _
  unfold insertIntoActivityList
  cases hl : alist.lastAct with
  | none =>
      rw [hl] at hlast
      have hnil : l.length = 0 := by simpa using hlast.symm
      obtain rfl : l = [] := List.length_eq_zero_iff.1 hnil
      have hbrk : alist.brk = 0 := h.brk
      refine ⟨?_, ?_, hnew, ?_, ?_, ?_⟩
      · simp [hbrk, Nodes.next]
      · simp [hbrk]
      · simp [hbrk]
      · show alist.nact + 1 = _
        rw [hnact]
        rfl
      · show alist.totalTasks + _ = _
        rw [htotal, totalTasks_append]
        push_cast
        rfl
  | some last =>
      rw [hl] at hlast
      obtain ⟨front, hfront⟩ := List.getLast?_eq_some_iff.1 hlast.symm
      have hnodup := h.linked.nodup
      rw [hfront] at hnodup
      have hlastne : last ≠ alist.brk := hkeep last (by rw [hfront]; simp)
      obtain ⟨node, hnode⟩ : ∃ node, alist.nodes last = some node := by
        have hmem : last < l.length := List.mem_range.1 (by rw [hfront]; simp)
        have hcontent := h.content last
        rw [List.getElem?_eq_getElem hmem] at hcontent
        obtain ⟨node, hnode, -⟩ := Option.map_eq_some_iff.1 hcontent
        exact ⟨node, hnode⟩
      have hlinked := h.linked
      rw [hfront] at hlinked
      refine ⟨?_, ?_, ?_, ?_, ?_, ?_⟩
      · rw [List.length_append, List.length_singleton, List.range_succ, hfront, List.append_assoc, ← h.brk]
        apply hlinked.snoc
        · intro c hc
          have hct : c ≠ last := by
            rintro rfl
            exact (List.nodup_append.1 hnodup).2.2 c hc c List.mem_cons_self rfl
          have hcb : c ≠ alist.brk := hkeep c (by rw [hfront]; simp [hc])
          simp [Nodes.next, Nodes.setNext, hct, hcb]
        · simp [Nodes.next, Nodes.setNext, hlastne, hnode]
        · simp [Nodes.next, Nodes.setNext, hlastne.symm]
      · rw [List.length_append, List.length_singleton, List.range_succ]
        simp [h.brk]
      · intro a
        show ((Nodes.setNext _ last alist.brk) a).map (·.act) = _
        rw [setNext_act]
        exact hnew a
      · show alist.brk + 1 = _
        rw [h.brk, List.length_append, List.length_singleton]
      · show alist.nact + 1 = _
        rw [hnact, List.length_append, List.length_singleton]
        push_cast
        rfl
      · show alist.totalTasks + _ = _
        rw [htotal, totalTasks_append]
        push_cast
        rfl

/-- The list of a program that binds one activity after the other. -/
def bindAll (nthreads : Nat) (binds : List Bind) : CsUserActivityList :=
  binds.foldl (csBindSimActivity nthreads) emptyList

theorem bindAll_layout (nthreads : Nat) (binds : List Bind) :
    Layout (bindAll nthreads binds) (binds.map (Bind.act nthreads)) := by
  induction binds using List.reverseRecOn with
  | nil => exact emptyList_layout
  | append_singleton binds b ih =>
      rw [bindAll, List.foldl_append, List.map_append]
      exact ih.bind nthreads b

end Binding

section Walk

variable {enq : Nat → Int} {s t : Loop} {a : Nat} {curTime : Int} {atype : ActivityType}

/-- The array holds what the enqueues have returned. -/
structure Filled (enq : Nat → Int) (s : Loop) : Prop where
  length : s.enqueued.length = s.ischeduled
  ids : ∀ k, k < s.ischeduled → s.ids[k]? = some (enq k)

/-- The tasks of one activity, where the array has room for them. -/
theorem enqueueTasks_some (h : Filled enq s) {n : Nat} (hroom : s.ischeduled + n ≤ s.ids.length) :
    ∃ t, enqueueTasks enq a s n = some t ∧ Filled enq t ∧ t.nodes = s.nodes ∧
      t.ids.length = s.ids.length ∧ t.ischeduled = s.ischeduled + n ∧
      t.enqueued = s.enqueued ++ (List.range n).map (a, ·) := by
  -- after `n` rounds of the loop `ischeduled` is still the old one
  have hloop : ∃ t, (List.range n).foldlM (enqueueTask enq a) s = some t ∧ t.nodes = s.nodes ∧
      t.ids.length = s.ids.length ∧ t.ischeduled = s.ischeduled ∧
      t.enqueued = s.enqueued ++ (List.range n).map (a, ·) ∧
      ∀ k, k < s.ischeduled + n → t.ids[k]? = some (enq k) := by
    induction n with
    | zero => exact ⟨s, rfl, rfl, rfl, rfl, by simp, h.ids⟩
    | succ n ih =>
        obtain ⟨t, ht, hnodes, hlength, hscheduled, henqueued, hids⟩ := ih (by omega)
        have hcount : t.enqueued.length = n + t.ischeduled := by
          rw [henqueued, List.length_append, List.length_map, List.length_range, h.length, hscheduled]
          omega
        have hin : n + t.ischeduled < t.ids.length := by omega
        let u : Loop :=
          { t with ids := t.ids.set (n + t.ischeduled) (enq t.enqueued.length)
                   enqueued := t.enqueued ++ [(a, n)] }
        refine ⟨u, ?_, hnodes, ?_, hscheduled, ?_, fun k hk => ?_⟩
        · rw [List.range_succ, List.foldlM_append, ht]
          simp only [Option.bind_eq_bind, Option.bind_some, List.foldlM_cons, List.foldlM_nil, enqueueTask,
            if_pos hin]
          rfl
        · show (t.ids.set _ _).length = s.ids.length
          rw [List.length_set, hlength]
        · show t.enqueued ++ [(a, n)] = _
          rw [henqueued, List.range_succ, List.map_append, List.append_assoc]
          rfl
        · show (t.ids.set (n + t.ischeduled) (enq t.enqueued.length))[k]? = some (enq k)
          by_cases hk' : k = n + t.ischeduled
          · subst hk'
            rw [List.getElem?_set_self hin, hcount]
          · rw [List.getElem?_set_ne (Ne.symm hk')]
            exact hids k (by omega)
  obtain ⟨t, ht, hnodes, hlength, hscheduled, henqueued, hids⟩ := hloop
  refine ⟨{ t with ischeduled := t.ischeduled + n }, by rw [enqueueTasks, ht]; rfl, ⟨?_, ?_⟩, hnodes, hlength,
    by rw [hscheduled], henqueued⟩
  · show t.enqueued.length = t.ischeduled + n
    rw [henqueued, List.length_append, List.length_map, List.length_range, h.length, hscheduled]
  · intro k hk
    exact hids k (by rw [← hscheduled]; exact hk)

/-- What the loop does with the activity at `a`. -/
theorem visit_some (curTime : Int) {node : ActivityNode} (hnode : s.nodes a = some node) (due : Bool) (hfilled : Filled enq s)
    (hroom : s.ischeduled + (if due then node.act.nTasks else 0) ≤ s.ids.length) :
    ∃ t, (if due then enqueueTasks enq a
        { s with nodes := Function.update s.nodes a (some (node.executedAt curTime)) } node.act.nTasks
        else some s) = some t ∧ Filled enq t ∧ t.ids.length = s.ids.length ∧
      t.ischeduled = s.ischeduled + (if due then node.act.nTasks else 0) ∧
      t.enqueued = s.enqueued ++ (if due then (List.range node.act.nTasks).map (a, ·) else []) ∧
      t.nodes.next = s.nodes.next ∧
      (t.nodes a).map (·.act) =
        some (if due then { node.act with lastExecutionTime := curTime } else node.act) ∧
      ∀ c : Nat, c ≠ a → t.nodes c = s.nodes c := by
  cases due with
  | false => exact ⟨s, rfl, hfilled, rfl, rfl, by simp, rfl, by simp [hnode], fun _ _ => rfl⟩
  | true =>
      have hfilled' : Filled enq
          { s with nodes := Function.update s.nodes a (some (node.executedAt curTime)) } :=
        ⟨hfilled.length, hfilled.ids⟩
      obtain ⟨t, ht, hft, hnodes, hlength, hscheduled, henqueued⟩ :=
        enqueueTasks_some (a := a) (n := node.act.nTasks) hfilled' hroom
      have hnodes : t.nodes = Function.update s.nodes a (some (node.executedAt curTime)) := hnodes
      refine ⟨t, ht, hft, hlength, hscheduled, henqueued, ?_, ?_, fun c hc => ?_⟩
      · rw [hnodes]
        funext c
        unfold Nodes.next
        by_cases hc : c = a
        · subst hc
          rw [Function.update_self, hnode]
          rfl
        · rw [Function.update_of_ne hc]
      · rw [hnodes, Function.update_self]
        rfl
      · rw [hnodes, Function.update_of_ne hc]

/-- `scheduleActivities`, activity by activity. -/
theorem scheduleActivities_cons {act : CsUserActivity} {l l' : List CsUserActivity} {codes : List UserTask}
    (h : scheduleActivities curTime atype a (act :: l) = some (codes, l')) :
    ∃ due codes₁ rest, act.due curTime atype = some due ∧
      scheduleActivities curTime atype (a + 1) l = some (codes₁, rest) ∧
      codes = (if due then blocksOf atype a act.nTasks else []) ++ codes₁ ∧
      l' = (if due then { act with lastExecutionTime := curTime } else act) :: rest := by
  rw [scheduleActivities] at h
  cases hdue : act.due curTime atype with
  | none =>
      rw [hdue] at h
      cases h
  | some due =>
      cases hrest : scheduleActivities curTime atype (a + 1) l with
      | none =>
          rw [hdue, hrest] at h
          cases due <;> cases h
      | some p =>
          obtain ⟨codes₁, rest⟩ := p
          rw [hdue, hrest] at h
          cases due <;> cases h
          · exact ⟨false, codes, rest, rfl, rfl, rfl, rfl⟩
          · exact ⟨true, codes₁, rest, rfl, rfl, rfl, rfl⟩

/-- The walk from the activity at `a` on does what `scheduleActivities` says of the rest of the
list. -/
theorem walk_some {l l' : List CsUserActivity} {codes : List UserTask} {fuel : Nat}
    (hlinked : Linked s.nodes.next (some a) (List.range' a l.length))
    (hcontent : ∀ i, i < l.length → (s.nodes (a + i)).map (·.act) = l[i]?)
    (hsched : scheduleActivities curTime atype a l = some (codes, l')) (hfilled : Filled enq s)
    (hroom : s.ischeduled + codes.length ≤ s.ids.length) (hfuel : l.length ≤ fuel) :
    ∃ t, walk enq curTime atype fuel a s = some t ∧ Filled enq t ∧ t.ids.length = s.ids.length ∧
      t.ischeduled = s.ischeduled + codes.length ∧
      t.enqueued = s.enqueued ++ codes.map (fun u => (u.act, u.index)) ∧
      t.nodes.next = s.nodes.next ∧ (∀ i, i < l.length → (t.nodes (a + i)).map (·.act) = l'[i]?) ∧
      ∀ c : Nat, c < a ∨ a + l.length ≤ c → t.nodes c = s.nodes c := by
  induction l generalizing a s codes l' fuel with
  | nil => cases hlinked
  | cons act l ih =>
      obtain ⟨due, codes₁, rest, hdue, hrest, rfl, rfl⟩ := scheduleActivities_cons hsched
      rw [List.length_cons, List.range'_succ] at hlinked
      obtain ⟨-, hlinked⟩ := hlinked
      obtain ⟨node, hnode, rfl⟩ := Option.map_eq_some_iff.1 (hcontent 0 (by simp))
      rw [Nat.add_zero] at hnode
      have hblocks : (if due then blocksOf atype a node.act.nTasks else []).length =
          if due then node.act.nTasks else 0 := by
        split
        · simp [blocksOf]
        · rfl
      rw [List.length_append, hblocks] at hroom
      obtain ⟨t, ht, hft, hlength, hscheduled, henqueued, hnext, hself, hother⟩ :=
        visit_some curTime hnode due hfilled (by omega)
      obtain ⟨fuel, rfl⟩ : ∃ f, fuel = f + 1 := by
        cases fuel with
        | zero => simp at hfuel
        | succ fuel => exact ⟨fuel, rfl⟩
      have hmap : (if due then blocksOf atype a node.act.nTasks else []).map (fun u => (u.act, u.index)) =
          if due then (List.range node.act.nTasks).map (a, ·) else [] := by
        split
        · simp [blocksOf, Function.comp_def]
        · rfl
      have hlink : s.nodes.next a = node.next := by simp [Nodes.next, hnode]
      rw [hlink] at hlinked
      simp only [walk, hnode, hdue, ht, List.map_append, hmap]
      cases hl : node.next with
      | none =>
          -- the last activity
          rw [hl] at hlinked
          have hnil : l = [] := by
            have hhead := hlinked.head_eq
            cases l with
            | nil => rfl
            | cons _ _ => cases hhead
          subst hnil
          cases hrest
          refine ⟨t, rfl, hft, hlength, ?_, ?_, hnext, fun i hi => ?_, fun c hc => hother c ?_⟩
          · rw [hscheduled, List.append_nil, hblocks]
          · rw [henqueued, List.map_nil, List.append_nil]
          · obtain rfl : i = 0 := by simpa using hi
            exact hself
          · rcases hc with hlt | hge
            · exact Nat.ne_of_lt hlt
            · exact (Nat.ne_of_lt hge).symm
      | some b =>
          rw [hl] at hlinked
          have hb : b = a + 1 := by
            have hhead := hlinked.head_eq
            cases l with
            | nil => cases hhead
            | cons _ _ => exact Option.some.inj hhead
          subst hb
          have hlinked' : Linked t.nodes.next (some (a + 1)) (List.range' (a + 1) l.length) := by
            rw [hnext]
            exact hlinked
          have hcontent' : ∀ i, i < l.length → (t.nodes (a + 1 + i)).map (·.act) = l[i]? := by
            intro i hi
            have hold := hcontent (i + 1) (by rw [List.length_cons]; omega)
            rw [show a + (i + 1) = a + 1 + i by omega, List.getElem?_cons_succ] at hold
            rw [hother _ (by omega)]
            exact hold
          obtain ⟨u, hu, hfu, hlength', hscheduled', henqueued', hnext', hacts, hother'⟩ :=
            ih hlinked' hcontent' hrest hft (by omega) (Nat.le_of_succ_le_succ hfuel)
          refine ⟨u, hu, hfu, hlength'.trans hlength, ?_, ?_, hnext'.trans hnext, fun i hi => ?_, fun c hc => ?_⟩
          · rw [hscheduled', hscheduled, List.length_append, hblocks]
            omega
          · rw [henqueued', henqueued, List.append_assoc]
          · cases i with
            | zero =>
                rw [Nat.add_zero, hother' a (Or.inl (Nat.lt_succ_self a)), hself]
                rfl
            | succ i =>
                rw [show a + (i + 1) = a + 1 + i by omega, List.getElem?_cons_succ]
                exact hacts i (Nat.lt_of_succ_lt_succ hi)
          · rw [hother' c ?_, hother c ?_]
            · rcases hc with hlt | hge
              · exact Nat.ne_of_lt hlt
              · rintro rfl
                rw [List.length_cons] at hge
                omega
            · rcases hc with hlt | hge
              · exact Or.inl (Nat.lt_succ_of_lt hlt)
              · refine Or.inr ?_
                rw [List.length_cons] at hge
                omega

end Walk

section Period

/-- The last execution time of an activity whose type has been called at `1, ..., n`. -/
def lastExecution (nsteps : Int) (n : Nat) : Int :=
  if n = 0 then -1 else 1 + nsteps * ((n - 1 : Int) / nsteps)

theorem lastExecution_pos {nsteps : Int} (hsteps : 0 < nsteps) {n : Nat} (hn : n ≠ 0) :
    0 < lastExecution nsteps n := by
  have hdiv : 0 ≤ nsteps * ((n - 1 : Int) / nsteps) :=
    Int.mul_nonneg hsteps.le (Int.ediv_nonneg (by omega) hsteps.le)
  rw [lastExecution, if_neg hn]
  omega

/-- The time since the last execution is what is left of the time since the first tick. -/
theorem sub_lastExecution (nsteps : Int) {n : Nat} (hn : n ≠ 0) :
    (n + 1 : Int) - lastExecution nsteps n = (n - 1) % nsteps + 1 := by
  have hdiv := Int.emod_add_mul_ediv (n - 1 : Int) nsteps
  rw [lastExecution, if_neg hn]
  omega

/-- An execution is due at tick `n + 1` where `nsteps` divides `n`. -/
theorem lastExecution_succ {nsteps : Int} (hsteps : 0 < nsteps) (n : Nat) :
    lastExecution nsteps (n + 1) = if (n : Int) % nsteps = 0 then (n + 1 : Int) else lastExecution nsteps n := by
  have hdiv := Int.emod_add_mul_ediv (n : Int) nsteps
  have hunfold : lastExecution nsteps (n + 1) = 1 + nsteps * ((n : Int) / nsteps) := by
    rw [lastExecution, if_neg (Nat.succ_ne_zero n)]
    push_cast
    rw [Int.add_sub_cancel]
  rw [hunfold]
  split
  · omega
  · rename_i hrest
    have hn : n ≠ 0 := by
      rintro rfl
      simp at hrest
    have hpos := Int.emod_nonneg (n : Int) hsteps.ne'
    have hlt := Int.emod_lt_of_pos (n : Int) hsteps
    have hsame : (n - 1 : Int) / nsteps = n / nsteps := by
      have hsplit : (n - 1 : Int) = (n % nsteps - 1) + nsteps * (n / nsteps) := by omega
      rw [hsplit, Int.add_mul_ediv_left _ _ hsteps.ne', Int.ediv_eq_zero_of_lt (by omega) (by omega), zero_add]
    rw [lastExecution, if_neg hn, hsame]

/-- The activity that a binding has made, after its type has been called at `1, ..., n`. -/
def Bind.actAfter (nthreads : Nat) (b : Bind) (n : Nat) : CsUserActivity :=
  { b.act nthreads with lastExecutionTime := lastExecution b.nsteps n }

/-- The test of `_loop_activity` at tick `n + 1`. -/
theorem due_actAfter (nthreads : Nat) {b : Bind} (hsteps : 0 < b.nsteps) (n : Nat) (atype : ActivityType) :
    (b.actAfter nthreads n).due (n + 1) atype =
      some (decide ((n : Int) % b.nsteps = 0 ∧ b.type = atype)) := by
  by_cases hn : n = 0
  · subst hn
    simp [CsUserActivity.due, Bind.actAfter, Bind.act, lastExecution]
  · have hpos := lastExecution_pos hsteps hn
    have hnot : ¬ lastExecution b.nsteps n < 0 := by omega
    have hsub := sub_lastExecution b.nsteps hn
    have hnonneg := Int.emod_nonneg (n - 1 : Int) hsteps.ne'
    have hmod : ((n + 1 : Int) - lastExecution b.nsteps n).tmod b.nsteps = n % b.nsteps := by
      rw [hsub, Int.tmod_eq_emod_of_nonneg (by omega), Int.emod_add_emod, Int.sub_add_cancel]
    simp only [CsUserActivity.due, Bind.actAfter, Bind.act, if_neg hnot, if_neg hsteps.ne', hmod]

end Period

section Ticks

variable {nthreads : Nat} {binds : List Bind} {c : Call}

/-- The sum of the `n_tasks`. -/
def allTasks (nthreads : Nat) (binds : List Bind) : Nat := (binds.map (Bind.nTasks nthreads)).sum

/-- The activities of a program, after the calls that `ticks` counts. -/
def actsAfter (nthreads : Nat) (binds : List Bind) (ticks : ActivityType → Nat) : List CsUserActivity :=
  binds.map fun b => b.actAfter nthreads (ticks b.type)

@[simp] theorem actsAfter_length (ticks : ActivityType → Nat) :
    (actsAfter nthreads binds ticks).length = binds.length := List.length_map _

@[simp] theorem actsAfter_totalTasks (ticks : ActivityType → Nat) :
    Engine.totalTasks (actsAfter nthreads binds ticks) = allTasks nthreads binds := by
  simp [Engine.totalTasks, actsAfter, allTasks, Bind.actAfter, Bind.act, Function.comp_def]

theorem dueBlocks_length (nthreads : Nat) (c : Call) (a : Addr) (binds : List Bind) :
    (dueBlocks nthreads c a binds).length ≤ allTasks nthreads binds := by
  induction binds generalizing a with
  | nil => exact Nat.le_refl 0
  | cons b binds ih =>
      have hrest := ih (a + 1)
      unfold allTasks at hrest ⊢
      rw [dueBlocks, List.length_append, List.map_cons, List.sum_cons]
      split
      · rw [List.length_map, List.length_range]
        omega
      · rw [List.length_nil]
        omega

/-- What a call in order does to one activity. -/
theorem actAfter_due (nthreads : Nat) {b : Bind} (hstep : 0 < b.nsteps) {ticks : ActivityType → Nat}
    (hclock : c.clock = ticks c.type + 1) :
    ∃ due : Bool, (b.actAfter nthreads (ticks b.type)).due c.clock c.type = some due ∧
      (due = true ↔ b.type = c.type ∧ 0 < c.clock ∧ (c.clock - 1) % b.nsteps = 0) ∧
      b.actAfter nthreads (Function.update ticks c.type (ticks c.type + 1) b.type) =
        if due then { b.actAfter nthreads (ticks b.type) with lastExecutionTime := c.clock }
        else b.actAfter nthreads (ticks b.type) := by
  have hpos : 0 < c.clock := by omega
  have hbefore : c.clock - 1 = ticks c.type := by omega
  by_cases htype : b.type = c.type
  · have hdue := due_actAfter nthreads hstep (ticks c.type) c.type
    rw [← hclock] at hdue
    rw [htype, hdue, Function.update_self, hbefore]
    refine ⟨_, rfl, ?_, ?_⟩
    · simp [htype, hpos]
    · simp only [htype, and_true, decide_eq_true_eq]
      unfold Bind.actAfter
      rw [lastExecution_succ hstep, ← hclock]
      split <;> rfl
  · refine ⟨false, ?_, ?_, ?_⟩
    · unfold CsUserActivity.due
      rw [show (b.actAfter nthreads (ticks b.type)).type = b.type from rfl,
        show (b.actAfter nthreads (ticks b.type)).nsteps = b.nsteps from rfl, if_neg hstep.ne']
      simp [htype]
    · simp [htype]
    · rw [Function.update_of_ne htype]
      rfl

/-- At a call in order the activities that are due are those whose `nsteps` divides the ticks
before. -/
theorem scheduleActivities_due (nthreads : Nat) (hsteps : ∀ b ∈ binds, 0 < b.nsteps) {ticks : ActivityType → Nat}
    (hclock : c.clock = ticks c.type + 1) (a : Nat) :
    ∃ codes, scheduleActivities c.clock c.type a (actsAfter nthreads binds ticks) =
        some (codes, actsAfter nthreads binds (Function.update ticks c.type (ticks c.type + 1))) ∧
      codes.map (fun u => (u.act, u.index)) = dueBlocks nthreads c a binds := by
  induction binds generalizing a with
  | nil => exact ⟨[], rfl, rfl⟩
  | cons b binds ih =>
      obtain ⟨codes, hsched, hcodes⟩ := ih (fun b' hb' => hsteps b' (List.mem_cons_of_mem b hb')) (a + 1)
      have hstep := hsteps b List.mem_cons_self
      obtain ⟨due, hdue, hiff, hafter⟩ := actAfter_due nthreads hstep hclock
      unfold actsAfter at hsched ⊢
      rw [List.map_cons, List.map_cons, scheduleActivities, hsched, hdue, dueBlocks, hafter]
      cases due with
      | true =>
          refine ⟨_, rfl, ?_⟩
          rw [if_pos (hiff.1 rfl), List.map_append, hcodes]
          simp [blocksOf, Bind.actAfter, Bind.act, Function.comp_def]
      | false =>
          refine ⟨_, rfl, ?_⟩
          rw [if_neg fun hnow => Bool.noConfusion (hiff.2 hnow), hcodes]
          rfl

/-- A call before the first tick does nothing. -/
theorem performs_nothing (hearly : c.clock ≤ 0) : Performs nthreads binds c ⟨[], []⟩ := by
  have hnone : ∀ a, dueBlocks nthreads c a binds = [] := by
    induction binds with
    | nil => exact fun _ => rfl
    | cons b binds ih =>
        intro a
        rw [dueBlocks, ih (a + 1), if_neg]
        · rfl
        · omega
  exact ⟨(hnone 0).symm, rfl⟩

/-- The array after a walk is what the enqueues returned. -/
theorem Filled.waited {enq : Nat → Int} {s : Loop} (h : Filled enq s) (hroom : s.ischeduled ≤ s.ids.length) :
    s.ids.take s.ischeduled = (List.range s.enqueued.length).map enq := by
  apply List.ext_getElem?
  intro k
  rw [h.length]
  by_cases hk : k < s.ischeduled
  · rw [List.getElem?_take_of_lt hk, h.ids k hk, List.getElem?_map, List.getElem?_range hk]
    rfl
  · rw [List.getElem?_eq_none, List.getElem?_eq_none]
    · rw [List.length_map, List.length_range]
      omega
    · rw [List.length_take]
      omega

/-- A call in order, where there are tasks. -/
theorem loopActivity_tasks (hsteps : ∀ b ∈ binds, 0 < b.nsteps) (htasks : 0 < allTasks nthreads binds)
    {ticks : ActivityType → Nat} {alist : CsUserActivityList} {fuel : Nat}
    (h : Layout alist (actsAfter nthreads binds ticks)) (hfuel : binds.length ≤ fuel)
    (hclock : c.clock = ticks c.type + 1) :
    ∃ alist' d, loopActivity fuel alist c = some (alist', d) ∧ Performs nthreads binds c d ∧
      Layout alist' (actsAfter nthreads binds (Function.update ticks c.type (ticks c.type + 1))) := by
  obtain ⟨codes, hsched, hcodes⟩ := scheduleActivities_due nthreads hsteps hclock 0
  have htotal := h.totalTasks
  rw [actsAfter_totalTasks] at htotal
  have hlen : codes.length ≤ allTasks nthreads binds := by
    have hle := dueBlocks_length nthreads c 0 binds
    rw [← hcodes, List.length_map] at hle
    exact hle
  have hpos : ¬ c.clock ≤ 0 := by omega
  have htotalpos : 0 < alist.totalTasks := by omega
  have hlinked := h.linked
  rw [actsAfter_length, List.range_eq_range'] at hlinked
  have hhead : alist.activities = some 0 := by
    rw [hlinked.head_eq]
    cases binds with
    | nil => simp [allTasks] at htasks
    | cons b binds => rfl
  rw [hhead] at hlinked
  let s : Loop := ⟨alist.nodes, List.replicate alist.totalTasks.toNat (-1), 0, []⟩
  have hfilled : Filled c.enq s := ⟨rfl, fun k hk => absurd hk (Nat.not_lt_zero k)⟩
  have hids : s.ids.length = allTasks nthreads binds := by
    show (List.replicate alist.totalTasks.toNat (-1 : Int)).length = _
    rw [List.length_replicate, htotal, Int.toNat_natCast]
  have hroom : s.ischeduled + codes.length ≤ s.ids.length := by
    rw [hids]
    exact (Nat.zero_add _).trans_le hlen
  have hfuel' : (actsAfter nthreads binds ticks).length ≤ fuel := by rwa [actsAfter_length]
  obtain ⟨t, ht, hft, hlength, hscheduled, henqueued, hnext, hacts, hother⟩ := walk_some (s := s) (a := 0)
    (by rw [actsAfter_length]; exact hlinked)
    (fun i _ => by rw [Nat.zero_add]; exact h.content i) hsched hfilled hroom hfuel'
  refine ⟨{ alist with nodes := t.nodes }, ⟨t.enqueued, t.ids.take t.ischeduled⟩, ?_, ⟨?_, ?_⟩, ?_⟩
  · rw [loopActivity, if_neg hpos, if_pos htotalpos, hhead]
    show (walk c.enq c.clock c.type fuel 0 s).map _ = _
    rw [ht]
    rfl
  · show t.enqueued = _
    rw [henqueued, hcodes]
    rfl
  · exact hft.waited (by rw [hscheduled, hlength]; exact hroom)
  · have hlast := h.lastAct
    have hbrk := h.brk
    have hnact := h.nact
    rw [actsAfter_length] at hlast hbrk hnact
    refine ⟨?_, ?_, fun a => ?_, ?_, ?_, ?_⟩
    · rw [actsAfter_length, List.range_eq_range']
      show Linked t.nodes.next alist.activities _
      rw [hnext, hhead]
      exact hlinked
    · rw [actsAfter_length]
      exact hlast
    · rcases Nat.lt_or_ge a binds.length with hlt | hge
      · have hact := hacts a (by rw [actsAfter_length]; exact hlt)
        rw [Nat.zero_add] at hact
        exact hact
      · have hold := h.content a
        rw [List.getElem?_eq_none (by rw [actsAfter_length]; exact hge)] at hold
        show (t.nodes a).map (·.act) = _
        rw [hother a (Or.inr (by rw [actsAfter_length, Nat.zero_add]; exact hge)),
          List.getElem?_eq_none (by rw [actsAfter_length]; exact hge)]
        exact hold
    · rw [actsAfter_length]
      exact hbrk
    · rw [actsAfter_length]
      exact hnact
    · rw [actsAfter_totalTasks]
      exact htotal

/-- Without tasks a call returns at once, and nothing is due. -/
theorem loopActivity_none (fuel : Nat) (htasks : allTasks nthreads binds = 0) {alist : CsUserActivityList}
    {l : List CsUserActivity} (h : Layout alist l) (htotal : Engine.totalTasks l = 0) :
    loopActivity fuel alist c = some (alist, ⟨[], []⟩) ∧ Performs nthreads binds c ⟨[], []⟩ := by
  constructor
  · unfold loopActivity
    split
    · rfl
    · rw [if_neg]
      have := h.totalTasks
      omega
  · have hle := dueBlocks_length nthreads c 0 binds
    exact ⟨(List.length_eq_zero_iff.1 (by omega)).symm, rfl⟩

/-- The calls that count: without tasks no activity is executed. -/
def counted (nthreads : Nat) (binds : List Bind) (ticks : ActivityType → Nat) : ActivityType → Nat :=
  if allTasks nthreads binds = 0 then fun _ => 0 else ticks

/-- Calls in order, one after the other. -/
theorem runLoop_some (hsteps : ∀ b ∈ binds, 0 < b.nsteps) {fuel : Nat} (hfuel : binds.length ≤ fuel)
    {calls : List Call} {ticks : ActivityType → Nat} (horder : InOrder ticks calls)
    {alist : CsUserActivityList}
    (h : Layout alist (actsAfter nthreads binds (counted nthreads binds ticks))) :
    ∃ alist' ds ticks', runLoop fuel alist calls = some (alist', ds) ∧
      List.Forall₂ (Performs nthreads binds) calls ds ∧
      Layout alist' (actsAfter nthreads binds (counted nthreads binds ticks')) := by
  induction calls generalizing ticks alist with
  | nil => exact ⟨alist, [], ticks, rfl, .nil, h⟩
  | cons c calls ih =>
      obtain ⟨alist₁, d, ticks₁, hcall, hperforms, h₁, horder₁⟩ : ∃ alist₁ d ticks₁,
          loopActivity fuel alist c = some (alist₁, d) ∧ Performs nthreads binds c d ∧
          Layout alist₁ (actsAfter nthreads binds (counted nthreads binds ticks₁)) ∧
          InOrder ticks₁ calls := by
        rcases horder with ⟨hearly, hrest⟩ | ⟨hclock, hrest⟩
        · exact ⟨alist, ⟨[], []⟩, ticks, if_pos hearly, performs_nothing hearly, h, hrest⟩
        · by_cases htasks : allTasks nthreads binds = 0
          · obtain ⟨hcall, hperforms⟩ :=
              loopActivity_none (c := c) fuel htasks h (by rw [actsAfter_totalTasks, htasks])
            refine ⟨alist, _, _, hcall, hperforms, ?_, hrest⟩
            rw [counted, if_pos htasks] at h ⊢
            exact h
          · rw [counted, if_neg htasks] at h
            obtain ⟨alist₁, d, hcall, hperforms, h₁⟩ :=
              loopActivity_tasks hsteps (Nat.pos_of_ne_zero htasks) h hfuel hclock
            refine ⟨alist₁, d, _, hcall, hperforms, ?_, hrest⟩
            rw [counted, if_neg htasks]
            exact h₁
      obtain ⟨alist₂, ds, ticks₂, hrun, hds, h₂⟩ := ih horder₁ h₁
      refine ⟨alist₂, d :: ds, ticks₂, ?_, .cons hperforms hds, h₂⟩
      rw [runLoop, hcall]
      simp only [hrun]
      rfl

end Ticks

/-- **The activity schedule**: calls of `_loop_activity` at 1, 2, 3, ... for each type never write
outside of the array of ids, enqueue exactly the blocks that are due, in order, and wait on what
their enqueues returned; the list stays linked, with the right last element and counters. -/
theorem activity_schedule (nthreads : Nat) (binds : List Bind) (hsteps : ∀ b ∈ binds, 0 < b.nsteps)
    (calls : List Call) (horder : InOrder (fun _ => 0) calls) (fuel : Nat) (hfuel : binds.length ≤ fuel) :
    ∃ alist ds, runLoop fuel (bindAll nthreads binds) calls = some (alist, ds) ∧
      List.Forall₂ (Performs nthreads binds) calls ds ∧
      Linked alist.nodes.next alist.activities (List.range binds.length) ∧
      alist.lastAct = (List.range binds.length).getLast? ∧ alist.nact = binds.length ∧
      (∀ a, (alist.nodes a).map (·.act.nTasks) = (binds[a]?).map (Bind.nTasks nthreads)) ∧
      alist.totalTasks = (binds.map (Bind.nTasks nthreads)).sum := by
  have hstart : Layout (bindAll nthreads binds)
      (actsAfter nthreads binds (counted nthreads binds fun _ => 0)) := by
    have hzero : counted nthreads binds (fun _ => 0) = fun _ => 0 := by
      unfold counted
      split <;> rfl
    rw [hzero]
    exact bindAll_layout nthreads binds
  obtain ⟨alist, ds, ticks, hrun, hds, h⟩ := runLoop_some hsteps hfuel horder hstart
  refine ⟨alist, ds, hrun, hds, ?_, ?_, ?_, fun a => ?_, ?_⟩
  · simpa using h.linked
  · simpa using h.lastAct
  · simpa using h.nact
  · have hcontent := congrArg (Option.map CsUserActivity.nTasks) (h.content a)
    simpa [actsAfter, Function.comp_def, Bind.actAfter, Bind.act] using hcontent
  · have htotal := h.totalTasks
    rw [actsAfter_totalTasks] at htotal
    exact htotal

/-- A USER activity of three items every other tick, and an AFTER_STEP activity of one item, on two
workers. -/
theorem activity_schedule_two : ∃ alist ds,
    runLoop 2 (bindAll 2 [⟨3, 2, .user⟩, ⟨1, 1, .afterStep⟩])
      [⟨0, .afterStep, fun _ => -1⟩, ⟨1, .user, fun k => k⟩, ⟨1, .afterStep, fun k => k + 2⟩,
        ⟨2, .user, fun k => k⟩] = some (alist, ds) ∧ ds.length = 4 ∧ alist.totalTasks = 3 := by
  obtain ⟨alist, ds, hrun, hds, -, -, -, -, htotal⟩ :=
    activity_schedule 2 [⟨3, 2, .user⟩, ⟨1, 1, .afterStep⟩] (by decide)
      [⟨0, .afterStep, fun _ => -1⟩, ⟨1, .user, fun k => k⟩, ⟨1, .afterStep, fun k => k + 2⟩,
        ⟨2, .user, fun k => k⟩]
      (Or.inl ⟨by decide, Or.inr ⟨by decide, Or.inr ⟨by decide, Or.inr ⟨by decide, trivial⟩⟩⟩⟩) 2 (by decide)
  exact ⟨alist, ds, hrun, hds.length_eq.symm, htotal⟩

example : (runLoop 2 (bindAll 2 [⟨3, 2, .user⟩, ⟨1, 1, .afterStep⟩])
    [⟨1, .user, fun k => k⟩, ⟨1, .afterStep, fun k => k + 2⟩, ⟨2, .user, fun k => k⟩]).map Prod.snd =
    some [⟨[(0, 0), (0, 1)], [0, 1]⟩, ⟨[(1, 0)], [2]⟩, ⟨[], []⟩] := by decide

end ComplexSim.Activities
