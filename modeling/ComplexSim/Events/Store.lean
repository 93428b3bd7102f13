import ComplexSim.Events.Content
import ComplexSim.Rb.Runs

/-!
# The event manager in memory (`src/cs_events.c` over `avl-2.0/src/rb.c`)

The whole memory of an event manager, as far as events are concerned: list records, items and guards in
one heap, the nodes of the tree in the memory of `ev_tree`, which holds pointers to the records. Operations
come one after the other, each under the lock of the tree; allocations succeed. `none` is
undefined behaviour, or an assertion that fails.

The memory is the event tree that the engine works with: every operation returns, and answers as the tree does
(`store_as_tree`). `cs_evm_delete_events`, which frees a list twice, is not among the operations.
-/

namespace ComplexSim.EventStore

open Events (CsEvent CsEventList EvTree int32 numLoop)
open EventHeap (Addr Cell newEvList readList readItem destroyEventList csEvUpdateGuards lists Laid Tells Sliced Accounted)
open Rb (RbCompare RbTable CompareBy Models rbCreate rbFind rbInsert rbDelete rbTFirst rbTLast rbDestroy)

variable {δ : Type}

structure State (δ : Type) where
  heap : Heap (Cell δ)
  /-- the pointers to the list records, with the `scheduled_at` that the records keep -/
  evTree : RbTable (Int × Addr)
  /-- the lists that `_ev_controller` has popped and has its tasks work on -/
  popped : List Addr

/-- `cmp_event_list`. -/
def cmpEventList : RbCompare (Int × Addr) := fun el1 el2 =>
  if el2.1 < el1.1 then 1 else if el1.1 < el2.1 then -1 else 0

/-- The record `search` on the stack; nothing looks at its address. -/
def search (time : Int) : Int × Addr := (time, 0)

inductive Op (δ : Type) where
  | schedule (ev : CsEvent δ) (time : Int)
  | getEvents (time : Int)
  /-- `_ev_controller` pops a list and sets its guards -/
  | controllerPop (time : Int) (ntasks : Nat)
  /-- `_ev_controller` disposes of a popped list -/
  | controllerDispose (evList : Addr)
  | findNearest
  | findFarthest
  | numEvents
  | eventTreeIsEmpty

inductive Answer (δ : Type) where
  | ret (r : Int)
  | list (heap : Heap (Cell δ)) (found : Option (Int × Addr))
  | slices (heap : Heap (Cell δ)) (found : Option (Int × Addr))
  | done

/-- The part of `cs_init_event_manager` that makes the event tree. -/
def csInitEventManager (δ : Type) : Option (State δ) :=
  (rbCreate (Int × Addr) true).map fun evTree => { heap := .empty _, evTree := evTree, popped := [] }

/-- `cs_evm_schedule_event`. -/
def csEvmScheduleEvent (s : State δ) (ev : CsEvent δ) (time : Int) : Option (State δ × Int) :=
  if ev.etype = none then some (s, -1)
  else do
    let (h, newItem) := s.heap.alloc (.item ev none)
    let (h, evTree, found) ← match ← rbFind cmpEventList s.evTree (search time) with
      | none => do
          let (h, found) := h.alloc (.list (newEvList time))
          let h ← h.write found (.list { newEvList time with head := some newItem, tail := some newItem })
          let (evTree, _) ← rbInsert cmpEventList true s.evTree (time, found)
          some (h, evTree, found)
      | some (_, found) => do
          let l ← readList h found
          let tail ← l.tail
          let (last, _) ← readItem h tail
          let h ← h.write tail (.item last (some newItem))
          -- the link of the new item is NULL already
          let h ← h.write found (.list { l with tail := some newItem })
          some (h, s.evTree, found)
    let l ← readList h found
    let h ← h.write found (.list { l with count := l.count + 1 })
    some ({ s with heap := h, evTree := evTree }, 0)

/-- `get_events`. -/
def getEvents (s : State δ) (time : Int) : Option (Option (Int × Addr)) := rbFind cmpEventList s.evTree (search time)

/-- `_ev_controller` up to the tasks of a tick. -/
def controllerPop (s : State δ) (time : Int) (ntasks : Nat) : Option (State δ × Option (Int × Addr)) := do
  let (evTree, found) ← rbDelete cmpEventList s.evTree (search time)
  match found with
  | none => some ({ s with evTree := evTree }, none)
  | some (scheduledAt, evList) =>
      let l ← readList s.heap evList
      if 0 < l.count then
        let h ← csEvUpdateGuards s.heap evList ntasks
        some ({ heap := h, evTree := evTree, popped := evList :: s.popped }, some (scheduledAt, evList))
      else some ({ s with evTree := evTree }, none)

/-- `_ev_controller` when the tasks of a tick have ended. -/
def controllerDispose (s : State δ) (evList : Addr) : Option (State δ) :=
  if evList ∈ s.popped then
    (destroyEventList s.heap evList).map fun h => { s with heap := h, popped := s.popped.erase evList }
  else some s

/-- The time of a list that `rb_t_first` or `rb_t_last` gives. -/
def timeOf (h : Heap (Cell δ)) : Option (Int × Addr) → Option Int
  | none => some (-1)
  | some (_, found) => do
      let l ← readList h found
      some (if 0 < l.count then l.scheduledAt else -1)

/-- `cs_evm_find_nearest_events`. -/
def csEvmFindNearestEvents (s : State δ) : Option Int := do
  let (_, found) ← rbTFirst s.evTree
  timeOf s.heap found

/-- `cs_evm_find_farthest_events`. -/
def csEvmFindFarthestEvents (s : State δ) : Option Int := do
  let (_, found) ← rbTLast s.evTree
  timeOf s.heap found

/-- `cs_evm_num_events`. -/
def csEvmNumEvents (s : State δ) : Option Int := do
  let count := int32 s.evTree.rbCount
  if count = 0 then some 0
  else
    let (_, evList) ← rbTFirst s.evTree
    match evList with
    | none => some 0
    | some (_, evList) =>
        let l ← readList s.heap evList
        some (numLoop l.count count.toNat 0)

/-- `cs_evm_event_tree_is_empty`. -/
def csEvmEventTreeIsEmpty (s : State δ) : Int := if s.evTree.rbCount = 0 then 1 else 0

/-- `rb_destroy(evm->ev_tree, destroy_event_list)`. -/
def destroyTree (s : State δ) : Option (State δ) := do
  let (evTree, items) ← rbDestroy s.evTree
  let h ← items.foldlM (fun h x => destroyEventList h x.2) s.heap
  some { s with heap := h, evTree := evTree }

def step (s : State δ) : Op δ → Option (State δ × Answer δ)
  | .schedule ev time => (csEvmScheduleEvent s ev time).map fun r => (r.1, .ret r.2)
  | .getEvents time => (getEvents s time).map fun found => (s, .list s.heap found)
  | .controllerPop time ntasks => (controllerPop s time ntasks).map fun r => (r.1, .slices r.1.heap r.2)
  | .controllerDispose evList => (controllerDispose s evList).map fun s => (s, .done)
  | .findNearest => (csEvmFindNearestEvents s).map fun t => (s, .ret t)
  | .findFarthest => (csEvmFindFarthestEvents s).map fun t => (s, .ret t)
  | .numEvents => (csEvmNumEvents s).map fun n => (s, .ret n)
  | .eventTreeIsEmpty => some (s, .ret (csEvmEventTreeIsEmpty s))

/-- What an operation on an event tree answers. -/
inductive TreeAnswer (δ : Type) where
  | ret (r : Int)
  | list (found : Option (CsEventList δ))
  /-- a list, and the chains that its guards point to -/
  | slices (found : Option (CsEventList δ × List (List (CsEvent δ))))
  | done

/-- The operations on an event tree. -/
def treeStep (t : EvTree δ) : Op δ → Option (EvTree δ × TreeAnswer δ)
  | .schedule ev time => some ((Events.csEvmScheduleEvent ev time t).1, .ret (Events.csEvmScheduleEvent ev time t).2)
  | .getEvents time => some (t, .list (t.find? time))
  | .controllerPop time ntasks =>
      some ((Events.popEvents t time).1,
        .slices ((Events.popEvents t time).2.map fun l => (l, (Events.csEvUpdateGuards l ntasks).1)))
  | .controllerDispose _ => some (t, .done)
  | .findNearest => some (t, .ret (t.first?.elim (-1) CsEventList.scheduledAt))
  | .findFarthest => some (t, .ret (t.last?.elim (-1) CsEventList.scheduledAt))
  | .numEvents => some (t, .ret (Events.csEvmNumEvents t))
  | .eventTreeIsEmpty => some (t, .ret (if t.count = 0 then 1 else 0))

/-- An answer in memory is the one of the tree: the pointers of a list lead to its events, those of the guards to
the chains. -/
inductive Shows : Answer δ → TreeAnswer δ → Prop where
  | ret (r : Int) : Shows (.ret r) (.ret r)
  | list {heap : Heap (Cell δ)} {found : Option (Int × Addr)} {l : Option (CsEventList δ)}
      (h : Option.Rel (Tells heap) found l) : Shows (.list heap found) (.list l)
  | slices {heap : Heap (Cell δ)} {found : Option (Int × Addr)} {l : Option (CsEventList δ × List (List (CsEvent δ)))}
      (h : Option.Rel (fun x l => Sliced heap x l.1 l.2) found l) : Shows (.slices heap found) (.slices l)
  | done : Shows .done .done

/-- The memory of `s` is laid out as in `m`, with the records of `m.evTree` in the nodes of the tree. -/
structure Layout (s : State δ) (m : EventHeap.State δ) (t : EvTree δ) : Prop where
  heap : m.heap = s.heap
  popped : m.popped = s.popped
  table : Models Prod.fst s.evTree m.evTree
  laid : Laid m.heap (lists m)
  accounted : Accounted m
  alike : OrdTable.Alike (Tells m.heap) m.evTree t

/-- The memory of an event manager represents an event tree. -/
def Represents (s : State δ) (t : EvTree δ) : Prop := ∃ m, Layout s m t

/-- The tree fits the arrays of `rb.c`, and there is a worker for the events of a tick. -/
def Fits (t : EvTree δ) (op : Op δ) : Prop :=
  t.count < 2 ^ 25 - 2 ∧ match op with
    | .controllerPop _ ntasks => 0 < ntasks
    | _ => True

instance (t : EvTree δ) : ∀ op : Op δ, Decidable (Fits t op)
  | .controllerPop _ ntasks => inferInstanceAs (Decidable (_ ∧ 0 < ntasks))
  | .schedule _ _ | .getEvents _ | .controllerDispose _ | .findNearest | .findFarthest | .numEvents
  | .eventTreeIsEmpty => inferInstanceAs (Decidable (_ ∧ True))

theorem cmpEventList_by : CompareBy cmpEventList Prod.fst := by
  constructor
  · intro x y
    unfold cmpEventList
    split
    · omega
    · split <;> omega
  · intro x y
    unfold cmpEventList
    split
    · omega
    · split <;> omega

theorem init_represents {s : State δ} (h : csInitEventManager δ = some s) : Represents s .empty := by
  obtain ⟨evTree, hnew, rfl⟩ := Option.map_eq_some_iff.1 h
  exact ⟨EventHeap.init δ, rfl, rfl, Rb.rbCreate_models hnew, Laid.empty, rfl, .nil⟩

section Operations

variable {s : State δ} {m m' : EventHeap.State δ} {t : EvTree δ} {time : Int} {ev : CsEvent δ}

/-- A record can be written in two steps. -/
theorem write_twice {h h' : Heap (Cell δ)} {a : Addr} {l' : EventHeap.ListRecord} (hw : h.write a (.list l') = some h')
    (l : EventHeap.ListRecord) :
    ∃ h₁, h.write a (.list l) = some h₁ ∧ readList h₁ a = some l ∧ h₁.write a (.list l') = some h' := by
  obtain ⟨h₁, hfirst⟩ : ∃ h₁, h.write a (.list l) = some h₁ := by
    unfold Heap.write at hw ⊢
    split at hw
    · exact ⟨_, if_pos ‹_›⟩
    · cases hw
  refine ⟨h₁, hfirst, ?_, ?_⟩
  · unfold readList
    rw [(Heap.write_spec hfirst).1]
  · rw [Heap.write_write hfirst, hw]

/-- `cs_evm_schedule_event` with the table in memory. -/
theorem schedule_run (hheap : m.heap = s.heap) (hpopped : m.popped = s.popped)
    (htable : Models Prod.fst s.evTree m.evTree) (hsize : m.evTree.count < 2 ^ 25 - 2) (hetype : ev.etype ≠ none)
    (hrun : EventHeap.csEvmScheduleEvent m ev time = some m') :
    ∃ s', csEvmScheduleEvent s ev time = some (s', 0) ∧ m'.heap = s'.heap ∧ m'.popped = s'.popped ∧
      Models Prod.fst s'.evTree m'.evTree := by
  have hfound := Rb.rbFind_eq cmpEventList_by (search time) htable
  unfold EventHeap.csEvmScheduleEvent at hrun
  rw [if_neg hetype, hheap] at hrun
  cases hfind : m.evTree.find? time with
  | none =>
      rw [hfind] at hrun
      obtain ⟨h, hwrite, rfl⟩ := Option.map_eq_some_iff.1 hrun
      have hfound : rbFind cmpEventList s.evTree (search time) = some none := hfound.trans (congrArg some hfind)
      have hwrite : ((s.heap.alloc (.item ev none)).1.alloc (.list (newEvList time))).1.write (s.heap.brk + 1) (.list
          { newEvList time with head := some s.heap.brk, tail := some s.heap.brk, count := 1 }) = some h := hwrite
      obtain ⟨h₁, hfirst, hread, hsecond⟩ :=
        write_twice hwrite { newEvList time with head := some s.heap.brk, tail := some s.heap.brk }
      obtain ⟨evTree, hinsert, htable'⟩ :=
        Rb.rbInsert_eq cmpEventList_by htable hsize true (time, s.heap.brk + 1)
      refine ⟨{ heap := h, evTree := evTree, popped := s.popped }, ?_, rfl, hpopped, htable'⟩
      rw [csEvmScheduleEvent, if_neg hetype, hfound]
      simp only [Option.bind_eq_bind, Option.bind_some, Heap.alloc_snd, Heap.alloc_brk, hfirst, hinsert, hread]
      refine Eq.trans (congrArg (Option.bind · fun h => some (State.mk h evTree s.popped, (0 : Int))) hsecond) rfl
  | some x =>
      rw [hfind] at hrun
      obtain ⟨scheduledAt, found⟩ := x
      have hfound : rbFind cmpEventList s.evTree (search time) = some (some (scheduledAt, found)) :=
        hfound.trans (congrArg some hfind)
      obtain ⟨l, hread, hrun⟩ := Option.bind_eq_some_iff.1 hrun
      obtain ⟨tail, htail, hrun⟩ := Option.bind_eq_some_iff.1 hrun
      obtain ⟨⟨last, q⟩, hlast, hrun⟩ := Option.bind_eq_some_iff.1 hrun
      obtain ⟨h₂, hlink, hrun⟩ := Option.bind_eq_some_iff.1 hrun
      obtain ⟨h, hwrite, hrun⟩ := Option.bind_eq_some_iff.1 hrun
      cases hrun
      obtain ⟨h₁, hfirst, hread₁, hsecond⟩ := write_twice hwrite { l with tail := some s.heap.brk }
      refine ⟨{ s with heap := h }, ?_, rfl, hpopped, htable⟩
      rw [csEvmScheduleEvent, if_neg hetype, hfound]
      have hread : readList (s.heap.alloc (.item ev none)).1 found = some l := hread
      have hlast : readItem (s.heap.alloc (.item ev none)).1 tail = some (last, q) := hlast
      have hlink : (s.heap.alloc (.item ev none)).1.write tail (.item last (some s.heap.brk)) = some h₂ := hlink
      simp only [Option.bind_eq_bind, Option.bind_some, Heap.alloc_snd, hread, htail, hlast, hlink, hfirst, hread₁]
      refine Eq.trans (congrArg (Option.bind · fun h => some (State.mk h s.evTree s.popped, (0 : Int))) hsecond) rfl

theorem Layout.schedule (h : Layout s m t) (hsize : t.count < 2 ^ 25 - 2) (ev : CsEvent δ) (time : Int) :
    ∃ s', csEvmScheduleEvent s ev time = some (s', (Events.csEvmScheduleEvent ev time t).2) ∧
      Represents s' (Events.csEvmScheduleEvent ev time t).1 := by
  by_cases hetype : ev.etype = none
  · refine ⟨s, ?_, m, ?_⟩
    · rw [csEvmScheduleEvent, Events.csEvmScheduleEvent, if_pos hetype, if_pos hetype]
    · rw [Events.csEvmScheduleEvent, if_pos hetype]
      exact h
  · obtain ⟨m', hrun, hpopped, hacc, halike⟩ : ∃ m', EventHeap.csEvmScheduleEvent m ev time = some m' ∧ _ :=
      EventHeap.schedule_alike h.laid h.alike h.accounted hetype
    rw [← h.alike.count] at hsize
    obtain ⟨s', hrun', hheap', hpopped', htable'⟩ := schedule_run h.heap h.popped h.table hsize hetype hrun
    refine ⟨s', ?_, m', hheap', hpopped', htable', EventHeap.schedule_laid h.laid hrun, hacc, halike⟩
    rw [hrun', Events.csEvmScheduleEvent, if_neg hetype]
    split <;> rfl

/-- `_ev_controller` pops a list with the table in memory. -/
theorem Layout.pop (h : Layout s m t) (hsize : t.count < 2 ^ 25 - 2) (time : Int) {ntasks : Nat} (hpos : 0 < ntasks) :
    ∃ s' found, controllerPop s time ntasks = some (s', found) ∧ Represents s' (Events.popEvents t time).1 ∧
      Option.Rel (fun x l => Sliced s'.heap x l (Events.csEvUpdateGuards l ntasks).1) found (t.find? time) := by
  obtain ⟨m', hrun, hacc, halike, htree, hsliced⟩ : ∃ m', EventHeap.controllerPop m time ntasks = some m' ∧ _ :=
    EventHeap.controllerPop_alike h.laid h.alike h.accounted hpos
  have hlaid := EventHeap.controllerPop_laid h.laid hrun
  rw [← h.alike.count] at hsize
  obtain ⟨evTree, hdelete, htable⟩ := Rb.rbDelete_eq cmpEventList_by h.table hsize (search time)
  have hdelete : rbDelete cmpEventList s.evTree (search time) = some (evTree, m.evTree.find? time) := hdelete
  have hrel := h.alike.find? (EventHeap.tells_key m.heap) time
  unfold EventHeap.controllerPop at hrun
  generalize hfind : m.evTree.find? time = x, hfind' : t.find? time = y at hrel hsliced
  rw [hfind] at hrun hdelete
  cases hrel with
  | none =>
      cases hrun
      refine ⟨{ s with evTree := evTree }, none, ?_, ⟨m, h.heap, h.popped, ?_, hlaid, hacc, halike⟩, .none⟩
      · rw [controllerPop, hdelete]
        rfl
      · rw [htree]
        exact htable
  | @some x l htells =>
      obtain ⟨r, hread, hrun⟩ := Option.bind_eq_some_iff.1 hrun
      have hcount : 0 < r.count := by
        rw [htells.count hread]
        exact l.count_pos
      rw [if_pos hcount] at hrun
      obtain ⟨h', hguards, hrun⟩ := Option.bind_eq_some_iff.1 hrun
      cases hrun
      refine ⟨State.mk h' evTree (x.2 :: s.popped), some x, ?_, ⟨_, rfl, ?_, htable, hlaid, hacc, halike⟩, hsliced⟩
      · rw [h.heap] at hread hguards
        rw [controllerPop, hdelete]
        simp only [Option.bind_eq_bind, Option.bind_some, hread, if_pos hcount, hguards]
      · exact congrArg (x.2 :: ·) h.popped

theorem Layout.dispose (h : Layout s m t) (a : Addr) : ∃ s', controllerDispose s a = some s' ∧ Represents s' t := by
  obtain ⟨m', hrun, hlaid, hacc, htree, halike⟩ := EventHeap.dispose_alike h.laid h.alike h.accounted a
  unfold EventHeap.controllerDispose at hrun
  rw [h.popped, h.heap] at hrun
  unfold controllerDispose
  split at hrun
  · rename_i ha
    obtain ⟨h', hfree, rfl⟩ := Option.map_eq_some_iff.1 hrun
    refine ⟨State.mk h' s.evTree (s.popped.erase a), ?_, .mk h' m.evTree (s.popped.erase a), rfl, rfl, h.table,
      hlaid, hacc, halike⟩
    rw [if_pos ha, hfree]
    rfl
  · rename_i ha
    cases hrun
    exact ⟨s, if_neg ha, m, h⟩

/-- The time of a list in memory. -/
theorem timeOf_eq {h : Heap (Cell δ)} {found : Option (Int × Addr)} {l : Option (CsEventList δ)}
    (hrel : Option.Rel (Tells h) found l) : timeOf h found = some (l.elim (-1) CsEventList.scheduledAt) := by
  cases hrel with
  | none => rfl
  | @some x l htells =>
      have hcount := fun r (hr : readList h x.2 = some r) => htells.count hr
      obtain ⟨-, r, cells, hheld, hat, -, -⟩ := htells
      have hpos := l.count_pos
      rw [timeOf, hheld.readList_eq]
      simp only [Option.bind_eq_bind, Option.bind_some, hcount r hheld.readList_eq, if_pos hpos, hat, Option.elim_some]

theorem Layout.nearest (h : Layout s m t) (hsize : t.count < 2 ^ 25 - 2) :
    csEvmFindNearestEvents s = some (t.first?.elim (-1) CsEventList.scheduledAt) := by
  rw [← h.alike.count] at hsize
  obtain ⟨tr, hrun⟩ := Rb.rbTFirst_eq h.table hsize
  rw [csEvmFindNearestEvents, hrun, ← timeOf_eq h.alike.first?, h.heap]
  rfl

theorem Layout.farthest (h : Layout s m t) (hsize : t.count < 2 ^ 25 - 2) :
    csEvmFindFarthestEvents s = some (t.last?.elim (-1) CsEventList.scheduledAt) := by
  rw [← h.alike.count] at hsize
  obtain ⟨tr, hrun⟩ := Rb.rbTLast_eq h.table hsize
  rw [csEvmFindFarthestEvents, hrun, ← timeOf_eq h.alike.last?, h.heap]
  rfl

theorem Layout.count (h : Layout s m t) (hsize : t.count < 2 ^ 25 - 2) : s.evTree.rbCount = t.count := by
  rw [h.table.rbCount_eq (by rw [h.alike.count]; omega), h.alike.count]

theorem Layout.numEvents (h : Layout s m t) (hsize : t.count < 2 ^ 25 - 2) :
    csEvmNumEvents s = some (Events.csEvmNumEvents t) := by
  have hcount := h.count hsize
  have hrel := h.alike.first?
  have hempty : t.first? = none ↔ t.count = 0 := by
    rw [OrdTable.first?, OrdTable.count, List.head?_eq_none_iff, List.length_eq_zero_iff]
  have hsize' := hsize
  rw [← h.alike.count] at hsize'
  obtain ⟨tr, hrun⟩ := Rb.rbTFirst_eq h.table hsize'
  have hint : int32 t.count = t.count := Events.int32_of_lt (by omega) (by omega)
  unfold csEvmNumEvents Events.csEvmNumEvents
  generalize hfirst : m.evTree.first? = x, hfirst' : t.first? = y at hrel
  rw [hfirst] at hrun
  rw [hcount]
  cases hrel with
  | none =>
      rw [hempty.1 hfirst']
      rfl
  | @some x l htells =>
      have hne : ¬ int32 (t.count : Int) = 0 := by
        rw [hint]
        intro hzero
        rw [hempty.2 (by omega)] at hfirst'
        cases hfirst'
      have hcount := fun r (hr : readList m.heap x.2 = some r) => htells.count hr
      obtain ⟨-, r, cells, hheld, -, -, -⟩ := htells
      have hread := hheld.readList_eq
      rw [h.heap] at hread
      simp only [if_neg hne, hrun, Option.bind_eq_bind, Option.bind_some, hread, hcount r hheld.readList_eq]

/-- An operation in memory answers as the one on the tree. -/
theorem step_agree (h : Represents s t) (op : Op δ) (hfits : Fits t op) :
    Mealy.Agree Represents Shows (step s op) (treeStep t op) := by
  obtain ⟨m, hm⟩ := h
  obtain ⟨hsize, hpos⟩ := hfits
  cases op with
  | schedule ev time =>
      obtain ⟨s', hrun, h'⟩ := hm.schedule hsize ev time
      rw [step, hrun]
      exact .some (.ret _) h'
  | getEvents time =>
      have hfound := Rb.rbFind_eq cmpEventList_by (search time) hm.table
      rw [step, getEvents, hfound]
      refine .some (.list ?_) ⟨m, hm⟩
      rw [← hm.heap]
      exact hm.alike.find? (EventHeap.tells_key m.heap) time
  | controllerPop time ntasks =>
      obtain ⟨s', found, hrun, h', hsliced⟩ := hm.pop hsize time hpos
      rw [step, hrun]
      refine .some (.slices ?_) h'
      show Option.Rel _ _ ((t.find? time).map _)
      generalize t.find? time = y at hsliced
      cases hsliced with
      | none => exact .none
      | some h => exact .some h
  | controllerDispose evList =>
      obtain ⟨s', hrun, h'⟩ := hm.dispose evList
      rw [step, hrun]
      exact .some .done h'
  | findNearest =>
      rw [step, hm.nearest hsize]
      exact .some (.ret _) ⟨m, hm⟩
  | findFarthest =>
      rw [step, hm.farthest hsize]
      exact .some (.ret _) ⟨m, hm⟩
  | numEvents =>
      rw [step, hm.numEvents hsize]
      exact .some (.ret _) ⟨m, hm⟩
  | eventTreeIsEmpty =>
      rw [step, csEvmEventTreeIsEmpty, hm.count hsize]
      exact .some (.ret _) ⟨m, hm⟩

theorem treeStep_isSome (t : EvTree δ) (op : Op δ) : (treeStep t op).isSome = true := by
  cases op <;> rfl

/-- The memory runs as the tree, from the start of an event manager on. -/
theorem run_represents (hnew : csInitEventManager δ = some s) {ops : List (Op δ)}
    (hfits : Mealy.Along Fits treeStep (.empty : EvTree δ) ops) :
    List.Forall₂ Shows (Mealy.run step s ops).1 (Mealy.run treeStep (.empty : EvTree δ) ops).1 ∧
      Represents (Mealy.run step s ops).2 (Mealy.run treeStep .empty ops).2 :=
  Mealy.run_agree (fun _ _ op h hok => step_agree h op hok) (init_represents hnew) hfits

/-- `rb_destroy` frees the lists of the tree, and its nodes. What is left belongs to the controller. -/
theorem Layout.destroy (h : Layout s m t) :
    ∃ s', destroyTree s = some s' ∧ s'.evTree.nodes.freed.Perm (List.range s'.evTree.nodes.brk) ∧
      s'.popped = s.popped ∧ Laid s'.heap s'.popped ∧
      (s'.popped = [] → s'.heap.freed.Perm (List.range s'.heap.brk)) := by
  obtain ⟨evTree, hdestroy, hnodes, -⟩ := Rb.rbDestroy_eq h.table
  obtain ⟨m', hrun, hlaid, hacc, hlists⟩ := EventHeap.destroyTree_accounted h.laid h.accounted
  obtain ⟨heap, hfold, rfl⟩ := Option.map_eq_some_iff.1 hrun
  rw [h.heap] at hfold
  rw [hlists, h.popped] at hlaid
  refine ⟨State.mk heap evTree s.popped, ?_, hnodes, rfl, hlaid, fun hnone => ?_⟩
  · rw [destroyTree, hdestroy]
    simp only [Option.bind_eq_bind, Option.bind_some, hfold]
  · rw [← h.popped, ← hlists] at hnone
    rw [← h.popped, ← hlists] at hlaid
    exact (hacc.freed hlaid hnone).1

end Operations

section Runs

variable {s : State δ}

/-- **The memory is the event tree**: in every run every operation returns, with the answer that the event tree gives,
and the memory represents that tree. -/
theorem store_as_tree (hnew : csInitEventManager δ = some s) (ops : List (Op δ))
    (hfits : Mealy.Along Fits treeStep (.empty : EvTree δ) ops) :
    (Mealy.run step s ops).1.length = ops.length ∧
      List.Forall₂ Shows (Mealy.run step s ops).1 (Mealy.run treeStep (.empty : EvTree δ) ops).1 ∧
      Represents (Mealy.run step s ops).2 (Mealy.run treeStep .empty ops).2 := by
  obtain ⟨hshows, hfinal⟩ := run_represents hnew hfits
  refine ⟨?_, hshows, hfinal⟩
  rw [hshows.length_eq]
  exact Mealy.run_length treeStep_isSome _ _

/-- Three events at two times; the earlier list is popped. -/
def twoTimes : List (Op Unit) :=
  [.schedule ⟨some "a", ()⟩ 5, .schedule ⟨some "b", ()⟩ 3, .schedule ⟨some "a", ()⟩ 5, .controllerPop 3 2, .numEvents]

theorem twoTimes_fit : Mealy.Along Fits treeStep (.empty : EvTree Unit) twoTimes := by decide

theorem store_as_tree_two : ∃ s t, csInitEventManager Unit = some s ∧ (Mealy.run step s twoTimes).1.length = 5 ∧
    Represents (Mealy.run step s twoTimes).2 t ∧ t.items.map CsEventList.scheduledAt = [5] := by
  obtain ⟨hlength, -, hfinal⟩ := store_as_tree rfl twoTimes twoTimes_fit
  exact ⟨_, _, rfl, hlength, hfinal, by decide⟩

/-- **The memory is given back**: after every run the destruction of the tree returns, and frees every node of
the tree, once. Every cell of the lists has been freed then, once, if and only if the controller has no list
that it has not disposed of. -/
theorem store_destroyed_once (hnew : csInitEventManager δ = some s) (ops : List (Op δ))
    (hfits : Mealy.Along Fits treeStep (.empty : EvTree δ) ops) :
    ∃ s', destroyTree (Mealy.run step s ops).2 = some s' ∧
      s'.evTree.nodes.freed.Perm (List.range s'.evTree.nodes.brk) ∧
      (s'.heap.freed.Perm (List.range s'.heap.brk) ↔ (Mealy.run step s ops).2.popped = []) := by
  obtain ⟨-, m, hm⟩ := run_represents hnew hfits
  obtain ⟨s', hrun, hnodes, hpopped, hlaid, hfreed⟩ := hm.destroy
  refine ⟨s', hrun, hnodes, fun hperm => ?_, fun hnone => hfreed (hpopped.trans hnone)⟩
  rw [← hpopped]
  apply List.eq_nil_iff_forall_not_mem.2
  intro a ha
  -- the record of a list that is left is allocated
  obtain ⟨l, cells, hheld⟩ := hlaid.holds a ha
  have hlt : a < s'.heap.brk := hlaid.sound.lt (by rw [hheld.record]; rfl)
  have hgone := (hlaid.sound.freed a (hperm.mem_iff.2 (List.mem_range.2 hlt))).2
  rw [hheld.record] at hgone
  cases hgone

/-- The popped list is lost with the tree, unless the controller disposes of it first. -/
theorem store_destroyed_once_two : ∃ s s' s'', csInitEventManager Unit = some s ∧
    destroyTree (Mealy.run step s twoTimes).2 = some s' ∧ ¬ s'.heap.freed.Perm (List.range s'.heap.brk) ∧
    destroyTree (Mealy.run step s (twoTimes ++ [.controllerDispose 3])).2 = some s'' ∧
      s''.heap.freed.Perm (List.range s''.heap.brk) := by
  obtain ⟨s', hrun, -, hlost⟩ := store_destroyed_once rfl twoTimes twoTimes_fit
  obtain ⟨s'', hrun', -, hfreed⟩ := store_destroyed_once rfl (twoTimes ++ [.controllerDispose 3]) (by decide)
  refine ⟨_, s', s'', rfl, hrun, fun hperm => ?_, hrun', hfreed.2 ?_⟩
  · exact absurd (hlost.1 hperm) (by decide +kernel)
  · decide +kernel

end Runs

end ComplexSim.EventStore
