import ComplexSim.Events.Memory
import ComplexSim.Lib.Transition

/-!
# Scheduling without memory (`cs_evm_schedule_event` in `src/cs_events.c`)

Three allocations may fail: the item and the record of a list are asked for by functions that return NULL, the
node of the tree by `rb_insert`, which returns NULL after a success too. None of the three results is looked at. So
a call without memory follows a null pointer, inserts a list without an item, or inserts nothing; in the last
two cases it returns 0.
-/

namespace ComplexSim.EventMemory

open Events

variable {δ : Type}

/-- Which allocations succeed. -/
structure Allocs where
  item : Bool
  record : Bool
  node : Bool

/-- `rb_insert`, where there may be no memory for a node. -/
def rbInsert (node : Bool) (evTree : OrdTable ListRecord.scheduledAt) (found : ListRecord) :
    OrdTable ListRecord.scheduledAt :=
  if node then evTree.insert found else evTree

/-- `cs_evm_schedule_event`, with the allocations that succeed. -/
def csEvmScheduleEventWith (allocs : Allocs) (s : State δ) (ev : CsEvent δ) (time : Int) : State δ × Answer δ :=
  if ev.etype = none then (s, .ret (-1))
  else
    let newItem := if allocs.item then some s.brk else none
    let s := if allocs.item then newEvListItem s ev else s
    match s.evTree.find? time with
    | none =>
        if allocs.record then
          let found := { newEvList time with head := newItem, tail := newItem }
          ({ s with evTree := rbInsert allocs.node s.evTree { found with count := found.count + 1 } }, .ret 0)
        else (s, .fault)
    | some found => match found.tail, newItem with
        | none, _ => (s, .fault)
        -- the last item gets NULL as its successor, which it has
        | some _, none => (s, .fault)
        | some tail, some newItem =>
            ({ s with
                items := s.items.setEnext tail newItem
                evTree := s.evTree.modify time (ListRecord.grow newItem)
                  (ListRecord.grow_scheduledAt newItem) }, .ret 0)

/-- The event is behind the others of its time, and nothing else has changed. -/
def Appended (s s' : State δ) (ev : CsEvent δ) (time : Int) : Prop :=
  ∃ m, Represents s m ∧ Represents s' (m.schedule ev time)

/-- The call returns 0 and has appended the event, or a negative value and has changed no list. -/
def Atomic (s : State δ) (ev : CsEvent δ) (time : Int) : State δ × Answer δ → Prop
  | (s', .ret r) => r = 0 ∧ Appended s s' ev time ∨ r < 0 ∧ s'.evTree = s.evTree ∧ s'.items = s.items
  | _ => False

/-- The call is refused, or it gets the memory that it needs. -/
def Enough (allocs : Allocs) (s : State δ) (ev : CsEvent δ) (time : Int) : Prop :=
  ev.etype = none ∨ allocs.item = true ∧
    ((s.evTree.find? time).isSome = true ∨ allocs.record = true ∧ allocs.node = true)

inductive AllocOp (δ : Type) where
  | schedule (ev : CsEvent δ) (time : Int) (allocs : Allocs)
  | popEvents (time : Int)

/-- An operation that follows a null pointer has no result. -/
def allocStep (s : State δ) : AllocOp δ → Option (State δ)
  | .schedule ev time allocs => match csEvmScheduleEventWith allocs s ev time with
      | (_, .fault) => none
      | (s', _) => some s'
  | .popEvents time => some (popEvents s time).1

/-- The calls of the run get the memory that they need. -/
def Supplied (s : State δ) : AllocOp δ → Prop
  | .schedule ev time allocs => Enough allocs s ev time
  | .popEvents _ => True

def allocSystem (δ : Type) : Lts.System (State δ) (AllocOp δ) := .ofFn (· = init δ) allocStep

section Calls

variable {s : State δ} {m : Timeline δ} {ev : CsEvent δ} {time : Int} {allocs : Allocs}

/-- With the memory that it needs the call does what it does with all. -/
theorem scheduleWith_enough (h : Enough allocs s ev time) :
    csEvmScheduleEventWith allocs s ev time = csEvmScheduleEvent s ev time := by
  unfold csEvmScheduleEventWith csEvmScheduleEvent
  rcases h with hrefused | ⟨hitem, hrest⟩
  · rw [if_pos hrefused, if_pos hrefused]
  · simp only [hitem, if_true]
    congr 1
    cases hfind : (newEvListItem s ev).evTree.find? time with
    | none =>
        have hnone : s.evTree.find? time = none := hfind
        rw [hnone] at hrest
        obtain ⟨hrecord, hnode⟩ : allocs.record = true ∧ allocs.node = true := by simpa using hrest
        simp only [hrecord, hnode, if_true, rbInsert]
    | some found => cases htail : found.tail <;> simp only [htail]

/-- A tree in which an event is appended has a list with an item for its time. -/
theorem Appended.list {s' : State δ} (h : Appended s s' ev time) :
    ∃ l, s'.evTree.find? time = some l ∧ l.tail ≠ none := by
  obtain ⟨m, -, cells, hlayout⟩ := h
  cases hfind : s'.evTree.find? time with
  | none =>
      have hnone := (hlayout.absent time hfind).1
      simp [Timeline.schedule] at hnone
  | some l =>
      have hheld := hlayout.held time l hfind
      refine ⟨l, rfl, ?_⟩
      rw [hheld.tail]
      simpa using hheld.cells_ne_nil

/-- A new list without its item, or without its node, does not hold the event. -/
theorem not_appended_new (hfind : s.evTree.find? time = none) {s' : State δ} (newItem : Option Addr)
    (hshort : newItem = none ∨ allocs.node = false)
    (htree : s'.evTree = rbInsert allocs.node s.evTree
      { newEvList time with head := newItem, tail := newItem, count := 1 }) : ¬ Appended s s' ev time := by
  intro happ
  obtain ⟨l, hl, htail⟩ := happ.list
  rw [htree, rbInsert] at hl
  cases hnode : allocs.node with
  | false =>
      rw [hnode, if_neg Bool.false_ne_true, hfind] at hl
      cases hl
  | true =>
      rw [hnode, if_pos rfl] at hl
      have hnew := OrdTable.find?_insert_self (t := s.evTree)
        (x := { newEvList time with head := newItem, tail := newItem, count := 1 }) hfind
      obtain rfl := Option.some.inj (hl.symm.trans hnew)
      rcases hshort with hitem | hno
      · exact htail hitem
      · rw [hnode] at hno
        cases hno

/-- **One call**, in any tree that represents a timeline. -/
theorem atomic_iff_enough (h : Represents s m) :
    Atomic s ev time (csEvmScheduleEventWith allocs s ev time) ↔ Enough allocs s ev time := by
  constructor
  · intro hatomic
    by_contra hshort
    obtain ⟨hetype, hshort⟩ := not_or.1 hshort
    unfold csEvmScheduleEventWith at hatomic
    rw [if_neg hetype] at hatomic
    have htree : (if allocs.item then newEvListItem s ev else s).evTree = s.evTree := by
      split <;> rfl
    cases hfind : s.evTree.find? time with
    | none =>
        rw [hfind] at hshort
        simp only [htree, hfind] at hatomic
        cases hrecord : allocs.record with
        | false =>
            rw [hrecord] at hatomic
            exact hatomic
        | true =>
            simp only [hrecord, if_true] at hatomic
            rcases hatomic with ⟨-, happ⟩ | ⟨hneg, -⟩
            · have hlost : (if allocs.item then some s.brk else none) = none ∨ allocs.node = false := by
                cases hitem : allocs.item with
                | false => exact Or.inl rfl
                | true => exact Or.inr (by simpa [hitem, hrecord] using hshort)
              exact not_appended_new hfind _ hlost rfl happ
            · exact absurd hneg (by decide)
    | some found =>
        have hitem : allocs.item = false := by
          rw [hfind] at hshort
          simpa using hshort
        simp only [hitem, Bool.false_eq_true, if_false, hfind] at hatomic
        cases htail : found.tail <;> rw [htail] at hatomic <;> exact hatomic
  · intro henough
    rw [scheduleWith_enough henough]
    by_cases hetype : ev.etype = none
    · rw [csEvmScheduleEvent, if_pos hetype]
      exact Or.inr ⟨by decide, rfl, rfl⟩
    · obtain ⟨cells, hlayout⟩ := h
      obtain ⟨t, hs, ht⟩ := hlayout.schedule hetype time
      rw [hs]
      exact Or.inl ⟨rfl, m, ⟨cells, hlayout⟩, ⟨_, ht⟩⟩

/-- A step that gets its memory keeps the tree a timeline. -/
theorem allocStep_represents (h : Represents s m) {op : AllocOp δ} (hok : Supplied s op) {s' : State δ}
    (hs : allocStep s op = some s') : ∃ m', Represents s' m' := by
  cases op with
  | popEvents time =>
      cases hs
      obtain ⟨cells, hlayout⟩ := h
      exact ⟨_, _, hlayout.pop time⟩
  | schedule ev time allocs =>
      simp only [allocStep, scheduleWith_enough hok] at hs
      by_cases hetype : ev.etype = none
      · rw [csEvmScheduleEvent, if_pos hetype] at hs
        cases hs
        exact ⟨m, h⟩
      · obtain ⟨cells, hlayout⟩ := h
        obtain ⟨t, ht, hrep⟩ := hlayout.schedule hetype time
        rw [ht] at hs
        cases hs
        exact ⟨_, _, hrep⟩

end Calls

theorem reachable_represents {s : State δ} (h : Lts.ReachableIf (allocSystem δ) Supplied s) : ∃ m, Represents s m := by
  refine h.invariant (I := fun s => ∃ m, Represents s m) (fun s hs => ?_) ?_
  · obtain rfl := hs
    exact ⟨_, init_represents⟩
  · rintro s op s' ⟨m, hm⟩ hok hs
    exact allocStep_represents hm hok hs

/-- **Scheduling is atomic** exactly where a call gets the memory that it needs: in every run of such calls every
tree represents a timeline, and the next call, whatever memory it gets, appends its event or changes nothing if
and only if it is refused, or gets its item and, for a new time, both the record and the node. -/
theorem schedule_atomic_iff (s : State δ) (h : Lts.ReachableIf (allocSystem δ) Supplied s) (ev : CsEvent δ) (time : Int)
    (allocs : Allocs) :
    (∃ m, Represents s m) ∧
      (Atomic s ev time (csEvmScheduleEventWith allocs s ev time) ↔ Enough allocs s ev time) := by
  obtain ⟨m, hm⟩ := reachable_represents h
  exact ⟨⟨m, hm⟩, atomic_iff_enough hm⟩

/-- An event for tick 3. -/
def oneList : State Nat := (csEvmScheduleEvent (init Nat) ⟨some "tick", 0⟩ 3).1

theorem oneList_supplied : Lts.ReachableIf (allocSystem Nat) Supplied oneList :=
  .tail (a := .schedule ⟨some "tick", 0⟩ 3 ⟨true, true, true⟩) (.of_init rfl) (Or.inr ⟨rfl, Or.inr ⟨rfl, rfl⟩⟩) rfl

/-- The list of the time is there: its next event needs neither a record nor a node, and one for another time
needs both. -/
theorem schedule_atomic_iff_second :
    Atomic oneList ⟨some "tock", 1⟩ 3 (csEvmScheduleEventWith ⟨true, false, false⟩ oneList ⟨some "tock", 1⟩ 3) ∧
      ¬ Atomic oneList ⟨some "tock", 1⟩ 4 (csEvmScheduleEventWith ⟨true, true, false⟩ oneList ⟨some "tock", 1⟩ 4) := by
  obtain ⟨-, hthere⟩ := schedule_atomic_iff oneList oneList_supplied ⟨some "tock", 1⟩ 3 ⟨true, false, false⟩
  obtain ⟨-, hnew⟩ := schedule_atomic_iff oneList oneList_supplied ⟨some "tock", 1⟩ 4 ⟨true, true, false⟩
  refine ⟨hthere.2 (Or.inr ⟨rfl, Or.inl (by decide)⟩), fun hatomic => ?_⟩
  rcases hnew.1 hatomic with hrefused | ⟨-, hlist | ⟨-, hnode⟩⟩
  · cases hrefused
  · revert hlist
    decide
  · cases hnode

/-- Without an item the call returns 0, and the list of the time has none and the count 1. Without a node it
returns 0, and the tree has no list. Without a record it follows a null pointer. -/
theorem schedule_not_atomic :
    let without := fun allocs => csEvmScheduleEventWith allocs (init Nat) ⟨some "tick", 0⟩ 3
    ((without ⟨false, true, true⟩).2 = .ret 0 ∧
      (without ⟨false, true, true⟩).1.evTree.items.map (fun l => (l.head, l.tail, l.count)) = [(none, none, 1)] ∧
      ¬ Atomic (init Nat) ⟨some "tick", 0⟩ 3 (without ⟨false, true, true⟩)) ∧
    ((without ⟨true, true, false⟩).2 = .ret 0 ∧ (without ⟨true, true, false⟩).1.evTree.items.length = 0 ∧
      ¬ Atomic (init Nat) ⟨some "tick", 0⟩ 3 (without ⟨true, true, false⟩)) ∧
    (without ⟨true, false, true⟩).2 = .fault := by
  refine ⟨⟨rfl, rfl, fun hatomic => ?_⟩, ⟨rfl, rfl, fun hatomic => ?_⟩, rfl⟩
  · have henough := (atomic_iff_enough init_represents).1 hatomic
    simp [Enough] at henough
  · have henough := (atomic_iff_enough init_represents).1 hatomic
    simp [Enough, init, OrdTable.find?] at henough

end ComplexSim.EventMemory
