import ComplexSim.Rb.Runs
import ComplexSim.Workerpool.Results

/-!
# The table of results in memory (`src/cs_workerpool.c` over `avl-2.0/src/rb.c`)

The task records and what goes with them are on one heap, the nodes of `tsk_res_table`, which points to the records,
in the memory of the table. The queue and the workers have pointers to the records of the tasks that are not complete. One
operation on a pool after the other, as for the table of results; allocations succeed.

Whatever ids are asked for, the memory answers as the table of results does (`results_in_memory`), and a worker writes
to no record that is gone. The table does not own the records: at the end of a pool those of results that nobody has
popped are lost (`unpopped_tasks_are_lost`).
-/

namespace ComplexSim.ResultStore

open Workerpool (TskStatus PoolStatus CsWpTskRes)
open Workerpool.ResultTable (TskRecord Op Answer)
open Rb (RbCompare RbTable CompareBy Models rbCreate rbFind rbInsert rbDelete rbDestroy)

abbrev Addr := Nat

variable {δ : Type}

inductive Cell (δ : Type) where
  /-- `_cs_wp_tsk`, with its `tsk_mutex` -/
  | tsk (r : TskRecord δ) (tskMutex : Option Addr)
  /-- `pthread_mutex_t` -/
  | mutex
  /-- `pthread_mutexattr_t` -/
  | mutexattr
  /-- a copy of a result, which the caller has to free -/
  | res (r : CsWpTskRes δ)

/-- A pointer to a task record, with what nothing changes there. -/
structure TskPtr where
  tskId : Int
  addr : Addr
  tskMutex : Addr
  deriving DecidableEq

/-- The memory of a record. -/
def TskPtr.cells (x : TskPtr) : List Addr := [x.addr, x.tskMutex]

/-- A pool, as far as results are concerned. -/
structure State (δ : Type) where
  heap : Heap (Cell δ)
  status : PoolStatus
  /-- the last value of `_cs_wp_new_tsk_id` -/
  lastId : Int
  tskResTable : RbTable TskPtr
  /-- the pointers that the queue and the workers have -/
  inFlight : List Addr
  /-- the copies of results that the callers have -/
  results : List Addr
  /-- a null pointer was followed, or an assertion has failed -/
  crashed : Bool

/-- `_cs_wp_cmp_tsk`. -/
def csWpCmpTsk : RbCompare TskPtr := fun ts1 ts2 =>
  if ts2.tskId < ts1.tskId then 1 else if ts1.tskId < ts2.tskId then -1 else 0

/-- The record `dummy_tsk` on the stack, of which only the id is set. -/
def dummyTsk (id : Int) : TskPtr := { tskId := id, addr := 0, tskMutex := 0 }

/-- A pool that works and has no task. -/
def init (δ : Type) : Option (State δ) :=
  (rbCreate TskPtr true).map fun table =>
    { heap := .empty _, status := .working, lastId := 0, tskResTable := table, inFlight := [], results := [],
      crashed := false }

def readTsk (h : Heap (Cell δ)) (a : Addr) : Option (TskRecord δ × Option Addr) :=
  match h.cells a with
  | some (.tsk r m) => some (r, m)
  | _ => none

def readRes (h : Heap (Cell δ)) (a : Addr) : Option (CsWpTskRes δ) :=
  match h.cells a with
  | some (.res r) => some r
  | _ => none

/-- `cs_make_recursive_mutex`. -/
def csMakeRecursiveMutex (h : Heap (Cell δ)) : Option (Heap (Cell δ) × Addr) := do
  let (h, m) := h.alloc .mutex
  let (h, attr) := h.alloc .mutexattr
  let h ← h.free attr
  some (h, m)

/-- A task that waits, with no token at its semaphore. -/
def newTsk (id : Int) : TskRecord δ := { tskId := id, status := .waiting, tskRes := ⟨.success, none⟩, taskSem := 0 }

/-- `cs_wp_tsk_enqueue`. -/
def csWpTskEnqueue (s : State δ) (others : Nat) : Option (State δ × Answer δ) :=
  if s.status ≠ .working then some (s, .id (-1))
  else do
    let id := s.lastId + others + 1
    let (h, tsk) := s.heap.alloc (.tsk (newTsk id) none)
    let (h, mutex) ← csMakeRecursiveMutex h
    let h ← h.write tsk (.tsk (newTsk id) (some mutex))
    let x : TskPtr := { tskId := id, addr := tsk, tskMutex := mutex }
    -- an `int`
    let oldCount := Int.bmod s.tskResTable.rbCount (2 ^ 32)
    let found ← rbFind csWpCmpTsk s.tskResTable x
    if found.isSome then none
    else
      let (table, _) ← rbInsert csWpCmpTsk true s.tskResTable x
      if (table.rbCount : Int) ≠ oldCount + 1 then none
      else
        let found ← rbFind csWpCmpTsk table x
        if found.isNone then none
        else some ({ s with heap := h, lastId := id, tskResTable := table, inFlight := s.inFlight ++ [tsk] }, .id id)

/-- A worker that has the pointer to the task performs it; the inner `none` is that no such task is there. -/
def complete (s : State δ) (id : Int) (res : CsWpTskRes δ) : Option (Option (State δ × Answer δ)) :=
  match s.inFlight.find? fun a => (readTsk s.heap a).any fun r => r.1.tskId = id with
  | none => some none
  | some tsk => do
      let (r, m) ← readTsk s.heap tsk
      let h ← s.heap.write tsk (.tsk (r.finish res) m)
      some (some ({ s with heap := h, inFlight := s.inFlight.erase tsk }, .done))

/-- `cs_wp_tsk_wait`; the inner `none` is that it blocks. -/
def csWpTskWait (s : State δ) (id : Int) : Option (Option (State δ)) := do
  match ← rbFind csWpCmpTsk s.tskResTable (dummyTsk id) with
  | none => some (some s)
  | some found =>
      let (r, m) ← readTsk s.heap found.addr
      if r.status = .done then some (some s)
      else if 0 < r.taskSem then
        let h ← s.heap.write found.addr (.tsk r.wait m)
        some (some { s with heap := h })
      else some none

/-- `_cs_wp_get_tsk_res_copy`, and what the caller reads there. -/
def csWpGetTskResCopy (s : State δ) (found : Addr) : Option (State δ × CsWpTskRes δ) := do
  let (r, _) ← readTsk s.heap found
  let (h, copy) := s.heap.alloc (.res r.tskRes)
  let res ← readRes h copy
  some ({ s with heap := h, results := copy :: s.results }, res)

/-- `cs_wp_tsk_get_res`. -/
def csWpTskGetRes (s : State δ) (id : Int) : Option (Option (State δ × Answer δ)) := do
  match ← csWpTskWait s id with
  | none => some none
  | some s =>
      match ← rbFind csWpCmpTsk s.tskResTable (dummyTsk id) with
      | none => some (some (s, .res none))
      | some found =>
          let (s, res) ← csWpGetTskResCopy s found.addr
          some (some (s, .res (some res)))

/-- `_cs_wp_tsk_destroy`. -/
def csWpTskDestroy (h : Heap (Cell δ)) (task : Addr) : Option (Heap (Cell δ)) := do
  let (_, m) ← readTsk h task
  let h ← h.free (← m)
  h.free task

/-- `cs_wp_tsk_pop_res`. -/
def csWpTskPopRes (s : State δ) (id : Int) : Option (Option (State δ × Answer δ)) := do
  match ← csWpTskWait s id with
  | none => some none
  | some s =>
      let (table, found) ← rbDelete csWpCmpTsk s.tskResTable (dummyTsk id)
      -- an id that is not found is reported, and the null pointer followed
      let found ← found
      let (s, res) ← csWpGetTskResCopy { s with tskResTable := table } found.addr
      let h ← csWpTskDestroy s.heap found.addr
      some (some ({ s with heap := h }, .res (some res)))

/-- A fault ends the process. -/
def settle (s : State δ) : Option (Option (State δ × Answer δ)) → Option (State δ × Answer δ)
  | none => some ({ s with crashed := true }, .fault)
  | some r => r

def step (s : State δ) (op : Op δ) : Option (State δ × Answer δ) :=
  if s.crashed then none
  else match op with
    | .setStatus st => some ({ s with status := st }, .done)
    | .enqueue others => settle s ((csWpTskEnqueue s others).map some)
    | .complete id res => settle s (complete s id res)
    | .getRes id => settle s (csWpTskGetRes s id)
    | .popRes id => settle s (csWpTskPopRes s id)

/-- `rb_destroy(tsk_res_table, NULL)`. -/
def destroyTable (s : State δ) : Option (State δ) := do
  let (table, _) ← rbDestroy s.tskResTable
  some { s with tskResTable := table }

/-- The pool with the table of results as an ordered map. -/
abbrev Pool (δ : Type) := Workerpool.ResultTable.State δ

/-- The pointer leads to the record `r`, and the record to its mutex. -/
structure Tells (h : Heap (Cell δ)) (x : TskPtr) (r : TskRecord δ) : Prop where
  tskId : x.tskId = r.tskId
  cell : h.cells x.addr = some (.tsk r (some x.tskMutex))
  mutex : h.cells x.tskMutex = some .mutex

/-- At the address there is the record of a task that is not complete. -/
def Waits (h : Heap (Cell δ)) (a : Addr) : Prop := ∃ r m, h.cells a = some (.tsk r m) ∧ r.status = .waiting

/-- The memory holds the records of the table of `t`, and `o` is the table in the memory of its nodes. -/
structure Layout (s : State δ) (o : OrdTable TskPtr.tskId) (t : Pool δ) : Prop where
  running : s.crashed = false ∧ t.crashed = false
  status : s.status = t.status
  lastId : s.lastId = t.lastId
  table : Models TskPtr.tskId s.tskResTable o
  alike : OrdTable.Alike (Tells s.heap) o t.tskResTable
  owned : s.heap.Owned (o.items.flatMap TskPtr.cells ++ s.results)
  copies : ∀ a ∈ s.results, ∃ r, s.heap.cells a = some (.res r)
  /-- ids are new -/
  fresh : ∀ x ∈ o.items, x.tskId ≤ s.lastId
  /-- a task that is not complete has no token -/
  sem : ∀ r ∈ t.tskResTable.items, r.status = .waiting → r.taskSem = 0
  flight : ∀ a, a ∈ s.inFlight ↔ ∃ x ∈ o.items, x.addr = a ∧ Waits s.heap a
  once : s.inFlight.Nodup

/-- The memory of a pool represents a table of results; after a crash there is nothing to represent. -/
def Represents (s : State δ) (t : Pool δ) : Prop := s.crashed = true ∧ t.crashed = true ∨ ∃ o, Layout s o t

/-- The table fits the arrays of `rb.c`. -/
def Fits (t : Pool δ) (_ : Op δ) : Prop := t.tskResTable.count < 2 ^ 25 - 2

instance (t : Pool δ) (op : Op δ) : Decidable (Fits t op) := Nat.decLt _ _

theorem csWpCmpTsk_by : CompareBy csWpCmpTsk TskPtr.tskId := by
  constructor
  · intro x y
    unfold csWpCmpTsk
    split
    · omega
    · split <;> omega
  · intro x y
    unfold csWpCmpTsk
    split
    · omega
    · split <;> omega

theorem init_represents {s : State δ} (h : init δ = some s) : Represents s (Workerpool.ResultTable.init δ) := by
  obtain ⟨table, hnew, rfl⟩ := Option.map_eq_some_iff.1 h
  refine Or.inr ⟨.empty, ⟨rfl, rfl⟩, rfl, rfl, Rb.rbCreate_models hnew, .nil, Heap.owned_empty, ?_, ?_, ?_,
    fun a => ?_, List.nodup_nil⟩
  · simp
  · simp
  · simp [Workerpool.ResultTable.init]
  · simp

section Records

variable {s : State δ} {o : OrdTable TskPtr.tskId} {t : Pool δ} {x y : TskPtr} {r : TskRecord δ} {h : Heap (Cell δ)}
  {a : Addr}

theorem readTsk_eq {m : Option Addr} (hc : h.cells a = some (.tsk r m)) : readTsk h a = some (r, m) := by
  unfold readTsk
  rw [hc]

theorem waits_iff {m : Option Addr} (hc : h.cells a = some (.tsk r m)) : Waits h a ↔ r.status = .waiting := by
  constructor
  · rintro ⟨r', m', hc', hstatus⟩
    rw [hc] at hc'
    cases hc'
    exact hstatus
  · exact fun hstatus => ⟨r, m, hc, hstatus⟩

theorem waits_congr {h' : Heap (Cell δ)} (hkeep : h'.cells a = h.cells a) : Waits h' a ↔ Waits h a := by
  unfold Waits
  rw [hkeep]

theorem mem_cells (hx : x ∈ o.items) (ha : a ∈ x.cells) (l : List Addr) : a ∈ o.items.flatMap TskPtr.cells ++ l :=
  List.mem_append_left l (List.mem_flatMap.2 ⟨x, hx, ha⟩)

theorem addr_mem_cells (hx : x ∈ o.items) (l : List Addr) : x.addr ∈ o.items.flatMap TskPtr.cells ++ l :=
  mem_cells hx List.mem_cons_self l

theorem Tells.keep {h' : Heap (Cell δ)} (htells : Tells h x r) (hkeep : ∀ a ∈ x.cells, h'.cells a = h.cells a) :
    Tells h' x r where
  tskId := htells.tskId
  cell := (hkeep _ List.mem_cons_self).trans htells.cell
  mutex := (hkeep _ (List.mem_cons_of_mem _ List.mem_cons_self)).trans htells.mutex

/-- Two records are at two addresses. -/
theorem Layout.eq_of_addr (hl : Layout s o t) (hx : x ∈ o.items) (hy : y ∈ o.items) (haddr : x.addr = y.addr) :
    x = y := by
  have hapart := (List.nodup_flatMap.1 (List.nodup_append.1 hl.owned.nodup).1).2
  have hsymm : Std.Symm fun a b : TskPtr => a.addr = b.addr → a = b := ⟨fun _ _ hab he => (hab he.symm).symm⟩
  refine List.Pairwise.forall_of_forall (R := fun a b : TskPtr => a.addr = b.addr → a = b)
    (fun _ _ _ => rfl) (hapart.imp fun {a b} hab he => ?_) hx hy haddr
  have ha : a.addr ∈ a.cells := List.mem_cons_self
  have hb : a.addr ∈ b.cells := he ▸ List.mem_cons_self
  exact absurd hb (hab ha)

/-- What the memory finds by an id is what the table finds. -/
theorem Layout.found (hl : Layout s o t) (id : Int) : Option.Rel (Tells s.heap) (o.find? id) (t.tskResTable.find? id) :=
  hl.alike.find? (fun _ _ htells => htells.tskId) id

theorem Layout.rbFind_eq (hl : Layout s o t) (id : Int) :
    rbFind csWpCmpTsk s.tskResTable (dummyTsk id) = some (o.find? id) :=
  Rb.rbFind_eq csWpCmpTsk_by (dummyTsk id) hl.table

/-- The tasks in flight are those that are not complete. -/
theorem Layout.flight_iff (hl : Layout s o t) (hx : x ∈ o.items) (htells : Tells s.heap x r) :
    x.addr ∈ s.inFlight ↔ r.status = .waiting := by
  rw [hl.flight, ← waits_iff htells.cell]
  constructor
  · rintro ⟨y, -, -, hwaits⟩
    exact hwaits
  · exact fun hwaits => ⟨x, hx, rfl, hwaits⟩

end Records

section Operations

variable {s : State δ} {o : OrdTable TskPtr.tskId} {t : Pool δ} {id : Int}

/-- `cs_wp_tsk_wait` changes nothing: it waits for a task that is not complete, and for no other. -/
theorem Layout.wait (hl : Layout s o t) (id : Int) :
    csWpTskWait s id = some none ∧ Workerpool.ResultTable.csWpTskWait t id = none ∨
      csWpTskWait s id = some (some s) ∧ Workerpool.ResultTable.csWpTskWait t id = some t ∧
        ∀ r, t.tskResTable.find? id = some r → r.status = .done := by
  have hrel := hl.found id
  unfold csWpTskWait Workerpool.ResultTable.csWpTskWait
  rw [hl.rbFind_eq id]
  generalize o.find? id = p, hfind : t.tskResTable.find? id = q at hrel
  cases hrel with
  | none => exact Or.inr ⟨rfl, rfl, fun r hr => by cases hr⟩
  | @some x r htells =>
      simp only [Option.bind_eq_bind, Option.bind_some, readTsk_eq htells.cell]
      cases hstatus : r.status with
      | done =>
          refine Or.inr ⟨rfl, rfl, fun r' hr' => ?_⟩
          rw [← Option.some.inj hr']
          exact hstatus
      | waiting =>
          have hsem := hl.sem r (OrdTable.find?_eq_some.1 hfind).1 hstatus
          rw [hsem]
          exact Or.inl ⟨rfl, rfl⟩

/-- A worker finds the record of its task, and completes it. -/
theorem Layout.complete (hl : Layout s o t) (id : Int) (res : CsWpTskRes δ) :
    complete s id res = some none ∧ Workerpool.ResultTable.complete t id res = none ∨
      ∃ s' t', complete s id res = some (some (s', .done)) ∧
        Workerpool.ResultTable.complete t id res = some (t', .done) ∧ Layout s' o t' := by
  unfold ResultStore.complete Workerpool.ResultTable.complete
  cases hflight : s.inFlight.find? fun a => (readTsk s.heap a).any fun r => r.1.tskId = id with
  | none =>
      refine Or.inl ⟨rfl, ?_⟩
      have hrel := hl.found id
      generalize hfind : o.find? id = p, t.tskResTable.find? id = q at hrel
      cases hrel with
      | none => rfl
      | @some x r htells =>
          obtain ⟨hx, hid⟩ := OrdTable.find?_eq_some.1 hfind
          apply if_neg
          intro hwaiting
          have hother := List.find?_eq_none.1 hflight x.addr ((hl.flight_iff hx htells).2 hwaiting)
          rw [readTsk_eq htells.cell] at hother
          exact hother (by simpa using htells.tskId.symm.trans hid)
  | some a =>
      have hmem := List.mem_of_find?_eq_some hflight
      have hread := List.find?_some hflight
      obtain ⟨x, hx, rfl, -⟩ := (hl.flight a).1 hmem
      obtain ⟨r, hr, htells⟩ := hl.alike.mem_left hx
      have hwaiting := (hl.flight_iff hx htells).1 hmem
      rw [readTsk_eq htells.cell] at hread
      have hid : r.tskId = id := by simpa using hread
      have hfind : t.tskResTable.find? id = some r := OrdTable.find?_eq_some.2 ⟨hr, hid⟩
      obtain ⟨h', hwrite⟩ := hl.owned.exists_write (addr_mem_cells hx _) (.tsk (r.finish res) (some x.tskMutex))
      obtain ⟨hself, hother, -, -⟩ := Heap.write_spec hwrite
      refine Or.inr ⟨{ s with heap := h', inFlight := s.inFlight.erase x.addr },
        { t with tskResTable := t.tskResTable.modify id (TskRecord.finish res) (TskRecord.finish_tskId res) }, ?_, ?_,
        hl.running, hl.status, hl.lastId, hl.table, ?_, hl.owned.write hwrite, fun a ha => ?_, hl.fresh, ?_,
        fun a => ?_, hl.once.erase _⟩
      · simp only [readTsk_eq htells.cell, Option.bind_eq_bind, Option.bind_some, hwrite]
      · rw [hfind]
        exact if_pos hwaiting
      · refine hl.alike.modify (TskRecord.finish_tskId res) fun y hy q hyq => ?_
        have hmutex : h'.cells y.tskMutex = some .mutex := by
          rw [hother, hyq.mutex]
          intro haddr
          have hcell := hyq.mutex
          rw [haddr, htells.cell] at hcell
          cases hcell
        by_cases hkey : q.tskId = id
        · obtain rfl : y = x := o.eq_of_key hy hx (hyq.tskId.trans (hkey.trans (htells.tskId.trans hid).symm))
          obtain rfl : q = r := (Cell.tsk.inj (Option.some.inj (hyq.cell.symm.trans htells.cell))).1
          rw [if_pos hkey]
          exact ⟨htells.tskId, hself, hmutex⟩
        · rw [if_neg hkey]
          refine ⟨hyq.tskId, (hother _ ?_).trans hyq.cell, hmutex⟩
          intro haddr
          rw [hl.eq_of_addr hy hx haddr] at hyq
          exact hkey (hyq.tskId.symm.trans (htells.tskId.trans hid))
      · obtain ⟨r', hr'⟩ := hl.copies a ha
        refine ⟨r', (hother a ?_).trans hr'⟩
        rintro rfl
        rw [htells.cell] at hr'
        cases hr'
      · intro q hq hstatus
        obtain ⟨q', hq', rfl⟩ := List.mem_map.1 hq
        by_cases hkey : q'.tskId = id
        · rw [if_pos hkey] at hstatus
          cases hstatus
        · rw [if_neg hkey] at hstatus ⊢
          exact hl.sem q' hq' hstatus
      · show a ∈ s.inFlight.erase x.addr ↔ _
        rw [hl.once.mem_erase_iff, hl.flight]
        by_cases hax : a = x.addr
        · have hdone : ¬ Waits h' a := by
            rw [hax, waits_iff hself]
            intro hstatus
            cases hstatus
          simp [hax ▸ hdone, hax]
        · simp only [ne_eq, hax, not_false_eq_true, true_and, waits_congr (hother a hax)]

/-- A caller gets a copy of a result. -/
theorem Layout.copy (hl : Layout s o t) (res : CsWpTskRes δ) :
    Layout { s with heap := (s.heap.alloc (.res res)).1, results := s.heap.brk :: s.results } o t := by
  have hkeep : ∀ a, a < s.heap.brk → (s.heap.alloc (.res res)).1.cells a = s.heap.cells a :=
    fun a ha => Heap.alloc_cells_of_ne (Nat.ne_of_lt ha)
  have hlt : ∀ x ∈ o.items, x.addr < s.heap.brk := fun x hx => hl.owned.lt (addr_mem_cells hx _)
  refine ⟨hl.running, hl.status, hl.lastId, hl.table, ?_, (hl.owned.alloc _).perm List.perm_middle.symm, fun a ha => ?_,
    hl.fresh, hl.sem, fun a => ?_, hl.once⟩
  · exact hl.alike.imp fun x hx r htells => htells.keep fun a ha => hkeep a (hl.owned.lt (mem_cells hx ha _))
  · rcases List.mem_cons.1 ha with rfl | ha
    · exact ⟨res, Heap.alloc_cells_self⟩
    · obtain ⟨r, hr⟩ := hl.copies a ha
      exact ⟨r, (hkeep a (hl.owned.lt (List.mem_append_right _ ha))).trans hr⟩
  · rw [hl.flight]
    constructor
    · rintro ⟨x, hx, rfl, hwaits⟩
      exact ⟨x, hx, rfl, (waits_congr (hkeep _ (hlt x hx))).2 hwaits⟩
    · rintro ⟨x, hx, rfl, hwaits⟩
      exact ⟨x, hx, rfl, (waits_congr (hkeep _ (hlt x hx))).1 hwaits⟩

end Operations

section Creation

variable {s : State δ} {o : OrdTable TskPtr.tskId} {t : Pool δ} {id : Int}

/-- The attributes of a mutex are gone when it is made. -/
theorem csMakeRecursiveMutex_eq {h : Heap (Cell δ)} {l : List Addr} (ho : h.Owned l) :
    ∃ h', csMakeRecursiveMutex h = some (h', h.brk) ∧ h'.Owned (h.brk :: l) ∧ h'.cells h.brk = some .mutex ∧
      ∀ a, a < h.brk → h'.cells a = h.cells a := by
  obtain ⟨hfree, howned⟩ := ((ho.alloc .mutex).alloc .mutexattr).free
  refine ⟨_, ?_, howned, ?_, fun a ha => ?_⟩
  · simp only [csMakeRecursiveMutex, Heap.alloc_snd, Option.bind_eq_bind, hfree, Option.bind_some]
  · rw [Heap.without_cells_of_notMem, Heap.alloc_cells_of_ne, Heap.alloc_cells_self]
    · rw [Heap.alloc_brk]
      omega
    · rw [List.mem_singleton, Heap.alloc_brk]
      omega
  · rw [Heap.without_cells_of_notMem, Heap.alloc_cells_of_ne, Heap.alloc_cells_of_ne]
    · exact Nat.ne_of_lt ha
    · rw [Heap.alloc_brk]
      omega
    · rw [List.mem_singleton, Heap.alloc_brk]
      omega

/-- No record has the id that comes next. -/
theorem Layout.new_id (hl : Layout s o t) (n : Nat) :
    o.find? (s.lastId + n + 1) = none ∧ t.tskResTable.find? (s.lastId + n + 1) = none := by
  have hnew : o.find? (s.lastId + n + 1) = none := by
    rw [OrdTable.find?_eq_none]
    intro x hx hid
    have := hl.fresh x hx
    omega
  have hrel := hl.found (s.lastId + n + 1)
  rw [hnew] at hrel
  generalize t.tskResTable.find? (s.lastId + n + 1) = q at hrel
  cases hrel
  exact ⟨hnew, rfl⟩

/-- A new record, with a pointer to it in the table and one in the queue. -/
theorem Layout.insert (hl : Layout s o t) {h' : Heap (Cell δ)} {table : RbTable TskPtr} {n : Nat}
    (htable : Models TskPtr.tskId table (o.insert ⟨s.lastId + n + 1, s.heap.brk, s.heap.brk + 1⟩))
    (howned : h'.Owned ((s.heap.brk + 1) :: s.heap.brk :: (o.items.flatMap TskPtr.cells ++ s.results)))
    (hself : h'.cells s.heap.brk = some (.tsk (newTsk (s.lastId + n + 1)) (some (s.heap.brk + 1))))
    (hmutex : h'.cells (s.heap.brk + 1) = some .mutex) (hkeep : ∀ a, a < s.heap.brk → h'.cells a = s.heap.cells a) :
    Layout { s with heap := h', lastId := s.lastId + n + 1, tskResTable := table, inFlight := s.inFlight ++ [s.heap.brk] }
      (o.insert ⟨s.lastId + n + 1, s.heap.brk, s.heap.brk + 1⟩)
      { t with lastId := s.lastId + n + 1, tskResTable := t.tskResTable.insert (newTsk (s.lastId + n + 1)) } := by
  obtain ⟨hnew, hnew'⟩ := hl.new_id n
  have hlt : ∀ x ∈ o.items, x.addr < s.heap.brk := fun x hx => hl.owned.lt (addr_mem_cells hx _)
  have hmem : ∀ x, x ∈ (o.insert ⟨s.lastId + n + 1, s.heap.brk, s.heap.brk + 1⟩).items ↔ _ := fun x =>
    OrdTable.mem_insert (x := (⟨s.lastId + n + 1, s.heap.brk, s.heap.brk + 1⟩ : TskPtr)) hnew
  refine ⟨hl.running, hl.status, rfl, htable, ?_, ?_, fun a ha => ?_, fun x hx => ?_, fun r hr hstatus => ?_,
    fun a => ?_, ?_⟩
  · refine OrdTable.Alike.insert (fun _ _ htells => htells.tskId) (hl.alike.imp fun x hx r htells => ?_)
      ⟨rfl, hself, hmutex⟩
    exact htells.keep fun a ha => hkeep a (hl.owned.lt (mem_cells hx ha _))
  · have hperm := OrdTable.insert_perm (x := (⟨s.lastId + n + 1, s.heap.brk, s.heap.brk + 1⟩ : TskPtr)) hnew
    apply howned.perm
    refine (List.Perm.swap _ _ _).trans ?_
    exact ((hperm.flatMap_right TskPtr.cells).append_right s.results).symm
  · obtain ⟨r, hr⟩ := hl.copies a ha
    exact ⟨r, (hkeep a (hl.owned.lt (List.mem_append_right _ ha))).trans hr⟩
  · rcases (hmem x).1 hx with rfl | hx
    · exact le_refl _
    · have := hl.fresh x hx
      show x.tskId ≤ s.lastId + n + 1
      omega
  · rcases (OrdTable.mem_insert (x := newTsk (δ := δ) (s.lastId + n + 1)) hnew').1 hr with rfl | hr
    · rfl
    · exact hl.sem r hr hstatus
  · rw [List.mem_append, List.mem_singleton, hl.flight]
    constructor
    · rintro (⟨x, hx, rfl, hwaits⟩ | rfl)
      · exact ⟨x, (hmem x).2 (Or.inr hx), rfl, (waits_congr (hkeep _ (hlt x hx))).2 hwaits⟩
      · exact ⟨_, (hmem _).2 (Or.inl rfl), rfl, (waits_iff hself).2 rfl⟩
    · rintro ⟨x, hx, rfl, hwaits⟩
      rcases (hmem x).1 hx with rfl | hx
      · exact Or.inr rfl
      · exact Or.inl ⟨x, hx, rfl, (waits_congr (hkeep _ (hlt x hx))).1 hwaits⟩
  · apply List.Nodup.append hl.once (List.nodup_singleton _)
    rw [List.disjoint_singleton]
    intro hflight
    obtain ⟨x, hx, haddr, -⟩ := (hl.flight _).1 hflight
    exact absurd haddr (Nat.ne_of_lt (hlt x hx))

/-- The table gets one pointer more, and finds it then. -/
theorem insert_new {s : RbTable TskPtr} {x : TskPtr} (h : Models TskPtr.tskId s o) (hsize : o.count < 2 ^ 25 - 2)
    (hnew : o.find? x.tskId = none) :
    ∃ s', rbFind csWpCmpTsk s x = some none ∧ rbInsert csWpCmpTsk true s x = some (s', none) ∧
      rbFind csWpCmpTsk s' x = some (some x) ∧ s.rbCount < 2 ^ 25 - 2 ∧ s'.rbCount = s.rbCount + 1 ∧
      Models TskPtr.tskId s' (o.insert x) := by
  have hfind := Rb.rbFind_eq csWpCmpTsk_by x h
  obtain ⟨s', hinsert, h'⟩ := Rb.rbInsert_eq csWpCmpTsk_by h hsize true x
  rw [hnew] at hfind hinsert
  rw [if_pos rfl] at h'
  have hfind' := Rb.rbFind_eq csWpCmpTsk_by x h'
  rw [OrdTable.find?_insert_self hnew] at hfind'
  have hcount := h.rbCount_eq (by omega)
  have hcount' := h'.rbCount_eq (by rw [OrdTable.count_insert hnew]; omega)
  rw [OrdTable.count_insert hnew, ← hcount] at hcount'
  exact ⟨s', hfind, hinsert, hfind', by omega, hcount', h'⟩

/-- What the table of results does with a new task. -/
theorem csWpTskEnqueue_eq (hstatus : t.status = .working) {n : Nat}
    (hnew : t.tskResTable.find? (t.lastId + n + 1) = none) :
    Workerpool.ResultTable.csWpTskEnqueue t n =
      ({ t with lastId := t.lastId + n + 1, tskResTable := t.tskResTable.insert (newTsk (t.lastId + n + 1)) },
        .id (t.lastId + n + 1)) := by
  have hcount := OrdTable.count_insert (x := newTsk (δ := δ) (t.lastId + n + 1)) hnew
  have hself := OrdTable.find?_insert_self (x := newTsk (δ := δ) (t.lastId + n + 1)) hnew
  unfold newTsk at hcount hself
  rw [Workerpool.ResultTable.csWpTskEnqueue, if_neg (not_not_intro hstatus)]
  apply if_neg
  simp [hnew, hcount, hself]

theorem Layout.enqueue (hl : Layout s o t) (hsize : t.tskResTable.count < 2 ^ 25 - 2) (others : Nat) :
    ∃ s' o', csWpTskEnqueue s others = some (s', (Workerpool.ResultTable.csWpTskEnqueue t others).2) ∧
      Layout s' o' (Workerpool.ResultTable.csWpTskEnqueue t others).1 := by
  by_cases hstatus : t.status = .working
  swap
  · refine ⟨s, o, ?_, ?_⟩
    · rw [csWpTskEnqueue, hl.status, if_pos hstatus, Workerpool.ResultTable.csWpTskEnqueue, if_pos hstatus]
    · rw [Workerpool.ResultTable.csWpTskEnqueue, if_pos hstatus]
      exact hl
  have hcount := hl.alike.count
  obtain ⟨hnew, hnew'⟩ := hl.new_id others
  obtain ⟨h₁, hmutex, howned₁, hcell₁, hkeep₁⟩ :=
    csMakeRecursiveMutex_eq (hl.owned.alloc (.tsk (newTsk (s.lastId + others + 1)) none))
  obtain ⟨h', hwrite⟩ := howned₁.exists_write (List.mem_cons_of_mem _ List.mem_cons_self)
    (.tsk (newTsk (s.lastId + others + 1)) (some (s.heap.brk + 1)))
  obtain ⟨hself, hother, -, -⟩ := Heap.write_spec hwrite
  obtain ⟨table, hfind, hinsert, hfind', hsmall, hgrown, htable⟩ :=
    insert_new (x := ⟨s.lastId + others + 1, s.heap.brk, s.heap.brk + 1⟩) hl.table (by omega) hnew
  have hmade : h'.cells (s.heap.brk + 1) = some .mutex := (hother _ (Nat.succ_ne_self _)).trans hcell₁
  have hlayout := hl.insert htable (howned₁.write hwrite) hself hmade fun a ha => by
    rw [hother a (Nat.ne_of_lt ha), hkeep₁ a (Nat.lt_succ_of_lt ha), Heap.alloc_cells_of_ne (Nat.ne_of_lt ha)]
  rw [csWpTskEnqueue_eq hstatus (by rw [← hl.lastId]; exact hnew'), ← hl.lastId]
  refine ⟨_, _, ?_, hlayout⟩
  rw [csWpTskEnqueue, hl.status, if_neg (not_not_intro hstatus)]
  have hold : Int.bmod s.tskResTable.rbCount (2 ^ 32) = s.tskResTable.rbCount :=
    Int.bmod_eq_of_le (by omega) (by omega)
  simp only [Option.bind_eq_bind, Option.bind_some, Heap.alloc_snd, hmutex, Heap.alloc_brk, hwrite, hfind, hinsert, hfind',
    hgrown, hold]
  rw [if_neg (by simp), if_neg (by simp), if_neg (by simp)]

end Creation

section Removal

variable {s : State δ} {o : OrdTable TskPtr.tskId} {t : Pool δ} {id : Int}

/-- A record that is complete goes, with its mutex and the pointer to it. -/
theorem Layout.remove (hl : Layout s o t) {x : TskPtr} {r : TskRecord δ} (hfind : o.find? id = some x)
    (htells : Tells s.heap x r) (hdone : r.status = .done) {table : RbTable TskPtr}
    (htable : Models TskPtr.tskId table (o.delete id)) :
    ∃ h', csWpTskDestroy s.heap x.addr = some h' ∧
      Layout { s with heap := h', tskResTable := table } (o.delete id)
        { t with tskResTable := t.tskResTable.delete id } := by
  obtain ⟨hx, hid⟩ := OrdTable.find?_eq_some.1 hfind
  have hperm := ((OrdTable.delete_perm hfind).flatMap_right TskPtr.cells).append_right s.results
  have howned : s.heap.Owned (x.tskMutex :: x.addr :: ((o.delete id).items.flatMap TskPtr.cells ++ s.results)) :=
    hl.owned.perm (hperm.trans (List.Perm.swap _ _ _))
  obtain ⟨hmutex, howned₁⟩ := howned.free
  obtain ⟨hfree, howned₂⟩ := howned₁.free
  have hkeep : ∀ a ∈ (o.delete id).items.flatMap TskPtr.cells ++ s.results,
      ((s.heap.without [x.tskMutex]).without [x.addr]).cells a = s.heap.cells a := by
    intro a ha
    have hapart := howned.nodup
    rw [Heap.without_cells_of_notMem, Heap.without_cells_of_notMem]
    · rw [List.mem_singleton]
      rintro rfl
      exact (List.nodup_cons.1 hapart).1 (List.mem_cons_of_mem _ ha)
    · rw [List.mem_singleton]
      rintro rfl
      exact (List.nodup_cons.1 (List.nodup_cons.1 hapart).2).1 ha
  refine ⟨(s.heap.without [x.tskMutex]).without [x.addr], ?_, hl.running, hl.status, hl.lastId, htable, ?_, howned₂,
    fun a ha => ?_, fun y hy => ?_, fun q hq => ?_, fun a => ?_, hl.once⟩
  · simp only [csWpTskDestroy, readTsk_eq htells.cell, Option.bind_eq_bind, Option.bind_some, hmutex, hfree]
  · refine (hl.alike.delete (fun _ _ htells => htells.tskId) id).imp fun y hy q hyq => ?_
    exact hyq.keep fun a ha => hkeep a (mem_cells hy ha _)
  · obtain ⟨r', hr'⟩ := hl.copies a ha
    exact ⟨r', (hkeep a (List.mem_append_right _ ha)).trans hr'⟩
  · exact hl.fresh y (OrdTable.mem_delete.1 hy).1
  · exact hl.sem q (OrdTable.mem_delete.1 hq).1
  · rw [hl.flight]
    constructor
    · rintro ⟨y, hy, rfl, hwaits⟩
      have hother : y.tskId ≠ id := by
        intro hkey
        obtain rfl : y = x := o.eq_of_key hy hx (hkey.trans hid.symm)
        have hwaiting := (waits_iff htells.cell).1 hwaits
        rw [hdone] at hwaiting
        cases hwaiting
      have hy' : y ∈ (o.delete id).items := OrdTable.mem_delete.2 ⟨hy, hother⟩
      exact ⟨y, hy', rfl, (waits_congr (hkeep _ (addr_mem_cells hy' _))).2 hwaits⟩
    · rintro ⟨y, hy, rfl, hwaits⟩
      exact ⟨y, (OrdTable.mem_delete.1 hy).1, rfl, (waits_congr (hkeep _ (addr_mem_cells hy _))).1 hwaits⟩

end Removal

section Steps

variable {s : State δ} {o : OrdTable TskPtr.tskId} {t : Pool δ}

theorem Layout.represents (hl : Layout s o t) : Represents s t := Or.inr ⟨o, hl⟩

/-- The copy has the result of the record. -/
theorem csWpGetTskResCopy_eq {x : TskPtr} {r : TskRecord δ} (htells : Tells s.heap x r) :
    csWpGetTskResCopy s x.addr =
      some ({ s with heap := (s.heap.alloc (.res r.tskRes)).1, results := s.heap.brk :: s.results }, r.tskRes) := by
  have hread : readRes (s.heap.alloc (.res r.tskRes)).1 s.heap.brk = some r.tskRes := by
    unfold readRes
    rw [Heap.alloc_cells_self]
  simp only [csWpGetTskResCopy, readTsk_eq htells.cell, Option.bind_eq_bind, Option.bind_some, Heap.alloc_snd, hread]

theorem getRes_agree (hl : Layout s o t) (id : Int) :
    Mealy.Agree Represents Eq (settle s (csWpTskGetRes s id)) (Workerpool.ResultTable.csWpTskGetRes t id) := by
  unfold csWpTskGetRes Workerpool.ResultTable.csWpTskGetRes
  rcases hl.wait id with ⟨hwait, hwait'⟩ | ⟨hwait, hwait', -⟩
  · rw [hwait, hwait']
    exact .none
  rw [hwait, hwait']
  have hrel := hl.found id
  simp only [Option.bind_eq_bind, Option.bind_some, Option.map_some, hl.rbFind_eq id]
  generalize o.find? id = p, t.tskResTable.find? id = q at hrel
  cases hrel with
  | none => exact .some rfl hl.represents
  | @some x r htells =>
      simp only [csWpGetTskResCopy_eq htells, Option.bind_some]
      exact .some rfl (hl.copy r.tskRes).represents

theorem popRes_agree (hl : Layout s o t) (hsize : t.tskResTable.count < 2 ^ 25 - 2) (id : Int) :
    Mealy.Agree Represents Eq (settle s (csWpTskPopRes s id)) (Workerpool.ResultTable.csWpTskPopRes t id) := by
  unfold csWpTskPopRes Workerpool.ResultTable.csWpTskPopRes
  rcases hl.wait id with ⟨hwait, hwait'⟩ | ⟨hwait, hwait', hdone⟩
  · rw [hwait, hwait']
    exact .none
  rw [hwait, hwait']
  have hrel := hl.found id
  rw [← hl.alike.count] at hsize
  obtain ⟨table, hdelete, htable⟩ := Rb.rbDelete_eq csWpCmpTsk_by hl.table hsize (dummyTsk id)
  have hdelete : rbDelete csWpCmpTsk s.tskResTable (dummyTsk id) = some (table, o.find? id) := hdelete
  simp only [Option.bind_eq_bind, Option.bind_some, Option.map_some, hdelete]
  generalize hfind : o.find? id = p, hfind' : t.tskResTable.find? id = q at hrel
  cases hrel with
  | none => exact .some rfl (Or.inl ⟨rfl, rfl⟩)
  | @some x r htells =>
      have hcopy := hl.copy r.tskRes
      have htells' : Tells (s.heap.alloc (.res r.tskRes)).1 x r := by
        have hrel := hcopy.found id
        rw [hfind, hfind'] at hrel
        cases hrel
        assumption
      obtain ⟨h', hdestroy, hl'⟩ := hcopy.remove hfind htells' (hdone r hfind') htable
      have hcopied := csWpGetTskResCopy_eq (s := { s with tskResTable := table }) htells
      simp only [Option.bind_some, hcopied, hdestroy]
      exact .some rfl hl'.represents

theorem step_agree (h : Represents s t) (op : Op δ) (hfits : Fits t op) :
    Mealy.Agree Represents Eq (step s op) (Workerpool.ResultTable.step t op) := by
  unfold step Workerpool.ResultTable.step
  obtain ⟨hs, ht⟩ | ⟨o, hl⟩ := h
  · rw [if_pos hs, if_pos ht]
    exact .none
  rw [if_neg (by simp [hl.running.1]), if_neg (by simp [hl.running.2])]
  cases op with
  | setStatus st =>
      refine .some rfl (Or.inr ⟨o, hl.running, rfl, hl.lastId, hl.table, hl.alike, hl.owned, hl.copies, hl.fresh, hl.sem,
        hl.flight, hl.once⟩)
  | enqueue others =>
      obtain ⟨s', o', hrun, hl'⟩ := hl.enqueue hfits others
      simp only [hrun, Option.map_some]
      exact .some rfl hl'.represents
  | complete id res =>
      rcases hl.complete id res with ⟨hrun, hrun'⟩ | ⟨s', t', hrun, hrun', hl'⟩
      · simp only [hrun, hrun']
        exact .none
      · simp only [hrun, hrun']
        exact .some rfl hl'.represents
  | getRes id => exact getRes_agree hl id
  | popRes id => exact popRes_agree hl hfits id

/-- Of the heap each address has been freed, once, or is a copy of a result that a caller has, or is one of the two, its
own and that of its mutex, that a record of `rs` has. -/
structure Lost (s : State δ) (lost : List TskPtr) (rs : List (TskRecord δ)) : Prop where
  records : List.Forall₂ (Tells s.heap) lost rs
  copies : ∀ a ∈ s.results, ∃ r, s.heap.cells a = some (.res r)
  rest : (s.heap.freed ++ (lost.flatMap TskPtr.cells ++ s.results)).Perm (List.range s.heap.brk)

/-- A pool in memory runs as the table of results, from its start on. -/
theorem run_represents (hnew : init δ = some s) {ops : List (Op δ)}
    (hfits : Mealy.Along Fits Workerpool.ResultTable.step (Workerpool.ResultTable.init δ) ops) :
    List.Forall₂ Eq (Mealy.run step s ops).1
        (Mealy.run Workerpool.ResultTable.step (Workerpool.ResultTable.init δ) ops).1 ∧
      Represents (Mealy.run step s ops).2 (Mealy.run Workerpool.ResultTable.step (Workerpool.ResultTable.init δ) ops).2 :=
  Mealy.run_agree (fun _ _ op h hok => step_agree h op hok) (init_represents hnew) hfits

/-- The end of the table frees its nodes, and no record. -/
theorem Layout.destroy (hl : Layout s o t) :
    ∃ s' lost, destroyTable s = some s' ∧ s'.tskResTable.nodes.freed.Perm (List.range s'.tskResTable.nodes.brk) ∧
      Lost s' lost t.tskResTable.items := by
  obtain ⟨table, hdestroy, hnodes, -⟩ := Rb.rbDestroy_eq hl.table
  refine ⟨{ s with tskResTable := table }, o.items, ?_, hnodes, hl.alike, hl.copies, hl.owned.freed_perm⟩
  rw [destroyTable, hdestroy]
  rfl

end Steps

section PiledUp

variable {t t' : Pool δ} {op : Op δ} {a : Answer δ} {ops : List (Op δ)}

/-- The id of a new task. -/
def acceptedId : Answer δ → Option Int
  | .id r => if 0 < r then some r else none
  | _ => none

/-- No result is popped: the engine and the event manager only wait for their tasks. -/
def Unpopped (ops : List (Op δ)) : Prop := ∀ op ∈ ops, ∀ id, op ≠ .popRes id

/-- What a pool has that nobody has popped from: the tasks `ids`. -/
structure Piled (t : Pool δ) (ids : List Int) : Prop where
  running : t.crashed = false
  fresh : ∀ r ∈ t.tskResTable.items, r.tskId ≤ t.lastId
  lastId : 0 ≤ t.lastId
  tasks : (t.tskResTable.items.map TskRecord.tskId).Perm ids

/-- A record is changed where it stands. -/
theorem Piled.modify {ids : List Int} (hp : Piled t ids) {id : Int} {f : TskRecord δ → TskRecord δ}
    (hf : ∀ r, (f r).tskId = r.tskId) : Piled { t with tskResTable := t.tskResTable.modify id f hf } ids := by
  refine ⟨hp.running, fun r hr => ?_, hp.lastId, ?_⟩
  · obtain ⟨q, hq, rfl⟩ := List.mem_map.1 hr
    split
    · rw [hf]
      exact hp.fresh q hq
    · exact hp.fresh q hq
  · have hsame : (t.tskResTable.modify id f hf).items.map TskRecord.tskId =
        t.tskResTable.items.map TskRecord.tskId := by
      show (t.tskResTable.items.map _).map TskRecord.tskId = _
      rw [List.map_map]
      apply List.map_congr_left
      intro r _
      show TskRecord.tskId (if r.tskId = id then f r else r) = r.tskId
      split
      · exact hf r
      · rfl
    rw [hsame]
    exact hp.tasks

theorem Piled.wait {ids : List Int} (hp : Piled t ids) {id : Int}
    (hwait : Workerpool.ResultTable.csWpTskWait t id = some t') : Piled t' ids := by
  unfold Workerpool.ResultTable.csWpTskWait at hwait
  cases hfind : t.tskResTable.find? id with
  | none =>
      simp only [hfind] at hwait
      cases hwait
      exact hp
  | some r =>
      simp only [hfind] at hwait
      split at hwait
      · cases hwait
        exact hp
      · split at hwait
        · cases hwait
          exact hp.modify TskRecord.wait_tskId
        · cases hwait

theorem Piled.step {ids : List Int} (hp : Piled t ids) (hop : ∀ id, op ≠ .popRes id)
    (hstep : Workerpool.ResultTable.step t op = some (t', a)) : Piled t' (ids ++ (acceptedId a).toList) := by
  have hplain : ∀ {u : Pool δ}, Piled u ids → Piled u (ids ++ []) := fun hu => (List.append_nil ids).symm ▸ hu
  unfold Workerpool.ResultTable.step at hstep
  rw [if_neg (by simp [hp.running])] at hstep
  cases op with
  | setStatus st =>
      cases hstep
      exact hplain ⟨hp.running, hp.fresh, hp.lastId, hp.tasks⟩
  | enqueue others =>
      by_cases hstatus : t.status = .working
      · have hnew : t.tskResTable.find? (t.lastId + others + 1) = none := by
          rw [OrdTable.find?_eq_none]
          intro r hr hid
          have := hp.fresh r hr
          omega
        have hlast := hp.lastId
        have hperm := OrdTable.insert_perm (x := newTsk (δ := δ) (t.lastId + others + 1)) hnew
        simp only [csWpTskEnqueue_eq hstatus hnew, Option.some.injEq, Prod.mk.injEq] at hstep
        obtain ⟨rfl, rfl⟩ := hstep
        have haccepted : acceptedId (δ := δ) (.id (t.lastId + others + 1)) = some (t.lastId + others + 1) :=
          if_pos (by omega)
        rw [haccepted]
        refine ⟨hp.running, fun r hr => ?_, ?_, ?_⟩
        · rcases (OrdTable.mem_insert (x := newTsk (δ := δ) (t.lastId + others + 1)) hnew).1 hr with rfl | hr
          · exact le_refl _
          · have := hp.fresh r hr
            show r.tskId ≤ t.lastId + others + 1
            omega
        · show 0 ≤ t.lastId + others + 1
          omega
        · refine (hperm.map TskRecord.tskId).trans ?_
          exact (hp.tasks.cons _).trans (List.perm_append_singleton _ ids).symm
      · simp only [Workerpool.ResultTable.csWpTskEnqueue, ne_eq, hstatus, not_false_eq_true, if_true, Option.some.injEq,
          Prod.mk.injEq] at hstep
        obtain ⟨rfl, rfl⟩ := hstep
        exact hplain hp
  | complete id res =>
      unfold Workerpool.ResultTable.complete at hstep
      cases hfind : t.tskResTable.find? id with
      | none =>
          simp only [hfind] at hstep
          cases hstep
      | some r =>
          simp only [hfind] at hstep
          split at hstep
          · cases hstep
            exact hplain (hp.modify (TskRecord.finish_tskId res))
          · cases hstep
  | getRes id =>
      obtain ⟨u, hwait, hu⟩ := Option.map_eq_some_iff.1 hstep
      have hpiled := hp.wait hwait
      cases hfind : u.tskResTable.find? id with
      | none =>
          rw [hfind] at hu
          cases hu
          exact hplain hpiled
      | some r =>
          rw [hfind] at hu
          cases hu
          exact hplain hpiled
  | popRes id => exact absurd rfl (hop id)

theorem filterMap_acceptedId_cons (a : Answer δ) (l : List (Answer δ)) :
    (a :: l).filterMap acceptedId = (acceptedId a).toList ++ l.filterMap acceptedId := by
  rw [List.filterMap_cons]
  cases acceptedId a <;> rfl

theorem Piled.run (hops : Unpopped ops) {ids : List Int} (hp : Piled t ids) :
    Piled (Mealy.run Workerpool.ResultTable.step t ops).2
      (ids ++ (Mealy.run Workerpool.ResultTable.step t ops).1.filterMap acceptedId) := by
  induction ops generalizing t ids with
  | nil => exact (List.append_nil ids).symm ▸ hp
  | cons op ops ih =>
      unfold Mealy.run
      cases hstep : Workerpool.ResultTable.step t op with
      | none => exact (List.append_nil ids).symm ▸ hp
      | some r =>
          have hp' := hp.step (hops op List.mem_cons_self) hstep
          have hrest := ih (fun op' hop' => hops op' (List.mem_cons_of_mem op hop')) hp'
          rw [List.append_assoc, ← filterMap_acceptedId_cons] at hrest
          exact hrest

end PiledUp

section Runs

variable {s : State δ}

/-- **The memory is the table of results**: whatever is enqueued, performed, read and popped, the memory gives the answers
of the table, and follows no bad pointer where the table does not. -/
theorem results_in_memory (hnew : init δ = some s) (ops : List (Op δ))
    (hfits : Mealy.Along Fits Workerpool.ResultTable.step (Workerpool.ResultTable.init δ) ops) :
    (Mealy.run step s ops).1 = (Mealy.run Workerpool.ResultTable.step (Workerpool.ResultTable.init δ) ops).1 ∧
      (Mealy.run step s ops).2.crashed =
        (Mealy.run Workerpool.ResultTable.step (Workerpool.ResultTable.init δ) ops).2.crashed := by
  obtain ⟨hanswers, hfinal⟩ := run_represents hnew hfits
  refine ⟨List.forall₂_eq_eq_eq ▸ hanswers, ?_⟩
  obtain ⟨hs, ht⟩ | ⟨o, hl⟩ := hfinal
  · rw [hs, ht]
  · rw [hl.running.1, hl.running.2]

/-- Two tasks, one of which is performed, and its result popped. -/
def popOne : List (Op Nat) :=
  [.enqueue 0, .enqueue 0, .complete 1 ⟨.success, some 5⟩, .popRes 1, .getRes 7]

theorem popOne_fits : Mealy.Along Fits Workerpool.ResultTable.step (Workerpool.ResultTable.init Nat) popOne := by
  decide +kernel

theorem results_in_memory_one : ∃ s, init Nat = some s ∧
    (Mealy.run step s popOne).1 = [.id 1, .id 2, .done, .res (some ⟨.success, some 5⟩), .res none] := by
  obtain ⟨hanswers, -⟩ := results_in_memory rfl popOne popOne_fits
  exact ⟨_, rfl, hanswers.trans (by decide +kernel)⟩

/-- **Results that nobody pops are lost**: at the end of a pool the nodes of its table are freed, each once, and of the
other memory the records of the tasks that are still in the table, with their mutexes, are never freed. -/
theorem unpopped_tasks_are_lost (hnew : init δ = some s) (ops : List (Op δ))
    (hfits : Mealy.Along Fits Workerpool.ResultTable.step (Workerpool.ResultTable.init δ) ops)
    (hrunning : (Mealy.run Workerpool.ResultTable.step (Workerpool.ResultTable.init δ) ops).2.crashed = false) :
    ∃ s' lost, destroyTable (Mealy.run step s ops).2 = some s' ∧
      s'.tskResTable.nodes.freed.Perm (List.range s'.tskResTable.nodes.brk) ∧
      Lost s' lost (Mealy.run Workerpool.ResultTable.step (Workerpool.ResultTable.init δ) ops).2.tskResTable.items := by
  obtain ⟨-, ⟨-, hcrashed⟩ | ⟨o, hl⟩⟩ := run_represents hnew hfits
  · rw [hrunning] at hcrashed
    cases hcrashed
  exact hl.destroy

/-- The record of the task that is not performed, and its mutex. -/
theorem unpopped_tasks_are_lost_one : ∃ s s' lost, init Nat = some s ∧
    destroyTable (Mealy.run step s popOne).2 = some s' ∧ Lost s' lost [newTsk 2] := by
  obtain ⟨s', lost, hdestroy, -, hlost⟩ := unpopped_tasks_are_lost rfl popOne popOne_fits (by decide +kernel)
  have hleft : (Mealy.run Workerpool.ResultTable.step (Workerpool.ResultTable.init Nat) popOne).2.tskResTable.items =
      [newTsk 2] := rfl
  exact ⟨_, s', lost, rfl, hdestroy, hleft ▸ hlost⟩

/-- **A pool that nobody pops from loses every task**: where results are only waited for and read, no run crashes, and
at the end the records of the tasks that were accepted are lost, with their mutexes. -/
theorem every_task_is_lost (hnew : init δ = some s) (ops : List (Op δ)) (hops : Unpopped ops)
    (hfits : Mealy.Along Fits Workerpool.ResultTable.step (Workerpool.ResultTable.init δ) ops) :
    ∃ s' lost rs, destroyTable (Mealy.run step s ops).2 = some s' ∧ s'.crashed = false ∧ Lost s' lost rs ∧
      (rs.map TskRecord.tskId).Perm ((Mealy.run step s ops).1.filterMap acceptedId) := by
  obtain ⟨hanswers, hfinal⟩ := run_represents hnew hfits
  have hsame : (Mealy.run step s ops).1 = _ := List.forall₂_eq_eq_eq ▸ hanswers
  have hpiled : Piled (Workerpool.ResultTable.init δ) [] :=
    ⟨rfl, by simp [Workerpool.ResultTable.init], Int.le_refl 0, .nil⟩
  have hend := hpiled.run hops
  obtain ⟨-, hcrashed⟩ | ⟨o, hl⟩ := hfinal
  · rw [hend.running] at hcrashed
    cases hcrashed
  obtain ⟨s', lost, hdestroy, -, hlost⟩ := hl.destroy
  have hcrashed : s'.crashed = false := by
    obtain ⟨r, -, hr⟩ := Option.bind_eq_some_iff.1 hdestroy
    cases hr
    exact hl.running.1
  refine ⟨s', lost, _, hdestroy, hcrashed, hlost, ?_⟩
  rw [hsame]
  exact hend.tasks

/-- Two tasks that are waited for, and none that is popped. -/
def waitTwo : List (Op Nat) :=
  [.enqueue 0, .enqueue 3, .complete 5 ⟨.success, some 5⟩, .complete 1 ⟨.error, none⟩, .getRes 1]

theorem every_task_is_lost_two : ∃ s s' lost rs, init Nat = some s ∧
    destroyTable (Mealy.run step s waitTwo).2 = some s' ∧ Lost s' lost rs ∧ (rs.map TskRecord.tskId).Perm [1, 5] := by
  have hops : Unpopped waitTwo := by
    intro op hop id hpop
    rw [hpop] at hop
    simp [waitTwo] at hop
  obtain ⟨s, hnew⟩ : ∃ s, init Nat = some s := ⟨_, rfl⟩
  have hfits : Mealy.Along Fits Workerpool.ResultTable.step (Workerpool.ResultTable.init Nat) waitTwo := by
    decide +kernel
  obtain ⟨s', lost, rs, hdestroy, -, hlost, hids⟩ := every_task_is_lost hnew waitTwo hops hfits
  have haccepted : (Mealy.run step s waitTwo).1.filterMap acceptedId = [1, 5] := by
    cases hnew
    decide +kernel
  exact ⟨s, s', lost, rs, hnew, hdestroy, hlost, haccepted ▸ hids⟩

end Runs

end ComplexSim.ResultStore
