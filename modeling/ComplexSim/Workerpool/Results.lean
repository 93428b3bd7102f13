import ComplexSim.Lib.Mealy
import ComplexSim.Lib.OrdTable
import ComplexSim.Workerpool.Basic

/-!
# The table of results (`cs_wp_tsk_get_res`, `cs_wp_tsk_pop_res`)

One operation on a pool after the other: tasks are enqueued and performed, and results are
read or popped by any id. An operation that would wait for a task is not taken before the
task is complete. The table is an ordered map from ids to task records; allocations succeed.

`Results` is what the table is for: a map from ids to what is known of their tasks.
-/

namespace ComplexSim.Workerpool

/-- `cs_wp_tsk_exit_status`. -/
inductive TskExitStatus where
  | success
  | error
  deriving DecidableEq, Repr

/-- `cs_wp_tsk_res`; `none` is the NULL that `calloc` leaves. -/
structure CsWpTskRes (δ : Type) where
  tskExitCode : TskExitStatus
  tskResData : Option δ
  deriving DecidableEq, Repr

namespace ResultTable

/-- `_cs_wp_tsk`, as far as its result is concerned. -/
structure TskRecord (δ : Type) where
  tskId : Int
  status : TskStatus
  tskRes : CsWpTskRes δ
  taskSem : Nat

variable {δ : Type}

/-- The part of `cs_workerpool_t` that holds results. -/
structure State (δ : Type) where
  status : PoolStatus
  /-- the last value of `_cs_wp_new_tsk_id` -/
  lastId : Int
  tskResTable : OrdTable (TskRecord.tskId (δ := δ))
  /-- a null pointer was read, or an assertion has failed -/
  crashed : Bool

inductive Op (δ : Type) where
  /-- `cs_wp_start` or `cs_wp_shutdown` leaves the pool in the status -/
  | setStatus (st : PoolStatus)
  /-- `cs_wp_tsk_enqueue`, after other pools have taken some ids -/
  | enqueue (others : Nat)
  /-- a worker performs the task, which returns the result -/
  | complete (id : Int) (res : CsWpTskRes δ)
  | getRes (id : Int)
  | popRes (id : Int)

inductive Answer (δ : Type) where
  | done
  | id (r : Int)
  | res (r : Option (CsWpTskRes δ))
  /-- the process crashes -/
  | fault
  deriving DecidableEq, Repr

/-- A pool that works and has no task. -/
def init (δ : Type) : State δ where
  status := .working
  lastId := 0
  tskResTable := .empty
  crashed := false

/-- `cs_wp_tsk_enqueue`. -/
def csWpTskEnqueue (s : State δ) (others : Nat) : State δ × Answer δ :=
  if s.status ≠ .working then (s, .id (-1))
  else
    let tsk : TskRecord δ :=
      { tskId := s.lastId + others + 1, status := .waiting, tskRes := ⟨.success, none⟩, taskSem := 0 }
    let table := s.tskResTable.insert tsk
    if (s.tskResTable.find? tsk.tskId).isSome ∨ table.count ≠ s.tskResTable.count + 1 ∨
        (table.find? tsk.tskId).isNone then ({ s with crashed := true }, .fault)
    else ({ s with lastId := tsk.tskId, tskResTable := table }, .id tsk.tskId)

/-- What a worker does to the record of a task that it has performed. -/
def TskRecord.finish (res : CsWpTskRes δ) (tsk : TskRecord δ) : TskRecord δ :=
  { tsk with status := .done, tskRes := res, taskSem := tsk.taskSem + 1 }

theorem TskRecord.finish_tskId (res : CsWpTskRes δ) (tsk : TskRecord δ) :
    (tsk.finish res).tskId = tsk.tskId := rfl

/-- `_cs_wp_wait_task_end`, where the semaphore has a token. -/
def TskRecord.wait (tsk : TskRecord δ) : TskRecord δ := { tsk with taskSem := tsk.taskSem - 1 }

theorem TskRecord.wait_tskId (tsk : TskRecord δ) : tsk.wait.tskId = tsk.tskId := rfl

def complete (s : State δ) (id : Int) (res : CsWpTskRes δ) : Option (State δ × Answer δ) :=
  match s.tskResTable.find? id with
  | none => none
  | some tsk =>
      if tsk.status = .waiting then
        some ({ s with tskResTable := s.tskResTable.modify id (TskRecord.finish res) (TskRecord.finish_tskId res) }, .done)
      else none

/-- `cs_wp_tsk_wait`, where it does not block. -/
def csWpTskWait (s : State δ) (id : Int) : Option (State δ) :=
  match s.tskResTable.find? id with
  | none => some s
  | some found =>
      if found.status = .done then some s
      else if 0 < found.taskSem then
        some { s with tskResTable := s.tskResTable.modify id TskRecord.wait TskRecord.wait_tskId }
      else none

/-- `cs_wp_tsk_get_res`. -/
def csWpTskGetRes (s : State δ) (id : Int) : Option (State δ × Answer δ) :=
  (csWpTskWait s id).map fun s => match s.tskResTable.find? id with
    | none => (s, .res none)
    | some found => (s, .res (some found.tskRes))

/-- `cs_wp_tsk_pop_res`. Where the id is not found, the result is copied from a null pointer. -/
def csWpTskPopRes (s : State δ) (id : Int) : Option (State δ × Answer δ) :=
  (csWpTskWait s id).map fun s => match s.tskResTable.find? id with
    | none => ({ s with crashed := true }, .fault)
    | some found => ({ s with tskResTable := s.tskResTable.delete id }, .res (some found.tskRes))

def step (s : State δ) (op : Op δ) : Option (State δ × Answer δ) :=
  if s.crashed then none
  else match op with
    | .setStatus st => some ({ s with status := st }, .done)
    | .enqueue others => some (csWpTskEnqueue s others)
    | .complete id res => complete s id res
    | .getRes id => csWpTskGetRes s id
    | .popRes id => csWpTskPopRes s id

/-- What is known of an id. -/
inductive Entry (δ : Type) where
  /-- not enqueued, or popped -/
  | absent
  /-- enqueued, and not complete -/
  | pending
  | done (res : CsWpTskRes δ)

/-- A result table as a map. -/
structure Results (δ : Type) where
  status : PoolStatus
  lastId : Int
  entry : Int → Entry δ

namespace Results

def init (δ : Type) : Results δ where
  status := .working
  lastId := 0
  entry := fun _ => .absent

def set (m : Results δ) (id : Int) (e : Entry δ) : Results δ :=
  { m with entry := Function.update m.entry id e }

/-- What is known of a task that must be complete: its result, or that there is none. -/
def lookup (m : Results δ) (id : Int) : Option (Option (CsWpTskRes δ)) :=
  match m.entry id with
  | .absent => some none
  | .pending => none
  | .done res => some (some res)

/-- What the operations do to the map, and what they answer. -/
def step (m : Results δ) : Op δ → Option (Results δ × Answer δ)
  | .setStatus st => some ({ m with status := st }, .done)
  | .enqueue others =>
      if m.status ≠ .working then some (m, .id (-1))
      else some ({ m with lastId := m.lastId + others + 1 }.set (m.lastId + others + 1) .pending,
        .id (m.lastId + others + 1))
  | .complete id res => match m.entry id with
      | .pending => some (m.set id (.done res), .done)
      | _ => none
  | .getRes id => (m.lookup id).map fun r => (m, .res r)
  | .popRes id => (m.lookup id).map fun r => (m.set id .absent, .res r)

/-- A result is popped only of an id that is in the map. -/
def PopsKnown (m : Results δ) (op : Op δ) : Prop :=
  ∀ id, op = .popRes id → m.entry id ≠ .absent

end Results

/-- What a record says of its task. -/
def TskRecord.entry (tsk : TskRecord δ) : Entry δ :=
  match tsk.status with
  | .waiting => .pending
  | .done => .done tsk.tskRes

/-- What a table says of an id. -/
def State.entry (s : State δ) (id : Int) : Entry δ :=
  (s.tskResTable.find? id).elim .absent TskRecord.entry

/-- A pool that holds the results of a map. -/
structure Represents (s : State δ) (m : Results δ) : Prop where
  running : s.crashed = false
  status : s.status = m.status
  lastId : s.lastId = m.lastId
  entry : ∀ id, s.entry id = m.entry id
  /-- ids are new -/
  fresh : ∀ tsk ∈ s.tskResTable.items, tsk.tskId ≤ s.lastId
  /-- a task that is not complete has no token -/
  sem : ∀ tsk ∈ s.tskResTable.items, tsk.status = .waiting → tsk.taskSem = 0

theorem init_represents : Represents (init δ) (Results.init δ) where
  running := rfl
  status := rfl
  lastId := rfl
  entry := fun _ => rfl
  fresh := by simp [init]
  sem := by simp [init]

section Operations

variable {s : State δ} {m : Results δ} {id : Int}

theorem Represents.absent (h : Represents s m) :
    m.entry id = .absent ↔ s.tskResTable.find? id = none := by
  rw [← h.entry id, State.entry]
  cases s.tskResTable.find? id with
  | none => simp
  | some tsk =>
      unfold TskRecord.entry
      cases hstatus : tsk.status <;> simp [hstatus]

/-- Storing `e` for `id` in the map, where the table holds what it says and nothing else has
changed. -/
theorem Represents.set (h : Represents s m) {t : State δ} {e : Entry δ} (hrunning : t.crashed = false)
    (hstatus : t.status = s.status) (hlast : t.lastId = s.lastId)
    (hself : (t.tskResTable.find? id).elim .absent TskRecord.entry = e)
    (hother : ∀ j, j ≠ id → t.tskResTable.find? j = s.tskResTable.find? j)
    (hitems : ∀ tsk ∈ t.tskResTable.items, tsk.tskId ≤ t.lastId ∧ (tsk.status = .waiting → tsk.taskSem = 0)) :
    Represents t (m.set id e) where
  running := hrunning
  status := hstatus.trans h.status
  lastId := hlast.trans h.lastId
  entry := by
    intro j
    by_cases hj : j = id
    · subst hj
      simpa [Results.set, State.entry] using hself
    · have hentry := h.entry j
      rw [State.entry, ← hother j hj] at hentry
      simpa [Results.set, State.entry, hj] using hentry
  fresh := fun tsk htsk => (hitems tsk htsk).1
  sem := fun tsk htsk => (hitems tsk htsk).2

/-- `cs_wp_tsk_wait` waits exactly for what is not complete, and changes nothing. -/
theorem Represents.wait (h : Represents s m) (id : Int) :
    csWpTskWait s id = (m.lookup id).map fun _ => s := by
  rw [Results.lookup, ← h.entry id, State.entry, csWpTskWait]
  cases hfind : s.tskResTable.find? id with
  | none => rfl
  | some tsk =>
      have hmem := (OrdTable.find?_eq_some.1 hfind).1
      cases hstatus : tsk.status with
      | waiting => simp [TskRecord.entry, hstatus, h.sem tsk hmem hstatus]
      | done => simp [TskRecord.entry, hstatus]

/-- What is found of a task that is not waited for is its result. -/
theorem Represents.found (h : Represents s m) {r : Option (CsWpTskRes δ)} (hr : m.lookup id = some r) :
    (s.tskResTable.find? id).map (·.tskRes) = r := by
  rw [Results.lookup, ← h.entry id, State.entry] at hr
  cases hfind : s.tskResTable.find? id with
  | none =>
      rw [hfind] at hr
      simpa using hr
  | some tsk =>
      rw [hfind] at hr
      cases hstatus : tsk.status <;> simp [TskRecord.entry, hstatus] at hr
      simpa using hr

theorem enqueue_agree (h : Represents s m) (others : Nat) :
    Mealy.Agree Represents Eq (some (csWpTskEnqueue s others)) (m.step (.enqueue others)) := by
  by_cases hworking : s.status = .working
  · have hnew : s.tskResTable.find? (s.lastId + others + 1) = none := by
      rw [OrdTable.find?_eq_none]
      intro tsk htsk hid
      have := h.fresh tsk htsk
      omega
    let tsk : TskRecord δ :=
      { tskId := s.lastId + others + 1, status := .waiting, tskRes := ⟨.success, none⟩, taskSem := 0 }
    have hself : (s.tskResTable.insert tsk).find? (s.lastId + others + 1) = some tsk :=
      OrdTable.find?_insert_self (x := tsk) hnew
    have hcount : (s.tskResTable.insert tsk).count = s.tskResTable.count + 1 :=
      OrdTable.count_insert (x := tsk) hnew
    have henqueue : csWpTskEnqueue s others =
        ({ s with lastId := s.lastId + others + 1, tskResTable := s.tskResTable.insert tsk },
          .id (s.lastId + others + 1)) := by
      simp only [csWpTskEnqueue, ne_eq, hworking, not_true_eq_false, if_false]
      rw [if_neg]
      simp [hnew, tsk] at hself hcount ⊢
      simp [hself, hcount]
    have hstep : m.step (.enqueue others) = some
        ({ m with lastId := m.lastId + others + 1 }.set (m.lastId + others + 1) .pending,
          .id (m.lastId + others + 1)) := by
      simp [Results.step, ← h.status, hworking]
    rw [henqueue, hstep, ← h.lastId]
    apply Mealy.Agree.some rfl
    have hlast : Represents { s with lastId := s.lastId + others + 1 }
        { m with lastId := s.lastId + others + 1 } := by
      refine ⟨h.running, h.status, rfl, h.entry, fun tsk htsk => ?_, h.sem⟩
      have := h.fresh tsk htsk
      show tsk.tskId ≤ s.lastId + others + 1
      omega
    apply hlast.set
    · exact h.running
    · rfl
    · rfl
    · show ((s.tskResTable.insert tsk).find? (s.lastId + others + 1)).elim .absent TskRecord.entry = .pending
      rw [hself]
      rfl
    · intro j hj
      exact OrdTable.find?_insert_of_ne (x := tsk) hj
    · intro t ht
      rcases (OrdTable.mem_insert (x := tsk) hnew).1 ht with rfl | ht
      · exact ⟨le_refl _, fun _ => rfl⟩
      · exact ⟨hlast.fresh t ht, h.sem t ht⟩
  · have hstep : m.step (.enqueue others) = some (m, .id (-1)) := by
      simp [Results.step, ← h.status, hworking]
    rw [hstep, show csWpTskEnqueue s others = (s, .id (-1)) from if_pos hworking]
    exact .some rfl h

theorem complete_agree (h : Represents s m) (id : Int) (res : CsWpTskRes δ) :
    Mealy.Agree Represents Eq (complete s id res) (m.step (.complete id res)) := by
  have hentry := h.entry id
  unfold State.entry at hentry
  simp only [complete, Results.step]
  cases hfind : s.tskResTable.find? id with
  | none =>
      rw [hfind] at hentry
      rw [← hentry]
      exact .none
  | some tsk =>
      rw [hfind] at hentry
      cases hstatus : tsk.status with
      | done =>
          rw [← hentry]
          simp only [Option.elim, TskRecord.entry, hstatus]
          exact .none
      | waiting =>
          rw [← hentry]
          simp only [Option.elim, TskRecord.entry, hstatus, if_true]
          apply Mealy.Agree.some rfl
          apply h.set
          · exact h.running
          · rfl
          · rfl
          · show ((s.tskResTable.modify id _ (TskRecord.finish_tskId res)).find? id).elim .absent TskRecord.entry = _
            rw [OrdTable.find?_modify, if_pos rfl, hfind]
            rfl
          · intro j hj
            exact (OrdTable.find?_modify (TskRecord.finish_tskId res)).trans (if_neg hj)
          · intro t ht
            obtain ⟨u, hu, rfl⟩ := List.mem_map.1 ht
            split
            · exact ⟨h.fresh u hu, nofun⟩
            · exact ⟨h.fresh u hu, h.sem u hu⟩

theorem getRes_agree (h : Represents s m) (id : Int) :
    Mealy.Agree Represents Eq (csWpTskGetRes s id) (m.step (.getRes id)) := by
  simp only [csWpTskGetRes, h.wait id, Results.step, Option.map_map]
  cases hr : m.lookup id with
  | none => exact .none
  | some r =>
      have hfound := h.found hr
      cases hfind : s.tskResTable.find? id with
      | none =>
          rw [hfind] at hfound
          subst hfound
          simpa [hfind] using .some rfl h
      | some tsk =>
          rw [hfind] at hfound
          subst hfound
          simpa [hfind] using .some rfl h

theorem popRes_agree (h : Represents s m) {id : Int} (hid : m.entry id ≠ .absent) :
    Mealy.Agree Represents Eq (csWpTskPopRes s id) (m.step (.popRes id)) := by
  simp only [csWpTskPopRes, h.wait id, Results.step, Option.map_map]
  cases hr : m.lookup id with
  | none => exact .none
  | some r =>
      have hfound := h.found hr
      cases hfind : s.tskResTable.find? id with
      | none => exact absurd (h.absent.2 hfind) hid
      | some tsk =>
          rw [hfind] at hfound
          subst hfound
          simp only [Option.map_some, Function.comp_apply, hfind]
          apply Mealy.Agree.some rfl
          apply h.set
          · exact h.running
          · rfl
          · rfl
          · show ((s.tskResTable.delete id).find? id).elim .absent TskRecord.entry = _
            rw [OrdTable.find?_delete_self]
            rfl
          · intro j hj
            exact OrdTable.find?_delete_of_ne hj
          · intro t ht
            have ht := (OrdTable.mem_delete.1 ht).1
            exact ⟨h.fresh t ht, h.sem t ht⟩

theorem step_agree (h : Represents s m) {op : Op δ} (hok : m.PopsKnown op) :
    Mealy.Agree Represents Eq (step s op) (m.step op) := by
  unfold step
  rw [h.running]
  cases op with
  | setStatus st => exact .some rfl ⟨rfl, rfl, h.lastId, h.entry, h.fresh, h.sem⟩
  | enqueue others => exact enqueue_agree h others
  | complete id res => exact complete_agree h id res
  | getRes id => exact getRes_agree h id
  | popRes id => exact popRes_agree h (hok id rfl)

/-- To pop an id that is not in the map is a crash, where there was nothing to pop. -/
theorem step_differ (h : Represents s m) {op : Op δ} (hbad : ¬ m.PopsKnown op) :
    ∃ s' o m' p, step s op = some (s', o) ∧ m.step op = some (m', p) ∧ o ≠ p := by
  obtain ⟨id, hop⟩ := not_forall.1 hbad
  obtain ⟨rfl, hid⟩ := Classical.not_imp.1 hop
  have hid : m.entry id = .absent := Classical.not_not.1 hid
  have hlookup : m.lookup id = some none := by rw [Results.lookup, hid]
  refine ⟨{ s with crashed := true }, .fault, m.set id .absent, .res none, ?_, ?_, nofun⟩
  · simp [step, h.running, csWpTskPopRes, h.wait id, hlookup, h.absent.1 hid]
  · simp [Results.step, hlookup]

end Operations

/-- **The result table is a map exactly where only known results are popped**: an operation
sequence gets the answers of the map, and leaves what the map holds, if and only if each of
its `cs_wp_tsk_pop_res` is of an id that is in the map. -/
theorem results_as_map (ops : List (Op δ)) :
    ((Mealy.run step (init δ) ops).1 = (Mealy.run Results.step (Results.init δ) ops).1 ∧
      Represents (Mealy.run step (init δ) ops).2 (Mealy.run Results.step (Results.init δ) ops).2) ↔
    Mealy.Along Results.PopsKnown Results.step (Results.init δ) ops := by
  have hiff := Mealy.run_agree_iff (fun _ _ _ h hok => step_agree h hok)
    (fun _ _ _ h hbad => step_differ h hbad) (init_represents (δ := δ)) ops
  rwa [List.forall₂_eq_eq_eq] at hiff

/-- A task is performed, and its result popped twice. -/
theorem second_pop_crashes :
    (Mealy.run step (init Nat)
      [.enqueue 0, .complete 1 ⟨.success, some 5⟩, .popRes 1, .popRes 1]).1 =
      [.id 1, .done, .res (some ⟨.success, some 5⟩), .fault] ∧
    (Mealy.run Results.step (Results.init Nat)
      [.enqueue 0, .complete 1 ⟨.success, some 5⟩, .popRes 1, .popRes 1]).1 =
      [.id 1, .done, .res (some ⟨.success, some 5⟩), .res none] := by
  constructor <;> decide +kernel

end ResultTable

end ComplexSim.Workerpool
