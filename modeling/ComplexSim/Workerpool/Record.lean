import ComplexSim.Lib.Transition
import ComplexSim.Workerpool.Results

/-!
# One task record, access by access

The record of one task (`_cs_wp_tsk`) between the worker that performs the task and any
number of threads that call `cs_wp_tsk_wait`, `cs_wp_tsk_get_res` and `cs_wp_tsk_pop_res` on
its id. A step is one read or one write of the record, or one operation on a mutex or the
semaphore. The record starts in the table of results, as `cs_wp_tsk_enqueue` leaves it.

What happens after an access to destroyed memory is undefined: such a step is recorded in
`misused`, and none follows it.
-/

namespace ComplexSim.TaskRecord

open Workerpool (TskStatus TskExitStatus CsWpTskRes)

variable {T δ : Type}

/-- Where the worker stands that performs the task; `ex` is `ex_st`. -/
inductive WorkerPc where
  | start
  /-- in `tsk_code` -/
  | running
  | lock (ex : TskExitStatus)
  | setStatus (ex : TskExitStatus)
  | setExitCode (ex : TskExitStatus)
  | unlock
  /-- before `_cs_wp_signal_task_end` -/
  | signal
  | gone
  deriving DecidableEq, Repr

/-- The worker has set the status to `CS_TSK_RT_DONE`. -/
def WorkerPc.marked : WorkerPc → Bool
  | .setExitCode _ | .unlock | .signal | .gone => true
  | _ => false

inductive Op where
  | wait
  | getRes
  | popRes
  deriving DecidableEq, Repr

/-- Where a caller stands. -/
inductive Pc (δ : Type) where
  | idle
  /-- in `cs_wp_tsk_wait`, before the look-up -/
  | find (op : Op)
  | readStatus (op : Op)
  | semWait (op : Op)
  /-- after `cs_wp_tsk_wait`, before the look-up (`pop`: the deletion) -/
  | lookup (pop : Bool)
  /-- in `_cs_wp_get_tsk_res_copy` -/
  | malloc (pop : Bool)
  | copyExitCode (pop : Bool)
  | copyData (pop : Bool) (ex : TskExitStatus)
  /-- in `_cs_wp_tsk_destroy` -/
  | destroyMutex (r : CsWpTskRes δ)
  | freeMutex (r : CsWpTskRes δ)
  | freeTask (r : CsWpTskRes δ)
  | unlock (r : Option (CsWpTskRes δ))
  deriving DecidableEq, Repr

/-- In `sem_wait` on the task's semaphore. -/
def Pc.blocks : Pc δ → Bool
  | .semWait _ => true
  | _ => false

/-- In `cs_wp_tsk_wait`, with the record found. -/
def Pc.found : Pc δ → Bool
  | .readStatus _ | .semWait _ => true
  | _ => false

/-- In the section under `table_mutex` of `cs_wp_tsk_get_res` or `cs_wp_tsk_pop_res`. -/
def Pc.holds : Pc δ → Bool
  | .malloc _ | .copyExitCode _ | .copyData .. | .destroyMutex _ | .freeMutex _ | .freeTask _
  | .unlock _ => true
  | _ => false

/-- What there is left of the record. -/
inductive Life where
  | alive
  | mutexDestroyed
  | freed
  deriving DecidableEq, Repr

structure State (T δ : Type) where
  status : TskStatus
  tskRes : CsWpTskRes δ
  tskMutex : Bool
  taskSem : Nat
  life : Life
  inTable : Bool
  tableMutex : Option T
  worker : WorkerPc
  pc : T → Pc δ
  /-- what `tsk_code` has returned, and the data it has left -/
  code : Option (CsWpTskRes δ)
  /-- the results that callers have got -/
  results : List (CsWpTskRes δ)
  /-- the record was accessed after it was destroyed -/
  misused : Bool
  /-- a null pointer was read -/
  crashed : Bool

inductive Label (T δ : Type) where
  | worker
  /-- `tsk_code` stores its output -/
  | codeWrite (d : δ)
  | codeReturn (ex : TskExitStatus)
  | call (t : T) (op : Op)
  | act (t : T)
  /-- `sem_wait` returns with an error -/
  | interrupt (t : T)
  | mallocFail (t : T)
  deriving DecidableEq, Repr

/-- The record after `cs_wp_tsk_enqueue`. -/
def init (T δ : Type) : State T δ where
  status := .waiting
  tskRes := ⟨.success, none⟩
  tskMutex := false
  taskSem := 0
  life := .alive
  inTable := true
  tableMutex := none
  worker := .start
  pc := fun _ => .idle
  code := none
  results := []
  misused := false
  crashed := false

/-- An access to the record. -/
def State.touch (s : State T δ) : State T δ := { s with misused := s.misused || s.life == .freed }

/-- An access to the mutex of the record. -/
def State.touchMutex (s : State T δ) : State T δ := { s with misused := s.misused || s.life != .alive }

theorem State.touch_of_ne {s : State T δ} (h : s.life ≠ .freed) : s.touch = s := by
  have hfreed : (s.life == .freed) = false := by
    cases hlife : s.life with
    | freed => exact absurd hlife h
    | alive | mutexDestroyed => rfl
  simp [State.touch, hfreed]

theorem State.touch_of_alive {s : State T δ} (h : s.life = .alive) : s.touch = s :=
  State.touch_of_ne (by simp [h])

theorem State.touchMutex_of_alive {s : State T δ} (h : s.life = .alive) : s.touchMutex = s := by
  have hdead : (s.life != .alive) = false := by rw [h]; rfl
  simp [State.touchMutex, hdead]

def State.setPc [DecidableEq T] (s : State T δ) (t : T) (p : Pc δ) : State T δ :=
  { s with pc := Function.update s.pc t p }

/-- Where `cs_wp_tsk_wait` returns to. -/
def afterWait : Op → Pc δ
  | .wait => .idle
  | .getRes => .lookup false
  | .popRes => .lookup true

/-- The end of `_cs_wp_worker_behaviour`'s loop body, and `_cs_wp_signal_task_end`. -/
def workerStep (s : State T δ) : Option (State T δ) :=
  match s.worker with
  | .start => some { s.touch with worker := .running }
  | .lock ex => if s.tskMutex then none else some { s.touchMutex with tskMutex := true, worker := .setStatus ex }
  | .setStatus ex => some { s.touch with status := .done, worker := .setExitCode ex }
  | .setExitCode ex => some { s.touch with tskRes := { s.tskRes with tskExitCode := ex }, worker := .unlock }
  | .unlock => some { s.touchMutex with tskMutex := false, worker := .signal }
  | .signal => some { s.touch with taskSem := s.taskSem + 1, worker := .gone }
  | .running | .gone => none

/-- The worker moves no caller. -/
theorem workerStep_pc {s s' : State T δ} (hs : workerStep s = some s') : s'.pc = s.pc := by
  unfold workerStep at hs
  cases hw : s.worker <;> simp only [hw] at hs
  case lock ex => split at hs <;> cases hs; rfl
  all_goals cases hs
  all_goals rfl

section Step

variable [DecidableEq T]

/-- The next step of a caller: `cs_wp_tsk_wait` up to `semWait`, then what is left of
`cs_wp_tsk_get_res` and `cs_wp_tsk_pop_res`. -/
def callerStep (s : State T δ) (t : T) : Option (State T δ) :=
  match s.pc t with
  | .idle => none
  | .find op =>
      if s.tableMutex.isSome then none
      else some (s.setPc t (if s.inTable then .readStatus op else afterWait op))
  | .readStatus op => some (s.touch.setPc t (if s.status = .done then afterWait op else .semWait op))
  | .semWait op =>
      if 0 < s.taskSem then some ({ s.touch with taskSem := s.taskSem - 1 }.setPc t (afterWait op)) else none
  | .lookup pop =>
      if s.tableMutex.isSome then none
      else if s.inTable then
        some ({ s with tableMutex := some t, inTable := !pop }.setPc t (.malloc pop))
      -- not found: `cs_wp_tsk_pop_res` goes on with the null pointer
      else if pop then some { s with crashed := true }
      else some (s.setPc t .idle)
  | .malloc pop => some (s.setPc t (.copyExitCode pop))
  | .copyExitCode pop => some (s.touch.setPc t (.copyData pop s.tskRes.tskExitCode))
  | .copyData pop ex =>
      some (s.touch.setPc t (if pop then .destroyMutex ⟨ex, s.tskRes.tskResData⟩
        else .unlock (some ⟨ex, s.tskRes.tskResData⟩)))
  | .destroyMutex r => some ({ s.touchMutex with life := .mutexDestroyed }.setPc t (.freeMutex r))
  | .freeMutex r => some (s.touch.setPc t (.freeTask r))
  | .freeTask r => some ({ s with life := .freed }.setPc t (.unlock (some r)))
  | .unlock r => some ({ s with tableMutex := none, results := s.results ++ r.toList }.setPc t .idle)

def step (s : State T δ) (l : Label T δ) : Option (State T δ) :=
  if s.misused || s.crashed then none
  else match l with
    | .worker => workerStep s
    | .codeWrite d =>
        if s.worker = .running then some { s.touch with tskRes := { s.tskRes with tskResData := some d } } else none
    | .codeReturn ex =>
        if s.worker = .running then
          some { s with worker := .lock ex, code := some ⟨ex, s.tskRes.tskResData⟩ }
        else none
    | .call t op => match s.pc t with
        | .idle => some (s.setPc t (.find op))
        | _ => none
    | .act t => callerStep s t
    | .interrupt t => match s.pc t with
        | .semWait op => some (s.touch.setPc t (afterWait op))
        | _ => none
    | .mallocFail t => match s.pc t with
        | .malloc _ => some (s.setPc t (.unlock none))
        | _ => none

abbrev system (T δ : Type) [DecidableEq T] : Lts.System (State T δ) (Label T δ) :=
  .ofFn (· = init T δ) step

theorem State.setPc_self (s : State T δ) (t : T) (p : Pc δ) : (s.setPc t p).pc t = p := by
  simp [State.setPc]

theorem State.setPc_of_ne (s : State T δ) {t u : T} (h : u ≠ t) (p : Pc δ) :
    (s.setPc t p).pc u = s.pc u := by
  simp [State.setPc, h]

/-- A caller moves no other. -/
theorem callerStep_pc {s s' : State T δ} {t u : T} (hs : callerStep s t = some s') (h : u ≠ t) :
    s'.pc u = s.pc u := by
  unfold callerStep at hs
  cases hpc : s.pc t <;> simp only [hpc] at hs
  case find | semWait => split at hs <;> cases hs; simp [State.setPc, State.touch, h]
  case lookup =>
    split at hs
    · cases hs
    · split at hs
      · cases hs
        simp [State.setPc, h]
      · split at hs <;> cases hs
        · rfl
        · simp [State.setPc, h]
  all_goals cases hs
  all_goals simp [State.setPc, State.touch, State.touchMutex, h]

/-- A caller leaves the worker alone. -/
theorem callerStep_worker {s s' : State T δ} {t : T} (hs : callerStep s t = some s') :
    s'.worker = s.worker := by
  unfold callerStep at hs
  cases hpc : s.pc t <;> simp only [hpc] at hs
  case find | semWait => split at hs <;> cases hs; rfl
  case lookup =>
    split at hs
    · cases hs
    · split at hs
      · cases hs
        rfl
      · split at hs <;> cases hs <;> rfl
  all_goals cases hs
  all_goals rfl

end Step

end ComplexSim.TaskRecord
