import ComplexSim.Lib.Transition
import ComplexSim.Queue.Basic
import Mathlib.Data.Fin.Basic
import Mathlib.Logic.Function.Basic
import Mathlib.Tactic.Simps.Basic

/-!
# The worker pool (`src/cs_workerpool.c`)

A pool has `n` workers, one controller, any number of outside threads that call
`cs_wp_tsk_enqueue`, `cs_wp_tsk_wait` or `cs_wp_get_status`, and one thread that
calls `cs_wp_shutdown`. The code of a task is not part of the pool: `taskReturn`
ends it, and while it runs it may call the pool as the caller `Caller.task w`.

One step is one section under a mutex, or one operation on a semaphore. The mutexes
that a thread holds while it blocks are explicit: the pool mutex is held by the
shutdown from its status check until it returns (`Shutdown.holds`), the table mutex
by an enqueuer (`tableMutex`). The queue, worker and task mutexes are held within
one step only. Allocations and semaphore operations succeed. `cs_wp_start` is one
step and is taken once: the threads it creates wait until it is done.

`hist` and `returned` only record what happened: no step reads them.
-/

namespace ComplexSim.Workerpool

/-- `cs_wp_tsk_id`; the record of a task is named by its id. -/
abbrev TskId := Nat

/-- `cs_workerpool_status`. -/
inductive PoolStatus where
  | ready
  | working
  deriving DecidableEq, Repr

/-- `_cs_worker_status`. -/
inductive WorkerStatus where
  | working
  | waiting
  | tskAssigned
  | ready
  deriving DecidableEq, Repr

/-- `_cs_wp_tsk_runtime_status`, as far as the pool sets it. -/
inductive TskStatus where
  | waiting
  | done
  deriving DecidableEq, Repr

/-- What has happened to a task. -/
inductive TskEvent (n : Nat) where
  /-- appended to the queue -/
  | inserted
  /-- taken from the queue by the controller -/
  | dequeued
  /-- assigned to a worker -/
  | assigned (w : Fin n)
  /-- its code was called -/
  | started (w : Fin n)
  /-- its code returned -/
  | returned (w : Fin n)
  deriving DecidableEq, Repr

/-- `_cs_wp_tsk`; `tskCode` is the code with its input, of the type `α` of the client. -/
structure Tsk (n : Nat) (α : Type) where
  tskCode : Option α
  status : TskStatus
  taskSem : Nat
  hist : List (TskEvent n)

/-- Where a worker is in `_cs_wp_worker_behaviour`. -/
inductive WorkerPc where
  | notCreated
  /-- `sem_wait(worker_waiting_semaphore)` -/
  | semWait
  /-- `assert(shutdown == 1 || status == CS_WS_TSK_ASSIGNED)` -/
  | woken
  /-- the section that takes the task or leaves -/
  | takeTask
  /-- inside `tsk_code` -/
  | performing (t : TskId)
  /-- the section that gives the worker back -/
  | release (t : TskId)
  /-- the section under the task's mutex -/
  | setDone (t : TskId)
  /-- `_cs_wp_signal_task_end` -/
  | signalEnd (t : TskId)
  | exited
  deriving DecidableEq, Repr

/-- `_cs_wp_worker_data` and the thread that runs on it. -/
structure Worker where
  waitingSem : Nat
  assignedTsk : Option TskId
  status : WorkerStatus
  shutdown : Bool
  pc : WorkerPc
  deriving DecidableEq, Repr

/-- Where the controller is in `_cs_wp_controller_behaviour`. -/
inductive ControllerPc (n : Nat) where
  | notCreated
  /-- `sem_wait` in `cs_queue_dequeue` -/
  | dequeueWait
  /-- the locked section of `cs_queue_dequeue` -/
  | dequeue
  /-- `sem_wait(workerpool_semaphore)` -/
  | poolSem (t : TskId)
  /-- the status of worker `count` is read next -/
  | scan (t : TskId) (count : Nat)
  /-- `_cs_wp_assign_tsk_to_worker` -/
  | assign (t : TskId) (w : Fin n)
  /-- `sem_post(worker_waiting_semaphore)` -/
  | notify (w : Fin n)
  /-- `_cs_wp_shutdown_workers`: the flag of worker `count` -/
  | sendShutdown (count : Nat)
  /-- `_cs_wp_shutdown_workers`: the semaphore of worker `count` -/
  | postShutdown (count : Nat)
  /-- `pthread_join` of worker `count` -/
  | join (count : Nat)
  | ended
  deriving DecidableEq, Repr

/-- A thread that calls the pool: one outside it, or the task that a worker performs. -/
inductive Caller (n : Nat) where
  | ext (k : Nat)
  | task (w : Fin n)
  deriving DecidableEq, Repr

/-- Where a caller is in the call it has made. -/
inductive CallPc (α : Type) where
  | idle
  /-- `cs_wp_get_status` -/
  | getStatus
  /-- the status check of `cs_wp_tsk_enqueue` -/
  | enqStatus (x : α)
  /-- the task record is made -/
  | enqCreate (x : α)
  /-- lock of the table mutex -/
  | enqTable (t : TskId)
  /-- `sem_wait(q->qlimit_sem)` -/
  | enqLimit (t : TskId)
  /-- the locked section of `cs_queue_enqueue` -/
  | enqQueue (t : TskId)
  /-- the rest of `cs_wp_tsk_enqueue`, once `cs_queue_enqueue` has returned `r` -/
  | enqInsert (t : TskId) (r : Int)
  /-- the look-up of `cs_wp_tsk_wait` -/
  | waitFind (id : Int)
  /-- the test of the status found -/
  | waitStatus (t : TskId)
  /-- `_cs_wp_wait_task_end` -/
  | waitSem (t : TskId)
  deriving DecidableEq, Repr

/-- Where the shutting thread is in `cs_wp_shutdown`. -/
inductive Shutdown where
  | idle
  | lock
  | check
  | close
  | join
  | finish
  /-- the last call has returned 0 -/
  | returned
  deriving DecidableEq, Repr

/-- The shutdown holds the pool mutex. -/
def Shutdown.holds : Shutdown → Bool
  | .check | .close | .join | .finish => true
  | _ => false

/-- The assertions of the pool and of its queue. -/
inductive Assertion where
  /-- `cs_queue_dequeue`: `q->head != NULL` -/
  | queueHead
  /-- `cs_queue_dequeue`: `q->size == assctl || q->status == QCLOSED` -/
  | queueSize
  /-- controller: `free_worker_index >= 0` -/
  | freeWorker
  /-- worker: `shutdown == 1 || status == CS_WS_TSK_ASSIGNED` -/
  | woken
  /-- worker: `assigned_tsk != NULL` -/
  | hasTask
  /-- worker: `status == CS_WS_TSK_ASSIGNED` -/
  | statusAssigned
  /-- worker: `status == CS_WS_WORKING` -/
  | statusWorking
  /-- `cs_wp_tsk_enqueue`: the id is not in the table -/
  | noDuplicate
  /-- `cs_wp_tsk_enqueue`: the table has one task more -/
  | oneMore
  /-- `cs_wp_tsk_enqueue`: the id is in the table -/
  | isInserted
  deriving DecidableEq, Repr

/-- `cs_workerpool_t` with its queue, task table and threads. -/
structure Pool (n : Nat) (α : Type) where
  status : PoolStatus
  tskQ : CsQueue TskId
  /-- `workerpool_semaphore` -/
  poolSem : Nat
  workers : Fin n → Worker
  ctl : ControllerPc n
  tsk : TskId → Tsk n α
  /-- the last value of `_cs_wp_new_tsk_id` -/
  lastId : TskId
  tableMutex : Option (Caller n)
  /-- `tsk_res_table`, as the list of its tasks -/
  table : List TskId
  calls : Caller n → CallPc α
  shut : Shutdown
  /-- the assertion that has failed and aborted the process -/
  aborted : Option Assertion
  /-- the ids that calls of `cs_wp_tsk_enqueue` have returned -/
  returned : List TskId

/-- What the clients of a pool see of a step. -/
inductive PoolEvent (n : Nat) (α : Type) where
  | tau
  | startRet (r : Int)
  | statusCall (k : Caller n)
  | statusRet (k : Caller n) (st : PoolStatus)
  | enqueueCall (k : Caller n) (x : α)
  | enqueueRet (k : Caller n) (r : Int)
  | waitCall (k : Caller n) (id : Int)
  | waitRet (k : Caller n) (id : Int)
  /-- worker `w` calls the code of task `t` -/
  | started (w : Fin n) (t : TskId) (x : Option α)
  /-- the code of task `t` returns to worker `w` -/
  | finished (w : Fin n) (t : TskId)
  | shutdownCall
  | shutdownRet (r : Int)

variable {n : Nat} {α : Type}

/-- `cs_wp_init` for a task queue of `bound` places. -/
def csWpInit (n : Nat) (α : Type) (bound : Nat) : Pool n α where
  status := .ready
  tskQ := csQueueInit bound
  poolSem := n
  workers := fun _ =>
    { waitingSem := 0, assignedTsk := none, status := .ready, shutdown := false, pc := .notCreated }
  ctl := .notCreated
  tsk := fun _ => { tskCode := none, status := .waiting, taskSem := 0, hist := [] }
  lastId := 0
  tableMutex := none
  table := []
  calls := fun _ => .idle
  shut := .idle
  aborted := none
  returned := []

namespace Pool

/-- Replace the record of worker `w`. -/
@[simps]
def setWorker (s : Pool n α) (w : Fin n) (d : Worker) : Pool n α :=
  { s with workers := Function.update s.workers w d }

/-- Replace the record of task `t`. -/
@[simps]
def setTsk (s : Pool n α) (t : TskId) (d : Tsk n α) : Pool n α :=
  { s with tsk := Function.update s.tsk t d }

/-- Record an event of task `t`. -/
@[simps]
def log (s : Pool n α) (t : TskId) (e : TskEvent n) : Pool n α :=
  { s with tsk := Function.update s.tsk t { s.tsk t with hist := (s.tsk t).hist ++ [e] } }

/-- Move the caller `k`. -/
@[simps]
def setCall (s : Pool n α) (k : Caller n) (c : CallPc α) : Pool n α :=
  { s with calls := Function.update s.calls k c }

/-- A failed assertion aborts the process. -/
@[simps]
def abort (s : Pool n α) (a : Assertion) : Pool n α := { s with aborted := some a }

/-- `cs_wp_start`, on a pool that has not been started before. -/
def csWpStart (s : Pool n α) : Option (Pool n α × PoolEvent n α) :=
  if s.shut.holds then none
  else if s.status ≠ .ready then some (s, .startRet (-1))
  else if s.ctl = .notCreated then
    some ({ s with
      workers := fun w => { s.workers w with status := .waiting, pc := .semWait }
      ctl := .dequeueWait
      status := .working }, .startRet 0)
  else none

/-- The next step of worker `w` outside `tsk_code` (`_cs_wp_worker_behaviour`). -/
def workerBehaviour (s : Pool n α) (w : Fin n) : Option (Pool n α × PoolEvent n α) :=
  let mydata := s.workers w
  match mydata.pc with
  | .notCreated | .performing _ | .exited => none
  | .semWait =>
      if 0 < mydata.waitingSem then
        some (s.setWorker w { mydata with waitingSem := mydata.waitingSem - 1, pc := .woken }, .tau)
      else none
  | .woken =>
      if mydata.shutdown ∨ mydata.status = .tskAssigned then
        some (s.setWorker w { mydata with pc := .takeTask }, .tau)
      else some (s.abort .woken, .tau)
  | .takeTask =>
      match mydata.assignedTsk with
      | none =>
          if mydata.shutdown then some (s.setWorker w { mydata with pc := .exited }, .tau)
          else some (s.abort .hasTask, .tau)
      | some t =>
          if mydata.status = .tskAssigned then
            some ((s.setWorker w { mydata with status := .working, pc := .performing t }).log t
              (.started w), .started w t (s.tsk t).tskCode)
          else some (s.abort .statusAssigned, .tau)
  | .release t =>
      if mydata.status = .working then
        some ({ s with poolSem := s.poolSem + 1 }.setWorker w
          { mydata with status := .waiting, assignedTsk := none, pc := .setDone t }, .tau)
      else some (s.abort .statusWorking, .tau)
  | .setDone t =>
      some ((s.setWorker w { mydata with pc := .signalEnd t }).setTsk t
        { s.tsk t with status := .done }, .tau)
  | .signalEnd t =>
      some ((s.setWorker w { mydata with pc := .semWait }).setTsk t
        { s.tsk t with taskSem := (s.tsk t).taskSem + 1 }, .tau)

/-- The code of the task that worker `w` performs returns. -/
def taskReturn (s : Pool n α) (w : Fin n) : Option (Pool n α × PoolEvent n α) :=
  match (s.workers w).pc, s.calls (.task w) with
  | .performing t, .idle =>
      some ((s.setWorker w { s.workers w with pc := .release t }).log t (.returned w), .finished w t)
  | _, _ => none

/-- The next step of `_cs_wp_controller_behaviour`. -/
def controllerBehaviour (s : Pool n α) : Option (Pool n α × PoolEvent n α) :=
  match s.ctl with
  | .notCreated | .ended => none
  | .dequeueWait =>
      if 0 < s.tskQ.qsem then
        some ({ s with tskQ := { s.tskQ with qsem := s.tskQ.qsem - 1 }, ctl := .dequeue }, .tau)
      else none
  | .dequeue =>
      match csQueueDequeue s.tskQ with
      | .null => some ({ s with ctl := .sendShutdown 0 }, .tau)
      | .noHead => some (s.abort .queueHead, .tau)
      | .badSize => some (s.abort .queueSize, .tau)
      | .elem t q => some ({ s with tskQ := q, ctl := .poolSem t }.log t .dequeued, .tau)
  | .poolSem t =>
      if 0 < s.poolSem then some ({ s with poolSem := s.poolSem - 1, ctl := .scan t 0 }, .tau)
      else none
  | .scan t count =>
      if h : count < n then
        if (s.workers ⟨count, h⟩).status = .waiting then
          some ({ s with ctl := .assign t ⟨count, h⟩ }, .tau)
        else some ({ s with ctl := .scan t (count + 1) }, .tau)
      else some (s.abort .freeWorker, .tau)
  | .assign t w =>
      some (({ s with ctl := .notify w }.setWorker w
        { s.workers w with assignedTsk := some t, status := .tskAssigned }).log t (.assigned w), .tau)
  | .notify w =>
      some ({ s with ctl := .dequeueWait }.setWorker w
        { s.workers w with waitingSem := (s.workers w).waitingSem + 1 }, .tau)
  | .sendShutdown count =>
      if h : count < n then
        some ({ s with ctl := .postShutdown count }.setWorker ⟨count, h⟩
          { s.workers ⟨count, h⟩ with shutdown := true }, .tau)
      else some ({ s with ctl := .join 0 }, .tau)
  | .postShutdown count =>
      if h : count < n then
        some ({ s with ctl := .sendShutdown (count + 1) }.setWorker ⟨count, h⟩
          { s.workers ⟨count, h⟩ with waitingSem := (s.workers ⟨count, h⟩).waitingSem + 1 }, .tau)
      else none
  | .join count =>
      if h : count < n then
        if (s.workers ⟨count, h⟩).pc = .exited then some ({ s with ctl := .join (count + 1) }, .tau)
        else none
      else some ({ s with ctl := .ended }, .tau)

/-- A thread may call the pool: an outside one always, a task while it is performed. -/
def mayCall (s : Pool n α) : Caller n → Bool
  | .ext _ => true
  | .task w => match (s.workers w).pc with
      | .performing _ => true
      | _ => false

/-- `rb_insert` on the task table. -/
def rbInsert (table : List TskId) (t : TskId) : List TskId := if t ∈ table then table else t :: table

/-- The next step of the call that `k` has made. Making the task record
(`enqCreate`) is the separate step `createTsk`. -/
def callStep (s : Pool n α) (k : Caller n) : Option (Pool n α × PoolEvent n α) :=
  match s.calls k with
  | .idle | .enqCreate _ => none
  | .getStatus =>
      if s.shut.holds then none else some (s.setCall k .idle, .statusRet k s.status)
  | .enqStatus x =>
      if s.shut.holds then none
      else if s.status ≠ .working then some (s.setCall k .idle, .enqueueRet k (-1))
      else some (s.setCall k (.enqCreate x), .tau)
  | .enqTable t =>
      if s.tableMutex = none then
        some ({ s with tableMutex := some k }.setCall k (.enqLimit t), .tau)
      else none
  | .enqLimit t =>
      if 0 < s.tskQ.qlimitSem then
        some ({ s with tskQ := { s.tskQ with qlimitSem := s.tskQ.qlimitSem - 1 } }.setCall k
          (.enqQueue t), .tau)
      else none
  | .enqQueue t =>
      let s' := { s with tskQ := (csQueueEnqueue s.tskQ t).1 }.setCall k
        (.enqInsert t (csQueueEnqueue s.tskQ t).2)
      some (if s.tskQ.status = .opened then s'.log t .inserted else s', .tau)
  | .enqInsert t r =>
      if r < 0 then some ({ s with tableMutex := none }.setCall k .idle, .enqueueRet k (-1))
      else if t ∈ s.table then some (s.abort .noDuplicate, .tau)
      else if (rbInsert s.table t).length ≠ s.table.length + 1 then some (s.abort .oneMore, .tau)
      else if t ∉ rbInsert s.table t then some (s.abort .isInserted, .tau)
      else some ({ s with table := rbInsert s.table t
                          tableMutex := none
                          returned := t :: s.returned }.setCall k .idle, .enqueueRet k t)
  | .waitFind id =>
      if s.tableMutex ≠ none then none
      else if 0 ≤ id ∧ id.toNat ∈ s.table then some (s.setCall k (.waitStatus id.toNat), .tau)
      else some (s.setCall k .idle, .waitRet k id)
  | .waitStatus t =>
      if (s.tsk t).status = .done then some (s.setCall k .idle, .waitRet k t)
      else some (s.setCall k (.waitSem t), .tau)
  | .waitSem t =>
      if 0 < (s.tsk t).taskSem then
        some ((s.setTsk t { s.tsk t with taskSem := (s.tsk t).taskSem - 1 }).setCall k .idle,
          .waitRet k t)
      else none

/-- `calloc` and `_cs_wp_new_tsk_id` in `cs_wp_tsk_enqueue`. The counter is shared by all
pools, so the new id `t` may be any above the last one of this pool. -/
def createTsk (s : Pool n α) (k : Caller n) (t : TskId) : Option (Pool n α × PoolEvent n α) :=
  match s.calls k with
  | .enqCreate x =>
      if s.lastId < t then
        some (({ s with lastId := t }.setTsk t
          { tskCode := some x, status := .waiting, taskSem := 0, hist := [] }).setCall k
            (.enqTable t), .tau)
      else none
  | _ => none

/-- The next step of `cs_wp_shutdown`. -/
def shutdownStep (s : Pool n α) : Option (Pool n α × PoolEvent n α) :=
  match s.shut with
  | .idle | .returned => none
  | .lock => some ({ s with shut := .check }, .tau)
  | .check =>
      if s.status ≠ .working then some ({ s with shut := .returned }, .shutdownRet 0)
      else some ({ s with shut := .close }, .tau)
  | .close => some ({ s with tskQ := csQueueClose s.tskQ, shut := .join }, .tau)
  | .join => if s.ctl = .ended then some ({ s with shut := .finish }, .tau) else none
  | .finish => some ({ s with status := .ready, shut := .returned }, .shutdownRet 0)

/-- The actions of the threads. -/
inductive Action (n : Nat) (α : Type) where
  | start
  | callGetStatus (k : Caller n)
  | callEnqueue (k : Caller n) (x : α)
  | callWait (k : Caller n) (id : Int)
  | callShutdown
  | call (k : Caller n)
  | create (k : Caller n) (t : TskId)
  | worker (w : Fin n)
  | taskReturn (w : Fin n)
  | controller
  | shutdown

/-- `k` begins a call. -/
def beginCall (s : Pool n α) (k : Caller n) (c : CallPc α) (e : PoolEvent n α) :
    Option (Pool n α × PoolEvent n α) :=
  match s.calls k with
  | .idle => if s.mayCall k then some (s.setCall k c, e) else none
  | _ => none

/-- One step of a pool, with what its clients see of it. -/
def stepEvent (s : Pool n α) (a : Action n α) : Option (Pool n α × PoolEvent n α) :=
  if s.aborted.isSome then none
  else match a with
    | .start => s.csWpStart
    | .callGetStatus k => s.beginCall k .getStatus (.statusCall k)
    | .callEnqueue k x => s.beginCall k (.enqStatus x) (.enqueueCall k x)
    | .callWait k id => s.beginCall k (.waitFind id) (.waitCall k id)
    | .callShutdown =>
        if s.shut = .idle ∨ s.shut = .returned then some ({ s with shut := .lock }, .shutdownCall)
        else none
    | .call k => s.callStep k
    | .create k t => s.createTsk k t
    | .worker w => s.workerBehaviour w
    | .taskReturn w => s.taskReturn w
    | .controller => s.controllerBehaviour
    | .shutdown => s.shutdownStep

def step (s : Pool n α) (a : Action n α) : Option (Pool n α) := (s.stepEvent a).map Prod.fst

end Pool

/-- A pool of `n` workers and a queue of `bound` places, from `cs_wp_init` on. -/
def system (n : Nat) (α : Type) (bound : Nat) : Lts.System (Pool n α) (Pool.Action n α) :=
  .ofFn (· = csWpInit n α bound) Pool.step

end ComplexSim.Workerpool
