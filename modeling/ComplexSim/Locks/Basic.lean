import ComplexSim.Lib.Locking
import ComplexSim.Workerpool.Basic

/-!
# What the operations lock: the queue and the timer (`src/cs_queue.c`, `src/cs_timer.c`)

Each function is the program of what it locks and unlocks. What it reads in memory, and what the functions of the C
library, of the threads and of the trees return, are the replies to its calls: any reply may come at any time. What a
function writes and what it prints is left out. A null pointer that is followed and an assertion that fails end the
process.

The mutexes are those that the initialisation has made, so that a lock returns 0; an unlock returns 0 if the thread
holds the mutex. `pthread_cond_wait` gives the mutex back as it has taken it.
-/

namespace ComplexSim.Locks

open Locking Workerpool

/-- The mutexes of a queue, a pool with its queue, an event manager with its pool, and a timer. -/
inductive Mutex where
  /-- `qmutex` -/
  | queue
  /-- `wp_mutex` -/
  | pool
  /-- `table_mutex` -/
  | table
  /-- `worker_mutex` -/
  | worker (w : Nat)
  /-- `ev_tree_lock` -/
  | evTree
  /-- `eh_tree_lock` -/
  | ehTree
  /-- `mutex` of an event manager -/
  | manager
  /-- `wait_mutex` -/
  | wait
  /-- `mutex` of a timer -/
  | timer
  deriving DecidableEq, Repr

/-- The mutex is made by `cs_make_recursive_mutex`. -/
def Mutex.recursive : Mutex → Bool
  | .queue | .worker _ => false
  | .pool | .table | .evTree | .ehTree | .manager | .wait | .timer => true

/-- What has a number as value. -/
inductive IntCall where
  | semInit | semWait | semTrywait | semPost
  | pthreadCreate | pthreadJoin | condInit | condWait | condBroadcast
  /-- what frees or destroys something -/
  | destroy
  /-- `q->rel_func` -/
  | relFunc
  /-- the handler of an event -/
  | handler
  /-- `_cs_wp_new_tsk_id` -/
  | newTskId
  /-- `strlen` -/
  | strlen
  /-- `sem_getvalue(q->qsem, ..)` -/
  | qsemValue
  /-- `q->size` -/
  | queueSize
  /-- `rb_count` of the table of tasks -/
  | tskCount
  | clock | stop | sync | nSync
  | running | lastCompletion
  /-- `count` and `scheduled_at` of a list of events -/
  | evCount | scheduledAt
  deriving DecidableEq

/-- The functions that look something up in a tree. -/
inductive Lookup where
  | tskWait | tskGetRes | tskPopRes
  /-- the two assertions of `cs_wp_tsk_enqueue` -/
  | tskBefore | tskAfter
  | getEvents | popEvents | deleteEvents | scheduleEvent
  | getHandler | installHandler
  deriving DecidableEq

/-- What has a pointer as value, of which it is asked whether it is not NULL. -/
inductive PtrCall where
  /-- `malloc` or `calloc` -/
  | alloc
  /-- `malloc` in `_cs_wp_get_tsk_res_copy` -/
  | allocCopy
  | queueHead
  /-- `q->head->prev` -/
  | headPrev
  | qsem | qlimitSem | qmutex
  | rbCreate
  /-- `rb_find`, or `rb_delete` where the function deletes what it finds -/
  | find (f : Lookup)
  /-- `rb_insert`, `rb_replace` -/
  | rbInsert | rbReplace
  /-- `rb_t_first`, `rb_t_last` -/
  | rbFirst | rbLast
  | ev | etype
  /-- `handler` of an entry -/
  | handler
  /-- `head` and `tail` of a list of events -/
  | evHead | evTail
  /-- `evm->wp` -/
  | evmWp
  deriving DecidableEq

/-- How many there are. -/
inductive CountCall where
  /-- the elements of a queue, the events of a list -/
  | elements | events
  /-- `wp->nthreads` -/
  | nthreads
  /-- `rb_count` of the tree of events -/
  | evTree
  deriving DecidableEq

inductive Call where
  | int (c : IntCall)
  | ptr (c : PtrCall)
  | count (c : CountCall)
  | queueStatus
  | poolStatus
  | tskStatus

/-- The replies to a call; of a pointer, whether it is not NULL. -/
@[reducible] def Reply : Call → Type
  | .int _ => Int
  | .ptr _ => Bool
  | .count _ => Nat
  | .queueStatus => QueueStatus
  | .poolStatus => PoolStatus
  | .tskStatus => TskStatus

abbrev interface : Interface := ⟨Call, Reply⟩

abbrev Code (α : Type) := Prog Mutex interface α

/-- A path of the code. -/
abbrev CodePath {α : Type} := Path (I := interface) (α := α) fun m => Mutex.recursive m = true

/-- What is seen of a path of the code. -/
abbrev Trace := List (Event Mutex interface)

/-- A look-up finds nothing. -/
abbrev notFound (f : Lookup) : Event Mutex interface := .call (.ptr (.find f)) false

/-- There is no memory for the copy of a result. -/
abbrev noCopy : Event Mutex interface := .call (.ptr .allocCopy) false

def int (c : IntCall) : Code Int := call (I := interface) (.int c)

def ptr (c : PtrCall) : Code Bool := call (I := interface) (.ptr c)

def count (c : CountCall) : Code Nat := call (I := interface) (.count c)

def queueStatus : Code QueueStatus := call (I := interface) .queueStatus

def poolStatus : Code PoolStatus := call (I := interface) .poolStatus

def tskStatus : Code TskStatus := call (I := interface) .tskStatus

section Wp

variable {ok : (c : interface.Call) → interface.Reply c → Prop} {α : Type} {Q : α → Counts Mutex → Prop}
  {own : Counts Mutex}

@[simp] theorem wp_int {c : IntCall} {f : Int → Code α} :
    wp ok (int c >>= f) Q own ↔ ∀ r : Int, ok (.int c) r → wp ok (f r) Q own := wp_call_bind

@[simp] theorem wp_ptr {c : PtrCall} {f : Bool → Code α} :
    wp ok (ptr c >>= f) Q own ↔ ∀ r : Bool, ok (.ptr c) r → wp ok (f r) Q own := wp_call_bind

@[simp] theorem wp_int_end {c : IntCall} {Q : Int → Counts Mutex → Prop} :
    wp ok (int c) Q own ↔ ∀ r : Int, ok (.int c) r → Q r own := Iff.rfl

@[simp] theorem wp_ptr_end {c : PtrCall} {Q : Bool → Counts Mutex → Prop} :
    wp ok (ptr c) Q own ↔ ∀ r : Bool, ok (.ptr c) r → Q r own := Iff.rfl

@[simp] theorem wp_count {c : CountCall} {f : Nat → Code α} :
    wp ok (count c >>= f) Q own ↔ ∀ r : Nat, ok (.count c) r → wp ok (f r) Q own := wp_call_bind

@[simp] theorem wp_queueStatus {f : QueueStatus → Code α} :
    wp ok (queueStatus >>= f) Q own ↔ ∀ r : QueueStatus, ok .queueStatus r → wp ok (f r) Q own := wp_call_bind

@[simp] theorem wp_poolStatus {f : PoolStatus → Code α} :
    wp ok (poolStatus >>= f) Q own ↔ ∀ r : PoolStatus, ok .poolStatus r → wp ok (f r) Q own := wp_call_bind

@[simp] theorem wp_tskStatus {f : TskStatus → Code α} :
    wp ok (tskStatus >>= f) Q own ↔ ∀ r : TskStatus, ok .tskStatus r → wp ok (f r) Q own := wp_call_bind

end Wp

theorem path_ptr_bind {α : Type} {c : PtrCall} {f : Bool → Code α} {h h' : Counts Mutex} {tr : Trace} {e : Option α}
    (hpath : CodePath h (ptr c >>= f) tr h' e) :
    (∃ (r : Bool) (tr' : Trace), tr = .call (.ptr c) r :: tr' ∧ CodePath h (f r) tr' h' e) ∨ (tr = [] ∧ e = none) :=
  path_call_bind hpath

variable {ok : (c : interface.Call) → interface.Reply c → Prop}

/-- `cs_make_recursive_mutex`; `pthread_mutexattr_settype` and `pthread_mutex_init` follow their arguments. -/
def csMakeRecursiveMutex : Code Bool := do
  let m ← ptr .alloc
  let attr ← ptr .alloc
  if attr && m then return true else fault

theorem csMakeRecursiveMutex_neutral : Neutral ok csMakeRecursiveMutex := by
  intro own
  simp [csMakeRecursiveMutex]

/-- Whether there is no semaphore, or it cannot be initialised: `sem == NULL || sem_init(sem, ..) != 0`. -/
def semFails (sem : Bool) : Code Bool := do
  if sem then
    let r ← int .semInit
    return r != 0
  else return true

theorem semFails_neutral (sem : Bool) : Neutral ok (semFails sem) := by
  intro own
  simp [semFails]

section Queue

def csQueueClose : Code Int := do
  let r ← lock .queue
  if r ≠ 0 then return -1
  else
    let _ ← int .semPost
    let r ← unlock .queue
    if r ≠ 0 then return -1 else return 0

theorem csQueueClose_neutral : Neutral ok csQueueClose := by
  intro own
  simp [csQueueClose]

def csQueueSize : Code Int := do
  let _ ← lock .queue
  let ret ← int .queueSize
  let _ ← unlock .queue
  return ret

theorem csQueueSize_neutral : Neutral ok csQueueSize := by
  intro own
  simp [csQueueSize]

/-- A part of a queue is destroyed and freed if there is one. -/
def destroyPart (part : PtrCall) : Code Unit := do
  let p ← ptr part
  if p then
    let _ ← int .destroy
    let _ ← int .destroy
    return ()
  else return ()

theorem destroyPart_neutral (part : PtrCall) : Neutral ok (destroyPart part) := by
  intro own
  simp [destroyPart]

/-- The loop of `cs_queue_destroy` over the elements. -/
def destroyElems : Nat → Code Unit
  | 0 => return ()
  | k + 1 => do
    let _ ← int .relFunc
    let _ ← int .destroy
    destroyElems k

theorem destroyElems_neutral (k : Nat) : Neutral ok (destroyElems k) := by
  induction k with
  | zero => intro own; simp [destroyElems]
  | succ k ih =>
      intro own
      simp only [destroyElems, wp_int]
      exact fun _ _ _ _ => ih own

def csQueueDestroy : Code Unit := do
  let _ ← int .destroy
  destroyPart .qsem
  destroyPart .qlimitSem
  destroyPart .qmutex
  let k ← count .elements
  destroyElems k

theorem csQueueDestroy_neutral : Neutral ok csQueueDestroy := by
  intro own
  simp only [csQueueDestroy, wp_int]
  intro _ _
  refine (destroyPart_neutral .qsem).bind fun _ => (destroyPart_neutral .qlimitSem).bind fun _ =>
    (destroyPart_neutral .qmutex).bind fun _ => ?_
  simp only [wp_count]
  exact fun k _ => destroyElems_neutral k own

/-- `cs_queue_init`; the queue is `given`, or it is NULL. -/
def csQueueInit (given : Bool) : Code Int := do
  if !given then return -1
  else
    let name ← ptr .alloc
    let len ← int .strlen
    if !name && len ≠ 0 then fault
    else
      let qmutex ← ptr .alloc
      if !qmutex then
        csQueueDestroy
        return -1
      else
        let qsem ← ptr .alloc
        let qlimitSem ← ptr .alloc
        let fails ← semFails qsem
        if fails then
          csQueueDestroy
          return -1
        else
          let fails ← semFails qlimitSem
          if fails then
            csQueueDestroy
            return -1
          else return 0

theorem csQueueInit_neutral (given : Bool) : Neutral ok (csQueueInit given) := by
  intro own
  have hdestroy : wp ok (do csQueueDestroy; return (-1 : Int)) (fun _ own' => own' = own) own :=
    csQueueDestroy_neutral.bind fun _ => rfl
  simp only [csQueueInit, wp_ite, wp_ptr, wp_int, wp_pure, wp_fault, implies_true, true_and]
  refine fun _ name _ len _ _ qmutex _ => ⟨fun _ => hdestroy, fun _ qsem _ qlimitSem _ => ?_⟩
  refine (semFails_neutral qsem).bind fun fails => ?_
  simp only [wp_ite]
  refine ⟨fun _ => hdestroy, fun _ => (semFails_neutral qlimitSem).bind fun fails => ?_⟩
  simp only [wp_ite]
  exact ⟨fun _ => hdestroy, fun _ => rfl⟩

def csQueueEnqueue (blocking : Bool) : Code Int := do
  let r ← int (if blocking then .semWait else .semTrywait)
  if r ≠ 0 then
    -- `QUEUE_FULL` is 2
    if blocking then return -1 else return 2
  else
    let r ← lock .queue
    if r ≠ 0 then return -1
    else
      let status ← queueStatus
      if status = .opened then
        let elem ← ptr .alloc
        if !elem then
          let r ← unlock .queue
          if r ≠ 0 then return -1
          -- the element is written to all the same
          else fault
        else
          let r ← int .semPost
          if r ≠ 0 then
            let _ ← unlock .queue
            return -1
          else
            let r ← unlock .queue
            if r ≠ 0 then return -1 else return 0
      else
        let r ← unlock .queue
        if r ≠ 0 then return -1 else return 0

theorem csQueueEnqueue_neutral (blocking : Bool) : Neutral ok (csQueueEnqueue blocking) := by
  intro own
  simp [csQueueEnqueue]

/-- `cs_queue_dequeue`; whether it returns data. -/
def csQueueDequeue (blocking : Bool) : Code Bool := do
  let r ← int (if blocking then .semWait else .semTrywait)
  if r ≠ 0 then return false
  else
    let r ← lock .queue
    if r ≠ 0 then return false
    else
      let head ← ptr .queueHead
      let status ← queueStatus
      if !head && status = .closed then
        let _ ← unlock .queue
        return false
      else if !head then fault
      else
        let oldSize ← int .queueSize
        let prev ← ptr .headPrev
        if oldSize > 1 && !prev then fault
        else
          let assctl ← int .qsemValue
          let status ← queueStatus
          if oldSize - 1 ≠ assctl && status ≠ .closed then fault
          else
            let r ← int .semPost
            if r ≠ 0 then
              let _ ← unlock .queue
              return false
            else
              let r ← unlock .queue
              if r ≠ 0 then return false
              else
                let _ ← int .destroy
                return true

theorem csQueueDequeue_neutral (blocking : Bool) : Neutral ok (csQueueDequeue blocking) := by
  intro own
  simp [csQueueDequeue]

end Queue

section Timer

/-- `_cs_init_timer`; the timer is `given`, or it is NULL. -/
def csInitTimerWith (given : Bool) : Code Unit := do
  if !given then return ()
  else
    let _ ← csMakeRecursiveMutex
    let cond ← ptr .alloc
    if !cond then fault
    else
      let _ ← int .condInit
      return ()

theorem csInitTimerWith_neutral (given : Bool) : Neutral ok (csInitTimerWith given) := by
  intro own
  simp only [csInitTimerWith, wp_ite, wp_pure, implies_true, true_and]
  refine fun _ => csMakeRecursiveMutex_neutral.bind fun _ => ?_
  simp

def csInitTimer (given : Bool) : Code Unit := csInitTimerWith given

def csSetNsync : Code Unit := do
  let _ ← lock .timer
  let _ ← int .nSync
  let _ ← unlock .timer
  return ()

theorem csSetNsync_neutral : Neutral ok csSetNsync := by
  intro own
  simp [csSetNsync]

def csGetClock : Code Int := do
  let _ ← lock .timer
  let ret ← int .clock
  let _ ← unlock .timer
  return ret

theorem csGetClock_neutral : Neutral ok csGetClock := by
  intro own
  simp [csGetClock]

def csTimeSync : Code Int := do
  let _ ← lock .timer
  let stop ← int .stop
  if stop = 0 then
    let sync ← int .sync
    let nSync ← int .nSync
    if sync = nSync then
      let _ ← unlock .timer
      return -1
    else
      let _ ← int (if sync + 1 = nSync then .condBroadcast else .condWait)
      let _ ← unlock .timer
      return 0
  else
    let _ ← unlock .timer
    return -1

theorem csTimeSync_neutral : Neutral ok csTimeSync := by
  intro own
  simp [csTimeSync]

def csTimeStop : Code Unit := do
  let _ ← lock .timer
  let _ ← int .condBroadcast
  let _ ← unlock .timer
  return ()

theorem csTimeStop_neutral : Neutral ok csTimeStop := by
  intro own
  simp [csTimeStop]

def csDestroyTimer : Code Unit := do
  let _ ← int .destroy
  let _ ← int .destroy
  let _ ← int .destroy
  return ()

theorem csDestroyTimer_neutral : Neutral ok csDestroyTimer := by
  intro own
  simp [csDestroyTimer]

end Timer

end ComplexSim.Locks
