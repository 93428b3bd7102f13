import ComplexSim.Locks.Workerpool

/-!
# What the operations lock: the event manager (`src/cs_events.c`)

`cs_evm_throw_scheduled_events` locks the tree of events again in `get_events` and `cs_evm_delete_events`, while it
holds it. What a handler locks is its own affair: it is a call like others.
-/

namespace ComplexSim.Locks

open Locking Workerpool

variable {ok : (c : interface.Call) → interface.Reply c → Prop}

section Tree

def getEvents : Code Bool := do
  let _ ← lock .evTree
  let found ← ptr (.find .getEvents)
  let _ ← unlock .evTree
  return found

theorem getEvents_neutral : Neutral ok getEvents := by
  intro own
  simp [getEvents]

def popEvents : Code Bool := do
  let _ ← lock .evTree
  let found ← ptr (.find .popEvents)
  let _ ← unlock .evTree
  return found

theorem popEvents_neutral : Neutral ok popEvents := by
  intro own
  simp [popEvents]

/-- `destroy_event_list`, of a list that is not NULL. -/
def destroyEventList : Code Unit := do
  let count ← int .evCount
  if count = 0 then return ()
  else
    let _ ← int .destroy
    return ()

theorem destroyEventList_neutral : Neutral ok destroyEventList := by
  intro own
  simp [destroyEventList]

def csEvmDeleteEvents : Code Unit := do
  let _ ← lock .evTree
  let found ← ptr (.find .deleteEvents)
  if found then
    destroyEventList
    let _ ← int .destroy
    let _ ← unlock .evTree
    return ()
  else
    let _ ← unlock .evTree
    return ()

theorem csEvmDeleteEvents_neutral : Neutral ok csEvmDeleteEvents := by
  intro own
  simp only [csEvmDeleteEvents, wp_lock_bind, wp_ptr, wp_ite]
  refine fun found _ => ⟨fun _ => destroyEventList_neutral.bind fun _ => ?_, fun _ => ?_⟩
  · simp
  · simp

def csEvmEventTreeIsEmpty : Code Bool := do
  let _ ← lock .evTree
  let n ← count .evTree
  let _ ← unlock .evTree
  return n == 0

theorem csEvmEventTreeIsEmpty_neutral : Neutral ok csEvmEventTreeIsEmpty := by
  intro own
  simp [csEvmEventTreeIsEmpty]

/-- The loop of `cs_evm_num_events`. -/
def sumCounts (c : Int) : Nat → Code Int
  | 0 => return c
  | k + 1 => do
    let evCount ← int .evCount
    sumCounts (c + evCount) k

theorem sumCounts_neutral (c : Int) (k : Nat) : Neutral ok (sumCounts c k) := by
  induction k generalizing c with
  | zero => intro own; simp [sumCounts]
  | succ k ih =>
      intro own
      simp only [sumCounts, wp_int]
      exact fun evCount _ => ih (c + evCount) own

def csEvmNumEvents : Code Int := do
  let _ ← lock .evTree
  let n ← count .evTree
  if n = 0 then
    let _ ← unlock .evTree
    return 0
  else
    let evList ← ptr .rbFirst
    let c ← sumCounts 0 (if evList then n else 0)
    let _ ← unlock .evTree
    return c

theorem csEvmNumEvents_neutral : Neutral ok csEvmNumEvents := by
  intro own
  simp only [csEvmNumEvents, wp_lock_bind, wp_count, wp_ite, wp_ptr]
  refine fun n _ => ⟨fun _ => by simp, fun _ evList _ => (sumCounts_neutral 0 _).bind fun c => ?_⟩
  simp

def csEvmMoreEvents : Code Bool := do
  let n ← csEvmNumEvents
  return decide (0 < n)

theorem csEvmMoreEvents_neutral : Neutral ok csEvmMoreEvents := fun _ => csEvmNumEvents_neutral.bind fun _ => rfl

def csEvmScheduleEvent : Code Int := do
  let ev ← ptr .ev
  if !ev then fault
  else
    let etype ← ptr .etype
    if !etype then return -1
    else
      let newItem ← ptr .alloc
      let _ ← lock .evTree
      let found ← ptr (.find .scheduleEvent)
      if !found then
        let newList ← ptr .alloc
        if !newList then fault
        else
          let _ ← ptr .rbInsert
          let _ ← unlock .evTree
          return 0
      else
        let tail ← ptr .evTail
        if !tail || !newItem then fault
        else
          let _ ← unlock .evTree
          return 0

theorem csEvmScheduleEvent_neutral : Neutral ok csEvmScheduleEvent := by
  intro own
  simp [csEvmScheduleEvent]

/-- `cs_evm_find_nearest_events`, with `rb_t_first`, and `cs_evm_find_farthest_events`, with `rb_t_last`. -/
def findEvents (side : PtrCall) : Code Int := do
  let _ ← lock .evTree
  let found ← ptr side
  let _ ← unlock .evTree
  if found then
    let count ← int .evCount
    if count > 0 then int .scheduledAt else return -1
  else return -1

theorem findEvents_neutral (side : PtrCall) : Neutral ok (findEvents side) := by
  intro own
  simp [findEvents]

def csEvmFindNearestEvents : Code Int := findEvents .rbFirst

def csEvmFindFarthestEvents : Code Int := findEvents .rbLast

end Tree

section Handlers

/-- `cs_evm_get_handler`; whether there is a handler. -/
def csEvmGetHandler : Code Bool := do
  let _ ← lock .ehTree
  let ret ← ptr (.find .getHandler)
  let _ ← unlock .ehTree
  if ret then ptr .handler else return false

theorem csEvmGetHandler_neutral : Neutral ok csEvmGetHandler := by
  intro own
  simp [csEvmGetHandler]

def csEvmInstallHandler : Code Int := do
  let etype ← ptr .etype
  if !etype then return -1
  else
    let len ← int .strlen
    if len = 0 then return -1
    else
      let _ ← lock .ehTree
      let newEntry ← ptr .alloc
      if !newEntry then fault
      else
        let found ← ptr (.find .installHandler)
        let _ ← ptr (if found then .rbReplace else .rbInsert)
        let _ ← unlock .ehTree
        return 0

theorem csEvmInstallHandler_neutral : Neutral ok csEvmInstallHandler := by
  intro own
  simp [csEvmInstallHandler]

/-- `cs_evm_throw_event`; `CS_EH_NO_HANDLER` is 2. -/
def csEvmThrowEvent : Code Int := do
  let ev ← ptr .ev
  if !ev then fault
  else
    let etype ← ptr .etype
    if !etype then fault
    else
      let handler ← csEvmGetHandler
      if !handler then return 2 else int .handler

theorem csEvmThrowEvent_neutral : Neutral ok csEvmThrowEvent := by
  intro own
  simp only [csEvmThrowEvent, wp_ptr, wp_ite, wp_fault, implies_true, true_and]
  refine fun _ _ _ _ _ _ => csEvmGetHandler_neutral.bind fun handler => ?_
  simp

/-- The loop of `cs_evm_throw_scheduled_events` over the list, with `c` events thrown. -/
def throwEvents (c : Int) : Nat → Code Int
  | 0 => return c
  | k + 1 => do
    let _ ← csEvmThrowEvent
    throwEvents (c + 1) k

theorem throwEvents_neutral (c : Int) (k : Nat) : Neutral ok (throwEvents c k) := by
  induction k generalizing c with
  | zero => intro own; simp [throwEvents]
  | succ k ih => exact csEvmThrowEvent_neutral.seq fun _ => ih (c + 1)

def csEvmThrowScheduledEvents : Code Int := do
  let _ ← lock .evTree
  let evList ← getEvents
  if !evList then
    let _ ← unlock .evTree
    return 0
  else
    let n ← int .evCount
    if n = 0 then
      let _ ← unlock .evTree
      return 0
    else
      let head ← ptr .evHead
      if !head then fault
      else
        let k ← count .events
        let c ← throwEvents 0 (k + 1)
        csEvmDeleteEvents
        let _ ← unlock .evTree
        return c

theorem csEvmThrowScheduledEvents_neutral : Neutral ok csEvmThrowScheduledEvents := by
  intro own
  simp only [csEvmThrowScheduledEvents, wp_lock_bind]
  refine getEvents_neutral.bind fun evList => ?_
  simp only [wp_ite, wp_int, wp_ptr, wp_count, wp_fault, implies_true, true_and]
  refine ⟨fun _ => by simp, fun _ n _ => ⟨fun _ => by simp, fun _ _ _ _ k _ => ?_⟩⟩
  refine (throwEvents_neutral 0 (k + 1)).bind fun c => csEvmDeleteEvents_neutral.bind fun _ => ?_
  simp

end Handlers

section Lifecycle

/-- `cs_init_event_manager`; the manager is `given`, or it is NULL. -/
def csInitEventManager (given : Bool) (nworkers : Int) : Code Int := do
  if !given then return -1
  else
    let ehTree ← ptr .rbCreate
    if !ehTree then return -1
    else
      let evTree ← ptr .rbCreate
      if !evTree then return -1
      else
        let evTreeLock ← csMakeRecursiveMutex
        if !evTreeLock then return -1
        else
          let ehTreeLock ← csMakeRecursiveMutex
          if !ehTreeLock then return -1
          else
            let mutex ← csMakeRecursiveMutex
            if !mutex then return -1
            else
              let waitMutex ← csMakeRecursiveMutex
              if !waitMutex then return -1
              else
                let wp ← ptr .alloc
                if !wp then return -1
                else
                  let r ← csWpInit wp (nworkers + 1)
                  if r < 0 then return -1 else return 0

/-- One mutex is made after the other, or -1 is returned. -/
theorem makeMutex_neutral {p : Code Int} (hp : Neutral ok p) :
    Neutral ok (do let m ← csMakeRecursiveMutex; if !m then return -1 else p) := by
  refine fun own => csMakeRecursiveMutex_neutral.bind fun m => ?_
  simp only [wp_ite]
  exact ⟨fun _ => rfl, fun _ => hp own⟩

theorem csInitEventManager_neutral (given : Bool) (nworkers : Int) : Neutral ok (csInitEventManager given nworkers) := by
  intro own
  simp only [csInitEventManager, wp_ite, wp_ptr, wp_pure, implies_true, true_and]
  refine fun _ _ _ _ _ _ _ => makeMutex_neutral (makeMutex_neutral (makeMutex_neutral (makeMutex_neutral ?_))) own
  intro own
  simp only [wp_ite, wp_ptr, wp_pure, implies_true, true_and]
  refine fun wp _ _ => (csWpInit_neutral wp (nworkers + 1)).bind fun r => ?_
  simp

def csEvmStartController : Code Int := do
  let wp ← ptr .evmWp
  if !wp then fault
  else
    let r ← csWpStart
    if r < 0 then return -1
    else
      let r ← csWpTskEnqueue
      if r < 0 then return -1 else return 0

theorem csEvmStartController_neutral : Neutral ok csEvmStartController := by
  intro own
  simp only [csEvmStartController, wp_ptr, wp_ite, wp_fault, implies_true, true_and]
  refine fun _ _ _ => csWpStart_neutral.bind fun r => ?_
  simp only [wp_ite]
  refine ⟨fun _ => rfl, fun _ => csWpTskEnqueue_neutral.bind fun r => ?_⟩
  simp

/-- `_stop_controller`, `cs_evm_stop_controller`. -/
def csEvmStopController : Code Unit := do
  let _ ← lock .manager
  let _ ← unlock .manager
  return ()

theorem csEvmStopController_neutral : Neutral ok csEvmStopController := by
  intro own
  simp [csEvmStopController]

def csEvmRunning : Code Int := do
  let _ ← lock .manager
  let ret ← int .running
  let _ ← unlock .manager
  return ret

theorem csEvmRunning_neutral : Neutral ok csEvmRunning := by
  intro own
  simp [csEvmRunning]

def waitEventCompletion (clock : Int) : Code Unit := do
  let _ ← lock .wait
  let lastCompletion ← int .lastCompletion
  if lastCompletion < clock then
    let _ ← int .condWait
    let _ ← unlock .wait
    return ()
  else
    let _ ← unlock .wait
    return ()

theorem waitEventCompletion_neutral (clock : Int) : Neutral ok (waitEventCompletion clock) := by
  intro own
  simp [waitEventCompletion]

/-- `_cs_shutdown_event_manager`, from the shutdown of the pool on. -/
def shutdownWp : Code Unit := do
  let wp ← ptr .evmWp
  if !wp then fault
  else
    let _ ← csWpShutdown
    return ()

theorem shutdownWp_neutral : Neutral ok shutdownWp := by
  intro own
  simp only [shutdownWp, wp_ptr, wp_ite, wp_fault, implies_true, true_and]
  exact fun _ _ _ => csWpShutdown_neutral.bind fun _ => rfl

/-- `_cs_shutdown_event_manager`. -/
def csShutdownEventManager : Code Unit := do
  let running ← csEvmRunning
  if running ≠ 0 then
    csEvmStopController
    shutdownWp
  else shutdownWp

theorem csShutdownEventManager_neutral : Neutral ok csShutdownEventManager := by
  refine fun own => csEvmRunning_neutral.bind fun running => ?_
  simp only [wp_ite]
  exact ⟨fun _ => csEvmStopController_neutral.bind fun _ => shutdownWp_neutral own, fun _ => shutdownWp_neutral own⟩

/-- The end of `cs_destroy_event_manager`: the trees and their mutexes. -/
def destroyTrees : Code Unit := do
  let _ ← int .destroy
  return ()

def csDestroyEventManager : Code Unit := do
  csShutdownEventManager
  let wp ← ptr .evmWp
  if wp then
    csWpDestroy
    destroyTrees
  else destroyTrees

theorem csDestroyEventManager_neutral : Neutral ok csDestroyEventManager := by
  have htrees (own : Counts Mutex) : wp ok destroyTrees (fun _ own' => own' = own) own := by simp [destroyTrees]
  refine fun own => csShutdownEventManager_neutral.bind fun _ => ?_
  simp only [wp_ptr, wp_ite]
  exact fun _ _ => ⟨fun _ => csWpDestroy_neutral.bind fun _ => htrees own, fun _ => htrees own⟩

end Lifecycle

end ComplexSim.Locks
