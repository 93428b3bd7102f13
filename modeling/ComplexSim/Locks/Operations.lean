import ComplexSim.Locks.Events

/-!
# The operations are in balance (`include/cs_queue.h`, `cs_workerpool.h`, `cs_events.h`, `cs_timer.h`)

A thread may hold any of the mutexes, and any number of times where the mutex is recursive, when it calls an
operation. On every path of every operation it gives back what the operation takes, and no more, but for the two
that miss a result (`locks_balanced_iff`): then the table is unlocked once too often, and a caller that holds it
loses it (`get_res_loses_table`).
-/

namespace ComplexSim.Locks

open Locking Workerpool

/-- The operations of the queue, the pool, the event manager and the timer. -/
inductive Op where
  | queueInit | queueClose | queueSize | queueDestroy
  | queueEnqueue (blocking : Bool) | queueDequeue (blocking : Bool)
  | wpInit (nthreads : Int)
  | wpStart | wpShutdown | wpDestroy | wpGetStatus | wpSetStatus
  | wpTskEnqueue | wpTskQueueSize | wpTskWait | wpTskGetRes | wpTskPopRes
  | initEventManager (nworkers : Int)
  | destroyEventManager | evmStartController | evmStopController | evmRunning
  | waitEventCompletion (clock : Int)
  | evmScheduleEvent | getEvents | popEvents | evmDeleteEvents
  | evmGetHandler | evmInstallHandler | evmThrowEvent | evmThrowScheduledEvents
  | evmEventTreeIsEmpty | evmNumEvents | evmMoreEvents | evmFindNearestEvents | evmFindFarthestEvents
  | initTimer | setNsync | getClock | timeSync | timeStop | destroyTimer

/-- A function that follows its pointer, which is `given` or NULL. -/
def follow {α : Type} (given : Bool) (p : Code α) : Code Unit := if given then void p else fault

def Op.code (given : Bool) : Op → Code Unit
  | queueInit => void (csQueueInit given)
  | queueClose => follow given csQueueClose
  | queueSize => follow given csQueueSize
  | queueDestroy => follow given csQueueDestroy
  | queueEnqueue blocking => follow given (csQueueEnqueue blocking)
  | queueDequeue blocking => follow given (csQueueDequeue blocking)
  | wpInit nthreads => void (csWpInit given nthreads)
  | wpStart => follow given csWpStart
  | wpShutdown => follow given csWpShutdown
  | wpDestroy => follow given csWpDestroy
  | wpGetStatus => follow given csWpGetStatus
  | wpSetStatus => follow given csWpSetStatus
  | wpTskEnqueue => follow given csWpTskEnqueue
  | wpTskQueueSize => follow given csWpTskQueueSize
  | wpTskWait => follow given csWpTskWait
  | wpTskGetRes => follow given csWpTskGetRes
  | wpTskPopRes => follow given csWpTskPopRes
  | initEventManager nworkers => void (csInitEventManager given nworkers)
  | destroyEventManager => follow given csDestroyEventManager
  | evmStartController => follow given csEvmStartController
  | evmStopController => follow given csEvmStopController
  | evmRunning => follow given csEvmRunning
  | waitEventCompletion clock => follow given (Locks.waitEventCompletion clock)
  | evmScheduleEvent => follow given csEvmScheduleEvent
  | getEvents => follow given Locks.getEvents
  | popEvents => follow given Locks.popEvents
  | evmDeleteEvents => follow given csEvmDeleteEvents
  | evmGetHandler => follow given csEvmGetHandler
  | evmInstallHandler => follow given csEvmInstallHandler
  | evmThrowEvent => follow given csEvmThrowEvent
  | evmThrowScheduledEvents => follow given csEvmThrowScheduledEvents
  | evmEventTreeIsEmpty => follow given csEvmEventTreeIsEmpty
  | evmNumEvents => follow given csEvmNumEvents
  | evmMoreEvents => follow given csEvmMoreEvents
  | evmFindNearestEvents => follow given csEvmFindNearestEvents
  | evmFindFarthestEvents => follow given csEvmFindFarthestEvents
  | initTimer => void (csInitTimer given)
  | setNsync => follow given csSetNsync
  | getClock => follow given csGetClock
  | timeSync => follow given csTimeSync
  | timeStop => follow given csTimeStop
  | destroyTimer => follow given csDestroyTimer

/-- The result is not in the table; with `cs_wp_tsk_pop_res` there is besides no memory for a copy. -/
def Op.Misses (tr : Trace) : Op → Prop
  | wpTskGetRes => notFound .tskGetRes ∈ tr
  | wpTskPopRes => notFound .tskPopRes ∈ tr ∧ noCopy ∈ tr
  | _ => False

theorem follow_neutral {ok : (c : interface.Call) → interface.Reply c → Prop} {α : Type} {p : Code α} (given : Bool)
    (hp : Neutral ok p) : Neutral ok (follow given p) := by
  cases given with
  | false => exact fun _ => trivial
  | true => exact hp.void

variable {h h' : Counts Mutex} {tr : Trace} {e : Option Unit}

/-- Every operation is neutral, but for the two that read a result. -/
theorem Op.neutral {ok : (c : interface.Call) → interface.Reply c → Prop} {op : Op} (hget : op ≠ wpTskGetRes)
    (hpop : op ≠ wpTskPopRes) (given : Bool) : Neutral ok (op.code given) := by
  cases op with
  | queueInit => exact (csQueueInit_neutral given).void
  | queueClose => exact follow_neutral given csQueueClose_neutral
  | queueSize => exact follow_neutral given csQueueSize_neutral
  | queueDestroy => exact follow_neutral given csQueueDestroy_neutral
  | queueEnqueue blocking => exact follow_neutral given (csQueueEnqueue_neutral blocking)
  | queueDequeue blocking => exact follow_neutral given (csQueueDequeue_neutral blocking)
  | wpInit nthreads => exact (csWpInit_neutral given nthreads).void
  | wpStart => exact follow_neutral given csWpStart_neutral
  | wpShutdown => exact follow_neutral given csWpShutdown_neutral
  | wpDestroy => exact follow_neutral given csWpDestroy_neutral
  | wpGetStatus => exact follow_neutral given csWpGetStatus_neutral
  | wpSetStatus => exact follow_neutral given csWpSetStatus_neutral
  | wpTskEnqueue => exact follow_neutral given csWpTskEnqueue_neutral
  | wpTskQueueSize => exact follow_neutral given csQueueSize_neutral
  | wpTskWait => exact follow_neutral given csWpTskWait_neutral
  | wpTskGetRes => exact absurd rfl hget
  | wpTskPopRes => exact absurd rfl hpop
  | initEventManager nworkers => exact (csInitEventManager_neutral given nworkers).void
  | destroyEventManager => exact follow_neutral given csDestroyEventManager_neutral
  | evmStartController => exact follow_neutral given csEvmStartController_neutral
  | evmStopController => exact follow_neutral given csEvmStopController_neutral
  | evmRunning => exact follow_neutral given csEvmRunning_neutral
  | waitEventCompletion clock => exact follow_neutral given (waitEventCompletion_neutral clock)
  | evmScheduleEvent => exact follow_neutral given csEvmScheduleEvent_neutral
  | getEvents => exact follow_neutral given getEvents_neutral
  | popEvents => exact follow_neutral given popEvents_neutral
  | evmDeleteEvents => exact follow_neutral given csEvmDeleteEvents_neutral
  | evmGetHandler => exact follow_neutral given csEvmGetHandler_neutral
  | evmInstallHandler => exact follow_neutral given csEvmInstallHandler_neutral
  | evmThrowEvent => exact follow_neutral given csEvmThrowEvent_neutral
  | evmThrowScheduledEvents => exact follow_neutral given csEvmThrowScheduledEvents_neutral
  | evmEventTreeIsEmpty => exact follow_neutral given csEvmEventTreeIsEmpty_neutral
  | evmNumEvents => exact follow_neutral given csEvmNumEvents_neutral
  | evmMoreEvents => exact follow_neutral given csEvmMoreEvents_neutral
  | evmFindNearestEvents => exact follow_neutral given (findEvents_neutral .rbFirst)
  | evmFindFarthestEvents => exact follow_neutral given (findEvents_neutral .rbLast)
  | initTimer => exact (csInitTimerWith_neutral given).void
  | setNsync => exact follow_neutral given csSetNsync_neutral
  | getClock => exact follow_neutral given csGetClock_neutral
  | timeSync => exact follow_neutral given csTimeSync_neutral
  | timeStop => exact follow_neutral given csTimeStop_neutral
  | destroyTimer => exact follow_neutral given csDestroyTimer_neutral

theorem Op.misses_nil (op : Op) : ¬ op.Misses [] := by cases op <;> simp [Op.Misses]

/-- What holds of the paths of a function holds also where it follows its pointer. -/
theorem follow_inBalance_iff {p : Code Bool} {given : Bool} {op : Op}
    (hp : ∀ {e : Option Bool}, CodePath h p tr h' e → (InBalance h tr h' e ↔ ¬ op.Misses tr))
    (hpath : CodePath h (follow given p) tr h' e) : InBalance h tr h' e ↔ ¬ op.Misses tr := by
  cases given with
  | false =>
      obtain ⟨rfl, rfl⟩ := path_fault hpath
      have hfault : Neutral (fun _ _ => True) (fault : Code Unit) := fun _ => trivial
      exact iff_of_true (hfault.inBalance hpath fun _ _ _ => trivial) op.misses_nil
  | true =>
      obtain ⟨e', hpath, he⟩ := path_void hpath
      rw [← inBalance_congr he]
      exact hp hpath

/-- **Locks are balanced on every path**, of every operation and for every outcome of its calls, exactly unless
`cs_wp_tsk_get_res` does not find the result, or `cs_wp_tsk_pop_res` does not and has no memory for a copy. -/
theorem locks_balanced_iff (op : Op) (given : Bool) (hpath : CodePath h (op.code given) tr h' e) :
    InBalance h tr h' e ↔ ¬ op.Misses tr := by
  by_cases hget : op = .wpTskGetRes
  · subst hget
    exact follow_inBalance_iff csWpTskGetRes_inBalance_iff hpath
  · by_cases hpop : op = .wpTskPopRes
    · subst hpop
      exact follow_inBalance_iff csWpTskPopRes_inBalance_iff hpath
    · have hmisses : ¬ op.Misses tr := by cases op <;> simp_all [Op.Misses]
      exact iff_of_true ((Op.neutral hget hpop given).inBalance hpath fun _ _ _ => trivial) hmisses

/-- A thread that holds the table. -/
def holdsTable : Counts Mutex := push (fun _ => 0) .table

/-- `cs_wp_tsk_get_res` of a task that is done. -/
def foundTrace : Trace :=
  [.lock .table, .call (.ptr (.find .tskWait)) true, .unlock .table, .call .tskStatus TskStatus.done,
    .lock .table, .call (.ptr (.find .tskGetRes)) true, .call (.ptr .allocCopy) true, .unlock .table]

theorem found_path : CodePath holdsTable (Op.code true .wpTskGetRes) foundTrace holdsTable (some ()) := by
  refine .lock (Or.inl rfl) ?_
  refine .call _ ?_
  refine .unlock (Nat.succ_pos _) ?_
  rw [pop_push]
  refine .call _ ?_
  refine .lock (Or.inl rfl) ?_
  refine .call _ ?_
  refine .call _ ?_
  refine .unlock (Nat.succ_pos _) ?_
  rw [pop_push]
  exact .ret _ ()

/-- The result is found, and the table is held once, as before. -/
theorem locks_balanced_found : InBalance holdsTable foundTrace holdsTable (some ()) :=
  (locks_balanced_iff .wpTskGetRes true found_path).2 (by simp [Op.Misses, foundTrace])

/-- `cs_wp_tsk_get_res` of an id that is not in the table. -/
def missedTrace : Trace :=
  [.lock .table, .call (.ptr (.find .tskWait)) false, .unlock .table,
    .lock .table, .call (.ptr (.find .tskGetRes)) false, .unlock .table, .unlock .table]

theorem missed_path : CodePath holdsTable (Op.code true .wpTskGetRes) missedTrace (fun _ => 0) (some ()) := by
  refine .lock (Or.inl rfl) ?_
  refine .call _ ?_
  refine .unlock (Nat.succ_pos _) ?_
  rw [pop_push]
  refine .lock (Or.inl rfl) ?_
  refine .call _ ?_
  refine .unlock (Nat.succ_pos _) ?_
  rw [pop_push]
  -- the second unlock is that of the caller's own lock
  refine .unlock (by simp [holdsTable]) ?_
  rw [holdsTable, pop_push]
  exact .ret _ ()

/-- A caller that holds the table loses it to `cs_wp_tsk_get_res`. -/
theorem get_res_loses_table : ∃ tr h', CodePath holdsTable (Op.code true .wpTskGetRes) tr h' (some ()) ∧
    holdsTable .table = 1 ∧ h' .table = 0 ∧ unlocks tr .table = locks tr .table + 1 ∧
    ¬ InBalance holdsTable tr h' (some ()) := by
  refine ⟨missedTrace, fun _ => 0, missed_path, rfl, rfl, by decide, fun hb => ?_⟩
  have hkept : 0 = holdsTable .table := congrFun (hb.kept rfl) .table
  cases hkept

end ComplexSim.Locks
