import ComplexSim.Events.Slice
import ComplexSim.Timer.Basic
import ComplexSim.Workerpool.Batch

/-!
# The engine and the event controller (`src/cs_engine.c`, `src/cs_events.c`)

One run of `cs_sim_start` and `cs_engine_fini` by an engine with a timer, an event
manager of `W` event workers and no network runtime. `Env` is everything that is not
inside a worker pool: the engine thread, the event controller, the event workers and
the blocks of activities while the pools perform them. The pools are joined to it in
`Engine.System`; what an `Env` sees of a pool are the events of `observeEvm`, for the
pool of the event manager, and of `observeEng`, for the pool of the engine.

One step is one section under a mutex; what a thread computes from its own data goes
with the step before. Handlers and activities call the library through
`cs_evm_schedule_event` only, and return whenever they do. Allocations succeed.

`Log` only records what happened: no step reads it.
-/

namespace ComplexSim.Engine

open Workerpool Events

/-- `sim_type_t`. -/
inductive SimType where
  | activityScan
  | eventDriven
  deriving DecidableEq, Repr

/-- `activity_type_e`. -/
inductive ActivityType where
  | afterStep
  | user
  deriving DecidableEq, Repr

/-- `cs_user_activity_t`, as far as the engine reads it. -/
structure CsUserActivity where
  nsteps : Int
  nTasks : Nat
  lastExecutionTime : Int
  type : ActivityType
  deriving DecidableEq, Repr

/-- The task of an activity for one of its blocks. -/
structure UserTask where
  type : ActivityType
  act : Nat
  index : Nat
  deriving DecidableEq, Repr

/-- What the pool of the event manager performs. -/
inductive EvTask (δ : Type) where
  /-- `_ev_controller` -/
  | controller
  /-- `_ev_worker` -/
  | slice (d : EventWorkerData δ)
  deriving DecidableEq, Repr

/-- What stays fixed during a run: the kind of simulation, the activities bound before it,
and the event types with a handler. -/
structure Config where
  st : SimType
  activities : List CsUserActivity
  handlers : List String

/-- The threads that call `cs_time_sync`. -/
inductive Actor where
  | engine
  | controller
  deriving DecidableEq, Repr

section Activities

/-- `total_tasks`. -/
def totalTasks (l : List CsUserActivity) : Nat := (l.map (·.nTasks)).sum

/-- The test of `_loop_activity`; `none` if it divides by zero. -/
def CsUserActivity.due (a : CsUserActivity) (curTime : Int) (atype : ActivityType) : Option Bool :=
  if a.lastExecutionTime < 0 then some (decide (a.type = atype))
  else if a.nsteps = 0 then none
  else some (decide ((curTime - a.lastExecutionTime).tmod a.nsteps = 0 ∧ a.type = atype))

/-- The tasks of activity `i`, in the order in which they are enqueued. -/
def blocksOf (atype : ActivityType) (i nTasks : Nat) : List UserTask :=
  (List.range nTasks).map fun index => { type := atype, act := i, index := index }

/-- What `_loop_activity` enqueues, and the activities after it; the first of the list has
number `i`. -/
def scheduleActivities (curTime : Int) (atype : ActivityType) :
    Nat → List CsUserActivity → Option (List UserTask × List CsUserActivity)
  | _, [] => some ([], [])
  | i, a :: rest =>
      match a.due curTime atype, scheduleActivities curTime atype (i + 1) rest with
      | some true, some (codes, rest') =>
          some (blocksOf atype i a.nTasks ++ codes, { a with lastExecutionTime := curTime } :: rest')
      | some false, some (codes, rest') => some (codes, a :: rest')
      | _, _ => none

end Activities

/-- Where a thread is in `cs_evm_start_controller`. -/
inductive StartPc where
  | startTime (r : Int)
  /-- `cs_wp_start` -/
  | wp
  /-- `cs_wp_tsk_enqueue` of the controller -/
  | enqueue
  | inEnqueue
  deriving DecidableEq, Repr

/-- Where the engine is in `_loop_activity`. -/
inductive LoopPc where
  /-- before the first `cs_get_clock` -/
  | clock
  | join (j : Join UserTask)
  deriving DecidableEq, Repr

/-- Where the engine is in `cs_engine_fini`; of the four calls of `cs_wp_shutdown` the first
two are on the pool of the event manager. -/
inductive FiniPc where
  /-- `cs_evm_running` -/
  | running
  /-- `_stop_controller` -/
  | stop
  | shutdown (k : Nat)
  | inShutdown (k : Nat)
  deriving DecidableEq, Repr

/-- Where the thread of the engine is. -/
inductive EnginePc where
  /-- before `cs_sim_start` -/
  | main
  /-- `cs_evm_start_controller`, called by the program or by the engine -/
  | start (byMain : Bool) (q : StartPc)
  /-- `cs_set_nsync` -/
  | setNsync
  /-- the `cs_get_clock` at the head of `_engine_main_loop` -/
  | firstClock
  /-- `cs_evm_running` -/
  | evmRunning
  /-- `cs_wp_start(engine->wp)` -/
  | wpStart
  /-- `_loop_activity` -/
  | loop (atype : ActivityType) (q : LoopPc)
  /-- `_check_termination` -/
  | term
  /-- `cs_evm_more_events` -/
  | moreEvents
  /-- `cs_time_sync` -/
  | sync
  | inSync
  /-- the `cs_get_clock` after it -/
  | clock
  /-- `cs_evm_stop_controller` -/
  | stopController
  /-- `cs_time_stop` -/
  | timeStop
  /-- the closing assertion -/
  | closing
  /-- `wait_event_completion` -/
  | completion
  | inCompletion
  /-- `cs_sim_start` has returned -/
  | returned
  | fini (q : FiniPc)
  /-- `cs_engine_fini` has returned -/
  | done
  deriving DecidableEq, Repr

/-- The thread is about to enqueue the controller, or in that call. -/
def EnginePc.starting : EnginePc → Bool
  | .start _ .enqueue | .start _ .inEnqueue => true
  | _ => false

/-- Where the event controller is. -/
inductive CtlPc (δ : Type) where
  /-- not performed yet -/
  | off
  /-- `evm->start_time` is read -/
  | begin
  /-- `cs_get_clock` -/
  | firstClock
  /-- `_evm_set_running` -/
  | setRunning
  /-- `cs_time_sync` -/
  | sync
  | inSync
  /-- the `cs_get_clock` after it -/
  | clock
  /-- `_should_stop_controller` -/
  | shouldStop
  /-- `pop_events` -/
  | pop
  /-- the tasks of the list popped -/
  | batch (j : Join (EvTask δ))
  /-- `_signal_event_completion` -/
  | signal
  /-- `_set_evm_not_running` -/
  | setNotRunning
  /-- `_ev_controller` has returned -/
  | returned
  | gone
  deriving DecidableEq, Repr

/-- The walk of an event worker: `c` events of its slice are thrown, `curEv` is the chain from
the next one on, and `handling` is the event whose handler runs. -/
structure SliceRun (δ : Type) where
  data : EventWorkerData δ
  c : Nat
  curEv : List (CsEvent δ)
  handling : Option (CsEvent δ)
  deriving DecidableEq, Repr

/-- `cs_event_manager_t` without its timer, its pool and its handler table; `waitCond` is
where the engine is in the `pthread_cond_wait` of `wait_event_completion`. -/
structure Evm (δ : Type) where
  evTree : EvTree δ
  startTime : Int
  lastCompletion : Int
  stop : Bool
  running : Bool
  waitCond : Place

/-- The thread of the engine, with its local variables and `alist`. -/
structure EngineThread where
  pc : EnginePc
  curTime : Int
  stop : Bool
  activities : List CsUserActivity

/-- The event controller, performed by `worker`. -/
structure CtlThread (W : Nat) (δ : Type) where
  pc : CtlPc δ
  start : Int
  curTime : Int
  worker : Fin (W + 1)

/-- How a run may crash. -/
inductive Failure where
  /-- division by zero in `_loop_activity` -/
  | stepTest
  /-- division by zero in `_cs_ev_update_guards` -/
  | guardSpacing
  /-- `_ev_worker` exits: no event where it expects one -/
  | nullEvent
  /-- `cs_evm_throw_event`: `ev->etype != NULL` -/
  | eventType
  /-- `_engine_main_loop`: `cur_time == cs_get_clock(engine->timer)` -/
  | closing
  deriving DecidableEq, Repr

/-- What happened to events: those that `cs_evm_schedule_event` accepted, those popped by the
controller, those passed to `cs_evm_throw_event` with the clock at that moment, and those
thrown whose handler has returned. -/
structure Log (δ : Type) where
  accepted : List (Due δ)
  popped : List (Due δ)
  thrown : List (Due δ × Int)
  handled : List (Due δ)

/-- Everything outside the two pools: `W` event workers and `m` workers of the engine. -/
structure Env (W m : Nat) (δ : Type) where
  timer : Barrier Actor
  evm : Evm δ
  engine : EngineThread
  ctl : CtlThread W δ
  /-- the event worker that each worker of the event manager performs -/
  slices : Fin (W + 1) → Option (SliceRun δ)
  /-- the task that each worker of the engine performs -/
  blocks : Fin m → Option UserTask
  failed : Option Failure
  log : Log δ

/-- Who calls `cs_evm_schedule_event`. -/
inductive Source (W m : Nat) where
  /-- the program, before it calls `cs_sim_start` -/
  | main
  /-- the handler that worker `w` of the event manager runs -/
  | handler (w : Fin (W + 1))
  /-- the activity that worker `v` of the engine runs -/
  | activity (v : Fin m)
  deriving DecidableEq, Repr

/-- The steps outside the pools. -/
inductive EnvAction (W m : Nat) (δ : Type) where
  /-- the program calls `cs_evm_start_controller` with this start time -/
  | preStart (r : Int)
  /-- the program calls `cs_sim_start` -/
  | simStart
  /-- the program calls `cs_engine_fini` -/
  | fini
  /-- the engine goes on; `b` is what its termination function answers, if it asks -/
  | engine (b : Bool)
  | ctl
  /-- the event worker on `w` goes on, or the handler that it runs returns -/
  | slice (w : Fin (W + 1))
  /-- `cs_evm_schedule_event` -/
  | schedule (src : Source W m) (ev : CsEvent δ) (time : Int)

variable {W m : Nat} {δ : Type}

/-- Before `cs_evm_start_controller` and `cs_sim_start`: an initialised engine, its timer and
its event manager. -/
def Env.init (cfg : Config) : Env W m δ where
  timer := { timer := csInitTimer, place := fun _ => .out }
  evm :=
    { evTree := .empty, startTime := 0, lastCompletion := 0, stop := false, running := false
      waitCond := .out }
  engine := { pc := .main, curTime := 0, stop := false, activities := cfg.activities }
  ctl := { pc := .off, start := 0, curTime := 0, worker := 0 }
  slices := fun _ => none
  blocks := fun _ => none
  failed := none
  log := { accepted := [], popped := [], thrown := [], handled := [] }

/-- The loop of an event worker has ended. -/
def SliceRun.ended (r : SliceRun δ) : Bool :=
  r.handling.isNone && decide (r.data.numEvents ≤ r.c)

namespace Env

/-- Move the engine. -/
@[simps]
def setEngine (s : Env W m δ) (pc : EnginePc) : Env W m δ :=
  { s with engine := { s.engine with pc := pc } }

/-- Move the event controller. -/
@[simps]
def setCtl (s : Env W m δ) (pc : CtlPc δ) : Env W m δ := { s with ctl := { s.ctl with pc := pc } }

/-- The process crashes. -/
@[simps]
def fail (s : Env W m δ) (f : Failure) : Env W m δ := { s with failed := some f }

/-- Where `cs_evm_start_controller` returns to. -/
def startReturn (byMain : Bool) : EnginePc := if byMain then .main else .wpStart

/-- What follows `_loop_activity` in the main loop. -/
def afterLoop : ActivityType → EnginePc
  | .afterStep => .term
  | .user => .completion

/-- The next step of the engine, where it is not in a call of a pool. -/
def engineStep (cfg : Config) (s : Env W m δ) (b : Bool) : Option (Env W m δ) :=
  match s.engine.pc with
  | .main | .returned | .done => none
  | .start byMain q => match q with
      | .startTime r =>
          some { s with
            evm := { s.evm with startTime := if 0 < r then r else 1 }
            engine := { s.engine with pc := .start byMain .wp } }
      | .wp | .enqueue | .inEnqueue => none
  | .setNsync =>
      some { s with
        timer := { s.timer with timer := csSetNsync s.timer.timer 2 }
        engine := { s.engine with pc := .firstClock } }
  | .firstClock =>
      some { s with engine := { s.engine with curTime := csGetClock s.timer.timer, pc := .evmRunning } }
  | .evmRunning =>
      some (s.setEngine (if s.evm.running then .wpStart else .start false (.startTime 1)))
  | .wpStart =>
      if s.engine.activities ≠ [] ∧ 0 < totalTasks s.engine.activities then none
      else some (s.setEngine (.loop .afterStep .clock))
  | .loop atype q => match q with
      | .clock =>
          let curTime := csGetClock s.timer.timer
          if curTime ≤ 0 ∨ totalTasks s.engine.activities = 0 then some (s.setEngine (afterLoop atype))
          else match scheduleActivities curTime atype 0 s.engine.activities with
            | none => some (s.fail .stepTest)
            | some (codes, activities) =>
                some { s with engine := { s.engine with
                  activities := activities
                  pc := .loop atype (.join (.enqueue codes [])) } }
      | .join (.enqueue [] ids) => some (s.setEngine (.loop atype (.join (.wait ids))))
      | .join (.wait []) => some (s.setEngine (afterLoop atype))
      | .join _ => none
  | .term =>
      if cfg.st = .activityScan ∧ b then
        some { s with engine := { s.engine with stop := true, pc := .sync } }
      else some (s.setEngine .moreEvents)
  | .moreEvents =>
      let stop := !csEvmMoreEvents s.evm.evTree && decide (cfg.st = .eventDriven)
      some { s with engine := { s.engine with stop := stop, pc := .sync } }
  | .sync => match s.timer.enter .engine with
      | (b', some _) => some { s with timer := b', engine := { s.engine with pc := .clock } }
      | (b', none) => some { s with timer := b', engine := { s.engine with pc := .inSync } }
  | .inSync => match s.timer.leave .engine with
      | some (b', _) => some { s with timer := b', engine := { s.engine with pc := .clock } }
      | none => none
  | .clock =>
      some { s with engine := { s.engine with
        curTime := csGetClock s.timer.timer
        pc := if s.engine.stop then .stopController
              else match cfg.st with
                | .activityScan => .loop .user .clock
                | .eventDriven => .completion } }
  | .stopController =>
      some { s with
        evm := { s.evm with stop := true }
        engine := { s.engine with pc := .timeStop } }
  | .timeStop =>
      some { s with timer := s.timer.timeStop, engine := { s.engine with pc := .closing } }
  | .closing =>
      if s.engine.curTime = csGetClock s.timer.timer then some (s.setEngine .returned)
      else some (s.fail .closing)
  | .completion =>
      if s.evm.lastCompletion < s.engine.curTime then
        some { s with
          evm := { s.evm with waitCond := .blocked }
          engine := { s.engine with pc := .inCompletion } }
      else some (s.setEngine (.loop .afterStep .clock))
  | .inCompletion =>
      if s.evm.waitCond = .released then
        some { s with
          evm := { s.evm with waitCond := .out }
          engine := { s.engine with pc := .loop .afterStep .clock } }
      else none
  | .fini q => match q with
      | .running => some (s.setEngine (if s.evm.running then .fini .stop else .fini (.shutdown 0)))
      | .stop =>
          some { s with
            evm := { s.evm with stop := true }
            engine := { s.engine with pc := .fini (.shutdown 0) } }
      | .shutdown _ | .inShutdown _ => none

/-- The next step of `_ev_controller`, where it is not in a call of its pool. -/
def ctlStep (s : Env W m δ) : Option (Env W m δ) :=
  match s.ctl.pc with
  | .off | .returned | .gone => none
  | .begin => some { s with ctl := { s.ctl with start := s.evm.startTime, pc := .firstClock } }
  | .firstClock =>
      some { s with ctl := { s.ctl with curTime := csGetClock s.timer.timer, pc := .setRunning } }
  | .setRunning =>
      some { s with evm := { s.evm with running := true }, ctl := { s.ctl with pc := .sync } }
  | .sync => match s.timer.enter .controller with
      | (b', some r) =>
          some { s with
            timer := b'
            ctl := { s.ctl with pc := if r < 0 then .setNotRunning else .clock } }
      | (b', none) => some { s with timer := b', ctl := { s.ctl with pc := .inSync } }
  | .inSync => match s.timer.leave .controller with
      | some (b', r) =>
          some { s with
            timer := b'
            ctl := { s.ctl with pc := if r < 0 then .setNotRunning else .clock } }
      | none => none
  | .clock =>
      some { s with ctl := { s.ctl with curTime := csGetClock s.timer.timer, pc := .shouldStop } }
  | .shouldStop =>
      some (s.setCtl (if s.evm.stop then .setNotRunning
        else if s.ctl.curTime < s.ctl.start then .sync
        else .pop))
  | .pop =>
      let evm := { s.evm with evTree := (popEvents s.evm.evTree s.ctl.curTime).1 }
      match (popEvents s.evm.evTree s.ctl.curTime).2 with
      | none => some { s with evm := evm, ctl := { s.ctl with pc := .signal } }
      | some evList =>
          let log := { s.log with popped := s.log.popped ++ evList.dues }
          if W = 0 then some ({ s with evm := evm, log := log }.fail .guardSpacing)
          else
            some { s with
              evm := evm
              log := log
              ctl := { s.ctl with pc := .batch (.enqueue ((sliceTasks evList W).map .slice) []) } }
  | .batch (.enqueue [] ids) => some (s.setCtl (.batch (.wait ids)))
  | .batch (.wait []) => some (s.setCtl .signal)
  | .batch _ => none
  | .signal =>
      some { s with
        evm := { s.evm with lastCompletion := s.ctl.curTime, waitCond := s.evm.waitCond.wake }
        ctl := { s.ctl with pc := .sync } }
  | .setNotRunning =>
      some { s with evm := { s.evm with running := false }, ctl := { s.ctl with pc := .returned } }

/-- The next step of the event worker on `w`: `cs_evm_throw_event` of the next event of its
slice, or the return of the handler that it runs. -/
def sliceStep (cfg : Config) (s : Env W m δ) (w : Fin (W + 1)) : Option (Env W m δ) :=
  match s.slices w with
  | none => none
  | some r => match r.handling with
      | some ev =>
          some { s with
            slices := Function.update s.slices w (some { r with handling := none })
            log := { s.log with handled := s.log.handled ++ [⟨ev, r.data.scheduledAt⟩] } }
      | none =>
          if (r.c : Int) < r.data.numEvents then
            match r.curEv with
            | [] => some (s.fail .nullEvent)
            | ev :: rest =>
                let thrown := s.log.thrown ++ [(⟨ev, r.data.scheduledAt⟩, csGetClock s.timer.timer)]
                match ev.etype with
                | none => some (s.fail .eventType)
                | some etype =>
                    if etype ∈ cfg.handlers then
                      some { s with
                        slices := Function.update s.slices w
                          (some { r with c := r.c + 1, curEv := rest, handling := some ev })
                        log := { s.log with thrown := thrown } }
                    else
                      some { s with
                        slices := Function.update s.slices w
                          (some { r with c := r.c + 1, curEv := rest })
                        log := { s.log with
                          thrown := thrown
                          handled := s.log.handled ++ [⟨ev, r.data.scheduledAt⟩] } }
          else none

/-- The code that may call `cs_evm_schedule_event` is running. -/
def sourceRuns (s : Env W m δ) : Source W m → Bool
  | .main => decide (s.engine.pc = .main)
  | .handler w => (s.slices w).any fun r => r.handling.isSome
  | .activity v => (s.blocks v).isSome

/-- `cs_evm_schedule_event` by a handler, an activity, or the program. -/
def scheduleStep (s : Env W m δ) (src : Source W m) (ev : CsEvent δ) (time : Int) :
    Option (Env W m δ) :=
  if s.sourceRuns src then
    let (evTree, r) := csEvmScheduleEvent ev time s.evm.evTree
    some { s with
      evm := { s.evm with evTree := evTree }
      log := { s.log with
        accepted := if r = 0 then s.log.accepted ++ [⟨ev, time⟩] else s.log.accepted } }
  else none

/-- The program makes a call. -/
def mainStep (s : Env W m δ) (before next : EnginePc) : Option (Env W m δ) :=
  if s.engine.pc = before then some (s.setEngine next) else none

/-- A step outside the pools. -/
def step (cfg : Config) (s : Env W m δ) : EnvAction W m δ → Option (Env W m δ)
  | .preStart r => s.mainStep .main (.start true (.startTime r))
  | .simStart => s.mainStep .main .setNsync
  | .fini => s.mainStep .returned (.fini .running)
  | .engine b => s.engineStep cfg b
  | .ctl => s.ctlStep
  | .slice w => s.sliceStep cfg w
  | .schedule src ev time => s.scheduleStep src ev time

/-- What an event of the pool of the event manager does outside the pool. -/
def observeEvm [DecidableEq δ] (s : Env W m δ) (e : PoolEvent (W + 1) (EvTask δ)) :
    Option (Env W m δ) :=
  match e with
  | .tau => some s
  | .startRet r => match s.engine.pc with
      | .start byMain .wp =>
          some (s.setEngine (if r < 0 then startReturn byMain else .start byMain .enqueue))
      | _ => none
  | .enqueueCall (.ext 0) .controller => match s.engine.pc with
      | .start byMain .enqueue => some (s.setEngine (.start byMain .inEnqueue))
      | _ => none
  | .enqueueRet (.ext 0) _ => match s.engine.pc with
      | .start byMain .inEnqueue => some (s.setEngine (startReturn byMain))
      | _ => none
  | .started w _ (some .controller) =>
      if s.ctl.pc = .off then some { s with ctl := { s.ctl with pc := .begin, worker := w } } else none
  | .started w _ (some (.slice d)) =>
      if s.slices w = none then
        some { s with
          slices := Function.update s.slices w
            (some { data := d, c := 0, curEv := d.guard, handling := none }) }
      else none
  | .finished w _ => match s.slices w with
      | some r => if r.ended then some { s with slices := Function.update s.slices w none } else none
      | none => if s.ctl.worker = w ∧ s.ctl.pc = .returned then some (s.setCtl .gone) else none
  | .shutdownCall => match s.engine.pc with
      | .fini (.shutdown k) => if k < 2 then some (s.setEngine (.fini (.inShutdown k))) else none
      | _ => none
  | .shutdownRet _ => match s.engine.pc with
      | .fini (.inShutdown k) => if k < 2 then some (s.setEngine (.fini (.shutdown (k + 1)))) else none
      | _ => none
  | e => match s.ctl.pc with
      | .batch j => (j.observe (.task s.ctl.worker) e).map fun j' => s.setCtl (.batch j')
      | _ => none

/-- What an event of the pool of the engine does outside the pool. -/
def observeEng (s : Env W m δ) (e : PoolEvent m UserTask) : Option (Env W m δ) :=
  match e with
  | .tau => some s
  | .startRet _ =>
      if s.engine.pc = .wpStart ∧ s.engine.activities ≠ [] ∧ 0 < totalTasks s.engine.activities then
        some (s.setEngine (.loop .afterStep .clock))
      else none
  | .started v _ (some x) =>
      if s.blocks v = none then some { s with blocks := Function.update s.blocks v (some x) } else none
  | .finished v _ =>
      if s.blocks v = none then none
      else some { s with blocks := Function.update s.blocks v none }
  | .shutdownCall => match s.engine.pc with
      | .fini (.shutdown k) => if k < 2 then none else some (s.setEngine (.fini (.inShutdown k)))
      | _ => none
  | .shutdownRet _ => match s.engine.pc with
      | .fini (.inShutdown k) =>
          if k < 2 then none
          else some (s.setEngine (if k < 3 then .fini (.shutdown (k + 1)) else .done))
      | _ => none
  | e => match s.engine.pc with
      | .loop atype (.join j) =>
          (j.observe (.ext 0) e).map fun j' => s.setEngine (.loop atype (.join j'))
      | _ => none

end Env

end ComplexSim.Engine
