import ComplexSim.Workerpool.Steps

/-!
# The life cycle of a pool (`cs_wp_start`, `cs_wp_shutdown`)

`ComplexSim.Workerpool.Basic` starts a pool in one step and once. Here any number of threads call
`cs_wp_start` and `cs_wp_shutdown`, `pthread_create` may fail, and a pool may be started again, so a
slot of `workers_data` need not have one thread: the threads of the pool are a table of their own,
`threads`, with what each of them runs. A thread makes its steps on the pool by the functions of
`ComplexSim.Workerpool.Basic`, from its own place in them; the fields `ctl`, `pc` and `shut` of the
pool are set to that place before such a step, and have no other meaning. What a task calls while it
is performed is a call from outside.

`cs_wp_start` reads the status, gives up the pool mutex, and takes it again to create the threads. So
what it has read may be out of date (`starts_twice`). And when `pthread_create` fails, it returns and
leaves the threads that it has created.
-/

namespace ComplexSim.Lifecycle

open Workerpool

/-- What a thread of the pool runs, and where it is in it. -/
inductive Role (n : Nat) where
  /-- `_cs_wp_worker_behaviour` on the record of worker `w` -/
  | worker (w : Fin n) (pc : WorkerPc)
  /-- `_cs_wp_controller_behaviour` -/
  | controller (pc : ControllerPc n)
  deriving DecidableEq

/-- The thread has returned. -/
def Role.ended {n : Nat} : Role n → Bool
  | .worker _ pc => pc = .exited
  | .controller pc => pc = .ended

/-- A thread of the pool; `joined` once a `pthread_join` on it has returned 0. -/
structure Thread (n : Nat) where
  role : Role n
  joined : Bool

/-- Where a thread is in the call of `cs_wp_start` or `cs_wp_shutdown` that it has made. -/
inductive Pc (n : Nat) where
  | idle
  /-- `cs_wp_start`: `cs_wp_get_status` -/
  | startStatus
  /-- `cs_wp_start`: `_LOCK_MUTEX(wp->wp_mutex)` -/
  | startLock
  /-- `_cs_wp_start_workers`: the status of worker `count`, if there is one -/
  | startWaiting (count : Nat)
  /-- `_cs_wp_start_workers`: `pthread_create` for worker `w` -/
  | startCreate (w : Fin n)
  /-- `cs_wp_start`: `pthread_create` for the controller -/
  | startController
  /-- `cs_wp_start`: `_cs_wp_set_status`, then the unlock -/
  | startFinish
  /-- `cs_wp_shutdown`: `_LOCK_MUTEX(wp->wp_mutex)` -/
  | shutLock
  /-- `cs_wp_shutdown`: `cs_wp_get_status` -/
  | shutCheck
  /-- `cs_wp_shutdown`: `cs_queue_close` -/
  | shutClose
  /-- `cs_wp_shutdown`: `pthread_join` -/
  | shutJoin
  /-- `cs_wp_shutdown`: `_cs_wp_set_status`, then the unlock -/
  | shutFinish
  deriving DecidableEq

/-- The call is in its locked section. -/
def Pc.locks {n : Nat} : Pc n → Bool
  | .idle | .startStatus | .startLock | .shutLock => false
  | _ => true

/-- How a call has ended. -/
inductive Outcome where
  /-- `cs_wp_start` returned 0 -/
  | started
  /-- `cs_wp_start` returned -1 on the status it had read -/
  | refused
  /-- `cs_wp_start` returned -1 when `pthread_create` failed, after it had created `k` threads -/
  | failed (k : Nat)
  /-- `cs_wp_shutdown` returned 0, the controller joined and the status set -/
  | shutdown
  /-- `cs_wp_shutdown` returned 0, with nothing to do -/
  | nothing
  /-- `cs_wp_shutdown` returned -1 when `pthread_join` failed -/
  | notJoined
  deriving DecidableEq

/-- The call has left threads that nothing ends. -/
def Outcome.leaves : Outcome → Bool
  | .failed k => k ≠ 0
  | _ => false

/-- A pool, its threads, and the threads `T` that start it and shut it down. -/
structure State (T : Type*) (n : Nat) (α : Type) where
  pool : Pool n α
  /-- the owner of `wp_mutex`, which is recursive -/
  mutex : Option T
  /-- `*(workers_data[w].th_id)` -/
  thId : Fin n → Option Nat
  /-- `*(wp_controller)` -/
  wpController : Option Nat
  threads : Nat → Option (Thread n)
  /-- the threads created so far have the handles below -/
  created : Nat
  calls : T → Pc n
  /-- how the calls have ended, the last one first -/
  log : List Outcome

inductive Label (T : Type*) (n : Nat) (α : Type) where
  /-- `cs_wp_start` is called -/
  | callStart (t : T)
  /-- `cs_wp_shutdown` is called -/
  | callShutdown (t : T)
  /-- the next step of the call of `t` -/
  | call (t : T)
  /-- the `pthread_create` that `t` calls next fails -/
  | createFails (t : T)
  /-- the next step of thread `i` of the pool -/
  | thread (i : Nat)
  /-- the code of the task that thread `i` performs returns -/
  | taskReturn (i : Nat)
  /-- `cs_wp_get_status`, `cs_wp_tsk_enqueue` or `cs_wp_tsk_wait`, from outside -/
  | client (a : Pool.Action n α)

variable {T : Type*} {n : Nat} {α : Type}

namespace State

/-- `pthread_create` of a thread that runs `r`. -/
def pthreadCreate (s : State T n α) (r : Role n) : State T n α :=
  { s with threads := Function.update s.threads s.created (some { role := r, joined := false })
           created := s.created + 1 }

/-- `pthread_join`: it waits for the end of the thread, and fails on one that is joined. -/
def pthreadJoin (s : State T n α) (handle : Option Nat) : Option (State T n α × Int) :=
  match handle with
  | none => some (s, -1)
  | some i =>
      match s.threads i with
      | none => some (s, -1)
      | some d =>
          if d.joined then some (s, -1)
          else if d.role.ended then
            some ({ s with threads := Function.update s.threads i (some { d with joined := true }) }, 0)
          else none

/-- Move the thread `i` of the pool. -/
def move (s : State T n α) (i : Nat) (r : Role n) : State T n α :=
  { s with threads := Function.update s.threads i ((s.threads i).map fun d => { d with role := r }) }

/-- The next step of thread `i` of the pool, outside `tsk_code`. -/
def threadStep (s : State T n α) (i : Nat) : Option (State T n α) :=
  match (s.threads i).map Thread.role with
  | none => none
  | some (.worker w pc) =>
      ((s.pool.setWorker w { s.pool.workers w with pc := pc }).workerBehaviour w).map fun (p, _) =>
        { s with pool := p }.move i (.worker w (p.workers w).pc)
  | some (.controller (.join count)) =>
      if h : count < n then
        (s.pthreadJoin (s.thId ⟨count, h⟩)).map fun (s', _) => s'.move i (.controller (.join (count + 1)))
      else some (s.move i (.controller .ended))
  | some (.controller pc) =>
      (Pool.controllerBehaviour { s.pool with ctl := pc }).map fun (p, _) =>
        { s with pool := p }.move i (.controller p.ctl)

/-- The code of the task that thread `i` performs returns. -/
def taskReturn (s : State T n α) (i : Nat) : Option (State T n α) :=
  match (s.threads i).map Thread.role with
  | some (.worker w pc) =>
      ((s.pool.setWorker w { s.pool.workers w with pc := pc }).taskReturn w).map fun (p, _) =>
        { s with pool := p }.move i (.worker w (p.workers w).pc)
  | _ => none

/-- A call of another function of the pool, from outside. -/
def clientStep (s : State T n α) (a : Pool.Action n α) : Option (State T n α) :=
  let p := { s.pool with shut := if s.mutex.isSome then .check else .idle }
  match a with
  | .callGetStatus (.ext _) | .callEnqueue (.ext _) _ | .callWait (.ext _) _ | .call (.ext _) | .create (.ext _) _ =>
      (p.step a).map fun p' => { s with pool := p' }
  | _ => none

variable [DecidableEq T]

/-- Move the caller `t`. -/
def setCall (s : State T n α) (t : T) (pc : Pc n) : State T n α :=
  { s with calls := Function.update s.calls t pc }

/-- The call of `t` gives up the mutex and returns. -/
def leave (s : State T n α) (t : T) (o : Outcome) : State T n α :=
  { s with mutex := none, calls := Function.update s.calls t .idle, log := o :: s.log }

/-- The next step of `cs_wp_start` or `cs_wp_shutdown`, when `pthread_create` succeeds. -/
def callStep (s : State T n α) (t : T) : Option (State T n α) :=
  match s.calls t with
  | .idle => none
  | .startStatus =>
      if s.mutex ≠ none then none
      else if s.pool.status ≠ .ready then some { s.setCall t .idle with log := .refused :: s.log }
      else some (s.setCall t .startLock)
  | .startLock =>
      if s.mutex ≠ none then none else some ({ s with mutex := some t }.setCall t (.startWaiting 0))
  | .startWaiting count =>
      if h : count < n then
        let w : Fin n := ⟨count, h⟩
        some ({ s with pool := s.pool.setWorker w { s.pool.workers w with status := .waiting } }.setCall t
          (.startCreate w))
      else some (s.setCall t .startController)
  | .startCreate w =>
      some ({ s.pthreadCreate (.worker w .semWait) with
        thId := Function.update s.thId w (some s.created) }.setCall t (.startWaiting (w + 1)))
  | .startController =>
      some ({ s.pthreadCreate (.controller .dequeueWait) with wpController := some s.created }.setCall t
        .startFinish)
  | .startFinish => some ({ s with pool := { s.pool with status := .working } }.leave t .started)
  | .shutLock =>
      if s.mutex ≠ none then none else some ({ s with mutex := some t }.setCall t .shutCheck)
  | .shutCheck =>
      if s.pool.status ≠ .working then some (s.leave t .nothing) else some (s.setCall t .shutClose)
  | .shutClose =>
      some ({ s with pool := { s.pool with tskQ := csQueueClose s.pool.tskQ } }.setCall t .shutJoin)
  | .shutJoin =>
      (s.pthreadJoin s.wpController).map fun (s', r) =>
        if r ≠ 0 then s'.leave t .notJoined else s'.setCall t .shutFinish
  | .shutFinish => some ({ s with pool := { s.pool with status := .ready } }.leave t .shutdown)

/-- `pthread_create` fails, and `cs_wp_start` returns -1. -/
def createFails (s : State T n α) (t : T) : Option (State T n α) :=
  match s.calls t with
  | .startCreate w => some (s.leave t (.failed w))
  | .startController => some (s.leave t (.failed n))
  | _ => none

def step (s : State T n α) (l : Label T n α) : Option (State T n α) :=
  if s.pool.aborted.isSome then none
  else match l with
    | .callStart t => match s.calls t with
        | .idle => some (s.setCall t .startStatus)
        | _ => none
    | .callShutdown t => match s.calls t with
        | .idle => some (s.setCall t .shutLock)
        | _ => none
    | .call t => s.callStep t
    | .createFails t => s.createFails t
    | .thread i => s.threadStep i
    | .taskReturn i => s.taskReturn i
    | .client a => s.clientStep a

end State

/-- A pool that `cs_wp_init` has made. -/
def start (T : Type*) (n : Nat) (α : Type) (bound : Nat) : State T n α where
  pool := csWpInit n α bound
  mutex := none
  thId := fun _ => none
  wpController := none
  threads := fun _ => none
  created := 0
  calls := fun _ => .idle
  log := []

def system (T : Type*) [DecidableEq T] (n : Nat) (α : Type) (bound : Nat) : Lts.System (State T n α) (Label T n α) :=
  .ofFn (· = start T n α bound) State.step

/-- The starts that have returned 0 since the last shutdown that has joined the controller. -/
def startsSince : List Outcome → Nat
  | [] | .shutdown :: _ => 0
  | .started :: log => startsSince log + 1
  | .refused :: log | .failed _ :: log | .nothing :: log | .notJoined :: log => startsSince log

/-- Thread `i` is alive and runs on the record of worker `w`. -/
def AliveOn (s : State T n α) (w : Fin n) (i : Nat) : Prop :=
  ∃ d pc, s.threads i = some d ∧ d.role = .worker w pc ∧ pc ≠ .exited

/-- Thread `i` is alive and a controller. -/
def AliveController (s : State T n α) (i : Nat) : Prop :=
  ∃ d pc, s.threads i = some d ∧ d.role = .controller pc ∧ pc ≠ .ended

/-- Thread `i` is a controller that has been started and not yet joined. -/
def Unjoined (s : State T n α) (i : Nat) : Prop :=
  ∃ d pc, s.threads i = some d ∧ d.role = .controller pc ∧ d.joined = false

/-- The life cycle is in order. -/
structure Tidy (s : State T n α) : Prop where
  oneController : ∀ i j, AliveController s i → AliveController s j → i = j
  oneWorker : ∀ w i j, AliveOn s w i → AliveOn s w j → i = j
  oneStart : startsSince s.log ≤ 1
  working : s.mutex = none → (s.pool.status = .working ↔ ∃ i, Unjoined s i)

/-- A start takes the mutex only of a pool that is `CS_WPS_READY`, and that no start before it has
left with threads. -/
def Careful (s : State T n α) : Label T n α → Prop
  | .call t => s.calls t = .startLock → s.pool.status = .ready ∧ ∀ o ∈ s.log, o.leaves = false
  | _ => True

section Threads

variable {s s' : State T n α}

theorem pthreadJoin_cases {handle : Option Nat} {r : Int} (h : s.pthreadJoin handle = some (s', r)) :
    (r = 0 ∧ ∃ i d, handle = some i ∧ s.threads i = some d ∧ d.joined = false ∧ d.role.ended = true ∧
      s' = { s with threads := Function.update s.threads i (some { d with joined := true }) }) ∨
    (r = -1 ∧ s' = s ∧ ∀ i d, handle = some i → s.threads i = some d → d.joined = true) := by
  unfold State.pthreadJoin at h
  cases handle with
  | none => cases h; exact Or.inr ⟨rfl, rfl, nofun⟩
  | some i =>
      cases hi : s.threads i with
      | none =>
          simp only [hi] at h
          cases h
          refine Or.inr ⟨rfl, rfl, fun j d hj hd => ?_⟩
          cases hj
          rw [hi] at hd
          cases hd
      | some d =>
          simp only [hi] at h
          split at h
          · cases h
            refine Or.inr ⟨rfl, rfl, fun j d' hj hd => ?_⟩
            cases hj
            rw [hi] at hd
            cases hd
            assumption
          · split at h <;> cases h
            exact Or.inl ⟨rfl, i, d, rfl, hi, Bool.eq_false_iff.2 ‹_›, ‹_›, rfl⟩

/-- What a step of thread `i` of the pool can do. -/
inductive ThreadStep (s : State T n α) (i : Nat) : State T n α → Prop where
  | worker (d : Thread n) (w : Fin n) (pc pc' : WorkerPc) (p : Pool n α) (hi : s.threads i = some d)
      (hrole : d.role = .worker w pc) (halive : pc ≠ .exited) (hst : p.status = s.pool.status) :
      ThreadStep s i ({ s with pool := p }.move i (.worker w pc'))
  | controller (d : Thread n) (pc pc' : ControllerPc n) (p : Pool n α) (hi : s.threads i = some d)
      (hrole : d.role = .controller pc) (halive : pc ≠ .ended) (hst : p.status = s.pool.status)
      (hnext : pc' ≠ .ended) (hjoin : ∀ count, pc' = .join count → count = 0) :
      ThreadStep s i ({ s with pool := p }.move i (.controller pc'))
  | joined (d : Thread n) (w : Fin n) (j : Nat) (e : Thread n) (hi : s.threads i = some d)
      (hrole : d.role = .controller (.join w)) (hw : s.thId w = some j) (hj : s.threads j = some e)
      (hended : e.role.ended = true) :
      ThreadStep s i
        (State.move { s with threads := Function.update s.threads j (some { e with joined := true }) } i
          (.controller (.join (w + 1))))
  | notJoined (d : Thread n) (w : Fin n) (hi : s.threads i = some d) (hrole : d.role = .controller (.join w))
      (hfail : ∀ j e, s.thId w = some j → s.threads j = some e → e.joined = true) :
      ThreadStep s i (s.move i (.controller (.join (w + 1))))
  | ended (d : Thread n) (count : Nat) (hi : s.threads i = some d) (hrole : d.role = .controller (.join count))
      (hend : ¬ count < n) : ThreadStep s i (s.move i (.controller .ended))

theorem worker_alive {p p' : Pool n α} {w : Fin n} {e : PoolEvent n α} (h : p.WorkerStep w p' e) :
    (p.workers w).pc ≠ .exited := by
  cases h with
  | wake hpc _ | wokenOk hpc _ | wokenFail hpc _ | exit hpc _ _ | takeNone hpc _ _ | take _ hpc _ _
  | takeFail _ hpc _ _ | release _ hpc _ | releaseFail _ hpc _ | setDone _ hpc | signalEnd _ hpc => simp [hpc]

/-- A controller that is not yet joining the workers begins with the first one. -/
theorem controller_next {p p' : Pool n α} (h : p.ControllerStep p') (hjoin : ∀ count, p.ctl ≠ .join count) :
    p'.ctl ≠ .ended ∧ ∀ count, p'.ctl = .join count → count = 0 := by
  cases h with
  | join w hpc _ => exact absurd hpc (hjoin _)
  | ended _ hpc _ => exact absurd hpc (hjoin _)
  | allSent _ _ _ => exact ⟨nofun, fun count h => by cases h; rfl⟩
  | noHead hpc _ | badSize hpc _ | noWorker _ _ hpc _ =>
      exact ⟨by simp [Pool.abort, hpc], fun count h => by simp [Pool.abort, hpc] at h⟩
  | dequeueWait _ _ | leave _ _ | dequeue _ _ _ _ | poolSem _ _ _ | found _ _ _ _ | pass _ _ _ _ | assign _ _ _
  | notify _ _ | sendShutdown _ _ | postShutdown _ _ => exact ⟨nofun, nofun⟩

theorem ThreadStep.of {i : Nat} (h : s.threadStep i = some s') : ThreadStep s i s' := by
  unfold State.threadStep at h
  cases hi : s.threads i with
  | none => simp [hi] at h
  | some d =>
      simp only [hi, Option.map_some] at h
      cases hrole : d.role with
      | worker w pc =>
          simp only [hrole] at h
          obtain ⟨⟨p, e⟩, hb, rfl⟩ := Option.map_eq_some_iff.1 h
          have hstep := Pool.WorkerStep.of hb
          have halive : pc ≠ .exited := by simpa using worker_alive hstep
          exact .worker d w pc _ p hi hrole halive hstep.frame.2.2.2.2.2.1
      | controller pc =>
          cases pc with
          | join count =>
              simp only [hrole] at h
              split at h
              · obtain ⟨⟨u, r⟩, hjoin, rfl⟩ := Option.map_eq_some_iff.1 h
                rcases pthreadJoin_cases hjoin with ⟨-, j, e, hw, hj, -, hended, rfl⟩ | ⟨-, rfl, hfail⟩
                · exact .joined d ⟨count, ‹_›⟩ j e hi hrole hw hj hended
                · exact .notJoined d ⟨count, ‹_›⟩ hi hrole hfail
              · cases h
                exact .ended d count hi hrole ‹_›
          | _ =>
              simp only [hrole] at h
              obtain ⟨⟨p, e⟩, hb, rfl⟩ := Option.map_eq_some_iff.1 h
              have hstep := (Pool.ControllerStep.of hb).1
              obtain ⟨hnext, hjoin⟩ := controller_next hstep nofun
              exact .controller d _ _ p hi hrole hstep.alive.2 hstep.frame.2.2.1 hnext hjoin

theorem taskReturn_worker {i : Nat} (h : s.taskReturn i = some s') : ThreadStep s i s' := by
  unfold State.taskReturn at h
  cases hi : s.threads i with
  | none => simp [hi] at h
  | some d =>
      simp only [hi, Option.map_some] at h
      cases hrole : d.role with
      | controller pc => simp [hrole] at h
      | worker w pc =>
          simp only [hrole] at h
          obtain ⟨⟨p, e⟩, hb, rfl⟩ := Option.map_eq_some_iff.1 h
          obtain ⟨u, hpc, -, -, rfl⟩ := Pool.taskReturn_cases hb
          have halive : pc ≠ .exited := by
            rintro rfl
            simp at hpc
          exact .worker d w pc _ _ hi hrole halive rfl

end Threads

section Calls

variable {s s' : State T n α}

/-- A step of a call of another function of the pool. -/
def asks : Pool.Action n α → Bool
  | .callGetStatus _ | .callEnqueue _ _ | .callWait _ _ | .call _ | .create _ _ => true
  | _ => false

/-- Such a step leaves the records of the workers, their number and the status. -/
theorem asks_frame {p p' : Pool n α} {a : Pool.Action n α} {e : PoolEvent n α} (ha : asks a = true)
    (hs : p.Step a p' e) : p'.workers = p.workers ∧ p'.poolSem = p.poolSem ∧ p'.status = p.status := by
  cases hs with
  | call _ hcall =>
      obtain ⟨-, -, hworkers, -, hsem, hst, -⟩ := hcall.frame
      exact ⟨hworkers, hsem, hst⟩
  | callGetStatus _ _ _ | callEnqueue _ _ _ _ | callWait _ _ _ _ | create _ _ _ _ _ => exact ⟨rfl, rfl, rfl⟩
  | startAgain _ _ | start _ _ _ | callShutdown _ | worker _ _ | taskReturn _ _ _ _ | controller _ | shutdown _ => cases ha

theorem client_frame {a : Pool.Action n α} (h : s.clientStep a = some s') :
    ∃ p : Pool n α, s' = { s with pool := p } ∧ p.workers = s.pool.workers ∧ p.poolSem = s.pool.poolSem ∧
      p.status = s.pool.status := by
  unfold State.clientStep at h
  simp only at h
  split at h
  case h_6 => cases h
  all_goals
    obtain ⟨p, hp, rfl⟩ := Option.map_eq_some_iff.1 h
    obtain ⟨-, e, hstep⟩ := Pool.Step.of_step hp
    have hframe := asks_frame (by rfl) hstep
    exact ⟨p, rfl, hframe⟩

variable [DecidableEq T]

/-- What the next step of the call of `t` can do, when `pthread_create` succeeds. -/
inductive CallStep (s : State T n α) (t : T) : State T n α → Prop where
  | refused (hpc : s.calls t = .startStatus) (hfree : s.mutex = none) (hst : s.pool.status ≠ .ready) :
      CallStep s t { s.setCall t .idle with log := .refused :: s.log }
  | statusOk (hpc : s.calls t = .startStatus) (hfree : s.mutex = none) (hst : s.pool.status = .ready) :
      CallStep s t (s.setCall t .startLock)
  | startLock (hpc : s.calls t = .startLock) (hfree : s.mutex = none) :
      CallStep s t ({ s with mutex := some t }.setCall t (.startWaiting 0))
  | setWaiting (w : Fin n) (hpc : s.calls t = .startWaiting w) :
      CallStep s t ({ s with pool := s.pool.setWorker w { s.pool.workers w with status := .waiting } }.setCall t
        (.startCreate w))
  | allCreated (count : Nat) (hpc : s.calls t = .startWaiting count) (hend : ¬ count < n) :
      CallStep s t (s.setCall t .startController)
  | createWorker (w : Fin n) (hpc : s.calls t = .startCreate w) :
      CallStep s t ({ s.pthreadCreate (.worker w .semWait) with
        thId := Function.update s.thId w (some s.created) }.setCall t (.startWaiting (w + 1)))
  | createController (hpc : s.calls t = .startController) :
      CallStep s t ({ s.pthreadCreate (.controller .dequeueWait) with wpController := some s.created }.setCall t
        .startFinish)
  | started (hpc : s.calls t = .startFinish) :
      CallStep s t ({ s with pool := { s.pool with status := .working } }.leave t .started)
  | shutLock (hpc : s.calls t = .shutLock) (hfree : s.mutex = none) :
      CallStep s t ({ s with mutex := some t }.setCall t .shutCheck)
  | nothing (hpc : s.calls t = .shutCheck) (hst : s.pool.status ≠ .working) : CallStep s t (s.leave t .nothing)
  | shutCheck (hpc : s.calls t = .shutCheck) (hst : s.pool.status = .working) : CallStep s t (s.setCall t .shutClose)
  | close (hpc : s.calls t = .shutClose) :
      CallStep s t ({ s with pool := { s.pool with tskQ := csQueueClose s.pool.tskQ } }.setCall t .shutJoin)
  | joined (i : Nat) (d : Thread n) (hpc : s.calls t = .shutJoin) (hctl : s.wpController = some i)
      (hi : s.threads i = some d) (hended : d.role.ended = true) :
      CallStep s t ({ s with threads := Function.update s.threads i (some { d with joined := true }) }.setCall t
        .shutFinish)
  | notJoined (hpc : s.calls t = .shutJoin)
      (hfail : ∀ i d, s.wpController = some i → s.threads i = some d → d.joined = true) :
      CallStep s t (s.leave t .notJoined)
  | shutdown (hpc : s.calls t = .shutFinish) :
      CallStep s t ({ s with pool := { s.pool with status := .ready } }.leave t .shutdown)

theorem CallStep.of {t : T} (h : s.callStep t = some s') : CallStep s t s' := by
  cases hpc : s.calls t with
  | idle => simp [State.callStep, hpc] at h
  | startStatus =>
      simp only [State.callStep, hpc] at h
      split at h
      · cases h
      · have hfree : s.mutex = none := not_not.1 ‹_›
        split at h <;> cases h
        · exact .refused hpc hfree ‹_›
        · exact .statusOk hpc hfree (not_not.1 ‹_›)
  | startLock =>
      simp only [State.callStep, hpc] at h
      split at h <;> cases h
      exact .startLock hpc (not_not.1 ‹_›)
  | startWaiting count =>
      simp only [State.callStep, hpc] at h
      split at h <;> cases h
      · exact .setWaiting ⟨count, ‹_›⟩ hpc
      · exact .allCreated count hpc ‹_›
  | startCreate w =>
      simp only [State.callStep, hpc] at h
      cases h
      exact .createWorker w hpc
  | startController =>
      simp only [State.callStep, hpc] at h
      cases h
      exact .createController hpc
  | startFinish =>
      simp only [State.callStep, hpc] at h
      cases h
      exact .started hpc
  | shutLock =>
      simp only [State.callStep, hpc] at h
      split at h <;> cases h
      exact .shutLock hpc (not_not.1 ‹_›)
  | shutCheck =>
      simp only [State.callStep, hpc] at h
      split at h <;> cases h
      · exact .nothing hpc ‹_›
      · exact .shutCheck hpc (not_not.1 ‹_›)
  | shutClose =>
      simp only [State.callStep, hpc] at h
      cases h
      exact .close hpc
  | shutJoin =>
      simp only [State.callStep, hpc] at h
      obtain ⟨⟨u, r⟩, hjoin, rfl⟩ := Option.map_eq_some_iff.1 h
      rcases pthreadJoin_cases hjoin with ⟨rfl, i, d, hctl, hi, -, hended, rfl⟩ | ⟨rfl, rfl, hfail⟩
      · exact .joined i d hpc hctl hi hended
      · exact .notJoined hpc hfail
  | shutFinish =>
      simp only [State.callStep, hpc] at h
      cases h
      exact .shutdown hpc

/-- What a step can do. -/
inductive Step (s : State T n α) : Label T n α → State T n α → Prop where
  | callStart (t : T) (hidle : s.calls t = .idle) : Step s (.callStart t) (s.setCall t .startStatus)
  | callShutdown (t : T) (hidle : s.calls t = .idle) : Step s (.callShutdown t) (s.setCall t .shutLock)
  | call (t : T) {s' : State T n α} (h : CallStep s t s') : Step s (.call t) s'
  | workerFails (t : T) (w : Fin n) (hpc : s.calls t = .startCreate w) : Step s (.createFails t) (s.leave t (.failed w))
  | controllerFails (t : T) (hpc : s.calls t = .startController) : Step s (.createFails t) (s.leave t (.failed n))
  | thread (i : Nat) {s' : State T n α} (h : ThreadStep s i s') : Step s (.thread i) s'
  | taskReturn (i : Nat) {s' : State T n α} (h : ThreadStep s i s') : Step s (.taskReturn i) s'
  | client (a : Pool.Action n α) (p : Pool n α) (hworkers : p.workers = s.pool.workers)
      (hsem : p.poolSem = s.pool.poolSem) (hst : p.status = s.pool.status) : Step s (.client a) { s with pool := p }

theorem Step.of {l : Label T n α} (h : s.step l = some s') : Step s l s' := by
  unfold State.step at h
  split at h
  · cases h
  · cases l with
    | callStart t =>
        simp only at h
        split at h <;> cases h
        exact .callStart t ‹_›
    | callShutdown t =>
        simp only at h
        split at h <;> cases h
        exact .callShutdown t ‹_›
    | call t => exact .call t (.of h)
    | createFails t =>
        simp only [State.createFails] at h
        split at h <;> cases h
        · exact .workerFails t _ ‹_›
        · exact .controllerFails t ‹_›
    | thread i => exact .thread i (.of h)
    | taskReturn i => exact .taskReturn i (taskReturn_worker h)
    | client a =>
        obtain ⟨p, rfl, hworkers, hsem, hst⟩ := client_frame h
        exact .client a p hworkers hsem hst

end Calls

end ComplexSim.Lifecycle
