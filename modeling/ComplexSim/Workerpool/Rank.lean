import ComplexSim.Lib.Tally
import ComplexSim.Workerpool.Batch
import ComplexSim.Workerpool.Invariant

/-!
# A pool does only finitely much by itself

`Pool.rank` bounds the steps that a pool can take before one of its clients begins a call: each step
of a worker, of the controller, or of a call under way lowers it, and a new call raises it by what
`PoolEvent.cost` says. What a step hands on is paid for where it is handed over: a task in the queue
for its way to a worker, a post of a semaphore for the steps of the worker that it wakes.
-/

namespace ComplexSim.Workerpool

variable {n : Nat} {α : Type}

/-- The steps that a task in the queue still costs the controller and its worker. -/
def queuedRank (n : Nat) : Nat := 13 + n

/-- The steps left in a call. -/
def CallPc.rank (n : Nat) : CallPc α → Nat
  | .idle => 0
  | .getStatus | .enqInsert _ _ | .waitSem _ => 1
  | .waitStatus _ => 2
  | .waitFind _ => 3
  | .enqQueue _ => queuedRank n + 2
  | .enqLimit _ => queuedRank n + 3
  | .enqTable _ => queuedRank n + 4
  | .enqCreate _ => queuedRank n + 5
  | .enqStatus _ => queuedRank n + 6

/-- The steps left to a worker; a post of its semaphore is worth the steps of one task. -/
def Worker.rank (d : Worker) : Nat :=
  8 * d.waitingSem + match d.pc with
    | .notCreated | .semWait | .exited => 0
    | .woken => 6
    | .takeTask => 5
    | .performing _ => 4
    | .release _ => 3
    | .setDone _ => 2
    | .signalEnd _ => 1

/-- The steps left to the controller with an empty queue, up to its end. -/
def ControllerPc.rank : ControllerPc n → Nat
  | .notCreated => 11 * n + 5
  | .poolSem _ => 12 * n + 15
  | .scan _ count => 11 * n + 14 + (n - count)
  | .assign _ _ => 11 * n + 14
  | .notify _ => 11 * n + 13
  | .dequeueWait => 11 * n + 4
  | .dequeue => 11 * n + 3
  | .sendShutdown count => 10 * (n - count) + n + 2
  | .postShutdown count => 10 * (n - count) + n + 1
  | .join count => n - count + 1
  | .ended => 0

/-- The steps left in the calls of the thread outside and of the tasks. -/
def callsRank (calls : Caller n → CallPc α) : Nat :=
  (calls (.ext 0)).rank n + tally (CallPc.rank n) fun w => calls (.task w)

/-- A bound on the steps of a pool before a new call. -/
def Pool.rank (p : Pool n α) : Nat :=
  callsRank p.calls + queuedRank n * p.tskQ.elems.length + p.ctl.rank + tally Worker.rank p.workers

/-- What a call adds to the rank of its pool. -/
def PoolEvent.cost : PoolEvent n α → Nat
  | .startRet _ => 1
  | .statusCall _ => 2
  | .waitCall _ _ => 4
  | .enqueueCall _ _ => queuedRank n + 7
  | _ => 0

section Parts

theorem callsRank_update {calls : Caller n → CallPc α} {k : Caller n} {c : CallPc α} (hk : ∀ i, k ≠ .ext (i + 1)) :
    callsRank (Function.update calls k c) + (calls k).rank n = callsRank calls + c.rank n := by
  cases k with
  | ext i =>
      cases i with
      | zero =>
          have htasks : (fun w => Function.update calls (Caller.ext 0) c (.task w)) = fun w : Fin n => calls (.task w) := by
            funext w
            simp
          simp only [callsRank, htasks, Function.update_self]
          omega
      | succ i => exact absurd rfl (hk i)
  | task v =>
      have htasks : (fun w => Function.update calls (Caller.task v) c (.task w)) =
          Function.update (fun w => calls (.task w)) v c := by
        funext w
        by_cases hw : w = v
        · subst hw
          simp
        · simp [hw]
      have htally := tally_update (CallPc.rank n) (fun w => calls (.task w)) v c
      simp only [callsRank, htasks]
      rw [Function.update_of_ne (by simp)]
      omega

theorem queue_dequeued {q q' : CsQueue TskId} {t : TskId} (h : csQueueDequeue q = .elem t q') :
    q'.elems.length + 1 ≤ q.elems.length := by
  unfold csQueueDequeue at h
  split at h
  · split at h <;> cases h
  · rename_i x rest hrest
    simp only at h
    split at h <;> cases h
    rw [hrest]
    split <;> simp

end Parts

namespace Pool

variable {p p' : Pool n α} {e : PoolEvent n α} {w : Fin n} {k : Caller n}

/-- A worker that gets on lowers the rank. -/
theorem rank_lt_of_worker {d : Worker} (hcalls : p'.calls = p.calls) (hqueue : p'.tskQ = p.tskQ) (hctl : p'.ctl = p.ctl)
    (hworkers : p'.workers = Function.update p.workers w d) (hlt : d.rank < (p.workers w).rank) : p'.rank < p.rank := by
  have htally := tally_update Worker.rank p.workers w d
  unfold rank
  rw [hcalls, hqueue, hctl, hworkers]
  omega

/-- So does the controller that hands something to a worker. -/
theorem rank_lt_of_hand {d : Worker} (hcalls : p'.calls = p.calls) (hqueue : p'.tskQ = p.tskQ)
    (hworkers : p'.workers = Function.update p.workers w d)
    (hlt : p'.ctl.rank + d.rank < p.ctl.rank + (p.workers w).rank) : p'.rank < p.rank := by
  have htally := tally_update Worker.rank p.workers w d
  unfold rank
  rw [hcalls, hqueue, hworkers]
  omega

/-- So does a call. -/
theorem rank_lt_of_call {c : CallPc α} (hk : ∀ i, k ≠ .ext (i + 1)) (hcalls : p'.calls = Function.update p.calls k c)
    (hctl : p'.ctl = p.ctl) (hworkers : p'.workers = p.workers)
    (hlt : queuedRank n * p'.tskQ.elems.length + c.rank n < queuedRank n * p.tskQ.elems.length + (p.calls k).rank n) :
    p'.rank < p.rank := by
  have hupdate : callsRank (Function.update p.calls k c) + (p.calls k).rank n = callsRank p.calls + c.rank n :=
    callsRank_update hk
  unfold rank
  rw [hcalls, hctl, hworkers]
  omega

/-- A step of a worker lowers the rank. -/
theorem WorkerStep.rank_lt (h : p.WorkerStep w p' e) (hrun : p'.aborted = none) : p'.rank < p.rank := by
  cases h with
  | wokenFail _ _ | takeNone _ _ _ | takeFail _ _ _ _ | releaseFail _ _ _ => cases hrun
  | wake hpc _ | wokenOk hpc _ | exit hpc _ _ | take _ hpc _ _ | release _ hpc _ | setDone _ hpc | signalEnd _ hpc =>
      exact rank_lt_of_worker rfl rfl rfl rfl (by simp only [Worker.rank, hpc]; omega)

/-- A step of the controller lowers the rank. -/
theorem ControllerStep.rank_lt (h : p.ControllerStep p') (hrun : p'.aborted = none) : p'.rank < p.rank := by
  cases h with
  | noHead _ _ | badSize _ _ | noWorker _ _ _ _ => cases hrun
  | dequeueWait hpc _ | leave hpc _ | poolSem _ hpc _ | allSent _ hpc _ | ended _ hpc _ =>
      simp only [rank, hpc, ControllerPc.rank]
      omega
  | found t v hpc _ | pass t v hpc _ | join v hpc _ =>
      have hv := v.isLt
      simp only [rank, hpc, ControllerPc.rank]
      omega
  | dequeue t q hpc hq =>
      have hqueued := Nat.mul_le_mul_left (queuedRank n) (queue_dequeued hq)
      simp only [rank, log, hpc, ControllerPc.rank]
      simp only [queuedRank, Nat.mul_add] at *
      omega
  | assign t v hpc | notify v hpc | sendShutdown v hpc | postShutdown v hpc =>
      have hv := v.isLt
      refine rank_lt_of_hand rfl rfl rfl ?_
      simp only [hpc, ControllerPc.rank, Worker.rank, setWorker, log]
      omega

/-- A step of a call lowers the rank. -/
theorem CallStep.rank_lt (h : p.CallStep k p' e) (hk : ∀ i, k ≠ .ext (i + 1)) (hrun : p'.aborted = none) :
    p'.rank < p.rank := by
  cases h with
  | duplicate _ _ _ _ => cases hrun
  | append t hpc hopen =>
      refine rank_lt_of_call hk rfl rfl rfl ?_
      simp only [hpc, CallPc.rank, log, setCall, List.length_append, List.length_singleton, Nat.mul_add]
      omega
  | getStatus hpc _ | refused _ hpc _ _ | statusOk _ hpc _ _ | lockTable _ hpc _ | limit _ hpc _ | drop _ hpc _
  | failed _ _ hpc _ | insert _ _ hpc _ _ | find _ hpc _ _ | notFound _ hpc _ _ | isDone _ hpc _ | notDone _ hpc _
  | waitEnd _ hpc _ => exact rank_lt_of_call hk rfl rfl rfl (by simp only [hpc, CallPc.rank, setCall, setTsk]; omega)

/-- **A step of a pool lowers its rank**, or begins a call that raises it by its cost. -/
theorem Step.rank_lt {a : Action n α} (h : p.Step a p' e) (hrun : p'.aborted = none) (hshut : p'.shut = .idle)
    (hidle : ∀ i, p.calls (.ext (i + 1)) = .idle) (hidle' : ∀ i, p'.calls (.ext (i + 1)) = .idle) :
    p'.rank < p.rank + e.cost := by
  have hcalls : ∀ {k c}, p.calls k = .idle → c ≠ .idle → p'.calls = Function.update p.calls k c →
      p'.tskQ = p.tskQ → p'.ctl = p.ctl → p'.workers = p.workers → p'.rank = p.rank + c.rank n := by
    intro k c hfree hc hto hqueue hctl hworkers
    have hk : ∀ i, k ≠ .ext (i + 1) := by
      rintro i rfl
      have hno := hidle' i
      rw [hto, Function.update_self] at hno
      exact hc hno
    have hupdate : callsRank (Function.update p.calls k c) + (p.calls k).rank n = callsRank p.calls + c.rank n :=
      callsRank_update hk
    rw [hfree] at hupdate
    simp only [rank, hto, hqueue, hctl, hworkers, CallPc.rank] at *
    omega
  cases h with
  | startAgain _ _ => exact Nat.lt_succ_self _
  | start _ _ hctl =>
      have hworkers : tally Worker.rank (fun w => { p.workers w with status := .waiting, pc := .semWait }) ≤
          tally Worker.rank p.workers := by
        apply Finset.sum_le_sum
        intro w _
        simp only [Worker.rank]
        omega
      dsimp only at hworkers
      simp only [rank, hctl, ControllerPc.rank, PoolEvent.cost]
      omega
  | callGetStatus k hfree _ | callEnqueue k _ hfree _ | callWait k _ hfree _ =>
      have heq := hcalls hfree (by simp) rfl rfl rfl rfl
      simp only [CallPc.rank] at heq
      simp only [PoolEvent.cost]
      omega
  | callShutdown _ => cases hshut
  | call k hstep =>
      apply Nat.lt_add_right
      refine hstep.rank_lt ?_ hrun
      rintro i rfl
      exact hstep.frame.1 (hidle i)
  | create k t x hpc _ =>
      refine rank_lt_of_call ?_ rfl rfl rfl (by simp only [hpc, CallPc.rank, setCall, setTsk]; omega)
      rintro i rfl
      rw [hidle i] at hpc
      cases hpc
  | worker w hstep => exact Nat.lt_add_right _ (hstep.rank_lt hrun)
  | taskReturn w t hpc _ => exact rank_lt_of_worker rfl rfl rfl rfl (by simp only [Worker.rank, hpc]; omega)
  | controller hstep => exact hstep.rank_lt hrun
  | shutdown hstep =>
      cases hstep with
      | join hpc _ | lock hpc | nothing hpc _ | check hpc _ | close hpc | finish hpc => cases hshut

end Pool

/-- What the loops of a thread still add to the rank of the pool, and its own steps between. -/
def Join.rank (n : Nat) : Join α → Nat
  | .enqueue xs ids => (queuedRank n + 12) * xs.length + 5 * ids.length + 1
  | .inEnqueue xs ids => (queuedRank n + 12) * xs.length + 5 * ids.length + 6
  | .wait ids => 5 * ids.length
  | .inWait _ ids => 5 * ids.length + 1

/-- The loops pay for their calls. -/
theorem Join.rank_observe [DecidableEq α] {j j' : Join α} {k : Caller n} {e : PoolEvent n α} (h : j.observe k e = some j') :
    j'.rank n + e.cost ≤ j.rank n := by
  unfold Join.observe at h
  split at h <;> try cases h
  all_goals
    split at h <;> cases h
    simp only [Join.rank, PoolEvent.cost, List.length_cons, List.length_append, List.length_nil, Nat.mul_add]
    omega

end ComplexSim.Workerpool
