import ComplexSim.Workerpool.Calls
import ComplexSim.Workerpool.Handshake
import ComplexSim.Workerpool.Tokens

/-!
# The invariant of the pool

`PoolInv` joins the four parts: the handshake of the controller with the workers, the
tokens of the queue, the place of every task and the calls in progress. It holds in
every state a pool can reach (`poolInv_reachable`); in particular no assertion of the
pool or of its queue fails.
-/

namespace ComplexSim.Workerpool

variable {n : Nat} {α : Type}

structure PoolInv (s : Pool n α) : Prop where
  handshake : Handshake s.ctl s.workers s.poolSem
  queue : QueueInv s.tskQ s.status s.ctl s.shut
  tsks : TskInv s.places s.tsk
  calls : s.CallInv
  /-- a task that is in a call is being performed -/
  atTask : ∀ w, s.calls (.task w) ≠ .idle → ∃ t, (s.workers w).pc = .performing t
  running : s.aborted = none

/-- The places of a pool of which the record of worker `w` is replaced. -/
theorem Pool.places_setWorker (s : Pool n α) (w : Fin n) (d : Worker) :
    (s.setWorker w d).places =
      { s.places with given := Function.update s.places.given w d.given
                      stage := Function.update s.places.stage w d.pc.stage } := by
  have hgiven := Function.comp_update Worker.given s.workers w d
  have hstage := Function.comp_update (fun d => WorkerPc.stage d.pc) s.workers w d
  simp only [Pool.places, Pool.setWorker_workers, Pool.setWorker_tskQ, Pool.setWorker_ctl]
  congr

namespace TskInv

theorem init (bound : Nat) : TskInv (csWpInit n α bound).places (csWpInit n α bound).tsk where
  nodup := List.nodup_nil
  tsk := fun t => by
    constructor <;>
      simp [csWpInit, csQueueInit, Pool.places, ControllerPc.hand, Worker.given, WorkerPc.stage,
        Past.fresh]

/-- Worker `w` goes to another stage, and keeps what it has been given. -/
theorem setStage {s : Pool n α} {tsk' : TskId → Tsk n α} {w : Fin n} {d : Worker}
    (hgiven : d.given = (s.workers w).given)
    (h : TskInv { s.places with stage := Function.update s.places.stage w d.pc.stage } tsk') :
    TskInv (s.setWorker w d).places tsk' := by
  have hsame : Function.update s.places.given w d.given = s.places.given :=
    (congrArg _ hgiven).trans (Function.update_eq_self w s.places.given)
  rw [s.places_setWorker, hsame]
  exact h

/-- Worker `w` keeps what it has been given and its stage. -/
theorem still {s : Pool n α} (h : TskInv s.places s.tsk) {w : Fin n} {d : Worker}
    (hgiven : d.given = (s.workers w).given) (hstage : d.pc.stage = (s.workers w).pc.stage) :
    TskInv (s.setWorker w d).places s.tsk := by
  have hsame : Function.update s.places.stage w d.pc.stage = s.places.stage :=
    (congrArg _ hstage).trans (Function.update_eq_self w s.places.stage)
  refine setStage hgiven ?_
  rw [hsame]
  exact h

theorem workerStep {s s' : Pool n α} {w : Fin n} {e : PoolEvent n α} (h : TskInv s.places s.tsk)
    (hs : s.WorkerStep w s' e) : TskInv s'.places s'.tsk := by
  have hgiven : s.places.given w = (s.workers w).given := rfl
  have hstage : s.places.stage w = (s.workers w).pc.stage := rfl
  cases hs with
  | wake hpc _ | wokenOk hpc _ | exit hpc _ _ => exact h.still rfl (by simp [hpc, WorkerPc.stage])
  | wokenFail _ _ | takeNone _ _ _ | takeFail _ _ _ _ | releaseFail _ _ _ => exact h
  | take t hpc htsk hst =>
      rw [Worker.given, hst, htsk] at hgiven
      rw [hpc] at hstage
      show TskInv (s.setWorker w _).places _
      rw [s.places_setWorker]
      exact h.take hgiven hstage
  | release t hpc hst =>
      rw [hpc] at hstage
      exact setStage (s := { s with poolSem := _ }) (by simp [Worker.given, hst]) (h.release hstage)
  | setDone t hpc =>
      rw [hpc] at hstage
      show TskInv (s.setWorker w _).places _
      exact setStage rfl (h.setDone hstage)
  | signalEnd t hpc =>
      rw [hpc] at hstage
      show TskInv (s.setWorker w _).places _
      exact setStage rfl (h.signalEnd hstage)

theorem taskReturn {s : Pool n α} {w : Fin n} {t : TskId} (h : TskInv s.places s.tsk)
    (hpc : (s.workers w).pc = .performing t) :
    TskInv ((s.setWorker w { s.workers w with pc := .release t }).log t (.returned w)).places
      ((s.setWorker w { s.workers w with pc := .release t }).log t (.returned w)).tsk := by
  have hstage : s.places.stage w = (s.workers w).pc.stage := rfl
  rw [hpc] at hstage
  show TskInv (s.setWorker w _).places _
  exact setStage rfl (h.ret hstage)

theorem controllerStep {s s' : Pool n α} (h : TskInv s.places s.tsk)
    (hhand : Handshake s.ctl s.workers s.poolSem) (hqueue : QueueInv s.tskQ s.status s.ctl s.shut)
    (hs : s.ControllerStep s') : TskInv s'.places s'.tsk := by
  cases hs with
  | noHead _ _ | badSize _ _ | noWorker _ _ _ _ => exact h
  | dequeueWait hpc _ | leave hpc _ | poolSem _ hpc _ | found _ _ hpc _ | pass _ _ hpc _
  | allSent _ hpc _ | join _ hpc _ | ended _ hpc _ =>
      simpa [Pool.places, hpc, ControllerPc.hand] using h
  | dequeue t q hpc hq =>
      rw [hpc] at hqueue
      rcases hqueue.dequeue with ⟨u, rest, helems, hd⟩ | ⟨-, -, hd⟩
      · rw [hq] at hd; cases hd
        exact h.dequeue helems (by simp [Pool.places, hpc, ControllerPc.hand])
      · rw [hq] at hd; cases hd
  | assign t w hpc =>
      have hst := hhand.assign t w hpc
      have := h.assign (t := t) (w := w) (by simp [Pool.places, hpc, ControllerPc.hand])
        (by simp [Pool.places, Worker.given, hst])
      show TskInv (({ s with ctl := .notify w } : Pool n α).setWorker w _).places _
      have hsame : Function.update s.places.stage w (s.workers w).pc.stage = s.places.stage :=
        Function.update_eq_self w s.places.stage
      rw [Pool.places_setWorker]
      show TskInv { s.places with hand := none, given := Function.update s.places.given w (some t)
                                  stage := Function.update s.places.stage w _ } _
      rw [hsame]
      exact this
  | notify w hpc | sendShutdown w hpc | postShutdown w hpc =>
      refine TskInv.still (s := { s with ctl := _ }) ?_ rfl rfl
      simpa [Pool.places, hpc, ControllerPc.hand] using h

theorem callStep {s s' : Pool n α} {k : Caller n} {e : PoolEvent n α} (h : TskInv s.places s.tsk)
    (hcalls : s.CallInv) (hs : s.CallStep k s' e) : TskInv s'.places s'.tsk := by
  cases hs with
  | append t hpc _ => exact h.append (hcalls.unqueued k t (by simp [hpc, CallPc.unqueued]))
  | waitEnd t _ hsem => exact h.consume hsem
  | getStatus _ _ | refused _ _ _ _ | statusOk _ _ _ _ | lockTable _ _ _ | limit _ _ _ | drop _ _ _
  | failed _ _ _ _ | duplicate _ _ _ _ | insert _ _ _ _ _ | find _ _ _ _ | notFound _ _ _ _
  | isDone _ _ _ | notDone _ _ _ => exact h

theorem start {s : Pool n α} (h : TskInv s.places s.tsk)
    (hhand : Handshake s.ctl s.workers s.poolSem) (hc : s.ctl = .notCreated) :
    TskInv { elems := s.tskQ.elems, hand := none, given := fun _ => none, stage := fun _ => none }
      s.tsk := by
  have hidle : ∀ w, (s.workers w).given = none ∧ (s.workers w).pc.stage = none := fun w => by
    obtain ⟨-, hw⟩ := hhand.worker w
    rw [hc] at hw
    cases hpc : (s.workers w).pc <;>
      simp_all [Worker.given, WorkerPc.stage, ControllerPc.posted]
  have hplaces : s.places =
      { elems := s.tskQ.elems, hand := none, given := fun _ => none, stage := fun _ => none } := by
    unfold Pool.places
    simp only [hc, ControllerPc.hand, fun w => (hidle w).1, fun w => (hidle w).2]
  rw [← hplaces]
  exact h

end TskInv

namespace CallInv

theorem workerStep {s s' : Pool n α} {w : Fin n} {e : PoolEvent n α} (h : s.CallInv)
    (htsks : TskInv s.places s.tsk) (hs : s.WorkerStep w s' e) : s'.CallInv := by
  cases hs with
  | take t hpc htsk hst =>
      have hpast : (s.tsk t).hist = givenTo w := ((htsks.tsk t).given w).1 (by
        simp [Pool.places, Worker.given, hst, htsk])
      exact h.log id (by simp [hpast]) _
  | setDone t _ | signalEnd t _ =>
      refine h.frame id fun u hu => ?_
      by_cases hut : u = t
      · subst hut; simpa using hu
      · simpa [hut] using hu
  | wake _ _ | wokenOk _ _ | wokenFail _ _ | exit _ _ _ | takeNone _ _ _ | takeFail _ _ _ _
  | release _ _ _ | releaseFail _ _ _ => exact h

theorem taskReturn {s : Pool n α} {w : Fin n} {t : TskId} (h : s.CallInv)
    (htsks : TskInv s.places s.tsk) (hpc : (s.workers w).pc = .performing t) :
    ((s.setWorker w { s.workers w with pc := .release t }).log t (.returned w)).CallInv := by
  have hpast : (s.tsk t).hist = runBy w := ((htsks.tsk t).run w).1 (by
    simp [Pool.places, hpc, WorkerPc.stage])
  exact h.log id (by simp [hpast]) _

theorem controllerStep {s s' : Pool n α} (h : s.CallInv) (htsks : TskInv s.places s.tsk)
    (hqueue : QueueInv s.tskQ s.status s.ctl s.shut) (hs : s.ControllerStep s') : s'.CallInv := by
  cases hs with
  | dequeue t q hpc hq =>
      have hmem : t ∈ s.tskQ.elems := by
        rw [hpc] at hqueue
        rcases hqueue.dequeue with ⟨u, rest, helems, hd⟩ | ⟨-, -, hd⟩
        · rw [hq] at hd; cases hd; simp [helems]
        · rw [hq] at hd; cases hd
      have hpast : (s.tsk t).hist = inQueue n := (htsks.tsk t).queued.1 hmem
      exact h.log (by simp) (by simp [hpast]) _
  | assign t w hpc =>
      have hpast : (s.tsk t).hist = inHand n := (htsks.tsk t).hand.1 (by
        simp [Pool.places, hpc, ControllerPc.hand])
      exact h.log (by simp) (by simp [hpast]) _
  | dequeueWait _ _ | leave _ _ | poolSem _ _ _ | found _ _ _ _ | pass _ _ _ _ | notify _ _
  | sendShutdown _ _ | allSent _ _ _ | postShutdown _ _ | join _ _ _ | ended _ _ _ =>
      exact h.frame (by simp) fun _ => id
  | noHead _ _ | badSize _ _ | noWorker _ _ _ _ => exact h

theorem callStep {s s' : Pool n α} {k : Caller n} {e : PoolEvent n α} (h : s.CallInv)
    (hqueue : QueueInv s.tskQ s.status s.ctl s.shut) (hs : s.CallStep k s' e) :
    s'.CallInv ∧ s'.aborted = s.aborted := by
  cases hs with
  | getStatus hpc _ | refused _ hpc _ _ | find _ hpc _ _ | notFound _ hpc _ _ | isDone _ hpc _
  | notDone _ hpc _ =>
      refine ⟨h.aside ?_ ?_ fun _ => id, rfl⟩ <;>
        simp [hpc, CallPc.Aside, CallPc.passed, CallPc.pending, CallPc.locks]
  | waitEnd t hpc _ =>
      refine ⟨h.aside (k := k) ?_ ?_ fun u hu => ?_, rfl⟩
      · simp [hpc, CallPc.Aside, CallPc.passed, CallPc.pending, CallPc.locks]
      · simp [CallPc.Aside, CallPc.passed, CallPc.pending, CallPc.locks]
      · by_cases hut : u = t
        · subst hut; simpa using hu
        · simpa [hut] using hu
  | statusOk x hpc _ hst =>
      have hcreated : s.ctl ≠ .notCreated := by
        have hlife := hqueue.life
        rw [hst] at hlife
        cases hq : s.tskQ.status <;> (rw [hq] at hlife; exact hlife.1)
      exact ⟨h.statusOk hpc hcreated, rfl⟩
  | lockTable t hpc hfree => rw [Pool.CallInv, hfree] at h; exact ⟨h.lockTable hpc, rfl⟩
  | limit t hpc _ => exact ⟨h.limit hpc, rfl⟩
  | append t hpc _ =>
      exact ⟨h.enqueue hpc fun u hu => by simp [hu], rfl⟩
  | drop t hpc _ => exact ⟨h.enqueue hpc fun _ _ => rfl, rfl⟩
  | failed t r hpc hneg => exact absurd (h.result k t r hpc) (by omega)
  | duplicate t r hpc hmem =>
      exact absurd hmem (h.pending k t (by simp [hpc, CallPc.pending])).2
  | insert t r hpc _ _ => exact ⟨h.insert hpc, rfl⟩

end CallInv

namespace PoolInv

theorem init (bound : Nat) : PoolInv (csWpInit n α bound) where
  handshake := .init bound
  queue := .init bound
  tsks := .init bound
  calls := .init bound
  atTask := by simp [csWpInit]
  running := rfl

theorem start {s : Pool n α} (h : PoolInv s) (hst : s.status = .ready) (hc : s.ctl = .notCreated) :
    PoolInv { s with
      workers := fun w => { s.workers w with status := .waiting, pc := .semWait }
      ctl := .dequeueWait
      status := .working } where
  handshake := h.handshake.start hc
  queue := h.queue.start hc hst
  tsks := h.tsks.start h.handshake hc
  calls := h.calls.frame (by simp) fun _ => id
  atTask := fun w hw => by
    obtain ⟨t, ht⟩ := h.atTask w hw
    obtain ⟨-, hw⟩ := h.handshake.worker w
    rw [ht] at hw
    exact absurd hc hw.1
  running := h.running

/-- A thread begins a call. -/
theorem beginCall {s : Pool n α} {k : Caller n} {c : CallPc α} (h : PoolInv s)
    (hidle : s.calls k = .idle) (hmay : s.mayCall k = true) (hc : c.Aside) :
    PoolInv (s.setCall k c) := by
  refine ⟨h.handshake, h.queue, h.tsks, h.calls.aside ?_ hc fun _ => id, fun w hw => ?_, h.running⟩
  · rw [hidle]; exact ⟨rfl, rfl⟩
  · by_cases hk : k = .task w
    · subst hk; exact Pool.mayCall_task hmay
    · refine h.atTask w fun hno => hw ?_
      rw [Pool.setCall_calls, Function.update_of_ne (Ne.symm hk), hno]

theorem callStep {s s' : Pool n α} {k : Caller n} {e : PoolEvent n α} (h : PoolInv s)
    (hs : s.CallStep k s' e) : PoolInv s' := by
  obtain ⟨hcalls, hrun⟩ := h.calls.callStep h.queue hs
  obtain ⟨hbusy, hothers, hworkers, hctl, hsem, -⟩ := hs.frame
  refine ⟨?_, ?_, h.tsks.callStep h.calls hs, hcalls, fun w hw => ?_, hrun.trans h.running⟩
  · rw [hworkers, hctl, hsem]; exact h.handshake
  · cases hs with
    | append t _ hopen => exact h.queue.append hopen t
    | limit _ _ _ => exact ⟨h.queue.size, h.queue.tokens, h.queue.left, h.queue.life⟩
    | _ => exact h.queue
  · rw [hworkers]
    by_cases hk : k = .task w
    · subst hk; exact h.atTask w hbusy
    · exact h.atTask w (hothers (.task w) (Ne.symm hk) ▸ hw)

theorem createTsk {s : Pool n α} {k : Caller n} {t : TskId} {x : α} (h : PoolInv s)
    (hpc : s.calls k = .enqCreate x) (hlt : s.lastId < t) :
    PoolInv (({ s with lastId := t }.setTsk t
      { tskCode := some x, status := .waiting, taskSem := 0, hist := [] }).setCall k
        (.enqTable t)) := by
  refine ⟨h.handshake, h.queue, h.tsks.create (h.calls.unused t hlt).1 _, h.calls.create hpc hlt,
    fun w hw => ?_, h.running⟩
  by_cases hk : k = .task w
  · subst hk; exact h.atTask w (by simp [hpc])
  · refine h.atTask w fun hno => hw ?_
    rw [Pool.setCall_calls, Function.update_of_ne (Ne.symm hk)]
    exact hno

theorem workerStep {s s' : Pool n α} {w : Fin n} {e : PoolEvent n α} (h : PoolInv s)
    (hs : s.WorkerStep w s' e) : PoolInv s' := by
  obtain ⟨hhand, hrun⟩ := h.handshake.workerStep hs
  obtain ⟨hpc, hothers, hcalls, hq, hctl, hst, hshut, -⟩ := hs.frame
  refine ⟨hhand, ?_, h.tsks.workerStep hs, h.calls.workerStep h.tsks hs, fun v hv => ?_,
    hrun.trans h.running⟩
  · rw [hq, hst, hctl, hshut]; exact h.queue
  · rw [hcalls] at hv
    obtain ⟨t, ht⟩ := h.atTask v hv
    have hne : v ≠ w := fun heq => hpc t (heq ▸ ht)
    exact ⟨t, (congrArg Worker.pc (hothers v hne)).trans ht⟩

theorem taskReturn {s : Pool n α} {w : Fin n} {t : TskId} (h : PoolInv s)
    (hpc : (s.workers w).pc = .performing t) (hidle : s.calls (.task w) = .idle) :
    PoolInv ((s.setWorker w { s.workers w with pc := .release t }).log t (.returned w)) where
  handshake := h.handshake.taskReturn hpc
  queue := h.queue
  tsks := h.tsks.taskReturn hpc
  calls := h.calls.taskReturn h.tsks hpc
  atTask := fun v hv => by
    have hne : v ≠ w := fun heq => hv (heq ▸ hidle)
    obtain ⟨u, hu⟩ := h.atTask v hv
    exact ⟨u, by simpa [hne] using hu⟩
  running := h.running

theorem controllerStep {s s' : Pool n α} (h : PoolInv s) (hs : s.ControllerStep s') :
    PoolInv s' := by
  obtain ⟨hhand, hrun⟩ := h.handshake.controllerStep hs
  obtain ⟨hqueue, hrun'⟩ := h.queue.controllerStep hs
  obtain ⟨hpc, hcalls, -⟩ := hs.frame
  refine ⟨hhand, hqueue, h.tsks.controllerStep h.handshake h.queue hs,
    h.calls.controllerStep h.tsks h.queue hs, fun w hw => ?_, ?_⟩
  · rw [hpc]; exact h.atTask w (hcalls ▸ hw)
  · by_cases hd : s.ctl = .dequeue
    · exact (hrun' hd).trans h.running
    · exact (hrun hd).trans h.running

theorem shutdownStep {s s' : Pool n α} {e : PoolEvent n α} (h : PoolInv s)
    (hs : s.ShutdownStep s' e) : PoolInv s' := by
  have hqueue := h.queue.shutdownStep hs
  cases hs with
  | lock _ | nothing _ _ | check _ _ | close _ | join _ _ | finish _ =>
      exact ⟨h.handshake, hqueue, h.tsks, h.calls, h.atTask, h.running⟩

/-- Every action keeps the invariant. -/
theorem step {s s' : Pool n α} {a : Pool.Action n α} {e : PoolEvent n α} (h : PoolInv s)
    (hs : s.Step a s' e) : PoolInv s' := by
  cases hs with
  | startAgain _ _ => exact h
  | start _ hst hc => exact h.start hst hc
  | callGetStatus k hidle hmay | callEnqueue k x hidle hmay | callWait k id hidle hmay =>
      exact h.beginCall hidle hmay ⟨rfl, rfl⟩
  | callShutdown hsh =>
      refine ⟨h.handshake, ⟨h.queue.size, h.queue.tokens, h.queue.left, ?_⟩, h.tsks, h.calls,
        h.atTask, h.running⟩
      have hlife := h.queue.life
      unfold Life at hlife ⊢
      rcases hsh with hsh | hsh <;> split at hlife <;> simp_all
  | call k hk => exact h.callStep hk
  | create k t x hpc hlt => exact h.createTsk hpc hlt
  | worker w hw => exact h.workerStep hw
  | taskReturn w t hpc hidle => exact h.taskReturn hpc hidle
  | controller hc => exact h.controllerStep hc
  | shutdown hsh => exact h.shutdownStep hsh

end PoolInv

/-- The invariant holds in every state a pool reaches. -/
theorem poolInv_reachable {bound : Nat} {ok : Pool n α → Pool.Action n α → Prop} {s : Pool n α}
    (h : Lts.ReachableIf (system n α bound) ok s) : PoolInv s := by
  refine h.invariant (fun s hs => ?_) fun s a t hi _ hs => ?_
  · rw [show s = csWpInit n α bound from hs]; exact .init bound
  · obtain ⟨-, e, he⟩ := Pool.Step.of_step hs
    exact hi.step he

end ComplexSim.Workerpool
