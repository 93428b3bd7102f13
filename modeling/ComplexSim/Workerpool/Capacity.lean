import ComplexSim.Workerpool.Invariant

/-!
# The places of the task queue

Until it is closed, the free places of the queue, its elements and the enqueuer that has taken a place
and not yet used it make up the bound of the queue. Only the enqueuer that has the table locked can be
such a one.
-/

namespace ComplexSim.Workerpool

variable {n : Nat} {α : Type}

/-- The places that the caller has taken from `qlimit_sem` and not used. -/
def CallPc.queueing : CallPc α → Nat
  | .enqQueue _ => 1
  | _ => 0

/-- The places that enqueuers have taken and not used. -/
def Pool.queueing (s : Pool n α) : Nat :=
  match s.tableMutex with
  | some k => (s.calls k).queueing
  | none => 0

structure Capacity (bound : Nat) (s : Pool n α) : Prop where
  places : s.tskQ.status = .opened → s.tskQ.qlimitSem + s.tskQ.elems.length + s.queueing = bound
  used : ∀ t, (s.tsk t).hist ≠ [] → 0 < bound
  fresh : s.ctl = .notCreated → s.tskQ.elems = []

section Steps

variable {bound : Nat} {s s' : Pool n α} {a : Pool.Action n α} {e : PoolEvent n α} {k : Caller n}

/-- The move of a caller that has not locked the table. -/
theorem PoolInv.queueing_setCall (h : PoolInv s) (hk : (s.calls k).locks = false) (c : CallPc α) :
    (s.setCall k c).queueing = s.queueing := by
  unfold Pool.queueing
  show (match s.tableMutex with | some k' => ((s.setCall k c).calls k').queueing | none => 0) = _
  cases hmutex : s.tableMutex with
  | none => rfl
  | some k' =>
      have hlocks := (h.calls.mutex k').2 hmutex
      have hne : k' ≠ k := by
        rintro rfl
        rw [hk] at hlocks
        cases hlocks
      simp only [Pool.setCall_calls, Function.update_of_ne hne]

theorem Capacity.init : Capacity bound (csWpInit n α bound) where
  places := fun _ => rfl
  used := fun _ ht => absurd rfl ht
  fresh := fun _ => rfl

/-- A step that changes neither the queue nor who has a place, and begins no history. -/
theorem Capacity.keep (h : Capacity bound s) (hq : s'.tskQ = s.tskQ) (hplaces : s'.queueing = s.queueing)
    (hctl : s'.ctl = .notCreated → s.ctl = .notCreated) (hhist : ∀ t, (s'.tsk t).hist ≠ [] → (s.tsk t).hist ≠ []) :
    Capacity bound s' where
  places := by
    rw [hq, hplaces]
    exact h.places
  used := fun t ht => h.used t (hhist t ht)
  fresh := by
    rw [hq]
    exact fun hc => h.fresh (hctl hc)

theorem hist_log {tsk : TskId → Tsk n α} {t u : TskId} {d : Tsk n α} (ht : (tsk t).hist ≠ [])
    (hu : (Function.update tsk t d u).hist ≠ []) : (tsk u).hist ≠ [] := by
  by_cases hut : u = t
  · rw [hut]
    exact ht
  · rwa [Function.update_of_ne hut] at hu

theorem hist_setTsk {tsk : TskId → Tsk n α} {t u : TskId} {d : Tsk n α} (hd : d.hist = (tsk t).hist)
    (hu : (Function.update tsk t d u).hist ≠ []) : (tsk u).hist ≠ [] := by
  by_cases hut : u = t
  · rw [hut, Function.update_self] at hu
    rw [hut, ← hd]
    exact hu
  · rwa [Function.update_of_ne hut] at hu

theorem Capacity.workerStep (h : PoolInv s) (hc : Capacity bound s) {w : Fin n} (hs : s.WorkerStep w s' e) :
    Capacity bound s' := by
  cases hs with
  | take t hpc htsk hst =>
      have hpast : (s.tsk t).hist = givenTo w := ((h.tsks.tsk t).given w).1 (by
        simp [Pool.places, Worker.given, hst, htsk])
      exact hc.keep rfl rfl id fun u => hist_log (by simp [hpast])
  | setDone t _ | signalEnd t _ => exact hc.keep rfl rfl id fun u => hist_setTsk rfl
  | wake _ _ | wokenOk _ _ | wokenFail _ _ | exit _ _ _ | takeNone _ _ _ | takeFail _ _ _ _ | release _ _ _
  | releaseFail _ _ _ => exact hc.keep rfl rfl id fun _ => id

theorem Capacity.controllerStep (h : PoolInv s) (hc : Capacity bound s) (hs : s.ControllerStep s') :
    Capacity bound s' := by
  cases hs with
  | dequeueWait hpc _ => exact ⟨hc.places, hc.used, by simp⟩
  | dequeue t q hpc hq =>
      have hqueue := h.queue
      rw [hpc] at hqueue
      rcases hqueue.dequeue with ⟨u, rest, helems, hd⟩ | ⟨-, -, hd⟩
      · rw [hq] at hd
        cases hd
        have hpast : (s.tsk t).hist = inQueue n := (h.tsks.tsk t).queued.1 (by simp [Pool.places, helems])
        refine ⟨fun hopen => ?_, fun v hv => hc.used v (hist_log (by simp [hpast]) hv), by simp⟩
        have hplaces := hc.places hopen
        rw [helems, List.length_cons] at hplaces
        show s.tskQ.qlimitSem + 1 + rest.length + s.queueing = bound
        omega
      · rw [hq] at hd
        cases hd
  | assign t w hpc =>
      have hpast : (s.tsk t).hist = inHand n := (h.tsks.tsk t).hand.1 (by
        simp [Pool.places, hpc, ControllerPc.hand])
      exact hc.keep rfl rfl (by simp) fun u => hist_log (by simp [hpast])
  | leave _ _ | poolSem _ _ _ | found _ _ _ _ | pass _ _ _ _ | notify _ _ | sendShutdown _ _ | allSent _ _ _
  | postShutdown _ _ | join _ _ _ | ended _ _ _ => exact hc.keep rfl rfl (by simp) fun _ => id
  | noHead _ _ | badSize _ _ | noWorker _ _ _ _ => exact hc.keep rfl rfl id fun _ => id

theorem Capacity.callStep (h : PoolInv s) (hc : Capacity bound s) (hs : s.CallStep k s' e) : Capacity bound s' := by
  have hholds : (s.calls k).locks = true → s.tableMutex = some k := (h.calls.mutex k).1
  cases hs with
  | getStatus hpc _ | refused _ hpc _ _ | statusOk _ hpc _ _ | find _ hpc _ _ | notFound _ hpc _ _ | isDone _ hpc _
  | notDone _ hpc _ => exact hc.keep rfl (h.queueing_setCall (by simp [hpc, CallPc.locks]) _) id fun _ => id
  | waitEnd t hpc _ =>
      exact hc.keep rfl (h.queueing_setCall (by simp [hpc, CallPc.locks]) _) id fun u => hist_setTsk rfl
  | lockTable t hpc hfree =>
      refine hc.keep rfl ?_ id fun _ => id
      simp [Pool.queueing, hfree, CallPc.queueing]
  | limit t hpc hsem =>
      have hlock := hholds (by simp [hpc, CallPc.locks])
      refine ⟨fun hopen => ?_, hc.used, hc.fresh⟩
      have hplaces := hc.places hopen
      simp [Pool.queueing, hlock, hpc, CallPc.queueing] at hplaces ⊢
      omega
  | append t hpc hopen =>
      have hlock := hholds (by simp [hpc, CallPc.locks])
      have hplaces := hc.places hopen
      have hcreated : s.ctl ≠ .notCreated := h.calls.created k (by simp [hpc, CallPc.passed, CallPc.pending])
      simp [Pool.queueing, hlock, hpc, CallPc.queueing] at hplaces
      refine ⟨fun _ => ?_, fun _ _ => by omega, fun hno => absurd hno hcreated⟩
      simp [Pool.queueing, hlock, CallPc.queueing]
      omega
  | drop t hpc hclosed =>
      refine ⟨fun hopen => ?_, hc.used, hc.fresh⟩
      have hstill : s.tskQ.status = .opened := hopen
      rw [hstill] at hclosed
      cases hclosed
  | failed t r hpc _ =>
      have hlock := hholds (by simp [hpc, CallPc.locks])
      exact hc.keep rfl (by simp [Pool.queueing, hlock, hpc, CallPc.queueing]) id fun _ => id
  | duplicate t r hpc _ => exact hc.keep rfl rfl id fun _ => id
  | insert t r hpc _ _ =>
      have hlock := hholds (by simp [hpc, CallPc.locks])
      exact hc.keep rfl (by simp [Pool.queueing, hlock, hpc, CallPc.queueing]) id fun _ => id

theorem Capacity.step (h : PoolInv s) (hc : Capacity bound s) (hs : s.Step a s' e) : Capacity bound s' := by
  cases hs with
  | startAgain _ _ => exact hc
  | start _ _ hctl => exact hc.keep rfl rfl (fun _ => hctl) fun _ => id
  | callGetStatus k hidle _ | callEnqueue k x hidle _ | callWait k id' hidle _ =>
      exact hc.keep rfl (h.queueing_setCall (by simp [hidle, CallPc.locks]) _) id fun _ => id
  | callShutdown _ => exact hc.keep rfl rfl id fun _ => id
  | call k hk => exact hc.callStep h hk
  | create k t x hpc hlt =>
      have hnew : (s.tsk t).hist = [] := (h.calls.unused t hlt).1
      refine hc.keep rfl ?_ id fun u => hist_setTsk hnew.symm
      exact h.queueing_setCall (by simp [hpc, CallPc.locks]) _
  | worker w hw => exact hc.workerStep h hw
  | taskReturn w t hpc _ =>
      have hpast : (s.tsk t).hist = runBy w := ((h.tsks.tsk t).run w).1 (by
        simp [Pool.places, hpc, WorkerPc.stage])
      exact hc.keep rfl rfl id fun u => hist_log (by simp [hpast])
  | controller hc' => exact hc.controllerStep h hc'
  | shutdown hsh =>
      cases hsh with
      | close hpc => exact ⟨fun hopen => (by cases hopen), hc.used, hc.fresh⟩
      | lock _ | nothing _ _ | check _ _ | join _ _ | finish _ => exact hc.keep rfl rfl id fun _ => id

end Steps

end ComplexSim.Workerpool
