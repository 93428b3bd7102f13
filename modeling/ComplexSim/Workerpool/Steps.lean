import ComplexSim.Workerpool.Basic

/-!
# What each step of a pool can do

`WorkerStep`, `ControllerStep`, `CallStep` and `ShutdownStep` list the branches of
the step functions of `ComplexSim.Workerpool.Basic`, with the guard each branch has
passed and the state it leads to. The invariants are proved over these cases and do
not unfold the step functions again.
-/

namespace ComplexSim.Workerpool

variable {n : Nat} {α : Type}

namespace Pool

inductive WorkerStep (s : Pool n α) (w : Fin n) : Pool n α → PoolEvent n α → Prop where
  | wake (hpc : (s.workers w).pc = .semWait) (hsem : 0 < (s.workers w).waitingSem) :
      WorkerStep s w (s.setWorker w
        { s.workers w with waitingSem := (s.workers w).waitingSem - 1, pc := .woken }) .tau
  | wokenOk (hpc : (s.workers w).pc = .woken)
      (hok : (s.workers w).shutdown = true ∨ (s.workers w).status = .tskAssigned) :
      WorkerStep s w (s.setWorker w { s.workers w with pc := .takeTask }) .tau
  | wokenFail (hpc : (s.workers w).pc = .woken)
      (hbad : ¬ ((s.workers w).shutdown = true ∨ (s.workers w).status = .tskAssigned)) :
      WorkerStep s w (s.abort .woken) .tau
  | exit (hpc : (s.workers w).pc = .takeTask) (hnone : (s.workers w).assignedTsk = none)
      (hshut : (s.workers w).shutdown = true) :
      WorkerStep s w (s.setWorker w { s.workers w with pc := .exited }) .tau
  | takeNone (hpc : (s.workers w).pc = .takeTask) (hnone : (s.workers w).assignedTsk = none)
      (hshut : (s.workers w).shutdown = false) : WorkerStep s w (s.abort .hasTask) .tau
  | take (t : TskId) (hpc : (s.workers w).pc = .takeTask) (htsk : (s.workers w).assignedTsk = some t)
      (hst : (s.workers w).status = .tskAssigned) :
      WorkerStep s w ((s.setWorker w
        { s.workers w with status := .working, pc := .performing t }).log t (.started w))
        (.started w t (s.tsk t).tskCode)
  | takeFail (t : TskId) (hpc : (s.workers w).pc = .takeTask)
      (htsk : (s.workers w).assignedTsk = some t) (hst : (s.workers w).status ≠ .tskAssigned) :
      WorkerStep s w (s.abort .statusAssigned) .tau
  | release (t : TskId) (hpc : (s.workers w).pc = .release t)
      (hst : (s.workers w).status = .working) :
      WorkerStep s w ({ s with poolSem := s.poolSem + 1 }.setWorker w
        { s.workers w with status := .waiting, assignedTsk := none, pc := .setDone t }) .tau
  | releaseFail (t : TskId) (hpc : (s.workers w).pc = .release t)
      (hst : (s.workers w).status ≠ .working) : WorkerStep s w (s.abort .statusWorking) .tau
  | setDone (t : TskId) (hpc : (s.workers w).pc = .setDone t) :
      WorkerStep s w ((s.setWorker w { s.workers w with pc := .signalEnd t }).setTsk t
        { s.tsk t with status := .done }) .tau
  | signalEnd (t : TskId) (hpc : (s.workers w).pc = .signalEnd t) :
      WorkerStep s w ((s.setWorker w { s.workers w with pc := .semWait }).setTsk t
        { s.tsk t with taskSem := (s.tsk t).taskSem + 1 }) .tau

theorem WorkerStep.of {s s' : Pool n α} {w : Fin n} {e : PoolEvent n α}
    (h : s.workerBehaviour w = some (s', e)) : WorkerStep s w s' e := by
  unfold workerBehaviour at h
  cases hpc : (s.workers w).pc with
  | notCreated | performing _ | exited => simp [hpc] at h
  | semWait =>
      simp only [hpc] at h
      split at h <;> cases h
      exact .wake hpc ‹_›
  | woken =>
      simp only [hpc] at h
      split at h <;> cases h
      · exact .wokenOk hpc ‹_›
      · exact .wokenFail hpc ‹_›
  | takeTask =>
      simp only [hpc] at h
      split at h
      · split at h <;> cases h
        · exact .exit hpc ‹_› ‹_›
        · exact .takeNone hpc ‹_› (Bool.eq_false_iff.2 ‹_›)
      · split at h <;> cases h
        · exact .take _ hpc ‹_› ‹_›
        · exact .takeFail _ hpc ‹_› ‹_›
  | release t =>
      simp only [hpc] at h
      split at h <;> cases h
      · exact .release t hpc ‹_›
      · exact .releaseFail t hpc ‹_›
  | setDone t => simp only [hpc] at h; cases h; exact .setDone t hpc
  | signalEnd t => simp only [hpc] at h; cases h; exact .signalEnd t hpc

theorem WorkerStep.behaviour {s s' : Pool n α} {w : Fin n} {e : PoolEvent n α} (h : s.WorkerStep w s' e) :
    s.workerBehaviour w = some (s', e) := by
  cases h with
  | wake hpc hc | wokenOk hpc hc | wokenFail hpc hc | release _ hpc hc | releaseFail _ hpc hc =>
      simp [workerBehaviour, hpc, hc]
  | exit hpc htsk hc | takeNone hpc htsk hc | take _ hpc htsk hc | takeFail _ hpc htsk hc =>
      simp [workerBehaviour, hpc, htsk, hc]
  | setDone _ hpc | signalEnd _ hpc => simp [workerBehaviour, hpc]

/-- The code of a task returns. -/
theorem taskReturn_cases {s s' : Pool n α} {w : Fin n} {e : PoolEvent n α}
    (h : s.taskReturn w = some (s', e)) :
    ∃ t, (s.workers w).pc = .performing t ∧ s.calls (.task w) = .idle ∧ e = .finished w t ∧
      s' = (s.setWorker w { s.workers w with pc := .release t }).log t (.returned w) := by
  unfold taskReturn at h
  split at h
  · cases h; exact ⟨_, ‹_›, ‹_›, rfl, rfl⟩
  · cases h

inductive ControllerStep (s : Pool n α) : Pool n α → Prop where
  | dequeueWait (hpc : s.ctl = .dequeueWait) (hsem : 0 < s.tskQ.qsem) :
      ControllerStep s
        { s with tskQ := { s.tskQ with qsem := s.tskQ.qsem - 1 }, ctl := .dequeue }
  | leave (hpc : s.ctl = .dequeue) (hq : csQueueDequeue s.tskQ = .null) :
      ControllerStep s { s with ctl := .sendShutdown 0 }
  | noHead (hpc : s.ctl = .dequeue) (hq : csQueueDequeue s.tskQ = .noHead) :
      ControllerStep s (s.abort .queueHead)
  | badSize (hpc : s.ctl = .dequeue) (hq : csQueueDequeue s.tskQ = .badSize) :
      ControllerStep s (s.abort .queueSize)
  | dequeue (t : TskId) (q : CsQueue TskId) (hpc : s.ctl = .dequeue)
      (hq : csQueueDequeue s.tskQ = .elem t q) :
      ControllerStep s ({ s with tskQ := q, ctl := .poolSem t }.log t .dequeued)
  | poolSem (t : TskId) (hpc : s.ctl = .poolSem t) (hsem : 0 < s.poolSem) :
      ControllerStep s { s with poolSem := s.poolSem - 1, ctl := .scan t 0 }
  | found (t : TskId) (w : Fin n) (hpc : s.ctl = .scan t w) (hst : (s.workers w).status = .waiting) :
      ControllerStep s { s with ctl := .assign t w }
  | pass (t : TskId) (w : Fin n) (hpc : s.ctl = .scan t w)
      (hst : (s.workers w).status ≠ .waiting) :
      ControllerStep s { s with ctl := .scan t (w + 1) }
  | noWorker (t : TskId) (count : Nat) (hpc : s.ctl = .scan t count) (hend : ¬ count < n) :
      ControllerStep s (s.abort .freeWorker)
  | assign (t : TskId) (w : Fin n) (hpc : s.ctl = .assign t w) :
      ControllerStep s (({ s with ctl := .notify w }.setWorker w
        { s.workers w with assignedTsk := some t, status := .tskAssigned }).log t (.assigned w))
  | notify (w : Fin n) (hpc : s.ctl = .notify w) :
      ControllerStep s ({ s with ctl := .dequeueWait }.setWorker w
        { s.workers w with waitingSem := (s.workers w).waitingSem + 1 })
  | sendShutdown (w : Fin n) (hpc : s.ctl = .sendShutdown w) :
      ControllerStep s ({ s with ctl := .postShutdown w }.setWorker w
        { s.workers w with shutdown := true })
  | allSent (count : Nat) (hpc : s.ctl = .sendShutdown count) (hend : ¬ count < n) :
      ControllerStep s { s with ctl := .join 0 }
  | postShutdown (w : Fin n) (hpc : s.ctl = .postShutdown w) :
      ControllerStep s ({ s with ctl := .sendShutdown (w + 1) }.setWorker w
        { s.workers w with waitingSem := (s.workers w).waitingSem + 1 })
  | join (w : Fin n) (hpc : s.ctl = .join w) (hexit : (s.workers w).pc = .exited) :
      ControllerStep s { s with ctl := .join (w + 1) }
  | ended (count : Nat) (hpc : s.ctl = .join count) (hend : ¬ count < n) :
      ControllerStep s { s with ctl := .ended }

/-- The controller's steps are internal to the pool. -/
theorem ControllerStep.of {s s' : Pool n α} {e : PoolEvent n α}
    (h : s.controllerBehaviour = some (s', e)) : ControllerStep s s' ∧ e = .tau := by
  unfold controllerBehaviour at h
  cases hpc : s.ctl with
  | notCreated | ended => simp [hpc] at h
  | dequeueWait =>
      simp only [hpc] at h
      split at h <;> cases h
      exact ⟨.dequeueWait hpc ‹_›, rfl⟩
  | dequeue =>
      cases hq : csQueueDequeue s.tskQ with
      | null => simp only [hpc, hq] at h; cases h; exact ⟨.leave hpc hq, rfl⟩
      | noHead => simp only [hpc, hq] at h; cases h; exact ⟨.noHead hpc hq, rfl⟩
      | badSize => simp only [hpc, hq] at h; cases h; exact ⟨.badSize hpc hq, rfl⟩
      | elem t q => simp only [hpc, hq] at h; cases h; exact ⟨.dequeue t q hpc hq, rfl⟩
  | poolSem t =>
      simp only [hpc] at h
      split at h <;> cases h
      exact ⟨.poolSem t hpc ‹_›, rfl⟩
  | scan t count =>
      simp only [hpc] at h
      split at h
      · split at h <;> cases h
        · exact ⟨.found t ⟨count, ‹_›⟩ hpc ‹_›, rfl⟩
        · exact ⟨.pass t ⟨count, ‹_›⟩ hpc ‹_›, rfl⟩
      · cases h; exact ⟨.noWorker t count hpc ‹_›, rfl⟩
  | assign t w => simp only [hpc] at h; cases h; exact ⟨.assign t w hpc, rfl⟩
  | notify w => simp only [hpc] at h; cases h; exact ⟨.notify w hpc, rfl⟩
  | sendShutdown count =>
      simp only [hpc] at h
      split at h <;> cases h
      · exact ⟨.sendShutdown ⟨count, ‹_›⟩ hpc, rfl⟩
      · exact ⟨.allSent count hpc ‹_›, rfl⟩
  | postShutdown count =>
      simp only [hpc] at h
      split at h <;> cases h
      exact ⟨.postShutdown ⟨count, ‹_›⟩ hpc, rfl⟩
  | join count =>
      simp only [hpc] at h
      split at h
      · split at h <;> cases h
        exact ⟨.join ⟨count, ‹_›⟩ hpc ‹_›, rfl⟩
      · cases h; exact ⟨.ended count hpc ‹_›, rfl⟩

theorem ControllerStep.behaviour {s s' : Pool n α} (h : s.ControllerStep s') :
    s.controllerBehaviour = some (s', .tau) := by
  cases h with
  | dequeueWait hpc hc | leave hpc hc | noHead hpc hc | badSize hpc hc | dequeue _ _ hpc hc | poolSem _ hpc hc
  | found _ _ hpc hc | pass _ _ hpc hc | noWorker _ _ hpc hc | allSent _ hpc hc | join _ hpc hc | ended _ hpc hc =>
      simp [controllerBehaviour, hpc, hc]
  | assign _ _ hpc | notify _ hpc | sendShutdown _ hpc | postShutdown _ hpc => simp [controllerBehaviour, hpc]

inductive CallStep (s : Pool n α) (k : Caller n) : Pool n α → PoolEvent n α → Prop where
  | getStatus (hpc : s.calls k = .getStatus) (hfree : s.shut.holds = false) :
      CallStep s k (s.setCall k .idle) (.statusRet k s.status)
  | refused (x : α) (hpc : s.calls k = .enqStatus x) (hfree : s.shut.holds = false)
      (hst : s.status ≠ .working) : CallStep s k (s.setCall k .idle) (.enqueueRet k (-1))
  | statusOk (x : α) (hpc : s.calls k = .enqStatus x) (hfree : s.shut.holds = false)
      (hst : s.status = .working) : CallStep s k (s.setCall k (.enqCreate x)) .tau
  | lockTable (t : TskId) (hpc : s.calls k = .enqTable t) (hfree : s.tableMutex = none) :
      CallStep s k ({ s with tableMutex := some k }.setCall k (.enqLimit t)) .tau
  | limit (t : TskId) (hpc : s.calls k = .enqLimit t) (hsem : 0 < s.tskQ.qlimitSem) :
      CallStep s k ({ s with tskQ := { s.tskQ with qlimitSem := s.tskQ.qlimitSem - 1 } }.setCall k
        (.enqQueue t)) .tau
  | append (t : TskId) (hpc : s.calls k = .enqQueue t) (hopen : s.tskQ.status = .opened) :
      CallStep s k (({ s with tskQ := { s.tskQ with
          elems := s.tskQ.elems ++ [t], size := s.tskQ.size + 1, qsem := s.tskQ.qsem + 1 } }.setCall k
        (.enqInsert t 0)).log t .inserted) .tau
  | drop (t : TskId) (hpc : s.calls k = .enqQueue t) (hclosed : s.tskQ.status = .closed) :
      CallStep s k (s.setCall k (.enqInsert t 0)) .tau
  | failed (t : TskId) (r : Int) (hpc : s.calls k = .enqInsert t r) (hneg : r < 0) :
      CallStep s k ({ s with tableMutex := none }.setCall k .idle) (.enqueueRet k (-1))
  | duplicate (t : TskId) (r : Int) (hpc : s.calls k = .enqInsert t r) (hmem : t ∈ s.table) :
      CallStep s k (s.abort .noDuplicate) .tau
  | insert (t : TskId) (r : Int) (hpc : s.calls k = .enqInsert t r) (hpos : ¬ r < 0)
      (hmem : t ∉ s.table) :
      CallStep s k ({ s with table := t :: s.table, tableMutex := none
                             returned := t :: s.returned }.setCall k .idle) (.enqueueRet k t)
  | find (t : TskId) (hpc : s.calls k = .waitFind t) (hfree : s.tableMutex = none)
      (hmem : t ∈ s.table) : CallStep s k (s.setCall k (.waitStatus t)) .tau
  | notFound (id : Int) (hpc : s.calls k = .waitFind id) (hfree : s.tableMutex = none)
      (hmem : ∀ t : TskId, id = t → t ∉ s.table) : CallStep s k (s.setCall k .idle) (.waitRet k id)
  | isDone (t : TskId) (hpc : s.calls k = .waitStatus t) (hst : (s.tsk t).status = .done) :
      CallStep s k (s.setCall k .idle) (.waitRet k t)
  | notDone (t : TskId) (hpc : s.calls k = .waitStatus t) (hst : (s.tsk t).status ≠ .done) :
      CallStep s k (s.setCall k (.waitSem t)) .tau
  | waitEnd (t : TskId) (hpc : s.calls k = .waitSem t) (hsem : 0 < (s.tsk t).taskSem) :
      CallStep s k ((s.setTsk t { s.tsk t with taskSem := (s.tsk t).taskSem - 1 }).setCall k .idle)
        (.waitRet k t)

theorem CallStep.of {s s' : Pool n α} {k : Caller n} {e : PoolEvent n α}
    (h : s.callStep k = some (s', e)) : CallStep s k s' e := by
  unfold callStep at h
  cases hpc : s.calls k with
  | idle | enqCreate _ => simp [hpc] at h
  | getStatus =>
      simp only [hpc] at h
      split at h <;> cases h
      exact .getStatus hpc (Bool.eq_false_iff.2 ‹_›)
  | enqStatus x =>
      simp only [hpc] at h
      split at h
      · cases h
      · have hfree : s.shut.holds = false := Bool.eq_false_iff.2 ‹_›
        split at h <;> cases h
        · exact .refused x hpc hfree ‹_›
        · exact .statusOk x hpc hfree (not_not.1 ‹_›)
  | enqTable t =>
      simp only [hpc] at h
      split at h <;> cases h
      exact .lockTable t hpc ‹_›
  | enqLimit t =>
      simp only [hpc] at h
      split at h <;> cases h
      exact .limit t hpc ‹_›
  | enqQueue t =>
      cases hst : s.tskQ.status with
      | opened =>
          simp only [hpc, csQueueEnqueue, hst, if_true] at h
          cases h; rw [← hst]; exact .append t hpc hst
      | closed =>
          simp only [hpc, csQueueEnqueue, hst, reduceCtorEq, if_false] at h
          cases h; exact .drop t hpc hst
  | enqInsert t r =>
      simp only [hpc] at h
      split at h
      · cases h; exact .failed t r hpc ‹_›
      · split at h
        · cases h; exact .duplicate t r hpc ‹_›
        · have hmem : t ∉ s.table := ‹_›
          simp only [rbInsert, hmem, if_false, List.length_cons, ne_eq, not_true_eq_false,
            List.mem_cons, true_or] at h
          cases h; exact .insert t r hpc ‹_› hmem
  | waitFind id =>
      simp only [hpc] at h
      split at h
      · cases h
      · have hfree : s.tableMutex = none := not_not.1 ‹_›
        split at h
        · obtain ⟨hpos, hmem⟩ := ‹0 ≤ id ∧ id.toNat ∈ s.table›
          obtain ⟨t, rfl⟩ := Int.eq_ofNat_of_zero_le hpos
          cases h; exact .find t hpc hfree hmem
        · cases h
          refine .notFound id hpc hfree fun t ht hmem => ?_
          subst ht
          exact ‹¬ (0 ≤ (t : Int) ∧ (t : Int).toNat ∈ s.table)› ⟨Int.natCast_nonneg _, hmem⟩
  | waitStatus t =>
      simp only [hpc] at h
      split at h <;> cases h
      · exact .isDone t hpc ‹_›
      · exact .notDone t hpc ‹_›
  | waitSem t =>
      simp only [hpc] at h
      split at h <;> cases h
      exact .waitEnd t hpc ‹_›

/-- A step of a call that breaks no assertion. -/
theorem CallStep.callStep {s s' : Pool n α} {k : Caller n} {e : PoolEvent n α} (h : s.CallStep k s' e)
    (hrun : s'.aborted = none) : s.callStep k = some (s', e) := by
  cases h with
  | getStatus hpc hc | lockTable _ hpc hc | limit _ hpc hc | failed _ _ hpc hc | isDone _ hpc hc | notDone _ hpc hc
  | waitEnd _ hpc hc => simp [Pool.callStep, hpc, hc]
  | refused _ hpc hfree hc | statusOk _ hpc hfree hc | find _ hpc hfree hc => simp [Pool.callStep, hpc, hfree, hc]
  | append _ hpc hopen | drop _ hpc hopen => simp [Pool.callStep, csQueueEnqueue, hpc, hopen]
  | duplicate _ _ _ _ => cases hrun
  | insert _ _ hpc hpos hmem => simp [Pool.callStep, rbInsert, hpc, hpos, hmem]
  | notFound id hpc hfree hmem =>
      have hno : ¬ (0 ≤ id ∧ id.toNat ∈ s.table) := by
        rintro ⟨hpos, hin⟩
        exact hmem _ (Int.toNat_of_nonneg hpos).symm hin
      simp [Pool.callStep, hpc, hfree, hno]

theorem createTsk_cases {s s' : Pool n α} {k : Caller n} {t : TskId} {e : PoolEvent n α}
    (h : s.createTsk k t = some (s', e)) :
    ∃ x, s.calls k = .enqCreate x ∧ s.lastId < t ∧ e = .tau ∧
      s' = ({ s with lastId := t }.setTsk t
        { tskCode := some x, status := .waiting, taskSem := 0, hist := [] }).setCall k (.enqTable t) := by
  unfold createTsk at h
  split at h
  · split at h <;> cases h
    exact ⟨_, ‹_›, ‹_›, rfl, rfl⟩
  · cases h

theorem beginCall_cases {s s' : Pool n α} {k : Caller n} {c : CallPc α} {e e' : PoolEvent n α}
    (h : s.beginCall k c e = some (s', e')) :
    s.calls k = .idle ∧ s.mayCall k = true ∧ e' = e ∧ s' = s.setCall k c := by
  unfold beginCall at h
  split at h
  · split at h <;> cases h
    exact ⟨‹_›, ‹_›, rfl, rfl⟩
  · cases h

theorem mayCall_task {s : Pool n α} {w : Fin n} (h : s.mayCall (.task w) = true) :
    ∃ t, (s.workers w).pc = .performing t := by
  unfold mayCall at h
  cases hpc : (s.workers w).pc with
  | performing t => exact ⟨t, rfl⟩
  | _ => simp [hpc] at h

inductive ShutdownStep (s : Pool n α) : Pool n α → PoolEvent n α → Prop where
  | lock (hpc : s.shut = .lock) : ShutdownStep s { s with shut := .check } .tau
  | nothing (hpc : s.shut = .check) (hst : s.status ≠ .working) :
      ShutdownStep s { s with shut := .returned } (.shutdownRet 0)
  | check (hpc : s.shut = .check) (hst : s.status = .working) :
      ShutdownStep s { s with shut := .close } .tau
  | close (hpc : s.shut = .close) :
      ShutdownStep s { s with tskQ := csQueueClose s.tskQ, shut := .join } .tau
  | join (hpc : s.shut = .join) (hend : s.ctl = .ended) :
      ShutdownStep s { s with shut := .finish } .tau
  | finish (hpc : s.shut = .finish) :
      ShutdownStep s { s with status := .ready, shut := .returned } (.shutdownRet 0)

theorem ShutdownStep.of {s s' : Pool n α} {e : PoolEvent n α}
    (h : s.shutdownStep = some (s', e)) : ShutdownStep s s' e := by
  unfold shutdownStep at h
  cases hpc : s.shut with
  | idle | returned => simp [hpc] at h
  | lock => simp only [hpc] at h; cases h; exact .lock hpc
  | check =>
      simp only [hpc] at h
      split at h <;> cases h
      · exact .nothing hpc ‹_›
      · exact .check hpc (not_not.1 ‹_›)
  | close => simp only [hpc] at h; cases h; exact .close hpc
  | join =>
      simp only [hpc] at h
      split at h <;> cases h
      exact .join hpc ‹_›
  | finish => simp only [hpc] at h; cases h; exact .finish hpc

theorem ShutdownStep.shutdownStep {s s' : Pool n α} {e : PoolEvent n α} (h : s.ShutdownStep s' e) :
    s.shutdownStep = some (s', e) := by
  cases h with
  | nothing hpc hc | check hpc hc | join hpc hc => simp [Pool.shutdownStep, hpc, hc]
  | lock hpc | close hpc | finish hpc => simp [Pool.shutdownStep, hpc]

theorem csWpStart_cases {s s' : Pool n α} {e : PoolEvent n α} (h : s.csWpStart = some (s', e)) :
    s.shut.holds = false ∧
    ((s.status ≠ .ready ∧ s' = s ∧ e = .startRet (-1)) ∨
      (s.status = .ready ∧ s.ctl = .notCreated ∧ e = .startRet 0 ∧
        s' = { s with
          workers := fun w => { s.workers w with status := .waiting, pc := .semWait }
          ctl := .dequeueWait
          status := .working })) := by
  unfold csWpStart at h
  split at h
  · cases h
  · refine ⟨Bool.eq_false_iff.2 ‹_›, ?_⟩
    split at h
    · cases h; exact Or.inl ⟨‹_›, rfl, rfl⟩
    · split at h <;> cases h
      exact Or.inr ⟨not_not.1 ‹_›, ‹_›, rfl, rfl⟩

section Running

variable {s : Pool n α} (hrun : s.aborted = none)
include hrun

/-! As long as no assertion has failed, an action is a step of its thread. -/

theorem stepEvent_worker (w : Fin n) : s.stepEvent (.worker w) = s.workerBehaviour w := by simp [stepEvent, hrun]

theorem stepEvent_controller : s.stepEvent .controller = s.controllerBehaviour := by simp [stepEvent, hrun]

theorem stepEvent_call (k : Caller n) : s.stepEvent (.call k) = s.callStep k := by simp [stepEvent, hrun]

theorem stepEvent_shutdown : s.stepEvent .shutdown = s.shutdownStep := by simp [stepEvent, hrun]

theorem stepEvent_create (k : Caller n) (t : TskId) : s.stepEvent (.create k t) = s.createTsk k t := by
  simp [stepEvent, hrun]

theorem stepEvent_taskReturn (w : Fin n) : s.stepEvent (.taskReturn w) = s.taskReturn w := by simp [stepEvent, hrun]

theorem stepEvent_callEnqueue (k : Caller n) (x : α) :
    s.stepEvent (.callEnqueue k x) = s.beginCall k (.enqStatus x) (.enqueueCall k x) := by simp [stepEvent, hrun]

theorem stepEvent_callWait (k : Caller n) (id : Int) :
    s.stepEvent (.callWait k id) = s.beginCall k (.waitFind id) (.waitCall k id) := by simp [stepEvent, hrun]

end Running

/-- The steps of a pool, by action. -/
inductive Step (s : Pool n α) : Action n α → Pool n α → PoolEvent n α → Prop where
  | startAgain (hfree : s.shut.holds = false) (hst : s.status ≠ .ready) :
      Step s .start s (.startRet (-1))
  | start (hfree : s.shut.holds = false) (hst : s.status = .ready) (hc : s.ctl = .notCreated) :
      Step s .start { s with
          workers := fun w => { s.workers w with status := .waiting, pc := .semWait }
          ctl := .dequeueWait
          status := .working } (.startRet 0)
  | callGetStatus (k : Caller n) (hidle : s.calls k = .idle) (hmay : s.mayCall k = true) :
      Step s (.callGetStatus k) (s.setCall k .getStatus) (.statusCall k)
  | callEnqueue (k : Caller n) (x : α) (hidle : s.calls k = .idle) (hmay : s.mayCall k = true) :
      Step s (.callEnqueue k x) (s.setCall k (.enqStatus x)) (.enqueueCall k x)
  | callWait (k : Caller n) (id : Int) (hidle : s.calls k = .idle) (hmay : s.mayCall k = true) :
      Step s (.callWait k id) (s.setCall k (.waitFind id)) (.waitCall k id)
  | callShutdown (hsh : s.shut = .idle ∨ s.shut = .returned) :
      Step s .callShutdown { s with shut := .lock } .shutdownCall
  | call (k : Caller n) {s' : Pool n α} {e : PoolEvent n α} (h : s.CallStep k s' e) :
      Step s (.call k) s' e
  | create (k : Caller n) (t : TskId) (x : α) (hpc : s.calls k = .enqCreate x) (hlt : s.lastId < t) :
      Step s (.create k t) (({ s with lastId := t }.setTsk t
        { tskCode := some x, status := .waiting, taskSem := 0, hist := [] }).setCall k (.enqTable t))
        .tau
  | worker (w : Fin n) {s' : Pool n α} {e : PoolEvent n α} (h : s.WorkerStep w s' e) :
      Step s (.worker w) s' e
  | taskReturn (w : Fin n) (t : TskId) (hpc : (s.workers w).pc = .performing t)
      (hidle : s.calls (.task w) = .idle) :
      Step s (.taskReturn w)
        ((s.setWorker w { s.workers w with pc := .release t }).log t (.returned w)) (.finished w t)
  | controller {s' : Pool n α} (h : s.ControllerStep s') : Step s .controller s' .tau
  | shutdown {s' : Pool n α} {e : PoolEvent n α} (h : s.ShutdownStep s' e) : Step s .shutdown s' e

theorem Step.of {s s' : Pool n α} {a : Action n α} {e : PoolEvent n α}
    (h : s.stepEvent a = some (s', e)) : s.aborted = none ∧ s.Step a s' e := by
  unfold stepEvent at h
  split at h
  · cases h
  · refine ⟨Option.not_isSome_iff_eq_none.1 ‹_›, ?_⟩
    cases a with
    | start =>
        obtain ⟨hfree, ⟨hst, rfl, rfl⟩ | ⟨hst, hc, rfl, rfl⟩⟩ := csWpStart_cases h
        · exact .startAgain hfree hst
        · exact .start hfree hst hc
    | callGetStatus k =>
        obtain ⟨hidle, hmay, rfl, rfl⟩ := beginCall_cases h
        exact .callGetStatus k hidle hmay
    | callEnqueue k x =>
        obtain ⟨hidle, hmay, rfl, rfl⟩ := beginCall_cases h
        exact .callEnqueue k x hidle hmay
    | callWait k id =>
        obtain ⟨hidle, hmay, rfl, rfl⟩ := beginCall_cases h
        exact .callWait k id hidle hmay
    | callShutdown =>
        simp only at h
        split at h <;> cases h
        exact .callShutdown ‹_›
    | call k => exact .call k (.of h)
    | create k t =>
        obtain ⟨x, hpc, hlt, rfl, rfl⟩ := createTsk_cases h
        exact .create k t x hpc hlt
    | worker w => exact .worker w (.of h)
    | taskReturn w =>
        obtain ⟨t, hpc, hidle, rfl, rfl⟩ := taskReturn_cases h
        exact .taskReturn w t hpc hidle
    | controller =>
        obtain ⟨hs, rfl⟩ := ControllerStep.of h
        exact .controller hs
    | shutdown => exact .shutdown (.of h)

/-- A step that breaks no assertion, the other way round. -/
theorem Step.stepEvent {s s' : Pool n α} {a : Action n α} {e : PoolEvent n α} (h : s.Step a s' e)
    (hrun : s.aborted = none) (hrun' : s'.aborted = none) : s.stepEvent a = some (s', e) := by
  cases h with
  | startAgain hfree hst => simp [Pool.stepEvent, hrun, csWpStart, hfree, hst]
  | start hfree hst hc => simp [Pool.stepEvent, hrun, csWpStart, hfree, hst, hc]
  | callGetStatus k hidle hmay | callEnqueue k _ hidle hmay | callWait k _ hidle hmay =>
      simp [Pool.stepEvent, hrun, beginCall, hidle, hmay]
  | callShutdown hsh => simp [Pool.stepEvent, hrun, hsh]
  | call k hcall => exact (stepEvent_call hrun k).trans (hcall.callStep hrun')
  | create k t x hpc hlt => simp [stepEvent_create hrun, createTsk, hpc, hlt]
  | worker w hw => exact (stepEvent_worker hrun w).trans hw.behaviour
  | taskReturn w t hpc hidle => simp [stepEvent_taskReturn hrun, Pool.taskReturn, hpc, hidle]
  | controller hc => exact (stepEvent_controller hrun).trans hc.behaviour
  | shutdown hsh => exact (stepEvent_shutdown hrun).trans hsh.shutdownStep

/-- What a step of worker `w` leaves alone. -/
theorem WorkerStep.frame {s s' : Pool n α} {w : Fin n} {e : PoolEvent n α}
    (h : s.WorkerStep w s' e) :
    (∀ t, (s.workers w).pc ≠ .performing t) ∧ (∀ v, v ≠ w → s'.workers v = s.workers v) ∧
      s'.calls = s.calls ∧ s'.tskQ = s.tskQ ∧ s'.ctl = s.ctl ∧ s'.status = s.status ∧
      s'.shut = s.shut ∧ s'.table = s.table ∧ s'.tableMutex = s.tableMutex ∧
      s'.returned = s.returned := by
  cases h with
  | wake hpc _ | wokenOk hpc _ | wokenFail hpc _ | exit hpc _ _ | takeNone hpc _ _ | take _ hpc _ _
  | takeFail _ hpc _ _ | release _ hpc _ | releaseFail _ hpc _ | setDone _ hpc | signalEnd _ hpc =>
      refine ⟨by simp [hpc], fun v hv => by simp [hv], rfl, rfl, rfl, rfl, rfl, rfl, rfl, rfl⟩

/-- What a step of the controller leaves alone. -/
theorem ControllerStep.frame {s s' : Pool n α} (h : s.ControllerStep s') :
    (∀ v, (s'.workers v).pc = (s.workers v).pc) ∧ s'.calls = s.calls ∧ s'.status = s.status ∧
      s'.tskQ.status = s.tskQ.status ∧ s'.shut = s.shut ∧ s'.table = s.table ∧
      s'.tableMutex = s.tableMutex ∧ s'.returned = s.returned := by
  cases h with
  | dequeue t q _ hq =>
      refine ⟨fun _ => rfl, rfl, rfl, ?_, rfl, rfl, rfl, rfl⟩
      unfold csQueueDequeue at hq
      split at hq
      · split at hq <;> cases hq
      · simp only at hq; split at hq <;> cases hq; rfl
  | assign t w _ | notify w _ | sendShutdown w _ | postShutdown w _ =>
      refine ⟨fun v => ?_, rfl, rfl, rfl, rfl, rfl, rfl, rfl⟩
      by_cases hv : v = w
      · subst hv; simp
      · simp [hv]
  | dequeueWait _ _ | leave _ _ | noHead _ _ | badSize _ _ | poolSem _ _ _ | found _ _ _ _
  | pass _ _ _ _ | noWorker _ _ _ _ | allSent _ _ _ | join _ _ _ | ended _ _ _ =>
      exact ⟨fun _ => rfl, rfl, rfl, rfl, rfl, rfl, rfl, rfl⟩

/-- A controller that has not been created or has ended makes no step. -/
theorem ControllerStep.alive {s s' : Pool n α} (h : s.ControllerStep s') :
    s.ctl ≠ .notCreated ∧ s.ctl ≠ .ended := by
  cases h with
  | dequeueWait hpc _ | leave hpc _ | noHead hpc _ | badSize hpc _ | dequeue _ _ hpc _
  | poolSem _ hpc _ | found _ _ hpc _ | pass _ _ hpc _ | noWorker _ _ hpc _ | assign _ _ hpc
  | notify _ hpc | sendShutdown _ hpc | allSent _ hpc _ | postShutdown _ hpc | join _ hpc _
  | ended _ hpc _ => simp [hpc]

/-- What a step of a call leaves alone. -/
theorem CallStep.frame {s s' : Pool n α} {k : Caller n} {e : PoolEvent n α} (h : s.CallStep k s' e) :
    s.calls k ≠ .idle ∧ (∀ k', k' ≠ k → s'.calls k' = s.calls k') ∧ s'.workers = s.workers ∧
      s'.ctl = s.ctl ∧ s'.poolSem = s.poolSem ∧ s'.status = s.status ∧ s'.shut = s.shut ∧
      s'.tskQ.status = s.tskQ.status := by
  cases h with
  | getStatus hpc _ | refused _ hpc _ _ | statusOk _ hpc _ _ | lockTable _ hpc _ | limit _ hpc _
  | append _ hpc _ | drop _ hpc _ | failed _ _ hpc _ | duplicate _ _ hpc _ | insert _ _ hpc _ _
  | find _ hpc _ _ | notFound _ hpc _ _ | isDone _ hpc _ | notDone _ hpc _ | waitEnd _ hpc _ =>
      exact ⟨by simp [hpc], fun k' hk => by simp [hk], rfl, rfl, rfl, rfl, rfl, rfl⟩

/-- A step with its event. -/
theorem Step.of_step {s s' : Pool n α} {a : Action n α} (h : s.step a = some s') :
    s.aborted = none ∧ ∃ e, s.Step a s' e := by
  obtain ⟨⟨s'', e⟩, he, rfl⟩ := Option.map_eq_some_iff.1 h
  exact ⟨(Step.of he).1, e, (Step.of he).2⟩

end Pool

end ComplexSim.Workerpool
