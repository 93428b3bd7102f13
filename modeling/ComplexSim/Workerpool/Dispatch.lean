import ComplexSim.Workerpool.Invariant

/-!
# Dispatch and shutdown of the pool

What the invariant says of the tasks: each is dispatched to one worker and started
once (`dispatch_safe`), and a shutdown that found the pool working returns when every
task that was queued has been performed and the pool is as it was before its start,
up to its threads, which have ended (`shutdown_drains`).
-/

namespace ComplexSim.Workerpool

variable {n : Nat} {α : Type}

namespace TskEvent

/-- The task is assigned to some worker. -/
def isAssigned : TskEvent n → Bool
  | .assigned _ => true
  | _ => false

/-- The code of the task is called by some worker. -/
def isStarted : TskEvent n → Bool
  | .started _ => true
  | _ => false

end TskEvent

theorem Past.assigned_once {l : List (TskEvent n)} (h : Past l) :
    l.countP TskEvent.isAssigned ≤ 1 := by
  cases h <;> simp [TskEvent.isAssigned, List.countP_cons]

theorem Past.started_once {l : List (TskEvent n)} (h : Past l) :
    l.countP TskEvent.isStarted ≤ 1 := by
  cases h <;> simp [TskEvent.isStarted, List.countP_cons]

/-- A dequeued task is in the controller's hand until it is assigned. -/
theorem TskAt.dequeued {p : Places n} {t : TskId} {d : Tsk n α} (h : TskAt p t d)
    (hd : .dequeued ∈ d.hist) : p.hand = some t ∨ ∃! w, .assigned w ∈ d.hist := by
  have hpast := h.past
  rw [h.hand]
  generalize d.hist = l at hd hpast ⊢
  cases hpast with
  | fresh | queued => simp at hd
  | hand => exact Or.inl rfl
  | given w | run w | performed w => exact Or.inr ⟨w, by simp, fun v hv => by simpa using hv⟩

/-- A worker about to take a task either has one or is being shut down. -/
theorem Handshake.takeTask {c : ControllerPc n} {workers : Fin n → Worker} {poolSem : Nat}
    (h : Handshake c workers poolSem) {w : Fin n} (hpc : (workers w).pc = .takeTask) :
    ((workers w).assignedTsk = none ∧ (workers w).shutdown = true) ∨
      ((∃ t, (workers w).assignedTsk = some t) ∧ (workers w).status = .tskAssigned) := by
  obtain ⟨hflag, hw⟩ := h.worker w
  simp only [hpc] at hw
  obtain ⟨-, hrest | hrest, hsem⟩ := hw
  · refine Or.inl ⟨hrest.2, ?_⟩
    have hposted : c.posted w = true := by
      by_contra hno
      simp [tokens, hrest.1, hno] at hsem
    rw [hflag, ControllerPc.posted_flagged hposted]
  · exact Or.inr ⟨hrest.2, hrest.1⟩

theorem Handshake.woken {c : ControllerPc n} {workers : Fin n → Worker} {poolSem : Nat}
    (h : Handshake c workers poolSem) {w : Fin n} (hpc : (workers w).pc = .woken) :
    (workers w).shutdown = true ∨ (workers w).status = .tskAssigned := by
  obtain ⟨hflag, hw⟩ := h.worker w
  simp only [hpc] at hw
  obtain ⟨-, hrest | hrest, hsem⟩ := hw
  · have hposted : c.posted w = true := by
      by_contra hno
      simp [tokens, hrest.1, hno] at hsem
    exact Or.inl (by rw [hflag, ControllerPc.posted_flagged hposted])
  · exact Or.inr hrest.1

/-- **Dispatch is safe.** No assertion of the pool fails, a task is given to a worker
that holds none, a task that has been dequeued goes to one worker, and no code is
started twice. -/
theorem dispatch_safe {bound : Nat} {s : Pool n α} (h : Lts.Reachable (system n α bound) s) :
    s.aborted = none ∧
    (∀ t count, s.ctl = .scan t count →
      ∃ w : Fin n, count ≤ w ∧ (s.workers w).status = .waiting) ∧
    (∀ w, (s.workers w).pc = .woken →
      (s.workers w).shutdown = true ∨ (s.workers w).status = .tskAssigned) ∧
    (∀ w, (s.workers w).pc = .takeTask →
      ((s.workers w).assignedTsk = none ∧ (s.workers w).shutdown = true) ∨
        ((∃ t, (s.workers w).assignedTsk = some t) ∧ (s.workers w).status = .tskAssigned)) ∧
    (∀ w t, (s.workers w).pc = .release t → (s.workers w).status = .working) ∧
    (∀ t w, s.ctl = .assign t w → (s.workers w).assignedTsk = none) ∧
    (∀ t, .dequeued ∈ (s.tsk t).hist →
      s.ctl.hand = some t ∨ ∃! w, .assigned w ∈ (s.tsk t).hist) ∧
    (∀ t, (s.tsk t).hist.countP TskEvent.isAssigned ≤ 1) ∧
    ∀ t, (s.tsk t).hist.countP TskEvent.isStarted ≤ 1 := by
  have hinv := poolInv_reachable h
  refine ⟨hinv.running, hinv.handshake.scan, fun w => hinv.handshake.woken,
    fun w => hinv.handshake.takeTask, fun w t hpc => ?_, fun t w hpc => ?_,
    fun t => (hinv.tsks.tsk t).dequeued, fun t => (hinv.tsks.tsk t).past.assigned_once,
    fun t => (hinv.tsks.tsk t).past.started_once⟩
  · obtain ⟨-, hw⟩ := hinv.handshake.worker w
    simp only [hpc] at hw
    exact hw.2.1
  · rcases (hinv.handshake.worker w).status (by simp [hpc]) with ⟨-, hnone⟩ | ⟨hst, -⟩ | ⟨hst, -⟩
    · exact hnone
    all_goals rw [hinv.handshake.assign t w hpc] at hst; cases hst

/-- A pool of one worker in which a task has been started. -/
theorem dispatch_safe_one : ∃ s : Pool 1 Unit, Lts.Reachable (system 1 Unit 1) s ∧
    (s.tsk 1).hist = runBy 0 ∧ s.aborted = none ∧ ∃! w, .assigned w ∈ (s.tsk 1).hist := by
  obtain ⟨s, hs, hp⟩ := Lts.exec_of_any (f := Pool.step) (s := csWpInit 1 Unit 1)
    (p := fun s => decide ((s.tsk 1).hist = runBy 0 ∧ s.ctl = .dequeueWait))
    (l := [.start, .callEnqueue (.ext 0) (), .call (.ext 0), .create (.ext 0) 1, .call (.ext 0),
      .call (.ext 0), .call (.ext 0), .call (.ext 0), .controller, .controller, .controller,
      .controller, .controller, .controller, .worker 0, .worker 0, .worker 0]) (by decide +kernel)
  obtain ⟨hhist, hctl⟩ := of_decide_eq_true hp
  have hreach : Lts.Reachable (system 1 Unit 1) s := Lts.exec_reachable rfl hs
  obtain ⟨hrun, -, -, -, -, -, hdeq, -⟩ := dispatch_safe hreach
  refine ⟨s, hreach, hhist, hrun, ?_⟩
  rcases hdeq 1 (by simp [hhist]) with hhand | hone
  · simp [hctl, ControllerPc.hand] at hhand
  · exact hone

/-- What a pool is when its shutdown has returned. -/
theorem PoolInv.drained {s : Pool n α} (h : PoolInv s) (hend : s.ctl = .ended) :
    (∀ t, .inserted ∈ (s.tsk t).hist →
      (∃ w, (s.tsk t).hist = overBy w) ∧ (s.tsk t).status = .done) ∧
    s.tskQ.elems = [] ∧
    (∀ w, (s.workers w).pc = .exited ∧ (s.workers w).status = .waiting ∧
      (s.workers w).assignedTsk = none ∧ (s.workers w).waitingSem = 0) ∧
    s.poolSem = n := by
  have helems := (h.queue.left (by simp [hend, ControllerPc.left])).2
  have hworkers : ∀ w, (s.workers w).pc = .exited ∧ (s.workers w).status = .waiting ∧
      (s.workers w).assignedTsk = none ∧ (s.workers w).waitingSem = 0 := fun w => by
    have hpc := h.handshake.ended hend w
    obtain ⟨-, hw⟩ := h.handshake.worker w
    simp only [hpc] at hw
    exact ⟨hpc, hw.2⟩
  have hgiven : ∀ w, s.places.given w = none := fun w => by
    simp [Pool.places, Worker.given, (hworkers w).2.1]
  have hstage : ∀ w, s.places.stage w = none := fun w => by
    simp [Pool.places, WorkerPc.stage, (hworkers w).1]
  refine ⟨fun t ht => ?_, helems, hworkers, ?_⟩
  · -- no place is left for the task but past its completion
    have hat := h.tsks.tsk t
    have hover : ∃ w, (s.tsk t).hist = overBy w := by
      have hpast := hat.past
      generalize hl : (s.tsk t).hist = l at ht hpast ⊢
      cases hpast with
      | fresh => simp at ht
      | queued => simpa [Pool.places, helems] using hat.queued.2 hl
      | hand => simpa [Pool.places, hend, ControllerPc.hand] using hat.hand.2 hl
      | given w => exact absurd ((hat.given w).2 hl) (by simp [hgiven])
      | run w => exact absurd ((hat.run w).2 hl) (by simp [hstage])
      | performed w => exact ⟨w, rfl⟩
    refine ⟨hover, ?_⟩
    obtain ⟨w, hw⟩ := hover
    rcases hat.ending w hw with hdone | hst | hst
    · exact hdone
    all_goals simp [hstage] at hst
  · have hpool := h.handshake.pool
    have hidle : tally busy s.workers = 0 := tally_eq_zero fun w => by
      simp [busy, (hworkers w).2.1]
    simpa [hend, ControllerPc.inFlight, hidle] using hpool

/-- A shutdown that has found the pool working goes on to its end, and leaves the pool
ready with its controller ended. -/
theorem shutdown_ends {bound : Nat} {s₀ s : Pool n α}
    (h₀ : Lts.Reachable (system n α bound) s₀) (hcheck : s₀.shut = .check)
    (hwork : s₀.status = .working)
    (hrun : Lts.Run (system n α bound) (fun _ _ => True) s₀ s) :
    (s.status = .working ∧ s.shut.holds = true) ∨ (s.status = .ready ∧ s.ctl = .ended) := by
  have hgoal : PoolInv s ∧
      ((s.status = .working ∧ s.shut.holds = true) ∨ (s.status = .ready ∧ s.ctl = .ended)) := by
    refine hrun.invariant (I := fun s => PoolInv s ∧
      ((s.status = .working ∧ s.shut.holds = true) ∨ (s.status = .ready ∧ s.ctl = .ended))) ?_
      ⟨poolInv_reachable h₀, Or.inl ⟨hwork, by rw [hcheck]; rfl⟩⟩
    intro s a t ⟨hinv, hs⟩ _ hstep
    obtain ⟨-, e, hstep⟩ := Pool.Step.of_step hstep
    refine ⟨hinv.step hstep, ?_⟩
    cases hstep with
    | startAgain _ _ | callGetStatus _ _ _ | callEnqueue _ _ _ _ | callWait _ _ _ _
    | create _ _ _ _ _ | taskReturn _ _ _ _ => exact hs
    | start hfree hst hc =>
        rcases hs with ⟨hw, -⟩ | ⟨-, hend⟩
        · rw [hst] at hw; cases hw
        · rw [hc] at hend; cases hend
    | callShutdown hsh =>
        rcases hs with ⟨-, hhold⟩ | hready
        · rcases hsh with hsh | hsh <;> (rw [hsh] at hhold; cases hhold)
        · exact Or.inr hready
    | call k hk =>
        obtain ⟨-, -, -, hctl, -, hst, hsh, -⟩ := hk.frame
        rwa [hst, hsh, hctl]
    | worker w hw =>
        obtain ⟨-, -, -, -, hctl, hst, hsh, -⟩ := hw.frame
        rwa [hst, hsh, hctl]
    | controller hc =>
        obtain ⟨-, -, hst, -, hsh, -⟩ := hc.frame
        rcases hs with hw | ⟨-, hend⟩
        · exact Or.inl (by rwa [hst, hsh])
        · exact absurd hend hc.alive.2
    | shutdown hsh =>
        have hlife := hinv.queue.life
        cases hsh with
        | lock hpc => simp_all [Shutdown.holds]
        | nothing hpc hst => exact Or.inr (by simpa [hst] using hs)
        | check hpc hst => exact Or.inl ⟨hst, rfl⟩
        | close hpc =>
            rcases hs with ⟨hst, -⟩ | ⟨hst, -⟩
            · exact Or.inl ⟨hst, rfl⟩
            · cases hq : s.tskQ.status <;> simp [Life, hst, hq, hpc] at hlife
        | join hpc hend =>
            rcases hs with ⟨hst, -⟩ | hready
            · exact Or.inl ⟨hst, rfl⟩
            · exact Or.inr hready
        | finish hpc =>
            refine Or.inr ⟨rfl, ?_⟩
            rcases hs with ⟨hst, -⟩ | ⟨-, hend⟩
            · cases hq : s.tskQ.status <;> simp [Life, hst, hq, hpc] at hlife
              exact hlife.2
            · exact hend
  exact hgoal.2

/-- **A shutdown drains the pool.** Between the status check of a `cs_wp_shutdown` that
found the pool working and any later state in which that call has returned, every task
that has been put into the queue has been performed, once, and is done; the queue is
empty, the threads have ended, no worker has a task or a token, and the pool semaphore
counts all workers. -/
theorem shutdown_drains {bound : Nat} {s₀ s : Pool n α}
    (h₀ : Lts.Reachable (system n α bound) s₀) (hcheck : s₀.shut = .check)
    (hwork : s₀.status = .working)
    (hrun : Lts.Run (system n α bound) (fun _ _ => True) s₀ s) (hret : s.shut = .returned) :
    (∀ t, .inserted ∈ (s.tsk t).hist →
      (∃ w, (s.tsk t).hist = overBy w) ∧ (s.tsk t).status = .done) ∧
    s.tskQ.elems = [] ∧ s.ctl = .ended ∧
    (∀ w, (s.workers w).pc = .exited ∧ (s.workers w).status = .waiting ∧
      (s.workers w).assignedTsk = none ∧ (s.workers w).waitingSem = 0) ∧
    s.poolSem = n := by
  have hend : s.ctl = .ended := by
    rcases shutdown_ends h₀ hcheck hwork hrun with ⟨-, hhold⟩ | ⟨-, hend⟩
    · rw [hret] at hhold; cases hhold
    · exact hend
  obtain ⟨hdone, helems, hworkers, hsem⟩ := (poolInv_reachable (h₀.run hrun)).drained hend
  exact ⟨hdone, helems, hend, hworkers, hsem⟩

/-- A pool of one worker that has performed a task and is shut down. -/
theorem shutdown_drains_one : ∃ s : Pool 1 Unit, Lts.Reachable (system 1 Unit 1) s ∧
    s.shut = .returned ∧ (s.tsk 1).status = .done ∧ s.poolSem = 1 := by
  obtain ⟨s₀, hs₀, hp₀⟩ := Lts.exec_of_any (f := Pool.step) (s := csWpInit 1 Unit 1)
    (p := fun s => (Lts.exec Pool.step [.shutdown, .shutdown, .controller, .controller, .controller,
        .controller, .controller, .controller, .controller, .controller, .controller, .worker 0,
        .worker 0, .worker 0, .taskReturn 0, .worker 0, .worker 0, .worker 0, .controller,
        .controller, .worker 0, .worker 0, .worker 0, .controller, .controller, .shutdown,
        .shutdown] s).any fun t : Pool 1 Unit =>
          decide (s.shut = .check ∧ s.status = .working ∧ t.shut = .returned ∧
            (t.tsk 1).hist = overBy 0))
    (l := [.start, .callEnqueue (.ext 0) (), .call (.ext 0), .create (.ext 0) 1, .call (.ext 0),
      .call (.ext 0), .call (.ext 0), .call (.ext 0), .callShutdown, .shutdown])
    (by decide +kernel)
  obtain ⟨s, hs, hp⟩ := Lts.exec_of_any hp₀
  obtain ⟨hcheck, hwork, hret, hhist⟩ := of_decide_eq_true hp
  have hreach₀ : Lts.Reachable (system 1 Unit 1) s₀ := Lts.exec_reachable rfl hs₀
  have hrun : Lts.Run (system 1 Unit 1) (fun _ _ => True) s₀ s := Lts.exec_run hs
  obtain ⟨hdone, -, -, -, hsem⟩ := shutdown_drains hreach₀ hcheck hwork hrun hret
  exact ⟨s, hreach₀.run hrun, hret, (hdone 1 (by simp [hhist])).2, hsem⟩

end ComplexSim.Workerpool
