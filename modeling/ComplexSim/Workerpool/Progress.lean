import ComplexSim.Workerpool.Capacity

/-!
# Who can go on

The threads of a pool that nobody shuts down wait in few places only: the controller for a task or
for a worker, a worker for the controller, its task in a call, an enqueuer that has locked the table
for a place in the queue. Each lemma says of one thread that it can take a step, or where it waits.
-/

namespace ComplexSim.Workerpool

variable {n : Nat} {α : Type} {s : Pool n α}

/-- A worker that has a task can take a step, or performs its task. -/
theorem PoolInv.busy_steps (h : PoolInv s) {w : Fin n} (hbusy : busy (s.workers w) = 1) (hnotify : s.ctl ≠ .notify w) :
    (s.workerBehaviour w).isSome = true ∨ ∃ t, (s.workers w).pc = .performing t := by
  obtain ⟨-, hw⟩ := h.handshake.worker w
  cases hpc : (s.workers w).pc with
  | notCreated | exited =>
      simp only [hpc] at hw
      simp [busy, hw.2.1] at hbusy
  | semWait =>
      simp only [hpc] at hw
      obtain ⟨-, ⟨hst, -⟩ | ⟨hst, -⟩, hsem⟩ := hw
      · simp [busy, hst] at hbusy
      · have hpos : 0 < (s.workers w).waitingSem := by
          rw [hsem]
          simp [tokens, hst, hnotify]
        exact Or.inl (by simp [Pool.workerBehaviour, hpc, hpos])
  | woken | release t =>
      refine Or.inl ?_
      unfold Pool.workerBehaviour
      simp only [hpc]
      split <;> rfl
  | takeTask =>
      refine Or.inl ?_
      unfold Pool.workerBehaviour
      simp only [hpc]
      split <;> split <;> rfl
  | setDone t | signalEnd t => exact Or.inl (by simp [Pool.workerBehaviour, hpc])
  | performing t => exact Or.inr ⟨t, rfl⟩

/-- The controller of an open queue can take a step, or waits for a task or for a worker. -/
theorem PoolInv.controller_steps (h : PoolInv s) (hopen : s.tskQ.status = .opened) (hcreated : s.ctl ≠ .notCreated) :
    s.controllerBehaviour.isSome = true ∨ (s.ctl = .dequeueWait ∧ s.tskQ.elems = []) ∨
      ((∃ t, s.ctl = .poolSem t) ∧ s.poolSem = 0) := by
  have hleft : s.ctl.left = false := by
    by_contra hno
    have hclosed := (h.queue.left (Bool.not_eq_false _ ▸ hno)).1
    rw [hopen] at hclosed
    cases hclosed
  unfold Pool.controllerBehaviour
  cases hctl : s.ctl with
  | notCreated => exact absurd hctl hcreated
  | dequeueWait =>
      by_cases hsem : 0 < s.tskQ.qsem
      · exact Or.inl (by simp [hsem])
      · have htokens := h.queue.tokens
        simp [hctl, hopen, ControllerPc.left] at htokens
        exact Or.inr (Or.inl ⟨rfl, List.eq_nil_of_length_eq_zero (by omega)⟩)
  | dequeue =>
      refine Or.inl ?_
      simp only []
      split <;> rfl
  | poolSem t =>
      by_cases hsem : 0 < s.poolSem
      · exact Or.inl (by simp [hsem])
      · exact Or.inr (Or.inr ⟨⟨t, rfl⟩, by omega⟩)
  | scan t count =>
      refine Or.inl ?_
      simp only []
      split
      · split <;> rfl
      · rfl
  | assign t w | notify w => exact Or.inl rfl
  | sendShutdown _ | postShutdown _ | join _ | ended =>
      rw [hctl] at hleft
      cases hleft

/-- A controller that waits for a worker has given a task to each. -/
theorem PoolInv.all_busy (h : PoolInv s) (hctl : ∃ t, s.ctl = .poolSem t) (hsem : s.poolSem = 0) (w : Fin n) :
    busy (s.workers w) = 1 := by
  obtain ⟨t, hctl⟩ := hctl
  by_contra hno
  have hidle : busy (s.workers w) < 1 := lt_of_le_of_ne (busy_le _) hno
  have hlt : tally busy s.workers < n := by
    unfold tally
    calc ∑ v, busy (s.workers v) < ∑ _v : Fin n, 1 :=
          Finset.sum_lt_sum (fun v _ => busy_le _) ⟨w, Finset.mem_univ w, hidle⟩
      _ = n := by simp
  have hpool := h.handshake.pool
  rw [hctl, hsem] at hpool
  simp only [ControllerPc.inFlight] at hpool
  omega

/-- When every worker performs its task, there is no worker for the task in the controller's hand. -/
theorem PoolInv.no_worker (h : PoolInv s) (hctl : ∃ t, s.ctl = .poolSem t)
    (hall : ∀ w, ∃ t, (s.workers w).pc = .performing t) : s.poolSem = 0 := by
  obtain ⟨t, hctl⟩ := hctl
  have hbusy : ∀ w, busy (s.workers w) = 1 := by
    intro w
    obtain ⟨u, hu⟩ := hall w
    obtain ⟨-, hw⟩ := h.handshake.worker w
    simp only [hu] at hw
    simp [busy, hw.2.1]
  have hpool := h.handshake.pool
  simp only [hctl, ControllerPc.inFlight, tally, hbusy, Finset.sum_const, Finset.card_univ, Fintype.card_fin,
    smul_eq_mul, mul_one] at hpool
  omega

/-- A task has been accepted and its code has not returned. -/
def Pool.Unfinished (s : Pool n α) (t : TskId) : Prop :=
  .inserted ∈ (s.tsk t).hist ∧ ∀ w, .returned w ∉ (s.tsk t).hist

/-- An unfinished task is queued, in the controller's hand, given to a worker or performed by one. -/
theorem PoolInv.unfinished_at (h : PoolInv s) {t : TskId} (ht : s.Unfinished t) :
    t ∈ s.tskQ.elems ∨ s.ctl.hand = some t ∨
      ∃ w, (s.workers w).given = some t ∨ (s.workers w).pc = .performing t := by
  obtain ⟨hin, hout⟩ := ht
  have hat := h.tsks.tsk t
  have hpast := hat.past
  generalize hl : (s.tsk t).hist = l at hpast hin hout
  cases hpast with
  | fresh => cases hin
  | queued => exact Or.inl (hat.queued.2 hl)
  | hand => exact Or.inr (Or.inl (hat.hand.2 hl))
  | given w => exact Or.inr (Or.inr ⟨w, Or.inl ((hat.given w).2 hl)⟩)
  | run w =>
      have hstage : (s.workers w).pc.stage = some (.performing, t) := (hat.run w).2 hl
      refine Or.inr (Or.inr ⟨w, Or.inr ?_⟩)
      cases hpc : (s.workers w).pc <;> simp [hpc, WorkerPc.stage] at hstage ⊢
      exact hstage
  | performed w => exact absurd (by simp) (hout w)

/-- The worker of an unfinished task is busy. -/
theorem PoolInv.busy_of_unfinished (h : PoolInv s) {w : Fin n} {t : TskId}
    (hw : (s.workers w).given = some t ∨ (s.workers w).pc = .performing t) : busy (s.workers w) = 1 := by
  rcases hw with hgiven | hpc
  · unfold Worker.given at hgiven
    split at hgiven
    · rename_i hst
      simp [busy, hst]
    · cases hgiven
  · obtain ⟨-, hw⟩ := h.handshake.worker w
    simp only [hpc] at hw
    simp [busy, hw.2.1]

/-- A pool with a busy worker has been started. -/
theorem PoolInv.created_of_busy (h : PoolInv s) {w : Fin n} (hbusy : busy (s.workers w) = 1) : s.ctl ≠ .notCreated := by
  intro hctl
  have hpool := h.handshake.worker w
  obtain ⟨-, hw⟩ := hpool
  rw [hctl] at hw
  cases hpc : (s.workers w).pc <;> simp only [hpc] at hw
  case notCreated => simp [busy, hw.2.1] at hbusy
  case exited => simp [busy, hw.2.1] at hbusy
  all_goals exact hw.1 rfl

/-- Who has locked the table can take a step, or waits for a place in the full queue. -/
theorem PoolInv.holder_steps (h : PoolInv s) {k : Caller n} (hlock : s.tableMutex = some k) :
    (s.calls k).pending.isSome = true ∧
      ((s.callStep k).isSome = true ∨ (∃ t, s.calls k = .enqLimit t) ∧ s.tskQ.qlimitSem = 0) := by
  have hlocks := (h.calls.mutex k).2 hlock
  unfold Pool.callStep
  cases hcall : s.calls k with
  | enqLimit t =>
      refine ⟨rfl, ?_⟩
      by_cases hsem : 0 < s.tskQ.qlimitSem
      · exact Or.inl (by simp [hsem])
      · exact Or.inr ⟨⟨t, rfl⟩, by omega⟩
  | enqQueue t => exact ⟨rfl, Or.inl rfl⟩
  | enqInsert t r =>
      refine ⟨rfl, Or.inl ?_⟩
      simp only []
      repeat' split
      all_goals rfl
  | idle | getStatus | enqStatus _ | enqCreate _ | enqTable _ | waitFind _ | waitStatus _ | waitSem _ =>
      rw [hcall] at hlocks
      cases hlocks

/-- An enqueuer that asks for a place has taken none. -/
theorem Capacity.asked {bound : Nat} (h : Capacity bound s) (hopen : s.tskQ.status = .opened) {k : Caller n}
    {t : TskId} (hlock : s.tableMutex = some k) (hcall : s.calls k = .enqLimit t) :
    s.tskQ.qlimitSem + s.tskQ.elems.length = bound := by
  have hplaces := h.places hopen
  simpa [Pool.queueing, hlock, hcall, CallPc.queueing] using hplaces

end ComplexSim.Workerpool
