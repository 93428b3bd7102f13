import ComplexSim.Workerpool.Dispatch

/-!
# The tasks that `cs_wp_tsk_enqueue` accepts

`cs_queue_enqueue` returns 0 on a closed queue without storing anything. An enqueuer
that has passed its status check and reaches its section on the queue after the close
therefore records a task that nobody will perform, and returns its id
(`lost_task`). As long as no enqueuer does, every id returned is the id of a task
that is performed (`accepted_tasks_performed`).
-/

namespace ComplexSim.Workerpool

variable {n : Nat} {α : Type}

/-- The history of a task only grows. -/
theorem PoolInv.hist_prefix {s s' : Pool n α} {a : Pool.Action n α} {e : PoolEvent n α}
    (h : PoolInv s) (hs : s.Step a s' e) (t : TskId) : (s.tsk t).hist <+: (s'.tsk t).hist := by
  have hlog : ∀ (p : Pool n α) (u : TskId) (ev : TskEvent n),
      (p.tsk t).hist <+: ((p.log u ev).tsk t).hist := fun p u ev => by
    by_cases hu : t = u
    · subst hu; simp
    · simp [hu]
  have hsame : ∀ (u : TskId) (d : Tsk n α), d.hist = (s.tsk u).hist →
      (s.tsk t).hist <+: (Function.update s.tsk u d t).hist := fun u d hd => by
    by_cases hu : t = u
    · subst hu; simp [hd]
    · simp [hu]
  cases hs with
  | startAgain _ _ | start _ _ _ | callGetStatus _ _ _ | callEnqueue _ _ _ _ | callWait _ _ _ _
  | callShutdown _ => exact List.prefix_rfl
  | create k u x hpc hlt => exact hsame u _ (h.calls.unused u hlt).1.symm
  | taskReturn w u hpc hidle => exact hlog (s.setWorker w _) u _
  | call k hk =>
      cases hk with
      | append u _ _ => exact hlog ({ s with tskQ := _ }.setCall k _) u _
      | waitEnd u _ _ => exact hsame u _ rfl
      | _ => exact List.prefix_rfl
  | worker w hw =>
      cases hw with
      | take u _ _ _ => exact hlog (s.setWorker w _) u _
      | setDone u _ | signalEnd u _ => exact hsame u _ rfl
      | _ => exact List.prefix_rfl
  | controller hc =>
      cases hc with
      | dequeue u q _ _ => exact hlog { s with tskQ := q, ctl := .poolSem u } u _
      | assign u w _ => exact hlog ({ s with ctl := .notify w }.setWorker w _) u _
      | _ => exact List.prefix_rfl
  | shutdown hsh => cases hsh <;> exact List.prefix_rfl

/-- The caller whose call goes on. -/
def Pool.Action.caller : Pool.Action n α → Option (Caller n)
  | .call k => some k
  | _ => none

/-- The caller's next section is that of `cs_queue_enqueue`. -/
def CallPc.atQueue : CallPc α → Bool
  | .enqQueue _ => true
  | _ => false

/-- No enqueuer enters its section of `cs_queue_enqueue` on a closed queue. -/
def EnqueuesOpen (s : Pool n α) (a : Pool.Action n α) : Prop :=
  ∀ k ∈ a.caller, (s.calls k).atQueue = true → s.tskQ.status = .opened

instance (s : Pool n α) (a : Pool.Action n α) : Decidable (EnqueuesOpen s a) := by
  unfold EnqueuesOpen; infer_instance

/-- Every task in the table, or about to be, has been put into the queue. -/
structure Accepted (s : Pool n α) : Prop where
  table : ∀ t ∈ s.table, .inserted ∈ (s.tsk t).hist
  inserting : ∀ k t r, s.calls k = .enqInsert t r → .inserted ∈ (s.tsk t).hist
  returned : ∀ t ∈ s.returned, t ∈ s.table

namespace Accepted

/-- A step that puts nothing into the table. -/
theorem keep {s s' : Pool n α} (h : Accepted s)
    (hhist : ∀ t, (s.tsk t).hist <+: (s'.tsk t).hist) (htable : s'.table = s.table)
    (hret : s'.returned = s.returned)
    (hcalls : ∀ k t r, s'.calls k = .enqInsert t r →
      s.calls k = .enqInsert t r ∨ .inserted ∈ (s'.tsk t).hist) : Accepted s' where
  table := fun t ht => (hhist t).subset (h.table t (htable ▸ ht))
  inserting := fun k t r hk => by
    rcases hcalls k t r hk with hold | hnew
    · exact (hhist t).subset (h.inserting k t r hold)
    · exact hnew
  returned := fun t ht => by rw [htable]; exact h.returned t (hret ▸ ht)

/-- One caller moves, and not to the table. -/
theorem move {s s' : Pool n α} (h : Accepted s) {k : Caller n} {c : CallPc α}
    (hhist : ∀ t, (s.tsk t).hist <+: (s'.tsk t).hist) (htable : s'.table = s.table)
    (hret : s'.returned = s.returned) (hcalls : s'.calls = Function.update s.calls k c)
    (hc : ∀ t r, c = .enqInsert t r → .inserted ∈ (s'.tsk t).hist) : Accepted s' := by
  refine h.keep hhist htable hret fun k' t r hk => ?_
  rw [hcalls] at hk
  by_cases hkk : k' = k
  · subst hkk
    rw [Function.update_self] at hk
    exact Or.inr (hc t r hk)
  · rw [Function.update_of_ne hkk] at hk
    exact Or.inl hk

theorem step {s s' : Pool n α} {a : Pool.Action n α} {e : PoolEvent n α} (h : Accepted s)
    (hinv : PoolInv s) (hok : EnqueuesOpen s a) (hs : s.Step a s' e) : Accepted s' := by
  have hhist := hinv.hist_prefix hs
  cases hs with
  | startAgain _ _ => exact h
  | start _ _ _ | callShutdown _ | taskReturn _ _ _ _ =>
      exact h.keep hhist rfl rfl fun _ _ _ hk => Or.inl hk
  | callGetStatus k _ _ | callEnqueue k _ _ _ | callWait k _ _ _ | create k _ _ _ _ =>
      exact h.move hhist rfl rfl rfl (by simp)
  | worker w hw =>
      obtain ⟨-, -, hcalls, -, -, -, -, htable, -, hret⟩ := hw.frame
      exact h.keep hhist htable hret fun k t r hk => Or.inl (hcalls ▸ hk)
  | controller hc =>
      obtain ⟨-, hcalls, -, -, -, htable, -, hret⟩ := hc.frame
      exact h.keep hhist htable hret fun k t r hk => Or.inl (hcalls ▸ hk)
  | shutdown hsh => cases hsh <;> exact h.keep hhist rfl rfl fun _ _ _ hk => Or.inl hk
  | call k hk =>
      cases hk with
      | append u hpc _ =>
          refine h.move (k := k) hhist rfl rfl rfl fun t r heq => ?_
          cases heq
          simp
      | drop u hpc hclosed =>
          have hopen := hok k rfl (by simp [hpc, CallPc.atQueue])
          rw [hclosed] at hopen; cases hopen
      | insert u r hpc _ _ =>
          constructor
          · intro t ht
            rcases List.mem_cons.1 ht with rfl | ht
            · exact h.inserting k t r hpc
            · exact h.table t ht
          · intro k' t r' hk'
            rw [Pool.setCall_calls] at hk'
            by_cases hkk : k' = k
            · subst hkk; simp at hk'
            · rw [Function.update_of_ne hkk] at hk'
              exact h.inserting k' t r' hk'
          · intro t ht
            rcases List.mem_cons.1 ht with rfl | ht
            · exact List.mem_cons_self
            · exact List.mem_cons_of_mem _ (h.returned t ht)
      | duplicate _ _ _ _ => exact h.keep hhist rfl rfl fun _ _ _ hk => Or.inl hk
      | getStatus _ _ | refused _ _ _ _ | statusOk _ _ _ _ | lockTable _ _ _ | limit _ _ _
      | failed _ _ _ _ | find _ _ _ _ | notFound _ _ _ _ | isDone _ _ _ | notDone _ _ _
      | waitEnd _ _ _ => exact h.move (k := k) hhist rfl rfl rfl (by simp)

theorem reachable {bound : Nat} {s : Pool n α}
    (h : Lts.ReachableIf (system n α bound) EnqueuesOpen s) : Accepted s := by
  refine h.invariant_of (P := PoolInv) (fun _ hs => poolInv_reachable hs) (fun s hs => ?_)
    fun s a t hinv _ hs hok hstep => ?_
  · rw [show s = csWpInit n α bound from hs]
    constructor <;> simp [csWpInit]
  · obtain ⟨-, e, he⟩ := Pool.Step.of_step hstep
    exact hs.step hinv hok he

end Accepted

/-- A call of `cs_wp_tsk_enqueue` that returns refuses its task or has put it into the table. -/
theorem PoolInv.enqueue_returns {s s' : Pool n α} {k : Caller n} {r : Int} (h : PoolInv s)
    (hs : s.callStep k = some (s', .enqueueRet k r)) :
    (r < 0 ∧ s'.table = s.table) ∨
      ∃ t r', s.calls k = .enqInsert t r' ∧ r = t ∧ t ∈ s'.returned ∧ t ∈ s'.table := by
  have hk := Pool.CallStep.of hs
  cases hk with
  | refused _ _ _ _ => exact Or.inl ⟨by decide, rfl⟩
  | failed t r' hpc hneg => exact absurd (h.calls.result k t r' hpc) (by omega)
  | insert t r' hpc _ _ => exact Or.inr ⟨t, r', hpc, rfl, by simp, by simp⟩

/-- **Accepted tasks are performed**, in the runs in which no enqueuer comes too late to
the queue. A call of `cs_wp_tsk_enqueue` returns a negative result and leaves the table
alone, or it returns the id of a task that has been put into the queue; the table has
such tasks only; and once the shutdown that has closed the queue has returned, each of
them has been performed once and is done, so that `cs_wp_tsk_wait` returns from its test. -/
theorem accepted_tasks_performed {bound : Nat} {s : Pool n α}
    (h : Lts.ReachableIf (system n α bound) EnqueuesOpen s) :
    (∀ k r s', s.callStep k = some (s', .enqueueRet k r) →
      (r < 0 ∧ s'.table = s.table) ∨
        ∃ t : TskId, r = t ∧ t ∈ s'.returned ∧ t ∈ s'.table ∧ .inserted ∈ (s.tsk t).hist) ∧
    (∀ t ∈ s.returned, t ∈ s.table) ∧
    (∀ t ∈ s.table, .inserted ∈ (s.tsk t).hist) ∧
    (s.shut = .returned → s.tskQ.status = .closed → ∀ t ∈ s.table,
      (∃ w, (s.tsk t).hist = overBy w) ∧ (s.tsk t).status = .done ∧
      ∀ k, s.calls k = .waitStatus t → s.callStep k = some (s.setCall k .idle, .waitRet k t)) := by
  have hinv := poolInv_reachable h
  have hacc := Accepted.reachable h
  refine ⟨fun k r s' hs => ?_, hacc.returned, hacc.table, fun hret hclosed t ht => ?_⟩
  · rcases hinv.enqueue_returns hs with hneg | ⟨t, r', hpc, hr, hmem, htable⟩
    · exact Or.inl hneg
    · exact Or.inr ⟨t, hr, hmem, htable, hacc.inserting k t r' hpc⟩
  · have hend : s.ctl = .ended := by
      have hlife := hinv.queue.life
      cases hst : s.status <;> simp [Life, hst, hclosed, hret] at hlife
      exact hlife
    obtain ⟨hover, hdone⟩ := (hinv.drained hend).1 t (hacc.table t ht)
    exact ⟨hover, hdone, fun k hk => by simp [Pool.callStep, hk, hdone]⟩

/-- An enqueuer that is done before the shutdown begins. -/
theorem accepted_tasks_performed_one : ∃ s : Pool 1 Unit,
    Lts.ReachableIf (system 1 Unit 1) EnqueuesOpen s ∧ s.shut = .returned ∧ s.returned = [1] ∧
      (s.tsk 1).status = .done := by
  obtain ⟨s, hs, hp⟩ := Lts.exec_of_any (f := Lts.guarded EnqueuesOpen Pool.step)
    (s := csWpInit 1 Unit 1)
    (p := fun s => decide (s.shut = .returned ∧ s.tskQ.status = .closed ∧ s.returned = [1]))
    (l := [.start, .callEnqueue (.ext 0) (), .call (.ext 0), .create (.ext 0) 1, .call (.ext 0),
      .call (.ext 0), .call (.ext 0), .call (.ext 0), .callShutdown, .shutdown, .shutdown,
      .shutdown, .controller, .controller, .controller, .controller, .controller, .controller,
      .controller, .controller, .controller, .worker 0, .worker 0, .worker 0, .taskReturn 0,
      .worker 0, .worker 0, .worker 0, .controller, .controller, .worker 0, .worker 0, .worker 0,
      .controller, .controller, .shutdown, .shutdown])
    (by decide +kernel)
  obtain ⟨hret, hclosed, hids⟩ := of_decide_eq_true hp
  have hreach : Lts.ReachableIf (system 1 Unit 1) EnqueuesOpen s := ⟨_, rfl, Lts.exec_guarded_run hs⟩
  obtain ⟨-, htable, -, hdone⟩ := accepted_tasks_performed hreach
  exact ⟨s, hreach, hret, hids, (hdone hret hclosed 1 (htable 1 (by simp [hids]))).2.1⟩

/-- A task is lost: its id has been returned and is in the table, but it was never put
into the queue, and whoever waits for it waits for a pool that has ended. -/
theorem lost_task : ∃ s : Pool 1 Unit, Lts.Reachable (system 1 Unit 1) s ∧
    s.shut = .returned ∧ 1 ∈ s.returned ∧ 1 ∈ s.table ∧ (s.tsk 1).hist = [] ∧
    (s.tsk 1).status = .waiting ∧ s.calls (.ext 1) = .waitSem 1 ∧ s.callStep (.ext 1) = none ∧
    s.ctl = .ended ∧ ∀ w, (s.workers w).pc = .exited := by
  obtain ⟨s, hs, hp⟩ := Lts.exec_of_any (f := Pool.step) (s := csWpInit 1 Unit 1)
    (p := fun s => decide (s.shut = .returned ∧ 1 ∈ s.returned ∧ 1 ∈ s.table ∧
      (s.tsk 1).hist = [] ∧ (s.tsk 1).status = .waiting ∧ (s.tsk 1).taskSem = 0 ∧
      s.calls (.ext 1) = .waitSem 1 ∧ s.ctl = .ended ∧ ∀ w, (s.workers w).pc = .exited))
    (l := [.start, .callEnqueue (.ext 0) (), .call (.ext 0), .create (.ext 0) 1, .call (.ext 0),
      .call (.ext 0), .callShutdown, .shutdown, .shutdown, .shutdown, .controller, .controller,
      .controller, .controller, .controller, .worker 0, .worker 0, .worker 0, .controller,
      .controller, .shutdown, .shutdown, .call (.ext 0), .call (.ext 0), .callWait (.ext 1) 1,
      .call (.ext 1), .call (.ext 1)])
    (by decide +kernel)
  obtain ⟨hret, hid, htable, hhist, hst, hsem, hwait, hend, hexit⟩ := of_decide_eq_true hp
  exact ⟨s, Lts.exec_reachable rfl hs, hret, hid, htable, hhist, hst, hwait,
    by simp [Pool.callStep, hwait, hsem], hend, hexit⟩

end ComplexSim.Workerpool
