import ComplexSim.Lib.Traces
import ComplexSim.Workerpool.Outcomes

/-!
# A restarted pool against a new one

A calm session always gets on (`Calm.progress`), until all that is owed has been seen. So two calm
sessions of the same sequence have the same outcomes (`outcomes`), and a pool that is started again
behaves like a new one on the sequences that enqueue nothing before they shut the pool down. A new pool
performs the first task that is enqueued (`fresh_performs`); one that is started again performs none.
-/

namespace ComplexSim.Restart

open Workerpool

variable {n : Nat} {α : Type}

/-- How far the controller is from its end. -/
def ctlRank (n : Nat) : ControllerPc n → Nat
  | .dequeueWait => 3 * n + 5
  | .dequeue => 3 * n + 4
  | .sendShutdown count => 2 * (n - count) + n + 3
  | .postShutdown count => 2 * (n - count) + n + 2
  | .join count => n - count + 1
  | .notCreated | .poolSem _ | .scan _ _ | .assign _ _ | .notify _ | .ended => 0

/-- How far a worker without a task is from its end. -/
def workerRank : WorkerPc → Nat
  | .semWait => 3
  | .woken => 2
  | .takeTask => 1
  | .notCreated | .performing _ | .release _ | .setDone _ | .signalEnd _ | .exited => 0

theorem workerRank_le (pc : WorkerPc) : workerRank pc ≤ 3 := by cases pc <;> simp [workerRank]

/-- How far the worker is from its end that the controller joins next. -/
def joinRank (s : Pool n α) : Nat :=
  match s.ctl with
  | .join count => if h : count < n then workerRank (s.workers ⟨count, h⟩).pc else 0
  | _ => 0

/-- How far the pool is from the end of its controller, once its queue is closed. -/
def poolRank (s : Pool n α) : Nat := 4 * ctlRank n s.ctl + joinRank s

theorem joinRank_le (s : Pool n α) : joinRank s ≤ 3 := by
  unfold joinRank
  split
  · split
    · exact workerRank_le _
    · omega
  · omega

section Pools

variable {s : Pool n α}

/-- A step of a worker that the controller waits for. -/
theorem Taskless.worker_progress (h : Taskless s) {w : Fin n} (hctl : s.ctl = .join w) (hpc : (s.workers w).pc ≠ .exited) :
    ∃ p, s.stepEvent (.worker w) = some (p, .tau) ∧ poolRank p < poolRank s := by
  obtain ⟨hnone, hpc', hflag⟩ := h.worker w
  have hrank : ∀ d : Worker, workerRank d.pc < workerRank (s.workers w).pc → poolRank (s.setWorker w d) < poolRank s := by
    intro d hlt
    simpa [poolRank, joinRank, hctl] using hlt
  rcases hpc' with hpc' | hpc' | hpc' | hpc'
  · have hsem := h.posted w (by rw [hctl]; rfl) hpc'
    refine ⟨s.setWorker w { s.workers w with waitingSem := (s.workers w).waitingSem - 1, pc := .woken }, ?_, ?_⟩
    · exact (Pool.Step.worker w (.wake hpc' hsem)).stepEvent h.running h.running
    · exact hrank _ (by simp [hpc', workerRank])
  · have hset := hflag (Or.inr (Or.inl hpc'))
    refine ⟨s.setWorker w { s.workers w with pc := .takeTask }, ?_, ?_⟩
    · exact (Pool.Step.worker w (.wokenOk hpc' (Or.inl hset))).stepEvent h.running h.running
    · exact hrank _ (by simp [hpc', workerRank])
  · have hset := hflag (Or.inr (Or.inr hpc'))
    refine ⟨s.setWorker w { s.workers w with pc := .exited }, ?_, ?_⟩
    · exact (Pool.Step.worker w (.exit hpc' hnone hset)).stepEvent h.running h.running
    · exact hrank _ (by simp [hpc', workerRank])
  · exact absurd hpc' hpc

/-- Once the queue is closed, the controller gets on to its end. -/
theorem Taskless.progress (h : Taskless s) (hjoin : s.shut = .join) (hended : s.ctl ≠ .ended) :
    ∃ a p, (a = .controller ∨ ∃ w, a = .worker w) ∧ s.stepEvent a = some (p, .tau) ∧ poolRank p < poolRank s := by
  obtain ⟨hclosed, htoken⟩ := h.closing hjoin
  have hctl := h.ctl
  cases hpc : s.ctl with
  | ended => exact absurd hpc hended
  | notCreated | poolSem _ | scan _ _ | assign _ _ | notify _ => simp [hpc, ControllerPc.left] at hctl
  | dequeueWait =>
      have hsem := htoken hpc
      refine ⟨.controller, { s with tskQ := { s.tskQ with qsem := s.tskQ.qsem - 1 }, ctl := .dequeue }, Or.inl rfl, ?_, ?_⟩
      · exact (Pool.Step.controller (.dequeueWait hpc hsem)).stepEvent h.running h.running
      · simp only [poolRank, joinRank, hpc, ctlRank]
        omega
  | dequeue =>
      refine ⟨.controller, { s with ctl := .sendShutdown 0 }, Or.inl rfl, ?_, ?_⟩
      · exact (Pool.Step.controller (.leave hpc (h.dequeue hpc))).stepEvent h.running h.running
      · simp only [poolRank, joinRank, hpc, ctlRank]
        omega
  | sendShutdown count =>
      by_cases hlt : count < n
      · refine ⟨.controller, { s with ctl := .postShutdown count }.setWorker ⟨count, hlt⟩
          { s.workers ⟨count, hlt⟩ with shutdown := true }, Or.inl rfl, ?_, ?_⟩
        · exact (Pool.Step.controller (.sendShutdown ⟨count, hlt⟩ hpc)).stepEvent h.running h.running
        · simp only [poolRank, joinRank, hpc, ctlRank, Pool.setWorker]
          omega
      · have hrank := joinRank_le { s with ctl := .join 0 }
        refine ⟨.controller, { s with ctl := .join 0 }, Or.inl rfl, ?_, ?_⟩
        · exact (Pool.Step.controller (.allSent count hpc hlt)).stepEvent h.running h.running
        · simp only [poolRank, hpc, ctlRank]
          omega
  | postShutdown count =>
      have hlt := h.post count hpc
      refine ⟨.controller, { s with ctl := .sendShutdown (count + 1) }.setWorker ⟨count, hlt⟩
        { s.workers ⟨count, hlt⟩ with waitingSem := (s.workers ⟨count, hlt⟩).waitingSem + 1 }, Or.inl rfl, ?_, ?_⟩
      · exact (Pool.Step.controller (.postShutdown ⟨count, hlt⟩ hpc)).stepEvent h.running h.running
      · simp only [poolRank, joinRank, hpc, ctlRank, Pool.setWorker]
        omega
  | join count =>
      by_cases hlt : count < n
      · by_cases hexit : (s.workers ⟨count, hlt⟩).pc = .exited
        · have hrank := joinRank_le { s with ctl := .join (count + 1) }
          refine ⟨.controller, { s with ctl := .join (count + 1) }, Or.inl rfl, ?_, ?_⟩
          · exact (Pool.Step.controller (.join ⟨count, hlt⟩ hpc hexit)).stepEvent h.running h.running
          · simp only [poolRank, hpc, ctlRank]
            omega
        · obtain ⟨p, hp, hlt'⟩ := h.worker_progress (w := ⟨count, hlt⟩) hpc hexit
          exact ⟨_, p, Or.inr ⟨_, rfl⟩, hp, hlt'⟩
      · refine ⟨.controller, { s with ctl := .ended }, Or.inl rfl, ?_, ?_⟩
        · exact (Pool.Step.controller (.ended count hpc hlt)).stepEvent h.running h.running
        · simp only [poolRank, joinRank, hpc, ctlRank]
          omega

end Pools

def shutRank : Shutdown → Nat
  | .lock => 5
  | .check => 4
  | .close => 3
  | .join => 2
  | .finish => 1
  | .idle | .returned => 0

/-- How far a call is from its return. -/
def curRank (s : Session n α) : Nat :=
  match s.cur with
  | .out => 0
  | .wait | .fetch _ | .enqueue => 1
  | .getRes _ => 2
  | .shutdown => shutRank s.pool.shut

/-- How far a calm session is from its end. -/
def rank (s : Session n α) : Nat := 10 * s.ops.length + curRank s + poolRank s.pool

section Progress

variable {c : Nat} {s : Session n α} {p : Pool n α} {a : Pool.Action n α} {e : PoolEvent n α}

theorem step_pool (hown : Session.own a = true) (hp : s.pool.stepEvent a = some (p, e)) :
    s.step c (.pool a) = some (s.see c p e) := by
  simp [Session.step, hown, hp]

/-- A thread outside the pool that makes no call may make one. -/
theorem beginCall_idle {p : Pool n α} {x : CallPc α} (hidle : p.calls (.ext c) = .idle) :
    p.beginCall (.ext c) x e = some (p.setCall (.ext c) x, e) := by
  simp [Pool.beginCall, hidle, Pool.mayCall]

/-- A call that is made has fewer calls behind it. -/
theorem rank_call {op : Op α} {ops : List (Op α)} {cur : Cur} (hlist : s.ops = op :: ops) (hpool : poolRank p = poolRank s.pool)
    (hcur : curRank { s with pool := p, ops := ops, cur := cur } < 10) :
    rank { s with pool := p, ops := ops, cur := cur } < rank s := by
  simp only [rank, hlist, List.length_cons, hpool]
  omega

/-- The next call of a sequence is made. -/
theorem Calm.progress_out (h : Calm c s) (hcur : s.cur = .out) (hops : s.ops ≠ []) :
    ∃ s', s.step c .call = some s' ∧ rank s' < rank s := by
  have hplace := h.place
  have hrun := h.pool.running
  simp only [Place, hcur] at hplace
  obtain ⟨hidle, hshut, -⟩ := hplace
  cases hlist : s.ops with
  | nil => exact absurd hlist hops
  | cons op ops =>
      cases op with
      | enqueue x =>
          refine ⟨{ s with pool := s.pool.setCall (.ext c) (.enqStatus x), ops := ops, cur := .enqueue }, ?_,
            rank_call hlist rfl (by simp [curRank])⟩
          simp [Session.step, Session.call, hcur, hlist, Pool.step, Pool.stepEvent_callEnqueue hrun, beginCall_idle hidle]
      | wait j =>
          refine ⟨{ s with pool := s.pool.setCall (.ext c) (.waitFind (s.id j)), ops := ops, cur := .wait }, ?_,
            rank_call hlist rfl (by simp [curRank])⟩
          simp [Session.step, Session.call, hcur, hlist, Pool.step, Pool.stepEvent_callWait hrun, beginCall_idle hidle]
      | getRes j =>
          refine ⟨{ s with pool := s.pool.setCall (.ext c) (.waitFind (s.id j)), ops := ops, cur := .getRes (s.id j) }, ?_,
            rank_call hlist rfl (by simp [curRank])⟩
          simp [Session.step, Session.call, hcur, hlist, Pool.step, Pool.stepEvent_callWait hrun, beginCall_idle hidle]
      | shutdown =>
          refine ⟨{ s with pool := { s.pool with shut := .lock }, ops := ops, cur := .shutdown }, ?_,
            rank_call hlist rfl (by simp [curRank, shutRank])⟩
          have hp := (Pool.Step.callShutdown hshut).stepEvent hrun hrun
          simp [Session.step, Session.call, hcur, hlist, Pool.step, hp]

/-- The look-up of an id that is not one. -/
theorem lookup_progress {p : Pool n α} {k : Caller n} (hrun : p.aborted = none) (hfree : p.tableMutex = none)
    (hpc : p.calls k = .waitFind (-1)) : p.stepEvent (.call k) = some (p.setCall k .idle, .waitRet k (-1)) := by
  refine (Pool.Step.call k (.notFound (-1) hpc hfree fun t ht => ?_)).stepEvent hrun hrun
  omega

theorem Calm.progress_shutdown (h : Calm c s) (hcur : s.cur = .shutdown) :
    ∃ l s', s.step c l = some s' ∧ rank s' < rank s := by
  have hplace := h.place
  have hrun := h.pool.running
  simp only [Place, hcur] at hplace
  obtain ⟨-, -, hshut⟩ := hplace
  -- a step of the shutdown, and its return
  have hgo : ∀ p, s.pool.Step .shutdown p .tau → p.aborted = none → poolRank p = poolRank s.pool →
      shutRank p.shut < shutRank s.pool.shut → ∃ l s', s.step c l = some s' ∧ rank s' < rank s := by
    intro p hp hrun' hpool hlt
    refine ⟨.pool .shutdown, _, step_pool rfl (hp.stepEvent hrun hrun'), ?_⟩
    simp only [Session.see, rank, curRank, hcur, hpool]
    omega
  have hret : ∀ p r, s.pool.Step .shutdown p (.shutdownRet r) → p.aborted = none → poolRank p = poolRank s.pool →
      0 < shutRank s.pool.shut → ∃ l s', s.step c l = some s' ∧ rank s' < rank s := by
    intro p r hp hrun' hpool hlt
    refine ⟨.pool .shutdown, _, step_pool rfl (hp.stepEvent hrun hrun'), ?_⟩
    simp only [Session.see, Session.ret, rank, curRank, hcur, hpool]
    omega
  rcases hshut with hshut | hshut | ⟨hst, hshut | hshut | hshut⟩
  · exact hgo _ (.shutdown (.lock hshut)) hrun rfl (by simp [hshut, shutRank])
  · by_cases hst : s.pool.status = .working
    · exact hgo _ (.shutdown (.check hshut hst)) hrun rfl (by simp [hshut, shutRank])
    · exact hret _ _ (.shutdown (.nothing hshut hst)) hrun rfl (by simp [hshut, shutRank])
  · exact hgo _ (.shutdown (.close hshut)) hrun rfl (by simp [hshut, shutRank])
  · by_cases hended : s.pool.ctl = .ended
    · exact hgo _ (.shutdown (.join hshut hended)) hrun rfl (by simp [hshut, shutRank])
    · obtain ⟨a, p, ha, hp, hlt⟩ := h.pool.progress hshut hended
      have hshut' : p.shut = .join := by
        obtain ⟨-, hstep⟩ := Pool.Step.of hp
        rcases ha with rfl | ⟨w, rfl⟩
        · cases hstep with
          | controller hc => exact hc.frame.2.2.2.2.1.trans hshut
        · cases hstep with
          | worker _ hw => exact hw.frame.2.2.2.2.2.2.1.trans hshut
      have hown : Session.own a = true := by rcases ha with rfl | ⟨w, rfl⟩ <;> rfl
      refine ⟨.pool a, _, step_pool hown hp, ?_⟩
      simp only [Session.see, rank, curRank, hcur, hshut, hshut']
      omega
  · exact hret _ _ (.shutdown (.finish hshut)) hrun rfl (by simp [hshut, shutRank])

/-- As long as something is owed, a calm session gets on. -/
theorem Calm.progress (h : Calm c s) (howed : owed s ≠ []) : ∃ l s', s.step c l = some s' ∧ rank s' < rank s := by
  have hplace := h.place
  have hrun := h.pool.running
  cases hcur : s.cur with
  | out =>
      refine ⟨.call, h.progress_out hcur ?_⟩
      intro hops
      cases hst : s.pool.status <;> simp [owed, hcur, hops, hst, expected] at howed
  | wait =>
      simp only [Place, hcur] at hplace
      obtain ⟨hpc, -, hfree⟩ := hplace
      refine ⟨.pool (.call (.ext c)), _, step_pool rfl (lookup_progress hrun hfree hpc), ?_⟩
      simp only [Session.see, if_true, hcur, Session.ret, rank, curRank]
      show _ + 0 + poolRank s.pool < _
      omega
  | getRes id =>
      simp only [Place, hcur] at hplace
      obtain ⟨-, hpc, -, hfree⟩ := hplace
      refine ⟨.pool (.call (.ext c)), _, step_pool rfl (lookup_progress hrun hfree hpc), ?_⟩
      simp only [Session.see, if_true, hcur, rank, curRank]
      show _ + 1 + poolRank s.pool < _
      omega
  | fetch id =>
      simp only [Place, hcur] at hplace
      obtain ⟨-, -, -, hfree⟩ := hplace
      refine ⟨.fetch, { s with cur := .out, trace := s.trace ++ [.result (Session.lookup s.pool id)] }, ?_, ?_⟩
      · simp [Session.step, Session.fetch, hcur, hfree, hrun]
      · simp only [rank, curRank, hcur]
        omega
  | enqueue =>
      have hready : s.pool.status = .ready := by
        by_contra hne
        simp [owed, hcur, hne] at howed
      simp only [Place, hcur] at hplace
      rcases hplace with ⟨⟨x, hpc⟩, hshut, -⟩ | ⟨hworking, -⟩
      · have hholds : s.pool.shut.holds = false := by rcases hshut with hshut | hshut <;> simp [hshut, Shutdown.holds]
        have hp : s.pool.stepEvent (.call (.ext c)) = some (s.pool.setCall (.ext c) .idle, .enqueueRet (.ext c) (-1)) := by
          have hrefused : s.pool.status ≠ .working := by simp [hready]
          exact (Pool.Step.call _ (.refused x hpc hholds hrefused)).stepEvent hrun hrun
        refine ⟨.pool (.call (.ext c)), _, step_pool rfl hp, ?_⟩
        simp only [Session.see, if_true, Session.ret, rank, curRank, hcur]
        show _ + 0 + poolRank s.pool < _
        omega
      · cases hready.symm.trans hworking
  | shutdown => exact h.progress_shutdown hcur

end Progress

section Outcomes

variable {c : Nat} {q : Pool n α} {ops : List (Op α)} {tr : List (Outcome α)} {s s' : Session n α} {l : Label n α}

/-- A calm session can be brought to the point where nothing is owed. -/
theorem Calm.settle (h : Calm c s) (q : Pool n α) (ops : List (Op α)) :
    ∃ t, Lts.Run (session c q ops) (fun _ _ => True) s t ∧ Calm c t ∧ owed t = [] := by
  refine Lts.Run.descend (I := Calm c) (P := fun t => owed t = []) (m := rank) (fun u hu howed => ?_) h
  obtain ⟨l, v, hs, hlt⟩ := hu.progress howed
  exact ⟨l, v, trivial, hs, (hu.step hs).1, hlt⟩

end Outcomes

section Begin

variable {bound c : Nat} {p : Pool n α} {ops : List (Op α)}

theorem ShutDown.spent (h : ShutDown bound c p) : Spent p := by
  rcases (lifeInv_reachable h.used).life with hinv | hspent
  · exact spent_of_ended hinv h.ended
  · exact hspent

theorem ShutDown.unlocked (h : ShutDown bound c p) : p.tableMutex = none := by
  cases hmutex : p.tableMutex with
  | none => rfl
  | some k =>
      have hlocks := ((lifeInv_reachable h.used).locked k).2 hmutex
      have hquiet := h.quiet k
      cases hpc : p.calls k <;> simp [hpc, CallPc.locks, enqueues] at hlocks hquiet

end Begin

section Fresh

variable {bound c : Nat} {t : TskId} {x : α} {p : Pool n α}

/-- A pool between the calls of the thread `c`. -/
structure Open (c : Nat) (p : Pool n α) : Prop where
  running : p.aborted = none
  unlocked : p.tableMutex = none
  idle : p.calls (.ext c) = .idle

/-- Looking up an id that is not one leaves the pool as it was. -/
theorem Open.back (h : Open c p) (y : CallPc α) : (p.setCall (.ext c) y).setCall (.ext c) .idle = p := by
  simp only [Pool.setCall, Function.update_idem]
  rw [← h.idle, Function.update_eq_self]

/-- A pool that has accepted its first task. -/
structure Accepted (t : TskId) (x : α) (p : Pool n α) : Prop where
  running : p.aborted = none
  ctl : p.ctl = .dequeueWait
  queue : p.tskQ.elems = [t] ∧ p.tskQ.size = 1 ∧ p.tskQ.qsem = 1 ∧ p.tskQ.status = .opened
  poolSem : p.poolSem = n
  workers : ∀ w, p.workers w =
    { waitingSem := 0, assignedTsk := none, status := .waiting, shutdown := false, pc := .semWait }
  code : (p.tsk t).tskCode = some x

end Fresh

end ComplexSim.Restart
