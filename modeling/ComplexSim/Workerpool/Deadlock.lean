import ComplexSim.Workerpool.Invariant

/-!
# Shutdown against the tasks that use their own pool

`cs_wp_shutdown` holds the pool mutex while it joins the controller, which joins the
workers. A task that asks for the pool mutex meanwhile, in `cs_wp_get_status` or in
`cs_wp_tsk_enqueue`, is never served; nor is one that waits for a place in the task
queue when the controller has no task left to take from it, or no worker to give it to;
nor is one that waits in `cs_wp_tsk_wait` for a task that nobody will perform, such as one
that the closed queue has dropped.

`Stuck W w` lists these cases for the task of `w`, up to the end of the other tasks of `W`;
with a `W` whose tasks are all stuck the pool is `Jammed` and the shutdown never returns
from its join. In every other state some thread of the pool can still go on
(`deadlock_only_jammed`).
-/

namespace ComplexSim.Workerpool

variable {n : Nat} {α : Type}

namespace Pool

/-- The actions of the pool's own threads: the controller, the workers and the tasks
that these perform. -/
def Action.own : Action n α → Bool
  | .controller | .worker _ | .taskReturn _ => true
  | .call (.task _) | .create (.task _) _ | .callGetStatus (.task _) | .callEnqueue (.task _) _
  | .callWait (.task _) _ => true
  | _ => false

/-- The shutdown waits in its join, and no thread of the pool will ever go on. -/
def Deadlocked (bound : Nat) (s : Pool n α) : Prop :=
  s.shut = .join ∧ s.ctl ≠ .ended ∧
    Lts.Blocked (system n α bound) (fun _ _ => True) (fun a => a.own = true) s

end Pool

namespace CallPc

/-- The caller waits for the pool mutex. -/
def asksPool : CallPc α → Bool
  | .getStatus | .enqStatus _ => true
  | _ => false

/-- The caller has a task record and no place in the queue yet. -/
def asksPlace : CallPc α → Bool
  | .enqTable _ | .enqLimit _ => true
  | _ => false

/-- The caller waits for the table mutex. -/
def asksTable : CallPc α → Bool
  | .enqTable _ | .waitFind _ => true
  | _ => false

/-- The caller is at the look-up of `cs_wp_tsk_wait`. -/
def looksUp : CallPc α → Bool
  | .waitFind _ => true
  | _ => false

theorem asksPool_ne_idle {c : CallPc α} (h : c.asksPool = true) : c ≠ .idle := fun hc => by
  simp [hc, CallPc.asksPool] at h

theorem asksPlace_ne_idle {c : CallPc α} (h : c.asksPlace = true) : c ≠ .idle := fun hc => by
  simp [hc, CallPc.asksPlace] at h

theorem looksUp_ne_idle {c : CallPc α} (h : c.looksUp = true) : c ≠ .idle := fun hc => by
  simp [hc, CallPc.looksUp] at h

end CallPc

/-- The worker has task `t`: to take, to perform or to signal. -/
def Worker.Has (d : Worker) (t : TskId) : Prop :=
  d.assignedTsk = some t ∨ d.pc = .setDone t ∨ d.pc = .signalEnd t

namespace Pool

/-- An enqueuer, in the pool or outside, holds the table mutex and waits for a place. -/
def TableKept (s : Pool n α) : Prop := ∃ k t, s.tableMutex = some k ∧ s.calls k = .enqLimit t

/-- The controller waits for a free worker, and every worker performs a task of `W`. -/
def Held (s : Pool n α) (W : Fin n → Prop) : Prop := (∃ t, s.ctl = .poolSem t) ∧ ∀ w, W w

/-- Task `t` has no signal, and gets none before a task of `W` ends: nobody else has it, and it
goes to nobody else from the queue or from the controller. -/
structure Unsignalled (s : Pool n α) (W : Fin n → Prop) (t : TskId) : Prop where
  sem : (s.tsk t).taskSem = 0
  workers : ∀ w, (s.workers w).Has t → W w
  queued : t ∈ s.tskQ.elems ∨ s.ctl.hand = some t → s.Held W

/-- The task of `w` is in a call that does not end before the call of another task of `W` does. -/
inductive Stuck (s : Pool n α) (W : Fin n → Prop) (w : Fin n) : Prop where
  /-- it waits for the pool mutex -/
  | pool (hasks : (s.calls (.task w)).asksPool = true)
  /-- it waits for a place in the queue, or for the table mutex that another enqueuer keeps while
  waiting for one, and the controller makes no place -/
  | place (hfull : s.tskQ.qlimitSem = 0)
      (hasks : (s.calls (.task w)).asksPlace = true ∨ (s.calls (.task w)).looksUp = true ∧ s.TableKept)
      (hnone : s.tskQ.elems = [] ∨ s.Held W)
  /-- it waits in `cs_wp_tsk_wait` for a task that nobody signals -/
  | wait (t : TskId) (hcall : s.calls (.task w) = .waitSem t) (hlost : s.Unsignalled W t)

end Pool

/-- The shutdown waits in its join for tasks that are all stuck, or for a task that the controller
has taken in a pool of no workers. -/
def Jammed (s : Pool n α) : Prop :=
  s.shut = .join ∧ ∃ W : Fin n → Prop, ((∃ w, W w) ∨ s.Held W) ∧ ∀ w, W w → s.Stuck W w

section Jam

variable {s s' : Pool n α} {a : Pool.Action n α} {e : PoolEvent n α}

/-- The shutdown leaves its join only when the controller has ended. -/
theorem Pool.Step.shut_join (hs : s.Step a s' e) (hjoin : s.shut = .join) (hctl : s.ctl ≠ .ended) :
    s'.shut = .join := by
  cases hs with
  | startAgain _ _ | start _ _ _ | callGetStatus _ _ _ | callEnqueue _ _ _ _ | callWait _ _ _ _
  | create _ _ _ _ _ | taskReturn _ _ _ _ => exact hjoin
  | callShutdown hsh => rw [hjoin] at hsh; simp at hsh
  | call k hk => rw [hk.frame.2.2.2.2.2.2.1]; exact hjoin
  | worker w hw => rw [hw.frame.2.2.2.2.2.2.1]; exact hjoin
  | controller hc => rw [hc.frame.2.2.2.2.1]; exact hjoin
  | shutdown hsh =>
      cases hsh with
      | join _ hend => exact absurd hend hctl
      | lock hpc | nothing hpc _ | check hpc _ | close hpc | finish hpc => simp [hjoin] at hpc

/-- A caller in a call moves only by the steps of that call. -/
theorem Pool.Step.calls_of_busy (hs : s.Step a s' e) {k : Caller n} (hbusy : s.calls k ≠ .idle) :
    s'.calls k = s.calls k ∨ (∃ t x, s.calls k = .enqCreate x ∧ s'.calls k = .enqTable t) ∨
      s.CallStep k s' e := by
  have hother : ∀ {j : Caller n} {c : CallPc α}, s.calls j = .idle →
      (s.setCall j c).calls k = s.calls k := fun {j c} hj => by
    have hkj : k ≠ j := fun hkj => by subst hkj; exact hbusy hj
    simp [hkj]
  cases hs with
  | startAgain _ _ | start _ _ _ | callShutdown _ | taskReturn _ _ _ _ => exact Or.inl rfl
  | callGetStatus j hidle _ | callEnqueue j _ hidle _ | callWait j _ hidle _ =>
      exact Or.inl (hother hidle)
  | create j t x hpc _ =>
      by_cases hkj : k = j
      · subst hkj; exact Or.inr (Or.inl ⟨t, x, hpc, by simp⟩)
      · exact Or.inl (by simp [hkj])
  | call j hj =>
      by_cases hkj : k = j
      · subst hkj; exact Or.inr (Or.inr hj)
      · exact Or.inl (hj.frame.2.1 k hkj)
  | worker w hw => rw [hw.frame.2.2.1]; exact Or.inl rfl
  | controller hc => rw [hc.frame.2.1]; exact Or.inl rfl
  | shutdown hsh => cases hsh <;> exact Or.inl rfl

/-- Nobody gets the pool mutex from the shutdown. -/
theorem Pool.Step.asksPool (hs : s.Step a s' e) (hholds : s.shut.holds = true) {k : Caller n}
    (hk : (s.calls k).asksPool = true) : (s'.calls k).asksPool = true := by
  rcases hs.calls_of_busy (k := k) (fun hidle => by simp [hidle, CallPc.asksPool] at hk) with
    hsame | ⟨t, x, hpc, -⟩ | hcall
  · rwa [hsame]
  · simp [hpc, CallPc.asksPool] at hk
  · cases hcall with
    | getStatus _ hfree | refused _ _ hfree _ | statusOk _ _ hfree _ =>
        rw [hholds] at hfree; cases hfree
    | lockTable _ hpc _ | limit _ hpc _ | append _ hpc _ | drop _ hpc _ | failed _ _ hpc _
    | duplicate _ _ hpc _ | insert _ _ hpc _ _ | find _ hpc _ _ | notFound _ hpc _ _
    | isDone _ hpc _ | notDone _ hpc _ | waitEnd _ hpc _ => simp [hpc, CallPc.asksPool] at hk

/-- Nobody gets a place in a full queue. -/
theorem Pool.Step.asksPlace (hs : s.Step a s' e) (hfull : s.tskQ.qlimitSem = 0) {k : Caller n}
    (hk : (s.calls k).asksPlace = true) : (s'.calls k).asksPlace = true := by
  rcases hs.calls_of_busy (k := k) (fun hidle => by simp [hidle, CallPc.asksPlace] at hk) with
    hsame | ⟨t, x, -, hpc⟩ | hcall
  · rwa [hsame]
  · simp [hpc, CallPc.asksPlace]
  · cases hcall with
    | lockTable _ _ _ => simp [CallPc.asksPlace]
    | duplicate _ _ hpc _ => exact hk
    | limit _ _ hsem => omega
    | getStatus hpc _ | refused _ hpc _ _ | statusOk _ hpc _ _ | append _ hpc _ | drop _ hpc _
    | failed _ _ hpc _ | insert _ _ hpc _ _ | find _ hpc _ _ | notFound _ hpc _ _
    | isDone _ hpc _ | notDone _ hpc _ | waitEnd _ hpc _ => simp [hpc, CallPc.asksPlace] at hk

/-- A queue without places stays so, unless the controller takes a task from it. -/
theorem Pool.Step.full (hs : s.Step a s' e) (hfull : s.tskQ.qlimitSem = 0)
    (hdeq : s.ctl = .dequeue → csQueueDequeue s.tskQ = .null) : s'.tskQ.qlimitSem = 0 := by
  cases hs with
  | startAgain _ _ | start _ _ _ | callShutdown _ | taskReturn _ _ _ _ | callGetStatus _ _ _
  | callEnqueue _ _ _ _ | callWait _ _ _ _ | create _ _ _ _ _ => exact hfull
  | call k hk =>
      cases hk with
      | limit _ _ hsem => omega
      | _ => exact hfull
  | worker w hw => rw [hw.frame.2.2.2.1]; exact hfull
  | controller hc =>
      cases hc with
      | dequeue t q hpc hq => rw [hdeq hpc] at hq; cases hq
      | _ => exact hfull
  | shutdown hsh => cases hsh <;> exact hfull

/-- A closed and empty queue stays empty. -/
theorem Pool.Step.empty (hs : s.Step a s' e) (hclosed : s.tskQ.status = .closed)
    (helems : s.tskQ.elems = []) : s'.tskQ.elems = [] := by
  cases hs with
  | startAgain _ _ | start _ _ _ | callShutdown _ | taskReturn _ _ _ _ | callGetStatus _ _ _
  | callEnqueue _ _ _ _ | callWait _ _ _ _ | create _ _ _ _ _ => exact helems
  | call k hk =>
      cases hk with
      | append _ _ hopen => rw [hclosed] at hopen; cases hopen
      | _ => exact helems
  | worker w hw => rw [hw.frame.2.2.2.1]; exact helems
  | controller hc =>
      cases hc with
      | dequeue t q hpc hq => simp [csQueueDequeue, helems, hclosed] at hq
      | _ => exact helems
  | shutdown hsh => cases hsh <;> exact helems

/-- A pool with a task in a call is not at the end of its controller. -/
theorem PoolInv.not_ended (h : PoolInv s) {w : Fin n} (hw : s.calls (.task w) ≠ .idle) :
    s.ctl ≠ .ended := fun hend => by
  obtain ⟨t, ht⟩ := h.atTask w hw
  rw [h.handshake.ended hend w] at ht
  cases ht

/-- When every worker performs a task, the controller waits for one of them. -/
theorem PoolInv.poolSem_eq_zero (h : PoolInv s) {t : TskId} (hctl : s.ctl = .poolSem t)
    (hall : ∀ w, s.calls (.task w) ≠ .idle) : s.poolSem = 0 := by
  have hbusy : ∀ w, busy (s.workers w) = 1 := fun w => by
    obtain ⟨u, hu⟩ := h.atTask w (hall w)
    obtain ⟨-, hw⟩ := h.handshake.worker w
    simp only [hu] at hw
    simp [busy, hw.2.1]
  have hpool := h.handshake.pool
  simp only [hctl, ControllerPc.inFlight, tally, hbusy, Finset.sum_const, Finset.card_univ,
    Fintype.card_fin, smul_eq_mul, mul_one] at hpool
  omega

/-- An enqueuer that waits for a place of a full queue goes on waiting. -/
theorem Pool.Step.enqLimit (hs : s.Step a s' e) (hfull : s.tskQ.qlimitSem = 0) {k : Caller n} {t : TskId}
    (hk : s.calls k = .enqLimit t) : s'.calls k = .enqLimit t := by
  rcases hs.calls_of_busy (k := k) (by simp [hk]) with hsame | ⟨u, x, hpc, -⟩ | hcall
  · exact hsame.trans hk
  · rw [hk] at hpc
    cases hpc
  · cases hcall with
    | limit _ _ hsem => omega
    | lockTable _ hpc _ | duplicate _ _ hpc _ | getStatus hpc _ | refused _ hpc _ _ | statusOk _ hpc _ _
    | append _ hpc _ | drop _ hpc _ | failed _ _ hpc _ | insert _ _ hpc _ _ | find _ hpc _ _ | notFound _ hpc _ _
    | isDone _ hpc _ | notDone _ hpc _ | waitEnd _ hpc _ =>
        rw [hk] at hpc
        cases hpc

/-- The table mutex stays with an enqueuer that waits for a place of a full queue. -/
theorem Pool.TableKept.step (h : s.TableKept) (hinv : PoolInv s) (hs : s.Step a s' e)
    (hfull : s.tskQ.qlimitSem = 0) : s'.TableKept := by
  obtain ⟨k, t, -, hcall⟩ := h
  have hcall' := hs.enqLimit hfull hcall
  refine ⟨k, t, ?_, hcall'⟩
  apply ((hinv.step hs).calls.mutex k).1
  rw [hcall']
  rfl

/-- A look-up does not get the table mutex from an enqueuer that keeps it. -/
theorem Pool.Step.looksUp (hs : s.Step a s' e) (hkept : s.TableKept) {k : Caller n}
    (hk : (s.calls k).looksUp = true) : (s'.calls k).looksUp = true := by
  obtain ⟨j, t, hmutex, -⟩ := hkept
  rcases hs.calls_of_busy (k := k) (CallPc.looksUp_ne_idle hk) with hsame | ⟨u, x, hpc, -⟩ | hcall
  · rwa [hsame]
  · simp [hpc, CallPc.looksUp] at hk
  · cases hcall with
    | find _ _ hfree _ | notFound _ _ hfree _ =>
        rw [hmutex] at hfree
        cases hfree
    | duplicate _ _ _ _ => exact hk
    | limit _ hpc _ | lockTable _ hpc _ | getStatus hpc _ | refused _ hpc _ _ | statusOk _ hpc _ _
    | append _ hpc _ | drop _ hpc _ | failed _ _ hpc _ | insert _ _ hpc _ _
    | isDone _ hpc _ | notDone _ hpc _ | waitEnd _ hpc _ => simp [hpc, CallPc.looksUp] at hk

/-- A task without a signal gets one from a worker only. -/
theorem Pool.Step.taskSem (hs : s.Step a s' e) {t : TskId} (hsem : (s.tsk t).taskSem = 0)
    (hnone : ∀ w, (s.workers w).pc ≠ .signalEnd t) : (s'.tsk t).taskSem = 0 := by
  have hset : ∀ {u : TskId} {d : Tsk n α}, (t = u → d.taskSem = 0) →
      (Function.update s.tsk u d t).taskSem = 0 := by
    intro u d hd
    by_cases htu : t = u
    · rw [← htu, Function.update_self]
      exact hd htu
    · rw [Function.update_of_ne htu]
      exact hsem
  have hlog : ∀ {u : TskId} {ev : TskEvent n},
      (Function.update s.tsk u { s.tsk u with hist := (s.tsk u).hist ++ [ev] } t).taskSem = 0 :=
    fun {u _} => hset fun htu => by rw [← htu]; exact hsem
  cases hs with
  | startAgain _ _ | start _ _ _ | callGetStatus _ _ _ | callEnqueue _ _ _ _ | callWait _ _ _ _
  | callShutdown _ => exact hsem
  | create k u x _ _ => exact hset fun _ => rfl
  | taskReturn w u _ _ => exact hlog
  | shutdown hsh => cases hsh <;> exact hsem
  | call k hk =>
      cases hk with
      | append u _ _ => exact hlog
      | waitEnd u _ hpos => exact hset fun htu => by subst htu; omega
      | _ => exact hsem
  | worker w hw =>
      cases hw with
      | take u _ _ _ => exact hlog
      | setDone u _ => exact hset fun htu => by subst htu; exact hsem
      | signalEnd u hpc => exact hset fun htu => absurd (htu ▸ hpc) (hnone w)
      | _ => exact hsem
  | controller hc =>
      cases hc with
      | dequeue u _ _ _ | assign u _ _ => exact hlog
      | _ => exact hsem

/-- A worker is given a task by the controller only. -/
theorem Pool.Step.has (hs : s.Step a s' e) (hinv : PoolInv s) {w : Fin n} {t : TskId}
    (hhas : (s'.workers w).Has t) : (s.workers w).Has t ∨ s.ctl.hand = some t := by
  have hset : ∀ {v : Fin n} {d : Worker}, (d.Has t → (s.workers v).Has t ∨ s.ctl.hand = some t) →
      (Function.update s.workers v d w).Has t → (s.workers w).Has t ∨ s.ctl.hand = some t := by
    intro v d hd hnew
    by_cases hwv : w = v
    · rw [hwv] at hnew ⊢
      rw [Function.update_self] at hnew
      exact hd hnew
    · rw [Function.update_of_ne hwv] at hnew
      exact Or.inl hnew
  cases hs with
  | startAgain _ _ | callGetStatus _ _ _ | callEnqueue _ _ _ _ | callWait _ _ _ _ | callShutdown _
  | create _ _ _ _ _ => exact Or.inl hhas
  | start _ _ _ => exact Or.inl (Or.inl (by simpa [Worker.Has] using hhas))
  | taskReturn v u _ _ => exact hset (fun hd => Or.inl (Or.inl (by simpa [Worker.Has] using hd))) hhas
  | shutdown hsh => cases hsh <;> exact Or.inl hhas
  | call k hk => rw [hk.frame.2.2.1] at hhas; exact Or.inl hhas
  | worker v hw =>
      cases hw with
      | wokenFail _ _ | takeNone _ _ _ | takeFail _ _ _ _ | releaseFail _ _ _ => exact Or.inl hhas
      | wake _ _ | wokenOk _ _ | exit _ _ _ | take _ _ _ _ =>
          exact hset (fun hd => Or.inl (Or.inl (by simpa [Worker.Has] using hd))) hhas
      | release u hpc _ =>
          refine hset (fun hd => Or.inl (Or.inl ?_)) hhas
          have hworker := (hinv.handshake.worker v).2
          rw [hpc] at hworker
          rw [hworker.2.2.1]
          simpa [Worker.Has] using hd
      | setDone u hpc =>
          refine hset (fun hd => Or.inl ?_) hhas
          simpa [Worker.Has, hpc] using hd
      | signalEnd u hpc =>
          refine hset (fun hd => Or.inl ?_) hhas
          exact Or.inl (by simpa [Worker.Has] using hd)
  | controller hc =>
      cases hc with
      | assign u v hpc =>
          refine hset (fun hd => ?_) hhas
          rcases hd with hd | hd
          · exact Or.inr (by simpa [hpc, ControllerPc.hand] using hd)
          · exact Or.inl (Or.inr hd)
      | notify v _ | sendShutdown v _ | postShutdown v _ =>
          refine hset ?_ hhas
          exact fun hd => Or.inl hd
      | _ => exact Or.inl hhas

/-- The controller gets its tasks from the queue, and a closed queue gets no more. -/
theorem Pool.Step.source (hs : s.Step a s' e) (hclosed : s.tskQ.status = .closed) {t : TskId}
    (h : t ∈ s'.tskQ.elems ∨ s'.ctl.hand = some t) : t ∈ s.tskQ.elems ∨ s.ctl.hand = some t := by
  cases hs with
  | startAgain _ _ | callGetStatus _ _ _ | callEnqueue _ _ _ _ | callWait _ _ _ _ | callShutdown _
  | create _ _ _ _ _ | taskReturn _ _ _ _ => exact h
  | start _ _ _ => exact h.imp id (by simp [ControllerPc.hand])
  | shutdown hsh => cases hsh <;> exact h
  | worker v hw =>
      obtain ⟨-, -, -, hq, hctl, -⟩ := hw.frame
      rwa [hq, hctl] at h
  | call k hk =>
      cases hk with
      | append _ _ hopen => rw [hclosed] at hopen; cases hopen
      | _ => exact h
  | controller hc =>
      cases hc with
      | noHead _ _ | badSize _ _ | noWorker _ _ _ _ => exact h
      | dequeue u q hpc hq =>
          have hmem : ∀ v, v ∈ q.elems ∨ v = u → v ∈ s.tskQ.elems := by
            intro v hv
            unfold csQueueDequeue at hq
            split at hq
            · split at hq <;> cases hq
            · rename_i helems
              rw [helems]
              simp only at hq
              split at hq <;> cases hq
              rcases hv with hv | rfl
              · exact List.mem_cons_of_mem _ (by simp only at hv; split at hv <;> simp_all)
              · exact List.mem_cons_self
          refine Or.inl (hmem t (h.imp id fun hhand => ?_))
          simpa [ControllerPc.hand, eq_comm] using hhand
      | poolSem _ hpc _ | found _ _ hpc _ | pass _ _ hpc _ => simpa [hpc, ControllerPc.hand] using h
      | dequeueWait _ _ | leave _ _ | assign _ _ _ | notify _ _ | sendShutdown _ _ | allSent _ _ _
      | postShutdown _ _ | join _ _ _ | ended _ _ _ =>
          exact Or.inl (h.resolve_right (by simp [ControllerPc.hand]))

/-- While the shutdown waits in its join, the queue is closed. -/
theorem PoolInv.closed_of_join (h : PoolInv s) (hjoin : s.shut = .join) : s.tskQ.status = .closed := by
  have hlife := h.queue.life
  cases hst : s.status <;> cases hq : s.tskQ.status <;> simp [Life, hst, hq, hjoin] at hlife ⊢

variable {W : Fin n → Prop}

theorem Pool.Stuck.ne_idle {w : Fin n} (h : s.Stuck W w) : s.calls (.task w) ≠ .idle := by
  cases h with
  | pool hasks => exact CallPc.asksPool_ne_idle hasks
  | place _ hasks _ => exact hasks.elim CallPc.asksPlace_ne_idle fun hup => CallPc.looksUp_ne_idle hup.1
  | wait t hcall _ => simp [hcall]

/-- A controller that every worker keeps waiting goes on waiting. -/
theorem Pool.Held.step (h : s.Held W) (hinv : PoolInv s) (hbusy : ∀ w, W w → s.calls (.task w) ≠ .idle)
    (hs : s.Step a s' e) : s'.Held W := by
  obtain ⟨⟨t, hctl⟩, hall⟩ := h
  have hsem := hinv.poolSem_eq_zero hctl fun w => hbusy w (hall w)
  refine ⟨⟨t, ?_⟩, hall⟩
  cases hs with
  | startAgain _ _ | callGetStatus _ _ _ | callEnqueue _ _ _ _ | callWait _ _ _ _
  | callShutdown _ | create _ _ _ _ _ | taskReturn _ _ _ _ => exact hctl
  | start _ _ hc => rw [hctl] at hc; cases hc
  | call k hk => rw [hk.frame.2.2.2.1]; exact hctl
  | worker w hw => rw [hw.frame.2.2.2.2.1]; exact hctl
  | shutdown hsh => cases hsh <;> exact hctl
  | controller hc =>
      cases hc with
      | poolSem u _ hpos => omega
      | dequeueWait hpc _ | leave hpc _ | noHead hpc _ | badSize hpc _ | dequeue _ _ hpc _
      | found _ _ hpc _ | pass _ _ hpc _ | noWorker _ _ hpc _ | assign _ _ hpc | notify _ hpc
      | sendShutdown _ hpc | allSent _ hpc _ | postShutdown _ hpc | join _ hpc _ | ended _ hpc _ =>
          simp [hctl] at hpc

/-- A task that nobody signals stays so. -/
theorem Pool.Unsignalled.step {t : TskId} (h : s.Unsignalled W t) (hinv : PoolInv s)
    (hclosed : s.tskQ.status = .closed) (hbusy : ∀ w, W w → s.calls (.task w) ≠ .idle)
    (hs : s.Step a s' e) : s'.Unsignalled W t where
  sem := hs.taskSem h.sem fun w hpc => by
    obtain ⟨u, hu⟩ := hinv.atTask w (hbusy w (h.workers w (Or.inr (Or.inr hpc))))
    rw [hpc] at hu
    cases hu
  workers := fun w hhas => by
    rcases hs.has hinv hhas with hhas | hhand
    · exact h.workers w hhas
    · exact (h.queued (Or.inr hhand)).2 w
  queued := fun hq => (h.queued (hs.source hclosed hq)).step hinv hbusy hs

/-- A stuck task stays stuck, as long as all are that it waits for. -/
theorem Pool.Stuck.step {w : Fin n} (h : s.Stuck W w) (hinv : PoolInv s) (hjoin : s.shut = .join)
    (hbusy : ∀ w, W w → s.calls (.task w) ≠ .idle) (hs : s.Step a s' e) : s'.Stuck W w := by
  have hclosed := hinv.closed_of_join hjoin
  cases h with
  | pool hasks => exact .pool (hs.asksPool (by rw [hjoin]; rfl) hasks)
  | place hfull hasks hnone =>
      refine .place (hs.full hfull fun hdeq => ?_) (hasks.imp (hs.asksPlace hfull) fun hup => ?_)
        (hnone.imp (hs.empty hclosed) fun hheld => hheld.step hinv hbusy hs)
      · rcases hnone with helems | ⟨⟨t, hctl⟩, -⟩
        · simp [csQueueDequeue, helems, hclosed]
        · rw [hdeq] at hctl
          cases hctl
      · exact ⟨hs.looksUp hup.2 hup.1, hup.2.step hinv hs hfull⟩
  | wait t hcall hlost =>
      refine .wait t ?_ (hlost.step hinv hclosed hbusy hs)
      rcases hs.calls_of_busy (k := .task w) (by simp [hcall]) with hsame | ⟨u, x, hpc, -⟩ | hk
      · exact hsame.trans hcall
      · rw [hcall] at hpc
        cases hpc
      · have hsem := hlost.sem
        cases hk with
        | waitEnd u hpc hpos =>
            rw [hcall] at hpc
            cases hpc
            omega
        | duplicate _ _ hpc _ | getStatus hpc _ | refused _ hpc _ _ | statusOk _ hpc _ _ | lockTable _ hpc _
        | limit _ hpc _ | append _ hpc _ | drop _ hpc _ | failed _ _ hpc _ | insert _ _ hpc _ _ | find _ hpc _ _
        | notFound _ hpc _ _ | isDone _ hpc _ | notDone _ hpc _ =>
            rw [hcall] at hpc
            cases hpc

/-- A jammed shutdown stays jammed. -/
theorem Jammed.step (h : Jammed s) (hinv : PoolInv s) (hs : s.Step a s' e) : Jammed s' := by
  obtain ⟨hjoin, W, hsome, hstuck⟩ := h
  have hbusy : ∀ w, W w → s.calls (.task w) ≠ .idle := fun w hw => (hstuck w hw).ne_idle
  have hctl : s.ctl ≠ .ended := by
    rcases hsome with ⟨w, hw⟩ | ⟨⟨t, ht⟩, -⟩
    · exact hinv.not_ended (hbusy w hw)
    · simp [ht]
  exact ⟨hs.shut_join hjoin hctl, W, hsome.imp id fun hheld => hheld.step hinv hbusy hs,
    fun w hw => (hstuck w hw).step hinv hjoin hbusy hs⟩

/-- A jammed shutdown never leaves its join. -/
theorem Jammed.run {bound : Nat} {ok : Pool n α → Pool.Action n α → Prop} (h : Jammed s)
    (hinv : PoolInv s) (hrun : Lts.Run (system n α bound) ok s s') : s'.shut = .join := by
  have hgoal : PoolInv s' ∧ Jammed s' := by
    refine hrun.invariant (I := fun s => PoolInv s ∧ Jammed s) ?_ ⟨hinv, h⟩
    intro s a t ⟨hi, hj⟩ _ hstep
    obtain ⟨-, e, he⟩ := Pool.Step.of_step hstep
    exact ⟨hi.step he, hj.step hi he⟩
  exact hgoal.2.1

end Jam

section Progress

variable {s : Pool n α} {bound : Nat}

/-- No thread of the pool ever goes on. -/
abbrev Pool.Still (bound : Nat) (s : Pool n α) : Prop :=
  Lts.Blocked (system n α bound) (fun _ _ => True) (fun a => a.own = true) s

theorem Pool.Still.none (h : s.Still bound) {a : Pool.Action n α} (hown : a.own = true) : s.stepEvent a = none := by
  cases he : s.stepEvent a with
  | none => rfl
  | some p =>
      have hstep : s.step a = some p.1 := by simp [Pool.step, he]
      exact absurd hstep (h s (.refl s) a p.1 hown trivial)

/-- An enqueuer with a place in the queue never waits again. -/
theorem Pool.callStep_isSome {k : Caller n} {t : TskId}
    (h : s.calls k = .enqQueue t ∨ (∃ r, s.calls k = .enqInsert t r) ∨
      (s.calls k = .enqLimit t ∧ 0 < s.tskQ.qlimitSem)) : (s.callStep k).isSome = true := by
  unfold Pool.callStep
  rcases h with h | ⟨r, h⟩ | ⟨h, hsem⟩
  · simp [h]
  · simp only [h]
    split
    · rfl
    · split
      · rfl
      · split
        · rfl
        · split <;> rfl
  · simp [h, hsem]

/-- A step of an outside caller. -/
theorem PoolInv.outside_step (h : PoolInv s) (bound : Nat) {k : Nat}
    (hsome : (s.callStep (.ext k)).isSome = true) :
    ∃ s' e, s.CallStep (.ext k) s' e ∧ PoolInv s' ∧ Lts.Run (system n α bound) (fun _ _ => True) s s' := by
  obtain ⟨⟨s', e⟩, hs⟩ := Option.isSome_iff_exists.1 hsome
  have hk := Pool.CallStep.of hs
  refine ⟨s', e, hk, h.callStep hk, .tail (.refl s) (a := .call (.ext k)) trivial ?_⟩
  show s.step (.call (.ext k)) = some s'
  rw [Pool.step, Pool.stepEvent_call h.running, hs]
  rfl

theorem PoolInv.call_none (h : PoolInv s) (hstill : s.Still bound) (w : Fin n) :
    ¬ (s.callStep (.task w)).isSome = true := by
  rw [← Pool.stepEvent_call h.running, hstill.none rfl]
  simp

/-- The table mutex is not free for a task that asks for it and does not go on. -/
theorem PoolInv.table_taken (h : PoolInv s) (hstill : s.Still bound) {w : Fin n}
    (hasks : (s.calls (.task w)).asksTable = true) : s.tableMutex ≠ none := by
  intro hfree
  apply h.call_none hstill w
  unfold Pool.callStep
  cases hcall : s.calls (.task w) <;> simp [hcall, CallPc.asksTable] at hasks
  · simp [hfree]
  · simp only [hfree, ne_eq, not_true_eq_false, if_false]
    split <;> rfl

/-- The table mutex is not with an enqueuer that is about to return it. -/
theorem PoolInv.not_inserting (h : PoolInv s) (hstill : s.Still bound) {w : Fin n}
    (hasks : (s.calls (.task w)).asksTable = true) {k : Caller n} {u : TskId} {r : Int} :
    s.calls k ≠ .enqInsert u r := by
  intro hk
  have hsome := Pool.callStep_isSome (k := k) (Or.inr (Or.inl ⟨r, hk⟩))
  cases k with
  | task v => exact h.call_none hstill v hsome
  | ext j =>
      obtain ⟨s', e, hcall, hinv, hrun⟩ := h.outside_step bound hsome
      have hkeep : s'.calls (.task w) = s.calls (.task w) := hcall.frame.2.1 (.task w) (by simp)
      apply hinv.table_taken (hstill.run hrun) (w := w) (hkeep ▸ hasks)
      cases hcall with
      | failed _ _ _ _ | insert _ _ _ _ _ => rfl
      | duplicate _ _ _ _ => have := hinv.running; simp at this
      | getStatus hpc _ | refused _ hpc _ _ | statusOk _ hpc _ _ | lockTable _ hpc _ | limit _ hpc _
      | append _ hpc _ | drop _ hpc _ | find _ hpc _ _ | notFound _ hpc _ _ | isDone _ hpc _
      | notDone _ hpc _ | waitEnd _ hpc _ => simp [hk] at hpc

/-- Nor with one that has its place in the queue. -/
theorem PoolInv.not_queueing (h : PoolInv s) (hstill : s.Still bound) {w : Fin n}
    (hasks : (s.calls (.task w)).asksTable = true) {k : Caller n} {u : TskId} :
    s.calls k ≠ .enqQueue u := by
  intro hk
  have hsome := Pool.callStep_isSome (k := k) (Or.inl hk)
  cases k with
  | task v => exact h.call_none hstill v hsome
  | ext j =>
      obtain ⟨s', e, hcall, hinv, hrun⟩ := h.outside_step bound hsome
      have hkeep : s'.calls (.task w) = s.calls (.task w) := hcall.frame.2.1 (.task w) (by simp)
      have hnext : ∃ v, s'.calls (.ext j) = .enqInsert v 0 := by
        cases hcall with
        | append v _ _ | drop v _ _ => exact ⟨v, by simp⟩
        | getStatus hpc _ | refused _ hpc _ _ | statusOk _ hpc _ _ | lockTable _ hpc _ | limit _ hpc _
        | failed _ _ hpc _ | duplicate _ _ hpc _ | insert _ _ hpc _ _ | find _ hpc _ _
        | notFound _ hpc _ _ | isDone _ hpc _ | notDone _ hpc _ | waitEnd _ hpc _ => simp [hk] at hpc
      obtain ⟨v, hv⟩ := hnext
      exact hinv.not_inserting (hstill.run hrun) (hkeep ▸ hasks) hv

/-- One that asks for a place finds none. -/
theorem PoolInv.full_of_limit (h : PoolInv s) (hstill : s.Still bound) {w : Fin n}
    (hasks : (s.calls (.task w)).asksTable = true) {k : Caller n} {u : TskId}
    (hk : s.calls k = .enqLimit u) : s.tskQ.qlimitSem = 0 := by
  by_contra hfree
  have hsome := Pool.callStep_isSome (k := k) (Or.inr (Or.inr ⟨hk, Nat.pos_of_ne_zero hfree⟩))
  cases k with
  | task v => exact h.call_none hstill v hsome
  | ext j =>
      obtain ⟨s', e, hcall, hinv, hrun⟩ := h.outside_step bound hsome
      have hkeep : s'.calls (.task w) = s.calls (.task w) := hcall.frame.2.1 (.task w) (by simp)
      have hnext : ∃ v, s'.calls (.ext j) = .enqQueue v := by
        cases hcall with
        | limit v _ _ => exact ⟨v, by simp⟩
        | getStatus hpc _ | refused _ hpc _ _ | statusOk _ hpc _ _ | lockTable _ hpc _ | append _ hpc _
        | drop _ hpc _ | failed _ _ hpc _ | duplicate _ _ hpc _ | insert _ _ hpc _ _ | find _ hpc _ _
        | notFound _ hpc _ _ | isDone _ hpc _ | notDone _ hpc _ | waitEnd _ hpc _ => simp [hk] at hpc
      obtain ⟨v, hv⟩ := hnext
      exact hinv.not_queueing (hstill.run hrun) (hkeep ▸ hasks) hv

/-- Where a task asks for the table in vain, an enqueuer keeps it and waits for a place. -/
theorem PoolInv.kept_of_asksTable (h : PoolInv s) (hstill : s.Still bound) {w : Fin n}
    (hasks : (s.calls (.task w)).asksTable = true) : s.tskQ.qlimitSem = 0 ∧ s.TableKept := by
  cases hmutex : s.tableMutex with
  | none => exact absurd hmutex (h.table_taken hstill hasks)
  | some k =>
      have hlocks := (h.calls.mutex k).2 hmutex
      have hholder : (∃ u, s.calls k = .enqLimit u) ∨ (∃ u, s.calls k = .enqQueue u) ∨
          ∃ u r, s.calls k = .enqInsert u r := by
        cases hk : s.calls k <;> simp [hk, CallPc.locks] at hlocks ⊢
      rcases hholder with ⟨u, hk⟩ | ⟨u, hk⟩ | ⟨u, r, hk⟩
      · exact ⟨h.full_of_limit hstill hasks hk, k, u, hmutex, hk⟩
      · exact absurd hk (h.not_queueing hstill hasks)
      · exact absurd hk (h.not_inserting hstill hasks)

/-- What a task that does not go on waits for. -/
theorem PoolInv.call_still (h : PoolInv s) (hstill : s.Still bound) {w : Fin n}
    (hbusy : s.calls (.task w) ≠ .idle) :
    (s.calls (.task w)).asksPool = true ∨
    (s.tskQ.qlimitSem = 0 ∧
      ((s.calls (.task w)).asksPlace = true ∨ (s.calls (.task w)).looksUp = true ∧ s.TableKept)) ∨
    ∃ t, s.calls (.task w) = .waitSem t ∧ (s.tsk t).taskSem = 0 := by
  have hnone := h.call_none hstill w
  cases hcall : s.calls (.task w) with
  | idle => exact absurd hcall hbusy
  | getStatus | enqStatus _ => exact Or.inl rfl
  | enqCreate x =>
      have hcreate := hstill.none (a := .create (.task w) (s.lastId + 1)) rfl
      simp [Pool.stepEvent_create h.running, Pool.createTsk, hcall] at hcreate
  | enqTable t =>
      obtain ⟨hfull, -⟩ := h.kept_of_asksTable hstill (w := w) (by rw [hcall]; rfl)
      exact Or.inr (Or.inl ⟨hfull, Or.inl rfl⟩)
  | enqLimit t =>
      refine Or.inr (Or.inl ⟨?_, Or.inl rfl⟩)
      by_contra hfree
      exact hnone (Pool.callStep_isSome (Or.inr (Or.inr ⟨hcall, Nat.pos_of_ne_zero hfree⟩)))
  | enqQueue t => exact absurd (Pool.callStep_isSome (Or.inl hcall)) hnone
  | enqInsert t r => exact absurd (Pool.callStep_isSome (Or.inr (Or.inl ⟨r, hcall⟩))) hnone
  | waitFind id =>
      obtain ⟨hfull, hkept⟩ := h.kept_of_asksTable hstill (w := w) (by rw [hcall]; rfl)
      exact Or.inr (Or.inl ⟨hfull, Or.inr ⟨rfl, hkept⟩⟩)
  | waitStatus t =>
      refine absurd ?_ hnone
      unfold Pool.callStep
      simp only [hcall]
      split <;> rfl
  | waitSem t =>
      refine Or.inr (Or.inr ⟨t, rfl, ?_⟩)
      by_contra hsem
      apply hnone
      simp [Pool.callStep, hcall, Nat.pos_of_ne_zero hsem]

/-- A worker that does not go on, and whose task is in no call, waits for a token that is not there. -/
theorem PoolInv.idle_still (h : PoolInv s) (hstill : s.Still bound) {w : Fin n}
    (hidle : s.calls (.task w) = .idle) :
    (s.workers w).pc = .notCreated ∨ (s.workers w).pc = .exited ∨
      (s.workers w).pc = .semWait ∧ (s.workers w).waitingSem = 0 := by
  have hnone : s.workerBehaviour w = none := by
    rw [← Pool.stepEvent_worker h.running]
    exact hstill.none rfl
  unfold Pool.workerBehaviour at hnone
  cases hpc : (s.workers w).pc with
  | notCreated => exact Or.inl rfl
  | exited => exact Or.inr (Or.inl rfl)
  | semWait =>
      refine Or.inr (Or.inr ⟨rfl, ?_⟩)
      by_contra hsem
      simp [hpc, Nat.pos_of_ne_zero hsem] at hnone
  | woken | release t =>
      simp only [hpc] at hnone
      split at hnone <;> cases hnone
  | takeTask =>
      simp only [hpc] at hnone
      split at hnone <;> split at hnone <;> cases hnone
  | setDone t | signalEnd t => simp [hpc] at hnone
  | performing t =>
      have hreturn := hstill.none (a := .taskReturn w) rfl
      simp [Pool.stepEvent_taskReturn h.running, Pool.taskReturn, hpc, hidle] at hreturn

/-- The controller that does not go on waits for a worker: a free one, or the one it joins. -/
theorem PoolInv.controller_still (h : PoolInv s) (hstill : s.Still bound) (hclosed : s.tskQ.status = .closed)
    (hend : s.ctl ≠ .ended) :
    (∃ t, s.ctl = .poolSem t ∧ s.poolSem = 0) ∨ ∃ w : Fin n, s.ctl = .join w ∧ (s.workers w).pc ≠ .exited := by
  have hnone : s.controllerBehaviour = none := by
    rw [← Pool.stepEvent_controller h.running]
    exact hstill.none rfl
  unfold Pool.controllerBehaviour at hnone
  cases hctl : s.ctl with
  | notCreated =>
      have hlife := h.queue.life
      cases hst : s.status <;> simp [Life, hst, hclosed, hctl] at hlife
  | ended => exact absurd hctl hend
  | dequeueWait =>
      have htokens := h.queue.tokens
      simp only [hctl, hclosed, ControllerPc.left, reduceCtorEq, Bool.false_eq_true, if_true,
        if_false] at htokens
      have hsem : 0 < s.tskQ.qsem := by omega
      simp [hctl, hsem] at hnone
  | dequeue =>
      simp only [hctl] at hnone
      split at hnone <;> cases hnone
  | poolSem t =>
      refine Or.inl ⟨t, rfl, ?_⟩
      by_contra hsem
      simp [hctl, Nat.pos_of_ne_zero hsem] at hnone
  | scan t count =>
      simp only [hctl] at hnone
      split at hnone
      · split at hnone <;> cases hnone
      · cases hnone
  | assign t w | notify w => simp [hctl] at hnone
  | sendShutdown count =>
      simp only [hctl] at hnone
      split at hnone <;> cases hnone
  | postShutdown count => simp [hctl, h.handshake.post count hctl] at hnone
  | join count =>
      simp only [hctl] at hnone
      split at hnone
      · rename_i hlt
        split at hnone
        · cases hnone
        · exact Or.inr ⟨⟨count, hlt⟩, rfl, ‹_›⟩
      · cases hnone

/-- A worker whose task is in no call has no task and has been told nothing. -/
theorem PoolInv.idle_free (h : PoolInv s) (hstill : s.Still bound) {w : Fin n}
    (hidle : s.calls (.task w) = .idle) (hctl : s.ctl ≠ .notify w) :
    busy (s.workers w) = 0 ∧ (∀ t, ¬ (s.workers w).Has t) ∧
      (s.ctl.posted w = true → (s.workers w).pc = .exited) := by
  obtain ⟨-, hw⟩ := h.handshake.worker w
  rcases h.idle_still hstill hidle with hpc | hpc | ⟨hpc, hsem⟩
  · simp only [hpc] at hw
    exact ⟨by simp [busy, hw.2.1], by simp [Worker.Has, hpc, hw.2.2.1], by simp [hw.1, ControllerPc.posted]⟩
  · simp only [hpc] at hw
    exact ⟨by simp [busy, hw.2.1], by simp [Worker.Has, hpc, hw.2.2.1], fun _ => hpc⟩
  · simp only [hpc, hsem] at hw
    obtain ⟨-, ⟨hst, hnone⟩ | ⟨hst, -⟩, htokens⟩ := hw
    · refine ⟨by simp [busy, hst], by simp [Worker.Has, hpc, hnone], fun hposted => ?_⟩
      simp [tokens, hposted] at htokens
    · simp [tokens, hst, hctl] at htokens
      omega

/-- **Where no thread of the pool goes on, the pool is jammed** by the tasks that are in a call. -/
theorem PoolInv.jammed_of_still (h : PoolInv s) (hstill : s.Still bound) (hjoin : s.shut = .join)
    (hend : s.ctl ≠ .ended) : Jammed s := by
  have hcontroller := h.controller_still hstill (h.closed_of_join hjoin) hend
  have hnotify : ∀ w, s.ctl ≠ .notify w := by
    rcases hcontroller with ⟨t, hctl, -⟩ | ⟨v, hctl, -⟩ <;> simp [hctl]
  -- while the controller waits for a free worker, the task of every worker is in a call
  have hheld : ∀ t, s.ctl = .poolSem t → s.Held fun w => s.calls (.task w) ≠ .idle := by
    intro t hctl
    have hsem : s.poolSem = 0 := by
      rcases hcontroller with ⟨-, -, hsem⟩ | ⟨v, hjoin, -⟩
      · exact hsem
      · rw [hctl] at hjoin
        cases hjoin
    refine ⟨⟨t, hctl⟩, fun w hidle => ?_⟩
    have hfree := (h.idle_free hstill hidle (hnotify w)).1
    have hmissed := tally_add_missed busy_le s.workers
    have hall := h.handshake.pool
    simp only [hctl, ControllerPc.inFlight, Fintype.card_fin] at hall hmissed
    have hone := zero_of_tally_eq_zero (w := fun d => 1 - busy d) (f := s.workers) (by omega) w
    omega
  -- when it joins them, it has left no task behind
  have hempty : (∃ v : Fin n, s.ctl = .join v) → s.tskQ.elems = [] ∧ s.ctl.hand = none := by
    rintro ⟨v, hctl⟩
    exact ⟨(h.queue.left (by rw [hctl]; rfl)).2, by rw [hctl]; rfl⟩
  refine ⟨hjoin, fun w => s.calls (.task w) ≠ .idle, ?_, fun w hbusy => ?_⟩
  · rcases hcontroller with ⟨t, hctl, -⟩ | ⟨v, hctl, hexit⟩
    · exact Or.inr (hheld t hctl)
    · refine Or.inl ⟨v, fun hidle => hexit ?_⟩
      exact (h.idle_free hstill hidle (hnotify v)).2.2 (by rw [hctl]; rfl)
  · rcases h.call_still hstill hbusy with hasks | ⟨hfull, hasks⟩ | ⟨t, hcall, hsem⟩
    · exact .pool hasks
    · refine .place hfull hasks ?_
      rcases hcontroller with ⟨u, hctl, -⟩ | ⟨v, hctl, -⟩
      · exact Or.inr (hheld u hctl)
      · exact Or.inl (hempty ⟨v, hctl⟩).1
    · refine .wait t hcall ⟨hsem, fun v hhas hidle => ?_, fun hq => ?_⟩
      · exact (h.idle_free hstill hidle (hnotify v)).2.1 t hhas
      · rcases hcontroller with ⟨u, hctl, -⟩ | ⟨v, hctl, -⟩
        · exact hheld u hctl
        · obtain ⟨helems, hhand⟩ := hempty ⟨v, hctl⟩
          simp [helems, hhand] at hq

end Progress

/-- **A shutdown deadlocks only where it is jammed.** Whatever the tasks of a pool call, a state
that is not jammed is no deadlock of the shutdown; from a jammed one the shutdown never leaves its
join. -/
theorem deadlock_only_jammed {bound : Nat} {s : Pool n α} (h : Lts.Reachable (system n α bound) s) :
    (¬ Jammed s → ¬ s.Deadlocked bound) ∧
    (Jammed s → ∀ s', Lts.Run (system n α bound) (fun _ _ => True) s s' → s'.shut = .join) := by
  have hinv := poolInv_reachable h
  refine ⟨fun hjam ⟨hjoin, hend, hstill⟩ => ?_, fun hjam s' hrun => hjam.run hinv hrun⟩
  exact hjam (hinv.jammed_of_still hstill hjoin hend)

/-- A shutdown that joins while a task is performed that calls nothing; and one that joins while a task
waits for another one, which it has enqueued and the closed queue has dropped. -/
theorem deadlock_only_jammed_one :
    (∃ s : Pool 1 Unit, Lts.Reachable (system 1 Unit 1) s ∧ s.shut = .join ∧
      (s.workers 0).pc = .performing 1 ∧ ¬ s.Deadlocked 1) ∧
    ∃ s : Pool 1 Unit, Lts.Reachable (system 1 Unit 1) s ∧ s.shut = .join ∧ s.calls (.task 0) = .waitSem 2 ∧
      (s.tsk 2).hist = [] ∧
      ∀ s', Lts.Run (system 1 Unit 1) (fun _ _ => True) s s' → s'.shut = .join := by
  constructor
  · obtain ⟨s, hs, hp⟩ := Lts.exec_of_any (f := Pool.step) (s := csWpInit 1 Unit 1)
      (p := fun s => decide (s.shut = .join ∧ (s.workers 0).pc = .performing 1 ∧
        s.calls (.task 0) = .idle ∧ s.ctl = .dequeueWait))
      (l := [.start, .callEnqueue (.ext 0) (), .call (.ext 0), .create (.ext 0) 1, .call (.ext 0),
        .call (.ext 0), .call (.ext 0), .call (.ext 0), .controller, .controller, .controller,
        .controller, .controller, .controller, .worker 0, .worker 0, .worker 0, .callShutdown,
        .shutdown, .shutdown, .shutdown])
      (by decide +kernel)
    obtain ⟨hjoin, hpc, hidle, hctl⟩ := of_decide_eq_true hp
    have hreach : Lts.Reachable (system 1 Unit 1) s := Lts.exec_reachable rfl hs
    refine ⟨s, hreach, hjoin, hpc, (deadlock_only_jammed hreach).1 ?_⟩
    rintro ⟨-, W, ⟨w, hw⟩ | ⟨⟨t, ht⟩, -⟩, hstuck⟩
    · apply (hstuck w hw).ne_idle
      rw [Subsingleton.elim w 0, hidle]
    · rw [hctl] at ht
      cases ht
  · obtain ⟨s, hs, hp⟩ := Lts.exec_of_any (f := Pool.step) (s := csWpInit 1 Unit 1)
      (p := fun s => decide (s.shut = .join ∧ s.calls (.task 0) = .waitSem 2 ∧ (s.tsk 2).hist = [] ∧
        (s.tsk 2).taskSem = 0 ∧ (s.workers 0).pc = .performing 1 ∧ (s.workers 0).assignedTsk = some 1 ∧
        s.tskQ.elems = [] ∧ s.ctl = .dequeueWait))
      (l := [.start, .callEnqueue (.ext 0) (), .call (.ext 0), .create (.ext 0) 1, .call (.ext 0),
        .call (.ext 0), .call (.ext 0), .call (.ext 0), .controller, .controller, .controller,
        .controller, .controller, .controller, .worker 0, .worker 0, .worker 0,
        .callEnqueue (.task 0) (), .call (.task 0), .callShutdown, .shutdown, .shutdown, .shutdown,
        .create (.task 0) 2, .call (.task 0), .call (.task 0), .call (.task 0), .call (.task 0),
        .callWait (.task 0) 2, .call (.task 0), .call (.task 0)])
      (by decide +kernel)
    obtain ⟨hjoin, hcall, hhist, hsem, hpc, hassigned, helems, hctl⟩ := of_decide_eq_true hp
    have hreach : Lts.Reachable (system 1 Unit 1) s := Lts.exec_reachable rfl hs
    refine ⟨s, hreach, hjoin, hcall, hhist, (deadlock_only_jammed hreach).2 ⟨hjoin, fun _ => True,
      Or.inl ⟨0, trivial⟩, fun w _ => ?_⟩⟩
    rw [Subsingleton.elim w 0]
    refine .wait 2 hcall ⟨hsem, fun _ _ => trivial, fun hq => ?_⟩
    rw [helems, hctl] at hq
    simp [ControllerPc.hand] at hq

/-- The shutdown joins the controller, which joins the only worker, whose task waits in
`cs_wp_get_status` for the shutdown to release the pool mutex. -/
theorem shutdown_deadlocks : ∃ s : Pool 1 Unit,
    Lts.Reachable (system 1 Unit 1) s ∧ s.Deadlocked 1 := by
  obtain ⟨s, hs, hp⟩ := Lts.exec_of_any (f := Pool.step) (s := csWpInit 1 Unit 1)
    (p := fun s => decide (s.shut = .join ∧ s.ctl = .join 0 ∧ (s.workers 0).pc = .performing 1 ∧
      s.calls (.task 0) = .getStatus))
    (l := [.start, .callEnqueue (.ext 0) (), .call (.ext 0), .create (.ext 0) 1, .call (.ext 0),
      .call (.ext 0), .call (.ext 0), .call (.ext 0), .controller, .controller, .controller,
      .controller, .controller, .controller, .worker 0, .worker 0, .worker 0, .callShutdown,
      .shutdown, .shutdown, .callGetStatus (.task 0), .shutdown, .controller, .controller,
      .controller, .controller, .controller])
    (by decide +kernel)
  have hstuck := of_decide_eq_true hp
  refine ⟨s, Lts.exec_reachable rfl hs, hstuck.1, by simp [hstuck.2.1],
    Lts.Blocked.of_invariant (I := fun s => s.shut = .join ∧ s.ctl = .join 0 ∧
      (s.workers 0).pc = .performing 1 ∧ s.calls (.task 0) = .getStatus) ?_ hstuck⟩
  intro s a t ⟨hjoin, hctl, hpc, hcall⟩ _ hstep
  obtain ⟨-, e, hstep⟩ := Pool.Step.of_step hstep
  have hholds : s.shut.holds = true := by rw [hjoin]; rfl
  cases hstep with
  | startAgain hfree _ | start hfree _ _ => rw [hholds] at hfree; cases hfree
  | callGetStatus k hidle _ | callEnqueue k x hidle _ | callWait k id hidle _ =>
      cases k with
      | ext j => simp [hjoin, hctl, hpc, hcall, Pool.Action.own]
      | task w => rw [Subsingleton.elim w 0, hcall] at hidle; cases hidle
  | create k u x hidle _ =>
      cases k with
      | ext j => simp [hjoin, hctl, hpc, hcall, Pool.Action.own]
      | task w => rw [Subsingleton.elim w 0, hcall] at hidle; cases hidle
  | callShutdown hsh => rw [hjoin] at hsh; simp at hsh
  | call k hk =>
      cases k with
      | ext j =>
          obtain ⟨-, hothers, hworkers, hctl', -, -, hshut, -⟩ := hk.frame
          rw [hshut, hctl', hworkers, hothers (.task 0) (by simp)]
          exact ⟨⟨hjoin, hctl, hpc, hcall⟩, by simp [Pool.Action.own]⟩
      | task w =>
          rw [Subsingleton.elim w 0] at hk
          cases hk with
          | getStatus _ hfree => rw [hholds] at hfree; cases hfree
          | _ => simp_all
  | worker w hw => exact absurd (Subsingleton.elim w 0 ▸ hpc) (hw.frame.1 1)
  | taskReturn w u _ hidle => rw [Subsingleton.elim w 0, hcall] at hidle; cases hidle
  | controller hc =>
      cases hc with
      | join w _ hexit => rw [Subsingleton.elim w 0, hpc] at hexit; cases hexit
      | ended count hcount hend => rw [hctl] at hcount; cases hcount; omega
      | _ => simp_all
  | shutdown hsh =>
      cases hsh with
      | join _ hend => rw [hctl] at hend; cases hend
      | _ => simp_all

end ComplexSim.Workerpool
