import ComplexSim.Workerpool.Invariant

/-!
# Interrupted waits

A pool in which any `sem_wait` may fail at any time. The branches for it: `cs_queue_dequeue` returns
NULL, which the controller takes for the end of the tasks; the controller and the workers call
`exit(-1)` at their own semaphores; `cs_queue_enqueue` returns -1, and `cs_wp_tsk_enqueue` unlocks
the table and returns -1; `_cs_wp_wait_task_end` returns as if the task had ended.

A controller that leaves its loop by an interrupt has not taken the token of the close. Apart from
that token the pool is then a pool without interrupts (`Pool.spent`), so that the invariant of the
pool carries over.
-/

namespace ComplexSim.Interrupts

open Workerpool

variable {n : Nat} {α : Type}

/-- A pool, and whether the process has called `exit(-1)`. -/
structure State (n : Nat) (α : Type) where
  pool : Pool n α
  exited : Bool

inductive Act (n : Nat) (α : Type) where
  | pool (a : Pool.Action n α)
  /-- the `sem_wait` of the controller fails -/
  | interruptController
  /-- the `sem_wait` of worker `w` fails -/
  | interruptWorker (w : Fin n)
  /-- the `sem_wait` of a caller fails -/
  | interruptCall (k : Caller n)

/-- The controller's `sem_wait` fails, in `cs_queue_dequeue` or at `workerpool_semaphore`. -/
def interruptController (s : State n α) : Option (State n α × PoolEvent n α) :=
  match s.pool.ctl with
  | .dequeueWait => some ({ s with pool := { s.pool with ctl := .sendShutdown 0 } }, .tau)
  | .poolSem _ => some ({ s with exited := true }, .tau)
  | _ => none

/-- The worker's `sem_wait` fails. -/
def interruptWorker (s : State n α) (w : Fin n) : Option (State n α × PoolEvent n α) :=
  match (s.pool.workers w).pc with
  | .semWait => some ({ s with exited := true }, .tau)
  | _ => none

/-- The `sem_wait` of `cs_queue_enqueue` or that of `_cs_wp_wait_task_end` fails. -/
def interruptCall (s : State n α) (k : Caller n) : Option (State n α × PoolEvent n α) :=
  match s.pool.calls k with
  | .enqLimit _ => some ({ s with pool := { s.pool with tableMutex := none }.setCall k .idle }, .enqueueRet k (-1))
  | .waitSem t => some ({ s with pool := s.pool.setCall k .idle }, .waitRet k t)
  | _ => none

/-- What an action does to a running process. -/
def act (s : State n α) : Act n α → Option (State n α × PoolEvent n α)
  | .pool a => (s.pool.stepEvent a).map fun x => ({ s with pool := x.1 }, x.2)
  | .interruptController => interruptController s
  | .interruptWorker w => interruptWorker s w
  | .interruptCall k => interruptCall s k

def stepEvent (s : State n α) (a : Act n α) : Option (State n α × PoolEvent n α) :=
  if s.exited ∨ s.pool.aborted.isSome then none else act s a

def step (s : State n α) (a : Act n α) : Option (State n α) := (stepEvent s a).map Prod.fst

def init (n : Nat) (α : Type) (bound : Nat) : State n α where
  pool := csWpInit n α bound
  exited := false

def system (n : Nat) (α : Type) (bound : Nat) : Lts.System (State n α) (Act n α) :=
  .ofFn (· = init n α bound) step

/-- The controller is in its loop. -/
def InLoop (s : State n α) : Prop :=
  s.exited = false ∧ s.pool.aborted = none ∧ s.pool.ctl ≠ .notCreated ∧ s.pool.ctl.left = false

/-- There will be no more tasks. -/
def Drained (q : CsQueue TskId) : Prop := q.status = .closed ∧ q.elems = []

/-- The code of task `t` has returned. -/
def Returned (p : Pool n α) (t : TskId) : Prop := ∃ w, .returned w ∈ (p.tsk t).hist

/-- The task that a call of `cs_wp_tsk_wait` has found in the table. -/
def foundTsk : CallPc α → Option TskId
  | .waitStatus t | .waitSem t => some t
  | _ => none

/-- A step from `s` to `s'` with event `e` ends neither the pool nor a wait early. -/
structure InTime (s s' : State n α) (e : PoolEvent n α) : Prop where
  loop : InLoop s → ¬ InLoop s' → Drained s.pool.tskQ
  wait : ∀ k t, foundTsk (s.pool.calls k) = some t → (∃ id, e = .waitRet k id) →
    Returned s.pool t ∧ ∀ w, (s.pool.workers w).pc ≠ .performing t

/-- The waits of the controller and of the workers are interrupted only when there will be no more
tasks, and the wait for the end of a task only when its code has returned. -/
def Harmless (s : State n α) : Act n α → Prop
  | .interruptController | .interruptWorker _ => InLoop s → Drained s.pool.tskQ
  | .interruptCall k => ∀ t, s.pool.calls k = .waitSem t → Returned s.pool t
  | .pool _ => True

section Spent

variable {s s' : Pool n α} {a : Pool.Action n α} {e : PoolEvent n α}

/-- The pool with one token of the queue less. -/
def spent (s : Pool n α) : Pool n α := { s with tskQ := { s.tskQ with qsem := s.tskQ.qsem - 1 } }

/-- Nobody reads the token that a controller leaves behind. -/
theorem step_spent (hs : s.Step a s' e) (hleft : s.ctl.left = true) (hclosed : s.tskQ.status = .closed)
    (hshut : s.shut ≠ .close) : (spent s).Step a (spent s') e := by
  cases hs with
  | startAgain hfree hst => exact .startAgain hfree hst
  | start _ _ hc => rw [hc] at hleft; cases hleft
  | callGetStatus k hidle hmay => exact .callGetStatus k hidle hmay
  | callEnqueue k x hidle hmay => exact .callEnqueue k x hidle hmay
  | callWait k id hidle hmay => exact .callWait k id hidle hmay
  | callShutdown hsh => exact .callShutdown hsh
  | call k h =>
      refine .call k ?_
      cases h with
      | getStatus hpc hfree => exact .getStatus hpc hfree
      | refused x hpc hfree hst => exact .refused x hpc hfree hst
      | statusOk x hpc hfree hst => exact .statusOk x hpc hfree hst
      | lockTable t hpc hfree => exact .lockTable t hpc hfree
      | limit t hpc hsem => exact .limit t hpc hsem
      | append t _ hopen => rw [hopen] at hclosed; cases hclosed
      | drop t hpc hq => exact .drop t hpc hq
      | failed t r hpc hneg => exact .failed t r hpc hneg
      | duplicate t r hpc hmem => exact .duplicate t r hpc hmem
      | insert t r hpc hpos hmem => exact .insert t r hpc hpos hmem
      | find t hpc hfree hmem => exact .find t hpc hfree hmem
      | notFound id hpc hfree hmem => exact .notFound id hpc hfree hmem
      | isDone t hpc hst => exact .isDone t hpc hst
      | notDone t hpc hst => exact .notDone t hpc hst
      | waitEnd t hpc hsem => exact .waitEnd t hpc hsem
  | create k t x hpc hlt => exact .create k t x hpc hlt
  | worker w h =>
      refine .worker w ?_
      cases h with
      | wake hpc hsem => exact .wake hpc hsem
      | wokenOk hpc hok => exact .wokenOk hpc hok
      | wokenFail hpc hbad => exact .wokenFail hpc hbad
      | exit hpc hnone hsh => exact .exit hpc hnone hsh
      | takeNone hpc hnone hsh => exact .takeNone hpc hnone hsh
      | take t hpc htsk hst => exact .take t hpc htsk hst
      | takeFail t hpc htsk hst => exact .takeFail t hpc htsk hst
      | release t hpc hst => exact .release t hpc hst
      | releaseFail t hpc hst => exact .releaseFail t hpc hst
      | setDone t hpc => exact .setDone t hpc
      | signalEnd t hpc => exact .signalEnd t hpc
  | taskReturn w t hpc hidle => exact .taskReturn w t hpc hidle
  | controller h =>
      refine .controller ?_
      cases h with
      | sendShutdown w hpc => exact .sendShutdown w hpc
      | allSent count hpc hend => exact .allSent count hpc hend
      | postShutdown w hpc => exact .postShutdown w hpc
      | join w hpc hexit => exact .join w hpc hexit
      | ended count hpc hend => exact .ended count hpc hend
      | dequeueWait hpc _ | leave hpc _ | noHead hpc _ | badSize hpc _ | dequeue _ _ hpc _ | poolSem _ hpc _
      | found _ _ hpc _ | pass _ _ hpc _ | noWorker _ _ hpc _ | assign _ _ hpc | notify _ hpc =>
          rw [hpc] at hleft
          cases hleft
  | shutdown h =>
      refine .shutdown ?_
      cases h with
      | lock hpc => exact .lock hpc
      | nothing hpc hst => exact .nothing hpc hst
      | check hpc hst => exact .check hpc hst
      | close hpc => exact absurd hpc hshut
      | join hpc hend => exact .join hpc hend
      | finish hpc => exact .finish hpc

theorem step_left (hs : s.Step a s' e) (hleft : s.ctl.left = true) : s'.ctl.left = true := by
  cases hs with
  | start _ _ hc => rw [hc] at hleft; cases hleft
  | call k h => rw [h.frame.2.2.2.1]; exact hleft
  | worker w h => rw [h.frame.2.2.2.2.1]; exact hleft
  | controller h =>
      cases h with
      | dequeueWait hpc _ | leave hpc _ | noHead hpc _ | badSize hpc _ | dequeue _ _ hpc _ | poolSem _ hpc _
      | found _ _ hpc _ | pass _ _ hpc _ | noWorker _ _ hpc _ | assign _ _ hpc | notify _ hpc =>
          rw [hpc] at hleft
          cases hleft
      | sendShutdown _ _ | allSent _ _ _ | postShutdown _ _ | join _ _ _ | ended _ _ _ => rfl
  | shutdown h => cases h <;> exact hleft
  | startAgain _ _ | callGetStatus _ _ _ | callEnqueue _ _ _ _ | callWait _ _ _ _ | callShutdown _
  | create _ _ _ _ _ | taskReturn _ _ _ _ => exact hleft

theorem drained_of_null (hq : csQueueDequeue s.tskQ = .null) : Drained s.tskQ := by
  unfold csQueueDequeue at hq
  split at hq
  · split at hq
    · exact ⟨‹_›, ‹_›⟩
    · cases hq
  · simp only at hq
    split at hq <;> cases hq

/-- A step takes the controller out of its loop only by the NULL of a closed and empty queue. -/
theorem step_loop (hs : s.Step a s' e) (hcreated : s.ctl ≠ .notCreated) (hleft : s.ctl.left = false) :
    s'.ctl ≠ .notCreated ∧ (s'.ctl.left = true → Drained s.tskQ) := by
  have hsame : ∀ c : ControllerPc n, c = s.ctl → c ≠ .notCreated ∧ (c.left = true → Drained s.tskQ) := by
    rintro c rfl
    refine ⟨hcreated, fun h => ?_⟩
    rw [hleft] at h
    cases h
  cases hs with
  | start _ _ hc => exact absurd hc hcreated
  | call k h => exact hsame _ h.frame.2.2.2.1
  | worker w h => exact hsame _ h.frame.2.2.2.2.1
  | controller h =>
      cases h with
      | leave _ hq => exact ⟨nofun, fun _ => drained_of_null hq⟩
      | noHead _ _ | badSize _ _ | noWorker _ _ _ _ => exact hsame _ rfl
      | dequeueWait _ _ | dequeue _ _ _ _ | poolSem _ _ _ | found _ _ _ _ | pass _ _ _ _ | assign _ _ _ | notify _ _ =>
          exact ⟨nofun, nofun⟩
      | sendShutdown _ hpc | allSent _ hpc _ | postShutdown _ hpc | join _ hpc _ | ended _ hpc _ =>
          rw [hpc] at hleft
          cases hleft
  | shutdown h => cases h <;> exact hsame _ rfl
  | startAgain _ _ | callGetStatus _ _ _ | callEnqueue _ _ _ _ | callWait _ _ _ _ | callShutdown _
  | create _ _ _ _ _ | taskReturn _ _ _ _ => exact hsame _ rfl

/-- A step of the pool returns from the wait for a task that was found only when its code has returned. -/
theorem step_wait (h : TskInv s.places s.tsk) (hs : s.Step a s' e) {k : Caller n} {t : TskId}
    (hfound : foundTsk (s.calls k) = some t) {id : Int} (he : e = .waitRet k id) : Returned s t := by
  have hover : (s.tsk t).status = .done → Returned s t := by
    intro hdone
    obtain ⟨w, hw⟩ := (h.tsk t).done hdone
    exact ⟨w, by simp [hw]⟩
  cases hs with
  | call k' hc =>
      cases hc with
      | notFound id' hpc _ _ =>
          cases he
          rw [hpc] at hfound
          cases hfound
      | isDone u hpc hst =>
          cases he
          rw [hpc] at hfound
          cases hfound
          exact hover hst
      | waitEnd u hpc hsem =>
          cases he
          rw [hpc] at hfound
          cases hfound
          exact hover ((h.tsk _).sem hsem)
      | getStatus _ _ | refused _ _ _ _ | statusOk _ _ _ _ | lockTable _ _ _ | limit _ _ _ | append _ _ _ | drop _ _ _
      | failed _ _ _ _ | duplicate _ _ _ _ | insert _ _ _ _ _ | find _ _ _ _ | notDone _ _ _ => cases he
  | worker w hw => cases hw <;> cases he
  | shutdown hsh => cases hsh <;> cases he
  | startAgain _ _ | start _ _ _ | callGetStatus _ _ _ | callEnqueue _ _ _ _ | callWait _ _ _ _ | callShutdown _
  | create _ _ _ _ _ | taskReturn _ _ _ _ | controller _ => cases he

/-- A worker that performs a task is not yet back from its code. -/
theorem not_performing (h : TskInv s.places s.tsk) {t : TskId} (hret : Returned s t) (w : Fin n) :
    (s.workers w).pc ≠ .performing t := by
  intro hpc
  have hrun : (s.tsk t).hist = runBy w := ((h.tsk t).run w).1 (by simp [Pool.places, hpc, WorkerPc.stage])
  obtain ⟨v, hv⟩ := hret
  rw [hrun] at hv
  simp at hv

theorem abandon_calls {c : ControllerPc n} {calls : Caller n → CallPc α} {lastId : TskId}
    {tableMutex : Option (Caller n)} {table : List TskId} {tsk : TskId → Tsk n α}
    (h : CallInv c calls lastId tableMutex table tsk) {k : Caller n} {t : TskId} (hpc : calls k = .enqLimit t) :
    CallInv c (Function.update calls k .idle) lastId none table tsk := by
  have hlock : tableMutex = some k := (h.mutex k).1 (by simp [hpc, CallPc.locks])
  have hidle : (CallPc.idle : CallPc α).passed = false := rfl
  constructor <;>
    grind [Function.update_apply, CallInv, CallPc.pending, CallPc.unqueued, CallPc.locks]

/-- An enqueuer that has the table locked gives up. -/
theorem abandon_enqueue (h : PoolInv s) {k : Caller n} {t : TskId} (hpc : s.calls k = .enqLimit t) :
    PoolInv ({ s with tableMutex := none }.setCall k .idle) := by
  refine ⟨h.handshake, h.queue, h.tsks, abandon_calls h.calls hpc, fun w hw => ?_, h.running⟩
  by_cases hk : k = .task w
  · subst hk
    exact h.atTask w (by simp [hpc])
  · refine h.atTask w fun hno => hw ?_
    rw [Pool.setCall_calls, Function.update_of_ne (Ne.symm hk)]
    exact hno

/-- A caller that waits for the end of a task gives up. -/
theorem abandon_wait (h : PoolInv s) {k : Caller n} {t : TskId} (hpc : s.calls k = .waitSem t) :
    PoolInv (s.setCall k .idle) := by
  refine ⟨h.handshake, h.queue, h.tsks, ?_, fun w hw => ?_, h.running⟩
  · refine h.calls.aside (k := k) ?_ ⟨rfl, rfl⟩ fun _ => id
    rw [hpc]
    exact ⟨rfl, rfl⟩
  · by_cases hk : k = .task w
    · subst hk
      exact h.atTask w (by simp [hpc])
    · refine h.atTask w fun hno => hw ?_
      rw [Pool.setCall_calls, Function.update_of_ne (Ne.symm hk)]
      exact hno

/-- The controller of a closed and empty queue leaves its loop without its token. -/
theorem leave_early (h : PoolInv s) (hpc : s.ctl = .dequeueWait) (hdrained : Drained s.tskQ) :
    PoolInv (spent { s with ctl := .sendShutdown 0 }) := by
  obtain ⟨hclosed, helems⟩ := hdrained
  have hsem : 0 < s.tskQ.qsem := by
    have htokens := h.queue.tokens
    rw [hpc, hclosed, helems] at htokens
    simp [ControllerPc.left] at htokens
    omega
  have htaken := h.step (.controller (.dequeueWait hpc hsem))
  exact htaken.step (.controller (.leave rfl (by simp [csQueueDequeue, helems, hclosed])))

end Spent

section Runs

variable {s s' : State n α} {a : Act n α} {e : PoolEvent n α}

/-- Until the process exits the pool has its invariant, apart from a token left behind. -/
def Inv (s : State n α) : Prop :=
  s.exited = false → PoolInv s.pool ∨ s.pool.ctl.left = true ∧ PoolInv (spent s.pool)

theorem step_running (hs : stepEvent s a = some (s', e)) :
    s.exited = false ∧ s.pool.aborted = none ∧ act s a = some (s', e) := by
  unfold stepEvent at hs
  split at hs
  · cases hs
  · rename_i hno
    rw [not_or] at hno
    exact ⟨Bool.eq_false_iff.2 hno.1, Option.not_isSome_iff_eq_none.1 hno.2, hs⟩

theorem pool_cases {b : Pool.Action n α} (hs : stepEvent s (.pool b) = some (s', e)) :
    s.pool.Step b s'.pool e ∧ s'.exited = false := by
  obtain ⟨⟨p, e'⟩, hstep, heq⟩ := Option.map_eq_some_iff.1 (step_running hs).2.2
  cases heq
  exact ⟨(Pool.Step.of hstep).2, (step_running hs).1⟩

theorem controller_cases (hs : stepEvent s .interruptController = some (s', e)) :
    e = .tau ∧ (s.pool.ctl = .dequeueWait ∧ s' = { s with pool := { s.pool with ctl := .sendShutdown 0 } } ∨
      s' = { s with exited := true }) := by
  have heq := (step_running hs).2.2
  simp only [act, interruptController] at heq
  split at heq <;> cases heq
  · exact ⟨rfl, Or.inl ⟨‹_›, rfl⟩⟩
  · exact ⟨rfl, Or.inr rfl⟩

theorem worker_cases {w : Fin n} (hs : stepEvent s (.interruptWorker w) = some (s', e)) :
    e = .tau ∧ s' = { s with exited := true } := by
  have heq := (step_running hs).2.2
  simp only [act, interruptWorker] at heq
  split at heq <;> cases heq
  exact ⟨rfl, rfl⟩

theorem call_cases {k : Caller n} (hs : stepEvent s (.interruptCall k) = some (s', e)) :
    (∃ t, s.pool.calls k = .enqLimit t ∧ e = .enqueueRet k (-1) ∧
        s' = { s with pool := { s.pool with tableMutex := none }.setCall k .idle }) ∨
      ∃ t : TskId, s.pool.calls k = .waitSem t ∧ e = .waitRet k t ∧ s' = { s with pool := s.pool.setCall k .idle } := by
  have heq := (step_running hs).2.2
  simp only [act, interruptCall] at heq
  split at heq <;> cases heq
  · exact Or.inl ⟨_, ‹_›, rfl, rfl⟩
  · exact Or.inr ⟨_, ‹_›, rfl, rfl⟩

theorem spent_step {p p' : Pool n α} {b : Pool.Action n α} (h : PoolInv (spent p)) (hleft : p.ctl.left = true)
    (hs : p.Step b p' e) : PoolInv (spent p') := by
  have hclosed : p.tskQ.status = .closed := (h.queue.left hleft).1
  have hshut : p.shut ≠ .close := by
    intro hclose
    have hlife : Life p.status p.tskQ.status p.ctl p.shut := h.queue.life
    rw [hclosed, hclose] at hlife
    cases hst : p.status <;> simp [hst, Life] at hlife
  exact h.step (step_spent hs hleft hclosed hshut)

theorem step_inv (h : Inv s) (hok : Harmless s a) (hs : stepEvent s a = some (s', e)) : Inv s' := by
  have hinv := h (step_running hs).1
  intro hexit
  cases a with
  | pool b =>
      obtain ⟨hstep, -⟩ := pool_cases hs
      rcases hinv with hpool | ⟨hleft, hspent⟩
      · exact Or.inl (hpool.step hstep)
      · exact Or.inr ⟨step_left hstep hleft, spent_step hspent hleft hstep⟩
  | interruptController =>
      obtain ⟨-, ⟨hpc, rfl⟩ | rfl⟩ := controller_cases hs
      · rcases hinv with hpool | ⟨hleft, -⟩
        · have hin : InLoop s := ⟨hexit, hpool.running, by simp [hpc], by simp [hpc, ControllerPc.left]⟩
          exact Or.inr ⟨rfl, leave_early hpool hpc (hok hin)⟩
        · rw [hpc] at hleft
          cases hleft
      · cases hexit
  | interruptWorker w =>
      obtain ⟨-, rfl⟩ := worker_cases hs
      cases hexit
  | interruptCall k =>
      rcases call_cases hs with ⟨t, hpc, -, rfl⟩ | ⟨t, hpc, -, rfl⟩
      · rcases hinv with hpool | ⟨hleft, hspent⟩
        · exact Or.inl (abandon_enqueue hpool hpc)
        · exact Or.inr ⟨hleft, abandon_enqueue hspent hpc⟩
      · rcases hinv with hpool | ⟨hleft, hspent⟩
        · exact Or.inl (abandon_wait hpool hpc)
        · exact Or.inr ⟨hleft, abandon_wait hspent hpc⟩

theorem harmless_inv {bound : Nat} (h : Lts.ReachableIf (system n α bound) Harmless s) : Inv s := by
  apply h.invariant (I := Inv)
  · intro s hs
    rw [show s = init n α bound from hs]
    exact fun _ => Or.inl (.init bound)
  · intro s a s' hi hok hs
    obtain ⟨⟨s'', e⟩, hevent, rfl⟩ := Option.map_eq_some_iff.1 hs
    exact step_inv hi hok hevent

theorem Inv.tsks (h : Inv s) (hexit : s.exited = false) : TskInv s.pool.places s.pool.tsk := by
  rcases h hexit with hpool | ⟨-, hspent⟩
  · exact hpool.tsks
  · exact hspent.tsks

theorem pool_in_time (h : Inv s) {b : Pool.Action n α} (hs : stepEvent s (.pool b) = some (s', e)) : InTime s s' e := by
  have hexit := (step_running hs).1
  obtain ⟨hstep, hexit'⟩ := pool_cases hs
  constructor
  · rintro ⟨-, -, hcreated, hleft⟩ hout
    rcases h hexit with hpool | ⟨hleft', -⟩
    · obtain ⟨hcreated', hdrained⟩ := step_loop hstep hcreated hleft
      by_contra hno
      exact hout ⟨hexit', (hpool.step hstep).running, hcreated', Bool.eq_false_iff.2 fun hl => hno (hdrained hl)⟩
    · rw [hleft] at hleft'
      cases hleft'
  · rintro k t hfound ⟨id, hid⟩
    have htsks := h.tsks hexit
    have hret := step_wait htsks hstep hfound hid
    exact ⟨hret, not_performing htsks hret⟩

theorem call_in_time (h : Inv s) {k : Caller n} (hs : stepEvent s (.interruptCall k) = some (s', e)) :
    InTime s s' e ↔ Harmless s (.interruptCall k) := by
  have htsks := h.tsks (step_running hs).1
  have hsame : s'.exited = s.exited ∧ s'.pool.aborted = s.pool.aborted ∧ s'.pool.ctl = s.pool.ctl := by
    rcases call_cases hs with ⟨t, -, -, rfl⟩ | ⟨t, -, -, rfl⟩ <;> exact ⟨rfl, rfl, rfl⟩
  have hloop : InLoop s → InLoop s' := by
    rintro ⟨h₁, h₂, h₃, h₄⟩
    rw [← hsame.1] at h₁
    rw [← hsame.2.1] at h₂
    rw [← hsame.2.2] at h₃ h₄
    exact ⟨h₁, h₂, h₃, h₄⟩
  rcases call_cases hs with ⟨t, hpc, rfl, -⟩ | ⟨t, hpc, rfl, -⟩
  · constructor
    · intro _ u hu
      rw [hpc] at hu
      cases hu
    · intro _
      refine ⟨fun hin hout => absurd (hloop hin) hout, ?_⟩
      rintro k' u _ ⟨id, hid⟩
      cases hid
  · constructor
    · intro hin u hu
      obtain rfl : t = u := by
        rw [hpc] at hu
        cases hu
        rfl
      exact (hin.wait k t (by rw [hpc]; rfl) ⟨t, rfl⟩).1
    · intro hok
      refine ⟨fun hin hout => absurd (hloop hin) hout, ?_⟩
      rintro k' u hfound ⟨id, hid⟩
      cases hid
      rw [hpc] at hfound
      cases hfound
      have hret := hok _ hpc
      exact ⟨hret, not_performing htsks hret⟩

/-- An interrupt that ends the loop. -/
theorem ends_in_time (hout : ¬ InLoop s') :
    InTime s s' .tau ↔ (InLoop s → Drained s.pool.tskQ) := by
  constructor
  · intro hin hloop
    exact hin.loop hloop hout
  · intro hok
    refine ⟨fun hloop _ => hok hloop, ?_⟩
    rintro k t _ ⟨id, hid⟩
    cases hid

end Runs

/-- **Interrupted waits end nothing early**, exactly when no wait of the controller or of a worker is
interrupted while there may be more tasks, and no wait for a task before its code has returned. -/
theorem interrupts_in_time {bound : Nat} {s s' : State n α} {a : Act n α} {e : PoolEvent n α}
    (h : Lts.ReachableIf (system n α bound) Harmless s) (hs : stepEvent s a = some (s', e)) :
    InTime s s' e ↔ Harmless s a := by
  have hinv := harmless_inv h
  cases a with
  | pool b => exact ⟨fun _ => trivial, fun _ => pool_in_time hinv hs⟩
  | interruptController =>
      obtain ⟨rfl, ⟨-, rfl⟩ | rfl⟩ := controller_cases hs
      · exact ends_in_time fun hin => by cases hin.2.2.2
      · exact ends_in_time fun hin => by cases hin.1
  | interruptWorker w =>
      obtain ⟨rfl, rfl⟩ := worker_cases hs
      exact ends_in_time fun hin => by cases hin.1
  | interruptCall k => exact call_in_time hinv hs

/-- A pool of one worker with a task, and a caller that waits for it. -/
def waited (worker : List (Act 1 Unit)) : List (Act 1 Unit) :=
  ([.start, .callEnqueue (.ext 0) (), .call (.ext 0), .create (.ext 0) 1, .call (.ext 0), .call (.ext 0), .call (.ext 0),
    .call (.ext 0), .controller, .controller, .controller, .controller, .controller, .controller, .worker 0, .worker 0,
    .worker 0, .callWait (.ext 1) 1, .call (.ext 1), .call (.ext 1)] : List (Pool.Action 1 Unit)).map .pool ++ worker

def isPool : Act n α → Bool
  | .pool _ => true
  | _ => false

theorem harmless_of_isPool (s : State n α) (a : Act n α) (ha : isPool a = true) : Harmless s a := by
  cases a with
  | pool b => trivial
  | interruptController | interruptWorker w | interruptCall k => cases ha

/-- The wait for the end of a task is interrupted when the code of the task has returned. -/
theorem interrupts_in_time_late : ∃ (s s' : State 1 Unit) (e : PoolEvent 1 Unit),
    Lts.ReachableIf (system 1 Unit 1) Harmless s ∧ s.pool.calls (.ext 1) = .waitSem 1 ∧
      stepEvent s (.interruptCall (.ext 1)) = some (s', e) ∧ InTime s s' e := by
  obtain ⟨s, hs, hp⟩ := Lts.exec_of_any (f := Lts.guarded (fun _ a => isPool a = true) step) (s := init 1 Unit 1)
    (p := fun s => decide (s.pool.calls (.ext 1) = .waitSem 1 ∧ .returned 0 ∈ (s.pool.tsk 1).hist ∧
      (stepEvent s (.interruptCall (.ext 1))).isSome = true))
    (l := waited [.pool (.taskReturn 0)]) (by decide +kernel)
  obtain ⟨hcall, hret, hsome⟩ := of_decide_eq_true hp
  have hreach : Lts.ReachableIf (system 1 Unit 1) Harmless s :=
    Lts.ReachableIf.mono harmless_of_isPool ⟨_, rfl, Lts.exec_guarded_run hs⟩
  obtain ⟨⟨s', e⟩, hstep⟩ := Option.isSome_iff_exists.1 hsome
  refine ⟨s, s', e, hreach, hcall, hstep, (interrupts_in_time hreach hstep).2 fun t ht => ?_⟩
  rw [hcall] at ht
  cases ht
  exact ⟨0, hret⟩

/-- An interrupt takes the controller of an open queue out of its loop; another ends the wait for a task
while its code runs. -/
theorem interrupts_end_early :
    (∃ s s' : State 1 Unit, Lts.Reachable (system 1 Unit 1) s ∧
      stepEvent s .interruptController = some (s', .tau) ∧ s'.pool.ctl.left = true ∧ s.pool.tskQ.status = .opened ∧
      ¬ InTime s s' .tau) ∧
    ∃ s s' : State 1 Unit, Lts.Reachable (system 1 Unit 1) s ∧ (s.pool.workers 0).pc = .performing 1 ∧
      stepEvent s (.interruptCall (.ext 1)) = some (s', .waitRet (.ext 1) 1) ∧ ¬ InTime s s' (.waitRet (.ext 1) 1) := by
  constructor
  · obtain ⟨s, hs, hp⟩ := Lts.exec_of_any (f := step) (s := init 1 Unit 1) (l := [.pool .start])
      (p := fun s => decide (s.exited = false ∧ s.pool.aborted = none ∧ s.pool.ctl = .dequeueWait ∧
        s.pool.tskQ.status = .opened)) (by decide +kernel)
    obtain ⟨hexit, hrun, hctl, hopen⟩ := of_decide_eq_true hp
    refine ⟨s, { s with pool := { s.pool with ctl := .sendShutdown 0 } }, Lts.exec_reachable rfl hs, ?_, rfl, hopen, ?_⟩
    · simp [stepEvent, act, interruptController, hexit, hrun, hctl]
    · intro hin
      have hdrained := hin.loop ⟨hexit, hrun, by simp [hctl], by simp [hctl, ControllerPc.left]⟩
        fun hloop => by cases hloop.2.2.2
      exact absurd hdrained.1 (by simp [hopen])
  · obtain ⟨s, hs, hp⟩ := Lts.exec_of_any (f := step) (s := init 1 Unit 1) (l := waited [])
      (p := fun s => decide (s.exited = false ∧ s.pool.aborted = none ∧ s.pool.calls (.ext 1) = .waitSem 1 ∧
        (s.pool.workers 0).pc = .performing 1)) (by decide +kernel)
    obtain ⟨hexit, hrun, hcall, hpc⟩ := of_decide_eq_true hp
    refine ⟨s, { s with pool := s.pool.setCall (.ext 1) .idle }, Lts.exec_reachable rfl hs, hpc, ?_, fun hin => ?_⟩
    · simp [stepEvent, act, interruptCall, hexit, hrun, hcall]
    · exact (hin.wait (.ext 1) 1 (by rw [hcall]; rfl) ⟨1, rfl⟩).2 0 hpc

end ComplexSim.Interrupts
