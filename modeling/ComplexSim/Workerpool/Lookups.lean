import ComplexSim.Workerpool.Progress

/-!
# Look-ups while the queue is full

`cs_wp_tsk_enqueue` keeps the task table locked while it waits for a place in the queue. A task that
looks up the result of another needs the table: in `cs_wp_tsk_wait`, and once more in
`cs_wp_tsk_get_res` after its wait. The tasks of this module call these two on tasks that are done;
what the copy of a result holds is not part of it. The outside threads enqueue.

When the queue is full, the controller holds a task that it has no worker for, the enqueuer that has
the table locked waits for the controller, and the task of every worker waits for the table
(`Cornered`), no thread of the pool ever goes on.
-/

namespace ComplexSim.Lookups

open Workerpool

variable {n : Nat} {α : Type}

/-- Where a task is in `cs_wp_tsk_get_res`. -/
inductive ResPc where
  | out
  /-- in its call of `cs_wp_tsk_wait` -/
  | wait (id : Int)
  /-- before the look-up of the result -/
  | fetch (id : Int)
  deriving DecidableEq

/-- A pool and its tasks' calls of `cs_wp_tsk_get_res`. -/
structure State (n : Nat) (α : Type) where
  pool : Pool n α
  res : Fin n → ResPc

inductive Label (n : Nat) (α : Type) where
  | pool (a : Pool.Action n α)
  /-- the task of worker `w` calls `cs_wp_tsk_get_res` -/
  | callGetRes (w : Fin n) (id : Int)
  /-- the section of `cs_wp_tsk_get_res` on the table -/
  | fetch (w : Fin n)

/-- The worker whose task begins a call, or returns. -/
def turn : Pool.Action n α → Option (Fin n)
  | .callGetStatus (.task w) | .callEnqueue (.task w) _ | .callWait (.task w) _ | .taskReturn w => some w
  | _ => none

/-- `cs_wp_tsk_get_res` goes on when its `cs_wp_tsk_wait` has returned. -/
def ResPc.after : ResPc → CallPc α → ResPc
  | .wait id, .idle => .fetch id
  | r, _ => r

/-- The pool has made a step, and is `p`. -/
@[simps]
def State.next (s : State n α) (p : Pool n α) : State n α where
  pool := p
  res := fun w => (s.res w).after (p.calls (.task w))

def step (s : State n α) : Label n α → Option (State n α)
  | .pool a =>
      if (turn a).any fun w => s.res w ≠ .out then none
      else (s.pool.step a).map s.next
  | .callGetRes w id =>
      if s.res w = .out then
        (s.pool.step (.callWait (.task w) id)).map fun p => { pool := p, res := Function.update s.res w (.wait id) }
      else none
  | .fetch w =>
      match s.res w with
      | .fetch _ =>
          if s.pool.tableMutex = none ∧ s.pool.aborted = none then some { s with res := Function.update s.res w .out }
          else none
      | _ => none

def init (n : Nat) (α : Type) (bound : Nat) : State n α where
  pool := csWpInit n α bound
  res := fun _ => .out

def system (n : Nat) (α : Type) (bound : Nat) : Lts.System (State n α) (Label n α) :=
  .ofFn (· = init n α bound) step

/-- Task `id` is done. -/
def DoneId (p : Pool n α) (id : Int) : Prop := 0 ≤ id ∧ (p.tsk id.toNat).status = .done

/-- Tasks wait for and get the results of tasks that are done, outside threads enqueue, and nobody shuts
the pool down. -/
def Allowed (s : State n α) : Label n α → Prop
  | .pool (.callWait (.task _) id) | .callGetRes _ id => DoneId s.pool id
  | .pool (.callWait (.ext _) _) | .pool (.callEnqueue (.task _) _) | .pool (.callGetStatus _) | .pool .callShutdown
  | .pool .shutdown => False
  | .pool .start | .pool (.callEnqueue (.ext _) _) | .pool (.call _) | .pool (.create _ _) | .pool (.worker _)
  | .pool (.taskReturn _) | .pool .controller | .fetch _ => True

/-- A step of a worker or its task, of the controller, or of an enqueuer that has made its task
record. -/
def Moves (s : State n α) : Label n α → Prop
  | .pool (.call (.ext k)) => (s.pool.calls (.ext k)).pending.isSome = true
  | .pool (.call (.task _)) | .pool (.worker _) | .pool (.taskReturn _) | .pool .controller
  | .pool (.callWait (.task _) _) | .callGetRes _ _ | .fetch _ => True
  | .pool (.callWait (.ext _) _) | .pool (.callEnqueue _ _) | .pool (.callGetStatus _) | .pool .callShutdown
  | .pool .shutdown | .pool .start | .pool (.create _ _) => False

/-- There is an unfinished task, and workers, controller and enqueuers are blocked for ever. -/
def Stuck (bound : Nat) (s : State n α) : Prop :=
  (∃ t, s.pool.Unfinished t) ∧
    ∀ s', Lts.Run (system n α bound) Allowed s s' → ∀ l s'', Allowed s' l → Moves s' l → step s' l ≠ some s''

/-- The task of worker `w` waits for the table. -/
def AsksTable (s : State n α) (w : Fin n) : Prop :=
  (∃ id, s.pool.calls (.task w) = .waitFind id) ∨ ∃ id, s.res w = .fetch id

/-- The queue is full, and the controller waits for a worker. -/
def Full (p : Pool n α) : Prop := p.tskQ.qlimitSem = 0 ∧ ∃ t, p.ctl = .poolSem t

/-- An outside enqueuer that has locked the table asks for a place in the queue. -/
def Holding (p : Pool n α) : Prop := ∃ k t, p.calls (.ext k) = .enqLimit t

def Cornered (s : State n α) : Prop := Full s.pool ∧ Holding s.pool ∧ ∀ w, AsksTable s w

/-- The step does not complete a corner: no enqueuer locks the table, and no task begins to ask for
it, when all the others are in their place. -/
def Free (s : State n α) : Label n α → Prop
  | .pool (.call (.ext k)) => (∃ t, s.pool.calls (.ext k) = .enqTable t) → ¬ (Full s.pool ∧ ∀ w, AsksTable s w)
  | .pool (.callWait (.task w) _) | .callGetRes w _ => ¬ (Full s.pool ∧ Holding s.pool ∧ ∀ v, v ≠ w → AsksTable s v)
  | .pool (.call (.task w)) =>
      (∃ id t, s.res w = .wait id ∧ s.pool.calls (.task w) = .waitStatus t) →
        ¬ (Full s.pool ∧ Holding s.pool ∧ ∀ v, v ≠ w → AsksTable s v)
  | _ => True

section Pools

variable {s s' : Pool n α} {a : Pool.Action n α} {e : PoolEvent n α}

/-- A task that is done stays so. -/
theorem done_mono (h : PoolInv s) (hs : s.Step a s' e) {t : TskId} (hdone : (s.tsk t).status = .done) :
    (s'.tsk t).status = .done := by
  have hset : ∀ {u : TskId} {d : Tsk n α}, (u = t → d.status = .done) → (Function.update s.tsk u d t).status = .done := by
    intro u d hd
    by_cases hut : t = u
    · subst hut
      rw [Function.update_self]
      exact hd rfl
    · rw [Function.update_of_ne hut]
      exact hdone
  cases hs with
  | create k u x hpc hlt =>
      refine hset fun hut => ?_
      obtain ⟨w, hw⟩ := (h.tsks.tsk t).done hdone
      rw [← hut, (h.calls.unused u hlt).1] at hw
      cases hw
  | call k hk =>
      cases hk with
      | append u _ _ | waitEnd u _ _ => exact hset fun hut => hut ▸ hdone
      | getStatus _ _ | refused _ _ _ _ | statusOk _ _ _ _ | lockTable _ _ _ | limit _ _ _ | drop _ _ _
      | failed _ _ _ _ | duplicate _ _ _ _ | insert _ _ _ _ _ | find _ _ _ _ | notFound _ _ _ _ | isDone _ _ _
      | notDone _ _ _ => exact hdone
  | worker w hw =>
      cases hw with
      | take u _ _ _ | signalEnd u _ => exact hset fun hut => hut ▸ hdone
      | setDone u _ => exact hset fun _ => rfl
      | wake _ _ | wokenOk _ _ | wokenFail _ _ | exit _ _ _ | takeNone _ _ _ | takeFail _ _ _ _ | release _ _ _
      | releaseFail _ _ _ => exact hdone
  | taskReturn w u _ _ => exact hset fun hut => hut ▸ hdone
  | controller hc =>
      cases hc with
      | dequeue u _ _ _ | assign u _ _ => exact hset fun hut => hut ▸ hdone
      | dequeueWait _ _ | leave _ _ | noHead _ _ | badSize _ _ | poolSem _ _ _ | found _ _ _ _ | pass _ _ _ _
      | noWorker _ _ _ _ | notify _ _ | sendShutdown _ _ | allSent _ _ _ | postShutdown _ _ | join _ _ _ | ended _ _ _ =>
          exact hdone
  | shutdown hsh => cases hsh <;> exact hdone
  | startAgain _ _ | start _ _ _ | callGetStatus _ _ _ | callEnqueue _ _ _ _ | callWait _ _ _ _ | callShutdown _ =>
      exact hdone

/-- A worker performs its task until the task returns. -/
theorem performing_keep (h : PoolInv s) (hs : s.Step a s' e) {w : Fin n} {t : TskId}
    (hpc : (s.workers w).pc = .performing t) (ha : a ≠ .taskReturn w) : (s'.workers w).pc = .performing t := by
  cases hs with
  | start _ _ hc =>
      obtain ⟨-, hw⟩ := h.handshake.worker w
      rw [hpc] at hw
      exact absurd hc hw.1
  | worker v hv =>
      have hne : w ≠ v := by
        rintro rfl
        exact hv.frame.1 t hpc
      rw [hv.frame.2.1 w hne]
      exact hpc
  | taskReturn v u _ _ =>
      have hne : w ≠ v := by
        rintro rfl
        exact ha rfl
      simpa [hne] using hpc
  | controller hc => rw [hc.frame.1]; exact hpc
  | call k hk => rw [hk.frame.2.2.1]; exact hpc
  | shutdown hsh => cases hsh <;> exact hpc
  | startAgain _ _ | callGetStatus _ _ _ | callEnqueue _ _ _ _ | callWait _ _ _ _ | callShutdown _ | create _ _ _ _ _ =>
      exact hpc

end Pools

/-- Where the call of a task can be. -/
def LooksUp (p : Pool n α) : CallPc α → Prop
  | .idle => True
  | .waitFind id => DoneId p id
  | .waitStatus t => (p.tsk t).status = .done
  | _ => False

/-- `cs_wp_tsk_get_res` and the wait inside it. -/
def Fits (pc : WorkerPc) (c : CallPc α) : ResPc → Prop
  | .out => True
  | .wait _ => c ≠ .idle
  | .fetch _ => c = .idle ∧ ∃ t, pc = .performing t

structure Inv (bound : Nat) (s : State n α) : Prop where
  pool : PoolInv s.pool
  capacity : Capacity bound s.pool
  opened : s.pool.tskQ.status = .opened
  shut : s.pool.shut = .idle
  calls : ∀ w, LooksUp s.pool (s.pool.calls (.task w))
  res : ∀ w, Fits (s.pool.workers w).pc (s.pool.calls (.task w)) (s.res w)

section Steps

variable {bound : Nat} {s s' : State n α} {l : Label n α} {p : Pool n α} {a : Pool.Action n α} {e : PoolEvent n α}

theorem LooksUp.mono {p p' : Pool n α} {c : CallPc α} (h : LooksUp p c)
    (hdone : ∀ t, (p.tsk t).status = .done → (p'.tsk t).status = .done) : LooksUp p' c := by
  cases c with
  | idle => trivial
  | waitFind id => exact ⟨h.1, hdone _ h.2⟩
  | waitStatus t => exact hdone t h
  | getStatus | enqStatus _ | enqCreate _ | enqTable _ | enqLimit _ | enqQueue _ | enqInsert _ _ | waitSem _ => exact h

/-- Without a shutdown the queue stays open. -/
theorem step_opened (hs : s.pool.Step a p e) (hok : Allowed s (.pool a)) (hopen : s.pool.tskQ.status = .opened)
    (hshut : s.pool.shut = .idle) : p.tskQ.status = .opened ∧ p.shut = .idle := by
  cases hs with
  | call k hk =>
      obtain ⟨-, -, -, -, -, -, hsame, hstatus⟩ := hk.frame
      exact ⟨hstatus.trans hopen, hsame.trans hshut⟩
  | worker w hw =>
      obtain ⟨-, -, -, hq, -, -, hsame, -⟩ := hw.frame
      exact ⟨by rw [hq]; exact hopen, hsame.trans hshut⟩
  | controller hc =>
      obtain ⟨-, -, -, hstatus, hsame, -⟩ := hc.frame
      exact ⟨hstatus.trans hopen, hsame.trans hshut⟩
  | callShutdown _ | shutdown _ => exact hok.elim
  | startAgain _ _ | start _ _ _ | callGetStatus _ _ _ | callEnqueue _ _ _ _ | callWait _ _ _ _ | create _ _ _ _ _
  | taskReturn _ _ _ _ => exact ⟨hopen, hshut⟩

/-- What the call of a task of the pool becomes. -/
theorem step_calls (h : Inv bound s) (hs : s.pool.Step a p e) (hok : Allowed s (.pool a)) (w : Fin n) :
    LooksUp p (p.calls (.task w)) := by
  have hdone := fun t => done_mono h.pool hs (t := t)
  have hsame : p.calls (.task w) = s.pool.calls (.task w) → LooksUp p (p.calls (.task w)) := by
    intro heq
    rw [heq]
    exact (h.calls w).mono hdone
  cases hs with
  | callEnqueue k x _ _ =>
      cases k with
      | ext j => exact hsame (by simp)
      | task v => exact hok.elim
  | callWait k id _ _ =>
      cases k with
      | ext j => exact hok.elim
      | task v =>
          by_cases hvw : w = v
          · subst hvw
            show LooksUp _ (Function.update s.pool.calls (.task w) _ (.task w))
            rw [Function.update_self]
            exact hok
          · exact hsame (by simp [hvw])
  | call k hk =>
      by_cases hkw : Caller.task w = k
      · subst hkw
        have hcall := h.calls w
        cases hk with
        | find t hpc _ _ =>
            rw [hpc] at hcall
            show LooksUp _ (Function.update s.pool.calls (.task w) _ (.task w))
            rw [Function.update_self]
            exact hcall.2
        | notFound id hpc _ _ | isDone t hpc _ =>
            show LooksUp _ (Function.update s.pool.calls (.task w) _ (.task w))
            rw [Function.update_self]
            trivial
        | notDone t hpc hno =>
            rw [hpc] at hcall
            exact absurd hcall hno
        | getStatus hpc _ | refused _ hpc _ _ | statusOk _ hpc _ _ | lockTable _ hpc _ | limit _ hpc _ | append _ hpc _
        | drop _ hpc _ | failed _ _ hpc _ | duplicate _ _ hpc _ | insert _ _ hpc _ _ | waitEnd _ hpc _ =>
            rw [hpc] at hcall
            exact hcall.elim
      · exact hsame (hk.frame.2.1 _ hkw)
  | create k t x hpc _ =>
      by_cases hkw : Caller.task w = k
      · subst hkw
        have hcall := h.calls w
        rw [hpc] at hcall
        exact hcall.elim
      · exact hsame (by simp [hkw])
  | worker v hv => exact hsame (by rw [hv.frame.2.2.1])
  | controller hc => exact hsame (by rw [hc.frame.2.1])
  | callGetStatus _ _ _ | callShutdown _ | shutdown _ => exact hok.elim
  | startAgain _ _ | start _ _ _ | taskReturn _ _ _ _ => exact hsame rfl

/-- A task that is idle in the pool and has not its turn stays idle. -/
theorem step_idle (hs : s.pool.Step a p e) {w : Fin n} (hidle : s.pool.calls (.task w) = .idle) (hturn : turn a ≠ some w) :
    p.calls (.task w) = .idle := by
  cases hs with
  | callGetStatus k _ _ | callEnqueue k x _ _ | callWait k id _ _ =>
      by_cases hkw : Caller.task w = k
      · subst hkw
        exact absurd rfl hturn
      · simpa [hkw] using hidle
  | call k hk =>
      by_cases hkw : Caller.task w = k
      · subst hkw
        exact absurd hidle hk.frame.1
      · rw [hk.frame.2.1 _ hkw]
        exact hidle
  | create k t x hpc _ =>
      by_cases hkw : Caller.task w = k
      · subst hkw
        rw [hpc] at hidle
        cases hidle
      · simpa [hkw] using hidle
  | worker v hv => rw [hv.frame.2.2.1]; exact hidle
  | controller hc => rw [hc.frame.2.1]; exact hidle
  | shutdown hsh => cases hsh <;> exact hidle
  | startAgain _ _ | start _ _ _ | callShutdown _ | taskReturn _ _ _ _ => exact hidle

theorem step_res (h : Inv bound s) (hs : s.pool.Step a p e) (hturn : ∀ w, turn a = some w → s.res w = .out) (w : Fin n) :
    Fits (p.workers w).pc (p.calls (.task w)) ((s.res w).after (p.calls (.task w))) := by
  have hfits := h.res w
  have hbusy : ∀ t, (s.pool.workers w).pc = .performing t → s.res w ≠ .out → (p.workers w).pc = .performing t := by
    intro t hpc hres
    refine performing_keep h.pool hs hpc ?_
    rintro rfl
    exact hres (hturn w rfl)
  cases hres : s.res w with
  | out => trivial
  | wait id =>
      rw [hres] at hfits
      obtain ⟨t, ht⟩ := h.pool.atTask w hfits
      have hpc := hbusy t ht (by simp [hres])
      cases hcall : p.calls (.task w) with
      | idle => exact ⟨rfl, t, hpc⟩
      | getStatus | enqStatus _ | enqCreate _ | enqTable _ | enqLimit _ | enqQueue _ | enqInsert _ _ | waitFind _
      | waitStatus _ | waitSem _ => exact nofun
  | fetch id =>
      rw [hres] at hfits
      obtain ⟨hidle, t, ht⟩ := hfits
      refine ⟨step_idle hs hidle fun hw => ?_, t, hbusy t ht (by simp [hres])⟩
      rw [hturn w hw] at hres
      cases hres

theorem pool_step (h : Inv bound s) (hs : s.pool.Step a p e) (hok : Allowed s (.pool a))
    (hturn : ∀ w, turn a = some w → s.res w = .out) :
    Inv bound (s.next p) := by
  obtain ⟨hopen, hshut⟩ := step_opened hs hok h.opened h.shut
  exact ⟨h.pool.step hs, h.capacity.step h.pool hs, hopen, hshut, step_calls h hs hok, step_res h hs hturn⟩

/-- The steps of a pool inside the system. -/
theorem pool_cases (hs : step s (.pool a) = some s') :
    (∀ w, turn a = some w → s.res w = .out) ∧ (∃ e, s.pool.Step a s'.pool e) ∧
      s' = s.next s'.pool := by
  simp only [step] at hs
  split at hs
  · cases hs
  · rename_i hno
    obtain ⟨p, hp, rfl⟩ := Option.map_eq_some_iff.1 hs
    refine ⟨fun w hw => ?_, (Pool.Step.of_step hp).2, rfl⟩
    rw [hw] at hno
    simpa using hno

theorem getRes_cases {w : Fin n} {id : Int} (hs : step s (.callGetRes w id) = some s') :
    s.res w = .out ∧ (∃ e, s.pool.Step (.callWait (.task w) id) (s.pool.setCall (.task w) (.waitFind id)) e) ∧
      s' = { pool := s.pool.setCall (.task w) (.waitFind id), res := Function.update s.res w (.wait id) } := by
  simp only [step] at hs
  split at hs
  · obtain ⟨p, hp, rfl⟩ := Option.map_eq_some_iff.1 hs
    obtain ⟨-, e, hstep⟩ := Pool.Step.of_step hp
    cases hstep with
    | callWait _ _ hidle hmay => exact ⟨‹_›, ⟨_, .callWait _ _ hidle hmay⟩, rfl⟩
  · cases hs

theorem fetch_cases {w : Fin n} (hs : step s (.fetch w) = some s') :
    (∃ id, s.res w = .fetch id) ∧ s.pool.tableMutex = none ∧ s' = { s with res := Function.update s.res w .out } := by
  simp only [step] at hs
  split at hs
  · split at hs
    · rename_i hfree
      cases hs
      exact ⟨⟨_, ‹_›⟩, hfree.1, rfl⟩
    · cases hs
  · cases hs

theorem init_inv : Inv bound (init n α bound) where
  pool := .init bound
  capacity := .init
  opened := rfl
  shut := rfl
  calls := fun _ => trivial
  res := fun _ => trivial

theorem step_inv (h : Inv bound s) (hok : Allowed s l) (hs : step s l = some s') : Inv bound s' := by
  cases l with
  | pool a =>
      obtain ⟨hturn, ⟨e, hstep⟩, heq⟩ := pool_cases hs
      rw [heq]
      exact pool_step h hstep hok hturn
  | callGetRes w id =>
      obtain ⟨hout, ⟨e, hstep⟩, rfl⟩ := getRes_cases hs
      have hcallOk : Allowed s (.pool (.callWait (.task w) id)) := hok
      have hinv := pool_step h hstep hcallOk (by
        intro v hv
        cases hv
        exact hout)
      refine ⟨hinv.pool, hinv.capacity, hinv.opened, hinv.shut, hinv.calls, fun v => ?_⟩
      by_cases hvw : v = w
      · subst hvw
        show Fits _ _ (Function.update s.res v _ v)
        rw [Function.update_self]
        simp [Fits]
      · show Fits _ _ (Function.update s.res w _ v)
        have hsame : (s.pool.setCall (.task w) (.waitFind id)).calls (.task v) = s.pool.calls (.task v) := by simp [hvw]
        rw [Function.update_of_ne hvw, hsame]
        exact h.res v
  | fetch w =>
      obtain ⟨-, -, rfl⟩ := fetch_cases hs
      refine ⟨h.pool, h.capacity, h.opened, h.shut, h.calls, fun v => ?_⟩
      by_cases hvw : v = w
      · subst hvw
        show Fits _ _ (Function.update s.res v .out v)
        rw [Function.update_self]
        trivial
      · show Fits _ _ (Function.update s.res w .out v)
        rw [Function.update_of_ne hvw]
        exact h.res v

end Steps

section Going

variable {bound : Nat} {s : State n α}

/-- A worker, its task, the controller or an enqueuer can take a step. -/
def Goes (s : State n α) : Prop := ∃ l s', Allowed s l ∧ Moves s l ∧ step s l = some s'

theorem goes_pool {a : Pool.Action n α} (hturn : turn a = none ∨ ∃ w, turn a = some w ∧ s.res w = .out)
    (hok : Allowed s (.pool a)) (hmoves : Moves s (.pool a)) (hsome : (s.pool.stepEvent a).isSome = true) : Goes s := by
  obtain ⟨⟨p, e⟩, hstep⟩ := Option.isSome_iff_exists.1 hsome
  refine ⟨.pool a, s.next p, hok, hmoves, ?_⟩
  have hno : ((turn a).any fun w => s.res w ≠ .out) = false := by
    rcases hturn with ht | ⟨w, ht, hout⟩
    · rw [ht]
      rfl
    · simp [ht, hout]
  simp only [step, hno, Bool.false_eq_true, if_false, Pool.step, hstep, Option.map_some]

theorem goes_call (h : Inv bound s) {k : Caller n} (hok : Allowed s (.pool (.call k))) (hmoves : Moves s (.pool (.call k)))
    (hsome : (s.pool.callStep k).isSome = true) : Goes s :=
  goes_pool (Or.inl rfl) hok hmoves (by rwa [Pool.stepEvent_call h.pool.running])

/-- A busy worker goes on, unless its task waits for the table. -/
theorem worker_goes (h : Inv bound s) {w : Fin n} (hbusy : busy (s.pool.workers w) = 1)
    (hnotify : s.pool.ctl ≠ .notify w) : Goes s ∨ AsksTable s w := by
  rcases h.pool.busy_steps hbusy hnotify with hstep | ⟨t, hpc⟩
  · exact Or.inl (goes_pool (a := .worker w) (Or.inl rfl) trivial trivial
      (by rwa [Pool.stepEvent_worker h.pool.running]))
  · have hcall := h.calls w
    have hfits := h.res w
    cases hc : s.pool.calls (.task w) with
    | idle =>
        cases hres : s.res w with
        | out =>
            refine Or.inl (goes_pool (a := .taskReturn w) (Or.inr ⟨w, rfl, hres⟩) trivial trivial ?_)
            simp [Pool.stepEvent_taskReturn h.pool.running, Pool.taskReturn, hpc, hc]
        | wait id =>
            rw [hres] at hfits
            exact absurd hc hfits
        | fetch id => exact Or.inr (Or.inr ⟨id, hres⟩)
    | waitFind id => exact Or.inr (Or.inl ⟨id, hc⟩)
    | waitStatus u =>
        rw [hc] at hcall
        have hdone : (s.pool.tsk u).status = .done := hcall
        exact Or.inl (goes_call h (k := .task w) trivial trivial (by simp [Pool.callStep, hc, hdone]))
    | getStatus | enqStatus _ | enqCreate _ | enqTable _ | enqLimit _ | enqQueue _ | enqInsert _ _ | waitSem _ =>
        rw [hc] at hcall
        exact hcall.elim

/-- A task that waits for the table gets it, or an enqueuer that has it waits for a place. -/
theorem table_goes (h : Inv bound s) {w : Fin n} (hask : AsksTable s w) :
    Goes s ∨ ∃ k t, s.pool.tableMutex = some (.ext k) ∧ s.pool.calls (.ext k) = .enqLimit t ∧ s.pool.tskQ.qlimitSem = 0 := by
  cases hmutex : s.pool.tableMutex with
  | none =>
      refine Or.inl ?_
      rcases hask with ⟨id, hc⟩ | ⟨id, hres⟩
      · refine goes_call h (k := .task w) trivial trivial ?_
        simp only [Pool.callStep, hc, hmutex]
        split
        · contradiction
        · split <;> rfl
      · exact ⟨.fetch w, { s with res := Function.update s.res w .out }, trivial, trivial,
          by simp [step, hres, hmutex, h.pool.running]⟩
  | some k =>
      obtain ⟨hpending, hstep⟩ := h.pool.holder_steps hmutex
      cases k with
      | task v =>
          have hlocks := (h.pool.calls.mutex (.task v)).2 hmutex
          have hcall := h.calls v
          cases hc : s.pool.calls (.task v) <;> rw [hc] at hlocks hcall <;>
            first | exact hcall.elim | cases hlocks
      | ext k =>
          rcases hstep with hsome | ⟨⟨t, ht⟩, hfull⟩
          · exact Or.inl (goes_call h (k := .ext k) trivial hpending hsome)
          · exact Or.inr ⟨k, t, rfl, ht, hfull⟩

/-- While there is an unfinished task and no corner, some thread goes on. -/
theorem goes (h : Inv bound s) (hn : 0 < n) {t : TskId} (ht : s.pool.Unfinished t) (hno : ¬ Cornered s) : Goes s := by
  have hbound : 0 < bound := h.capacity.used t (List.ne_nil_of_mem ht.1)
  have hplace := h.pool.unfinished_at ht
  have hcreated : s.pool.ctl ≠ .notCreated := by
    intro hctl
    rcases hplace with hin | hhand | ⟨w, hw⟩
    · rw [h.capacity.fresh hctl] at hin
      cases hin
    · rw [hctl] at hhand
      cases hhand
    · exact h.pool.created_of_busy (h.pool.busy_of_unfinished hw) hctl
  rcases h.pool.controller_steps h.opened hcreated with hstep | ⟨hctl, hempty⟩ | ⟨hctl, hsem⟩
  · exact goes_pool (a := .controller) (Or.inl rfl) trivial trivial (by rwa [Pool.stepEvent_controller h.pool.running])
  · -- the queue is empty: a worker has the task, and the queue has places
    obtain ⟨w, hw⟩ : ∃ w, (s.pool.workers w).given = some t ∨ (s.pool.workers w).pc = .performing t := by
      rcases hplace with hin | hhand | hw
      · rw [hempty] at hin
        cases hin
      · rw [hctl] at hhand
        cases hhand
      · exact hw
    rcases worker_goes h (h.pool.busy_of_unfinished hw) (by simp [hctl]) with hgo | hask
    · exact hgo
    · rcases table_goes h hask with hgo | ⟨k, u, hlock, hcall, hfull⟩
      · exact hgo
      · have hasked := h.capacity.asked h.opened hlock hcall
        rw [hfull, hempty] at hasked
        simp at hasked
        omega
  · -- every worker has a task
    by_cases hall : ∀ w, AsksTable s w
    · rcases table_goes h (hall ⟨0, hn⟩) with hgo | ⟨k, u, -, hcall, hfull⟩
      · exact hgo
      · exact absurd ⟨⟨hfull, hctl⟩, ⟨k, u, hcall⟩, hall⟩ hno
    · obtain ⟨w, hw⟩ := not_forall.1 hall
      obtain ⟨u, hu⟩ := hctl
      exact (worker_goes h (h.pool.all_busy ⟨u, hu⟩ hsem w) (by simp [hu])).resolve_right hw

end Going

end ComplexSim.Lookups
