import ComplexSim.Workerpool.Restart

/-!
# What a sequence of calls comes to

On a pool that performs no task there is only one thing that a sequence of calls can come to
(`expected`): as long as nothing is enqueued, or the queue has no place for it, all ids are -1, and a
shutdown finds the workers at rest. This holds of a new pool as of one that is started again (`Calm`).
The two differ as soon as a task is accepted.
-/

namespace ComplexSim.Restart

open Workerpool

variable {n : Nat} {α : Type}

/-- What is to be seen of a sequence on a pool that accepts no task. -/
def expected : PoolStatus → List (Op α) → List (Outcome α)
  | _, [] => []
  | st, .wait _ :: ops => .waited :: expected st ops
  | st, .getRes _ :: ops => .result none :: expected st ops
  | _, .shutdown :: ops => .shutDown 0 :: expected .ready ops
  | .ready, .enqueue _ :: ops => .enqueued false :: expected .ready ops
  -- the caller waits for a place for ever
  | .working, .enqueue _ :: _ => []

/-- What is still to be seen. -/
def owed (s : Session n α) : List (Outcome α) :=
  match s.cur with
  | .out => expected s.pool.status s.ops
  | .enqueue => if s.pool.status = .ready then .enqueued false :: expected .ready s.ops else []
  | .wait => .waited :: expected s.pool.status s.ops
  | .getRes _ | .fetch _ => .result none :: expected s.pool.status s.ops
  | .shutdown => .shutDown 0 :: expected .ready s.ops

/-- A worker that has never been given a task in this life. -/
structure Unused (d : Worker) : Prop where
  assigned : d.assignedTsk = none
  pc : d.pc = .semWait ∨ d.pc = .woken ∨ d.pc = .takeTask ∨ d.pc = .exited
  flag : 0 < d.waitingSem ∨ d.pc = .woken ∨ d.pc = .takeTask → d.shutdown = true

/-- A pool that works without a task. -/
structure Taskless (s : Pool n α) : Prop where
  empty : s.tskQ.elems = []
  running : s.aborted = none
  worker : ∀ w, Unused (s.workers w)
  ctl : s.ctl = .dequeueWait ∨ s.ctl = .dequeue ∨ s.ctl.left = true
  tokens : 0 < s.tskQ.qsem ∨ s.ctl = .dequeue → s.tskQ.status = .closed
  left : s.ctl.left = true → s.tskQ.status = .closed
  posted : ∀ w, s.ctl.posted w = true → (s.workers w).pc = .semWait → 0 < (s.workers w).waitingSem
  flagged : ∀ w, s.ctl.flagged w = true → (s.workers w).shutdown = true
  post : ∀ count, s.ctl = .postShutdown count → count < n
  closing : s.shut = .join → s.tskQ.status = .closed ∧ (s.ctl = .dequeueWait → 0 < s.tskQ.qsem)

/-- Nobody shuts the pool down, and nobody is in a section under the table mutex. -/
def AtRest (s : Pool n α) : Prop := (s.shut = .idle ∨ s.shut = .returned) ∧ s.tableMutex = none

/-- Where the thread `c` is in its call. -/
def Place (c : Nat) (s : Session n α) : Prop :=
  match s.cur with
  | .out => s.pool.calls (.ext c) = .idle ∧ AtRest s.pool
  | .wait => s.pool.calls (.ext c) = .waitFind (-1) ∧ AtRest s.pool
  | .getRes id => id = -1 ∧ s.pool.calls (.ext c) = .waitFind (-1) ∧ AtRest s.pool
  | .fetch id => id = -1 ∧ s.pool.calls (.ext c) = .idle ∧ AtRest s.pool
  | .enqueue =>
      (∃ x, s.pool.calls (.ext c) = .enqStatus x) ∧ AtRest s.pool ∨
        s.pool.status = .working ∧ (s.pool.shut = .idle ∨ s.pool.shut = .returned) ∧
          ((∃ x, s.pool.calls (.ext c) = .enqCreate x) ∨ ∃ t, s.pool.calls (.ext c) = .enqTable t ∨
            s.pool.calls (.ext c) = .enqLimit t)
  | .shutdown =>
      s.pool.calls (.ext c) = .idle ∧ s.pool.tableMutex = none ∧
        (s.pool.shut = .lock ∨ s.pool.shut = .check ∨
          s.pool.status = .working ∧ (s.pool.shut = .close ∨ s.pool.shut = .join ∨ s.pool.shut = .finish))

/-- Nothing will be enqueued before the pool is shut down. -/
def Shuts (s : Session n α) : Prop :=
  s.pool.status = .ready ∨ s.cur = .shutdown ∨ late s.ops = true ∧ s.cur ≠ .enqueue

/-- What is owed at `s` is what has been seen since, and what is owed at `s'`. -/
structure Kept (s s' : Session n α) : Prop where
  owed : s'.trace ++ Restart.owed s' = s.trace ++ Restart.owed s
  shuts : Shuts s' ↔ Shuts s

structure Calm (c : Nat) (s : Session n α) : Prop where
  pool : Taskless s.pool
  others : ∀ k, k ≠ .ext c → enqueues (s.pool.calls k) = false
  ids : ∀ i ∈ s.ids, i = -1
  place : Place c s
  room : s.pool.tskQ.qlimitSem = 0 ∨ Shuts s

section Pools

variable {s s' : Pool n α} {e : PoolEvent n α}

theorem Taskless.dequeue (h : Taskless s) (hpc : s.ctl = .dequeue) : csQueueDequeue s.tskQ = .null :=
  spent_dequeue (h.tokens (Or.inr hpc)) h.empty

/-- A change of the records of the workers, the place of the controller and the semaphore of the queue. -/
theorem Taskless.setWorker (h : Taskless s) {w : Fin n} {d : Worker} (hd : Unused d)
    (hposted : s.ctl.posted w = true → d.pc = .semWait → 0 < d.waitingSem)
    (hflag : s.ctl.flagged w = true → d.shutdown = true) : Taskless (s.setWorker w d) := by
  have hupdate : ∀ {P : Fin n → Worker → Prop}, P w d → (∀ v, P v (s.workers v)) →
      ∀ v, P v ((s.setWorker w d).workers v) := by
    intro P hw hothers v
    by_cases hv : v = w
    · subst hv
      simpa using hw
    · simpa [hv] using hothers v
  exact ⟨h.empty, h.running, hupdate (P := fun _ d => Unused d) hd h.worker, h.ctl, h.tokens, h.left,
    hupdate (P := fun v d => s.ctl.posted v = true → d.pc = .semWait → 0 < d.waitingSem) hposted h.posted,
    hupdate (P := fun v d => s.ctl.flagged v = true → d.shutdown = true) hflag h.flagged, h.post, h.closing⟩

theorem Taskless.workerStep (h : Taskless s) {w : Fin n} (hs : s.WorkerStep w s' e) : Taskless s' ∧ e = .tau := by
  obtain ⟨hnone, hpc', hflag⟩ := h.worker w
  have hflagged := h.flagged w
  cases hs with
  | wake hpc hsem =>
      have hset : (s.workers w).shutdown = true := hflag (Or.inl hsem)
      exact ⟨h.setWorker ⟨hnone, by simp, fun _ => hset⟩ (fun _ => nofun) fun _ => hset, rfl⟩
  | wokenOk hpc _ =>
      have hset : (s.workers w).shutdown = true := hflag (Or.inr (Or.inl hpc))
      exact ⟨h.setWorker ⟨hnone, by simp, fun _ => hset⟩ (fun _ => nofun) fun _ => hset, rfl⟩
  | wokenFail hpc hbad => exact absurd (Or.inl (hflag (Or.inr (Or.inl hpc)))) hbad
  | exit hpc _ hset => exact ⟨h.setWorker ⟨hnone, by simp, fun _ => hset⟩ (fun _ => nofun) fun _ => hset, rfl⟩
  | takeNone hpc _ hset =>
      rw [hflag (Or.inr (Or.inr hpc))] at hset
      cases hset
  | take t _ htsk _ | takeFail t _ htsk _ =>
      rw [hnone] at htsk
      cases htsk
  | release t hpc _ | releaseFail t hpc _ | setDone t hpc | signalEnd t hpc => simp [hpc] at hpc'

/-- The controller moves on after its main loop. -/
theorem Taskless.setCtl (h : Taskless s) {c : ControllerPc n} (hclosed : s.tskQ.status = .closed) (hleft : c.left = true)
    (hposted : ∀ w, c.posted w = true → (s.workers w).pc = .semWait → 0 < (s.workers w).waitingSem)
    (hflagged : ∀ w, c.flagged w = true → (s.workers w).shutdown = true)
    (hpost : ∀ count, c = .postShutdown count → count < n) : Taskless { s with ctl := c } := by
  refine ⟨h.empty, h.running, h.worker, Or.inr (Or.inr hleft), fun _ => hclosed, fun _ => hclosed, hposted, hflagged, hpost,
    fun _ => ⟨hclosed, ?_⟩⟩
  rintro rfl
  cases hleft

theorem Taskless.controllerStep (h : Taskless s) (hs : s.ControllerStep s') : Taskless s' := by
  have hposted := h.posted
  have hflagged := h.flagged
  have hleft := h.left
  cases hs with
  | dequeueWait hpc hsem =>
      have hclosed := h.tokens (Or.inl hsem)
      exact ⟨h.empty, h.running, h.worker, by simp, fun _ => hclosed, fun _ => hclosed, by simp [ControllerPc.posted],
        by simp [ControllerPc.flagged], by simp, fun _ => ⟨hclosed, by simp⟩⟩
  | leave hpc _ =>
      exact h.setCtl (h.tokens (Or.inr hpc)) rfl (by simp [ControllerPc.posted]) (by simp [ControllerPc.flagged]) (by simp)
  | noHead hpc hq | badSize hpc hq | dequeue _ _ hpc hq =>
      rw [h.dequeue hpc] at hq
      cases hq
  | poolSem t hpc _ | found t w hpc _ | pass t w hpc _ | noWorker t _ hpc _ | assign t w hpc | notify w hpc =>
      have hctl := h.ctl
      simp [hpc, ControllerPc.left] at hctl
  | sendShutdown w hpc =>
      rw [hpc] at hposted hflagged hleft
      have hflag : Taskless (s.setWorker w { s.workers w with shutdown := true }) :=
        h.setWorker ⟨(h.worker w).assigned, (h.worker w).pc, fun _ => rfl⟩ (h.posted w) fun _ => rfl
      refine hflag.setCtl (c := .postShutdown w) (hleft rfl) rfl (fun v hv => ?_) (fun v hv => ?_) fun count hc => ?_
      · refine hflag.posted v ?_
        show s.ctl.posted v = true
        rw [hpc]
        exact hv
      · by_cases hvw : v = w
        · subst hvw
          simp
        · have hlt : v < w := lt_of_le_of_ne (by simpa [ControllerPc.flagged] using hv) hvw
          refine hflag.flagged v ?_
          show s.ctl.flagged v = true
          rw [hpc]
          simpa [ControllerPc.flagged] using hlt
      · cases hc
        exact w.isLt
  | allSent count hpc hend =>
      rw [hpc] at hposted hflagged hleft
      have hall : ∀ w : Fin n, w.val < count := fun w => w.isLt.trans_le (not_lt.1 hend)
      exact h.setCtl (hleft rfl) rfl (fun w _ => hposted w (by simp [ControllerPc.posted, hall w]))
        (fun w _ => hflagged w (by simp [ControllerPc.flagged, hall w])) (by simp)
  | postShutdown w hpc =>
      rw [hpc] at hposted hflagged hleft
      have hset : (s.workers w).shutdown = true := hflagged w (by simp [ControllerPc.flagged])
      have hpost : Taskless (s.setWorker w { s.workers w with waitingSem := (s.workers w).waitingSem + 1 }) :=
        h.setWorker ⟨(h.worker w).assigned, (h.worker w).pc, fun _ => hset⟩ (fun _ _ => Nat.succ_pos _) fun _ => hset
      refine hpost.setCtl (c := .sendShutdown (w + 1)) (hleft rfl) rfl (fun v hv => ?_) (fun v hv => ?_) (by simp)
      · by_cases hvw : v = w
        · subst hvw
          simp
        · have hle : v ≤ w := by simpa [ControllerPc.posted, Nat.lt_succ_iff] using hv
          refine hpost.posted v ?_
          show s.ctl.posted v = true
          rw [hpc]
          simpa [ControllerPc.posted] using lt_of_le_of_ne hle hvw
      · refine hpost.flagged v ?_
        show s.ctl.flagged v = true
        rw [hpc]
        simpa [ControllerPc.flagged, Nat.lt_succ_iff] using hv
  | join w hpc _ | ended count hpc _ =>
      rw [hpc] at hposted hflagged hleft
      exact h.setCtl (hleft rfl) rfl hposted hflagged (by simp)

theorem Taskless.congr (h : Taskless s) (hq : s'.tskQ = s.tskQ) (hworkers : s'.workers = s.workers) (hctl : s'.ctl = s.ctl)
    (haborted : s'.aborted = s.aborted) (hshut : s'.shut = .join → s.shut = .join) : Taskless s' := by
  refine ⟨by rw [hq]; exact h.empty, haborted.trans h.running, by rw [hworkers]; exact h.worker, by rw [hctl]; exact h.ctl,
    by rw [hq, hctl]; exact h.tokens, by rw [hq, hctl]; exact h.left, by rw [hworkers, hctl]; exact h.posted,
    by rw [hworkers, hctl]; exact h.flagged, by rw [hctl]; exact h.post, fun hjoin => ?_⟩
  rw [hq, hctl]
  exact h.closing (hshut hjoin)

/-- A step of a call that does not enqueue. -/
theorem quiet_call {k : Caller n} (hk : enqueues (s.calls k) = false) (hs : s.CallStep k s' e) :
    s'.tskQ = s.tskQ ∧ s'.aborted = s.aborted ∧ s'.tableMutex = s.tableMutex ∧ enqueues (s'.calls k) = false ∧
      (e = .tau ∨ (∃ st, e = .statusRet k st) ∨ ∃ id, e = .waitRet k id) := by
  cases hs with
  | refused _ hpc _ _ | statusOk _ hpc _ _ | lockTable _ hpc _ | limit _ hpc _ | append _ hpc _ | drop _ hpc _
  | failed _ _ hpc _ | duplicate _ _ hpc _ | insert _ _ hpc _ _ =>
      rw [hpc] at hk
      cases hk
  | getStatus _ _ | find _ _ _ _ | notFound _ _ _ _ | isDone _ _ _ | notDone _ _ _ | waitEnd _ _ _ =>
      refine ⟨rfl, rfl, rfl, ?_, by simp⟩
      show enqueues (Function.update s.calls k _ k) = false
      rw [Function.update_self]
      rfl

end Pools

section Sessions

variable {c : Nat} {s s' : Session n α} {p : Pool n α} {e : PoolEvent n α} {l : Label n α}

theorem Calm.id (h : Calm c s) (j : Nat) : s.id j = -1 := by
  unfold Session.id
  rw [List.getD_eq_getElem?_getD]
  cases hj : s.ids[j]? with
  | none => rfl
  | some i => exact h.ids i (List.mem_of_getElem? hj)

theorem Place.congr (h : Place c s) (hcall : p.calls (.ext c) = s.pool.calls (.ext c)) (hshut : p.shut = s.pool.shut)
    (hmutex : p.tableMutex = s.pool.tableMutex) (hst : p.status = s.pool.status) : Place c { s with pool := p } := by
  unfold Place at h ⊢
  simp only [AtRest, hcall, hshut, hmutex, hst] at h ⊢
  exact h

/-- A step of a thread of the pool, or of another caller. -/
theorem Calm.keep (h : Calm c s) (hp : Taskless p) (hcall : p.calls (.ext c) = s.pool.calls (.ext c))
    (hothers : ∀ k, k ≠ .ext c → enqueues (p.calls k) = false) (hq : p.tskQ.qlimitSem = s.pool.tskQ.qlimitSem)
    (hst : p.status = s.pool.status) (hshut : p.shut = s.pool.shut) (hmutex : p.tableMutex = s.pool.tableMutex) :
    Calm c { s with pool := p } ∧ Kept s { s with pool := p } := by
  have hshuts : Shuts { s with pool := p } ↔ Shuts s := by simp only [Shuts, hst]
  refine ⟨⟨hp, hothers, h.ids, h.place.congr hcall hshut hmutex hst, ?_⟩, ?_, hshuts⟩
  · rw [hshuts]
    exact h.room.imp_left fun hroom => hq.trans hroom
  · simp only [Restart.owed, hst]

theorem Calm.worker (h : Calm c s) {w : Fin n} (hs : s.pool.WorkerStep w p e) :
    Calm c (s.see c p e) ∧ Kept s (s.see c p e) := by
  obtain ⟨hp, rfl⟩ := h.pool.workerStep hs
  obtain ⟨-, -, hcalls, hq, -, hst, hshut, -, hmutex, -⟩ := hs.frame
  exact h.keep hp (by rw [hcalls]) (by rw [hcalls]; exact h.others) (by rw [hq]) hst hshut hmutex

theorem controller_limit (h : Taskless s.pool) (hs : s.pool.ControllerStep p) :
    p.tskQ.qlimitSem = s.pool.tskQ.qlimitSem := by
  cases hs with
  | dequeue _ _ hpc hq =>
      rw [h.dequeue hpc] at hq
      cases hq
  | dequeueWait _ _ | leave _ _ | noHead _ _ | badSize _ _ | poolSem _ _ _ | found _ _ _ _ | pass _ _ _ _
  | noWorker _ _ _ _ | assign _ _ _ | notify _ _ | sendShutdown _ _ | allSent _ _ _ | postShutdown _ _ | join _ _ _
  | ended _ _ _ => rfl

theorem Calm.controller (h : Calm c s) (hs : s.pool.ControllerStep p) :
    Calm c (s.see c p .tau) ∧ Kept s (s.see c p .tau) := by
  obtain ⟨-, hcalls, hst, -, hshut, -, hmutex, -⟩ := hs.frame
  exact h.keep (h.pool.controllerStep hs) (by rw [hcalls]) (by rw [hcalls]; exact h.others) (controller_limit h.pool hs) hst
    hshut hmutex

theorem Calm.other (h : Calm c s) {k : Caller n} (hk : k ≠ .ext c) (hs : s.pool.CallStep k p e) :
    Calm c (s.see c p e) ∧ Kept s (s.see c p e) := by
  obtain ⟨hq, haborted, hmutex, hafter, he⟩ := quiet_call (h.others k hk) hs
  obtain ⟨-, hothers, hworkers, hctl, -, hst, hshut, -⟩ := hs.frame
  have hsee : s.see c p e = { s with pool := p } := by
    rcases he with rfl | ⟨st, rfl⟩ | ⟨id, rfl⟩
    · rfl
    · rfl
    · cases k with
      | task w => rfl
      | ext j =>
          have hj : j ≠ c := by
            rintro rfl
            exact hk rfl
          simp [Session.see, hj]
  rw [hsee]
  have hp : Taskless p := h.pool.congr hq hworkers hctl haborted fun hjoin => hshut ▸ hjoin
  refine h.keep hp (hothers _ (Ne.symm hk)) (fun k' hk' => ?_) (by rw [hq]) hst hshut hmutex
  by_cases hkk : k' = k
  · subst hkk
    exact hafter
  · rw [hothers k' hkk]
    exact h.others k' hk'

/-- A step of the thread itself. -/
theorem Calm.own (h : Calm c s) {x : CallPc α} (hp : Taskless s'.pool)
    (hcalls : s'.pool.calls = Function.update s.pool.calls (.ext c) x) (hids : ∀ i ∈ s'.ids, i = -1) (hplace : Place c s')
    (hroom : s'.pool.tskQ.qlimitSem = 0 ∨ Shuts s') : Calm c s' := by
  refine ⟨hp, fun k hk => ?_, hids, hplace, hroom⟩
  rw [hcalls, Function.update_of_ne hk]
  exact h.others k hk

theorem Taskless.setCall {s : Pool n α} (h : Taskless s) (k : Caller n) (x : CallPc α) : Taskless (s.setCall k x) :=
  h.congr rfl rfl rfl rfl fun hj => hj

theorem lookup_step {s s' : Pool n α} {k : Caller n} (hpc : s.calls k = .waitFind (-1)) (hs : s.CallStep k s' e) :
    s' = s.setCall k .idle ∧ e = .waitRet k (-1) := by
  cases hs with
  | notFound id hpc' _ _ =>
      rw [hpc] at hpc'
      cases hpc'
      exact ⟨rfl, rfl⟩
  | find t hpc' _ _ =>
      rw [hpc] at hpc'
      simp only [CallPc.waitFind.injEq] at hpc'
      omega
  | getStatus hpc' _ | refused _ hpc' _ _ | statusOk _ hpc' _ _ | lockTable _ hpc' _ | limit _ hpc' _ | append _ hpc' _
  | drop _ hpc' _ | failed _ _ hpc' _ | duplicate _ _ hpc' _ | insert _ _ hpc' _ _ | isDone _ hpc' _ | notDone _ hpc' _
  | waitEnd _ hpc' _ =>
      rw [hpc] at hpc'
      cases hpc'

theorem status_step {s s' : Pool n α} {k : Caller n} {x : α} (hpc : s.calls k = .enqStatus x) (hs : s.CallStep k s' e) :
    (s.status = .ready ∧ s' = s.setCall k .idle ∧ e = .enqueueRet k (-1)) ∨
      (s.status = .working ∧ s' = s.setCall k (.enqCreate x) ∧ e = .tau) := by
  cases hs with
  | refused y hpc' _ hst =>
      cases hstatus : s.status with
      | ready => exact Or.inl ⟨rfl, rfl, rfl⟩
      | working => exact absurd hstatus hst
  | statusOk y hpc' _ hst =>
      rw [hpc] at hpc'
      cases hpc'
      exact Or.inr ⟨hst, rfl, rfl⟩
  | getStatus hpc' _ | find _ hpc' _ _ | notFound _ hpc' _ _ | lockTable _ hpc' _ | limit _ hpc' _ | append _ hpc' _
  | drop _ hpc' _ | failed _ _ hpc' _ | duplicate _ _ hpc' _ | insert _ _ hpc' _ _ | isDone _ hpc' _ | notDone _ hpc' _
  | waitEnd _ hpc' _ =>
      rw [hpc] at hpc'
      cases hpc'

/-- Where an enqueuer goes that has passed the status check, on a queue without places. -/
theorem table_step {s s' : Pool n α} {k : Caller n} (hroom : s.tskQ.qlimitSem = 0)
    (hpc : (∃ x, s.calls k = .enqCreate x) ∨ ∃ t, s.calls k = .enqTable t ∨ s.calls k = .enqLimit t)
    (hs : s.CallStep k s' e) :
    ∃ t, s' = { s with tableMutex := some k }.setCall k (.enqLimit t) ∧ e = .tau := by
  cases hs with
  | lockTable t _ _ => exact ⟨t, rfl, rfl⟩
  | limit t _ hsem => omega
  | getStatus hpc' _ | find _ hpc' _ _ | notFound _ hpc' _ _ | refused _ hpc' _ _ | statusOk _ hpc' _ _ | append _ hpc' _
  | drop _ hpc' _ | failed _ _ hpc' _ | duplicate _ _ hpc' _ | insert _ _ hpc' _ _ | isDone _ hpc' _ | notDone _ hpc' _
  | waitEnd _ hpc' _ => simp [hpc'] at hpc

theorem Calm.blocked (h : Calm c s) (hcur : s.cur = .enqueue) (hst : s.pool.status = .working) : s.pool.tskQ.qlimitSem = 0 := by
  rcases h.room with hroom | hready | hshut | ⟨-, hne⟩
  · exact hroom
  · cases hready.symm.trans hst
  · cases hcur.symm.trans hshut
  · exact absurd hcur hne

/-- A call that neither enqueues nor shuts down returns, or goes on to its look-up. -/
theorem shuts_next (hcur : s.cur ≠ .shutdown) (henq : s.cur ≠ .enqueue) (hst : s'.pool.status = s.pool.status)
    (hops : s'.ops = s.ops) (hcur' : s'.cur ≠ .shutdown) (henq' : s'.cur ≠ .enqueue) : Shuts s' ↔ Shuts s := by
  simp only [Shuts, hst, hops, hcur, henq, hcur', henq', ne_eq]

theorem Calm.callOwn (h : Calm c s) (hs : s.pool.CallStep (.ext c) p e) :
    Calm c (s.see c p e) ∧ Kept s (s.see c p e) := by
  have hplace := h.place
  have hbusy := hs.frame.1
  unfold Place at hplace
  cases hcur : s.cur with
  | out => exact absurd (by rw [hcur] at hplace; exact hplace.1) hbusy
  | fetch id => exact absurd (by rw [hcur] at hplace; exact hplace.2.1) hbusy
  | shutdown => exact absurd (by rw [hcur] at hplace; exact hplace.1) hbusy
  | wait =>
      rw [hcur] at hplace
      obtain ⟨hpc, hrest⟩ := hplace
      obtain ⟨rfl, rfl⟩ := lookup_step hpc hs
      have hsee : s.see c (s.pool.setCall (.ext c) .idle) (.waitRet (.ext c) (-1)) =
          Session.ret { s with pool := s.pool.setCall (.ext c) .idle } .waited := by
        simp [Session.see, hcur]
      rw [hsee]
      have hshuts : Shuts (Session.ret { s with pool := s.pool.setCall (.ext c) .idle } .waited) ↔ Shuts s :=
        shuts_next (by simp [hcur]) (by simp [hcur]) rfl rfl nofun nofun
      refine ⟨h.own (h.pool.setCall _ _) rfl h.ids ⟨Function.update_self _ _ _, hrest⟩ (h.room.imp_right hshuts.2), ?_,
        hshuts⟩
      simp [owed, Session.ret, hcur]
  | getRes id =>
      rw [hcur] at hplace
      obtain ⟨rfl, hpc, hrest⟩ := hplace
      obtain ⟨rfl, rfl⟩ := lookup_step hpc hs
      have hsee : s.see c (s.pool.setCall (.ext c) .idle) (.waitRet (.ext c) (-1)) =
          { s with pool := s.pool.setCall (.ext c) .idle, cur := .fetch (-1) } := by
        simp [Session.see, hcur]
      rw [hsee]
      have hshuts : Shuts { s with pool := s.pool.setCall (.ext c) .idle, cur := .fetch (-1) } ↔ Shuts s :=
        shuts_next (by simp [hcur]) (by simp [hcur]) rfl rfl nofun nofun
      refine ⟨h.own (h.pool.setCall _ _) rfl h.ids ⟨rfl, Function.update_self _ _ _, hrest⟩ (h.room.imp_right hshuts.2),
        ?_, hshuts⟩
      simp [owed, hcur]
  | enqueue =>
      rw [hcur] at hplace
      rcases hplace with ⟨⟨x, hpc⟩, hrest⟩ | ⟨hst, hshut, hpc⟩
      · rcases status_step hpc hs with ⟨hready, rfl, rfl⟩ | ⟨hworking, rfl, rfl⟩
        · have hsee : s.see c (s.pool.setCall (.ext c) .idle) (.enqueueRet (.ext c) (-1)) =
              Session.ret { s with pool := s.pool.setCall (.ext c) .idle, ids := s.ids ++ [-1] } (.enqueued false) := by
            simp [Session.see]
          rw [hsee]
          refine ⟨h.own (h.pool.setCall _ _) rfl (fun i hi => ?_) ⟨Function.update_self _ _ _, hrest⟩
            (Or.inr (Or.inl hready)), ?_, iff_of_true (Or.inl hready) (Or.inl hready)⟩
          · rcases List.mem_append.1 hi with hi | hi
            · exact h.ids i hi
            · exact List.mem_singleton.1 hi
          · simp [owed, Session.ret, hcur, hready]
        · refine ⟨h.own (h.pool.setCall _ _) rfl h.ids ?_ (Or.inl (h.blocked hcur hworking)), ?_, Iff.rfl⟩
          · show Place c { s with pool := s.pool.setCall (.ext c) (.enqCreate x) }
            simp only [Place, hcur]
            exact Or.inr ⟨hworking, hrest.1, Or.inl ⟨x, Function.update_self _ _ _⟩⟩
          · simp [owed, Session.see, hcur]
      · have hroom := h.blocked hcur hst
        obtain ⟨t, rfl, rfl⟩ := table_step hroom hpc hs
        refine ⟨h.own (h.pool.congr rfl rfl rfl rfl fun hj => hj) rfl h.ids ?_ (Or.inl hroom), ?_, Iff.rfl⟩
        · show Place c { s with pool := { s.pool with tableMutex := some (.ext c) }.setCall (.ext c) (.enqLimit t) }
          simp only [Place, hcur]
          exact Or.inr ⟨hst, hshut, Or.inr ⟨t, Or.inr (Function.update_self _ _ _)⟩⟩
        · simp [owed, Session.see, hcur]

theorem Place.unshut (h : Place c s) (hcur : s.cur ≠ .shutdown) : s.pool.shut = .idle ∨ s.pool.shut = .returned := by
  unfold Place at h
  cases hc : s.cur with
  | shutdown => exact absurd hc hcur
  | out => rw [hc] at h; exact h.2.1
  | wait => rw [hc] at h; exact h.2.1
  | getRes id => rw [hc] at h; exact h.2.2.1
  | fetch id => rw [hc] at h; exact h.2.2.1
  | enqueue =>
      rw [hc] at h
      rcases h with ⟨-, hrest⟩ | ⟨-, hshut, -⟩
      · exact hrest.1
      · exact hshut

theorem Calm.shutdown (h : Calm c s) (hs : s.pool.ShutdownStep p e) :
    Calm c (s.see c p e) ∧ Kept s (s.see c p e) := by
  have hcur : s.cur = .shutdown := by
    by_contra hne
    rcases h.place.unshut hne with hshut | hshut <;> cases hs <;> simp_all
  have hplace := h.place
  simp only [Place, hcur] at hplace
  obtain ⟨hidle, hmutex, hshut⟩ := hplace
  have hcalm : ∀ (p : Pool n α), Taskless p → p.calls = s.pool.calls → p.tableMutex = s.pool.tableMutex →
      (p.shut = .lock ∨ p.shut = .check ∨
        p.status = .working ∧ (p.shut = .close ∨ p.shut = .join ∨ p.shut = .finish)) →
      Calm c { s with pool := p } ∧ Kept s { s with pool := p } := by
    intro p hp hcalls hm hwhere
    refine ⟨⟨hp, by rw [hcalls]; exact h.others, h.ids, ?_, Or.inr (Or.inr (Or.inl hcur))⟩, by simp only [owed, hcur],
      iff_of_true (Or.inr (Or.inl hcur)) (Or.inr (Or.inl hcur))⟩
    simp only [Place, hcur, hcalls, hm]
    exact ⟨hidle, hmutex, hwhere⟩
  have hready : ∀ (p : Pool n α), Taskless p → p.calls = s.pool.calls → p.tableMutex = s.pool.tableMutex →
      p.status = .ready → p.shut = .returned → Calm c (Session.ret { s with pool := p } (.shutDown 0)) ∧
        Kept s (Session.ret { s with pool := p } (.shutDown 0)) := by
    intro p hp hcalls hm hst hwhere
    have hothers : ∀ k, k ≠ .ext c → enqueues (p.calls k) = false := by
      rw [hcalls]
      exact h.others
    have hplace : p.calls (.ext c) = .idle ∧ AtRest p := ⟨(congrFun hcalls _).trans hidle, Or.inr hwhere, hm.trans hmutex⟩
    refine ⟨⟨hp, hothers, h.ids, hplace, Or.inr (Or.inl hst)⟩,
      ?_, iff_of_true (Or.inl hst) (Or.inr (Or.inl hcur))⟩
    simp [owed, Session.ret, hcur, hst]
  cases hs with
  | lock _ => exact hcalm _ (h.pool.congr rfl rfl rfl rfl nofun) rfl rfl (Or.inr (Or.inl rfl))
  | nothing _ hst =>
      have hst' : s.pool.status = .ready := by
        cases hst' : s.pool.status with
        | ready => rfl
        | working => exact absurd hst' hst
      exact hready _ (h.pool.congr rfl rfl rfl rfl nofun) rfl rfl hst' rfl
  | check _ hst => exact hcalm _ (h.pool.congr rfl rfl rfl rfl nofun) rfl rfl (Or.inr (Or.inr ⟨hst, Or.inl rfl⟩))
  | close hpc =>
      have hworking : s.pool.status = .working := by simpa [hpc] using hshut
      have hp := h.pool
      refine hcalm _ ⟨hp.empty, hp.running, hp.worker, hp.ctl, fun _ => rfl, fun _ => rfl, hp.posted, hp.flagged, hp.post,
        fun _ => ⟨rfl, fun _ => Nat.succ_pos _⟩⟩ rfl rfl (Or.inr (Or.inr ⟨hworking, Or.inr (Or.inl rfl)⟩))
  | join hpc _ =>
      have hworking : s.pool.status = .working := by simpa [hpc] using hshut
      exact hcalm _ (h.pool.congr rfl rfl rfl rfl nofun) rfl rfl (Or.inr (Or.inr ⟨hworking, Or.inr (Or.inr rfl)⟩))
  | finish _ => exact hready _ (h.pool.congr rfl rfl rfl rfl nofun) rfl rfl rfl rfl

theorem Calm.create (h : Calm c s) {k : Caller n} {t : TskId} {x : α} (hpc : s.pool.calls k = .enqCreate x)
    (hp : p = ({ s.pool with lastId := t }.setTsk t
      { tskCode := some x, status := .waiting, taskSem := 0, hist := [] }).setCall k (.enqTable t)) :
    Calm c (s.see c p .tau) ∧ Kept s (s.see c p .tau) := by
  have hk : k = .ext c := by
    by_contra hne
    have hquiet := h.others k hne
    rw [hpc] at hquiet
    cases hquiet
  subst hk hp
  have hplace := h.place
  have hcur : s.cur = .enqueue := by
    unfold Place at hplace
    cases hcur : s.cur with
    | enqueue => rfl
    | out | wait | shutdown =>
        rw [hcur] at hplace
        cases hpc.symm.trans hplace.1
    | getRes id | fetch id =>
        rw [hcur] at hplace
        cases hpc.symm.trans hplace.2.1
  simp only [Place, hcur] at hplace
  rcases hplace with ⟨⟨y, hy⟩, -⟩ | ⟨hst, hshut, -⟩
  · cases hpc.symm.trans hy
  · have hroom := h.blocked hcur hst
    refine ⟨h.own (x := .enqTable t) (h.pool.congr rfl rfl rfl rfl fun hj => hj) rfl h.ids ?_ (Or.inl hroom), ?_, Iff.rfl⟩
    · simp only [Session.see, Place, hcur]
      exact Or.inr ⟨hst, hshut, Or.inr ⟨t, Or.inl (Function.update_self _ _ _)⟩⟩
    · simp [owed, Session.see, hcur]

theorem Calm.fetch (h : Calm c s) (hs : s.fetch = some s') : Calm c s' ∧ Kept s s' := by
  have hplace := h.place
  unfold Session.fetch at hs
  split at hs
  · rename_i id hcur
    split at hs <;> cases hs
    simp only [Place, hcur] at hplace
    obtain ⟨rfl, hidle, hrest⟩ := hplace
    have hshuts : Shuts { s with cur := .out, trace := s.trace ++ [.result (Session.lookup s.pool (-1))] } ↔ Shuts s :=
      shuts_next (by simp [hcur]) (by simp [hcur]) rfl rfl nofun nofun
    refine ⟨⟨h.pool, h.others, h.ids, ⟨hidle, hrest⟩, h.room.imp_right hshuts.2⟩, ?_, hshuts⟩
    simp [owed, hcur, Session.lookup]
  · cases hs

/-- The calls of the sequence. -/
theorem call_cases (hs : s.call c = some s') : s.cur = .out ∧
    ((∃ x ops, s.ops = .enqueue x :: ops ∧
        s' = { s with pool := s.pool.setCall (.ext c) (.enqStatus x), ops := ops, cur := .enqueue }) ∨
      (∃ j ops, s.ops = .wait j :: ops ∧
        s' = { s with pool := s.pool.setCall (.ext c) (.waitFind (s.id j)), ops := ops, cur := .wait }) ∨
      (∃ j ops, s.ops = .getRes j :: ops ∧
        s' = { s with pool := s.pool.setCall (.ext c) (.waitFind (s.id j)), ops := ops, cur := .getRes (s.id j) }) ∨
      ∃ ops, s.ops = .shutdown :: ops ∧
        s' = { s with pool := { s.pool with shut := .lock }, ops := ops, cur := .shutdown }) := by
  unfold Session.call at hs
  split at hs
  · rename_i x ops hcur hops
    obtain ⟨p, hp, rfl⟩ := Option.map_eq_some_iff.1 hs
    obtain ⟨-, e, hstep⟩ := Pool.Step.of_step hp
    cases hstep with
    | callEnqueue _ _ _ _ => exact ⟨hcur, Or.inl ⟨x, ops, hops, rfl⟩⟩
  · rename_i j ops hcur hops
    obtain ⟨p, hp, rfl⟩ := Option.map_eq_some_iff.1 hs
    obtain ⟨-, e, hstep⟩ := Pool.Step.of_step hp
    cases hstep with
    | callWait _ _ _ _ => exact ⟨hcur, Or.inr (Or.inl ⟨j, ops, hops, rfl⟩)⟩
  · rename_i j ops hcur hops
    obtain ⟨p, hp, rfl⟩ := Option.map_eq_some_iff.1 hs
    obtain ⟨-, e, hstep⟩ := Pool.Step.of_step hp
    cases hstep with
    | callWait _ _ _ _ => exact ⟨hcur, Or.inr (Or.inr (Or.inl ⟨j, ops, hops, rfl⟩))⟩
  · rename_i ops hcur hops
    obtain ⟨p, hp, rfl⟩ := Option.map_eq_some_iff.1 hs
    obtain ⟨-, e, hstep⟩ := Pool.Step.of_step hp
    cases hstep with
    | callShutdown _ => exact ⟨hcur, Or.inr (Or.inr (Or.inr ⟨ops, hops, rfl⟩))⟩
  · cases hs

theorem Calm.call (h : Calm c s) (hs : s.call c = some s') : Calm c s' ∧ Kept s s' := by
  obtain ⟨hcur, hcase⟩ := call_cases hs
  have hplace := h.place
  have hroom := h.room
  simp only [Place, hcur] at hplace
  obtain ⟨hidle, hrest⟩ := hplace
  rcases hcase with ⟨x, ops, hops, rfl⟩ | ⟨j, ops, hops, rfl⟩ | ⟨j, ops, hops, rfl⟩ | ⟨ops, hops, rfl⟩
  · have hshuts :
        Shuts { s with pool := s.pool.setCall (.ext c) (.enqStatus x), ops := ops, cur := .enqueue } ↔ Shuts s := by
      simp [Shuts, hcur, hops, late]
    refine ⟨h.own (h.pool.setCall _ _) rfl h.ids (Or.inl ⟨⟨x, Function.update_self _ _ _⟩, hrest⟩)
      (hroom.imp_right hshuts.2), ?_, hshuts⟩
    cases hst : s.pool.status <;> simp [owed, hcur, hops, hst, expected]
  · have hshuts : Shuts { s with pool := s.pool.setCall (.ext c) (.waitFind (-1)), ops := ops, cur := .wait } ↔ Shuts s := by
      simp [Shuts, hcur, hops, late]
    rw [h.id j]
    refine ⟨h.own (h.pool.setCall _ _) rfl h.ids ⟨Function.update_self _ _ _, hrest⟩ (hroom.imp_right hshuts.2), ?_,
      hshuts⟩
    cases hst : s.pool.status <;> simp [owed, hcur, hops, hst, expected]
  · have hshuts :
        Shuts { s with pool := s.pool.setCall (.ext c) (.waitFind (-1)), ops := ops, cur := .getRes (-1) } ↔ Shuts s := by
      simp [Shuts, hcur, hops, late]
    rw [h.id j]
    refine ⟨h.own (h.pool.setCall _ _) rfl h.ids ⟨rfl, Function.update_self _ _ _, hrest⟩ (hroom.imp_right hshuts.2), ?_,
      hshuts⟩
    cases hst : s.pool.status <;> simp [owed, hcur, hops, hst, expected]
  · have hshuts : Shuts { s with pool := { s.pool with shut := .lock }, ops := ops, cur := .shutdown } ↔ Shuts s := by
      simp [Shuts, hcur, hops, late]
    refine ⟨⟨h.pool.congr rfl rfl rfl rfl nofun, h.others, h.ids, ⟨hidle, hrest.2, Or.inl rfl⟩, hroom.imp_right hshuts.2⟩,
      ?_, hshuts⟩
    cases hst : s.pool.status <;> simp [owed, hcur, hops, hst, expected]

/-- A calm session stays so, and nothing else is seen of it than what is owed. -/
theorem Calm.step (h : Calm c s) (hs : s.step c l = some s') : Calm c s' ∧ Kept s s' := by
  cases l with
  | call => exact h.call hs
  | fetch => exact h.fetch hs
  | pool a =>
      simp only [Session.step] at hs
      split at hs
      · have hown : Session.own a = true := ‹_›
        obtain ⟨⟨p, e⟩, hp, rfl⟩ := Option.map_eq_some_iff.1 hs
        obtain ⟨-, hstep⟩ := Pool.Step.of hp
        have hperform : ∀ w t, (s.pool.workers w).pc ≠ .performing t := by
          intro w t hpc
          have hpc' := (h.pool.worker w).pc
          simp [hpc] at hpc'
        cases hstep with
        | startAgain _ _ | start _ _ _ | callShutdown _ => cases hown
        | callGetStatus k _ hmay | callEnqueue k _ _ hmay | callWait k _ _ hmay =>
            cases k with
            | ext j => cases hown
            | task w =>
                obtain ⟨t, ht⟩ := Pool.mayCall_task hmay
                exact absurd ht (hperform w t)
        | call k hk =>
            by_cases hkc : k = .ext c
            · subst hkc
              exact h.callOwn hk
            · exact h.other hkc hk
        | create k t x hpc _ => exact h.create hpc rfl
        | worker w hw => exact h.worker hw
        | taskReturn w t hpc _ => exact absurd hpc (hperform w t)
        | controller hc => exact h.controller hc
        | shutdown hsh => exact h.shutdown hsh
      · cases hs

theorem Calm.run {q : Pool n α} {ops : List (Op α)} (h : Calm c s) (hrun : Lts.Run (session c q ops) (fun _ _ => True) s s') :
    Calm c s' ∧ Kept s s' := by
  refine hrun.invariant (I := fun u => Calm c u ∧ Kept s u) ?_ ⟨h, rfl, Iff.rfl⟩
  rintro u l v ⟨hu, hkept⟩ _ hs
  obtain ⟨hv, hkept'⟩ := hu.step hs
  exact ⟨hv, hkept'.owed.trans hkept.owed, hkept'.shuts.trans hkept.shuts⟩

end Sessions

end ComplexSim.Restart
