import ComplexSim.Lib.Tally
import ComplexSim.Workerpool.Steps

/-!
# The handshake of the controller and the workers

`Handshake` relates the pool semaphore, the controller's position, and for every
worker its status, its task pointer, its shutdown flag and its private semaphore:

* the pool semaphore, the token the controller is about to spend and the busy
  workers make up `n`, so that a controller which has taken the semaphore finds a
  waiting worker ahead of its scan;
* the tokens of a worker's private semaphore, with the one it has just taken, are
  an assignment it has not noticed yet and the shutdown, once that is posted
  (`tokens`). A worker that has taken a token therefore has a task or is being shut
  down, and one that leaves has taken the shutdown's token and no other is left.
-/

namespace ComplexSim.Workerpool

variable {n : Nat} {α : Type}

namespace ControllerPc

/-- The controller has taken the pool semaphore and not assigned its task yet. -/
def inFlight : ControllerPc n → Nat
  | .scan _ _ | .assign _ _ => 1
  | _ => 0

/-- The shutdown flag of worker `w` is set. -/
def flagged (c : ControllerPc n) (w : Fin n) : Bool :=
  match c with
  | .sendShutdown count => w < count
  | .postShutdown count => w ≤ count
  | .join _ | .ended => true
  | _ => false

/-- The shutdown has been posted on the semaphore of worker `w`. -/
def posted (c : ControllerPc n) (w : Fin n) : Bool :=
  match c with
  | .sendShutdown count | .postShutdown count => w < count
  | .join _ | .ended => true
  | _ => false

theorem posted_flagged {c : ControllerPc n} {w : Fin n} (h : c.posted w = true) :
    c.flagged w = true := by
  cases c <;> simp_all [posted, flagged]
  omega

end ControllerPc

/-- A worker that has, or is about to take, a task. -/
def busy (d : Worker) : Nat :=
  match d.status with
  | .tskAssigned | .working => 1
  | .waiting | .ready => 0

theorem busy_le (d : Worker) : busy d ≤ 1 := by
  unfold busy; split <;> omega

/-- The tokens posted for worker `w` that it has not acted upon. -/
def tokens (c : ControllerPc n) (w : Fin n) (st : WorkerStatus) : Nat :=
  (if st = .tskAssigned ∧ c ≠ .notify w then 1 else 0) + (if c.posted w then 1 else 0)

/-- A worker outside its task: waiting without one, or with one it has not taken yet. -/
def Resting (d : Worker) : Prop :=
  (d.status = .waiting ∧ d.assignedTsk = none) ∨
    (d.status = .tskAssigned ∧ ∃ t, d.assignedTsk = some t)

/-- The record of worker `w` when the controller is at `c`. -/
def WorkerOk (c : ControllerPc n) (w : Fin n) (d : Worker) : Prop :=
  d.shutdown = c.flagged w ∧
  match d.pc with
  | .notCreated => c = .notCreated ∧ d.status = .ready ∧ d.assignedTsk = none ∧ d.waitingSem = 0
  | .semWait | .setDone _ | .signalEnd _ =>
      c ≠ .notCreated ∧ Resting d ∧ d.waitingSem = tokens c w d.status
  | .woken | .takeTask =>
      c ≠ .notCreated ∧ Resting d ∧ d.waitingSem + 1 = tokens c w d.status
  | .performing t | .release t =>
      c ≠ .notCreated ∧ d.status = .working ∧ d.assignedTsk = some t ∧
        d.waitingSem = tokens c w d.status
  | .exited =>
      c.posted w = true ∧ d.status = .waiting ∧ d.assignedTsk = none ∧ d.waitingSem = 0

structure Handshake (c : ControllerPc n) (workers : Fin n → Worker) (poolSem : Nat) : Prop where
  pool : poolSem + c.inFlight + tally busy workers = n
  worker : ∀ w, WorkerOk c w (workers w)
  scan : ∀ t count, c = .scan t count → ∃ w : Fin n, count ≤ w ∧ (workers w).status = .waiting
  assign : ∀ t w, c = .assign t w → (workers w).status = .waiting
  notify : ∀ w, c = .notify w → (workers w).status = .tskAssigned
  post : ∀ count, c = .postShutdown count → count < n
  joined : ∀ count, c = .join count → ∀ w : Fin n, w < count → (workers w).pc = .exited
  ended : c = .ended → ∀ w, (workers w).pc = .exited

/-- Only the controller's dealings with `w` matter to the record of `w`. -/
theorem WorkerOk.congr {c c' : ControllerPc n} {w : Fin n} {d : Worker} (h : WorkerOk c w d)
    (hcreated : c' = .notCreated ↔ c = .notCreated) (hnotify : c' = .notify w ↔ c = .notify w)
    (hposted : c'.posted w = c.posted w) (hflagged : c'.flagged w = c.flagged w) :
    WorkerOk c' w d := by
  have htokens : tokens c' w d.status = tokens c w d.status := by
    simp only [tokens, ne_eq, hnotify, hposted]
  unfold WorkerOk at h ⊢
  rw [hflagged, htokens, hposted]
  cases hpc : d.pc <;> simp only [hpc, ne_eq, hcreated] at h ⊢ <;> exact h

/-- What holds of the status of any worker that exists. -/
theorem WorkerOk.status {c : ControllerPc n} {w : Fin n} {d : Worker} (h : WorkerOk c w d)
    (hc : c ≠ .notCreated) :
    (d.status = .waiting ∧ d.assignedTsk = none) ∨
      (d.status = .tskAssigned ∧ ∃ t, d.assignedTsk = some t) ∨
      (d.status = .working ∧ ∃ t, d.assignedTsk = some t ∧ (d.pc = .performing t ∨ d.pc = .release t)) := by
  obtain ⟨-, h⟩ := h
  cases hpc : d.pc <;> simp only [hpc, Resting] at h
  case notCreated => exact absurd h.1 hc
  case exited => exact Or.inl ⟨h.2.1, h.2.2.1⟩
  case performing t => exact Or.inr (Or.inr ⟨h.2.1, t, h.2.2.1, Or.inl rfl⟩)
  case release t => exact Or.inr (Or.inr ⟨h.2.1, t, h.2.2.1, Or.inr rfl⟩)
  all_goals
    rcases h.2.1 with h | h
    · exact Or.inl h
    · exact Or.inr (Or.inl h)

namespace Handshake

theorem init (bound : Nat) :
    Handshake (csWpInit n α bound).ctl (csWpInit n α bound).workers (csWpInit n α bound).poolSem where
  pool := by simp [csWpInit, ControllerPc.inFlight, tally, busy]
  worker := fun w => by simp [csWpInit, WorkerOk, ControllerPc.flagged]
  scan := by simp [csWpInit]
  assign := by simp [csWpInit]
  notify := by simp [csWpInit]
  post := by simp [csWpInit]
  joined := by simp [csWpInit]
  ended := by simp [csWpInit]

theorem start {c : ControllerPc n} {workers : Fin n → Worker} {poolSem : Nat}
    (h : Handshake c workers poolSem) (hc : c = .notCreated) :
    Handshake .dequeueWait (fun w => { workers w with status := .waiting, pc := .semWait }) poolSem where
  pool := by
    have hpool := h.pool
    have hidle : tally busy workers = 0 := tally_eq_zero fun w => by
      have hw := (h.worker w).2
      cases hpc : (workers w).pc <;> simp_all [busy, ControllerPc.posted]
    subst hc
    simp only [ControllerPc.inFlight, hidle] at hpool ⊢
    simpa [tally, busy] using hpool
  worker := fun w => by
    obtain ⟨hflag, hw⟩ := h.worker w
    subst hc
    cases hpc : (workers w).pc <;>
      simp_all [WorkerOk, Resting, tokens, ControllerPc.flagged, ControllerPc.posted]
  scan := by simp
  assign := by simp
  notify := by simp
  post := by simp
  joined := by simp
  ended := by simp

/-- A worker replaces its own record. -/
theorem setWorker {c : ControllerPc n} {workers : Fin n → Worker} {poolSem poolSem' : Nat}
    (h : Handshake c workers poolSem) {w : Fin n} {d : Worker} (hd : WorkerOk c w d)
    (hpool : poolSem' + busy d = poolSem + busy (workers w))
    (hwaiting : (workers w).status = .waiting → d.status = .waiting)
    (hassigned : c = .notify w → d.status = .tskAssigned)
    (hexited : (workers w).pc = .exited → d.pc = .exited) :
    Handshake c (Function.update workers w d) poolSem' where
  pool := by
    have := tally_update busy workers w d
    have := h.pool
    omega
  worker := fun v => by
    by_cases hv : v = w
    · subst hv; rwa [Function.update_self]
    · rw [Function.update_of_ne hv]; exact h.worker v
  scan := fun t count hc => by
    obtain ⟨v, hle, hst⟩ := h.scan t count hc
    refine ⟨v, hle, ?_⟩
    by_cases hv : v = w
    · subst hv; rw [Function.update_self]; exact hwaiting hst
    · rwa [Function.update_of_ne hv]
  assign := fun t v hc => by
    by_cases hv : v = w
    · subst hv; rw [Function.update_self]; exact hwaiting (h.assign t v hc)
    · rw [Function.update_of_ne hv]; exact h.assign t v hc
  notify := fun v hc => by
    by_cases hv : v = w
    · subst hv; rw [Function.update_self]; exact hassigned hc
    · rw [Function.update_of_ne hv]; exact h.notify v hc
  post := h.post
  joined := fun count hc v hlt => by
    by_cases hv : v = w
    · subst hv; rw [Function.update_self]; exact hexited (h.joined count hc v hlt)
    · rw [Function.update_of_ne hv]; exact h.joined count hc v hlt
  ended := fun hc v => by
    by_cases hv : v = w
    · subst hv; rw [Function.update_self]; exact hexited (h.ended hc v)
    · rw [Function.update_of_ne hv]; exact h.ended hc v

/-- The controller moves on without touching a worker's record. -/
theorem setCtl {c c' : ControllerPc n} {workers : Fin n → Worker} {poolSem poolSem' : Nat}
    (h : Handshake c workers poolSem)
    (hpool : poolSem' + c'.inFlight = poolSem + c.inFlight)
    (hcreated : c' = .notCreated ↔ c = .notCreated)
    (hnotify : ∀ w, c' = .notify w ↔ c = .notify w)
    (hposted : ∀ w, c'.posted w = c.posted w) (hflagged : ∀ w, c'.flagged w = c.flagged w)
    (hscan : ∀ t count, c' = .scan t count → ∃ w : Fin n, count ≤ w ∧ (workers w).status = .waiting)
    (hassign : ∀ t w, c' = .assign t w → (workers w).status = .waiting)
    (hpost : ∀ count, c' ≠ .postShutdown count)
    (hjoined : ∀ count, c' = .join count → ∀ w : Fin n, w < count → (workers w).pc = .exited)
    (hended : c' = .ended → ∀ w, (workers w).pc = .exited) : Handshake c' workers poolSem' where
  pool := by have := h.pool; omega
  worker := fun w => (h.worker w).congr hcreated (hnotify w) (hposted w) (hflagged w)
  scan := hscan
  assign := hassign
  notify := fun w hc => h.notify w ((hnotify w).1 hc)
  post := fun count hc => absurd hc (hpost count)
  joined := hjoined
  ended := hended

theorem workerStep {s s' : Pool n α} {w : Fin n} {e : PoolEvent n α}
    (h : Handshake s.ctl s.workers s.poolSem) (hs : s.WorkerStep w s' e) :
    Handshake s'.ctl s'.workers s'.poolSem ∧ s'.aborted = s.aborted := by
  have hw := h.worker w
  obtain ⟨hflag, hpcw⟩ := hw
  cases hs with
  | wake hpc hsem =>
      simp only [hpc] at hpcw
      refine ⟨h.setWorker ⟨hflag, ?_⟩ rfl id (h.notify w ·) (by simp [hpc]), rfl⟩
      simp only
      exact ⟨hpcw.1, hpcw.2.1, by omega⟩
  | wokenOk hpc hok =>
      simp only [hpc] at hpcw
      exact ⟨h.setWorker ⟨hflag, hpcw⟩ rfl id (h.notify w ·) (by simp [hpc]), rfl⟩
  | wokenFail hpc hbad =>
      -- the token taken is an assignment or the shutdown
      simp only [hpc, tokens] at hpcw
      rw [not_or] at hbad
      have hposted : s.ctl.posted w = true := by
        by_contra hno
        simp [hbad.2, hno] at hpcw
      exact absurd (hflag.trans (ControllerPc.posted_flagged hposted)) hbad.1
  | exit hpc hnone hshut =>
      simp only [hpc] at hpcw
      obtain ⟨-, hrest, hsem⟩ := hpcw
      have hst : (s.workers w).status = .waiting := by
        rcases hrest with ⟨hst, -⟩ | ⟨-, t, ht⟩
        · exact hst
        · rw [hnone] at ht; cases ht
      simp only [tokens, hst, reduceCtorEq, false_and, if_false, zero_add] at hsem
      refine ⟨h.setWorker ⟨hflag, ?_⟩ rfl id (h.notify w ·) (by simp), rfl⟩
      by_cases hposted : s.ctl.posted w = true
      · simp only [hposted, if_true] at hsem
        exact ⟨hposted, hst, hnone, Nat.succ_injective hsem⟩
      · simp [hposted] at hsem
  | takeNone hpc hnone hshut =>
      -- without a task the token is the shutdown's, so the flag is set
      simp only [hpc] at hpcw
      obtain ⟨-, hrest, hsem⟩ := hpcw
      have hst : (s.workers w).status = .waiting := by
        rcases hrest with ⟨hst, -⟩ | ⟨-, t, ht⟩
        · exact hst
        · rw [hnone] at ht; cases ht
      have hposted : s.ctl.posted w = true := by
        by_contra hno
        simp [tokens, hst, hno] at hsem
      rw [hflag, ControllerPc.posted_flagged hposted] at hshut
      cases hshut
  | take t hpc htsk hst =>
      simp only [hpc] at hpcw
      obtain ⟨hc, -, hsem⟩ := hpcw
      have hnotify : s.ctl ≠ .notify w := fun hn => by
        simp [tokens, hn, ControllerPc.posted] at hsem
      refine ⟨h.setWorker ⟨hflag, hc, rfl, htsk, ?_⟩ ?_ ?_ ?_ ?_, rfl⟩
      · simp only [tokens, hst, hnotify, ne_eq, not_false_eq_true, and_self, if_true] at hsem
        simp only [tokens, reduceCtorEq, false_and, if_false]
        omega
      · simp [busy, hst]
      · simp [hst]
      · exact fun hn => absurd hn hnotify
      · simp [hpc]
  | takeFail t hpc htsk hst =>
      simp only [hpc] at hpcw
      rcases hpcw.2.1 with ⟨-, hnone⟩ | ⟨hassigned, -⟩
      · rw [htsk] at hnone; cases hnone
      · exact absurd hassigned hst
  | release t hpc hst =>
      simp only [hpc] at hpcw
      obtain ⟨hc, -, -, hsem⟩ := hpcw
      have hnotify : s.ctl ≠ .notify w := fun hn => by
        have := h.notify w hn; rw [hst] at this; cases this
      refine ⟨h.setWorker ⟨hflag, hc, Or.inl ⟨rfl, rfl⟩, ?_⟩ ?_ ?_ ?_ ?_, rfl⟩
      · simpa [tokens, hst] using hsem
      · simp [busy, hst]
      · simp
      · exact fun hn => absurd hn hnotify
      · simp [hpc]
  | releaseFail t hpc hst =>
      simp only [hpc] at hpcw
      exact absurd hpcw.2.1 hst
  | setDone t hpc | signalEnd t hpc =>
      simp only [hpc] at hpcw
      exact ⟨h.setWorker ⟨hflag, hpcw⟩ rfl id (h.notify w ·) (by simp [hpc]), rfl⟩

theorem taskReturn {c : ControllerPc n} {workers : Fin n → Worker} {poolSem : Nat} {w : Fin n}
    {t : TskId} (h : Handshake c workers poolSem) (hpc : (workers w).pc = .performing t) :
    Handshake c (Function.update workers w { workers w with pc := .release t }) poolSem := by
  obtain ⟨hflag, hpcw⟩ := h.worker w
  simp only [hpc] at hpcw
  exact h.setWorker ⟨hflag, hpcw⟩ rfl id (h.notify w ·) (by simp [hpc])

/-- A controller that has taken the pool semaphore has a waiting worker. -/
theorem exists_waiting {c : ControllerPc n} {workers : Fin n → Worker} {poolSem : Nat}
    (h : Handshake c workers poolSem) (hc : c ≠ .notCreated) (hsem : 0 < poolSem + c.inFlight) :
    ∃ w, (workers w).status = .waiting := by
  have hlt : tally busy workers < Fintype.card (Fin n) := by
    have := h.pool; rw [Fintype.card_fin]; omega
  obtain ⟨w, hw⟩ := exists_of_tally_lt busy_le hlt
  refine ⟨w, ?_⟩
  rcases (h.worker w).status hc with ⟨hst, -⟩ | ⟨hst, -⟩ | ⟨hst, -⟩
  · exact hst
  · simp [busy, hst] at hw
  · simp [busy, hst] at hw

/-- The controller changes the record of worker `w` and moves to a position that only
concerns `w`. -/
theorem deal {c c' : ControllerPc n} {workers : Fin n → Worker} {poolSem : Nat}
    (h : Handshake c workers poolSem) {w : Fin n} {d : Worker} (hd : WorkerOk c' w d)
    (hpool : c'.inFlight + busy d = c.inFlight + busy (workers w))
    (hother : ∀ v, v ≠ w → WorkerOk c' v (workers v))
    (hscan : ∀ t count, c' ≠ .scan t count) (hassign : ∀ t v, c' ≠ .assign t v)
    (hnotify : ∀ v, c' = .notify v → v = w ∧ d.status = .tskAssigned)
    (hpost : ∀ count, c' = .postShutdown count → count < n)
    (hjoin : ∀ count, c' ≠ .join count) (hended : c' ≠ .ended) :
    Handshake c' (Function.update workers w d) poolSem where
  pool := by
    have := tally_update busy workers w d
    have := h.pool
    omega
  worker := fun v => by
    by_cases hv : v = w
    · subst hv; rwa [Function.update_self]
    · rw [Function.update_of_ne hv]; exact hother v hv
  scan := fun t count hc => absurd hc (hscan t count)
  assign := fun t v hc => absurd hc (hassign t v)
  notify := fun v hc => by
    obtain ⟨rfl, hst⟩ := hnotify v hc
    rwa [Function.update_self]
  post := hpost
  joined := fun count hc => absurd hc (hjoin count)
  ended := fun hc => absurd hc hended

theorem controllerStep {s s' : Pool n α} (h : Handshake s.ctl s.workers s.poolSem)
    (hs : s.ControllerStep s') :
    Handshake s'.ctl s'.workers s'.poolSem ∧ (s.ctl ≠ .dequeue → s'.aborted = s.aborted) := by
  cases hs with
  | dequeueWait hpc _ | leave hpc _ | dequeue t q hpc _ =>
      refine ⟨h.setCtl ?_ ?_ ?_ ?_ ?_ ?_ ?_ ?_ ?_ ?_, fun _ => rfl⟩ <;>
        simp [hpc, ControllerPc.inFlight, ControllerPc.posted, ControllerPc.flagged]
  | noHead hpc _ | badSize hpc _ => exact ⟨h, fun hne => absurd hpc hne⟩
  | poolSem t hpc hsem =>
      obtain ⟨w, hw⟩ := h.exists_waiting (by simp [hpc]) (by omega)
      refine ⟨h.setCtl ?_ ?_ ?_ ?_ ?_ ?_ ?_ ?_ ?_ ?_, fun _ => rfl⟩
      case refine_6 =>
        intro t' count hc
        cases hc
        exact ⟨w, Nat.zero_le _, hw⟩
      all_goals simp [hpc, ControllerPc.inFlight, ControllerPc.posted, ControllerPc.flagged]
      omega
  | found t w hpc hst =>
      refine ⟨h.setCtl ?_ ?_ ?_ ?_ ?_ ?_ ?_ ?_ ?_ ?_, fun _ => rfl⟩
      case refine_7 =>
        intro t' v hc
        cases hc
        exact hst
      all_goals simp [hpc, ControllerPc.inFlight, ControllerPc.posted, ControllerPc.flagged]
  | pass t w hpc hst =>
      obtain ⟨v, hle, hv⟩ := h.scan t w hpc
      refine ⟨h.setCtl ?_ ?_ ?_ ?_ ?_ ?_ ?_ ?_ ?_ ?_, fun _ => rfl⟩
      case refine_6 =>
        intro t' count hc
        cases hc
        have hne : (v : Nat) ≠ w := fun heq => hst (Fin.ext heq ▸ hv)
        exact ⟨v, by omega, hv⟩
      all_goals simp [hpc, ControllerPc.inFlight, ControllerPc.posted, ControllerPc.flagged]
  | noWorker t count hpc hend =>
      obtain ⟨v, hle, -⟩ := h.scan t count hpc
      exact absurd v.isLt (by omega)
  | assign t w hpc =>
      have hst := h.assign t w hpc
      obtain ⟨hflag, hw⟩ := h.worker w
      refine ⟨h.deal ?_ ?_ ?_ ?_ ?_ ?_ ?_ ?_ ?_, fun _ => rfl⟩
      · refine ⟨by simpa [hpc, ControllerPc.flagged] using hflag, ?_⟩
        cases hpcw : (s.workers w).pc <;>
          simp_all [Resting, tokens, ControllerPc.posted]
      · simp [hpc, ControllerPc.inFlight, busy, hst]
      · intro v hv
        refine (h.worker v).congr ?_ ?_ ?_ ?_ <;>
          simp [hpc, ControllerPc.posted, ControllerPc.flagged, hv.symm]
      · simp
      · simp
      · intro v hc
        cases hc
        exact ⟨rfl, rfl⟩
      all_goals simp
  | notify w hpc =>
      have hst := h.notify w hpc
      obtain ⟨hflag, hw⟩ := h.worker w
      refine ⟨h.deal ?_ ?_ ?_ ?_ ?_ ?_ ?_ ?_ ?_, fun _ => rfl⟩
      · refine ⟨by simpa [hpc, ControllerPc.flagged] using hflag, ?_⟩
        cases hpcw : (s.workers w).pc <;>
          simp_all [Resting, tokens, ControllerPc.posted]
      · simp [hpc, ControllerPc.inFlight, busy]
      · intro v hv
        refine (h.worker v).congr ?_ ?_ ?_ ?_ <;>
          simp [hpc, ControllerPc.posted, ControllerPc.flagged, hv.symm]
      all_goals simp
  | sendShutdown w hpc =>
      obtain ⟨hflag, hw⟩ := h.worker w
      refine ⟨h.deal ?_ ?_ ?_ ?_ ?_ ?_ ?_ ?_ ?_, fun _ => rfl⟩
      · refine ⟨by simp [ControllerPc.flagged], ?_⟩
        cases hpcw : (s.workers w).pc <;>
          simp_all [Resting, tokens, ControllerPc.posted]
      · simp [hpc, ControllerPc.inFlight, busy]
      · intro v hv
        have hne : (v : Nat) ≠ w := fun heq => hv (Fin.ext heq)
        refine (h.worker v).congr ?_ ?_ ?_ ?_ <;>
          simp [hpc, ControllerPc.posted, ControllerPc.flagged]
        omega
      all_goals simp
  | allSent count hpc hend =>
      refine ⟨h.setCtl ?_ ?_ ?_ ?_ ?_ ?_ ?_ ?_ ?_ ?_, fun _ => rfl⟩
      all_goals simp [hpc, ControllerPc.inFlight, ControllerPc.posted, ControllerPc.flagged]
      all_goals intro w; have := w.isLt; omega
  | postShutdown w hpc =>
      obtain ⟨hflag, hw⟩ := h.worker w
      refine ⟨h.deal ?_ ?_ ?_ ?_ ?_ ?_ ?_ ?_ ?_, fun _ => rfl⟩
      · refine ⟨by simpa [hpc, ControllerPc.flagged] using hflag, ?_⟩
        cases hpcw : (s.workers w).pc <;>
          simp_all [Resting, tokens, ControllerPc.posted]
      · simp [hpc, ControllerPc.inFlight, busy]
      · intro v hv
        have hne : (v : Nat) ≠ w := fun heq => hv (Fin.ext heq)
        refine (h.worker v).congr ?_ ?_ ?_ ?_ <;>
          simp [hpc, ControllerPc.posted, ControllerPc.flagged]
        all_goals omega
      all_goals simp
  | join w hpc hexit =>
      refine ⟨h.setCtl ?_ ?_ ?_ ?_ ?_ ?_ ?_ ?_ ?_ ?_, fun _ => rfl⟩
      case refine_9 =>
        intro count hc v hlt
        cases hc
        by_cases hv : v = w
        · rw [hv]; exact hexit
        · have hne : (v : Nat) ≠ w := fun heq => hv (Fin.ext heq)
          exact h.joined w hpc v (by omega)
      all_goals simp [hpc, ControllerPc.inFlight, ControllerPc.posted, ControllerPc.flagged]
  | ended count hpc hend =>
      refine ⟨h.setCtl ?_ ?_ ?_ ?_ ?_ ?_ ?_ ?_ ?_ ?_, fun _ => rfl⟩
      case refine_10 =>
        intro _ w
        exact h.joined count hpc w (by have := w.isLt; omega)
      all_goals simp [hpc, ControllerPc.inFlight, ControllerPc.posted, ControllerPc.flagged]

end Handshake

end ComplexSim.Workerpool
