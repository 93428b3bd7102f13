import ComplexSim.Workerpool.Steps

/-!
# The tokens of the task queue

`QueueInv` counts the tokens of the queue's semaphore: one for each task in the
chain, and one more for the close, which the controller takes when it leaves its
loop. The token it holds in `cs_queue_dequeue` belongs to either, so it meets an
empty chain only once the queue is closed: neither assertion of
`cs_queue_dequeue` fails, and the controller leaves with no task behind
(`QueueInv.dequeue`). `Life` says how far the pool is from its start to the end of
its shutdown, by its status and that of its queue.
-/

namespace ComplexSim.Workerpool

variable {n : Nat} {α : Type}

/-- The controller has left its main loop. -/
def ControllerPc.left : ControllerPc n → Bool
  | .sendShutdown _ | .postShutdown _ | .join _ | .ended => true
  | _ => false

/-- How far the pool is, by its status and that of its queue. -/
def Life (st : PoolStatus) (qst : QueueStatus) (c : ControllerPc n) (sh : Shutdown) : Prop :=
  match st, qst with
  | .ready, .opened => c = .notCreated ∧ sh ≠ .close ∧ sh ≠ .join ∧ sh ≠ .finish
  | .working, .opened => c ≠ .notCreated ∧ sh ≠ .join ∧ sh ≠ .finish
  | .working, .closed => c ≠ .notCreated ∧ (sh = .join ∨ sh = .finish ∧ c = .ended)
  | .ready, .closed => c = .ended ∧ sh ≠ .close ∧ sh ≠ .join ∧ sh ≠ .finish

structure QueueInv (q : CsQueue TskId) (st : PoolStatus) (c : ControllerPc n) (sh : Shutdown) :
    Prop where
  size : q.size = q.elems.length
  tokens : q.qsem + (if c = .dequeue then 1 else 0) + (if c.left then 1 else 0) =
    q.elems.length + (if q.status = .closed then 1 else 0)
  left : c.left = true → q.status = .closed ∧ q.elems = []
  life : Life st q.status c sh

namespace QueueInv

variable {q : CsQueue TskId} {st : PoolStatus} {c c' : ControllerPc n} {sh : Shutdown}

theorem init (bound : Nat) :
    QueueInv (csWpInit n α bound).tskQ (csWpInit n α bound).status (csWpInit n α bound).ctl
      (csWpInit n α bound).shut where
  size := rfl
  tokens := rfl
  left := nofun
  life := by simp [csWpInit, csQueueInit, Life]

/-- `cs_wp_start` creates the controller. -/
theorem start (h : QueueInv q st c sh) (hc : c = .notCreated) (hst : st = .ready) :
    QueueInv q .working (.dequeueWait : ControllerPc n) sh where
  size := h.size
  tokens := by subst hc; exact h.tokens
  left := nofun
  life := by
    have hlife := h.life
    subst hc hst
    cases hq : q.status with
    | opened => rw [hq] at hlife; exact ⟨nofun, hlife.2.2⟩
    | closed => rw [hq] at hlife; exact absurd hlife.1 nofun

/-- Before the end of the loop, the controller's position matters only in
`cs_queue_dequeue`. -/
theorem setCtl (h : QueueInv q st c sh) (hc : c ≠ .notCreated) (hc' : c' ≠ .notCreated)
    (hdeq : c' = .dequeue ↔ c = .dequeue) (hleft : c'.left = c.left)
    (hend : c = .ended → c' = .ended) : QueueInv q st c' sh where
  size := h.size
  tokens := by simp only [hdeq, hleft]; exact h.tokens
  left := fun hl => h.left (hleft ▸ hl)
  life := by
    have hlife := h.life
    unfold Life at hlife ⊢
    split at hlife <;> simp_all
    rcases hlife.2 with hl | ⟨hl, hce⟩
    · exact Or.inl hl
    · exact Or.inr ⟨hl, hend hce⟩

/-- The controller takes a token. -/
theorem wait (h : QueueInv q st (.dequeueWait : ControllerPc n) sh) (hsem : 0 < q.qsem) :
    QueueInv { q with qsem := q.qsem - 1 } st (.dequeue : ControllerPc n) sh where
  size := h.size
  tokens := by
    have := h.tokens
    simp [ControllerPc.left] at this ⊢
    omega
  left := nofun
  life := by
    have hlife := h.life
    unfold Life at hlife ⊢
    split at hlife <;> simp_all

/-- With a token, `cs_queue_dequeue` returns the oldest task, or NULL from a closed and
empty queue. -/
theorem dequeue (h : QueueInv q st (.dequeue : ControllerPc n) sh) :
    (∃ t rest, q.elems = t :: rest ∧
      csQueueDequeue q = .elem t { q with elems := rest
                                          size := rest.length
                                          qlimitSem := q.qlimitSem + 1 }) ∨
    (q.elems = [] ∧ q.status = .closed ∧ csQueueDequeue q = .null) := by
  have hsize := h.size
  have htokens := h.tokens
  simp only [ControllerPc.left, Bool.false_eq_true, if_true, if_false, Nat.add_zero] at htokens
  cases helems : q.elems with
  | nil =>
      have hst : q.status = .closed := by
        by_contra hopen
        simp [helems, hopen] at htokens
      exact Or.inr ⟨rfl, hst, by simp [csQueueDequeue, helems, hst]⟩
  | cons t rest =>
      refine Or.inl ⟨t, rest, rfl, ?_⟩
      have hrest : (if q.size > 1 then rest else []) = rest := by
        cases rest with
        | nil => simp
        | cons u rest' =>
            rw [if_pos]
            rw [hsize, helems]; simp only [List.length_cons]; omega
      have hsize' : q.size - 1 = rest.length := by
        rw [hsize, helems]; simp only [List.length_cons]; omega
      have hassert : (rest.length : Int) = q.qsem ∨ q.status = .closed := by
        cases hst : q.status with
        | closed => exact Or.inr rfl
        | opened =>
            rw [helems, hst] at htokens
            simp only [List.length_cons, reduceCtorEq, if_false] at htokens
            exact Or.inl (by omega)
      simp only [csQueueDequeue, helems, hrest, hsize', hassert, if_true]

/-- The controller takes the oldest task. -/
theorem take (h : QueueInv q st (.dequeue : ControllerPc n) sh) {t : TskId} {rest : List TskId}
    (helems : q.elems = t :: rest) :
    QueueInv { q with elems := rest, size := rest.length, qlimitSem := q.qlimitSem + 1 } st
      (.poolSem t : ControllerPc n) sh where
  size := rfl
  tokens := by
    have := h.tokens
    rw [helems] at this
    simp [ControllerPc.left] at this ⊢
    omega
  left := nofun
  life := by
    have hlife := h.life
    unfold Life at hlife ⊢
    split at hlife <;> simp_all

/-- The controller leaves its loop. -/
theorem leave (h : QueueInv q st (.dequeue : ControllerPc n) sh) (helems : q.elems = [])
    (hst : q.status = .closed) : QueueInv q st (.sendShutdown 0 : ControllerPc n) sh where
  size := h.size
  tokens := by simpa [ControllerPc.left] using h.tokens
  left := fun _ => ⟨hst, helems⟩
  life := by
    have hlife := h.life
    unfold Life at hlife ⊢
    split at hlife <;> simp_all

/-- An enqueuer appends a task to an open queue. -/
theorem append (h : QueueInv q st c sh) (hopen : q.status = .opened) (t : TskId) :
    QueueInv { q with elems := q.elems ++ [t], size := q.size + 1, qsem := q.qsem + 1 } st c sh where
  size := by simp [h.size]
  tokens := by
    have := h.tokens
    simp only [List.length_append, List.length_singleton]
    omega
  left := fun hl => absurd (h.left hl).1 (by simp [hopen])
  life := h.life

/-- The shutdown closes the queue of a working pool. -/
theorem close (h : QueueInv q st c .close) : QueueInv (csQueueClose q) st c .join where
  size := h.size
  tokens := by
    have hlife := h.life
    have hopen : q.status = .opened := by
      cases hq : q.status with
      | opened => rfl
      | closed => cases st <;> simp [Life, hq] at hlife
    have := h.tokens
    simp only [csQueueClose, hopen, reduceCtorEq, if_true, if_false] at this ⊢
    omega
  left := fun hl => ⟨rfl, (h.left hl).2⟩
  life := by
    have hlife := h.life
    cases st <;> cases hq : q.status <;> simp_all [Life, csQueueClose]

end QueueInv

theorem QueueInv.controllerStep {s s' : Pool n α} (h : QueueInv s.tskQ s.status s.ctl s.shut)
    (hs : s.ControllerStep s') :
    QueueInv s'.tskQ s'.status s'.ctl s'.shut ∧ (s.ctl = .dequeue → s'.aborted = s.aborted) := by
  cases hs with
  | dequeueWait hpc hsem => rw [hpc] at h; exact ⟨h.wait hsem, fun _ => rfl⟩
  | leave hpc hq =>
      rw [hpc] at h
      rcases h.dequeue with ⟨t, rest, -, hd⟩ | ⟨helems, hst, -⟩
      · rw [hq] at hd; cases hd
      · exact ⟨h.leave helems hst, fun _ => rfl⟩
  | noHead hpc hq | badSize hpc hq =>
      rw [hpc] at h
      rcases h.dequeue with ⟨t, rest, -, hd⟩ | ⟨-, -, hd⟩ <;> (rw [hq] at hd; cases hd)
  | dequeue t q hpc hq =>
      rw [hpc] at h
      rcases h.dequeue with ⟨u, rest, helems, hd⟩ | ⟨-, -, hd⟩
      · rw [hq] at hd; cases hd
        exact ⟨h.take helems, fun _ => rfl⟩
      · rw [hq] at hd; cases hd
  | poolSem t hpc _ | found t w hpc _ | pass t w hpc _ | assign t w hpc | notify w hpc
  | sendShutdown w hpc | allSent count hpc _ | postShutdown w hpc | join w hpc _
  | ended count hpc _ =>
      refine ⟨h.setCtl ?_ ?_ ?_ ?_ ?_, fun hd => absurd (hpc.symm.trans hd) (by simp)⟩ <;>
        simp [hpc, ControllerPc.left]
  | noWorker t count hpc _ => exact ⟨h, fun hd => absurd (hpc.symm.trans hd) (by simp)⟩

theorem QueueInv.shutdownStep {s s' : Pool n α} {e : PoolEvent n α}
    (h : QueueInv s.tskQ s.status s.ctl s.shut) (hs : s.ShutdownStep s' e) :
    QueueInv s'.tskQ s'.status s'.ctl s'.shut := by
  have hlife := h.life
  cases hs with
  | close hpc => rw [hpc] at h; exact h.close
  | lock hpc | nothing hpc _ | check hpc _ | join hpc _ | finish hpc =>
      refine ⟨h.size, h.tokens, h.left, ?_⟩
      unfold Life at hlife ⊢
      split at hlife <;> simp_all

end ComplexSim.Workerpool
