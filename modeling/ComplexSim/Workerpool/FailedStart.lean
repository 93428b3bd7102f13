import ComplexSim.Workerpool.Tidy

/-!
# A start that fails (`cs_wp_start`)

`_cs_wp_start_workers` sets the status of a worker and then creates its thread, one worker after the
other, and at the first `pthread_create` that fails `cs_wp_start` returns -1: it ends none of the threads
that it has created, and sets no status back. So it leaves the pool as it was only where the first creation
fails, and the status of the first worker has been `CS_WS_WAITING` before: a pool that has been shut down has
this status, and one that `cs_wp_init` has made has not.

The pool is taken as it is when the start finds it ready: `cs_wp_get_status` takes the mutex, so that no other call
holds it then. While the start runs, the other threads take any steps of theirs; but no other start takes the mutex.
-/

namespace ComplexSim.FailedStart

open Workerpool Lifecycle

variable {T : Type*} {n : Nat} {α : Type}

/-- Thread `i` of the pool runs. -/
def Runs (s : State T n α) (i : Nat) : Prop := ∃ d, s.threads i = some d ∧ d.role.ended = false

/-- Where `cs_wp_start` is when it creates its `k`-th thread, counted from 0; the last one is the controller. -/
def place (n k : Nat) : Pc n := if h : k < n then .startCreate ⟨k, h⟩ else .startController

/-- The threads that the handles of the workers name are the only ones on their records. -/
def OnePerWorker (s : State T n α) : Prop :=
  ∀ w, ∃ i, s.thId w = some i ∧ (∃ d pc, s.threads i = some d ∧ d.role = .worker w pc) ∧ ∀ j, AliveOn s w j → j = i

/-- No start takes the mutex. -/
def NoStart (s : State T n α) (l : Label T n α) : Prop := ∀ u, l = .call u → s.calls u ≠ .startLock

/-- The call of `t` has not returned, and no start takes the mutex but that of `t`. -/
def Undisturbed (t : T) (s : State T n α) (l : Label T n α) : Prop :=
  s.calls t ≠ .idle ∧ ∀ u, l = .call u → s.calls u = .startLock → u = t

variable [DecidableEq T]

/-- The start of `t` reads the status of the pool in `s`, and finds it ready. -/
def FindsReady (t : T) (s : State T n α) : Prop := s.step (.call t) = some (s.setCall t .startLock)

/-- While the start of `t` runs, `s` comes to `s'`. -/
def StartRun (bound : Nat) (t : T) (s s' : State T n α) : Prop := Lts.Run (system T n α bound) (Undisturbed t) s s'

/-- The pool is as it was in `s`, in `s'`: no thread runs, the records of the workers, the semaphores and the
status are the same, and whoever starts it next, and succeeds, gives each worker its thread. -/
structure Undone (bound : Nat) (s s' : State T n α) : Prop where
  gone : ∀ i, ¬ Runs s' i
  workers : s'.pool.workers = s.pool.workers
  poolSem : s'.pool.poolSem = s.pool.poolSem
  status : s'.pool.status = s.pool.status
  later : ∀ u a b c, Lts.Run (system T n α bound) NoStart s' a → a.calls u = .idle →
    StartRun bound u (a.setCall u .startStatus) b → b.calls u = .startFinish → b.step (.call u) = some c → OnePerWorker c

/-- The start of `t` that finds the pool ready in `s`, and returns -1 because its `k`-th thread cannot be created,
leaves the pool as it was. -/
def FailureUndone (bound : Nat) (t : T) (k : Nat) (s : State T n α) : Prop :=
  ∀ s₁ s', StartRun bound t (s.setCall t .startLock) s₁ → s₁.calls t = place n k →
    s₁.step (.createFails t) = some s' → Undone bound s s'

section Threads

omit [DecidableEq T]

variable {s s' : State T n α} {i j : Nat} {w : Fin n}

theorem AliveOn.runs (h : AliveOn s w i) : Runs s i := by
  obtain ⟨d, pc, hi, hrole, halive⟩ := h
  exact ⟨d, hi, by simp [Role.ended, hrole, halive]⟩

/-- A thread that takes a step runs. -/
theorem ThreadStep.runs (hs : ThreadStep s i s') : Runs s i := by
  cases hs with
  | worker d w pc pc' p hi hrole halive _ => exact ⟨d, hi, by simp [Role.ended, hrole, halive]⟩
  | controller d pc pc' p hi hrole halive _ _ _ => exact ⟨d, hi, by simp [Role.ended, hrole, halive]⟩
  | joined d w j e hi hrole _ _ _ => exact ⟨d, hi, by simp [Role.ended, hrole]⟩
  | notJoined d w hi hrole _ => exact ⟨d, hi, by simp [Role.ended, hrole]⟩
  | ended d count hi hrole _ => exact ⟨d, hi, by simp [Role.ended, hrole]⟩

/-- A step of a thread of the pool creates none. -/
theorem ThreadStep.handles (hs : ThreadStep s i s') : s'.thId = s.thId ∧ s'.created = s.created := by
  cases hs with
  | worker _ _ _ _ _ _ _ _ _ | controller _ _ _ _ _ _ _ _ _ _ | joined _ _ _ _ _ _ _ _ _ | notJoined _ _ _ _ _
  | ended _ _ _ _ _ => exact ⟨rfl, rfl⟩

/-- No thread joins itself. -/
theorem joins_other {d e : Thread n} {pc : ControllerPc n} (hi : s.threads i = some d) (hrole : d.role = .controller pc)
    (halive : pc ≠ .ended) (hj : s.threads j = some e) (hended : e.role.ended = true) : i ≠ j := by
  rintro rfl
  obtain rfl := Option.some.inj (hi.symm.trans hj)
  simp [Role.ended, hrole, halive] at hended

/-- A step of a thread starts none that has ended. -/
theorem ThreadStep.alive (hs : ThreadStep s i s') (h : AliveOn s' w j) : AliveOn s w j := by
  cases hs with
  | worker d v pc pc' p hi hrole halive _ =>
      refine alive_move (s := { s with pool := p }) hi ?_ h
      rintro w' q hq
      cases hq
      exact ⟨pc, hrole, halive⟩
  | controller d pc pc' p hi _ _ _ _ _ => exact alive_move (s := { s with pool := p }) hi (by simp) h
  | joined d v k e hi hrole _ hk hended =>
      have hne := joins_other hi hrole nofun hk hended
      exact alive_join hk (alive_move (s := join s k e) ((join_of_ne hne).trans hi) (by simp) h)
  | notJoined d v hi _ _ => exact alive_move hi (by simp) h
  | ended d count hi _ _ => exact alive_move hi (by simp) h

/-- A thread that has moved stays on its record. -/
theorem move_worker {r : Role n} {d e : Thread n} {pc : WorkerPc} (hi : s.threads i = some d) (hj : s.threads j = some e)
    (hrole : e.role = .worker w pc) (hr : ∀ v q, d.role = .worker v q → ∃ q', r = .worker v q') :
    ∃ e' pc', (s.move i r).threads j = some e' ∧ e'.role = .worker w pc' := by
  by_cases hne : j = i
  · subst hne
    obtain rfl := Option.some.inj (hi.symm.trans hj)
    obtain ⟨q, hq⟩ := hr w pc hrole
    exact ⟨_, q, move_self hi, hq⟩
  · exact ⟨e, pc, (move_of_ne hne).trans hj, hrole⟩

/-- A step of a thread leaves every worker thread on its record. -/
theorem ThreadStep.stays (hs : ThreadStep s i s') {e : Thread n} {pc : WorkerPc} (hj : s.threads j = some e)
    (hrole : e.role = .worker w pc) : ∃ e' pc', s'.threads j = some e' ∧ e'.role = .worker w pc' := by
  cases hs with
  | worker d v q q' p hi hd _ _ =>
      refine move_worker (s := { s with pool := p }) hi hj hrole fun v' q'' hv => ?_
      rw [hd] at hv
      cases hv
      exact ⟨q', rfl⟩
  | controller d q q' p hi hd _ _ _ _ => exact move_worker (s := { s with pool := p }) hi hj hrole (by simp [hd])
  | joined d v k f hi hd _ hk hended =>
      have hne := joins_other hi hd nofun hk hended
      have hi' : (join s k f).threads i = some d := (join_of_ne hne).trans hi
      by_cases hjk : j = k
      · subst hjk
        obtain rfl := Option.some.inj (hk.symm.trans hj)
        exact move_worker (s := join s j f) hi' join_self hrole (by simp [hd])
      · exact move_worker (s := join s k f) hi' ((join_of_ne hjk).trans hj) hrole (by simp [hd])
  | notJoined d v hi hd _ => exact move_worker hi hj hrole (by simp [hd])
  | ended d count hi hd _ => exact move_worker hi hj hrole (by simp [hd])

end Threads

/-- A call that has done nothing to the pool: outside its locked section, or at the first worker of a start. -/
def early : Pc n → Bool
  | .idle | .startStatus | .startLock | .shutLock | .shutCheck => true
  | .startWaiting count => count = 0
  | .startCreate w => w.val = 0
  | .startController | .startFinish | .shutClose | .shutJoin | .shutFinish => false

/-- The pool is as in `s₀` and nothing of it runs. -/
structure Rest (s₀ s : State T n α) : Prop where
  status : s.pool.status = .ready
  workers : s.pool.workers = s₀.pool.workers
  poolSem : s.pool.poolSem = s₀.pool.poolSem
  still : ∀ i, ¬ Runs s i
  held : Held s
  early : ∀ t, early (s.calls t) = true

section Rest

variable {s₀ s s' : State T n α} {t : T} {l : Label T n α}

theorem Rest.calls (h : Rest s₀ s) {c : Pc n} (hpool : s'.pool = s.pool) (hthreads : s'.threads = s.threads)
    (hcalls : s'.calls = Function.update s.calls t c) (hheld : Held s')
    (hc : FailedStart.early c = true) : Rest s₀ s' := by
  refine ⟨by rw [hpool]; exact h.status, by rw [hpool]; exact h.workers, by rw [hpool]; exact h.poolSem, ?_, hheld, ?_⟩
  · intro i hi
    exact h.still i (by simpa only [Runs, hthreads] using hi)
  · intro u
    rw [hcalls]
    by_cases hu : u = t
    · subst hu
      rw [Function.update_self]
      exact hc
    · rw [Function.update_of_ne hu]
      exact h.early u

/-- A call leaves the pool at rest unless it creates the thread of the first worker. -/
theorem Rest.call (h : Rest s₀ s) (hn : 0 < n) (hwaiting : (s₀.pool.workers ⟨0, hn⟩).status = .waiting)
    (hs : CallStep s t s') : Rest s₀ s' ∨ s.calls t = .startCreate ⟨0, hn⟩ := by
  have hheld := h.held.call hs
  have hearly := h.early t
  cases hs with
  | refused _ _ hst => exact absurd h.status hst
  | statusOk _ _ _ => exact Or.inl (h.calls (c := .startLock) rfl rfl rfl hheld rfl)
  | startLock _ _ => exact Or.inl (h.calls (c := .startWaiting 0) rfl rfl rfl hheld rfl)
  | setWaiting w hpc =>
      rw [hpc] at hearly
      obtain rfl : w = ⟨0, hn⟩ := Fin.ext (of_decide_eq_true hearly)
      -- the status is set to what it is
      have hsame : s.pool.setWorker ⟨0, hn⟩ { s.pool.workers ⟨0, hn⟩ with status := .waiting } = s.pool := by
        rw [← hwaiting, ← h.workers]
        simp [Pool.setWorker]
      exact Or.inl (h.calls (c := .startCreate ⟨0, hn⟩) hsame rfl rfl hheld rfl)
  | allCreated count hpc hend =>
      rw [hpc] at hearly
      obtain rfl : count = 0 := of_decide_eq_true hearly
      exact absurd hn hend
  | createWorker w hpc =>
      rw [hpc] at hearly
      obtain rfl : w = ⟨0, hn⟩ := Fin.ext (of_decide_eq_true hearly)
      exact Or.inr hpc
  | shutLock _ _ => exact Or.inl (h.calls (c := .shutCheck) rfl rfl rfl hheld rfl)
  | nothing _ _ => exact Or.inl (h.calls (c := .idle) rfl rfl rfl hheld rfl)
  | shutCheck _ hst => cases h.status.symm.trans hst
  | createController hpc | started hpc | close hpc | joined _ _ hpc _ _ _ | notJoined hpc _ | shutdown hpc =>
      rw [hpc] at hearly
      cases hearly

theorem Rest.step (h : Rest s₀ s) (hn : 0 < n) (hwaiting : (s₀.pool.workers ⟨0, hn⟩).status = .waiting)
    (hs : Step s l s') : Rest s₀ s' ∨ ∃ t, l = .call t ∧ s.calls t = .startCreate ⟨0, hn⟩ := by
  have hheld := h.held.step hs
  cases hs with
  | callStart t _ => exact Or.inl (h.calls (c := .startStatus) rfl rfl rfl hheld rfl)
  | callShutdown t _ => exact Or.inl (h.calls (c := .shutLock) rfl rfl rfl hheld rfl)
  | call t hcall => exact (h.call hn hwaiting hcall).imp_right fun hpc => ⟨t, rfl, hpc⟩
  | workerFails t w _ | controllerFails t _ => exact Or.inl (h.calls (c := .idle) rfl rfl rfl hheld rfl)
  | thread i hthread | taskReturn i hthread => exact absurd (ThreadStep.runs hthread) (h.still i)
  | client a p hworkers hsem hst =>
      exact Or.inl ⟨hst.trans h.status, hworkers.trans h.workers, hsem.trans h.poolSem, h.still, hheld, h.early⟩

/-- A call gets among those that create threads by taking the mutex for a start. -/
theorem Step.creates (hs : Step s l s') {u : T} (hu : (s'.calls u).creates = true) :
    (s.calls u).creates = true ∨ (l = .call u ∧ s.calls u = .startLock) := by
  -- only the call of `t` goes somewhere else, and there it creates threads only if it did before
  have hmove : ∀ {t : T} {c : Pc n}, s'.calls = Function.update s.calls t c →
      (c.creates = true → (s.calls t).creates = true ∨ (l = .call t ∧ s.calls t = .startLock)) →
      (s.calls u).creates = true ∨ (l = .call u ∧ s.calls u = .startLock) := by
    intro t c hcalls hc
    rw [hcalls] at hu
    by_cases hut : u = t
    · subst hut
      rw [Function.update_self] at hu
      exact hc hu
    · rw [Function.update_of_ne hut] at hu
      exact Or.inl hu
  cases hs with
  | callStart t _ => exact hmove (t := t) (c := .startStatus) rfl nofun
  | callShutdown t _ => exact hmove (t := t) (c := .shutLock) rfl nofun
  | workerFails t w _ | controllerFails t _ => exact hmove (t := t) (c := .idle) rfl nofun
  | thread i hthread | taskReturn i hthread =>
      rw [hthread.frame.1] at hu
      exact Or.inl hu
  | client a p _ _ _ => exact Or.inl hu
  | call t hcall =>
      cases hcall with
      | startLock hpc _ => exact hmove (t := t) (c := .startWaiting 0) rfl fun _ => Or.inr ⟨rfl, hpc⟩
      | setWaiting w hpc => exact hmove (t := t) (c := .startCreate w) rfl fun _ => Or.inl (by rw [hpc]; rfl)
      | allCreated count hpc _ => exact hmove (t := t) (c := .startController) rfl fun _ => Or.inl (by rw [hpc]; rfl)
      | createWorker w hpc =>
          exact hmove (t := t) (c := .startWaiting (w + 1)) rfl fun _ => Or.inl (by rw [hpc]; rfl)
      | createController hpc => exact hmove (t := t) (c := .startFinish) rfl fun _ => Or.inl (by rw [hpc]; rfl)
      | refused _ _ _ => exact hmove (t := t) (c := .idle) rfl nofun
      | statusOk _ _ _ => exact hmove (t := t) (c := .startLock) rfl nofun
      | shutLock _ _ => exact hmove (t := t) (c := .shutCheck) rfl nofun
      | shutCheck _ _ => exact hmove (t := t) (c := .shutClose) rfl nofun
      | close _ => exact hmove (t := t) (c := .shutJoin) rfl nofun
      | joined i d _ _ _ _ => exact hmove (t := t) (c := .shutFinish) rfl nofun
      | started _ | nothing _ _ | notJoined _ _ | shutdown _ => exact hmove (t := t) (c := .idle) rfl nofun

end Rest

/-- The start of `t` has created the threads of the first `count` workers, and there is no other thread on the
record of a worker. -/
structure Building (t : T) (count : Nat) (s : State T n α) : Prop where
  place : s.calls t = .startWaiting count ∨ (∃ w : Fin n, w.val = count ∧ s.calls t = .startCreate w) ∨
    (n ≤ count ∧ (s.calls t = .startController ∨ s.calls t = .startFinish))
  held : Held s
  alive : ∀ w i, AliveOn s w i → w.val < count ∧ s.thId w = some i
  made : ∀ w : Fin n, w.val < count → ∃ i, i < s.created ∧ s.thId w = some i ∧
    ∃ d pc, s.threads i = some d ∧ d.role = .worker w pc

section Building

variable {s₀ s s' : State T n α} {t u : T} {count : Nat} {l : Label T n α}

omit [DecidableEq T] in
theorem Building.mine (h : Building t count s) : s.mutex = some t := by
  refine (h.held t).1 ?_
  rcases h.place with hpc | ⟨w, -, hpc⟩ | ⟨-, hpc | hpc⟩ <;> rw [hpc] <;> rfl

omit [DecidableEq T] in
theorem Building.busy (h : Building t count s) : s.calls t ≠ .idle := by
  rcases h.place with hpc | ⟨w, -, hpc⟩ | ⟨-, hpc | hpc⟩ <;> simp [hpc]

omit [DecidableEq T] in
/-- The other calls are outside their locked sections. -/
theorem Building.others (h : Building t count s) (hu : (s.calls u).locks = true) : u = t :=
  Option.some.inj (((h.held u).1 hu).symm.trans h.mine)

omit [DecidableEq T] in
/-- What a step leaves that neither moves the start nor touches a thread. -/
theorem Building.congr (h : Building t count s) (hheld : Held s') (hcalls : s'.calls t = s.calls t)
    (hthreads : s'.threads = s.threads) (hcreated : s'.created = s.created) (hth : s'.thId = s.thId) :
    Building t count s' := by
  refine ⟨by rw [hcalls]; exact h.place, hheld, fun w i hi => ?_, ?_⟩
  · rw [hth]
    exact h.alive w i (by simpa only [AliveOn, hthreads] using hi)
  · rw [hcreated, hth, hthreads]
    exact h.made

omit [DecidableEq T] in
theorem Building.thread {i : Nat} (h : Building t count s) (hheld : Held s') (hs : ThreadStep s i s') :
    Building t count s' := by
  obtain ⟨hth, hcreated⟩ := ThreadStep.handles hs
  refine ⟨by rw [hs.frame.1]; exact h.place, hheld, fun w j hj => ?_, fun w hw => ?_⟩
  · rw [hth]
    exact h.alive w j (ThreadStep.alive hs hj)
  · obtain ⟨j, hlt, hid, d, pc, hj, hrole⟩ := h.made w hw
    rw [hcreated, hth]
    exact ⟨j, hlt, hid, ThreadStep.stays hs hj hrole⟩

omit [DecidableEq T] in
/-- A thread is created on the record of the next worker. -/
theorem Building.create {w : Fin n} (h : Building t w s) (hheld : Held s') (hcalls : s'.calls t = .startWaiting (w + 1))
    (hthreads : s'.threads = (s.pthreadCreate (.worker w .semWait)).threads) (hcreated : s'.created = s.created + 1)
    (hth : s'.thId = Function.update s.thId w (some s.created)) : Building t (w + 1) s' := by
  refine ⟨Or.inl hcalls, hheld, ?_, fun v hv => ?_⟩
  · rintro v i ⟨e, pc, he, hrole, halive⟩
    rw [hthreads] at he
    rw [hth]
    rcases create_threads he with ⟨rfl, rfl⟩ | ⟨-, he⟩
    · cases hrole
      exact ⟨Nat.lt_succ_self _, Function.update_self ..⟩
    · obtain ⟨hlt, hid⟩ := h.alive v i ⟨e, pc, he, hrole, halive⟩
      have hvw : v ≠ w := Fin.ne_of_lt hlt
      exact ⟨Nat.lt_succ_of_lt hlt, (Function.update_of_ne hvw ..).trans hid⟩
  · rw [hth, hthreads, hcreated]
    rcases (Nat.lt_succ_iff.1 hv).eq_or_lt with heq | hlt
    · obtain rfl := Fin.ext heq
      exact ⟨s.created, Nat.lt_succ_self _, Function.update_self .., _, _, create_self, rfl⟩
    · obtain ⟨i, hi, hid, d, pc, hd, hrole⟩ := h.made v hlt
      have hvw : v ≠ w := Fin.ne_of_lt hlt
      exact ⟨i, Nat.lt_succ_of_lt hi, (Function.update_of_ne hvw ..).trans hid, d, pc,
        (Function.update_of_ne hi.ne ..).trans hd, hrole⟩

/-- The next step of the start itself. -/
theorem Building.call (h : Building t count s) (hs : CallStep s t s') :
    (∃ c, count ≤ c ∧ Building t c s') ∨ s'.calls t = .idle := by
  have hheld := h.held.call hs
  have hplace := h.place
  cases hs with
  | setWaiting w hpc =>
      obtain rfl : w.val = count := by simpa [hpc] using hplace
      refine Or.inl ⟨w, le_rfl, Or.inr (Or.inl ⟨w, rfl, Function.update_self ..⟩), hheld, ?_, h.made⟩
      exact fun v i hi => h.alive v i hi
  | allCreated c hpc hend =>
      obtain rfl : c = count := by simpa [hpc] using hplace
      refine Or.inl ⟨c, le_rfl, Or.inr (Or.inr ⟨not_lt.1 hend, Or.inl (Function.update_self ..)⟩), hheld, ?_, h.made⟩
      exact fun v i hi => h.alive v i hi
  | createWorker w hpc =>
      obtain rfl : w.val = count := by simpa [hpc, eq_comm] using hplace
      exact Or.inl ⟨w + 1, Nat.le_succ _, h.create hheld (Function.update_self ..) rfl rfl rfl⟩
  | createController hpc =>
      have hle : n ≤ count := by simpa [hpc] using hplace
      refine Or.inl ⟨count, le_rfl, Or.inr (Or.inr ⟨hle, Or.inr (Function.update_self ..)⟩), hheld, ?_, ?_⟩
      · exact fun v i hi => h.alive v i (alive_createController hi)
      · intro v hv
        obtain ⟨i, hi, hid, d, pc, hd, hrole⟩ := h.made v hv
        exact ⟨i, Nat.lt_succ_of_lt hi, hid, d, pc, (Function.update_of_ne hi.ne ..).trans hd, hrole⟩
  | started _ => exact Or.inr (Function.update_self ..)
  | refused hpc _ _ | statusOk hpc _ _ | startLock hpc _ | shutLock hpc _ | nothing hpc _ | shutCheck hpc _ | close hpc
  | joined _ _ hpc _ _ _ | notJoined hpc _ | shutdown hpc => simp [hpc] at hplace

theorem Building.step (h : Building t count s) (hs : Step s l s') :
    (∃ c, count ≤ c ∧ Building t c s') ∨ s'.calls t = .idle := by
  have hheld := h.held.step hs
  -- another call that is idle, or does not hold the mutex, moves by itself
  have hother : ∀ {u : T} {c : Pc n}, s.calls u = .idle → Function.update s.calls u c t = s.calls t := by
    intro u c hidle
    refine Function.update_of_ne ?_ ..
    rintro rfl
    exact h.busy hidle
  cases hs with
  | callStart u hidle => exact Or.inl ⟨count, le_rfl, h.congr hheld (hother hidle) rfl rfl rfl⟩
  | callShutdown u hidle => exact Or.inl ⟨count, le_rfl, h.congr hheld (hother hidle) rfl rfl rfl⟩
  | call u hcall =>
      by_cases hu : u = t
      · subst hu
        exact h.call hcall
      · -- the mutex is not free, and not that of `u`
        have hlocks : ∀ {c : Pc n}, s.calls u = c → c.locks = false := fun hpc =>
          Bool.eq_false_iff.2 fun hlocks => hu (h.others (by rw [hpc]; exact hlocks))
        have hmutex : s.mutex ≠ none := by simp [h.mine]
        cases hcall with
        | refused _ hfree _ | statusOk _ hfree _ | startLock _ hfree | shutLock _ hfree => exact absurd hfree hmutex
        | setWaiting _ hpc | allCreated _ hpc _ | createWorker _ hpc | createController hpc | started hpc
        | nothing hpc _ | shutCheck hpc _ | close hpc | joined _ _ hpc _ _ _ | notJoined hpc _ | shutdown hpc =>
            cases hlocks hpc
  | workerFails u w hpc | controllerFails u hpc =>
      obtain rfl := h.others (u := u) (by rw [hpc]; rfl)
      exact Or.inr (Function.update_self ..)
  | thread i hthread | taskReturn i hthread => exact Or.inl ⟨count, le_rfl, h.thread hheld hthread⟩
  | client a p _ _ _ => exact Or.inl ⟨count, le_rfl, h.congr hheld rfl rfl rfl rfl⟩

omit [DecidableEq T] in
/-- A start at its first worker has everything to build. -/
theorem Rest.building (h : Rest s₀ s) {w : Fin n} (hw : w.val = 0) (hpc : s.calls t = .startCreate w) :
    Building t 0 s where
  place := Or.inr (Or.inl ⟨w, hw, hpc⟩)
  held := h.held
  alive _ i hi := absurd (AliveOn.runs hi) (h.still i)
  made _ hv := absurd hv (Nat.not_lt_zero _)

omit [DecidableEq T] in
theorem Building.onePerWorker (h : Building t count s) (hpc : s.calls t = .startFinish)
    (hthreads : s'.threads = s.threads)
    (hth : s'.thId = s.thId) : OnePerWorker s' := by
  have hle : n ≤ count := by simpa [hpc] using h.place
  intro w
  obtain ⟨i, -, hid, hmade⟩ := h.made w (w.isLt.trans_le hle)
  rw [hth, hthreads]
  refine ⟨i, hid, hmade, fun j hj => ?_⟩
  obtain ⟨-, hid'⟩ := h.alive w j (by simpa only [AliveOn, hthreads] using hj)
  exact Option.some.inj (hid'.symm.trans hid)

end Building

section Runs

variable {bound : Nat} {s₀ s s' : State T n α} {t : T} {l : Label T n α} {k : Nat}

theorem callStep_of_step (h : s.step (.call t) = some s') : s.callStep t = some s' := by
  unfold State.step at h
  split at h
  · cases h
  · exact h

/-- Of a pool at rest: as long as no start takes the mutex, it stays at rest. -/
theorem Rest.run (h : Rest s₀ s) (hn : 0 < n) (hwaiting : (s₀.pool.workers ⟨0, hn⟩).status = .waiting)
    (hquiet : ∀ u, (s.calls u).creates = false) (hrun : Lts.Run (system T n α bound) NoStart s s') :
    Rest s₀ s' ∧ ∀ u, (s'.calls u).creates = false := by
  refine hrun.invariant (I := fun s => Rest s₀ s ∧ ∀ u, (s.calls u).creates = false) ?_ ⟨h, hquiet⟩
  intro a l b ⟨ha, hqa⟩ hok hstep
  have hs := Step.of hstep
  constructor
  · rcases ha.step hn hwaiting hs with hb | ⟨u, -, hpc⟩
    · exact hb
    · have hcreates := hqa u
      rw [hpc] at hcreates
      cases hcreates
  · intro u
    refine Bool.eq_false_iff.2 fun hu => ?_
    rcases Step.creates hs hu with hbefore | ⟨rfl, hpc⟩
    · rw [hqa u] at hbefore
      cases hbefore
    · exact hok u rfl hpc

/-- A start of a pool at rest has done nothing yet, or is creating threads, or has returned. -/
theorem Rest.start (h : Rest s₀ s) (hn : 0 < n) (hwaiting : (s₀.pool.workers ⟨0, hn⟩).status = .waiting)
    (hmine : ∀ u, (s.calls u).creates = true → u = t) (hrun : StartRun bound t s s') :
    (Rest s₀ s' ∧ ∀ u, (s'.calls u).creates = true → u = t) ∨ (∃ count, 0 < count ∧ Building t count s') ∨
      s'.calls t = .idle := by
  refine hrun.invariant (I := fun s => (Rest s₀ s ∧ ∀ u, (s.calls u).creates = true → u = t) ∨
    (∃ count, 0 < count ∧ Building t count s) ∨ s.calls t = .idle) ?_ (Or.inl ⟨h, hmine⟩)
  intro a l b ha ⟨hbusy, hok⟩ hstep
  have hs := Step.of hstep
  rcases ha with ⟨ha, hqa⟩ | ⟨count, hpos, ha⟩ | hdone
  · rcases ha.step hn hwaiting hs with hb | ⟨u, rfl, hpc⟩
    · refine Or.inl ⟨hb, fun u hu => ?_⟩
      rcases Step.creates hs hu with hbefore | ⟨rfl, hpc⟩
      · exact hqa u hbefore
      · exact hok u rfl hpc
    · -- the thread of the first worker is created
      obtain rfl := hqa u (by rw [hpc]; rfl)
      have hbuild := ha.building rfl hpc
      have hcall := callStep_of_step hstep
      have hheld := ha.held.call (.of hcall)
      simp only [State.callStep, hpc] at hcall
      cases hcall
      exact Or.inr (Or.inl ⟨1, Nat.one_pos, hbuild.create (w := ⟨0, hn⟩) hheld (Function.update_self ..) rfl rfl rfl⟩)
  · rcases ha.step hs with ⟨c, hle, hb⟩ | hidle
    · exact Or.inr (Or.inl ⟨c, hpos.trans_le hle, hb⟩)
    · exact Or.inr (Or.inr hidle)
  · exact absurd hdone hbusy

/-- A step of `t` that creates nothing leaves only `t` to create. -/
theorem Step.mine (hs : Step s l s') (hquiet : ∀ u, (s.calls u).creates = false) (hpc : ∀ u, l = .call u → u = t) :
    ∀ u, (s'.calls u).creates = true → u = t := by
  intro u hu
  rcases Step.creates hs hu with hbefore | ⟨hl, -⟩
  · rw [hquiet u] at hbefore
    cases hbefore
  · exact hpc u hl

/-- The next start that returns 0 gives each worker one thread. -/
theorem Rest.later (h : Rest s₀ s) (hn : 0 < n) (hwaiting : (s₀.pool.workers ⟨0, hn⟩).status = .waiting)
    (hquiet : ∀ u, (s.calls u).creates = false) {u : T} {a b c : State T n α}
    (ha : Lts.Run (system T n α bound) NoStart s a) (hidle : a.calls u = .idle)
    (hb : StartRun bound u (a.setCall u .startStatus) b)
    (hpc : b.calls u = .startFinish) (hc : b.step (.call u) = some c) : OnePerWorker c := by
  obtain ⟨hrest, hqa⟩ := h.run hn hwaiting hquiet ha
  have hcall : Step a (.callStart u) (a.setCall u .startStatus) := .callStart u hidle
  have hbegin : Rest s₀ (a.setCall u .startStatus) :=
    hrest.calls (c := .startStatus) rfl rfl rfl (hrest.held.step hcall) rfl
  rcases hbegin.start hn hwaiting (Step.mine hcall hqa nofun) hb with ⟨hrest, -⟩ | ⟨count, -, hbuild⟩ | hdone
  · have hearly := hrest.early u
    rw [hpc] at hearly
    cases hearly
  · have hcall := callStep_of_step hc
    simp only [State.callStep, hpc] at hcall
    cases hcall
    exact hbuild.onePerWorker hpc rfl rfl
  · cases hpc.symm.trans hdone

/-- Where the first creation fails, and the first worker has been waiting, nothing has been done. -/
theorem Rest.failureUndone (h : Rest s s) (hn : 0 < n) (hwaiting : (s.pool.workers ⟨0, hn⟩).status = .waiting)
    (hquiet : ∀ u, (s.calls u).creates = false) (hfinds : CallStep s t (s.setCall t .startLock)) :
    FailureUndone bound t 0 s := by
  intro s₁ s' hrun hpc hfail
  have hpc' : s₁.calls t = .startCreate ⟨0, hn⟩ := by rw [hpc, place, dif_pos hn]
  have hbegin : Rest s (s.setCall t .startLock) :=
    h.calls (c := .startLock) rfl rfl rfl (h.held.call hfinds) rfl
  have hmine := Step.mine (t := t) (.call t hfinds) hquiet fun u hu => (Label.call.inj hu).symm
  rcases hbegin.start hn hwaiting hmine hrun with ⟨hrest, hmine⟩ | ⟨count, hpos, hbuild⟩ | hdone
  · have hs := Step.of hfail
    rcases hrest.step hn hwaiting hs with hrest' | ⟨u, hl, -⟩
    · have hquiet' : ∀ u, (s'.calls u).creates = false := by
        intro u
        refine Bool.eq_false_iff.2 fun hu => ?_
        rcases Step.creates hs hu with hbefore | ⟨hl, -⟩
        · obtain rfl := hmine u hbefore
          cases hs with
          | workerFails _ w _ | controllerFails _ _ =>
              rw [show (State.leave s₁ u _).calls u = .idle from Function.update_self ..] at hu
              cases hu
        · cases hl
      exact ⟨hrest'.still, hrest'.workers, hrest'.poolSem, hrest'.status.trans h.status.symm,
        fun u a b c ha hidle hb hpc hc => hrest'.later hn hwaiting hquiet' ha hidle hb hpc hc⟩
    · cases hl
  · have hplace := hbuild.place
    simp [hpc'] at hplace
    omega
  · cases hpc'.symm.trans hdone

end Runs

/-- The start of `t` that has found the pool ready in `s` has created the threads of the first `k` workers, and no other
thread has taken a step. -/
structure Created (t : T) (k : Nat) (s s' : State T n α) : Prop where
  pc : s'.calls t = .startWaiting k
  running : s'.pool.aborted = none
  created : s'.created = s.created + k
  first : 0 < k → Runs s' s.created
  threads : k = 0 → s'.threads = s.threads

section Alone

variable {bound : Nat} {s s' s₁ s₂ : State T n α} {t : T} {k : Nat}

theorem StartRun.call (h : StartRun bound t s s₁) (hrun : s₁.pool.aborted = none) (hbusy : s₁.calls t ≠ .idle)
    (hs : s₁.callStep t = some s₂) : StartRun bound t s s₂ := by
  have hstep : s₁.step (.call t) = some s₂ := by simp [State.step, hrun, hs]
  exact h.tail ⟨hbusy, fun u hu _ => (Label.call.inj hu).symm⟩ hstep

theorem exists_created (bound : Nat) (hrun : s.pool.aborted = none) (hfree : s.mutex = none) :
    ∀ k ≤ n, ∃ s', StartRun bound t (s.setCall t .startLock) s' ∧ Created t k s s' := by
  intro k
  induction k with
  | zero =>
      intro _
      let a : State T n α := { s.setCall t .startLock with mutex := some t }.setCall t (.startWaiting 0)
      have hbegin : StartRun bound t (s.setCall t .startLock) (s.setCall t .startLock) := .refl _
      have ha : StartRun bound t (s.setCall t .startLock) a := hbegin.call hrun (by simp [State.setCall])
        (by simp [State.callStep, State.setCall, hfree, a])
      exact ⟨a, ha, by simp [State.setCall, a], hrun, rfl, fun h => absurd h (lt_irrefl 0), fun _ => rfl⟩
  | succ k ih =>
      intro hk
      obtain ⟨a, hreach, ha⟩ := ih (Nat.le_of_succ_le hk)
      let w : Fin n := ⟨k, hk⟩
      let b : State T n α :=
        { a with pool := a.pool.setWorker w { a.pool.workers w with status := .waiting } }.setCall t (.startCreate w)
      have hb : StartRun bound t (s.setCall t .startLock) b := hreach.call ha.running (by simp [ha.pc])
        (by simp [State.callStep, ha.pc, Nat.lt_of_succ_le hk, b, w])
      let c : State T n α := { b.pthreadCreate (.worker w .semWait) with
        thId := Function.update b.thId w (some b.created) }.setCall t (.startWaiting (w + 1))
      have hc : StartRun bound t (s.setCall t .startLock) c := hb.call ha.running (by simp [State.setCall, b])
        (by simp [State.callStep, State.setCall, b, c])
      refine ⟨c, hc, by simp [State.setCall, c, w], ha.running, ?_, fun _ => ?_, fun h => absurd h (Nat.succ_ne_zero k)⟩
      · show a.created + 1 = s.created + (k + 1)
        rw [ha.created, Nat.add_assoc]
      · rcases Nat.eq_zero_or_pos k with rfl | hpos
        · have hcreated : s.created = a.created := ha.created.symm
          rw [hcreated]
          exact ⟨_, create_self (s := b), rfl⟩
        · obtain ⟨d, hd, halive⟩ := ha.first hpos
          have hne : s.created ≠ a.created := by
            rw [ha.created]
            omega
          exact ⟨d, (Function.update_of_ne hne ..).trans hd, halive⟩

theorem createFails_step {a : State T n α} {c : Pc n} (hrun : a.pool.aborted = none) (hpc : a.calls t = c)
    (hc : (∃ w, c = .startCreate w) ∨ c = .startController) :
    ∃ s', a.step (.createFails t) = some s' ∧ s'.threads = a.threads ∧ s'.pool = a.pool := by
  rcases hc with ⟨w, rfl⟩ | rfl
  · exact ⟨a.leave t (.failed w), by simp [State.step, State.createFails, hrun, hpc], rfl, rfl⟩
  · exact ⟨a.leave t (.failed n), by simp [State.step, State.createFails, hrun, hpc], rfl, rfl⟩

/-- A start that leaves the pool as it was has done nothing. -/
theorem FailureUndone.first (h : FailureUndone bound t k s) (hn : 0 < n) (hrun : s.pool.aborted = none)
    (hfree : s.mutex = none) (hk : k ≤ n) :
    (∀ i, ¬ Runs s i) ∧ k = 0 ∧ (s.pool.workers ⟨0, hn⟩).status = .waiting := by
  obtain ⟨a, hreach, ha⟩ := exists_created (t := t) bound hrun hfree k hk
  rcases hk.lt_or_eq with hlt | rfl
  · let w : Fin n := ⟨k, hlt⟩
    let b : State T n α :=
      { a with pool := a.pool.setWorker w { a.pool.workers w with status := .waiting } }.setCall t (.startCreate w)
    have hpc : b.calls t = .startCreate w := by simp [State.setCall, b]
    have hb : StartRun bound t (s.setCall t .startLock) b := hreach.call ha.running (by simp [ha.pc])
      (by simp [State.callStep, ha.pc, hlt, b, w])
    obtain ⟨s', hfail, hthreads, hpool⟩ := createFails_step (a := b) ha.running hpc (Or.inl ⟨w, rfl⟩)
    have hundone := h b s' hb (by rw [hpc, place, dif_pos hlt]) hfail
    have hgone : ∀ i, ¬ Runs a i := by
      intro i hi
      apply hundone.gone i
      unfold Runs
      rw [hthreads]
      exact hi
    obtain rfl : k = 0 := Nat.eq_zero_of_not_pos fun hpos => hgone _ (ha.first hpos)
    refine ⟨fun i hi => hgone i (by simpa only [Runs, ha.threads rfl] using hi), rfl, ?_⟩
    rw [← hundone.workers, hpool]
    simp [b, w, State.setCall]
  · let b : State T k α := a.setCall t .startController
    have hpc : b.calls t = .startController := by simp [State.setCall, b]
    have hb : StartRun bound t (s.setCall t .startLock) b := hreach.call ha.running (by simp [ha.pc])
      (by simp [State.callStep, ha.pc, b])
    obtain ⟨s', hfail, hthreads, -⟩ := createFails_step (a := b) ha.running hpc (Or.inr rfl)
    have hundone := h b s' hb (by rw [hpc, place, dif_neg (lt_irrefl _)]) hfail
    obtain ⟨d, hd, halive⟩ := ha.first hn
    exact absurd ⟨d, by rw [hthreads]; exact hd, halive⟩ (hundone.gone s.created)

/-- The mutex is free when the status is read. -/
theorem FindsReady.cases (h : FindsReady t s) :
    s.pool.aborted = none ∧ s.mutex = none ∧ s.pool.status = .ready ∧ CallStep s t (s.setCall t .startLock) := by
  have hrun : s.pool.aborted = none := by
    unfold FindsReady State.step at h
    split at h
    · cases h
    · exact Option.not_isSome_iff_eq_none.1 ‹_›
  have hcall : CallStep s t (s.setCall t .startLock) := .of (callStep_of_step h)
  have hpc : (s.setCall t .startLock).calls t = .startLock := Function.update_self ..
  refine ⟨hrun, ?_⟩
  -- of the steps of a call only this one goes to where the mutex is taken
  revert hcall hpc
  generalize hnext : s.setCall t .startLock = s'
  intro hcall hpc
  cases hcall with
  | statusOk _ hfree hst => exact ⟨hfree, hst, hnext ▸ .of (callStep_of_step h)⟩
  | refused _ _ _ | startLock _ _ | setWaiting _ _ | allCreated _ _ _ | createWorker _ _ | createController _ | started _
  | shutLock _ _ | nothing _ _ | shutCheck _ _ | close _ | joined _ _ _ _ _ _ | notJoined _ _ | shutdown _ =>
      simp [State.setCall, State.leave] at hpc

end Alone

theorem early_of_not_locks {c : Pc n} (h : c.locks = false) : early c = true := by
  cases c <;> first | rfl | cases h

theorem not_creates_of_not_locks {c : Pc n} (h : c.locks = false) : c.creates = false := by
  cases c <;> first | rfl | cases h

/-- **A start that fails leaves the pool as it was** exactly if no thread of the pool runs, the first creation
fails, and the first worker has been waiting: for every start that finds the pool ready, after whatever has been
done to it, and every creation that may fail, however the other threads take their turns. -/
theorem failed_start_undone_iff (bound : Nat) (hn : 0 < n) (s : State T n α)
    (hs : Lts.Reachable (system T n α bound) s) (t : T) (hfinds : FindsReady t s) (k : Nat) (hk : k ≤ n) :
    FailureUndone bound t k s ↔
      (∀ i, ¬ Runs s i) ∧ k = 0 ∧ (s.pool.workers ⟨0, hn⟩).status = .waiting := by
  obtain ⟨hrun, hfree, hready, hcall⟩ := hfinds.cases
  constructor
  · exact fun h => h.first hn hrun hfree hk
  · rintro ⟨hstill, rfl, hwaiting⟩
    have hheld := held_reachable hs
    -- the mutex is free, so that no call is in its locked section
    have hout : ∀ u, (s.calls u).locks = false := fun u =>
      Bool.eq_false_iff.2 fun hu => by simp [(hheld u).1 hu] at hfree
    have hrest : Rest s s := ⟨hready, rfl, rfl, hstill, hheld, fun u => early_of_not_locks (hout u)⟩
    exact hrest.failureUndone hn hwaiting (fun u => not_creates_of_not_locks (hout u)) hcall

/-- A pool of one worker that has been started and shut down: a start that cannot create the first thread leaves
it as it was. -/
theorem failed_start_undone_first : ∃ s : State Bool 1 Unit, Lts.Reachable (system Bool 1 Unit 1) s ∧
    s.log = [.shutdown, .started] ∧ FindsReady true s ∧ FailureUndone 1 true 0 s := by
  obtain ⟨s, hs, hp⟩ := Lts.exec_of_any (f := Lts.guarded Careful State.step) (s := start Bool 1 Unit 1)
    (p := fun s => decide (s.log = [.shutdown, .started] ∧ s.pool.aborted = none ∧ s.pool.status = .ready ∧
      s.mutex = none ∧ s.calls true = .startStatus ∧ (s.pool.workers 0).status = .waiting ∧ s.created = 2 ∧
      (s.threads 0).map (·.role.ended) = some true ∧ (s.threads 1).map (·.role.ended) = some true))
    (l := List.flatten [.callStart true :: List.replicate 7 (.call true),
      .callShutdown false :: List.replicate 3 (.call false),
      List.replicate 5 (.thread 1), List.replicate 3 (.thread 0), List.replicate 2 (.thread 1),
      List.replicate 2 (.call false), [.callStart true]]) (by decide +kernel)
  obtain ⟨hlog, hrun, hready, hfree, hpc, hwaiting, hcreated, h0, h1⟩ := of_decide_eq_true hp
  have hcareful : Lts.ReachableIf (system Bool 1 Unit 1) Careful s := ⟨_, rfl, Lts.exec_guarded_run hs⟩
  have hfinds : FindsReady true s := by simp [FindsReady, State.step, State.callStep, hrun, hready, hfree, hpc]
  refine ⟨s, hcareful.reachable, hlog, hfinds, (failed_start_undone_iff 1 Nat.one_pos s hcareful.reachable true hfinds
    0 (Nat.zero_le _)).2 ⟨?_, rfl, hwaiting⟩⟩
  rintro i ⟨d, hi, halive⟩
  rcases i with _ | _ | i
  · simp [hi, halive] at h0
  · simp [hi, halive] at h1
  · rw [(inv_reachable hcareful).table.fresh (i + 2) (by omega)] at hi
    cases hi

/-- The second of two threads cannot be created: the first worker is left with a thread, and when the pool is
started again it gets another one. -/
theorem failed_start_leaves :
    (∃ s : State Bool 2 Unit, s = (start Bool 2 Unit 1).setCall true .startStatus ∧ FindsReady true s ∧
      ¬ FailureUndone 1 true 1 s) ∧
    ∃ s s' : State Bool 2 Unit, Lts.Reachable (system Bool 2 Unit 1) s ∧ s.log = [.failed 1] ∧
      s.pool.status = .ready ∧ AliveOn s 0 0 ∧ Lts.Reachable (system Bool 2 Unit 1) s' ∧
      s'.log = [.started, .failed 1] ∧ AliveOn s' 0 0 ∧ AliveOn s' 0 1 := by
  refine ⟨⟨_, rfl, rfl, fun h => ?_⟩, ?_⟩
  · have hfirst := h.first Nat.two_pos rfl rfl (by decide)
    exact absurd hfirst.2.1 Nat.one_ne_zero
  · obtain ⟨s, s', hs, hp, hs', hp'⟩ := Lts.exec_of_any_then (f := State.step) (g := State.step)
      (s := start Bool 2 Unit 1)
      (p := fun s => decide (s.log = [.failed 1] ∧ s.pool.status = .ready ∧
        (s.threads 0).map Thread.role = some (.worker 0 .semWait)))
      (q := fun s => decide (s.log = [.started, .failed 1] ∧ (s.threads 0).map Thread.role = some (.worker 0 .semWait) ∧
        (s.threads 1).map Thread.role = some (.worker 0 .semWait)))
      (l := .callStart true :: List.replicate 5 (.call true) ++ [.createFails true])
      (m := .callStart true :: List.replicate 9 (.call true)) (by decide +kernel)
    obtain ⟨hlog, hready, h0⟩ := of_decide_eq_true hp
    obtain ⟨hlog', h0', h1'⟩ := of_decide_eq_true hp'
    obtain ⟨d, hd, hrole⟩ := Option.map_eq_some_iff.1 h0
    obtain ⟨d', hd', hrole'⟩ := Option.map_eq_some_iff.1 h0'
    obtain ⟨e', he', hrole''⟩ := Option.map_eq_some_iff.1 h1'
    have hreach : Lts.Reachable (system Bool 2 Unit 1) s := Lts.exec_reachable rfl hs
    exact ⟨s, s', hreach, hlog, hready, ⟨d, _, hd, hrole, nofun⟩, hreach.run (Lts.exec_run hs'), hlog',
      ⟨d', _, hd', hrole', nofun⟩, ⟨e', _, he', hrole'', nofun⟩⟩

end ComplexSim.FailedStart
