import ComplexSim.Workerpool.Invariant

/-!
# A pool that is started again

`cs_wp_shutdown` leaves the pool `CS_WPS_READY`, so `cs_wp_start` accepts it again. But the queue of its
tasks has been closed, and nothing opens it: `cs_queue_enqueue` drops what it is given and returns 0, so
that `cs_wp_tsk_enqueue` returns an id for a task that is never performed (`Spent`).

`lives` is a pool that may be started again whenever it has been shut down. A `Session` is one thread
that makes a sequence of calls on a pool, one after the other; an id that it passes is one that an
earlier call of the sequence has returned. Two pools behave alike on a sequence when it has the same
outcomes on both (`SameOutcomes`): what the calls return, which tasks are called in between, and whether
the sequence can get stuck.
-/

namespace ComplexSim.Restart

open Workerpool

variable {n : Nat} {α : Type}

/-- What `cs_wp_start` makes of a pool that is ready. -/
def started (s : Pool n α) : Pool n α :=
  { s with workers := fun w => { s.workers w with status := .waiting, pc := .semWait }
           ctl := .dequeueWait
           status := .working }

inductive LifeLabel (n : Nat) (α : Type) where
  | act (a : Pool.Action n α)
  /-- `cs_wp_start`, once the threads of the last life have ended -/
  | restart

def lifeStep (s : Pool n α) : LifeLabel n α → Option (Pool n α)
  | .act a => s.step a
  | .restart =>
      if s.aborted = none ∧ s.shut.holds = false ∧ s.status = .ready ∧ s.ctl = .ended then some (started s)
      else none

/-- A pool of `n` workers and a queue of `bound` places, used, shut down and started as often as one
likes. -/
def lives (n : Nat) (α : Type) (bound : Nat) : Lts.System (Pool n α) (LifeLabel n α) :=
  .ofFn (· = csWpInit n α bound) lifeStep

/-- The calls of a sequence. The task of `wait` or `getRes` is the one of the `j`-th call of
`cs_wp_tsk_enqueue` in the sequence. -/
inductive Op (α : Type) where
  | enqueue (x : α)
  | wait (j : Nat)
  | getRes (j : Nat)
  | shutdown

/-- What can be seen of a sequence. -/
inductive Outcome (α : Type) where
  /-- `cs_wp_tsk_enqueue` returns an id, or -1 -/
  | enqueued (accepted : Bool)
  | waited
  /-- `cs_wp_tsk_get_res` returns NULL, or the result of a task, which is named by its code -/
  | result (r : Option (Option α))
  | shutDown (r : Int)
  /-- the code of a task is called -/
  | performed (x : Option α)
  deriving DecidableEq

/-- Where the thread is in its sequence. -/
inductive Cur where
  | out
  | enqueue
  | wait
  /-- in the `cs_wp_tsk_wait` of `cs_wp_tsk_get_res` -/
  | getRes (id : Int)
  /-- in `cs_wp_tsk_get_res`, before the look-up of the result -/
  | fetch (id : Int)
  | shutdown
  deriving DecidableEq

structure Session (n : Nat) (α : Type) where
  pool : Pool n α
  /-- the calls to come -/
  ops : List (Op α)
  cur : Cur
  /-- what the calls of `cs_wp_tsk_enqueue` have returned -/
  ids : List Int
  trace : List (Outcome α)

inductive Label (n : Nat) (α : Type) where
  /-- the next call of the sequence is made -/
  | call
  /-- the section of `cs_wp_tsk_get_res` on the table -/
  | fetch
  | pool (a : Pool.Action n α)

namespace Session

/-- The id of the `j`-th enqueue, or -1. -/
def id (s : Session n α) (j : Nat) : Int := s.ids.getD j (-1)

def call (s : Session n α) (c : Nat) : Option (Session n α) :=
  match s.cur, s.ops with
  | .out, .enqueue x :: ops =>
      (s.pool.step (.callEnqueue (.ext c) x)).map fun p => { s with pool := p, ops := ops, cur := .enqueue }
  | .out, .wait j :: ops =>
      (s.pool.step (.callWait (.ext c) (s.id j))).map fun p => { s with pool := p, ops := ops, cur := .wait }
  | .out, .getRes j :: ops =>
      (s.pool.step (.callWait (.ext c) (s.id j))).map fun p => { s with pool := p, ops := ops, cur := .getRes (s.id j) }
  | .out, .shutdown :: ops =>
      (s.pool.step .callShutdown).map fun p => { s with pool := p, ops := ops, cur := .shutdown }
  | _, _ => none

/-- `rb_find` and `_cs_wp_get_tsk_res_copy`. -/
def lookup (p : Pool n α) (id : Int) : Option (Option α) :=
  if 0 ≤ id ∧ id.toNat ∈ p.table then some (p.tsk id.toNat).tskCode else none

def fetch (s : Session n α) : Option (Session n α) :=
  match s.cur with
  | .fetch id =>
      if s.pool.tableMutex = none ∧ s.pool.aborted = none then
        some { s with cur := .out, trace := s.trace ++ [.result (lookup s.pool id)] }
      else none
  | _ => none

/-- The call in progress returns. -/
def ret (s : Session n α) (o : Outcome α) : Session n α := { s with cur := .out, trace := s.trace ++ [o] }

/-- The pool has made a step, and is `p`. -/
def see (s : Session n α) (c : Nat) (p : Pool n α) : PoolEvent n α → Session n α
  | .started _ _ x => { s with pool := p, trace := s.trace ++ [.performed x] }
  | .enqueueRet (.ext k) r =>
      if k = c then { s with pool := p, ids := s.ids ++ [r] }.ret (.enqueued (0 ≤ r)) else { s with pool := p }
  | .waitRet (.ext k) _ =>
      if k = c then match s.cur with
        | .getRes id => { s with pool := p, cur := .fetch id }
        | _ => { s with pool := p }.ret .waited
      else { s with pool := p }
  | .shutdownRet r => { s with pool := p }.ret (.shutDown r)
  | _ => { s with pool := p }

/-- The actions of a session: the thread makes its calls by `call`, and the other threads from outside
make none. -/
def own : Pool.Action n α → Bool
  | .start | .callShutdown | .callGetStatus (.ext _) | .callEnqueue (.ext _) _ | .callWait (.ext _) _ => false
  | _ => true

def step (c : Nat) (s : Session n α) : Label n α → Option (Session n α)
  | .call => s.call c
  | .fetch => s.fetch
  | .pool a => if own a then (s.pool.stepEvent a).map fun (p, e) => s.see c p e else none

end Session

/-- The sequence `ops` begins on the pool `p`. -/
def begin (p : Pool n α) (ops : List (Op α)) : Session n α :=
  { pool := p, ops := ops, cur := .out, ids := [], trace := [] }

/-- The sequence `ops`, made by the thread `c` on the pool `p`. -/
def session (c : Nat) (p : Pool n α) (ops : List (Op α)) : Lts.System (Session n α) (Label n α) :=
  .ofFn (· = begin p ops) (Session.step c)

/-- No task is enqueued before the pool is shut down. -/
def late : List (Op α) → Bool
  | [] | .shutdown :: _ => true
  | .enqueue _ :: _ => false
  | .wait _ :: ops | .getRes _ :: ops => late ops

/-- In `cs_wp_tsk_enqueue`. -/
def enqueues : CallPc α → Bool
  | .enqStatus _ | .enqCreate _ | .enqTable _ | .enqLimit _ | .enqQueue _ | .enqInsert _ _ => true
  | .idle | .getStatus | .waitFind _ | .waitStatus _ | .waitSem _ => false

/-- A pool that has been used in any way and shut down: `cs_wp_shutdown` has returned 0, and the status
is `CS_WPS_READY`. The thread `c` makes no call, and nobody is left in `cs_wp_tsk_enqueue`. -/
structure ShutDown (bound c : Nat) (p : Pool n α) : Prop where
  used : Lts.Reachable (lives n α bound) p
  running : p.aborted = none
  status : p.status = .ready
  ended : p.ctl = .ended
  returned : p.shut = .returned
  idle : p.calls (.ext c) = .idle
  quiet : ∀ k, enqueues (p.calls k) = false

/-- A pool that has been started again: its queue is closed for ever. -/
structure Spent (s : Pool n α) : Prop where
  closed : s.tskQ.status = .closed
  empty : s.tskQ.elems = []
  unassigned : ∀ w, (s.workers w).assignedTsk = none
  flagged : ∀ w, (s.workers w).shutdown = true
  /-- the controller has no task -/
  hand : ∀ t, s.ctl ≠ .poolSem t ∧ (∀ count, s.ctl ≠ .scan t count) ∧ ∀ w, s.ctl ≠ .assign t w

section Spent

variable {s s' : Pool n α} {a : Pool.Action n α} {e : PoolEvent n α}

theorem spent_dequeue {q : CsQueue TskId} (hclosed : q.status = .closed) (hempty : q.elems = []) :
    csQueueDequeue q = .null := by
  simp [csQueueDequeue, hclosed, hempty]

theorem Spent.setWorker (h : Spent s) {w : Fin n} {d : Worker} (hnone : d.assignedTsk = none) (hflag : d.shutdown = true) :
    Spent (s.setWorker w d) := by
  refine ⟨h.closed, h.empty, fun v => ?_, fun v => ?_, h.hand⟩
  · by_cases hv : v = w
    · subst hv
      simpa using hnone
    · simpa [hv] using h.unassigned v
  · by_cases hv : v = w
    · subst hv
      simpa using hflag
    · simpa [hv] using h.flagged v

theorem Spent.setCtl (h : Spent s) {c : ControllerPc n}
    (hc : ∀ t, c ≠ .poolSem t ∧ (∀ count, c ≠ .scan t count) ∧ ∀ w, c ≠ .assign t w) :
    Spent { s with ctl := c } :=
  ⟨h.closed, h.empty, h.unassigned, h.flagged, hc⟩

theorem Spent.worker (h : Spent s) {w : Fin n} (hs : s.WorkerStep w s' e) : Spent s' ∧ ∀ v t x, e ≠ .started v t x := by
  have hw := h.unassigned w
  have hf := h.flagged w
  cases hs with
  | wake _ _ | wokenOk _ _ | exit _ _ _ => exact ⟨h.setWorker hw hf, nofun⟩
  | wokenFail _ _ | takeNone _ _ _ | releaseFail _ _ _ =>
      exact ⟨⟨h.closed, h.empty, h.unassigned, h.flagged, h.hand⟩, nofun⟩
  | take t _ htsk _ | takeFail t _ htsk _ =>
      rw [hw] at htsk
      cases htsk
  | release t _ _ =>
      have hrest := h.setWorker (w := w)
        (d := { s.workers w with status := .waiting, assignedTsk := none, pc := .setDone t }) rfl hf
      exact ⟨⟨h.closed, h.empty, hrest.unassigned, hrest.flagged, h.hand⟩, nofun⟩
  | setDone t _ =>
      have hrest := h.setWorker (w := w) (d := { s.workers w with pc := .signalEnd t }) hw hf
      exact ⟨⟨h.closed, h.empty, hrest.unassigned, hrest.flagged, h.hand⟩, nofun⟩
  | signalEnd t _ =>
      have hrest := h.setWorker (w := w) (d := { s.workers w with pc := .semWait }) hw hf
      exact ⟨⟨h.closed, h.empty, hrest.unassigned, hrest.flagged, h.hand⟩, nofun⟩

theorem Spent.controller (h : Spent s) (hs : s.ControllerStep s') : Spent s' := by
  cases hs with
  | dequeueWait _ _ | leave _ _ | allSent _ _ _ | join _ _ _ | ended _ _ _ =>
      exact ⟨h.closed, h.empty, h.unassigned, h.flagged, by simp⟩
  | noHead _ hq | badSize _ hq | dequeue _ _ _ hq =>
      rw [spent_dequeue h.closed h.empty] at hq
      cases hq
  | poolSem t hpc _ => exact absurd hpc (h.hand t).1
  | found t w hpc _ | pass t w hpc _ => exact absurd hpc ((h.hand t).2.1 _)
  | noWorker t count hpc _ => exact absurd hpc ((h.hand t).2.1 count)
  | assign t w hpc => exact absurd hpc ((h.hand t).2.2 w)
  | notify w _ | postShutdown w _ => exact (h.setCtl (by simp)).setWorker (h.unassigned w) (h.flagged w)
  | sendShutdown w _ => exact (h.setCtl (by simp)).setWorker (h.unassigned w) rfl

/-- A spent pool stays so, and calls no task. -/
theorem Spent.step (h : Spent s) (hs : s.Step a s' e) : Spent s' ∧ ∀ w t x, e ≠ .started w t x := by
  cases hs with
  | startAgain _ _ | callGetStatus _ _ _ | callEnqueue _ _ _ _ | callWait _ _ _ _ | callShutdown _
  | create _ _ _ _ _ => exact ⟨⟨h.closed, h.empty, h.unassigned, h.flagged, h.hand⟩, nofun⟩
  | start _ _ _ => exact ⟨⟨h.closed, h.empty, h.unassigned, h.flagged, by simp⟩, nofun⟩
  | call k hk =>
      cases hk with
      | append _ _ hopen =>
          rw [h.closed] at hopen
          cases hopen
      | getStatus _ _ | refused _ _ _ _ | statusOk _ _ _ _ | lockTable _ _ _ | limit _ _ _ | drop _ _ _
      | failed _ _ _ _ | duplicate _ _ _ _ | insert _ _ _ _ _ | find _ _ _ _ | notFound _ _ _ _ | isDone _ _ _
      | notDone _ _ _ | waitEnd _ _ _ => exact ⟨⟨h.closed, h.empty, h.unassigned, h.flagged, h.hand⟩, nofun⟩
  | worker w hw => exact h.worker hw
  | taskReturn w t _ _ =>
      have hrest := h.setWorker (w := w) (d := { s.workers w with pc := .release t }) (h.unassigned w) (h.flagged w)
      exact ⟨⟨h.closed, h.empty, hrest.unassigned, hrest.flagged, h.hand⟩, nofun⟩
  | controller hc => exact ⟨h.controller hc, nofun⟩
  | shutdown hsh =>
      cases hsh with
      | close _ => exact ⟨⟨rfl, h.empty, h.unassigned, h.flagged, h.hand⟩, nofun⟩
      | lock _ | nothing _ _ | check _ _ | join _ _ | finish _ =>
          exact ⟨⟨h.closed, h.empty, h.unassigned, h.flagged, h.hand⟩, nofun⟩

theorem Spent.started (h : Spent s) : Spent (started s) :=
  ⟨h.closed, h.empty, h.unassigned, h.flagged, fun _ => ⟨nofun, nofun, nofun⟩⟩

/-- The first shutdown spends the pool. -/
theorem spent_of_ended (h : PoolInv s) (hended : s.ctl = .ended) : Spent s := by
  obtain ⟨hclosed, hempty⟩ := h.queue.left (by rw [hended]; rfl)
  have hw : ∀ w, (s.workers w).assignedTsk = none ∧ (s.workers w).shutdown = true := by
    intro w
    obtain ⟨hflag, hpc⟩ := h.handshake.worker w
    rw [h.handshake.ended hended w] at hpc
    rw [hended] at hflag
    exact ⟨hpc.2.2.1, hflag⟩
  exact ⟨hclosed, hempty, fun w => (hw w).1, fun w => (hw w).2, by simp [hended]⟩

/-- Nobody but a caller that holds the table mutex is in the section under it. -/
def Locked (s : Pool n α) : Prop := ∀ k, (s.calls k).locks = true ↔ s.tableMutex = some k

theorem Locked.keep (h : Locked s) {k : Caller n} {c : CallPc α} (hc : c.locks = (s.calls k).locks) :
    Locked (s.setCall k c) := by
  intro k'
  show (Function.update s.calls k c k').locks = true ↔ s.tableMutex = some k'
  by_cases hk : k' = k
  · subst hk
    rw [Function.update_self, hc]
    exact h k'
  · rw [Function.update_of_ne hk]
    exact h k'

theorem Locked.take (h : Locked s) {k : Caller n} {c : CallPc α} (hfree : s.tableMutex = none) (hc : c.locks = true) :
    Locked ({ s with tableMutex := some k }.setCall k c) := by
  intro k'
  show (Function.update s.calls k c k').locks = true ↔ some k = some k'
  by_cases hk : k' = k
  · subst hk
    rw [Function.update_self]
    exact iff_of_true hc rfl
  · rw [Function.update_of_ne hk, h k', hfree]
    exact iff_of_false nofun fun heq => hk (Option.some.inj heq).symm

theorem Locked.give (h : Locked s) {k : Caller n} {c : CallPc α} (hk : (s.calls k).locks = true) (hc : c.locks = false) :
    Locked ({ s with tableMutex := none }.setCall k c) := by
  intro k'
  show (Function.update s.calls k c k').locks = true ↔ none = some k'
  refine iff_of_false ?_ nofun
  by_cases hk' : k' = k
  · subst hk'
    rw [Function.update_self, hc]
    exact nofun
  · rw [Function.update_of_ne hk', h k', (h k).1 hk]
    exact fun heq => hk' (Option.some.inj heq).symm

theorem Locked.call (h : Locked s) {k : Caller n} (hs : s.CallStep k s' e) : Locked s' := by
  cases hs with
  | lockTable t _ hfree => exact h.take hfree rfl
  | failed t r hpc _ => exact h.give (by rw [hpc]; rfl) rfl
  | insert t r hpc _ _ => exact h.give (s := { s with table := _, returned := _ }) (by simp [hpc, CallPc.locks]) rfl
  | duplicate _ _ _ _ => exact h
  | append t hpc _ => exact h.keep (s := { s with tskQ := _ }) (by simp [hpc, CallPc.locks])
  | limit t hpc _ => exact h.keep (s := { s with tskQ := _ }) (by simp [hpc, CallPc.locks])
  | waitEnd t hpc _ => exact h.keep (s := s.setTsk t _) (by simp [hpc, CallPc.locks])
  | getStatus hpc _ | refused _ hpc _ _ | statusOk _ hpc _ _ | drop _ hpc _ | find _ hpc _ _ | notFound _ hpc _ _
  | isDone _ hpc _ | notDone _ hpc _ => exact h.keep (by simp [hpc, CallPc.locks])

theorem Locked.step (h : Locked s) (hs : s.Step a s' e) : Locked s' := by
  cases hs with
  | callGetStatus k hidle _ | callEnqueue k _ hidle _ | callWait k _ hidle _ => exact h.keep (by simp [hidle, CallPc.locks])
  | create k t x hpc _ =>
      exact h.keep (s := ({ s with lastId := t }).setTsk t _) (k := k) (c := .enqTable t) (by simp [hpc, CallPc.locks])
  | call k hk => exact h.call hk
  | worker w hw =>
      obtain ⟨-, -, hcalls, -, -, -, -, -, hmutex, -⟩ := hw.frame
      simpa only [Locked, hcalls, hmutex] using h
  | controller hc =>
      obtain ⟨-, hcalls, -, -, -, -, hmutex, -⟩ := hc.frame
      simpa only [Locked, hcalls, hmutex] using h
  | shutdown hsh => cases hsh <;> exact h
  | startAgain _ _ | start _ _ _ | callShutdown _ | taskReturn _ _ _ _ => exact h

/-- A queue without places, which never gets a task. -/
structure Roomless (s : Pool n α) : Prop where
  limit : s.tskQ.qlimitSem = 0
  empty : s.tskQ.elems = []
  none : ∀ k t, s.calls k ≠ .enqQueue t

theorem Roomless.moved (h : Roomless s) {k : Caller n} {c : CallPc α} (hc : ∀ t, c ≠ .enqQueue t) :
    ∀ k' t, Function.update s.calls k c k' ≠ .enqQueue t := by
  intro k' t
  by_cases hk : k' = k
  · subst hk
    rw [Function.update_self]
    exact hc t
  · rw [Function.update_of_ne hk]
    exact h.none k' t

theorem Roomless.call (h : Roomless s) {k : Caller n} (hs : s.CallStep k s' e) : Roomless s' := by
  cases hs with
  | limit t _ hsem =>
      have hlimit := h.limit
      omega
  | append t hpc _ | drop t hpc _ => exact absurd hpc (h.none k t)
  | duplicate _ _ _ _ => exact ⟨h.limit, h.empty, h.none⟩
  | getStatus _ _ | refused _ _ _ _ | statusOk _ _ _ _ | lockTable _ _ _ | failed _ _ _ _ | insert _ _ _ _ _
  | find _ _ _ _ | notFound _ _ _ _ | isDone _ _ _ | notDone _ _ _ | waitEnd _ _ _ =>
      exact ⟨h.limit, h.empty, h.moved (by simp)⟩

theorem Roomless.step (h : Roomless s) (hs : s.Step a s' e) : Roomless s' := by
  cases hs with
  | callGetStatus _ _ _ | callEnqueue _ _ _ _ | callWait _ _ _ _ | create _ _ _ _ _ =>
      exact ⟨h.limit, h.empty, h.moved (by simp)⟩
  | call k hk => exact h.call hk
  | worker w hw =>
      obtain ⟨-, -, hcalls, hq, -⟩ := hw.frame
      exact ⟨by rw [hq]; exact h.limit, by rw [hq]; exact h.empty, by rw [hcalls]; exact h.none⟩
  | controller hc =>
      cases hc with
      | dequeue t q _ hq => simp [csQueueDequeue, h.empty] at hq; split at hq <;> cases hq
      | dequeueWait _ _ | leave _ _ | noHead _ _ | badSize _ _ | poolSem _ _ _ | found _ _ _ _ | pass _ _ _ _
      | noWorker _ _ _ _ | assign _ _ _ | notify _ _ | sendShutdown _ _ | allSent _ _ _ | postShutdown _ _ | join _ _ _
      | ended _ _ _ => exact ⟨h.limit, h.empty, h.none⟩
  | shutdown hsh => cases hsh <;> exact ⟨h.limit, h.empty, h.none⟩
  | startAgain _ _ | start _ _ _ | callShutdown _ | taskReturn _ _ _ _ => exact ⟨h.limit, h.empty, h.none⟩

end Spent

/-- What holds of a pool in each of its lives. -/
structure LifeInv (bound : Nat) (s : Pool n α) : Prop where
  life : PoolInv s ∨ Spent s
  locked : Locked s
  room : bound = 0 → Roomless s

theorem lifeInv_reachable {bound : Nat} {s : Pool n α} (h : Lts.Reachable (lives n α bound) s) : LifeInv bound s := by
  refine h.invariant (fun s hs => ?_) fun s l s' hi _ hs => ?_
  · rw [show s = csWpInit n α bound from hs]
    refine ⟨Or.inl (.init bound), fun k => iff_of_false nofun nofun, ?_⟩
    rintro rfl
    exact ⟨rfl, rfl, nofun⟩
  · cases l with
    | act a =>
        obtain ⟨-, e, hstep⟩ := Pool.Step.of_step hs
        refine ⟨?_, hi.locked.step hstep, fun hb => (hi.room hb).step hstep⟩
        rcases hi.life with hinv | hspent
        · exact Or.inl (hinv.step hstep)
        · exact Or.inr (hspent.step hstep).1
    | restart =>
        change (if _ then _ else _) = _ at hs
        split at hs <;> cases hs
        obtain ⟨-, -, -, hended⟩ := ‹_ ∧ _›
        refine ⟨Or.inr ?_, hi.locked, fun hb => ⟨(hi.room hb).limit, (hi.room hb).empty, (hi.room hb).none⟩⟩
        rcases hi.life with hinv | hspent
        · exact (spent_of_ended hinv hended).started
        · exact hspent.started

end ComplexSim.Restart
