import ComplexSim.Workerpool.Basic

/-!
# A worker pool as its clients see it

`TaskPool` forgets the threads of a pool and its locks: of each task it keeps whether
its code is still to be called, is running, or has returned; of each thread, the call
it is in. `TaskPool.Step` says which events a client may see next. A task that has
been accepted by an open pool is run once; a wait on the id of an accepted task
returns when its code has; a shutdown that has closed the pool returns when no task
is left.
-/

namespace ComplexSim.Workerpool

variable {n : Nat} {α : Type}

/-- How far a task is. -/
inductive Phase (n : Nat) (α : Type) where
  /-- nobody has been promised to run it -/
  | unknown
  /-- its code `x` is still to be called -/
  | queued (x : α)
  /-- worker `w` runs its code `x` -/
  | running (x : α) (w : Fin n)
  /-- its code has returned -/
  | ended

/-- The call a thread is in. -/
inductive Request (α : Type) where
  | idle
  | status
  | enqueuing (x : α)
  /-- in `cs_wp_tsk_enqueue`, with a promise for task `t` -/
  | accepted (t : TskId)
  | waiting (id : Int)

@[ext]
structure TaskPool (n : Nat) (α : Type) where
  started : Bool
  /-- a shutdown is in progress -/
  shutting : Bool
  closed : Bool
  phase : TskId → Phase n α
  calls : Caller n → Request α
  /-- the ids that calls of `cs_wp_tsk_enqueue` have returned -/
  returned : List TskId

namespace TaskPool

/-- A pool of which nothing has been asked. -/
def init (n : Nat) (α : Type) : TaskPool n α where
  started := false
  shutting := false
  closed := false
  phase := fun _ => .unknown
  calls := fun _ => .idle
  returned := []

@[simps]
def setCall (p : TaskPool n α) (k : Caller n) (c : Request α) : TaskPool n α :=
  { p with calls := Function.update p.calls k c }

@[simps]
def setPhase (p : TaskPool n α) (t : TskId) (d : Phase n α) : TaskPool n α :=
  { p with phase := Function.update p.phase t d }

/-- The code `x` of task `t` is still to be called, or runs. -/
def Active (p : TaskPool n α) (t : TskId) (x : α) : Prop :=
  p.phase t = .queued x ∨ ∃ w, p.phase t = .running x w

inductive Step (p : TaskPool n α) : PoolEvent n α → TaskPool n α → Prop where
  | tau : Step p .tau p
  | start (h : p.started = false) : Step p (.startRet 0) { p with started := true }
  | startAgain (h : p.started = true) : Step p (.startRet (-1)) p
  | statusCall (k : Caller n) (h : p.calls k = .idle) :
      Step p (.statusCall k) (p.setCall k .status)
  | statusRet (k : Caller n) (st : PoolStatus) (h : p.calls k = .status) :
      Step p (.statusRet k st) (p.setCall k .idle)
  | enqueueCall (k : Caller n) (x : α) (h : p.calls k = .idle) :
      Step p (.enqueueCall k x) (p.setCall k (.enqueuing x))
  | accept (k : Caller n) (x : α) (t : TskId) (h : p.calls k = .enqueuing x)
      (hopen : p.closed = false) (hnew : p.phase t = .unknown) :
      Step p .tau ((p.setPhase t (.queued x)).setCall k (.accepted t))
  | drop (k : Caller n) (x : α) (t : TskId) (h : p.calls k = .enqueuing x)
      (hclosed : p.closed = true) : Step p .tau (p.setCall k (.accepted t))
  | refuse (k : Caller n) (x : α) (h : p.calls k = .enqueuing x)
      (hno : p.started = false ∨ p.closed = true) : Step p (.enqueueRet k (-1)) (p.setCall k .idle)
  | enqueueRet (k : Caller n) (t : TskId) (h : p.calls k = .accepted t) :
      Step p (.enqueueRet k t) ({ p with returned := t :: p.returned }.setCall k .idle)
  | waitCall (k : Caller n) (id : Int) (h : p.calls k = .idle) :
      Step p (.waitCall k id) (p.setCall k (.waiting id))
  | waitRet (k : Caller n) (id : Int) (h : p.calls k = .waiting id)
      (hended : ∀ t : TskId, id = t → t ∈ p.returned → p.phase t = .ended) :
      Step p (.waitRet k id) (p.setCall k .idle)
  | started (w : Fin n) (t : TskId) (x : α) (h : p.phase t = .queued x)
      (hfree : ∀ u y, p.phase u ≠ .running y w) :
      Step p (.started w t (some x)) (p.setPhase t (.running x w))
  | finished (w : Fin n) (t : TskId) (x : α) (h : p.phase t = .running x w)
      (hidle : p.calls (.task w) = .idle) : Step p (.finished w t) (p.setPhase t .ended)
  | shutdownCall : Step p .shutdownCall { p with shutting := true }
  | close (h : p.shutting = true) : Step p .tau { p with closed := true }
  | shutdownRet (r : Int) (h : p.closed = true → ∀ t x, ¬ p.Active t x) :
      Step p (.shutdownRet r) { p with shutting := false }

end TaskPool

end ComplexSim.Workerpool
