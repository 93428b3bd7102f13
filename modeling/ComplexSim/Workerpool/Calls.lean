import ComplexSim.Workerpool.Tasks

/-!
# The calls in progress

`CallInv` speaks of the enqueuers between their status check and their return. Each
has a task record of its own, that is not in the table and, until the caller's section
on the queue, has no history; the caller holds the table mutex from its lock until it
returns, and `cs_queue_enqueue` has given it 0. So the assertions of
`cs_wp_tsk_enqueue` hold.
-/

namespace ComplexSim.Workerpool

variable {n : Nat} {α : Type}

namespace CallPc

/-- The task record that the caller has made and not put into the table. -/
def pending : CallPc α → Option TskId
  | .enqTable t | .enqLimit t | .enqQueue t | .enqInsert t _ => some t
  | _ => none

/-- The task record whose turn in `cs_queue_enqueue` is to come. -/
def unqueued : CallPc α → Option TskId
  | .enqTable t | .enqLimit t | .enqQueue t => some t
  | _ => none

/-- The caller holds the table mutex. -/
def locks : CallPc α → Bool
  | .enqLimit _ | .enqQueue _ | .enqInsert _ _ => true
  | _ => false

/-- The caller has passed the status check of `cs_wp_tsk_enqueue`. -/
def passed : CallPc α → Bool
  | .enqCreate _ => true
  | c => c.pending.isSome

/-- The caller has not begun to enqueue. -/
def Aside (c : CallPc α) : Prop := c.passed = false ∧ c.locks = false

theorem Aside.pending {c : CallPc α} (h : c.Aside) : c.pending = none := by
  cases c <;> simp_all [Aside, CallPc.passed, CallPc.pending]

theorem unqueued_pending {c : CallPc α} {t : TskId} (h : c.unqueued = some t) :
    c.pending = some t := by
  cases c <;> simp_all [CallPc.unqueued, CallPc.pending]

end CallPc

/-- The calls, the table and the histories of the task records. -/
structure CallInv (c : ControllerPc n) (calls : Caller n → CallPc α) (lastId : TskId)
    (tableMutex : Option (Caller n)) (table : List TskId) (tsk : TskId → Tsk n α) : Prop where
  created : ∀ k, (calls k).passed = true → c ≠ .notCreated
  pending : ∀ k t, (calls k).pending = some t → t ≤ lastId ∧ t ∉ table
  distinct : ∀ k k' t, (calls k).pending = some t → (calls k').pending = some t → k = k'
  unqueued : ∀ k t, (calls k).unqueued = some t → (tsk t).hist = []
  mutex : ∀ k, (calls k).locks = true ↔ tableMutex = some k
  result : ∀ k t r, calls k = .enqInsert t r → r = 0
  unused : ∀ t, lastId < t → (tsk t).hist = [] ∧ t ∉ table

/-- The invariant of a pool's calls. -/
abbrev Pool.CallInv (s : Pool n α) : Prop :=
  Workerpool.CallInv s.ctl s.calls s.lastId s.tableMutex s.table s.tsk

namespace CallInv

variable {c c' : ControllerPc n} {calls : Caller n → CallPc α} {lastId : TskId}
  {tableMutex : Option (Caller n)} {table : List TskId} {tsk tsk' : TskId → Tsk n α}

theorem init (bound : Nat) : (csWpInit n α bound).CallInv where
  created := by simp [csWpInit, CallPc.passed, CallPc.pending]
  pending := by simp [csWpInit, CallPc.pending]
  distinct := by simp [csWpInit, CallPc.pending]
  unqueued := by simp [csWpInit, CallPc.unqueued]
  mutex := by simp [csWpInit, CallPc.locks]
  result := by simp [csWpInit]
  unused := by simp [csWpInit]

/-- A step of the controller or of a worker: tasks without a history stay so. -/
theorem frame (h : CallInv c calls lastId tableMutex table tsk)
    (hcreated : c ≠ .notCreated → c' ≠ .notCreated)
    (hhist : ∀ t, (tsk t).hist = [] → (tsk' t).hist = []) :
    CallInv c' calls lastId tableMutex table tsk' where
  created := fun k hk => hcreated (h.created k hk)
  pending := h.pending
  distinct := h.distinct
  unqueued := fun k t hk => hhist t (h.unqueued k t hk)
  mutex := h.mutex
  result := h.result
  unused := fun t ht => ⟨hhist t (h.unused t ht).1, (h.unused t ht).2⟩

/-- An event of a task that has been inserted. -/
theorem log (h : CallInv c calls lastId tableMutex table tsk)
    (hcreated : c ≠ .notCreated → c' ≠ .notCreated) {t : TskId} (hpast : (tsk t).hist ≠ [])
    (d : Tsk n α) : CallInv c' calls lastId tableMutex table (Function.update tsk t d) := by
  refine h.frame hcreated fun u hu => ?_
  have hne : u ≠ t := fun heq => hpast (heq ▸ hu)
  rwa [Function.update_of_ne hne]

/-- A caller that is not enqueuing goes on. -/
theorem aside (h : CallInv c calls lastId tableMutex table tsk) {k : Caller n} {d : CallPc α}
    (hk : (calls k).Aside) (hd : d.Aside) (hhist : ∀ t, (tsk t).hist = [] → (tsk' t).hist = []) :
    CallInv c (Function.update calls k d) lastId tableMutex table tsk' := by
  have hpending := hd.pending
  obtain ⟨hpassed, hlocks⟩ := hd
  obtain ⟨-, hklocks⟩ := hk
  have hinsert : ∀ t r, d ≠ .enqInsert t r := fun t r heq => by
    rw [heq] at hlocks; cases hlocks
  have hunqueued : ∀ t, d.unqueued ≠ some t := fun t ht => by
    have := CallPc.unqueued_pending ht
    rw [hpending] at this; cases this
  constructor
  · intro k' hk'
    by_cases hkk : k' = k
    · subst hkk; simp [hpassed] at hk'
    · rw [Function.update_of_ne hkk] at hk'; exact h.created k' hk'
  · grind [Function.update_apply, CallInv]
  · grind [Function.update_apply, CallInv]
  · grind [Function.update_apply, CallInv]
  · grind [Function.update_apply, CallInv]
  · grind [Function.update_apply, CallInv]
  · grind [CallInv]

/-- The status check of `cs_wp_tsk_enqueue` passes. -/
theorem statusOk (h : CallInv c calls lastId tableMutex table tsk) {k : Caller n} {x : α}
    (hk : calls k = .enqStatus x) (hc : c ≠ .notCreated) :
    CallInv c (Function.update calls k (.enqCreate x)) lastId tableMutex table tsk := by
  constructor <;>
    grind [Function.update_apply, CallInv, CallPc.pending, CallPc.unqueued, CallPc.locks]

/-- A new task record. -/
theorem create (h : CallInv c calls lastId tableMutex table tsk) {k : Caller n} {x : α} {t : TskId}
    (hk : calls k = .enqCreate x) (ht : lastId < t) :
    CallInv c (Function.update calls k (.enqTable t)) t tableMutex table
      (Function.update tsk t { tskCode := some x, status := .waiting, taskSem := 0, hist := [] }) := by
  have hcreated := h.created k (by simp [hk, CallPc.passed])
  have hnew := h.unused t ht
  have hfresh : ∀ k' u, (calls k').pending = some u → u ≠ t := fun k' u hu heq =>
    absurd (heq ▸ (h.pending k' u hu).1) (Nat.not_le.2 ht)
  constructor <;>
    grind [Function.update_apply, CallInv, CallPc.pending, CallPc.unqueued, CallPc.locks]

/-- An enqueuer locks the table. -/
theorem lockTable (h : CallInv c calls lastId none table tsk) {k : Caller n} {t : TskId}
    (hk : calls k = .enqTable t) :
    CallInv c (Function.update calls k (.enqLimit t)) lastId (some k) table tsk := by
  have hcreated := h.created k (by simp [hk, CallPc.passed, CallPc.pending])
  have hothers : ∀ k', (calls k').locks = false := fun k' => by
    have := h.mutex k'; simpa using this
  constructor <;>
    grind [Function.update_apply, CallInv, CallPc.pending, CallPc.unqueued, CallPc.locks]

/-- An enqueuer gets a place in the queue. -/
theorem limit (h : CallInv c calls lastId tableMutex table tsk) {k : Caller n} {t : TskId}
    (hk : calls k = .enqLimit t) :
    CallInv c (Function.update calls k (.enqQueue t)) lastId tableMutex table tsk := by
  have hcreated := h.created k (by simp [hk, CallPc.passed, CallPc.pending])
  constructor <;>
    grind [Function.update_apply, CallInv, CallPc.pending, CallPc.unqueued, CallPc.locks]

/-- The section of an enqueuer on the queue. -/
theorem enqueue (h : CallInv c calls lastId tableMutex table tsk) {k : Caller n} {t : TskId}
    (hk : calls k = .enqQueue t) (hhist : ∀ u, u ≠ t → (tsk' u).hist = (tsk u).hist) :
    CallInv c (Function.update calls k (.enqInsert t 0)) lastId tableMutex table tsk' := by
  have hcreated := h.created k (by simp [hk, CallPc.passed, CallPc.pending])
  have hmine : (calls k).pending = some t := by simp [hk, CallPc.pending]
  have hother : ∀ k' u, k' ≠ k → (calls k').pending = some u → u ≠ t := fun k' u hne hu heq =>
    hne (h.distinct k' k t (heq ▸ hu) hmine)
  have hle := (h.pending k t hmine).1
  have hun : ∀ k' u, (calls k').unqueued = some u → (calls k').pending = some u :=
    fun k' u => CallPc.unqueued_pending
  constructor <;>
    grind [Function.update_apply, CallInv, CallPc.pending, CallPc.unqueued, CallPc.locks]

/-- An enqueuer puts its task into the table and returns. -/
theorem insert (h : CallInv c calls lastId tableMutex table tsk) {k : Caller n} {t : TskId} {r : Int}
    (hk : calls k = .enqInsert t r) :
    CallInv c (Function.update calls k .idle) lastId none (t :: table) tsk := by
  have hmine : (calls k).pending = some t := by simp [hk, CallPc.pending]
  have hother : ∀ k' u, k' ≠ k → (calls k').pending = some u → u ≠ t := fun k' u hne hu heq =>
    hne (h.distinct k' k t (heq ▸ hu) hmine)
  have hle := (h.pending k t hmine).1
  have hlock : tableMutex = some k := (h.mutex k).1 (by simp [hk, CallPc.locks])
  have hidle : (CallPc.idle : CallPc α).passed = false := rfl
  constructor <;>
    grind [Function.update_apply, CallInv, CallPc.pending, CallPc.unqueued, CallPc.locks]

end CallInv

end ComplexSim.Workerpool
