import ComplexSim.Locks.Basic

/-!
# What the operations lock: the pool (`src/cs_workerpool.c`)

`cs_wp_tsk_get_res` unlocks the table where it does not find the task, and unlocks it once more at its end
(`getRes_notFound`). `cs_wp_tsk_pop_res` does the same where besides there is no memory for the copy
(`popRes_notFound`); where there is, the function copies from NULL. All other paths are in balance.
-/

namespace ComplexSim.Locks

open Locking Workerpool

variable {ok : (c : interface.Call) → interface.Reply c → Prop}

section Status

def csWpGetStatus : Code PoolStatus := do
  let _ ← lock .pool
  let st ← poolStatus
  let _ ← unlock .pool
  return st

theorem csWpGetStatus_neutral : Neutral ok csWpGetStatus := by
  intro own
  simp [csWpGetStatus]

/-- `_cs_wp_set_status`. -/
def csWpSetStatus : Code Unit := do
  let _ ← lock .pool
  let _ ← unlock .pool
  return ()

theorem csWpSetStatus_neutral : Neutral ok csWpSetStatus := by
  intro own
  simp [csWpSetStatus]

/-- `_cs_wp_set_worker_status`. -/
def csWpSetWorkerStatus (windex : Nat) : Code Unit := do
  let _ ← lock (.worker windex)
  let _ ← unlock (.worker windex)
  return ()

theorem csWpSetWorkerStatus_neutral (windex : Nat) : Neutral ok (csWpSetWorkerStatus windex) := by
  intro own
  simp [csWpSetWorkerStatus]

end Status

section Lifecycle

/-- The loop of `_cs_wp_start_workers`, from the worker `count` on. -/
def csWpStartWorkers (count : Nat) : Nat → Code Int
  | 0 => return 0
  | k + 1 => do
    csWpSetWorkerStatus count
    let r ← int .pthreadCreate
    if r ≠ 0 then return -1 else csWpStartWorkers (count + 1) k

theorem csWpStartWorkers_neutral (count k : Nat) : Neutral ok (csWpStartWorkers count k) := by
  induction k generalizing count with
  | zero => intro own; simp [csWpStartWorkers]
  | succ k ih =>
      intro own
      refine (csWpSetWorkerStatus_neutral count).bind fun _ => ?_
      simp only [wp_int, wp_ite]
      exact fun r _ => ⟨fun _ => rfl, fun _ => ih (count + 1) own⟩

def csWpStart : Code Int := do
  let st ← csWpGetStatus
  if st ≠ .ready then return -1
  else
    let _ ← lock .pool
    let n ← count .nthreads
    let r ← csWpStartWorkers 0 n
    if r ≠ 0 then
      let _ ← unlock .pool
      return -1
    else
      let r ← int .pthreadCreate
      if r ≠ 0 then
        let _ ← unlock .pool
        return -1
      else
        csWpSetStatus
        let _ ← unlock .pool
        return 0

theorem csWpStart_neutral : Neutral ok csWpStart := by
  intro own
  refine csWpGetStatus_neutral.bind fun st => ?_
  simp only [wp_ite, wp_pure, wp_lock_bind, wp_count, implies_true, true_and]
  refine fun _ n _ => (csWpStartWorkers_neutral 0 n).bind fun r => ?_
  simp only [wp_ite, wp_int]
  refine ⟨fun _ => by simp, fun _ r _ => ⟨fun _ => by simp, fun _ => csWpSetStatus_neutral.bind fun _ => ?_⟩⟩
  simp

def csWpShutdown : Code Int := do
  let _ ← lock .pool
  let st ← csWpGetStatus
  if st ≠ .working then
    let _ ← unlock .pool
    return 0
  else
    let r ← csQueueClose
    if r ≠ 0 then
      let _ ← unlock .pool
      return -1
    else
      let r ← int .pthreadJoin
      if r ≠ 0 then
        let _ ← unlock .pool
        return -1
      else
        let _ ← int .destroy
        csWpSetStatus
        let _ ← unlock .pool
        return 0

theorem csWpShutdown_neutral : Neutral ok csWpShutdown := by
  intro own
  simp only [csWpShutdown, wp_lock_bind]
  refine csWpGetStatus_neutral.bind fun st => ?_
  simp only [wp_ite]
  refine ⟨fun _ => by simp, fun _ => csQueueClose_neutral.bind fun r => ?_⟩
  simp only [wp_ite, wp_int]
  refine ⟨fun _ => by simp, fun _ r _ => ⟨fun _ => by simp, fun _ _ _ => csWpSetStatus_neutral.bind fun _ => ?_⟩⟩
  simp

/-- The loop of `cs_wp_destroy` over the workers: `_cs_wp_destroy_worker_data`. -/
def destroyWorkers : Nat → Code Unit
  | 0 => return ()
  | k + 1 => do
    let _ ← int .destroy
    destroyWorkers k

theorem destroyWorkers_neutral (k : Nat) : Neutral ok (destroyWorkers k) := by
  induction k with
  | zero => intro own; simp [destroyWorkers]
  | succ k ih =>
      intro own
      simp only [destroyWorkers, wp_int]
      exact fun _ _ => ih own

def csWpDestroy : Code Unit := do
  let _ ← csWpShutdown
  let _ ← int .destroy
  let n ← count .nthreads
  destroyWorkers n
  let _ ← int .destroy
  csQueueDestroy
  let _ ← int .destroy
  return ()

theorem csWpDestroy_neutral : Neutral ok csWpDestroy := by
  intro own
  refine csWpShutdown_neutral.bind fun _ => ?_
  simp only [wp_int, wp_count]
  refine fun _ _ n _ => (destroyWorkers_neutral n).bind fun _ => ?_
  simp only [wp_int]
  refine fun _ _ => csQueueDestroy_neutral.bind fun _ => ?_
  simp

/-- `_cs_wp_init_worker`. -/
def csWpInitWorker : Code Int := do
  let sem ← ptr .alloc
  let fails ← semFails sem
  if fails then return -1
  else
    let workerMutex ← ptr .alloc
    if !workerMutex then return -1
    else
      let _ ← ptr .alloc
      return 0

theorem csWpInitWorker_neutral : Neutral ok csWpInitWorker := by
  intro own
  simp only [csWpInitWorker, wp_ptr]
  refine fun sem _ => (semFails_neutral sem).bind fun fails => ?_
  simp

/-- The loop of `cs_wp_init` over the workers. -/
def initWorkers : Nat → Code Unit
  | 0 => return ()
  | k + 1 => do
    let _ ← csWpInitWorker
    initWorkers k

theorem initWorkers_neutral (k : Nat) : Neutral ok (initWorkers k) := by
  induction k with
  | zero => intro own; simp [initWorkers]
  | succ k ih => exact csWpInitWorker_neutral.seq fun _ => ih

/-- `_cs_wp_init_tsk_res_table`; the table is `given`, or it is NULL. -/
def csWpInitTskResTable (given : Bool) : Code Int := do
  if !given then return -1
  else
    let _ ← csMakeRecursiveMutex
    let _ ← ptr .rbCreate
    let tskQ ← ptr .alloc
    if !tskQ then return -1
    else
      let r ← csQueueInit tskQ
      if r < 0 then return -1 else return 0

theorem csWpInitTskResTable_neutral (given : Bool) : Neutral ok (csWpInitTskResTable given) := by
  intro own
  simp only [csWpInitTskResTable, wp_ite, wp_pure, implies_true, true_and]
  refine fun _ => csMakeRecursiveMutex_neutral.bind fun _ => ?_
  simp only [wp_ptr, wp_ite, wp_pure, implies_true, true_and]
  refine fun _ _ tskQ _ _ => (csQueueInit_neutral tskQ).bind fun r => ?_
  simp

/-- `cs_wp_init`; the pool is `given`, or it is NULL. -/
def csWpInit (given : Bool) (nthreads : Int) : Code Int := do
  if !given then return -1
  else if nthreads ≤ 0 then return -1
  else
    let name ← ptr .alloc
    if !name then fault
    else
      let _ ← ptr .alloc
      let sem ← ptr .alloc
      let fails ← semFails sem
      if fails then return -1
      else
        let workersData ← ptr .alloc
        if !workersData then fault
        else
          initWorkers nthreads.toNat
          let tskResTb ← ptr .alloc
          let _ ← csWpInitTskResTable tskResTb
          let _ ← csMakeRecursiveMutex
          csWpSetStatus
          return 0

theorem csWpInit_neutral (given : Bool) (nthreads : Int) : Neutral ok (csWpInit given nthreads) := by
  intro own
  simp only [csWpInit, wp_ite, wp_ptr, wp_pure, wp_fault, implies_true, true_and]
  refine fun _ _ _ _ _ _ _ sem _ => (semFails_neutral sem).bind fun fails => ?_
  simp only [wp_ite, wp_ptr, wp_pure, wp_fault, implies_true, true_and]
  refine fun _ _ _ _ => (initWorkers_neutral nthreads.toNat).bind fun _ => ?_
  simp only [wp_ptr]
  exact fun tskResTb _ => (csWpInitTskResTable_neutral tskResTb).bind fun _ =>
    csMakeRecursiveMutex_neutral.bind fun _ => csWpSetStatus_neutral.bind fun _ => rfl

end Lifecycle

section Tasks

def csWpTskQueueSize : Code Int := csQueueSize

def csWpTskEnqueue : Code Int := do
  let st ← csWpGetStatus
  if st ≠ .working then return -1
  else
    let tsk ← ptr .alloc
    if !tsk then fault
    else
      let tskId ← int .newTskId
      let _ ← csMakeRecursiveMutex
      let _ ← int .semInit
      let _ ← lock .table
      let r ← csQueueEnqueue true
      if r < 0 then
        let _ ← unlock .table
        return -1
      else
        let oldCount ← int .tskCount
        let before ← ptr (.find .tskBefore)
        if before then fault
        else
          let _ ← ptr .rbInsert
          let newCount ← int .tskCount
          if newCount ≠ oldCount + 1 then fault
          else
            let after ← ptr (.find .tskAfter)
            if !after then fault
            else
              let _ ← unlock .table
              return tskId

theorem csWpTskEnqueue_neutral : Neutral ok csWpTskEnqueue := by
  intro own
  refine csWpGetStatus_neutral.bind fun st => ?_
  simp only [wp_ite, wp_ptr, wp_int, wp_pure, wp_fault, implies_true, true_and]
  refine fun _ _ _ _ tskId _ => csMakeRecursiveMutex_neutral.bind fun _ => ?_
  simp only [wp_int, wp_lock_bind]
  refine fun _ _ => (csQueueEnqueue_neutral true).bind fun r => ?_
  simp

def csWpTskWait : Code Unit := do
  let _ ← lock .table
  let found ← ptr (.find .tskWait)
  let _ ← unlock .table
  if !found then return ()
  else
    let status ← tskStatus
    if status = .done then return ()
    else
      let _ ← int .semWait
      return ()

theorem csWpTskWait_neutral : Neutral ok csWpTskWait := by
  intro own
  simp [csWpTskWait]

/-- `_cs_wp_get_tsk_res_copy`, of the result of a task that is `found`, or of NULL; whether there is a copy. -/
def csWpGetTskResCopy (found : Bool) : Code Bool := do
  let copy ← ptr .allocCopy
  if !copy then return false
  else if !found then fault
  else return true

/-- The end of `cs_wp_tsk_get_res`, from the copy on. -/
def getCopy (found : Bool) : Code Bool := do
  let res ← csWpGetTskResCopy found
  if !res then
    let _ ← unlock .table
    return false
  else
    let _ ← unlock .table
    return res

/-- `cs_wp_tsk_get_res`, once the task is waited for. -/
def getRes : Code Bool := do
  let _ ← lock .table
  let found ← ptr (.find .tskGetRes)
  if !found then
    let _ ← unlock .table
    -- no return here
    let _ ← unlock .table
    return false
  else getCopy found

def csWpTskGetRes : Code Bool := do
  csWpTskWait
  getRes

/-- The end of `cs_wp_tsk_pop_res`, from the copy on. -/
def popCopy (found : Bool) : Code Bool := do
  let res ← csWpGetTskResCopy found
  if !res then
    let _ ← unlock .table
    return false
  else
    let _ ← int .destroy
    let _ ← unlock .table
    return res

/-- `cs_wp_tsk_pop_res`, once the task is waited for. -/
def popRes : Code Bool := do
  let _ ← lock .table
  let found ← ptr (.find .tskPopRes)
  if !found then
    let _ ← unlock .table
    -- no return here
    popCopy found
  else popCopy found

def csWpTskPopRes : Code Bool := do
  csWpTskWait
  popRes

/-- A copy of NULL ends the process, unless there is no copy. -/
theorem wp_csWpGetTskResCopy {α : Type} {found : Bool} {f : Bool → Code α} {Q : α → Counts Mutex → Prop}
    {own : Counts Mutex} : wp ok (csWpGetTskResCopy found >>= f) Q own ↔
      (ok (.ptr .allocCopy) false → wp ok (f false) Q own) ∧
        (found = true → ok (.ptr .allocCopy) true → wp ok (f true) Q own) := by
  rw [wp_bind]
  cases found <;> simp [csWpGetTskResCopy]

theorem getRes_neutral (hok : ¬ ok (.ptr (.find .tskGetRes)) false) : Neutral ok getRes := by
  intro own
  simp only [getRes, wp_lock_bind, wp_ptr, wp_ite]
  intro found hfound
  refine ⟨fun h => ?_, fun _ => ?_⟩
  · obtain rfl : found = false := by simpa using h
    exact absurd hfound hok
  · simp [getCopy, wp_csWpGetTskResCopy]

/-- `cs_wp_tsk_pop_res` is neutral where the task is found, and where the result can be copied. -/
theorem popRes_neutral (hok : ¬ ok (.ptr (.find .tskPopRes)) false ∨ ¬ ok (.ptr .allocCopy) false) :
    Neutral ok popRes := by
  intro own
  simp only [popRes, wp_lock_bind, wp_ptr, wp_ite]
  intro found hfound
  refine ⟨fun h => ?_, fun _ => by simp [popCopy, wp_csWpGetTskResCopy]⟩
  obtain rfl : found = false := by simpa using h
  have hcopy : ¬ ok (.ptr .allocCopy) false := hok.resolve_left (not_not_intro hfound)
  simp [popCopy, wp_csWpGetTskResCopy, hcopy]

/-- None of the calls looks for a result, or copies one, while the task is waited for. -/
theorem csWpTskWait_calls : Calls (fun c : Call => c ≠ .ptr (.find .tskGetRes) ∧ c ≠ .ptr (.find .tskPopRes) ∧
    c ≠ .ptr .allocCopy) csWpTskWait := by
  refine fun _ => ⟨by simp, fun found _ => ?_⟩
  cases found with
  | false => trivial
  | true =>
      refine ⟨by simp, fun status => ?_⟩
      cases status with
      | waiting => exact ⟨by simp, fun _ => trivial⟩
      | done => trivial

/-- The copy of a result allocates, and calls nothing else. -/
theorem csWpGetTskResCopy_calls {S : Call → Prop} {α : Type} {f : Bool → Code α} (found : Bool)
    (hcopy : S (.ptr .allocCopy)) (hf : ∀ res, Calls S (f res)) : Calls S (csWpGetTskResCopy found >>= f) := by
  refine ⟨hcopy, fun copy => ?_⟩
  cases copy with
  | false => exact hf false
  | true =>
      cases found with
      | false => trivial
      | true => exact hf true

theorem getCopy_calls (found : Bool) : Calls (fun c : Call => c ≠ .ptr (.find .tskGetRes)) (getCopy found) := by
  refine csWpGetTskResCopy_calls found (by simp) fun res => ?_
  cases res with
  | false | true => exact fun _ => trivial

theorem popCopy_calls (found : Bool) : Calls (fun c : Call => c ≠ .ptr (.find .tskPopRes)) (popCopy found) := by
  refine csWpGetTskResCopy_calls found (by simp) fun res => ?_
  cases res with
  | false => exact fun _ => trivial
  | true => exact ⟨by simp, fun _ _ => trivial⟩

/-- A copy of NULL is no result: the process ends, or the table is unlocked. -/
theorem popCopy_null : popCopy false = do
    let copy ← ptr .allocCopy
    if copy then fault
    else
      let _ ← unlock .table
      return false := by
  refine congrArg (Prog.call (I := interface) (Call.ptr .allocCopy)) (funext fun copy => ?_)
  cases copy <;> rfl

variable {h h' : Counts Mutex} {tr : Trace} {e : Option Bool}

/-- A look-up under the lock of the table that finds nothing, and is the only one of its kind. -/
theorem path_notFound {f : Lookup} {k : Bool → Code Bool}
    (hpath : CodePath h (do let _ ← lock .table; let found ← ptr (.find f); k found) tr h' e)
    (hnot : notFound f ∈ tr) (hcalls : Calls (fun c : Call => c ≠ .ptr (.find f)) (k true)) :
    ∃ tr', tr = .lock .table :: notFound f :: tr' ∧ CodePath (push h .table) (k false) tr' h' e := by
  obtain ⟨tr₁, rfl, h₁⟩ := path_lock_bind hpath
  rcases path_ptr_bind h₁ with ⟨found, tr₂, rfl, h₂⟩ | ⟨rfl, rfl⟩
  · cases found with
    | false => exact ⟨tr₂, rfl, h₂⟩
    | true =>
        have hrest : notFound f ∈ tr₂ := by simpa using hnot
        exact absurd rfl (Path.calls h₂ hcalls hrest)
  · simp at hnot

/-- Where `cs_wp_tsk_get_res` does not find the task, it unlocks the table twice. -/
theorem getRes_notFound (hpath : CodePath h getRes tr h' e) (hnot : notFound .tskGetRes ∈ tr) :
    e = some false ∧ locks tr .table = 1 ∧ unlocks tr .table = 2 := by
  obtain ⟨tr₁, rfl, h₁⟩ := path_notFound hpath hnot (getCopy_calls true)
  obtain ⟨_, _, tr₂, rfl, h₂⟩ := path_unlock_bind h₁
  obtain ⟨_, _, tr₃, rfl, h₃⟩ := path_unlock_bind h₂
  obtain ⟨rfl, _, rfl⟩ := path_pure h₃
  exact ⟨rfl, rfl, rfl⟩

/-- Where `cs_wp_tsk_pop_res` does not find the task, it unlocks the table at once, and where it has no copy it
unlocks it again. -/
theorem popRes_notFound (hpath : CodePath h popRes tr h' e) (hnot : notFound .tskPopRes ∈ tr) (hcopy : noCopy ∈ tr) :
    e = some false ∧ locks tr .table = 1 ∧ unlocks tr .table = 2 := by
  obtain ⟨tr₁, rfl, h₁⟩ := path_notFound hpath hnot (popCopy_calls true)
  obtain ⟨_, _, tr₂, rfl, h₂⟩ := path_unlock_bind h₁
  rw [popCopy_null] at h₂
  rcases path_ptr_bind h₂ with ⟨copy, tr₃, rfl, h₃⟩ | ⟨rfl, rfl⟩
  · cases copy with
    | false =>
        obtain ⟨_, _, tr₄, rfl, h₄⟩ := path_unlock_bind h₃
        obtain ⟨rfl, _, rfl⟩ := path_pure h₄
        exact ⟨rfl, rfl, rfl⟩
    | true =>
        obtain ⟨rfl, rfl⟩ := path_fault h₃
        simp at hcopy
  · simp at hcopy

theorem csWpTskGetRes_inBalance_iff (hpath : CodePath h csWpTskGetRes tr h' e) :
    InBalance h tr h' e ↔ notFound .tskGetRes ∉ tr := by
  refine ⟨fun hb hnot => ?_, fun hfound => ?_⟩
  · rcases csWpTskWait_neutral.bind_cases hpath with ⟨_, tr₁, tr₂, hwait, hfirst, hrest, rfl⟩ | ⟨rfl, hwait⟩
    · have hnot₂ : notFound .tskGetRes ∈ tr₂ :=
        (List.mem_append.1 hnot).resolve_left fun h => (hwait.calls csWpTskWait_calls h).1 rfl
      obtain ⟨rfl, hlock, hunlock⟩ := getRes_notFound hrest hnot₂
      exact not_inBalance_append hfirst (by rw [hlock, hunlock]; decide) hb
    · exact (hwait.calls csWpTskWait_calls hnot).1 rfl
  · have hneutral : Neutral (Other (notFound .tskGetRes)) csWpTskGetRes :=
      csWpTskWait_neutral.seq fun _ => getRes_neutral (not_not_intro rfl)
    exact hneutral.inBalance hpath (admits_other hfound)

theorem csWpTskPopRes_inBalance_iff (hpath : CodePath h csWpTskPopRes tr h' e) :
    InBalance h tr h' e ↔ ¬ (notFound .tskPopRes ∈ tr ∧ noCopy ∈ tr) := by
  refine ⟨fun hb ⟨hnot, hcopy⟩ => ?_, fun hfound => ?_⟩
  · rcases csWpTskWait_neutral.bind_cases hpath with ⟨_, tr₁, tr₂, hwait, hfirst, hrest, rfl⟩ | ⟨rfl, hwait⟩
    · have hnot₂ : notFound .tskPopRes ∈ tr₂ :=
        (List.mem_append.1 hnot).resolve_left fun h => (hwait.calls csWpTskWait_calls h).2.1 rfl
      have hcopy₂ : noCopy ∈ tr₂ :=
        (List.mem_append.1 hcopy).resolve_left fun h => (hwait.calls csWpTskWait_calls h).2.2 rfl
      obtain ⟨rfl, hlock, hunlock⟩ := popRes_notFound hrest hnot₂ hcopy₂
      exact not_inBalance_append hfirst (by rw [hlock, hunlock]; decide) hb
    · exact (hwait.calls csWpTskWait_calls hnot).2.1 rfl
  · by_cases hnot : notFound .tskPopRes ∈ tr
    · have hneutral : Neutral (Other noCopy) csWpTskPopRes :=
        csWpTskWait_neutral.seq fun _ => popRes_neutral (Or.inr (not_not_intro rfl))
      exact hneutral.inBalance hpath (admits_other fun hcopy => hfound ⟨hnot, hcopy⟩)
    · have hneutral : Neutral (Other (notFound .tskPopRes)) csWpTskPopRes :=
        csWpTskWait_neutral.seq fun _ => popRes_neutral (Or.inl (not_not_intro rfl))
      exact hneutral.inBalance hpath (admits_other hnot)

end Tasks

end ComplexSim.Locks
