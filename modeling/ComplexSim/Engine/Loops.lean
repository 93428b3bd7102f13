import ComplexSim.Workerpool.Accepted
import ComplexSim.Workerpool.Batch
import ComplexSim.Workerpool.Capacity

/-!
# A thread with loops in a pool

The event controller for a tick, and the engine for its activities, enqueue tasks and wait for their ids.
`InCall` says which call of the pool goes with a place in the loops. `Fed` says of any thread with such loops
that its pool is open, that no task that it is to wait for is lost, and no signal of one: nobody else waits for
these, and the thread waits for each id once. These are facts about the pool itself, which its specification does
not show.
-/

namespace ComplexSim.Engine

open Workerpool

/-- The call that goes with a place in the loops. -/
def InCall {α : Type} : Join α → Request α → Prop
  | .enqueue _ _, r | .wait _, r => r = .idle
  | .inEnqueue _ _, r => (∃ x, r = .enqueuing x) ∨ ∃ t, r = .accepted t
  | .inWait id _, r => r = .waiting id

section Calls

variable {n : Nat} {α : Type} {p p' : TaskPool n α} {e : PoolEvent n α} {k : Caller n}

/-- What the call of a thread becomes that neither begins nor ends one. -/
theorem calls_step (h : p.Step e p') (hcaller : TaskPool.caller e ≠ some k) :
    p'.calls k = p.calls k ∨ (∃ x, p.calls k = .enqueuing x) ∧ ∃ t, p'.calls k = .accepted t := by
  have hne : ∀ {j : Caller n}, some j ≠ some k → k ≠ j := fun hj hkj => hj (congrArg some hkj.symm)
  cases h with
  | statusCall j _ | statusRet j _ _ | enqueueCall j _ _ | refuse j _ _ _ | enqueueRet j _ _ | waitCall j _ _
  | waitRet j _ _ _ => exact Or.inl (by simp [hne hcaller])
  | accept j x t hj _ _ | drop j x t hj _ =>
      by_cases hkj : k = j
      · subst hkj
        exact Or.inr ⟨⟨x, hj⟩, t, by simp⟩
      · exact Or.inl (by simp [hkj])
  | tau | start _ | startAgain _ | started _ _ _ _ _ | finished _ _ _ _ _ | shutdownCall | close _ | shutdownRet _ _ =>
      exact Or.inl rfl

theorem InCall.step {α : Type} {q q' : Request α} {j : Join α} (h : InCall j q)
    (hs : q' = q ∨ (∃ x, q = .enqueuing x) ∧ ∃ t, q' = .accepted t) : InCall j q' := by
  rcases hs with heq | ⟨⟨x, hx⟩, t, ht⟩
  · rw [heq]
    exact h
  · rw [hx] at h
    cases j with
    | enqueue xs ids | wait ids => cases h
    | inEnqueue xs ids => exact Or.inr ⟨t, ht⟩
    | inWait id ids => cases h

/-- The call of a thread goes with its loops. -/
theorem InCall.observe [DecidableEq α] {j j' : Join α} (hs : p.Step e p') (hj : j.observe k e = some j') :
    InCall j' (p'.calls k) := by
  unfold Join.observe at hj
  split at hj <;> try cases hj
  all_goals split at hj <;> cases hj
  · rename_i hk
    obtain ⟨rfl, rfl⟩ := hk
    cases hs
    exact Or.inl ⟨_, Function.update_self ..⟩
  · rename_i hk
    subst hk
    cases hs <;> simp [InCall]
  · rename_i hk
    obtain ⟨rfl, rfl⟩ := hk
    cases hs
    simp [InCall]
  · rename_i hk
    obtain ⟨rfl, rfl⟩ := hk
    cases hs
    simp [InCall]

/-- What a call or return of the thread does to the ids that it is to wait for. -/
theorem observe_pending [DecidableEq α] {j j' : Join α}
    (hj : j.observe k e = some j') : (j'.pending = j.pending ∧ ∀ id, e ≠ .waitRet k id) ∨
      (∃ r, e = .enqueueRet k r ∧ j'.pending = j.pending ++ [r]) ∨ ∃ id, e = .waitRet k id ∧ j.pending = id :: j'.pending := by
  unfold Join.observe at hj
  split at hj
  · split at hj <;> cases hj
    exact Or.inl ⟨rfl, nofun⟩
  · split at hj <;> cases hj
    rename_i hk
    subst hk
    exact Or.inr (Or.inl ⟨_, rfl, rfl⟩)
  · split at hj <;> cases hj
    exact Or.inl ⟨rfl, nofun⟩
  · split at hj <;> cases hj
    rename_i hk
    obtain ⟨rfl, rfl⟩ := hk
    exact Or.inr (Or.inr ⟨_, rfl, rfl⟩)
  · cases hj

end Calls

section Signals

variable {n : Nat} {α : Type} {s s' : Pool n α} {a : Pool.Action n α} {e : PoolEvent n α} {k : Caller n} {t : TskId}

/-- If task `t` is done, its semaphore has been posted, or a worker is about to post it. -/
def Signals (s : Pool n α) (t : TskId) : Prop :=
  (s.tsk t).status = .done → 0 < (s.tsk t).taskSem ∨ ∃ w, (s.workers w).pc = .signalEnd t

theorem Signals.keep (h : Signals s t) (hstatus : (s'.tsk t).status = (s.tsk t).status)
    (hsem : (s'.tsk t).taskSem = (s.tsk t).taskSem)
    (hpc : ∀ w, (s.workers w).pc = .signalEnd t → (s'.workers w).pc = .signalEnd t) : Signals s' t := by
  intro hdone
  rw [hstatus] at hdone
  rcases h hdone with hpos | ⟨w, hw⟩
  · exact Or.inl (hsem ▸ hpos)
  · exact Or.inr ⟨w, hpc w hw⟩

/-- An event of a task changes neither its status nor its semaphore. -/
theorem log_tsk (s : Pool n α) (t u : TskId) (ev : TskEvent n) :
    ((s.log u ev).tsk t).status = (s.tsk t).status ∧ ((s.log u ev).tsk t).taskSem = (s.tsk t).taskSem := by
  by_cases htu : t = u
  · subst htu
    exact ⟨by simp, by simp⟩
  · exact ⟨by simp [htu], by simp [htu]⟩

theorem Signals.worker (h : Signals s t) {w : Fin n} (hs : s.WorkerStep w s' e) : Signals s' t := by
  have hothers : ∀ {d : Worker}, (∀ u, (s.workers w).pc ≠ .signalEnd u) → ∀ v, (s.workers v).pc = .signalEnd t →
      (Function.update s.workers w d v).pc = .signalEnd t := by
    intro d hno v hv
    have hne : v ≠ w := fun heq => hno t (heq ▸ hv)
    rw [Function.update_of_ne hne]
    exact hv
  cases hs with
  | take u hpc _ _ =>
      obtain ⟨hstatus, hsem⟩ := log_tsk s t u (.started w)
      exact h.keep hstatus hsem (hothers (by simp [hpc]))
  | setDone u hpc =>
      by_cases htu : t = u
      · subst htu
        exact fun _ => Or.inr ⟨w, by simp⟩
      · exact h.keep (by simp [htu]) (by simp [htu]) (hothers (by simp [hpc]))
  | signalEnd u hpc =>
      by_cases htu : t = u
      · subst htu
        exact fun _ => Or.inl (by simp)
      · refine h.keep (by simp [htu]) (by simp [htu]) fun v hv => ?_
        have hne : v ≠ w := by
          rintro rfl
          rw [hpc] at hv
          cases hv
          exact htu rfl
        simpa [hne] using hv
  | wake hpc _ | wokenOk hpc _ | exit hpc _ _ | release u hpc _ => exact h.keep rfl rfl (hothers (by simp [hpc]))
  | wokenFail _ _ | takeNone _ _ _ | takeFail _ _ _ _ | releaseFail _ _ _ => exact h

/-- Only a wait for task `t` itself takes back its signal. -/
theorem Signals.step (h : Signals s t) (hinv : PoolInv s) (hs : s.Step a s' e)
    (hno : ∀ k, a = .call k → s.calls k ≠ .waitSem t) : Signals s' t := by
  have hlog : ∀ (u : TskId) (ev : TskEvent n), (s'.tsk = (s.log u ev).tsk) →
      (∀ w, (s.workers w).pc = .signalEnd t → (s'.workers w).pc = .signalEnd t) → Signals s' t := by
    intro u ev htsk hpc
    obtain ⟨hstatus, hsem⟩ := log_tsk s t u ev
    exact h.keep (by rw [htsk]; exact hstatus) (by rw [htsk]; exact hsem) hpc
  cases hs with
  | startAgain _ _ | callGetStatus _ _ _ | callEnqueue _ _ _ _ | callWait _ _ _ _ | callShutdown _ => exact h
  | start _ _ hctl =>
      refine h.keep rfl rfl fun w hw => ?_
      obtain ⟨-, hok⟩ := hinv.handshake.worker w
      rw [hw] at hok
      exact absurd hctl hok.1
  | create k u x _ _ =>
      by_cases htu : t = u
      · subst htu
        intro hdone
        simp at hdone
      · exact h.keep (by simp [htu]) (by simp [htu]) fun _ => id
  | worker w hw => exact h.worker hw
  | taskReturn w u hpc _ =>
      refine hlog u _ rfl fun v hv => ?_
      have hne : v ≠ w := by
        rintro rfl
        rw [hpc] at hv
        cases hv
      simpa [hne] using hv
  | controller hc =>
      have hpc : ∀ w, (s.workers w).pc = .signalEnd t → (s'.workers w).pc = .signalEnd t := by
        intro w hw
        rw [hc.frame.1]
        exact hw
      cases hc with
      | dequeue u q _ _ | assign u w _ => exact hlog u _ rfl hpc
      | dequeueWait _ _ | leave _ _ | noHead _ _ | badSize _ _ | poolSem _ _ _ | found _ _ _ _ | pass _ _ _ _
      | noWorker _ _ _ _ | notify _ _ | sendShutdown _ _ | allSent _ _ _ | postShutdown _ _ | join _ _ _ | ended _ _ _ =>
          exact h.keep rfl rfl hpc
  | shutdown hsh => cases hsh <;> exact h
  | call k hk =>
      cases hk with
      | append u _ _ => exact hlog u _ rfl fun _ => id
      | waitEnd u hpc _ =>
          have htu : t ≠ u := by
            rintro rfl
            exact hno k rfl hpc
          exact h.keep (by simp [htu]) (by simp [htu]) fun _ => id
      | getStatus _ _ | refused _ _ _ _ | statusOk _ _ _ _ | lockTable _ _ _ | limit _ _ _ | drop _ _ _
      | failed _ _ _ _ | duplicate _ _ _ _ | insert _ _ _ _ _ | find _ _ _ _ | notFound _ _ _ _ | isDone _ _ _
      | notDone _ _ _ => exact h

/-- The task that a caller comes to enqueue is new, and has the code of the call. -/
theorem pending_step (hs : s.Step a s' e) (ht : (s'.calls k).pending = some t) :
    (s.calls k).pending = some t ∨
      ∃ x, s.calls k = .enqCreate x ∧ (s'.tsk t).tskCode = some x ∧ (s'.tsk t).status = .waiting := by
  have hmoved : ∀ {j : Caller n} {c : CallPc α}, (c.pending = some t → (s.calls j).pending = some t) →
      (Function.update s.calls j c k).pending = some t → (s.calls k).pending = some t := by
    intro j c hc hk
    by_cases hkj : k = j
    · subst hkj
      rw [Function.update_self] at hk
      exact hc hk
    · rwa [Function.update_of_ne hkj] at hk
  cases hs with
  | startAgain _ _ | start _ _ _ | callShutdown _ | taskReturn _ _ _ _ => exact Or.inl ht
  | callGetStatus j _ _ | callEnqueue j _ _ _ | callWait j _ _ _ => exact Or.inl (hmoved (fun hc => by cases hc) ht)
  | create j u x hpc _ =>
      by_cases hkj : k = j
      · subst hkj
        have hut : u = t := by simpa [CallPc.pending] using ht
        subst hut
        exact Or.inr ⟨x, hpc, by simp, by simp⟩
      · exact Or.inl (by simpa [hkj] using ht)
  | worker w hw => exact Or.inl (hw.frame.2.2.1 ▸ ht)
  | controller hc => exact Or.inl (hc.frame.2.1 ▸ ht)
  | shutdown hsh => cases hsh <;> exact Or.inl ht
  | call j hj =>
      refine Or.inl ?_
      cases hj with
      | lockTable u hpc _ | limit u hpc _ | append u hpc _ | drop u hpc _ =>
          exact hmoved (fun hu => by rw [hpc]; exact hu) ht
      | duplicate u r hpc _ => exact ht
      | getStatus _ _ | refused _ _ _ _ | statusOk _ _ _ _ | failed _ _ _ _ | insert _ _ _ _ _ | find _ _ _ _
      | notFound _ _ _ _ | isDone _ _ _ | notDone _ _ _ | waitEnd _ _ _ => exact hmoved (fun hc => by cases hc) ht

/-- The code of a task that has been made stays. -/
theorem code_step (hs : s.Step a s' e) (ht : t ≤ s.lastId) : (s'.tsk t).tskCode = (s.tsk t).tskCode := by
  have hset : ∀ {u : TskId} {d : Tsk n α}, d.tskCode = (s.tsk u).tskCode →
      (Function.update s.tsk u d t).tskCode = (s.tsk t).tskCode := by
    intro u d hd
    by_cases htu : t = u
    · subst htu
      rw [Function.update_self]
      exact hd
    · rw [Function.update_of_ne htu]
  cases hs with
  | startAgain _ _ | start _ _ _ | callGetStatus _ _ _ | callEnqueue _ _ _ _ | callWait _ _ _ _ | callShutdown _ => rfl
  | create k u x _ hlt =>
      have htu : t ≠ u := ne_of_lt (lt_of_le_of_lt ht hlt)
      simp [htu]
  | taskReturn w u _ _ => exact hset rfl
  | worker w hw =>
      cases hw with
      | take u _ _ _ | setDone u _ | signalEnd u _ => exact hset rfl
      | wake _ _ | wokenOk _ _ | wokenFail _ _ | exit _ _ _ | takeNone _ _ _ | takeFail _ _ _ _ | release _ _ _
      | releaseFail _ _ _ => rfl
  | controller hc =>
      cases hc with
      | dequeue u q _ _ | assign u w _ => exact hset rfl
      | dequeueWait _ _ | leave _ _ | noHead _ _ | badSize _ _ | poolSem _ _ _ | found _ _ _ _ | pass _ _ _ _
      | noWorker _ _ _ _ | notify _ _ | sendShutdown _ _ | allSent _ _ _ | postShutdown _ _ | join _ _ _ | ended _ _ _ => rfl
  | shutdown hsh => cases hsh <;> rfl
  | call k hk =>
      cases hk with
      | append u _ _ | waitEnd u _ _ => exact hset rfl
      | getStatus _ _ | refused _ _ _ _ | statusOk _ _ _ _ | lockTable _ _ _ | limit _ _ _ | drop _ _ _
      | failed _ _ _ _ | duplicate _ _ _ _ | insert _ _ _ _ _ | find _ _ _ _ | notFound _ _ _ _ | isDone _ _ _
      | notDone _ _ _ => rfl

/-- The end of a wait for the semaphore of a task. -/
theorem step_waitSem (hs : s.Step (.call k) s' e) (hcall : s.calls k = .waitSem t) :
    e = .waitRet k t ∧ s'.calls k = .idle := by
  cases hs with
  | call _ hk =>
      cases hk with
      | waitEnd u hpc _ =>
          rw [hcall] at hpc
          cases hpc
          exact ⟨rfl, by simp⟩
      | getStatus hpc _ | refused _ hpc _ _ | statusOk _ hpc _ _ | lockTable _ hpc _ | limit _ hpc _ | append _ hpc _
      | drop _ hpc _ | failed _ _ hpc _ | duplicate _ _ hpc _ | insert _ _ hpc _ _ | find _ hpc _ _ | notFound _ hpc _ _
      | isDone _ hpc _ | notDone _ hpc _ =>
          rw [hcall] at hpc
          cases hpc

/-- A pool that nobody has shut down was so before. -/
theorem step_shut_idle (hs : s.Step a s' e) (hshut : s'.shut = .idle) :
    s.shut = .idle ∧ s'.tskQ.status = s.tskQ.status := by
  cases hs with
  | callShutdown _ => cases hshut
  | shutdown hsh => cases hsh <;> cases hshut
  | call k hk =>
      obtain ⟨-, -, -, -, -, -, hsame, hstatus⟩ := hk.frame
      exact ⟨hsame ▸ hshut, hstatus⟩
  | worker w hw =>
      obtain ⟨-, -, -, hq, -, -, hsame, -⟩ := hw.frame
      exact ⟨hsame ▸ hshut, by rw [hq]⟩
  | controller hc =>
      obtain ⟨-, -, -, hstatus, hsame, -⟩ := hc.frame
      exact ⟨hsame ▸ hshut, hstatus⟩
  | startAgain _ _ | start _ _ _ | callGetStatus _ _ _ | callEnqueue _ _ _ _ | callWait _ _ _ _ | create _ _ _ _ _
  | taskReturn _ _ _ _ => exact ⟨hshut, rfl⟩

end Signals

section Fed

variable {n : Nat} {α : Type} {p p' : Pool n α} {a : Pool.Action n α} {e : PoolEvent n α} {k : Caller n}
  {ids ids' : List Int} {t : TskId}

/-- Thread `k` is to wait for task `t`, or is about to be given its id. -/
def Expects (p : Pool n α) (k : Caller n) (ids : List Int) (t : TskId) : Prop :=
  (t : Int) ∈ ids ∨ (p.calls k).pending = some t

/-- The pool of a thread `k` that has these ids to wait for. -/
structure Fed (p : Pool n α) (k : Caller n) (ids : List Int) : Prop where
  opened : p.tskQ.status = .opened
  accepted : Accepted p
  signals : ∀ t, Expects p k ids t → Signals p t
  nodup : ids.Nodup

theorem Fed.init (bound : Nat) (k : Caller n) : Fed (csWpInit n α bound) k [] where
  opened := rfl
  accepted := by constructor <;> simp [csWpInit]
  signals := by
    rintro t (hmem | hcall)
    · cases hmem
    · cases hcall
  nodup := List.nodup_nil

/-- A thread that enqueues in an open pool is given the id of its task. -/
theorem enqueueRet_pending {r : Int} (h : PoolInv p) (hs : p.Step a p' (.enqueueRet k r)) (hopen : p.tskQ.status = .opened)
    (hcreated : p.ctl ≠ .notCreated) : ∃ t : TskId, r = t ∧ (p.calls k).pending = some t ∧ t ∉ p.table := by
  cases hs with
  | call _ hk =>
      cases hk with
      | refused x hpc _ hst =>
          have hlife := h.queue.life
          rw [hopen] at hlife
          cases hst' : p.status with
          | ready =>
              rw [hst'] at hlife
              exact absurd hlife.1 hcreated
          | working => exact absurd hst' hst
      | failed t r' hpc hneg => exact absurd (h.calls.result k t r' hpc) (by omega)
      | insert t r' hpc _ hmem => exact ⟨t, rfl, by rw [hpc]; rfl, hmem⟩
  | worker w hw => cases hw
  | shutdown hsh => cases hsh

/-- A task that is expected was so before, or is about to be given its id. -/
theorem expects_observe [DecidableEq α] {j j' : Join α} (hinv : PoolInv p) (hs : p.Step a p' e)
    (hopen : p.tskQ.status = .opened) (hcreated : p.ctl ≠ .notCreated) (hj : j.observe k e = some j')
    (ht : Expects p' k j'.pending t) : Expects p k j.pending t ∨ (p'.calls k).pending = some t := by
  rcases ht with hmem | hcall
  · refine Or.inl ?_
    rcases observe_pending hj with ⟨hsame, -⟩ | ⟨r, rfl, happ⟩ | ⟨id, -, hcons⟩
    · exact Or.inl (hsame ▸ hmem)
    · obtain ⟨u, rfl, hu, -⟩ := enqueueRet_pending hinv hs hopen hcreated
      rw [happ] at hmem
      rcases List.mem_append.1 hmem with hmem | hlast
      · exact Or.inl hmem
      · have htu : t = u := Int.ofNat_inj.1 (List.mem_singleton.1 hlast)
        exact Or.inr (htu ▸ hu)
    · exact Or.inl (by rw [hcons]; exact List.mem_cons_of_mem _ hmem)
  · exact Or.inr hcall

/-- The signal of a task that is expected, or new, is lost only to a wait for its id. -/
theorem Fed.signals_step (h : Fed p k ids) (hinv : PoolInv p) (hs : p.Step a p' e)
    (hold : Expects p k ids t ∨ (p'.calls k).pending = some t)
    (hwait : ∀ j, e = .waitRet j t → p'.calls j ≠ .idle) : Signals p' t := by
  have hkeep : Expects p k ids t → Signals p' t := by
    intro hexp
    refine (h.signals t hexp).step hinv hs fun j hj hcall => ?_
    subst hj
    obtain ⟨he, hidle⟩ := step_waitSem hs hcall
    exact hwait j he hidle
  rcases hold with hexp | hcall
  · exact hkeep hexp
  · rcases pending_step hs hcall with hpending | ⟨x, -, -, hwaiting⟩
    · exact hkeep (Or.inr hpending)
    · intro hdone
      rw [hwaiting] at hdone
      cases hdone

/-- A step of the pool that is no wait. -/
theorem Fed.step (h : Fed p k ids) (hinv : PoolInv p) (hs : p.Step a p' e) (hshut : p'.shut = .idle)
    (hwait : ∀ j id, e ≠ .waitRet j id) : Fed p' k ids where
  opened := (step_shut_idle hs hshut).2.trans h.opened
  accepted := h.accepted.step hinv (fun _ _ _ => h.opened) hs
  signals := by
    rintro t ht
    exact h.signals_step hinv hs (ht.imp_left Or.inl) fun j he => absurd he (hwait j t)
  nodup := h.nodup

/-- A call or return of the thread in its loops. -/
theorem Fed.observe [DecidableEq α] {j j' : Join α} (h : Fed p k j.pending) (hinv : PoolInv p) (hs : p.Step a p' e)
    (hshut : p'.shut = .idle) (hcreated : p.ctl ≠ .notCreated) (hj : j.observe k e = some j')
    (hknown : ∀ t : TskId, (t : Int) ∈ j.pending → t ∈ p.table) : Fed p' k j'.pending where
  opened := (step_shut_idle hs hshut).2.trans h.opened
  accepted := h.accepted.step hinv (fun _ _ _ => h.opened) hs
  signals := by
    intro t ht
    refine h.signals_step hinv hs (expects_observe hinv hs h.opened hcreated hj ht) ?_
    rintro i rfl hidle
    -- only this thread waits, and the id it has waited for comes once
    have hi : i = k := Option.some.inj (Join.observe_caller hj)
    subst hi
    rcases observe_pending hj with ⟨-, hno⟩ | ⟨r, heq, -⟩ | ⟨id, heq, hcons⟩
    · exact hno t rfl
    · cases heq
    · cases heq
      have hnodup := h.nodup
      rw [hcons, List.nodup_cons] at hnodup
      rcases ht with hmem | hcall
      · exact hnodup.1 hmem
      · rw [hidle] at hcall
        cases hcall
  nodup := by
    have hnodup := h.nodup
    rcases observe_pending hj with ⟨hsame, -⟩ | ⟨r, rfl, happ⟩ | ⟨id, rfl, hcons⟩
    · exact hsame ▸ hnodup
    · obtain ⟨u, rfl, -, hnew⟩ := enqueueRet_pending hinv hs h.opened hcreated
      have hfresh : (u : Int) ∉ j.pending := fun hmem => hnew (hknown u hmem)
      rw [happ]
      exact hnodup.append (List.nodup_singleton _) fun x hx hy => hfresh (List.mem_singleton.1 hy ▸ hx)
    · rw [hcons] at hnodup
      exact (List.nodup_cons.1 hnodup).2

/-- A thread that is to wait for nothing expects at most the task of its call. -/
theorem Fed.nil (h : Fed p k ids) : Fed p k [] where
  opened := h.opened
  accepted := h.accepted
  signals := by
    rintro t (hmem | hcall)
    · cases hmem
    · exact h.signals t (Or.inr hcall)
  nodup := List.nodup_nil

/-- Outside its calls it expects none. -/
theorem Fed.of_idle (hopen : p.tskQ.status = .opened) (haccepted : Accepted p) (hidle : p.calls k = .idle) :
    Fed p k [] where
  opened := hopen
  accepted := haccepted
  signals := by
    rintro t (hmem | hcall)
    · cases hmem
    · rw [hidle] at hcall
      cases hcall
  nodup := List.nodup_nil

end Fed

end ComplexSim.Engine
