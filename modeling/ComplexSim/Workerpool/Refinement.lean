import ComplexSim.Workerpool.Dispatch
import ComplexSim.Workerpool.Spec

/-!
# The pool refines its specification

`Pool.abs` forgets what the clients of a pool cannot see. Every step of a pool that
satisfies its invariant is, under the same event, a step of the specification
(`PoolInv.abs_step`).
-/

namespace ComplexSim.Workerpool

variable {n : Nat} {α : Type}

/-- How far a task is, by its history. -/
def Tsk.phase (d : Tsk n α) : Phase n α :=
  match d.tskCode, d.hist with
  | some x, [_, _, _, .started w] => .running x w
  | some _, [_, _, _, _, _] => .ended
  | some x, _ :: _ => .queued x
  | _, _ => .unknown

/-- The call that a caller at `c` is in. -/
def CallPc.request (tsk : TskId → Tsk n α) : CallPc α → Request α
  | .idle => .idle
  | .getStatus => .status
  | .enqStatus x | .enqCreate x => .enqueuing x
  | .enqTable t | .enqLimit t | .enqQueue t =>
      match (tsk t).tskCode with
      | some x => .enqueuing x
      | none => .idle
  | .enqInsert t _ => .accepted t
  | .waitFind id => .waiting id
  | .waitStatus t | .waitSem t => .waiting t

def Pool.abs (s : Pool n α) : TaskPool n α where
  started := decide (s.ctl ≠ .notCreated)
  shutting := decide (s.shut ≠ .idle ∧ s.shut ≠ .returned)
  closed := decide (s.tskQ.status = .closed)
  phase := fun t => (s.tsk t).phase
  calls := fun k => (s.calls k).request s.tsk
  returned := s.returned

/-- Every task that counts has its code, and the ids returned are in the table. -/
structure Coded (s : Pool n α) : Prop where
  unqueued : ∀ k t, (s.calls k).unqueued = some t → ∃ x, (s.tsk t).tskCode = some x
  past : ∀ t, (s.tsk t).hist ≠ [] → ∃ x, (s.tsk t).tskCode = some x
  table : ∀ t ∈ s.returned, t ∈ s.table

section Phases

variable {d : Tsk n α} {x : α}

theorem Tsk.phase_fresh (h : d.hist = []) : d.phase = .unknown := by
  unfold Tsk.phase
  rw [h]
  cases d.tskCode <;> rfl

theorem Tsk.phase_inQueue (hx : d.tskCode = some x) (h : d.hist = inQueue n) :
    d.phase = .queued x := by
  simp [Tsk.phase, hx, h]

theorem Tsk.phase_inHand (hx : d.tskCode = some x) (h : d.hist = inHand n) :
    d.phase = .queued x := by
  simp [Tsk.phase, hx, h]

theorem Tsk.phase_givenTo {w : Fin n} (hx : d.tskCode = some x) (h : d.hist = givenTo w) :
    d.phase = .queued x := by
  simp [Tsk.phase, hx, h]

theorem Tsk.phase_runBy {w : Fin n} (hx : d.tskCode = some x) (h : d.hist = runBy w) :
    d.phase = .running x w := by
  simp [Tsk.phase, hx, h]

theorem Tsk.phase_overBy {w : Fin n} (hx : d.tskCode = some x) (h : d.hist = overBy w) :
    d.phase = .ended := by
  simp [Tsk.phase, hx, h]

/-- The phase depends on the code and the history only. -/
theorem Tsk.phase_congr {d' : Tsk n α} (hcode : d'.tskCode = d.tskCode) (hhist : d'.hist = d.hist) :
    d'.phase = d.phase := by
  simp [Tsk.phase, hcode, hhist]

/-- A task with a phase `running` has the history that says so. -/
theorem Past.running {l : List (TskEvent n)} (hpast : Past l) (h : d.hist = l) {w : Fin n}
    (hphase : d.phase = .running x w) : l = runBy w ∧ d.tskCode = some x := by
  cases hcode : d.tskCode with
  | none => simp [Tsk.phase, hcode] at hphase
  | some y =>
      subst h
      generalize hl : d.hist = l at hpast
      cases hpast with
      | fresh => simp [Tsk.phase, hcode, hl] at hphase
      | queued => simp [Tsk.phase_inQueue hcode hl] at hphase
      | hand => simp [Tsk.phase_inHand hcode hl] at hphase
      | given v => simp [Tsk.phase_givenTo hcode hl] at hphase
      | performed v => simp [Tsk.phase_overBy hcode hl] at hphase
      | run v =>
          rw [Tsk.phase_runBy hcode hl] at hphase
          cases hphase
          exact ⟨rfl, rfl⟩

end Phases

namespace Coded

variable {s s' : Pool n α} {a : Pool.Action n α} {e : PoolEvent n α}

theorem init (bound : Nat) : Coded (csWpInit n α bound) where
  unqueued := by simp [csWpInit, CallPc.unqueued]
  past := by simp [csWpInit]
  table := by simp [csWpInit]

/-- Codes stay, and no caller begins to enqueue. -/
theorem keep (h : Coded s) (hcode : ∀ t, (s'.tsk t).tskCode = (s.tsk t).tskCode)
    (hhist : ∀ t, (s'.tsk t).hist ≠ [] → (s.tsk t).hist ≠ [] ∨ ∃ x, (s.tsk t).tskCode = some x)
    (hcalls : ∀ k t, (s'.calls k).unqueued = some t → (s.calls k).unqueued = some t)
    (htable : s'.table = s.table) (hret : s'.returned = s.returned) : Coded s' where
  unqueued := fun k t hk => by rw [hcode]; exact h.unqueued k t (hcalls k t hk)
  past := fun t ht => by
    rw [hcode]
    rcases hhist t ht with hold | hx
    · exact h.past t hold
    · exact hx
  table := fun t ht => by rw [htable]; exact h.table t (hret ▸ ht)

/-- One task record changes, and its code does not. -/
theorem setTsk (h : Coded s) {u : TskId} {d : Tsk n α} (htsk : s'.tsk = Function.update s.tsk u d)
    (hcode : d.tskCode = (s.tsk u).tskCode)
    (hhist : d.hist ≠ [] → (s.tsk u).hist ≠ [] ∨ ∃ x, (s.tsk u).tskCode = some x)
    (hcalls : ∀ k t, (s'.calls k).unqueued = some t → (s.calls k).unqueued = some t)
    (htable : s'.table = s.table) (hret : s'.returned = s.returned) : Coded s' := by
  refine h.keep (fun t => ?_) (fun t ht => ?_) hcalls htable hret <;> rw [htsk] at * <;>
    by_cases htu : t = u
  · subst htu; simp [hcode]
  · simp [htu]
  · subst htu; exact hhist (by simpa using ht)
  · exact Or.inl (by simpa [htu] using ht)

theorem step (h : Coded s) (hinv : PoolInv s) (hs : s.Step a s' e) : Coded s' := by
  have hmoved : ∀ {k : Caller n} {c : CallPc α},
      (∀ t, c.unqueued = some t → (s.calls k).unqueued = some t) →
      ∀ j t, ((s.setCall k c).calls j).unqueued = some t → (s.calls j).unqueued = some t := by
    intro k c hc j t hj
    by_cases hjk : j = k
    · subst hjk; exact hc t (by simpa using hj)
    · simpa [hjk] using hj
  cases hs with
  | startAgain _ _ | start _ _ _ | callShutdown _ =>
      exact h.keep (fun _ => rfl) (fun _ => Or.inl) (fun _ _ => id) rfl rfl
  | callGetStatus k _ _ | callEnqueue k x _ _ | callWait k id _ _ =>
      exact h.keep (fun _ => rfl) (fun _ => Or.inl) (hmoved (by simp [CallPc.unqueued])) rfl rfl
  | taskReturn w t hpc hidle =>
      have hpast : (s.tsk t).hist = runBy w := ((hinv.tsks.tsk t).run w).1 (by
        simp [Pool.places, hpc, WorkerPc.stage])
      exact h.setTsk rfl rfl (fun _ => Or.inl (by simp [hpast])) (fun _ _ => id) rfl rfl
  | shutdown hsh =>
      cases hsh <;> exact h.keep (fun _ => rfl) (fun _ => Or.inl) (fun _ _ => id) rfl rfl
  | create k t x hpc hlt =>
      refine ⟨fun j u hj => ?_, fun u hu => ?_, h.table⟩ <;> by_cases hut : u = t
      · subst hut; exact ⟨x, by simp⟩
      · have hold : (s.calls j).unqueued = some u := by
          by_cases hjk : j = k
          · subst hjk; simp [CallPc.unqueued, Ne.symm hut] at hj
          · simpa [hjk] using hj
        obtain ⟨y, hy⟩ := h.unqueued j u hold
        exact ⟨y, by simpa [hut] using hy⟩
      · subst hut; simp at hu
      · obtain ⟨y, hy⟩ := h.past u (by simpa [hut] using hu)
        exact ⟨y, by simpa [hut] using hy⟩
  | worker w hw =>
      cases hw with
      | take t hpc htsk hst =>
          have hpast : (s.tsk t).hist = givenTo w := ((hinv.tsks.tsk t).given w).1 (by
            simp [Pool.places, Worker.given, hst, htsk])
          exact h.setTsk rfl rfl (fun _ => Or.inl (by simp [hpast])) (fun _ _ => id) rfl rfl
      | setDone t _ | signalEnd t _ => exact h.setTsk rfl rfl Or.inl (fun _ _ => id) rfl rfl
      | _ => exact h.keep (fun _ => rfl) (fun _ => Or.inl) (fun _ _ => id) rfl rfl
  | controller hc =>
      cases hc with
      | dequeue t q hpc hq =>
          have hmem : t ∈ s.tskQ.elems := by
            have hqueue := hinv.queue
            rw [hpc] at hqueue
            rcases hqueue.dequeue with ⟨u, rest, helems, hd⟩ | ⟨-, -, hd⟩
            · rw [hq] at hd; cases hd; simp [helems]
            · rw [hq] at hd; cases hd
          have hpast : (s.tsk t).hist = inQueue n := (hinv.tsks.tsk t).queued.1 hmem
          exact h.setTsk rfl rfl (fun _ => Or.inl (by simp [hpast])) (fun _ _ => id) rfl rfl
      | assign t w hpc =>
          have hpast : (s.tsk t).hist = inHand n := (hinv.tsks.tsk t).hand.1 (by
            simp [Pool.places, hpc, ControllerPc.hand])
          exact h.setTsk rfl rfl (fun _ => Or.inl (by simp [hpast])) (fun _ _ => id) rfl rfl
      | _ => exact h.keep (fun _ => rfl) (fun _ => Or.inl) (fun _ _ => id) rfl rfl
  | call k hk =>
      cases hk with
      | append t hpc _ =>
          exact h.setTsk rfl rfl (fun _ => Or.inr (h.unqueued k t (by simp [hpc, CallPc.unqueued])))
            (hmoved (by simp [CallPc.unqueued])) rfl rfl
      | waitEnd t _ _ =>
          exact h.setTsk rfl rfl Or.inl (hmoved (by simp [CallPc.unqueued])) rfl rfl
      | lockTable t hpc _ =>
          exact h.keep (fun _ => rfl) (fun _ => Or.inl) (hmoved (by simp [hpc, CallPc.unqueued])) rfl rfl
      | limit t hpc _ =>
          exact h.keep (fun _ => rfl) (fun _ => Or.inl) (hmoved (by simp [hpc, CallPc.unqueued])) rfl rfl
      | duplicate _ _ _ _ => exact h.keep (fun _ => rfl) (fun _ => Or.inl) (fun _ _ => id) rfl rfl
      | insert t r hpc _ _ =>
          refine ⟨fun j u hj => h.unqueued j u (hmoved (by simp [CallPc.unqueued]) j u hj), h.past,
            fun u hu => ?_⟩
          rcases List.mem_cons.1 hu with rfl | hu
          · exact List.mem_cons_self
          · exact List.mem_cons_of_mem _ (h.table u hu)
      | getStatus _ _ | refused _ _ _ _ | statusOk _ _ _ _ | drop _ _ _ | failed _ _ _ _
      | find _ _ _ _ | notFound _ _ _ _ | isDone _ _ _ | notDone _ _ _ =>
          exact h.keep (fun _ => rfl) (fun _ => Or.inl) (hmoved (by simp [CallPc.unqueued])) rfl rfl

end Coded

section Abs

variable {s s' : Pool n α} {a : Pool.Action n α} {e : PoolEvent n α}

/-- The call of a caller depends on the codes of the tasks only. -/
theorem CallPc.request_congr {tsk tsk' : TskId → Tsk n α}
    (hcode : ∀ t, (tsk' t).tskCode = (tsk t).tskCode) (c : CallPc α) :
    c.request tsk' = c.request tsk := by
  cases c <;> simp [CallPc.request, hcode]

/-- The call of a caller depends on the code of its own task record only. -/
theorem CallPc.request_unqueued {tsk tsk' : TskId → Tsk n α} {c : CallPc α}
    (hcode : ∀ t, c.unqueued = some t → (tsk' t).tskCode = (tsk t).tskCode) :
    c.request tsk' = c.request tsk := by
  cases c <;> simp only [CallPc.request] <;> rw [hcode _ rfl]

/-- What the clients see of one caller's step. -/
theorem Pool.abs_call {k : Caller n} {c : Request α}
    (hctl : s'.ctl = s.ctl) (hshut : s'.shut = s.shut) (hq : s'.tskQ.status = s.tskQ.status)
    (hphase : ∀ t, (s'.tsk t).phase = (s.tsk t).phase) (hret : s'.returned = s.returned)
    (hcode : ∀ t, (s'.tsk t).tskCode = (s.tsk t).tskCode)
    (hothers : ∀ j, j ≠ k → s'.calls j = s.calls j) (hk : (s'.calls k).request s'.tsk = c)
    (hstep : s.abs.Step e (s.abs.setCall k c)) : s.abs.Step e s'.abs := by
  suffices heq : s'.abs = s.abs.setCall k c by rw [heq]; exact hstep
  refine TaskPool.ext ?_ ?_ ?_ (funext hphase) (funext fun j => ?_) hret
  · simp [Pool.abs, hctl]
  · simp [Pool.abs, hshut]
  · simp [Pool.abs, hq]
  · by_cases hjk : j = k
    · subst hjk; simp [Pool.abs, hk]
    · simp [Pool.abs, hjk, hothers j hjk, CallPc.request_congr hcode]

/-- A step of a caller within its call. -/
theorem Pool.abs_inside {k : Caller n}
    (hctl : s'.ctl = s.ctl) (hshut : s'.shut = s.shut) (hq : s'.tskQ.status = s.tskQ.status)
    (hphase : ∀ t, (s'.tsk t).phase = (s.tsk t).phase) (hret : s'.returned = s.returned)
    (hcode : ∀ t, (s'.tsk t).tskCode = (s.tsk t).tskCode)
    (hothers : ∀ j, j ≠ k → s'.calls j = s.calls j)
    (hk : (s'.calls k).request s'.tsk = (s.calls k).request s.tsk) : s.abs.Step .tau s'.abs := by
  refine Pool.abs_call hctl hshut hq hphase hret hcode hothers hk ?_
  have hself : s.abs.setCall k ((s.calls k).request s.tsk) = s.abs := by
    refine TaskPool.ext rfl rfl rfl rfl ?_ rfl
    exact Function.update_eq_self k s.abs.calls
  rw [hself]
  exact .tau

/-- A step that the clients do not see. -/
theorem Pool.abs_keep (hctl : s'.ctl = .notCreated ↔ s.ctl = .notCreated)
    (hshut : s'.shut = s.shut) (hq : s'.tskQ.status = s.tskQ.status)
    (hphase : ∀ t, (s'.tsk t).phase = (s.tsk t).phase) (hret : s'.returned = s.returned)
    (hcode : ∀ t, (s'.tsk t).tskCode = (s.tsk t).tskCode) (hcalls : s'.calls = s.calls) :
    s.abs.Step .tau s'.abs := by
  suffices heq : s'.abs = s.abs by rw [heq]; exact .tau
  refine TaskPool.ext ?_ ?_ ?_ (funext hphase) (funext fun j => ?_) hret
  · simp [Pool.abs, hctl]
  · simp [Pool.abs, hshut]
  · simp [Pool.abs, hq]
  · simp [Pool.abs, hcalls, CallPc.request_congr hcode]

/-- What the clients see of a step that moves task `t` to the phase `d`. -/
theorem Pool.abs_phase {t : TskId} {d : Phase n α} (hctl : s'.ctl = s.ctl) (hshut : s'.shut = s.shut)
    (hq : s'.tskQ.status = s.tskQ.status) (hothers : ∀ u, u ≠ t → s'.tsk u = s.tsk u)
    (ht : (s'.tsk t).phase = d) (hret : s'.returned = s.returned)
    (hcode : (s'.tsk t).tskCode = (s.tsk t).tskCode) (hcalls : s'.calls = s.calls)
    (hstep : s.abs.Step e (s.abs.setPhase t d)) : s.abs.Step e s'.abs := by
  suffices heq : s'.abs = s.abs.setPhase t d by rw [heq]; exact hstep
  have hcodes : ∀ u, (s'.tsk u).tskCode = (s.tsk u).tskCode := fun u => by
    by_cases hut : u = t
    · subst hut; exact hcode
    · rw [hothers u hut]
  refine TaskPool.ext ?_ ?_ ?_ (funext fun u => ?_) (funext fun j => ?_) hret
  · simp [Pool.abs, hctl]
  · simp [Pool.abs, hshut]
  · simp [Pool.abs, hq]
  · by_cases hut : u = t
    · subst hut; simp [Pool.abs, ht]
    · simp [Pool.abs, hut, hothers u hut]
  · simp [Pool.abs, hcalls, CallPc.request_congr hcodes]

/-- One task record changes, and neither its code nor its phase does. -/
theorem Pool.abs_setTsk {u : TskId} {d : Tsk n α} (hctl : s'.ctl = .notCreated ↔ s.ctl = .notCreated)
    (hshut : s'.shut = s.shut) (hq : s'.tskQ.status = s.tskQ.status)
    (htsk : s'.tsk = Function.update s.tsk u d) (hphase : d.phase = (s.tsk u).phase)
    (hcode : d.tskCode = (s.tsk u).tskCode) (hret : s'.returned = s.returned)
    (hcalls : s'.calls = s.calls) : s.abs.Step .tau s'.abs := by
  refine Pool.abs_keep hctl hshut hq (fun t => ?_) hret (fun t => ?_) hcalls <;> rw [htsk] <;>
    by_cases htu : t = u
  · subst htu; simpa using hphase
  · simp [htu]
  · subst htu; simpa using hcode
  · simp [htu]

theorem PoolInv.abs_workerStep (h : PoolInv s) (hcoded : Coded s) {w : Fin n}
    (hs : s.WorkerStep w s' e) : s.abs.Step e s'.abs := by
  have hrun := (h.workerStep hs).running
  cases hs with
  | wake _ _ | wokenOk _ _ | exit _ _ _ | release _ _ _ =>
      exact Pool.abs_keep Iff.rfl rfl rfl (fun _ => rfl) rfl (fun _ => rfl) rfl
  | wokenFail _ _ | takeNone _ _ _ | takeFail _ _ _ _ | releaseFail _ _ _ => simp at hrun
  | setDone u _ | signalEnd u _ =>
      exact Pool.abs_setTsk Iff.rfl rfl rfl rfl (Tsk.phase_congr rfl rfl) rfl rfl rfl
  | take t hpc htsk hst =>
      have hpast : (s.tsk t).hist = givenTo w := ((h.tsks.tsk t).given w).1 (by
        simp [Pool.places, Worker.given, hst, htsk])
      obtain ⟨x, hx⟩ := hcoded.past t (by simp [hpast])
      have hphase : s.abs.phase t = .queued x := Tsk.phase_givenTo hx hpast
      have hfree : ∀ u y, s.abs.phase u ≠ .running y w := fun u y hu => by
        have hrunning := ((h.tsks.tsk u).past.running rfl hu).1
        have hstage := ((h.tsks.tsk u).run w).2 hrunning
        simp [Pool.places, hpc, WorkerPc.stage] at hstage
      rw [hx]
      refine Pool.abs_phase rfl rfl rfl (fun u hu => ?_) ?_ rfl ?_ rfl (.started w t x hphase hfree)
      · simp [hu]
      · exact Tsk.phase_runBy (by simp [hx]) (by simp [hpast])
      · simp

theorem PoolInv.abs_taskReturn (h : PoolInv s) {w : Fin n} {t : TskId}
    (hpc : (s.workers w).pc = .performing t) (hcoded : Coded s) (hidle : s.calls (.task w) = .idle) :
    s.abs.Step (.finished w t)
      ((s.setWorker w { s.workers w with pc := .release t }).log t (.returned w)).abs := by
  have hpast : (s.tsk t).hist = runBy w := ((h.tsks.tsk t).run w).1 (by
    simp [Pool.places, hpc, WorkerPc.stage])
  obtain ⟨x, hx⟩ := hcoded.past t (by simp [hpast])
  have hphase : s.abs.phase t = .running x w := Tsk.phase_runBy hx hpast
  have hcall : s.abs.calls (.task w) = .idle := by simp [Pool.abs, hidle, CallPc.request]
  refine Pool.abs_phase rfl rfl rfl (fun u hu => ?_) ?_ rfl ?_ rfl (.finished w t x hphase hcall)
  · simp [hu]
  · exact Tsk.phase_overBy (x := x) (w := w) (by simp [hx]) (by simp [hpast])
  · simp

theorem PoolInv.abs_controllerStep (h : PoolInv s) (hcoded : Coded s) (hs : s.ControllerStep s') :
    s.abs.Step .tau s'.abs := by
  have hrun := (h.controllerStep hs).running
  cases hs with
  | noHead _ _ | badSize _ _ | noWorker _ _ _ _ => simp at hrun
  | dequeue t q hpc hq =>
      have hqueue := h.queue
      rw [hpc] at hqueue
      rcases hqueue.dequeue with ⟨u, rest, helems, hd⟩ | ⟨-, -, hd⟩
      · rw [hq] at hd; cases hd
        have hpast : (s.tsk t).hist = inQueue n := (h.tsks.tsk t).queued.1 (by
          simp [Pool.places, helems])
        obtain ⟨x, hx⟩ := hcoded.past t (by simp [hpast])
        refine Pool.abs_setTsk (by simp [hpc]) rfl rfl rfl ?_ rfl rfl rfl
        rw [Tsk.phase_inQueue hx hpast]
        exact Tsk.phase_inHand hx (by simp [hpast])
      · rw [hq] at hd; cases hd
  | assign t w hpc =>
      have hpast : (s.tsk t).hist = inHand n := (h.tsks.tsk t).hand.1 (by
        simp [Pool.places, hpc, ControllerPc.hand])
      obtain ⟨x, hx⟩ := hcoded.past t (by simp [hpast])
      refine Pool.abs_setTsk (by simp [hpc]) rfl rfl rfl ?_ rfl rfl rfl
      rw [Tsk.phase_inHand hx hpast]
      exact Tsk.phase_givenTo (w := w) hx (by simp [hpast])
  | dequeueWait hpc _ | leave hpc _ | poolSem _ hpc _ | found _ _ hpc _ | pass _ _ hpc _
  | notify _ hpc | sendShutdown _ hpc | allSent _ hpc _ | postShutdown _ hpc | join _ hpc _
  | ended _ hpc _ =>
      exact Pool.abs_keep (by simp [hpc]) rfl rfl (fun _ => rfl) rfl (fun _ => rfl) rfl

/-- A task that is done has ended. -/
theorem PoolInv.phase_done (h : PoolInv s) (hcoded : Coded s) {t : TskId}
    (hdone : (s.tsk t).status = .done) : s.abs.phase t = .ended := by
  obtain ⟨w, hw⟩ := (h.tsks.tsk t).done hdone
  obtain ⟨x, hx⟩ := hcoded.past t (by simp [hw])
  exact Tsk.phase_overBy hx hw

theorem PoolInv.abs_callStep (h : PoolInv s) (hcoded : Coded s) {k : Caller n}
    (hs : s.CallStep k s' e) : s.abs.Step e s'.abs := by
  have hrun := (h.callStep hs).running
  have hothers := hs.frame.2.1
  have hreq : ∀ {c}, s.calls k = c → s.abs.calls k = c.request s.tsk := fun {c} hc => by
    simp [Pool.abs, hc]
  cases hs with
  | duplicate _ _ _ _ => simp at hrun
  | failed t r hpc hneg => exact absurd (h.calls.result k t r hpc) (by omega)
  | getStatus hpc _ =>
      exact Pool.abs_call rfl rfl rfl (fun _ => rfl) rfl (fun _ => rfl) hothers (by simp; rfl)
        (.statusRet k _ (hreq hpc))
  | refused x hpc _ hst =>
      have hno : s.abs.started = false ∨ s.abs.closed = true := by
        have hlife := h.queue.life
        cases hst' : s.status with
        | working => exact absurd hst' hst
        | ready =>
            cases hq : s.tskQ.status <;> simp [Life, hst', hq] at hlife
            · exact Or.inl (by simp [Pool.abs, hlife.1])
            · exact Or.inr (by simp [Pool.abs, hq])
      exact Pool.abs_call rfl rfl rfl (fun _ => rfl) rfl (fun _ => rfl) hothers (by simp; rfl)
        (.refuse k x (hreq hpc) hno)
  | statusOk x hpc _ _ =>
      exact Pool.abs_inside rfl rfl rfl (fun _ => rfl) rfl (fun _ => rfl) hothers
        (by simp [hpc, CallPc.request])
  | lockTable t hpc _ | limit t hpc _ | notDone t hpc _ =>
      exact Pool.abs_inside rfl rfl rfl (fun _ => rfl) rfl (fun _ => rfl) hothers
        (by simp [hpc, CallPc.request])
  | find t hpc _ _ =>
      exact Pool.abs_inside rfl rfl rfl (fun _ => rfl) rfl (fun _ => rfl) hothers
        (by simp [hpc, CallPc.request])
  | drop t hpc hclosed =>
      obtain ⟨x, hx⟩ := hcoded.unqueued k t (by simp [hpc, CallPc.unqueued])
      have hcall : s.abs.calls k = .enqueuing x := by simp [Pool.abs, hpc, CallPc.request, hx]
      exact Pool.abs_call rfl rfl rfl (fun _ => rfl) rfl (fun _ => rfl) hothers (by simp; rfl)
        (.drop k x t hcall (by simp [Pool.abs, hclosed]))
  | append t hpc hopen =>
      obtain ⟨x, hx⟩ := hcoded.unqueued k t (by simp [hpc, CallPc.unqueued])
      have hnew : (s.tsk t).hist = [] := h.calls.unqueued k t (by simp [hpc, CallPc.unqueued])
      have hcall : s.abs.calls k = .enqueuing x := by simp [Pool.abs, hpc, CallPc.request, hx]
      have hstep := TaskPool.Step.accept k x t hcall (by simp [Pool.abs, hopen])
        (Tsk.phase_fresh hnew)
      convert hstep using 1
      refine TaskPool.ext rfl rfl ?_ (funext fun u => ?_) (funext fun j => ?_) rfl
      · simp [Pool.abs, hopen]
      · by_cases hut : u = t
        · subst hut
          have := Tsk.phase_inQueue (d := (Function.update s.tsk u
            { s.tsk u with hist := (s.tsk u).hist ++ [.inserted] }) u) (x := x) (by simp [hx])
            (by simp [hnew])
          simpa [Pool.abs] using this
        · simp [Pool.abs, hut]
      · by_cases hjk : j = k
        · subst hjk; simp [Pool.abs, CallPc.request]
        · simp only [Pool.abs, Pool.log_calls, Pool.setCall_calls, TaskPool.setCall_calls,
            TaskPool.setPhase_calls, Function.update_of_ne hjk]
          refine CallPc.request_congr (fun u => ?_) _
          by_cases hut : u = t
          · subst hut; simp
          · simp [hut]
  | insert t r hpc _ _ =>
      have hcall : s.abs.calls k = .accepted t := hreq hpc
      have hstep := TaskPool.Step.enqueueRet k t hcall
      convert hstep using 1
      refine TaskPool.ext rfl rfl rfl rfl (funext fun j => ?_) rfl
      by_cases hjk : j = k
      · subst hjk; simp [Pool.abs, CallPc.request]
      · simp only [Pool.abs, Pool.setCall_calls, TaskPool.setCall_calls, Function.update_of_ne hjk]
        rfl
  | notFound id hpc _ hmem =>
      refine Pool.abs_call rfl rfl rfl (fun _ => rfl) rfl (fun _ => rfl) hothers (by simp; rfl)
        (.waitRet k id (hreq hpc) fun t ht hret => ?_)
      exact absurd (hcoded.table t hret) (hmem t ht)
  | isDone t hpc hst =>
      refine Pool.abs_call rfl rfl rfl (fun _ => rfl) rfl (fun _ => rfl) hothers (by simp; rfl)
        (.waitRet k t (hreq hpc) fun u hu _ => ?_)
      cases hu
      exact h.phase_done hcoded hst
  | waitEnd t hpc hsem =>
      have hdone := h.phase_done hcoded ((h.tsks.tsk t).sem hsem)
      have hsame : ∀ u, (Function.update s.tsk t { s.tsk t with taskSem := (s.tsk t).taskSem - 1 } u).tskCode
          = (s.tsk u).tskCode ∧
          (Function.update s.tsk t { s.tsk t with taskSem := (s.tsk t).taskSem - 1 } u).hist =
            (s.tsk u).hist := fun u => by
        by_cases hut : u = t
        · subst hut; simp
        · simp [hut]
      refine Pool.abs_call rfl rfl rfl (fun u => Tsk.phase_congr (hsame u).1 (hsame u).2) rfl
        (fun u => (hsame u).1) hothers (by simp; rfl) (.waitRet k t (hreq hpc) fun u hu _ => ?_)
      cases hu
      exact hdone

theorem PoolInv.abs_shutdownStep (h : PoolInv s) (hcoded : Coded s) (hs : s.ShutdownStep s' e) :
    s.abs.Step e s'.abs := by
  have hlife := h.queue.life
  have hleft : s.ctl = .ended → ∀ t x, ¬ s.abs.Active t x := fun hend t x hactive => by
    have hpast := (h.tsks.tsk t).past
    have hinserted : .inserted ∈ (s.tsk t).hist := by
      rcases hactive with hq | ⟨w, hr⟩
      · generalize hl : (s.tsk t).hist = l at hpast
        cases hpast with
        | fresh => simp [Pool.abs, Tsk.phase_fresh hl] at hq
        | queued | hand | given w | run w | performed w => simp
      · rw [(hpast.running rfl hr).1]; simp
    obtain ⟨⟨w, hw⟩, -⟩ := (h.drained hend).1 t hinserted
    obtain ⟨y, hy⟩ := hcoded.past t (by simp [hw])
    rcases hactive with hq | ⟨v, hr⟩
    · simp [Pool.abs, Tsk.phase_overBy hy hw] at hq
    · simp [Pool.abs, Tsk.phase_overBy hy hw] at hr
  have hshut : ∀ {sh : Shutdown}, s.shut = sh → sh ≠ .idle → sh ≠ .returned →
      s.abs.shutting = true := fun {sh} hsh hidle hret => by simp [Pool.abs, hsh, hidle, hret]
  cases hs with
  | lock hpc | check hpc _ | join hpc _ =>
      have hsilent : ∀ sh : Shutdown, sh ≠ .idle → sh ≠ .returned →
          s.abs.Step .tau ({ s with shut := sh } : Pool n α).abs := fun sh hidle hret => by
        have hself : ({ s with shut := sh } : Pool n α).abs = s.abs :=
          TaskPool.ext rfl (by simp [Pool.abs, hpc, hidle, hret]) rfl rfl rfl rfl
        rw [hself]
        exact .tau
      exact hsilent _ (by simp) (by simp)
  | nothing hpc hst =>
      have hclosed : s.abs.closed = true → s.ctl = .ended := fun hc => by
        have hq : s.tskQ.status = .closed := by simpa [Pool.abs] using hc
        cases hst' : s.status <;> simp [Life, hst', hq, hpc] at hlife hst
        exact hlife
      exact .shutdownRet 0 fun hc => hleft (hclosed hc)
  | close hpc =>
      have hstep := TaskPool.Step.close (p := s.abs) (hshut hpc (by simp) (by simp))
      convert hstep using 1
      refine TaskPool.ext rfl ?_ rfl rfl rfl rfl
      simp [Pool.abs, hpc]
  | finish hpc =>
      have hend : s.ctl = .ended := by
        cases hst : s.status <;> cases hq : s.tskQ.status <;> simp [Life, hst, hq, hpc] at hlife
        exact hlife.2
      exact .shutdownRet 0 fun _ => hleft hend

/-- **The pool refines its specification.** -/
theorem PoolInv.abs_step (h : PoolInv s) (hcoded : Coded s) (hs : s.Step a s' e) :
    s.abs.Step e s'.abs := by
  have hidle : ∀ {k : Caller n}, s.calls k = .idle → s.abs.calls k = .idle := fun {k} hk => by
    simp [Pool.abs, hk, CallPc.request]
  have hset : ∀ (k : Caller n) (c : CallPc α),
      (s.setCall k c).abs = s.abs.setCall k (c.request s.tsk) := fun k c => by
    refine TaskPool.ext rfl rfl rfl rfl (funext fun j => ?_) rfl
    by_cases hjk : j = k
    · subst hjk; simp only [Pool.abs, Pool.setCall_calls, TaskPool.setCall_calls,
        Function.update_self]; rfl
    · simp only [Pool.abs, Pool.setCall_calls, TaskPool.setCall_calls, Function.update_of_ne hjk]
      rfl
  cases hs with
  | startAgain hfree hst =>
      refine .startAgain ?_
      have hlife := h.queue.life
      cases hst' : s.status with
      | ready => exact absurd hst' hst
      | working => cases hq : s.tskQ.status <;> simp [Life, hst', hq] at hlife <;>
          simp [Pool.abs, hlife.1]
  | start _ _ hc => exact .start (by simp [Pool.abs, hc])
  | callGetStatus k hk _ => rw [hset]; exact .statusCall k (hidle hk)
  | callEnqueue k x hk _ => rw [hset]; exact .enqueueCall k x (hidle hk)
  | callWait k id hk _ => rw [hset]; exact .waitCall k id (hidle hk)
  | callShutdown hsh =>
      have hstep := TaskPool.Step.shutdownCall (p := s.abs)
      exact hstep
  | call k hk => exact h.abs_callStep hcoded hk
  | create k t x hpc hlt =>
      have hnew := (h.calls.unused t hlt).1
      have hmine : ∀ j u, (s.calls j).unqueued = some u → u ≠ t := fun j u hu heq =>
        absurd (heq ▸ (h.calls.pending j u (CallPc.unqueued_pending hu)).1) (Nat.not_le.2 hlt)
      suffices hself : ((({ s with lastId := t }.setTsk t
          { tskCode := some x, status := .waiting, taskSem := 0, hist := [] }).setCall k
            (.enqTable t)) : Pool n α).abs = s.abs by rw [hself]; exact .tau
      refine TaskPool.ext rfl rfl rfl (funext fun u => ?_) (funext fun j => ?_) rfl
      · by_cases hut : u = t
        · subst hut; simp [Pool.abs, Tsk.phase_fresh hnew, Tsk.phase_fresh]
        · simp [Pool.abs, hut]
      · by_cases hjk : j = k
        · subst hjk; simp [Pool.abs, CallPc.request, hpc]
        · simp only [Pool.abs, Pool.setCall_calls, Pool.setCall_tsk, Pool.setTsk_tsk,
            Pool.setTsk_calls, Function.update_of_ne hjk]
          refine CallPc.request_unqueued fun u hu => ?_
          simp [hmine j u hu]
  | worker w hw => exact h.abs_workerStep hcoded hw
  | taskReturn w t hpc hk => exact h.abs_taskReturn hpc hcoded hk
  | controller hc => exact h.abs_controllerStep hcoded hc
  | shutdown hsh => exact h.abs_shutdownStep hcoded hsh

end Abs

section Idle

variable {n : Nat} {α : Type} {p p' : Pool n α} {a : Pool.Action n α} {e : PoolEvent n α}

/-- The events by which a call or the pool itself begins or ends, where no call is in progress. -/
def PoolEvent.opens : PoolEvent n α → Bool
  | .startRet _ | .statusCall _ | .enqueueCall _ _ | .waitCall _ _ | .shutdownCall | .finished _ _ => true
  | _ => false

theorem Pool.opens_of_idle (hidle : ∀ k, p.calls k = .idle) (hctl : p.controllerBehaviour = none)
    (hworker : ∀ w, p.workerBehaviour w = none) (hshut : p.shutdownStep = none)
    (hs : p.stepEvent a = some (p', e)) : PoolEvent.opens e = true := by
  unfold Pool.stepEvent at hs
  split at hs
  · cases hs
  cases a with
  | start =>
      simp only [Pool.csWpStart] at hs
      split at hs
      · cases hs
      · split at hs
        · cases hs
          rfl
        · split at hs <;> cases hs
          rfl
  | callGetStatus k | callEnqueue k x | callWait k id =>
      simp only [Pool.beginCall, hidle k] at hs
      split at hs <;> cases hs
      rfl
  | callShutdown =>
      simp only at hs
      split at hs <;> cases hs
      rfl
  | call k => simp [Pool.callStep, hidle k] at hs
  | create k t => simp [Pool.createTsk, hidle k] at hs
  | worker w => simp [hworker w] at hs
  | taskReturn w =>
      simp only [Pool.taskReturn] at hs
      split at hs <;> cases hs
      rfl
  | controller => simp [hctl] at hs
  | shutdown => simp [hshut] at hs

/-- Who asks nothing of a pool is in no call. -/
theorem Coded.idle (h : Coded p) {k : Caller n} (hk : p.abs.calls k = .idle) : p.calls k = .idle := by
  have hrequest : (p.calls k).request p.tsk = .idle := hk
  have hcoded := h.unqueued k
  cases hc : p.calls k with
  | idle => rfl
  | enqTable t | enqLimit t | enqQueue t =>
      obtain ⟨x, hx⟩ := hcoded t (by simp [hc, CallPc.unqueued])
      simp [hc, CallPc.request, hx] at hrequest
  | _ => simp [hc, CallPc.request] at hrequest

end Idle

end ComplexSim.Workerpool
